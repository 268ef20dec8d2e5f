import OsRust.Sched
import OsRust.Lib.WaitFor
import Mathlib.Data.Fintype.Basic
import Mathlib.Order.Defs.LinearOrder

/-!
The spin locks of the scheduler: every `lock()` and every drop of a guard is a step of its own.

A CPU has a list of what it still has to do. `lock()` saves and disables interrupts in one step
and then spins; the guards form a stack, since Rust drops them in the reverse order. A critical
section of a thread begins with its outermost `lock()`, so that a thread is preempted only between
two of them. The data a lock protects is read and written in one step while the guard is alive. An
allocation that fails panics, and a run ends at its first panic.
-/

namespace OsRust.Locks

open OsRust.Ring OsRust.Task OsRust.Sched OsRust.Lib.Machine OsRust.Lib.WaitFor

inductive Lock (Cpu : Type*)
  /-- the `inner` of the frame allocator -/
  | frames
  /-- `GLOBAL_THREAD_TABLE` -/
  | table
  /-- `CPUS` -/
  | cpus
  /-- `GLOBAL_TERMINAL` -/
  | terminal
  /-- the `sched_state` of a thread -/
  | sched (a : ThreadAddr Cpu)
  /-- the `ready_queue` of a CPU -/
  | queue (c : Cpu)
  deriving DecidableEq

structure SpinLockGuard (Cpu : Type*) where
  lock : Lock Cpu
  interruptsState : Bool

inductive Op (Cpu : Type*)
  /-- `lock()` up to its loop -/
  | lock (l : Lock Cpu)
  /-- the loop of `lock()`, with what it will leave in the guard -/
  | spin (l : Lock Cpu) (interruptsEnabled : Bool)
  /-- the drop of the newest guard -/
  | drop
  | allocFrame
  | setupTls (base : UInt64)
  | forceSwitchToIdle
  | spawnRaw (base : UInt64)
  | addThread (id : UInt64)
  | getThreadMut (id : UInt64)
  /-- the body of `Thread::ready`, once its two locks are held -/
  | ready (id : UInt64) (i : ℕ)
  | saveRsp (rsp : UInt64)
  | switch
  | getCpuTls (o : Cpu)
  | maybeLoadBalance (o : Cpu)
  | doLoadBalance (o : Cpu)
  /-- a loop of `do_load_balance`, with `n` rounds to go -/
  | moveThreads (n : ℕ) (src dst : Cpu)
  /-- the body of the loop, once the lock of the thread is held -/
  | moveThread (src dst : Cpu)
  | iretq

structure Core (Cpu : Type*) where
  interrupts : Bool
  /-- The guards alive, the newest first. -/
  guards : List (SpinLockGuard Cpu)
  code : List (Op Cpu)

structure Machine (Cpu : Type*) where
  kernel : Kernel Cpu
  /-- The CPU whose guard locks the lock. -/
  locks : Lock Cpu → Option Cpu
  core : Cpu → Core Cpu

variable {Cpu : Type} [LinearOrder Cpu]

/-! ### The code -/

def println : List (Op Cpu) := [.lock .terminal, .drop]

/-- `alloc_frame`, and `Stack::new(1)`. -/
def allocFrame : List (Op Cpu) := [.lock .frames, .allocFrame, .drop]

/-- `common_entry` on its CPU, up to `iretq` into the idle thread: the TLS page and the idle thread's
stack, `CPUS`, the GDT and the IDT. -/
def commonEntry (base : UInt64) : List (Op Cpu) :=
  println ++ allocFrame ++ allocFrame ++ [.lock .cpus, .setupTls base, .drop] ++
    allocFrame ++ allocFrame ++ [.forceSwitchToIdle]

/-- `timer_interrupt`, when `random_u64` picks the CPU `o`. -/
def timerInterrupt (c o : Cpu) (rsp : UInt64) : List (Op Cpu) :=
  [.saveRsp rsp, .lock (.queue c), .switch, .drop, .lock .cpus, .getCpuTls o, .iretq]

/-- The critical sections of threads: the two allocations of a spawn, of which the second is that of
the stack, the two accesses to the thread table, and output. -/
inductive Section
  | allocFrame
  | spawnRaw (base : UInt64)
  | addThread (id : UInt64)
  | ready (id : UInt64)
  | println

def Section.lock : Section → Lock Cpu
  | .allocFrame => .frames
  | .spawnRaw _ => .frames
  | .addThread _ => .table
  | .ready _ => .table
  | .println => .terminal

/-- What is done under the lock. -/
def Section.code : Section → List (Op Cpu)
  | .allocFrame => [.allocFrame, .drop]
  | .spawnRaw base => [.spawnRaw base, .drop]
  | .addThread id => [.addThread id, .drop]
  | .ready id => [.getThreadMut id, .drop]
  | .println => [.drop]

/-! ### The steps -/

def Machine.setCore (m : Machine Cpu) (c : Cpu) (t : Core Cpu) : Machine Cpu :=
  { m with core := Function.update m.core c t }

def Machine.setLock (m : Machine Cpu) (l : Lock Cpu) (h : Option Cpu) : Machine Cpu :=
  { m with locks := Function.update m.locks l h }

@[simp] lemma setLock_self (m : Machine Cpu) (l : Lock Cpu) (h : Option Cpu) :
    (m.setLock l h).locks l = h :=
  Function.update_self ..

@[simp] lemma setLock_of_ne (m : Machine Cpu) {l l' : Lock Cpu} (h : Option Cpu) (hne : l' ≠ l) :
    (m.setLock l h).locks l' = m.locks l' :=
  Function.update_of_ne hne ..

/-- The CPU goes on with `code` in the kernel `k`. -/
def Machine.go (m : Machine Cpu) (c : Cpu) (k : Kernel Cpu) (code : List (Op Cpu)) :
    Machine Cpu :=
  { m with kernel := k }.setCore c { m.core c with code := code }

def Machine.enable (m : Machine Cpu) (c : Cpu) : Machine Cpu :=
  m.setCore c { m.core c with interrupts := true }

/-- The pop, the write of the thread's CPU and the push of one round; both queues are locked from
the pop to the push. -/
def moveThread (k : Kernel Cpu) (s d : Cpu) : Res (Kernel Cpu) := do
  let (th, qs, qd) ← Sched.moveThreads d 1 k.threads (k.tls s).readyQueue (k.tls d).readyQueue
  .ok { k with
    threads := th
    tls := Function.update
      (Function.update k.tls s { k.tls s with readyQueue := qs })
      d { k.tls d with readyQueue := qd } }

def exec (m : Machine Cpu) (c : Cpu) (rest : List (Op Cpu)) : Op Cpu → Res (Machine Cpu)
  | .lock l =>
    let t := m.core c
    .ok (m.setCore c { t with interrupts := false, code := .spin l t.interrupts :: rest })
  | .spin l b =>
    let t := m.core c
    match m.locks l with
    | some _ => .error .blocked
    | none => .ok (m.setLock l (some c)
        |>.setCore c { t with guards := ⟨l, b⟩ :: t.guards, code := rest })
  | .drop =>
    let t := m.core c
    match t.guards with
    | [] => .error .undef
    | g :: gs => .ok (m.setLock g.lock none
        |>.setCore c ⟨t.interrupts || g.interruptsState, gs, rest⟩)
  | .allocFrame => do
    let k ← Sched.step m.kernel .allocFrame
    .ok (m.go c k rest)
  | .setupTls base => do
    let k ← Sched.step m.kernel (.setupTls c base)
    .ok (m.go c k rest)
  | .forceSwitchToIdle => do
    let k ← Sched.step m.kernel (.forceSwitchToIdle c)
    .ok (m.go c k rest |>.enable c)
  | .spawnRaw base => do
    let k ← Sched.step m.kernel (.spawnRaw c base)
    .ok (m.go c k rest)
  | .addThread id => do
    let k ← Sched.step m.kernel (.addThread c ((m.kernel.built.map Thread.id).idxOf id))
    .ok (m.go c k rest)
  | .getThreadMut id => do
    let i ← unwrap (m.kernel.threads.table.getThreadMut id)
    .ok (m.go c m.kernel (.lock (.sched (.slot i)) :: .lock (.queue c) :: .ready id i ::
      .drop :: .drop :: rest))
  | .ready id i => do
    guard (Started m.kernel c)
    let k ← Sched.ready { m.kernel with added := m.kernel.added.erase id } c (.slot i)
    .ok (m.go c k rest)
  | .saveRsp rsp => do
    let k ← Sched.step m.kernel (.saveRsp c rsp)
    .ok (m.go c k rest)
  | .switch => do
    let k ← Sched.step m.kernel (.switch c)
    .ok (m.go c k rest)
  | .getCpuTls o =>
    .ok (m.go c m.kernel (.drop ::
      if m.kernel.online o then .maybeLoadBalance o :: rest else rest))
  | .maybeLoadBalance o =>
    .ok (m.go c m.kernel (
      if c = o then rest
      else if c < o then
        .lock (.queue c) :: .lock (.queue o) :: .doLoadBalance o :: .drop :: .drop :: rest
      else
        .lock (.queue o) :: .lock (.queue c) :: .doLoadBalance o :: .drop :: .drop :: rest))
  | .doLoadBalance o =>
    let delta : ℤ := ((m.kernel.tls c).readyQueue.len : ℤ) - (m.kernel.tls o).readyQueue.len
    let toMove := delta.natAbs / 2
    .ok (m.go c m.kernel (
      if delta.natAbs ≤ 1 then rest
      else if 0 < delta then .moveThreads toMove c o :: println ++ rest
      else .moveThreads toMove o c :: println ++ rest))
  | .moveThreads 0 _ _ => .ok (m.go c m.kernel rest)
  | .moveThreads (n + 1) s d => do
    match ← (m.kernel.tls s).readyQueue.pop with
    | some (a, _) =>
      .ok (m.go c m.kernel (.lock (.sched a) :: .moveThread s d :: .drop ::
        .moveThreads n s d :: rest))
    | none => .ok (m.go c m.kernel (.moveThreads n s d :: rest))
  | .moveThread s d => do
    guard (Started m.kernel c)
    let k ← moveThread m.kernel s d
    .ok (m.go c k rest)
  | .iretq =>
    .ok (m.go c m.kernel rest |>.enable c)

/-- The thread a step of a spawn is about. -/
def Op.spawns : Op Cpu → Option UInt64
  | .addThread id => some id
  | .getThreadMut id => some id
  | .ready id _ => some id
  | _ => none

inductive Act (Cpu : Type*)
  | commonEntry (c : Cpu) (base : UInt64)
  /-- The current thread begins a critical section. -/
  | call (c : Cpu) (s : Section)
  | timerInterrupt (c o : Cpu) (rsp : UInt64)
  /-- The CPU takes its next step. -/
  | next (c : Cpu)

variable [Fintype Cpu]

/-- A spawn goes on where it stands: with a thread it has built, or one it has put in the table,
and on one CPU only. -/
def Pending (m : Machine Cpu) : Section → Prop
  | .addThread id =>
    id ∈ m.kernel.built.map Thread.id ∧ ∀ d, ∀ op ∈ (m.core d).code, op.spawns ≠ some id
  | .ready id => id ∈ m.kernel.added ∧ ∀ d, ∀ op ∈ (m.core d).code, op.spawns ≠ some id
  | _ => True

instance (m : Machine Cpu) : (s : Section) → Decidable (Pending m s)
  | .addThread id => inferInstanceAs (Decidable (id ∈ m.kernel.built.map Thread.id ∧
    ∀ d, ∀ op ∈ (m.core d).code, op.spawns ≠ some id))
  | .ready id => inferInstanceAs (Decidable (id ∈ m.kernel.added ∧
    ∀ d, ∀ op ∈ (m.core d).code, op.spawns ≠ some id))
  | .allocFrame | .spawnRaw _ | .println => isTrue trivial

def step (m : Machine Cpu) : Act Cpu → Res (Machine Cpu)
  | .commonEntry c base => do
    guard ((m.core c).code.isEmpty ∧ (m.core c).interrupts = false)
    .ok (m.go c m.kernel (commonEntry base))
  | .call c s => do
    let t := m.core c
    guard (t.code.isEmpty ∧ t.interrupts = true ∧ Pending m s)
    exec m c s.code (.lock s.lock)
  | .timerInterrupt c o rsp => do
    let t := m.core c
    guard (t.interrupts = true)
    .ok (m.setCore c { t with interrupts := false, code := timerInterrupt c o rsp ++ t.code })
  | .next c =>
    match (m.core c).code with
    | [] => .error .blocked
    | op :: rest => exec m c rest op

/-- No CPU has started, and no lock is held. -/
structure Boot (m : Machine Cpu) : Prop where
  kernel : Sched.Boot m.kernel
  locks : ∀ l, m.locks l = none
  core : ∀ c, m.core c = ⟨false, [], []⟩

/-- The lock a CPU spins on. -/
def wants (m : Machine Cpu) (c : Cpu) : Option (Lock Cpu) :=
  match (m.core c).code with
  | .spin l _ :: _ => some l
  | _ => none

end OsRust.Locks
