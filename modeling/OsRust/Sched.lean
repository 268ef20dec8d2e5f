import OsRust.Ring
import OsRust.Task
import OsRust.Lib.Machine
import Mathlib.Algebra.Group.Nat.Defs
import Mathlib.Data.Int.Notation

/-!
The scheduler: its functions as the source has them, and the kernel they act on, one
critical section a step.

The critical sections of a spawn are separate steps: taking a page for the closure, taking an
identifier and a stack, adding the thread to the table, and finding it again to make it ready.
Between them the spawning thread can be preempted and resumed on another CPU, and other CPUs can
run, so the threads built and not yet added and the identifiers added and not yet made ready are
part of the state. A page is only a frame less, so that nothing remembers whose it is.
-/

namespace OsRust.Sched

open OsRust.Ring OsRust.Task OsRust.Lib.Machine

/-- The fields of the TLS page the scheduler uses; the idle thread is among `Threads`. -/
structure TlsData (Cpu : Type*) where
  threadAddr : ThreadAddr Cpu
  readyQueue : Queue (ThreadAddr Cpu)

structure Kernel (Cpu : Type*) where
  /-- `GLOBAL_THREAD_ID_COUNTER`. -/
  threadIdCounter : UInt64
  /-- Frames the allocator can still hand out. -/
  freeFrames : ℕ
  threads : Threads Cpu
  online : Cpu → Bool
  tls : Cpu → TlsData Cpu
  /-- Threads that `spawn_raw` has built and not yet put in the table. -/
  built : List (Thread Cpu)
  /-- Identifiers of threads that `spawn_raw` has put in the table and not yet made ready. -/
  added : List UInt64

variable {Cpu : Type} [DecidableEq Cpu]

/-! ### The functions -/

def forceSwitchToIdle (c : Cpu) (t : TlsData Cpu) : TlsData Cpu := { t with threadAddr := .idle c }

def switch (c : Cpu) (t : TlsData Cpu) : Res (TlsData Cpu) := do
  match ← t.readyQueue.pop with
  | none => .ok t
  | some (next, q) =>
    if t.threadAddr = .idle c then .ok { threadAddr := next, readyQueue := q }
    else
      let q ← expect "Ready queue is full" (← q.push t.threadAddr)
      .ok { threadAddr := next, readyQueue := q }

/-- One of the two loops of `do_load_balance`: `n` times from `src` to `dst`, whose CPU is
`c`. -/
def moveThreads (c : Cpu) : ℕ → Threads Cpu → Queue (ThreadAddr Cpu) → Queue (ThreadAddr Cpu) →
    Res (Threads Cpu × Queue (ThreadAddr Cpu) × Queue (ThreadAddr Cpu))
  | 0, th, src, dst => .ok (th, src, dst)
  | n + 1, th, src, dst => do
    match ← src.pop with
    | some (a, src) =>
      let th ← th.write a (Thread.setCpu c)
      let dst ← expect "Ready queue is full" (← dst.push a)
      moveThreads c n th src dst
    | none => moveThreads c n th src dst

def doLoadBalance (th : Threads Cpu) (qa qb : Queue (ThreadAddr Cpu)) (cpuId otherCpuId : Cpu) :
    Res (Threads Cpu × Queue (ThreadAddr Cpu) × Queue (ThreadAddr Cpu)) :=
  let delta : ℤ := (qa.len : ℤ) - qb.len
  if delta.natAbs ≤ 1 then .ok (th, qa, qb)
  else
    let toMove := delta.natAbs / 2
    if 0 < delta then moveThreads otherCpuId toMove th qa qb
    else do
      let (th, qb, qa) ← moveThreads cpuId toMove th qb qa
      .ok (th, qa, qb)

/-- `maybe_load_balance` on CPU `c`, where `o` is the random identifier. Both queues are
locked throughout. -/
def maybeLoadBalance (k : Kernel Cpu) (c o : Cpu) : Res (Kernel Cpu) :=
  if k.online o = false then .ok k
  else if c = o then .ok k
  else do
    let (th, qa, qb) ← doLoadBalance k.threads (k.tls c).readyQueue (k.tls o).readyQueue c o
    .ok { k with
      threads := th
      tls := Function.update
        (Function.update k.tls c { k.tls c with readyQueue := qa })
        o { k.tls o with readyQueue := qb } }

/-- `Thread::ready` of the thread at `a`, on CPU `c`. -/
def ready (k : Kernel Cpu) (c : Cpu) (a : ThreadAddr Cpu) : Res (Kernel Cpu) := do
  let th ← k.threads.write a (Thread.markReady c)
  let q ← expect "Ready queue is full" (← (k.tls c).readyQueue.push a)
  .ok { k with
    threads := th
    tls := Function.update k.tls c { k.tls c with readyQueue := q } }

/-- `alloc_frames(n).expect("Out of memory")`, as far as the number of frames goes. The allocator
wants them in a row, in one region, so that it may fail where this does not. -/
def allocFrames (k : Kernel Cpu) (n : ℕ) : Res (Kernel Cpu) :=
  if n ≤ k.freeFrames then .ok { k with freeFrames := k.freeFrames - n }
  else .error (.panic "Out of memory")

/-- `spawn_raw` up to the first acquisition of `GLOBAL_THREAD_TABLE`: the identifier, and the four
pages of the stack, which begin at `base`. -/
def spawnRaw (k : Kernel Cpu) (base : UInt64) : Res (Kernel Cpu) := do
  let id := k.threadIdCounter
  let k ← allocFrames { k with threadIdCounter := id + 1 } 4
  .ok { k with built := k.built ++ [newThread id (Stack.new base 4)] }

/-- The first critical section of `spawn_raw` on `GLOBAL_THREAD_TABLE`. -/
def addThread (k : Kernel Cpu) (n : ℕ) : Res (Kernel Cpu) :=
  match k.built[n]? with
  | none => .error .blocked
  | some t =>
    let r := k.threads.table.addThread t
    .ok { k with
      threads := { k.threads with table := r.1 }
      built := k.built.eraseIdx n
      added := if r.2 then k.added ++ [t.id] else k.added }

/-- The second one: `get_thread_mut(id).unwrap().ready()`, on CPU `c`. -/
def readyAdded (k : Kernel Cpu) (c : Cpu) (n : ℕ) : Res (Kernel Cpu) :=
  match k.added[n]? with
  | none => .error .blocked
  | some id => do
    let i ← unwrap (k.threads.table.getThreadMut id)
    ready { k with added := k.added.eraseIdx n } c (.slot i)

/-- `setup_tls`, once it has its two pages: the stack of the idle thread begins at `base`. Nobody
else sees the TLS page before the CPU is online. -/
def setupTls (k : Kernel Cpu) (c : Cpu) (base : UInt64) : Kernel Cpu :=
  { k with
    threads := { k.threads with
      idle := Function.update k.threads.idle c (newIdle (Stack.new base 1)) }
    online := Function.update k.online c true
    tls := Function.update k.tls c ⟨.null, Ring.new⟩ }

/-- The save of `rsp` into `thread.regs` on entry to `timer_interrupt`. -/
def saveRsp (k : Kernel Cpu) (c : Cpu) (rsp : UInt64) : Res (Kernel Cpu) := do
  let th ← k.threads.write (k.tls c).threadAddr fun t => { t with regs := rsp }
  .ok { k with threads := th }

/-! ### The steps -/

inductive Act (Cpu : Type*)
  /-- a page the scheduler does not look into: of a closure, a TLS page, an idle thread's stack, a
  GDT or an IDT -/
  | allocFrame
  | setupTls (c : Cpu) (base : UInt64)
  | forceSwitchToIdle (c : Cpu)
  | spawnRaw (c : Cpu) (base : UInt64)
  | addThread (c : Cpu) (n : ℕ)
  | readyAdded (c : Cpu) (n : ℕ)
  | saveRsp (c : Cpu) (rsp : UInt64)
  | switch (c : Cpu)
  | maybeLoadBalance (c o : Cpu)

/-- The CPU runs in a thread context. -/
def Started (k : Kernel Cpu) (c : Cpu) : Prop := (k.tls c).threadAddr ≠ .null

instance (k : Kernel Cpu) (c : Cpu) : Decidable (Started k c) :=
  inferInstanceAs (Decidable (_ ≠ _))

def step (k : Kernel Cpu) : Act Cpu → Res (Kernel Cpu)
  | .allocFrame => allocFrames k 1
  | .setupTls c base => do
    guard (k.online c = false)
    .ok (setupTls k c base)
  | .forceSwitchToIdle c => do
    guard (k.online c = true ∧ ¬ Started k c)
    .ok { k with tls := Function.update k.tls c (forceSwitchToIdle c (k.tls c)) }
  | .spawnRaw c base => do
    guard (Started k c)
    spawnRaw k base
  | .addThread c n => do
    guard (Started k c)
    addThread k n
  | .readyAdded c n => do
    guard (Started k c)
    readyAdded k c n
  | .saveRsp c rsp => do
    guard (Started k c)
    saveRsp k c rsp
  | .switch c => do
    guard (Started k c)
    let t ← switch c (k.tls c)
    .ok { k with tls := Function.update k.tls c t }
  | .maybeLoadBalance c o => do
    guard (Started k c)
    maybeLoadBalance k c o

/-- Before the first CPU calls `setup_tls`, with memory for fewer than `2 ^ 64` stacks of four
frames. (Physical addresses have 52 bits, so there are at most `2 ^ 40` frames.) -/
structure Boot (k : Kernel Cpu) : Prop where
  counter : k.threadIdCounter = 1
  frames : k.freeFrames < 4 * 2 ^ 64
  table : k.threads.table = ThreadTable.new
  online : ∀ c, k.online c = false
  tls : ∀ c, k.tls c = ⟨.null, Ring.new⟩
  built : k.built = []
  added : k.added = []

/-- A kernel with `n` free frames, before any CPU has started. -/
def bootKernel (Cpu : Type) (n : ℕ) : Kernel Cpu where
  threadIdCounter := 1
  freeFrames := n
  threads := ⟨ThreadTable.new, fun _ => newIdle ⟨0, 0⟩⟩
  online _ := false
  tls _ := ⟨.null, Ring.new⟩
  built := []
  added := []

omit [DecidableEq Cpu] in
lemma boot_bootKernel {n : ℕ} (h : n < 4 * 2 ^ 64) : Boot (bootKernel Cpu n) :=
  ⟨rfl, h, rfl, fun _ => rfl, fun _ => rfl, rfl, rfl⟩

/-- CPU `c` goes through `common_entry`, with nobody else in between. -/
def startOn (c : Cpu) (base : UInt64) : List (Act Cpu) :=
  [.allocFrame, .allocFrame, .setupTls c base, .allocFrame, .allocFrame, .forceSwitchToIdle c]

/-- CPU `c` spawns a thread, with nobody else in between. -/
def spawnOn (c : Cpu) (base : UInt64) : List (Act Cpu) :=
  [.allocFrame, .spawnRaw c base, .addThread c 0, .readyAdded c 0]

/-- The kernel states some interleaving of the CPUs reaches from boot. -/
def Reached (k : Kernel Cpu) : Prop := Reachable step Boot k

end OsRust.Sched
