import OsRust.Panics
import OsRust.Registers
import Mathlib.Data.List.ReduceOption

/-!
Context switches on one CPU, down to the words on the kernel stacks.

Between two timer interrupts the running thread may leave anything in its registers and on its
own stack. The log keeps what was seen of every thread's registers: what it was built with, what
it had when it was preempted, and what it had when it was resumed.
-/

namespace OsRust.ContextSwitch

open OsRust.Ring OsRust.Task OsRust.Sched OsRust.Effects OsRust.ThreadIds OsRust.Placement
open OsRust.Panics OsRust.Registers OsRust.Lib.Machine OsRust.Lib.Bytes

/-- What is seen of the registers of the thread with an identifier. -/
inductive Event
  | built (id : UInt64) (r : Regs)
  | preempted (id : UInt64) (r : Regs)
  | resumed (id : UInt64) (r : Regs)

structure Machine (Cpu : Type*) where
  kernel : Kernel Cpu
  mem : Mem
  regs : Regs
  /-- The newest event first. -/
  log : List Event

/-- Addresses that are fixed when the kernel is linked, and those of the threads. -/
structure Image (Cpu : Type*) where
  idleThreadEntry : UInt64
  timerInterrupt : UInt64
  thread : ThreadAddr Cpu → UInt64

/-- What the source does not determine in a call of `timer_handler`: the general registers it
leaves behind, what it writes below the frame, and the CPU `random_u64` picks. -/
structure Call (Cpu : Type*) where
  gpr : Reg → UInt64
  below : Mem
  other : Cpu

variable {Cpu : Type} [DecidableEq Cpu]

/-! ### The instructions -/

/-- The thread behind a `*const Thread`. -/
def thread (k : Kernel Cpu) (a : ThreadAddr Cpu) : Res (Thread Cpu) :=
  match k.threads.get? a with
  | none => .error .undef
  | some t => .ok t

/-- The delivery of the timer interrupt: `rsp` is aligned down to 16, `ss`, `rsp`, `rflags`, `cs`
and `rip` are pushed, and interrupts are off from then on. -/
def deliver (im : Image Cpu) (m : Machine Cpu) : Machine Cpu :=
  let sp := m.regs.rsp - m.regs.rsp % 16
  { m with
    mem := m.mem.pushWords sp.toNat m.regs.interruptWords
    regs := { m.regs with
      rip := im.timerInterrupt
      cs := kernelCs
      rflags := m.regs.rflags &&& ~~~interruptFlag
      rsp := sp - 40 } }

/-- `timer_handler`, on the stack of the interrupted thread; the accesses to the local APIC are
left out. -/
def timerHandler (c : Cpu) (e : Call Cpu) (m : Machine Cpu) : Res (Machine Cpu) := do
  let t ← thread m.kernel (current m.kernel c)
  let k ← Sched.step m.kernel (.switch c)
  let k ← Sched.step k (.maybeLoadBalance c e.other)
  .ok { m with
    kernel := k
    mem := m.mem.overlay t.kernelStack.base.toNat m.regs.rsp.toNat e.below
    regs := { m.regs with gpr := e.gpr } }

def exec (im : Image Cpu) (c : Cpu) (handler : Machine Cpu → Res (Machine Cpu))
    (m : Machine Cpu) : Instr → Res (Machine Cpu)
  | .push r =>
    let sp := m.regs.rsp - 8
    .ok { m with
      mem := m.mem.write64 sp.toNat (m.regs.gpr r)
      regs := { m.regs with rsp := sp } }
  | .pop r =>
    .ok { m with regs := { m.regs with
      gpr := Function.update m.regs.gpr r (m.mem.read64 m.regs.rsp.toNat)
      rsp := m.regs.rsp + 8 } }
  | .movRaxThread =>
    .ok { m with regs := { m.regs with
      gpr := Function.update m.regs.gpr .rax (im.thread (current m.kernel c)) } }
  | .movRegsRsp =>
    if m.regs.gpr .rax = im.thread (current m.kernel c) then do
      let k ← Sched.step m.kernel (.saveRsp c m.regs.rsp)
      .ok { m with kernel := k }
    else .error .undef
  | .movRspRegs =>
    if m.regs.gpr .rax = im.thread (current m.kernel c) then do
      let t ← thread m.kernel (current m.kernel c)
      .ok { m with regs := { m.regs with rsp := t.regs } }
    else .error .undef
  | .movRspIdle => .ok { m with regs := { m.regs with rsp := (m.kernel.threads.idle c).regs } }
  | .callHandler => handler m
  | .iretq =>
    let sp := m.regs.rsp.toNat
    .ok { m with regs := { m.regs with
      rip := m.mem.read64 sp
      cs := (m.mem.read64 (sp + 8)).toUInt16
      rflags := m.mem.read64 (sp + 16)
      rsp := m.mem.read64 (sp + 24)
      ss := (m.mem.read64 (sp + 32)).toUInt16 } }

/-! ### The stacks -/

/-- What a context switch knows of a thread. -/
structure Entry where
  id : UInt64
  stack : Stack
  regs : UInt64
  deriving DecidableEq

def entry (t : Thread Cpu) : Entry := ⟨t.id, t.kernelStack, t.regs⟩

/-- Every thread there is on CPU `c`: its idle thread, those in the table, and those that
`spawn_raw` has built and not yet put there. -/
def entries (k : Kernel Cpu) (c : Cpu) : List Entry :=
  (if k.online c then [entry (k.threads.idle c)] else []) ++
    k.threads.table.threads.reduceOption.map entry ++ k.built.map entry

/-- The stacks share no byte. -/
def Apart (s s' : Stack) : Prop :=
  s.base.toNat + s.size.toNat ≤ s'.base.toNat ∨ s'.base.toNat + s'.size.toNat ≤ s.base.toNat

instance (s s' : Stack) : Decidable (Apart s s') := inferInstanceAs (Decidable (_ ∨ _))

/-- A stack just allocated lies in the address space and overlaps no stack in use. -/
def Fresh (k : Kernel Cpu) (c : Cpu) (s : Stack) : Prop :=
  s.base.toNat + s.size.toNat < 2 ^ 64 ∧ ∀ x ∈ entries k c, Apart x.stack s

instance (k : Kernel Cpu) (c : Cpu) (s : Stack) : Decidable (Fresh k c s) :=
  inferInstanceAs (Decidable (_ ∧ _))

/-- A thread with this `rsp` is inside its stack, and so is the frame an interrupt leaves there. -/
def Inside (s : Stack) (rsp : UInt64) : Prop :=
  s.base.toNat + s.size.toNat < 2 ^ 64 ∧ s.base.toNat + 160 ≤ rsp.toNat / 16 * 16 ∧
    rsp.toNat ≤ s.base.toNat + s.size.toNat

instance (s : Stack) (rsp : UInt64) : Decidable (Inside s rsp) :=
  inferInstanceAs (Decidable (_ ∧ _))

/-! ### The steps -/

inductive Act (Cpu : Type*)
  | setupTls (base : UInt64)
  | forceSwitchToIdle
  | spawnRaw (base entry arg : UInt64)
  | addThread (n : ℕ)
  | readyAdded (n : ℕ)
  /-- The running thread runs: any registers, and anything on its own stack. -/
  | work (regs : Regs) (own : Mem)
  | timerInterrupt (e : Call Cpu)

/-- The current thread runs on. -/
def resume (c : Cpu) (m : Machine Cpu) : Res (Machine Cpu) := do
  let t ← thread m.kernel (current m.kernel c)
  .ok { m with log := .resumed t.id m.regs :: m.log }

def step (im : Image Cpu) (c : Cpu) (m : Machine Cpu) : Act Cpu → Res (Machine Cpu)
  | .setupTls base => do
    guard (Fresh m.kernel c (Stack.new base 1))
    let k ← Sched.step m.kernel (.setupTls c base)
    let mem ← idleFrame m.mem (Stack.new base 1) im.idleThreadEntry
    let r := initial im.idleThreadEntry 0 (Stack.new base 1).getTopAddress
    .ok ⟨k, mem, m.regs, .built 0 r :: m.log⟩
  | .forceSwitchToIdle => do
    let k ← Sched.step m.kernel (.forceSwitchToIdle c)
    let m ← run (exec im c .ok) { m with kernel := k } switchToIdle
    resume c m
  | .spawnRaw base entry arg => do
    guard (Fresh m.kernel c (Stack.new base 4))
    let k ← Sched.step m.kernel (.spawnRaw c base)
    let mem ← spawnFrame m.mem (Stack.new base 4) entry arg
    let r := initial entry arg (Stack.new base 4).getTopAddress
    .ok ⟨k, mem, m.regs, .built m.kernel.threadIdCounter r :: m.log⟩
  | .addThread n => do
    let k ← Sched.step m.kernel (.addThread c n)
    .ok { m with kernel := k }
  | .readyAdded n => do
    let k ← Sched.step m.kernel (.readyAdded c n)
    .ok { m with kernel := k }
  | .work regs own => do
    let t ← thread m.kernel (current m.kernel c)
    guard (Inside t.kernelStack regs.rsp)
    let s := t.kernelStack
    .ok { m with
      regs := regs
      mem := m.mem.overlay s.base.toNat (s.base.toNat + s.size.toNat) own }
  | .timerInterrupt e => do
    guard (Started m.kernel c ∧ m.regs.rflags &&& interruptFlag ≠ 0)
    let t ← thread m.kernel (current m.kernel c)
    let m := deliver im { m with log := .preempted t.id m.regs :: m.log }
    let m ← run (exec im c (timerHandler c e)) m timerInterrupt
    resume c m

/-- No CPU has started. -/
structure Boot (m : Machine Cpu) : Prop where
  kernel : Sched.Boot m.kernel
  log : m.log = []

/-- The registers a thread was last preempted with, or was built with if it never was. -/
def lastContext : List Event → UInt64 → Option Regs
  | [], _ => none
  | .built id r :: log, i => if id = i then some r else lastContext log i
  | .preempted id r :: log, i => if id = i then some r else lastContext log i
  | .resumed _ _ :: log, i => lastContext log i

/-- Every thread was resumed with the registers it was last preempted or built with. -/
def Faithful (log : List Event) : Prop :=
  ∀ newer id r older, log = newer ++ .resumed id r :: older → lastContext older id = some r

variable {im : Image Cpu} {c : Cpu} {handler : Machine Cpu → Res (Machine Cpu)}
variable {m m' : Machine Cpu} {k k' : Kernel Cpu} {mem mem' : Mem} {log : List Event}

omit [DecidableEq Cpu] in
@[simp] lemma thread_ok {a : ThreadAddr Cpu} {t : Thread Cpu} :
    thread k a = .ok t ↔ k.threads.get? a = some t := by
  unfold thread
  cases k.threads.get? a <;> simp

/-! ### Saving and restoring -/

variable (im c handler m) in
lemma run_push (rs : List Reg) (h : 8 * rs.length ≤ m.regs.rsp.toNat) :
    ∃ sp : UInt64, sp.toNat = m.regs.rsp.toNat - 8 * rs.length ∧
      run (exec im c handler) m (rs.map .push) = .ok { m with
        mem := m.mem.pushWords m.regs.rsp.toNat (rs.map m.regs.gpr)
        regs := { m.regs with rsp := sp } } := by
  induction rs generalizing m with
  | nil => exact ⟨m.regs.rsp, by simp, rfl⟩
  | cons r rs ih =>
    simp only [List.length_cons] at h ⊢
    have hsub : (m.regs.rsp - 8).toNat = m.regs.rsp.toNat - 8 :=
      UInt64.toNat_sub_of_le _ _ (UInt64.le_iff_toNat_le.mpr (show 8 ≤ _ by omega))
    obtain ⟨sp, hsp, hrun⟩ := ih { m with
      mem := m.mem.write64 (m.regs.rsp.toNat - 8) (m.regs.gpr r)
      regs := { m.regs with rsp := m.regs.rsp - 8 } } (by simp only [hsub]; omega)
    simp only [hsub] at hsp hrun
    refine ⟨sp, by omega, ?_⟩
    rw [List.map_cons, run]
    simp only [exec, hsub]
    exact hrun

/-- The registers of the list, with the words in their place. -/
def assign : List Reg → List UInt64 → (Reg → UInt64) → Reg → UInt64
  | r :: rs, v :: vs, g => assign rs vs (Function.update g r v)
  | _, _, g => g

lemma assign_map (rs : List Reg) (f g : Reg → UInt64) (x : Reg) :
    assign rs (rs.map f) g x = if x ∈ rs then f x else g x := by
  induction rs generalizing g with
  | nil => rfl
  | cons r rs ih =>
    rw [List.map_cons, assign, ih]
    by_cases hx : x ∈ rs
    · simp [hx]
    · by_cases hr : x = r
      · subst hr
        simp [hx]
      · simp [hr, hx]

variable (im c handler m) in
lemma run_pop (rs : List Reg) (h : m.regs.rsp.toNat + 8 * rs.length < 2 ^ 64) :
    ∃ sp : UInt64, sp.toNat = m.regs.rsp.toNat + 8 * rs.length ∧
      run (exec im c handler) m (rs.map .pop) = .ok { m with regs := { m.regs with
        gpr := assign rs (m.mem.readWords m.regs.rsp.toNat rs.length) m.regs.gpr
        rsp := sp } } := by
  induction rs generalizing m with
  | nil => exact ⟨m.regs.rsp, by simp, rfl⟩
  | cons r rs ih =>
    simp only [List.length_cons] at h ⊢
    have hadd : (m.regs.rsp + 8).toNat = m.regs.rsp.toNat + 8 := by
      rw [UInt64.toNat_add]
      exact Nat.mod_eq_of_lt (by show m.regs.rsp.toNat + 8 < 2 ^ 64; omega)
    obtain ⟨sp, hsp, hrun⟩ := ih { m with regs := { m.regs with
      gpr := Function.update m.regs.gpr r (m.mem.read64 m.regs.rsp.toNat)
      rsp := m.regs.rsp + 8 } } (by simp only [hadd]; omega)
    simp only [hadd] at hsp hrun
    refine ⟨sp, by omega, ?_⟩
    rw [List.map_cons, run, Mem.readWords, assign]
    exact hrun

/-- **The pops and `iretq` restore a frame**: whatever the registers were, they are those the words
at `rsp` hold. -/
lemma run_restore {r : Regs} (hlt : m.regs.rsp.toNat + 160 < 2 ^ 64)
    (hw : m.mem.readWords m.regs.rsp.toNat 20 = r.onStack.words) :
    run (exec im c handler) m (frameOrder.map .pop ++ [.iretq]) = .ok { m with regs := r } := by
  have hlen : frameOrder.length = 15 := rfl
  obtain ⟨sp, hsp, hpop⟩ := run_pop im c handler m frameOrder (by omega)
  -- the fifteen words below and the five words above
  have hsplit := readWords_add (m := m.mem) (a := m.regs.rsp.toNat) (n := 15) (k := 5)
  rw [show 15 + 5 = 20 from rfl, hw, words_onStack] at hsplit
  obtain ⟨hgpr, hframe⟩ := List.append_inj hsplit (by simp [hlen])
  rw [hlen, ← hgpr] at hpop
  rw [hlen] at hsp
  rw [show m.regs.rsp.toNat + 8 * 15 = sp.toNat by omega] at hframe
  simp only [Regs.interruptWords, List.reverse_cons, List.reverse_nil, List.nil_append,
    List.cons_append, Mem.readWords, List.cons.injEq] at hframe
  obtain ⟨hrip, hcs, hrflags, hrsp, hss, -⟩ := hframe
  have hall : assign frameOrder (frameOrder.map r.gpr) m.regs.gpr = r.gpr := by
    funext x
    rw [assign_map, if_pos (mem_frameOrder x)]
  refine run_append_ok.mpr ⟨_, hpop, ?_⟩
  simp only [run, exec, hall, ← hrip, ← hcs, ← hrflags, ← hrsp, ← hss, UInt16.toUInt16_toUInt64]

lemma toNat_align (x : UInt64) : (x - x % 16).toNat = x.toNat / 16 * 16 := by
  have hmod : (x % 16).toNat = x.toNat % 16 := by simp
  rw [UInt64.toNat_sub_of_le _ _ (UInt64.le_iff_toNat_le.mpr (by omega)), hmod]
  omega

lemma toNat_align_sub {x : UInt64} (h : 160 ≤ x.toNat / 16 * 16) :
    (x - x % 16 - 40).toNat = x.toNat / 16 * 16 - 40 := by
  have h40 : (40 : UInt64).toNat = 40 := by decide
  have hle : (40 : UInt64) ≤ x - x % 16 := by
    rw [UInt64.le_iff_toNat_le, toNat_align, h40]
    omega
  rw [UInt64.toNat_sub_of_le _ _ hle, toNat_align, h40]

variable (im c handler) in
/-- **The interrupt and the pushes save a frame** below `rsp`, and write nothing else. -/
lemma run_save {s : Stack} (h : Inside s m.regs.rsp) :
    ∃ mem regs, run (exec im c handler) (deliver im m) (frameOrder.reverse.map .push) =
        .ok { m with mem := mem, regs := regs } ∧
      regs.rsp.toNat = m.regs.rsp.toNat / 16 * 16 - 160 ∧
      mem.readWords regs.rsp.toNat 20 = m.regs.onStack.words ∧
      ∀ a n, a + n ≤ regs.rsp.toNat ∨ m.regs.rsp.toNat ≤ a → AgreeOn m.mem mem a n := by
  have hlow : 160 ≤ m.regs.rsp.toNat / 16 * 16 := le_trans (Nat.le_add_left ..) h.2.1
  have hle : m.regs.rsp.toNat / 16 * 16 ≤ m.regs.rsp.toNat := Nat.div_mul_le_self ..
  have hrsp : (deliver im m).regs.rsp.toNat = m.regs.rsp.toNat / 16 * 16 - 40 := toNat_align_sub hlow
  have hmem : (deliver im m).mem =
      m.mem.pushWords (m.regs.rsp.toNat / 16 * 16) m.regs.interruptWords := by
    rw [← toNat_align]
    rfl
  generalize m.regs.rsp.toNat / 16 * 16 = top at *
  have hlen : frameOrder.reverse.length = 15 := rfl
  have hwords : (m.regs.interruptWords ++ frameOrder.reverse.map m.regs.gpr).length = 20 := rfl
  obtain ⟨p, hp, hrun⟩ := run_push im c handler (deliver im m) frameOrder.reverse
    (by omega)
  have hpush : (deliver im m).mem.pushWords (deliver im m).regs.rsp.toNat
      (frameOrder.reverse.map (deliver im m).regs.gpr) =
      m.mem.pushWords top (m.regs.interruptWords ++ frameOrder.reverse.map m.regs.gpr) := by
    rw [hrsp, hmem, pushWords_append]
    rfl
  rw [hpush] at hrun
  refine ⟨_, _, hrun, ?_, ?_, fun a n han => .pushWords (by omega) ?_⟩
  · show p.toNat = _
    omega
  · have hread : (m.mem.pushWords top (m.regs.interruptWords ++
        frameOrder.reverse.map m.regs.gpr)).readWords (top - 8 * 20) (20 + 0) = _ :=
      readWords_pushWords (by omega)
    show Mem.readWords _ p.toNat 20 = _
    rw [show p.toNat = top - 8 * 20 by omega, hread, words_onStack]
    simp [Mem.readWords]
  · have : a + n ≤ p.toNat ∨ m.regs.rsp.toNat ≤ a := han
    omega

/-! ### The threads there are -/

omit [DecidableEq Cpu] in
lemma mem_reduceOption {l : List (Option (Thread Cpu))} {t : Thread Cpu} :
    t ∈ l.reduceOption ↔ ∃ i : ℕ, l[i]?.join = some t := by
  rw [List.reduceOption_mem_iff, List.mem_iff_getElem?]
  simp only [Option.join_eq_some_iff]

omit [DecidableEq Cpu] in
lemma mem_entries {x : Entry} :
    x ∈ entries k c ↔ (k.online c = true ∧ x = entry (k.threads.idle c)) ∨
      (∃ i t, k.threads.get? (.slot i) = some t ∧ x = entry t) ∨ ∃ t ∈ k.built, x = entry t := by
  have hslots : x ∈ k.threads.table.threads.reduceOption.map entry ↔
      ∃ i t, k.threads.get? (.slot i) = some t ∧ x = entry t := by
    simp only [List.mem_map, mem_reduceOption, Threads.get?, ThreadTable.get?]
    constructor
    · rintro ⟨t, ⟨i, ht⟩, rfl⟩
      exact ⟨i, t, ht, rfl⟩
    · rintro ⟨i, t, ht, rfl⟩
      exact ⟨t, ⟨i, ht⟩, rfl⟩
  have hidle : x ∈ (if k.online c then [entry (k.threads.idle c)] else []) ↔
      k.online c = true ∧ x = entry (k.threads.idle c) := by
    split
    · next h => simp [h]
    · next h => simp [h]
  have hbuilt : x ∈ k.built.map entry ↔ ∃ t ∈ k.built, x = entry t := by
    simp only [List.mem_map, eq_comm]
  rw [entries, List.mem_append, List.mem_append, hslots, hidle, hbuilt, or_assoc]

/-- The entry of the current thread. -/
def running (k : Kernel Cpu) (c : Cpu) : Option Entry :=
  (k.threads.get? (current k c)).map entry

/-- The frame at `regs` is on the stack, below where a thread with these registers is, and holds
them. -/
structure Framed (mem : Mem) (s : Stack) (regs : UInt64) (r : Regs) : Prop where
  low : s.base.toNat ≤ regs.toNat
  high : regs.toNat + 160 ≤ r.rsp.toNat
  words : mem.readWords regs.toNat 20 = r.onStack.words
  inside : Inside s r.rsp

section Framed

variable {s : Stack} {rsp : UInt64} {r : Regs}

lemma Framed.congr (h : Framed mem s rsp r) (hmem : AgreeOn mem mem' rsp.toNat 160) :
    Framed mem' s rsp r where
  low := h.low
  high := h.high
  words := (readWords_congr hmem).trans h.words
  inside := h.inside

/-- The frame is part of the stack. -/
lemma Framed.top (h : Framed mem s rsp r) : rsp.toNat + 160 ≤ s.base.toNat + s.size.toNat :=
  h.high.trans h.inside.2.2

/-- The first frame of a thread is at the top of its stack, and is all that is written. -/
lemma framed_spawnFrame {e arg : UInt64} (hlt : s.base.toNat + s.size.toNat < 2 ^ 64)
    (hsize : 4096 ≤ s.size.toNat) (hframe : spawnFrame mem s e arg = .ok mem') :
    Framed mem' s (s.getTopAddress - regsSize) (initial e arg s.getTopAddress) ∧
      ∀ s', Apart s' s → AgreeOn mem mem' s'.base.toNat s'.size.toNat := by
  obtain ⟨haligned, rfl⟩ := spawnFrame_ok.mp hframe
  have htop : s.getTopAddress.toNat = s.base.toNat + s.size.toNat := by
    rw [Stack.getTopAddress, UInt64.toNat_add, Nat.mod_eq_of_lt hlt]
  have hmod : s.getTopAddress.toNat % 16 = 0 := by
    have h16 := congrArg UInt64.toNat haligned
    rw [UInt64.toNat_and] at h16
    rw [← Nat.and_two_pow_sub_one_eq_mod _ 4]
    exact h16
  have hregs : (s.getTopAddress - regsSize).toNat = s.base.toNat + s.size.toNat - 160 := by
    have hsz : regsSize.toNat = 160 := by decide
    rw [UInt64.toNat_sub_of_le _ _ (UInt64.le_iff_toNat_le.mpr (by omega)), htop, hsz]
  constructor
  · refine ⟨?_, ?_, readWords_writeWords_self, hlt, ?_, htop.le⟩
    · omega
    · show (s.getTopAddress - regsSize).toNat + 160 ≤ s.getTopAddress.toNat
      omega
    · show s.base.toNat + 160 ≤ s.getTopAddress.toNat / 16 * 16
      omega
  · intro s' hapart
    apply AgreeOn.writeWords
    rw [length_words, hregs]
    unfold Apart at hapart
    omega

end Framed

/-- What is said of each entry of a log and the ones before it, the newest first, is said of a longer
log once it is said of the new entry. -/
lemma forall_log_cons {ε : Type*} {P : ε → List ε → Prop} {log : List ε} {e : ε}
    (h : ∀ newer e' older, log = newer ++ e' :: older → P e' older) (he : P e log) :
    ∀ newer e' older, e :: log = newer ++ e' :: older → P e' older := by
  intro newer e' older heq
  cases newer with
  | nil =>
    obtain ⟨rfl, rfl⟩ := List.cons.inj heq
    exact he
  | cons _ newer =>
    obtain ⟨-, heq⟩ := List.cons.inj heq
    exact h newer e' older heq

/-- The frame of a thread that does not run holds what the thread was last seen with. -/
structure Saved (mem : Mem) (log : List Event) (x : Entry) (r : Regs) : Prop
    extends Framed mem x.stack x.regs r where
  last : lastContext log x.id = some r

lemma Saved.congr {log' : List Event} {x : Entry} {r : Regs} (h : Saved mem log x r)
    (hlog : lastContext log' x.id = lastContext log x.id)
    (hmem : AgreeOn mem mem' x.regs.toNat 160) : Saved mem' log' x r :=
  ⟨h.toFramed.congr hmem, hlog ▸ h.last⟩

variable [Fintype Cpu]

/-- What holds of the kernel whatever the threads do. -/
structure Alone (c : Cpu) (k : Kernel Cpu) : Prop where
  placed : Placed k
  alone : ∀ d, d ≠ c → k.online d = false
  idle : k.online c = true → (k.threads.idle c).id = 0
  apart : ∀ x ∈ entries k c, ∀ y ∈ entries k c, x.id ≠ y.id → Apart x.stack y.stack

/-- The invariant between two steps: every thread that does not run is saved, and the one that runs
is inside its stack. -/
structure Kept (c : Cpu) (m : Machine Cpu) : Prop where
  kernel : Alone c m.kernel
  saved : ∀ x ∈ entries m.kernel c, (∀ y, running m.kernel c = some y → y.id ≠ x.id) →
    ∃ r, Saved m.mem m.log x r
  inside : ∀ y, running m.kernel c = some y → Inside y.stack m.regs.rsp
  log : Faithful m.log

lemma faithful_cons {e : Event} (h : Faithful log)
    (he : ∀ id r, e = .resumed id r → lastContext log id = some r) : Faithful (e :: log) :=
  fun newer id r older heq =>
    forall_log_cons (P := fun e older => ∀ id r, e = .resumed id r → lastContext older id = some r)
      (fun newer _ older heq id r hr => h newer id r older (hr ▸ heq)) he newer _ older heq id r rfl

/-- The current thread of a CPU that has started is one of those there are. -/
lemma Alone.running (h : Alone c k) (hst : Started k c) :
    ∃ t, k.threads.get? (current k c) = some t ∧ entry t ∈ entries k c := by
  obtain ⟨t, ht⟩ := Option.isSome_iff_exists.mp (current_isSome h.placed hst)
  refine ⟨t, ht, mem_entries.mpr ?_⟩
  rcases h.placed.current c with hc | hc | ⟨i, hc⟩
  · exact absurd hc hst
  · have hidle : k.threads.get? (.idle c) = some t := hc ▸ ht
    cases hidle
    exact .inl ⟨h.placed.online hst, rfl⟩
  · exact .inr (.inl ⟨i, t, hc ▸ ht, rfl⟩)

/-- An identifier tells the threads apart. -/
lemma Alone.eq_of_id (h : Alone c k) {x y : Entry} (hx : x ∈ entries k c) (hy : y ∈ entries k c)
    (hid : x.id = y.id) : x = y := by
  have hids := h.placed.ids
  have hslot : ∀ i t, k.threads.get? (.slot i) = some t →
      view k i = some (t.id, t.schedState.state) := fun i t ht => by rw [view, ht]; rfl
  have hbuilt : ∀ i t u, k.threads.get? (.slot i) = some t → u ∈ k.built → t.id ≠ u.id := by
    intro i t u ht hu he
    exact (hids.table i _ _ (hslot i t ht)).2.2.1 (he ▸ List.mem_map_of_mem hu)
  -- the idle thread has the identifier 0 and no other thread has
  have hpos : ∀ z : Entry, (∃ i t, k.threads.get? (.slot i) = some t ∧ z = entry t) ∨
      (∃ t ∈ k.built, z = entry t) → 0 < z.id.toNat := by
    rintro z (⟨i, t, ht, rfl⟩ | ⟨t, ht, rfl⟩)
    · exact (hids.table i _ _ (hslot i t ht)).1
    · exact (hids.built t ht).1
  have hzero : ∀ z : Entry, k.online c = true ∧ z = entry (k.threads.idle c) → z.id.toNat = 0 := by
    rintro z ⟨hon, rfl⟩
    show (k.threads.idle c).id.toNat = 0
    rw [h.idle hon]
    rfl
  rcases mem_entries.mp hx with hx | hx
  · rcases mem_entries.mp hy with hy | hy
    · rw [hx.2, hy.2]
    · have := hpos y hy
      have := hzero x hx
      rw [hid] at this
      omega
  · rcases mem_entries.mp hy with hy | hy
    · have := hpos x hx
      have := hzero y hy
      rw [← hid] at this
      omega
    · rcases hx with ⟨i, t, ht, rfl⟩ | ⟨t, ht, rfl⟩ <;> rcases hy with ⟨j, u, hu, rfl⟩ | ⟨u, hu, rfl⟩
      · have hvt := hslot i t ht
        have hid' : t.id = u.id := hid
        rw [hid'] at hvt
        obtain rfl := hids.inj i j _ _ _ hvt (hslot j u hu)
        rw [ht] at hu
        cases hu
        rfl
      · exact absurd hid (hbuilt i t u ht hu)
      · exact absurd hid.symm (hbuilt j u t hu ht)
      · rw [List.inj_on_of_nodup_map hids.built_nodup ht hu hid]

/-! ### The steps of the kernel -/

/-- A step that builds no thread. -/
lemma Alone.next (h : Alone c k) (hp : Placed k') (hon : k'.online = k.online)
    (hidle : (k'.threads.idle c).id = (k.threads.idle c).id)
    (hsub : ∀ x ∈ entries k' c, ∃ y ∈ entries k c, y.id = x.id ∧ y.stack = x.stack) :
    Alone c k' where
  placed := hp
  alone := hon ▸ h.alone
  idle := by
    rw [hon, hidle]
    exact h.idle
  apart := by
    intro x hx y hy hne
    obtain ⟨x', hx', hxid, hxs⟩ := hsub x hx
    obtain ⟨y', hy', hyid, hys⟩ := hsub y hy
    rw [← hxs, ← hys]
    exact h.apart x' hx' y' hy' (by rwa [hxid, hyid])

omit [Fintype Cpu] in
lemma mem_entries_modify {f : Thread Cpu → Thread Cpu} {a : ThreadAddr Cpu} {x : Entry}
    (hth : k'.threads = k.threads.modify f a) (hon : k'.online = k.online)
    (hb : k'.built = k.built) (hx : x ∈ entries k' c) :
    x ∈ entries k c ∨ ∃ t, k.threads.get? a = some t ∧ entry t ∈ entries k c ∧
      x = entry (f t) := by
  -- where an address held a thread before, it holds that thread or the one written
  have hget : ∀ b u, k'.threads.get? b = some u → k.threads.get? b = some u ∨
      b = a ∧ ∃ t, k.threads.get? b = some t ∧ u = f t := by
    intro b u hu
    rw [hth, Threads.get?_modify] at hu
    split at hu
    · next hba =>
      obtain ⟨t, ht, rfl⟩ := Option.map_eq_some_iff.mp hu
      exact .inr ⟨hba, t, ht, rfl⟩
    · exact .inl hu
  rcases mem_entries.mp hx with ⟨hc, rfl⟩ | ⟨i, u, hu, rfl⟩ | hbx
  · rw [hon] at hc
    rcases hget (.idle c) _ rfl with hu | ⟨rfl, t, ht, hu⟩
    · rw [← Option.some.inj hu]
      exact .inl (mem_entries.mpr (.inl ⟨hc, rfl⟩))
    · cases ht
      exact .inr ⟨_, rfl, mem_entries.mpr (.inl ⟨hc, rfl⟩), by rw [hu]⟩
  · rcases hget (.slot i) _ hu with hu | ⟨rfl, t, ht, rfl⟩
    · exact .inl (mem_entries.mpr (.inr (.inl ⟨i, u, hu, rfl⟩)))
    · exact .inr ⟨t, ht, mem_entries.mpr (.inr (.inl ⟨i, t, ht, rfl⟩)), rfl⟩
  · rw [hb] at hbx
    exact .inl (mem_entries.mpr (.inr (.inr hbx)))

/-- A step that changes neither memory nor registers nor what there is to know of the threads. -/
lemma Kept.congr (h : Kept c m) (hk : Alone c k')
    (hsub : ∀ x ∈ entries k' c, x ∈ entries m.kernel c)
    (hrun : running k' c = running m.kernel c) : Kept c { m with kernel := k' } where
  kernel := hk
  saved x hx hne := h.saved x (hsub x hx) (by rwa [← hrun])
  inside y hy := h.inside y (by rwa [← hrun])
  log := h.log

lemma Kept.readyAdded {n : ℕ} (h : Kept c m)
    (hs : Sched.step m.kernel (.readyAdded c n) = .ok k') : Kept c { m with kernel := k' } := by
  have hp := h.kernel.placed.step hs
  obtain ⟨-, id, i, -, -, q, -, -, hk⟩ := step_readyAdded h.kernel.placed.wf hs
  have hth : k'.threads = m.kernel.threads.modify (Thread.markReady c) (.slot i) := by rw [hk]
  have hsub : ∀ x ∈ entries k' c, x ∈ entries m.kernel c := by
    intro x hx
    rcases mem_entries_modify hth (by rw [hk]) (by rw [hk]) hx with hx | ⟨t, -, ht, rfl⟩
    · exact hx
    · exact ht
  have hidle : k'.threads.idle = m.kernel.threads.idle := by
    rw [hth]
    rfl
  have hcur : current k' c = current m.kernel c := by
    rw [hk]
    simp [current]
  have hrun : running k' c = running m.kernel c := by
    rw [running, running, hcur, hth, Threads.get?_modify]
    split
    · cases m.kernel.threads.get? (current m.kernel c) <;> rfl
    · rfl
  exact h.congr (h.kernel.next hp (by rw [hk]) (by rw [hidle]) fun x hx => ⟨x, hsub x hx, rfl, rfl⟩)
    hsub hrun

lemma Kept.addThread {n : ℕ} (h : Kept c m)
    (hs : Sched.step m.kernel (.addThread c n) = .ok k') : Kept c { m with kernel := k' } := by
  have hp := h.kernel.placed.step hs
  obtain ⟨hst, t, ht, hk⟩ := step_addThread hs
  obtain ⟨u, hu, -⟩ := h.kernel.running hst
  have htb : t ∈ m.kernel.built := List.mem_of_getElem? ht
  have hidle : k'.threads.idle = m.kernel.threads.idle := by rw [hk]
  have hcur : current k' c = current m.kernel c := by rw [hk]; rfl
  -- a slot holds what it held, or was free and holds the thread added
  have hslot : ∀ i, k'.threads.get? (.slot i) = m.kernel.threads.get? (.slot i) ∨
      m.kernel.threads.get? (.slot i) = none ∧ k'.threads.get? (.slot i) = some t := by
    intro j
    rcases addThread_cases m.kernel.threads.table t with ⟨i, tbl, he, -, hi, hj⟩ | ⟨-, he⟩
    · have hget : k'.threads.get? (.slot j) = tbl.get? j := by
        rw [hk, he]
        rfl
      rw [hget, hj]
      split
      · next hji => exact .inr ⟨by rw [hji]; exact hi, rfl⟩
      · exact .inl rfl
    · left
      rw [hk, he]
  have hsub : ∀ x ∈ entries k' c, x ∈ entries m.kernel c := by
    intro x hx
    rw [mem_entries] at hx ⊢
    rcases hx with ⟨hc, rfl⟩ | ⟨i, v, hv, rfl⟩ | ⟨v, hv, rfl⟩
    · rw [hk] at hc
      exact .inl ⟨hc, by rw [hidle]⟩
    · rcases hslot i with he | ⟨-, he⟩
      · exact .inr (.inl ⟨i, v, he ▸ hv, rfl⟩)
      · rw [he] at hv
        cases hv
        exact .inr (.inr ⟨t, htb, rfl⟩)
    · rw [hk] at hv
      exact .inr (.inr ⟨v, List.mem_of_mem_eraseIdx hv, rfl⟩)
  have hrun : running k' c = running m.kernel c := by
    rw [running, running, hcur]
    congr 1
    rcases h.kernel.placed.current c with hc | hc | ⟨i, hc⟩
    · rw [hc]
      rfl
    · rw [hc, Threads.get?, Threads.get?, hidle]
    · rw [hc]
      rcases hslot i with he | ⟨he, -⟩
      · exact he
      · rw [hc, he] at hu
        cases hu
  exact h.congr (h.kernel.next hp (by rw [hk]) (by rw [hidle]) fun x hx => ⟨x, hsub x hx, rfl, rfl⟩)
    hsub hrun

/-! ### New threads -/

lemma page_le_size (base : UInt64) {n : ℕ} (h : 1 ≤ n) (hn : n ≤ 4) :
    4096 ≤ (Stack.new base n).size.toNat := by
  rw [Stack.new, UInt64.toNat_ofNat']
  omega

/-- A new thread, with its first frame on a fresh stack. -/
lemma Kept.build {id e arg : UInt64} {s : Stack} (h : Kept c m) (hp : Placed k')
    (halone : ∀ d, d ≠ c → k'.online d = false)
    (hidle : k'.online c = true → (k'.threads.idle c).id = 0)
    (hsub : ∀ x ∈ entries k' c, x ∈ entries m.kernel c ∧ x.id ≠ id ∨
      x = ⟨id, s, s.getTopAddress - regsSize⟩)
    (hrun : running k' c = running m.kernel c) (hfresh : Fresh m.kernel c s)
    (hsize : 4096 ≤ s.size.toNat) (hframe : spawnFrame m.mem s e arg = .ok mem') :
    Kept c ⟨k', mem', m.regs, .built id (initial e arg s.getTopAddress) :: m.log⟩ := by
  obtain ⟨hlt, hfresh⟩ := hfresh
  -- the frame is written where no thread has its stack yet
  obtain ⟨hframed, hmem⟩ := framed_spawnFrame hlt hsize hframe
  refine ⟨⟨hp, halone, hidle, ?_⟩, ?_, ?_, faithful_cons h.log (by simp)⟩
  · intro x hx y hy hne
    rcases hsub x hx with ⟨hx, -⟩ | rfl
    · rcases hsub y hy with ⟨hy, -⟩ | rfl
      · exact h.kernel.apart x hx y hy hne
      · exact hfresh x hx
    · rcases hsub y hy with ⟨hy, -⟩ | rfl
      · exact (hfresh y hy).symm
      · exact absurd rfl hne
  · intro x hx hnr
    rw [hrun] at hnr
    rcases hsub x hx with ⟨hx, hne⟩ | rfl
    · obtain ⟨r, hr⟩ := h.saved x hx hnr
      exact ⟨r, hr.congr (if_neg (Ne.symm hne)) ((hmem _ (hfresh x hx)).mono hr.low hr.top)⟩
    · exact ⟨_, hframed, if_pos rfl⟩
  · intro y hy
    exact h.inside y (by rwa [← hrun])

lemma Kept.spawnRaw {base e arg : UInt64} (h : Kept c m)
    (hs : Sched.step m.kernel (.spawnRaw c base) = .ok k')
    (hfresh : Fresh m.kernel c (Stack.new base 4))
    (hframe : spawnFrame m.mem (Stack.new base 4) e arg = .ok mem') :
    Kept c ⟨k', mem', m.regs, .built m.kernel.threadIdCounter
      (initial e arg (Stack.new base 4).getTopAddress) :: m.log⟩ := by
  have hids := h.kernel.placed.ids
  have hp := h.kernel.placed.step hs
  obtain ⟨-, hf, hk⟩ := step_spawnRaw hs
  have hnew := counter_toNat hids hf
  refine h.build hp (by rw [hk]; exact h.kernel.alone) (by rw [hk]; exact h.kernel.idle) ?_
    (by rw [hk]; rfl) hfresh (page_le_size base (by decide) (by decide)) hframe
  intro x hx
  rw [mem_entries, hk] at hx
  -- the identifier taken is above those in use
  rcases hx with ⟨hc, rfl⟩ | ⟨i, t, ht, rfl⟩ | ⟨t, ht, rfl⟩
  · refine .inl ⟨mem_entries.mpr (.inl ⟨hc, rfl⟩), fun he => ?_⟩
    have hzero : m.kernel.threadIdCounter = 0 := he.symm.trans (h.kernel.idle hc)
    rw [hzero] at hnew
    cases hnew
  · refine .inl ⟨mem_entries.mpr (.inr (.inl ⟨i, t, ht, rfl⟩)), fun he => ?_⟩
    have ht' : m.kernel.threads.get? (.slot i) = some t := ht
    have hid : t.id = m.kernel.threadIdCounter := he
    have hle := (hids.table i t.id t.schedState.state (by rw [view, ht']; rfl)).2.1
    rw [hid] at hle
    omega
  · rcases List.mem_append.mp ht with ht | ht
    · refine .inl ⟨mem_entries.mpr (.inr (.inr ⟨t, ht, rfl⟩)), fun he => ?_⟩
      have hid : t.id = m.kernel.threadIdCounter := he
      have hle := (hids.built t ht).2.1
      rw [hid] at hle
      omega
    · rw [List.mem_singleton.mp ht]
      exact .inr rfl

lemma Kept.setupTls {base e : UInt64} (h : Kept c m)
    (hs : Sched.step m.kernel (.setupTls c base) = .ok k')
    (hfresh : Fresh m.kernel c (Stack.new base 1))
    (hframe : spawnFrame m.mem (Stack.new base 1) e 0 = .ok mem') :
    Kept c ⟨k', mem', m.regs,
      .built 0 (initial e 0 (Stack.new base 1).getTopAddress) :: m.log⟩ := by
  have hids := h.kernel.placed.ids
  have hp := h.kernel.placed.step hs
  obtain ⟨hoff, hk⟩ := step_setupTls hs
  have hidle : k'.threads.idle c = newIdle (Stack.new base 1) := by
    rw [hk]
    simp
  have hcur : current m.kernel c = .null := by
    rw [current, h.kernel.placed.offline c hoff]
  have hcur' : current k' c = .null := by
    rw [hk]
    simp [current]
  refine h.build hp ?_ (fun _ => by rw [hidle]; rfl) ?_ ?_ hfresh
    (page_le_size base (by decide) (by decide)) hframe
  · intro d hd
    rw [hk]
    simpa [hd] using h.kernel.alone d hd
  · -- no thread but the idle one has the identifier 0
    intro x hx
    rw [mem_entries] at hx
    rcases hx with ⟨-, rfl⟩ | ⟨i, t, ht, rfl⟩ | ⟨t, ht, rfl⟩
    · rw [hidle]
      exact .inr rfl
    · have ht' : m.kernel.threads.get? (.slot i) = some t := by
        rw [hk] at ht
        exact ht
      refine .inl ⟨mem_entries.mpr (.inr (.inl ⟨i, t, ht', rfl⟩)), fun he => ?_⟩
      have hid : t.id = 0 := he
      have hpos := (hids.table i t.id t.schedState.state (by rw [view, ht']; rfl)).1
      rw [hid] at hpos
      cases hpos
    · rw [hk] at ht
      refine .inl ⟨mem_entries.mpr (.inr (.inr ⟨t, ht, rfl⟩)), fun he => ?_⟩
      have hid : t.id = 0 := he
      have hpos := (hids.built t ht).1
      rw [hid] at hpos
      cases hpos
  · rw [running, running, hcur, hcur']
    rfl

/-- The running thread changes its registers and its own stack. -/
lemma Kept.work {t : Thread Cpu} {regs : Regs} {own : Mem} (h : Kept c m)
    (ht : m.kernel.threads.get? (current m.kernel c) = some t)
    (hmem : entry t ∈ entries m.kernel c) (hin : Inside t.kernelStack regs.rsp) :
    Kept c { m with
      regs := regs
      mem := m.mem.overlay t.kernelStack.base.toNat
        (t.kernelStack.base.toNat + t.kernelStack.size.toNat) own } where
  kernel := h.kernel
  saved x hx hnr := by
    have hrun : running m.kernel c = some (entry t) := by rw [running, ht]; rfl
    obtain ⟨r, hr⟩ := h.saved x hx hnr
    refine ⟨r, hr.congr rfl (.mono (.overlay ?_) hr.low hr.top)⟩
    have := h.kernel.apart (entry t) hmem x hx (hnr _ hrun)
    unfold Apart at this
    exact this.symm
  inside y hy := by
    have hrun : running m.kernel c = some (entry t) := by rw [running, ht]; rfl
    rw [hrun] at hy
    cases hy
    exact hin
  log := h.log

/-! ### The switch -/

/-- What holds once the running thread is saved as well. -/
structure Asleep (c : Cpu) (k : Kernel Cpu) (mem : Mem) (log : List Event) : Prop where
  kernel : Alone c k
  saved : ∀ x ∈ entries k c, ∃ r, Saved mem log x r
  log : Faithful log

variable (im handler) in
/-- Restoring the current thread from its frame gives it back what it was last seen with. -/
lemma Asleep.resume {t : Thread Cpu} (h : Asleep c k mem log) (regs : Regs)
    (ht : k.threads.get? (current k c) = some t) (hmem : entry t ∈ entries k c)
    (hrsp : regs.rsp = t.regs) :
    ∃ m', run (exec im c handler) ⟨k, mem, regs, log⟩ (frameOrder.map .pop ++ [.iretq]) =
        .ok ⟨k, mem, m'.regs, log⟩ ∧ ContextSwitch.resume c ⟨k, mem, m'.regs, log⟩ = .ok m' ∧
      m'.kernel = k ∧ m'.log = .resumed t.id m'.regs :: log ∧ Kept c m' := by
  obtain ⟨r, hr⟩ := h.saved (entry t) hmem
  have hrun : running k c = some (entry t) := by rw [running, ht]; rfl
  have hlt : regs.rsp.toNat + 160 < 2 ^ 64 := by
    rw [hrsp]
    exact lt_of_le_of_lt hr.top hr.inside.1
  refine ⟨⟨k, mem, r, .resumed t.id r :: log⟩, ?_, ?_, rfl, rfl, ⟨h.kernel, ?_, ?_, ?_⟩⟩
  · exact run_restore (m := ⟨k, mem, regs, log⟩) hlt (by rw [hrsp]; exact hr.words)
  · simp only [ContextSwitch.resume, thread_ok.mpr ht, ok_bind]
  · intro x hx _
    obtain ⟨r', hr'⟩ := h.saved x hx
    exact ⟨r', hr'.congr rfl fun _ _ _ => rfl⟩
  · intro y hy
    rw [hrun] at hy
    cases hy
    exact hr.inside
  · refine faithful_cons h.log fun id r' he => ?_
    cases he
    exact hr.last

variable (im) in
lemma Kept.forceSwitchToIdle (h : Kept c m)
    (hs : Sched.step m.kernel (.forceSwitchToIdle c) = .ok k') :
    ∃ m', step im c m .forceSwitchToIdle = .ok m' ∧ Kept c m' := by
  have hp := h.kernel.placed.step hs
  obtain ⟨hon, hcur, hk⟩ := step_forceSwitchToIdle hs
  have hnone : running m.kernel c = none := by
    rw [running, hcur]
    rfl
  have hents : entries k' c = entries m.kernel c := by rw [hk]; rfl
  have hcur' : current k' c = .idle c := by
    rw [hk]
    simp [current]
  have hget : k'.threads.get? (current k' c) = some (k'.threads.idle c) := by rw [hcur']; rfl
  have hmem : entry (k'.threads.idle c) ∈ entries k' c :=
    mem_entries.mpr (.inl ⟨by rw [hk]; exact hon, rfl⟩)
  have hasleep : Asleep c k' m.mem m.log := by
    refine ⟨h.kernel.next hp (by rw [hk]) (by rw [hk]) fun x hx => ⟨x, hents ▸ hx, rfl, rfl⟩,
      fun x hx => h.saved x (hents ▸ hx) ?_, h.log⟩
    rw [hnone]
    simp
  obtain ⟨m', hpops, hres, -, -, hkept⟩ := hasleep.resume im .ok
    { m.regs with rsp := (k'.threads.idle c).regs } hget hmem rfl
  refine ⟨m', ?_, hkept⟩
  have hrun : run (exec im c .ok) { m with kernel := k' } switchToIdle =
      .ok ⟨k', m.mem, m'.regs, m.log⟩ := by
    rw [switchToIdle_eq, run]
    exact hpops
  simp only [step, hs, hrun, hres, ok_bind]

/-- With the frame of the running thread written below its `rsp` and its address saved, every
thread is saved. -/
lemma Kept.asleep {t : Thread Cpu} {regs : Regs} (h : Kept c m)
    (ht : m.kernel.threads.get? (current m.kernel c) = some t)
    (hs : Sched.step m.kernel (.saveRsp c regs.rsp) = .ok k')
    (hlow : t.kernelStack.base.toNat ≤ regs.rsp.toNat)
    (hhigh : regs.rsp.toNat + 160 ≤ m.regs.rsp.toNat)
    (hwords : mem.readWords regs.rsp.toNat 20 = m.regs.onStack.words)
    (hframe : ∀ a n, a + n ≤ regs.rsp.toNat ∨ m.regs.rsp.toNat ≤ a → AgreeOn m.mem mem a n) :
    Asleep c k' mem (.preempted t.id m.regs :: m.log) ∧
      running k' c = some ⟨t.id, t.kernelStack, regs.rsp⟩ := by
  have hrun : running m.kernel c = some (entry t) := by rw [running, ht]; rfl
  have hin := h.inside _ hrun
  have hp := h.kernel.placed.step hs
  obtain ⟨hst, -, hk⟩ := step_saveRsp hs
  have hth : k'.threads =
      m.kernel.threads.modify (fun t => { t with regs := regs.rsp }) (current m.kernel c) := by
    rw [hk]
  have hcur : current k' c = current m.kernel c := by rw [hk]; rfl
  have hget : k'.threads.get? (current k' c) = some { t with regs := regs.rsp } := by
    rw [hcur, hth, Threads.get?_modify, if_pos rfl, ht]
    rfl
  have hrun' : running k' c = some ⟨t.id, t.kernelStack, regs.rsp⟩ := by rw [running, hget]; rfl
  have hsub : ∀ x ∈ entries k' c, x ∈ entries m.kernel c ∨
      entry t ∈ entries m.kernel c ∧ x = ⟨t.id, t.kernelStack, regs.rsp⟩ := by
    intro x hx
    rcases mem_entries_modify hth (by rw [hk]) (by rw [hk]) hx with hx | ⟨u, hu, hmem, rfl⟩
    · exact .inl hx
    · rw [ht] at hu
      cases hu
      exact .inr ⟨hmem, rfl⟩
  have hidle : (k'.threads.idle c).id = (m.kernel.threads.idle c).id := by
    have hi : k'.threads.get? (.idle c) = some (k'.threads.idle c) := rfl
    rw [hth, Threads.get?_modify] at hi
    rw [hth]
    split at hi
    · rw [← Option.some.inj hi]
    · rw [← Option.some.inj hi]
  have hkernel : Alone c k' := by
    refine h.kernel.next hp (by rw [hk]) hidle fun x hx => ?_
    rcases hsub x hx with hx | ⟨hmem, rfl⟩
    · exact ⟨x, hx, rfl, rfl⟩
    · exact ⟨_, hmem, rfl, rfl⟩
  refine ⟨⟨hkernel, fun x hx => ?_, faithful_cons h.log (by simp)⟩, hrun'⟩
  have hst' : Started k' c := by
    show current k' c ≠ .null
    rwa [hcur]
  obtain ⟨t', ht', hmem'⟩ := hkernel.running hst'
  rw [hget] at ht'
  cases ht'
  by_cases hid : x.id = t.id
  · -- the thread that ran
    rw [hkernel.eq_of_id hx hmem' hid]
    exact ⟨m.regs, ⟨hlow, hhigh, hwords, hin⟩, if_pos rfl⟩
  · -- a thread that did not, on a stack of its own
    rcases hsub x hx with hx | ⟨-, rfl⟩
    · obtain ⟨r, hr⟩ := h.saved x hx fun y hy => by
        rw [hrun] at hy
        cases hy
        exact Ne.symm hid
      obtain ⟨u, hu, humem⟩ := h.kernel.running hst
      rw [ht] at hu
      cases hu
      have hapart := h.kernel.apart x hx _ humem hid
      refine ⟨r, hr.congr (if_neg (Ne.symm hid)) ((hframe _ _ ?_).mono hr.low hr.top)⟩
      have hbase := hin.2.2
      unfold Apart at hapart
      simp only [entry] at hapart hbase
      omega
    · exact absurd rfl hid

/-- `timer_handler` switches threads and leaves the frames of all of them alone. -/
lemma Asleep.timerHandler {t : Thread Cpu} (h : Asleep c k mem log) (regs : Regs)
    (hst : Started k c) (ht : k.threads.get? (current k c) = some t) (hmem : entry t ∈ entries k c)
    (hsp : regs.rsp = t.regs) (e : Call Cpu) :
    ∃ k' mem', ContextSwitch.timerHandler c e ⟨k, mem, regs, log⟩ =
        .ok ⟨k', mem', { regs with gpr := e.gpr }, log⟩ ∧
      Started k' c ∧ Asleep c k' mem' log := by
  obtain ⟨k₁, h₁⟩ := switch_total h.kernel.placed hst
  have hp₁ := h.kernel.placed.step h₁
  obtain ⟨-, tls, hsw, hk₁⟩ := step_switch h₁
  have hents : entries k₁ c = entries k c := by rw [hk₁]; rfl
  have hst₁ : Started k₁ c := by
    have hcur : (k₁.tls c).threadAddr = tls.threadAddr := by simp [hk₁]
    obtain ⟨tls', hsw', -, hcase⟩ := switch_spec (h.kernel.placed.wf c) c
    rw [hsw] at hsw'
    cases hsw'
    rw [Started, hcur]
    rcases hcase with ⟨-, rfl⟩ | ⟨rest, hq, -⟩
    · exact hst
    · obtain ⟨i, hi⟩ := h.kernel.placed.slots c tls.threadAddr (by simp [queue, hq])
      simp [hi]
  have hkernel : Alone c k₁ :=
    h.kernel.next hp₁ (by rw [hk₁]) (by rw [hk₁]) fun x hx => ⟨x, hents ▸ hx, rfl, rfl⟩
  -- with no other CPU online there is nothing to balance
  obtain ⟨k₂, h₂⟩ := balance_total hp₁ hst₁ e.other
  have hk₂ : k₂ = k₁ := by
    obtain ⟨-, rfl | ⟨hon, s, d, n, hsd, hB⟩⟩ := step_maybeLoadBalance hp₁.wf h₂
    · rfl
    · have hother : e.other = c := by
        by_contra hne
        rw [hkernel.alone _ hne] at hon
        cases hon
      rw [hother] at hsd
      rcases hsd with ⟨rfl, rfl⟩ | ⟨rfl, rfl⟩
      · exact absurd rfl hB.ne
      · exact absurd rfl hB.ne
  rw [hk₂] at h₂
  refine ⟨k₁, mem.overlay t.kernelStack.base.toNat t.regs.toNat e.below, ?_, hst₁, hkernel,
    fun x hx => ?_, h.log⟩
  · simp only [ContextSwitch.timerHandler, thread_ok.mpr ht, h₁, h₂, hsp, ok_bind]
  · rw [hents] at hx
    obtain ⟨r, hr⟩ := h.saved x hx
    obtain ⟨rt, hrt⟩ := h.saved _ hmem
    refine ⟨r, hr.congr rfl (.overlay ?_)⟩
    have hlow := hr.low
    have hhigh := hr.top
    have hlowt := hrt.low
    have hhight := hrt.top
    by_cases hid : x.id = t.id
    · rw [h.kernel.eq_of_id hx hmem hid]
      exact .inr le_rfl
    · have hapart := h.kernel.apart x hx _ hmem hid
      unfold Apart at hapart
      simp only [entry] at hapart hlowt hhight
      omega

variable (im) in
/-- **A timer interrupt preempts the running thread and resumes one**, with the registers that one
was last seen with. -/
lemma Kept.timerInterrupt (h : Kept c m) (hst : Started m.kernel c)
    (hif : m.regs.rflags &&& interruptFlag ≠ 0) (e : Call Cpu) :
    ∃ m' t u, step im c m (.timerInterrupt e) = .ok m' ∧
      m.kernel.threads.get? (current m.kernel c) = some t ∧
      m'.kernel.threads.get? (current m'.kernel c) = some u ∧
      m'.log = .resumed u.id m'.regs :: .preempted t.id m.regs :: m.log ∧ Kept c m' := by
  obtain ⟨t, ht, hmem⟩ := h.kernel.running hst
  have hin : Inside t.kernelStack m.regs.rsp := h.inside (entry t) (by rw [running, ht]; rfl)
  obtain ⟨mem₁, regs₁, hsave, hsp, hwords, hframe⟩ := run_save im c (timerHandler c e)
    (m := { m with log := .preempted t.id m.regs :: m.log }) hin
  have hdiv : m.regs.rsp.toNat / 16 * 16 ≤ m.regs.rsp.toNat := Nat.div_mul_le_self ..
  simp only at hsp
  have hroom := hin.2.1
  -- save
  obtain ⟨k₁, hk₁⟩ := saveRsp_total h.kernel.placed hst regs₁.rsp
  obtain ⟨hasleep₁, hrun₁⟩ := h.asleep ht hk₁ (by omega) (by omega) hwords hframe
  obtain ⟨-, -, hk₁'⟩ := step_saveRsp hk₁
  have hcur₁ : current k₁ c = current m.kernel c := by rw [hk₁']; rfl
  have hst₁ : Started k₁ c := by
    rw [hk₁']
    exact hst
  obtain ⟨t₁, ht₁, hmem₁⟩ := hasleep₁.kernel.running hst₁
  have hregs₁ : regs₁.rsp = t₁.regs := by
    rw [running, ht₁] at hrun₁
    exact (congrArg Entry.regs (Option.some.inj hrun₁)).symm
  -- switch
  obtain ⟨k₂, mem₂, hhandler, hst₂, hasleep₂⟩ := hasleep₁.timerHandler
    { regs₁ with gpr := Function.update regs₁.gpr .rax (im.thread (current k₁ c)) } hst₁ ht₁ hmem₁ hregs₁ e
  rw [hcur₁] at hhandler
  -- resume
  obtain ⟨u, hu, humem⟩ := hasleep₂.kernel.running hst₂
  obtain ⟨m', hpops, hres, hkernel, hlog, hkept⟩ := hasleep₂.resume im (timerHandler c e)
    { regs₁ with gpr := Function.update e.gpr .rax (im.thread (current k₂ c)), rsp := u.regs }
    hu humem rfl
  refine ⟨m', t, u, ?_, ht, by rw [hkernel]; exact hu, hlog, hkept⟩
  have hmid : run (exec im c (timerHandler c e))
      ⟨m.kernel, mem₁, regs₁, .preempted t.id m.regs :: m.log⟩
      [.movRaxThread, .movRegsRsp, .callHandler, .movRaxThread, .movRspRegs] =
      .ok ⟨k₂, mem₂, { regs₁ with
        gpr := Function.update e.gpr .rax (im.thread (current k₂ c)), rsp := u.regs },
        .preempted t.id m.regs :: m.log⟩ := by
    simp only [run, exec, Function.update_self, if_true, hk₁, ok_bind, hhandler, thread_ok.mpr hu]
  have hrun : run (exec im c (timerHandler c e))
      (deliver im { m with log := .preempted t.id m.regs :: m.log }) Registers.timerInterrupt =
      .ok ⟨k₂, mem₂, m'.regs, .preempted t.id m.regs :: m.log⟩ := by
    rw [timerInterrupt_eq]
    exact run_append_ok.mpr ⟨_, hsave, run_append_ok.mpr ⟨_, hmid, hpops⟩⟩
  simp only [step]
  rw [guard_bind ⟨hst, hif⟩, thread_ok.mpr ht, ok_bind, hrun, ok_bind, hres]

lemma Kept.boot (h : Boot m) : Kept c m := by
  have hents : ∀ x, x ∉ entries m.kernel c := by
    intro x hx
    rcases mem_entries.mp hx with ⟨hon, -⟩ | ⟨i, t, ht, -⟩ | ⟨t, ht, -⟩
    · rw [h.kernel.online c] at hon
      cases hon
    · rw [Threads.get?, h.kernel.table, get?_new] at ht
      cases ht
    · rw [h.kernel.built] at ht
      cases ht
  have hrun : running m.kernel c = none := by
    rw [running, current, h.kernel.tls c]
    rfl
  refine ⟨⟨.boot h.kernel, fun d _ => h.kernel.online d, fun hon => ?_,
    fun x hx => absurd hx (hents x)⟩, fun x hx => absurd hx (hents x), fun y hy => ?_, ?_⟩
  · rw [h.kernel.online c] at hon
    cases hon
  · rw [hrun] at hy
    cases hy
  · intro newer id r older heq
    rw [h.log] at heq
    simp at heq

lemma Kept.step {a : Act Cpu} (h : Kept c m) (hs : step im c m a = .ok m') : Kept c m' := by
  cases a with
  | setupTls base =>
    simp only [ContextSwitch.step] at hs
    obtain ⟨_, hg, hs⟩ := bind_ok.mp hs
    obtain ⟨k', hk, hs⟩ := bind_ok.mp hs
    obtain ⟨mem', hf, hs⟩ := bind_ok.mp hs
    cases hs
    exact h.setupTls hk (guard_ok.mp hg) (spawnFrame_ok.mpr (idleFrame_ok.mp hf))
  | forceSwitchToIdle =>
    obtain ⟨k', hk, -⟩ := bind_ok.mp hs
    obtain ⟨m'', hs', hkept⟩ := h.forceSwitchToIdle im hk
    rw [hs] at hs'
    cases hs'
    exact hkept
  | spawnRaw base e arg =>
    simp only [ContextSwitch.step] at hs
    obtain ⟨_, hg, hs⟩ := bind_ok.mp hs
    obtain ⟨k', hk, hs⟩ := bind_ok.mp hs
    obtain ⟨mem', hf, hs⟩ := bind_ok.mp hs
    cases hs
    exact h.spawnRaw hk (guard_ok.mp hg) hf
  | addThread n =>
    obtain ⟨k', hk, hs⟩ := bind_ok.mp hs
    cases hs
    exact h.addThread hk
  | readyAdded n =>
    obtain ⟨k', hk, hs⟩ := bind_ok.mp hs
    cases hs
    exact h.readyAdded hk
  | work regs own =>
    obtain ⟨t, ht, hs⟩ := bind_ok.mp hs
    obtain ⟨_, hg, hs⟩ := bind_ok.mp hs
    cases hs
    rw [thread_ok] at ht
    have hst : Started m.kernel c := by
      intro hnull
      rw [current, hnull] at ht
      cases ht
    obtain ⟨t', ht', hmem⟩ := h.kernel.running hst
    rw [ht] at ht'
    cases ht'
    exact h.work ht hmem (guard_ok.mp hg)
  | timerInterrupt e =>
    have hs' := hs
    simp only [ContextSwitch.step] at hs'
    obtain ⟨_, hg, -⟩ := bind_ok.mp hs'
    obtain ⟨hst, hif⟩ := guard_ok.mp hg
    obtain ⟨m'', -, -, hs'', -, -, -, hkept⟩ := h.timerInterrupt im hst hif e
    rw [hs] at hs''
    cases hs''
    exact hkept

/-- **Context switches preserve threads.** In every run of one CPU, each thread is resumed with
exactly the registers it was last preempted with, and the first time with those it was built with;
and a timer interrupt that arrives always resumes a thread. -/
theorem context_switches_preserve_threads (h : Reachable (step im c) Boot m) :
    Faithful m.log ∧
      ∀ e, Started m.kernel c → m.regs.rflags &&& interruptFlag ≠ 0 →
        ∃ m' t u, step im c m (.timerInterrupt e) = .ok m' ∧
          m.kernel.threads.get? (current m.kernel c) = some t ∧
          m'.kernel.threads.get? (current m'.kernel c) = some u ∧
          m'.log = .resumed u.id m'.regs :: .preempted t.id m.regs :: m.log := by
  have hkept : Kept c m := h.inv (fun _ hb => .boot hb) fun _ _ _ hk hs => hk.step hs
  refine ⟨hkept.log, fun e hst hif => ?_⟩
  obtain ⟨m', t, u, hs, ht, hu, hlog, -⟩ := hkept.timerInterrupt im hst hif e
  exact ⟨m', t, u, hs, ht, hu, hlog⟩

/-- Registers that tell a thread by its `rip`, with `rsp` in the middle of its stack. -/
def busy (rip rsp : UInt64) : Regs := ⟨fun _ => rip, rip, kernelCs, 0x202, rsp, kernelDs⟩

/-- Two threads spawned by the idle thread; three timer interrupts go through the idle thread, the
first, the second, and the first again. -/
def takeTurns : List (Act Unit) :=
  [.setupTls 0x10000, .forceSwitchToIdle, .spawnRaw 0x20000 0x5000 0x70, .addThread 0,
    .readyAdded 0, .spawnRaw 0x30000 0x6000 0x80, .addThread 0, .readyAdded 0,
    .timerInterrupt ⟨fun _ => 1, fun _ => 2, ()⟩, .work (busy 0x5008 0x21238) fun _ => 3,
    .timerInterrupt ⟨fun _ => 4, fun _ => 5, ()⟩, .work (busy 0x6008 0x31230) fun _ => 6,
    .timerInterrupt ⟨fun _ => 7, fun _ => 8, ()⟩]

def bootMachine : Machine Unit := ⟨bootKernel Unit 64, fun _ => 0, busy 0 0, []⟩

def image : Image Unit := ⟨0x4000, 0x4100, fun _ => 0x9000⟩

/-- The thread resumed last, with its `rip`. -/
def lastResumed : List Event → Option (UInt64 × UInt64)
  | .resumed id r :: _ => some (id, r.rip)
  | _ => none

theorem context_switches_preserve_threads_turns :
    ∃ m, run (step image ()) bootMachine takeTurns = .ok m ∧
      (∃ r older, m.log = .resumed 1 r :: older ∧ r.rip = 0x5008 ∧ lastContext older 1 = some r) ∧
      ∃ m', step image () m (.timerInterrupt ⟨fun _ => 0, fun _ => 0, ()⟩) = .ok m' := by
  obtain ⟨m, hm, hf⟩ := exists_run_of_map
    (f := fun m => (lastResumed m.log, decide (Started m.kernel ()), m.regs.rflags))
    (c := (some (1, 0x5008), true, 0x202))
    (show (run (step image ()) bootMachine takeTurns).map _ = _ by decide +kernel)
  obtain ⟨hlast, hrest⟩ := Prod.mk.inj hf
  obtain ⟨hst, hflags⟩ := Prod.mk.inj hrest
  have hreach : Reachable (step image ()) Boot m :=
    ⟨bootMachine, takeTurns, ⟨boot_bootKernel (by decide), rfl⟩, hm⟩
  obtain ⟨hfaithful, htick⟩ := context_switches_preserve_threads hreach
  obtain ⟨m', t, u, hs, -⟩ := htick ⟨fun _ => 0, fun _ => 0, ()⟩ (of_decide_eq_true hst)
    (by rw [hflags]; decide)
  refine ⟨m, hm, ?_, m', hs⟩
  unfold lastResumed at hlast
  split at hlast
  · next id r older hlog =>
    obtain ⟨rfl, hrip⟩ := Prod.mk.inj (Option.some.inj hlast)
    exact ⟨r, older, hlog, hrip, hfaithful [] 1 r older hlog⟩
  · cases hlast

end OsRust.ContextSwitch
