import OsRust.Stacks
import OsRust.ContextSwitch

/-!
Context switches on many CPUs. The CPUs share memory and take the steps of their timer interrupts in
any order, and a thread preempted on one CPU may be resumed on another.

The log keeps what was seen of every thread: what it was built with, and its registers and its stack
whenever it was preempted or resumed.
-/

namespace OsRust.Smp

open OsRust.Ring OsRust.Task OsRust.Sched OsRust.Effects OsRust.ThreadIds OsRust.Placement
open OsRust.Panics OsRust.Registers OsRust.Lib.Machine OsRust.Lib.Bytes
open OsRust.Stacks (Ctl Phase Standing OnStack)
open OsRust.ContextSwitch (Image Apart Fresh Inside Framed thread deliver exec thread_ok run_save
  run_restore framed_spawnFrame forall_log_cons)

/-- The idle thread of a CPU, or the thread spawned with an identifier. -/
inductive Who (Cpu : Type*)
  | idle (c : Cpu)
  | spawned (id : UInt64)
  deriving DecidableEq

/-- What a thread computes with. -/
structure Context where
  regs : Regs
  stack : Stack
  mem : Mem

inductive Event (Cpu : Type*)
  | built (w : Who Cpu) (x : Context)
  | preempted (w : Who Cpu) (x : Context)
  | resumed (w : Who Cpu) (x : Context)

structure Machine (Cpu : Type*) extends Stacks.Machine Cpu where
  mem : Mem
  regs : Cpu → Regs
  /-- The newest event first. -/
  log : List (Event Cpu)

variable {Cpu : Type} [DecidableEq Cpu]

def who : ThreadAddr Cpu → Thread Cpu → Who Cpu
  | .idle c, _ => .idle c
  | _, t => .spawned t.id

/-! ### The steps -/

/-- The assembly before and after the call of `timer_handler`. -/
def saveCode : List Instr := timerInterrupt.take 17

def restoreCode : List Instr := timerInterrupt.drop 18

inductive Act (Cpu : Type*)
  | setupTls (c : Cpu) (base : UInt64)
  | forceSwitchToIdle (c : Cpu)
  | spawnRaw (c : Cpu) (base entry arg : UInt64)
  | addThread (c : Cpu) (n : ℕ)
  | readyAdded (c : Cpu) (n : ℕ)
  /-- The running thread runs: any registers, and anything on its own stack. -/
  | work (c : Cpu) (regs : Regs) (own : Mem)
  | entry (c : Cpu)
  /-- `timer_handler` runs: any general registers, and anything below the frame. -/
  | handler (c : Cpu) (gpr : Reg → UInt64) (below : Mem)
  | switch (c : Cpu)
  | maybeLoadBalance (c o : Cpu)
  | exit (c : Cpu)

/-- The machine as CPU `c` sees it. -/
def view (m : Machine Cpu) (c : Cpu) : ContextSwitch.Machine Cpu := ⟨m.kernel, m.mem, m.regs c, []⟩

/-- A step of the scheduler alone. -/
def sched (m : Machine Cpu) (a : Stacks.Act Cpu) : Res (Machine Cpu) := do
  let s ← Stacks.step m.toMachine a
  .ok { m with toMachine := s }

/-- The timer interrupt is delivered and saves the registers of the running thread. -/
def save (im : Image Cpu) (c : Cpu) (m : Machine Cpu) : Res (Machine Cpu) := do
  let a := current m.kernel c
  let t ← thread m.kernel a
  let v ← run (exec im c .ok) (deliver im (view m c)) saveCode
  .ok ⟨⟨v.kernel, Function.update m.ctl c ⟨.entered, (m.ctl c).stack⟩⟩, v.mem,
    Function.update m.regs c v.regs,
    .preempted (who a t) ⟨m.regs c, t.kernelStack, m.mem⟩ :: m.log⟩

/-- The code loads the registers of the current thread, which runs on. -/
def resume (im : Image Cpu) (c : Cpu) (code : List Instr) (m : Machine Cpu) : Res (Machine Cpu) := do
  let a := current m.kernel c
  let t ← thread m.kernel a
  let v ← run (exec im c .ok) (view m c) code
  .ok ⟨⟨v.kernel, m.ctl⟩, v.mem, Function.update m.regs c v.regs,
    .resumed (who a t) ⟨v.regs, t.kernelStack, v.mem⟩ :: m.log⟩

variable [Fintype Cpu]

def step (im : Image Cpu) (m : Machine Cpu) : Act Cpu → Res (Machine Cpu)
  | .setupTls c base => do
    let s := Stack.new base 1
    guard (∀ d, Fresh m.kernel d s)
    let m ← sched m (.setupTls c base)
    let mem ← idleFrame m.mem s im.idleThreadEntry
    let x : Context := ⟨initial im.idleThreadEntry 0 s.getTopAddress, s, mem⟩
    .ok { m with mem := mem, log := .built (.idle c) x :: m.log }
  | .forceSwitchToIdle c => do
    let m ← sched m (.forceSwitchToIdle c)
    resume im c switchToIdle m
  | .spawnRaw c base entry arg => do
    let s := Stack.new base 4
    let id := m.kernel.threadIdCounter
    guard (∀ d, Fresh m.kernel d s)
    let m ← sched m (.spawnRaw c base)
    let mem ← spawnFrame m.mem s entry arg
    let x : Context := ⟨initial entry arg s.getTopAddress, s, mem⟩
    .ok { m with mem := mem, log := .built (.spawned id) x :: m.log }
  | .addThread c n => sched m (.addThread c n)
  | .readyAdded c n => sched m (.readyAdded c n)
  | .work c regs own => do
    guard ((m.ctl c).phase = .thread)
    let t ← thread m.kernel (m.ctl c).stack
    let s := t.kernelStack
    guard (Inside s regs.rsp)
    .ok { m with
      mem := m.mem.overlay s.base.toNat (s.base.toNat + s.size.toNat) own
      regs := Function.update m.regs c regs }
  | .entry c => do
    guard ((m.ctl c).phase = .thread ∧ (m.regs c).rflags &&& interruptFlag ≠ 0)
    save im c m
  | .handler c gpr below => do
    guard ((m.ctl c).phase ≠ .boot ∧ (m.ctl c).phase ≠ .thread)
    let t ← thread m.kernel (m.ctl c).stack
    .ok { m with
      mem := m.mem.overlay t.kernelStack.base.toNat (m.regs c).rsp.toNat below
      regs := Function.update m.regs c { m.regs c with gpr := gpr } }
  | .switch c => sched m (.switch c)
  | .maybeLoadBalance c o => sched m (.maybeLoadBalance c o)
  | .exit c => do
    let m ← sched m (.exit c)
    resume im c restoreCode m

/-- No CPU has started. -/
structure Boot (m : Machine Cpu) : Prop where
  machine : Stacks.Boot m.toMachine
  log : m.log = []

/-- No load balance takes a thread on whose stack a CPU still executes. -/
def Clear (m : Machine Cpu) : Act Cpu → Prop
  | .maybeLoadBalance c o => Stacks.Clear m.toMachine (.maybeLoadBalance c o)
  | _ => True

instance (m : Machine Cpu) : (a : Act Cpu) → Decidable (Clear m a)
  | .maybeLoadBalance c o =>
    inferInstanceAs (Decidable (Stacks.Clear m.toMachine (.maybeLoadBalance c o)))
  | .setupTls .. | .forceSwitchToIdle .. | .spawnRaw .. | .addThread .. | .readyAdded .. | .work ..
  | .entry .. | .handler .. | .switch .. | .exit .. => isTrue trivial

/-- What a thread that does not run was last seen with. -/
def asleep : List (Event Cpu) → Who Cpu → Option Context
  | [], _ => none
  | .built v x :: log, w => if v = w then some x else asleep log w
  | .preempted v x :: log, w => if v = w then some x else asleep log w
  | .resumed v _ :: log, w => if v = w then none else asleep log w

/-- The next step of a CPU on its timer interrupts, where interrupts are on; the CPU it balances with
is drawn. -/
def next (m : Machine Cpu) (c o : Cpu) : Option (Act Cpu) :=
  match (m.ctl c).phase with
  | .boot => none
  | .thread => if (m.regs c).rflags &&& interruptFlag ≠ 0 then some (.entry c) else none
  | .entered => some (.switch c)
  | .switched => some (.maybeLoadBalance c o)
  | .balanced => some (.exit c)

/-- The registers are the same, and so is the stack from `rsp` up. -/
structure Same (x y : Context) : Prop where
  regs : y.regs = x.regs
  stack : y.stack = x.stack
  mem : AgreeOn x.mem y.mem x.regs.rsp.toNat
    (x.stack.base.toNat + x.stack.size.toNat - x.regs.rsp.toNat)

/-- Every thread resumed did not run, and goes on with what it was preempted or built with. -/
def Faithful (log : List (Event Cpu)) : Prop :=
  ∀ newer w y older, log = newer ++ .resumed w y :: older → ∃ x, asleep older w = some x ∧ Same x y

variable {im : Image Cpu} {m m' : Machine Cpu} {k k' : Kernel Cpu} {c d : Cpu}
variable {a b : ThreadAddr Cpu} {t u : Thread Cpu} {log : List (Event Cpu)} {mem mem' : Mem}

omit [Fintype Cpu] in
lemma faithful_cons {e : Event Cpu} (h : Faithful log)
    (he : ∀ w y, e = .resumed w y → ∃ x, asleep log w = some x ∧ Same x y) :
    Faithful (e :: log) :=
  fun newer w y older heq =>
    forall_log_cons
      (P := fun e older => ∀ w y, e = .resumed w y → ∃ x, asleep older w = some x ∧ Same x y)
      (fun newer _ older heq w y hy => h newer w y older (hy ▸ heq)) he newer _ older heq w y rfl

/-! ### The threads there are -/

/-- What a context switch knows of a thread. -/
structure Entry (Cpu : Type*) where
  who : Who Cpu
  stack : Stack
  regs : UInt64

def entry (a : ThreadAddr Cpu) (t : Thread Cpu) : Entry Cpu := ⟨who a t, t.kernelStack, t.regs⟩

/-- Every thread there is: the idle threads of the CPUs online, those in the table, and those on
the way to it. -/
def There (k : Kernel Cpu) (x : Entry Cpu) : Prop :=
  (∃ c, k.online c = true ∧ x = entry (.idle c) (k.threads.idle c)) ∨
    (∃ i t, k.threads.get? (.slot i) = some t ∧ x = entry (.slot i) t) ∨
      ∃ t ∈ k.built, x = entry .null t

omit [DecidableEq Cpu] [Fintype Cpu] in
lemma view_of_get {i : ℕ} (ht : k.threads.get? (.slot i) = some t) :
    ThreadIds.view k i = some (t.id, t.schedState.state) := by
  rw [ThreadIds.view, ht]
  rfl

omit [DecidableEq Cpu] [Fintype Cpu] in
/-- Two addresses of one thread are the same. -/
lemma addr_of_who (h : Ids k) (ht : k.threads.get? a = some t) (hu : k.threads.get? b = some u)
    (hw : who a t = who b u) : a = b := by
  cases a with
  | null => cases ht
  | idle c =>
    cases b with
    | null => cases hu
    | idle d =>
      cases hw
      rfl
    | slot j => cases hw
  | slot i =>
    cases b with
    | null => cases hu
    | idle d => cases hw
    | slot j =>
      have hid : t.id = u.id := Who.spawned.inj hw
      have hv := view_of_get ht
      rw [hid] at hv
      rw [h.inj i j _ _ _ hv (view_of_get hu)]

omit [DecidableEq Cpu] [Fintype Cpu] in
lemma eq_of_who (h : Ids k) {x y : Entry Cpu} (hx : There k x) (hy : There k y)
    (hw : x.who = y.who) : x = y := by
  have hbuilt : ∀ i t u, k.threads.get? (.slot i) = some t → u ∈ k.built → t.id ≠ u.id := by
    intro i t u ht hu he
    exact (h.table i _ _ (view_of_get ht)).2.2.1 (he ▸ List.mem_map_of_mem hu)
  rcases hx with ⟨c, -, rfl⟩ | ⟨i, t, ht, rfl⟩ | ⟨t, ht, rfl⟩
  · rcases hy with ⟨d, -, rfl⟩ | ⟨j, u, -, rfl⟩ | ⟨u, -, rfl⟩
    · cases hw
      rfl
    · cases hw
    · cases hw
  · rcases hy with ⟨d, -, rfl⟩ | ⟨j, u, hu, rfl⟩ | ⟨u, hu, rfl⟩
    · cases hw
    · cases addr_of_who h ht hu hw
      rw [ht] at hu
      cases hu
      rfl
    · exact absurd (Who.spawned.inj hw) (hbuilt i t u ht hu)
  · rcases hy with ⟨d, -, rfl⟩ | ⟨j, u, hu, rfl⟩ | ⟨u, hu, rfl⟩
    · cases hw
    · exact absurd (Who.spawned.inj hw).symm (hbuilt j u t hu ht)
    · rw [List.inj_on_of_nodup_map h.built_nodup ht hu (Who.spawned.inj hw)]

omit [DecidableEq Cpu] [Fintype Cpu] in
lemma apart_of_fresh {s : Stack} (d : Cpu) (h : ∀ d, Fresh k d s) {x : Entry Cpu} (hx : There k x) :
    Apart x.stack s := by
  rcases hx with ⟨c, hc, rfl⟩ | ⟨i, t, ht, rfl⟩ | ⟨t, ht, rfl⟩
  · exact (h c).2 _ (ContextSwitch.mem_entries.mpr (.inl ⟨hc, rfl⟩))
  · exact (h d).2 _ (ContextSwitch.mem_entries.mpr (.inr (.inl ⟨i, t, ht, rfl⟩)))
  · exact (h d).2 _ (ContextSwitch.mem_entries.mpr (.inr (.inr ⟨t, ht, rfl⟩)))

/-- A CPU that has left `boot` stands on the stack of a thread there is. -/
lemma there_of_standing {s : Stacks.Machine Cpu} (h : Standing s) (hc : (s.ctl c).phase ≠ .boot) :
    ∃ t, s.kernel.threads.get? (s.ctl c).stack = some t ∧
      There s.kernel (entry (s.ctl c).stack t) := by
  have hst : Started s.kernel c := fun h0 => hc ((h.started c).mpr h0)
  have hon := h.placed.online hst
  have hidle : (s.ctl c).stack = .idle c → ∃ t, s.kernel.threads.get? (s.ctl c).stack = some t ∧
      There s.kernel (entry (s.ctl c).stack t) := by
    intro he
    rw [he]
    exact ⟨_, rfl, .inl ⟨c, hon, rfl⟩⟩
  have hslot : ∀ i, (s.ctl c).stack = .slot i → 0 < here s.kernel c (.slot i) →
      ∃ t, s.kernel.threads.get? (s.ctl c).stack = some t ∧
        There s.kernel (entry (s.ctl c).stack t) := by
    intro i he hpos
    obtain ⟨t, ht, -⟩ := h.placed.recorded c i hpos
    rw [he]
    exact ⟨t, ht, .inr (.inl ⟨i, t, ht, rfl⟩)⟩
  rcases h.stack c _ ⟨hc, rfl⟩ with hcur | ⟨-, he | hq⟩
  · rcases h.placed.current c with h0 | h0 | ⟨i, h0⟩
    · exact absurd h0 hst
    · exact hidle (hcur.trans h0)
    · exact hslot i (hcur.trans h0) (here_current_pos h0)
  · exact hidle he
  · obtain ⟨i, hi⟩ := h.placed.slots c _ hq
    exact hslot i hi (here_queue_pos (hi ▸ hq))

/-! ### What the scheduler leaves alone -/

/-- A step of the scheduler that no context switch can see. -/
structure Quiet (k k' : Kernel Cpu) : Prop where
  there : ∀ x, There k' x → There k x
  get : ∀ a t, k.threads.get? a = some t → ∃ t', k'.threads.get? a = some t' ∧
    entry a t' = entry a t

omit [DecidableEq Cpu] [Fintype Cpu] in
lemma Quiet.of_threads (ho : k'.online = k.online) (hb : k'.built = k.built)
    (ht : k'.threads = k.threads) : Quiet k k' where
  there x hx := by
    rwa [There, ho, hb, ht] at hx
  get a t h := ⟨t, ht ▸ h, rfl⟩

omit [DecidableEq Cpu] [Fintype Cpu] in
/-- The threads are the same up to what a context switch does not read. -/
lemma Quiet.of_map (f : ThreadAddr Cpu → Thread Cpu → Thread Cpu) (ho : k'.online = k.online)
    (hb : k'.built = k.built) (hf : ∀ a t, entry a (f a t) = entry a t)
    (ht : ∀ a, k'.threads.get? a = (k.threads.get? a).map (f a)) : Quiet k k' where
  there x hx := by
    rcases hx with ⟨c, hc, rfl⟩ | ⟨i, u, hu, rfl⟩ | hx
    · have hidle := ht (.idle c)
      simp only [Threads.get?, Option.map_some, Option.some.injEq] at hidle
      exact .inl ⟨c, ho ▸ hc, by rw [hidle, hf]⟩
    · rw [ht] at hu
      obtain ⟨t, hget, rfl⟩ := Option.map_eq_some_iff.mp hu
      exact .inr (.inl ⟨i, t, hget, by rw [hf]⟩)
    · exact .inr (.inr (hb ▸ hx))
  get a t h := ⟨f a t, by rw [ht, h]; rfl, hf a t⟩

omit [Fintype Cpu] in
lemma quiet_addThread {n : ℕ} (hs : Sched.step k (.addThread c n) = .ok k') : Quiet k k' := by
  obtain ⟨-, t, ht, rfl⟩ := step_addThread hs
  have htb : t ∈ k.built := List.mem_of_getElem? ht
  rcases addThread_cases k.threads.table t with ⟨j, tbl, he, -, hfree, hget⟩ | ⟨-, he⟩
  · rw [he]
    refine ⟨fun x hx => ?_, fun a u hu => ?_⟩
    · rcases hx with hx | ⟨i, u, hu, rfl⟩ | ⟨u, hu, rfl⟩
      · exact .inl hx
      · have hu' : tbl.get? i = some u := hu
        rw [hget] at hu'
        split at hu'
        · cases hu'
          exact .inr (.inr ⟨t, htb, rfl⟩)
        · exact .inr (.inl ⟨i, u, hu', rfl⟩)
      · exact .inr (.inr ⟨u, List.mem_of_mem_eraseIdx hu, rfl⟩)
    · refine ⟨u, ?_, rfl⟩
      cases a with
      | slot i =>
        have hi : i ≠ j := by
          rintro rfl
          rw [Threads.get?, hfree] at hu
          cases hu
        show tbl.get? i = some u
        rw [hget, if_neg hi]
        exact hu
      | _ => exact hu
  · rw [he]
    refine ⟨fun x hx => ?_, fun a u hu => ⟨u, hu, rfl⟩⟩
    rcases hx with hx | hx | ⟨u, hu, hx⟩
    · exact .inl hx
    · exact .inr (.inl hx)
    · exact .inr (.inr ⟨u, List.mem_of_mem_eraseIdx hu, hx⟩)

omit [Fintype Cpu] in
lemma quiet_readyAdded {n : ℕ} (hwf : QueuesWf k)
    (hs : Sched.step k (.readyAdded c n) = .ok k') : Quiet k k' := by
  obtain ⟨-, _, j, -, -, _, -, -, rfl⟩ := step_readyAdded hwf hs
  refine .of_map (fun a t => if a = .slot j then t.markReady c else t) rfl rfl (fun a t => ?_)
    fun a => ?_
  · split
    · cases a <;> rfl
    · rfl
  · simp only [Threads.get?_modify]
    split
    · rfl
    · simp

omit [Fintype Cpu] in
lemma quiet_maybeLoadBalance {o : Cpu} (hwf : QueuesWf k)
    (hs : Sched.step k (.maybeLoadBalance c o) = .ok k') : Quiet k k' := by
  obtain ⟨-, rfl | ⟨-, s, d, n, -, hB⟩⟩ := step_maybeLoadBalance hwf hs
  · exact .of_threads rfl rfl rfl
  · have hrest := hB.rest
    refine .of_map (fun a t => if a ∈ (queue k s).take n then t.setCpu d else t) (by rw [hrest])
      (by rw [hrest]) (fun a t => ?_) fun a => ?_
    · split
      · cases a <;> rfl
      · rfl
    · rw [hB.threads a]
      split
      · rfl
      · simp

/-! ### The invariant -/

/-- The CPU runs the thread, outside its timer interrupt. -/
def Runs (s : Stacks.Machine Cpu) (c : Cpu) (w : Who Cpu) : Prop :=
  (s.ctl c).phase = .thread ∧
    ∃ t, s.kernel.threads.get? (s.ctl c).stack = some t ∧ who (s.ctl c).stack t = w

/-- The frame of a thread that does not run holds the registers the thread was last seen with; above,
the stack is as it was. -/
structure Saved (mem : Mem) (log : List (Event Cpu)) (x : Entry Cpu) (y : Context) : Prop
    extends Framed mem x.stack x.regs y.regs where
  last : asleep log x.who = some y
  stack : y.stack = x.stack
  same : AgreeOn y.mem mem y.regs.rsp.toNat
    (x.stack.base.toNat + x.stack.size.toNat - y.regs.rsp.toNat)

omit [Fintype Cpu] in
/-- A saved thread needs its stack from the frame up. -/
lemma Saved.congr {log' : List (Event Cpu)} {x : Entry Cpu} {y : Context} (h : Saved mem log x y)
    (hlog : asleep log' x.who = asleep log x.who)
    (hmem : AgreeOn mem mem' x.regs.toNat
      (x.stack.base.toNat + x.stack.size.toNat - x.regs.toNat)) : Saved mem' log' x y := by
  have hhigh := h.high
  have htop := h.inside.2.2
  exact
    { toFramed := h.toFramed.congr (hmem.mono le_rfl (by omega))
      last := hlog ▸ h.last
      stack := h.stack
      same := h.same.trans (hmem.mono (by omega) (by omega)) }

omit [Fintype Cpu] in
/-- The part of a stack that a saved thread needs. -/
lemma Saved.above {x : Entry Cpu} {y : Context} (h : Saved mem log x y)
    (hmem : AgreeOn mem mem' x.stack.base.toNat x.stack.size.toNat) :
    AgreeOn mem mem' x.regs.toNat (x.stack.base.toNat + x.stack.size.toNat - x.regs.toNat) := by
  have hlow := h.low
  have htop := h.top
  exact hmem.mono hlow (by omega)

/-- Every thread that does not run is saved; one that runs is inside its stack, and `timer_handler`
runs below the frame of the thread it was called on. -/
structure Kept (m : Machine Cpu) : Prop where
  standing : Standing m.toMachine
  apart : ∀ x y, There m.kernel x → There m.kernel y → x.who ≠ y.who → Apart x.stack y.stack
  saved : ∀ x, There m.kernel x → (∀ c, ¬ Runs m.toMachine c x.who) → ∃ y, Saved m.mem m.log x y
  inside : ∀ c t, (m.ctl c).phase = .thread → m.kernel.threads.get? (m.ctl c).stack = some t →
    Inside t.kernelStack (m.regs c).rsp
  handling : ∀ c t, (m.ctl c).phase ≠ .boot → (m.ctl c).phase ≠ .thread →
    m.kernel.threads.get? (m.ctl c).stack = some t → (m.regs c).rsp = t.regs
  log : Faithful m.log

/-- Two CPUs that have left `boot` stand on different threads. -/
lemma stand_ne {s : Stacks.Machine Cpu} (h : Standing s) (hne : d ≠ c)
    (hc : (s.ctl c).phase ≠ .boot) (hd : (s.ctl d).phase ≠ .boot) :
    (s.ctl d).stack ≠ (s.ctl c).stack :=
  fun he => hne (h.exclusive d c _ ⟨hd, rfl⟩ ⟨hc, he.symm⟩)

/-- A thread a CPU stands on inside its interrupt runs nowhere. -/
lemma not_runs {s : Stacks.Machine Cpu} (h : Standing s) (hb : (s.ctl c).phase ≠ .boot)
    (hp : (s.ctl c).phase ≠ .thread) (ht : s.kernel.threads.get? (s.ctl c).stack = some t) (d : Cpu) :
    ¬ Runs s d (who (s.ctl c).stack t) := by
  rintro ⟨hd, u, hu, hw⟩
  have hne : d ≠ c := by
    rintro rfl
    exact hp hd
  exact stand_ne h hne hb (by simp [hd]) (addr_of_who h.placed.ids hu ht hw)

/-- The thread a CPU stands on is what it was. -/
lemma Quiet.back {s : Stacks.Machine Cpu} (hQ : Quiet s.kernel k') (hs : Standing s)
    (hd : (s.ctl d).phase ≠ .boot) (ht : k'.threads.get? (s.ctl d).stack = some t) :
    ∃ u, s.kernel.threads.get? (s.ctl d).stack = some u ∧
      entry (s.ctl d).stack t = entry (s.ctl d).stack u := by
  obtain ⟨u, hu, -⟩ := there_of_standing hs hd
  obtain ⟨t', ht', he⟩ := hQ.get _ u hu
  rw [ht] at ht'
  cases ht'
  exact ⟨u, hu, he⟩

/-- A step that no context switch can see keeps what it leaves the CPUs standing on. -/
lemma Kept.quiet {s : Stacks.Machine Cpu} (h : Kept m) (hs : Standing s) (hQ : Quiet m.kernel s.kernel)
    (hstack : ∀ d, (s.ctl d).stack = (m.ctl d).stack)
    (hboot : ∀ d, (s.ctl d).phase = .boot ↔ (m.ctl d).phase = .boot)
    (hthread : ∀ d, (s.ctl d).phase = .thread ↔ (m.ctl d).phase = .thread) :
    Kept { m with toMachine := s } := by
  refine ⟨hs, fun x y hx hy => h.apart x y (hQ.there x hx) (hQ.there y hy), fun x hx hr => ?_,
    fun d t hd ht => ?_, fun d t hb hd ht => ?_, h.log⟩
  · refine h.saved x (hQ.there x hx) fun d ⟨hd, u, hu, hw⟩ => hr d ⟨(hthread d).mpr hd, ?_⟩
    obtain ⟨u', hu', he⟩ := hQ.get _ u hu
    rw [hstack]
    exact ⟨u', hu', (congrArg Entry.who he).trans hw⟩
  · rw [hthread] at hd
    rw [hstack] at ht
    obtain ⟨u, hu, he⟩ := hQ.back h.standing (by simp [hd]) ht
    rw [show t.kernelStack = u.kernelStack from congrArg Entry.stack he]
    exact h.inside d u hd hu
  · rw [Ne, hboot] at hb
    rw [Ne, hthread] at hd
    rw [hstack] at ht
    obtain ⟨u, hu, he⟩ := hQ.back h.standing hb ht
    exact (h.handling d u hb hd hu).trans (congrArg Entry.regs he).symm

/-! ### The steps of the scheduler -/

omit [Fintype Cpu] in
lemma sched_ok {a : Stacks.Act Cpu} :
    sched m a = .ok m' ↔ ∃ s, Stacks.step m.toMachine a = .ok s ∧ m' = { m with toMachine := s } := by
  rw [sched, bind_ok]
  simp only [Except.ok.injEq, eq_comm (a := m')]

/-- A step of a CPU that stands where it stood, in or outside its interrupt as before. -/
lemma Kept.advance {a : Stacks.Act Cpu} {e : Sched.Act Cpu} {p : Phase} {f : Kernel Cpu → Ctl Cpu}
    {s : Stacks.Machine Cpu} (h : Kept m) (hc : Stacks.Clear m.toMachine a)
    (hs : Stacks.step m.toMachine a = .ok s)
    (ha : Stacks.step m.toMachine a = Stacks.advance m.toMachine c p e f)
    (hQ : ∀ k', Sched.step m.kernel e = .ok k' → Quiet m.kernel k')
    (hstack : ∀ k', (f k').stack = (m.ctl c).stack) (hb : ∀ k', (f k').phase = .boot ↔ p = .boot)
    (hp : ∀ k', (f k').phase = .thread ↔ p = .thread) : Kept { m with toMachine := s } := by
  have hstand := h.standing.step hc hs
  rw [ha] at hs
  obtain ⟨hphase, k', hk, rfl⟩ := Stacks.advance_ok.mp hs
  refine h.quiet hstand (hQ k' hk) (fun d => ?_) (fun d => ?_) fun d => ?_
  · by_cases hd : d = c
    · rw [hd]
      simpa using hstack k'
    · simp [hd]
  · by_cases hd : d = c
    · rw [hd, hphase]
      simpa using hb k'
    · simp [hd]
  · by_cases hd : d = c
    · rw [hd, hphase]
      simpa using hp k'
    · simp [hd]

lemma Kept.addThread {n : ℕ} (h : Kept m) (hs : sched m (.addThread c n) = .ok m') : Kept m' := by
  obtain ⟨s, hstep, rfl⟩ := sched_ok.mp hs
  have hp := (Stacks.advance_ok.mp hstep).1
  refine h.advance (a := .addThread c n) trivial hstep rfl (fun _ => quiet_addThread)
    (fun _ => rfl) (fun _ => ?_) fun _ => ?_
  · rw [hp]
  · rw [hp]

lemma Kept.readyAdded {n : ℕ} (h : Kept m) (hs : sched m (.readyAdded c n) = .ok m') : Kept m' := by
  obtain ⟨s, hstep, rfl⟩ := sched_ok.mp hs
  have hp := (Stacks.advance_ok.mp hstep).1
  refine h.advance (a := .readyAdded c n) trivial hstep rfl
    (fun _ => quiet_readyAdded h.standing.placed.wf) (fun _ => rfl) (fun _ => ?_) fun _ => ?_
  · rw [hp]
  · rw [hp]

lemma Kept.switch (h : Kept m) (hs : sched m (.switch c) = .ok m') : Kept m' := by
  obtain ⟨s, hstep, rfl⟩ := sched_ok.mp hs
  refine h.advance (a := .switch c) trivial hstep rfl (fun k' hk => ?_) (fun _ => rfl)
    (fun _ => by simp) fun _ => by simp
  obtain ⟨-, t, -, rfl⟩ := step_switch hk
  exact .of_threads rfl rfl rfl

lemma Kept.maybeLoadBalance {o : Cpu} (h : Kept m) (hc : Clear m (.maybeLoadBalance c o))
    (hs : sched m (.maybeLoadBalance c o) = .ok m') : Kept m' := by
  obtain ⟨s, hstep, rfl⟩ := sched_ok.mp hs
  exact h.advance (a := .maybeLoadBalance c o) hc hstep rfl
    (fun _ => quiet_maybeLoadBalance h.standing.placed.wf) (fun _ => rfl) (fun _ => by simp)
    fun _ => by simp

/-! ### New threads -/

/-- A new thread, with its first frame on a fresh stack. -/
lemma Kept.build {w : Who Cpu} {e arg : UInt64} {s : Stack} {n : Stacks.Machine Cpu} (h : Kept m)
    (hn : Standing n) (hctl : n.ctl = m.ctl)
    (hsub : ∀ x, There n.kernel x → There m.kernel x ∧ x.who ≠ w ∨
      x = ⟨w, s, s.getTopAddress - regsSize⟩)
    (hget : ∀ d, (m.ctl d).phase ≠ .boot →
      n.kernel.threads.get? (m.ctl d).stack = m.kernel.threads.get? (m.ctl d).stack)
    (c : Cpu) (hfresh : ∀ d, Fresh m.kernel d s) (hsize : 4096 ≤ s.size.toNat)
    (hframe : spawnFrame m.mem s e arg = .ok mem') :
    Kept ⟨n, mem', m.regs, .built w ⟨initial e arg s.getTopAddress, s, mem'⟩ :: m.log⟩ := by
  have hlt := (hfresh c).1
  -- the frame is written where no thread has its stack yet
  obtain ⟨hframed, hmem⟩ := framed_spawnFrame hlt hsize hframe
  refine ⟨hn, fun x y hx hy hne => ?_, fun x hx hr => ?_, fun d t hd ht => ?_,
    fun d t hb hd ht => ?_, faithful_cons h.log (by simp)⟩
  · rcases hsub x hx with ⟨hx, -⟩ | rfl
    · rcases hsub y hy with ⟨hy, -⟩ | rfl
      · exact h.apart x y hx hy hne
      · exact apart_of_fresh c hfresh hx
    · rcases hsub y hy with ⟨hy, -⟩ | rfl
      · exact (apart_of_fresh c hfresh hy).symm
      · exact absurd rfl hne
  · rcases hsub x hx with ⟨hx, hne⟩ | rfl
    · have hr' : ∀ d, ¬ Runs m.toMachine d x.who := by
        rintro d ⟨hd, t, ht, hw⟩
        refine hr d ⟨by rwa [hctl], t, ?_, by rwa [hctl]⟩
        rw [hctl, hget d (by simp [hd])]
        exact ht
      obtain ⟨y, hy⟩ := h.saved x hx hr'
      have hapart := hmem _ (apart_of_fresh c hfresh hx)
      exact ⟨y, hy.congr (if_neg (Ne.symm hne)) (hy.above hapart)⟩
    · exact ⟨_, hframed, if_pos rfl, rfl, fun _ _ _ => rfl⟩
  · rw [hctl] at hd ht
    rw [hget d (by simp [hd])] at ht
    exact h.inside d t hd ht
  · rw [hctl] at hb hd ht
    rw [hget d hb] at ht
    exact h.handling d t hb hd ht

lemma Kept.spawnRaw {base e arg : UInt64} {n : Stacks.Machine Cpu} (h : Kept m)
    (hs : Stacks.step m.toMachine (.spawnRaw c base) = .ok n)
    (hfresh : ∀ d, Fresh m.kernel d (Stack.new base 4))
    (hframe : spawnFrame m.mem (Stack.new base 4) e arg = .ok mem') :
    Kept ⟨n, mem', m.regs, .built (.spawned m.kernel.threadIdCounter)
      ⟨initial e arg (Stack.new base 4).getTopAddress, Stack.new base 4, mem'⟩ :: m.log⟩ := by
  have hids := h.standing.placed.ids
  have hn := h.standing.step (a := .spawnRaw c base) trivial hs
  obtain ⟨-, k', hk, rfl⟩ := Stacks.advance_ok.mp hs
  obtain ⟨-, hf, rfl⟩ := step_spawnRaw hk
  have hnew := counter_toNat hids hf
  refine h.build hn (Function.update_eq_self ..) (fun x hx => ?_) (fun _ _ => rfl) c hfresh
    (ContextSwitch.page_le_size base (by decide) (by decide)) hframe
  -- the identifier taken is above those in use
  rcases hx with ⟨d, hd, rfl⟩ | ⟨i, t, ht, rfl⟩ | ⟨t, ht, rfl⟩
  · exact .inl ⟨.inl ⟨d, hd, rfl⟩, by simp [entry, who]⟩
  · refine .inl ⟨.inr (.inl ⟨i, t, ht, rfl⟩), fun he => ?_⟩
    have hle := (hids.table i _ _ (view_of_get ht)).2.1
    rw [Who.spawned.inj he] at hle
    omega
  · rcases List.mem_append.mp ht with ht | ht
    · refine .inl ⟨.inr (.inr ⟨t, ht, rfl⟩), fun he => ?_⟩
      have hle := (hids.built t ht).2.1
      rw [Who.spawned.inj he] at hle
      omega
    · rw [List.mem_singleton.mp ht]
      exact .inr rfl

lemma Kept.setupTls {base e : UInt64} {n : Stacks.Machine Cpu} (h : Kept m)
    (hs : Stacks.step m.toMachine (.setupTls c base) = .ok n)
    (hfresh : ∀ d, Fresh m.kernel d (Stack.new base 1))
    (hframe : spawnFrame m.mem (Stack.new base 1) e 0 = .ok mem') :
    Kept ⟨n, mem', m.regs, .built (.idle c)
      ⟨initial e 0 (Stack.new base 1).getTopAddress, Stack.new base 1, mem'⟩ :: m.log⟩ := by
  have hn := h.standing.step (a := .setupTls c base) trivial hs
  obtain ⟨-, k', hk, rfl⟩ := Stacks.advance_ok.mp hs
  obtain ⟨hoff, rfl⟩ := step_setupTls hk
  refine h.build hn (Function.update_eq_self ..) (fun x hx => ?_) (fun d hd => ?_) c hfresh
    (ContextSwitch.page_le_size base (by decide) (by decide)) hframe
  · rcases hx with ⟨d, hd, rfl⟩ | ⟨i, t, ht, rfl⟩ | ⟨t, ht, rfl⟩
    · by_cases hdc : d = c
      · rw [hdc]
        right
        simp [entry, who, newIdle]
      · refine .inl ⟨.inl ⟨d, by simpa [hdc] using hd, by simp [hdc]⟩, ?_⟩
        simpa [entry, who] using hdc
    · exact .inl ⟨.inr (.inl ⟨i, t, ht, rfl⟩), by simp [entry, who]⟩
    · exact .inl ⟨.inr (.inr ⟨t, ht, rfl⟩), by simp [entry, who]⟩
  · -- no CPU stands on the stack of a thread that was not there
    obtain ⟨t, ht, hthere⟩ := there_of_standing h.standing hd
    cases ha : (m.ctl d).stack with
    | idle e =>
      have hec : e ≠ c := by
        rintro rfl
        rw [ha] at hthere
        rcases hthere with ⟨f, hf, he⟩ | ⟨i, u, -, he⟩ | ⟨u, -, he⟩
        · cases Who.idle.inj (congrArg Entry.who he)
          rw [hoff] at hf
          cases hf
        · cases congrArg Entry.who he
        · cases congrArg Entry.who he
      simp [Threads.get?, hec]
    | _ => rfl

/-! ### What the CPUs do on their stacks -/

/-- The running thread changes its registers and its own stack. -/
lemma Kept.work {regs : Regs} {own : Mem} (h : Kept m) (hp : (m.ctl c).phase = .thread)
    (ht : m.kernel.threads.get? (m.ctl c).stack = some t) (hin : Inside t.kernelStack regs.rsp) :
    Kept { m with
      mem := m.mem.overlay t.kernelStack.base.toNat
        (t.kernelStack.base.toNat + t.kernelStack.size.toNat) own
      regs := Function.update m.regs c regs } where
  standing := h.standing
  apart := h.apart
  saved x hx hr := by
    obtain ⟨t', ht', hthere⟩ := there_of_standing h.standing (c := c) (by simp [hp])
    rw [ht] at ht'
    cases ht'
    obtain ⟨y, hy⟩ := h.saved x hx hr
    have hne : x.who ≠ who (m.ctl c).stack t := fun he => hr c ⟨hp, t, ht, he.symm⟩
    have := h.apart x _ hx hthere hne
    exact ⟨y, hy.congr rfl (hy.above (.overlay this))⟩
  inside d u hd hu := by
    by_cases hdc : d = c
    · subst hdc
      rw [ht] at hu
      cases hu
      simpa using hin
    · simpa [hdc] using h.inside d u hd hu
  handling d u hb hd hu := by
    have hdc : d ≠ c := by
      rintro rfl
      exact hd hp
    simpa [hdc] using h.handling d u hb hd hu
  log := h.log

/-- `timer_handler` leaves the frames of all threads alone, that of the thread it was called on
among them. -/
lemma Kept.handler {gpr : Reg → UInt64} {below : Mem} (h : Kept m) (hb : (m.ctl c).phase ≠ .boot)
    (hp : (m.ctl c).phase ≠ .thread) (ht : m.kernel.threads.get? (m.ctl c).stack = some t) :
    Kept { m with
      mem := m.mem.overlay t.kernelStack.base.toNat (m.regs c).rsp.toNat below
      regs := Function.update m.regs c { m.regs c with gpr := gpr } } where
  standing := h.standing
  apart := h.apart
  saved x hx hr := by
    obtain ⟨t', ht', hthere⟩ := there_of_standing h.standing hb
    rw [ht] at ht'
    cases ht'
    obtain ⟨y, hy⟩ := h.saved x hx hr
    obtain ⟨z, hz⟩ := h.saved _ hthere (not_runs h.standing hb hp ht)
    have hrsp := h.handling c t hb hp ht
    refine ⟨y, hy.congr rfl (.overlay ?_)⟩
    by_cases hw : x.who = who (m.ctl c).stack t
    · rw [eq_of_who h.standing.placed.ids hx hthere hw, hrsp]
      exact .inr le_rfl
    · have hapart := h.apart x _ hx hthere hw
      have hhigh := hz.high
      have htop := hz.inside.2.2
      have hlow := hy.low
      have hhigh' := hy.high
      have htop' := hy.inside.2.2
      unfold Apart at hapart
      simp only [entry] at hapart hhigh htop
      rw [hrsp]
      omega
  inside d u hd hu := by
    have hdc : d ≠ c := by
      rintro rfl
      exact hp hd
    simpa [hdc] using h.inside d u hd hu
  handling d u hb' hd hu := by
    by_cases hdc : d = c
    · subst hdc
      simpa using h.handling d u hb' hd hu
    · simpa [hdc] using h.handling d u hb' hd hu
  log := h.log

/-! ### Saving and resuming -/

omit [DecidableEq Cpu] [Fintype Cpu] in
lemma saveCode_eq : saveCode = frameOrder.reverse.map .push ++ [.movRaxThread, .movRegsRsp] := rfl

omit [DecidableEq Cpu] [Fintype Cpu] in
lemma restoreCode_eq :
    restoreCode = [.movRaxThread, .movRspRegs] ++ (frameOrder.map .pop ++ [.iretq]) := rfl

omit [DecidableEq Cpu] [Fintype Cpu] in
/-- A thread on the way to the table is at no address. -/
lemma who_built_ne (h : Ids k) (ht : k.threads.get? a = some t) (hu : u ∈ k.built) :
    who .null u ≠ who a t := by
  intro he
  cases a with
  | null => cases ht
  | idle c => cases he
  | slot i =>
    refine (h.table i _ _ (view_of_get ht)).2.2.1 ?_
    rw [← Who.spawned.inj he]
    exact List.mem_map_of_mem hu

omit [Fintype Cpu] in
/-- Saving `rsp` changes the entry of one thread. -/
lemma there_saveRsp {rsp : UInt64} {x : Entry Cpu} (h : Ids k) (ht : k.threads.get? a = some t)
    (hth : k'.threads = k.threads.modify (fun t => { t with regs := rsp }) a)
    (ho : k'.online = k.online) (hb : k'.built = k.built) (hx : There k' x) :
    There k x ∧ x.who ≠ who a t ∨ x = ⟨who a t, t.kernelStack, rsp⟩ := by
  have hget : ∀ b u, k'.threads.get? b = some u → entry b u = ⟨who a t, t.kernelStack, rsp⟩ ∨
      k.threads.get? b = some u ∧ who b u ≠ who a t := by
    intro b u hu
    rw [hth, Threads.get?_modify] at hu
    split at hu
    · next hba =>
      subst hba
      rw [ht] at hu
      cases hu
      left
      cases b <;> rfl
    · next hba => exact .inr ⟨hu, fun hw => hba (addr_of_who h hu ht hw)⟩
  rcases hx with ⟨c, hc, rfl⟩ | ⟨i, u, hu, rfl⟩ | ⟨u, hu, rfl⟩
  · rcases hget (.idle c) _ rfl with he | ⟨hu, hne⟩
    · exact .inr he
    · rw [← Option.some.inj hu]
      exact .inl ⟨.inl ⟨c, ho ▸ hc, rfl⟩, hne⟩
  · rcases hget (.slot i) u hu with he | ⟨hu, hne⟩
    · exact .inr he
    · exact .inl ⟨.inr (.inl ⟨i, u, hu, rfl⟩), hne⟩
  · exact .inl ⟨.inr (.inr ⟨u, hb ▸ hu, rfl⟩), who_built_ne h ht (hb ▸ hu)⟩

variable (im) in
/-- The timer interrupt saves the thread it interrupts, wherever that was. -/
lemma Kept.save (h : Kept m) (hp : (m.ctl c).phase = .thread) :
    ∃ m', Smp.save im c m = .ok m' ∧ Kept m' := by
  have hst : Started m.kernel c := fun h0 => by
    rw [(h.standing.started c).mpr h0] at hp
    cases hp
  have hboot : (m.ctl c).phase ≠ .boot := by simp [hp]
  have hstack : (m.ctl c).stack = current m.kernel c := by
    rcases h.standing.stack c _ ⟨hboot, rfl⟩ with h1 | ⟨h1 | h1, -⟩
    · exact h1
    · rw [hp] at h1
      cases h1
    · rw [hp] at h1
      cases h1
  obtain ⟨t, ht, hthere⟩ := there_of_standing h.standing hboot
  have hin := h.inside c t hp ht
  obtain ⟨mem₁, regs₁, hpush, hsp, hwords, hframe⟩ := run_save im c .ok (m := view m c) hin
  change regs₁.rsp.toNat = (m.regs c).rsp.toNat / 16 * 16 - 160 at hsp
  have hroom := hin.2.1
  have hdiv : (m.regs c).rsp.toNat / 16 * 16 ≤ (m.regs c).rsp.toNat := Nat.div_mul_le_self ..
  obtain ⟨k₁, hk₁⟩ := saveRsp_total h.standing.placed hst regs₁.rsp
  obtain ⟨-, -, hk₁'⟩ := step_saveRsp hk₁
  have hth : k₁.threads =
      m.kernel.threads.modify (fun t => { t with regs := regs₁.rsp }) (m.ctl c).stack := by
    rw [hk₁', hstack]
  have hsub : ∀ x, There k₁ x → There m.kernel x ∧ x.who ≠ who (m.ctl c).stack t ∨
      x = ⟨who (m.ctl c).stack t, t.kernelStack, regs₁.rsp⟩ := fun x hx =>
    there_saveRsp h.standing.placed.ids ht hth (by rw [hk₁']) (by rw [hk₁']) hx
  -- the other CPUs stand on other threads
  have hothers : ∀ d, d ≠ c → (m.ctl d).phase ≠ .boot →
      k₁.threads.get? (m.ctl d).stack = m.kernel.threads.get? (m.ctl d).stack := fun d hd hb => by
    rw [hth, Threads.get?_modify, if_neg (stand_ne h.standing hd hboot hb)]
  have hself : k₁.threads.get? (m.ctl c).stack = some { t with regs := regs₁.rsp } := by
    rw [hth, Threads.get?_modify, if_pos rfl, ht]
    rfl
  have hstand : Standing ⟨k₁, Function.update m.ctl c ⟨.entered, (m.ctl c).stack⟩⟩ :=
    h.standing.step (a := .entry c regs₁.rsp) trivial (Stacks.advance_ok.mpr ⟨hp, k₁, hk₁, rfl⟩)
  have hrun : run (exec im c .ok) (deliver im (view m c)) saveCode =
      .ok ⟨k₁, mem₁, { regs₁ with
        gpr := Function.update regs₁.gpr .rax (im.thread (current m.kernel c)) }, []⟩ := by
    rw [saveCode_eq]
    refine run_append_ok.mpr ⟨_, hpush, ?_⟩
    simp only [view, run, exec, Function.update_self, if_true, hk₁, ok_bind]
  refine ⟨⟨⟨k₁, Function.update m.ctl c ⟨.entered, (m.ctl c).stack⟩⟩, mem₁,
      Function.update m.regs c { regs₁ with
        gpr := Function.update regs₁.gpr .rax (im.thread (current m.kernel c)) },
      .preempted (who (m.ctl c).stack t) ⟨m.regs c, t.kernelStack, m.mem⟩ :: m.log⟩,
    by rw [Smp.save, thread_ok.mpr (hstack ▸ ht), ok_bind, hrun, ok_bind, hstack], hstand,
    fun x y hx hy hne => ?_, fun x hx hr => ?_, fun d u hd hu => ?_, fun d u hb hd hu => ?_,
    faithful_cons h.log (by simp)⟩
  · rcases hsub x hx with ⟨hx, -⟩ | rfl
    · rcases hsub y hy with ⟨hy, -⟩ | rfl
      · exact h.apart x y hx hy hne
      · exact h.apart x (entry (m.ctl c).stack t) hx hthere hne
    · rcases hsub y hy with ⟨hy, -⟩ | rfl
      · exact h.apart (entry (m.ctl c).stack t) y hthere hy hne
      · exact absurd rfl hne
  · rcases hsub x hx with ⟨hx, hne⟩ | rfl
    · have hr' : ∀ d, ¬ Runs m.toMachine d x.who := by
        rintro d ⟨hd, u, hu, hw⟩
        by_cases hdc : d = c
        · subst hdc
          rw [ht] at hu
          cases hu
          exact hne hw.symm
        · refine hr d ⟨by simpa [hdc] using hd, u, ?_, by simpa [hdc] using hw⟩
          simp only [Function.update_of_ne hdc]
          rw [hothers d hdc (by simp [hd])]
          exact hu
      obtain ⟨y, hy⟩ := h.saved x hx hr'
      have hapart := h.apart x _ hx hthere hne
      refine ⟨y, hy.congr (if_neg (Ne.symm hne)) (hy.above (hframe _ _ ?_))⟩
      have htop := hin.2.2
      unfold Apart at hapart
      simp only [entry, view] at hapart ⊢
      omega
    · refine ⟨⟨m.regs c, t.kernelStack, m.mem⟩, ⟨?_, ?_, hwords, hin⟩, if_pos rfl, rfl,
        hframe _ _ (.inr le_rfl)⟩
      · show t.kernelStack.base.toNat ≤ regs₁.rsp.toNat
        omega
      · show regs₁.rsp.toNat + 160 ≤ (m.regs c).rsp.toNat
        omega
  · have hdc : d ≠ c := by
      rintro rfl
      simp at hd
    simp only [Function.update_of_ne hdc] at hd hu ⊢
    rw [hothers d hdc (by simp [hd])] at hu
    exact h.inside d u hd hu
  · by_cases hdc : d = c
    · subst hdc
      simp only [Function.update_self] at hu ⊢
      rw [hself] at hu
      cases hu
      rfl
    · simp only [Function.update_of_ne hdc] at hb hd hu ⊢
      rw [hothers d hdc hb] at hu
      exact h.handling d u hb hd hu

variable (im) in
/-- Code that ends by loading the frame of the current thread resumes that thread, as it was last
seen. -/
lemma Kept.resume {s : Stacks.Machine Cpu} (h : Kept m) (code : List Instr) (hs : Standing s)
    (hQ : Quiet m.kernel s.kernel)
    (hctl : s.ctl = Function.update m.ctl c ⟨.thread, current s.kernel c⟩)
    (hp : (m.ctl c).phase ≠ .thread)
    (hcode : ∀ t, s.kernel.threads.get? (current s.kernel c) = some t → ∃ g,
      run (exec im c .ok) ⟨s.kernel, m.mem, m.regs c, []⟩ code =
        run (exec im c .ok) ⟨s.kernel, m.mem, { m.regs c with gpr := g, rsp := t.regs }, []⟩
          (frameOrder.map .pop ++ [.iretq])) :
    ∃ m', Smp.resume im c code { m with toMachine := s } = .ok m' ∧ Kept m' := by
  have hself : s.ctl c = ⟨.thread, current s.kernel c⟩ := by rw [hctl, Function.update_self]
  have hother : ∀ d, d ≠ c → s.ctl d = m.ctl d := fun d hd => by rw [hctl, Function.update_of_ne hd]
  obtain ⟨t, ht, hthere⟩ := there_of_standing hs (c := c) (by simp [hself])
  rw [hself] at ht hthere
  -- no CPU ran the thread before
  have hruns : ∀ d, d ≠ c → ∀ w, Runs m.toMachine d w → Runs s d w := by
    rintro d hdc w ⟨hd, u, hu, hw⟩
    obtain ⟨u', hu', he⟩ := hQ.get _ u hu
    rw [Runs, hother d hdc]
    exact ⟨hd, u', hu', (congrArg Entry.who he).trans hw⟩
  have hnot : ∀ d, ¬ Runs m.toMachine d (who (current s.kernel c) t) := by
    intro d hd
    by_cases hdc : d = c
    · subst hdc
      exact hp hd.1
    · obtain ⟨hd', u, hu, hw⟩ := hruns d hdc _ hd
      refine stand_ne hs hdc (by simp [hself]) (by simp [hd']) ?_
      rw [hself]
      exact addr_of_who hs.placed.ids hu ht hw
  obtain ⟨y, hy⟩ := h.saved _ (hQ.there _ hthere) hnot
  have hlt : t.regs.toNat + 160 < 2 ^ 64 := by
    have hhigh : t.regs.toNat + 160 ≤ y.regs.rsp.toNat := hy.high
    exact lt_of_le_of_lt (hhigh.trans hy.inside.2.2) hy.inside.1
  obtain ⟨g, hcode⟩ := hcode t ht
  have hrun : run (exec im c .ok) ⟨s.kernel, m.mem, m.regs c, []⟩ code =
      .ok ⟨s.kernel, m.mem, y.regs, []⟩ := by
    rw [hcode]
    exact run_restore (m := ⟨s.kernel, m.mem, { m.regs c with gpr := g, rsp := t.regs }, []⟩) hlt
      hy.words
  refine ⟨⟨s, m.mem, Function.update m.regs c y.regs,
      .resumed (who (current s.kernel c) t) ⟨y.regs, t.kernelStack, m.mem⟩ :: m.log⟩,
    by simp only [Smp.resume, view, thread_ok.mpr ht, hrun, ok_bind], hs,
    fun x z hx hz => h.apart x z (hQ.there x hx) (hQ.there z hz), fun x hx hr => ?_,
    fun d u hd hu => ?_, fun d u hb hd hu => ?_, faithful_cons h.log fun w z he => ?_⟩
  · have hne : who (current s.kernel c) t ≠ x.who := by
      intro he
      refine hr c ⟨by simp [hself], t, ?_, ?_⟩
      · simp only [hself]
        exact ht
      · simp only [hself]
        exact he
    have hr' : ∀ d, ¬ Runs m.toMachine d x.who := by
      intro d hd
      by_cases hdc : d = c
      · subst hdc
        exact hp hd.1
      · exact hr d (hruns d hdc _ hd)
    obtain ⟨z, hz⟩ := h.saved x (hQ.there x hx) hr'
    exact ⟨z, hz.congr (if_neg hne) fun _ _ _ => rfl⟩
  · by_cases hdc : d = c
    · subst hdc
      simp only [hself] at hu
      rw [ht] at hu
      cases hu
      simp only [Function.update_self]
      exact hy.inside
    · simp only [hother d hdc, Function.update_of_ne hdc] at hd hu ⊢
      obtain ⟨v, hv, he⟩ := hQ.back h.standing (by simp [hd]) hu
      rw [show u.kernelStack = v.kernelStack from congrArg Entry.stack he]
      exact h.inside d v hd hv
  · have hdc : d ≠ c := by
      rintro rfl
      exact hd (by simp [hself])
    simp only [hother d hdc, Function.update_of_ne hdc] at hb hd hu ⊢
    obtain ⟨v, hv, he⟩ := hQ.back h.standing hb hu
    exact (h.handling d v hb hd hv).trans (congrArg Entry.regs he).symm
  · cases he
    exact ⟨y, hy.last, rfl, hy.stack.symm, by rw [hy.stack]; exact hy.same⟩

variable (im) in
lemma Kept.exit (h : Kept m) (hp : (m.ctl c).phase = .balanced) :
    ∃ m', step im m (.exit c) = .ok m' ∧ Kept m' := by
  have hs : Stacks.step m.toMachine (.exit c) =
      .ok ⟨m.kernel, Function.update m.ctl c ⟨.thread, current m.kernel c⟩⟩ := by
    rw [Stacks.step, guard_bind hp]
    rfl
  obtain ⟨m', hres, hm'⟩ := h.resume im restoreCode
    (h.standing.step (a := .exit c) trivial hs) (.of_threads rfl rfl rfl) rfl (by simp [hp])
    fun t ht => ⟨Function.update (m.regs c).gpr .rax (im.thread (current m.kernel c)), by
      rw [restoreCode_eq]
      refine run_append ?_ _
      simp only [run, exec, Function.update_self, if_true, thread_ok.mpr ht, ok_bind]⟩
  exact ⟨m', by rw [step, sched_ok.mpr ⟨_, hs, rfl⟩, ok_bind, hres], hm'⟩

variable (im) in
lemma Kept.forceSwitchToIdle {s : Stacks.Machine Cpu} (h : Kept m)
    (hs : Stacks.step m.toMachine (.forceSwitchToIdle c) = .ok s) :
    ∃ m', Smp.resume im c switchToIdle { m with toMachine := s } = .ok m' ∧ Kept m' := by
  have hstand := h.standing.step (a := .forceSwitchToIdle c) trivial hs
  obtain ⟨hphase, k', hk, rfl⟩ := Stacks.advance_ok.mp hs
  obtain ⟨-, -, rfl⟩ := step_forceSwitchToIdle hk
  refine h.resume im switchToIdle hstand (.of_threads rfl rfl rfl) rfl (by simp [hphase]) fun t ht => ?_
  refine ⟨(m.regs c).gpr, ?_⟩
  simp only [current, Function.update_self, Threads.get?, Option.some.injEq] at ht
  rw [switchToIdle_eq, run]
  simp only [exec, ht]

/-! ### Runs -/

lemma Kept.boot (h : Boot m) : Kept m := by
  have hnone : ∀ x, ¬ There m.kernel x := by
    rintro x (⟨c, hc, -⟩ | ⟨i, t, ht, -⟩ | ⟨t, ht, -⟩)
    · rw [h.machine.kernel.online] at hc
      cases hc
    · rw [Threads.get?, h.machine.kernel.table, get?_new] at ht
      cases ht
    · rw [h.machine.kernel.built] at ht
      cases ht
  refine ⟨.boot h.machine, fun x y hx => absurd hx (hnone x), fun x hx => absurd hx (hnone x),
    fun c t hc => ?_, fun c t hc => absurd (h.machine.ctl c) hc, ?_⟩
  · rw [h.machine.ctl] at hc
    cases hc
  · intro newer w y older heq
    rw [h.log] at heq
    simp at heq

lemma Kept.step {a : Act Cpu} (h : Kept m) (hc : Clear m a) (hs : step im m a = .ok m') :
    Kept m' := by
  cases a with
  | setupTls c base =>
    obtain ⟨_, hg, hs⟩ := bind_ok.mp hs
    obtain ⟨_, hn, hs⟩ := bind_ok.mp hs
    obtain ⟨mem', hf, hs⟩ := bind_ok.mp hs
    cases hs
    obtain ⟨n, hstep, rfl⟩ := sched_ok.mp hn
    exact h.setupTls hstep (guard_ok.mp hg) (spawnFrame_ok.mpr (idleFrame_ok.mp hf))
  | forceSwitchToIdle c =>
    obtain ⟨_, hn, hs⟩ := bind_ok.mp hs
    obtain ⟨n, hstep, rfl⟩ := sched_ok.mp hn
    obtain ⟨m'', hres, hm''⟩ := h.forceSwitchToIdle im hstep
    cases hs.symm.trans hres
    exact hm''
  | spawnRaw c base e arg =>
    obtain ⟨_, hg, hs⟩ := bind_ok.mp hs
    obtain ⟨_, hn, hs⟩ := bind_ok.mp hs
    obtain ⟨mem', hf, hs⟩ := bind_ok.mp hs
    cases hs
    obtain ⟨n, hstep, rfl⟩ := sched_ok.mp hn
    exact h.spawnRaw hstep (guard_ok.mp hg) hf
  | addThread c n => exact h.addThread hs
  | readyAdded c n => exact h.readyAdded hs
  | work c regs own =>
    obtain ⟨_, hp, hs⟩ := bind_ok.mp hs
    obtain ⟨t, ht, hs⟩ := bind_ok.mp hs
    obtain ⟨_, hg, hs⟩ := bind_ok.mp hs
    cases hs
    exact h.work (guard_ok.mp hp) (thread_ok.mp ht) (guard_ok.mp hg)
  | entry c =>
    obtain ⟨_, hp, hs⟩ := bind_ok.mp hs
    obtain ⟨m'', hsave, hm''⟩ := h.save im (guard_ok.mp hp).1
    cases hs.symm.trans hsave
    exact hm''
  | handler c gpr below =>
    obtain ⟨_, hp, hs⟩ := bind_ok.mp hs
    obtain ⟨t, ht, hs⟩ := bind_ok.mp hs
    cases hs
    exact h.handler (guard_ok.mp hp).1 (guard_ok.mp hp).2 (thread_ok.mp ht)
  | switch c => exact h.switch hs
  | maybeLoadBalance c o => exact h.maybeLoadBalance hc hs
  | exit c =>
    obtain ⟨_, hn, -⟩ := bind_ok.mp hs
    obtain ⟨n, hstep, -⟩ := sched_ok.mp hn
    obtain ⟨_, hp, -⟩ := bind_ok.mp hstep
    obtain ⟨m'', hexit, hm''⟩ := h.exit im (guard_ok.mp hp)
    cases hs.symm.trans hexit
    exact hm''

variable (im) in
/-- No step of a timer interrupt fails. -/
lemma Kept.next (h : Kept m) {o : Cpu} {a : Act Cpu} (ha : next m c o = some a) :
    ∃ m', Smp.step im m a = .ok m' := by
  have hst : (m.ctl c).phase ≠ .boot → Started m.kernel c := fun hb h0 =>
    hb ((h.standing.started c).mpr h0)
  unfold Smp.next at ha
  split at ha
  · cases ha
  · next hp =>
    split at ha
    · next hif =>
      cases ha
      obtain ⟨m', hs, -⟩ := h.save im hp
      exact ⟨m', by rw [Smp.step, guard_bind ⟨hp, hif⟩, hs]⟩
    · cases ha
  · next hp =>
    cases ha
    obtain ⟨k', hk⟩ := switch_total h.standing.placed (hst (by simp [hp]))
    exact ⟨_, sched_ok.mpr ⟨_, Stacks.advance_ok.mpr ⟨hp, k', hk, rfl⟩, rfl⟩⟩
  · next hp =>
    cases ha
    obtain ⟨k', hk⟩ := balance_total h.standing.placed (hst (by simp [hp])) o
    exact ⟨_, sched_ok.mpr ⟨_, Stacks.advance_ok.mpr ⟨hp, k', hk, rfl⟩, rfl⟩⟩
  · next hp =>
    cases ha
    obtain ⟨m', hs, -⟩ := h.exit im hp
    exact ⟨m', hs⟩

/-- **Threads survive migration.** In a run of any number of CPUs whose load balances take no thread
on whose stack a CPU still executes, every thread resumed did not run anywhere, and goes on with the
registers and the stack it was preempted or built with, on whichever CPU that was; and no timer
interrupt gets stuck. -/
theorem threads_survive_migration {m₀ : Machine Cpu} {as : List (Act Cpu)} (h0 : Boot m₀)
    (hc : AllSteps (step im) Clear m₀ as) (hr : run (step im) m₀ as = .ok m) :
    Faithful m.log ∧ ∀ c o a, next m c o = some a → ∃ m', step im m a = .ok m' := by
  have hstep : ∀ (s : Machine Cpu) a s', Kept s → Clear s a → step im s a = .ok s' → Kept s' :=
    fun _ _ _ h hc hs => h.step hc hs
  have h : Kept m := run_keeps_of_allSteps hstep (.boot h0) hc hr
  exact ⟨h.log, fun _ _ _ ha => h.next im ha⟩

/-- A whole timer interrupt of CPU `c`, balancing with `o`; `timer_handler` leaves `v` wherever it
may. -/
def tick (c o : Cpu) (v : UInt64) : List (Act Cpu) :=
  [.entry c, .switch c, .handler c (fun _ => v) fun _ => 7, .maybeLoadBalance c o, .exit c]

/-- CPU `c` spawns the thread that is to start at `entry`. -/
def spawn (c : Cpu) (base entry : UInt64) : List (Act Cpu) :=
  [.spawnRaw c base entry 0, .addThread c 0, .readyAdded c 0]

/-- CPU `c` runs the first of three threads and preempts it; CPU `d` takes it over. -/
def migrate (c d : Cpu) : List (Act Cpu) :=
  [.setupTls c 0x10000, .forceSwitchToIdle c, .setupTls d 0x12000, .forceSwitchToIdle d] ++
    spawn c 0x20000 0x5000 ++ spawn c 0x30000 0x6000 ++ spawn c 0x40000 0x7000 ++ tick c c 1 ++
    [.work c (ContextSwitch.busy 0x5008 0x21238) fun _ => 3] ++ tick c c 4 ++ tick c c 5 ++
    tick d c 6 ++ tick d c 8

def bootMachine (Cpu : Type) (n : ℕ) : Machine Cpu :=
  ⟨Stacks.bootMachine Cpu n, fun _ => 0, fun _ => ContextSwitch.busy 0 0, []⟩

def image : Image (Fin 2) := ⟨0x4000, 0x4100, fun _ => 0x9000⟩

/-- The thread resumed last, with its `rip`. -/
def lastResumed : List (Event Cpu) → Option (Who Cpu × UInt64)
  | .resumed w y :: _ => some (w, y.regs.rip)
  | _ => none

theorem threads_survive_migration_two :
    ∃ m, run (step image) (bootMachine (Fin 2) 64) (migrate 0 1) = .ok m ∧
      current m.kernel 1 = .slot 0 ∧
      ∃ y older x, m.log = .resumed (.spawned 1) y :: older ∧ y.regs.rip = 0x5008 ∧
        asleep older (.spawned 1) = some x ∧ Same x y := by
  obtain ⟨m, hm, hf⟩ := exists_run_of_map
    (f := fun m => (current m.kernel 1, lastResumed m.log))
    (c := (.slot 0, some (.spawned 1, 0x5008)))
    (show (run (step image) (bootMachine (Fin 2) 64) (migrate 0 1)).map _ = _ by decide +kernel)
  obtain ⟨hcur, hlast⟩ := Prod.mk.inj hf
  have hboot : Boot (bootMachine (Fin 2) 64) := ⟨Stacks.boot_bootMachine (by decide), rfl⟩
  obtain ⟨hfaithful, -⟩ := threads_survive_migration hboot (by decide +kernel) hm
  refine ⟨m, hm, hcur, ?_⟩
  unfold lastResumed at hlast
  split at hlast
  · next w y older hlog =>
    obtain ⟨rfl, hrip⟩ := Prod.mk.inj (Option.some.inj hlast)
    obtain ⟨x, hx, hsame⟩ := hfaithful [] _ y older hlog
    exact ⟨y, older, x, hlog, hrip, hx, hsame⟩
  · cases hlast

end OsRust.Smp
