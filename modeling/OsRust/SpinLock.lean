import OsRust.Basic
import OsRust.Lib.Machine
import Mathlib.Data.Fintype.Basic
import Mathlib.Data.List.Nodup

/-!
The spin lock on its own, step by step: `lock()` reads the interrupt flag, clears it and tries
to set the flag of the lock until it succeeds; the drop of a guard clears the flag of the lock
and then sets the interrupt flag again if it was set before.

A flow is a thread or the handler of an interrupt. A CPU with interrupts enabled may leave its
flow for a handler at any step, and a handler ends by going on with any flow, so that a flow can
be in the middle of `lock()` when it is left, and go on with it on another CPU.
-/

namespace OsRust.SpinLock

open OsRust.Lib.Machine

structure SpinLockGuard (Lock : Type*) where
  lock : Lock
  interruptsState : Bool
  deriving DecidableEq

/-- Where a flow is in `lock()` or in the drop of a guard. -/
inductive Pc (Lock : Type*)
  | outside
  /-- before `interrupts::disable()` -/
  | disable (l : Lock) (interruptsEnabled : Bool)
  /-- in the loop -/
  | compareExchange (l : Lock) (interruptsEnabled : Bool)
  /-- behind `unlock()` -/
  | enable (interruptsState : Bool)
  deriving DecidableEq

structure Core (Flow : Type*) where
  interrupts : Bool
  current : Flow

structure State (Cpu Lock Flow : Type*) where
  /-- The flag of each lock. -/
  lock : Lock → Bool
  /-- The guards that live, the newest first. -/
  guards : List (SpinLockGuard Lock)
  core : Cpu → Core Flow
  pc : Flow → Pc Lock

/-- The steps of a flow. The first step of `lock()` reads the interrupt flag, the first step of the
drop of guard number `i` is `unlock()`. -/
inductive Op (Lock : Type*)
  | lock (l : Lock)
  | drop (i : ℕ)
  | next

inductive Act (Cpu Lock Flow : Type*)
  | op (c : Cpu) (o : Op Lock)
  | timerInterrupt (c : Cpu) (f : Flow)
  | iretq (c : Cpu) (f : Flow)

variable {Cpu Lock Flow : Type} {s s' : State Cpu Lock Flow} {c : Cpu}

/-! ### The state -/

/-- Where the flow of the CPU is. -/
def State.at (s : State Cpu Lock Flow) (c : Cpu) : Pc Lock := s.pc (s.core c).current

section Goto

variable [DecidableEq Flow]

def State.goto (s : State Cpu Lock Flow) (c : Cpu) (p : Pc Lock) : State Cpu Lock Flow :=
  { s with pc := Function.update s.pc (s.core c).current p }

@[simp] lemma goto_guards (p : Pc Lock) : (s.goto c p).guards = s.guards := rfl

@[simp] lemma goto_core (p : Pc Lock) : (s.goto c p).core = s.core := rfl

@[simp] lemma goto_at (p : Pc Lock) : (s.goto c p).at c = p := Function.update_self ..

end Goto

section SetInterrupts

variable [DecidableEq Cpu]

def State.setInterrupts (s : State Cpu Lock Flow) (c : Cpu) (b : Bool) : State Cpu Lock Flow :=
  { s with core := Function.update s.core c { s.core c with interrupts := b } }

@[simp] lemma setInterrupts_guards (b : Bool) : (s.setInterrupts c b).guards = s.guards := rfl

@[simp] lemma setInterrupts_interrupts (b : Bool) :
    ((s.setInterrupts c b).core c).interrupts = b := by
  simp [State.setInterrupts]

end SetInterrupts

def State.setLock [DecidableEq Lock] (s : State Cpu Lock Flow) (l : Lock) (b : Bool) :
    State Cpu Lock Flow :=
  { s with lock := Function.update s.lock l b }

/-- No lock is taken, and different CPUs run different flows. -/
structure Initial (s : State Cpu Lock Flow) : Prop where
  lock : ∀ l, s.lock l = false
  guards : s.guards = []
  pc : ∀ f, s.pc f = .outside
  current : Function.Injective fun c => (s.core c).current

/-! ### Guards and flags -/

/-- No two guards are of one lock, and the locks with their flag set are those with a guard. -/
structure Exclusive (s : State Cpu Lock Flow) : Prop where
  nodup : (s.guards.map SpinLockGuard.lock).Nodup
  flag : ∀ l, s.lock l = true ↔ l ∈ s.guards.map SpinLockGuard.lock

lemma Initial.exclusive (h : Initial s) : Exclusive s where
  nodup := by simp [h.guards]
  flag l := by simp [h.guards, h.lock]

lemma eraseIdx_split {α : Type*} {xs : List α} {i : ℕ} {x : α} (h : xs[i]? = some x) :
    ∃ ys zs, xs = ys ++ x :: zs ∧ xs.eraseIdx i = ys ++ zs := by
  obtain ⟨hi, rfl⟩ := List.getElem?_eq_some_iff.mp h
  refine ⟨xs.take i, xs.drop (i + 1), ?_, List.eraseIdx_eq_take_drop_succ ..⟩
  rw [← List.drop_eq_getElem_cons hi, List.take_append_drop]

variable [DecidableEq Lock]

/-- A guard more, for a lock whose flag was clear. -/
lemma Exclusive.acquire (h : Exclusive s) {l : Lock} {b : Bool} (hl : s.lock l = false)
    (hlock : s'.lock = Function.update s.lock l true) (hguards : s'.guards = ⟨l, b⟩ :: s.guards) :
    Exclusive s' := by
  have hnew : l ∉ s.guards.map SpinLockGuard.lock := by
    rw [← h.flag, hl]
    simp
  constructor
  · rw [hguards]
    exact List.nodup_cons.mpr ⟨hnew, h.nodup⟩
  · intro m
    rw [hlock, hguards, List.map_cons, List.mem_cons, Function.update_apply]
    by_cases hm : m = l
    · simp [hm]
    · simp only [hm, if_false, false_or]
      exact h.flag m

/-- A guard less, and the flag of its lock clear: no other guard was of this lock. -/
lemma Exclusive.release (h : Exclusive s) {i : ℕ} {g : SpinLockGuard Lock}
    (hg : s.guards[i]? = some g) (hlock : s'.lock = Function.update s.lock g.lock false)
    (hguards : s'.guards = s.guards.eraseIdx i) : Exclusive s' := by
  obtain ⟨ys, zs, hsplit, herase⟩ := eraseIdx_split hg
  have hnodup := h.nodup
  have hflag := h.flag
  rw [hsplit, List.map_append, List.map_cons] at hnodup hflag
  rw [List.nodup_middle, List.nodup_cons, ← List.map_append] at hnodup
  constructor
  · rw [hguards, herase]
    exact hnodup.2
  · intro m
    rw [hlock, hguards, herase, Function.update_apply]
    by_cases hm : m = g.lock
    · rw [if_pos hm, hm]
      exact iff_of_false (by simp) hnodup.1
    · rw [if_neg hm, hflag m]
      simp [hm]

/-! ### The steps -/

variable [DecidableEq Cpu] [DecidableEq Flow]

def exec (c : Cpu) (s : State Cpu Lock Flow) : Op Lock → Res (State Cpu Lock Flow)
  | .lock l => do
    guard (s.at c = .outside)
    .ok (s.goto c (.disable l (s.core c).interrupts))
  | .drop i => do
    guard (s.at c = .outside)
    match s.guards[i]? with
    | none => .error .blocked
    | some g =>
      .ok ({ s.setLock g.lock false with guards := s.guards.eraseIdx i }.goto c
        (.enable g.interruptsState))
  | .next =>
    match s.at c with
    | .outside => .error .blocked
    | .disable l b => .ok ((s.setInterrupts c false).goto c (.compareExchange l b))
    | .compareExchange l b =>
      if s.lock l then .ok s
      else .ok ({ s.setLock l true with guards := ⟨l, b⟩ :: s.guards }.goto c .outside)
    | .enable b => .ok ((if b then s.setInterrupts c true else s).goto c .outside)

/-- A handler starts with interrupts disabled, and what it goes on with has them enabled. -/
def step [Fintype Cpu] (s : State Cpu Lock Flow) : Act Cpu Lock Flow → Res (State Cpu Lock Flow)
  | .op c o => exec c s o
  | .timerInterrupt c f => do
    guard ((s.core c).interrupts = true ∧ s.pc f = .outside ∧ ∀ d, (s.core d).current ≠ f)
    .ok { s with core := Function.update s.core c ⟨false, f⟩ }
  | .iretq c f => do
    guard (s.at c = .outside ∧ ∀ d, (s.core d).current ≠ f)
    .ok { s with core := Function.update s.core c ⟨true, f⟩ }

/-- What a step of a flow can be. -/
lemma exec_cases {o : Op Lock} (h : exec c s o = .ok s') :
    (∃ l, o = .lock l ∧ s.at c = .outside ∧ s' = s.goto c (.disable l (s.core c).interrupts)) ∨
      (∃ i g, o = .drop i ∧ s.at c = .outside ∧ s.guards[i]? = some g ∧
        s' = { s.setLock g.lock false with guards := s.guards.eraseIdx i }.goto c
          (.enable g.interruptsState)) ∨
      (∃ l b, o = .next ∧ s.at c = .disable l b ∧
        s' = (s.setInterrupts c false).goto c (.compareExchange l b)) ∨
      (∃ l b, o = .next ∧ s.at c = .compareExchange l b ∧ s.lock l = true ∧ s' = s) ∨
      (∃ l b, o = .next ∧ s.at c = .compareExchange l b ∧ s.lock l = false ∧
        s' = { s.setLock l true with guards := ⟨l, b⟩ :: s.guards }.goto c .outside) ∨
      ∃ b, o = .next ∧ s.at c = .enable b ∧
        s' = (if b then s.setInterrupts c true else s).goto c .outside := by
  cases o with
  | lock l =>
    obtain ⟨_, ho, h⟩ := bind_ok.mp h
    cases h
    exact .inl ⟨l, rfl, guard_ok.mp ho, rfl⟩
  | drop i =>
    obtain ⟨_, ho, h⟩ := bind_ok.mp h
    split at h
    · cases h
    · next g hg =>
      cases h
      exact .inr (.inl ⟨i, g, rfl, guard_ok.mp ho, hg, rfl⟩)
  | next =>
    simp only [exec] at h
    split at h
    · cases h
    · next l b ho =>
      cases h
      exact .inr (.inr (.inl ⟨l, b, rfl, ho, rfl⟩))
    · next l b ho =>
      split at h
      · next hl =>
        cases h
        exact .inr (.inr (.inr (.inl ⟨l, b, rfl, ho, hl, rfl⟩)))
      · next hl =>
        cases h
        exact .inr (.inr (.inr (.inr (.inl ⟨l, b, rfl, ho, by simpa using hl, rfl⟩))))
    · next b ho =>
      cases h
      exact .inr (.inr (.inr (.inr (.inr ⟨b, rfl, ho, rfl⟩))))

/-! ### Mutual exclusion -/

lemma Exclusive.exec (h : Exclusive s) {o : Op Lock} (hs : exec c s o = .ok s') :
    Exclusive s' := by
  rcases exec_cases hs with ⟨l, -, -, rfl⟩ | ⟨i, g, -, -, hg, rfl⟩ | ⟨l, b, -, -, rfl⟩ |
    ⟨l, b, -, -, -, rfl⟩ | ⟨l, b, -, -, hl, rfl⟩ | ⟨b, -, -, rfl⟩
  · exact ⟨h.nodup, h.flag⟩
  · exact h.release hg rfl rfl
  · exact ⟨h.nodup, h.flag⟩
  · exact h
  · exact h.acquire hl rfl rfl
  · cases b with
    | false => exact ⟨h.nodup, h.flag⟩
    | true => exact ⟨h.nodup, h.flag⟩

lemma Exclusive.step [Fintype Cpu] (h : Exclusive s) {a : Act Cpu Lock Flow}
    (hs : step s a = .ok s') : Exclusive s' := by
  cases a with
  | op c o => exact h.exec hs
  | timerInterrupt c f =>
    obtain ⟨_, -, hs⟩ := bind_ok.mp hs
    cases hs
    exact ⟨h.nodup, h.flag⟩
  | iretq c f =>
    obtain ⟨_, -, hs⟩ := bind_ok.mp hs
    cases hs
    exact ⟨h.nodup, h.flag⟩

/-- **Mutual exclusion.** Whatever steps the flows and the interrupts take, no lock has two guards,
and the flag of a lock is set exactly when it has one. -/
theorem mutual_exclusion [Fintype Cpu] (h : Reachable step Initial s) :
    (s.guards.map SpinLockGuard.lock).Nodup ∧
      ∀ l, s.lock l = true ↔ l ∈ s.guards.map SpinLockGuard.lock := by
  have hinv : Exclusive s := h.inv (fun _ hs => hs.exclusive) fun _ _ _ h hs => h.step hs
  exact ⟨hinv.nodup, hinv.flag⟩

/-- Each CPU runs the flow of its number. -/
def quiet (n : ℕ) : State (Fin n) ℕ ℕ where
  lock _ := false
  guards := []
  core c := ⟨true, c⟩
  pc _ := .outside

lemma quiet_initial (n : ℕ) : Initial (quiet n) where
  lock _ := rfl
  guards := rfl
  pc _ := rfl
  current _ _ h := Fin.ext h

/-- Two CPUs want one lock, and a handler takes the other lock before the loser has disabled
interrupts. -/
def contended (c d : Fin 2) : List (Act (Fin 2) ℕ ℕ) :=
  [.op c (.lock 1), .op d (.lock 1), .op c .next, .timerInterrupt d 7, .op c .next,
    .op d (.lock 2), .op d .next, .op d .next, .op d (.drop 0), .op d .next, .iretq d 1,
    .op d .next, .op d .next, .op c (.drop 0), .op d .next]

theorem mutual_exclusion_contended : ∃ s, run step (quiet 2) (contended 0 1) = .ok s ∧
    s.guards = [⟨1, true⟩] ∧ (s.guards.map SpinLockGuard.lock).Nodup ∧
    ∀ l, s.lock l = true ↔ l ∈ s.guards.map SpinLockGuard.lock := by
  obtain ⟨s, hs, hguards⟩ := exists_run_of_map (f := fun s => s.guards) (c := [⟨1, true⟩])
    (show (run step (quiet 2) (contended 0 1)).map _ = _ by rfl)
  exact ⟨s, hs, hguards, mutual_exclusion ⟨quiet 2, _, quiet_initial 2, hs⟩⟩

/-! ### Interrupts -/

/-- Interrupts are off while there is a guard, and as they were at first (`b`) when there is none
and the last drop is over. -/
structure HoldsOff (b : Bool) (c : Cpu) (s : State Cpu Lock Flow) : Prop where
  held : s.guards ≠ [] → (s.core c).interrupts = false
  released : s.guards = [] → s.at c = .outside → (s.core c).interrupts = b

/-- What holds after any part of the steps. -/
def AlwaysOff (b : Bool) (c : Cpu) (s : State Cpu Lock Flow) (ops : List (Op Lock)) : Prop :=
  ∀ ops₁ ops₂ s₁, ops = ops₁ ++ ops₂ → run (exec c) s ops₁ = .ok s₁ → HoldsOff b c s₁

/-- A guard that will enable interrupts is dropped as the last. -/
def DropsLast (s : State Cpu Lock Flow) : Op Lock → Prop
  | .lock _ => True
  | .drop i => s.guards[i]?.map SpinLockGuard.interruptsState = some true → s.guards.length = 1
  | .next => True

instance : DecidablePred (DropsLast s)
  | .lock _ => inferInstanceAs (Decidable True)
  | .drop _ => inferInstanceAs (Decidable (_ → _))
  | .next => inferInstanceAs (Decidable True)

/-- The invariant of the runs in which they are: when interrupts were on at first, one of the guards
saw that. -/
structure Nested (b : Bool) (c : Cpu) (s : State Cpu Lock Flow) : Prop where
  held : s.guards ≠ [] → (s.core c).interrupts = false
  saved : s.guards ≠ [] → s.guards.any SpinLockGuard.interruptsState = b
  outside : s.at c = .outside → s.guards = [] → (s.core c).interrupts = b
  disable : ∀ l v, s.at c = .disable l v → v = (s.core c).interrupts ∧
    (s.guards = [] → (s.core c).interrupts = b)
  compareExchange : ∀ l v, s.at c = .compareExchange l v →
    (s.core c).interrupts = false ∧ v = (s.guards.isEmpty && b)
  enable : ∀ v, s.at c = .enable v →
    (s.core c).interrupts = false ∧ v = (s.guards.isEmpty && b)

omit [DecidableEq Lock] [DecidableEq Cpu] [DecidableEq Flow] in
lemma Nested.holdsOff {b : Bool} (h : Nested b c s) : HoldsOff b c s :=
  ⟨h.held, fun hg ho => h.outside ho hg⟩

omit [DecidableEq Lock] [DecidableEq Cpu] [DecidableEq Flow] in
/-- The guard that is dropped is the last, or it is not the one that saw interrupts on. -/
lemma Nested.drop {b : Bool} (h : Nested b c s) {i : ℕ} {g : SpinLockGuard Lock}
    (hg : s.guards[i]? = some g) (hd : DropsLast s (.drop i)) :
    (s.guards.eraseIdx i = [] ∧ g.interruptsState = b) ∨
      s.guards.eraseIdx i ≠ [] ∧ g.interruptsState = false ∧
        (s.guards.eraseIdx i).any SpinLockGuard.interruptsState = b := by
  obtain ⟨ys, zs, hsplit, herase⟩ := eraseIdx_split hg
  have hsaved := h.saved (by rw [hsplit]; simp)
  rw [hsplit, List.any_append, List.any_cons] at hsaved
  rw [herase]
  by_cases hnil : ys ++ zs = []
  · obtain ⟨rfl, rfl⟩ := List.append_eq_nil_iff.mp hnil
    exact .inl ⟨rfl, by simpa using hsaved⟩
  · have hfalse : g.interruptsState = false := by
      by_contra hn
      rw [Bool.not_eq_false] at hn
      have hlen := hd (by rw [hg, Option.map_some, hn])
      rw [hsplit] at hlen
      apply hnil
      apply List.eq_nil_of_length_eq_zero
      simp only [List.length_append, List.length_cons] at hlen ⊢
      omega
    refine .inr ⟨hnil, hfalse, ?_⟩
    rw [List.any_append, ← hsaved, hfalse, Bool.false_or]

lemma Nested.exec {b : Bool} (h : Nested b c s) {o : Op Lock} (hd : DropsLast s o)
    (hs : exec c s o = .ok s') : Nested b c s' := by
  rcases exec_cases hs with ⟨l, -, ho, rfl⟩ | ⟨i, g, rfl, ho, hg, rfl⟩ | ⟨l, v, -, ho, rfl⟩ |
    ⟨l, v, -, -, -, rfl⟩ | ⟨l, v, -, ho, -, rfl⟩ | ⟨v, -, ho, rfl⟩
  · refine ⟨h.held, h.saved, ?_, ?_, ?_, ?_⟩
    · simp
    · rintro l v hv
      rw [goto_at] at hv
      cases hv
      exact ⟨rfl, h.outside ho⟩
    · simp
    · simp
  · have hoff : (s.core c).interrupts = false := h.held (by rintro hnil; simp [hnil] at hg)
    rcases h.drop hg hd with ⟨hnil, hb⟩ | ⟨hnil, hfalse, hany⟩
    · refine ⟨fun _ => hoff, fun hn => absurd hnil hn, by simp, by simp, by simp, fun v hv => ?_⟩
      rw [goto_at] at hv
      cases hv
      refine ⟨hoff, ?_⟩
      show g.interruptsState = ((s.guards.eraseIdx i).isEmpty && b)
      rw [hnil, hb]
      simp
    · refine ⟨fun _ => hoff, fun _ => hany, by simp, by simp, by simp, fun v hv => ?_⟩
      rw [goto_at] at hv
      cases hv
      refine ⟨hoff, ?_⟩
      show g.interruptsState = ((s.guards.eraseIdx i).isEmpty && b)
      rw [hfalse, List.isEmpty_eq_false_iff.mpr hnil, Bool.false_and]
  · obtain ⟨hv, hnil⟩ := h.disable l v ho
    refine ⟨fun _ => by simp, h.saved, by simp, by simp, fun l' v' hv' => ?_, by simp⟩
    rw [goto_at] at hv'
    cases hv'
    refine ⟨by simp, ?_⟩
    show v = (s.guards.isEmpty && b)
    cases hguards : s.guards with
    | nil => simp [hv, hnil hguards]
    | cons g gs => simp [hv, h.held (by simp [hguards])]
  · exact h
  · obtain ⟨hoff, hv⟩ := h.compareExchange l v ho
    refine ⟨fun _ => hoff, fun _ => ?_, fun _ hn => (by cases hn), by simp, by simp, by simp⟩
    show (v || s.guards.any SpinLockGuard.interruptsState) = b
    cases hguards : s.guards with
    | nil => simp [hv, hguards]
    | cons g gs =>
      rw [← hguards, h.saved (by simp [hguards]), hv, hguards]
      simp
  · obtain ⟨hoff, hv⟩ := h.enable v ho
    cases v with
    | false =>
      refine ⟨h.held, h.saved, fun _ hnil => ?_, by simp, by simp, by simp⟩
      have hnil : s.guards = [] := hnil
      show (s.core c).interrupts = b
      rw [hoff]
      simpa [hnil] using hv
    | true =>
      obtain ⟨hnil, rfl⟩ : s.guards = [] ∧ b = true := by simpa using hv
      exact ⟨fun hn => absurd hnil hn, fun hn => absurd hnil hn, fun _ _ => by simp, by simp,
        by simp, by simp⟩

/-- Behind `unlock()` there is only one thing to do. -/
lemma exec_enable {v : Bool} {o : Op Lock} (ho : s.at c = .enable v) (hs : exec c s o = .ok s') :
    s' = (if v then s.setInterrupts c true else s).goto c .outside := by
  rcases exec_cases hs with ⟨l, -, ho', -⟩ | ⟨i, g, -, ho', -, -⟩ | ⟨l, v', -, ho', -⟩ |
    ⟨l, v', -, ho', -, -⟩ | ⟨l, v', -, ho', -, -⟩ | ⟨v', -, ho', hs'⟩
  all_goals rw [ho] at ho'; cases ho'
  exact hs'

/-- Where the condition fails once, interrupts are on with a guard two steps later. -/
lemma dropsLast_of_alwaysOff {b : Bool} {ops : List (Op Lock)} (hoff : AlwaysOff b c s ops)
    (hr : run (exec c) s ops = .ok s') (hend : s'.at c = .outside) :
    AllSteps (exec c) DropsLast s ops := by
  induction ops generalizing s with
  | nil => exact trivial
  | cons o ops ih =>
    obtain ⟨s₁, hs, hr⟩ := run_cons_ok.mp hr
    have hrest : AlwaysOff b c s₁ ops := by
      intro ops₁ ops₂ s₂ hsplit hr₂
      exact hoff (o :: ops₁) ops₂ s₂ (by rw [hsplit]; rfl) (run_cons_ok.mpr ⟨s₁, hs, hr₂⟩)
    refine ⟨?_, fun t ht => ?_⟩
    · cases o with
      | lock l => exact trivial
      | next => exact trivial
      | drop i =>
        intro hsaved
        obtain ⟨g, hg, hgs⟩ := Option.map_eq_some_iff.mp hsaved
        by_contra hlen
        have hs₁ : s₁ = { s.setLock g.lock false with guards := s.guards.eraseIdx i }.goto c
            (.enable true) := by
          obtain ⟨_, -, hs⟩ := bind_ok.mp hs
          rw [hg] at hs
          cases hs
          rw [hgs]
        subst hs₁
        -- the drop can only go on by enabling interrupts
        cases ops with
        | nil =>
          cases hr
          rw [goto_at] at hend
          cases hend
        | cons o ops =>
          obtain ⟨s₂, hs₂, -⟩ := run_cons_ok.mp hr
          have h₂ := hoff [.drop i, o] ops s₂ rfl (run_cons_ok.mpr ⟨_, hs, by simp [run, hs₂]⟩)
          have hguards : s₂.guards = s.guards.eraseIdx i ∧ (s₂.core c).interrupts = true := by
            rw [exec_enable (goto_at _) hs₂]
            exact ⟨rfl, by simp⟩
          have hne : s₂.guards ≠ [] := by
            obtain ⟨hi, -⟩ := List.getElem?_eq_some_iff.mp hg
            rw [hguards.1, Ne, ← List.length_eq_zero_iff, List.length_eraseIdx_of_lt hi]
            omega
          have := h₂.held hne
          rw [hguards.2] at this
          cases this
    · rw [hs] at ht
      cases ht
      exact ih hrest hr

/-- **Interrupts and guards.** When the guard that saw interrupts on is always dropped as the last,
interrupts are off while there is a guard and come back with the end of the last drop. Of all drops
that are completed, this is only so then. -/
theorem interrupts_off_iff {ops : List (Op Lock)} (hguards : s.guards = []) (ho : s.at c = .outside)
    (hr : run (exec c) s ops = .ok s') :
    (AllSteps (exec c) DropsLast s ops → AlwaysOff (s.core c).interrupts c s ops) ∧
      (s'.at c = .outside → AlwaysOff (s.core c).interrupts c s ops →
        AllSteps (exec c) DropsLast s ops) := by
  have hnested : Nested (s.core c).interrupts c s := by
    refine ⟨fun hn => absurd hguards hn, fun hn => absurd hguards hn, fun _ _ => rfl, ?_, ?_, ?_⟩
    all_goals
      intros
      simp_all
  constructor
  · rintro hall ops₁ ops₂ s₁ rfl hr₁
    refine Nested.holdsOff (run_keeps_of_allSteps ?_ hnested hall.of_append hr₁)
    exact fun _ _ _ h hd hs => h.exec hd hs
  · exact fun hend hoff => dropsLast_of_alwaysOff hoff hr hend

/-- Two locks are taken and the first guard is dropped first. -/
def outOfOrder : List (Op ℕ) :=
  [.lock 1, .next, .next, .lock 2, .next, .next, .drop 1, .next]

/-- A guard lives and interrupts are on. -/
theorem interrupts_off_fails : ∃ s : State (Fin 1) ℕ ℕ,
    run (exec 0) (quiet 1) outOfOrder = .ok s ∧ s.guards = [⟨2, false⟩] ∧
      (s.core 0).interrupts = true ∧ ¬ AlwaysOff true 0 (quiet 1) outOfOrder := by
  obtain ⟨s, hs, hf⟩ := exists_run_of_map (f := fun s => (s.guards, (s.core 0).interrupts))
    (c := ([⟨2, false⟩], true)) (show (run (exec 0) (quiet 1) outOfOrder).map _ = _ by rfl)
  obtain ⟨hguards, hon⟩ := Prod.mk.inj hf
  refine ⟨s, hs, hguards, hon, fun hoff => ?_⟩
  have := (hoff outOfOrder [] s rfl hs).held (by simp [hguards])
  rw [hon] at this
  cases this

/-- Of three guards the middle one goes first and the first one last. -/
def firstLast : List (Op ℕ) :=
  [.lock 1, .next, .next, .lock 2, .next, .next, .lock 3, .next, .next, .drop 1, .next,
    .drop 0, .next, .drop 0, .next]

theorem interrupts_off_iff_firstLast :
    AlwaysOff true 0 (quiet 1) firstLast ∧ AllSteps (exec 0) DropsLast (quiet 1) firstLast := by
  obtain ⟨s, hs, -⟩ := exists_run_of_map (f := fun s => s.guards) (c := [])
    (show (run (exec 0) (quiet 1) firstLast).map _ = _ by rfl)
  have hall : AllSteps (exec 0) DropsLast (quiet 1) firstLast := by decide
  exact ⟨(interrupts_off_iff rfl rfl hs).1 hall, hall⟩

end OsRust.SpinLock
