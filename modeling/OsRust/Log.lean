import OsRust.SpinLock
import OsRust.Pieces

/-!
`log`, from any number of flows at once. `write_fmt` hands a message to `write_str` in pieces of text,
one after the other, and the other CPUs take their steps in between; the guard of the terminal lives
until the last.
-/

namespace OsRust.Log

open OsRust.Console OsRust.Sgr OsRust.Pieces OsRust.SpinLock OsRust.Lib.Machine

/-- What `write_fmt` hands to `write_str`. -/
abbrev Message := List (List UInt8)

/-- Where a flow is in `log`. -/
inductive Call
  /-- in `GLOBAL_TERMINAL.lock()` -/
  | locking (msg : Message)
  /-- in `write_fmt`, with this still to write -/
  | writing (msg rest : Message)
  /-- in the drop of the guard -/
  | dropping

structure State (Cpu Lock Flow : Type) where
  locks : SpinLock.State Cpu Lock Flow
  /-- `GLOBAL_TERMINAL`; there is none before `init`. -/
  terminal : Option Terminal
  call : Flow → Option Call
  /-- The messages whose guard has been dropped, the oldest first. -/
  done : List Message

/-- `next` is a step of `lock()` or of the drop of a guard, whether `log` has called it or not. -/
inductive Act (Cpu Lock Flow : Type)
  | log (c : Cpu) (msg : Message)
  | next (c : Cpu)
  | writeStr (c : Cpu)
  | drop (c : Cpu)
  /-- the flow has to do with another lock -/
  | lockOther (c : Cpu) (l : Lock)
  | dropOther (c : Cpu) (i : ℕ)
  | timerInterrupt (c : Cpu) (f : Flow)
  | iretq (c : Cpu) (f : Flow)

variable {Cpu Lock Flow : Type}

/-- Where the flow of the CPU is in `log`. -/
def State.callOf (s : State Cpu Lock Flow) (c : Cpu) : Option Call :=
  s.call (s.locks.core c).current

variable [DecidableEq Cpu] [DecidableEq Lock] [DecidableEq Flow]

def State.setCall (s : State Cpu Lock Flow) (c : Cpu) (x : Option Call) : State Cpu Lock Flow :=
  { s with call := Function.update s.call (s.locks.core c).current x }

/-- The call of `log` behind a step of `lock()` or of the drop: with the guard `log` writes to the
terminal, if there is one. -/
def State.follow (s : State Cpu Lock Flow) : Option Call → Option Call
  | some (.locking msg) => some (.writing msg (if s.terminal.isSome then msg else []))
  | some .dropping => none
  | x => x

variable (term : Lock) [Fintype Cpu]

def step (s : State Cpu Lock Flow) : Act Cpu Lock Flow → Res (State Cpu Lock Flow)
  | .log c msg => do
    guard ((s.callOf c).isNone)
    let t ← exec c s.locks (.lock term)
    .ok ({ s with locks := t }.setCall c (some (.locking msg)))
  | .next c => do
    let t ← exec c s.locks .next
    .ok (if t.at c = .outside then { s with locks := t }.setCall c (s.follow (s.callOf c))
      else { s with locks := t })
  | .writeStr c =>
    match s.callOf c, s.terminal with
    | some (.writing msg (w :: rest)), some t => do
      let t ← t.recvBytes w
      .ok ({ s with terminal := some t }.setCall c (some (.writing msg rest)))
    | _, _ => .error .blocked
  | .drop c =>
    match s.callOf c with
    | some (.writing msg []) => do
      let t ← exec c s.locks (.drop ((s.locks.guards.map SpinLockGuard.lock).idxOf term))
      .ok ({ s with locks := t, done := s.done ++ [msg] }.setCall c (some .dropping))
    | _ => .error .blocked
  | .lockOther c l => do
    guard ((s.callOf c).isNone ∧ l ≠ term)
    let t ← exec c s.locks (.lock l)
    .ok { s with locks := t }
  | .dropOther c i => do
    guard ((s.callOf c).isNone ∧ (s.locks.guards[i]?.map SpinLockGuard.lock) ≠ some term)
    let t ← exec c s.locks (.drop i)
    .ok { s with locks := t }
  | .timerInterrupt c f => do
    guard ((s.call f).isNone)
    let t ← SpinLock.step s.locks (.timerInterrupt c f)
    .ok { s with locks := t }
  | .iretq c f => do
    guard ((s.callOf c).isNone)
    let t ← SpinLock.step s.locks (.iretq c f)
    .ok { s with locks := t }

/-- Nobody logs. -/
structure Initial (s : State Cpu Lock Flow) : Prop where
  locks : SpinLock.Initial s.locks
  call : ∀ f, s.call f = none
  done : s.done = []

/-! ### One writes at a time -/

/-- What the flow is in the midst of, by where it is in `log`. -/
def Fits (term : Lock) : Option Call → Pc Lock → Prop
  | none, p => ∀ b, p ≠ .disable term b ∧ p ≠ .compareExchange term b
  | some (.locking _), p => ∃ b, p = .disable term b ∨ p = .compareExchange term b
  | some (.writing _ _), p => p = .outside
  | some .dropping, p => ∃ b, p = .enable b

def Writes (s : State Cpu Lock Flow) (f : Flow) : Prop :=
  ∃ msg rest, s.call f = some (.writing msg rest)

structure Guarded (term : Lock) (s : State Cpu Lock Flow) : Prop where
  exclusive : Exclusive s.locks
  fits : ∀ f, Fits term (s.call f) (s.locks.pc f)
  locked : ∀ f, Writes s f → s.locks.lock term = true
  alone : ∀ f g, Writes s f → Writes s g → f = g

variable {term} {s s' : State Cpu Lock Flow} {c : Cpu} {f : Flow} {x : Option Call}

omit [DecidableEq Cpu] [DecidableEq Lock] [Fintype Cpu] in
@[simp] lemma setCall_self : (s.setCall c x).call (s.locks.core c).current = x :=
  Function.update_self ..

/-- The step of `lock()` or of a drop a flow takes, which was at `p` and is then at `q`. -/
inductive Next (u : SpinLock.State Cpu Lock Flow) : Pc Lock → Pc Lock → (Lock → Bool) → Prop
  | disable (l : Lock) (b : Bool) : Next u (.disable l b) (.compareExchange l b) u.lock
  | spin (l : Lock) (b : Bool) (h : u.lock l = true) :
      Next u (.compareExchange l b) (.compareExchange l b) u.lock
  | acquire (l : Lock) (b : Bool) (h : u.lock l = false) :
      Next u (.compareExchange l b) .outside (Function.update u.lock l true)
  | enable (b : Bool) : Next u (.enable b) .outside u.lock

section Exec

variable {u t : SpinLock.State Cpu Lock Flow} {o : Op Lock}

omit [Fintype Cpu] in
/-- A step of a flow leaves the others where they are. -/
lemma exec_others (h : exec c u o = .ok t) : (t.core c).current = (u.core c).current ∧
    ∀ g, g ≠ (u.core c).current → t.pc g = u.pc g := by
  rcases exec_cases h with ⟨l, -, -, rfl⟩ | ⟨i, g, -, -, -, rfl⟩ | ⟨l, b, -, -, rfl⟩ |
    ⟨l, b, -, -, -, rfl⟩ | ⟨l, b, -, -, -, rfl⟩ | ⟨b, -, -, rfl⟩
  · exact ⟨rfl, fun g hg => Function.update_of_ne hg ..⟩
  · exact ⟨rfl, fun g hg => Function.update_of_ne hg ..⟩
  · have hcur : ((u.setInterrupts c false).core c).current = (u.core c).current := by
      simp [SpinLock.State.setInterrupts]
    refine ⟨hcur, fun g hg => ?_⟩
    rw [← hcur] at hg
    exact Function.update_of_ne hg ..
  · exact ⟨rfl, fun _ _ => rfl⟩
  · exact ⟨rfl, fun g hg => Function.update_of_ne hg ..⟩
  · cases b with
    | false => exact ⟨rfl, fun g hg => Function.update_of_ne hg ..⟩
    | true =>
      have hcur : ((u.setInterrupts c true).core c).current = (u.core c).current := by
        simp [SpinLock.State.setInterrupts]
      refine ⟨hcur, fun g hg => ?_⟩
      rw [← hcur] at hg
      exact Function.update_of_ne hg ..

omit [Fintype Cpu] in
lemma exec_next (h : exec c u .next = .ok t) : Next u (u.at c) (t.at c) t.lock := by
  rcases exec_cases h with ⟨l, ho, -⟩ | ⟨i, g, ho, -⟩ | ⟨l, b, -, hat, rfl⟩ |
    ⟨l, b, -, hat, hl, rfl⟩ | ⟨l, b, -, hat, hfree, rfl⟩ | ⟨b, -, hat, rfl⟩
  · cases ho
  · cases ho
  · rw [hat, goto_at]
    exact .disable l b
  · rw [hat]
    exact .spin l b hl
  · rw [hat, goto_at]
    exact .acquire l b hfree
  · rw [hat, goto_at]
    cases b with
    | false => exact .enable false
    | true => exact .enable true

omit [Fintype Cpu] in
lemma exec_lock {l : Lock} (h : exec c u (.lock l) = .ok t) :
    t.lock = u.lock ∧ ∃ b, t.at c = .disable l b := by
  obtain ⟨_, -, h⟩ := bind_ok.mp h
  cases h
  exact ⟨rfl, _, goto_at _⟩

omit [Fintype Cpu] in
lemma exec_drop {i : ℕ} (h : exec c u (.drop i) = .ok t) :
    ∃ g, u.guards[i]? = some g ∧ t.lock = Function.update u.lock g.lock false ∧
      ∃ b, t.at c = .enable b := by
  obtain ⟨_, -, h⟩ := bind_ok.mp h
  split at h
  · cases h
  · next g hg =>
    cases h
    exact ⟨g, hg, rfl, _, goto_at _⟩

end Exec

omit [DecidableEq Cpu] [DecidableEq Lock] [DecidableEq Flow] [Fintype Cpu] in
/-- What has to be shown of a step of the flow of CPU `c`. -/
lemma Guarded.onFlow (h : Guarded term s) {locks : SpinLock.State Cpu Lock Flow}
    {call : Flow → Option Call} {terminal : Option Terminal} {done : List Message}
    (he : Exclusive locks)
    (hpc : ∀ g, g ≠ (s.locks.core c).current → locks.pc g = s.locks.pc g)
    (hcall : ∀ g, g ≠ (s.locks.core c).current → call g = s.call g)
    (hfits : Fits term (call (s.locks.core c).current) (locks.pc (s.locks.core c).current))
    (hwrites : ∀ msg rest, call (s.locks.core c).current = some (.writing msg rest) →
      locks.lock term = true ∧ ∀ g, g ≠ (s.locks.core c).current → ¬ Writes s g)
    (hlocked : ∀ g, g ≠ (s.locks.core c).current → Writes s g → locks.lock term = true) :
    Guarded term ⟨locks, terminal, call, done⟩ where
  exclusive := he
  fits g := by
    by_cases hg : g = (s.locks.core c).current
    · subst hg
      exact hfits
    · simpa only [hcall g hg, hpc g hg] using h.fits g
  locked g := by
    rintro ⟨msg, rest, hw⟩
    by_cases hg : g = (s.locks.core c).current
    · subst hg
      exact (hwrites msg rest hw).1
    · exact hlocked g hg ⟨msg, rest, hcall g hg ▸ hw⟩
  alone := by
    rintro g g' ⟨msg, rest, hw⟩ ⟨msg', rest', hw'⟩
    by_cases hg : g = (s.locks.core c).current
    · by_cases hg' : g' = (s.locks.core c).current
      · rw [hg, hg']
      · subst hg
        exact absurd ⟨msg', rest', hcall g' hg' ▸ hw'⟩ ((hwrites msg rest hw).2 g' hg')
    · by_cases hg' : g' = (s.locks.core c).current
      · subst hg'
        exact absurd ⟨msg, rest, hcall g hg ▸ hw⟩ ((hwrites msg' rest' hw').2 g hg)
      · exact h.alone g g' ⟨msg, rest, hcall g hg ▸ hw⟩ ⟨msg', rest', hcall g' hg' ▸ hw'⟩

omit [DecidableEq Cpu] [DecidableEq Lock] [DecidableEq Flow] [Fintype Cpu] in
/-- The flow of a CPU that does not write has to do with another lock, or waits. -/
lemma Guarded.onOther (h : Guarded term s) {locks : SpinLock.State Cpu Lock Flow}
    (he : Exclusive locks)
    (hpc : ∀ g, g ≠ (s.locks.core c).current → locks.pc g = s.locks.pc g)
    (hfits : Fits term (s.callOf c) (locks.pc (s.locks.core c).current))
    (hlock : locks.lock term = s.locks.lock term) : Guarded term { s with locks := locks } :=
  h.onFlow he hpc (fun _ _ => rfl) hfits
    (fun msg rest hw => ⟨hlock.trans (h.locked _ ⟨msg, rest, hw⟩),
      fun g hg hg' => hg (h.alone g _ hg' ⟨msg, rest, hw⟩)⟩)
    fun g _ hg' => hlock.trans (h.locked g hg')

section Fits

variable {p : Pc Lock} {l : Lock} {b : Bool}

omit [DecidableEq Lock] in
/-- In `lock()`: that of another lock, or of the terminal's. -/
lemma Fits.lock (h : Fits term x p) (hp : p = .disable l b ∨ p = .compareExchange l b) :
    x = none ∧ l ≠ term ∨ (∃ msg, x = some (.locking msg)) ∧ l = term := by
  match x, h with
  | none, h =>
    refine .inl ⟨rfl, ?_⟩
    rintro rfl
    rcases hp with rfl | rfl
    · exact (h b).1 rfl
    · exact (h b).2 rfl
  | some (.locking msg), h =>
    obtain ⟨b', h⟩ := h
    refine .inr ⟨⟨msg, rfl⟩, ?_⟩
    rcases hp with rfl | rfl <;> rcases h with h | h <;> cases h <;> rfl
  | some (.writing msg rest), h =>
    have h : p = .outside := h
    rcases hp with hp | hp <;> rw [h] at hp <;> cases hp
  | some .dropping, h =>
    obtain ⟨b', h⟩ := h
    rcases hp with hp | hp <;> rw [h] at hp <;> cases hp

omit [DecidableEq Lock] in
lemma Fits.enable (h : Fits term x (.enable b)) : x = none ∨ x = some .dropping := by
  match x, h with
  | none, _ => exact .inl rfl
  | some .dropping, _ => exact .inr rfl
  | some (.locking msg), h =>
    obtain ⟨b', h | h⟩ := h
    · cases h
    · cases h
  | some (.writing msg rest), h => cases h

end Fits

omit [Fintype Cpu] in
/-- A step of `lock()` or of the drop of a guard. -/
lemma Guarded.next (h : Guarded term s) {t : SpinLock.State Cpu Lock Flow}
    (ht : exec c s.locks .next = .ok t) :
    Guarded term (if t.at c = .outside then { s with locks := t }.setCall c (s.follow (s.callOf c))
      else { s with locks := t }) := by
  have he := h.exclusive.exec ht
  obtain ⟨hcur, hpc⟩ := exec_others ht
  have hfit : Fits term (s.callOf c) (s.locks.at c) := h.fits _
  have hat : t.pc (s.locks.core c).current = t.at c := by rw [SpinLock.State.at, hcur]
  have hnext := exec_next ht
  generalize hp : s.locks.at c = p at hnext hfit
  generalize hq : t.at c = q at hnext hat
  generalize hl : t.lock = lock at hnext
  cases hnext with
  | disable l b =>
    rw [if_neg (by simp)]
    refine h.onOther he hpc ?_ (by rw [hl])
    rw [hat]
    rcases hfit.lock (.inl rfl) with ⟨hx, hne⟩ | ⟨⟨msg, hx⟩, rfl⟩
    · rw [hx]
      simpa [Fits] using hne
    · rw [hx]
      exact ⟨b, .inr rfl⟩
  | spin l b hset =>
    rw [if_neg (by simp)]
    refine h.onOther he hpc ?_ (by rw [hl])
    rw [hat]
    exact hfit
  | acquire l b hfree =>
    rw [if_pos rfl, State.setCall]
    simp only [hcur]
    rcases hfit.lock (.inr rfl) with ⟨hx, hne⟩ | ⟨⟨msg, hx⟩, rfl⟩
    · -- the guard of another lock
      rw [hx]
      refine h.onFlow he hpc (fun g hg => Function.update_of_ne hg ..) ?_ ?_ fun g _ hw => ?_
      · rw [Function.update_self, hat]
        simp [State.follow, Fits]
      · intro msg rest hw
        rw [Function.update_self] at hw
        cases hw
      · rw [hl, Function.update_of_ne (Ne.symm hne)]
        exact h.locked g hw
    · -- the lock was free, so that nobody wrote
      have hnone : ∀ g, ¬ Writes s g := fun g hg => by
        rw [h.locked g hg] at hfree
        cases hfree
      rw [hx]
      refine h.onFlow he hpc (fun g hg => Function.update_of_ne hg ..) ?_ ?_ fun g _ hw => ?_
      · rw [Function.update_self, hat]
        rfl
      · intro msg' rest _
        exact ⟨by rw [hl, Function.update_self], fun g _ => hnone g⟩
      · exact absurd hw (hnone g)
  | enable b =>
    rw [if_pos rfl, State.setCall]
    simp only [hcur]
    have hfollow : s.follow (s.callOf c) = none := by
      rcases hfit.enable with hx | hx <;> rw [hx] <;> rfl
    rw [hfollow]
    refine h.onFlow he hpc (fun g hg => Function.update_of_ne hg ..) ?_ ?_ fun g _ hw => ?_
    · rw [Function.update_self, hat]
      simp [Fits]
    · intro msg rest hw
      rw [Function.update_self] at hw
      cases hw
    · rw [hl]
      exact h.locked g hw

lemma Guarded.step {a : Act Cpu Lock Flow} (h : Guarded term s)
    (hs : Log.step term s a = .ok s') : Guarded term s' := by
  cases a with
  | log c msg =>
    obtain ⟨_, hg, hs⟩ := bind_ok.mp hs
    obtain ⟨t, ht, hs⟩ := bind_ok.mp hs
    cases hs
    obtain ⟨hcur, hpc⟩ := exec_others ht
    obtain ⟨hl, b, hat⟩ := exec_lock ht
    rw [SpinLock.State.at, hcur] at hat
    rw [State.setCall]
    simp only [hcur]
    refine h.onFlow (h.exclusive.exec ht) hpc (fun g hg => Function.update_of_ne hg ..) ?_ ?_
      fun g _ hw => hl ▸ h.locked g hw
    · rw [Function.update_self, hat]
      exact ⟨b, .inl rfl⟩
    · intro msg' rest hw
      rw [Function.update_self] at hw
      cases hw
  | next c =>
    obtain ⟨t, ht, hs⟩ := bind_ok.mp hs
    cases hs
    exact h.next ht
  | writeStr c =>
    simp only [Log.step] at hs
    split at hs
    · next msg w rest t hcall hterm =>
      obtain ⟨t', -, hs⟩ := bind_ok.mp hs
      cases hs
      have hw : Writes s (s.locks.core c).current := ⟨msg, w :: rest, hcall⟩
      have hfit := h.fits (s.locks.core c).current
      rw [show s.call (s.locks.core c).current = _ from hcall] at hfit
      refine h.onFlow h.exclusive (fun _ _ => rfl) (fun g hg => Function.update_of_ne hg ..) ?_ ?_
        fun g _ hg => h.locked g hg
      · rw [Function.update_self]
        exact hfit
      · exact fun _ _ _ => ⟨h.locked _ hw, fun g hg hg' => hg (h.alone g _ hg' hw)⟩
    · cases hs
  | drop c =>
    simp only [Log.step] at hs
    split at hs
    · next msg hcall =>
      obtain ⟨t, ht, hs⟩ := bind_ok.mp hs
      cases hs
      obtain ⟨hcur, hpc⟩ := exec_others ht
      obtain ⟨g, hg, hl, b, hat⟩ := exec_drop ht
      rw [SpinLock.State.at, hcur] at hat
      have hw : Writes s (s.locks.core c).current := ⟨msg, [], hcall⟩
      rw [State.setCall]
      simp only [hcur]
      refine h.onFlow (h.exclusive.exec ht) hpc (fun g hg => Function.update_of_ne hg ..) ?_ ?_
        fun g hg hg' => absurd (h.alone g _ hg' hw) hg
      · rw [Function.update_self, hat]
        exact ⟨b, rfl⟩
      · intro msg' rest hw'
        rw [Function.update_self] at hw'
        cases hw'
    · cases hs
  | lockOther c l =>
    obtain ⟨_, hg, hs⟩ := bind_ok.mp hs
    obtain ⟨t, ht, hs⟩ := bind_ok.mp hs
    cases hs
    obtain ⟨hcall, hne⟩ := guard_ok.mp hg
    obtain ⟨hcur, hpc⟩ := exec_others ht
    obtain ⟨hl, b, hat⟩ := exec_lock ht
    rw [SpinLock.State.at, hcur] at hat
    refine h.onOther (h.exclusive.exec ht) hpc ?_ (by rw [hl])
    rw [Option.isNone_iff_eq_none.mp hcall, hat]
    simpa [Fits] using hne
  | dropOther c i =>
    obtain ⟨_, hg, hs⟩ := bind_ok.mp hs
    obtain ⟨t, ht, hs⟩ := bind_ok.mp hs
    cases hs
    obtain ⟨hcall, hne⟩ := guard_ok.mp hg
    obtain ⟨hcur, hpc⟩ := exec_others ht
    obtain ⟨g, hg, hl, b, hat⟩ := exec_drop ht
    rw [SpinLock.State.at, hcur] at hat
    rw [hg, Option.map_some] at hne
    refine h.onOther (h.exclusive.exec ht) hpc ?_ ?_
    · rw [Option.isNone_iff_eq_none.mp hcall, hat]
      simp [Fits]
    · rw [hl, Function.update_of_ne]
      rintro rfl
      exact hne rfl
  | timerInterrupt c f =>
    obtain ⟨_, -, hs⟩ := bind_ok.mp hs
    obtain ⟨t, ht, hs⟩ := bind_ok.mp hs
    cases hs
    have he := h.exclusive.step ht
    obtain ⟨_, -, ht⟩ := bind_ok.mp ht
    cases ht
    exact ⟨he, h.fits, h.locked, h.alone⟩
  | iretq c f =>
    obtain ⟨_, -, hs⟩ := bind_ok.mp hs
    obtain ⟨t, ht, hs⟩ := bind_ok.mp hs
    cases hs
    have he := h.exclusive.step ht
    obtain ⟨_, -, ht⟩ := bind_ok.mp ht
    cases ht
    exact ⟨he, h.fits, h.locked, h.alone⟩

omit [DecidableEq Cpu] [DecidableEq Lock] [DecidableEq Flow] [Fintype Cpu] in
lemma Initial.guarded (h : Initial s) : Guarded term s where
  exclusive := h.locks.exclusive
  fits f := by
    rw [h.call, h.locks.pc]
    simp [Fits]
  locked f := by
    rintro ⟨msg, rest, hw⟩
    rw [h.call] at hw
    cases hw
  alone f g := by
    rintro ⟨msg, rest, hw⟩
    rw [h.call] at hw
    cases hw

/-! ### What is on the terminal -/

/-- Every message that is done, whole and in order, and what has been written of one. -/
structure Said (t₀ : Terminal) (s : State Cpu Lock Flow) (t : Terminal) (written : Message) :
    Prop where
  terminal : s.terminal = some t
  bytes : t₀.recvBytes (s.done.flatten.flatten ++ written.flatten) = .ok t
  writer : ∀ f msg rest, s.call f = some (.writing msg rest) → msg = written ++ rest
  idle : (∀ f, ¬ Writes s f) → written = []

variable {t₀ t : Terminal} {written : Message}

omit [DecidableEq Cpu] [DecidableEq Lock] [DecidableEq Flow] [Fintype Cpu] in
/-- Nothing is written, and nobody begins or ends. -/
lemma Said.congr (h : Said t₀ s t written) (ht : s'.terminal = s.terminal) (hd : s'.done = s.done)
    (hw : ∀ f msg rest, s'.call f = some (.writing msg rest) ↔
      s.call f = some (.writing msg rest)) : Said t₀ s' t written where
  terminal := ht.trans h.terminal
  bytes := by
    rw [hd]
    exact h.bytes
  writer f msg rest hf := h.writer f msg rest ((hw f msg rest).mp hf)
  idle hnone := by
    refine h.idle fun f hf => ?_
    obtain ⟨msg, rest, hf⟩ := hf
    exact hnone f ⟨msg, rest, (hw f msg rest).mpr hf⟩

omit [DecidableEq Cpu] [DecidableEq Lock] [Fintype Cpu] in
/-- The call of a flow that writes neither before nor after, or writes on. -/
lemma update_writing {g : Flow}
    (h : ∀ msg rest, x = some (.writing msg rest) ↔ s.call g = some (.writing msg rest)) (f : Flow)
    (msg rest : Message) :
    Function.update s.call g x f = some (.writing msg rest) ↔
      s.call f = some (.writing msg rest) := by
  by_cases hf : f = g
  · subst hf
    rw [Function.update_self]
    exact h msg rest
  · rw [Function.update_of_ne hf]

/-- **A step** writes a piece of the one message that is being written, or begins or ends one. -/
lemma Said.step {a : Act Cpu Lock Flow} (hg : Guarded term s) (h : Said t₀ s t written)
    (hs : Log.step term s a = .ok s') : ∃ t' written', Said t₀ s' t' written' := by
  have hg' := hg.step hs
  cases a with
  | log c msg =>
    obtain ⟨_, hnone, hs⟩ := bind_ok.mp hs
    obtain ⟨u, hu, hs⟩ := bind_ok.mp hs
    cases hs
    have hcall : s.call (s.locks.core c).current = none :=
      Option.isNone_iff_eq_none.mp (guard_ok.mp hnone)
    rw [State.setCall]
    simp only [(exec_others hu).1]
    exact ⟨t, written, h.congr rfl rfl (update_writing fun _ _ => by simp [hcall])⟩
  | next c =>
    obtain ⟨u, hu, hs⟩ := bind_ok.mp hs
    have hcur := (exec_others hu).1
    split at hs
    · rw [State.setCall] at hs
      simp only [hcur] at hs
      cases hs
      cases hcall : s.callOf c with
      | none =>
        have hcall' : s.call (s.locks.core c).current = none := hcall
        exact ⟨t, written, h.congr rfl rfl
          (update_writing fun _ _ => by simp [hcall', State.follow])⟩
      | some x =>
        cases x with
        | locking msg =>
          -- the message begins
          have hcall' : s.call (s.locks.core c).current = some (.locking msg) := hcall
          rw [hcall] at hg'
          have hnone : ∀ f, ¬ Writes s f := by
            rintro f ⟨msg', rest', hf⟩
            have hne : f ≠ (s.locks.core c).current := by
              rintro rfl
              rw [hcall'] at hf
              cases hf
            refine hne (hg'.alone f _ ⟨msg', rest', ?_⟩ ⟨msg, _, Function.update_self ..⟩)
            simpa [hne] using hf
          obtain rfl := h.idle hnone
          refine ⟨t, [], h.terminal, h.bytes, fun f msg' rest hf => ?_, fun _ => rfl⟩
          by_cases hfc : f = (s.locks.core c).current
          · subst hfc
            simp only [Function.update_self, State.follow, h.terminal, Option.isSome_some, if_true,
              Option.some.injEq, Call.writing.injEq] at hf
            rw [← hf.1, ← hf.2]
            rfl
          · exact absurd ⟨msg', rest, by simpa [hfc] using hf⟩ (hnone f)
        | writing msg rest =>
          have hcall' : s.call (s.locks.core c).current = some (.writing msg rest) := hcall
          exact ⟨t, written, h.congr rfl rfl
            (update_writing fun _ _ => by simp [hcall', State.follow])⟩
        | dropping =>
          have hcall' : s.call (s.locks.core c).current = some .dropping := hcall
          exact ⟨t, written, h.congr rfl rfl
            (update_writing fun _ _ => by simp [hcall', State.follow])⟩
    · cases hs
      exact ⟨t, written, h.congr rfl rfl fun _ _ _ => Iff.rfl⟩
  | writeStr c =>
    simp only [Log.step] at hs
    split at hs
    · next msg w rest t' hcall hterm =>
      obtain ⟨t'', ht, hs⟩ := bind_ok.mp hs
      cases hs
      obtain rfl : t = t' := Option.some.inj (h.terminal.symm.trans hterm)
      have hw : Writes s (s.locks.core c).current := ⟨msg, w :: rest, hcall⟩
      have hmsg := h.writer _ _ _ hcall
      refine ⟨t'', written ++ [w], rfl, ?_, fun f msg' rest' hf => ?_, fun hnone => ?_⟩
      · show t₀.recvBytes (s.done.flatten.flatten ++ (written ++ [w]).flatten) = _
        rw [List.flatten_append, ← List.append_assoc]
        refine run_append_ok.mpr ⟨t, h.bytes, ?_⟩
        rw [List.flatten_singleton]
        exact ht
      · by_cases hfc : f = (s.locks.core c).current
        · subst hfc
          rw [setCall_self] at hf
          cases hf
          rw [hmsg, List.append_assoc, List.singleton_append]
        · have hf' : s.call f = some (.writing msg' rest') := by
            simpa [State.setCall, hfc] using hf
          exact absurd (hg.alone f _ ⟨msg', rest', hf'⟩ hw) hfc
      · exact absurd ⟨msg, rest, setCall_self⟩ (hnone (s.locks.core c).current)
    · cases hs
  | drop c =>
    simp only [Log.step] at hs
    split at hs
    · next msg hcall =>
      obtain ⟨u, hu, hs⟩ := bind_ok.mp hs
      rw [State.setCall] at hs
      simp only [(exec_others hu).1] at hs
      cases hs
      have hw : Writes s (s.locks.core c).current := ⟨msg, [], hcall⟩
      have hmsg := h.writer _ _ _ hcall
      rw [List.append_nil] at hmsg
      refine ⟨t, [], h.terminal, ?_, fun f msg' rest' hf => ?_, fun _ => rfl⟩
      · show t₀.recvBytes ((s.done ++ [msg]).flatten.flatten ++ [].flatten) = _
        have hbytes := h.bytes
        rw [← hmsg] at hbytes
        simpa using hbytes
      · by_cases hfc : f = (s.locks.core c).current
        · subst hfc
          simp at hf
        · have hf' : s.call f = some (.writing msg' rest') := by simpa [hfc] using hf
          exact absurd (hg.alone f _ ⟨msg', rest', hf'⟩ hw) hfc
    · cases hs
  | lockOther c l =>
    obtain ⟨_, -, hs⟩ := bind_ok.mp hs
    obtain ⟨u, -, hs⟩ := bind_ok.mp hs
    cases hs
    exact ⟨t, written, h.congr rfl rfl fun _ _ _ => Iff.rfl⟩
  | dropOther c i =>
    obtain ⟨_, -, hs⟩ := bind_ok.mp hs
    obtain ⟨u, -, hs⟩ := bind_ok.mp hs
    cases hs
    exact ⟨t, written, h.congr rfl rfl fun _ _ _ => Iff.rfl⟩
  | timerInterrupt c f =>
    obtain ⟨_, -, hs⟩ := bind_ok.mp hs
    obtain ⟨u, -, hs⟩ := bind_ok.mp hs
    cases hs
    exact ⟨t, written, h.congr rfl rfl fun _ _ _ => Iff.rfl⟩
  | iretq c f =>
    obtain ⟨_, -, hs⟩ := bind_ok.mp hs
    obtain ⟨u, -, hs⟩ := bind_ok.mp hs
    cases hs
    exact ⟨t, written, h.congr rfl rfl fun _ _ _ => Iff.rfl⟩

/-! ### As messages alone -/

/-- A message ends where its last piece does, and leaves the colours as they were. -/
def Complete (k : Colors) (msg : Message) : Prop :=
  (parse .none msg.flatten).tail = .none ∧ colorsAfter k (parse .none msg.flatten).pieces = k

/-- What is printed of a message that is alone on the terminal. -/
def alone (k : Colors) (msg : Message) : List Put := shown k (parse .none msg.flatten).pieces

lemma parse_messages {k : Colors} {msgs : List Message} (h : ∀ msg ∈ msgs, Complete k msg) :
    (parse .none msgs.flatten.flatten).tail = .none ∧
      colorsAfter k (parse .none msgs.flatten.flatten).pieces = k ∧
      shown k (parse .none msgs.flatten.flatten).pieces = msgs.flatMap (alone k) := by
  induction msgs with
  | nil => exact ⟨rfl, rfl, rfl⟩
  | cons msg msgs ih =>
    obtain ⟨htail, hcolors⟩ := h msg List.mem_cons_self
    obtain ⟨ht, hc, hs⟩ := ih fun m hm => h m (List.mem_cons_of_mem msg hm)
    rw [List.flatten_cons, List.flatten_append, parse_append, htail, List.flatMap_cons]
    refine ⟨ht, ?_, ?_⟩
    · rw [colorsAfter_append, hcolors, hc]
    · rw [shown_append, hcolors, hs]
      rfl

/-- **Messages are whole.** Whatever the flows, the other locks and the interrupts do, one flow
writes to the terminal at a time, and the terminal has received the messages that are done, each as a
whole, and of one more what has been written of it. Where each message leaves the colours as they
were, each is printed as it is alone. -/
theorem messages_whole {s₀ : State Cpu Lock Flow} {as : List (Act Cpu Lock Flow)}
    (h0 : Initial s₀) (ht : s₀.terminal = some t₀) (hr : run (Log.step term) s₀ as = .ok s) :
    ∃ t written, Said t₀ s t written ∧ (∀ f g, Writes s f → Writes s g → f = g) ∧
      (t₀.ansiState = .ground → (∀ msg ∈ s.done, Complete (colors t₀) msg) → written = [] →
        ∃ t₁, print t₀ (s.done.flatMap (alone (colors t₀))) = .ok t₁ ∧
          t = inState (recolor t₁ (colors t₀)) .ground) := by
  have hsaid : Said t₀ s₀ t₀ [] := by
    refine ⟨ht, by rw [h0.done]; rfl, fun f msg rest hf => ?_, fun _ => rfl⟩
    rw [h0.call] at hf
    cases hf
  have hinv : Guarded term s ∧ ∃ t written, Said t₀ s t written :=
    run_keeps (I := fun s => Guarded term s ∧ ∃ t written, Said t₀ s t written)
      (by
        rintro s s' a ⟨hg, t, written, h⟩ hs
        exact ⟨hg.step hs, h.step hg hs⟩) ⟨h0.guarded, t₀, [], hsaid⟩ hr
  obtain ⟨hg, t, written, h⟩ := hinv
  refine ⟨t, written, h, hg.alone, fun hground hcomplete hnil => ?_⟩
  subst hnil
  have hbytes := h.bytes
  rw [List.flatten_nil, List.append_nil] at hbytes
  obtain ⟨htail, hcolors, hshown⟩ := parse_messages hcomplete
  have hstate : t₀.ansiState = Tail.none.state := hground
  obtain ⟨t₁, hp, rfl⟩ := (recvBytes_parse hstate _).mp hbytes
  refine ⟨t₁, by rwa [hshown] at hp, ?_⟩
  rw [hcolors, htail]
  rfl

/-- Each CPU runs the flow of its number, on an empty screen. -/
def quietLog (n : ℕ) : State (Fin n) ℕ (Fin n) where
  locks := ⟨fun _ => false, [], fun c => ⟨true, c⟩, fun _ => .outside⟩
  terminal := some (Terminal.new (fun _ => 0) small)
  call _ := none
  done := []

lemma quietLog_initial (n : ℕ) : Initial (quietLog n) :=
  ⟨⟨fun _ => rfl, rfl, fun _ => rfl, fun _ _ h => h⟩, fun _ => rfl, rfl⟩

/-- A bright red letter, then the default colour and a newline. -/
def alert : Message := [[0x1B, 0x5B, 0x39, 0x31, 0x6D], [0x41], [0x1B, 0x5B, 0x33, 0x39, 0x6D, 0x0A]]

def note : Message := [[0x42], [0x0A]]

/-- Two CPUs log at once; one spins while the other writes. -/
def logBoth (c d : Fin 2) : List (Act (Fin 2) ℕ (Fin 2)) :=
  [.log c alert, .log d note, .next c, .next d, .next c, .next d, .writeStr c, .next d, .writeStr c,
    .writeStr c, .drop c, .next d, .writeStr d, .next c, .writeStr d, .drop d, .next d]

set_option maxRecDepth 8000 in
theorem messages_whole_both :
    ∃ s t t₁, run (Log.step 0) (quietLog 2) (logBoth 0 1) = .ok s ∧ s.terminal = some t ∧
      print (Terminal.new (fun _ => 0) small) [⟨0x41, 0xFF7A93, 0x1A1B26⟩,
        ⟨0x0A, 0xC0C0C0, 0x1A1B26⟩, ⟨0x42, 0xC0C0C0, 0x1A1B26⟩, ⟨0x0A, 0xC0C0C0, 0x1A1B26⟩] =
          .ok t₁ ∧ t = inState (recolor t₁ ⟨0xC0C0C0, 0x1A1B26⟩) .ground := by
  obtain ⟨s, hs, hf⟩ := exists_run_of_map (f := fun s => (s.done, s.call 0, s.call 1))
    (c := ([alert, note], none, none))
    (show (run (Log.step 0) (quietLog 2) (logBoth 0 1)).map _ = _ by rfl)
  simp only [Prod.mk.injEq] at hf
  obtain ⟨hdone, hc, hd⟩ := hf
  obtain ⟨t, written, hsaid, -, hshown⟩ := messages_whole (quietLog_initial 2) rfl hs
  have hidle : ∀ f : Fin 2, ¬ Writes s f := by
    rintro f ⟨msg, rest, hw⟩
    obtain rfl | rfl : f = 0 ∨ f = 1 := by omega
    · rw [hc] at hw
      cases hw
    · rw [hd] at hw
      cases hw
  have hcomplete : ∀ msg ∈ s.done, Complete (colors (Terminal.new (fun _ => 0) small)) msg := by
    rw [hdone]
    intro msg hmsg
    simp only [List.mem_cons, List.not_mem_nil, or_false] at hmsg
    rcases hmsg with rfl | rfl
    · exact ⟨rfl, rfl⟩
    · exact ⟨rfl, rfl⟩
  obtain ⟨t₁, hp, he⟩ := hshown rfl hcomplete (hsaid.idle hidle)
  rw [hdone] at hp
  exact ⟨s, t, t₁, hs, hsaid.terminal, hp, he⟩

end OsRust.Log
