import Mathlib.Data.List.Basic

/-!
Machines given by a step function that may refuse or fail: runs over a list of actions,
the states a run reaches, and the rules for proving things of all of them.

The step function is deterministic in its action, so every choice a schedule can make is
an action, and "for every interleaving" is "for every list of actions".
-/

namespace OsRust.Lib.Machine

variable {σ τ α β ε δ : Type*}

section Defs

variable (step : σ → α → Except ε σ)

/-- Perform the actions in order; the first that does not succeed ends the run. -/
def run : σ → List α → Except ε σ
  | s, [] => .ok s
  | s, a :: as =>
    match step s a with
    | .ok s' => run s' as
    | .error e => .error e

/-- The state is the end of a run from an initial state. -/
def Reachable (init : σ → Prop) (s : σ) : Prop :=
  ∃ s₀ as, init s₀ ∧ run step s₀ as = .ok s

/-- Every step the run takes meets `P` in the state it is taken from. -/
def AllSteps (P : σ → α → Prop) : σ → List α → Prop
  | _, [] => True
  | s, a :: as => P s a ∧ ∀ s', step s a = .ok s' → AllSteps P s' as

/-- What the steps of a run cost together. -/
def cost (c : σ → α → ℕ) : σ → List α → ℕ
  | _, [] => 0
  | s, a :: as =>
    match step s a with
    | .ok s' => c s a + cost c s' as
    | .error _ => 0

/-- What the steps of a run emit, in order. -/
def emitted (emit : σ → α → List β) : σ → List α → List β
  | _, [] => []
  | s, a :: as =>
    match step s a with
    | .ok s' => emit s a ++ emitted emit s' as
    | .error _ => []

end Defs

variable {step : σ → α → Except ε σ} {init : σ → Prop}

instance AllSteps.decidable {P : σ → α → Prop} [∀ s a, Decidable (P s a)] :
    ∀ (s : σ) (as : List α), Decidable (AllSteps step P s as)
  | _, [] => isTrue trivial
  | s, a :: as =>
    match h : step s a with
    | .ok s' =>
      haveI := AllSteps.decidable (P := P) s' as
      decidable_of_iff (P s a ∧ AllSteps step P s' as) (by simp [AllSteps, h])
    | .error _ => decidable_of_iff (P s a) (by simp [AllSteps, h])

@[simp] lemma run_nil (s : σ) : run step s [] = .ok s := rfl

lemma run_cons_ok {s s'' : σ} {a : α} {as : List α} :
    run step s (a :: as) = .ok s'' ↔ ∃ s', step s a = .ok s' ∧ run step s' as = .ok s'' := by
  rw [run]
  cases step s a <;> simp

lemma run_append_ok {s s'' : σ} {as bs : List α} :
    run step s (as ++ bs) = .ok s'' ↔
      ∃ s', run step s as = .ok s' ∧ run step s' bs = .ok s'' := by
  induction as generalizing s with
  | nil => simp
  | cons a as ih =>
    simp only [List.cons_append, run_cons_ok, ih]
    constructor
    · rintro ⟨t, ht, u, hu, hb⟩
      exact ⟨u, ⟨t, ht, hu⟩, hb⟩
    · rintro ⟨u, ⟨t, ht, hu⟩, hb⟩
      exact ⟨t, ht, u, hu, hb⟩

lemma run_append {s s' : σ} {as : List α} (h : run step s as = .ok s') (bs : List α) :
    run step s (as ++ bs) = run step s' bs := by
  induction as generalizing s with
  | nil =>
    cases h
    rfl
  | cons a as ih =>
    obtain ⟨t, ht, hr⟩ := run_cons_ok.mp h
    rw [List.cons_append, run, ht]
    exact ih hr

lemma Reachable.runs {s s' : σ} {as : List α} (h : Reachable step init s)
    (hr : run step s as = .ok s') : Reachable step init s' := by
  obtain ⟨s₀, bs, h0, hb⟩ := h
  exact ⟨s₀, bs ++ as, h0, run_append_ok.mpr ⟨s, hb, hr⟩⟩

lemma exists_run_of_map {γ : Type*} {f : σ → γ} {c : γ} {s : σ} {as : List α}
    (h : (run step s as).map f = .ok c) : ∃ s', run step s as = .ok s' ∧ f s' = c := by
  cases hr : run step s as with
  | error e => simp [hr, Except.map] at h
  | ok s' => exact ⟨s', rfl, by simpa [hr, Except.map] using h⟩

/-- What every step keeps, every run keeps. -/
theorem run_keeps {I : σ → Prop} (hstep : ∀ s a s', I s → step s a = .ok s' → I s')
    {s s' : σ} {as : List α} (hs : I s) (h : run step s as = .ok s') : I s' := by
  induction as generalizing s with
  | nil =>
    cases h
    exact hs
  | cons a as ih =>
    obtain ⟨t, ht, hr⟩ := run_cons_ok.mp h
    exact ih (hstep s a t hs ht) hr

/-- **Invariant rule.** What holds at the start and is kept by every step holds of every
reachable state. -/
theorem Reachable.inv {I : σ → Prop} (h0 : ∀ s, init s → I s)
    (hstep : ∀ s a s', I s → step s a = .ok s' → I s') {s : σ}
    (h : Reachable step init s) : I s := by
  obtain ⟨s₀, as, hi, hr⟩ := h
  exact run_keeps hstep (h0 s₀ hi) hr

/-- **Guarded invariant rule.** The steps may be assumed to meet `P` when the runs are those
whose steps all do. -/
theorem run_keeps_of_allSteps {I : σ → Prop} {P : σ → α → Prop}
    (hstep : ∀ s a s', I s → P s a → step s a = .ok s' → I s')
    {s s' : σ} {as : List α} (hs : I s) (hP : AllSteps step P s as)
    (h : run step s as = .ok s') : I s' := by
  induction as generalizing s with
  | nil =>
    cases h
    exact hs
  | cons a as ih =>
    obtain ⟨t, ht, hr⟩ := run_cons_ok.mp h
    exact ih (hstep s a t hs hP.1 ht) (hP.2 t ht) hr

lemma AllSteps.of_append {P : σ → α → Prop} {s : σ} {as bs : List α}
    (h : AllSteps step P s (as ++ bs)) : AllSteps step P s as := by
  induction as generalizing s with
  | nil => exact trivial
  | cons a as ih => exact ⟨h.1, fun s' hs => ih (h.2 s' hs)⟩

/-- **Potential rule.** If every step pays its cost out of `Φ`, at `n` a unit, so does every
run. -/
theorem run_potential {I : σ → Prop} {P : α → Prop} {Φ : σ → ℕ} {c : σ → α → ℕ} {n : ℕ}
    (hstep : ∀ s a s', I s → P a → step s a = .ok s' → I s' ∧ Φ s' + n * c s a ≤ Φ s)
    {s s' : σ} {as : List α} (hs : I s) (hP : ∀ a ∈ as, P a) (h : run step s as = .ok s') :
    I s' ∧ Φ s' + n * cost step c s as ≤ Φ s := by
  induction as generalizing s with
  | nil =>
    cases h
    exact ⟨hs, by simp [cost]⟩
  | cons a as ih =>
    obtain ⟨t, ht, hr⟩ := run_cons_ok.mp h
    obtain ⟨hI, hle⟩ := hstep s a t hs (hP a List.mem_cons_self) ht
    obtain ⟨hI', hih⟩ := ih hI (fun b hb => hP b (List.mem_cons_of_mem a hb)) hr
    refine ⟨hI', ?_⟩
    simp only [cost, ht, Nat.mul_add]
    omega

/-- **Progress rule.** Where every step from the invariant succeeds and keeps it, so does every
run. -/
theorem run_succeeds {I : σ → Prop} (hstep : ∀ s a, I s → ∃ s', step s a = .ok s' ∧ I s')
    {s : σ} (hs : I s) (as : List α) : ∃ s', run step s as = .ok s' ∧ I s' := by
  induction as generalizing s with
  | nil => exact ⟨s, rfl, hs⟩
  | cons a as ih =>
    obtain ⟨t, ht, hI⟩ := hstep s a hs
    obtain ⟨s', hs', hI'⟩ := ih hI
    exact ⟨s', run_cons_ok.mpr ⟨t, ht, hs'⟩, hI'⟩

/-- **Lock-step rule.** Where two machines that are related always both succeed and stay related,
so do their runs. -/
theorem run_lockstep {step' : τ → α → Except δ τ} {R : σ → τ → Prop}
    (hstep : ∀ s t a, R s t → ∃ s' t', step s a = .ok s' ∧ step' t a = .ok t' ∧ R s' t')
    {s : σ} {t : τ} (h : R s t) (as : List α) :
    ∃ s' t', run step s as = .ok s' ∧ run step' t as = .ok t' ∧ R s' t' := by
  induction as generalizing s t with
  | nil => exact ⟨s, t, rfl, rfl, h⟩
  | cons a as ih =>
    obtain ⟨s₁, t₁, hs, ht, h₁⟩ := hstep s t a h
    obtain ⟨s', t', hs', ht', h'⟩ := ih h₁
    exact ⟨s', t', run_cons_ok.mpr ⟨s₁, hs, hs'⟩, run_cons_ok.mpr ⟨t₁, ht, ht'⟩, h'⟩

/-- **Simulation rule.** Where what a step of one machine emits is a run of the other that stays
related to it, so is what a whole run emits. -/
theorem run_simulates {step' : τ → β → Except δ τ} {emit : σ → α → List β} {R : σ → τ → Prop}
    (hstep : ∀ s t a s', R s t → step s a = .ok s' →
      ∃ t', run step' t (emit s a) = .ok t' ∧ R s' t')
    {s s' : σ} {t : τ} {as : List α} (h : R s t) (hr : run step s as = .ok s') :
    ∃ t', run step' t (emitted step emit s as) = .ok t' ∧ R s' t' := by
  induction as generalizing s t with
  | nil =>
    cases hr
    exact ⟨t, rfl, h⟩
  | cons a as ih =>
    obtain ⟨s₁, hs, hr⟩ := run_cons_ok.mp hr
    obtain ⟨t₁, ht, h₁⟩ := hstep s t a s₁ h hs
    obtain ⟨t', ht', h'⟩ := ih h₁ hr
    refine ⟨t', ?_, h'⟩
    rw [emitted, hs]
    exact run_append_ok.mpr ⟨t₁, ht, ht'⟩

end OsRust.Lib.Machine
