import OsRust.Lib.Machine

/-!
What the parts of a run cost together, what holds of a run because it holds of each action in it,
and runs of two machines side by side, either of which may fail.
-/

namespace OsRust.Lib.Machine

variable {σ τ α ε : Type*} {step : σ → α → Except ε σ}

lemma cost_le_cost {c d : σ → α → ℕ} (h : ∀ s a, c s a ≤ d s a) (s : σ) (as : List α) :
    cost step c s as ≤ cost step d s as := by
  induction as generalizing s with
  | nil => exact Nat.le_refl _
  | cons a as ih =>
    unfold cost
    cases step s a with
    | error e => exact Nat.le_refl _
    | ok t => exact Nat.add_le_add (h s a) (ih t)

lemma cost_append {c : σ → α → ℕ} {s s' : σ} {as : List α} (h : run step s as = .ok s')
    (bs : List α) : cost step c s (as ++ bs) = cost step c s as + cost step c s' bs := by
  induction as generalizing s with
  | nil =>
    cases h
    exact (Nat.zero_add _).symm
  | cons a as ih =>
    obtain ⟨t, ht, hr⟩ := run_cons_ok.mp h
    simp only [List.cons_append, cost, ht, ih hr, Nat.add_assoc]

/-- What no action of the run costs, the run does not. -/
lemma cost_eq_zero {c : σ → α → ℕ} {as : List α} (h : ∀ a ∈ as, ∀ s, c s a = 0) (s : σ) :
    cost step c s as = 0 := by
  induction as generalizing s with
  | nil => rfl
  | cons a as ih =>
    unfold cost
    cases step s a with
    | error e => rfl
    | ok t =>
      show c s a + cost step c t as = 0
      rw [h a List.mem_cons_self, ih fun b hb => h b (List.mem_cons_of_mem a hb)]

lemma allSteps_of_forall {P : σ → α → Prop} {as : List α} (h : ∀ a ∈ as, ∀ s, P s a) (s : σ) :
    AllSteps step P s as := by
  induction as generalizing s with
  | nil => trivial
  | cons a as ih =>
    exact ⟨h a List.mem_cons_self s, fun s' _ => ih (fun b hb => h b (List.mem_cons_of_mem a hb)) s'⟩

lemma allSteps_concat {P : σ → α → Prop} {s s' : σ} {as : List α} {a : α}
    (h : AllSteps step P s as) (hr : run step s as = .ok s') (ha : P s' a) :
    AllSteps step P s (as ++ [a]) := by
  induction as generalizing s with
  | nil =>
    cases hr
    exact ⟨ha, fun _ _ => trivial⟩
  | cons b as ih =>
    obtain ⟨t, ht, hr⟩ := run_cons_ok.mp hr
    refine ⟨h.1, fun u hu => ?_⟩
    cases ht.symm.trans hu
    exact ih (h.2 t ht) hr

/-- **Side-by-side rule.** Where two machines that are related both succeed and stay related, or both
fail in the same way, so do their runs. -/
theorem run_alongside {step' : τ → α → Except ε τ} {R : σ → τ → Prop}
    (hstep : ∀ s t a, R s t → (∃ s' t', step s a = .ok s' ∧ step' t a = .ok t' ∧ R s' t') ∨
      ∃ e, step s a = .error e ∧ step' t a = .error e)
    {s : σ} {t : τ} (h : R s t) (as : List α) :
    (∃ s' t', run step s as = .ok s' ∧ run step' t as = .ok t' ∧ R s' t') ∨
      ∃ e, run step s as = .error e ∧ run step' t as = .error e := by
  induction as generalizing s t with
  | nil => exact .inl ⟨s, t, rfl, rfl, h⟩
  | cons a as ih =>
    unfold run
    rcases hstep s t a h with ⟨s', t', hs, ht, h'⟩ | ⟨e, hs, ht⟩
    · rw [hs, ht]
      exact ih h'
    · rw [hs, ht]
      exact .inr ⟨e, rfl, rfl⟩

end OsRust.Lib.Machine
