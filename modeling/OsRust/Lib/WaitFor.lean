import Mathlib.Logic.Relation
import Mathlib.Order.Basic
import Mathlib.Data.Fintype.Card
import Mathlib.Order.WellFounded

/-!
Waiting for locks: who waits for whom, and how to show that nobody waits in a circle when there is
no order on the locks themselves.
-/

namespace OsRust.Lib.WaitFor

variable {α L β : Type*}

/-- `c` waits for a lock that `d` holds. -/
def Waits (wants : α → Option L) (holder : L → Option α) (c d : α) : Prop :=
  ∃ l, wants c = some l ∧ holder l = some d

lemma exists_next {r : α → α → Prop} {a b : α} (h : Relation.TransGen r a b) : ∃ c, r a c := by
  obtain ⟨c, hac, -⟩ := Relation.TransGen.head'_iff.mp h
  exact ⟨c, hac⟩

/-- **Rank rule.** Only those who wait themselves can stand on a circle, so the rank has to go up
only where one waits for another who waits. -/
theorem acyclic_of_rank {r : α → α → Prop} [Preorder β] (f : α → β)
    (h : ∀ a b c, r a b → r b c → f a < f b) (a : α) : ¬ Relation.TransGen r a a := by
  intro hcycle
  -- along a path whose end waits for somebody the rank goes up
  have hup : ∀ b, Relation.TransGen r a b → (∃ c, r b c) → f a < f b := by
    intro b hab
    induction hab with
    | single hab =>
      rintro ⟨c, hbc⟩
      exact h _ _ _ hab hbc
    | tail _ hbc ih =>
      rintro ⟨d, hcd⟩
      exact (ih ⟨_, hbc⟩).trans (h _ _ _ hbc hcd)
  exact lt_irrefl _ (hup a hcycle (exists_next hcycle))

/-- Among finitely many who do not wait in a circle, one waits for none of the others. -/
theorem exists_free [Finite α] {r : α → α → Prop} (h : ∀ a, ¬ Relation.TransGen r a a)
    {s : Set α} (hs : s.Nonempty) : ∃ a ∈ s, ∀ b ∈ s, ¬ r a b := by
  have hirrefl : Std.Irrefl (flip (Relation.TransGen r)) := ⟨h⟩
  have htrans : IsTrans α (flip (Relation.TransGen r)) := ⟨fun _ _ _ hab hbc => hbc.trans hab⟩
  have hwf := Finite.wellFounded_of_trans_of_irrefl (flip (Relation.TransGen r))
  obtain ⟨a, ha, hmin⟩ := hwf.has_min s hs
  exact ⟨a, ha, fun b hb hab => hmin b hb (.single hab)⟩

end OsRust.Lib.WaitFor
