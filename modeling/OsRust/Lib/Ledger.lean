import Mathlib.Algebra.BigOperators.Group.Finset.Basic
import Mathlib.Algebra.Order.BigOperators.Group.Finset
import Mathlib.Data.Fintype.BigOperators

/-!
Ledgers: a number for each of finitely many places, and what is known of the total when one
or two entries change.
-/

namespace OsRust.Lib.Ledger

variable {ι : Type*} [Fintype ι] [DecidableEq ι] {f g : ι → ℕ} {i j : ι}

/-- Changing one entry changes the total by as much. -/
theorem sum_change (h : ∀ l, l ≠ i → g l = f l) : ∑ l, g l + f i = ∑ l, f l + g i := by
  have hi : i ∈ Finset.univ := Finset.mem_univ i
  have hrest : ∑ l ∈ Finset.univ.erase i, g l = ∑ l ∈ Finset.univ.erase i, f l :=
    Finset.sum_congr rfl fun l hl => h l (Finset.ne_of_mem_erase hl)
  rw [← Finset.add_sum_erase _ g hi, ← Finset.add_sum_erase _ f hi, hrest]
  omega

/-- Changing two entries changes the total by as much as their sum. -/
theorem sum_transfer (hij : i ≠ j) (h : ∀ l, l ≠ i → l ≠ j → g l = f l) :
    ∑ l, g l + (f i + f j) = ∑ l, f l + (g i + g j) := by
  -- through the ledger in which only the entry at `i` has changed
  have h1 := sum_change (f := f) (g := Function.update f i (g i)) (i := i)
    fun l hl => Function.update_of_ne hl _ _
  have h2 := sum_change (f := Function.update f i (g i)) (g := g) (i := j) fun l hl => by
    by_cases hli : l = i
    · subst hli
      rw [Function.update_self]
    · rw [Function.update_of_ne hli, h l hli hl]
  rw [Function.update_self] at h1
  rw [Function.update_of_ne hij.symm] at h2
  omega

omit [DecidableEq ι] in
lemma le_total (f : ι → ℕ) (i : ι) : f i ≤ ∑ l, f l :=
  Finset.single_le_sum (fun _ _ => Nat.zero_le _) (Finset.mem_univ i)

lemma add_le_total (hij : i ≠ j) (f : ι → ℕ) : f i + f j ≤ ∑ l, f l := by
  have h := Finset.add_sum_erase Finset.univ f (Finset.mem_univ i)
  have hj : j ∈ Finset.univ.erase i := Finset.mem_erase.mpr ⟨hij.symm, Finset.mem_univ j⟩
  have hle : f j ≤ ∑ l ∈ Finset.univ.erase i, f l :=
    Finset.single_le_sum (fun _ _ => Nat.zero_le _) hj
  omega

/-- A total of one is one entry of one. -/
theorem exists_of_total_eq_one (h : ∑ l, f l = 1) : ∃ i, f i = 1 ∧ ∀ j, j ≠ i → f j = 0 := by
  have hpos : ∃ i, 0 < f i := by
    by_contra hn
    have h0 : ∑ l, f l = 0 := Finset.sum_eq_zero fun l _ => by
      by_contra hl
      exact hn ⟨l, Nat.pos_of_ne_zero hl⟩
    omega
  obtain ⟨i, hi⟩ := hpos
  have hle := le_total f i
  refine ⟨i, by omega, fun j hj => ?_⟩
  have := add_le_total hj f
  omega

end OsRust.Lib.Ledger
