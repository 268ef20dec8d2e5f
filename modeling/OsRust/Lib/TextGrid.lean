import Mathlib.Data.List.Nodup
import Mathlib.Data.List.Pairwise

/-!
Text set on a grid of `cols` columns: each item goes to the cell after the one before it, and
a newline goes to the start of the next row without taking a cell.

A text is a list with the newest item first, and a cell is a column and a row.
-/

namespace OsRust.Lib.TextGrid

variable {α : Type*} (cols : ℕ) (newline : α → Bool)

/-- The cell for the next item. -/
def cursor : List α → ℕ × ℕ
  | [] => (0, 0)
  | a :: text =>
    let (col, row) := cursor text
    if newline a = true ∨ cols ≤ col + 1 then (0, row + 1) else (col + 1, row)

/-- The items that have a cell, with their cells. -/
def printed : List α → List ((ℕ × ℕ) × α)
  | [] => []
  | a :: text =>
    if newline a then printed text else (cursor cols newline text, a) :: printed text

/-- The order of reading. -/
def Before (p q : ℕ × ℕ) : Prop := p.2 < q.2 ∨ p.2 = q.2 ∧ p.1 < q.1

lemma Before.trans {p q r : ℕ × ℕ} (h : Before p q) (h' : Before q r) : Before p r := by
  unfold Before at *
  omega

lemma Before.ne {p q : ℕ × ℕ} (h : Before p q) : p ≠ q := by
  rintro rfl
  unfold Before at h
  omega

variable {cols newline} {a : α} {text : List α} {q : (ℕ × ℕ) × α}

/-- A newline, or the end of a row. -/
lemma cursor_break (h : newline a = true ∨ cols ≤ (cursor cols newline text).1 + 1) :
    cursor cols newline (a :: text) = (0, (cursor cols newline text).2 + 1) := if_pos h

lemma cursor_right (h : ¬(newline a = true ∨ cols ≤ (cursor cols newline text).1 + 1)) :
    cursor cols newline (a :: text) =
      ((cursor cols newline text).1 + 1, (cursor cols newline text).2) := if_neg h

lemma printed_newline (h : newline a = true) :
    printed cols newline (a :: text) = printed cols newline text := if_pos h

lemma printed_cons (h : newline a = false) :
    printed cols newline (a :: text) =
      (cursor cols newline text, a) :: printed cols newline text :=
  if_neg (by simp [h])

lemma cursor_col (h : 0 < cols) : (cursor cols newline text).1 < cols := by
  induction text with
  | nil => exact h
  | cons a text ih =>
    by_cases ha : newline a = true ∨ cols ≤ (cursor cols newline text).1 + 1
    · rw [cursor_break ha]
      exact h
    · rw [cursor_right ha]
      exact Nat.lt_of_not_le fun hle => ha (.inr hle)

lemma before_cursor (a : α) (text : List α) :
    Before (cursor cols newline text) (cursor cols newline (a :: text)) := by
  by_cases h : newline a = true ∨ cols ≤ (cursor cols newline text).1 + 1
  · rw [cursor_break h]
    exact .inl (Nat.lt_succ_self _)
  · rw [cursor_right h]
    exact .inr ⟨rfl, Nat.lt_succ_self _⟩

/-- What is printed stands before the cursor. -/
lemma printed_before (h : q ∈ printed cols newline text) :
    Before q.1 (cursor cols newline text) := by
  induction text with
  | nil => cases h
  | cons a text ih =>
    by_cases ha : newline a = true
    · rw [printed_newline ha] at h
      exact (ih h).trans (before_cursor a text)
    · rw [printed_cons (Bool.eq_false_iff.mpr ha)] at h
      rcases List.mem_cons.mp h with rfl | h
      · exact before_cursor a text
      · exact (ih h).trans (before_cursor a text)

lemma printed_col (hc : 0 < cols) (h : q ∈ printed cols newline text) : q.1.1 < cols := by
  induction text with
  | nil => cases h
  | cons a text ih =>
    by_cases ha : newline a = true
    · rw [printed_newline ha] at h
      exact ih h
    · rw [printed_cons (Bool.eq_false_iff.mpr ha)] at h
      rcases List.mem_cons.mp h with rfl | h
      · exact cursor_col hc
      · exact ih h

/-- The cells are taken in the order of reading. -/
lemma printed_inOrder (text : List α) :
    (printed cols newline text).Pairwise fun p q => Before q.1 p.1 := by
  induction text with
  | nil => exact .nil
  | cons a text ih =>
    by_cases ha : newline a = true
    · rw [printed_newline ha]
      exact ih
    · rw [printed_cons (Bool.eq_false_iff.mpr ha)]
      exact ih.cons fun q hq => printed_before hq

/-- No cell is taken twice. -/
lemma printed_nodup (text : List α) : ((printed cols newline text).map Prod.fst).Nodup := by
  refine List.pairwise_map.mpr ((printed_inOrder text).imp ?_)
  intro p q h
  exact h.ne.symm

/-- Every item but the newlines has a cell. -/
lemma printed_items (text : List α) :
    (printed cols newline text).map Prod.snd = text.filter fun a => !newline a := by
  induction text with
  | nil => rfl
  | cons a text ih =>
    by_cases ha : newline a = true
    · rw [printed_newline ha, ih, List.filter_cons_of_neg (by simp [ha])]
    · have hf := Bool.eq_false_iff.mpr ha
      rw [printed_cons hf, List.map_cons, ih, List.filter_cons_of_pos (by simp [hf])]

end OsRust.Lib.TextGrid
