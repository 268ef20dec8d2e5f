import Mathlib.Data.List.Basic
import Mathlib.Order.Basic

/-!
Lists of entries with a key: where the keys never fall, the list is made of sections, one a key.
-/

namespace OsRust.Lib.Sections

variable {κ α β : Type*}

/-- The entries of the sections, one section after the other. -/
def entries (ss : List (κ × List α)) : List (κ × α) := ss.flatMap fun s => s.2.map fun x => (s.1, x)

/-- Fold a section after the other. -/
def foldSections (f : β → α → β) (b : β) (ss : List (κ × List α)) : β :=
  ss.foldl (fun b s => s.2.foldl f b) b

lemma entries_cons (k : κ) (xs : List α) (ss : List (κ × List α)) :
    entries ((k, xs) :: ss) = (xs.map fun x => (k, x)) ++ entries ss := rfl

/-- To fold the entries is to fold a section after the other. -/
lemma foldl_entries (f : β → α → β) (b : β) (ss : List (κ × List α)) :
    (entries ss).foldl (fun b x => f b x.2) b = foldSections f b ss := by
  induction ss generalizing b with
  | nil => rfl
  | cons s ss ih =>
    obtain ⟨k, xs⟩ := s
    rw [entries_cons, List.foldl_append, List.foldl_map, ih]
    rfl

variable [PartialOrder κ]

/-- **Sections.** -/
theorem exists_sections {es : List (κ × α)} (h : es.Pairwise fun x y => x.1 ≤ y.1) :
    ∃ ss : List (κ × List α), entries ss = es ∧ (ss.map Prod.fst).Pairwise (· < ·) ∧
      ∀ s ∈ ss, s.2 ≠ [] := by
  induction es with
  | nil => exact ⟨[], rfl, List.Pairwise.nil, by simp⟩
  | cons e es ih =>
    obtain ⟨hle, hes⟩ := List.pairwise_cons.mp h
    obtain ⟨ss, rfl, hsorted, hne⟩ := ih hes
    cases ss with
    | nil =>
      refine ⟨[(e.1, [e.2])], rfl, List.pairwise_singleton _ _, ?_⟩
      intro s hs
      rw [List.mem_singleton.mp hs]
      exact List.cons_ne_nil _ _
    | cons s ss =>
      obtain ⟨k, xs⟩ := s
      have hxs : xs ≠ [] := hne _ List.mem_cons_self
      have hk : e.1 ≤ k := by
        obtain ⟨x, xs', rfl⟩ := List.exists_cons_of_ne_nil hxs
        exact hle (k, x) (by simp [entries_cons])
      by_cases hek : e.1 = k
      · -- the entry opens the first section
        refine ⟨(k, e.2 :: xs) :: ss, ?_, hsorted, ?_⟩
        · rw [entries_cons, entries_cons, List.map_cons, List.cons_append, ← hek]
        · intro s hs
          rcases List.mem_cons.mp hs with rfl | hs
          · exact List.cons_ne_nil _ _
          · exact hne s (List.mem_cons_of_mem _ hs)
      · -- it is a section of its own, before the first
        have hlt : e.1 < k := lt_of_le_of_ne hk hek
        refine ⟨(e.1, [e.2]) :: (k, xs) :: ss, rfl, ?_, ?_⟩
        · refine hsorted.cons fun j hj => ?_
          rcases List.mem_cons.mp hj with rfl | hj
          · exact hlt
          · exact lt_trans hlt (List.rel_of_pairwise_cons hsorted hj)
        · intro s hs
          rcases List.mem_cons.mp hs with rfl | hs
          · exact List.cons_ne_nil _ _
          · exact hne s hs

end OsRust.Lib.Sections
