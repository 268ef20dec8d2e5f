import OsRust.Regions

/-!
The allocator over all its regions, when the frames of a set are in use.
-/

namespace OsRust.Layout

open OsRust.Frames OsRust.Bitmap OsRust.Regions

/-- The regions of the slots when the frames of `S` are in use. -/
def regions (L : List Slot) (S : Finset ℕ) : List MemoryRegion := L.map fun l => l.region S

/-- All the frames there are. -/
def allFrames : List Slot → Finset ℕ
  | [] => ∅
  | l :: L => l.frames ∪ allFrames L

/-- No two slots share a frame. -/
def Apart (L : List Slot) : Prop := L.Pairwise fun l m => Disjoint l.frames m.frames

variable {L : List Slot} {S T : Finset ℕ} {l : Slot} {r : FrameRange} {count : ℕ}

lemma regions_cons : regions (l :: L) S = l.region S :: regions L S := rfl

lemma mem_allFrames {f : ℕ} : f ∈ allFrames L ↔ ∃ l ∈ L, f ∈ l.frames := by
  induction L with
  | nil => simp [allFrames]
  | cons l L ih => simp [allFrames, ih]

lemma Apart.disjoint_allFrames (h : Apart (l :: L)) : Disjoint l.frames (allFrames L) := by
  rw [Finset.disjoint_left]
  intro f hf hL
  obtain ⟨m, hm, hfm⟩ := mem_allFrames.mp hL
  exact Finset.disjoint_left.mp (List.rel_of_pairwise_cons h hm) hf hfm

lemma regions_congr (h : ∀ f ∈ allFrames L, f ∈ S ↔ f ∈ T) : regions L S = regions L T := by
  apply List.map_congr_left
  intro l hl
  exact l.region_congr fun f hf => h f (mem_allFrames.mpr ⟨l, hl, hf⟩)

/-- Frames of other slots do not show in a slot. -/
lemma regions_union (h : Disjoint T (allFrames L)) : regions L (S ∪ T) = regions L S := by
  apply regions_congr
  intro f hf
  rw [Finset.mem_union]
  exact or_iff_left fun hT => Finset.disjoint_left.mp h hT hf

lemma regions_sdiff (h : Disjoint T (allFrames L)) : regions L (S \ T) = regions L S := by
  apply regions_congr
  intro f hf
  rw [Finset.mem_sdiff]
  exact and_iff_left fun hT => Finset.disjoint_left.mp h hT hf

/-! ### Allocating -/

/-- The first slot that has `count` free frames in a row gives the range `r`. -/
def Gives (L : List Slot) (S : Finset ℕ) (count : ℕ) (r : FrameRange) : Prop :=
  ∃ L₁ l L₂, L = L₁ ++ l :: L₂ ∧ (∀ m ∈ L₁, m.Lacks S count) ∧ l.Gives S count r

lemma Gives.slot (h : Gives L S count r) : ∃ l ∈ L, l.Gives S count r := by
  obtain ⟨L₁, l, L₂, rfl, -, hl⟩ := h
  exact ⟨l, by simp, hl⟩

lemma Gives.subset (h : Gives L S count r) : r.frames ⊆ allFrames L := by
  obtain ⟨l, hl, hg⟩ := h.slot
  exact fun f hf => mem_allFrames.mpr ⟨l, hl, hg.subset hf⟩

lemma allocLoop_spec (hL : Apart L) (S : Finset ℕ) (count : ℕ) :
    (∃ r, allocLoop count (regions L S) = .ok (some r, regions L (S ∪ r.frames)) ∧
        Gives L S count r) ∨
      allocLoop count (regions L S) = .ok (none, regions L S) ∧ ∀ l ∈ L, l.Lacks S count := by
  induction L with
  | nil => exact .inr ⟨rfl, by simp⟩
  | cons l L ih =>
    rcases l.alloc S count with ⟨r, halloc, hg⟩ | ⟨halloc, hlacks⟩
    · refine .inl ⟨r, ?_, [], l, L, rfl, by simp, hg⟩
      have htail : regions L (S ∪ r.frames) = regions L S :=
        regions_union (Finset.disjoint_of_subset_left hg.subset hL.disjoint_allFrames)
      rw [regions_cons, allocLoop, halloc, ok_bind]
      simp only
      rw [regions_cons, htail]
    · rcases ih hL.of_cons with ⟨r, hloop, hg⟩ | ⟨hloop, hall⟩
      · left
        have hhead : l.region (S ∪ r.frames) = l.region S := by
          apply l.region_congr
          intro f hf
          rw [Finset.mem_union]
          exact or_iff_left fun hr =>
            Finset.disjoint_left.mp hL.disjoint_allFrames hf (hg.subset hr)
        obtain ⟨L₁, m, L₂, rfl, hL₁, hm⟩ := hg
        refine ⟨r, ?_, l :: L₁, m, L₂, rfl, ?_, hm⟩
        · rw [regions_cons, allocLoop, halloc, ok_bind]
          simp only
          rw [hloop, ok_bind, regions_cons, hhead]
        · simpa using ⟨hlacks, hL₁⟩
      · right
        refine ⟨?_, by simpa using ⟨hlacks, hall⟩⟩
        rw [regions_cons, allocLoop, halloc, ok_bind]
        simp only
        rw [hloop, ok_bind]

/-! ### Deallocating -/

/-- The range is empty or lies in one slot. -/
def Within (L : List Slot) (r : FrameRange) : Prop :=
  r.count = 0 ∨ ∃ l ∈ L, l.base ≤ r.start.val ∧ r.start.val + r.count * 4096 ≤ l.base + l.length

lemma contains_region (a : PhysAddr) :
    (l.region S).contains a = decide (l.base ≤ a.val ∧ a.val < l.base + l.length) := by
  rw [MemoryRegion.contains, Bool.decide_and]
  rfl

lemma frames_subset_slot (h₁ : l.base ≤ r.start.val)
    (h₂ : r.start.val + r.count * 4096 ≤ l.base + l.length) : r.frames ⊆ l.frames := by
  have hb := l.base_eq
  have hlen := l.length_eq
  have hal := r.aligned
  intro f hf
  rw [FrameRange.frames, Finset.mem_Ico] at hf
  rw [Slot.frames, Finset.mem_Ico]
  omega

lemma frames_eq_empty (h : r.count = 0) : r.frames = ∅ := by simp [FrameRange.frames, h]

/-- A slot that contains the first address has the first frame. -/
lemma start_mem_frames (h₁ : l.base ≤ r.start.val) (h₂ : r.start.val < l.base + l.length) :
    r.start.val / 4096 ∈ l.frames := by
  have hb := l.base_eq
  have hlen := l.length_eq
  rw [Slot.frames, Finset.mem_Ico]
  omega

lemma deallocLoop_spec (hL : Apart L) (h : Within L r) (S : Finset ℕ) :
    deallocLoop r (regions L S) = .ok (regions L (S \ r.frames)) := by
  induction L with
  | nil => rfl
  | cons l L ih =>
    rw [regions_cons, deallocLoop, contains_region]
    split
    · next hin =>
      simp only [decide_eq_true_eq] at hin
      have hend : r.start.val + r.count * 4096 ≤ l.base + l.length := by
        rcases h with h0 | ⟨m, hm, hm₁, hm₂⟩
        · omega
        · rcases List.mem_cons.mp hm with rfl | hm
          · exact hm₂
          · -- the start would be in two slots
            rcases Nat.eq_zero_or_pos r.count with h0 | h0
            · omega
            · have hl := start_mem_frames hin.1 hin.2
              have hm' := start_mem_frames hm₁ (by omega)
              have hd := List.rel_of_pairwise_cons hL hm
              exact absurd hm' (Finset.disjoint_left.mp hd hl)
      have htail : regions L (S \ r.frames) = regions L S :=
        regions_sdiff (Finset.disjoint_of_subset_left (frames_subset_slot hin.1 hend)
          hL.disjoint_allFrames)
      rw [l.dealloc hin.1 hend, ok_bind, regions_cons, htail]
    · next hout =>
      simp only [decide_eq_true_eq] at hout
      have hwithin : Within L r := by
        rcases h with h0 | ⟨m, hm, hm₁, hm₂⟩
        · exact .inl h0
        · rcases List.mem_cons.mp hm with rfl | hm
          · exact .inl (by omega)
          · exact .inr ⟨m, hm, hm₁, hm₂⟩
      have hhead : l.region (S \ r.frames) = l.region S := by
        apply l.region_congr
        intro f hf
        rw [Finset.mem_sdiff]
        refine and_iff_left fun hr => ?_
        rcases hwithin with h0 | ⟨m, hm, hm₁, hm₂⟩
        · rw [frames_eq_empty h0] at hr
          cases hr
        · exact Finset.disjoint_left.mp (List.rel_of_pairwise_cons hL hm) hf
            (frames_subset_slot hm₁ hm₂ hr)
      rw [ih hL.of_cons hwithin, ok_bind, regions_cons, hhead]

/-! ### Reserving -/

lemma reserveAt_spec {L₁ L₂ : List Slot} (hL : Apart (L₁ ++ l :: L₂)) (h₁ : l.base ≤ r.start.val)
    (h₂ : r.start.val + r.count * 4096 ≤ l.base + l.length) (S : Finset ℕ) :
    reserveAt r (regions (L₁ ++ l :: L₂) S) L₁.length =
      .ok (regions (L₁ ++ l :: L₂) (S ∪ r.frames)) := by
  have hsub := frames_subset_slot h₁ h₂
  induction L₁ with
  | nil =>
    have htail : regions L₂ (S ∪ r.frames) = regions L₂ S :=
      regions_union (Finset.disjoint_of_subset_left hsub hL.disjoint_allFrames)
    rw [List.nil_append, List.length_nil, regions_cons, reserveAt, l.reserve h₁ h₂, ok_bind,
      regions_cons, htail]
  | cons m L₁ ih =>
    have hhead : m.region (S ∪ r.frames) = m.region S := by
      apply m.region_congr
      intro f hf
      rw [Finset.mem_union]
      have hd : Disjoint m.frames l.frames := List.rel_of_pairwise_cons hL (by simp)
      exact or_iff_left fun hr => Finset.disjoint_left.mp hd hf (hsub hr)
    rw [List.cons_append, List.length_cons, regions_cons, reserveAt, ih hL.of_cons, ok_bind,
      regions_cons, hhead]

/-! ### Counting -/

lemma sumFree_spec (hL : Apart L) (S : Finset ℕ) :
    sumFree (regions L S) = .ok (allFrames L \ S).card := by
  induction L with
  | nil => simp [regions, sumFree, allFrames]
  | cons l L ih =>
    have hd : Disjoint (l.frames \ S) (allFrames L \ S) :=
      Finset.disjoint_of_subset_left Finset.sdiff_subset
        (Finset.disjoint_of_subset_right Finset.sdiff_subset hL.disjoint_allFrames)
    rw [regions_cons, sumFree, l.freeFrames, ok_bind, ih hL.of_cons, ok_bind,
      allFrames, Finset.union_sdiff_distrib, Finset.card_union_of_disjoint hd]

lemma totalFrames_spec (hL : Apart L) (S : Finset ℕ) :
    ((regions L S).map MemoryRegion.totalFrames).sum = (allFrames L).card := by
  induction L with
  | nil => rfl
  | cons l L ih =>
    have htotal : (l.region S).totalFrames = l.frames.card := by
      rw [Slot.frames, Nat.card_Ico, Nat.add_sub_cancel_left]
      rfl
    rw [regions_cons, List.map_cons, List.sum_cons, ih hL.of_cons, htotal,
      allFrames, Finset.card_union_of_disjoint hL.disjoint_allFrames]

end OsRust.Layout
