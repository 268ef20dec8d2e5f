import Mathlib.Data.List.Basic

/-!
Pictures kept in a flat list, one row of `stride` pixels after the other, and what is painted
on them.

An ink is what a drawing puts on a picture: a colour for each pixel it touches. Drawings one
after the other put the later ink over the earlier one.
-/

namespace OsRust.Lib.Raster

variable {α : Type*}

abbrev Ink (α : Type*) := ℕ → ℕ → Option α

/-- The ink `q` on top of the ink `p`. -/
def onTop (q p : Ink α) : Ink α := fun x y => (q x y).or (p x y)

/-- A block of `w` by `h` pixels at `(x, y)`, coloured by the place inside it. -/
def block (x y w h : ℕ) (c : ℕ → ℕ → α) : Ink α := fun i j =>
  if (x ≤ i ∧ i < x + w) ∧ y ≤ j ∧ j < y + h then some (c (i - x) (j - y)) else none

/-- `l'` is `l` with the ink on it. -/
structure Painted (stride : ℕ) (l l' : List α) (ink : Ink α) : Prop where
  length : l'.length = l.length
  pixel : ∀ x y, x < stride →
    l'[y * stride + x]? = (l[y * stride + x]?).map fun old => (ink x y).getD old

variable {stride x y w h : ℕ} {l l' l'' : List α} {p q : Ink α} {a : α}

/-- A place of the list is one pixel. -/
lemma pixel_unique {i j : ℕ} (hx : x < stride) (hi : i < stride) :
    y * stride + x = j * stride + i ↔ x = i ∧ y = j := by
  constructor
  · intro h
    have hm := congrArg (· % stride) h
    have hd := congrArg (· / stride) h
    simp only [Nat.mul_add_mod_self_right, Nat.mod_eq_of_lt hx, Nat.mod_eq_of_lt hi] at hm
    rw [Nat.mul_comm y, Nat.mul_comm j] at hd
    simp only [Nat.mul_add_div (Nat.zero_lt_of_lt hx), Nat.div_eq_of_lt hx, Nat.div_eq_of_lt hi,
      Nat.add_zero] at hd
    exact ⟨hm, hd⟩
  · rintro ⟨rfl, rfl⟩
    rfl

lemma pixel_lt {height : ℕ} (hx : x < stride) (hy : y < height) :
    y * stride + x < stride * height := by
  calc y * stride + x < y * stride + stride := by omega
    _ = stride * (y + 1) := by rw [Nat.mul_comm, Nat.mul_succ]
    _ ≤ stride * height := Nat.mul_le_mul_left _ hy

/-! ### Blocks side by side -/

lemma block_apply {i j : ℕ} {c : ℕ → ℕ → α} (hi : i < w) (hj : j < h) :
    block x y w h c (x + i) (y + j) = some (c i j) := by
  rw [block, if_pos (by omega)]
  simp

lemma block_eq_none {i j : ℕ} {c : ℕ → ℕ → α}
    (hn : ¬((x ≤ i ∧ i < x + w) ∧ y ≤ j ∧ j < y + h)) : block x y w h c i j = none := by
  rw [block, if_neg hn]

lemma block_congr {c d : ℕ → ℕ → α} (hc : ∀ i < w, ∀ j < h, c i j = d i j) :
    block x y w h c = block x y w h d := by
  funext i j
  unfold block
  split
  · rw [hc (i - x) (by omega) (j - y) (by omega)]
  · rfl

lemma block_empty {c : ℕ → ℕ → α} : block x y w 0 c = fun _ _ => none := by
  funext i j
  exact block_eq_none (by omega)

lemma block_noColumns {c : ℕ → ℕ → α} : block x y 0 h c = fun _ _ => none := by
  funext i j
  exact block_eq_none (by omega)

lemma block_right {c : ℕ → ℕ → α} (m : ℕ) :
    onTop (block (x + w) y m h fun i j => c (w + i) j) (block x y w h c) =
      block x y (w + m) h c := by
  funext i j
  unfold onTop block
  by_cases hr : (x + w ≤ i ∧ i < x + w + m) ∧ y ≤ j ∧ j < y + h
  · have hi : w + (i - (x + w)) = i - x := by omega
    rw [if_pos hr, Option.some_or, if_pos (by omega)]
    simp only [hi]
  · rw [if_neg hr, Option.none_or]
    by_cases hl : (x ≤ i ∧ i < x + w) ∧ y ≤ j ∧ j < y + h
    · rw [if_pos hl, if_pos (by omega)]
    · rw [if_neg hl, if_neg (by omega)]

lemma block_below {c : ℕ → ℕ → α} (k : ℕ) :
    onTop (block x (y + h) w k fun i j => c i (h + j)) (block x y w h c) =
      block x y w (h + k) c := by
  funext i j
  unfold onTop block
  by_cases hb : (x ≤ i ∧ i < x + w) ∧ y + h ≤ j ∧ j < y + h + k
  · have hj : h + (j - (y + h)) = j - y := by omega
    rw [if_pos hb, Option.some_or, if_pos (by omega)]
    simp only [hj]
  · rw [if_neg hb, Option.none_or]
    by_cases ha : (x ≤ i ∧ i < x + w) ∧ y ≤ j ∧ j < y + h
    · rw [if_pos ha, if_pos (by omega)]
    · rw [if_neg ha, if_neg (by omega)]

/-! ### Painting -/

lemma painted_nothing : Painted stride l l fun _ _ => none :=
  ⟨rfl, fun x y _ => by cases l[y * stride + x]? <;> rfl⟩

lemma Painted.onTop (hp : Painted stride l l' p) (hq : Painted stride l' l'' q) :
    Painted stride l l'' (onTop q p) := by
  refine ⟨hq.length.trans hp.length, fun x y hx => ?_⟩
  rw [hq.pixel x y hx, hp.pixel x y hx, Option.map_map]
  unfold Raster.onTop
  congr 1
  funext old
  cases q x y <;> simp

lemma painted_set {c : ℕ → ℕ → α} (hx : x < stride) (hc : c 0 0 = a) :
    Painted stride l (l.set (y * stride + x) a) (block x y 1 1 c) := by
  refine ⟨List.length_set, fun i j hi => ?_⟩
  by_cases hij : x = i ∧ y = j
  · obtain ⟨rfl, rfl⟩ := hij
    have hb : block x y 1 1 c x y = some a := by
      rw [← hc]
      exact block_apply Nat.one_pos Nat.one_pos
    rw [List.getElem?_set_self', hb]
    cases l[y * stride + x]? <;> rfl
  · have hb : block x y 1 1 c i j = none := block_eq_none (by omega)
    rw [List.getElem?_set_ne (mt (pixel_unique hx hi).mp hij), hb]
    cases l[j * stride + i]? <;> rfl

lemma Painted.touched {i j : ℕ} (hp : Painted stride l l' p) (hi : i < stride)
    (hl : j * stride + i < l.length) (ha : p i j = some a) : l'[j * stride + i]? = some a := by
  rw [hp.pixel i j hi, ha, List.getElem?_eq_getElem hl]
  rfl

lemma Painted.untouched {i j : ℕ} (hp : Painted stride l l' p) (hi : i < stride)
    (hn : p i j = none) : l'[j * stride + i]? = l[j * stride + i]? := by
  rw [hp.pixel i j hi, hn]
  cases l[j * stride + i]? <;> rfl

end OsRust.Lib.Raster
