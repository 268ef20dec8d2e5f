import OsRust.Bitmap
import OsRust.Lib.PackedBits
import Mathlib.Order.Interval.Finset.Nat

/-!
What the functions on regions do to the set of frames in use: one lemma for each, on the
regions whose bitmaps are the packed form of a set.
-/

namespace OsRust.Regions

open OsRust.Frames OsRust.Bitmap OsRust.Lib.PackedBits

/-! ### Bitmaps as predicates -/

/-- The bitmap of `size` bits at `addr` whose bits are the values of `p`. -/
def view (size addr : ℕ) (p : ℕ → Bool) : BitmapView := ⟨size, addr, pack p (divCeil size 8)⟩

section View

variable {size addr i count : ℕ} {p : ℕ → Bool}

lemma lt_bytes (h : i < size) : i < 8 * divCeil size 8 := by
  unfold divCeil
  split <;> omega

lemma byte_view (h : i < 8 * divCeil size 8) :
    (view size addr p).byte (i / 8) = .ok (packByte fun j => p (8 * (i / 8) + j)) := by
  unfold BitmapView.byte
  rw [view, getElem?_pack h]
  rfl

lemma set_view (h : i < size) :
    (view size addr p).set i = .ok (view size addr (Function.update p i true)) := by
  rw [BitmapView.set, byte_view (lt_bytes h), ok_bind, view, view, ← set_or_pack]
  rfl

lemma clear_view (h : i < size) :
    (view size addr p).clear i = .ok (view size addr (Function.update p i false)) := by
  rw [BitmapView.clear, byte_view (lt_bytes h), ok_bind, view, view, ← set_and_not_pack]
  rfl

/-- The bits behind the last frame can be read as well. -/
lemma isSet_bytes (h : i < 8 * divCeil size 8) : (view size addr p).isSet i = .ok (p i) := by
  rw [BitmapView.isSet, byte_view h, ok_bind]
  congr 1
  rw [Bool.eq_iff_iff, bne_iff_ne]
  exact packByte_and_mask_ne_zero p i

lemma isSet_view (h : i < size) : (view size addr p).isSet i = .ok (p i) := isSet_bytes (lt_bytes h)

/-- A loop that changes one bit after the other, each to `b`, changes all of them, as far as bits can
be changed. -/
lemma forRange_view {f : BitmapView → ℕ → Res BitmapView} {b : Bool} {n : ℕ}
    (hf : ∀ p i, i < n →
      f (view size addr p) i = .ok (view size addr (Function.update p i b)))
    {start : ℕ} (h : start + count ≤ n) (p : ℕ → Bool) :
    forRange f start count (view size addr p) = .ok (view size addr fun i =>
      if start ≤ i ∧ i < start + count then b else p i) := by
  induction count generalizing start p with
  | zero =>
    rw [forRange]
    congr 2
    funext i
    rw [if_neg (by omega)]
  | succ n ih =>
    rw [forRange, hf p start (by omega), ok_bind, ih (by omega)]
    congr 2
    funext i
    rw [Function.update_apply]
    split
    · rw [if_pos (by omega)]
    · split
      · rw [if_pos (by omega)]
      · rw [if_neg (by omega)]

/-- The scan finds the first run there is. -/
lemma scan_view (n i consecutiveFree startIndex : ℕ) (hi : i + n = size) (hcf : consecutiveFree ≤ i)
    (hfree : ∀ j, i - consecutiveFree ≤ j → j < i → p j = false)
    (hstart : consecutiveFree ≠ 0 → startIndex = i - consecutiveFree)
    (hlt : consecutiveFree < count)
    (hno : ∀ t, t < i - consecutiveFree → ¬ IsRun p size count t) :
    (∃ s, scan (view size addr p) count n i consecutiveFree startIndex = .ok (some s) ∧
        IsRun p size count s ∧ ∀ t, t < s → ¬ IsRun p size count t) ∨
      scan (view size addr p) count n i consecutiveFree startIndex = .ok none ∧
        ∀ t, ¬ IsRun p size count t := by
  induction n generalizing i consecutiveFree startIndex with
  | zero =>
    refine .inr ⟨rfl, fun t ht => ?_⟩
    have hle := ht.1
    exact hno t (by omega) ht
  | succ n ih =>
    have hget : (view size addr p).isSet i = .ok (p i) := isSet_view (by omega)
    cases hp : p i with
    | true =>
      -- a run that starts up to here would have this bit in it
      have hno' : ∀ t, t < i + 1 - 0 → ¬ IsRun p size count t := by
        intro t ht hrun
        rcases Nat.lt_or_ge t (i - consecutiveFree) with h1 | h1
        · exact hno t h1 hrun
        · have := hrun.2 i (by omega) (by omega)
          rw [hp] at this
          cases this
      have := ih (i + 1) 0 startIndex (by omega) (Nat.zero_le _) (fun j h1 h2 => by omega)
        (by simp) (by omega) hno'
      simpa [scan, hget, hp] using this
    | false =>
      have hs : (if consecutiveFree = 0 then i else startIndex) = i - consecutiveFree := by
        split
        · omega
        · next h0 => exact hstart h0
      have hfree' : ∀ j, i - consecutiveFree ≤ j → j < i + 1 → p j = false := by
        intro j h1 h2
        rcases Nat.lt_or_ge j i with h3 | h3
        · exact hfree j h1 h3
        · rwa [show j = i by omega]
      by_cases hc : consecutiveFree + 1 = count
      · refine .inl ⟨i - consecutiveFree, ?_, ⟨by omega, fun j h1 h2 => ?_⟩, hno⟩
        · simp [scan, hget, hp, hs, hc]
        · exact hfree' j h1 (by omega)
      · have hsub : i + 1 - (consecutiveFree + 1) = i - consecutiveFree := by omega
        have := ih (i + 1) (consecutiveFree + 1) (i - consecutiveFree) (by omega) (by omega)
          (by rw [hsub]; exact hfree') (fun _ => hsub.symm) (by omega) (by rw [hsub]; exact hno)
        simpa [scan, hget, hp, hs, hc] using this

/-- No number of free bits in a row is zero. -/
lemma scan_zero {n consecutiveFree startIndex : ℕ} (hi : i + n = size) :
    scan (view size addr p) 0 n i consecutiveFree startIndex = .ok none := by
  induction n generalizing i consecutiveFree startIndex with
  | zero => rfl
  | succ n ih =>
    have hget : (view size addr p).isSet i = .ok (p i) := isSet_view (by omega)
    rw [scan, hget, ok_bind]
    split
    · rw [if_neg (Nat.succ_ne_zero _)]
      exact ih (by omega)
    · exact ih (by omega)

lemma countFree_view {k n : ℕ} (hi : i + k = size) :
    countFree (view size addr p) k i n =
      .ok (n + ((Finset.Ico i size).filter fun j => p j = false).card) := by
  induction k generalizing i n with
  | zero =>
    have : Finset.Ico i size = ∅ := Finset.Ico_eq_empty_of_le (by omega)
    simp [countFree, this]
  | succ k ih =>
    have hget : (view size addr p).isSet i = .ok (p i) := isSet_view (by omega)
    have hIco : Finset.Ico i size = insert i (Finset.Ico (i + 1) size) := by
      ext j
      simp only [Finset.mem_Ico, Finset.mem_insert]
      omega
    rw [countFree, hget, ok_bind, ih (by omega), hIco, Finset.filter_insert]
    cases hp : p i with
    | true => simp
    | false => simp; omega

/-- `p` with the `count` bits from `s` on set. -/
def withRun (p : ℕ → Bool) (count s i : ℕ) : Bool := if s ≤ i ∧ i < s + count then true else p i

/-- **Allocating** from a region with the bits `p` gives the first run of clear bits and sets it, or
there is none. -/
lemma alloc_view {r : MemoryRegion} (hr : r.bitmap = view size addr p)
    (hal : r.start.val % 4096 = 0) (hbelow : r.start.val + size * 4096 < 2 ^ 52) (count : ℕ) :
    (∃ s frames, r.alloc count =
          .ok (some (frames, { r with bitmap := view size addr (withRun p count s) })) ∧
        frames.start.val = r.start.val + s * 4096 ∧ frames.count = count ∧ 0 < count ∧
        IsRun p size count s ∧ ∀ t, t < s → ¬ IsRun p size count t) ∨
      r.alloc count = .ok none ∧ (count = 0 ∨ ∀ t, ¬ IsRun p size count t) := by
  have hsize : r.bitmap.size = size := by rw [hr]; rfl
  rcases Nat.eq_zero_or_pos count with rfl | hpos
  · right
    refine ⟨?_, .inl rfl⟩
    rw [MemoryRegion.alloc, hsize, hr, scan_zero (by omega)]
    rfl
  rcases scan_view size 0 0 0 (Nat.zero_add size)
      (Nat.zero_le 0) (fun j _ h => by omega) (by simp) hpos (fun t h => by omega) with
    ⟨s, hscan, hrun, hleast⟩ | ⟨hscan, hno⟩
  · left
    have hle := hrun.1
    have hlt : r.start.val + s * 4096 < 2 ^ 52 := lt_of_le_of_lt (by omega) hbelow
    have hal' : (r.start.val + s * 4096) % 4096 = 0 := by omega
    have hset : forRange BitmapView.set s count (view size addr p) =
        .ok (view size addr (withRun p count s)) := forRange_view (fun _ _ h => set_view h) hle p
    have hadd : r.start.add (s * 4096) = .ok ⟨r.start.val + s * 4096, hlt⟩ := PhysAddr.new_ok hlt
    refine ⟨s, ⟨⟨r.start.val + s * 4096, hlt⟩, count, hal'⟩, ?_, rfl, rfl, hpos, hrun, hleast⟩
    rw [MemoryRegion.alloc, hsize, hr, hscan, ok_bind]
    simp only
    rw [hset, ok_bind, hadd, ok_bind, FrameRange.new_ok hal', ok_bind]
  · right
    refine ⟨?_, .inr hno⟩
    rw [MemoryRegion.alloc, hsize, hr, hscan]
    rfl

end View

/-! ### Regions as sets of frames -/

/-- A usable entry of the memory map and the address of its bitmap. -/
structure Slot where
  base : ℕ
  length : ℕ
  addr : ℕ
  base_aligned : base % 4096 = 0
  length_aligned : length % 4096 = 0
  below : base + length < 2 ^ 52

/-- The number of the first frame. -/
def Slot.first (l : Slot) : ℕ := l.base / 4096

def Slot.size (l : Slot) : ℕ := l.length / 4096

def Slot.frames (l : Slot) : Finset ℕ := Finset.Ico l.first (l.first + l.size)

/-- The bits of a slot when the frames of `S` are in use. -/
def Slot.used (l : Slot) (S : Finset ℕ) (i : ℕ) : Bool := decide (i < l.size ∧ l.first + i ∈ S)

/-- The region of a slot when the frames of `S` are in use. -/
def Slot.region (l : Slot) (S : Finset ℕ) : MemoryRegion where
  start := ⟨l.base, by have := l.below; omega⟩
  stop := ⟨l.base + l.length, l.below⟩
  bitmap := view l.size l.addr (l.used S)

variable {l : Slot} {S T : Finset ℕ}

lemma Slot.base_eq (l : Slot) : l.base = l.first * 4096 := by
  have := l.base_aligned
  unfold Slot.first
  omega

lemma Slot.length_eq (l : Slot) : l.length = l.size * 4096 := by
  have := l.length_aligned
  unfold Slot.size
  omega

/-- Only the frames of the slot matter. -/
lemma Slot.region_congr (h : ∀ f ∈ l.frames, f ∈ S ↔ f ∈ T) : l.region S = l.region T := by
  have hused : l.used S = l.used T := by
    funext i
    unfold Slot.used
    by_cases hi : i < l.size
    · have := h (l.first + i) (by simp [Slot.frames, hi])
      simp [hi, this]
    · simp [hi]
  rw [Slot.region, hused, Slot.region]

lemma Slot.isSet_region {i : ℕ} (h : i < l.size) :
    (l.region S).bitmap.isSet i = .ok (decide (l.first + i ∈ S)) := by
  rw [Slot.region, isSet_view h, Slot.used]
  simp [h]

/-- A range that starts in the slot, as a first bit. -/
lemma Slot.startIndex {r : FrameRange} (h : l.base ≤ r.start.val) :
    l.first + (r.start.val - l.base) / 4096 = r.start.val / 4096 := by
  have h1 := l.base_aligned
  have h2 := r.aligned
  unfold Slot.first
  omega

/-- Setting or clearing the bits of a range inside the slot. -/
lemma Slot.forRange {f : BitmapView → ℕ → Res BitmapView} {b : Bool}
    (hf : ∀ p i, i < l.size →
      f (view l.size l.addr p) i = .ok (view l.size l.addr (Function.update p i b)))
    {start count : ℕ} (h : start + count ≤ l.size)
    (hT : ∀ i, i < l.size → (l.first + i ∈ T ↔
      if start ≤ i ∧ i < start + count then b = true else l.first + i ∈ S)) :
    Bitmap.forRange f start count (l.region S).bitmap = .ok (l.region T).bitmap := by
  rw [Slot.region, forRange_view hf h, Slot.region]
  congr 2
  funext i
  unfold Slot.used
  by_cases hi : i < l.size
  · have hTi := hT i hi
    split
    · next hin =>
      rw [if_pos hin] at hTi
      simp [hi, hTi]
    · next hout =>
      rw [if_neg hout] at hTi
      simp [hi, hTi]
  · rw [if_neg (by omega)]
    simp [hi]

/-- Inside the slot, the sum of an index and a count does not wrap. -/
lemma Slot.loopLength (l : Slot) {start count : ℕ} (h : start + count ≤ l.size) :
    usizeAdd start count - start = count := by
  have hlen := l.length_eq
  have hbelow := l.below
  rw [usizeAdd_of_lt (by omega), Nat.add_sub_cancel_left]

/-- **Reserving** a range inside the slot puts its frames in use. -/
lemma Slot.reserve {r : FrameRange} (hb : l.base ≤ r.start.val)
    (he : r.start.val + r.count * 4096 ≤ l.base + l.length) :
    (l.region S).reserve r = .ok (l.region (S ∪ r.frames)) := by
  have hs := l.startIndex hb
  have hlen := l.length_eq
  have hbits : (r.start.val - l.base) / 4096 + r.count ≤ l.size := by omega
  have hloop := l.forRange (S := S) (T := S ∪ r.frames) (fun _ _ h => set_view h) hbits
    (fun i _ => by
      rw [Finset.mem_union, FrameRange.frames, Finset.mem_Ico]
      split
      · next h => exact iff_of_true (.inr (by omega)) rfl
      · next h => exact or_iff_left (by omega))
  have hstart : (l.region S).start.val = l.base := rfl
  rw [MemoryRegion.reserve, hstart, l.loopLength hbits, hloop]
  rfl

/-- **Deallocating** a range inside the slot takes its frames out of use. -/
lemma Slot.dealloc {r : FrameRange} (hb : l.base ≤ r.start.val)
    (he : r.start.val + r.count * 4096 ≤ l.base + l.length) :
    (l.region S).dealloc r = .ok (l.region (S \ r.frames)) := by
  have hs := l.startIndex hb
  have hlen := l.length_eq
  have hbits : (r.start.val - l.base) / 4096 + r.count ≤ l.size := by omega
  have hloop := l.forRange (S := S) (T := S \ r.frames) (fun _ _ h => clear_view h) hbits
    (fun i _ => by
      rw [Finset.mem_sdiff, FrameRange.frames, Finset.mem_Ico]
      split
      · next h => exact iff_of_false (fun hn => hn.2 (by omega)) (by decide)
      · next h => exact and_iff_left (by omega))
  have hstart : (l.region S).start.val = l.base := rfl
  rw [MemoryRegion.dealloc, hstart, l.loopLength hbits, hloop]
  rfl

/-- What it means that a slot gives the range `r` when asked for `count` frames: the range lies in
the slot, none of its frames was in use, and no lower one would have done. -/
structure Slot.Gives (l : Slot) (S : Finset ℕ) (count : ℕ) (r : FrameRange) : Prop where
  pos : 0 < count
  count_eq : r.count = count
  lower : l.base ≤ r.start.val
  upper : r.start.val + count * 4096 ≤ l.base + l.length
  free : Disjoint r.frames S
  least : ∀ t, l.first + t < r.start.val / 4096 → ¬ IsRun (l.used S) l.size count t

/-- The slot has no `count` free frames in a row. -/
def Slot.Lacks (l : Slot) (S : Finset ℕ) (count : ℕ) : Prop :=
  count = 0 ∨ ∀ t, ¬ IsRun (l.used S) l.size count t

/-- **Allocating** from a slot gives the first run of free frames and puts it in use, or changes
nothing. -/
lemma Slot.alloc (l : Slot) (S : Finset ℕ) (count : ℕ) :
    (∃ r, (l.region S).alloc count = .ok (some (r, l.region (S ∪ r.frames))) ∧
        l.Gives S count r) ∨
      (l.region S).alloc count = .ok none ∧ l.Lacks S count := by
  have hb := l.base_eq
  have hlen := l.length_eq
  have hbelow := l.below
  have hbitmap : (l.region S).bitmap = view l.size l.addr (l.used S) := rfl
  have hstart : (l.region S).start.val = l.base := rfl
  rcases alloc_view hbitmap l.base_aligned (by omega) count with
    ⟨s, r, halloc, hr, hcount, hpos, hrun, hleast⟩ | hlacks
  · left
    have hle := hrun.1
    rw [hstart] at hr
    have hdiv : r.start.val / 4096 = l.first + s := by omega
    have hregion : l.region (S ∪ r.frames) =
        { l.region S with bitmap := view l.size l.addr (withRun (l.used S) count s) } := by
      rw [Slot.region, Slot.region]
      congr 2
      funext i
      simp only [withRun, Slot.used, Finset.mem_union, FrameRange.frames, Finset.mem_Ico, hdiv,
        hcount]
      split
      · next h => simp only [decide_eq_true_eq]; omega
      · next h =>
        congr 1
        exact propext (and_congr_right fun _ => or_iff_left (by omega))
    rw [← hregion] at halloc
    refine ⟨r, halloc, hpos, hcount, by omega, by omega, ?_, fun t ht => hleast t (by omega)⟩
    rw [Finset.disjoint_left]
    intro f hf hS
    simp only [FrameRange.frames, Finset.mem_Ico, hdiv, hcount] at hf
    have hfree := hrun.2 (f - l.first) (by omega) (by omega)
    have hfS : l.first + (f - l.first) = f := by omega
    rw [Slot.used, hfS] at hfree
    simp [hS] at hfree
    omega
  · exact .inr hlacks

lemma Slot.Gives.subset {count : ℕ} {r : FrameRange} (h : l.Gives S count r) :
    r.frames ⊆ l.frames := by
  have h1 := h.lower
  have h2 := h.upper
  have h3 := h.count_eq
  have hb := l.base_eq
  have hlen := l.length_eq
  have hal := r.aligned
  intro f hf
  rw [FrameRange.frames, Finset.mem_Ico] at hf
  rw [Slot.frames, Finset.mem_Ico]
  omega

/-- **Counting** the free frames of a slot. -/
lemma Slot.freeFrames (l : Slot) (S : Finset ℕ) :
    (l.region S).freeFrames = .ok (l.frames \ S).card := by
  have hcount : (l.region S).freeFrames =
      .ok (0 + ((Finset.Ico 0 l.size).filter fun j => l.used S j = false).card) :=
    countFree_view (Nat.zero_add l.size)
  have himage : ((Finset.Ico 0 l.size).filter fun j => l.used S j = false).image (l.first + ·) =
      l.frames \ S := by
    ext f
    simp only [Finset.mem_image, Finset.mem_filter, Finset.mem_Ico, Finset.mem_sdiff, Slot.frames,
      Slot.used, decide_eq_false_iff_not]
    constructor
    · rintro ⟨i, ⟨hi, hfree⟩, rfl⟩
      exact ⟨by omega, fun hS => hfree ⟨hi.2, hS⟩⟩
    · rintro ⟨hf, hS⟩
      have hfirst : l.first + (f - l.first) = f := by omega
      refine ⟨f - l.first, ⟨by omega, fun h => hS ?_⟩, hfirst⟩
      rw [← hfirst]
      exact h.2
  rw [hcount, Nat.zero_add, ← himage]
  rw [Finset.card_image_of_injective _ (add_right_injective l.first)]

end OsRust.Regions
