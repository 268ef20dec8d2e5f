import OsRust.Bootstrap

/-!
Where `init` puts its data, and which bits that leaves set: the regions and the bitmaps behind
them lie apart from each other in the first frames of the host, and no other frame is in use.
-/

namespace OsRust.Metadata

open OsRust.Frames OsRust.Bitmap OsRust.Regions OsRust.Layout OsRust.Bootstrap

/-- The bytes from the first number up to the second. -/
def byteRange (p : ℕ × ℕ) : Finset ℕ := Finset.Ico p.1 p.2

/-- The bytes of the slice of regions, `regionSize` each, and those of the bitmaps. -/
def byteRanges (inner : Inner) (regionSize : ℕ) : List (ℕ × ℕ) :=
  (inner.addr, inner.addr + inner.regions.length * regionSize) ::
    inner.regions.map fun r => (r.bitmap.addr, r.bitmap.addr + r.bitmap.data.length)

/-- What `init` leaves when the usable entry `e`, number `ri`, is the host. -/
structure Laid (map : List Entry) (hhdm regionSize ri : ℕ) (e : Entry) (inner : Inner) : Prop where
  regions : inner.regions.map
      (fun r => (r.start.val, r.stop.val, r.bitmap.size, r.bitmap.data.length)) =
    (usable map).map fun e =>
      (e.base, e.base + e.length, e.length / 4096, divCeil (e.length / 4096) 8)
  disjoint : (byteRanges inner regionSize).Pairwise fun p q => Disjoint (byteRange p) (byteRange q)
  inside : ∀ p ∈ byteRanges inner regionSize, byteRange p ⊆
    Finset.Ico (e.base + hhdm) (e.base + hhdm + framesNeeded map regionSize * 4096)
  fits : framesNeeded map regionSize * 4096 ≤ e.length
  bits : ∀ (k : ℕ) r, inner.regions[k]? = some r → ∀ i, i < 8 * r.bitmap.data.length →
    r.bitmap.isSet i = .ok (decide (k = ri ∧ i < framesNeeded map regionSize))

/-! ### The bytes of the bitmaps -/

/-- The bytes of the bitmap of a slot. -/
def bitmapRange (l : Slot) : ℕ × ℕ := (l.addr, l.addr + divCeil l.size 8)

lemma slots_inside {es : List Entry} {h : ∀ e ∈ es, Sound e} {addr : ℕ} {l : Slot}
    (hl : l ∈ slots es h addr) :
    addr ≤ l.addr ∧ l.addr + divCeil l.size 8 ≤ addr + (es.map bitmapBytes).sum := by
  induction es generalizing addr with
  | nil => cases hl
  | cons e es ih =>
    rw [List.map_cons, List.sum_cons]
    rcases List.mem_cons.mp hl with rfl | hl
    · have hsize : divCeil (e.length / 4096) 8 = bitmapBytes e := rfl
      simp only [Slot.size, hsize]
      omega
    · have := ih hl
      omega

/-- Each bitmap starts where the one before it ends, or later. -/
lemma slots_bitmaps_apart (es : List Entry) (h : ∀ e ∈ es, Sound e) (addr : ℕ) :
    ((slots es h addr).map bitmapRange).Pairwise fun p q => p.2 ≤ q.1 := by
  induction es generalizing addr with
  | nil => exact List.Pairwise.nil
  | cons e es ih =>
    refine List.Pairwise.cons ?_ (ih _ _)
    intro q hq
    obtain ⟨m, hm, rfl⟩ := List.mem_map.mp hq
    exact (slots_inside hm).1

lemma disjoint_of_le {p q : ℕ × ℕ} (h : p.2 ≤ q.1) : Disjoint (byteRange p) (byteRange q) := by
  rw [Finset.disjoint_left]
  intro x hp hq
  rw [byteRange, Finset.mem_Ico] at hp hq
  omega

variable {map : List Entry} {hhdm regionSize : ℕ} {e : Entry}

lemma slotsAt_ranges (hmap : MapOk map) (hhdm regionSize base : ℕ) (S : Finset ℕ) :
    byteRanges ⟨base + hhdm, Layout.regions (slotsAt hmap hhdm regionSize base) S⟩ regionSize =
      (base + hhdm, base + hhdm + (usable map).length * regionSize) ::
        (slotsAt hmap hhdm regionSize base).map bitmapRange := by
  have hlen : (slotsAt hmap hhdm regionSize base).length = (usable map).length := by
    have := congrArg List.length (slotsAt_map hmap hhdm regionSize base)
    simpa using this
  simp only [byteRanges, Layout.regions, List.length_map, hlen, List.map_map]
  congr 1
  apply List.map_congr_left
  intro l _
  simp [bitmapRange, Slot.region, view]

lemma initialSize_le (map : List Entry) (regionSize : ℕ) :
    initialSize map regionSize ≤ framesNeeded map regionSize * 4096 := by
  unfold framesNeeded divCeil
  split <;> omega

/-! ### The bits -/

/-- Different slots share no frame. -/
lemma apart_getElem? {L : List Slot} (hL : Apart L) {j k : ℕ} {l m : Slot} (hl : L[j]? = some l)
    (hm : L[k]? = some m) (hjk : j ≠ k) : Disjoint l.frames m.frames := by
  rw [Apart, List.pairwise_iff_getElem] at hL
  obtain ⟨hj, rfl⟩ := List.getElem?_eq_some_iff.mp hl
  obtain ⟨hk, rfl⟩ := List.getElem?_eq_some_iff.mp hm
  rcases Nat.lt_or_gt_of_ne hjk with h | h
  · exact hL j k hj hk h
  · exact (hL k j hk hj h).symm

/-- When the slot number `ri` starts with the frames of `M`, only its first bits are set. -/
lemma used_iff {L : List Slot} (hL : Apart L) {ri k n : ℕ} {host l : Slot}
    (hhost : L[ri]? = some host) (hl : L[k]? = some l) (hn : n ≤ host.size) (i : ℕ) :
    l.used (Finset.Ico host.first (host.first + n)) i = decide (k = ri ∧ i < n) := by
  rw [Slot.used, decide_eq_decide, Finset.mem_Ico]
  by_cases hk : k = ri
  · subst hk
    rw [hhost] at hl
    cases hl
    omega
  · refine iff_of_false ?_ fun h => hk h.1
    rintro ⟨hi, hmem⟩
    have hd := apart_getElem? hL hl hhost hk
    have hf : l.first + i ∈ l.frames := by simp [Slot.frames, hi]
    refine Finset.disjoint_left.mp hd hf ?_
    rw [Slot.frames, Finset.mem_Ico]
    omega

/-! ### `init` -/

lemma laid_of_host (hmap : MapOk map) {es₁ es₂ : List Entry} (hes : usable map = es₁ ++ e :: es₂)
    (hhost : host map regionSize = some e) (hsize : initialSize map regionSize ≤ e.length) :
    Laid map hhdm regionSize es₁.length e ⟨e.base + hhdm,
      Layout.regions (slotsAt hmap hhdm regionSize e.base) (metadata map regionSize)⟩ := by
  have he : e ∈ usable map := by rw [hes]; simp
  have hsound := hmap.sound e he
  have hneeded := framesNeeded_le hsound hsize
  have htotal := initialSize_le map regionSize
  obtain ⟨L₁, l, L₂, hL, hlen, hbase, hlength⟩ := slots_split hmap.sound hes
    (e.base + hhdm + (usable map).length * regionSize)
  refine ⟨?_, ?_, ?_, by omega, ?_⟩
  · have hslots := congrArg (List.map fun p : ℕ × ℕ =>
      (p.1, p.1 + p.2, p.2 / 4096, divCeil (p.2 / 4096) 8)) (slotsAt_map hmap hhdm regionSize e.base)
    simpa [Layout.regions, Slot.region, view, Slot.size, Function.comp_def] using hslots
  · rw [slotsAt_ranges]
    refine List.Pairwise.cons ?_ ((slots_bitmaps_apart _ _ _).imp disjoint_of_le)
    intro q hq
    obtain ⟨m, hm, rfl⟩ := List.mem_map.mp hq
    exact disjoint_of_le (slots_inside hm).1
  · rw [slotsAt_ranges]
    intro p hp
    refine Finset.Ico_subset_Ico ?_ ?_
    · rcases List.mem_cons.mp hp with rfl | hp
      · exact le_refl _
      · obtain ⟨m, hm, rfl⟩ := List.mem_map.mp hp
        have := (slots_inside hm).1
        simp only [bitmapRange]
        omega
    · unfold initialSize at htotal
      rcases List.mem_cons.mp hp with rfl | hp
      · simp only
        omega
      · obtain ⟨m, hm, rfl⟩ := List.mem_map.mp hp
        have := (slots_inside hm).2
        simp only [bitmapRange]
        omega
  · intro k r hr i hi
    rw [Layout.regions, List.getElem?_map, Option.map_eq_some_iff] at hr
    obtain ⟨m, hm, rfl⟩ := hr
    have hbytes : (m.region (metadata map regionSize)).bitmap.data.length = divCeil m.size 8 := by
      simp [Slot.region, view]
    rw [hbytes] at hi
    have hmeta : metadata map regionSize =
        Finset.Ico l.first (l.first + framesNeeded map regionSize) := by
      rw [metadata, hhost, Slot.first, hbase]
    have hl : (slotsAt hmap hhdm regionSize e.base)[es₁.length]? = some l := by
      rw [slotsAt, hL, ← hlen]
      simp
    have hn : framesNeeded map regionSize ≤ l.size := by
      have := hsound.length
      rw [Slot.size, hlength]
      omega
    rw [Slot.region, isSet_bytes hi, hmeta,
      used_iff (slotsAt_apart hmap hhdm regionSize e.base) hl hm hn]

/-- **Bootstrap.** `init` takes the first usable entry that is big enough for its data as the host
and lays the data out in its first frames, which are the only ones in use then; without a host it
panics. -/
theorem bootstrap_layout (hmap : MapOk map) (mem : ℕ → UInt8) (hhdm regionSize : ℕ) :
    ((∃ e ∈ usable map, initialSize map regionSize ≤ e.length) →
        ∃ es₁ e es₂ inner, usable map = es₁ ++ e :: es₂ ∧
          (∀ f ∈ es₁, f.length < initialSize map regionSize) ∧
          initialSize map regionSize ≤ e.length ∧
          BitmapFrameAllocator.init none mem hhdm regionSize map = .ok (some inner) ∧
          Laid map hhdm regionSize es₁.length e inner) ∧
      ((∀ e ∈ usable map, e.length < initialSize map regionSize) →
        BitmapFrameAllocator.init none mem hhdm regionSize map =
          .error (.panic "didn't find space for frame allocator data")) := by
  rcases init_spec hmap mem hhdm regionSize with ⟨e, hhost, hinit⟩ | ⟨hhost, hinit⟩
  · have hfind := hhost
    rw [host, List.find?_eq_some_iff_append] at hfind
    obtain ⟨hsize, es₁, es₂, hes, hes₁⟩ := hfind
    rw [decide_eq_true_eq] at hsize
    constructor
    · intro _
      refine ⟨es₁, e, es₂, _, hes, fun f hf => ?_, hsize, hinit, laid_of_host hmap hes hhost hsize⟩
      simpa using hes₁ f hf
    · intro hall
      have := hall e (by rw [hes]; simp)
      omega
  · rw [host, List.find?_eq_none] at hhost
    refine ⟨?_, fun _ => hinit⟩
    rintro ⟨e, he, hsize⟩
    exact absurd (decide_eq_true hsize) (hhost e he)

/-- A map whose first usable entry is too small to be the host. -/
def lateHost : List Entry :=
  [⟨0x1000, 0x1000, .usable⟩, ⟨0x2000, 0x1000, .reserved⟩, ⟨0x10000, 0x3000, .usable⟩]

lemma lateHost_ok : MapOk lateHost where
  sound e he := by
    have : e ∈ [⟨0x1000, 0x1000, .usable⟩, ⟨0x10000, 0x3000, .usable⟩] := he
    simp only [List.mem_cons, List.not_mem_nil, or_false] at this
    rcases this with rfl | rfl <;> constructor <;> decide
  disjoint := by
    show List.Pairwise _ ([⟨0x1000, 0x1000, .usable⟩, ⟨0x10000, 0x3000, .usable⟩] : List Entry)
    simp only [List.pairwise_pair]
    omega

/-- Regions of 2048 bytes: the data takes two frames of the second usable entry. -/
theorem bootstrap_layout_late : ∃ es₁ e es₂ inner, usable lateHost = es₁ ++ e :: es₂ ∧
    es₁.length = 1 ∧ framesNeeded lateHost 2048 = 2 ∧
    BitmapFrameAllocator.init none (fun _ => 0xaa) 0 2048 lateHost = .ok (some inner) ∧
    Laid lateHost 0 2048 es₁.length e inner := by
  obtain ⟨es₁, e, es₂, inner, hes, hsmall, hbig, hinit, hlaid⟩ :=
    (bootstrap_layout lateHost_ok (fun _ => 0xaa) 0 2048).1
      ⟨⟨0x10000, 0x3000, .usable⟩, by decide, by decide⟩
  refine ⟨es₁, e, es₂, inner, hes, ?_, by decide, hinit, hlaid⟩
  have hu : usable lateHost = [⟨0x1000, 0x1000, .usable⟩, ⟨0x10000, 0x3000, .usable⟩] := by decide
  have hn : initialSize lateHost 2048 = 4098 := by decide
  rw [hu] at hes
  rw [hn] at hsmall hbig
  match es₁ with
  | [] =>
    cases hes
    simp at hbig
  | [f] => rfl
  | f :: g :: es₁ =>
    simp only [List.cons_append, List.cons.injEq] at hes
    have := hsmall g (by simp)
    rw [← hes.2.1] at this
    simp at this

end OsRust.Metadata
