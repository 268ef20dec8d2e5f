import OsRust.Layout

/-!
What `init` makes of a memory map: one region for each usable entry, with all frames free but
those it keeps for its own data.
-/

namespace OsRust.Bootstrap

open OsRust.Frames OsRust.Bitmap OsRust.Regions OsRust.Layout OsRust.Lib.PackedBits

/-- The usable entries of a memory map. -/
def usable (map : List Entry) : List Entry := map.filter fun e => e.entryType = .usable

/-- What the bootloader promises of a usable entry. -/
structure Sound (e : Entry) : Prop where
  base : e.base % 4096 = 0
  length : e.length % 4096 = 0
  below : e.base + e.length < 2 ^ 52

/-- What the bootloader promises of the memory map. -/
structure MapOk (map : List Entry) : Prop where
  sound : ∀ e ∈ usable map, Sound e
  disjoint : (usable map).Pairwise fun e f =>
    ∀ x, e.base ≤ x → x < e.base + e.length → f.base ≤ x → x < f.base + f.length → False

/-! ### The data of the allocator -/

/-- The bytes of all bitmaps and regions. -/
def initialSize (map : List Entry) (regionSize : ℕ) : ℕ :=
  ((usable map).map bitmapBytes).sum + (usable map).length * regionSize

def framesNeeded (map : List Entry) (regionSize : ℕ) : ℕ := divCeil (initialSize map regionSize) 4096

/-- The first usable entry big enough for the data. -/
def host (map : List Entry) (regionSize : ℕ) : Option Entry :=
  (usable map).find? fun e => initialSize map regionSize ≤ e.length

/-- The frames `init` keeps for the data. -/
def metadata (map : List Entry) (regionSize : ℕ) : Finset ℕ :=
  match host map regionSize with
  | none => ∅
  | some e => Finset.Ico (e.base / 4096) (e.base / 4096 + framesNeeded map regionSize)

/-- The slots of usable entries whose bitmaps lie one behind the other from `addr` on. -/
def slots : (es : List Entry) → (∀ e ∈ es, Sound e) → ℕ → List Slot
  | [], _, _ => []
  | e :: es, h, addr =>
    have he := h e (by simp)
    ⟨e.base, e.length, addr, he.base, he.length, he.below⟩ ::
      slots es (fun f hf => h f (by simp [hf])) (addr + bitmapBytes e)

variable {map : List Entry} {mem : ℕ → UInt8}

lemma slots_map (es : List Entry) (h : ∀ e ∈ es, Sound e) (addr : ℕ) :
    (slots es h addr).map (fun l => (l.base, l.length)) = es.map fun e => (e.base, e.length) := by
  induction es generalizing addr with
  | nil => rfl
  | cons e es ih => simp [slots, ih]

lemma mem_slots {es : List Entry} {h : ∀ e ∈ es, Sound e} {addr : ℕ} {l : Slot}
    (hl : l ∈ slots es h addr) : ∃ e ∈ es, e.base = l.base ∧ e.length = l.length := by
  have hmem : (l.base, l.length) ∈ es.map fun e => (e.base, e.length) := by
    rw [← slots_map es h addr]
    exact List.mem_map_of_mem hl
  simpa using hmem

/-- The slot of an entry stands where the entry does. -/
lemma slots_split {es es₁ es₂ : List Entry} {e : Entry} (h : ∀ e ∈ es, Sound e)
    (hes : es = es₁ ++ e :: es₂) (addr : ℕ) :
    ∃ L₁ l L₂, slots es h addr = L₁ ++ l :: L₂ ∧ L₁.length = es₁.length ∧ l.base = e.base ∧
      l.length = e.length := by
  subst hes
  induction es₁ generalizing addr with
  | nil => exact ⟨[], _, _, rfl, rfl, rfl, rfl⟩
  | cons f es₁ ih =>
    obtain ⟨L₁, l, L₂, hL, hlen, hl⟩ :=
      ih (addr + bitmapBytes f) fun g hg => h g (List.mem_cons_of_mem f hg)
    exact ⟨_ :: L₁, l, L₂, congrArg (List.cons _) hL, by simp [hlen], hl⟩

lemma slots_apart {es : List Entry} (h : ∀ e ∈ es, Sound e) (hd : es.Pairwise fun e f =>
    ∀ x, e.base ≤ x → x < e.base + e.length → f.base ≤ x → x < f.base + f.length → False)
    (addr : ℕ) : Apart (slots es h addr) := by
  induction es generalizing addr with
  | nil => exact List.Pairwise.nil
  | cons e es ih =>
    refine List.Pairwise.cons (fun m hm => ?_) (ih _ hd.of_cons _)
    obtain ⟨f, hf, hbase, hlength⟩ := mem_slots hm
    rw [Finset.disjoint_left]
    intro x hx hxm
    have h₁ := Slot.base_eq m
    have h₂ := Slot.length_eq m
    have he := h e (by simp)
    have h₃ := he.base
    have h₄ := he.length
    simp only [Slot.frames, Slot.first, Slot.size, Finset.mem_Ico] at hx hxm
    -- the first byte of the frame would be in both entries
    exact List.rel_of_pairwise_cons hd hf (x * 4096) (by omega) (by omega) (by omega) (by omega)

/-! ### The loops of `init` -/

lemma measureLoop_eq (map : List Entry) (a n : ℕ) :
    measureLoop map a n =
      (a + ((usable map).map bitmapBytes).sum, n + (usable map).length) := by
  induction map generalizing a n with
  | nil => rfl
  | cons e es ih =>
    rw [measureLoop]
    by_cases he : e.entryType = .usable
    · simp only [he, if_true, ih, usable, List.filter_cons, decide_true, List.map_cons,
        List.sum_cons, List.length_cons]
      rw [Nat.add_assoc, Nat.add_assoc, Nat.add_comm 1]
    · simp [he, ih, usable]

lemma writeRegions_usable (map : List Entry) (addr : ℕ) :
    writeRegions mem map addr = writeRegions mem (usable map) addr := by
  induction map generalizing addr with
  | nil => rfl
  | cons e es ih =>
    by_cases he : e.entryType = .usable
    · simp [writeRegions, usable, he, ih]
    · simp [writeRegions, usable, he, ih]

/-- The regions written, once filled with zeros, are those of the slots with all frames free. -/
lemma writeRegions_spec (mem : ℕ → UInt8) {es : List Entry} (hu : ∀ e ∈ es, e.entryType = .usable)
    (h : ∀ e ∈ es, Sound e) (addr : ℕ) :
    ∃ rs, writeRegions mem es addr = .ok rs ∧
      rs.map MemoryRegion.fill = regions (slots es h addr) ∅ := by
  induction es generalizing addr with
  | nil => exact ⟨[], rfl, rfl⟩
  | cons e es ih =>
    obtain ⟨rs, hrs, hmap⟩ := ih (fun f hf => hu f (by simp [hf])) (fun f hf => h f (by simp [hf]))
      (addr + bitmapBytes e)
    have hbelow := (h e (by simp)).below
    have hstart : PhysAddr.new e.base = .ok ⟨e.base, by omega⟩ := PhysAddr.new_ok (by omega)
    have hstop : PhysAddr.new (e.base + e.length) = .ok ⟨e.base + e.length, hbelow⟩ :=
      PhysAddr.new_ok hbelow
    let r : MemoryRegion := ⟨⟨e.base, by omega⟩, ⟨e.base + e.length, hbelow⟩, ⟨e.length / 4096, addr,
      (List.range (bitmapBytes e)).map fun i => mem (addr + i)⟩⟩
    have hnew : MemoryRegion.new e.base e.length addr
        ((List.range (bitmapBytes e)).map fun i => mem (addr + i)) = .ok r := by
      unfold MemoryRegion.new
      rw [hstart, ok_bind, hstop, ok_bind]
    refine ⟨r :: rs, ?_, ?_⟩
    · rw [writeRegions, if_pos (hu e (by simp))]
      simp only
      rw [hnew, ok_bind, hrs, ok_bind]
    · rw [List.map_cons, hmap, slots, regions_cons]
      congr 1
      simp only [r, MemoryRegion.fill, Slot.region, view, List.length_map, List.length_range]
      congr 2
      have hfree : ∀ l : Slot, l.used ∅ = fun _ => false := by
        intro l
        funext i
        simp [Slot.used]
      rw [hfree, pack_false]
      rfl

lemma searchLoop_usable {n : ℕ} {k : ℕ → ℕ → Res BitmapFrameAllocator} (map : List Entry) (ri : ℕ) :
    searchLoop n k map ri = searchLoop n k (usable map) ri := by
  induction map generalizing ri with
  | nil => rfl
  | cons e es ih =>
    by_cases he : e.entryType = .usable
    · simp [searchLoop, usable, he, ih]
    · simp [searchLoop, usable, he, ih]

/-- The search goes on with the first entry that is big enough and its number. -/
lemma searchLoop_spec {n : ℕ} {k : ℕ → ℕ → Res BitmapFrameAllocator} {es : List Entry}
    (hu : ∀ e ∈ es, e.entryType = .usable) (ri : ℕ) :
    (∃ es₁ e es₂, es = es₁ ++ e :: es₂ ∧ es.find? (fun e => n ≤ e.length) = some e ∧
        n ≤ e.length ∧ searchLoop n k es ri = k e.base (ri + es₁.length)) ∨
      es.find? (fun e => n ≤ e.length) = none ∧
        searchLoop n k es ri = .error (.panic "didn't find space for frame allocator data") := by
  induction es generalizing ri with
  | nil => exact .inr ⟨rfl, rfl⟩
  | cons e es ih =>
    rw [searchLoop, if_pos (hu e (by simp))]
    by_cases hn : n ≤ e.length
    · exact .inl ⟨[], e, es, rfl, by simp [hn], hn, if_pos hn⟩
    · rw [if_neg hn]
      rcases ih (fun f hf => hu f (by simp [hf])) (ri + 1) with
        ⟨es₁, f, es₂, rfl, hfind, hf, hk⟩ | ⟨hfind, hk⟩
      · refine .inl ⟨e :: es₁, f, es₂, rfl, by simpa [hn] using hfind, hf, ?_⟩
        rw [hk, List.length_cons, Nat.add_assoc, Nat.add_comm 1]
      · exact .inr ⟨by simpa [hn] using hfind, hk⟩

/-! ### `init` -/

variable {hhdm regionSize : ℕ}

lemma usable_type {e : Entry} (h : e ∈ usable map) : e.entryType = .usable := by
  simpa using (List.mem_filter.mp h).2

/-- The slots `init` makes of the map, when the data of the allocator starts at `base`. -/
def slotsAt (hmap : MapOk map) (hhdm regionSize base : ℕ) : List Slot :=
  slots (usable map) hmap.sound (base + hhdm + (usable map).length * regionSize)

/-- The frames kept lie in the entry they start. -/
lemma framesNeeded_le {e : Entry} (he : Sound e) (hsize : initialSize map regionSize ≤ e.length) :
    e.base + framesNeeded map regionSize * 4096 ≤ e.base + e.length := by
  have := he.length
  unfold framesNeeded divCeil
  split <;> omega

lemma slotsAt_apart (hmap : MapOk map) (hhdm regionSize base : ℕ) : Apart (slotsAt hmap hhdm regionSize base) :=
  slots_apart hmap.sound hmap.disjoint _

lemma slotsAt_map (hmap : MapOk map) (hhdm regionSize base : ℕ) :
    (slotsAt hmap hhdm regionSize base).map (fun l => (l.base, l.length)) =
      (usable map).map fun e => (e.base, e.length) :=
  slots_map _ _ _

lemma mem_slotsAt {hmap : MapOk map} {base : ℕ} {l : Slot}
    (hl : l ∈ slotsAt hmap hhdm regionSize base) :
    ∃ e ∈ usable map, e.base = l.base ∧ e.length = l.length :=
  mem_slots hl

/-- The frames kept are frames of a slot. -/
lemma metadata_subset (hmap : MapOk map) (hhdm regionSize base : ℕ) :
    metadata map regionSize ⊆ allFrames (slotsAt hmap hhdm regionSize base) := by
  unfold metadata
  split
  · exact Finset.empty_subset _
  · next e hhost =>
    have he := List.mem_of_find?_eq_some hhost
    have hsize : initialSize map regionSize ≤ e.length := by
      simpa using List.find?_some hhost
    have hsound := hmap.sound e he
    have hneeded := framesNeeded_le hsound hsize
    have hslot : (e.base, e.length) ∈
        (slotsAt hmap hhdm regionSize base).map fun l => (l.base, l.length) := by
      rw [slotsAt_map]
      exact List.mem_map_of_mem (f := fun e => (e.base, e.length)) he
    obtain ⟨l, hl, hle⟩ := List.mem_map.mp hslot
    obtain ⟨hbase, hlength⟩ := Prod.mk.inj hle
    intro f hf
    rw [Finset.mem_Ico] at hf
    refine mem_allFrames.mpr ⟨l, hl, ?_⟩
    have h₁ := hsound.base
    have h₂ := hsound.length
    rw [Slot.frames, Slot.first, Slot.size, Finset.mem_Ico, hbase, hlength]
    omega

/-- **What `init` does**: it panics when no usable entry is big enough for the data; otherwise it
leaves one region for each usable entry, with only the frames of the data in use. -/
lemma init_spec (hmap : MapOk map) (mem : ℕ → UInt8) (hhdm regionSize : ℕ) :
    (∃ e, host map regionSize = some e ∧
        BitmapFrameAllocator.init none mem hhdm regionSize map = .ok (some ⟨e.base + hhdm,
          regions (slotsAt hmap hhdm regionSize e.base) (metadata map regionSize)⟩)) ∨
      host map regionSize = none ∧
        BitmapFrameAllocator.init none mem hhdm regionSize map =
          .error (.panic "didn't find space for frame allocator data") := by
  have hmeasure : measureLoop map 0 0 =
      (((usable map).map bitmapBytes).sum, (usable map).length) := by
    rw [measureLoop_eq, Nat.zero_add, Nat.zero_add]
  have hinit : BitmapFrameAllocator.init none mem hhdm regionSize map =
      searchLoop (initialSize map regionSize) (install none mem hhdm regionSize map
        (usable map).length (framesNeeded map regionSize)) (usable map) 0 := by
    unfold BitmapFrameAllocator.init
    rw [hmeasure]
    exact searchLoop_usable map 0
  rw [hinit]
  rcases searchLoop_spec (n := initialSize map regionSize) (k := install none mem hhdm regionSize map
    (usable map).length (framesNeeded map regionSize)) (fun e he => usable_type he) 0 with
    ⟨es₁, e, es₂, hes, hfind, hsize, hk⟩ | ⟨hfind, hk⟩
  · have he : e ∈ usable map := by
      rw [hes]
      simp
    have hsound := hmap.sound e he
    have hbelow := hsound.below
    have hmeta : metadata map regionSize =
        Finset.Ico (e.base / 4096) (e.base / 4096 + framesNeeded map regionSize) := by
      rw [metadata, host, hfind]
    refine .inl ⟨e, hfind, ?_⟩
    rw [hk, Nat.zero_add]
    obtain ⟨rs, hrs, hfill⟩ := writeRegions_spec mem (fun e he => usable_type he)
      hmap.sound (e.base + hhdm + (usable map).length * regionSize)
    obtain ⟨L₁, l, L₂, hL, hlen, hlbase, hllen⟩ := slots_split hmap.sound hes
      (e.base + hhdm + (usable map).length * regionSize)
    have hstart : PhysAddr.new e.base = .ok ⟨e.base, by omega⟩ := PhysAddr.new_ok (by omega)
    have hframes : FrameRange.new ⟨e.base, by omega⟩ (framesNeeded map regionSize) =
        .ok ⟨⟨e.base, by omega⟩, framesNeeded map regionSize, hsound.base⟩ :=
      FrameRange.new_ok hsound.base _
    have hapart := slots_apart hmap.sound hmap.disjoint
      (e.base + hhdm + (usable map).length * regionSize)
    have hneeded := framesNeeded_le hsound hsize
    unfold install
    simp only
    rw [writeRegions_usable, hrs, ok_bind, hfill, hstart, ok_bind, hframes, ok_bind]
    rw [hL] at hapart ⊢
    rw [← hlen, reserveAt_spec hapart (by simp [hlbase]) (by simp [hlbase, hllen]; omega), ok_bind]
    rw [slotsAt, hL, hmeta, Finset.empty_union]
    rfl
  · exact .inr ⟨hfind, hk⟩

end OsRust.Bootstrap
