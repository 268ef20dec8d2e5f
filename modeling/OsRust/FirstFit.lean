import OsRust.Bootstrap

/-!
What `alloc` of the whole allocator does, whatever the bits of its regions are: the first region
that has `count` clear bits in a row gives the lowest of them.
-/

namespace OsRust.FirstFit

open OsRust.Frames OsRust.Bitmap OsRust.Regions OsRust.Layout OsRust.Bootstrap
open OsRust.Lib.PackedBits

/-- What holds of every region from `init` on: it starts at a frame, the frames fill it, and there
is one byte for eight of them. -/
structure Initialised (r : MemoryRegion) : Prop where
  aligned : r.start.val % 4096 = 0
  fills : r.start.val + r.bitmap.size * 4096 = r.stop.val
  bytes : r.bitmap.data.length = divCeil r.bitmap.size 8

/-- The region has `count` clear bits in a row below its size, from `s` on. -/
def FreeRun (r : MemoryRegion) (count s : ℕ) : Prop :=
  s + count ≤ r.bitmap.size ∧ ∀ j, s ≤ j → j < s + count → r.bitmap.isSet j = .ok false

/-- `r'` is the region `r` with the `count` bits from `s` on set, and no other bit changed, not even
one behind the last frame. -/
structure Takes (r : MemoryRegion) (count s : ℕ) (r' : MemoryRegion) : Prop where
  start : r'.start = r.start
  stop : r'.stop = r.stop
  size : r'.bitmap.size = r.bitmap.size
  addr : r'.bitmap.addr = r.bitmap.addr
  length : r'.bitmap.data.length = r.bitmap.data.length
  run : ∀ i, s ≤ i → i < s + count → r'.bitmap.isSet i = .ok true
  rest : ∀ i, ¬ (s ≤ i ∧ i < s + count) → r'.bitmap.isSet i = r.bitmap.isSet i

/-- The first of the regions that has a run of `count` clear bits gives the lowest such run as
`frames`, and the regions are `rs'` then. -/
def Fits (rs : List MemoryRegion) (count : ℕ) (frames : FrameRange) (rs' : List MemoryRegion) :
    Prop :=
  ∃ L₁ r L₂ s r', rs = L₁ ++ r :: L₂ ∧ rs' = L₁ ++ r' :: L₂ ∧
    (∀ q ∈ L₁, ∀ t, ¬ FreeRun q count t) ∧
    FreeRun r count s ∧ (∀ t, t < s → ¬ FreeRun r count t) ∧ Takes r count s r' ∧
    frames.start.val = r.start.val + 4096 * s ∧ frames.count = count

variable {r r' : MemoryRegion} {rs rs' : List MemoryRegion} {count s : ℕ} {frames : FrameRange}

/-! ### One region -/

lemma isSet_view_of_le {size addr i : ℕ} {p : ℕ → Bool} (h : 8 * divCeil size 8 ≤ i) :
    (view size addr p).isSet i = .error (.panic "index out of bounds") := by
  have hnone : (view size addr p).data[i / 8]? = none := by
    rw [List.getElem?_eq_none_iff, view, length_pack]
    omega
  rw [BitmapView.isSet, BitmapView.byte, hnone]
  rfl

lemma Initialised.bitmap_eq (h : Initialised r) :
    r.bitmap = view r.bitmap.size r.bitmap.addr (bits r.bitmap.data) := by
  rw [view, ← h.bytes, pack_bits]

lemma freeRun_iff {size addr : ℕ} {p : ℕ → Bool} (hr : r.bitmap = view size addr p) :
    FreeRun r count s ↔ IsRun p size count s := by
  have hsize : r.bitmap.size = size := by rw [hr]; rfl
  rw [FreeRun, IsRun, hsize]
  refine and_congr_right fun hle => ?_
  constructor
  · intro h j hj₁ hj₂
    have hj := h j hj₁ hj₂
    rw [hr, isSet_view (by omega)] at hj
    exact Except.ok.inj hj
  · intro h j hj₁ hj₂
    rw [hr, isSet_view (by omega), h j hj₁ hj₂]

lemma takes_withRun {size addr : ℕ} {p : ℕ → Bool} (hr : r.bitmap = view size addr p)
    (hs : s + count ≤ size) :
    Takes r count s { r with bitmap := view size addr (withRun p count s) } where
  start := rfl
  stop := rfl
  size := by rw [hr]; rfl
  addr := by rw [hr]; rfl
  length := by rw [hr, view, view, length_pack, length_pack]
  run i h₁ h₂ := by
    rw [isSet_view (by omega), withRun, if_pos ⟨h₁, h₂⟩]
  rest i hi := by
    rw [hr]
    rcases Nat.lt_or_ge i (8 * divCeil size 8) with h | h
    · rw [isSet_bytes h, isSet_bytes h, withRun, if_neg hi]
    · rw [isSet_view_of_le h, isSet_view_of_le h]

/-- **One region**: the lowest run is taken, or there is none and nothing is done. -/
lemma Initialised.alloc (h : Initialised r) (count : ℕ) :
    (∃ s frames r', r.alloc count = .ok (some (frames, r')) ∧ 0 < count ∧ FreeRun r count s ∧
        (∀ t, t < s → ¬ FreeRun r count t) ∧ Takes r count s r' ∧
        frames.start.val = r.start.val + 4096 * s ∧ frames.count = count) ∨
      r.alloc count = .ok none ∧ (count = 0 ∨ ∀ t, ¬ FreeRun r count t) := by
  have hbelow : r.start.val + r.bitmap.size * 4096 < 2 ^ 52 := by
    rw [h.fills]
    exact r.stop.lt
  rcases alloc_view h.bitmap_eq h.aligned hbelow count with
    ⟨s, frames, halloc, hstart, hcount, hpos, hrun, hleast⟩ | ⟨halloc, hno⟩
  · left
    refine ⟨s, frames, _, halloc, hpos, (freeRun_iff h.bitmap_eq).mpr hrun, ?_,
      takes_withRun h.bitmap_eq hrun.1, by omega, hcount⟩
    intro t ht hfree
    exact hleast t ht ((freeRun_iff h.bitmap_eq).mp hfree)
  · right
    refine ⟨halloc, hno.imp id fun hno t hfree => ?_⟩
    exact hno t ((freeRun_iff h.bitmap_eq).mp hfree)

/-- The regions stay such regions. -/
lemma Takes.initialised (h : Takes r count s r') (hr : Initialised r) : Initialised r' where
  aligned := by rw [h.start]; exact hr.aligned
  fills := by rw [h.start, h.stop, h.size]; exact hr.fills
  bytes := by rw [h.length, h.size]; exact hr.bytes

lemma initialised_of_new {start length addr : ℕ} {data : List UInt8}
    (h : MemoryRegion.new start length addr data = .ok r) (hs : start % 4096 = 0)
    (hl : length % 4096 = 0) (hd : data.length = divCeil (length / 4096) 8) : Initialised r := by
  unfold MemoryRegion.new at h
  obtain ⟨a, ha, h⟩ := bind_ok.mp h
  obtain ⟨b, hb, h⟩ := bind_ok.mp h
  cases h
  rw [← PhysAddr.val_of_new ha] at hs
  refine ⟨hs, ?_, hd⟩
  change a.val + length / 4096 * 4096 = b.val
  rw [PhysAddr.val_of_new ha, PhysAddr.val_of_new hb]
  omega

lemma initialised_region (l : Slot) (S : Finset ℕ) : Initialised (l.region S) where
  aligned := l.base_aligned
  fills := by
    have := l.length_eq
    change l.base + l.size * 4096 = l.base + l.length
    omega
  bytes := length_pack

/-! ### All regions -/

/-- **All regions**: the loop stops at the first that has a run. -/
lemma allocLoop_cases (h : ∀ r ∈ rs, Initialised r) (count : ℕ) :
    (∃ frames rs', allocLoop count rs = .ok (some frames, rs') ∧ 0 < count ∧
        Fits rs count frames rs') ∨
      allocLoop count rs = .ok (none, rs) ∧
        (count = 0 ∨ ∀ r ∈ rs, ∀ t, ¬ FreeRun r count t) := by
  induction rs with
  | nil => exact .inr ⟨rfl, .inr (by simp)⟩
  | cons r rs ih =>
    rcases (h r (by simp)).alloc count with
      ⟨s, frames, r', halloc, hpos, hrun, hleast, htakes, hstart, hcount⟩ | ⟨halloc, hno⟩
    · left
      refine ⟨frames, r' :: rs, ?_, hpos, [], r, rs, s, r', rfl, rfl, by simp, hrun, hleast, htakes,
        hstart, hcount⟩
      rw [allocLoop, halloc, ok_bind]
    · rcases ih fun q hq => h q (List.mem_cons_of_mem _ hq) with
        ⟨frames, rs', hloop, hpos, hfits⟩ | ⟨hloop, hall⟩
      · left
        obtain ⟨L₁, q, L₂, s, q', rfl, rfl, hL₁, hq⟩ := hfits
        have hr : ∀ t, ¬ FreeRun r count t := hno.resolve_left (by omega)
        refine ⟨frames, r :: (L₁ ++ q' :: L₂), ?_, hpos, r :: L₁, q, L₂, s, q', rfl, rfl, ?_, hq⟩
        · rw [allocLoop, halloc, ok_bind]
          simp only
          rw [hloop, ok_bind]
        · simpa using ⟨hr, hL₁⟩
      · right
        constructor
        · rw [allocLoop, halloc, ok_bind]
          simp only
          rw [hloop, ok_bind]
        · rcases hno with h0 | hno
          · exact .inl h0
          · exact hall.imp id fun hall => by simpa using ⟨hno, hall⟩

lemma Fits.run (h : Fits rs count frames rs') : ∃ r ∈ rs, ∃ s, FreeRun r count s := by
  obtain ⟨L₁, r, L₂, s, r', rfl, -, -, hrun, -⟩ := h
  exact ⟨r, by simp, s, hrun⟩

lemma alloc_cases (inner : Inner) (h : ∀ r ∈ inner.regions, Initialised r) (count : ℕ) :
    (∃ frames rs', BitmapFrameAllocator.alloc (some inner) count =
          .ok (.ok frames, some { inner with regions := rs' }) ∧
        0 < count ∧ Fits inner.regions count frames rs') ∨
      BitmapFrameAllocator.alloc (some inner) count = .ok (.error .outOfMemory, some inner) ∧
        (count = 0 ∨ ∀ r ∈ inner.regions, ∀ t, ¬ FreeRun r count t) := by
  rw [BitmapFrameAllocator.alloc]
  rcases allocLoop_cases h count with ⟨frames, rs', hloop, hfits⟩ | ⟨hloop, hno⟩
  · refine .inl ⟨frames, rs', ?_, hfits⟩
    simp only [hloop, ok_bind]
  · refine .inr ⟨?_, hno⟩
    simp only [hloop, ok_bind]

/-- **First fit.** The allocator gives frames exactly when some region has as many clear bits in a
row, then the lowest of the first such region; otherwise it is out of memory and stays as it is. -/
theorem first_fit (inner : Inner) (h : ∀ r ∈ inner.regions, Initialised r) (count : ℕ) :
    ((∃ frames a, BitmapFrameAllocator.alloc (some inner) count = .ok (.ok frames, a)) ↔
        1 ≤ count ∧ ∃ r ∈ inner.regions, ∃ s, FreeRun r count s) ∧
      (∀ frames a, BitmapFrameAllocator.alloc (some inner) count = .ok (.ok frames, a) →
        ∃ rs', a = some { inner with regions := rs' } ∧ Fits inner.regions count frames rs') ∧
      (¬ (1 ≤ count ∧ ∃ r ∈ inner.regions, ∃ s, FreeRun r count s) →
        BitmapFrameAllocator.alloc (some inner) count = .ok (.error .outOfMemory, some inner)) := by
  rcases alloc_cases inner h count with ⟨frames, rs', halloc, hpos, hfits⟩ | ⟨halloc, hno⟩
  · refine ⟨iff_of_true ⟨frames, _, halloc⟩ ⟨hpos, hfits.run⟩, ?_, ?_⟩
    · intro frames' a ha
      rw [halloc] at ha
      cases ha
      exact ⟨rs', rfl, hfits⟩
    · exact fun hn => absurd ⟨hpos, hfits.run⟩ hn
  · have hnone : ¬ (1 ≤ count ∧ ∃ r ∈ inner.regions, ∃ s, FreeRun r count s) := by
      rintro ⟨hpos, r, hr, s, hrun⟩
      exact hno.resolve_left (by omega) r hr s hrun
    refine ⟨iff_of_false ?_ hnone, ?_, fun _ => halloc⟩
    · rintro ⟨frames, a, ha⟩
      rw [halloc] at ha
      cases ha
    · intro frames a ha
      rw [halloc] at ha
      cases ha

/-- Twelve and ten frames: three free ones in a row are only in the second region, from its third
frame on and from its eighth on. -/
theorem first_fit_second : ∃ r q frames a rs',
    MemoryRegion.new 0x10000 0xc000 0 [0xbb, 0x0d] = .ok r ∧
      MemoryRegion.new 0x40000 0xa000 2 [0x63, 0x00] = .ok q ∧
      BitmapFrameAllocator.alloc (some ⟨0, [r, q]⟩) 3 = .ok (.ok frames, a) ∧
      frames.start.val = 0x42000 ∧ a = some ⟨0, rs'⟩ ∧ Fits [r, q] 3 frames rs' := by
  obtain ⟨r, hr⟩ : ∃ r, MemoryRegion.new 0x10000 0xc000 0 [0xbb, 0x0d] = .ok r := ⟨_, rfl⟩
  obtain ⟨q, hq⟩ : ∃ q, MemoryRegion.new 0x40000 0xa000 2 [0x63, 0x00] = .ok q := ⟨_, rfl⟩
  have hinit : ∀ x ∈ [r, q], Initialised x := by
    simp only [List.mem_cons, List.not_mem_nil, or_false, forall_eq_or_imp, forall_eq]
    exact ⟨initialised_of_new hr (by decide) (by decide) (by decide),
      initialised_of_new hq (by decide) (by decide) (by decide)⟩
  have hrun : ∃ frames a, BitmapFrameAllocator.alloc (some ⟨0, [r, q]⟩) 3 = .ok (.ok frames, a) ∧
      frames.start.val = 0x42000 := by
    cases hr
    cases hq
    exact ⟨_, _, rfl, rfl⟩
  obtain ⟨frames, a, halloc, hstart⟩ := hrun
  obtain ⟨rs', ha, hfits⟩ := (first_fit ⟨0, [r, q]⟩ hinit 3).2.1 frames a halloc
  exact ⟨r, q, frames, a, rs', hr, hq, halloc, hstart, ha, hfits⟩

/-! ### Where such regions come from -/

variable {inner inner' : Inner} {map : List Entry} {mem : ℕ → UInt8} {hhdm regionSize : ℕ}

/-- `init` makes such regions. -/
theorem init_initialised (hmap : MapOk map)
    (h : BitmapFrameAllocator.init none mem hhdm regionSize map = .ok (some inner)) :
    ∀ r ∈ inner.regions, Initialised r := by
  rcases init_spec hmap mem hhdm regionSize with ⟨e, -, hok⟩ | ⟨-, herr⟩
  · rw [hok] at h
    cases h
    intro r hr
    obtain ⟨l, -, rfl⟩ := List.mem_map.mp hr
    exact initialised_region l _
  · rw [herr] at h
    cases h

/-- `alloc` leaves such regions. -/
theorem alloc_initialised (h : ∀ r ∈ inner.regions, Initialised r)
    {res : Except FrameAllocError FrameRange}
    (halloc : BitmapFrameAllocator.alloc (some inner) count = .ok (res, some inner')) :
    ∀ r ∈ inner'.regions, Initialised r := by
  rcases alloc_cases inner h count with ⟨frames, rs', halloc', -, hfits⟩ | ⟨halloc', -⟩
  · rw [halloc'] at halloc
    cases halloc
    obtain ⟨L₁, r, L₂, s, r', hrs, rfl, -, -, -, htakes, -⟩ := hfits
    intro q hq
    rcases List.mem_append.mp hq with hq | hq
    · exact h q (by simp [hrs, hq])
    · rcases List.mem_cons.mp hq with rfl | hq
      · exact htakes.initialised (h r (by simp [hrs]))
      · exact h q (by simp [hrs, hq])
  · rw [halloc'] at halloc
    cases halloc
    exact h

/-- A loop over bits keeps the shape of the bitmap when each pass does. -/
lemma forRange_keeps {f : BitmapView → ℕ → Res BitmapView}
    (hf : ∀ v i v', f v i = .ok v' → v'.size = v.size ∧ v'.data.length = v.data.length)
    {n : ℕ} {v v' : BitmapView} (h : forRange f s n v = .ok v') :
    v'.size = v.size ∧ v'.data.length = v.data.length := by
  induction n generalizing s v with
  | zero =>
    cases h
    exact ⟨rfl, rfl⟩
  | succ n ih =>
    rw [forRange] at h
    obtain ⟨w, hw, h⟩ := bind_ok.mp h
    obtain ⟨hsize, hlength⟩ := hf v s w hw
    obtain ⟨hsize', hlength'⟩ := ih h
    exact ⟨hsize'.trans hsize, hlength'.trans hlength⟩

lemma clear_keeps (v : BitmapView) (i : ℕ) (v' : BitmapView) (h : v.clear i = .ok v') :
    v'.size = v.size ∧ v'.data.length = v.data.length := by
  obtain ⟨b, -, h⟩ := bind_ok.mp h
  cases h
  exact ⟨rfl, List.length_set⟩

lemma MemoryRegion.dealloc_initialised (hr : Initialised r)
    (h : r.dealloc frames = .ok r') : Initialised r' := by
  obtain ⟨v, hv, h⟩ := bind_ok.mp h
  cases h
  obtain ⟨hsize, hlength⟩ := forRange_keeps clear_keeps hv
  refine ⟨hr.aligned, ?_, ?_⟩
  · rw [hsize]
    exact hr.fills
  · rw [hsize, hlength]
    exact hr.bytes

lemma deallocLoop_initialised (h : ∀ r ∈ rs, Initialised r)
    (hloop : deallocLoop frames rs = .ok rs') : ∀ r ∈ rs', Initialised r := by
  induction rs generalizing rs' with
  | nil =>
    cases hloop
    simp
  | cons r rs ih =>
    rw [deallocLoop] at hloop
    obtain ⟨hr, hrs⟩ := List.forall_mem_cons.mp h
    split at hloop
    · obtain ⟨r', hr', hloop⟩ := bind_ok.mp hloop
      cases hloop
      exact List.forall_mem_cons.mpr ⟨MemoryRegion.dealloc_initialised hr hr', hrs⟩
    · obtain ⟨rs'', hrs'', hloop⟩ := bind_ok.mp hloop
      cases hloop
      exact List.forall_mem_cons.mpr ⟨hr, ih hrs hrs''⟩

/-- `dealloc` of any frames, if it does not panic, leaves such regions. -/
theorem dealloc_initialised (h : ∀ r ∈ inner.regions, Initialised r)
    (hdealloc : BitmapFrameAllocator.dealloc (some inner) frames = .ok (some inner')) :
    ∀ r ∈ inner'.regions, Initialised r := by
  obtain ⟨rs', hloop, ha⟩ := bind_ok.mp hdealloc
  cases ha
  exact deallocLoop_initialised h hloop

/-! ### How many frames are left -/

/-- The clear bits of a region below its size. -/
def freeBits (r : MemoryRegion) : Finset ℕ :=
  (Finset.range r.bitmap.size).filter fun i => r.bitmap.isSet i = .ok false

lemma mem_freeBits {i : ℕ} :
    i ∈ freeBits r ↔ i < r.bitmap.size ∧ r.bitmap.isSet i = .ok false := by
  rw [freeBits, Finset.mem_filter, Finset.mem_range]

lemma Initialised.freeFrames (h : Initialised r) : r.freeFrames = .ok (freeBits r).card := by
  have hcount : r.freeFrames =
      .ok (0 + ((Finset.Ico 0 r.bitmap.size).filter fun i => bits r.bitmap.data i = false).card) := by
    conv_lhs => rw [MemoryRegion.freeFrames, h.bitmap_eq]
    exact countFree_view (Nat.zero_add _)
  rw [hcount, Nat.zero_add, freeBits, Finset.range_eq_Ico]
  congr 2
  refine Finset.filter_congr fun i hi => ?_
  have hset : (view r.bitmap.size r.bitmap.addr (bits r.bitmap.data)).isSet i =
      .ok (bits r.bitmap.data i) := isSet_view (Finset.mem_Ico.mp hi).2
  rw [← h.bitmap_eq] at hset
  rw [hset, Except.ok.injEq]

lemma Takes.freeBits_eq (h : Takes r count s r') :
    freeBits r' = freeBits r \ Finset.Ico s (s + count) := by
  ext i
  rw [Finset.mem_sdiff, mem_freeBits, mem_freeBits, Finset.mem_Ico, h.size]
  by_cases hi : s ≤ i ∧ i < s + count
  · rw [h.run i hi.1 hi.2]
    simp [hi]
  · rw [h.rest i hi]
    simp [hi]

lemma Takes.card_freeBits (h : Takes r count s r') (hrun : FreeRun r count s) :
    (freeBits r).card = (freeBits r').card + count := by
  have hsub : Finset.Ico s (s + count) ⊆ freeBits r := by
    intro i hi
    obtain ⟨h₁, h₂⟩ := Finset.mem_Ico.mp hi
    exact mem_freeBits.mpr ⟨by have := hrun.1; omega, hrun.2 i h₁ h₂⟩
  have hle := Finset.card_le_card hsub
  rw [h.freeBits_eq, Finset.card_sdiff_of_subset hsub, Nat.card_Ico]
  rw [Nat.card_Ico] at hle
  omega

lemma sumFree_eq (h : ∀ r ∈ rs, Initialised r) :
    sumFree rs = .ok ((rs.map fun r => (freeBits r).card).sum) := by
  induction rs with
  | nil => rfl
  | cons r rs ih =>
    obtain ⟨hr, hrs⟩ := List.forall_mem_cons.mp h
    rw [sumFree, hr.freeFrames, ok_bind, ih hrs, ok_bind, List.map_cons, List.sum_cons]

/-- An allocation of `count` frames leaves so many less. -/
lemma alloc_freeFrames {a : BitmapFrameAllocator} (h : ∀ r ∈ inner.regions, Initialised r)
    (halloc : BitmapFrameAllocator.alloc (some inner) count = .ok (.ok frames, a)) :
    ∃ inner' n, a = some inner' ∧ (∀ r ∈ inner'.regions, Initialised r) ∧
      BitmapFrameAllocator.freeFrames (some inner) = .ok (n + count) ∧
      BitmapFrameAllocator.freeFrames a = .ok n := by
  obtain ⟨rs', rfl, hfits⟩ := (first_fit inner h count).2.1 frames a halloc
  have hinit := alloc_initialised h halloc
  obtain ⟨L₁, r, L₂, s, r', hrs, rfl, -, hrun, -, htakes, -⟩ := hfits
  refine ⟨_, _, rfl, hinit, ?_, sumFree_eq hinit⟩
  rw [BitmapFrameAllocator.freeFrames, sumFree_eq h, hrs]
  simp only [List.map_append, List.map_cons, List.sum_append, List.sum_cons,
    htakes.card_freeBits hrun]
  congr 1
  omega

end OsRust.FirstFit
