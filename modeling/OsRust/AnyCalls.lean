import OsRust.Ownership
import OsRust.Lib.Rounds

/-!
The allocator as a set of frames, whatever it is called with. Nothing checks what `dealloc` is given:
a range may never have been handed out, may be handed back twice, or may run past the end of its
region.
-/

namespace OsRust.AnyCalls

open OsRust.Frames OsRust.Bitmap OsRust.Regions OsRust.Layout OsRust.Bootstrap OsRust.Ownership
open OsRust.Lib.PackedBits OsRust.Lib.Machine

/-- The calls; the count of a range is a `usize`. -/
inductive Call
  | alloc (count : ℕ)
  | dealloc (frames : FrameRange) (usize : frames.count < 2 ^ 64)

/-- The allocator, and what the calls of `alloc` have returned. -/
structure State where
  allocator : BitmapFrameAllocator
  results : List (Except FrameAllocError FrameRange)

def step (s : State) : Call → Res State
  | .alloc count => do
    let (r, a) ← s.allocator.alloc count
    .ok ⟨a, r :: s.results⟩
  | .dealloc frames _ => do
    let a ← s.allocator.dealloc frames
    .ok { s with allocator := a }

/-! ### Sets of frames -/

/-- Frames in a row: the first, and how many. -/
structure Extent where
  first : ℕ
  size : ℕ

def Extent.frames (x : Extent) : Finset ℕ := Finset.Ico x.first (x.first + x.size)

/-- The usable entries of a memory map. -/
def extents (map : List Entry) : List Extent :=
  (usable map).map fun e => ⟨e.base / 4096, e.length / 4096⟩

/-- The frames in use, and what was given. -/
structure Sets where
  used : Finset ℕ
  results : List (Option Extent)

/-- The lowest `count` frames in a row of the extent that are not in use. -/
def lowest (used : Finset ℕ) (count : ℕ) (x : Extent) : Option Extent :=
  if count = 0 then none
  else ((List.range' x.first (x.size + 1 - count)).find? fun f =>
    decide (Disjoint (Finset.Ico f (f + count)) used)).map fun f => ⟨f, count⟩

/-- A range handed back is taken out of use, as far as it lies in the extent it starts in; one that
starts in none is ignored, and so is one whose end wraps around. Up to seven bits behind the last
frame of an extent are there as well. -/
def Sets.step (xs : List Extent) (t : Sets) : Call → Res Sets
  | .alloc count =>
    match xs.findSome? (lowest t.used count) with
    | some y => .ok ⟨t.used ∪ y.frames, some y :: t.results⟩
    | none => .ok { t with results := none :: t.results }
  | .dealloc r _ =>
    match xs.find? fun x => decide (r.start.val / 4096 ∈ x.frames) with
    | none => .ok t
    | some x =>
      if 2 ^ 64 ≤ r.start.val / 4096 - x.first + r.count then .ok t
      else if r.start.val / 4096 + r.count ≤ x.first + 8 * divCeil x.size 8 then
        .ok { t with used := t.used \ (r.frames ∩ x.frames) }
      else .error (.panic "index out of bounds")

def Extent.ofRange (r : FrameRange) : Extent := ⟨r.start.val / 4096, r.count⟩

/-- The bits tell which frames are in use, as many are free as are not, and the same was given. -/
structure Agrees (map : List Entry) (s : State) (t : Sets) : Prop where
  bits : BitsTell map s.allocator t.used
  free : s.allocator.freeFrames =
    .ok ((extents map).map fun x => (x.frames \ t.used).card).sum
  results : s.results.map (fun r => r.toOption.map Extent.ofRange) = t.results

variable {map : List Entry} {L : List Slot} {l : Slot} {S : Finset ℕ} {r : FrameRange} {count addr : ℕ}

/-! ### Slots and extents -/

def extent (l : Slot) : Extent := ⟨l.first, l.size⟩

lemma frames_extent : (extent l).frames = l.frames := rfl

/-- The slots `init` makes are the extents of the map. -/
lemma map_extent (hmap : MapOk map) (hhdm regionSize base : ℕ) :
    (slotsAt hmap hhdm regionSize base).map extent = extents map := by
  have h := congrArg (List.map fun p : ℕ × ℕ => (⟨p.1 / 4096, p.2 / 4096⟩ : Extent))
    (slotsAt_map hmap hhdm regionSize base)
  rw [List.map_map, List.map_map] at h
  exact h

/-! ### `alloc` -/

lemma isRun_used {t : ℕ} : IsRun (l.used S) l.size count t ↔
    t + count ≤ l.size ∧ Disjoint (Finset.Ico (l.first + t) (l.first + t + count)) S := by
  refine and_congr_right fun hle => ?_
  rw [Finset.disjoint_left]
  constructor
  · intro h f hf hS
    rw [Finset.mem_Ico] at hf
    have hfree := h (f - l.first) (by omega) (by omega)
    have hfirst : l.first + (f - l.first) = f := by omega
    rw [Slot.used, hfirst, decide_eq_false_iff_not] at hfree
    exact hfree ⟨by omega, hS⟩
  · intro h j h₁ h₂
    rw [Slot.used, decide_eq_false_iff_not]
    intro hused
    exact h (Finset.mem_Ico.mpr ⟨by omega, by omega⟩) hused.2

/-- A slot gives what is lowest in its extent. -/
lemma lowest_of_gives (h : l.Gives S count r) : lowest S count (extent l) = some (.ofRange r) := by
  have hb := l.base_eq
  have hlen := l.length_eq
  have hal := r.aligned
  have hpos := h.pos
  have hlower := h.lower
  have hupper := h.upper
  have hcount := h.count_eq
  have hfind : (List.range' l.first (l.size + 1 - count)).find? (fun f =>
      decide (Disjoint (Finset.Ico f (f + count)) S)) = some (r.start.val / 4096) := by
    rw [List.find?_range'_eq_some]
    refine ⟨?_, ?_, ?_⟩
    · rw [decide_eq_true_eq, ← hcount]
      exact h.free
    · rw [List.mem_range'_1]
      omega
    · intro f hf₁ hf₂
      have hno := h.least (f - l.first) (by omega)
      rw [isRun_used, not_and] at hno
      have hf : l.first + (f - l.first) = f := by omega
      rw [hf] at hno
      simpa using hno (by omega)
  rw [lowest, if_neg (by omega)]
  show Option.map _ (List.find? _ (List.range' l.first (l.size + 1 - count))) = _
  rw [hfind, Option.map_some, Extent.ofRange, hcount]

lemma lowest_of_lacks (h : l.Lacks S count) : lowest S count (extent l) = none := by
  unfold lowest
  split
  · rfl
  · next hpos =>
    rw [Option.map_eq_none_iff, List.find?_eq_none]
    intro f hf
    have hno := h.resolve_left hpos (f - l.first)
    rw [List.mem_range'_1] at hf
    change l.first ≤ f ∧ f < l.first + (l.size + 1 - count) at hf
    have hf' : l.first + (f - l.first) = f := by omega
    rw [isRun_used, not_and, hf'] at hno
    simpa using hno (by omega)

lemma findSome_lowest_of_gives (h : Gives L S count r) :
    (L.map extent).findSome? (lowest S count) = some (.ofRange r) := by
  obtain ⟨L₁, l, L₂, rfl, hlacks, hl⟩ := h
  have hnone : (L₁.map extent).findSome? (lowest S count) = none := by
    rw [List.findSome?_eq_none_iff]
    intro x hx
    obtain ⟨m, hm, rfl⟩ := List.mem_map.mp hx
    exact lowest_of_lacks (hlacks m hm)
  rw [List.map_append, List.findSome?_append, hnone, Option.none_or, List.map_cons,
    List.findSome?_cons, lowest_of_gives hl]

lemma findSome_lowest_of_lacks (h : ∀ l ∈ L, l.Lacks S count) :
    (L.map extent).findSome? (lowest S count) = none := by
  rw [List.findSome?_eq_none_iff]
  intro x hx
  obtain ⟨l, hl, rfl⟩ := List.mem_map.mp hx
  exact lowest_of_lacks (h l hl)

/-! ### `dealloc` -/

/-- The bits behind the last frame can be cleared as well. -/
lemma clear_bytes {size i : ℕ} {p : ℕ → Bool} (h : i < 8 * divCeil size 8) :
    (view size addr p).clear i = .ok (view size addr (Function.update p i false)) := by
  rw [BitmapView.clear, byte_view h, ok_bind, view, view, ← set_and_not_pack]
  rfl

/-- There are no others. -/
lemma clear_outside {size i : ℕ} {p : ℕ → Bool} (h : 8 * divCeil size 8 ≤ i) :
    (view size addr p).clear i = .error (.panic "index out of bounds") := by
  have hnone : (view size addr p).data[i / 8]? = none := by
    rw [List.getElem?_eq_none_iff, view, length_pack]
    omega
  rw [BitmapView.clear, BitmapView.byte, hnone]
  rfl

lemma forRange_clear_outside {size start : ℕ} (hs : start ≤ 8 * divCeil size 8)
    (h : 8 * divCeil size 8 < start + count) (p : ℕ → Bool) :
    forRange BitmapView.clear start count (view size addr p) =
      .error (.panic "index out of bounds") := by
  induction count generalizing start p with
  | zero => omega
  | succ n ih =>
    rw [forRange]
    by_cases hin : start < 8 * divCeil size 8
    · rw [clear_bytes hin, ok_bind]
      exact ih (by omega) (by omega) _
    · rw [clear_outside (by omega), error_bind]

/-- The end of the range wraps around, and the loop is over before it begins. -/
lemma dealloc_wraps (hb : l.base ≤ r.start.val) (hr : r.count < 2 ^ 64)
    (hw : 2 ^ 64 ≤ r.start.val / 4096 - l.first + r.count) :
    (l.region S).dealloc r = .ok (l.region S) := by
  have hs := l.startIndex hb
  have hstart : (l.region S).start.val = l.base := rfl
  rw [MemoryRegion.dealloc, hstart, usizeAdd_of_le (by omega) hr]
  rfl

/-- Handing back any other range that starts in the slot, however long it is. -/
lemma dealloc_region (hb : l.base ≤ r.start.val) (hin : r.start.val < l.base + l.length)
    (hw : ¬ 2 ^ 64 ≤ r.start.val / 4096 - l.first + r.count) :
    (l.region S).dealloc r =
      if r.start.val / 4096 + r.count ≤ l.first + 8 * divCeil l.size 8 then
        .ok (l.region (S \ (r.frames ∩ l.frames)))
      else .error (.panic "index out of bounds") := by
  have hs := l.startIndex hb
  have hlen := l.length_eq
  have hbytes : l.size ≤ 8 * divCeil l.size 8 := by
    unfold divCeil
    split <;> omega
  have hstart : (l.region S).start.val = l.base := rfl
  rw [MemoryRegion.dealloc, hstart, usizeAdd_of_lt (by omega), Nat.add_sub_cancel_left]
  split
  · next hle =>
    have hbits : (fun i => if (r.start.val - l.base) / 4096 ≤ i ∧
          i < (r.start.val - l.base) / 4096 + r.count then false else l.used S i) =
        l.used (S \ (r.frames ∩ l.frames)) := by
      funext i
      simp only [Slot.used, Finset.mem_sdiff, Finset.mem_inter, FrameRange.frames, Slot.frames,
        Finset.mem_Ico]
      split
      · next hi =>
        symm
        rw [decide_eq_false_iff_not]
        rintro ⟨hsize, -, hno⟩
        exact hno ⟨⟨by omega, by omega⟩, by omega, by omega⟩
      · next hi =>
        congr 1
        refine propext (and_congr_right fun hsize => (and_iff_left fun hmem => hi ?_).symm)
        omega
    have hloop : forRange BitmapView.clear ((r.start.val - l.base) / 4096) r.count
        (l.region S).bitmap = .ok (l.region (S \ (r.frames ∩ l.frames))).bitmap := by
      rw [Slot.region, forRange_view (fun _ _ h => clear_bytes h) (by omega), Slot.region, hbits]
    rw [hloop]
    rfl
  · next hgt =>
    have hloop : forRange BitmapView.clear ((r.start.val - l.base) / 4096) r.count
        (l.region S).bitmap = .error (.panic "index out of bounds") := by
      rw [Slot.region]
      exact forRange_clear_outside (by omega) (by omega) _
    rw [hloop]
    rfl

lemma start_mem_extent : (r.start.val / 4096 ∈ (extent l).frames) ↔
    l.base ≤ r.start.val ∧ r.start.val < l.base + l.length := by
  have hb := l.base_eq
  have hlen := l.length_eq
  have hal := r.aligned
  rw [frames_extent, Slot.frames, Finset.mem_Ico]
  omega

/-- The extent a range starts in. -/
def home (xs : List Extent) (r : FrameRange) : Option Extent :=
  xs.find? fun x => decide (r.start.val / 4096 ∈ x.frames)

lemma deallocLoop_of_none (h : home (L.map extent) r = none) :
    deallocLoop r (regions L S) = .ok (regions L S) := by
  induction L with
  | nil => rfl
  | cons l L ih =>
    rw [home, List.map_cons, List.find?_cons] at h
    split at h
    · cases h
    · next hout =>
      rw [decide_eq_false_iff_not, start_mem_extent] at hout
      rw [regions_cons, deallocLoop, contains_region, decide_eq_false hout, if_neg (by decide),
        ih h, ok_bind]

/-- A region gives its frames back, and the other regions have none of them. -/
lemma deallocLoop_of_some (hL : Apart L) {x : Extent} (h : home (L.map extent) r = some x)
    (hr : r.count < 2 ^ 64) :
    deallocLoop r (regions L S) =
      if 2 ^ 64 ≤ r.start.val / 4096 - x.first + r.count then .ok (regions L S)
      else if r.start.val / 4096 + r.count ≤ x.first + 8 * divCeil x.size 8 then
        .ok (regions L (S \ (r.frames ∩ x.frames)))
      else .error (.panic "index out of bounds") := by
  induction L with
  | nil => cases h
  | cons l L ih =>
    rw [home, List.map_cons, List.find?_cons] at h
    rw [regions_cons, deallocLoop, contains_region]
    split at h
    · next hin =>
      cases h
      rw [decide_eq_true_eq, start_mem_extent] at hin
      rw [decide_eq_true hin, if_pos rfl]
      have hfirst : (extent l).first = l.first := rfl
      have hsize : (extent l).size = l.size := rfl
      rw [hfirst, hsize]
      by_cases hw : 2 ^ 64 ≤ r.start.val / 4096 - l.first + r.count
      · rw [dealloc_wraps hin.1 hr hw, if_pos hw]
        rfl
      · rw [dealloc_region hin.1 hin.2 hw, if_neg hw]
        split
        · -- the other slots have none of these frames
          have htail : regions L (S \ (r.frames ∩ l.frames)) = regions L S :=
            regions_sdiff (Finset.disjoint_of_subset_left Finset.inter_subset_right
              hL.disjoint_allFrames)
          rw [ok_bind, regions_cons, frames_extent, htail]
        · rfl
    · next hout =>
      rw [decide_eq_false_iff_not, start_mem_extent] at hout
      rw [decide_eq_false hout, if_neg (by decide), ih hL.of_cons h]
      split
      · rfl
      · split
        · have hx : Disjoint l.frames x.frames := by
            obtain ⟨m, hm, rfl⟩ := List.mem_map.mp (List.mem_of_find?_eq_some h)
            exact List.rel_of_pairwise_cons hL hm
          have hhead : l.region (S \ (r.frames ∩ x.frames)) = l.region S := by
            apply l.region_congr
            intro f hf
            rw [Finset.mem_sdiff]
            exact and_iff_left fun hr =>
              Finset.disjoint_left.mp hx hf (Finset.mem_inter.mp hr).2
          rw [ok_bind, regions_cons, hhead]
        · rfl

/-! ### Side by side -/

/-- The bytes are those of a set of frames. -/
structure Holds (L : List Slot) (addr : ℕ) (s : State) (t : Sets) : Prop where
  allocator : s.allocator = some ⟨addr, regions L t.used⟩
  results : s.results.map (fun x => x.toOption.map Extent.ofRange) = t.results

variable {s s' : State} {t t' : Sets}

lemma Holds.step (hL : Apart L) (h : Holds L addr s t) (c : Call) :
    (∃ s' t', AnyCalls.step s c = .ok s' ∧ Sets.step (L.map extent) t c = .ok t' ∧
        Holds L addr s' t') ∨
      ∃ e, AnyCalls.step s c = .error e ∧ Sets.step (L.map extent) t c = .error e := by
  cases c with
  | alloc count =>
    left
    rcases allocLoop_spec hL t.used count with ⟨r, hloop, hg⟩ | ⟨hloop, hlacks⟩
    · refine ⟨⟨some ⟨addr, regions L (t.used ∪ r.frames)⟩, .ok r :: s.results⟩,
        ⟨t.used ∪ r.frames, some (.ofRange r) :: t.results⟩, ?_, ?_, rfl, ?_⟩
      · rw [AnyCalls.step, h.allocator, BitmapFrameAllocator.alloc, hloop]
        rfl
      · rw [Sets.step, findSome_lowest_of_gives hg]
        rfl
      · rw [List.map_cons, h.results]
        rfl
    · refine ⟨⟨s.allocator, .error .outOfMemory :: s.results⟩, { t with results := none :: t.results },
        ?_, ?_, h.allocator, ?_⟩
      · rw [AnyCalls.step, h.allocator, BitmapFrameAllocator.alloc, hloop]
        rfl
      · rw [Sets.step, findSome_lowest_of_lacks hlacks]
      · rw [List.map_cons, h.results]
        rfl
  | dealloc r hr =>
    have hsame : ∀ S, deallocLoop r (regions L t.used) = .ok (regions L S) →
        AnyCalls.step s (.dealloc r hr) = .ok { s with allocator := some ⟨addr, regions L S⟩ } := by
      intro S hloop
      rw [AnyCalls.step, h.allocator, BitmapFrameAllocator.dealloc, hloop]
      rfl
    cases hhome : home (L.map extent) r with
    | none =>
      left
      refine ⟨_, t, hsame t.used (deallocLoop_of_none hhome), ?_, rfl, h.results⟩
      rw [home] at hhome
      rw [Sets.step, hhome]
    | some x =>
      have hloop := deallocLoop_of_some (S := t.used) hL hhome hr
      rw [home] at hhome
      rw [Sets.step, hhome]
      dsimp only
      split at hloop
      · next hw =>
        left
        exact ⟨_, t, hsame t.used hloop, if_pos hw, rfl, h.results⟩
      · next hw =>
        rw [if_neg hw]
        split at hloop
        · next hle =>
          left
          exact ⟨_, { t with used := t.used \ (r.frames ∩ x.frames) }, hsame _ hloop, if_pos hle,
            rfl, h.results⟩
        · next hgt =>
          right
          refine ⟨.panic "index out of bounds", ?_, if_neg hgt⟩
          rw [AnyCalls.step, h.allocator, BitmapFrameAllocator.dealloc, hloop]
          rfl

lemma sum_free (hL : Apart L) (S : Finset ℕ) :
    (allFrames L \ S).card = ((L.map extent).map fun x => (x.frames \ S).card).sum := by
  induction L with
  | nil => simp [allFrames]
  | cons l L ih =>
    have hd : Disjoint (l.frames \ S) (allFrames L \ S) :=
      Finset.disjoint_of_subset_left Finset.sdiff_subset
        (Finset.disjoint_of_subset_right Finset.sdiff_subset hL.disjoint_allFrames)
    rw [allFrames, Finset.union_sdiff_distrib, Finset.card_union_of_disjoint hd, ih hL.of_cons]
    rfl

lemma Holds.agrees {hmap : MapOk map} {hhdm regionSize base : ℕ}
    (h : Holds (slotsAt hmap hhdm regionSize base) addr s t) : Agrees map s t := by
  have hL := slotsAt_apart hmap hhdm regionSize base
  refine ⟨⟨_, h.allocator, ?_, ?_⟩, ?_, h.results⟩
  · have hslots := congrArg (List.map fun p => (p.1, p.2 / 4096))
      (slotsAt_map hmap hhdm regionSize base)
    simpa [regions, Slot.region, view, Slot.size, Function.comp_def] using hslots
  · intro r hr i hi
    obtain ⟨l, -, rfl⟩ := List.mem_map.mp hr
    exact l.isSet_region hi
  · rw [h.allocator, ← map_extent hmap hhdm regionSize base, ← sum_free hL]
    exact sumFree_spec hL t.used

/-- **The allocator is a set of frames.** From `init` on, and whatever `alloc` and `dealloc` are called
with, the allocator does to its bytes what `Sets.step` does to the frames in use: it gives the
lowest frames in a row that are free in the first entry that has them, takes what is handed back out
of use however it came about (nothing, where the end of the range wraps around), and fails in the
same call, where there is no byte for a frame handed back. -/
theorem any_calls {mem : ℕ → UInt8} {hhdm regionSize : ℕ} {a : BitmapFrameAllocator}
    (hmap : MapOk map) (hinit : BitmapFrameAllocator.init none mem hhdm regionSize map = .ok a)
    (calls : List Call) :
    (∃ s t, run step ⟨a, []⟩ calls = .ok s ∧
        run (Sets.step (extents map)) ⟨metadata map regionSize, []⟩ calls = .ok t ∧
        Agrees map s t) ∨
      ∃ e, run step ⟨a, []⟩ calls = .error e ∧
        run (Sets.step (extents map)) ⟨metadata map regionSize, []⟩ calls = .error e := by
  obtain ⟨base, addr, htracks⟩ := tracks_of_init hmap hinit
  have hL := slotsAt_apart hmap hhdm regionSize base
  have h0 : Holds (slotsAt hmap hhdm regionSize base) addr ⟨a, []⟩ ⟨metadata map regionSize, []⟩ := by
    refine ⟨?_, rfl⟩
    have halloc := htracks.allocator
    rwa [Finset.union_empty] at halloc
  rw [← map_extent hmap hhdm regionSize base]
  rcases run_alongside (fun _ _ c h => h.step hL c) h0 calls with ⟨s, t, hs, ht, h⟩ | ⟨e, hs, ht⟩
  · exact .inl ⟨s, t, hs, ht, h.agrees⟩
  · exact .inr ⟨e, hs, ht⟩

/-- The `count` frames from frame `k` on, as far as addresses reach. -/
def rangeAt (k count : ℕ) : FrameRange := ⟨⟨k % 2 ^ 40 * 4096, by omega⟩, count, by simp⟩

lemma one_usize : 1 < 2 ^ 64 := by decide

lemma five_usize : 5 < 2 ^ 64 := by decide

lemma max_usize : 2 ^ 64 - 1 < 2 ^ 64 := by decide

/-- A frame handed back twice, memory that is not usable, a range that runs past its region, and one
whose end wraps around. -/
def carelessCalls : List Call :=
  [.alloc 3, .dealloc (rangeAt 3 1) one_usize, .dealloc (rangeAt 3 1) one_usize,
    .dealloc (rangeAt 32 5) five_usize, .dealloc (rangeAt 18 5) five_usize,
    .dealloc (rangeAt 2 (2 ^ 64 - 1)) max_usize, .alloc 2]

theorem any_calls_careless : ∃ a s t,
    BitmapFrameAllocator.init none (fun _ => 0xaa) 0 48 smallMap = .ok a ∧
      run step ⟨a, []⟩ carelessCalls = .ok s ∧
      run (Sets.step (extents smallMap)) ⟨metadata smallMap 48, []⟩ carelessCalls = .ok t ∧
      Agrees smallMap s t := by
  have hrun : (do
      let a ← BitmapFrameAllocator.init none (fun _ => 0xaa) 0 48 smallMap
      let s ← run step ⟨a, []⟩ carelessCalls
      Except.ok s.results.length) = (.ok 2 : Res ℕ) := by rfl
  obtain ⟨a, ha, hrun⟩ := bind_ok.mp hrun
  obtain ⟨s, hs, -⟩ := bind_ok.mp hrun
  rcases any_calls smallMap_ok ha carelessCalls with ⟨s', t, hs', ht, h⟩ | ⟨e, he, -⟩
  · exact ⟨a, s', t, ha, hs', ht, h⟩
  · cases he.symm.trans hs

end OsRust.AnyCalls
