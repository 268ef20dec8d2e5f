import OsRust.Bootstrap
import OsRust.Lib.Machine

/-!
Who owns which frame over a run of the allocator: every frame it hands out is owned until it is
handed back, in the pieces the owner likes.
-/

namespace OsRust.Ownership

open OsRust.Frames OsRust.Bitmap OsRust.Regions OsRust.Layout OsRust.Bootstrap OsRust.Lib.Machine

/-- The allocator, the frames handed out and not handed back, and all ranges ever handed out. -/
structure State where
  allocator : BitmapFrameAllocator
  owned : Finset ℕ
  results : List FrameRange

inductive Act
  | alloc (count : ℕ)
  | dealloc (frames : FrameRange)

/-- The range is a part of the other. -/
def SubRange (r r' : FrameRange) : Prop :=
  r'.start.val ≤ r.start.val ∧
    r.start.val + r.count * 4096 ≤ r'.start.val + r'.count * 4096

instance (r r' : FrameRange) : Decidable (SubRange r r') := inferInstanceAs (Decidable (_ ∧ _))

/-- A range may be handed back when it is a part of one that was handed out and all its frames are
still owned. -/
def step (s : State) : Act → Res State
  | .alloc count => do
    match ← s.allocator.alloc count with
    | (.ok r, a) => .ok ⟨a, s.owned ∪ r.frames, r :: s.results⟩
    | (.error _, a) => .ok { s with allocator := a }
  | .dealloc r => do
    guard ((∃ r' ∈ s.results, SubRange r r') ∧ r.frames ⊆ s.owned)
    let a ← s.allocator.dealloc r
    .ok { s with allocator := a, owned := s.owned \ r.frames }

/-- The bit of a frame is set exactly when the frame is in `S`; there is one region for each usable
entry of the map. -/
def BitsTell (map : List Entry) (a : BitmapFrameAllocator) (S : Finset ℕ) : Prop :=
  ∃ inner, a = some inner ∧
    inner.regions.map (fun r => (r.start.val, r.bitmap.size)) =
      (usable map).map (fun e => (e.base, e.length / 4096)) ∧
    ∀ r ∈ inner.regions, ∀ i < r.bitmap.size,
      r.bitmap.isSet i = .ok (decide (r.start.val / 4096 + i ∈ S))

variable {L : List Slot} {addr count : ℕ} {M : Finset ℕ} {s s' : State} {r : FrameRange}

/-- Where the slots are `L` and the frames of `M` are kept by the allocator: what its bytes are
follows from what is owned. -/
structure Tracks (L : List Slot) (addr : ℕ) (M : Finset ℕ) (s : State) : Prop where
  allocator : s.allocator = some ⟨addr, regions L (M ∪ s.owned)⟩
  disjoint : Disjoint M s.owned
  kept : M ⊆ allFrames L
  owned : s.owned ⊆ allFrames L
  results : ∀ r ∈ s.results, ∃ l ∈ L, l.base ≤ r.start.val ∧
    r.start.val + r.count * 4096 ≤ l.base + l.length

lemma Tracks.alloc (h : Tracks L addr M s) (hL : Apart L) (count : ℕ) :
    (∃ r, s.allocator.alloc count =
          .ok (.ok r, some ⟨addr, regions L (M ∪ s.owned ∪ r.frames)⟩) ∧
        Gives L (M ∪ s.owned) count r) ∨
      s.allocator.alloc count = .ok (.error .outOfMemory, s.allocator) := by
  rw [h.allocator]
  unfold BitmapFrameAllocator.alloc
  rcases allocLoop_spec hL (M ∪ s.owned) count with ⟨r, hloop, hg⟩ | ⟨hloop, -⟩
  · left
    refine ⟨r, ?_, hg⟩
    simp only [hloop, ok_bind]
  · right
    simp only [hloop, ok_bind]

lemma Tracks.dealloc (h : Tracks L addr M s) (hL : Apart L) (hr : ∃ r' ∈ s.results, SubRange r r')
    (hown : r.frames ⊆ s.owned) :
    s.allocator.dealloc r = .ok (some ⟨addr, regions L (M ∪ s.owned \ r.frames)⟩) := by
  obtain ⟨r', hr', hsub⟩ := hr
  obtain ⟨l, hl, hl₁, hl₂⟩ := h.results r' hr'
  have hwithin : Within L r := .inr ⟨l, hl, hl₁.trans hsub.1, hsub.2.trans hl₂⟩
  have hM : (M ∪ s.owned) \ r.frames = M ∪ s.owned \ r.frames := by
    have hd : Disjoint M r.frames := Finset.disjoint_of_subset_right hown h.disjoint
    rw [Finset.union_sdiff_distrib, Finset.sdiff_eq_self_of_disjoint hd]
  rw [h.allocator]
  unfold BitmapFrameAllocator.dealloc
  simp only [deallocLoop_spec hL hwithin, ok_bind, hM]

/-- Whatever is allowed succeeds, and leaves bytes that tell who owns what. -/
lemma Tracks.next (h : Tracks L addr M s) (hL : Apart L) {a : Act} (hs : step s a = .ok s') :
    Tracks L addr M s' := by
  cases a with
  | alloc count =>
    rcases h.alloc hL count with ⟨r, halloc, hg⟩ | halloc
    · simp only [step, halloc, ok_bind] at hs
      cases hs
      obtain ⟨l, hl, hgl⟩ := hg.slot
      have hfree : Disjoint r.frames (M ∪ s.owned) := hgl.free
      rw [Finset.disjoint_union_right] at hfree
      refine ⟨by rw [Finset.union_assoc], ?_, h.kept, ?_, ?_⟩
      · exact Finset.disjoint_union_right.mpr ⟨h.disjoint, hfree.1.symm⟩
      · exact Finset.union_subset h.owned hg.subset
      · intro r' hr'
        rcases List.mem_cons.mp hr' with rfl | hr'
        · exact ⟨l, hl, hgl.lower, by rw [hgl.count_eq]; exact hgl.upper⟩
        · exact h.results r' hr'
    · simp only [step, halloc, ok_bind] at hs
      cases hs
      exact h
  | dealloc r =>
    obtain ⟨_, hg, hs⟩ := bind_ok.mp hs
    obtain ⟨hr, hown⟩ := guard_ok.mp hg
    rw [h.dealloc hL hr hown, ok_bind] at hs
    cases hs
    refine ⟨rfl, ?_, h.kept, ?_, h.results⟩
    · exact Finset.disjoint_of_subset_right Finset.sdiff_subset h.disjoint
    · exact Finset.sdiff_subset.trans h.owned

lemma Tracks.no_panic (h : Tracks L addr M s) (hL : Apart L) {a : Act} {e : Stop}
    (hs : step s a = .error e) : e = .blocked := by
  cases a with
  | alloc count =>
    rcases h.alloc hL count with ⟨r, halloc, -⟩ | halloc
    · simp only [step, halloc, ok_bind] at hs
      cases hs
    · simp only [step, halloc, ok_bind] at hs
      cases hs
  | dealloc r =>
    simp only [step] at hs
    by_cases hg : (∃ r' ∈ s.results, SubRange r r') ∧ r.frames ⊆ s.owned
    · rw [OsRust.guard, if_pos hg, ok_bind, h.dealloc hL hg.1 hg.2, ok_bind] at hs
      cases hs
    · rw [OsRust.guard, if_neg hg] at hs
      cases hs
      rfl

variable {map : List Entry} {mem : ℕ → UInt8} {hhdm regionSize base : ℕ} {a : BitmapFrameAllocator}

lemma Tracks.bitsTell {hmap : MapOk map} (h : Tracks (slotsAt hmap hhdm regionSize base) addr M s) :
    BitsTell map s.allocator (M ∪ s.owned) := by
  refine ⟨_, h.allocator, ?_, ?_⟩
  · have hslots := congrArg (List.map fun p => (p.1, p.2 / 4096))
      (slotsAt_map hmap hhdm regionSize base)
    simpa [regions, Slot.region, view, Slot.size, Function.comp_def] using hslots
  · intro r hr i hi
    obtain ⟨l, -, rfl⟩ := List.mem_map.mp hr
    exact l.isSet_region hi

/-- Every frame is kept, owned or free. -/
lemma Tracks.freeFrames (h : Tracks L addr M s) (hL : Apart L) :
    M.card + s.owned.card ≤ s.allocator.totalFrames ∧
      s.allocator.freeFrames = .ok (s.allocator.totalFrames - M.card - s.owned.card) := by
  have htotal : s.allocator.totalFrames = (allFrames L).card := by
    rw [h.allocator]
    exact totalFrames_spec hL _
  have hsub : M ∪ s.owned ⊆ allFrames L := Finset.union_subset h.kept h.owned
  have hcard : (M ∪ s.owned).card = M.card + s.owned.card :=
    Finset.card_union_of_disjoint h.disjoint
  have hle := Finset.card_le_card hsub
  refine ⟨by omega, ?_⟩
  calc s.allocator.freeFrames = .ok (allFrames L \ (M ∪ s.owned)).card := by
        rw [h.allocator]
        exact sumFree_spec hL _
    _ = .ok (s.allocator.totalFrames - M.card - s.owned.card) := by
        rw [Finset.card_sdiff_of_subset hsub, htotal, hcard, Nat.sub_add_eq]

/-- `init` leaves what a run starts from. -/
lemma tracks_of_init (hmap : MapOk map)
    (hinit : BitmapFrameAllocator.init none mem hhdm regionSize map = .ok a) :
    ∃ base addr, Tracks (slotsAt hmap hhdm regionSize base) addr (metadata map regionSize)
      ⟨a, ∅, []⟩ := by
  rcases init_spec hmap mem hhdm regionSize with
    ⟨e, -, hok⟩ | ⟨-, herr⟩
  · rw [hok] at hinit
    cases hinit
    exact ⟨e.base, _, by rw [Finset.union_empty], Finset.disjoint_empty_right _,
      metadata_subset hmap _ _ _, Finset.empty_subset _, by simp⟩
  · rw [herr] at hinit
    cases hinit

/-- **Every frame has one owner.** In every state a run reaches from `init`, the bit of a frame is set
exactly when the allocator keeps the frame or somebody owns it; so what `alloc` returns lies in one
usable entry and is nobody else's, the free frames are the others, and the bytes are those of every
other run that leaves the same frames owned. -/
theorem frame_ownership (hmap : MapOk map)
    (hinit : BitmapFrameAllocator.init none mem hhdm regionSize map = .ok a) {as : List Act}
    (hr : run step ⟨a, ∅, []⟩ as = .ok s) :
    BitsTell map s.allocator (metadata map regionSize ∪ s.owned) ∧
      Disjoint (metadata map regionSize) s.owned ∧
      (∀ count r a', s.allocator.alloc count = .ok (.ok r, a') → r.count = count ∧
        (∃ e ∈ usable map, e.base ≤ r.start.val ∧
          r.start.val + count * 4096 ≤ e.base + e.length) ∧
        Disjoint r.frames (metadata map regionSize ∪ s.owned)) ∧
      ((metadata map regionSize).card + s.owned.card ≤ s.allocator.totalFrames ∧
        s.allocator.freeFrames =
          .ok (s.allocator.totalFrames - (metadata map regionSize).card - s.owned.card)) ∧
      (∀ as' s', run step ⟨a, ∅, []⟩ as' = .ok s' → s'.owned = s.owned →
        s'.allocator = s.allocator) ∧
      (s.owned = ∅ → s.allocator = a) ∧
      ∀ act e, step s act = .error e → e = .blocked := by
  obtain ⟨base, addr, h0⟩ := tracks_of_init hmap hinit
  have hL := slotsAt_apart hmap hhdm regionSize base
  have hrun : ∀ {as : List Act} {s : State}, run step ⟨a, ∅, []⟩ as = .ok s →
      Tracks (slotsAt hmap hhdm regionSize base) addr (metadata map regionSize) s :=
    fun hr => run_keeps (fun _ _ _ h hs => h.next hL hs) h0 hr
  have h := hrun hr
  have hsame : ∀ as' s', run step ⟨a, ∅, []⟩ as' = .ok s' → s'.owned = s.owned →
      s'.allocator = s.allocator := by
    intro as' s' hr' hown
    rw [(hrun hr').allocator, h.allocator, hown]
  refine ⟨h.bitsTell, h.disjoint, ?_, h.freeFrames hL, hsame, ?_, fun _ _ hs => h.no_panic hL hs⟩
  · intro count r a' halloc
    rcases h.alloc hL count with ⟨r', halloc', hg⟩ | halloc'
    · rw [halloc'] at halloc
      cases halloc
      obtain ⟨l, hl, hgl⟩ := hg.slot
      obtain ⟨e, he, hbase, hlength⟩ := mem_slotsAt hl
      refine ⟨hgl.count_eq, ⟨e, he, ?_, ?_⟩, hgl.free⟩
      · rw [hbase]
        exact hgl.lower
      · rw [hbase, hlength]
        exact hgl.upper
    · rw [halloc'] at halloc
      cases halloc
  · intro hown
    exact (hsame [] ⟨a, ∅, []⟩ rfl hown.symm).symm

/-- A map with two usable entries, of eight and of three frames. -/
def smallMap : List Entry :=
  [⟨0x0, 0x1000, .reserved⟩, ⟨0x1000, 0x8000, .usable⟩, ⟨0x10000, 0x3000, .usable⟩]

lemma smallMap_ok : MapOk smallMap where
  sound e he := by
    have : e ∈ [⟨0x1000, 0x8000, .usable⟩, ⟨0x10000, 0x3000, .usable⟩] := he
    simp only [List.mem_cons, List.not_mem_nil, or_false] at this
    rcases this with rfl | rfl <;> constructor <;> decide
  disjoint := by
    show List.Pairwise _ ([⟨0x1000, 0x8000, .usable⟩, ⟨0x10000, 0x3000, .usable⟩] : List Entry)
    simp only [List.pairwise_pair]
    omega

/-- Two allocations, and the second frame of the first handed back. -/
def allocTwice : List Act := [.alloc 2, .alloc 3, .dealloc ⟨⟨0x3000, by decide⟩, 1, by decide⟩]

theorem frame_ownership_small : ∃ a s,
    BitmapFrameAllocator.init none (fun _ => 0xaa) 0 48 smallMap = .ok a ∧
      run step ⟨a, ∅, []⟩ allocTwice = .ok s ∧ s.owned = {2, 4, 5, 6} ∧
      BitsTell smallMap s.allocator (metadata smallMap 48 ∪ s.owned) := by
  have hrun : (do
      let a ← BitmapFrameAllocator.init none (fun _ => 0xaa) 0 48 smallMap
      let s ← run step ⟨a, ∅, []⟩ allocTwice
      Except.ok (decide (s.owned = {2, 4, 5, 6}))) = (.ok true : Res Bool) := by decide
  obtain ⟨a, ha, hrun⟩ := bind_ok.mp hrun
  obtain ⟨s, hs, hown⟩ := bind_ok.mp hrun
  refine ⟨a, s, ha, hs, ?_, (frame_ownership smallMap_ok ha hs).1⟩
  simpa using hown

end OsRust.Ownership
