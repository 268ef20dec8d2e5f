import OsRust.Frames
import Mathlib.Algebra.GroupWithZero.Nat
import Mathlib.Data.List.Basic

/-!
The bitmap frame allocator: one bit for each frame of a usable entry of the memory map, set
when the frame is used.

The slice of a bitmap carries the address it lies at next to its bytes. The lock around the
allocator is not part of this model: each call is one critical section.
-/

namespace OsRust.Bitmap

open OsRust.Frames

structure BitmapView where
  /-- In bits. -/
  size : ℕ
  addr : ℕ
  data : List UInt8
  deriving DecidableEq

def bit (index : ℕ) : UInt8 := 1 <<< UInt8.ofNat (index % 8)

/-- `data[index]`, with the bounds check. -/
def BitmapView.byte (v : BitmapView) (index : ℕ) : Res UInt8 :=
  expect "index out of bounds" <| match v.data[index]? with
    | none => .error ()
    | some b => .ok b

def BitmapView.set (v : BitmapView) (index : ℕ) : Res BitmapView := do
  let b ← v.byte (index / 8)
  .ok { v with data := v.data.set (index / 8) (b ||| bit index) }

def BitmapView.clear (v : BitmapView) (index : ℕ) : Res BitmapView := do
  let b ← v.byte (index / 8)
  .ok { v with data := v.data.set (index / 8) (b &&& ~~~ bit index) }

def BitmapView.isSet (v : BitmapView) (index : ℕ) : Res Bool := do
  let b ← v.byte (index / 8)
  .ok (b &&& bit index != 0)

structure MemoryRegion where
  start : PhysAddr
  stop : PhysAddr
  bitmap : BitmapView
  deriving DecidableEq

def MemoryRegion.new (start length addr : ℕ) (data : List UInt8) : Res MemoryRegion := do
  let count := length / 4096
  let s ← PhysAddr.new start
  let e ← PhysAddr.new (start + length)
  .ok ⟨s, e, ⟨count, addr, data⟩⟩

/-- `a + b` on `usize`, which wraps in the release build. -/
def usizeAdd (a b : ℕ) : ℕ := (a + b) % 2 ^ 64

lemma usizeAdd_of_lt {a b : ℕ} (h : a + b < 2 ^ 64) : usizeAdd a b = a + b := Nat.mod_eq_of_lt h

lemma usizeAdd_of_le {a b : ℕ} (h : 2 ^ 64 ≤ a + b) (hb : b < 2 ^ 64) : usizeAdd a b - a = 0 := by
  unfold usizeAdd
  omega

/-- A loop over `count` bits from bit `start` on. -/
def forRange (f : BitmapView → ℕ → Res BitmapView) : ℕ → ℕ → BitmapView → Res BitmapView
  | _, 0, v => .ok v
  | start, count + 1, v => do
    let v ← f v start
    forRange f (start + 1) count v

/-- The scan of `MemoryRegion::alloc` with `n` bits to go, from bit `i` on: where the first
`count` free bits in a row start. -/
def scan (v : BitmapView) (count : ℕ) : ℕ → ℕ → ℕ → ℕ → Res (Option ℕ)
  | 0, _, _, _ => .ok none
  | n + 1, i, consecutiveFree, startIndex => do
    if !(← v.isSet i) then
      let startIndex := if consecutiveFree = 0 then i else startIndex
      let consecutiveFree := consecutiveFree + 1
      if consecutiveFree = count then .ok (some startIndex)
      else scan v count n (i + 1) consecutiveFree startIndex
    else scan v count n (i + 1) 0 startIndex

def MemoryRegion.alloc (r : MemoryRegion) (count : ℕ) : Res (Option (FrameRange × MemoryRegion)) := do
  match ← scan r.bitmap count r.bitmap.size 0 0 0 with
  | none => .ok none
  | some startIndex =>
    let v ← forRange BitmapView.set startIndex count r.bitmap
    let addr ← r.start.add (startIndex * 4096)
    let frames ← FrameRange.new addr count
    .ok (some (frames, { r with bitmap := v }))

def MemoryRegion.dealloc (r : MemoryRegion) (frames : FrameRange) : Res MemoryRegion := do
  let offset := frames.start.val - r.start.val
  let startIndex := offset / 4096
  let v ← forRange BitmapView.clear startIndex
    (usizeAdd startIndex frames.count - startIndex) r.bitmap
  .ok { r with bitmap := v }

def MemoryRegion.reserve (r : MemoryRegion) (frames : FrameRange) : Res MemoryRegion := do
  let offset := frames.start.val - r.start.val
  let startIndex := offset / 4096
  let v ← forRange BitmapView.set startIndex
    (usizeAdd startIndex frames.count - startIndex) r.bitmap
  .ok { r with bitmap := v }

def MemoryRegion.contains (r : MemoryRegion) (addr : PhysAddr) : Bool :=
  addr.val ≥ r.start.val && addr.val < r.stop.val

def MemoryRegion.totalFrames (r : MemoryRegion) : ℕ := r.bitmap.size

/-- The loop of `free_frames` with `k` bits to go, from bit `i` on. -/
def countFree (v : BitmapView) : ℕ → ℕ → ℕ → Res ℕ
  | 0, _, n => .ok n
  | k + 1, i, n => do
    let n := if !(← v.isSet i) then n + 1 else n
    countFree v k (i + 1) n

def MemoryRegion.freeFrames (r : MemoryRegion) : Res ℕ := countFree r.bitmap r.bitmap.size 0 0

/-- The slice of regions, and the address it lies at. -/
structure Inner where
  addr : ℕ
  regions : List MemoryRegion
  deriving DecidableEq

/-! ### The allocator -/

abbrev BitmapFrameAllocator := Option Inner

/-- The loop of `alloc`: the first region that has `count` frames in a row gives them. -/
def allocLoop (count : ℕ) : List MemoryRegion → Res (Option FrameRange × List MemoryRegion)
  | [] => .ok (none, [])
  | r :: rs => do
    match ← r.alloc count with
    | some (frames, r) => .ok (some frames, r :: rs)
    | none =>
      let (frames, rs) ← allocLoop count rs
      .ok (frames, r :: rs)

def BitmapFrameAllocator.alloc (a : BitmapFrameAllocator) (count : ℕ) :
    Res (Except FrameAllocError FrameRange × BitmapFrameAllocator) :=
  match a with
  | none => .ok (.error .notInitialized, none)
  | some inner => do
    match ← allocLoop count inner.regions with
    | (some frames, rs) => .ok (.ok frames, some { inner with regions := rs })
    | (none, rs) => .ok (.error .outOfMemory, some { inner with regions := rs })

/-- `alloc_one`. -/
def BitmapFrameAllocator.allocOne (a : BitmapFrameAllocator) :
    Res (Except FrameAllocError Frame × BitmapFrameAllocator) := do
  match ← a.alloc 1 with
  | (.ok r, a) =>
    let f ← Frame.new r.start
    .ok (.ok f, a)
  | (.error e, a) => .ok (.error e, a)

/-- The loop of `dealloc`: the first region that contains the start gets the frames back. -/
def deallocLoop (frames : FrameRange) : List MemoryRegion → Res (List MemoryRegion)
  | [] => .ok []
  | r :: rs => do
    if r.contains frames.start then
      let r ← r.dealloc frames
      .ok (r :: rs)
    else
      let rs ← deallocLoop frames rs
      .ok (r :: rs)

def BitmapFrameAllocator.dealloc (a : BitmapFrameAllocator) (frames : FrameRange) :
    Res BitmapFrameAllocator :=
  match a with
  | none => .ok none
  | some inner => do
    let rs ← deallocLoop frames inner.regions
    .ok (some { inner with regions := rs })

def BitmapFrameAllocator.totalFrames (a : BitmapFrameAllocator) : ℕ :=
  match a with
  | none => 0
  | some inner => (inner.regions.map MemoryRegion.totalFrames).sum

/-- The sum over the regions in `free_frames`. -/
def sumFree : List MemoryRegion → Res ℕ
  | [] => .ok 0
  | r :: rs => do
    let n ← r.freeFrames
    let m ← sumFree rs
    .ok (n + m)

def BitmapFrameAllocator.freeFrames (a : BitmapFrameAllocator) : Res ℕ :=
  match a with
  | none => .ok 0
  | some inner => sumFree inner.regions

/-! ### `init` -/

inductive EntryType
  | usable
  | reserved
  | acpiReclaimable
  | acpiNvs
  | badMemory
  | bootloaderReclaimable
  | executableAndModules
  | framebuffer
  deriving DecidableEq

/-- An entry of the memory map. -/
structure Entry where
  base : ℕ
  length : ℕ
  entryType : EntryType
  deriving DecidableEq

/-- `n.div_ceil(d)`. -/
def divCeil (n d : ℕ) : ℕ := n / d + if n % d = 0 then 0 else 1

/-- The bytes of the bitmap of an entry. -/
def bitmapBytes (e : Entry) : ℕ := divCeil (e.length / 4096) 8

/-- The first loop over the map: the bytes of all the bitmaps, and the number of regions. -/
def measureLoop : List Entry → ℕ → ℕ → ℕ × ℕ
  | [], initialSize, numRegions => (initialSize, numRegions)
  | e :: es, initialSize, numRegions =>
    if e.entryType = .usable then measureLoop es (initialSize + bitmapBytes e) (numRegions + 1)
    else measureLoop es initialSize numRegions

/-- The loop that writes the regions, `size` bytes each, one behind the other and points each at
its part of the bitmap bytes. `mem` is what memory holds. -/
def writeRegions (mem : ℕ → UInt8) : List Entry → ℕ → Res (List MemoryRegion)
  | [], _ => .ok []
  | e :: es, bitmapAddr =>
    if e.entryType = .usable then do
      let n := bitmapBytes e
      let r ← MemoryRegion.new e.base e.length bitmapAddr
        ((List.range n).map fun i => mem (bitmapAddr + i))
      let rs ← writeRegions mem es (bitmapAddr + n)
      .ok (r :: rs)
    else writeRegions mem es bitmapAddr

/-- `region.bitmap.data.fill(0)`. -/
def MemoryRegion.fill (r : MemoryRegion) : MemoryRegion :=
  { r with bitmap := { r.bitmap with data := List.replicate r.bitmap.data.length 0 } }

/-- `region_slice[ri].reserve(frames)`. -/
def reserveAt (frames : FrameRange) : List MemoryRegion → ℕ → Res (List MemoryRegion)
  | [], _ => .error (.panic "index out of bounds")
  | r :: rs, 0 => do
    let r ← r.reserve frames
    .ok (r :: rs)
  | r :: rs, ri + 1 => do
    let rs ← reserveAt frames rs ri
    .ok (r :: rs)

/-- What `init` does once it has found the entry at `base` to host the metadata. -/
def install (a : BitmapFrameAllocator) (mem : ℕ → UInt8) (hhdm regionSize : ℕ) (map : List Entry)
    (numRegions framesNeeded base ri : ℕ) : Res BitmapFrameAllocator := do
  let regionStart := base + hhdm
  let rs ← writeRegions mem map (regionStart + numRegions * regionSize)
  let rs := rs.map MemoryRegion.fill
  let start ← PhysAddr.new base
  let frames ← FrameRange.new start framesNeeded
  let rs ← reserveAt frames rs ri
  if a.isSome then .error (.panic "BitmapFrameAllocator already initialized")
  else .ok (some ⟨regionStart, rs⟩)

/-- The search for the first usable entry that is big enough. -/
def searchLoop (initialSize : ℕ) (k : ℕ → ℕ → Res BitmapFrameAllocator) :
    List Entry → ℕ → Res BitmapFrameAllocator
  | [], _ => .error (.panic "didn't find space for frame allocator data")
  | e :: es, ri =>
    if e.entryType = .usable then
      if e.length ≥ initialSize then k e.base ri
      else searchLoop initialSize k es (ri + 1)
    else searchLoop initialSize k es ri

/-- `init` on the memory map, where the higher half starts at `hhdm` and `regionSize` is
`size_of::<MemoryRegion>()`. -/
def BitmapFrameAllocator.init (a : BitmapFrameAllocator) (mem : ℕ → UInt8) (hhdm regionSize : ℕ)
    (map : List Entry) : Res BitmapFrameAllocator :=
  let (bytes, numRegions) := measureLoop map 0 0
  let initialSize := bytes + numRegions * regionSize
  let framesNeeded := divCeil initialSize 4096
  searchLoop initialSize (install a mem hhdm regionSize map numRegions framesNeeded) map 0

end OsRust.Bitmap
