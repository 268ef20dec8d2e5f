import OsRust.Frames
import Mathlib.Data.List.Basic

/-!
`map_page`: four levels of page tables, whose memory is seen through the higher half, where
all of physical memory is mapped.
-/

namespace OsRust.Vmm

open OsRust.Frames

/-! ### Entries, as the `x86_64` crate documents them -/

def PRESENT : UInt64 := 1

def WRITABLE : UInt64 := 2

def HUGE_PAGE : UInt64 := 0x80

/-- The bits of an entry that hold the address. -/
def addrMask : UInt64 := 0x000ffffffffff000

lemma addrMask_lt (e : UInt64) : (e &&& addrMask).toNat < 2 ^ 52 := by
  rw [UInt64.toNat_and]
  exact Nat.lt_of_le_of_lt Nat.and_le_right (by decide)

def entryAddr (e : UInt64) : PhysAddr := ⟨(e &&& addrMask).toNat, addrMask_lt e⟩

/-- `flags()`: all bits that are not part of the address. -/
def entryFlags (e : UInt64) : UInt64 := e &&& ~~~ addrMask

def contains (flags flag : UInt64) : Bool := flags &&& flag == flag

/-- What `PageTableEntry::set_addr` of the `x86_64` crate leaves in the entry; it is documented to
panic at an address that is not aligned to a page. -/
def setAddr (addr : PhysAddr) (flags : UInt64) : Res UInt64 :=
  if addr.val % 4096 = 0 then .ok (UInt64.ofNat addr.val ||| flags)
  else .error (.panic "assertion failed: addr.is_aligned(Size4KiB::SIZE)")

/-! ### Tables -/

/-- The entries of the tables in memory, by the address of the table. -/
abbrev TableMem := PhysAddr → Fin 512 → UInt64

/-- `cr3`, the memory, and the frames `alloc_frame` will hand out. -/
structure Vm where
  cr3 : PhysAddr
  mem : TableMem
  supply : List Frame

/-- `(virt >> shift) & 0o777`. -/
def index (virt shift : UInt64) : Fin 512 :=
  ⟨((virt >>> shift) &&& 0o777).toNat, by
    rw [UInt64.toNat_and]
    exact Nat.lt_of_le_of_lt Nat.and_le_right (by decide)⟩

def outOfMemory : Stop := .panic "called `Result::unwrap()` on an `Err` value: OutOfMemory"

/-- `alloc_frame().unwrap()`. -/
def allocFrame (s : Vm) : Res (Frame × Vm) :=
  match s.supply with
  | [] => .error outOfMemory
  | f :: fs => .ok (f, { s with supply := fs })

def writeEntry (s : Vm) (table : PhysAddr) (i : Fin 512) (e : UInt64) : Vm :=
  { s with mem := Function.update s.mem table (Function.update (s.mem table) i e) }

/-- If the entry is not present, a new table is put there. -/
def ensureTable (s : Vm) (table : PhysAddr) (i : Fin 512) : Res Vm :=
  if !contains (entryFlags (s.mem table i)) PRESENT then do
    let (newPage, s) ← allocFrame s
    let e ← setAddr newPage.addr (PRESENT ||| WRITABLE)
    .ok (writeEntry s table i e)
  else .ok s

def mapPage (s : Vm) (phys virt : UInt64) : Res Vm := do
  let pml4 := s.cr3
  let pml4Index := index virt 39
  let pdpt := entryAddr (s.mem pml4 pml4Index)
  let pdptIndex := index virt 30
  let s ← ensureTable s pdpt pdptIndex
  let pd := entryAddr (s.mem pdpt pdptIndex)
  let pdIndex := index virt 21
  let s ← ensureTable s pd pdIndex
  let pt := entryAddr (s.mem pd pdIndex)
  let ptIndex := index virt 12
  let addr ← PhysAddr.new phys.toNat
  let e ← setAddr addr (PRESENT ||| WRITABLE)
  .ok (writeEntry s pt ptIndex e)

end OsRust.Vmm
