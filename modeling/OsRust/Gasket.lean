import OsRust.Basic
import OsRust.Lib.Bytes

/-!
The page through which `spawn` hands a closure to the thread it starts: what `spawn` writes to
it, and what `thread_trampoline` and `run_and_cleanup` read back.

A `*mut dyn ThreadGasket` is two words, the address of the closure and that of the vtable of
its type.
-/

namespace OsRust.Gasket

open OsRust.Lib.Bytes

/-- The address the frame of the closure is mapped at. -/
structure Page where
  addr : UInt64
  aligned : addr.toNat % 4096 = 0

/-- A value of a closure type `F`: its bytes, and the address of the vtable of `F` as
`ThreadGasket`. -/
structure Closure where
  bytes : List UInt8
  vtable : UInt64

/-- `size_of::<F>()`. -/
def Closure.size (f : Closure) : ℕ := f.bytes.length

/-- The vtables there are. Each leads to the `run_and_cleanup` of a closure type, of this
size. -/
abbrev VTables := UInt64 → Option ℕ

/-- `spawn` on the page the allocator handed out, up to the call of `spawn_raw`: the memory then,
and the argument `spawn_raw` gets. -/
def spawn (m : Mem) (p : Page) (f : Closure) : Res (Mem × UInt64) :=
  if f.size < 4096 - 64 then
    let fatPtrSlot := p.addr
    let closureSlot := p.addr + 64
    let m := m.write closureSlot.toNat f.bytes
    let m := m.write64 fatPtrSlot.toNat closureSlot
    let m := m.write64 (fatPtrSlot + 8).toNat f.vtable
    .ok (m, p.addr)
  else .error (.panic "assertion failed: core::mem::size_of::<F>() < 4096 - 64")

/-- `run_and_cleanup` of a closure type of the given size, as far as the call: the value moved out
of memory and called. -/
def runAndCleanup (size : ℕ) (m : Mem) (_self ptr : UInt64) : List UInt8 :=
  m.read ptr.toNat size

/-- The closure that `thread_trampoline` ends up calling. -/
def threadTrampoline (vt : VTables) (m : Mem) (arg : UInt64) : Res (List UInt8) :=
  let data := m.read64 arg.toNat
  let vtable := m.read64 (arg + 8).toNat
  match vt vtable with
  | none => .error .undef
  | some size => .ok (runAndCleanup size m data arg)

/-- The new thread, whenever it runs, calls the closure that was spawned. Until then the page is
left alone. -/
def RoundTrip (vt : VTables) (m : Mem) (p : Page) (f : Closure) : Prop :=
  ∀ m₁ arg m₂, spawn m p f = .ok (m₁, arg) → AgreeOn m₁ m₂ p.addr.toNat 4096 →
    threadTrampoline vt m₂ arg = .ok f.bytes

/-- What the page holds in front of the closure: the fat pointer, and what the frame held before
between that and the closure. -/
def header (m : Mem) (p : Page) (vtable : UInt64) : List UInt8 :=
  toLE 8 (p.addr + 64).toNat ++ toLE 8 vtable.toNat ++ m.read (p.addr.toNat + 16) 48

variable {vt : VTables} {m : Mem} {p : Page} {f : Closure}

/-- No address on the page wraps around. -/
lemma Page.toNat_add (p : Page) {k : ℕ} (h : k < 4096) :
    (p.addr + UInt64.ofNat k).toNat = p.addr.toNat + k := by
  have h₁ := p.aligned
  have h₂ := p.addr.toNat_lt
  have hk : (UInt64.ofNat k).toNat = k := by
    rw [UInt64.toNat_ofNat']
    omega
  rw [UInt64.toNat_add, hk]
  omega

/-- `spawn` leaves the fat pointer and the closure on the page. -/
lemma spawn_spec (h : f.size < 4096 - 64) :
    ∃ m₁, spawn m p f = .ok (m₁, p.addr) ∧
      m₁.read64 (p.addr + 8).toNat = f.vtable ∧
      m₁.read p.addr.toNat (64 + f.size) = header m p f.vtable ++ f.bytes := by
  have h64 : (p.addr + 64).toNat = p.addr.toNat + 64 := p.toNat_add (k := 64) (by decide)
  have h8 : (p.addr + 8).toNat = p.addr.toNat + 8 := p.toNat_add (k := 8) (by decide)
  refine ⟨_, by rw [spawn, if_pos h], read64_write64_self _, ?_⟩
  rw [h64, h8]
  unfold header
  rw [show 64 + f.size = 8 + 8 + 48 + f.size by omega, read_add, read_add, read_add]
  congr 1
  · congr 1
    · congr 1
      · rw [Mem.write64, read_write_of_disjoint (by simp), Mem.write64,
          read_write_self (length_toLE 8 _), h64]
      · exact read_write_self (length_toLE 8 _)
    · rw [Mem.write64, read_write_of_disjoint (by simp), Mem.write64,
        read_write_of_disjoint (by simp), read_write_of_disjoint (by simp)]
  · rw [Mem.write64, read_write_of_disjoint (by simp), Mem.write64,
      read_write_of_disjoint (by simp)]
    exact read_write_self rfl

/-- The trampoline reads the closure at its argument, the start of the page, where the header
is. -/
lemma threadTrampoline_spawned {m₁ m₂ : Mem} {arg : UInt64} (hvt : vt f.vtable = some f.size)
    (hs : spawn m p f = .ok (m₁, arg)) (hm : AgreeOn m₁ m₂ p.addr.toNat 4096) :
    threadTrampoline vt m₂ arg = .ok ((header m p f.vtable ++ f.bytes).take f.size) := by
  have hsize : f.size < 4096 - 64 := by
    by_contra hge
    rw [spawn, if_neg hge] at hs
    cases hs
  obtain ⟨m₁', hs', hvtable, hread⟩ := spawn_spec (m := m) (p := p) hsize
  rw [hs] at hs'
  cases hs'
  have h8 : (p.addr + 8).toNat = p.addr.toNat + 8 := p.toNat_add (k := 8) (by decide)
  have hv : m₂.read64 (p.addr + 8).toNat = f.vtable := by
    rw [← hvtable]
    exact read64_congr (hm.mono (by omega) (by omega))
  have hbytes : m₂.read p.addr.toNat f.size = m₁.read p.addr.toNat f.size :=
    read_congr (hm.mono (by omega) (by omega))
  unfold threadTrampoline
  simp only [hv, hvt]
  rw [runAndCleanup, hbytes, ← hread, take_read (by omega)]

lemma roundTrip_iff_take (hvt : vt f.vtable = some f.size) (hsize : f.size < 4096 - 64) :
    RoundTrip vt m p f ↔ (header m p f.vtable ++ f.bytes).take f.size = f.bytes := by
  constructor
  · intro h
    obtain ⟨m₁, hs, -, -⟩ := spawn_spec (m := m) (p := p) hsize
    have hag : AgreeOn m₁ m₁ p.addr.toNat 4096 := fun _ _ _ => rfl
    have hcall := h m₁ _ m₁ hs hag
    rw [threadTrampoline_spawned hvt hs hag] at hcall
    exact Except.ok.inj hcall
  · intro h m₁ arg m₂ hs hm
    rw [threadTrampoline_spawned hvt hs hm, h]

/-- **When a spawned closure is the one called.** It is if and only if its own bytes are those in
front of it on the page, as far as they go. -/
theorem roundTrip_iff (hvt : vt f.vtable = some f.size) (hsize : f.size < 4096 - 64) :
    RoundTrip vt m p f ↔ f.bytes <+: header m p f.vtable ++ f.bytes := by
  rw [roundTrip_iff_take hvt hsize, List.prefix_iff_eq_take]
  exact eq_comm

/-- Memory full of zeros. -/
def zeros : Mem := fun _ => 0

def page : Page := ⟨0x1000, by decide⟩

/-- A closure that captures one byte. -/
def capturing (b : UInt8) : Closure := ⟨[b], 0x2000⟩

theorem roundTrip_capturing_0x40 : RoundTrip (fun _ => some 1) zeros page (capturing 0x40) :=
  (roundTrip_iff rfl (by decide)).mpr (by decide)

/-- A closure that captures the byte `0xff` is called with `0x40` in its place. -/
theorem roundTrip_fails :
    ∃ (vt : VTables) (m : Mem) (p : Page) (f : Closure), vt f.vtable = some f.size ∧
      f.size < 4096 - 64 ∧ ¬ RoundTrip vt m p f := by
  refine ⟨fun _ => some 1, zeros, page, capturing 0xff, rfl, by decide, fun h => ?_⟩
  have hcall := h _ _ _ rfl fun _ _ _ => rfl
  have hread : runAndCleanup 1 ((zeros.write 0x1040 [0xff]).write64 0x1000 0x1040 |>.write64
      0x1008 0x2000) 0x1040 0x1000 = [0x40] := by decide
  exact absurd (hread.symm.trans (Except.ok.inj hcall)) (by decide)

/-- The page begins with the low byte of the address of the closure, so a closure that captures
anything survives only if that byte is its first. -/
lemma head_of_roundTrip {b : UInt8} {bs : List UInt8} (hvt : vt f.vtable = some f.size)
    (hsize : f.size < 4096 - 64) (hf : f.bytes = b :: bs) (h : RoundTrip vt m p f) : b = 0x40 := by
  have htake := (roundTrip_iff_take hvt hsize).mp h
  have h64 : (p.addr + 64).toNat = p.addr.toNat + 64 := p.toNat_add (k := 64) (by decide)
  have hfirst : UInt8.ofNat (p.addr + 64).toNat = b := by
    rw [Closure.size, hf] at htake
    exact (List.cons.inj htake).1
  rw [← hfirst, h64]
  apply UInt8.toNat_inj.mp
  have := p.aligned
  rw [UInt8.toNat_ofNat']
  show _ = 64
  omega

end OsRust.Gasket
