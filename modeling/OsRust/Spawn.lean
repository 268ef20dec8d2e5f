import OsRust.FirstFit
import OsRust.Gasket
import OsRust.Registers
import OsRust.Ring

/-!
`Thread::spawn` from its first line to its last, on everything it reads and writes, and what it
leaves behind when the table has no room for the thread.
-/

namespace OsRust.Spawn

open OsRust.Frames OsRust.Bitmap OsRust.FirstFit OsRust.Task OsRust.Ring OsRust.Registers
open OsRust.Gasket (Page Closure)
open OsRust.Lib.Bytes

/-- The statics, memory, and the ready queues. The bootloader maps physical memory from a page
boundary on. -/
structure System (Cpu : Type*) where
  allocator : BitmapFrameAllocator
  hhdmOffset : UInt64
  aligned : hhdmOffset.toNat % 4096 = 0
  mem : Mem
  threadIdCounter : UInt64
  threads : Threads Cpu
  readyQueue : Cpu → Queue (ThreadAddr Cpu)

variable {Cpu : Type} [DecidableEq Cpu]

/-- The top bits of a virtual address are the sign extension of the lower 48. -/
def Canonical (v : UInt64) : Prop := v < 0x800000000000 ∨ 0xffff800000000000 ≤ v

instance (v : UInt64) : Decidable (Canonical v) := inferInstanceAs (Decidable (_ ∨ _))

/-- `phys_to_virt`. The check stands for `VirtAddr::new` of the `x86_64` crate, which is documented
to panic at an address that is not canonical. -/
def physToVirt (hhdmOffset : UInt64) (addr : PhysAddr) : Res UInt64 :=
  let v := UInt64.ofNat addr.val + hhdmOffset
  if Canonical v then .ok v
  else .error (.panic "virtual address must be sign extended in bits 48 to 64")

lemma physToVirt_ok {hhdmOffset v : UInt64} {addr : PhysAddr}
    (h : physToVirt hhdmOffset addr = .ok v) : v = UInt64.ofNat addr.val + hhdmOffset := by
  unfold physToVirt at h
  dsimp only at h
  split at h
  · cases h
    rfl
  · cases h

omit [DecidableEq Cpu] in
lemma physToVirt_aligned {s : System Cpu} {addr : PhysAddr} {v : UInt64}
    (h : physToVirt s.hhdmOffset addr = .ok v) (ha : addr.val % 4096 = 0) :
    v.toNat % 4096 = 0 := by
  have hs := s.aligned
  have hlt := addr.lt
  rw [physToVirt_ok h, UInt64.toNat_add, UInt64.toNat_ofNat']
  omega

/-- The page of a frame, where `spawn` writes the closure. -/
def pageOf (s : System Cpu) (f : Frame) : Res Page :=
  match h : physToVirt s.hhdmOffset f.addr with
  | .ok v => .ok ⟨v, physToVirt_aligned h f.aligned⟩
  | .error e => .error e

/-- `Stack::new`, and the frames the stack is on. -/
def newStack (hhdmOffset : UInt64) (numPages : ℕ) (a : BitmapFrameAllocator) :
    Res (Stack × FrameRange × BitmapFrameAllocator) := do
  let (frames, a) ← a.alloc numPages
  let frames ← expect "Out of memory" frames
  let base ← physToVirt hhdmOffset frames.start
  .ok (Stack.new base numPages, frames, a)

def ready (s : System Cpu) (c : Cpu) (a : ThreadAddr Cpu) : Res (System Cpu) := do
  let th ← s.threads.write a (Thread.markReady c)
  let q ← expect "Ready queue is full" (← (s.readyQueue c).push a)
  .ok { s with threads := th, readyQueue := Function.update s.readyQueue c q }

/-- `spawn_raw` on CPU `c`. -/
def spawnRaw (s : System Cpu) (c : Cpu) (entry arg : UInt64) :
    Res (Option UInt64 × System Cpu) := do
  let id := s.threadIdCounter
  let (stack, _, a) ← newStack s.hhdmOffset 4 s.allocator
  let s := { s with threadIdCounter := id + 1, allocator := a }
  let mem ← spawnFrame s.mem stack entry arg
  let (table, added) := s.threads.table.addThread (newThread id stack)
  let s := { s with mem := mem, threads := { s.threads with table := table } }
  if added = false then .ok (none, s)
  else
    let i ← unwrap (s.threads.table.getThreadMut id)
    let s ← ready s c (.slot i)
    .ok (some id, s)

/-- `spawn` on CPU `c`, where `trampoline` is the address of `thread_trampoline`. -/
def spawn (trampoline : UInt64) (s : System Cpu) (c : Cpu) (f : Closure) :
    Res (Option UInt64 × System Cpu) := do
  if f.size < 4096 - 64 then
    let (frame, a) ← s.allocator.allocOne
    let frame ← expect "Out of memory" frame
    let page ← pageOf s frame
    let (mem, arg) ← Gasket.spawn s.mem page f
    spawnRaw { s with allocator := a, mem := mem } c trampoline arg
  else .error (.panic "assertion failed: core::mem::size_of::<F>() < 4096 - 64")

/-- What the failed call must not have touched. -/
structure Same (s s' : System Cpu) : Prop where
  allocator : s'.allocator = s.allocator
  table : s'.threads.table = s.threads.table
  readyQueue : s'.readyQueue = s.readyQueue

/-- There are a frame for the closure and then four in a row for the stack, all of them in the
direct map. -/
def Enough (s : System Cpu) : Prop :=
  ∃ frame a page frames a' base, s.allocator.allocOne = .ok (.ok frame, a) ∧
    pageOf s frame = .ok page ∧ a.alloc 4 = .ok (.ok frames, a') ∧
    physToVirt s.hhdmOffset frames.start = .ok base

/-- The allocator is one that `init` has set up. -/
def Initialised (s : System Cpu) : Prop :=
  ∃ inner, s.allocator = some inner ∧ ∀ r ∈ inner.regions, FirstFit.Initialised r

variable {trampoline : UInt64} {s s' : System Cpu} {c : Cpu} {f : Closure}

/-- What a call that returns `None` has done: both allocations, and nothing to the table, which is
full, or to a queue. -/
lemma spawn_none (h : spawn trampoline s c f = .ok (none, s')) :
    (∀ i < 256, s.threads.table.get? i ≠ none) ∧ s'.threads.table = s.threads.table ∧
      s'.readyQueue = s.readyQueue ∧
      ∃ frame a frames, s.allocator.allocOne = .ok (.ok frame, a) ∧
        a.alloc 4 = .ok (.ok frames, s'.allocator) := by
  unfold spawn at h
  split at h
  · obtain ⟨⟨x, a⟩, hone, h₁⟩ := bind_ok.mp h
    obtain ⟨frame, hframe, h₂⟩ := bind_ok.mp h₁
    obtain ⟨page, -, h₃⟩ := bind_ok.mp h₂
    obtain ⟨⟨mem, arg⟩, -, h₄⟩ := bind_ok.mp h₃
    obtain ⟨⟨stack, range, a₁⟩, hstack, h₅⟩ := bind_ok.mp h₄
    obtain ⟨⟨y, a'⟩, hfour, hstack⟩ := bind_ok.mp hstack
    obtain ⟨frames, hframes, hstack⟩ := bind_ok.mp hstack
    obtain ⟨base, -, hstack⟩ := bind_ok.mp hstack
    cases hstack
    obtain ⟨mem', -, h₆⟩ := bind_ok.mp h₅
    rw [expect_ok] at hframe hframes
    rw [hframe] at hone
    rw [hframes] at hfour
    rcases addThread_cases s.threads.table (newThread s.threadIdCounter (Stack.new base 4)) with
      ⟨i, table, hadd, -⟩ | ⟨hfull, hadd⟩
    · -- a thread that is in the table is found and made ready
      dsimp only at h₆
      rw [hadd] at h₆
      obtain ⟨j, -, h₇⟩ := bind_ok.mp h₆
      obtain ⟨s₂, -, h₈⟩ := bind_ok.mp h₇
      cases h₈
    · dsimp only at h₆
      rw [hadd] at h₆
      cases h₆
      exact ⟨hfull, rfl, rfl, frame, a, _, hone, hfour⟩
  · cases h

lemma allocOne_ok {a b : BitmapFrameAllocator} {frame : Frame}
    (h : a.allocOne = .ok (.ok frame, b)) : ∃ frames, a.alloc 1 = .ok (.ok frames, b) := by
  obtain ⟨⟨x, b'⟩, halloc, h₁⟩ := bind_ok.mp h
  cases x with
  | error e => cases h₁
  | ok frames =>
    obtain ⟨frame', -, h₂⟩ := bind_ok.mp h₁
    cases h₂
    exact ⟨frames, halloc⟩

/-- **A failed spawn leaves the table and the queues as they were and takes five frames with
it.** -/
theorem failed_spawn (hinit : Initialised s) (h : spawn trampoline s c f = .ok (none, s')) :
    s'.threads.table = s.threads.table ∧ s'.readyQueue = s.readyQueue ∧
      ∃ n, s.allocator.freeFrames = .ok (n + 5) ∧ s'.allocator.freeFrames = .ok n := by
  obtain ⟨-, htable, hqueue, frame, a, frames, hone, hfour⟩ := spawn_none h
  refine ⟨htable, hqueue, ?_⟩
  obtain ⟨inner, hinner, hregions⟩ := hinit
  rw [hinner] at hone ⊢
  obtain ⟨frames', hone⟩ := allocOne_ok hone
  obtain ⟨inner', n₁, rfl, hregions', hbefore, hbetween⟩ := alloc_freeFrames hregions hone
  obtain ⟨inner'', n, -, -, hbetween', hafter⟩ := alloc_freeFrames hregions' hfour
  have hn : n₁ = n + 4 := Except.ok.inj (hbetween.symm.trans hbetween')
  subst hn
  exact ⟨n, hbefore, hafter⟩

lemma top_aligned {base : UInt64} (h : base.toNat % 4096 = 0) :
    (Stack.new base 4).getTopAddress &&& 0xf = 0 := by
  have htop : (Stack.new base 4).getTopAddress.toNat % 16 = 0 := by
    have hsize : (UInt64.ofNat (4 * 4096)).toNat = 16384 := rfl
    change (base + UInt64.ofNat (4 * 4096)).toNat % 16 = 0
    rw [UInt64.toNat_add, hsize]
    omega
  refine UInt64.toNat_inj.mp ?_
  rw [UInt64.toNat_and]
  exact (Nat.and_two_pow_sub_one_eq_mod _ 4).trans htop

/-- With enough memory a spawn into a full table fails. -/
lemma spawn_full (trampoline : UInt64) (c : Cpu) (hf : f.size < 4096 - 64) (henough : Enough s)
    (hfull : ∀ i < 256, s.threads.table.get? i ≠ none) :
    ∃ s', spawn trampoline s c f = .ok (none, s') := by
  obtain ⟨frame, a, page, frames, a', base, hone, hpage, hfour, hbase⟩ := henough
  obtain ⟨m, hm, -⟩ := Gasket.spawn_spec (m := s.mem) (p := page) hf
  have halign := physToVirt_aligned hbase frames.aligned
  obtain ⟨m', hframe⟩ : ∃ m', spawnFrame m (Stack.new base 4) trampoline page.addr = .ok m' :=
    ⟨_, spawnFrame_ok.mpr ⟨top_aligned halign, rfl⟩⟩
  have hadd : s.threads.table.addThread (newThread s.threadIdCounter (Stack.new base 4)) =
      (s.threads.table, false) := by
    rcases addThread_cases s.threads.table (newThread s.threadIdCounter (Stack.new base 4)) with
      ⟨i, table, -, hi, hnone, -⟩ | ⟨-, hadd⟩
    · exact absurd hnone (hfull i hi)
    · exact hadd
  refine ⟨{ s with allocator := a', mem := m', threadIdCounter := s.threadIdCounter + 1 }, ?_⟩
  rw [spawn, if_pos hf]
  refine bind_ok.mpr ⟨_, hone, bind_ok.mpr ⟨frame, rfl, bind_ok.mpr ⟨page, hpage,
    bind_ok.mpr ⟨_, hm, ?_⟩⟩⟩⟩
  refine bind_ok.mpr ⟨(Stack.new base 4, frames, a'), bind_ok.mpr ⟨_, hfour, bind_ok.mpr ⟨frames, rfl,
    bind_ok.mpr ⟨base, hbase, rfl⟩⟩⟩, bind_ok.mpr ⟨m', hframe, ?_⟩⟩
  dsimp only
  rw [hadd]
  rfl

/-- **When a failed spawn leaves no trace**: when it does not fail, because the table has room. -/
theorem spawn_leaves_no_trace_iff (hinit : Initialised s) (henough : Enough s)
    (hf : f.size < 4096 - 64) :
    (∀ s', spawn trampoline s c f = .ok (none, s') → Same s s') ↔
      ∃ i < 256, s.threads.table.get? i = none := by
  constructor
  · intro hsame
    by_contra hno
    have hfull : ∀ i < 256, s.threads.table.get? i ≠ none := fun i hi hnone => hno ⟨i, hi, hnone⟩
    obtain ⟨s', hs⟩ := spawn_full trampoline c hf henough hfull
    obtain ⟨-, -, n, hbefore, hafter⟩ := failed_spawn hinit hs
    rw [(hsame s' hs).allocator, hbefore] at hafter
    have := Except.ok.inj hafter
    omega
  · rintro ⟨i, hi, hroom⟩ s' hs
    exact absurd hroom ((spawn_none hs).1 i hi)

lemma offset_aligned : (0xffff800000000000 : UInt64).toNat % 4096 = 0 := by decide

/-- A machine with the memory of one region and the given threads. -/
def machine (r : MemoryRegion) (table : ThreadTable Bool) : System Bool where
  allocator := some ⟨0, [r]⟩
  hhdmOffset := 0xffff800000000000
  aligned := offset_aligned
  mem _ := 0
  threadIdCounter := 257
  threads := ⟨table, fun _ => newIdle ⟨0, 0⟩⟩
  readyQueue _ := Ring.new

/-- A thread in every slot. -/
def fullTable : ThreadTable Bool :=
  ⟨List.replicate 256 (some (newIdle ⟨0, 0⟩)), List.length_replicate⟩

lemma fullTable_full : ∀ i < 256, fullTable.get? i ≠ none := by
  intro i hi
  rw [ThreadTable.get?, fullTable, List.getElem?_replicate, if_pos hi]
  exact Option.some_ne_none _

/-- Eight free frames are enough for any threads. -/
lemma machine_enough {r : MemoryRegion} (hr : MemoryRegion.new 0x10000 0x8000 0 [0] = .ok r)
    (table : ThreadTable Bool) : Initialised (machine r table) ∧ Enough (machine r table) := by
  refine ⟨⟨_, rfl, fun q hq => ?_⟩, ?_⟩
  · rw [List.mem_singleton.mp hq]
    exact initialised_of_new hr (by decide) (by decide) (by decide)
  · cases hr
    exact ⟨_, _, _, _, _, _, rfl, rfl, rfl, rfl⟩

-- with free slots a spawn does not fail
theorem spawn_leaves_no_trace_machine : ∃ r, MemoryRegion.new 0x10000 0x8000 0 [0] = .ok r ∧
    ∀ s', spawn 0 (machine r ThreadTable.new) false ⟨[1, 2, 3], 0⟩ = .ok (none, s') →
      Same (machine r ThreadTable.new) s' := by
  obtain ⟨r, hr⟩ : ∃ r, MemoryRegion.new 0x10000 0x8000 0 [0] = .ok r := ⟨_, rfl⟩
  obtain ⟨hinit, henough⟩ := machine_enough hr ThreadTable.new
  exact ⟨r, hr, (spawn_leaves_no_trace_iff hinit henough (by decide)).mpr
    ⟨0, by decide, get?_new 0⟩⟩

/-- With 256 threads the five frames are lost. -/
theorem spawn_leaves_a_trace :
    ¬∀ (trampoline : UInt64) (s s' : System Bool) (c : Bool) (f : Closure), Initialised s →
      Enough s → f.size < 4096 - 64 → spawn trampoline s c f = .ok (none, s') → Same s s' := by
  intro h
  obtain ⟨r, hr⟩ : ∃ r, MemoryRegion.new 0x10000 0x8000 0 [0] = .ok r := ⟨_, rfl⟩
  obtain ⟨hinit, henough⟩ := machine_enough hr fullTable
  obtain ⟨s', hs⟩ := spawn_full (f := ⟨[1, 2, 3], 0⟩) 0 false (by decide) henough fullTable_full
  obtain ⟨-, -, n, hbefore, hafter⟩ := failed_spawn hinit hs
  rw [(h 0 _ s' false _ hinit henough (by decide) hs).allocator, hbefore] at hafter
  have := Except.ok.inj hafter
  omega

end OsRust.Spawn
