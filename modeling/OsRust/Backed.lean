import OsRust.Ownership
import OsRust.Spawn
import OsRust.Slots
import OsRust.ContextSwitch
import OsRust.Lib.Rounds

/-!
The scheduler on the frames of the allocator. Elsewhere a stack begins at any address and memory is
a number of frames; here every CPU asks the bitmaps for its TLS page and its stacks, each in a step
of its own, and whatever else asks for a frame comes in between.
-/

namespace OsRust.Backed

open OsRust.Frames OsRust.Bitmap OsRust.Regions OsRust.Bootstrap OsRust.Ownership
open OsRust.Ring OsRust.Task OsRust.Sched OsRust.Effects OsRust.Slots
open OsRust.Spawn (physToVirt physToVirt_ok newStack)
open OsRust.Layout (allFrames)
open OsRust.ContextSwitch (Apart Fresh entries entry)
open OsRust.Lib.Machine

/-- What frames were asked for: the TLS page and the idle thread's stack of a CPU, the stack of a
spawned thread, or anything else (a closure, a GDT, an IDT, a page table). -/
inductive Use (Cpu : Type*)
  | tls (c : Cpu)
  | idleStack (c : Cpu)
  | stack (id : UInt64)
  | other
  deriving DecidableEq

/-- The frames free are those of the allocator, and nothing here reads their number in `kernel`. -/
structure State (Cpu : Type*) where
  kernel : Kernel Cpu
  allocator : BitmapFrameAllocator
  /-- Every range handed out, the latest first. -/
  held : List (Use Cpu × FrameRange)

variable {Cpu : Type} [DecidableEq Cpu]

/-! ### The functions -/

/-- `alloc_frame` and `phys_to_virt`; where there is no frame the caller stops with `e`. -/
def allocFrame (offset : UInt64) (e : Stop) (u : Use Cpu) (s : State Cpu) :
    Res (UInt64 × State Cpu) := do
  let (frame, a) ← s.allocator.allocOne
  match frame with
  | .error _ => .error e
  | .ok frame =>
    let base ← physToVirt offset frame.addr
    .ok (base, { s with
      allocator := a, held := (u, ⟨frame.addr, 1, frame.aligned⟩) :: s.held })

/-- `Stack::new`, for this use. -/
def takeStack (offset : UInt64) (u : Use Cpu) (numPages : ℕ) (s : State Cpu) :
    Res (Stack × State Cpu) := do
  let (stack, frames, a) ← newStack offset numPages s.allocator
  .ok (stack, { s with allocator := a, held := (u, frames) :: s.held })

/-- The latest range taken for a use. -/
def latest (s : State Cpu) (u : Use Cpu) : Res FrameRange :=
  match s.held.find? fun x => x.1 = u with
  | some x => .ok x.2
  | none => .error .blocked

/-- `setup_tls`, once it has its two pages. -/
def setupTls (offset : UInt64) (s : State Cpu) (c : Cpu) : Res (State Cpu) := do
  let _ ← latest s (.tls c)
  let stack ← latest s (.idleStack c)
  let base ← physToVirt offset stack.start
  .ok { s with kernel := Sched.setupTls s.kernel c base }

/-- `spawn_raw` up to the first acquisition of `GLOBAL_THREAD_TABLE`. -/
def spawnRaw (offset : UInt64) (s : State Cpu) : Res (State Cpu) := do
  let id := s.kernel.threadIdCounter
  let s := { s with kernel := { s.kernel with threadIdCounter := id + 1 } }
  let (stack, s) ← takeStack offset (.stack id) 4 s
  .ok { s with kernel := { s.kernel with built := s.kernel.built ++ [newThread id stack] } }

/-! ### The steps -/

/-- The steps of the scheduler that are about frames. -/
def allocates : Sched.Act Cpu → Bool
  | .allocFrame => true
  | .setupTls .. => true
  | .spawnRaw .. => true
  | _ => false

inductive Act (Cpu : Type*)
  /-- a page for something else -/
  | page (e : Stop)
  | tlsPage (c : Cpu)
  | idleStack (c : Cpu)
  | setupTls (c : Cpu)
  | spawnRaw (c : Cpu)
  | sched (a : Sched.Act Cpu)

def step (offset : UInt64) (s : State Cpu) : Act Cpu → Res (State Cpu)
  | .page e => do
    let (_, s) ← allocFrame offset e .other s
    .ok s
  | .tlsPage c => do
    guard (s.kernel.online c = false)
    let (_, s) ← allocFrame offset (.panic "Out of memory") (.tls c) s
    .ok s
  | .idleStack c => do
    guard (s.kernel.online c = false)
    let (_, s) ← takeStack offset (.idleStack c) 1 s
    .ok s
  | .setupTls c => do
    guard (s.kernel.online c = false)
    setupTls offset s c
  | .spawnRaw c => do
    guard (Started s.kernel c)
    spawnRaw offset s
  | .sched a => do
    guard (allocates a = false)
    let k ← Sched.step s.kernel a
    .ok { s with kernel := k }

/-- `memory::init` has run, and no CPU has started. -/
structure Boot (offset : UInt64) (map : List Entry) (regionSize : ℕ) (s : State Cpu) : Prop where
  kernel : Sched.Boot s.kernel
  allocator : ∃ mem, BitmapFrameAllocator.init none mem offset.toNat regionSize map =
    .ok s.allocator
  held : s.held = []

/-- The kernel, had it `n` frames. -/
def withFrames (n : ℕ) (k : Kernel Cpu) : Kernel Cpu := { k with freeFrames := n }

/-- A range as a stack in the higher half. -/
def stackAt (offset : UInt64) (r : FrameRange) : Stack :=
  Stack.new (UInt64.ofNat r.start.val + offset) r.count

/-- The stack of the thread behind a use of frames: the idle thread of a CPU online, or the thread
with an identifier, in the table or on the way to it. -/
def Has (k : Kernel Cpu) (s : Stack) : Use Cpu → Prop
  | .idleStack c => k.online c = true ∧ (k.threads.idle c).kernelStack = s
  | .stack id => (∃ i, occupant k i = some (id, s)) ∨ ∃ t ∈ k.built, t.id = id ∧ t.kernelStack = s
  | _ => False

/-- All frames handed out. -/
def owned : List (Use Cpu × FrameRange) → Finset ℕ
  | [] => ∅
  | x :: held => owned held ∪ x.2.frames

/-- The state as the allocator sees it. -/
def State.ledger (s : State Cpu) : Ownership.State := ⟨s.allocator, owned s.held, s.held.map Prod.snd⟩

variable {offset : UInt64} {s s' : State Cpu} {k k' : Kernel Cpu} {u v : Use Cpu} {st st' : Stack}
  {L : List Slot} {addr n : ℕ} {M : Finset ℕ} {r r' : FrameRange} {c : Cpu} {e : Stop}

/-! ### Asking for frames -/

omit [DecidableEq Cpu] in
lemma frames_subset_owned {held : List (Use Cpu × FrameRange)} {x : Use Cpu × FrameRange}
    (h : x ∈ held) : x.2.frames ⊆ owned held := by
  induction held with
  | nil => cases h
  | cons y held ih =>
    rcases List.mem_cons.mp h with rfl | h
    · exact Finset.subset_union_right
    · exact (ih h).trans Finset.subset_union_left

/-- What a request that is met does: it takes a range of frames nobody has. -/
structure Took (L : List Slot) (addr : ℕ) (M : Finset ℕ) (u : Use Cpu) (n : ℕ) (s s' : State Cpu)
    (r : FrameRange) : Prop where
  state : ∃ a, s' = { s with allocator := a, held := (u, r) :: s.held }
  tracks : Tracks L addr M s'.ledger
  count : r.count = n
  pos : 0 < n
  free : Disjoint r.frames (M ∪ owned s.held)

omit [DecidableEq Cpu] in
lemma took_of_alloc (h : Tracks L addr M s.ledger) (hL : Layout.Apart L) {a : BitmapFrameAllocator}
    (hs : s.allocator.alloc n = .ok (.ok r, a)) (u : Use Cpu) :
    Took L addr M u n s { s with allocator := a, held := (u, r) :: s.held } r := by
  have hnext : Tracks L addr M ⟨a, owned s.held ∪ r.frames, r :: s.held.map Prod.snd⟩ := by
    refine h.next hL (a := .alloc n) ?_
    have hs' : s.ledger.allocator.alloc n = .ok (.ok r, a) := hs
    rw [Ownership.step, hs', ok_bind]
    rfl
  have hg : Layout.Gives L (M ∪ owned s.held) n r := by
    rcases h.alloc hL n with ⟨r', hr', hg⟩ | hno
    · cases hr'.symm.trans hs
      exact hg
    · cases hno.symm.trans hs
  obtain ⟨l, -, hgl⟩ := hg.slot
  exact ⟨⟨a, rfl⟩, hnext, hgl.count_eq, hgl.pos, hgl.free⟩

omit [DecidableEq Cpu] in
lemma takeStack_spec (h : Tracks L addr M s.ledger) (hL : Layout.Apart L)
    (hs : takeStack offset u n s = .ok (st, s')) :
    ∃ r, Took L addr M u n s s' r ∧ st = stackAt offset r := by
  obtain ⟨⟨st, r, a⟩, hnew, hs⟩ := bind_ok.mp hs
  cases hs
  obtain ⟨⟨x, a⟩, halloc, h₁⟩ := bind_ok.mp hnew
  obtain ⟨r, hx, h₂⟩ := bind_ok.mp h₁
  obtain ⟨base, hbase, h₃⟩ := bind_ok.mp h₂
  rw [expect_ok] at hx
  rw [hx] at halloc
  cases h₃
  have htook := took_of_alloc h hL halloc u
  refine ⟨r, htook, ?_⟩
  rw [stackAt, htook.count, physToVirt_ok hbase]

omit [DecidableEq Cpu] in
lemma allocFrame_spec {base : UInt64} (h : Tracks L addr M s.ledger) (hL : Layout.Apart L)
    (hs : allocFrame offset e u s = .ok (base, s')) : ∃ r, Took L addr M u 1 s s' r := by
  obtain ⟨⟨x, a⟩, hone, hs⟩ := bind_ok.mp hs
  cases x with
  | error e' => cases hs
  | ok frame =>
    obtain ⟨base, -, hs⟩ := bind_ok.mp hs
    cases hs
    obtain ⟨⟨y, b⟩, halloc, h₁⟩ := bind_ok.mp hone
    cases y with
    | error e' => cases h₁
    | ok r =>
      obtain ⟨frame', hframe, h₂⟩ := bind_ok.mp h₁
      cases h₂
      have htook := took_of_alloc h hL halloc u
      have hr : r = ⟨frame.addr, 1, frame.aligned⟩ := by
        have hcount := htook.count
        unfold Frame.new at hframe
        split at hframe
        · cases hframe
          cases r
          cases hcount
          rfl
        · cases hframe
      rw [← hr]
      exact ⟨r, htook⟩

/-! ### Where the stacks are -/

/-- The range lies in a slot, and the slot in the higher half. -/
def Seen (offset : UInt64) (L : List Slot) (r : FrameRange) : Prop :=
  ∃ l ∈ L, l.base ≤ r.start.val ∧ r.start.val + r.count * 4096 ≤ l.base + l.length ∧
    offset.toNat + (l.base + l.length) < 2 ^ 64

lemma Seen.base (h : Seen offset L r) :
    (stackAt offset r).base.toNat = offset.toNat + r.start.val := by
  obtain ⟨l, -, h₁, h₂, h₃⟩ := h
  have hlt := r.start.lt
  show (UInt64.ofNat r.start.val + offset).toNat = _
  rw [UInt64.toNat_add, UInt64.toNat_ofNat']
  omega

lemma Seen.size (h : Seen offset L r) : (stackAt offset r).size.toNat = r.count * 4096 := by
  obtain ⟨l, -, h₁, h₂, h₃⟩ := h
  show (UInt64.ofNat (r.count * 4096)).toNat = _
  rw [UInt64.toNat_ofNat']
  omega

lemma Seen.below (h : Seen offset L r) :
    (stackAt offset r).base.toNat + (stackAt offset r).size.toNat < 2 ^ 64 := by
  have hb := h.base
  have hs := h.size
  obtain ⟨l, -, h₁, h₂, h₃⟩ := h
  omega

/-- Ranges that share no frame are stacks that share no byte. -/
lemma apart_of_disjoint (h : Seen offset L r) (h' : Seen offset L r') (hpos : 0 < r.count)
    (hpos' : 0 < r'.count) (hd : Disjoint r.frames r'.frames) :
    Apart (stackAt offset r) (stackAt offset r') := by
  have hal := r.aligned
  have hal' := r'.aligned
  unfold Apart
  rw [h.base, h.size, h'.base, h'.size]
  by_contra hno
  -- the later of the two first frames would be in both ranges
  have hmem : max (r.start.val / 4096) (r'.start.val / 4096) ∈ r.frames := by
    rw [FrameRange.frames, Finset.mem_Ico]
    omega
  have hmem' : max (r.start.val / 4096) (r'.start.val / 4096) ∈ r'.frames := by
    rw [FrameRange.frames, Finset.mem_Ico]
    omega
  exact Finset.disjoint_left.mp hd hmem hmem'

/-! ### What the scheduler leaves alone -/

/-- What a step without an allocation can change of the stacks: a thread built goes to the table, or
is dropped. -/
structure Kept (k k' : Kernel Cpu) : Prop where
  online : k'.online = k.online
  idle : ∀ c, (k'.threads.idle c).kernelStack = (k.threads.idle c).kernelStack
  built : ∀ t ∈ k'.built, t ∈ k.built
  table : ∀ i id st, occupant k' i = some (id, st) →
    occupant k i = some (id, st) ∨ ∃ t ∈ k.built, t.id = id ∧ t.kernelStack = st

omit [DecidableEq Cpu] in
lemma Kept.has (h : Kept k k') (hu : Has k' st u) : Has k st u := by
  cases u with
  | tls c => exact hu
  | idleStack c => exact ⟨h.online ▸ hu.1, (h.idle c).symm.trans hu.2⟩
  | stack id =>
    rcases hu with ⟨i, hi⟩ | ⟨t, ht, hid⟩
    · exact (h.table i id st hi).imp_left fun hi => ⟨i, hi⟩
    · exact .inr ⟨t, h.built t ht, hid⟩
  | other => exact hu

omit [DecidableEq Cpu] in
lemma Kept.of_threads (ho : k'.online = k.online) (hb : k'.built = k.built)
    (ht : k'.threads = k.threads) : Kept k k' where
  online := ho
  idle c := by rw [ht]
  built t h := hb ▸ h
  table i id st h := by
    rw [occupant, ht] at h
    exact .inl h

lemma Kept.of_modify {f : Thread Cpu → Thread Cpu} {a : ThreadAddr Cpu} (ho : k'.online = k.online)
    (hb : k'.built = k.built) (hid : ∀ t, (f t).id = t.id)
    (hstack : ∀ t, (f t).kernelStack = t.kernelStack) (ht : k'.threads = k.threads.modify f a) :
    Kept k k' where
  online := ho
  idle c := by
    rw [ht]
    cases a with
    | idle d =>
      simp only [Threads.modify]
      split
      · exact hstack _
      · rfl
    | _ => rfl
  built t h := hb ▸ h
  table i id st h := by
    rw [occupant_modify (k := k) hid hstack a i fun j => by rw [ht]; rfl] at h
    exact .inl h

lemma kept_of_step {a : Sched.Act Cpu} (ha : allocates a = false) (hwf : QueuesWf k)
    (hs : Sched.step k a = .ok k') : Kept k k' := by
  cases a with
  | allocFrame => cases ha
  | setupTls c base => cases ha
  | spawnRaw c base => cases ha
  | forceSwitchToIdle c =>
    obtain ⟨-, -, rfl⟩ := step_forceSwitchToIdle hs
    exact .of_threads rfl rfl rfl
  | addThread c n =>
    obtain ⟨-, t, ht, rfl⟩ := step_addThread hs
    refine ⟨rfl, fun c => rfl, fun u hu => List.mem_of_mem_eraseIdx hu, fun i id st hi => ?_⟩
    rcases addThread_cases k.threads.table t with ⟨j, tbl, he, -, -, hget⟩ | ⟨-, he⟩
    · rw [occupant] at hi
      simp only [he, hget] at hi
      split at hi
      · cases hi
        exact .inr ⟨t, List.mem_of_getElem? ht, rfl, rfl⟩
      · exact .inl hi
    · rw [occupant] at hi
      simp only [he] at hi
      exact .inl hi
  | readyAdded c n =>
    obtain ⟨-, _, j, -, -, _, -, -, rfl⟩ := step_readyAdded hwf hs
    exact .of_modify (f := Thread.markReady c) (a := .slot j) rfl rfl (fun _ => rfl) (fun _ => rfl)
      rfl
  | saveRsp c rsp =>
    obtain ⟨-, -, rfl⟩ := step_saveRsp hs
    exact .of_modify (f := fun t => { t with regs := rsp }) rfl rfl (fun _ => rfl) (fun _ => rfl) rfl
  | switch c =>
    obtain ⟨-, t, -, rfl⟩ := step_switch hs
    exact .of_threads rfl rfl rfl
  | maybeLoadBalance c o =>
    obtain ⟨-, rfl | ⟨-, s, d, m, -, hB⟩⟩ := step_maybeLoadBalance hwf hs
    · exact .of_threads rfl rfl rfl
    · have hrest := hB.rest
      refine ⟨by rw [hrest], fun e => ?_, fun t ht => by rwa [hrest] at ht, fun i id st hi => ?_⟩
      · have hidle := hB.threads (.idle e)
        simp only [Threads.get?] at hidle
        split at hidle
        · rw [Option.map_some, Option.some.injEq] at hidle
          rw [hidle, Thread.setCpu]
        · rw [Option.some.inj hidle]
      · rw [occupant_shifted hB.toShifted] at hi
        exact .inl hi

lemma map_bind {α β γ : Type} (x : Res α) (f : α → Res β) (g : β → γ) :
    (x >>= f).map g = x >>= fun a => (f a).map g := by
  cases x <;> rfl

lemma maybeLoadBalance_withFrames (k : Kernel Cpu) (c o : Cpu) (n : ℕ) :
    maybeLoadBalance (withFrames n k) c o = (maybeLoadBalance k c o).map (withFrames n) := by
  unfold maybeLoadBalance
  by_cases hon : k.online o = false
  · rw [if_pos hon, if_pos (show (withFrames n k).online o = false from hon)]
    rfl
  · rw [if_neg hon, if_neg (show ¬ (withFrames n k).online o = false from hon)]
    by_cases hco : c = o
    · rw [if_pos hco, if_pos hco]
      rfl
    · rw [if_neg hco, if_neg hco, map_bind]
      rfl

/-- A step that takes no frames does not depend on how many there are. -/
lemma step_withFrames {a : Sched.Act Cpu} (ha : allocates a = false)
    (hs : Sched.step k a = .ok k') (n : ℕ) :
    Sched.step (withFrames n k) a = .ok (withFrames n k') := by
  have hmap : Sched.step (withFrames n k) a = (Sched.step k a).map (withFrames n) := by
    cases a with
    | allocFrame => cases ha
    | setupTls c base => cases ha
    | spawnRaw c base => cases ha
    | forceSwitchToIdle c =>
      simp only [Sched.step, map_bind]
      rfl
    | addThread c m =>
      simp only [Sched.step, map_bind, addThread, withFrames]
      cases k.built[m]? <;> rfl
    | readyAdded c m =>
      simp only [Sched.step, map_bind, readyAdded, withFrames]
      cases k.added[m]? with
      | none => rfl
      | some id =>
        simp only [map_bind, ready]
        rfl
    | saveRsp c rsp =>
      simp only [Sched.step, map_bind, saveRsp]
      rfl
    | switch c =>
      simp only [Sched.step, map_bind]
      rfl
    | maybeLoadBalance c o =>
      simp only [Sched.step, map_bind, maybeLoadBalance_withFrames]
      rfl
  rw [hmap, hs]
  rfl

/-! ### The invariant -/

/-- A new stack lies in the address space and overlaps the stack of no thread, whichever CPU is
asked. -/
def OnFresh (k : Kernel Cpu) : Sched.Act Cpu → Prop
  | .setupTls _ base => ∀ c, Fresh k c (Stack.new base 1)
  | .spawnRaw _ base => ∀ c, Fresh k c (Stack.new base 4)
  | _ => True

/-- The frames that are free. -/
def left (L : List Slot) (M : Finset ℕ) (s : State Cpu) : ℕ :=
  (allFrames L).card - M.card - (owned s.held).card

/-- Some run of the scheduler alone gets here, with the frames that are free. -/
def Simulated (L : List Slot) (M : Finset ℕ) (s : State Cpu) : Prop :=
  ∃ k₀ as, Sched.Boot k₀ ∧ run Sched.step k₀ as = .ok (withFrames (left L M s) s.kernel) ∧
    AllSteps Sched.step OnFresh k₀ as

/-- Every frame handed out is accounted for. -/
structure Accounted (offset : UInt64) (L : List Slot) (addr : ℕ) (M : Finset ℕ) (s : State Cpu) :
    Prop where
  tracks : Tracks L addr M s.ledger
  wf : QueuesWf s.kernel
  apart : s.held.Pairwise fun x y => Disjoint x.2.frames y.2.frames
  pos : ∀ x ∈ s.held, 0 < x.2.count
  idle : ∀ c r, (Use.idleStack c, r) ∈ s.held → r.count = 1
  stack : ∀ u st, Has s.kernel st u → ∃ r, (u, r) ∈ s.held ∧ st = stackAt offset r
  tls : ∀ c, s.kernel.online c = true → ∃ r, (Use.tls c, r) ∈ s.held

/-- Every slot is in the higher half. -/
def Window (offset : UInt64) (L : List Slot) : Prop :=
  ∀ l ∈ L, offset.toNat + (l.base + l.length) < 2 ^ 64

omit [DecidableEq Cpu] in
lemma seen (h : Tracks L addr M s.ledger) (hw : Window offset L) {x : Use Cpu × FrameRange}
    (hx : x ∈ s.held) : Seen offset L x.2 := by
  obtain ⟨l, hl, h₁, h₂⟩ := h.results x.2 (List.mem_map_of_mem hx)
  exact ⟨l, hl, h₁, h₂, hw l hl⟩

omit [DecidableEq Cpu] in
/-- A request takes as many frames as it asks for. -/
lemma Took.left (h : Took L addr M u n s s' r) : left L M s' + n = left L M s := by
  obtain ⟨a, rfl⟩ := h.state
  have hcard : r.frames.card = n := by
    rw [FrameRange.frames, Nat.card_Ico, Nat.add_sub_cancel_left, h.count]
  have howned : (owned ((u, r) :: s.held)).card = (owned s.held).card + n := by
    rw [← hcard]
    exact Finset.card_union_of_disjoint (Finset.disjoint_union_right.mp h.free).2.symm
  have hle : M.card + (owned ((u, r) :: s.held)).card ≤ (allFrames L).card := by
    exact (Finset.card_union_of_disjoint h.tracks.disjoint).symm.trans_le
      (Finset.card_le_card (Finset.union_subset h.tracks.kept h.tracks.owned))
  show (allFrames L).card - M.card - (owned ((u, r) :: s.held)).card + n =
    (allFrames L).card - M.card - (owned s.held).card
  omega

omit [DecidableEq Cpu] in
/-- The stacks the scheduler knows of, whichever CPU is asked. -/
lemma has_of_entries {x : ContextSwitch.Entry} (hx : x ∈ entries k c) : ∃ v, Has k x.stack v := by
  rcases List.mem_append.mp hx with hx | hx
  · rcases List.mem_append.mp hx with hx | hx
    · split at hx
      · next hon =>
        rw [List.mem_singleton.mp hx]
        exact ⟨.idleStack c, hon, rfl⟩
      · cases hx
    · obtain ⟨t, ht, rfl⟩ := List.mem_map.mp hx
      obtain ⟨i, hi⟩ := List.mem_iff_getElem?.mp (List.reduceOption_mem_iff.mp ht)
      refine ⟨.stack t.id, .inl ⟨i, ?_⟩⟩
      rw [occupant, ThreadTable.get?, hi]
      rfl
  · obtain ⟨t, ht, rfl⟩ := List.mem_map.mp hx
    exact ⟨.stack t.id, .inr ⟨t, ht, rfl, rfl⟩⟩

omit [DecidableEq Cpu] in
/-- A range whose frames no thread has its stack on is a fresh stack. -/
lemma Accounted.fresh (h : Accounted offset L addr M s) (hw : Window offset L)
    (hseen : Seen offset L r) (hpos : 0 < r.count)
    (hd : ∀ v r', (v, r') ∈ s.held → (∃ st, Has s.kernel st v) → Disjoint r'.frames r.frames)
    (c : Cpu) : Fresh s.kernel c (stackAt offset r) := by
  refine ⟨hseen.below, fun x hx => ?_⟩
  obtain ⟨v, hv⟩ := has_of_entries hx
  obtain ⟨r', hr', hst⟩ := h.stack v x.stack hv
  rw [hst]
  exact apart_of_disjoint (seen (x := (v, r')) h.tracks hw hr') hseen (h.pos _ hr') hpos
    (hd v r' hr' ⟨_, hv⟩)

omit [DecidableEq Cpu] in
/-- What a request changes of the frames. -/
lemma Accounted.take (h : Accounted offset L addr M s) (ht : Took L addr M u n s s' r)
    (hu : ∀ c, u = .idleStack c → n = 1) : Accounted offset L addr M s' := by
  have htracks := ht.tracks
  have hcount := ht.count
  have hd := (Finset.disjoint_union_right.mp ht.free).2
  have hpos : 0 < r.count := by
    rw [ht.count]
    exact ht.pos
  obtain ⟨a, rfl⟩ := ht.state
  refine ⟨htracks, h.wf, h.apart.cons fun x hx => ?_, ?_, ?_, ?_, ?_⟩
  · exact Finset.disjoint_of_subset_right (frames_subset_owned hx) hd
  · intro x hx
    rcases List.mem_cons.mp hx with rfl | hx
    · exact hpos
    · exact h.pos x hx
  · intro c r' hr'
    rcases List.mem_cons.mp hr' with he | hr'
    · cases he
      rw [hcount, hu c rfl]
    · exact h.idle c r' hr'
  · intro v st hv
    obtain ⟨r', hr', hst⟩ := h.stack v st hv
    exact ⟨r', List.mem_cons_of_mem _ hr', hst⟩
  · intro c hc
    obtain ⟨r', hr'⟩ := h.tls c hc
    exact ⟨r', List.mem_cons_of_mem _ hr'⟩

/-- One more step of the scheduler alone. -/
lemma Simulated.next {a : Sched.Act Cpu} (h : Simulated L M s)
    (hs : Sched.step (withFrames (left L M s) s.kernel) a =
      .ok (withFrames (left L M s') s'.kernel))
    (hfresh : OnFresh (withFrames (left L M s) s.kernel) a) : Simulated L M s' := by
  obtain ⟨k₀, as, h0, hrun, hall⟩ := h
  exact ⟨k₀, as ++ [a], h0, run_append_ok.mpr ⟨_, hrun, run_cons_ok.mpr ⟨_, hs, rfl⟩⟩,
    allSteps_concat hall hrun hfresh⟩

/-- A page is a frame less. -/
lemma Simulated.page (h : Simulated L M s) (ht : Took L addr M u 1 s s' r) :
    Simulated L M s' := by
  have hleft := ht.left
  obtain ⟨a, rfl⟩ := ht.state
  refine h.next (a := .allocFrame) (allocFrames_ok.mpr ⟨?_, ?_⟩) trivial
  · show 1 ≤ left L M s
    omega
  · rw [← hleft]
    rfl

/-- Every frame is accounted for, and the scheduler alone gets here. -/
structure Backing (offset : UInt64) (L : List Slot) (addr : ℕ) (M : Finset ℕ) (s : State Cpu) : Prop
    extends Accounted offset L addr M s where
  simulated : Simulated L M s

lemma Backing.takePage {base : UInt64} (h : Backing offset L addr M s) (hL : Layout.Apart L)
    (hs : allocFrame offset e u s = .ok (base, s')) : Backing offset L addr M s' := by
  obtain ⟨r, ht⟩ := allocFrame_spec h.tracks hL hs
  exact ⟨h.take ht fun _ _ => rfl, h.simulated.page ht⟩

lemma Backing.idleStack (h : Backing offset L addr M s) (hL : Layout.Apart L)
    (hs : step offset s (.idleStack c) = .ok s') : Backing offset L addr M s' := by
  obtain ⟨_, -, hs⟩ := bind_ok.mp hs
  obtain ⟨⟨st, s₁⟩, hstack, hs⟩ := bind_ok.mp hs
  cases hs
  obtain ⟨r, ht, -⟩ := takeStack_spec h.tracks hL hstack
  exact ⟨h.take ht fun _ _ => rfl, h.simulated.page ht⟩

lemma Backing.sched (h : Backing offset L addr M s) {a : Sched.Act Cpu}
    (hs : step offset s (.sched a) = .ok s') : Backing offset L addr M s' := by
  obtain ⟨_, hg, hs⟩ := bind_ok.mp hs
  obtain ⟨k, hk, hs⟩ := bind_ok.mp hs
  cases hs
  have ha := guard_ok.mp hg
  have hkept := kept_of_step ha h.wf hk
  refine ⟨⟨h.tracks, wf_step h.wf hk, h.apart, h.pos, h.idle,
    fun u st hu => h.stack u st (hkept.has hu), fun c hc => h.tls c (hkept.online ▸ hc)⟩,
    h.simulated.next (step_withFrames ha hk _) ?_⟩
  cases a with
  | setupTls c base => cases ha
  | spawnRaw c base => cases ha
  | _ => trivial

lemma latest_mem (h : latest s u = .ok r) : (u, r) ∈ s.held := by
  unfold latest at h
  split at h
  · next x hx =>
    cases h
    have hu : x.1 = u := by simpa using List.find?_some hx
    rw [← hu]
    exact List.mem_of_find?_eq_some hx
  · cases h

lemma Backing.setupTls (h : Backing offset L addr M s) (hw : Window offset L)
    (hs : step offset s (.setupTls c) = .ok s') : Backing offset L addr M s' := by
  obtain ⟨_, hg, hs⟩ := bind_ok.mp hs
  have hoff := guard_ok.mp hg
  obtain ⟨rt, htls, hs⟩ := bind_ok.mp hs
  obtain ⟨r, hidle, hs⟩ := bind_ok.mp hs
  obtain ⟨base, hbase, hs⟩ := bind_ok.mp hs
  cases hs
  have hr := latest_mem hidle
  have hst : stackAt offset r = Stack.new base 1 := by
    rw [stackAt, h.idle c r hr, physToVirt_ok hbase]
  -- no thread has its stack there, for the CPU is not online yet
  have hfresh : ∀ d, Fresh s.kernel d (stackAt offset r) := by
    refine h.fresh hw (seen (x := (.idleStack c, r)) h.tracks hw hr) (h.pos _ hr) ?_
    rintro v r' hr' ⟨st, hv⟩
    have hne : v ≠ .idleStack c := by
      rintro rfl
      rw [hv.1] at hoff
      cases hoff
    have hsymm : Std.Symm fun x y : Use Cpu × FrameRange => Disjoint x.2.frames y.2.frames :=
      ⟨fun _ _ hxy => hxy.symm⟩
    exact h.apart.forall hr' hr fun he => hne (Prod.mk.inj he).1
  refine ⟨⟨h.tracks, wf_update h.wf Queue.new_wf, h.apart, h.pos, h.idle, ?_, ?_⟩,
    h.simulated.next (a := .setupTls c base) ?_ fun d => ?_⟩
  · intro u st hu
    by_cases huc : u = .idleStack c
    · subst huc
      refine ⟨r, hr, ?_⟩
      have := hu.2
      rw [hst]
      simpa [Sched.setupTls, newIdle] using this.symm
    · refine h.stack u st ?_
      cases u with
      | idleStack d =>
        have hdc : d ≠ c := fun hdc => huc (by rw [hdc])
        simpa [Sched.setupTls, Has, hdc] using hu
      | _ => exact hu
  · intro d hd
    by_cases hdc : d = c
    · subst hdc
      exact ⟨rt, latest_mem htls⟩
    · refine h.tls d ?_
      simpa [Sched.setupTls, hdc] using hd
  · exact guard_bind (p := s.kernel.online c = false) hoff _
  · have := hfresh d
    rw [hst] at this
    exact this

lemma Backing.spawnRaw (h : Backing offset L addr M s) (hL : Layout.Apart L) (hw : Window offset L)
    (hs : step offset s (.spawnRaw c) = .ok s') : Backing offset L addr M s' := by
  obtain ⟨_, hg, hs⟩ := bind_ok.mp hs
  have hstarted := guard_ok.mp hg
  obtain ⟨⟨st, s₁⟩, hstack, hs⟩ := bind_ok.mp hs
  cases hs
  have htracks : Tracks L addr M (State.ledger
      { s with kernel := { s.kernel with threadIdCounter := s.kernel.threadIdCounter + 1 } }) :=
    h.tracks
  obtain ⟨r, ht, rfl⟩ := takeStack_spec htracks hL hstack
  have hcount := ht.count
  obtain ⟨a, rfl⟩ := ht.state
  -- the counter, which has gone up already, is not for the allocator to see
  have ht' : Took L addr M (.stack s.kernel.threadIdCounter) 4 s
      { s with allocator := a, held := (.stack s.kernel.threadIdCounter, r) :: s.held } r :=
    ⟨⟨a, rfl⟩, ht.tracks, ht.count, ht.pos, ht.free⟩
  have h' := h.take ht' (by simp)
  have hst : stackAt offset r = Stack.new (UInt64.ofNat r.start.val + offset) 4 := by
    rw [stackAt, hcount]
  have hfree := (Finset.disjoint_union_right.mp ht.free).2
  have hfresh : ∀ d, Fresh s.kernel d (stackAt offset r) :=
    h.fresh hw (seen (x := (_, r)) ht'.tracks hw List.mem_cons_self) (h'.pos _ List.mem_cons_self)
      fun v r' hr' _ => Finset.disjoint_of_subset_left (frames_subset_owned hr') hfree.symm
  have hleft := ht'.left
  refine ⟨⟨h'.tracks, h.wf, h'.apart, h'.pos, h'.idle, ?_, h'.tls⟩,
    h.simulated.next (a := .spawnRaw c (UInt64.ofNat r.start.val + offset)) ?_ fun d => ?_⟩
  · intro u st hu
    cases u with
    | stack id =>
      rcases hu with hi | ⟨t, ht, hid, hstack⟩
      · exact h'.stack _ st (.inl hi)
      · rcases List.mem_append.mp ht with ht | ht
        · exact h'.stack _ st (.inr ⟨t, ht, hid, hstack⟩)
        · rw [List.mem_singleton.mp ht] at hid hstack
          cases hid
          exact ⟨r, List.mem_cons_self, hstack.symm⟩
    | _ => exact h'.stack _ st hu
  · refine bind_ok.mpr ⟨(), guard_ok.mpr hstarted, ?_⟩
    refine bind_ok.mpr ⟨_, allocFrames_ok.mpr ⟨show 4 ≤ left L M s by omega, rfl⟩, ?_⟩
    rw [hst]
    have hnext : left L M s - 4 = left L M { s with
        allocator := a, held := (.stack s.kernel.threadIdCounter, r) :: s.held } := by
      omega
    exact congrArg (fun n => Except.ok (withFrames n { s.kernel with
      threadIdCounter := s.kernel.threadIdCounter + 1
      built := s.kernel.built ++ [newThread s.kernel.threadIdCounter
        (Stack.new (UInt64.ofNat r.start.val + offset) 4)] })) hnext
  · have := hfresh d
    rw [hst] at this
    exact this

lemma Backing.step {a : Act Cpu} (h : Backing offset L addr M s) (hL : Layout.Apart L)
    (hw : Window offset L) (hs : Backed.step offset s a = .ok s') : Backing offset L addr M s' := by
  cases a with
  | page e =>
    obtain ⟨⟨base, s₁⟩, hframe, hs⟩ := bind_ok.mp hs
    cases hs
    exact h.takePage hL hframe
  | tlsPage c =>
    obtain ⟨_, -, hs⟩ := bind_ok.mp hs
    obtain ⟨⟨base, s₁⟩, hframe, hs⟩ := bind_ok.mp hs
    cases hs
    exact h.takePage hL hframe
  | idleStack c => exact h.idleStack hL hs
  | setupTls c => exact h.setupTls hw hs
  | spawnRaw c => exact h.spawnRaw hL hw hs
  | sched a => exact h.sched hs

/-! ### From boot -/

variable {map : List Entry} {regionSize : ℕ} {s₀ : State Cpu} {as : List (Act Cpu)}

/-- All usable memory is in the higher half. -/
def InWindow (offset : UInt64) (map : List Entry) : Prop :=
  ∀ e ∈ usable map, offset.toNat + (e.base + e.length) < 2 ^ 64

/-- Addresses have 52 bits. -/
lemma card_allFrames_le (L : List Slot) : (allFrames L).card ≤ 2 ^ 40 := by
  have hsub : allFrames L ⊆ Finset.range (2 ^ 40) := by
    intro f hf
    obtain ⟨l, -, hfl⟩ := Layout.mem_allFrames.mp hf
    have hb := l.base_eq
    have hlen := l.length_eq
    have hbelow := l.below
    rw [Slot.frames, Finset.mem_Ico] at hfl
    rw [Finset.mem_range]
    omega
  calc (allFrames L).card ≤ (Finset.range (2 ^ 40)).card := Finset.card_le_card hsub
    _ = 2 ^ 40 := Finset.card_range _

lemma backing_boot (hmap : MapOk map) (h0 : Boot offset map regionSize s₀) :
    ∃ base addr, Backing offset (slotsAt hmap offset.toNat regionSize base) addr
      (metadata map regionSize) s₀ := by
  obtain ⟨mem, hinit⟩ := h0.allocator
  obtain ⟨base, addr, htracks⟩ := tracks_of_init hmap hinit
  have hledger : s₀.ledger = ⟨s₀.allocator, ∅, []⟩ := by
    rw [State.ledger, h0.held]
    rfl
  rw [← hledger] at htracks
  have hk := h0.kernel
  refine ⟨base, addr, ⟨htracks, fun c => ?_, ?_, ?_, ?_, ?_, ?_⟩, ?_⟩
  · rw [hk.tls c]
    exact Queue.new_wf
  · rw [h0.held]
    exact List.Pairwise.nil
  · rw [h0.held]
    intro x hx
    cases hx
  · rw [h0.held]
    intro c r hr
    cases hr
  · intro u st hu
    cases u with
    | tls c => exact hu.elim
    | idleStack c =>
      rw [Has, hk.online c] at hu
      cases hu.1
    | stack id =>
      rcases hu with ⟨i, hi⟩ | ⟨t, ht, -⟩
      · rw [occupant, hk.table, get?_new] at hi
        cases hi
      · rw [hk.built] at ht
        cases ht
    | other => exact hu.elim
  · intro c hc
    rw [hk.online c] at hc
    cases hc
  · have hcard := card_allFrames_le (slotsAt hmap offset.toNat regionSize base)
    refine ⟨withFrames (left _ _ s₀) s₀.kernel, [],
      ⟨hk.counter, ?_, hk.table, hk.online, hk.tls, hk.built, hk.added⟩, rfl, trivial⟩
    show left _ _ s₀ < 4 * 2 ^ 64
    unfold left
    omega

lemma backing_run (hmap : MapOk map) (hwin : InWindow offset map)
    (h0 : Boot offset map regionSize s₀) (hr : run (step offset) s₀ as = .ok s) :
    ∃ base addr, Window offset (slotsAt hmap offset.toNat regionSize base) ∧
      Backing offset (slotsAt hmap offset.toNat regionSize base) addr (metadata map regionSize) s := by
  obtain ⟨base, addr, h⟩ := backing_boot hmap h0
  have hw : Window offset (slotsAt hmap offset.toNat regionSize base) := by
    intro l hl
    obtain ⟨e, he, hbase, hlength⟩ := mem_slotsAt hl
    rw [← hbase, ← hlength]
    exact hwin e he
  exact ⟨base, addr, hw,
    run_keeps (fun _ _ _ h hs => h.step (slotsAt_apart hmap _ _ _) hw hs) h hr⟩

/-- **The scheduler's memory is what the allocator gives it.** Whatever the CPUs do from boot, and
whoever else takes frames, some run of the scheduler alone leads to the same threads, queues and
CPUs, and to as many free frames as the allocator has; and each of its stacks was fresh when it was
given to a thread. -/
theorem allocator_refines (hmap : MapOk map) (hwin : InWindow offset map)
    (h0 : Boot offset map regionSize s₀) (hr : run (step offset) s₀ as = .ok s) :
    ∃ k₀ as' n, Sched.Boot k₀ ∧ run Sched.step k₀ as' = .ok (withFrames n s.kernel) ∧
      AllSteps Sched.step OnFresh k₀ as' ∧ s.allocator.freeFrames = .ok n := by
  obtain ⟨base, addr, -, h⟩ := backing_run hmap hwin h0 hr
  obtain ⟨k₀, as', hboot, hrun, hall⟩ := h.simulated
  have hfree := (h.tracks.freeFrames (slotsAt_apart hmap _ _ _)).2
  have htotal : s.allocator.totalFrames =
      (allFrames (slotsAt hmap offset.toNat regionSize base)).card := by
    have halloc : s.allocator = _ := h.tracks.allocator
    rw [halloc]
    exact Layout.totalFrames_spec (slotsAt_apart hmap _ _ _) _
  refine ⟨k₀, as', _, hboot, hrun, hall, ?_⟩
  rw [left, ← htotal]
  exact hfree

omit [DecidableEq Cpu] in
lemma card_owned {held : List (Use Cpu × FrameRange)}
    (h : held.Pairwise fun x y => Disjoint x.2.frames y.2.frames) :
    (owned held).card = (held.map fun x => x.2.count).sum := by
  induction held with
  | nil => rfl
  | cons x held ih =>
    have hd : Disjoint (owned held) x.2.frames := by
      clear ih
      induction held with
      | nil => exact Finset.disjoint_empty_left _
      | cons y held ih =>
        obtain ⟨hx, hy⟩ := List.pairwise_cons.mp h
        refine Finset.disjoint_union_left.mpr ⟨ih (h.sublist (by simp)), ?_⟩
        exact (hx y List.mem_cons_self).symm
    have hx : x.2.frames.card = x.2.count := by
      rw [FrameRange.frames, Nat.card_Ico, Nat.add_sub_cancel_left]
    rw [owned, Finset.card_union_of_disjoint hd, ih h.of_cons, List.map_cons, List.sum_cons, hx,
      Nat.add_comm]

/-- **No memory is used for two things.** Whatever the CPUs do from boot: the stack of every thread
is a range the allocator has handed out for it, and the stacks of two threads share no byte; so it
is with the TLS pages of the CPUs and all the rest that was asked for, none of which lies outside
usable memory or in what the allocator keeps for itself; and the frames free are the others: the bit
of a frame is set exactly when the allocator keeps it or it is in a range handed out. -/
theorem memory_isolated (hmap : MapOk map) (hwin : InWindow offset map)
    (h0 : Boot offset map regionSize s₀) (hr : run (step offset) s₀ as = .ok s) :
    (∀ u st, Has s.kernel st u → ∃ r, (u, r) ∈ s.held ∧ st = stackAt offset r) ∧
      (∀ u v st st', Has s.kernel st u → Has s.kernel st' v → u ≠ v → Apart st st') ∧
      (∀ c, s.kernel.online c = true → ∃ r, (Use.tls c, r) ∈ s.held) ∧
      (s.held.Pairwise fun x y => Disjoint x.2.frames y.2.frames) ∧
      (∀ x ∈ s.held, Disjoint x.2.frames (metadata map regionSize) ∧ ∃ e ∈ usable map,
        e.base ≤ x.2.start.val ∧ x.2.start.val + x.2.count * 4096 ≤ e.base + e.length) ∧
      BitsTell map s.allocator (metadata map regionSize ∪ owned s.held) ∧
      s.allocator.freeFrames = .ok (s.allocator.totalFrames - (metadata map regionSize).card -
        (s.held.map fun x => x.2.count).sum) := by
  obtain ⟨base, addr, hw, h⟩ := backing_run hmap hwin h0 hr
  refine ⟨h.stack, ?_, h.tls, h.apart, ?_, h.tracks.bitsTell, ?_⟩
  · intro u v st st' hu hv huv
    obtain ⟨r, hr, rfl⟩ := h.stack u st hu
    obtain ⟨r', hr', rfl⟩ := h.stack v st' hv
    have hsymm : Std.Symm fun x y : Use Cpu × FrameRange => Disjoint x.2.frames y.2.frames :=
      ⟨fun _ _ hxy => hxy.symm⟩
    have hd : Disjoint r.frames r'.frames :=
      h.apart.forall hr hr' fun he => huv (Prod.mk.inj he).1
    exact apart_of_disjoint (seen (x := (u, r)) h.tracks hw hr) (seen (x := (v, r')) h.tracks hw hr')
      (h.pos _ hr) (h.pos _ hr') hd
  · intro x hx
    refine ⟨?_, ?_⟩
    · exact Finset.disjoint_of_subset_left (frames_subset_owned hx) h.tracks.disjoint.symm
    · obtain ⟨l, hl, h₁, h₂⟩ := h.tracks.results x.2 (List.mem_map_of_mem hx)
      obtain ⟨e, he, hbase, hlength⟩ := mem_slotsAt hl
      exact ⟨e, he, hbase ▸ h₁, by rwa [hbase, hlength]⟩
  · rw [← card_owned h.apart]
    exact (h.tracks.freeFrames (slotsAt_apart hmap _ _ _)).2

/-- A CPU starts, with a GDT and an IDT, and spawns a thread: the page of the closure, and the
stack. -/
def startAndSpawn (c : Cpu) : List (Act Cpu) :=
  [.tlsPage c, .idleStack c, .setupTls c, .page (.panic "Out of memory"),
    .page (.panic "Out of memory"), .sched (.forceSwitchToIdle c), .page (.panic "Out of memory"),
    .spawnRaw c, .sched (.addThread c 0), .sched (.readyAdded c 0), .sched (.switch c)]

/-- A map with one usable entry, of sixteen frames. -/
def oneEntry : List Entry := [⟨0x0, 0x1000, .reserved⟩, ⟨0x1000, 0x10000, .usable⟩]

lemma mem_oneEntry {e : Entry} (he : e ∈ usable oneEntry) : e = ⟨0x1000, 0x10000, .usable⟩ :=
  List.mem_singleton.mp he

lemma oneEntry_ok : MapOk oneEntry where
  sound e he := by
    rw [mem_oneEntry he]
    constructor <;> decide
  disjoint := List.pairwise_singleton _ _

lemma oneEntry_inWindow : InWindow 0xffff800000000000 oneEntry := by
  intro e he
  rw [mem_oneEntry he]
  decide

/-- The frames of `oneEntry` are enough. -/
lemma startAndSpawn_runs : ∃ s₀ s : State Bool, Boot 0xffff800000000000 oneEntry 48 s₀ ∧
    run (step 0xffff800000000000) s₀ (startAndSpawn true) = .ok s ∧
      s.held.map (fun x => x.2.start.val) = [0x7000, 0x6000, 0x5000, 0x4000, 0x3000, 0x2000] := by
  have hrun : (do
      let a ← BitmapFrameAllocator.init none (fun _ => 0xaa) 0xffff800000000000 48 oneEntry
      let s ← run (step 0xffff800000000000) ⟨bootKernel Bool 0, a, []⟩ (startAndSpawn true)
      Except.ok (s.held.map fun x => x.2.start.val)) =
        (.ok [0x7000, 0x6000, 0x5000, 0x4000, 0x3000, 0x2000] : Res (List ℕ)) := by
    rfl
  obtain ⟨a, ha, hrun⟩ := bind_ok.mp hrun
  obtain ⟨s, hs, hheld⟩ := bind_ok.mp hrun
  exact ⟨_, s, ⟨boot_bootKernel (by decide), ⟨_, ha⟩, rfl⟩, hs, Except.ok.inj hheld⟩

theorem allocator_refines_small : ∃ s₀ s : State Bool,
    run (step 0xffff800000000000) s₀ (startAndSpawn true) = .ok s ∧
      ∃ k₀ as n, Sched.Boot k₀ ∧ run Sched.step k₀ as = .ok (withFrames n s.kernel) ∧
        AllSteps Sched.step OnFresh k₀ as := by
  obtain ⟨s₀, s, h0, hr, -⟩ := startAndSpawn_runs
  obtain ⟨k₀, as, n, hboot, hrun, hall, -⟩ :=
    allocator_refines oneEntry_ok oneEntry_inWindow h0 hr
  exact ⟨s₀, s, hr, k₀, as, n, hboot, hrun, hall⟩

theorem memory_isolated_small : ∃ s₀ s : State Bool,
    run (step 0xffff800000000000) s₀ (startAndSpawn true) = .ok s ∧
      s.held.map (fun x => x.2.start.val) = [0x7000, 0x6000, 0x5000, 0x4000, 0x3000, 0x2000] ∧
      s.held.Pairwise fun x y => Disjoint x.2.frames y.2.frames := by
  obtain ⟨s₀, s, h0, hr, hheld⟩ := startAndSpawn_runs
  exact ⟨s₀, s, hr, hheld, (memory_isolated oneEntry_ok oneEntry_inWindow h0 hr).2.2.2.1⟩

end OsRust.Backed
