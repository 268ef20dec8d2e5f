import OsRust.Basic
import Mathlib.Data.List.Basic

/-!
Threads, the table they live in, and the addresses the scheduler knows them by.

A slot of the table never moves, so the address of a spawned thread is the number of its
slot; the idle thread of a CPU lives in that CPU's TLS page. CPUs are named by their
`cpu_id`.
-/

namespace OsRust.Task

inductive ThreadState
  | born
  | ready
  | running
  | blocked
  | zombie
  deriving DecidableEq, Repr

structure SchedState (Cpu : Type*) where
  cpu : Option Cpu
  state : ThreadState

structure Stack where
  base : UInt64
  size : UInt64
  deriving DecidableEq, Repr

/-- `Stack::new(num_pages)`, on the frames the allocator handed out at `base`. -/
def Stack.new (base : UInt64) (numPages : ℕ) : Stack := ⟨base, UInt64.ofNat (numPages * 4096)⟩

def Stack.getTopAddress (s : Stack) : UInt64 := s.base + s.size

/-- `size_of::<CpuRegsOnStack>()`: twenty words. -/
def regsSize : UInt64 := 160

structure Thread (Cpu : Type*) where
  regs : UInt64
  id : UInt64
  kernelStack : Stack
  schedState : SchedState Cpu

inductive ThreadAddr (Cpu : Type*)
  | null
  | idle (cpu : Cpu)
  | slot (index : ℕ)
  deriving DecidableEq, Repr

variable {Cpu : Type*}

/-- The thread `spawn_raw` builds around its identifier and stack. -/
def newThread (id : UInt64) (stack : Stack) : Thread Cpu where
  regs := stack.getTopAddress - regsSize
  id := id
  kernelStack := stack
  schedState := ⟨none, .born⟩

/-- `Thread::new_idle`, on a stack of one page. -/
def newIdle (stack : Stack) : Thread Cpu where
  regs := stack.getTopAddress - regsSize
  id := 0
  kernelStack := stack
  schedState := ⟨none, .ready⟩

/-! ### The table -/

structure ThreadTable (Cpu : Type*) where
  threads : List (Option (Thread Cpu))
  size : threads.length = 256

def ThreadTable.new : ThreadTable Cpu := ⟨List.replicate 256 none, List.length_replicate⟩

/-- The loop of `add_thread`: the first free slot takes the thread. -/
def addLoop : List (Option (Thread Cpu)) → Thread Cpu → List (Option (Thread Cpu)) × Bool
  | [], _ => ([], false)
  | none :: rest, t => (some t :: rest, true)
  | some u :: rest, t =>
    let r := addLoop rest t
    (some u :: r.1, r.2)

/-- The loop of `get_thread_mut`: the first slot whose thread has the identifier. -/
def getLoop : List (Option (Thread Cpu)) → UInt64 → Option ℕ
  | [], _ => none
  | none :: rest, id => (getLoop rest id).map (· + 1)
  | some t :: rest, id => if t.id = id then some 0 else (getLoop rest id).map (· + 1)

lemma addLoop_cases (l : List (Option (Thread Cpu))) (t : Thread Cpu) :
    (∃ i, l[i]? = some none ∧ addLoop l t = (l.set i (some t), true)) ∨
      none ∉ l ∧ addLoop l t = (l, false) := by
  induction l with
  | nil => exact .inr ⟨by simp, rfl⟩
  | cons s rest ih =>
    cases s with
    | none => exact .inl ⟨0, rfl, rfl⟩
    | some u =>
      rcases ih with ⟨i, hi, he⟩ | ⟨hf, he⟩
      · exact .inl ⟨i + 1, by simpa using hi, by simp [addLoop, he]⟩
      · exact .inr ⟨by simpa using hf, by simp [addLoop, he]⟩

lemma addLoop_length (l : List (Option (Thread Cpu))) (t : Thread Cpu) :
    (addLoop l t).1.length = l.length := by
  rcases addLoop_cases l t with ⟨i, -, he⟩ | ⟨-, he⟩ <;> simp [he]

lemma getLoop_some {l : List (Option (Thread Cpu))} {id : UInt64} {i : ℕ}
    (h : getLoop l id = some i) : ∃ t, l[i]? = some (some t) ∧ t.id = id := by
  induction l generalizing i with
  | nil => simp [getLoop] at h
  | cons s rest ih =>
    cases s with
    | none =>
      simp only [getLoop, Option.map_eq_some_iff] at h
      obtain ⟨j, hj, rfl⟩ := h
      simpa using ih hj
    | some t =>
      rw [getLoop] at h
      split at h
      · next hid =>
        cases h
        exact ⟨t, rfl, hid⟩
      · obtain ⟨j, hj, rfl⟩ := Option.map_eq_some_iff.mp h
        simpa using ih hj

lemma getLoop_none {l : List (Option (Thread Cpu))} {id : UInt64} (h : getLoop l id = none) :
    ∀ t, some t ∈ l → t.id ≠ id := by
  induction l with
  | nil => simp
  | cons s rest ih =>
    cases s with
    | none => simpa [getLoop] using ih (by simpa [getLoop] using h)
    | some u =>
      rw [getLoop] at h
      split at h
      · cases h
      · next hid =>
        have := ih (by simpa using h)
        simpa [hid] using this

def ThreadTable.addThread (tbl : ThreadTable Cpu) (t : Thread Cpu) : ThreadTable Cpu × Bool :=
  (⟨(addLoop tbl.threads t).1, by rw [addLoop_length, tbl.size]⟩, (addLoop tbl.threads t).2)

/-- `get_thread_mut`: the slot of the thread found. -/
def ThreadTable.getThreadMut (tbl : ThreadTable Cpu) (id : UInt64) : Option ℕ :=
  getLoop tbl.threads id

/-- The thread in a slot. -/
def ThreadTable.get? (tbl : ThreadTable Cpu) (i : ℕ) : Option (Thread Cpu) :=
  tbl.threads[i]?.join

def ThreadTable.modify (tbl : ThreadTable Cpu) (i : ℕ) (f : Thread Cpu → Thread Cpu) :
    ThreadTable Cpu :=
  ⟨tbl.threads.modify i (Option.map f), by rw [List.length_modify, tbl.size]⟩

@[simp] lemma get?_new (i : ℕ) : (ThreadTable.new : ThreadTable Cpu).get? i = none := by
  rw [ThreadTable.get?, ThreadTable.new, List.getElem?_replicate]
  split <;> rfl

lemma get?_modify (tbl : ThreadTable Cpu) (i j : ℕ) (f : Thread Cpu → Thread Cpu) :
    (tbl.modify i f).get? j = if j = i then (tbl.get? j).map f else tbl.get? j := by
  simp only [ThreadTable.modify, ThreadTable.get?, List.getElem?_modify]
  split
  · next h =>
    rw [if_pos h.symm]
    cases h1 : tbl.threads[j]? with
    | none => simp
    | some s => cases s <;> simp
  · next h =>
    rw [if_neg (Ne.symm h)]
    cases tbl.threads[j]? <;> rfl

lemma lt_of_get? {tbl : ThreadTable Cpu} {i : ℕ} {t : Thread Cpu} (h : tbl.get? i = some t) :
    i < 256 := by
  rw [ThreadTable.get?, Option.join_eq_some_iff] at h
  have := (List.getElem?_eq_some_iff.mp h).1
  rwa [tbl.size] at this

/-- The two outcomes of `add_thread`: a free slot is filled and nothing else changes, or
there is none and nothing changes. -/
lemma addThread_cases (tbl : ThreadTable Cpu) (t : Thread Cpu) :
    (∃ i tbl', tbl.addThread t = (tbl', true) ∧ i < 256 ∧ tbl.get? i = none ∧
        ∀ j, tbl'.get? j = if j = i then some t else tbl.get? j) ∨
      (∀ i < 256, tbl.get? i ≠ none) ∧ tbl.addThread t = (tbl, false) := by
  rcases addLoop_cases tbl.threads t with ⟨i, hi, he⟩ | ⟨hf, he⟩
  · have hlt : i < tbl.threads.length := (List.getElem?_eq_some_iff.mp hi).1
    refine .inl ⟨i, ⟨tbl.threads.set i (some t), by rw [List.length_set, tbl.size]⟩,
      by simp [ThreadTable.addThread, he], by rwa [tbl.size] at hlt,
      by simp [ThreadTable.get?, hi], fun j => ?_⟩
    simp only [ThreadTable.get?, List.getElem?_set]
    by_cases hij : i = j
    · subst hij
      simp [hlt]
    · simp [hij, Ne.symm hij]
  · refine .inr ⟨fun i hi h0 => hf ?_, by simp [ThreadTable.addThread, he]⟩
    have hlt : i < tbl.threads.length := by rwa [tbl.size]
    rw [ThreadTable.get?, List.getElem?_eq_getElem hlt, Option.join_some] at h0
    exact h0 ▸ List.getElem_mem hlt

lemma getThreadMut_some {tbl : ThreadTable Cpu} {id : UInt64} {i : ℕ}
    (h : tbl.getThreadMut id = some i) : ∃ t, tbl.get? i = some t ∧ t.id = id := by
  obtain ⟨t, ht, hid⟩ := getLoop_some h
  exact ⟨t, by simp [ThreadTable.get?, ht], hid⟩

lemma getThreadMut_none {tbl : ThreadTable Cpu} {id : UInt64} (h : tbl.getThreadMut id = none)
    {i : ℕ} {t : Thread Cpu} (ht : tbl.get? i = some t) : t.id ≠ id := by
  refine getLoop_none h t ?_
  rw [ThreadTable.get?, Option.join_eq_some_iff] at ht
  exact List.mem_of_getElem? ht

/-! ### Threads by address -/

/-- All threads there are: those of the table, and the `idle_thread` of every TLS page. -/
structure Threads (Cpu : Type*) where
  table : ThreadTable Cpu
  idle : Cpu → Thread Cpu

def Threads.get? (th : Threads Cpu) : ThreadAddr Cpu → Option (Thread Cpu)
  | .null => none
  | .idle c => some (th.idle c)
  | .slot i => th.table.get? i

variable [DecidableEq Cpu]

def Threads.modify (th : Threads Cpu) (f : Thread Cpu → Thread Cpu) :
    ThreadAddr Cpu → Threads Cpu
  | .null => th
  | .idle c => { th with idle := fun d => if d = c then f (th.idle d) else th.idle d }
  | .slot i => { th with table := th.table.modify i f }

/-- A write through `*const Thread`. -/
def Threads.write (th : Threads Cpu) (a : ThreadAddr Cpu) (f : Thread Cpu → Thread Cpu) :
    Res (Threads Cpu) :=
  match th.get? a with
  | none => .error .undef
  | some _ => .ok (th.modify f a)

/-- `thread.sched_state.lock().cpu = Some(c)`. -/
def Thread.setCpu (c : Cpu) (t : Thread Cpu) : Thread Cpu :=
  { t with schedState := { t.schedState with cpu := some c } }

/-- What `ready` writes to the thread: `state` and `cpu`. -/
def Thread.markReady (c : Cpu) (t : Thread Cpu) : Thread Cpu :=
  { t with schedState := ⟨some c, .ready⟩ }

omit [DecidableEq Cpu] in
@[simp] lemma Thread.setCpu_setCpu (c : Cpu) (t : Thread Cpu) :
    (t.setCpu c).setCpu c = t.setCpu c := rfl

lemma Threads.get?_modify (th : Threads Cpu) (f : Thread Cpu → Thread Cpu)
    (a b : ThreadAddr Cpu) :
    (th.modify f a).get? b = if b = a then (th.get? b).map f else th.get? b := by
  cases a <;> cases b <;> simp [Threads.modify, Threads.get?, OsRust.Task.get?_modify]
  split <;> rfl

lemma Threads.write_ok {th th' : Threads Cpu} {a : ThreadAddr Cpu}
    {f : Thread Cpu → Thread Cpu} :
    th.write a f = .ok th' ↔ (th.get? a).isSome ∧ th' = th.modify f a := by
  unfold Threads.write
  cases h : th.get? a <;> simp [eq_comm]

end OsRust.Task
