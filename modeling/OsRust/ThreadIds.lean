import OsRust.Effects
import Mathlib.Data.List.InsertIdx
import Mathlib.Data.List.Nodup

/-!
Identifiers and slots: no identifier is given out twice, every thread in the table keeps its
slot, and the identifiers waiting to be made ready are those of the threads still `Born`.

An identifier is never reused because every spawn takes five frames that are never given
back, so the memory runs out before the counter wraps.
-/

namespace OsRust.ThreadIds

open OsRust.Ring OsRust.Task OsRust.Sched OsRust.Effects OsRust.Lib.Machine

variable {Cpu : Type} [DecidableEq Cpu]

/-- The identifier and the state of the thread in a slot. -/
def view (k : Kernel Cpu) (i : ℕ) : Option (UInt64 × ThreadState) :=
  (k.threads.get? (.slot i)).map fun t => (t.id, t.schedState.state)

/-- How many identifiers have been taken. The counter begins at 1 and may wrap after the last. -/
def spawned (k : Kernel Cpu) : ℕ := (k.threadIdCounter - 1).toNat

structure Ids (k : Kernel Cpu) : Prop where
  memory : 4 * spawned k + k.freeFrames < 4 * 2 ^ 64
  built : ∀ t ∈ k.built, 0 < t.id.toNat ∧ t.id.toNat ≤ spawned k ∧ t.schedState = ⟨none, .born⟩
  built_nodup : (k.built.map Thread.id).Nodup
  table : ∀ i id s, view k i = some (id, s) →
    0 < id.toNat ∧ id.toNat ≤ spawned k ∧ id ∉ k.built.map Thread.id ∧
      (s = .born ∨ s = .ready)
  inj : ∀ i j id s s', view k i = some (id, s) → view k j = some (id, s') → i = j
  added_nodup : k.added.Nodup
  added : ∀ id, id ∈ k.added ↔ ∃ i, view k i = some (id, .born)

variable {k k' : Kernel Cpu} {c o : Cpu}

omit [DecidableEq Cpu] in
lemma spawned_congr (h : k'.threadIdCounter = k.threadIdCounter) : spawned k' = spawned k := by
  rw [spawned, h, spawned]

omit [DecidableEq Cpu] in
/-- A step that leaves the counter, the two lists and the table's identifiers and states alone
keeps the invariant. -/
lemma Ids.congr (h : Ids k) (hc : k'.threadIdCounter = k.threadIdCounter)
    (hf : k'.freeFrames ≤ k.freeFrames) (hb : k'.built = k.built) (ha : k'.added = k.added)
    (hv : ∀ i, view k' i = view k i) : Ids k' where
  memory := by
    have := h.memory
    rw [spawned_congr hc]
    omega
  built := by
    rw [spawned_congr hc, hb]
    exact h.built
  built_nodup := hb ▸ h.built_nodup
  table := by
    intro i id s
    rw [hv, spawned_congr hc, hb]
    exact h.table i id s
  inj := by
    intro i j id s s'
    rw [hv, hv]
    exact h.inj i j id s s'
  added_nodup := ha ▸ h.added_nodup
  added := by
    intro id
    simp only [hv]
    rw [ha]
    exact h.added id

/-- A write to a thread that leaves its identifier and state alone cannot be seen here. -/
lemma view_modify {f : Thread Cpu → Thread Cpu} (hid : ∀ t, (f t).id = t.id)
    (hst : ∀ t, (f t).schedState.state = t.schedState.state) (a : ThreadAddr Cpu) (i : ℕ) :
    view { k with threads := k.threads.modify f a } i = view k i := by
  simp only [view, Threads.get?_modify]
  split
  · cases k.threads.get? (.slot i) <;> simp [hid, hst]
  · rfl

lemma view_shifted {s d : Cpu} {m : ℕ} (h : Shifted k k' s d m) (i : ℕ) :
    view k' i = view k i := by
  simp only [view, h.threads]
  split
  · cases k.threads.get? (.slot i) <;> simp [Thread.setCpu]
  · rfl

omit [DecidableEq Cpu] in
/-- As long as there is memory for a spawn, the counter is above every identifier in use. -/
lemma counter_toNat (h : Ids k) (hf : 4 ≤ k.freeFrames) :
    k.threadIdCounter.toNat = spawned k + 1 := by
  have hadd : k.threadIdCounter = (k.threadIdCounter - 1) + 1 := (UInt64.sub_add_cancel _ _).symm
  have hm := h.memory
  unfold spawned at hm ⊢
  rw [hadd, UInt64.toNat_add, UInt64.toNat_one, UInt64.add_sub_cancel]
  exact Nat.mod_eq_of_lt (by omega)

lemma Ids.spawnRaw {base : UInt64} (h : Ids k) (hs : step k (.spawnRaw c base) = .ok k') :
    Ids k' := by
  obtain ⟨-, hf, rfl⟩ := step_spawnRaw hs
  have hid := counter_toNat h hf
  have hc : ∀ f b, spawned { k with
      threadIdCounter := k.threadIdCounter + 1
      freeFrames := f
      built := b } = spawned k + 1 := by
    intro f b
    rw [← hid, spawned, UInt64.add_sub_cancel]
  have hv : ∀ i, view { k with
      threadIdCounter := k.threadIdCounter + 1
      freeFrames := k.freeFrames - 4
      built := k.built ++ [newThread k.threadIdCounter (Stack.new base 4)] } i = view k i :=
    fun i => rfl
  -- the identifier taken is above every one in use
  have hfresh : ∀ t ∈ k.built, t.id ≠ k.threadIdCounter := by
    intro t ht he
    have := (h.built t ht).2.1
    rw [he] at this
    omega
  refine ⟨?_, ?_, ?_, ?_, ?_, h.added_nodup, ?_⟩
  · have := h.memory
    rw [hc]
    show _ + (k.freeFrames - 4) < _
    omega
  · intro t ht
    rw [hc]
    rcases List.mem_append.mp ht with ht | ht
    · have := h.built t ht
      exact ⟨this.1, by omega, this.2.2⟩
    · rw [List.mem_singleton.mp ht]
      exact ⟨by simp [newThread, hid], Nat.le_of_eq hid, rfl⟩
  · simp only [List.map_append, List.nodup_append, List.map_cons, List.map_nil]
    refine ⟨h.built_nodup, by simp, ?_⟩
    intro a ha b hb
    obtain ⟨t, ht, rfl⟩ := List.mem_map.mp ha
    rw [List.mem_singleton.mp hb]
    exact hfresh t ht
  · intro i id s hi
    rw [hv] at hi
    obtain ⟨h1, h2, h3, h4⟩ := h.table i id s hi
    rw [hc]
    refine ⟨h1, by omega, ?_, h4⟩
    simp only [List.map_append, List.mem_append, not_or]
    refine ⟨h3, ?_⟩
    simp only [List.map_cons, List.map_nil, List.mem_singleton, newThread]
    rintro rfl
    omega
  · intro i j id s s' hi hj
    rw [hv] at hi hj
    exact h.inj i j id s s' hi hj
  · intro id
    simp only [hv]
    exact h.added id

lemma mem_eraseIdx_iff {α : Type*} {l : List α} {n : ℕ} {a b : α} (hl : l.Nodup)
    (hn : l[n]? = some a) : b ∈ l.eraseIdx n ↔ b ∈ l ∧ b ≠ a := by
  classical
  obtain ⟨hlt, rfl⟩ := List.getElem?_eq_some_iff.mp hn
  rw [← List.Nodup.erase_getElem hl n hlt, hl.mem_erase_iff, and_comm]

/-- What `add_thread` does, in terms of identifiers: it puts the thread in a free slot, or the
table is full and it does nothing. -/
lemma view_addThread {n : ℕ} (hs : step k (.addThread c n) = .ok k') :
    ∃ t, k.built[n]? = some t ∧ k'.built = k.built.eraseIdx n ∧
      k'.threadIdCounter = k.threadIdCounter ∧ k'.freeFrames = k.freeFrames ∧
      ((∃ i, view k i = none ∧ k'.added = k.added ++ [t.id] ∧
          ∀ j, view k' j = if j = i then some (t.id, t.schedState.state) else view k j) ∨
        k'.added = k.added ∧ ∀ j, view k' j = view k j) := by
  obtain ⟨-, t, ht, rfl⟩ := step_addThread hs
  refine ⟨t, ht, rfl, rfl, rfl, ?_⟩
  rcases addThread_cases k.threads.table t with ⟨i, tbl, he, -, hi, hj⟩ | ⟨-, he⟩
  · refine .inl ⟨i, by simp [view, Threads.get?, hi], by simp [he], fun j => ?_⟩
    simp only [view, Threads.get?, he, hj]
    split <;> rfl
  · exact .inr ⟨by simp [he], fun j => by simp [view, Threads.get?, he]⟩

omit [DecidableEq Cpu] in
/-- A thread built is taken from the list, and is nowhere then. -/
lemma Ids.dropBuilt {n : ℕ} {t : Thread Cpu} (h : Ids k) (ht : k.built[n]? = some t) :
    Ids { k with built := k.built.eraseIdx n } ∧
      t.id ∉ (k.built.eraseIdx n).map Thread.id ∧ ∀ i s, view k i ≠ some (t.id, s) := by
  have hids : (k.built.map Thread.id)[n]? = some t.id := by simp [ht]
  have hmem : ∀ id, id ∈ (k.built.eraseIdx n).map Thread.id ↔
      id ∈ k.built.map Thread.id ∧ id ≠ t.id := by
    intro id
    rw [← List.eraseIdx_map]
    exact mem_eraseIdx_iff h.built_nodup hids
  refine ⟨⟨h.memory, fun u hu => h.built u (List.mem_of_mem_eraseIdx hu), ?_, ?_, h.inj,
    h.added_nodup, h.added⟩, ?_, ?_⟩
  · simp only [← List.eraseIdx_map]
    exact h.built_nodup.eraseIdx n
  · intro i id s hi
    obtain ⟨h1, h2, h3, h4⟩ := h.table i id s hi
    exact ⟨h1, h2, fun hin => h3 ((hmem id).mp hin).1, h4⟩
  · rw [hmem]
    exact fun hin => hin.2 rfl
  · intro i s hi
    exact (h.table i _ s hi).2.2.1 (List.mem_map_of_mem (List.mem_of_getElem? ht))

omit [DecidableEq Cpu] in
/-- A thread that is nowhere is put in a free slot. -/
lemma Ids.put {i : ℕ} {id : UInt64} (h : Ids k) (hpos : 0 < id.toNat)
    (hle : id.toNat ≤ spawned k) (hbuilt : id ∉ k.built.map Thread.id)
    (hnew : ∀ j s, view k j ≠ some (id, s)) (hi : view k i = none)
    (hc : k'.threadIdCounter = k.threadIdCounter) (hf : k'.freeFrames = k.freeFrames)
    (hb : k'.built = k.built) (ha : k'.added = k.added ++ [id])
    (hv : ∀ j, view k' j = if j = i then some (id, .born) else view k j) : Ids k' := by
  refine ⟨by rw [spawned_congr hc, hf]; exact h.memory, ?_, hb ▸ h.built_nodup, ?_, ?_, ?_, ?_⟩
  · rw [spawned_congr hc, hb]
    exact h.built
  · intro j id' s hj
    rw [hv] at hj
    rw [spawned_congr hc, hb]
    split at hj
    · cases hj
      exact ⟨hpos, hle, hbuilt, .inl rfl⟩
    · exact h.table j id' s hj
  · intro j l id' s s' hj hl
    rw [hv] at hj hl
    split at hj <;> split at hl
    · next h1 h2 => rw [h1, h2]
    · cases hj
      exact absurd hl (hnew l s')
    · cases hl
      exact absurd hj (hnew j s)
    · exact h.inj j l id' s s' hj hl
  · rw [ha, List.nodup_append]
    refine ⟨h.added_nodup, by simp, ?_⟩
    intro a haa b hb' he
    rw [List.mem_singleton.mp hb'] at he
    obtain ⟨j, hj⟩ := (h.added a).mp haa
    exact hnew j _ (he ▸ hj)
  · intro id'
    rw [ha, List.mem_append, h.added, List.mem_singleton]
    constructor
    · rintro (⟨j, hj⟩ | rfl)
      · refine ⟨j, ?_⟩
        rw [hv, if_neg, hj]
        rintro rfl
        rw [hi] at hj
        cases hj
      · exact ⟨i, by rw [hv, if_pos rfl]⟩
    · rintro ⟨j, hj⟩
      rw [hv] at hj
      split at hj
      · simp only [Option.some.injEq, Prod.mk.injEq] at hj
        exact .inr hj.1.symm
      · exact .inl ⟨j, hj⟩

lemma Ids.addThread {n : ℕ} (h : Ids k) (hs : step k (.addThread c n) = .ok k') : Ids k' := by
  obtain ⟨t, ht, hb, hc, hf, hcase⟩ := view_addThread hs
  obtain ⟨hpos, hle, hst⟩ := h.built t (List.mem_of_getElem? ht)
  obtain ⟨hdrop, hbuilt, hnew⟩ := h.dropBuilt ht
  rcases hcase with ⟨i, hi, ha, hv⟩ | ⟨ha, hv⟩
  · refine hdrop.put hpos hle hbuilt hnew hi hc hf hb ha fun j => ?_
    rw [hv, hst]
    rfl
  · exact hdrop.congr hc (Nat.le_of_eq hf) hb ha hv

omit [DecidableEq Cpu] in
/-- `get_thread_mut` finds the thread whose identifier is waiting, in the state `Born`. -/
lemma Ids.find (h : Ids k) {n : ℕ} {id : UInt64} (hn : k.added[n]? = some id) :
    ∃ i, k.threads.table.getThreadMut id = some i ∧ view k i = some (id, .born) := by
  obtain ⟨j, hj⟩ := (h.added id).mp (List.mem_of_getElem? hn)
  obtain ⟨t, ht, he⟩ := Option.map_eq_some_iff.mp hj
  obtain ⟨hid, -⟩ := Prod.mk.inj he
  cases hg : k.threads.table.getThreadMut id with
  | none => exact absurd hid (getThreadMut_none hg ht)
  | some i =>
    obtain ⟨u, hu, huid⟩ := getThreadMut_some hg
    have hi : view k i = some (id, u.schedState.state) := by simp [view, Threads.get?, hu, huid]
    obtain rfl := h.inj i j id _ _ hi hj
    exact ⟨i, rfl, hj⟩

/-- What making a thread ready does: the thread whose identifier was waiting is found, and its
state is `Ready` from then on. -/
lemma view_readyAdded {n : ℕ} (h : Ids k) (hwf : QueuesWf k)
    (hs : step k (.readyAdded c n) = .ok k') :
    ∃ id i, k.added[n]? = some id ∧ view k i = some (id, .born) ∧
      k'.added = k.added.eraseIdx n ∧ k'.built = k.built ∧
      k'.threadIdCounter = k.threadIdCounter ∧ k'.freeFrames = k.freeFrames ∧
      ∀ j, view k' j = if j = i then some (id, .ready) else view k j := by
  obtain ⟨-, id, i, hid, hi, q, -, -, rfl⟩ := step_readyAdded hwf hs
  obtain ⟨i', hi', hv⟩ := h.find hid
  rw [hi] at hi'
  cases hi'
  refine ⟨id, i, hid, hv, rfl, rfl, rfl, rfl, fun j => ?_⟩
  obtain ⟨t, ht, he⟩ := Option.map_eq_some_iff.mp hv
  obtain ⟨rfl, -⟩ := Prod.mk.inj he
  simp only [view, Threads.get?_modify, ThreadAddr.slot.injEq]
  by_cases hji : j = i
  · subst hji
    simp [ht, Thread.markReady]
  · simp [hji]

lemma Ids.readyAdded {n : ℕ} (h : Ids k) (hwf : QueuesWf k)
    (hs : step k (.readyAdded c n) = .ok k') : Ids k' := by
  obtain ⟨id, i, hid, hi, ha, hb, hc, hf, hv⟩ := view_readyAdded h hwf hs
  have hold : ∀ j id' s, view k' j = some (id', s) → ∃ s', view k j = some (id', s') := by
    intro j id' s hj
    rw [hv] at hj
    split at hj
    · next hji =>
      cases hj
      exact ⟨_, hji ▸ hi⟩
    · exact ⟨s, hj⟩
  refine ⟨by rw [spawned_congr hc, hf]; exact h.memory, ?_, hb ▸ h.built_nodup, ?_, ?_, ?_, ?_⟩
  · rw [hb, spawned_congr hc]
    exact h.built
  · intro j id' s hj
    obtain ⟨s', hs'⟩ := hold j id' s hj
    obtain ⟨h1, h2, h3, h4⟩ := h.table j id' s' hs'
    rw [spawned_congr hc, hb]
    refine ⟨h1, h2, h3, ?_⟩
    rw [hv] at hj
    split at hj
    · cases hj
      exact .inr rfl
    · exact (h.table j id' s hj).2.2.2
  · intro j l id' s s' hj hl
    obtain ⟨u, hu⟩ := hold j id' s hj
    obtain ⟨u', hu'⟩ := hold l id' s' hl
    exact h.inj j l id' u u' hu hu'
  · rw [ha]
    exact h.added_nodup.eraseIdx n
  · intro id'
    rw [ha, mem_eraseIdx_iff h.added_nodup hid, h.added]
    constructor
    · rintro ⟨⟨j, hj⟩, hne⟩
      refine ⟨j, ?_⟩
      rw [hv, if_neg, hj]
      rintro rfl
      rw [hi] at hj
      cases hj
      exact hne rfl
    · rintro ⟨j, hj⟩
      rw [hv] at hj
      split at hj
      · cases hj
      · next hji =>
        refine ⟨⟨j, hj⟩, ?_⟩
        rintro rfl
        exact hji (h.inj j i _ _ _ hj hi)

end OsRust.ThreadIds
