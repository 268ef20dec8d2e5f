import OsRust.Placement

/-!
The slots of the thread table over whole runs: a thread stays where `add_thread` has put it, it
is found there by its identifier, and an identifier that found no slot is never found.

Ready queues and `thread_addr` keep raw addresses of slots, so they go on meaning the same
thread.
-/

namespace OsRust.Slots

open OsRust.Ring OsRust.Task OsRust.Sched OsRust.Effects OsRust.ThreadIds OsRust.Placement
open OsRust.Lib.Machine

variable {Cpu : Type} [DecidableEq Cpu]

/-- What never changes of the thread in a slot: its identifier and its kernel stack. -/
def occupant (k : Kernel Cpu) (i : ℕ) : Option (UInt64 × Stack) :=
  (k.threads.table.get? i).map fun t => (t.id, t.kernelStack)

/-- The identifier was taken, and its thread is not on the way to the table. -/
structure Taken (k : Kernel Cpu) (id : UInt64) : Prop where
  taken : id.toNat ≤ spawned k
  built : id ∉ k.built.map Thread.id

/-- Nor is it in the table. -/
structure Gone (k : Kernel Cpu) (id : UInt64) : Prop extends Taken k id where
  table : ∀ i s, view k i ≠ some (id, s)

variable {k k' : Kernel Cpu} {c : Cpu} {i n : ℕ} {t : Thread Cpu} {id : UInt64} {v : UInt64 × Stack}

omit [DecidableEq Cpu] in
lemma exists_view (ht : k.threads.table.get? i = some t) :
    view k i = some (t.id, t.schedState.state) := by
  simp [view, Threads.get?, ht]

/-! ### One step -/

/-- A write to a thread that leaves its identifier and its stack alone cannot be seen here. -/
lemma occupant_modify {f : Thread Cpu → Thread Cpu} (hid : ∀ t, (f t).id = t.id)
    (hstack : ∀ t, (f t).kernelStack = t.kernelStack) (a : ThreadAddr Cpu) (i : ℕ)
    (h : ∀ j, k'.threads.table.get? j = (k.threads.modify f a).get? (.slot j)) :
    occupant k' i = occupant k i := by
  rw [occupant, h, Threads.get?_modify, occupant]
  split
  · simp [Threads.get?, Function.comp_def, hid, hstack]
  · rfl

lemma occupant_shifted {s d : Cpu} {m : ℕ} (h : Shifted k k' s d m) (i : ℕ) :
    occupant k' i = occupant k i := by
  have hthread := h.threads (.slot i)
  simp only [Threads.get?] at hthread
  rw [occupant, hthread, occupant]
  split
  · simp [Thread.setCpu, Function.comp_def]
  · rfl

/-- **No step moves or overwrites a thread.** -/
lemma occupant_step {a : Act Cpu} (hwf : QueuesWf k) (hs : step k a = .ok k')
    (h : occupant k i = some v) : occupant k' i = some v := by
  cases a with
  | allocFrame =>
    obtain ⟨-, rfl⟩ := step_allocFrame hs
    exact h
  | setupTls c base =>
    obtain ⟨-, rfl⟩ := step_setupTls hs
    exact h
  | forceSwitchToIdle c =>
    obtain ⟨-, -, rfl⟩ := step_forceSwitchToIdle hs
    exact h
  | spawnRaw c base =>
    obtain ⟨-, -, rfl⟩ := step_spawnRaw hs
    exact h
  | addThread c n =>
    obtain ⟨-, t, -, rfl⟩ := step_addThread hs
    rcases addThread_cases k.threads.table t with ⟨j, tbl, he, -, hj, hget⟩ | ⟨-, he⟩
    · -- the slot filled was free
      have hij : i ≠ j := by
        rintro rfl
        rw [occupant, hj] at h
        cases h
      rw [occupant] at h ⊢
      simp only [he, hget, if_neg hij]
      exact h
    · rw [occupant] at h ⊢
      simp only [he]
      exact h
  | readyAdded c n =>
    obtain ⟨-, _, j, -, -, _, -, -, rfl⟩ := step_readyAdded hwf hs
    rw [occupant_modify (k := k) (f := Thread.markReady c) (fun _ => rfl) (fun _ => rfl) (.slot j) i
      fun _ => rfl]
    exact h
  | saveRsp c rsp =>
    obtain ⟨-, -, rfl⟩ := step_saveRsp hs
    rw [occupant_modify (k := k) (f := fun t => { t with regs := rsp }) (fun _ => rfl) (fun _ => rfl)
      (current k c) i fun _ => rfl]
    exact h
  | switch c =>
    obtain ⟨-, t, -, rfl⟩ := step_switch hs
    exact h
  | maybeLoadBalance c o =>
    obtain ⟨-, rfl | ⟨-, s, d, m, -, hB⟩⟩ := step_maybeLoadBalance hwf hs
    · exact h
    · rw [occupant_shifted hB.toShifted]
      exact h

omit [DecidableEq Cpu] in
lemma Taken.congr (h : Taken k id) (hc : k'.threadIdCounter = k.threadIdCounter)
    (hb : ∀ t ∈ k'.built, t ∈ k.built) : Taken k' id where
  taken := by
    rw [spawned_congr hc]
    exact h.taken
  built hid := by
    obtain ⟨t, ht, rfl⟩ := List.mem_map.mp hid
    exact h.built (List.mem_map_of_mem (hb t ht))

lemma Taken.spawnRaw {base : UInt64} (h : Taken k id) (hids : Ids k)
    (hs : step k (.spawnRaw c base) = .ok k') : Taken k' id := by
  obtain ⟨-, hf, rfl⟩ := step_spawnRaw hs
  have hnew := counter_toNat hids hf
  have htaken := h.taken
  refine ⟨?_, ?_⟩
  · rw [spawned]
    simp only [UInt64.add_sub_cancel]
    omega
  · -- the identifier taken now is a new one
    simp only [List.map_append, List.map_cons, List.map_nil, List.mem_append, List.mem_singleton,
      not_or]
    refine ⟨h.built, ?_⟩
    rintro rfl
    simp only [newThread] at htaken
    omega

/-- **An identifier is taken once.** -/
lemma Taken.step {a : Act Cpu} (h : Taken k id) (hids : Ids k) (hwf : QueuesWf k)
    (hs : step k a = .ok k') : Taken k' id := by
  cases a with
  | allocFrame =>
    obtain ⟨-, rfl⟩ := step_allocFrame hs
    exact h.congr rfl fun _ ht => ht
  | setupTls c base =>
    obtain ⟨-, rfl⟩ := step_setupTls hs
    exact h.congr rfl fun _ ht => ht
  | forceSwitchToIdle c =>
    obtain ⟨-, -, rfl⟩ := step_forceSwitchToIdle hs
    exact h.congr rfl fun _ ht => ht
  | spawnRaw c base => exact h.spawnRaw hids hs
  | addThread c n =>
    obtain ⟨-, t, -, rfl⟩ := step_addThread hs
    exact h.congr rfl fun _ ht => List.mem_of_mem_eraseIdx ht
  | readyAdded c n =>
    obtain ⟨-, _, _, -, -, _, -, -, rfl⟩ := step_readyAdded hwf hs
    exact h.congr rfl fun _ ht => ht
  | saveRsp c rsp =>
    obtain ⟨-, -, rfl⟩ := step_saveRsp hs
    exact h.congr rfl fun _ ht => ht
  | switch c =>
    obtain ⟨-, t, -, rfl⟩ := step_switch hs
    exact h.congr rfl fun _ ht => ht
  | maybeLoadBalance c o =>
    obtain ⟨-, rfl | ⟨-, s, d, m, -, hB⟩⟩ := step_maybeLoadBalance hwf hs
    · exact h
    · have hrest := hB.rest
      refine h.congr (by rw [hrest]) fun t ht => ?_
      rwa [hrest] at ht

/-- A slot that shows an identifier after a step showed it before, or was filled by a thread on the
way to the table. -/
lemma view_step {a : Act Cpu} {s : ThreadState} (hids : Ids k) (hwf : QueuesWf k)
    (hs : step k a = .ok k') (hi : view k' i = some (id, s)) :
    (∃ s', view k i = some (id, s')) ∨ id ∈ k.built.map Thread.id := by
  cases a with
  | allocFrame =>
    obtain ⟨-, rfl⟩ := step_allocFrame hs
    exact .inl ⟨s, hi⟩
  | setupTls c base =>
    obtain ⟨-, rfl⟩ := step_setupTls hs
    exact .inl ⟨s, hi⟩
  | forceSwitchToIdle c =>
    obtain ⟨-, -, rfl⟩ := step_forceSwitchToIdle hs
    exact .inl ⟨s, hi⟩
  | spawnRaw c base =>
    obtain ⟨-, -, rfl⟩ := step_spawnRaw hs
    exact .inl ⟨s, hi⟩
  | addThread c n =>
    obtain ⟨t, ht, -, -, -, ⟨j, -, -, hv⟩ | ⟨-, hv⟩⟩ := view_addThread hs
    · rw [hv] at hi
      split at hi
      · cases hi
        exact .inr (List.mem_map_of_mem (List.mem_of_getElem? ht))
      · exact .inl ⟨s, hi⟩
    · rw [hv] at hi
      exact .inl ⟨s, hi⟩
  | readyAdded c n =>
    obtain ⟨id', j, -, hj, -, -, -, -, hv⟩ := view_readyAdded hids hwf hs
    rw [hv] at hi
    split at hi
    · next hij =>
      cases hi
      exact .inl ⟨_, hij ▸ hj⟩
    · exact .inl ⟨s, hi⟩
  | saveRsp c rsp =>
    obtain ⟨-, -, rfl⟩ := step_saveRsp hs
    have hv := view_modify (k := k) (f := fun t => { t with regs := rsp }) (fun _ => rfl)
      (fun _ => rfl) (current k c) i
    exact .inl ⟨s, hv ▸ hi⟩
  | switch c =>
    obtain ⟨-, t, -, rfl⟩ := step_switch hs
    exact .inl ⟨s, hi⟩
  | maybeLoadBalance c o =>
    obtain ⟨-, rfl | ⟨-, s', d, m, -, hB⟩⟩ := step_maybeLoadBalance hwf hs
    · exact .inl ⟨s, hi⟩
    · rw [view_shifted hB.toShifted] at hi
      exact .inl ⟨s, hi⟩

/-- **An identifier that is gone stays gone.** -/
lemma Gone.step {a : Act Cpu} (h : Gone k id) (hids : Ids k) (hwf : QueuesWf k)
    (hs : step k a = .ok k') : Gone k' id where
  toTaken := h.toTaken.step hids hwf hs
  table i s hi := by
    rcases view_step hids hwf hs hi with ⟨s', hi'⟩ | hb
    · exact h.table i s' hi'
    · exact h.built hb

/-! ### Runs -/

variable [Fintype Cpu] {as : List (Act Cpu)}

/-- What a step keeps of a kernel whose threads are placed, a run keeps. -/
lemma placed_run {I : Kernel Cpu → Prop}
    (hstep : ∀ k a k', Placed k → I k → step k a = .ok k' → I k') (hp : Placed k) (h : I k)
    (hr : run step k as = .ok k') : Placed k' ∧ I k' :=
  run_keeps (I := fun k => Placed k ∧ I k)
    (fun k a k' hi hs => ⟨hi.1.step hs, hstep k a k' hi.1 hi.2 hs⟩) ⟨hp, h⟩ hr

omit [DecidableEq Cpu] [Fintype Cpu] in
lemma Gone.not_found (h : Gone k id) : k.threads.table.getThreadMut id = none := by
  cases hg : k.threads.table.getThreadMut id with
  | none => rfl
  | some i =>
    obtain ⟨t, ht, hid⟩ := getThreadMut_some hg
    exact absurd (hid ▸ exists_view ht) (h.table i _)

omit [DecidableEq Cpu] [Fintype Cpu] in
/-- A thread in the table is found by its identifier, and no other has it. -/
lemma found (h : Ids k) (ht : k.threads.table.get? i = some t) :
    k.threads.table.getThreadMut t.id = some i ∧
      ∀ j u, k.threads.table.get? j = some u → u.id = t.id → j = i := by
  have hinj : ∀ j u, k.threads.table.get? j = some u → u.id = t.id → j = i := by
    intro j u hu hid
    exact h.inj j i t.id _ _ (hid ▸ exists_view hu) (exists_view ht)
  refine ⟨?_, hinj⟩
  cases hg : k.threads.table.getThreadMut t.id with
  | none => exact absurd rfl (getThreadMut_none hg ht)
  | some j =>
    obtain ⟨u, hu, hid⟩ := getThreadMut_some hg
    rw [hinj j u hu hid]

/-- The thread with this identifier and this stack is in the slot and found there, and no other
thread has the identifier. -/
structure StandsIn (k : Kernel Cpu) (t : Thread Cpu) (i : ℕ) : Prop where
  slot : ∃ u, k.threads.table.get? i = some u ∧ u.id = t.id ∧ u.kernelStack = t.kernelStack
  found : k.threads.table.getThreadMut t.id = some i
  only : ∀ j u, k.threads.table.get? j = some u → u.id = t.id → j = i

omit [DecidableEq Cpu] [Fintype Cpu] in
lemma standsIn_of_occupant (h : Ids k) (ho : occupant k i = some (t.id, t.kernelStack)) :
    StandsIn k t i := by
  obtain ⟨u, hu, he⟩ := Option.map_eq_some_iff.mp ho
  obtain ⟨hid, hstack⟩ := Prod.mk.inj he
  obtain ⟨hfound, honly⟩ := found h hu
  rw [hid] at hfound honly
  exact ⟨⟨u, hu, hid, hstack⟩, hfound, honly⟩

omit [DecidableEq Cpu] [Fintype Cpu] in
/-- `add_thread` fails exactly when every slot is taken, and then changes nothing. -/
lemma addThread_false_iff (tbl : ThreadTable Cpu) (t : Thread Cpu) :
    ((tbl.addThread t).2 = false ↔ ∀ i < 256, tbl.get? i ≠ none) ∧
      ((tbl.addThread t).2 = false → (tbl.addThread t).1 = tbl) := by
  rcases addThread_cases tbl t with ⟨i, tbl', he, hi, hfree, -⟩ | ⟨hfull, he⟩
  · rw [he]
    exact ⟨⟨fun h => (nomatch h), fun h => absurd hfree (h i hi)⟩, fun h => (nomatch h)⟩
  · rw [he]
    exact ⟨⟨fun _ => hfull, fun _ => rfl⟩, fun _ => rfl⟩

/-- **Identifiers and slots are stable.** A thread that `add_thread` takes has an identifier that is
not 0 and that no spawn gets again, and stands in its slot in every later state; one that it does
not take, which happens when all slots are taken and changes nothing, is never found. -/
theorem ids_and_slots_stable {k₁ : Kernel Cpu} (h : Reached k) (ht : k.built[n]? = some t)
    (hs : step k (.addThread c n) = .ok k₁) :
    t.id ≠ 0 ∧
      ((k.threads.table.addThread t).2 = false ↔ ∀ i < 256, k.threads.table.get? i ≠ none) ∧
      ((k.threads.table.addThread t).2 = false → k₁.threads = k.threads ∧
        ∀ as k', run step k₁ as = .ok k' → k'.threads.table.getThreadMut t.id = none) ∧
      ((k.threads.table.addThread t).2 = true → ∃ i < 256, k.threads.table.get? i = none ∧
        ∀ as k', run step k₁ as = .ok k' → StandsIn k' t i) ∧
      ∀ as k', run step k₁ as = .ok k' → ∀ t' ∈ k'.built, t'.id ≠ t.id := by
  have hp := placed_of_reached h
  have hp₁ := hp.step hs
  have hbuilt := hp.ids.built t (List.mem_of_getElem? ht)
  have hinv := addThread_false_iff k.threads.table t
  obtain ⟨-, t', ht', rfl⟩ := step_addThread hs
  rw [ht] at ht'
  cases ht'
  have htaken : Taken { k with
      threads := { k.threads with table := (k.threads.table.addThread t).1 }
      built := k.built.eraseIdx n
      added := if (k.threads.table.addThread t).2 then k.added ++ [t.id] else k.added } t.id := by
    refine ⟨hbuilt.2.1, ?_⟩
    have hids : (k.built.map Thread.id)[n]? = some t.id := by simp [ht]
    simp only
    rw [← List.eraseIdx_map, mem_eraseIdx_iff hp.ids.built_nodup hids]
    exact fun hn => hn.2 rfl
  refine ⟨fun h0 => ?_, hinv.1, fun hfalse => ?_, fun htrue => ?_, fun as k' hr u hu hid => ?_⟩
  · rw [h0] at hbuilt
    exact absurd hbuilt.1 (Nat.lt_irrefl 0)
  · have hthreads : ({ k.threads with table := (k.threads.table.addThread t).1 } : Threads Cpu) =
        k.threads := by rw [hinv.2 hfalse]
    have htable : ∀ i s, view k i ≠ some (t.id, s) := fun i s hi =>
      (hp.ids.table i t.id s hi).2.2.1 (List.mem_map_of_mem (List.mem_of_getElem? ht))
    refine ⟨hthreads, fun as k' hr => ?_⟩
    have hgone := placed_run (I := fun k => Gone k t.id)
      (fun _ _ _ hp hg hs => hg.step hp.ids hp.wf hs) hp₁
      ⟨htaken, by simpa only [view, hthreads] using htable⟩ hr
    exact hgone.2.not_found
  · rcases addThread_cases k.threads.table t with ⟨i, tbl, he, hi, hfree, hget⟩ | ⟨-, he⟩
    · refine ⟨i, hi, hfree, fun as k' hr => ?_⟩
      obtain ⟨hp', ho⟩ := placed_run (I := fun k => occupant k i = some (t.id, t.kernelStack))
        (fun _ _ _ hp ho hs => occupant_step hp.wf hs ho) hp₁ (by simp [occupant, he, hget]) hr
      exact standsIn_of_occupant hp'.ids ho
    · rw [he] at htrue
      cases htrue
  · obtain ⟨-, htaken'⟩ := placed_run (I := fun k => Taken k t.id)
      (fun _ _ _ hp ht hs => ht.step hp.ids hp.wf hs) hp₁ htaken hr
    exact htaken'.built (hid ▸ List.mem_map_of_mem hu)

/-- Two threads built at once, neither in the table yet. -/
def builtTwo (c d : Cpu) : List (Act Cpu) :=
  startOn c 0x10000 ++ startOn d 0x20000 ++
    [.allocFrame, .spawnRaw c 0x30000, .allocFrame, .spawnRaw d 0x40000]

theorem ids_and_slots_stable_two :
    ∃ (k k' : Kernel (Fin 2)) (t : Thread (Fin 2)) (i : ℕ),
      run step (bootKernel (Fin 2) 64) (builtTwo 0 1) = .ok k ∧
      run step k [.addThread 0 1, .readyAdded 0 0, .switch 0] = .ok k' ∧
      k.built[1]? = some t ∧ t.id = 2 ∧ StandsIn k' t i := by
  obtain ⟨k', hk', -⟩ := exists_run_of_map (f := fun k => current k 0) (c := .slot 0)
    (show (run step (bootKernel (Fin 2) 64)
      (builtTwo 0 1 ++ [.addThread 0 1, .readyAdded 0 0, .switch 0])).map _ = _ by rfl)
  obtain ⟨k, hk, hr⟩ := run_append_ok.mp hk'
  obtain ⟨k₁, hs, hr₁⟩ := run_cons_ok.mp hr
  obtain ⟨k₂, hk₂, hf⟩ := exists_run_of_map
    (f := fun k => (k.built[1]?.map Thread.id, (k.threads.table.get? 0).isNone))
    (c := (some 2, true)) (show (run step (bootKernel (Fin 2) 64) (builtTwo 0 1)).map _ = _ by rfl)
  rw [hk] at hk₂
  cases hk₂
  obtain ⟨hid, hfree⟩ := Prod.mk.inj hf
  obtain ⟨t, ht, hid⟩ := Option.map_eq_some_iff.mp hid
  obtain ⟨-, hfull, -, hadded, -⟩ :=
    ids_and_slots_stable ⟨_, _, boot_bootKernel (by decide), hk⟩ ht hs
  have htrue : (k.threads.table.addThread t).2 = true := by
    by_contra hn
    rw [Bool.not_eq_true, hfull] at hn
    exact hn 0 (by decide) (by simpa using hfree)
  obtain ⟨i, -, -, hstands⟩ := hadded htrue
  exact ⟨k, k', t, i, hk, hr, ht, hid, hstands _ k' hr₁⟩

end OsRust.Slots
