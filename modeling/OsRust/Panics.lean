import OsRust.Placement

/-!
The scheduler does not panic: whatever the CPUs have done, every step it can take succeeds,
as long as there are frames.
-/

namespace OsRust.Panics

open OsRust.Ring OsRust.Task OsRust.Sched OsRust.Effects OsRust.ThreadIds OsRust.Placement
open OsRust.Lib.Machine

variable {Cpu : Type} [DecidableEq Cpu] [Fintype Cpu] {k : Kernel Cpu} {c o : Cpu}

omit [DecidableEq Cpu] [Fintype Cpu] in
lemma lt_of_isReady {i : ℕ} (h : isReady k i = true) : i < 256 := by
  unfold isReady view at h
  cases ht : k.threads.get? (.slot i) with
  | none => simp [ht] at h
  | some t => exact lt_of_get? ht

lemma queue_nodup (h : Placed k) (c : Cpu) : (queue k c).Nodup := by
  rw [List.nodup_iff_count_le_one]
  intro a
  by_cases ha : a ∈ queue k c
  · obtain ⟨i, rfl⟩ := h.slots c a ha
    have := h.here_le c i
    unfold here at this
    omega
  · rw [List.count_eq_zero_of_not_mem ha]
    omega

/-- There is room in every queue for a thread that is not ready yet: the table bounds the
threads, and one of its slots is taken by the thread that stands in no queue. -/
lemma queue_room (h : Placed k) {i : ℕ} (hi : i < 256) (hr : isReady k i = false) (c : Cpu) :
    (queue k c).length < 256 := by
  have hnot : ThreadAddr.slot i ∉ queue k c := fun hmem => by
    have := h.ready_of_here (here_queue_pos hmem)
    rw [hr] at this
    cases this
  have hnd : (ThreadAddr.slot i :: queue k c).Nodup :=
    List.nodup_cons.mpr ⟨hnot, queue_nodup h c⟩
  have hsub : (ThreadAddr.slot i :: queue k c).toFinset ⊆
      (Finset.range 256).image ThreadAddr.slot := by
    intro a ha
    rw [List.mem_toFinset] at ha
    rw [Finset.mem_image]
    rcases List.mem_cons.mp ha with rfl | ha
    · exact ⟨i, Finset.mem_range.mpr hi, rfl⟩
    · obtain ⟨j, rfl⟩ := h.slots c a ha
      exact ⟨j, Finset.mem_range.mpr (lt_of_isReady (h.ready_of_here (here_queue_pos ha))), rfl⟩
  have hcard := (Finset.card_le_card hsub).trans Finset.card_image_le
  rw [List.toFinset_card_of_nodup hnd, List.length_cons, Finset.card_range] at hcard
  omega

/-- Making an added thread ready succeeds. -/
lemma readyAdded_total (h : Placed k) {n : ℕ} {id : UInt64} (hn : k.added[n]? = some id)
    (c : Cpu) : ∃ k', readyAdded k c n = .ok k' := by
  obtain ⟨i, hi, hv⟩ := h.ids.find hn
  obtain ⟨t, ht, -⟩ := Option.map_eq_some_iff.mp hv
  have hr : isReady k i = false := by simp [isReady, hv]
  have hroom := queue_room h (lt_of_get? ht) hr c
  rw [queue, (h.wf c).length] at hroom
  obtain ⟨q, hq, -, -⟩ := (h.wf c).push hroom (.slot i)
  have hw : k.threads.write (.slot i) (Thread.markReady c) = .ok (k.threads.modify _ _) :=
    Threads.write_ok.mpr ⟨by simp [ht], rfl⟩
  simp only [readyAdded, hn, hi, unwrap, ready, ok_bind, hw, hq, expect]
  exact ⟨_, rfl⟩

/-- The outcomes a step can have that are no fault of the scheduler. -/
def Harmless (r : Res (Kernel Cpu)) : Prop :=
  (∃ k', r = .ok k') ∨ r = .error .blocked ∨ r = .error (.panic "Out of memory")

omit [DecidableEq Cpu] [Fintype Cpu] in
lemma harmless_guard {p : Prop} [Decidable p] {r : Res (Kernel Cpu)} (h : p → Harmless r) :
    Harmless (guard p >>= fun _ => r) := by
  unfold guard
  split
  · next hp => exact h hp
  · exact .inr (.inl rfl)

omit [DecidableEq Cpu] [Fintype Cpu] in
lemma harmless_allocFrames {n : ℕ} {f : Kernel Cpu → Res (Kernel Cpu)}
    (h : ∀ k', Harmless (f k')) : Harmless (allocFrames k n >>= f) := by
  unfold allocFrames
  split
  · exact h _
  · exact .inr (.inr rfl)

/-- The current thread of a CPU that has started exists. -/
lemma current_isSome (h : Placed k) (hst : Started k c) :
    (k.threads.get? (k.tls c).threadAddr).isSome := by
  rcases h.current c with hc | hc | ⟨i, hc⟩
  · exact absurd hc hst
  · have haddr : (k.tls c).threadAddr = .idle c := hc
    rw [haddr]
    rfl
  · obtain ⟨t, ht, -⟩ := h.recorded c i (here_current_pos hc)
    have haddr : (k.tls c).threadAddr = .slot i := hc
    rw [haddr, ht]
    rfl

/-! The steps of a timer interrupt succeed on every CPU that has started. -/

lemma saveRsp_total (h : Placed k) (hst : Started k c) (rsp : UInt64) :
    ∃ k', step k (.saveRsp c rsp) = .ok k' := by
  have hw := Threads.write_ok (f := fun t => { t with regs := rsp }).mpr
    ⟨current_isSome h hst, rfl⟩
  exact ⟨_, by rw [step, guard_bind hst, saveRsp, hw]; rfl⟩

lemma switch_total (h : Placed k) (hst : Started k c) : ∃ k', step k (.switch c) = .ok k' := by
  obtain ⟨t, ht, -⟩ := switch_spec (h.wf c) c
  exact ⟨_, by rw [step, guard_bind hst, ht]; rfl⟩

lemma balance_total (h : Placed k) (hst : Started k c) (o : Cpu) :
    ∃ k', step k (.maybeLoadBalance c o) = .ok k' := by
  obtain ⟨k', hk⟩ := maybeLoadBalance_total h.wf (fun e a ha => h.isSome ha) c o
  exact ⟨k', by rw [step, guard_bind hst, hk]⟩

lemma step_harmless (h : Placed k) (a : Act Cpu) : Harmless (step k a) := by
  cases a with
  | allocFrame =>
    rw [step, allocFrames]
    split
    · exact .inl ⟨_, rfl⟩
    · exact .inr (.inr rfl)
  | setupTls c base => exact harmless_guard fun _ => .inl ⟨_, rfl⟩
  | forceSwitchToIdle c => exact harmless_guard fun _ => .inl ⟨_, rfl⟩
  | spawnRaw c base =>
    exact harmless_guard fun _ => harmless_allocFrames fun _ => .inl ⟨_, rfl⟩
  | addThread c n =>
    refine harmless_guard fun _ => ?_
    unfold addThread
    split
    · exact .inr (.inl rfl)
    · exact .inl ⟨_, rfl⟩
  | readyAdded c n =>
    refine harmless_guard fun _ => ?_
    cases hn : k.added[n]? with
    | none => exact .inr (.inl (by simp [readyAdded, hn]))
    | some id => exact .inl (readyAdded_total h hn c)
  | saveRsp c rsp =>
    by_cases hst : Started k c
    · exact .inl (saveRsp_total h hst rsp)
    · exact harmless_guard fun hst' => absurd hst' hst
  | switch c =>
    by_cases hst : Started k c
    · exact .inl (switch_total h hst)
    · exact harmless_guard fun hst' => absurd hst' hst
  | maybeLoadBalance c o =>
    by_cases hst : Started k c
    · exact .inl (balance_total h hst o)
    · exact harmless_guard fun hst' => absurd hst' hst

/-- **The scheduler's panics are unreachable.** In every state any interleaving reaches, no step
ends in `expect("Ready queue is full")` or in `unwrap` of a thread not found, and
`get_thread_mut` finds the one thread that `spawn_raw` added, still to be made ready. -/
theorem no_scheduler_panic (h : Reached k) :
    (∀ a, step k a ≠ .error (.panic "Ready queue is full")) ∧
      (∀ a, step k a ≠ .error (.panic "called `Option::unwrap()` on a `None` value")) ∧
      ∀ id ∈ k.added, ∃ i t, k.threads.table.getThreadMut id = some i ∧
        k.threads.table.get? i = some t ∧ t.id = id ∧ t.schedState.state = .born ∧
        ∀ j u, k.threads.table.get? j = some u → u.id = id → j = i := by
  have hp := placed_of_reached h
  refine ⟨fun a he => ?_, fun a he => ?_, fun id hid => ?_⟩
  · rcases step_harmless hp a with ⟨k', h'⟩ | h' | h' <;> rw [he] at h' <;> simp at h'
  · rcases step_harmless hp a with ⟨k', h'⟩ | h' | h' <;> rw [he] at h' <;> simp at h'
  · obtain ⟨n, hn⟩ := List.mem_iff_getElem?.mp hid
    obtain ⟨i, hi, hv⟩ := hp.ids.find hn
    obtain ⟨t, ht, he⟩ := Option.map_eq_some_iff.mp hv
    obtain ⟨h1, h2⟩ := Prod.mk.inj he
    refine ⟨i, t, hi, ht, h1, h2, fun j u hu huid => ?_⟩
    refine hp.ids.inj j i id u.schedState.state _ ?_ hv
    have hget : k.threads.get? (.slot j) = some u := hu
    rw [view, hget, ← huid]
    rfl

/-- Two threads spawned at once: both have an identifier, and the second is in the table. -/
def spawnTwo (c d : Cpu) : List (Act Cpu) :=
  startOn c 0x10000 ++ startOn d 0x20000 ++
    [.allocFrame, .spawnRaw c 0x30000, .allocFrame, .spawnRaw d 0x40000, .addThread d 1]

theorem no_scheduler_panic_spawning :
    ∃ k : Kernel (Fin 2), run step (bootKernel (Fin 2) 64) (spawnTwo 0 1) = .ok k ∧
      ∃ i t, k.threads.table.getThreadMut 2 = some i ∧ k.threads.table.get? i = some t ∧
        t.id = 2 := by
  obtain ⟨k, hk, ha⟩ := exists_run_of_map (f := fun k => k.added) (c := [2])
    (show (run step (bootKernel (Fin 2) 64) (spawnTwo 0 1)).map _ = _ by rfl)
  obtain ⟨i, t, hi, ht, hid, -⟩ :=
    (no_scheduler_panic ⟨_, _, boot_bootKernel (by decide), hk⟩).2.2 2 (by simp [ha])
  exact ⟨k, hk, i, t, hi, ht, hid⟩

end OsRust.Panics
