import OsRust.ThreadIds
import OsRust.Lib.Ledger

/-!
Where the threads are: every thread made ready is in exactly one place, and its record names
the CPU it is on.
-/

namespace OsRust.Placement

open OsRust.Ring OsRust.Task OsRust.Sched OsRust.Effects OsRust.ThreadIds
open OsRust.Lib.Machine OsRust.Lib.Ledger

variable {Cpu : Type} [DecidableEq Cpu]

/-- How often an address stands on a CPU: in its ready queue, and as the current thread. -/
def here (k : Kernel Cpu) (c : Cpu) (a : ThreadAddr Cpu) : ℕ :=
  (queue k c).count a + if current k c = a then 1 else 0

/-- `ready` has been called on the thread in the slot. -/
def isReady (k : Kernel Cpu) (i : ℕ) : Bool := (view k i).any fun v => v.2 == .ready

/-- The record of the thread in the slot names CPU `c`. -/
def RecordedOn (k : Kernel Cpu) (c : Cpu) (i : ℕ) : Prop :=
  ∃ t, k.threads.get? (.slot i) = some t ∧ t.schedState.cpu = some c

variable [Fintype Cpu]

structure Placed (k : Kernel Cpu) : Prop where
  ids : Ids k
  wf : QueuesWf k
  offline : ∀ c, k.online c = false → k.tls c = ⟨.null, Ring.new⟩
  slots : ∀ c, ∀ a ∈ queue k c, ∃ i, a = .slot i
  current : ∀ c, current k c = .null ∨ current k c = .idle c ∨ ∃ i, current k c = .slot i
  once : ∀ i, ∑ c, here k c (.slot i) = (isReady k i).toNat
  recorded : ∀ c i, 0 < here k c (.slot i) → RecordedOn k c i

variable {k k' : Kernel Cpu} {c o d : Cpu}

lemma Placed.here_le (h : Placed k) (c : Cpu) (i : ℕ) : here k c (.slot i) ≤ 1 := by
  have h1 := le_total (fun c => here k c (.slot i)) c
  have h2 := h.once i
  have h3 := Bool.toNat_le (isReady k i)
  omega

lemma Placed.here_unique (h : Placed k) {i : ℕ} (hc : 0 < here k c (.slot i))
    (hd : 0 < here k d (.slot i)) : c = d := by
  by_contra hne
  have h1 := add_le_total hne fun c => here k c (.slot i)
  have h2 := h.once i
  have h3 := Bool.toNat_le (isReady k i)
  omega

lemma Placed.ready_of_here (h : Placed k) {i : ℕ} (hc : 0 < here k c (.slot i)) :
    isReady k i = true := by
  have h1 := le_total (fun c => here k c (.slot i)) c
  have h2 := h.once i
  cases hr : isReady k i
  · rw [hr] at h2
    simp only [Bool.toNat_false] at h1 h2
    omega
  · rfl

omit [Fintype Cpu] in
lemma here_queue_pos {a : ThreadAddr Cpu} (h : a ∈ queue k c) : 0 < here k c a := by
  have := List.count_pos_iff.mpr h
  unfold here
  omega

omit [Fintype Cpu] in
lemma here_current_pos {a : ThreadAddr Cpu} (h : current k c = a) : 0 < here k c a := by
  unfold here
  rw [if_pos h]
  omega

/-- The queues hold only threads. -/
lemma Placed.isSome (h : Placed k) {a : ThreadAddr Cpu} (ha : a ∈ queue k c) :
    (k.threads.get? a).isSome := by
  obtain ⟨i, rfl⟩ := h.slots c a ha
  obtain ⟨t, ht, -⟩ := h.recorded c i (here_queue_pos ha)
  simp [ht]

lemma Placed.online (h : Placed k) (hc : Started k c) : k.online c = true := by
  by_contra hoff
  have := h.offline c (by simpa using hoff)
  exact hc (by rw [this])

omit [Fintype Cpu] in
lemma here_of_tls (h : k'.tls d = k.tls d) (a : ThreadAddr Cpu) : here k' d a = here k d a := by
  have hq : queue k' d = queue k d := by rw [queue, h, queue]
  have hcur : Effects.current k' d = Effects.current k d := by
    rw [Effects.current, h, Effects.current]
  rw [here, here, hq, hcur]

/-- What has to be shown of a step of CPU `c` that leaves what is local to the others alone. -/
lemma Placed.onCpu (h : Placed k) (hids : Ids k') (hon : k.online c = true)
    (ho : k'.online = k.online) (hne : ∀ d, d ≠ c → k'.tls d = k.tls d)
    (hwf : (k'.tls c).readyQueue.Wf) (hslots : ∀ a ∈ queue k' c, ∃ i, a = .slot i)
    (hcur : Effects.current k' c = .null ∨ Effects.current k' c = .idle c ∨
      ∃ i, Effects.current k' c = .slot i)
    (honce : ∀ i, ∑ d, here k' d (.slot i) = (isReady k' i).toNat)
    (hrec : ∀ d i, 0 < here k' d (.slot i) → RecordedOn k' d i) : Placed k' where
  ids := hids
  wf d := by
    by_cases hd : d = c
    · rw [hd]
      exact hwf
    · rw [hne d hd]
      exact h.wf d
  offline d hoff := by
    have hdc : d ≠ c := by
      rintro rfl
      rw [ho, hon] at hoff
      cases hoff
    rw [hne d hdc]
    exact h.offline d (ho ▸ hoff)
  slots d := by
    by_cases hd : d = c
    · rw [hd]
      exact hslots
    · rw [queue, hne d hd]
      exact h.slots d
  current d := by
    by_cases hd : d = c
    · rw [hd]
      exact hcur
    · rw [Effects.current, hne d hd]
      exact h.current d
  once := honce
  recorded := hrec

/-! ### The steps -/

lemma Placed.boot (h : Boot k) : Placed k where
  ids := by
    have hv : ∀ i, view k i = none := fun i => by simp [view, Threads.get?, h.table]
    refine ⟨?_, by simp [h.built], by simp [h.built], ?_, ?_, by simp [h.added], ?_⟩
    · simpa [spawned, h.counter] using h.frames
    · intro i id s hi
      rw [hv] at hi
      cases hi
    · intro i j id s s' hi
      rw [hv] at hi
      cases hi
    · simp [h.added, hv]
  wf c := by
    rw [h.tls]
    exact Queue.new_wf
  offline c _ := h.tls c
  slots c a ha := by simp [queue, h.tls] at ha
  current c := by simp [Effects.current, h.tls]
  once i := by simp [here, queue, Effects.current, h.tls, isReady, view, Threads.get?, h.table]
  recorded c i hi := by simp [here, queue, Effects.current, h.tls] at hi

/-- A step that leaves every queue and current thread alone, and every thread but for what is
not looked at here, keeps the invariant. -/
lemma Placed.congr (h : Placed k) (hids : Ids k') (ht : k'.tls = k.tls)
    (ho : ∀ c, k'.online c = false → k.online c = false)
    (hr : ∀ i, isReady k' i = isReady k i)
    (hrec : ∀ c i, RecordedOn k c i → RecordedOn k' c i) : Placed k' := by
  have hq : ∀ c, queue k' c = queue k c := fun c => by simp [queue, ht]
  have hcur : ∀ c, Effects.current k' c = Effects.current k c := fun c => by
    simp [Effects.current, ht]
  have hh : ∀ c a, here k' c a = here k c a := fun c a => by simp [here, hq, hcur]
  refine ⟨hids, ?_, ?_, ?_, ?_, ?_, ?_⟩
  · intro c
    rw [ht]
    exact h.wf c
  · intro c hc
    rw [ht]
    exact h.offline c (ho c hc)
  · intro c a
    rw [hq]
    exact h.slots c a
  · intro c
    rw [hcur]
    exact h.current c
  · intro i
    simp only [hh, hr]
    exact h.once i
  · intro c i hi
    rw [hh] at hi
    exact hrec c i (h.recorded c i hi)

omit [DecidableEq Cpu] [Fintype Cpu] in
lemma isReady_congr {i : ℕ} (h : view k' i = view k i) : isReady k' i = isReady k i := by
  rw [isReady, h, isReady]

lemma Placed.allocFrame (h : Placed k) (hs : step k .allocFrame = .ok k') : Placed k' := by
  obtain ⟨-, rfl⟩ := step_allocFrame hs
  exact h.congr (h.ids.congr rfl (Nat.sub_le _ _) rfl rfl fun i => rfl) rfl (fun d hd => hd)
    (fun i => rfl) fun d i hd => hd

lemma Placed.setupTls {base : UInt64} (h : Placed k) (hs : step k (.setupTls c base) = .ok k') :
    Placed k' := by
  obtain ⟨hoff, rfl⟩ := step_setupTls hs
  have htls : Function.update k.tls c ⟨.null, Ring.new⟩ = k.tls := by
    rw [← h.offline c hoff, Function.update_eq_self]
  refine h.congr (h.ids.congr rfl le_rfl rfl rfl fun i => rfl) htls ?_
    (fun i => rfl) fun d i hd => hd
  intro d hd
  by_cases hdc : d = c
  · subst hdc
    exact hoff
  · simpa [hdc] using hd

lemma Placed.forceSwitchToIdle (h : Placed k)
    (hs : step k (.forceSwitchToIdle c) = .ok k') : Placed k' := by
  obtain ⟨hon, hnull, rfl⟩ := step_forceSwitchToIdle hs
  set k' : Kernel Cpu :=
    { k with tls := Function.update k.tls c { k.tls c with threadAddr := .idle c } } with hk'
  have hne : ∀ d, d ≠ c → k'.tls d = k.tls d := fun d hd => by simp [hk', hd]
  have hq : queue k' c = queue k c := by simp [queue, hk']
  have hcur : Effects.current k' c = .idle c := by simp [Effects.current, hk']
  have hh : ∀ d i, here k' d (.slot i) = here k d (.slot i) := fun d i => by
    by_cases hd : d = c
    · subst hd
      simp [here, hq, hcur, hnull]
    · exact here_of_tls (hne d hd) _
  refine h.onCpu (h.ids.congr rfl le_rfl rfl rfl fun i => rfl) hon rfl hne ?_ ?_ (.inr (.inl hcur))
    ?_ ?_
  · simpa [hk'] using h.wf c
  · rw [hq]
    exact h.slots c
  · intro i
    simp only [hh]
    exact h.once i
  · intro d i hd
    rw [hh] at hd
    exact h.recorded d i hd

lemma Placed.spawnRaw {base : UInt64} (h : Placed k)
    (hs : step k (.spawnRaw c base) = .ok k') : Placed k' := by
  have hids := h.ids.spawnRaw hs
  obtain ⟨-, -, rfl⟩ := step_spawnRaw hs
  exact h.congr hids rfl (fun d hd => hd) (fun i => rfl) fun d i hd => hd

lemma Placed.addThread {n : ℕ} (h : Placed k) (hs : step k (.addThread c n) = .ok k') :
    Placed k' := by
  have hids := h.ids.addThread hs
  obtain ⟨-, t, ht, rfl⟩ := step_addThread hs
  have hborn := (h.ids.built t (List.mem_of_getElem? ht)).2.2
  rcases addThread_cases k.threads.table t with ⟨i, tbl, he, -, hi, hj⟩ | ⟨-, he⟩
  · simp only [he] at hids ⊢
    refine h.congr hids rfl (fun d hd => hd) (fun j => ?_) fun d j hd => ?_
    · -- the thread added is not ready, and its slot was free
      simp only [isReady, view, Threads.get?, hj]
      by_cases hji : j = i
      · subst hji
        simp [hi, hborn]
      · simp [hji]
    · obtain ⟨u, hu, hc⟩ := hd
      refine ⟨u, ?_, hc⟩
      have hji : j ≠ i := by
        rintro rfl
        have hget : k.threads.table.get? j = some u := hu
        rw [hi] at hget
        cases hget
      simpa [Threads.get?, hj, hji] using hu
  · simp only [he] at hids ⊢
    exact h.congr hids rfl (fun d hd => hd) (fun i => rfl) fun d i hd => hd

lemma Placed.saveRsp {rsp : UInt64} (h : Placed k) (hs : step k (.saveRsp c rsp) = .ok k') :
    Placed k' := by
  obtain ⟨-, -, rfl⟩ := step_saveRsp hs
  have hv := view_modify (k := k) (f := fun t => { t with regs := rsp }) (fun _ => rfl)
    (fun _ => rfl) (Effects.current k c)
  refine h.congr (h.ids.congr rfl le_rfl rfl rfl hv) rfl (fun d hd => hd)
    (fun i => isReady_congr (hv i)) fun d i ⟨t, ht, hc⟩ => ?_
  simp only [RecordedOn, Threads.get?_modify]
  split
  · exact ⟨{ t with regs := rsp }, by rw [ht]; rfl, hc⟩
  · exact ⟨t, ht, hc⟩

lemma Placed.readyAdded {n : ℕ} (h : Placed k) (hs : step k (.readyAdded c n) = .ok k') :
    Placed k' := by
  have hids := h.ids.readyAdded h.wf hs
  obtain ⟨id₀, i₀, hid₀, hborn, -, -, -, -, hview⟩ := view_readyAdded h.ids h.wf hs
  obtain ⟨hst, id, i, hid, hi, q, hqw, hql, rfl⟩ := step_readyAdded h.wf hs
  obtain rfl : id₀ = id := Option.some.inj (hid₀.symm.trans hid)
  obtain ⟨i', hi', hborn'⟩ := h.ids.find hid
  obtain rfl : i' = i := Option.some.inj (hi'.symm.trans hi)
  obtain rfl : i₀ = i' := h.ids.inj _ _ _ _ _ hborn hborn'
  set k' : Kernel Cpu := { k with
    threads := k.threads.modify (Thread.markReady c) (.slot i₀)
    tls := Function.update k.tls c { k.tls c with readyQueue := q }
    added := k.added.eraseIdx n } with hk'
  have hne : ∀ d, d ≠ c → k'.tls d = k.tls d := fun d hd => by simp [hk', hd]
  have hq : queue k' c = queue k c ++ [.slot i₀] := by simp [queue, hk', hql]
  have hcur : Effects.current k' c = Effects.current k c := by simp [Effects.current, hk']
  have hh : ∀ d j, here k' d (.slot j) =
      here k d (.slot j) + if d = c ∧ j = i₀ then 1 else 0 := fun d j => by
    by_cases hd : d = c
    · subst hd
      by_cases hj : j = i₀
      · subst hj
        simp [here, hq, hcur]
        omega
      · simp [here, hq, hcur, hj, List.count_append, Ne.symm hj]
    · simp [here_of_tls (hne d hd), hd]
  -- the thread stood nowhere before
  have hnot : isReady k i₀ = false := by simp [isReady, hborn]
  have hnowhere : ∀ d, here k d (.slot i₀) = 0 := fun d => by
    by_contra hne
    have := h.ready_of_here (Nat.pos_of_ne_zero hne)
    rw [hnot] at this
    cases this
  refine h.onCpu hids (h.online hst) rfl hne ?_ ?_ ?_ ?_ ?_
  · simpa [hk'] using hqw
  · intro a ha
    rw [hq] at ha
    rcases List.mem_append.mp ha with ha | ha
    · exact h.slots c a ha
    · exact ⟨i₀, List.mem_singleton.mp ha⟩
  · rw [hcur]
    exact h.current c
  · intro j
    have hsum := sum_change (f := fun d => here k d (.slot j))
      (g := fun d => here k' d (.slot j)) (i := c) fun d hd => by simp [hh, hd]
    have hone := h.once j
    have hhc := hh c j
    by_cases hj : j = i₀
    · subst hj
      have hr : isReady k' j = true := by simp [isReady, hview]
      rw [hr, Bool.toNat_true]
      rw [hnot, Bool.toNat_false] at hone
      simp only [true_and, if_true] at hhc
      omega
    · have hr : isReady k' j = isReady k j := isReady_congr (by rw [hview, if_neg hj])
      rw [hr]
      simp only [hj, and_false, if_false] at hhc
      omega
  · intro d j hd
    rw [hh] at hd
    by_cases hj : j = i₀
    · subst hj
      have hdc : d = c := by
        by_contra hne
        simp [hne, hnowhere] at hd
      subst hdc
      obtain ⟨t, ht, -⟩ := Option.map_eq_some_iff.mp hborn
      refine ⟨Thread.markReady d t, ?_, rfl⟩
      simp [hk', Threads.get?_modify, ht]
    · obtain ⟨t, ht, hc⟩ := h.recorded d j (by simpa [hj] using hd)
      exact ⟨t, by simp [hk', Threads.get?_modify, hj, ht], hc⟩

lemma Placed.switch (h : Placed k) (hs : step k (.switch c) = .ok k') : Placed k' := by
  obtain ⟨hst, t, ht, rfl⟩ := step_switch hs
  obtain ⟨t', ht', hwf, hcase⟩ := switch_spec (h.wf c) c
  rw [ht] at ht'
  cases ht'
  rcases hcase with ⟨-, rfl⟩ | ⟨rest, hl, hq⟩
  · simpa using h
  set k' : Kernel Cpu := { k with tls := Function.update k.tls c t } with hk'
  have hne : ∀ d, d ≠ c → k'.tls d = k.tls d := fun d hd => by simp [hk', hd]
  have hkc : k'.tls c = t := by simp [hk']
  have hlc : queue k c = t.threadAddr :: rest := hl
  obtain ⟨i, hi⟩ : ∃ i, t.threadAddr = .slot i := h.slots c _ (by simp [hlc])
  have hcurc : Effects.current k' c = t.threadAddr := by rw [Effects.current, hkc]
  have hqc : queue k' c =
      rest ++ if Effects.current k c = .idle c then [] else [Effects.current k c] := by
    rw [queue, hkc]
    exact hq
  have hh : ∀ d j, here k' d (.slot j) = here k d (.slot j) := fun d j => by
    by_cases hd : d = c
    · subst hd
      simp only [here, hqc, hlc, hcurc, List.count_append, List.count_cons, beq_iff_eq]
      by_cases hid : Effects.current k d = .idle d
      · simp [hid]
      · simp only [hid, if_false, List.count_singleton, beq_iff_eq]
        omega
    · exact here_of_tls (hne d hd) _
  refine h.onCpu (h.ids.congr rfl le_rfl rfl rfl fun i => rfl) (h.online hst) rfl hne ?_ ?_
    (.inr (.inr ⟨i, hcurc.trans hi⟩)) ?_ ?_
  · rw [hkc]
    exact hwf
  · intro a ha
    rw [hqc] at ha
    rcases List.mem_append.mp ha with ha | ha
    · exact h.slots c a (by simp [hlc, ha])
    · rcases h.current c with hc | hc | ⟨j, hc⟩
      · exact absurd hc hst
      · rw [if_pos hc] at ha
        cases ha
      · exact ⟨j, by simpa [hc] using ha⟩
  · intro j
    simp only [hh]
    exact h.once j
  · intro d j hd
    rw [hh] at hd
    exact h.recorded d j hd

lemma Placed.shifted {s d : Cpu} {m : ℕ} (h : Placed k) (hon : k.online d = true)
    (hB : Shifted k k' s d m) : Placed k' := by
  have hview : ∀ i, view k' i = view k i := view_shifted hB
  have hrest := hB.rest
  have honl : k'.online = k.online := by rw [hrest]
  have hids : Ids k' := h.ids.congr (by rw [hrest]) (by rw [hrest]) (by rw [hrest])
    (by rw [hrest]) hview
  have hother : ∀ e, e ≠ s → e ≠ d → ∀ a, here k' e a = here k e a := fun e hs hd a => by
    rw [here, here, hB.current, queue, queue, hB.others e hs hd]
  have hsrc : ∀ a, here k' s a + ((queue k s).take m).count a = here k s a := fun a => by
    have : ((queue k s).take m ++ (queue k s).drop m).count a = _ := List.count_append
    rw [List.take_append_drop] at this
    simp only [here, hB.src, hB.current]
    omega
  have hdst : ∀ a, here k' d a = here k d a + ((queue k s).take m).count a := fun a => by
    simp only [here, hB.dst, hB.current, List.count_append]
    omega
  refine ⟨hids, hB.wf, ?_, ?_, ?_, ?_, ?_⟩
  · intro e hoff
    rw [honl] at hoff
    have hed : e ≠ d := by
      rintro rfl
      rw [hon] at hoff
      cases hoff
    have hes : e ≠ s := by
      rintro rfl
      have hnil : queue k e = [] := by rw [queue, h.offline e hoff]; rfl
      have h1 := hB.enough
      have h2 := hB.pos
      rw [hnil, List.length_nil] at h1
      omega
    rw [hB.others e hes hed]
    exact h.offline e hoff
  · intro e a ha
    by_cases hed : e = d
    · subst hed
      rw [hB.dst] at ha
      rcases List.mem_append.mp ha with ha | ha
      · exact h.slots e a ha
      · exact h.slots s a (List.mem_of_mem_take ha)
    · by_cases hes : e = s
      · subst hes
        rw [hB.src] at ha
        exact h.slots e a (List.mem_of_mem_drop ha)
      · rw [queue, hB.others e hes hed] at ha
        exact h.slots e a ha
  · intro e
    rw [hB.current]
    exact h.current e
  · intro i
    have hsum := sum_transfer (f := fun e => here k e (.slot i))
      (g := fun e => here k' e (.slot i)) hB.ne fun e hs hd => hother e hs hd _
    have h1 := hsrc (.slot i)
    have h2 := hdst (.slot i)
    rw [isReady_congr (hview i), ← h.once i]
    omega
  · intro e i he
    by_cases hin : ThreadAddr.slot i ∈ (queue k s).take m
    · -- a thread moved stands on `d` and nowhere else
      have hks : 0 < here k s (.slot i) := here_queue_pos (List.mem_of_mem_take hin)
      have hed : e = d := by
        by_contra hne
        have hcount := List.count_pos_iff.mpr hin
        by_cases hes : e = s
        · subst hes
          have h1 := hsrc (.slot i)
          have h2 := h.here_le e i
          omega
        · rw [hother e hes hne] at he
          exact hes (h.here_unique he hks)
      subst hed
      obtain ⟨t, ht, -⟩ := h.recorded s i hks
      exact ⟨t.setCpu e, by rw [hB.threads, if_pos hin, ht]; rfl, rfl⟩
    · have hke : 0 < here k e (.slot i) := by
        have hc0 := List.count_eq_zero_of_not_mem hin
        by_cases hed : e = d
        · subst hed
          have := hdst (.slot i)
          omega
        · by_cases hes : e = s
          · subst hes
            have := hsrc (.slot i)
            omega
          · rwa [hother e hes hed] at he
      obtain ⟨t, ht, hc⟩ := h.recorded e i hke
      exact ⟨t, by rw [hB.threads, if_neg hin, ht], hc⟩

lemma Placed.step {a : Act Cpu} (h : Placed k) (hs : step k a = .ok k') : Placed k' := by
  cases a with
  | allocFrame => exact h.allocFrame hs
  | setupTls c base => exact h.setupTls hs
  | forceSwitchToIdle c => exact h.forceSwitchToIdle hs
  | spawnRaw c base => exact h.spawnRaw hs
  | addThread c n => exact h.addThread hs
  | readyAdded c n => exact h.readyAdded hs
  | saveRsp c rsp => exact h.saveRsp hs
  | switch c => exact h.switch hs
  | maybeLoadBalance c o =>
    obtain ⟨hst, rfl | ⟨hon, s, d, m, hsd, hB⟩⟩ := step_maybeLoadBalance h.wf hs
    · exact h
    · rcases hsd with ⟨rfl, rfl⟩ | ⟨rfl, rfl⟩
      · exact h.shifted hon hB.toShifted
      · exact h.shifted (h.online hst) hB.toShifted

/-- The invariant holds of every state any interleaving reaches. -/
lemma placed_of_reached (h : Reached k) : Placed k :=
  h.inv (fun _ hb => .boot hb) fun _ _ _ hp hs => hp.step hs

/-! ### One place for every thread -/

/-- The address stands once in the ready queue of exactly one CPU and is current on none, or is
current on exactly one CPU and in no ready queue. -/
def InOnePlace (k : Kernel Cpu) (a : ThreadAddr Cpu) : Prop :=
  (∃ c, (queue k c).count a = 1 ∧ (∀ d, d ≠ c → a ∉ queue k d) ∧ ∀ d, current k d ≠ a) ∨
    ∃ c, current k c = a ∧ (∀ d, d ≠ c → current k d ≠ a) ∧ ∀ d, a ∉ queue k d

lemma inOnePlace_of_total {a : ThreadAddr Cpu} (h : ∑ c, here k c a = 1) : InOnePlace k a := by
  obtain ⟨c, hc, hother⟩ := exists_of_total_eq_one h
  have hq : ∀ d, d ≠ c → a ∉ queue k d := fun d hd ha => by
    have := here_queue_pos ha
    have := hother d hd
    omega
  have hcur : ∀ d, d ≠ c → current k d ≠ a := fun d hd ha => by
    have := here_current_pos ha
    have := hother d hd
    omega
  by_cases hac : current k c = a
  · have h0 : (queue k c).count a = 0 := by
      rw [here, if_pos hac] at hc
      omega
    refine .inr ⟨c, hac, hcur, fun d => ?_⟩
    by_cases hd : d = c
    · rw [hd]
      exact List.count_eq_zero.mp h0
    · exact hq d hd
  · rw [here, if_neg hac] at hc
    refine .inl ⟨c, hc, hq, fun d => ?_⟩
    by_cases hd : d = c
    · rw [hd]
      exact hac
    · exact hcur d hd

/-- **No thread is lost or duplicated.** Every thread made ready is in exactly one place, and the
ready queues hold nothing but threads made ready; no idle thread is ever in one. -/
theorem thread_in_one_place (h : Reached k) :
    (∀ i, isReady k i = true → InOnePlace k (.slot i)) ∧
      (∀ c, ∀ a ∈ queue k c, ∃ i, a = .slot i ∧ isReady k i = true) ∧
      ∀ c d, ThreadAddr.idle d ∉ queue k c := by
  have hp := placed_of_reached h
  refine ⟨fun i hi => inOnePlace_of_total ?_, fun c a ha => ?_, fun c d hd => ?_⟩
  · rw [hp.once i, hi, Bool.toNat_true]
  · obtain ⟨i, rfl⟩ := hp.slots c a ha
    exact ⟨i, rfl, hp.ready_of_here (here_queue_pos ha)⟩
  · obtain ⟨i, hi⟩ := hp.slots c _ hd
    cases hi

/-- A thread spawned on CPU `c`, made ready there and switched to. -/
def spawnOne (c d : Cpu) : List (Act Cpu) :=
  startOn c 0x10000 ++ startOn d 0x20000 ++ spawnOn c 0x30000 ++ [.switch c]

theorem thread_in_one_place_spawned :
    ∃ k : Kernel (Fin 2), run step (bootKernel (Fin 2) 64) (spawnOne 0 1) = .ok k ∧
      InOnePlace k (.slot 0) := by
  obtain ⟨k, hk, hr⟩ := exists_run_of_map (f := fun k => isReady k 0) (c := true)
    (show (run step (bootKernel (Fin 2) 64) (spawnOne 0 1)).map _ = _ by rfl)
  exact ⟨k, hk, (thread_in_one_place ⟨_, _, boot_bootKernel (by decide), hk⟩).1 0 hr⟩

/-- **The record of a thread names its CPU**, for every thread in a ready queue and every current
thread that is not an idle thread. -/
theorem recorded_cpu (h : Reached k) (c : Cpu) (a : ThreadAddr Cpu)
    (ha : a ∈ queue k c ∨ a = current k c ∧ a ≠ .null ∧ ∀ d, a ≠ .idle d) :
    ∃ t, k.threads.get? a = some t ∧ t.schedState.cpu = some c := by
  have hp := placed_of_reached h
  rcases ha with ha | ⟨rfl, hnull, hidle⟩
  · obtain ⟨i, rfl⟩ := hp.slots c a ha
    exact hp.recorded c i (here_queue_pos ha)
  · rcases hp.current c with hc | hc | ⟨i, hc⟩
    · exact absurd hc hnull
    · exact absurd hc (hidle c)
    · rw [hc]
      exact hp.recorded c i (here_current_pos hc)

theorem recorded_cpu_spawned :
    ∃ k : Kernel (Fin 2), run step (bootKernel (Fin 2) 64) (spawnOne 0 1) = .ok k ∧
      ∃ t, k.threads.get? (.slot 0) = some t ∧ t.schedState.cpu = some 0 := by
  obtain ⟨k, hk, hc⟩ := exists_run_of_map (f := fun k => current k 0) (c := .slot 0)
    (show (run step (bootKernel (Fin 2) 64) (spawnOne 0 1)).map _ = _ by rfl)
  exact ⟨k, hk, recorded_cpu ⟨_, _, boot_bootKernel (by decide), hk⟩ 0 (.slot 0)
    (.inr ⟨hc.symm, by simp, by simp⟩)⟩

end OsRust.Placement
