import OsRust.Sched

/-!
What the scheduler's functions do, on the lists the ready queues stand for: one lemma for
each function, so that nothing later unfolds one.
-/

namespace OsRust.Effects

open OsRust.Ring OsRust.Task OsRust.Sched

variable {Cpu : Type} [DecidableEq Cpu] {c o : Cpu}

omit [DecidableEq Cpu] in
lemma pop_len {q q' : Queue (ThreadAddr Cpu)} {a : ThreadAddr Cpu} (hq : q.Wf) (hq' : q'.Wf)
    (hl : q.toList = a :: q'.toList) : q'.len + 1 = q.len := by
  have := congrArg List.length hl
  rw [hq.length, List.length_cons, hq'.length] at this
  exact this.symm

/-- `switch` never panics. With an empty queue it changes nothing; otherwise the first thread
becomes current and the preempted one, unless it is the idle thread, goes to the back. -/
lemma switch_spec {t : TlsData Cpu} (h : t.readyQueue.Wf) (c : Cpu) :
    ∃ t', switch c t = .ok t' ∧ t'.readyQueue.Wf ∧
      ((t.readyQueue.toList = [] ∧ t' = t) ∨
        ∃ rest, t.readyQueue.toList = t'.threadAddr :: rest ∧
          t'.readyQueue.toList =
            rest ++ if t.threadAddr = .idle c then [] else [t.threadAddr]) := by
  rcases h.pop_cases with ⟨hn, hp⟩ | ⟨a, q, hp, hq, hl⟩
  · exact ⟨t, by simp [switch, hp], h, .inl ⟨hn, rfl⟩⟩
  · by_cases hi : t.threadAddr = .idle c
    · refine ⟨⟨a, q⟩, by simp [switch, hp, hi], hq, .inr ⟨q.toList, hl, ?_⟩⟩
      rw [if_pos hi, List.append_nil]
    · have hlen : q.len < 256 := by
        have h1 := pop_len h hq hl
        have h2 := h.len
        omega
      -- the pop has made room for the push
      obtain ⟨q', hpush, hq', hl'⟩ := hq.push hlen t.threadAddr
      refine ⟨⟨a, q'⟩, by simp [switch, hp, hi, hpush, expect], hq', .inr ⟨q.toList, hl, ?_⟩⟩
      rw [if_neg hi, hl']

/-- One round of the loop: what it takes to get through, and what it leaves. -/
lemma moveThreads_succ {n : ℕ} {th : Threads Cpu} {src dst : Queue (ThreadAddr Cpu)}
    {r : Threads Cpu × Queue (ThreadAddr Cpu) × Queue (ThreadAddr Cpu)} (hs : src.Wf)
    (hn : src.len ≠ 0) (hr : moveThreads c (n + 1) th src dst = .ok r) :
    ∃ a src' dst', src.toList = a :: src'.toList ∧ src'.Wf ∧ (th.get? a).isSome ∧
      dst.push a = .ok (.ok dst') ∧
      moveThreads c n (th.modify (Thread.setCpu c) a) src' dst' = .ok r := by
  obtain ⟨a, src', hp, hs', hl⟩ := hs.pop hn
  rw [moveThreads, hp, ok_bind, bind_ok] at hr
  obtain ⟨th', hw, hr⟩ := hr
  obtain ⟨hsome, rfl⟩ := Threads.write_ok.mp hw
  obtain ⟨x, hx, hr⟩ := bind_ok.mp hr
  obtain ⟨dst', hd, hr⟩ := bind_ok.mp hr
  rw [expect_ok] at hd
  exact ⟨a, src', dst', hl, hs', hsome, by rw [hx, hd], hr⟩

/-- The first `m` threads of `src` have gone to the back of `dst` in order, and they and no
others have had their CPU rewritten to `c`. -/
structure Moved (c : Cpu) (m : ℕ) (th th' : Threads Cpu)
    (src dst src' dst' : Queue (ThreadAddr Cpu)) : Prop where
  wf_src : src'.Wf
  wf_dst : dst'.Wf
  left : src'.toList = src.toList.drop m
  arrived : dst'.toList = dst.toList ++ src.toList.take m
  threads : ∀ b, th'.get? b =
    if b ∈ src.toList.take m then (th.get? b).map (Thread.setCpu c) else th.get? b

lemma moveThreads_ok {n : ℕ} {th th' : Threads Cpu} {src dst src' dst' : Queue (ThreadAddr Cpu)}
    (hs : src.Wf) (hd : dst.Wf) (hn : n ≤ src.len)
    (hr : moveThreads c n th src dst = .ok (th', src', dst')) :
    Moved c n th th' src dst src' dst' := by
  induction n generalizing th src dst with
  | zero =>
    cases hr
    exact ⟨hs, hd, by simp, by simp, by simp⟩
  | succ n ih =>
    obtain ⟨a, src₁, dst₁, hl, hs₁, -, hpush, hr⟩ := moveThreads_succ hs (by omega) hr
    obtain ⟨-, hd₁, hdl⟩ := hd.push_ok hpush
    have hlen := pop_len hs hs₁ hl
    have h := ih hs₁ hd₁ (by omega) hr
    refine ⟨h.wf_src, h.wf_dst, by simpa [hl] using h.left, by simp [h.arrived, hdl, hl],
      fun b => ?_⟩
    rw [h.threads, hl, List.take_succ_cons, Threads.get?_modify]
    by_cases hb : b = a
    · subst hb
      cases th.get? b <;> simp
    · simp [hb]

/-- With room in `dst` and only threads in `src`, the loop gets through. -/
lemma moveThreads_total {n : ℕ} {th : Threads Cpu} {src dst : Queue (ThreadAddr Cpu)}
    (hs : src.Wf) (hd : dst.Wf) (hn : n ≤ src.len) (hroom : dst.len + n ≤ 256)
    (hth : ∀ a ∈ src.toList, (th.get? a).isSome) :
    ∃ r, moveThreads c n th src dst = .ok r := by
  induction n generalizing th src dst with
  | zero => exact ⟨_, rfl⟩
  | succ n ih =>
    obtain ⟨a, src₁, hp, hs₁, hl⟩ := hs.pop (by omega)
    obtain ⟨dst₁, hpush, hd₁, hdl⟩ := hd.push (by omega) a
    have hlen := pop_len hs hs₁ hl
    have hdlen : dst₁.len = dst.len + 1 := by
      have := congrArg List.length hdl
      rwa [hd₁.length, List.length_append, hd.length] at this
    have ha : (th.get? a).isSome := hth a (by simp [hl])
    have hth₁ : ∀ b ∈ src₁.toList, ((th.modify (Thread.setCpu c) a).get? b).isSome := by
      intro b hb
      have := hth b (by simp [hl, hb])
      rw [Threads.get?_modify]
      split <;> simpa using this
    obtain ⟨r, hr⟩ := ih hs₁ hd₁ (by omega) (by omega) hth₁
    refine ⟨r, ?_⟩
    simp only [moveThreads, hp, ok_bind, Threads.write_ok.mpr ⟨ha, rfl⟩, hpush, expect]
    exact hr

/-- Either the lengths differ by at most one and nothing changes, or half the difference goes
from the longer queue to the shorter. -/
lemma doLoadBalance_cases {th th' : Threads Cpu} {qa qb qa' qb' : Queue (ThreadAddr Cpu)}
    (ha : qa.Wf) (hb : qb.Wf) (h : doLoadBalance th qa qb c o = .ok (th', qa', qb')) :
    (qa.len ≤ qb.len + 1 ∧ qb.len ≤ qa.len + 1 ∧ th' = th ∧ qa' = qa ∧ qb' = qb) ∨
      (∃ m, 1 ≤ m ∧ qb.len + 2 * m ≤ qa.len ∧ qa.len ≤ qb.len + 2 * m + 1 ∧
        Moved o m th th' qa qb qa' qb') ∨
      ∃ m, 1 ≤ m ∧ qa.len + 2 * m ≤ qb.len ∧ qb.len ≤ qa.len + 2 * m + 1 ∧
        Moved c m th th' qb qa qb' qa' := by
  unfold doLoadBalance at h
  simp only at h
  split at h
  · next hle =>
    cases h
    exact .inl ⟨by omega, by omega, rfl, rfl, rfl⟩
  · next hgt =>
    split at h
    · next hpos =>
      refine .inr (.inl ⟨_, ?_, ?_, ?_, moveThreads_ok ha hb ?_ h⟩) <;> omega
    · next hneg =>
      obtain ⟨⟨th₁, q₁, q₂⟩, hm, he⟩ := bind_ok.mp h
      cases he
      refine .inr (.inr ⟨_, ?_, ?_, ?_, moveThreads_ok hb ha ?_ hm⟩) <;> omega

/-- On queues of threads, `do_load_balance` does not panic. -/
lemma doLoadBalance_total {th : Threads Cpu} {qa qb : Queue (ThreadAddr Cpu)} (ha : qa.Wf)
    (hb : qb.Wf) (hta : ∀ a ∈ qa.toList, (th.get? a).isSome)
    (htb : ∀ a ∈ qb.toList, (th.get? a).isSome) (c o : Cpu) :
    ∃ r, doLoadBalance th qa qb c o = .ok r := by
  have hla := ha.len
  have hlb := hb.len
  unfold doLoadBalance
  simp only
  split
  · exact ⟨_, rfl⟩
  · split
    · exact moveThreads_total ha hb (by omega) (by omega) hta
    · obtain ⟨⟨th', q₁, q₂⟩, hr⟩ :=
        moveThreads_total hb ha
          (show ((qa.len : ℤ) - qb.len).natAbs / 2 ≤ qb.len by omega) (by omega) htb
      exact ⟨_, by rw [hr]; rfl⟩

/-! ### On the kernel -/

/-- The threads in a CPU's ready queue, in order. -/
def queue (k : Kernel Cpu) (c : Cpu) : List (ThreadAddr Cpu) := (k.tls c).readyQueue.toList

def current (k : Kernel Cpu) (c : Cpu) : ThreadAddr Cpu := (k.tls c).threadAddr

/-- Every ready queue is well formed. -/
def QueuesWf (k : Kernel Cpu) : Prop := ∀ c, (k.tls c).readyQueue.Wf

/-- What moving `m` threads from the CPU `s` to the CPU `d` does. -/
structure Shifted (k k' : Kernel Cpu) (s d : Cpu) (m : ℕ) : Prop where
  ne : s ≠ d
  pos : 1 ≤ m
  enough : m ≤ (queue k s).length
  wf : QueuesWf k'
  src : queue k' s = (queue k s).drop m
  dst : queue k' d = queue k d ++ (queue k s).take m
  others : ∀ e, e ≠ s → e ≠ d → k'.tls e = k.tls e
  current : ∀ e, current k' e = current k e
  threads : ∀ b, k'.threads.get? b =
    if b ∈ (queue k s).take m then (k.threads.get? b).map (Thread.setCpu d) else k.threads.get? b
  rest : k' = { k with threads := k'.threads, tls := k'.tls }

/-- What a load balance that moves threads does: half the difference goes from the CPU `s` with the
longer queue to the CPU `d` with the shorter. -/
structure Balanced (k k' : Kernel Cpu) (s d : Cpu) (m : ℕ) : Prop extends Shifted k k' s d m where
  lower : (queue k d).length + 2 * m ≤ (queue k s).length
  upper : (queue k s).length ≤ (queue k d).length + 2 * m + 1

lemma shifted_of_moved {k : Kernel Cpu} {s d : Cpu} {m : ℕ} {th' : Threads Cpu}
    {qs qd : Queue (ThreadAddr Cpu)} (hwf : QueuesWf k) (hne : s ≠ d) (hm : 1 ≤ m)
    (hle : m ≤ (k.tls s).readyQueue.len)
    (hM : Moved d m k.threads th' (k.tls s).readyQueue (k.tls d).readyQueue qs qd) :
    Shifted k { k with
      threads := th'
      tls := Function.update
        (Function.update k.tls s { k.tls s with readyQueue := qs })
        d { k.tls d with readyQueue := qd } } s d m where
  ne := hne
  pos := hm
  enough := by simpa [queue, (hwf _).length] using hle
  wf e := by
    by_cases hd : e = d
    · subst hd
      simpa using hM.wf_dst
    · by_cases hs : e = s
      · subst hs
        simpa [hd] using hM.wf_src
      · simpa [hd, hs] using hwf e
  src := by simpa [queue, hne] using hM.left
  dst := by simpa [queue] using hM.arrived
  others e hs hd := by simp [hs, hd]
  current e := by
    by_cases hd : e = d
    · subst hd
      simp [current]
    · by_cases hs : e = s
      · subst hs
        simp [current, hd]
      · simp [current, hd, hs]
  threads := hM.threads
  rest := rfl

lemma balanced_of_moved {k : Kernel Cpu} {s d : Cpu} {m : ℕ} {th' : Threads Cpu}
    {qs qd : Queue (ThreadAddr Cpu)} (hwf : QueuesWf k) (hne : s ≠ d) (hm : 1 ≤ m)
    (hlo : (k.tls d).readyQueue.len + 2 * m ≤ (k.tls s).readyQueue.len)
    (hup : (k.tls s).readyQueue.len ≤ (k.tls d).readyQueue.len + 2 * m + 1)
    (hM : Moved d m k.threads th' (k.tls s).readyQueue (k.tls d).readyQueue qs qd) :
    Balanced k { k with
      threads := th'
      tls := Function.update
        (Function.update k.tls s { k.tls s with readyQueue := qs })
        d { k.tls d with readyQueue := qd } } s d m where
  toShifted := shifted_of_moved hwf hne hm (by omega) hM
  lower := by simpa [queue, (hwf _).length] using hlo
  upper := by simpa [queue, (hwf _).length] using hup

lemma maybeLoadBalance_cases {k k' : Kernel Cpu} (hwf : QueuesWf k)
    (h : maybeLoadBalance k c o = .ok k') :
    k' = k ∨ k.online o = true ∧
      ∃ s d m, (s = c ∧ d = o ∨ s = o ∧ d = c) ∧ Balanced k k' s d m := by
  unfold maybeLoadBalance at h
  split at h
  · cases h
    exact .inl rfl
  · next hon =>
    split at h
    · cases h
      exact .inl rfl
    · next hco =>
      obtain ⟨⟨th', qa', qb'⟩, hb, he⟩ := bind_ok.mp h
      cases he
      rcases doLoadBalance_cases (hwf c) (hwf o) hb with
        ⟨-, -, rfl, rfl, rfl⟩ | ⟨m, hm, hlo, hup, hM⟩ | ⟨m, hm, hlo, hup, hM⟩
      · left
        simp
      · exact .inr ⟨by simpa using hon, c, o, m, .inl ⟨rfl, rfl⟩,
          balanced_of_moved hwf hco hm hlo hup hM⟩
      · refine .inr ⟨by simpa using hon, o, c, m, .inr ⟨rfl, rfl⟩, ?_⟩
        have := balanced_of_moved hwf (Ne.symm hco) hm hlo hup hM
        rwa [Function.update_comm (Ne.symm hco)] at this

lemma maybeLoadBalance_total {k : Kernel Cpu} (hwf : QueuesWf k)
    (hth : ∀ e, ∀ a ∈ queue k e, (k.threads.get? a).isSome) (c o : Cpu) :
    ∃ k', maybeLoadBalance k c o = .ok k' := by
  unfold maybeLoadBalance
  split
  · exact ⟨k, rfl⟩
  · split
    · exact ⟨k, rfl⟩
    · obtain ⟨⟨th, qa, qb⟩, hr⟩ := doLoadBalance_total (hwf c) (hwf o) (hth c) (hth o) c o
      exact ⟨_, by rw [hr]; rfl⟩

/-! ### The steps -/

omit [DecidableEq Cpu] in
lemma allocFrames_ok {k k' : Kernel Cpu} {n : ℕ} :
    allocFrames k n = .ok k' ↔
      n ≤ k.freeFrames ∧ k' = { k with freeFrames := k.freeFrames - n } := by
  unfold allocFrames
  split
  · next hle => simp [hle, eq_comm]
  · next hlt => simp [hlt]

variable {k k' : Kernel Cpu}

lemma step_allocFrame (h : step k .allocFrame = .ok k') :
    1 ≤ k.freeFrames ∧ k' = { k with freeFrames := k.freeFrames - 1 } := allocFrames_ok.mp h

lemma step_setupTls {base : UInt64} (h : step k (.setupTls c base) = .ok k') :
    k.online c = false ∧
      k' = { k with
        threads := { k.threads with
          idle := Function.update k.threads.idle c (newIdle (Stack.new base 1)) }
        online := Function.update k.online c true
        tls := Function.update k.tls c ⟨.null, Ring.new⟩ } := by
  obtain ⟨_, hg, h⟩ := bind_ok.mp h
  cases h
  exact ⟨guard_ok.mp hg, rfl⟩

lemma step_forceSwitchToIdle (h : step k (.forceSwitchToIdle c) = .ok k') :
    k.online c = true ∧ current k c = .null ∧
      k' = { k with tls := Function.update k.tls c { k.tls c with threadAddr := .idle c } } := by
  obtain ⟨_, hg, h⟩ := bind_ok.mp h
  cases h
  have := guard_ok.mp hg
  exact ⟨this.1, by simpa [Started, current] using this.2, rfl⟩

lemma step_spawnRaw {base : UInt64} (h : step k (.spawnRaw c base) = .ok k') :
    Started k c ∧ 4 ≤ k.freeFrames ∧
      k' = { k with
        threadIdCounter := k.threadIdCounter + 1
        freeFrames := k.freeFrames - 4
        built := k.built ++ [newThread k.threadIdCounter (Stack.new base 4)] } := by
  obtain ⟨_, hg, h⟩ := bind_ok.mp h
  obtain ⟨k₁, h₁, h⟩ := bind_ok.mp h
  obtain ⟨hf, rfl⟩ := allocFrames_ok.mp h₁
  cases h
  exact ⟨guard_ok.mp hg, hf, rfl⟩

lemma step_addThread {n : ℕ} (h : step k (.addThread c n) = .ok k') :
    Started k c ∧ ∃ t, k.built[n]? = some t ∧
      k' = { k with
        threads := { k.threads with table := (k.threads.table.addThread t).1 }
        built := k.built.eraseIdx n
        added := if (k.threads.table.addThread t).2 then k.added ++ [t.id] else k.added } := by
  obtain ⟨_, hg, h⟩ := bind_ok.mp h
  unfold addThread at h
  split at h
  · cases h
  · next t ht =>
    cases h
    exact ⟨guard_ok.mp hg, t, ht, rfl⟩

lemma ready_ok {a : ThreadAddr Cpu} (hwf : QueuesWf k) (h : ready k c a = .ok k') :
    (k.threads.get? a).isSome ∧ ∃ q : Queue (ThreadAddr Cpu), q.Wf ∧ q.toList = queue k c ++ [a] ∧
      k' = { k with
        threads := k.threads.modify (Thread.markReady c) a
        tls := Function.update k.tls c { k.tls c with readyQueue := q } } := by
  obtain ⟨th, hw, h⟩ := bind_ok.mp h
  obtain ⟨hsome, rfl⟩ := Threads.write_ok.mp hw
  obtain ⟨x, hx, h⟩ := bind_ok.mp h
  obtain ⟨q, hq, h⟩ := bind_ok.mp h
  rw [expect_ok] at hq
  obtain ⟨-, hqw, hql⟩ := (hwf c).push_ok (hq ▸ hx)
  cases h
  exact ⟨hsome, q, hqw, hql, rfl⟩

lemma step_readyAdded {n : ℕ} (hwf : QueuesWf k) (h : step k (.readyAdded c n) = .ok k') :
    Started k c ∧ ∃ id i, k.added[n]? = some id ∧ k.threads.table.getThreadMut id = some i ∧
      ∃ q : Queue (ThreadAddr Cpu), q.Wf ∧ q.toList = queue k c ++ [.slot i] ∧
        k' = { k with
          threads := k.threads.modify (Thread.markReady c) (.slot i)
          tls := Function.update k.tls c { k.tls c with readyQueue := q }
          added := k.added.eraseIdx n } := by
  obtain ⟨_, hg, h⟩ := bind_ok.mp h
  unfold readyAdded at h
  split at h
  · cases h
  · next id hid =>
    obtain ⟨i, hi, h⟩ := bind_ok.mp h
    have hwf' : QueuesWf { k with added := k.added.eraseIdx n } := hwf
    obtain ⟨-, q, hq, hl, rfl⟩ := ready_ok hwf' h
    exact ⟨guard_ok.mp hg, id, i, hid, unwrap_ok.mp hi, q, hq, hl, rfl⟩

lemma step_saveRsp {rsp : UInt64} (h : step k (.saveRsp c rsp) = .ok k') :
    Started k c ∧ (k.threads.get? (current k c)).isSome ∧
      k' = { k with threads :=
        k.threads.modify (fun t => { t with regs := rsp }) (current k c) } := by
  obtain ⟨_, hg, h⟩ := bind_ok.mp h
  obtain ⟨th, hw, h⟩ := bind_ok.mp h
  obtain ⟨hsome, rfl⟩ := Threads.write_ok.mp hw
  cases h
  exact ⟨guard_ok.mp hg, hsome, rfl⟩

lemma step_switch (h : step k (.switch c) = .ok k') :
    Started k c ∧ ∃ t, switch c (k.tls c) = .ok t ∧
      k' = { k with tls := Function.update k.tls c t } := by
  obtain ⟨_, hg, h⟩ := bind_ok.mp h
  obtain ⟨t, ht, h⟩ := bind_ok.mp h
  cases h
  exact ⟨guard_ok.mp hg, t, ht, rfl⟩

lemma step_maybeLoadBalance (hwf : QueuesWf k) (h : step k (.maybeLoadBalance c o) = .ok k') :
    Started k c ∧ (k' = k ∨ k.online o = true ∧
      ∃ s d m, (s = c ∧ d = o ∨ s = o ∧ d = c) ∧ Balanced k k' s d m) := by
  obtain ⟨_, hg, h⟩ := bind_ok.mp h
  exact ⟨guard_ok.mp hg, maybeLoadBalance_cases hwf h⟩

lemma wf_update {t : TlsData Cpu} (h : QueuesWf k) (ht : t.readyQueue.Wf) :
    ∀ e, (Function.update k.tls c t e).readyQueue.Wf := by
  intro e
  by_cases he : e = c
  · subst he
    simpa using ht
  · simpa [he] using h e

lemma wf_step {a : Act Cpu} (h : QueuesWf k) (hs : step k a = .ok k') : QueuesWf k' := by
  cases a with
  | allocFrame =>
    obtain ⟨-, rfl⟩ := step_allocFrame hs
    exact h
  | setupTls d base =>
    obtain ⟨-, rfl⟩ := step_setupTls hs
    exact wf_update h Queue.new_wf
  | forceSwitchToIdle d =>
    obtain ⟨-, -, rfl⟩ := step_forceSwitchToIdle hs
    exact wf_update h (h d)
  | spawnRaw d base =>
    obtain ⟨-, -, rfl⟩ := step_spawnRaw hs
    exact h
  | addThread d n =>
    obtain ⟨-, t, -, rfl⟩ := step_addThread hs
    exact h
  | readyAdded d n =>
    obtain ⟨-, id, i, -, -, q, hq, -, rfl⟩ := step_readyAdded h hs
    exact wf_update h hq
  | saveRsp d rsp =>
    obtain ⟨-, -, rfl⟩ := step_saveRsp hs
    exact h
  | switch d =>
    obtain ⟨-, t, ht, rfl⟩ := step_switch hs
    obtain ⟨t', ht', hq, -⟩ := switch_spec (h d) d
    cases ht.symm.trans ht'
    exact wf_update h hq
  | maybeLoadBalance d o =>
    obtain ⟨-, rfl | ⟨-, s, e, m, -, hB⟩⟩ := step_maybeLoadBalance h hs
    · exact h
    · exact hB.wf

end OsRust.Effects
