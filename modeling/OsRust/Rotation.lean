import OsRust.Placement
import OsRust.Lib.RoundRobin

/-!
Round robin: as long as no load balance takes part in it, the current thread and the ready queue
of a CPU are a line taking turns, which spawned threads join at its end.
-/

namespace OsRust.Rotation

open OsRust.Ring OsRust.Task OsRust.Sched OsRust.Effects OsRust.Placement
open OsRust.Lib.Machine OsRust.Lib.RoundRobin

variable {Cpu : Type} [DecidableEq Cpu] {k k' : Kernel Cpu} {c d : Cpu} {a : Act Cpu}
  {as : List (Act Cpu)}

/-- The CPU runs threads, and its queue holds threads of the table. -/
structure Active (k : Kernel Cpu) (c : Cpu) : Prop where
  wf : QueuesWf k
  online : k.online c = true
  runs : current k c = .idle c ∨ ∃ i, current k c = .slot i
  slots : ∀ x ∈ queue k c, ∃ i, x = .slot i

def turnsOf (k : Kernel Cpu) (c : Cpu) : Turns (ThreadAddr Cpu) := ⟨current k c, queue k c⟩

/-- No load balance between `c` and another CPU, in either direction. -/
def Quiet (c : Cpu) (a : Act Cpu) : Prop :=
  ∀ o, a ≠ .maybeLoadBalance c o ∧ a ≠ .maybeLoadBalance o c

def isSwitch (c : Cpu) : Act Cpu → Bool
  | .switch d => d = c
  | _ => false

/-- The end of a spawn: the new thread is put in the queue of the CPU. -/
def isSpawn (c : Cpu) : Act Cpu → Bool
  | .readyAdded d _ => d = c
  | _ => false

/-- What an action is for the line of a CPU, where `x` is the thread that a spawn makes ready. -/
def eventsOf (c : Cpu) (x : ThreadAddr Cpu) (a : Act Cpu) : List (Event (ThreadAddr Cpu)) :=
  if isSwitch c a then [.tick] else if isSpawn c a then [.arrive x] else []

omit [DecidableEq Cpu] in
lemma turnsOf_congr (ht : k'.tls c = k.tls c) : turnsOf k' c = turnsOf k c := by
  rw [turnsOf, turnsOf, current, queue, ht]
  rfl

omit [DecidableEq Cpu] in
lemma Active.congr (h : Active k c) (hwf : QueuesWf k') (hon : k'.online c = k.online c)
    (ht : k'.tls c = k.tls c) : Active k' c := by
  have hc : current k' c = current k c := by rw [current, ht, current]
  have hq : queue k' c = queue k c := by rw [queue, ht, queue]
  exact ⟨hwf, hon.trans h.online, hc ▸ h.runs, hq ▸ h.slots⟩

/-- An action that is not for the line of the CPU. -/
lemma Active.others (h : Active k c) (hs : step k a = .ok k') (hon : k'.online c = k.online c)
    (ht : k'.tls c = k.tls c) (ha : isSwitch c a = false) (hn : isSpawn c a = false) :
    Active k' c ∧
      ∃ i, turnsOf k' c = turns (.idle c) (turnsOf k c) (eventsOf c (.slot i) a) := by
  refine ⟨h.congr (wf_step h.wf hs) hon ht, 0, ?_⟩
  rw [eventsOf, ha, hn]
  exact turnsOf_congr ht

lemma Active.switch (h : Active k c) (hs : step k (.switch c) = .ok k') :
    Active k' c ∧ turnsOf k' c = turns (.idle c) (turnsOf k c) [.tick] := by
  have hwf := wf_step h.wf hs
  obtain ⟨-, t, ht, rfl⟩ := step_switch hs
  obtain ⟨t', ht', -, hcase⟩ := switch_spec (h.wf c) c
  cases ht.symm.trans ht'
  have htls : turnsOf { k with tls := Function.update k.tls c t } c =
      ⟨t.threadAddr, t.readyQueue.toList⟩ := by
    simp [turnsOf, current, queue]
  rcases hcase with ⟨hnil, rfl⟩ | ⟨rest, hl, hq⟩
  · -- nobody waits
    have hnone : queue k c = [] := hnil
    refine ⟨⟨hwf, h.online, by simpa [current] using h.runs, by simpa [queue] using h.slots⟩, ?_⟩
    rw [htls, turns_cons, turns_nil, step_nobody _ hnone]
    rfl
  · have hline : queue k c = t.threadAddr :: rest := hl
    obtain ⟨i, hi⟩ := h.slots t.threadAddr (by simp [hline])
    refine ⟨⟨hwf, h.online, .inr ⟨i, by simpa [current] using hi⟩, fun x hx => ?_⟩, ?_⟩
    · have hx' : x ∈ rest ++ if current k c = .idle c then [] else [current k c] := by
        change x ∈ (turnsOf { k with tls := Function.update k.tls c t } c).line at hx
        rwa [htls, hq] at hx
      rcases List.mem_append.mp hx' with hx' | hx'
      · exact h.slots x (by simp [hline, hx'])
      · rcases h.runs with hc | ⟨j, hc⟩
        · simp [hc] at hx'
        · exact ⟨j, by simpa [hc] using hx'⟩
    · rw [htls, turns_cons, turns_nil, step_tick _ (s := turnsOf k c) hline, hq]
      rfl

/-- No switch panics. -/
lemma Active.switch_ok (h : Active k c) : ∃ k', Sched.step k (.switch c) = .ok k' := by
  have hst : Started k c := by
    intro hnull
    rcases h.runs with hc | ⟨i, hc⟩
    · have := hc.symm.trans hnull
      contradiction
    · have := hc.symm.trans hnull
      contradiction
  obtain ⟨t, ht, -⟩ := switch_spec (h.wf c) c
  refine ⟨{ k with tls := Function.update k.tls c t }, ?_⟩
  rw [Sched.step, guard_bind hst, ht, ok_bind]

lemma Active.readyAdded {n : ℕ} (h : Active k c) (hs : step k (.readyAdded c n) = .ok k') :
    Active k' c ∧
      ∃ i, turnsOf k' c = turns (.idle c) (turnsOf k c) [.arrive (.slot i)] := by
  have hwf := wf_step h.wf hs
  obtain ⟨-, id, i, -, -, q, -, hl, rfl⟩ := step_readyAdded h.wf hs
  refine ⟨⟨hwf, h.online, by simpa [current] using h.runs, fun x hx => ?_⟩, i, ?_⟩
  · have hx' : x ∈ queue k c ++ [.slot i] := by simpa [queue, hl] using hx
    rcases List.mem_append.mp hx' with hx' | hx'
    · exact h.slots x hx'
    · exact ⟨i, List.mem_singleton.mp hx'⟩
  · simp [turnsOf, current, queue, hl]

/-- What a step is for the line of a CPU. -/
lemma Active.step (h : Active k c) (hq : Quiet c a) (hs : step k a = .ok k') :
    Active k' c ∧
      ∃ i, turnsOf k' c = turns (.idle c) (turnsOf k c) (eventsOf c (.slot i) a) := by
  cases a with
  | allocFrame =>
    obtain ⟨-, rfl⟩ := step_allocFrame hs
    exact h.others hs rfl rfl rfl rfl
  | setupTls d base =>
    obtain ⟨hoff, rfl⟩ := step_setupTls hs
    have hd : c ≠ d := by
      rintro rfl
      rw [h.online] at hoff
      contradiction
    exact h.others hs (by simp [hd]) (by simp [hd]) rfl rfl
  | forceSwitchToIdle d =>
    obtain ⟨-, hnull, rfl⟩ := step_forceSwitchToIdle hs
    have hd : c ≠ d := by
      rintro rfl
      rcases h.runs with hc | ⟨i, hc⟩ <;> rw [hc] at hnull <;> contradiction
    exact h.others hs rfl (by simp [hd]) rfl rfl
  | spawnRaw d base =>
    obtain ⟨-, -, rfl⟩ := step_spawnRaw hs
    exact h.others hs rfl rfl rfl rfl
  | addThread d n =>
    obtain ⟨-, t, -, rfl⟩ := step_addThread hs
    exact h.others hs rfl rfl rfl rfl
  | readyAdded d n =>
    by_cases hd : d = c
    · subst hd
      obtain ⟨hact, i, hi⟩ := h.readyAdded hs
      exact ⟨hact, i, by simpa [eventsOf, isSwitch, isSpawn] using hi⟩
    · obtain ⟨-, id, i, -, -, q, -, -, rfl⟩ := step_readyAdded h.wf hs
      exact h.others hs rfl (by simp [Ne.symm hd]) rfl (by simp [isSpawn, hd])
  | saveRsp d rsp =>
    obtain ⟨-, -, rfl⟩ := step_saveRsp hs
    exact h.others hs rfl rfl rfl rfl
  | switch d =>
    by_cases hd : d = c
    · subst hd
      obtain ⟨hact, hi⟩ := h.switch hs
      exact ⟨hact, 0, by simpa [eventsOf, isSwitch] using hi⟩
    · obtain ⟨-, t, -, rfl⟩ := step_switch hs
      exact h.others hs rfl (by simp [Ne.symm hd]) (by simp [isSwitch, hd]) rfl
  | maybeLoadBalance d o =>
    have hd : c ≠ d := fun he => (hq o).1 (by rw [he])
    have ho : c ≠ o := fun he => (hq d).2 (by rw [he])
    obtain ⟨-, rfl | ⟨-, s, e, m, hse, hB⟩⟩ := step_maybeLoadBalance h.wf hs
    · exact h.others hs rfl rfl rfl rfl
    · have htls : k'.tls c = k.tls c := by
        rcases hse with ⟨rfl, rfl⟩ | ⟨rfl, rfl⟩
        · exact hB.others c hd ho
        · exact hB.others c ho hd
      have hon : k'.online c = k.online c := by rw [hB.rest]
      exact h.others hs hon htls rfl rfl

lemma ticks_eventsOf (x : ThreadAddr Cpu) (a : Act Cpu) :
    ticks (eventsOf c x a) = if isSwitch c a then 1 else 0 := by
  unfold eventsOf
  split
  · rfl
  · split <;> rfl

lemma arrivals_eventsOf (x : ThreadAddr Cpu) (a : Act Cpu) :
    arrivals (eventsOf c x a) = if isSpawn c a then [x] else [] := by
  cases a with
  | switch d =>
    unfold eventsOf
    split <;> rfl
  | readyAdded d n =>
    simp only [eventsOf, isSwitch, Bool.false_eq_true, if_false]
    split <;> rfl
  | _ => rfl

/-- What a run is for the line: a tick for each switch of the CPU, and an arrival for each spawn
that ends there. -/
lemma Active.run (h : Active k c) (hq : ∀ a ∈ as, Quiet c a) (hr : run Sched.step k as = .ok k') :
    Active k' c ∧ ∃ es, turnsOf k' c = turns (.idle c) (turnsOf k c) es ∧
      ticks es = as.countP (isSwitch c) ∧ (arrivals es).length = as.countP (isSpawn c) ∧
      .idle c ∉ arrivals es := by
  induction as generalizing k with
  | nil =>
    cases hr
    exact ⟨h, [], rfl, rfl, rfl, List.not_mem_nil⟩
  | cons a as ih =>
    obtain ⟨k₁, h₁, hr⟩ := run_cons_ok.mp hr
    obtain ⟨hact, i, hi⟩ := h.step (hq a List.mem_cons_self) h₁
    obtain ⟨hact', es, hes, hticks, harr, hidle⟩ :=
      ih hact (fun b hb => hq b (List.mem_cons_of_mem a hb)) hr
    refine ⟨hact', eventsOf c (.slot i) a ++ es, ?_, ?_, ?_, ?_⟩
    · rw [turns_append, ← hi, hes]
    · rw [ticks_append, ticks_eventsOf, hticks, List.countP_cons, Nat.add_comm]
    · rw [arrivals_append, List.length_append, arrivals_eventsOf, harr, List.countP_cons,
        Nat.add_comm]
      split <;> rfl
    · rw [arrivals_append, arrivals_eventsOf]
      split <;> simp [hidle]

/-- **Round robin**, for a run from `k` to `k'` in which no load balance takes part in the queue
of the CPU `c`. -/
structure RoundRobin (k k' : Kernel Cpu) (c : Cpu) (as : List (Act Cpu)) : Prop where
  turn : ∀ p x, (queue k c)[p]? = some x → as.countP (isSwitch c) = p + 1 → current k' c = x
  notBefore : ∀ p x, (queue k c)[p]? = some x → x ∉ current k c :: (queue k c).take p →
    as.countP (isSwitch c) ≤ p → current k' c ≠ x
  behind : current k' c ≠ .idle c → ∀ x rest, queue k' c = x :: rest → ∃ k'',
    Sched.step k' (.switch c) = .ok k'' ∧ queue k'' c = rest ++ [current k' c]
  idle : current k c ≠ .idle c → current k' c ≠ .idle c
  round : current k c ≠ .idle c → as.countP (isSpawn c) = 0 →
    as.countP (isSwitch c) = (queue k c).length + 1 →
    current k' c = current k c ∧ queue k' c = queue k c

/-- Every CPU that runs threads is such a one, and its threads are distinct. -/
lemma active_of_reached [Fintype Cpu] (h : Reached k) (hst : Started k c) :
    Active k c ∧ (current k c :: queue k c).Nodup := by
  have hp := placed_of_reached h
  refine ⟨⟨hp.wf, hp.online hst, (hp.current c).resolve_left hst, hp.slots c⟩, ?_⟩
  refine List.nodup_iff_count_le_one.mpr fun x => ?_
  have hhere : (current k c :: queue k c).count x = here k c x := by
    simp only [here, List.count_cons, beq_iff_eq]
  rw [hhere]
  by_cases hx : ∃ i, x = .slot i
  · obtain ⟨i, rfl⟩ := hx
    exact hp.here_le c i
  · -- an idle thread is never in the queue
    have hnot : x ∉ queue k c := fun hmem => hx (hp.slots c x hmem)
    rw [here, List.count_eq_zero_of_not_mem hnot]
    split <;> decide

/-- **The ready queue is served round robin.** -/
theorem round_robin (h : Active k c) (hq : ∀ a ∈ as, Quiet c a)
    (hr : run Sched.step k as = .ok k') : RoundRobin k k' c as := by
  obtain ⟨hact, es, hes, hticks, harr, hidle⟩ := h.run hq hr
  have hcur : current k' c = (turns (.idle c) (turnsOf k c) es).current :=
    congrArg Turns.current hes
  have hline : .idle c ∉ (turnsOf k c).line := fun hmem => by
    obtain ⟨i, hi⟩ := h.slots _ hmem
    contradiction
  constructor
  · intro p x hp hn
    rw [hcur]
    exact turn (s := turnsOf k c) hp (hticks.trans hn)
  · intro p x hp hx hn
    have hlt : p < (queue k c).length := (List.getElem?_eq_some_iff.mp hp).1
    rw [hcur]
    exact not_before (s := turnsOf k c) hlt hx (hticks ▸ hn)
  · intro hc x rest hl
    obtain ⟨k'', hs⟩ := hact.switch_ok
    have htick := (hact.switch hs).2
    rw [turns_cons, turns_nil, step_tick _ (s := turnsOf k' c) hl,
      if_neg (show (turnsOf k' c).current ≠ .idle c from hc)] at htick
    exact ⟨k'', hs, congrArg Turns.line htick⟩
  · intro hc
    rw [hcur]
    exact (not_idle hline hidle).2 hc
  · intro hc hspawn hn
    have hround := round hline hc (List.eq_nil_of_length_eq_zero (harr.trans hspawn))
      (hticks.trans hn)
    rw [hround] at hes
    exact ⟨congrArg Turns.current hes, congrArg Turns.line hes⟩

/-- One thread runs on CPU `c`, and one waits. -/
def spawnTwo (c d : Cpu) : List (Act Cpu) :=
  spawnOne c d ++ spawnOn c 0x40000

-- two threads take turns
theorem round_robin_two :
    ∃ k k' : Kernel (Fin 2), run Sched.step (bootKernel (Fin 2) 64) (spawnTwo 0 1) = .ok k ∧
      run Sched.step k [.switch 0, .switch 0] = .ok k' ∧
      RoundRobin k k' 0 [.switch 0, .switch 0] := by
  obtain ⟨k, hk, hc⟩ := exists_run_of_map (f := fun k => current k 0) (c := .slot 0)
    (show (run Sched.step (bootKernel (Fin 2) 64) (spawnTwo 0 1)).map _ = _ by rfl)
  have hst : Started k 0 := fun hnull => by
    have := hc.symm.trans hnull
    contradiction
  obtain ⟨hact, -⟩ := active_of_reached ⟨_, _, boot_bootKernel (by decide), hk⟩ hst
  obtain ⟨k₁, h₁⟩ := hact.switch_ok
  obtain ⟨k₂, h₂⟩ := (hact.switch h₁).1.switch_ok
  have hr : run Sched.step k [.switch 0, .switch 0] = .ok k₂ :=
    run_cons_ok.mpr ⟨k₁, h₁, run_cons_ok.mpr ⟨k₂, h₂, rfl⟩⟩
  exact ⟨k, k₂, hk, hr, round_robin hact (by simp [Quiet]) hr⟩

end OsRust.Rotation
