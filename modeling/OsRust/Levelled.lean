import OsRust.Waiting
import Mathlib.Algebra.BigOperators.Fin

/-!
Timer interrupts level the ready queues: once enough rounds have passed in which every CPU has
switched and every two have been balanced, the lengths of their queues differ by one at most, and no
CPU idles over a thread in its own queue. That stays so until the next spawn.
-/

namespace OsRust.Levelled

open OsRust.Ring OsRust.Task OsRust.Sched OsRust.Effects OsRust.Placement
open OsRust.Panics OsRust.Settle OsRust.Waiting OsRust.Slots
open OsRust.Lib.Machine OsRust.Lib.Ledger

variable {Cpu : Type} [DecidableEq Cpu] [Fintype Cpu] {k k' k'' : Kernel Cpu} {c o : Cpu}
  {a b : Act Cpu} {as : List (Act Cpu)}

/-- What a timer interrupt does. -/
inductive OfTimer : Act Cpu → Prop
  | saveRsp (c : Cpu) (rsp : UInt64) : OfTimer (.saveRsp c rsp)
  | switch (c : Cpu) : OfTimer (.switch c)
  | maybeLoadBalance (c o : Cpu) : OfTimer (.maybeLoadBalance c o)

/-- The action has no queue to make longer or shorter. -/
def Done (k : Kernel Cpu) : Act Cpu → Prop
  | .switch c => current k c = .idle c → queue k c = []
  | .maybeLoadBalance c o => k.online o = true → c ≠ o →
      (queue k c).length ≤ (queue k o).length + 1 ∧ (queue k o).length ≤ (queue k c).length + 1
  | _ => True

/-- No CPU that runs threads idles over one, and its queue and that of any other CPU online differ
by one thread at most. -/
def Level (k : Kernel Cpu) : Prop :=
  ∀ c, Started k c → Done k (.switch c) ∧ ∀ o, Done k (.maybeLoadBalance c o)

/-- In the round every CPU that runs threads switches, and is balanced with every other. -/
def Covers (k : Kernel Cpu) (round : List (Act Cpu)) : Prop :=
  ∀ c, Started k c →
    .switch c ∈ round ∧ ∀ o, k.online o = true → c ≠ o → .maybeLoadBalance c o ∈ round

/-- The queues are as long as they were. -/
structure Steady (k k' : Kernel Cpu) : Prop where
  length : ∀ e, (queue k' e).length = (queue k e).length
  idle : ∀ e, current k' e = .idle e → current k e = .idle e
  online : k'.online = k.online

omit [DecidableEq Cpu] [Fintype Cpu] in
lemma Steady.refl (k : Kernel Cpu) : Steady k k := ⟨fun _ => rfl, fun _ h => h, rfl⟩

omit [DecidableEq Cpu] [Fintype Cpu] in
lemma Steady.trans (h : Steady k k') (h' : Steady k' k'') : Steady k k'' :=
  ⟨fun e => (h'.length e).trans (h.length e), fun e he => h.idle e (h'.idle e he),
    h'.online.trans h.online⟩

omit [DecidableEq Cpu] in
lemma Steady.sumSq (h : Steady k k') : sumSq k' = sumSq k := by
  unfold Settle.sumSq
  simp only [h.length]

omit [DecidableEq Cpu] [Fintype Cpu] in
lemma Steady.done (h : Steady k k') (hb : Done k b) : Done k' b := by
  cases b with
  | switch c =>
    intro hc
    have hnil : (queue k' c).length = 0 := by
      rw [h.length, hb (h.idle c hc), List.length_nil]
    exact List.length_eq_zero_iff.mp hnil
  | maybeLoadBalance c o =>
    intro hon hco
    rw [h.online] at hon
    rw [h.length, h.length]
    exact hb hon hco
  | _ => trivial

/-- A timer interrupt neither starts nor stops a CPU. -/
lemma started_timer (h : Placed k) (ha : OfTimer a) (hs : step k a = .ok k') (c : Cpu) :
    Started k' c ↔ Started k c := by
  refine ⟨fun hc => ?_, CurrentThread.started_step h hs⟩
  rcases CurrentThread.current_step h hs c with he | ⟨rfl, -⟩ | ⟨rfl, -⟩
  · have he' : (k'.tls c).threadAddr = (k.tls c).threadAddr := he
    rwa [Started, he'] at hc
  · cases ha
  · exact (step_switch hs).1

lemma online_timer (h : Placed k) (ha : OfTimer a) (hs : step k a = .ok k') :
    k'.online = k.online := by
  cases ha with
  | saveRsp c rsp =>
    obtain ⟨-, -, rfl⟩ := step_saveRsp hs
    rfl
  | switch c =>
    obtain ⟨-, t, -, rfl⟩ := step_switch hs
    rfl
  | maybeLoadBalance c o =>
    obtain ⟨-, rfl | ⟨-, s, d, m, -, hB⟩⟩ := step_maybeLoadBalance h.wf hs
    · rfl
    · rw [hB.rest]

lemma switch_timer (h : Placed k) (hs : step k (.switch c) = .ok k') :
    (Done k (.switch c) → Steady k k') ∧
      (sumSq k' < sumSq k ∨ Steady k k' ∧ Done k' (.switch c)) := by
  obtain ⟨-, t, ht, rfl⟩ := step_switch hs
  obtain ⟨t', ht', -, hcase⟩ := switch_spec (h.wf c) c
  cases ht.symm.trans ht'
  rcases hcase with ⟨hnil, rfl⟩ | ⟨rest, hl, hq⟩
  · -- nobody waits
    rw [Function.update_eq_self]
    exact ⟨fun _ => .refl k, .inr ⟨.refl k, fun _ => hnil⟩⟩
  set k' : Kernel Cpu := { k with tls := Function.update k.tls c t } with hk'
  have hkc : k'.tls c = t := by simp [hk']
  have hother : ∀ e, e ≠ c → k'.tls e = k.tls e := fun e he => by simp [hk', he]
  have hlc : queue k c = t.threadAddr :: rest := hl
  have hqc : queue k' c = rest ++ if current k c = .idle c then [] else [current k c] := by
    rw [queue, hkc]
    exact hq
  obtain ⟨i, hi⟩ := h.slots c t.threadAddr (by simp [hlc])
  have hcur : current k' c = .slot i := by rw [current, hkc, hi]
  by_cases hidle : current k c = .idle c
  · -- the queue of a CPU that idled gets shorter
    refine ⟨fun hdone => ?_, .inl ?_⟩
    · rw [hdone hidle] at hlc
      cases hlc
    · have hsum := sum_change (f := fun e => (queue k e).length ^ 2)
        (g := fun e => (queue k' e).length ^ 2) (i := c) fun e he => by
          simp only [queue, hother e he]
      rw [hqc, hlc, if_pos hidle, List.append_nil, List.length_cons] at hsum
      have hlt : rest.length ^ 2 < (rest.length + 1) ^ 2 :=
        Nat.pow_lt_pow_left (Nat.lt_add_one rest.length) two_ne_zero
      unfold Settle.sumSq
      omega
  · have hsteady : Steady k k' := by
      refine ⟨fun e => ?_, fun e he => ?_, rfl⟩
      · by_cases hec : e = c
        · subst hec
          rw [hqc, hlc, if_neg hidle, List.length_append, List.length_singleton, List.length_cons]
        · rw [queue, hother e hec, queue]
      · by_cases hec : e = c
        · subst hec
          rw [hcur] at he
          cases he
        · rwa [current, hother e hec] at he
    refine ⟨fun _ => hsteady, .inr ⟨hsteady, fun he => ?_⟩⟩
    rw [hcur] at he
    cases he

/-- A load balance that leaves the two queues alone has found them level. -/
lemma level_of_same (h : Placed k) (hon : k.online o = true) (hco : c ≠ o)
    (hs : maybeLoadBalance k c o = .ok k) :
    (queue k c).length ≤ (queue k o).length + 1 ∧ (queue k o).length ≤ (queue k c).length + 1 := by
  unfold maybeLoadBalance at hs
  rw [if_neg (by simp [hon]), if_neg hco] at hs
  obtain ⟨⟨th, qa, qb⟩, hb, he⟩ := bind_ok.mp hs
  have htls : Function.update (Function.update k.tls c { k.tls c with readyQueue := qa }) o
      { k.tls o with readyQueue := qb } = k.tls := congrArg Kernel.tls (Except.ok.inj he)
  have hqa : qa = (k.tls c).readyQueue := by
    have := congrArg TlsData.readyQueue (congrFun htls c)
    simpa [hco] using this
  have hqb : qb = (k.tls o).readyQueue := by
    have := congrArg TlsData.readyQueue (congrFun htls o)
    simpa using this
  rw [queue, queue, (h.wf c).length, (h.wf o).length]
  rcases doLoadBalance_cases (h.wf c) (h.wf o) hb with
    ⟨h1, h2, -⟩ | ⟨m, hm, hlo, -, hM⟩ | ⟨m, hm, hlo, -, hM⟩
  · exact ⟨h1, h2⟩
  · have hlen := congrArg List.length hM.left
    rw [hqa, List.length_drop, (h.wf c).length] at hlen
    omega
  · have hlen := congrArg List.length hM.left
    rw [hqb, List.length_drop, (h.wf o).length] at hlen
    omega

lemma balance_timer (h : Placed k) (hs : step k (.maybeLoadBalance c o) = .ok k') :
    (Done k (.maybeLoadBalance c o) → Steady k k') ∧
      (sumSq k' < sumSq k ∨ Steady k k' ∧ Done k' (.maybeLoadBalance c o)) := by
  obtain ⟨_, -, hs⟩ := bind_ok.mp hs
  by_cases hco : k.online o = true ∧ c ≠ o
  · rcases maybeLoadBalance_cases h.wf hs with rfl | ⟨-, s, d, m, hsd, hB⟩
    · exact ⟨fun _ => .refl _, .inr ⟨.refl _, fun hon hne => level_of_same h hon hne hs⟩⟩
    · have hlt := sumSq_balanced hB
      refine ⟨fun hdone => ?_, .inl (by omega)⟩
      have hclose := hdone hco.1 hco.2
      have h1 := hB.pos
      have h2 := hB.lower
      rcases hsd with ⟨rfl, rfl⟩ | ⟨rfl, rfl⟩ <;> omega
  · have hk : k' = k := by
      unfold maybeLoadBalance at hs
      split at hs
      · exact (Except.ok.inj hs).symm
      · next hon =>
        rw [if_pos (by simpa [hon] using hco)] at hs
        exact (Except.ok.inj hs).symm
    rw [hk]
    exact ⟨fun _ => .refl k, .inr ⟨.refl k, fun hon hne => absurd ⟨hon, hne⟩ hco⟩⟩

/-- **One step** of a timer interrupt: what has nothing to do does nothing; and either the sum of
the squares drops, or nothing gets longer or shorter, and the step has nothing to do any more. -/
lemma timer_step (h : Placed k) (ha : OfTimer a) (hs : step k a = .ok k') :
    (Done k a → Steady k k') ∧ (sumSq k' < sumSq k ∨ Steady k k' ∧ Done k' a) := by
  cases ha with
  | saveRsp c rsp =>
    obtain ⟨-, -, rfl⟩ := step_saveRsp hs
    exact ⟨fun _ => ⟨fun _ => rfl, fun _ he => he, rfl⟩,
      .inr ⟨⟨fun _ => rfl, fun _ he => he, rfl⟩, trivial⟩⟩
  | switch c => exact switch_timer h hs
  | maybeLoadBalance c o => exact balance_timer h hs

/-- **One round**: the sum of the squares drops, or nothing in the round has anything to do any
more. -/
lemma timer_round (h : Placed k) (ha : ∀ a ∈ as, OfTimer a) (hr : run step k as = .ok k') :
    sumSq k' < sumSq k ∨ Steady k k' ∧ ∀ a ∈ as, Done k' a := by
  induction as generalizing k with
  | nil =>
    cases hr
    exact .inr ⟨.refl _, by simp⟩
  | cons a as ih =>
    obtain ⟨k₁, h₁, hr⟩ := run_cons_ok.mp hr
    have hrest := ih (h.step h₁) (fun b hb => ha b (List.mem_cons_of_mem a hb)) hr
    rcases (timer_step h (ha a List.mem_cons_self) h₁).2 with hlt | ⟨hsteady, hdone⟩
    · rcases hrest with hlt' | ⟨hsteady', -⟩
      · exact .inl (hlt'.trans hlt)
      · exact .inl (hsteady'.sumSq ▸ hlt)
    · rcases hrest with hlt' | ⟨hsteady', hdone'⟩
      · exact .inl (hsteady.sumSq ▸ hlt')
      · refine .inr ⟨hsteady.trans hsteady', ?_⟩
        exact List.forall_mem_cons.mpr ⟨hsteady'.done hdone, hdone'⟩

/-- The queues stay level. -/
lemma Level.step (hl : Level k) (h : Placed k) (ha : OfTimer a) (hs : step k a = .ok k') :
    Level k' := by
  have hdone : Done k a := by
    cases ha with
    | saveRsp c rsp => trivial
    | switch c => exact (hl c (step_switch hs).1).1
    | maybeLoadBalance c o => exact (hl c (step_maybeLoadBalance h.wf hs).1).2 o
  have hsteady := (timer_step h ha hs).1 hdone
  intro c hc
  have hold := hl c ((started_timer h ha hs c).mp hc)
  exact ⟨hsteady.done hold.1, fun o => hsteady.done (hold.2 o)⟩

/-- What a run of timer interrupts keeps. -/
lemma timer_run (h : Placed k) (ha : ∀ a ∈ as, OfTimer a) (hr : run step k as = .ok k') :
    Placed k' ∧ k'.online = k.online ∧ (∀ c, Started k' c ↔ Started k c) ∧
      (Level k → Level k') := by
  induction as generalizing k with
  | nil =>
    cases hr
    exact ⟨h, rfl, fun _ => Iff.rfl, id⟩
  | cons a as ih =>
    obtain ⟨k₁, h₁, hr⟩ := run_cons_ok.mp hr
    have ha₁ := ha a List.mem_cons_self
    obtain ⟨hp, hon, hst, hlevel⟩ :=
      ih (h.step h₁) (fun b hb => ha b (List.mem_cons_of_mem a hb)) hr
    exact ⟨hp, hon.trans (online_timer h ha₁ h₁), fun c => (hst c).trans (started_timer h ha₁ h₁ c),
      fun hl => hlevel (hl.step h ha₁ h₁)⟩

lemma levels_out_of_placed (h : Placed k) {rounds : List (List (Act Cpu))}
    (ha : ∀ r ∈ rounds, ∀ a ∈ r, OfTimer a) (hall : ∀ r ∈ rounds, Covers k r)
    (hr : run step k rounds.flatten = .ok k') (hlen : sumSq k < rounds.length) : Level k' := by
  induction rounds generalizing k with
  | nil => simp at hlen
  | cons r rounds ih =>
    obtain ⟨har, ha⟩ := List.forall_mem_cons.mp ha
    obtain ⟨hcovers, hall⟩ := List.forall_mem_cons.mp hall
    obtain ⟨k₁, h₁, hr⟩ := run_append_ok.mp hr
    obtain ⟨hp, hon, hst, -⟩ := timer_run h har h₁
    rcases timer_round h har h₁ with hlt | ⟨-, hdone⟩
    · refine ih hp ha (fun r' hr' c hc => ?_) hr ?_
      · obtain ⟨hs, hb⟩ := hall r' hr' c ((hst c).mp hc)
        exact ⟨hs, fun o ho => hb o (hon ▸ ho)⟩
      · rw [List.length_cons] at hlen
        omega
    · -- nothing in the first round had anything to do, so the queues were level after it
      have hlevel : Level k₁ := by
        intro c hc
        obtain ⟨hs, hb⟩ := hcovers c ((hst c).mp hc)
        refine ⟨hdone _ hs, fun o ho hco => ?_⟩
        exact hdone _ (hb o (hon ▸ ho) hco) ho hco
      refine (timer_run hp (fun a hmem => ?_) hr).2.2.2 hlevel
      obtain ⟨r', hr', har'⟩ := List.mem_flatten.mp hmem
      exact ha r' hr' a har'

/-- **The ready queues level out.** From any state the CPUs can reach, over any run of timer
interrupts made of more rounds than the sum of the squared queue lengths, in each of which every CPU
that runs threads switches and is balanced with every other: at the end no such CPU idles over a
thread in its own queue, and its queue differs from that of every other CPU online by one thread at
most. The sum is never above 65536. -/
theorem levels_out (h : Reached k) {rounds : List (List (Act Cpu))}
    (ha : ∀ r ∈ rounds, ∀ a ∈ r, OfTimer a) (hall : ∀ r ∈ rounds, Covers k r)
    (hr : run step k rounds.flatten = .ok k') :
    sumSq k ≤ 256 ^ 2 ∧ (sumSq k < rounds.length → Level k') :=
  ⟨sumSq_le h, levels_out_of_placed (placed_of_reached h) ha hall hr⟩

/-- Two threads wait on one CPU and none on the other, which idle. -/
def bothTick (c d : Cpu) : List (List (Act Cpu)) :=
  List.replicate 5 [.switch c, .maybeLoadBalance c d, .switch d, .maybeLoadBalance d c]

theorem levels_out_two :
    ∃ k k' : Kernel (Fin 2), run step (bootKernel (Fin 2) 64) (waitingTwo 0 1) = .ok k ∧
      run step k (bothTick 0 1).flatten = .ok k' ∧ Level k' := by
  obtain ⟨k, hk, hc⟩ := exists_run_of_map
    (f := fun k => ((queue k 0).length, (queue k 1).length)) (c := (2, 0))
    (show (run step (bootKernel (Fin 2) 64) (waitingTwo 0 1)).map _ = _ by rfl)
  obtain ⟨k₁, hk₁, -⟩ := exists_run_of_map (f := fun k => current k 0) (c := .slot 0)
    (show (run step (bootKernel (Fin 2) 64) (waitingTwo 0 1 ++ (bothTick 0 1).flatten)).map _ = _
      by rfl)
  obtain ⟨k₀, hk₀, hr⟩ := run_append_ok.mp hk₁
  cases hk.symm.trans hk₀
  have hround : ∀ r ∈ bothTick (0 : Fin 2) 1,
      r = [.switch 0, .maybeLoadBalance 0 1, .switch 1, .maybeLoadBalance 1 0] :=
    fun r hr => List.eq_of_mem_replicate hr
  refine ⟨k, k₁, hk, hr, (levels_out ⟨_, _, boot_bootKernel (by decide), hk⟩ ?_ ?_ hr).2 ?_⟩
  · intro r hr a ha
    rw [hround r hr] at ha
    simp only [List.mem_cons, List.not_mem_nil, or_false] at ha
    rcases ha with rfl | rfl | rfl | rfl <;> constructor
  · intro r hr c _
    rw [hround r hr]
    rcases (show c = 0 ∨ c = 1 by omega) with rfl | rfl
    · exact ⟨by simp, Fin.forall_fin_two.mpr ⟨by simp, by simp⟩⟩
    · exact ⟨by simp, Fin.forall_fin_two.mpr ⟨by simp, by simp⟩⟩
  · have h0 : (queue k 0).length = 2 := congrArg Prod.fst hc
    have h1 : (queue k 1).length = 0 := congrArg Prod.snd hc
    rw [sumSq, Fin.sum_univ_two, h0, h1]
    decide

end OsRust.Levelled
