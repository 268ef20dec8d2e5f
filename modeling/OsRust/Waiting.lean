import OsRust.Settle
import OsRust.Panics
import OsRust.Rotation
import OsRust.CurrentThread
import OsRust.Lib.Rounds
import OsRust.Slots

/-!
Nobody waits for ever. Over the whole life of the system, load balances move threads only so
often, however many threads are spawned meanwhile; and between two moves a thread that waits
gets nearer to its turn at every switch of the CPU it is on.
-/

namespace OsRust.Waiting

open OsRust.Ring OsRust.Task OsRust.Sched OsRust.Effects OsRust.ThreadIds OsRust.Placement
open OsRust.Panics OsRust.Settle OsRust.Rotation OsRust.Slots
open OsRust.Lib.Machine OsRust.Lib.Ledger

variable {Cpu : Type} [DecidableEq Cpu] [Fintype Cpu] {k k' : Kernel Cpu} {c : Cpu}
  {a : Act Cpu} {as : List (Act Cpu)}

/-! ### What a step does to the ready queues -/

inductive QueueStep (k k' : Kernel Cpu) : Act Cpu → Prop
  | same {a : Act Cpu} (hq : ∀ e, queue k' e = queue k e)
      (hnil : ∀ c, a = .switch c → queue k c = []) : QueueStep k k' a
  | arrive {c : Cpu} {n i : ℕ} (hold : isReady k i = false) (hnew : isReady k' i = true)
      (hq : queue k' c = queue k c ++ [.slot i]) (ho : ∀ e, e ≠ c → queue k' e = queue k e) :
      QueueStep k k' (.readyAdded c n)
  | turn {c : Cpu} {l : List (ThreadAddr Cpu)} (hl : queue k c = current k' c :: l)
      (hq : queue k' c = l ++ if current k c = .idle c then [] else [current k c])
      (ho : ∀ e, e ≠ c → queue k' e = queue k e) : QueueStep k k' (.switch c)
  | shift {c o s d : Cpu} {m : ℕ} (hB : Balanced k k' s d m) :
      QueueStep k k' (.maybeLoadBalance c o)

lemma queueStep (h : Placed k) (hs : step k a = .ok k') : QueueStep k k' a := by
  cases a with
  | allocFrame =>
    obtain ⟨-, rfl⟩ := step_allocFrame hs
    exact .same (fun e => rfl) (by simp)
  | setupTls c base =>
    obtain ⟨hoff, rfl⟩ := step_setupTls hs
    refine .same (fun e => ?_) (by simp)
    by_cases he : e = c
    · subst he
      simp [queue, h.offline e hoff]
    · simp [queue, he]
  | forceSwitchToIdle c =>
    obtain ⟨-, -, rfl⟩ := step_forceSwitchToIdle hs
    refine .same (fun e => ?_) (by simp)
    by_cases he : e = c
    · subst he
      simp [queue]
    · simp [queue, he]
  | spawnRaw c base =>
    obtain ⟨-, -, rfl⟩ := step_spawnRaw hs
    exact .same (fun e => rfl) (by simp)
  | addThread c n =>
    obtain ⟨-, t, -, rfl⟩ := step_addThread hs
    exact .same (fun e => rfl) (by simp)
  | readyAdded c n =>
    obtain ⟨id, i, hid, hborn, -, -, -, -, hview⟩ := view_readyAdded h.ids h.wf hs
    obtain ⟨-, id', j, hid', hj, q, -, hl, rfl⟩ := step_readyAdded h.wf hs
    obtain ⟨i', hi', hborn'⟩ := h.ids.find hid'
    cases hid.symm.trans hid'
    cases hi'.symm.trans hj
    obtain rfl := h.ids.inj _ _ _ _ _ hborn hborn'
    refine .arrive (i := i) (by simp [isReady, hborn]) (by simp [isReady, hview]) ?_
      fun e he => by simp [queue, he]
    simp [queue, hl]
  | saveRsp c rsp =>
    obtain ⟨-, -, rfl⟩ := step_saveRsp hs
    exact .same (fun e => rfl) (by simp)
  | switch c =>
    obtain ⟨-, t, ht, rfl⟩ := step_switch hs
    obtain ⟨t', ht', -, hcase⟩ := switch_spec (h.wf c) c
    cases ht.symm.trans ht'
    rcases hcase with ⟨hnil, rfl⟩ | ⟨rest, hl, hq⟩
    · refine .same (fun e => by simp) fun d hd => ?_
      cases hd
      exact hnil
    · have htls : Function.update k.tls c t c = t := Function.update_self ..
      refine .turn (l := rest) ?_ ?_ fun e he => by simp [queue, he]
      · show _ = (Function.update k.tls c t c).threadAddr :: rest
        rw [htls]
        exact hl
      · show (Function.update k.tls c t c).readyQueue.toList = _
        rw [htls]
        exact hq
  | maybeLoadBalance c o =>
    obtain ⟨-, rfl | ⟨-, s, d, m, -, hB⟩⟩ := step_maybeLoadBalance h.wf hs
    · exact .same (fun e => rfl) (by simp)
    · exact .shift hB

/-- A thread made ready stays so. -/
lemma isReady_step {i : ℕ} (h : Placed k) (hs : step k a = .ok k') (hi : isReady k i = true) :
    isReady k' i = true := by
  cases a with
  | allocFrame =>
    obtain ⟨-, rfl⟩ := step_allocFrame hs
    exact hi
  | setupTls c base =>
    obtain ⟨-, rfl⟩ := step_setupTls hs
    exact hi
  | forceSwitchToIdle c =>
    obtain ⟨-, -, rfl⟩ := step_forceSwitchToIdle hs
    exact hi
  | spawnRaw c base =>
    obtain ⟨-, -, rfl⟩ := step_spawnRaw hs
    exact hi
  | addThread c n =>
    obtain ⟨t, -, -, -, -, ⟨j, hj, -, hv⟩ | ⟨-, hv⟩⟩ := view_addThread hs
    · have hij : i ≠ j := by
        rintro rfl
        simp [isReady, hj] at hi
      rwa [isReady_congr ((hv i).trans (if_neg hij))]
    · rwa [isReady_congr (hv i)]
  | readyAdded c n =>
    obtain ⟨id, j, -, -, -, -, -, -, hv⟩ := view_readyAdded h.ids h.wf hs
    by_cases hij : i = j
    · subst hij
      simp [isReady, hv]
    · rwa [isReady_congr ((hv i).trans (if_neg hij))]
  | saveRsp c rsp =>
    obtain ⟨-, -, rfl⟩ := step_saveRsp hs
    have hv := view_modify (k := k) (f := fun t => { t with regs := rsp }) (fun _ => rfl)
      (fun _ => rfl) (current k c) i
    rwa [isReady_congr hv]
  | switch c =>
    obtain ⟨-, t, -, rfl⟩ := step_switch hs
    exact hi
  | maybeLoadBalance c o =>
    obtain ⟨-, rfl | ⟨-, s, d, m, -, hB⟩⟩ := step_maybeLoadBalance h.wf hs
    · exact hi
    · rwa [isReady_congr (view_shifted hB.toShifted i)]

/-! ### Load balances over the life of the system -/

def readySlots (k : Kernel Cpu) : Finset ℕ := (Finset.range 256).filter fun i => isReady k i = true

omit [DecidableEq Cpu] [Fintype Cpu] in
lemma mem_readySlots {i : ℕ} : i ∈ readySlots k ↔ isReady k i = true := by
  simp only [readySlots, Finset.mem_filter, Finset.mem_range, and_iff_right_iff_imp]
  exact lt_of_isReady

omit [DecidableEq Cpu] [Fintype Cpu] in
lemma readySlots_card_le (k : Kernel Cpu) : (readySlots k).card ≤ 256 :=
  (Finset.card_filter_le _ _).trans_eq (Finset.card_range 256)

lemma readySlots_step (h : Placed k) (hs : step k a = .ok k') : readySlots k ⊆ readySlots k' :=
  fun _ hi => mem_readySlots.mpr (isReady_step h hs (mem_readySlots.mp hi))

/-- A queue holds no more threads than there are. -/
lemma queue_length_le (h : Placed k) (c : Cpu) : (queue k c).length ≤ (readySlots k).card := by
  have hsub : (queue k c).toFinset ⊆ (readySlots k).image ThreadAddr.slot := by
    intro x hx
    have hmem := List.mem_toFinset.mp hx
    obtain ⟨i, rfl⟩ := h.slots c x hmem
    exact Finset.mem_image_of_mem _ (mem_readySlots.mpr (h.ready_of_here (here_queue_pos hmem)))
  have hcard := (Finset.card_le_card hsub).trans Finset.card_image_le
  rwa [List.toFinset_card_of_nodup (queue_nodup h c)] at hcard

omit [DecidableEq Cpu] in
lemma sumSq_congr (h : ∀ e, queue k' e = queue k e) : sumSq k' = sumSq k := by
  unfold sumSq
  simp only [h]

open Classical in
/-- A step adds to the sum of the squares what it adds to the square of the number of threads, at
the most; a load balance that moves a thread has paid two then. -/
lemma sumSq_grows (h : Placed k) (hs : step k a = .ok k') :
    sumSq k' + 2 * (if MovesThread k a then 1 else 0) + (readySlots k).card ^ 2 ≤
      sumSq k + (readySlots k').card ^ 2 := by
  have hsq := Nat.pow_le_pow_left (Finset.card_le_card (readySlots_step h hs)) 2
  cases queueStep h hs with
  | same hq _ =>
    have hnot : ¬ MovesThread k a := by
      rintro ⟨c, o, k'', -, hs', e, hne⟩
      cases hs.symm.trans hs'
      exact hne (hq e)
    rw [if_neg hnot, sumSq_congr hq]
    omega
  | @arrive c n i hold hnew hq ho =>
    have hnot : ¬ MovesThread k (.readyAdded c n) := by
      rintro ⟨c', o, k'', he, -⟩
      cases he
    rw [if_neg hnot]
    have hsum := sum_change (f := fun e => (queue k e).length ^ 2)
      (g := fun e => (queue k' e).length ^ 2) (i := c) fun e he => by simp only [ho e he]
    have hlen := queue_length_le h c
    -- the thread that arrives is one more
    have hmore : (readySlots k).card + 1 ≤ (readySlots k').card := by
      have hnew' : i ∉ readySlots k := by simp [mem_readySlots, hold]
      rw [← Finset.card_insert_of_notMem hnew']
      exact Finset.card_le_card
        (Finset.insert_subset (mem_readySlots.mpr hnew) (readySlots_step h hs))
    have hpow := Nat.pow_le_pow_left hmore 2
    simp only [hq, List.length_append, List.length_singleton] at hsum
    unfold sumSq
    nlinarith only [hsum, hpow, hlen]
  | @turn c l hl hq ho =>
    have hnot : ¬ MovesThread k (.switch c) := by
      rintro ⟨c', o, k'', he, -⟩
      cases he
    rw [if_neg hnot]
    have := sumSq_switch h.wf hs
    omega
  | shift hB =>
    have := sumSq_balanced hB
    split <;> omega

lemma moves_paid {k₀ : Kernel Cpu} (h0 : Boot k₀) (hr : run step k₀ as = .ok k) :
    sumSq k + 2 * movingSteps k₀ as ≤ (readySlots k).card ^ 2 := by
  classical
  -- what is left of the square of the size of the table pays
  have hstep : ∀ (k : Kernel Cpu) a k', Placed k → True → step k a = .ok k' →
      Placed k' ∧ sumSq k' + (256 ^ 2 - (readySlots k').card ^ 2) +
        2 * (if MovesThread k a then 1 else 0) ≤
          sumSq k + (256 ^ 2 - (readySlots k).card ^ 2) := by
    intro k a k' hk _ hs
    have hgrow := sumSq_grows hk hs
    have hle := Nat.pow_le_pow_left (readySlots_card_le k') 2
    refine ⟨hk.step hs, ?_⟩
    omega
  have hpay := (run_potential hstep (Placed.boot h0) (fun _ _ => trivial) hr).2
  have hboot : sumSq k₀ = 0 := by simp [sumSq, queue, h0.tls]
  have hle := Nat.pow_le_pow_left (readySlots_card_le k) 2
  rw [hboot] at hpay
  unfold movingSteps
  omega

lemma sumSq_le (h : Reached k) : sumSq k ≤ 256 ^ 2 := by
  obtain ⟨k₀, as, h0, hr⟩ := h
  have hpaid := moves_paid h0 hr
  have hle := Nat.pow_le_pow_left (readySlots_card_le k) 2
  omega

/-- **Load balances move threads only so often.** Over any run from boot, with spawns, switches and
load balances in any order, twice the number of load balances that move a thread is at most the
square of the number of threads made ready so far; the table bounds these by 256. -/
theorem moves_bounded {k₀ : Kernel Cpu} (h0 : Boot k₀) (hr : run step k₀ as = .ok k) :
    sumSq k + 2 * movingSteps k₀ as ≤ (readySlots k).card ^ 2 ∧
      movingSteps k₀ as ≤ 128 * 256 := by
  have hpaid := moves_paid h0 hr
  have hle := Nat.pow_le_pow_left (readySlots_card_le k) 2
  exact ⟨hpaid, by omega⟩

theorem moves_bounded_two :
    ∃ k : Kernel (Fin 2), run step (bootKernel (Fin 2) 64)
        (waitingTwo 0 1 ++ [.maybeLoadBalance 1 0]) = .ok k ∧
      sumSq k + 2 * movingSteps (bootKernel (Fin 2) 64)
        (waitingTwo 0 1 ++ [.maybeLoadBalance 1 0]) ≤ (readySlots k).card ^ 2 := by
  obtain ⟨k, hk, -⟩ := exists_run_of_map (f := fun k => current k 0) (c := .idle 0)
    (show (run step (bootKernel (Fin 2) 64)
      (waitingTwo 0 1 ++ [.maybeLoadBalance 1 0])).map _ = _ by rfl)
  exact ⟨k, hk, (moves_bounded (boot_bootKernel (by decide)) hk).1⟩

/-! ### Bounded waiting -/

variable {x : ThreadAddr Cpu}

/-- The action is a load balance that takes the thread from the queue it is in. -/
def Moves (x : ThreadAddr Cpu) (k : Kernel Cpu) (a : Act Cpu) : Prop :=
  ∃ c o k', a = .maybeLoadBalance c o ∧ step k a = .ok k' ∧ ∃ e, x ∈ queue k e ∧ x ∉ queue k' e

open Classical in
/-- How many of the steps of a run are load balances that move the thread. -/
noncomputable def movesOf (x : ThreadAddr Cpu) (k : Kernel Cpu) (as : List (Act Cpu)) : ℕ :=
  cost step (fun k a => if Moves x k a then 1 else 0) k as

/-- Some time in the run the thread is the current one of a CPU. -/
def GetsTurn (x : ThreadAddr Cpu) (k : Kernel Cpu) (as : List (Act Cpu)) : Prop :=
  ∃ bs k', bs <+: as ∧ run step k bs = .ok k' ∧ ∃ c, current k' c = x

/-- In every round, every CPU online at its beginning switches. -/
def EveryCpuSwitches (k : Kernel Cpu) (round : List (Act Cpu)) : Prop :=
  ∀ c, k.online c = true → .switch c ∈ round

omit [Fintype Cpu] in
lemma movesOf_le (x : ThreadAddr Cpu) (k : Kernel Cpu) (as : List (Act Cpu)) :
    movesOf x k as ≤ movingSteps k as := by
  classical
  refine cost_le_cost (fun k a => ?_) k as
  by_cases hm : Moves x k a
  · obtain ⟨c, o, k', ha, hs, e, hin, hout⟩ := hm
    have hthread : MovesThread k a := ⟨c, o, k', ha, hs, e, fun he => hout (he ▸ hin)⟩
    rw [if_pos hthread]
    split <;> omega
  · rw [if_neg hm]
    omega

/-- **One step.** A thread that waits gets its turn, or is moved, or stays where it is: then as many
are ahead of it as before, less one when the CPU it is on switches. -/
lemma wait_step (h : Placed k) (hs : step k a = .ok k') (hx : x ∈ queue k c) :
    (∃ d, current k' d = x) ∨ (Moves x k a ∧ ∃ d, x ∈ queue k' d) ∨
      x ∈ queue k' c ∧
        (queue k' c).idxOf x + (if isSwitch c a then 1 else 0) ≤ (queue k c).idxOf x := by
  have hrest : queue k' c = queue k c → isSwitch c a = false → x ∈ queue k' c ∧
      (queue k' c).idxOf x + (if isSwitch c a then 1 else 0) ≤ (queue k c).idxOf x := by
    intro hq ha
    rw [hq, ha]
    exact ⟨hx, le_rfl⟩
  cases queueStep h hs with
  | same hq hnil =>
    refine .inr (.inr (hrest (hq c) ?_))
    by_contra ha
    have hc : a = .switch c := by
      cases a with
      | switch d => simpa [isSwitch] using ha
      | _ => simp [isSwitch] at ha
    simp [hnil c hc] at hx
  | @arrive d n i hold hnew hq ho =>
    refine .inr (.inr ?_)
    by_cases hd : d = c
    · subst hd
      rw [hq, List.idxOf_append_of_mem hx]
      exact ⟨List.mem_append_left _ hx, by simp [isSwitch]⟩
    · exact hrest (ho c (Ne.symm hd)) rfl
  | @turn d l hl hq ho =>
    by_cases hd : d = c
    · subst hd
      by_cases hcur : current k' d = x
      · exact .inl ⟨d, hcur⟩
      · -- the thread is behind the one whose turn it is
        have hxl : x ∈ l := by
          rw [hl] at hx
          exact (List.mem_cons.mp hx).resolve_left (Ne.symm hcur)
        refine .inr (.inr ⟨by rw [hq]; exact List.mem_append_left _ hxl, ?_⟩)
        rw [hq, hl, List.idxOf_append_of_mem hxl, List.idxOf_cons_ne l hcur]
        simp [isSwitch]
    · exact .inr (.inr (hrest (ho c (Ne.symm hd)) (by simp [isSwitch, hd])))
  | @shift e o s d m hB =>
    by_cases hcs : c = s
    · subst hcs
      have hsplit : queue k c = (queue k c).take m ++ (queue k c).drop m :=
        (List.take_append_drop m _).symm
      have hdisj := List.disjoint_of_nodup_append (hsplit ▸ queue_nodup h c)
      by_cases htake : x ∈ (queue k c).take m
      · have hout : x ∉ queue k' c := by
          rw [hB.src]
          exact hdisj htake
        refine .inr (.inl ⟨⟨e, o, k', rfl, hs, c, hx, hout⟩, d, ?_⟩)
        rw [hB.dst]
        exact List.mem_append_right _ htake
      · have hdrop : x ∈ (queue k c).drop m := by
          rw [hsplit] at hx
          exact (List.mem_append.mp hx).resolve_left htake
        refine .inr (.inr ⟨by rwa [hB.src], ?_⟩)
        have hidx : (queue k c).idxOf x =
            ((queue k c).drop m).idxOf x + ((queue k c).take m).length := by
          conv_lhs => rw [hsplit, List.idxOf_append_of_notMem htake, Nat.add_comm]
        rw [hB.src, hidx]
        simp [isSwitch]
    · by_cases hcd : c = d
      · subst hcd
        refine .inr (.inr ?_)
        rw [hB.dst, List.idxOf_append_of_mem hx]
        exact ⟨List.mem_append_left _ hx, by simp [isSwitch]⟩
      · exact .inr (.inr (hrest (by rw [queue, hB.others c hcs hcd, queue]) rfl))

omit [Fintype Cpu] in
lemma GetsTurn.cons (hs : step k a = .ok k') (h : GetsTurn x k' as) : GetsTurn x k (a :: as) := by
  obtain ⟨bs, k'', hbs, hr, hc⟩ := h
  exact ⟨a :: bs, k'', List.cons_prefix_cons.mpr ⟨rfl, hbs⟩, run_cons_ok.mpr ⟨k', hs, hr⟩, hc⟩

omit [Fintype Cpu] in
lemma GetsTurn.append {bs : List (Act Cpu)} (h : GetsTurn x k as) : GetsTurn x k (as ++ bs) := by
  obtain ⟨cs, k'', hcs, hr, hc⟩ := h
  exact ⟨cs, k'', hcs.trans (List.prefix_append as bs), hr, hc⟩

omit [Fintype Cpu] in
lemma GetsTurn.prepend (hr : run step k as = .ok k') {bs : List (Act Cpu)} (h : GetsTurn x k' bs) :
    GetsTurn x k (as ++ bs) := by
  obtain ⟨cs, k'', hcs, hr', hc⟩ := h
  exact ⟨as ++ cs, k'', (List.prefix_append_right_inj as).mpr hcs, run_append_ok.mpr ⟨k', hr, hr'⟩,
    hc⟩

/-- **One run.** A thread that waits gets its turn, or is moved, or is nearer to its turn by the
switches of the CPU it is on. -/
lemma wait_run (h : Placed k) (hr : run step k as = .ok k') (hx : x ∈ queue k c) :
    GetsTurn x k as ∨ ∃ d, x ∈ queue k' d ∧ (1 ≤ movesOf x k as ∨
      (queue k' d).idxOf x + as.countP (isSwitch c) ≤ (queue k c).idxOf x) := by
  classical
  induction as generalizing k c with
  | nil =>
    cases hr
    exact .inr ⟨c, hx, .inr (by simp)⟩
  | cons a as ih =>
    obtain ⟨k₁, h₁, hr⟩ := run_cons_ok.mp hr
    have hcost : movesOf x k (a :: as) = (if Moves x k a then 1 else 0) + movesOf x k₁ as := by
      simp only [movesOf, cost, h₁]
    rcases wait_step h h₁ hx with hcur | ⟨hm, d, hd⟩ | ⟨hstay, hidx⟩
    · exact .inl ⟨[a], k₁, by simp, by simp [run, h₁], hcur⟩
    · rcases ih (h.step h₁) hr hd with hturn | ⟨e, he, -⟩
      · exact .inl (hturn.cons h₁)
      · refine .inr ⟨e, he, .inl ?_⟩
        rw [hcost, if_pos hm]
        omega
    · rcases ih (h.step h₁) hr hstay with hturn | ⟨e, he, hcase⟩
      · exact .inl (hturn.cons h₁)
      · refine .inr ⟨e, he, hcase.imp (fun hm => by omega) fun hle => ?_⟩
        rw [List.countP_cons]
        omega

lemma idxOf_lt (h : Placed k) (hx : x ∈ queue k c) : (queue k c).idxOf x < 256 := by
  have hlt := List.idxOf_lt_length_iff.mpr hx
  have hlen := queue_length_le h c
  have hcard := readySlots_card_le k
  omega

/-- **Rounds.** Every round brings the thread nearer to its turn, or it is moved. -/
lemma wait_rounds (h : Placed k) {rounds : List (List (Act Cpu))}
    (hf : AllSteps (run step) EveryCpuSwitches k rounds)
    (hr : run step k rounds.flatten = .ok k') (hx : x ∈ queue k c) :
    GetsTurn x k rounds.flatten ∨ ∃ d, x ∈ queue k' d ∧
      (queue k' d).idxOf x + rounds.length ≤
        (queue k c).idxOf x + 256 * movesOf x k rounds.flatten := by
  induction rounds generalizing k c with
  | nil =>
    cases hr
    exact .inr ⟨c, hx, by simp⟩
  | cons r rounds ih =>
    obtain ⟨hround, hrest⟩ := hf
    obtain ⟨k₁, h₁, hr⟩ := run_append_ok.mp hr
    have hp₁ : Placed k₁ := (placed_run (I := fun _ => True) (fun _ _ _ _ _ _ => trivial) h trivial h₁).1
    have hcost : movesOf x k (r ++ rounds.flatten) = movesOf x k r + movesOf x k₁ rounds.flatten :=
      cost_append h₁ _
    rw [List.flatten_cons]
    rcases wait_run h h₁ hx with hturn | ⟨d, hd, hcase⟩
    · exact .inl hturn.append
    rcases ih hp₁ (hrest k₁ h₁) hr hd with hturn | ⟨e, he, hle⟩
    · exact .inl (hturn.prepend h₁)
    refine .inr ⟨e, he, ?_⟩
    have hd256 := idxOf_lt hp₁ hd
    rw [hcost, List.length_cons]
    rcases hcase with hm | hidx
    · omega
    · have hon : k.online c = true := by
        by_contra hoff
        simp [queue, h.offline c (by simpa using hoff)] at hx
      have hpos : 0 < r.countP (isSwitch c) :=
        List.countP_pos_iff.mpr ⟨.switch c, hround c hon, by simp [isSwitch]⟩
      omega

/-- **No thread starves.** From any state the CPUs can reach, and over any run made of rounds in
which every CPU switches, whatever else happens in them: a ready thread becomes the current thread
of some CPU within 256 rounds for each time a load balance moves it and 256 more, and load balances
move it at most 32768 times. -/
theorem no_starvation (h : Reached k) {i : ℕ} (hi : isReady k i = true)
    {rounds : List (List (Act Cpu))} (hf : AllSteps (run step) EveryCpuSwitches k rounds)
    (hr : run step k rounds.flatten = .ok k') :
    movesOf (.slot i) k rounds.flatten ≤ 128 * 256 ∧
      (256 * (movesOf (.slot i) k rounds.flatten + 1) ≤ rounds.length →
        GetsTurn (.slot i) k rounds.flatten) := by
  have hp := placed_of_reached h
  constructor
  · -- the moves of the run that led here count as well
    obtain ⟨k₀, as, h0, has⟩ := h
    have hall := moves_paid h0 (run_append_ok.mpr ⟨k, has, hr⟩)
    have hcard := Nat.pow_le_pow_left (readySlots_card_le k') 2
    have hsum : movingSteps k₀ (as ++ rounds.flatten) =
        movingSteps k₀ as + movingSteps k rounds.flatten := cost_append has _
    have hle := movesOf_le (.slot i) k rounds.flatten
    omega
  · intro hlen
    obtain ⟨c, hc, -⟩ := exists_of_total_eq_one ((hp.once i).trans (by rw [hi, Bool.toNat_true]))
    by_cases hcur : current k c = .slot i
    · exact ⟨[], k, List.nil_prefix, rfl, c, hcur⟩
    · have hx : .slot i ∈ queue k c := by
        rw [here, if_neg hcur] at hc
        exact List.count_pos_iff.mp (by omega)
      rcases wait_rounds hp hf hr hx with hturn | ⟨d, hd, hle⟩
      · exact hturn
      · have := idxOf_lt hp hx
        omega

/-- Where every CPU runs threads, all of them can switch in any order. -/
lemma switches_run (h : Placed k) (hst : ∀ c, Started k c) (cs : List Cpu) :
    ∃ k', run step k (cs.map .switch) = .ok k' := by
  induction cs generalizing k with
  | nil => exact ⟨k, rfl⟩
  | cons c cs ih =>
    obtain ⟨k₁, h₁⟩ := switch_total h (hst c)
    obtain ⟨k', hr⟩ := ih (h.step h₁) fun d => CurrentThread.started_step h h₁ (hst d)
    exact ⟨k', run_cons_ok.mpr ⟨k₁, h₁, hr⟩⟩

omit [Fintype Cpu] in
/-- Switches move no thread as load balances do. -/
lemma movesOf_switches (x : ThreadAddr Cpu) (k : Kernel Cpu) (cs : List Cpu) :
    movesOf x k (cs.map .switch) = 0 := by
  refine cost_eq_zero (fun a ha s => if_neg ?_) k
  obtain ⟨c, -, rfl⟩ := List.mem_map.mp ha
  rintro ⟨c', o, s', he, -⟩
  cases he

/-- A load balance between CPU 0, where two threads wait, and CPU 1; from then on the two CPUs
switch in turn. -/
def inTurn : List (List (Act (Fin 2))) :=
  [.maybeLoadBalance 1 0, .switch 0, .switch 1] :: List.replicate 511 [.switch 0, .switch 1]

-- the balance moves the thread, so that it may wait for 512 rounds
theorem no_starvation_two :
    ∃ k k' : Kernel (Fin 2), run step (bootKernel (Fin 2) 64) (waitingTwo 0 1) = .ok k ∧
      run step k inTurn.flatten = .ok k' ∧ movesOf (.slot 0) k inTurn.flatten = 1 ∧
      GetsTurn (.slot 0) k inTurn.flatten := by
  obtain ⟨k₁, hk₁, hc₁⟩ := exists_run_of_map
    (f := fun k => (decide (Started k 0), decide (Started k 1), queue k 0))
    (c := (true, true, [.slot 1]))
    (show (run step (bootKernel (Fin 2) 64)
      (waitingTwo 0 1 ++ [.maybeLoadBalance 1 0])).map _ = _ by rfl)
  obtain ⟨k, hk, hb⟩ := run_append_ok.mp hk₁
  obtain ⟨k₂, hk₂, hc⟩ := exists_run_of_map (f := fun k => (isReady k 0, queue k 0))
    (c := (true, [.slot 0, .slot 1]))
    (show (run step (bootKernel (Fin 2) 64) (waitingTwo 0 1)).map _ = _ by rfl)
  cases hk.symm.trans hk₂
  simp only [Prod.mk.injEq, decide_eq_true_eq] at hc hc₁
  have h : Reached k := ⟨_, _, boot_bootKernel (by decide), hk⟩
  have hflat : inTurn.flatten =
      .maybeLoadBalance 1 0 :: (List.replicate 512 [0, 1]).flatten.map .switch := by
    rw [List.map_flatten, List.map_replicate]
    rfl
  obtain ⟨k', hr⟩ := switches_run (placed_of_reached (h.runs hb))
    (Fin.forall_fin_two.mpr ⟨hc₁.1, hc₁.2.1⟩) (List.replicate 512 [0, 1]).flatten
  obtain ⟨_, hs, hnil⟩ := run_cons_ok.mp hb
  cases hnil
  have hrun : run step k inTurn.flatten = .ok k' := by
    rw [hflat]
    exact run_cons_ok.mpr ⟨k₁, hs, hr⟩
  have hmoved : Moves (.slot 0) k (.maybeLoadBalance 1 0) :=
    ⟨1, 0, k₁, rfl, hs, 0, by simp [hc.2], by simp [hc₁.2.2]⟩
  have hmoves : movesOf (.slot 0) k inTurn.flatten = 1 := by
    rw [hflat, movesOf, cost, hs, if_pos hmoved]
    exact congrArg (1 + ·) (movesOf_switches _ k₁ _)
  have hf : AllSteps (run step) EveryCpuSwitches k inTurn := by
    refine allSteps_of_forall (fun r hr s c _ => ?_) k
    have hboth : .switch 0 ∈ r ∧ .switch 1 ∈ r := by
      rcases List.mem_cons.mp hr with rfl | hmem
      · simp
      · simp [List.eq_of_mem_replicate hmem]
    rcases (show c = 0 ∨ c = 1 by omega) with rfl | rfl
    · exact hboth.1
    · exact hboth.2
  refine ⟨k, k', hk, hrun, hmoves, (no_starvation h hc.1 hf hrun).2 ?_⟩
  rw [hmoves, inTurn, List.length_cons, List.length_replicate]

end OsRust.Waiting
