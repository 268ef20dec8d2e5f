import OsRust.Placement
import OsRust.Lib.Ledger
import Mathlib.Tactic.Ring
import Mathlib.Tactic.Linarith

/-!
Load balancing settles: the sum of the squared queue lengths pays for every load balance that
moves a thread, and `switch` never adds to it. So whatever pairs are balanced in whatever
order, threads stop moving.
-/

namespace OsRust.Settle

open OsRust.Ring OsRust.Task OsRust.Sched OsRust.Effects OsRust.Placement
open OsRust.Lib.Machine OsRust.Lib.Ledger

variable {Cpu : Type} [DecidableEq Cpu] [Fintype Cpu] {k k' : Kernel Cpu} {c o : Cpu}

/-- The sum over all CPUs of the squared length of the ready queue. -/
def sumSq (k : Kernel Cpu) : ℕ := ∑ c, (queue k c).length ^ 2

/-- A `switch` or a load balance between two different CPUs. -/
inductive SwitchOrBalance : Act Cpu → Prop
  | switch (c : Cpu) : SwitchOrBalance (.switch c)
  | balance (c o : Cpu) : c ≠ o → SwitchOrBalance (.maybeLoadBalance c o)

/-- The action is a load balance, and some ready queue is not what it was after it. -/
def MovesThread (k : Kernel Cpu) (a : Act Cpu) : Prop :=
  ∃ c o k', a = .maybeLoadBalance c o ∧ step k a = .ok k' ∧ ∃ e, queue k' e ≠ queue k e

open Classical in
/-- How many of the steps of a run are load balances that move a thread. -/
noncomputable def movingSteps (k : Kernel Cpu) (as : List (Act Cpu)) : ℕ :=
  cost step (fun k a => if MovesThread k a then 1 else 0) k as

/-- Moving `m` of `a` to `b`, where `m` is half the difference rounded down. -/
lemma sq_transfer {a b m : ℕ} (hm : 1 ≤ m) (hlo : b + 2 * m ≤ a) :
    (a - m) ^ 2 + (b + m) ^ 2 + 2 ≤ a ^ 2 + b ^ 2 := by
  obtain ⟨e, rfl⟩ := Nat.exists_eq_add_of_le hlo
  have hsub : b + 2 * m + e - m = b + m + e := by omega
  have hsq : 1 ≤ m ^ 2 := Nat.one_le_pow _ _ hm
  calc (b + 2 * m + e - m) ^ 2 + (b + m) ^ 2 + 2
      = (b + m + e) ^ 2 + (b + m) ^ 2 + 2 := by rw [hsub]
    _ ≤ (b + m + e) ^ 2 + (b + m) ^ 2 + 2 * m ^ 2 + 2 * m * e := by
        have : 2 ≤ 2 * m ^ 2 := by omega
        exact (Nat.add_le_add_left this _).trans (Nat.le_add_right _ _)
    _ = (b + 2 * m + e) ^ 2 + b ^ 2 := by ring

lemma sumSq_balanced {s d : Cpu} {m : ℕ} (h : Balanced k k' s d m) :
    sumSq k' + 2 ≤ sumSq k := by
  have hsum := sum_transfer (f := fun e => (queue k e).length ^ 2)
    (g := fun e => (queue k' e).length ^ 2) h.ne fun e hs hd => by
      simp [queue, h.others e hs hd]
  have hsrc : (queue k' s).length = (queue k s).length - m := by rw [h.src, List.length_drop]
  have hdst : (queue k' d).length = (queue k d).length + m := by
    have := h.lower
    rw [h.dst, List.length_append, List.length_take, Nat.min_eq_left (by omega)]
  have hsq := sq_transfer h.pos h.lower
  unfold sumSq
  simp only [hsrc, hdst] at hsum
  omega

lemma sumSq_switch (hwf : QueuesWf k) (h : step k (.switch c) = .ok k') : sumSq k' ≤ sumSq k := by
  obtain ⟨-, t, ht, rfl⟩ := step_switch h
  obtain ⟨t', ht', -, hcase⟩ := switch_spec (hwf c) c
  cases ht.symm.trans ht'
  set k' : Kernel Cpu := { k with tls := Function.update k.tls c t } with hk'
  have hlen : (queue k' c).length ≤ (queue k c).length := by
    have hq : queue k' c = t.readyQueue.toList := by simp [queue, hk']
    rcases hcase with ⟨-, rfl⟩ | ⟨rest, hl, hq'⟩
    · rw [hq, queue]
    · rw [hq, hq', queue, hl, List.length_append, List.length_cons]
      split <;> simp
  have hsum := sum_change (f := fun e => (queue k e).length ^ 2)
    (g := fun e => (queue k' e).length ^ 2) (i := c) fun d hd => by simp [queue, hk', hd]
  have hsq := Nat.pow_le_pow_left hlen 2
  unfold sumSq
  omega

/-- One step: the sum does not grow, and it drops by two when a thread moves. -/
lemma sumSq_step (hwf : QueuesWf k) {a : Act Cpu} (ha : SwitchOrBalance a)
    (h : step k a = .ok k') :
    sumSq k' ≤ sumSq k ∧ (MovesThread k a → sumSq k' + 2 ≤ sumSq k) := by
  cases ha with
  | switch c =>
    refine ⟨sumSq_switch hwf h, ?_⟩
    rintro ⟨c', o', k'', he, -⟩
    cases he
  | balance c o _ =>
    obtain ⟨-, rfl | ⟨-, s, d, m, -, hB⟩⟩ := step_maybeLoadBalance hwf h
    · refine ⟨le_rfl, ?_⟩
      rintro ⟨c', o', k'', -, hs, e, hne⟩
      rw [h] at hs
      cases hs
      exact absurd rfl hne
    · have := sumSq_balanced hB
      exact ⟨by omega, fun _ => this⟩

/-- Every run keeps the sum from growing, and pays two for every step that moves a thread. -/
lemma sumSq_run (hwf : QueuesWf k) {as : List (Act Cpu)} (ha : ∀ a ∈ as, SwitchOrBalance a)
    (h : run step k as = .ok k') :
    QueuesWf k' ∧ sumSq k' + 2 * movingSteps k as ≤ sumSq k := by
  refine run_potential (fun k a k' hk hsb hs => ?_) hwf ha h
  obtain ⟨hle, hdrop⟩ := sumSq_step hk hsb hs
  refine ⟨wf_step hk hs, ?_⟩
  split
  · next hm =>
    have := hdrop hm
    omega
  · omega

/-- **Load balancing settles.** From any kernel with well-formed ready queues, over any
interleaving of switches and load balances: no step increases the sum of the squared queue
lengths, every load balance that moves a thread lowers it by at least two, and so there are at
most half as many of these as the sum was to begin with. -/
theorem load_balancing_settles (hwf : QueuesWf k) {as : List (Act Cpu)}
    (ha : ∀ a ∈ as, SwitchOrBalance a) (h : run step k as = .ok k') :
    (∀ a k'', SwitchOrBalance a → step k' a = .ok k'' →
        sumSq k'' ≤ sumSq k' ∧ (MovesThread k' a → sumSq k'' + 2 ≤ sumSq k')) ∧
      2 * movingSteps k as ≤ sumSq k := by
  obtain ⟨hwf', hle⟩ := sumSq_run hwf ha h
  refine ⟨fun a k'' hsb hs => ?_, by omega⟩
  exact sumSq_step hwf' hsb hs

/-- Two threads wait on CPU `c` and none on CPU `d`. -/
def waitingTwo (c d : Cpu) : List (Act Cpu) :=
  startOn c 0x10000 ++ startOn d 0x20000 ++ spawnOn c 0x30000 ++ spawnOn c 0x40000

theorem load_balancing_settles_two :
    ∃ k k' : Kernel (Fin 2), run step (bootKernel (Fin 2) 64) (waitingTwo 0 1) = .ok k ∧
      run step k [.maybeLoadBalance 1 0, .switch 0] = .ok k' ∧
      2 * movingSteps k [.maybeLoadBalance 1 0, .switch 0] ≤ sumSq k := by
  obtain ⟨k', hk', -⟩ := exists_run_of_map (f := fun k => current k 0) (c := .slot 1)
    (show (run step (bootKernel (Fin 2) 64)
      (waitingTwo 0 1 ++ [.maybeLoadBalance 1 0, .switch 0])).map _ = _ by rfl)
  obtain ⟨k, hk, hr⟩ := run_append_ok.mp hk'
  have hwf := (placed_of_reached ⟨_, _, boot_bootKernel (by decide), hk⟩).wf
  refine ⟨k, k', hk, hr, (load_balancing_settles hwf ?_ hr).2⟩
  intro a ha
  rcases List.mem_pair.mp ha with rfl | rfl
  · exact .balance 1 0 (by decide)
  · exact .switch 0

end OsRust.Settle
