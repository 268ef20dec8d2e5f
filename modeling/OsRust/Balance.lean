import OsRust.Effects

/-!
One load balance: what it leaves in the two queues and in the records of the threads.
-/

namespace OsRust.Balance

open OsRust.Ring OsRust.Task OsRust.Sched OsRust.Effects

variable {Cpu : Type} [DecidableEq Cpu] {c o : Cpu} {th th' : Threads Cpu}
  {qa qb qa' qb' : Queue (ThreadAddr Cpu)}

/-- A ready queue: the indices agree, and what it holds are threads. -/
structure IsReadyQueue (th : Threads Cpu) (q : Queue (ThreadAddr Cpu)) : Prop where
  wf : q.Wf
  threads : ∀ a ∈ q.toList, (th.get? a).isSome

/-- How many threads a balance moves: half the difference, rounded down. -/
def share (src dst : List (ThreadAddr Cpu)) : ℕ := (src.length - dst.length) / 2

/-- The longer of two queues has given its share to the shorter, that of the CPU `c`: its first
threads, in their order, whose CPU is now `c`. No other thread's record has changed. -/
structure Evened (c : Cpu) (th th' : Threads Cpu) (src dst src' dst' : List (ThreadAddr Cpu)) :
    Prop where
  left : src' = src.drop (share src dst)
  arrived : dst' = dst ++ src.take (share src dst)
  even : src'.length ≤ dst'.length + 1 ∧ dst'.length ≤ src'.length + 1
  moved : ∀ a ∈ src.take (share src dst), th'.get? a = (th.get? a).map (Thread.setCpu c)
  others : ∀ a, a ∉ src.take (share src dst) → th'.get? a = th.get? a

/-- The effect of a balance between the queue `qa` of the CPU `c` and `qb` of the CPU `o`. -/
structure Effect (c o : Cpu) (th th' : Threads Cpu)
    (qa qb qa' qb' : Queue (ThreadAddr Cpu)) : Prop where
  wf : qa'.Wf ∧ qb'.Wf
  near : qa.toList.length ≤ qb.toList.length + 1 → qb.toList.length ≤ qa.toList.length + 1 →
    th' = th ∧ qa' = qa ∧ qb' = qb
  fromA : qb.toList.length + 1 < qa.toList.length →
    Evened o th th' qa.toList qb.toList qa'.toList qb'.toList
  fromB : qa.toList.length + 1 < qb.toList.length →
    Evened c th th' qb.toList qa.toList qb'.toList qa'.toList

lemma evened_of_moved {m : ℕ} (ha : qa.Wf) (hb : qb.Wf) (hlo : qb.len + 2 * m ≤ qa.len)
    (hup : qa.len ≤ qb.len + 2 * m + 1) (h : Moved o m th th' qa qb qa' qb') :
    Evened o th th' qa.toList qb.toList qa'.toList qb'.toList := by
  have hm : share qa.toList qb.toList = m := by
    unfold share
    rw [ha.length, hb.length]
    omega
  have hleft : qa'.toList.length = qa.len - m := by
    rw [h.left, List.length_drop, ha.length]
  have harrived : qb'.toList.length = qb.len + min m qa.len := by
    rw [h.arrived, List.length_append, List.length_take, ha.length, hb.length]
  constructor
  · rw [hm]
    exact h.left
  · rw [hm]
    exact h.arrived
  · rw [hleft, harrived]
    omega
  · intro a hmem
    rw [hm] at hmem
    rw [h.threads, if_pos hmem]
  · intro a hmem
    rw [hm] at hmem
    rw [h.threads, if_neg hmem]

lemma effect_of_ok (ha : qa.Wf) (hb : qb.Wf)
    (h : doLoadBalance th qa qb c o = .ok (th', qa', qb')) :
    Effect c o th th' qa qb qa' qb' := by
  rcases doLoadBalance_cases ha hb h with
    ⟨hab, hba, rfl, rfl, rfl⟩ | ⟨m, hm, hlo, hup, hM⟩ | ⟨m, hm, hlo, hup, hM⟩
  · refine ⟨⟨ha, hb⟩, fun _ _ => ⟨rfl, rfl, rfl⟩, fun hlt => ?_, fun hlt => ?_⟩ <;>
      rw [ha.length, hb.length] at hlt <;> omega
  · refine ⟨⟨hM.wf_src, hM.wf_dst⟩, fun hab _ => ?_, fun _ => evened_of_moved ha hb hlo hup hM,
      fun hlt => ?_⟩
    · rw [ha.length, hb.length] at hab
      omega
    · rw [ha.length, hb.length] at hlt
      omega
  · refine ⟨⟨hM.wf_dst, hM.wf_src⟩, fun _ hba => ?_, fun hlt => ?_,
      fun _ => evened_of_moved hb ha hlo hup hM⟩
    · rw [ha.length, hb.length] at hba
      omega
    · rw [ha.length, hb.length] at hlt
      omega

/-- With the two queues and their CPUs exchanged, a balance does the same. -/
lemma doLoadBalance_swap (th : Threads Cpu) (qa qb : Queue (ThreadAddr Cpu)) (c o : Cpu) :
    doLoadBalance th qb qa o c =
      (doLoadBalance th qa qb c o).map fun r => (r.1, r.2.2, r.2.1) := by
  have habs : ((qb.len : ℤ) - qa.len).natAbs = ((qa.len : ℤ) - qb.len).natAbs := by omega
  unfold doLoadBalance
  simp only [habs]
  split
  · rfl
  · next hfar =>
    by_cases hpos : 0 < (qa.len : ℤ) - qb.len
    · have hneg : ¬0 < (qb.len : ℤ) - qa.len := by omega
      rw [if_pos hpos, if_neg hneg]
      cases moveThreads o (((qa.len : ℤ) - qb.len).natAbs / 2) th qa qb <;> rfl
    · have hpos' : 0 < (qb.len : ℤ) - qa.len := by omega
      rw [if_neg hpos, if_pos hpos']
      cases moveThreads c (((qa.len : ℤ) - qb.len).natAbs / 2) th qb qa <;> rfl

/-- **The effect of one load balance**, which no push ends and which does not depend on the order
in which the two queues are given. -/
theorem doLoadBalance_effect (ha : IsReadyQueue th qa) (hb : IsReadyQueue th qb) (c o : Cpu) :
    ∃ th' qa' qb', doLoadBalance th qa qb c o = .ok (th', qa', qb') ∧
      Effect c o th th' qa qb qa' qb' ∧
      doLoadBalance th qb qa o c = .ok (th', qb', qa') := by
  obtain ⟨⟨th', qa', qb'⟩, hr⟩ := doLoadBalance_total ha.wf hb.wf ha.threads hb.threads c o
  refine ⟨th', qa', qb', hr, effect_of_ok ha.wf hb.wf hr, ?_⟩
  rw [doLoadBalance_swap, hr]
  rfl

/-- Three spawned threads, in the first slots of the table. -/
def threeThreads : Threads Bool where
  table := [1, 2, 3].foldl (fun tbl id => (tbl.addThread (newThread id ⟨0, 0⟩)).1) .new
  idle _ := newIdle ⟨0, 0⟩

/-- They wait around the end of the buffer. -/
def wrapped : Queue (ThreadAddr Bool) where
  data := Vector.ofFn fun i =>
    if i.val = 255 ∨ i.val < 2 then some (.slot ((i.val + 1) % 256)) else none
  head := 255
  tail := 2
  len := 3

lemma wrapped_toList : wrapped.toList = [.slot 0, .slot 1, .slot 2] := by
  simp [Queue.toList, contents, wrapped]

lemma wrapped_isReadyQueue : IsReadyQueue threeThreads wrapped := by
  refine ⟨⟨by decide, by decide, by decide, fun k hk => ?_⟩, fun a ha => ?_⟩
  · change k < 3 at hk
    obtain rfl | rfl | rfl : k = 0 ∨ k = 1 ∨ k = 2 := by omega
    · exact ⟨.slot 0, by simp [wrapped]⟩
    · exact ⟨.slot 1, by simp [wrapped]⟩
    · exact ⟨.slot 2, by simp [wrapped]⟩
  · rw [wrapped_toList] at ha
    simp only [List.mem_cons, List.not_mem_nil, or_false] at ha
    rcases ha with rfl | rfl | rfl <;> rfl

-- three threads and none: the first of them goes
theorem doLoadBalance_effect_wrapped : ∃ th' qa' qb',
    doLoadBalance threeThreads wrapped Ring.new false true = .ok (th', qa', qb') ∧
      Effect false true threeThreads th' wrapped Ring.new qa' qb' ∧
      doLoadBalance threeThreads Ring.new wrapped true false = .ok (th', qb', qa') :=
  doLoadBalance_effect wrapped_isReadyQueue
    ⟨Queue.new_wf, fun _ h => absurd h List.not_mem_nil⟩ false true

end OsRust.Balance
