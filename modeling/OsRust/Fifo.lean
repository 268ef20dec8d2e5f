import OsRust.Ring
import OsRust.Lib.Machine

/-!
The ready queue is a list of at most 256 items, first in, first out: whatever calls are made,
their results are those of the list.

A log tells which slots of the buffer were written and which were taken out. It is not part of
the queue; it says what the queue may read.
-/

namespace OsRust.Fifo

open OsRust.Ring OsRust.Lib.Machine

variable {α : Type}

inductive Call (α : Type)
  | push (item : α)
  | pop

inductive Result (α : Type)
  | pushed (r : Except α Unit)
  | popped (item : Option α)

/-- What has happened to a slot of the buffer. -/
inductive Event (α : Type)
  | wrote (slot : ℕ) (item : α)
  | took (slot : ℕ)

/-- What a slot holds for the queue: what was last written there and not taken out since. -/
def held : List (Event α) → ℕ → Option α
  | [], _ => none
  | .wrote i x :: log, j => if i = j then some x else held log j
  | .took i :: log, j => if i = j then none else held log j

structure State (α : Type) where
  queue : Queue α
  results : List (Result α)
  /-- The newest event first. -/
  log : List (Event α)

def init : State α := ⟨Ring.new, [], []⟩

def step (s : State α) : Call α → Res (State α)
  | .push item => do
    match ← s.queue.push item with
    | .ok q => .ok ⟨q, s.results ++ [.pushed (.ok ())], .wrote s.queue.tail item :: s.log⟩
    | .error item => .ok { s with results := s.results ++ [.pushed (.error item)] }
  | .pop => do
    match ← s.queue.pop with
    | some (item, q) => .ok ⟨q, s.results ++ [.popped (some item)], .took s.queue.head :: s.log⟩
    | none => .ok { s with results := s.results ++ [.popped none] }

/-! ### The list -/

structure Spec (α : Type) where
  items : List α
  results : List (Result α)

/-- A list that takes an item at the end, unless it has `cap` of them, and gives away its first. -/
def specStep (cap : ℕ) (s : Spec α) : Call α → Spec α
  | .push item =>
    if s.items.length = cap then { s with results := s.results ++ [.pushed (.error item)] }
    else ⟨s.items ++ [item], s.results ++ [.pushed (.ok ())]⟩
  | .pop =>
    match s.items with
    | [] => { s with results := s.results ++ [.popped none] }
    | x :: items => ⟨items, s.results ++ [.popped (some x)]⟩

/-- The calls made on the empty list. -/
def specRun (cap : ℕ) (calls : List (Call α)) : Spec α := calls.foldl (specStep cap) ⟨[], []⟩

/-! ### The queue and the list -/

/-- The queue stands for the list, and the slots in use hold its items. -/
structure Refines (s : State α) (t : Spec α) : Prop where
  wf : s.queue.Wf
  items : s.queue.toList = t.items
  results : s.results = t.results
  held : ∀ k < s.queue.len, held s.log ((s.queue.head + k) % 256) = t.items[k]?

variable {s : State α} {t : Spec α} {q q' : Queue α}

lemma push_fields {x : α} (h : q.push x = .ok (.ok q')) :
    q'.head = q.head ∧ q'.len = q.len + 1 := by
  unfold Queue.push at h
  split at h
  · cases h
  · split at h
    · cases h
      exact ⟨rfl, rfl⟩
    · cases h

lemma pop_fields {x : α} (h : q.pop = .ok (some (x, q'))) :
    q'.head = (q.head + 1) % 256 ∧ q'.len = q.len - 1 := by
  unfold Queue.pop at h
  split at h
  · cases h
  · split at h
    · cases h
    · cases h
    · cases h
      exact ⟨rfl, rfl⟩

lemma Refines.length (h : Refines s t) : t.items.length = s.queue.len := by
  rw [← h.items, h.wf.length]

lemma Refines.push (h : Refines s t) (x : α) :
    ∃ s', step s (.push x) = .ok s' ∧ Refines s' (specStep 256 t (.push x)) := by
  have hlength := h.length
  by_cases hfull : s.queue.len = 256
  · refine ⟨{ s with results := s.results ++ [.pushed (.error x)] }, ?_, ?_⟩
    · simp only [step, Queue.push_full hfull, ok_bind]
    · rw [specStep, if_pos (hlength.trans hfull)]
      exact ⟨h.wf, h.items, by rw [h.results], h.held⟩
  · have hlt : s.queue.len < 256 := Nat.lt_of_le_of_ne h.wf.len hfull
    obtain ⟨q, hpush, hwf, hlist⟩ := h.wf.push hlt x
    obtain ⟨hhead, hlen⟩ := push_fields hpush
    refine ⟨⟨q, s.results ++ [.pushed (.ok ())], .wrote s.queue.tail x :: s.log⟩, ?_, ?_⟩
    · simp only [step, hpush, ok_bind]
    · rw [specStep, if_neg (hlength ▸ hfull)]
      refine ⟨hwf, by rw [hlist, h.items], by rw [h.results], fun k hk => ?_⟩
      have htail := h.wf.tail
      simp only [hhead, hlen] at hk ⊢
      rcases Nat.lt_succ_iff_lt_or_eq.mp hk with hk | rfl
      · -- the slot written lies behind the ones in use
        rw [Fifo.held, if_neg (by omega), h.held k hk, List.getElem?_append_left (by omega)]
      · rw [Fifo.held, if_pos htail, ← hlength, List.getElem?_concat_length]

/-- A pop reads what the slot at the head holds. -/
lemma Refines.pop (h : Refines s t) :
    ∃ s', step s .pop = .ok s' ∧ Refines s' (specStep 256 t .pop) ∧
      ∀ x q, s.queue.pop = .ok (some (x, q)) → Fifo.held s.log s.queue.head = some x := by
  have hlength := h.length
  rcases h.wf.pop_cases with ⟨hnil, hpop⟩ | ⟨x, q, hpop, hwf, hlist⟩
  · have hitems : t.items = [] := by rw [← h.items, hnil]
    refine ⟨{ s with results := s.results ++ [.popped none] }, ?_, ?_, ?_⟩
    · simp only [step, hpop, ok_bind]
    · simp only [specStep, hitems]
      exact ⟨h.wf, hnil, by rw [h.results], fun k hk => by rw [h.held k hk, hitems]⟩
    · intro x q hq
      rw [hpop] at hq
      cases hq
  · have hitems : t.items = x :: q.toList := by rw [← h.items, hlist]
    obtain ⟨hhead, hlen⟩ := pop_fields hpop
    have hpos : 0 < s.queue.len := by
      rw [← hlength, hitems]
      exact Nat.succ_pos _
    have hlt := h.wf.head
    have hle := h.wf.len
    have hheld := h.held 0 hpos
    rw [Nat.add_zero, Nat.mod_eq_of_lt hlt, hitems] at hheld
    refine ⟨⟨q, s.results ++ [.popped (some x)], .took s.queue.head :: s.log⟩, ?_, ?_, ?_⟩
    · simp only [step, hpop, ok_bind]
    · simp only [specStep, hitems]
      refine ⟨hwf, rfl, by rw [h.results], fun k hk => ?_⟩
      simp only [hhead, hlen] at hk ⊢
      -- the slots that stay in use are other slots
      have hslot : ((s.queue.head + 1) % 256 + k) % 256 = (s.queue.head + (k + 1)) % 256 := by
        omega
      have hnext := h.held (k + 1) (by omega)
      rw [hitems, List.getElem?_cons_succ] at hnext
      rw [Fifo.held, hslot, if_neg (by omega), hnext]
    · intro x' q' hq
      rw [hpop] at hq
      cases hq
      exact hheld

lemma Refines.step (h : Refines s t) (c : Call α) :
    ∃ s', Fifo.step s c = .ok s' ∧ Refines s' (specStep 256 t c) := by
  cases c with
  | push x => exact h.push x
  | pop =>
    obtain ⟨s', hs, h', -⟩ := h.pop
    exact ⟨s', hs, h'⟩

lemma refines_init : Refines (init : State α) ⟨[], []⟩ :=
  ⟨Queue.new_wf, rfl, rfl, fun k hk => absurd hk (Nat.not_lt_zero k)⟩

/-- The list as a machine that never fails. -/
def specMachine (cap : ℕ) (t : Spec α) (c : Call α) : Res (Spec α) := .ok (specStep cap t c)

lemma run_specMachine (cap : ℕ) (t : Spec α) (calls : List (Call α)) :
    run (specMachine cap) t calls = .ok (calls.foldl (specStep cap) t) := by
  induction calls generalizing t with
  | nil => rfl
  | cons c calls ih => exact ih (specStep cap t c)

/-- **The ready queue is a bounded FIFO.** Any calls on it succeed with the results of the list; the
indices follow the length, and a pop reads a slot that was written and not taken out since. -/
theorem queue_refines_fifo (calls : List (Call α)) :
    ∃ s, run step init calls = .ok s ∧ s.results = (specRun 256 calls).results ∧
      s.queue.toList = (specRun 256 calls).items ∧
      s.queue.len = (specRun 256 calls).items.length ∧ s.queue.len ≤ 256 ∧
      s.queue.head < 256 ∧ s.queue.tail < 256 ∧
      s.queue.tail = (s.queue.head + s.queue.len) % 256 ∧
      ∀ x q, s.queue.pop = .ok (some (x, q)) → held s.log s.queue.head = some x := by
  have hlockstep : ∀ (s : State α) t c, Refines s t →
      ∃ s' t', step s c = .ok s' ∧ specMachine 256 t c = .ok t' ∧ Refines s' t' := by
    intro s t c h
    obtain ⟨s', hs, h'⟩ := h.step c
    exact ⟨s', _, hs, rfl, h'⟩
  obtain ⟨s, t, hs, ht, h⟩ := run_lockstep hlockstep refines_init calls
  rw [run_specMachine] at ht
  cases ht
  have htail := h.wf.tail
  obtain ⟨-, -, -, hpop⟩ := h.pop
  exact ⟨s, hs, h.results, h.items, h.length.symm, h.wf.len, h.wf.head, by omega, htail, hpop⟩

end OsRust.Fifo
