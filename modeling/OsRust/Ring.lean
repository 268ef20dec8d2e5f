import OsRust.Basic
import Mathlib.Data.List.Basic

/-!
The ready queue: a ring buffer of 256 cells, and the list it stands for.
-/

namespace OsRust.Ring

/-- `Queue<T>`. A cell that was never written (`MaybeUninit::uninit`) is `none`. -/
structure Queue (α : Type*) where
  data : Vector (Option α) 256
  head : ℕ
  tail : ℕ
  len : ℕ

variable {α : Type*}

def new : Queue α where
  data := Vector.replicate 256 none
  head := 0
  tail := 0
  len := 0

/-- `push`: gives the item back when the queue is full. -/
def Queue.push (q : Queue α) (item : α) : Res (Except α (Queue α)) :=
  if q.len = 256 then .ok (.error item)
  else if h : q.tail < 256 then
    .ok (.ok { q with
      data := q.data.set q.tail (some item) h
      tail := (q.tail + 1) % 256
      len := q.len + 1 })
  else .error (.panic "index out of bounds")

/-- `pop`. The item is read with `assume_init_read`, which is undefined on a cell that holds
none. The cell keeps its bytes. -/
def Queue.pop (q : Queue α) : Res (Option (α × Queue α)) :=
  if q.len = 0 then .ok none
  else
    match q.data[q.head]? with
    | none => .error (.panic "index out of bounds")
    | some none => .error .undef
    | some (some item) =>
      .ok (some (item, { q with head := (q.head + 1) % 256, len := q.len - 1 }))

/-- The items in `n` cells from `h` on, around the end of the buffer. -/
def contents (data : Vector (Option α) 256) : ℕ → ℕ → List α
  | _, 0 => []
  | h, n + 1 => (data[h]?.join).toList ++ contents data ((h + 1) % 256) n

/-- The list a queue stands for, oldest item first. -/
def Queue.toList (q : Queue α) : List α := contents q.data q.head q.len

/-- The indices agree with the length, and the cells in use have been written. -/
structure Queue.Wf (q : Queue α) : Prop where
  head : q.head < 256
  len : q.len ≤ 256
  tail : q.tail = (q.head + q.len) % 256
  filled : ∀ k < q.len, ∃ x, q.data[(q.head + k) % 256]? = some (some x)

lemma contents_succ (data : Vector (Option α) 256) {h : ℕ} (hh : h < 256) (n : ℕ) :
    contents data h (n + 1) = contents data h n ++ (data[(h + n) % 256]?.join).toList := by
  induction n generalizing h with
  | zero => simp [contents, Nat.mod_eq_of_lt hh]
  | succ n ih =>
    have hm : ((h + 1) % 256 + n) % 256 = (h + (n + 1)) % 256 := by omega
    rw [contents, ih (Nat.mod_lt _ (by omega)), hm, contents, List.append_assoc]

lemma contents_set {data : Vector (Option α) 256} {t : ℕ} (ht : t < 256) (x : Option α)
    {h n : ℕ} (hh : h < 256) (hne : ∀ k < n, (h + k) % 256 ≠ t) :
    contents (data.set t x ht) h n = contents data h n := by
  induction n generalizing h with
  | zero => rfl
  | succ n ih =>
    have h0 : h ≠ t := by simpa [Nat.mod_eq_of_lt hh] using hne 0 (by omega)
    rw [contents, contents, ih (Nat.mod_lt _ (by omega)), Vector.getElem?_set_ne ht h0.symm]
    intro k hk
    have := hne (k + 1) (by omega)
    omega

lemma contents_length {data : Vector (Option α) 256} {h n : ℕ} (hh : h < 256)
    (hf : ∀ k < n, ∃ x, data[(h + k) % 256]? = some (some x)) :
    (contents data h n).length = n := by
  induction n generalizing h with
  | zero => rfl
  | succ n ih =>
    obtain ⟨x, hx⟩ := hf 0 (by omega)
    rw [Nat.add_zero, Nat.mod_eq_of_lt hh] at hx
    rw [contents, hx, List.length_append, ih (Nat.mod_lt _ (by omega))]
    · simp [Nat.add_comm]
    · intro k hk
      obtain ⟨y, hy⟩ := hf (k + 1) (by omega)
      exact ⟨y, by rw [← hy]; congr 1; omega⟩

namespace Queue

variable {q q' : Queue α}

lemma new_wf : (new : Queue α).Wf := ⟨by simp [new], by simp [new], by simp [new], by simp [new]⟩

@[simp] lemma toList_new : (new : Queue α).toList = [] := rfl

lemma Wf.length (h : q.Wf) : q.toList.length = q.len := contents_length h.head h.filled

lemma Wf.toList_eq_nil (h : q.Wf) : q.toList = [] ↔ q.len = 0 := by
  rw [← List.length_eq_zero_iff, h.length]

/-- A push on a queue that is not full appends. -/
lemma Wf.push (h : q.Wf) (hl : q.len < 256) (x : α) :
    ∃ q', q.push x = .ok (.ok q') ∧ q'.Wf ∧ q'.toList = q.toList ++ [x] := by
  have ht : q.tail < 256 := by
    have := h.tail
    omega
  refine ⟨{ q with data := q.data.set q.tail (some x) ht, tail := (q.tail + 1) % 256,
                   len := q.len + 1 },
    by rw [Queue.push, if_neg (by omega), dif_pos ht], ⟨h.head, ?_, ?_, ?_⟩, ?_⟩
  · show q.len + 1 ≤ 256
    omega
  · show (q.tail + 1) % 256 = (q.head + (q.len + 1)) % 256
    have := h.tail
    omega
  · intro k hk
    replace hk : k < q.len + 1 := hk
    rcases Nat.lt_succ_iff_lt_or_eq.mp hk with hk' | rfl
    · obtain ⟨y, hy⟩ := h.filled k hk'
      refine ⟨y, ?_⟩
      show (q.data.set q.tail (some x) ht)[(q.head + k) % 256]? = _
      -- the cell written lies behind the ones in use
      rw [Vector.getElem?_set_ne ht, hy]
      have h1 := h.tail
      have h2 := h.head
      have h3 := h.len
      omega
    · exact ⟨x, by simp [← h.tail, ht]⟩
  · show contents _ q.head (q.len + 1) = contents q.data q.head q.len ++ [x]
    rw [contents_succ _ h.head, contents_set ht _ h.head, ← h.tail]
    · simp [ht]
    · intro k hk
      have h1 := h.tail
      have h2 := h.head
      omega

lemma push_full (hl : q.len = 256) (x : α) : q.push x = .ok (.error x) := by
  rw [Queue.push, if_pos hl]

lemma pop_empty (hl : q.len = 0) : q.pop = .ok none := by
  rw [Queue.pop, if_pos hl]

/-- A pop from a queue that is not empty takes the first item. -/
lemma Wf.pop (h : q.Wf) (hl : q.len ≠ 0) :
    ∃ x q', q.pop = .ok (some (x, q')) ∧ q'.Wf ∧ q.toList = x :: q'.toList := by
  obtain ⟨x, hx⟩ := h.filled 0 (by omega)
  rw [Nat.add_zero, Nat.mod_eq_of_lt h.head] at hx
  refine ⟨x, { q with head := (q.head + 1) % 256, len := q.len - 1 },
    by rw [Queue.pop, if_neg hl, hx], ⟨?_, ?_, ?_, ?_⟩, ?_⟩
  · exact Nat.mod_lt _ (by omega)
  · show q.len - 1 ≤ 256
    have := h.len
    omega
  · show q.tail = ((q.head + 1) % 256 + (q.len - 1)) % 256
    have := h.tail
    omega
  · intro k hk
    obtain ⟨y, hy⟩ := h.filled (k + 1) (by simp at hk; omega)
    refine ⟨y, ?_⟩
    rw [← hy]
    congr 1
    show ((q.head + 1) % 256 + k) % 256 = _
    omega
  · obtain ⟨n, hn⟩ := Nat.exists_eq_succ_of_ne_zero hl
    simp [toList, hn, contents, hx]

/-- A push that succeeded found room and appended. -/
lemma Wf.push_ok (h : q.Wf) {x : α} (hp : q.push x = .ok (.ok q')) :
    q.len < 256 ∧ q'.Wf ∧ q'.toList = q.toList ++ [x] := by
  have hl : q.len < 256 := by
    refine Nat.lt_of_le_of_ne h.len fun hl => ?_
    rw [push_full hl] at hp
    cases hp
  obtain ⟨q'', hq, hwf, hlist⟩ := h.push hl x
  rw [hq] at hp
  cases hp
  exact ⟨hl, hwf, hlist⟩

/-- The two outcomes of `pop`, on the list. -/
lemma Wf.pop_cases (h : q.Wf) :
    (q.toList = [] ∧ q.pop = .ok none) ∨
      ∃ x q', q.pop = .ok (some (x, q')) ∧ q'.Wf ∧ q.toList = x :: q'.toList := by
  by_cases hl : q.len = 0
  · exact .inl ⟨h.toList_eq_nil.mpr hl, pop_empty hl⟩
  · exact .inr (h.pop hl)

end Queue

end OsRust.Ring
