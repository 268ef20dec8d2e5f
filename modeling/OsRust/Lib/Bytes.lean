import Mathlib.Algebra.Group.Nat.Defs
import Mathlib.Data.List.GetD

/-!
Memory by bytes: reading and writing runs of bytes and little-endian words, when a write is
seen by a read, and words pushed on a stack that grows down.
-/

namespace OsRust.Lib.Bytes

/-! ### Little endian -/

/-- The low `n` bytes of a number, the lowest first. -/
def toLE : ℕ → ℕ → List UInt8
  | 0, _ => []
  | n + 1, v => UInt8.ofNat v :: toLE n (v / 256)

def ofLE : List UInt8 → ℕ
  | [] => 0
  | b :: bs => b.toNat + 256 * ofLE bs

@[simp] lemma length_toLE (n v : ℕ) : (toLE n v).length = n := by
  induction n generalizing v with
  | zero => rfl
  | succ n ih => simp [toLE, ih]

lemma ofLE_toLE {n v : ℕ} (h : v < 256 ^ n) : ofLE (toLE n v) = v := by
  induction n generalizing v with
  | zero =>
    simp only [Nat.pow_zero] at h
    simp only [toLE, ofLE]
    omega
  | succ n ih =>
    have hdiv : v / 256 < 256 ^ n := by
      apply Nat.div_lt_of_lt_mul
      rw [Nat.pow_succ'] at h
      exact h
    rw [toLE, ofLE, ih hdiv, UInt8.toNat_ofNat']
    omega

/-! ### Memory -/

abbrev Mem := ℕ → UInt8

def Mem.read (m : Mem) (a n : ℕ) : List UInt8 := (List.range n).map fun i => m (a + i)

def Mem.write (m : Mem) (a : ℕ) (bs : List UInt8) : Mem := fun x =>
  if a ≤ x then bs.getD (x - a) (m x) else m x

/-- The memories agree from `a` on for `n` bytes. -/
def AgreeOn (m m' : Mem) (a n : ℕ) : Prop := ∀ x, a ≤ x → x < a + n → m' x = m x

variable {m m' : Mem} {a b n k : ℕ} {bs : List UInt8}

@[simp] lemma length_read : (m.read a n).length = n := by simp [Mem.read]

lemma getElem_read {i : ℕ} (h : i < (m.read a n).length) : (m.read a n)[i] = m (a + i) := by
  simp [Mem.read]

lemma write_of_mem {x : ℕ} (h₁ : a ≤ x) (h₂ : x - a < bs.length) :
    m.write a bs x = bs[x - a] := by
  rw [Mem.write, if_pos h₁, List.getD_eq_getElem _ _ h₂]

lemma write_of_not_mem {x : ℕ} (h : x < a ∨ a + bs.length ≤ x) : m.write a bs x = m x := by
  unfold Mem.write
  split
  · rw [List.getD_eq_default _ _ (by omega)]
  · rfl

lemma read_congr (h : AgreeOn m m' a n) : m'.read a n = m.read a n := by
  apply List.ext_getElem
  · simp
  · intro i h₁ h₂
    rw [getElem_read, getElem_read]
    rw [length_read] at h₁
    exact h _ (by omega) (by omega)

/-- Two reads side by side are one. -/
lemma read_add : m.read a (n + k) = m.read a n ++ m.read (a + n) k := by
  simp only [Mem.read, List.range_add, List.map_append, List.map_map]
  congr 2
  funext i
  simp [Nat.add_assoc]

lemma take_read (h : k ≤ n) : (m.read a n).take k = m.read a k := by
  rw [Mem.read, ← List.map_take, List.take_range, Nat.min_eq_left h, Mem.read]

lemma AgreeOn.mono (h : AgreeOn m m' a n) (hb : a ≤ b) (hk : b + k ≤ a + n) :
    AgreeOn m m' b k :=
  fun x h₁ h₂ => h x (by omega) (by omega)

lemma AgreeOn.write (h : a + n ≤ b ∨ b + bs.length ≤ a) : AgreeOn m (m.write b bs) a n := by
  intro x h₁ h₂
  apply write_of_not_mem
  omega

/-- A read of what was just written. -/
lemma read_write_self (h : bs.length = n) : (m.write a bs).read a n = bs := by
  subst h
  apply List.ext_getElem
  · simp
  · intro i h₁ h₂
    rw [getElem_read, write_of_mem (by omega) (by omega)]
    congr 1
    omega

/-- A read beside what was just written. -/
lemma read_write_of_disjoint (h : a + n ≤ b ∨ b + bs.length ≤ a) :
    (m.write b bs).read a n = m.read a n :=
  read_congr (.write h)

/-! ### Words -/

def Mem.read64 (m : Mem) (a : ℕ) : UInt64 := UInt64.ofNat (ofLE (m.read a 8))

def Mem.write64 (m : Mem) (a : ℕ) (v : UInt64) : Mem := m.write a (toLE 8 v.toNat)

@[simp] lemma read64_write64_self (v : UInt64) : (m.write64 a v).read64 a = v := by
  have hread : (m.write64 a v).read a 8 = toLE 8 v.toNat := read_write_self (length_toLE 8 _)
  rw [Mem.read64, hread, ofLE_toLE (by simpa using v.toNat_lt), UInt64.ofNat_toNat]

lemma read64_congr (h : AgreeOn m m' a 8) : m'.read64 a = m.read64 a := by
  rw [Mem.read64, read_congr h, Mem.read64]

lemma AgreeOn.write64 {v : UInt64} (h : a + n ≤ b ∨ b + 8 ≤ a) :
    AgreeOn m (m.write64 b v) a n :=
  .write (by simpa using h)

/-! ### Words in a row -/

/-- The `n` words from `a` on. -/
def Mem.readWords (m : Mem) : ℕ → ℕ → List UInt64
  | _, 0 => []
  | a, n + 1 => m.read64 a :: m.readWords (a + 8) n

def Mem.writeWords (m : Mem) : ℕ → List UInt64 → Mem
  | _, [] => m
  | a, v :: vs => (m.writeWords (a + 8) vs).write64 a v

/-- Push the words in order, on the stack that ends at `a`. -/
def Mem.pushWords : Mem → ℕ → List UInt64 → Mem
  | m, _, [] => m
  | m, a, v :: vs => (m.write64 (a - 8) v).pushWords (a - 8) vs

/-- The memory that is `f` from `lo` up to `hi`. -/
def Mem.overlay (m : Mem) (lo hi : ℕ) (f : Mem) : Mem := fun x => if lo ≤ x ∧ x < hi then f x else m x

variable {vs : List UInt64}

@[simp] lemma length_readWords : (m.readWords a n).length = n := by
  induction n generalizing a with
  | zero => rfl
  | succ n ih => simp [Mem.readWords, ih]

lemma readWords_congr (h : AgreeOn m m' a (8 * n)) : m'.readWords a n = m.readWords a n := by
  induction n generalizing a with
  | zero => rfl
  | succ n ih =>
    rw [Mem.readWords, Mem.readWords, read64_congr (h.mono (by omega) (by omega)),
      ih (h.mono (by omega) (by omega))]

lemma readWords_add : m.readWords a (n + k) = m.readWords a n ++ m.readWords (a + 8 * n) k := by
  induction n generalizing a with
  | zero => simp [Mem.readWords]
  | succ n ih =>
    rw [Nat.add_right_comm, Mem.readWords, Mem.readWords, ih, List.cons_append,
      show a + 8 + 8 * n = a + 8 * (n + 1) by omega]

lemma AgreeOn.trans {m'' : Mem} (h : AgreeOn m m' a n) (h' : AgreeOn m' m'' a n) :
    AgreeOn m m'' a n :=
  fun x h₁ h₂ => (h' x h₁ h₂).trans (h x h₁ h₂)

lemma AgreeOn.overlay {lo hi : ℕ} {f : Mem} (h : a + n ≤ lo ∨ hi ≤ a) :
    AgreeOn m (m.overlay lo hi f) a n := by
  intro x h₁ h₂
  exact if_neg (by omega)

lemma AgreeOn.writeWords (h : a + n ≤ b ∨ b + 8 * vs.length ≤ a) :
    AgreeOn m (m.writeWords b vs) a n := by
  induction vs generalizing b with
  | nil => exact fun x _ _ => rfl
  | cons v vs ih =>
    simp only [List.length_cons] at h
    exact (ih (by omega)).trans (.write64 (by omega))

lemma readWords_writeWords_self : (m.writeWords a vs).readWords a vs.length = vs := by
  induction vs generalizing a with
  | nil => rfl
  | cons v vs ih =>
    have hrest : ((m.writeWords (a + 8) vs).write64 a v).readWords (a + 8) vs.length = vs :=
      (readWords_congr (.write64 (by omega))).trans ih
    rw [List.length_cons, Mem.readWords, Mem.writeWords, read64_write64_self, hrest]

lemma AgreeOn.pushWords (hb : 8 * vs.length ≤ b) (h : a + n + 8 * vs.length ≤ b ∨ b ≤ a) :
    AgreeOn m (m.pushWords b vs) a n := by
  induction vs generalizing b m with
  | nil => exact fun x _ _ => rfl
  | cons v vs ih =>
    simp only [List.length_cons] at hb h
    exact AgreeOn.trans (.write64 (by omega)) (ih (by omega) (by omega))

/-- The words pushed stand from the new end of the stack on, the last one first, and the words
below which they were pushed follow. -/
theorem readWords_pushWords (hb : 8 * vs.length ≤ b) :
    (m.pushWords b vs).readWords (b - 8 * vs.length) (vs.length + n) =
      vs.reverse ++ m.readWords b n := by
  induction vs generalizing b m n with
  | nil => simp [Mem.pushWords]
  | cons v vs ih =>
    simp only [List.length_cons] at hb ⊢
    have htop : (m.write64 (b - 8) v).readWords (b - 8) (n + 1) = v :: m.readWords b n := by
      have hrest : (m.write64 (b - 8) v).readWords b n = m.readWords b n :=
        readWords_congr (.write64 (by omega))
      rw [Mem.readWords, read64_write64_self, show b - 8 + 8 = b by omega, hrest]
    calc (m.pushWords b (v :: vs)).readWords (b - 8 * (vs.length + 1)) (vs.length + 1 + n)
        = ((m.write64 (b - 8) v).pushWords (b - 8) vs).readWords (b - 8 - 8 * vs.length)
            (vs.length + (n + 1)) := by
          rw [Mem.pushWords, show b - 8 * (vs.length + 1) = b - 8 - 8 * vs.length by omega,
            show vs.length + 1 + n = vs.length + (n + 1) by omega]
      _ = vs.reverse ++ v :: m.readWords b n := by rw [ih (by omega), htop]
      _ = (v :: vs).reverse ++ m.readWords b n := by simp

lemma pushWords_append {us : List UInt64} :
    m.pushWords b (us ++ vs) = (m.pushWords b us).pushWords (b - 8 * us.length) vs := by
  induction us generalizing b m with
  | nil => simp [Mem.pushWords]
  | cons u us ih =>
    rw [List.cons_append, Mem.pushWords, ih, Mem.pushWords, List.length_cons,
      show b - 8 - 8 * us.length = b - 8 * (us.length + 1) by omega]

end OsRust.Lib.Bytes
