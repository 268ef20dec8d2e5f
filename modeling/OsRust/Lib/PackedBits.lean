import Mathlib.Data.List.Basic
import Mathlib.Logic.Function.Basic
import Mathlib.Data.Nat.Bitwise

/-!
A predicate on numbers packed into bytes, eight to a byte with the lowest first, and the
usual masking of one byte as the change of the predicate at one number. At the end, runs of
consecutive numbers on which it is false.
-/

namespace OsRust.Lib.PackedBits

/-- The byte with the one bit that stands for `i`. -/
def mask (i : ℕ) : UInt8 := 1 <<< UInt8.ofNat (i % 8)

def packByte (f : Fin 8 → Bool) : UInt8 := ⟨BitVec.ofNat 8 (Nat.ofBits f)⟩

/-- The first `8 * n` values of `p`. -/
def pack (p : ℕ → Bool) (n : ℕ) : List UInt8 :=
  (List.range n).map fun k => packByte fun j => p (8 * k + j)

variable {p q : ℕ → Bool} {n i : ℕ}

/-! ### One byte -/

lemma toBitVec_mask (i : ℕ) : (mask i).toBitVec = 1#8 <<< (i % 8) := by
  unfold mask
  rw [UInt8.toBitVec_shiftLeft]
  simp

lemma getElem_mask (i : ℕ) {j : ℕ} (h : j < 8) : (mask i).toBitVec[j] = decide (j = i % 8) := by
  rw [getElem_congr_coll (toBitVec_mask i)]
  by_cases hj : j = i % 8
  · simp [hj]
  · simp [hj]
    omega

lemma getElem_packByte (f : Fin 8 → Bool) {j : ℕ} (h : j < 8) :
    (packByte f).toBitVec[j] = f ⟨j, h⟩ := by
  have hj : (packByte f).toBitVec.getLsbD j = f ⟨j, h⟩ := by
    rw [packByte, BitVec.getLsbD_ofNat, Nat.testBit_ofBits_lt f j h]
    simp [h]
  rwa [BitVec.getLsbD_eq_getElem h] at hj

lemma packByte_or_mask (f : Fin 8 → Bool) (i : ℕ) :
    packByte f ||| mask i = packByte fun j => f j || decide (j.val = i % 8) := by
  apply UInt8.eq_of_toBitVec_eq
  apply BitVec.eq_of_getElem_eq
  intro j hj
  rw [UInt8.toBitVec_or, BitVec.getElem_or, getElem_mask i hj, getElem_packByte, getElem_packByte]

lemma packByte_and_not_mask (f : Fin 8 → Bool) (i : ℕ) :
    packByte f &&& ~~~ mask i = packByte fun j => f j && !decide (j.val = i % 8) := by
  apply UInt8.eq_of_toBitVec_eq
  apply BitVec.eq_of_getElem_eq
  intro j hj
  rw [UInt8.toBitVec_and, UInt8.toBitVec_not, BitVec.getElem_and, BitVec.getElem_not,
    getElem_mask i hj, getElem_packByte, getElem_packByte]

lemma packByte_and_mask (f : Fin 8 → Bool) (i : ℕ) :
    packByte f &&& mask i = packByte fun j => f j && decide (j.val = i % 8) := by
  apply UInt8.eq_of_toBitVec_eq
  apply BitVec.eq_of_getElem_eq
  intro j hj
  rw [UInt8.toBitVec_and, BitVec.getElem_and, getElem_mask i hj, getElem_packByte,
    getElem_packByte]

lemma packByte_eq_zero {f : Fin 8 → Bool} : packByte f = 0 ↔ ∀ j, f j = false := by
  constructor
  · intro h j
    have hj : (packByte f).toBitVec[j.val] = (0 : UInt8).toBitVec[j.val] := by rw [h]
    rw [getElem_packByte] at hj
    simpa using hj
  · intro h
    apply UInt8.eq_of_toBitVec_eq
    apply BitVec.eq_of_getElem_eq
    intro j hj
    rw [getElem_packByte, h]
    simp

/-- Every byte is the packed form of its bits. -/
lemma packByte_bits (b : UInt8) : (packByte fun j => b.toBitVec.getLsbD j) = b := by
  apply UInt8.eq_of_toBitVec_eq
  apply BitVec.eq_of_getElem_eq
  intro j hj
  rw [getElem_packByte, BitVec.getLsbD_eq_getElem hj]

/-! ### Many bytes -/

/-- The bits of a list of bytes. -/
def bits (data : List UInt8) (i : ℕ) : Bool := (data.getD (i / 8) 0).toBitVec.getLsbD (i % 8)

@[simp] lemma length_pack : (pack p n).length = n := by simp [pack]

lemma getElem?_pack (h : i < 8 * n) :
    (pack p n)[i / 8]? = some (packByte fun j => p (8 * (i / 8) + j)) := by
  have hi : i / 8 < n := by omega
  simp [pack, hi]

lemma pack_false (n : ℕ) : pack (fun _ => false) n = List.replicate n 0 := by
  have h0 : packByte (fun _ => false) = 0 := packByte_eq_zero.mpr fun _ => rfl
  simp [pack, h0]

/-- Every list of bytes is the packed form of its bits. -/
lemma pack_bits (data : List UInt8) : pack (bits data) data.length = data := by
  apply List.ext_getElem
  · simp
  · intro k h₁ h₂
    simp only [pack, List.getElem_map, List.getElem_range]
    have hbits : ∀ j : Fin 8, bits data (8 * k + j) = data[k].toBitVec.getLsbD j := by
      intro j
      have hdiv : (8 * k + j.val) / 8 = k := by omega
      have hmod : (8 * k + j.val) % 8 = j.val := by omega
      simp [bits, hdiv, hmod, h₂]
    simp only [hbits]
    exact packByte_bits _

/-- Two predicates differ at most at `i`, and their bytes at most in the one with `i` in it. -/
lemma set_pack {b : UInt8} (hb : b = packByte fun j => q (8 * (i / 8) + j))
    (h : ∀ j, j ≠ i → q j = p j) : (pack p n).set (i / 8) b = pack q n := by
  apply List.ext_getElem
  · simp
  · intro k h₁ h₂
    rw [List.getElem_set]
    split
    · next hk =>
      subst hk
      simp [pack, hb]
    · next hk =>
      simp only [pack, List.getElem_map, List.getElem_range]
      congr 1
      funext j
      exact (h _ (by omega)).symm

/-- One bit changed, seen in its byte. -/
lemma update_in_byte (p : ℕ → Bool) (i : ℕ) (b : Bool) (j : Fin 8) :
    Function.update p i b (8 * (i / 8) + j) =
      if j.val = i % 8 then b else p (8 * (i / 8) + j) := by
  have hj : 8 * (i / 8) + j.val = i ↔ j.val = i % 8 := by omega
  rw [Function.update_apply, if_congr hj rfl rfl]

/-- Masking a bit in. -/
lemma set_or_pack (p : ℕ → Bool) (n i : ℕ) :
    (pack p n).set (i / 8) ((packByte fun j => p (8 * (i / 8) + j)) ||| mask i) =
      pack (Function.update p i true) n := by
  refine set_pack ?_ fun j hj => Function.update_of_ne hj _ _
  rw [packByte_or_mask]
  congr 1
  funext j
  rw [update_in_byte]
  split
  · next hj => simp [hj]
  · next hj => simp [hj]

/-- Masking a bit out. -/
lemma set_and_not_pack (p : ℕ → Bool) (n i : ℕ) :
    (pack p n).set (i / 8) ((packByte fun j => p (8 * (i / 8) + j)) &&& ~~~ mask i) =
      pack (Function.update p i false) n := by
  refine set_pack ?_ fun j hj => Function.update_of_ne hj _ _
  rw [packByte_and_not_mask]
  congr 1
  funext j
  rw [update_in_byte]
  split
  · next hj => simp [hj]
  · next hj => simp [hj]

/-- Looking at a bit. -/
lemma packByte_and_mask_ne_zero (p : ℕ → Bool) (i : ℕ) :
    (packByte fun j => p (8 * (i / 8) + j)) &&& mask i ≠ 0 ↔ p i = true := by
  rw [packByte_and_mask, Ne, packByte_eq_zero]
  constructor
  · intro h
    by_contra hi
    refine h fun j => ?_
    by_cases hj : j.val = i % 8
    · have hji : 8 * (i / 8) + j.val = i := by omega
      have hp : p (8 * (i / 8) + j.val) = false := by
        rw [hji]
        simpa using hi
      simp [hp]
    · simp [hj]
  · intro h h0
    have hi := h0 ⟨i % 8, Nat.mod_lt _ (by decide)⟩
    have hii : 8 * (i / 8) + i % 8 = i := by omega
    simp [hii, h] at hi

/-! ### Runs -/

/-- The `count` numbers from `s` on are below `size`, and `p` is false on them. -/
def IsRun (p : ℕ → Bool) (size count s : ℕ) : Prop :=
  s + count ≤ size ∧ ∀ j, s ≤ j → j < s + count → p j = false

end OsRust.Lib.PackedBits
