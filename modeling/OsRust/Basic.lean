import Mathlib.Tactic.Common

/-!
What a piece of kernel code can do other than return: panic with a message, or run into
undefined behaviour (a read through a pointer to nothing, or of memory never written).
A step of a system that cannot be taken now is `blocked`.
-/

namespace OsRust

universe u

inductive Stop
  | blocked
  | undef
  | panic (msg : String)
  deriving DecidableEq, Repr

abbrev Res (α : Type*) := Except Stop α

/-- `Result::expect`: the panic carries the message. What the error prints as, which the source's
panic adds behind a colon, is left out. -/
def expect {ε α : Type*} (msg : String) : Except ε α → Res α
  | .ok a => .ok a
  | .error _ => .error (.panic msg)

/-- `Option::unwrap`. -/
def unwrap {α : Type*} : Option α → Res α
  | some a => .ok a
  | none => .error (.panic "called `Option::unwrap()` on a `None` value")

/-- The step is only possible when `p` holds. -/
def guard (p : Prop) [Decidable p] : Res Unit := if p then .ok () else .error .blocked

variable {α β ε : Type u}

lemma bind_ok {x : Res α} {f : α → Res β} {b : β} :
    (x >>= f) = .ok b ↔ ∃ a, x = .ok a ∧ f a = .ok b := by
  cases x <;> simp [bind, Except.bind]

@[simp] lemma ok_bind (a : α) (f : α → Res β) : ((.ok a : Res α) >>= f) = f a := rfl

@[simp] lemma error_bind (e : Stop) (f : α → Res β) : ((.error e : Res α) >>= f) = .error e := rfl

@[simp] lemma pure_eq_ok (a : α) : (pure a : Res α) = .ok a := rfl

@[simp] lemma expect_ok {msg : String} {x : Except ε α} {a : α} :
    expect msg x = .ok a ↔ x = .ok a := by
  cases x <;> simp [expect]

@[simp] lemma unwrap_ok {x : Option α} {a : α} : unwrap x = .ok a ↔ x = some a := by
  cases x <;> simp [unwrap]

@[simp] lemma guard_ok {p : Prop} [Decidable p] {u : Unit} : guard p = .ok u ↔ p := by
  unfold guard
  split <;> simp_all

lemma guard_bind {α : Type} {p : Prop} [Decidable p] (h : p) (f : Unit → Res α) :
    (guard p >>= f) = f () := by
  rw [guard, if_pos h, ok_bind]

end OsRust
