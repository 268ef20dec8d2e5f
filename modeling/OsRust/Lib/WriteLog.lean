import Mathlib.Logic.Function.Basic
import Mathlib.Data.List.Basic

/-!
Computations that may fail half-way, with a log of what they had done to memory by then: the
tables they were given and the entries they wrote.

A log keeps to a set of tables when each write goes to one of them, or to one that was given
before. The memory outside these is then what it was.
-/

namespace OsRust.Lib.WriteLog

inductive Event (α ι ε : Type*)
  | claim (t : α)
  | write (t : α) (i : ι) (e : ε)
  deriving DecidableEq

structure Logged (α ι ε δ β : Type*) where
  log : List (Event α ι ε)
  result : Except δ β

variable {α ι ε δ β γ : Type*}

section Defs

/-- What has happened before a failure has happened. -/
protected def Logged.bind (x : Logged α ι ε δ β) (k : β → Logged α ι ε δ γ) : Logged α ι ε δ γ :=
  match x.result with
  | .ok b => ⟨x.log ++ (k b).log, (k b).result⟩
  | .error e => ⟨x.log, .error e⟩

instance : Monad (Logged α ι ε δ) where
  pure b := ⟨[], .ok b⟩
  bind := Logged.bind

/-- A computation that leaves memory alone. -/
def Logged.lift (x : Except δ β) : Logged α ι ε δ β := ⟨[], x⟩

/-- Each write goes to one of the tables, or to one that was given before it. -/
def KeepsTo (tables : α → Prop) (log : List (Event α ι ε)) : Prop :=
  ∀ before t i e after, log = before ++ .write t i e :: after → tables t ∨ .claim t ∈ before

variable [DecidableEq α] [DecidableEq ι]

/-- The memory after the writes of a log. -/
def replay : (α → ι → ε) → List (Event α ι ε) → α → ι → ε
  | m, [] => m
  | m, .claim _ :: log => replay m log
  | m, .write t i e :: log => replay (Function.update m t (Function.update (m t) i e)) log

/-- The memory a computation returns is the one its log makes. -/
def Records {σ : Type*} (mem : σ → α → ι → ε) (s : σ) (x : Logged α ι ε δ σ) : Prop :=
  ∀ s', x.result = .ok s' → mem s' = replay (mem s) x.log

end Defs

/-! ### Sequencing -/

section Bind

universe u

variable {β γ : Type u} {x : Logged α ι ε δ β} {k : β → Logged α ι ε δ γ}

lemma bind_of_ok {b : β} (h : x.result = .ok b) :
    x >>= k = ⟨x.log ++ (k b).log, (k b).result⟩ := by
  show x.bind k = _
  rw [Logged.bind, h]

lemma bind_of_error {e : δ} (h : x.result = .error e) : x >>= k = ⟨x.log, .error e⟩ := by
  show x.bind k = _
  rw [Logged.bind, h]

/-- Without the log, it is the computation it was. -/
@[simp] lemma bind_result : (x >>= k).result = x.result >>= fun b => (k b).result := by
  cases h : x.result with
  | ok b => rw [bind_of_ok h]; rfl
  | error e => rw [bind_of_error h]; rfl

end Bind

/-! ### Where a log writes -/

section KeepsTo

variable {tables tables' : α → Prop} {log log' : List (Event α ι ε)} {t : α} {i : ι} {e : ε}

@[simp] lemma keepsTo_nil : KeepsTo tables ([] : List (Event α ι ε)) := by
  intro before t i e after h
  simp at h

@[simp] lemma keepsTo_write :
    KeepsTo tables (.write t i e :: log) ↔ tables t ∧ KeepsTo tables log := by
  constructor
  · intro h
    refine ⟨by simpa using h [] t i e log rfl, fun before u j e' after hlog => ?_⟩
    simpa using h (.write t i e :: before) u j e' after (by rw [hlog]; rfl)
  · rintro ⟨ht, h⟩ before u j e' after hlog
    cases before with
    | nil =>
      rw [List.nil_append, List.cons.injEq, Event.write.injEq] at hlog
      obtain ⟨⟨rfl, -, -⟩, -⟩ := hlog
      exact .inl ht
    | cons a before =>
      rw [List.cons_append, List.cons.injEq] at hlog
      obtain ⟨rfl, hrest⟩ := hlog
      simpa using h before u j e' after hrest

@[simp] lemma keepsTo_claim :
    KeepsTo tables (.claim t :: log) ↔ KeepsTo (fun u => tables u ∨ u = t) log := by
  constructor
  · intro h before u j e after hlog
    have := h (.claim t :: before) u j e after (by rw [hlog]; rfl)
    simpa [or_assoc] using this
  · intro h before u j e after hlog
    cases before with
    | nil => simp at hlog
    | cons a before =>
      rw [List.cons_append, List.cons.injEq] at hlog
      obtain ⟨rfl, hrest⟩ := hlog
      simpa [or_assoc] using h before u j e after hrest

/-- One log after another: what the first was given, the second may write to. -/
lemma keepsTo_append : KeepsTo tables (log ++ log') ↔
    KeepsTo tables log ∧ KeepsTo (fun t => tables t ∨ .claim t ∈ log) log' := by
  induction log generalizing tables with
  | nil => simp
  | cons a log ih =>
    cases a with
    | claim t => simp [ih, or_assoc]
    | write t i e => simp [ih, and_assoc]

end KeepsTo

/-! ### The memory -/

section Replay

variable [DecidableEq α] [DecidableEq ι] {m : α → ι → ε} {log log' : List (Event α ι ε)}

@[simp] lemma replay_append : replay m (log ++ log') = replay (replay m log) log' := by
  induction log generalizing m with
  | nil => rfl
  | cons a log ih => cases a <;> exact ih

/-- **The rest of memory.** A log leaves all tables alone but those it keeps to and those it was
given. -/
theorem replay_of_keepsTo {tables : α → Prop} {t : α} (h : KeepsTo tables log) (ht : ¬ tables t)
    (hclaim : .claim t ∉ log) : replay m log t = m t := by
  induction log generalizing m tables with
  | nil => rfl
  | cons a log ih =>
    rw [List.mem_cons, not_or] at hclaim
    cases a with
    | claim u =>
      have hu : t ≠ u := fun he => hclaim.1 (congrArg _ he)
      exact ih (keepsTo_claim.mp h) (by simp [ht, hu]) hclaim.2
    | write u i e =>
      obtain ⟨hu, h⟩ := keepsTo_write.mp h
      have hne : t ≠ u := by
        rintro rfl
        exact ht hu
      rw [replay, ih h ht hclaim.2, Function.update_of_ne hne]

universe u

variable {σ : Type u} {mem : σ → α → ι → ε} {s : σ} {x : Logged α ι ε δ σ}
  {k : σ → Logged α ι ε δ σ}

lemma Records.pure : Records mem s (Pure.pure s : Logged α ι ε δ σ) := by
  rintro s' ⟨⟩
  rfl

lemma Records.bind (hx : Records mem s x) (hk : ∀ s', x.result = .ok s' → Records mem s' (k s')) :
    Records mem s (x >>= k) := by
  intro s'' h
  rw [bind_result] at h
  cases hs' : x.result with
  | ok s' =>
    rw [hs'] at h
    rw [bind_of_ok hs', replay_append, ← hx s' hs']
    exact hk s' hs' s'' h
  | error e =>
    rw [hs'] at h
    cases h

end Replay

end OsRust.Lib.WriteLog
