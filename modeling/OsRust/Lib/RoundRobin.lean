import Mathlib.Data.List.Rotate

/-!
Taking turns: at a tick the first of a line is served, and the one served before it goes to the
end. Others may come at any time, to the end of the line. One that fills in while nobody is there,
`idle`, does not go back to the line.
-/

namespace OsRust.Lib.RoundRobin

universe u

structure Turns (α : Type u) where
  current : α
  line : List α

inductive Event (α : Type u)
  | tick
  | arrive (a : α)

variable {α : Type u} [DecidableEq α]

def step (idle : α) (s : Turns α) : Event α → Turns α
  | .tick =>
    match s.line with
    | [] => s
    | next :: line => ⟨next, line ++ if s.current = idle then [] else [s.current]⟩
  | .arrive a => { s with line := s.line ++ [a] }

@[simp] lemma step_arrive (idle a : α) (s : Turns α) :
    step idle s (.arrive a) = { s with line := s.line ++ [a] } := rfl

lemma step_nobody (idle : α) {s : Turns α} (h : s.line = []) : step idle s .tick = s := by
  simp only [step, h]

lemma step_tick (idle : α) {s : Turns α} {next : α} {line : List α} (h : s.line = next :: line) :
    step idle s .tick = ⟨next, line ++ if s.current = idle then [] else [s.current]⟩ := by
  simp only [step, h]

def turns (idle : α) (s : Turns α) (es : List (Event α)) : Turns α := es.foldl (step idle) s

def ticks : List (Event α) → ℕ
  | [] => 0
  | .tick :: es => ticks es + 1
  | .arrive _ :: es => ticks es

def arrivals : List (Event α) → List α
  | [] => []
  | .tick :: es => arrivals es
  | .arrive a :: es => a :: arrivals es

variable {idle a : α} {s : Turns α} {es : List (Event α)}

@[simp] lemma turns_nil : turns idle s [] = s := rfl

@[simp] lemma turns_cons (e : Event α) : turns idle s (e :: es) = turns idle (step idle s e) es :=
  rfl

lemma turns_append (es es' : List (Event α)) :
    turns idle s (es ++ es') = turns idle (turns idle s es) es' := List.foldl_append

omit [DecidableEq α] in
lemma ticks_append (es es' : List (Event α)) : ticks (es ++ es') = ticks es + ticks es' := by
  induction es with
  | nil => simp [ticks]
  | cons e es ih =>
    cases e with
    | tick =>
      rw [List.cons_append, ticks, ticks, ih]
      omega
    | arrive a => exact ih

omit [DecidableEq α] in
lemma arrivals_append (es es' : List (Event α)) :
    arrivals (es ++ es') = arrivals es ++ arrivals es' := by
  induction es with
  | nil => rfl
  | cons e es ih =>
    cases e with
    | tick => exact ih
    | arrive a => exact congrArg (a :: ·) ih

/-- Who is served after `ticks es` ticks: as long as the line of the beginning lasts, the one that
stood there. -/
theorem served (h : ticks es ≤ s.line.length) :
    (s.current :: s.line)[ticks es]? = some (turns idle s es).current := by
  induction es generalizing s with
  | nil => rfl
  | cons e es ih =>
    cases e with
    | tick =>
      obtain ⟨current, line⟩ := s
      cases line with
      | nil => simp [ticks] at h
      | cons next line =>
        have hle : ticks es ≤ line.length := by simpa [ticks] using h
        have hlt : ticks es < (next :: line).length := Nat.lt_succ_of_le hle
        have hserved := ih (s := step idle ⟨current, next :: line⟩ .tick)
          (Nat.le_trans hle (by simp [step]))
        rw [turns_cons, ← hserved, ticks, List.getElem?_cons_succ]
        simp only [step, ← List.cons_append]
        rw [List.getElem?_append_left hlt]
    | arrive a =>
      have hlt : ticks es < (s.current :: s.line).length := Nat.lt_succ_of_le h
      have hserved := ih (s := step idle s (.arrive a)) (Nat.le_trans h (by simp [step]))
      rw [turns_cons, ← hserved, ticks]
      simp only [step, ← List.cons_append]
      rw [List.getElem?_append_left hlt]

/-- **A turn comes** at the tick that its place in the line says. -/
theorem turn {p : ℕ} (hp : s.line[p]? = some a) (ht : ticks es = p + 1) :
    (turns idle s es).current = a := by
  have hlt := (List.getElem?_eq_some_iff.mp hp).1
  have hserved : (s.current :: s.line)[ticks es]? = some (turns idle s es).current :=
    served (by omega)
  rw [ht, List.getElem?_cons_succ, hp] at hserved
  exact (Option.some.inj hserved).symm

/-- It does not come before. -/
theorem not_before {p : ℕ} (hp : p < s.line.length) (ha : a ∉ s.current :: s.line.take p)
    (ht : ticks es ≤ p) : (turns idle s es).current ≠ a := by
  rintro rfl
  refine ha ?_
  have hserved : (s.current :: s.line)[ticks es]? = some (turns idle s es).current :=
    served (by omega)
  rw [← List.take_succ_cons]
  refine List.mem_of_getElem? ((List.getElem?_take_of_lt ?_).trans hserved)
  omega

/-- Where only others come, `idle` does not get in the line, and once left is not served. -/
theorem not_idle (hline : idle ∉ s.line) (harr : idle ∉ arrivals es) :
    idle ∉ (turns idle s es).line ∧
      (s.current ≠ idle → (turns idle s es).current ≠ idle) := by
  induction es generalizing s with
  | nil => exact ⟨hline, id⟩
  | cons e es ih =>
    cases e with
    | tick =>
      obtain ⟨current, line⟩ := s
      cases line with
      | nil => exact ih hline harr
      | cons next line =>
        obtain ⟨hnext, hline⟩ := not_or.mp (mt List.mem_cons.mpr hline)
        have hline' : idle ∉ (step idle ⟨current, next :: line⟩ .tick).line := by
          simp only [step]
          split
          · simpa using hline
          · next hc => simp [hline, Ne.symm hc]
        exact ⟨(ih hline' harr).1, fun _ => (ih hline' harr).2 (Ne.symm hnext)⟩
    | arrive a =>
      obtain ⟨ha, harr⟩ := not_or.mp (mt List.mem_cons.mpr harr)
      have hline' : idle ∉ (step idle s (.arrive a)).line := by simp [step, hline, ha]
      exact ih hline' harr

/-- Where nobody comes, everybody moves up. -/
lemma rotates (hline : idle ∉ s.line) (hc : s.current ≠ idle) (harr : arrivals es = []) :
    (turns idle s es).current :: (turns idle s es).line =
      (s.current :: s.line).rotate (ticks es) := by
  induction es generalizing s with
  | nil => exact (List.rotate_zero _).symm
  | cons e es ih =>
    cases e with
    | tick =>
      obtain ⟨current, line⟩ := s
      cases line with
      | nil =>
        rw [turns_cons, step, ih hline hc harr, List.rotate_singleton, List.rotate_singleton]
      | cons next line =>
        have hstep : step idle ⟨current, next :: line⟩ .tick = ⟨next, line ++ [current]⟩ := by
          simp only [step, if_neg hc]
        obtain ⟨hnext, hline⟩ := not_or.mp (mt List.mem_cons.mpr hline)
        rw [turns_cons, hstep, ih (by simp [hline, Ne.symm hc]) (Ne.symm hnext) harr, ticks,
          List.rotate_cons_succ, List.cons_append]
    | arrive a => contradiction

/-- **A round**: after as many ticks as there are to serve, all are where they were. -/
theorem round (hline : idle ∉ s.line) (hc : s.current ≠ idle) (harr : arrivals es = [])
    (ht : ticks es = s.line.length + 1) : turns idle s es = s := by
  have hrot := rotates hline hc harr
  have hlen : ticks es = (s.current :: s.line).length := ht
  rw [hlen, List.rotate_length] at hrot
  obtain ⟨hcur, hl⟩ := List.cons.inj hrot
  rcases hs : turns idle s es with ⟨current, line⟩
  rw [hs] at hcur hl
  cases s
  exact congrArg₂ Turns.mk hcur hl

end OsRust.Lib.RoundRobin
