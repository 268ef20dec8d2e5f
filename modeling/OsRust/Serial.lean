import OsRust.SpinLock
import OsRust.Lib.Sections

/-!
The data behind the spin locks. Whoever has a guard reads and writes the data of its lock, one access
at a time, and the CPUs interleave between any two accesses; what comes of it is as if the critical
sections of a lock had run one after the other.

The guards are numbered in the order they are taken.
-/

namespace OsRust.Serial

open OsRust.SpinLock OsRust.Lib.Machine OsRust.Lib.Sections

variable {Cpu Lock Flow : Type} {Data : Lock → Type}

structure State (Cpu Lock Flow : Type) (Data : Lock → Type) where
  locks : SpinLock.State Cpu Lock Flow
  /-- The guards that live, each with its number. -/
  live : List (SpinLockGuard Lock × ℕ)
  /-- How many have been taken. -/
  taken : ℕ
  data : (l : Lock) → Data l
  /-- The accesses to the data of each lock, the oldest first: through which guard, and what it made
  of the data. -/
  log : (l : Lock) → List (ℕ × (Data l → Data l))

/-- `access` is one access through guard number `i` of those that live, a guard of the lock `l`. -/
inductive Act (Cpu Lock Flow : Type) (Data : Lock → Type)
  | op (c : Cpu) (o : Op Lock)
  | timerInterrupt (c : Cpu) (f : Flow)
  | iretq (c : Cpu) (f : Flow)
  | access (c : Cpu) (i : ℕ) (l : Lock) (f : Data l → Data l)

/-- After a step of a flow, the guard dropped is gone, and one taken has the next number. -/
def State.follow (s : State Cpu Lock Flow Data) (t : SpinLock.State Cpu Lock Flow) :
    Op Lock → State Cpu Lock Flow Data
  | .drop i => { s with locks := t, live := s.live.eraseIdx i }
  | _ =>
    let new := t.guards.take (t.guards.length - s.locks.guards.length)
    { s with
      locks := t
      live := new.map (fun g => (g, s.taken)) ++ s.live
      taken := s.taken + new.length }

/-- No lock is taken, and nothing has been accessed. -/
structure Initial (s : State Cpu Lock Flow Data) : Prop where
  locks : SpinLock.Initial s.locks
  live : s.live = []
  log : ∀ l, s.log l = []

variable {s s' : State Cpu Lock Flow Data} {d₀ : (l : Lock) → Data l}

/-- What holds of the guards, of their numbers and of the accesses so far. -/
structure Ordered (d₀ : (l : Lock) → Data l) (s : State Cpu Lock Flow Data) : Prop where
  exclusive : Exclusive s.locks
  live : s.live.map Prod.fst = s.locks.guards
  fresh : ∀ g ∈ s.live, g.2 < s.taken
  logged : ∀ l, ∀ x ∈ s.log l, x.1 < s.taken
  /-- A guard that lives was taken after all those that have accessed its lock. -/
  last : ∀ g ∈ s.live, ∀ x ∈ s.log g.1.lock, x.1 ≤ g.2
  sorted : ∀ l, (s.log l).Pairwise fun x y => x.1 ≤ y.1
  data : ∀ l, s.data l = (s.log l).foldl (fun d x => x.2 d) (d₀ l)

lemma Initial.ordered (h : Initial s) : Ordered s.data s where
  exclusive := h.locks.exclusive
  live := by rw [h.live, h.locks.guards, List.map_nil]
  fresh := by simp [h.live]
  logged := by simp [h.log]
  last := by simp [h.live]
  sorted l := by
    rw [h.log]
    exact List.Pairwise.nil
  data l := by rw [h.log, List.foldl_nil]

/-- No guard is taken. -/
lemma Ordered.keep (h : Ordered d₀ s) {t : SpinLock.State Cpu Lock Flow} (he : Exclusive t)
    (hg : t.guards = s.locks.guards) : Ordered d₀ { s with locks := t } :=
  ⟨he, h.live.trans hg.symm, h.fresh, h.logged, h.last, h.sorted, h.data⟩

/-- A guard is dropped. -/
lemma Ordered.drop (h : Ordered d₀ s) {t : SpinLock.State Cpu Lock Flow} (he : Exclusive t) {i : ℕ}
    (hg : t.guards = s.locks.guards.eraseIdx i) :
    Ordered d₀ { s with locks := t, live := s.live.eraseIdx i } where
  exclusive := he
  live := by
    show (s.live.eraseIdx i).map Prod.fst = t.guards
    rw [hg, ← List.eraseIdx_map, h.live]
  fresh g hg := h.fresh g (List.mem_of_mem_eraseIdx hg)
  logged := h.logged
  last g hg := h.last g (List.mem_of_mem_eraseIdx hg)
  sorted := h.sorted
  data := h.data

/-- A guard is taken. -/
lemma Ordered.take (h : Ordered d₀ s) {t : SpinLock.State Cpu Lock Flow} (he : Exclusive t)
    {g : SpinLockGuard Lock} (hg : t.guards = g :: s.locks.guards) :
    Ordered d₀ { s with locks := t, live := (g, s.taken) :: s.live, taken := s.taken + 1 } where
  exclusive := he
  live := by
    show (g :: s.live.map Prod.fst) = t.guards
    rw [hg, h.live]
  fresh x hx := by
    rcases List.mem_cons.mp hx with rfl | hx
    · exact Nat.lt_succ_self _
    · exact Nat.lt_succ_of_lt (h.fresh x hx)
  logged l x hx := Nat.lt_succ_of_lt (h.logged l x hx)
  last x hx y hy := by
    rcases List.mem_cons.mp hx with rfl | hx
    · exact Nat.le_of_lt (h.logged _ y hy)
    · exact h.last x hx y hy
  sorted := h.sorted
  data := h.data

/-- Of two guards that live, no two are of one lock. -/
lemma Ordered.unique (h : Ordered d₀ s) {x y : SpinLockGuard Lock × ℕ} (hx : x ∈ s.live)
    (hy : y ∈ s.live) (hl : x.1.lock = y.1.lock) : x = y := by
  have hnodup : (s.live.map fun x => x.1.lock).Nodup := by
    have := h.exclusive.nodup
    rwa [← h.live, List.map_map] at this
  exact List.inj_on_of_nodup_map hnodup hx hy hl

section Access

variable [DecidableEq Lock] {l m : Lock} {n : ℕ} {f : Data l → Data l}

/-- An access through guard number `n`. -/
def State.access (s : State Cpu Lock Flow Data) (l : Lock) (n : ℕ) (f : Data l → Data l) :
    State Cpu Lock Flow Data :=
  { s with
    data := Function.update s.data l (f (s.data l))
    log := Function.update s.log l (s.log l ++ [(n, f)]) }

@[simp] lemma access_data_self : (s.access l n f).data l = f (s.data l) := Function.update_self ..

@[simp] lemma access_log_self : (s.access l n f).log l = s.log l ++ [(n, f)] :=
  Function.update_self ..

lemma access_data_of_ne (h : m ≠ l) : (s.access l n f).data m = s.data m :=
  Function.update_of_ne h ..

lemma access_log_of_ne (h : m ≠ l) : (s.access l n f).log m = s.log m := Function.update_of_ne h ..

lemma Ordered.access (h : Ordered d₀ s) {g : SpinLockGuard Lock} (hg : (g, n) ∈ s.live)
    (f : Data g.lock → Data g.lock) : Ordered d₀ (s.access g.lock n f) where
  exclusive := h.exclusive
  live := h.live
  fresh := h.fresh
  logged l x hx := by
    by_cases hl : l = g.lock
    · subst hl
      rw [access_log_self, List.mem_append, List.mem_singleton] at hx
      rcases hx with hx | rfl
      · exact h.logged _ x hx
      · exact h.fresh _ hg
    · rw [access_log_of_ne hl] at hx
      exact h.logged l x hx
  last y hy x hx := by
    by_cases hl : y.1.lock = g.lock
    · -- the only guard of this lock is the one that has the access
      have hyg := h.unique hy hg hl
      subst hyg
      rw [access_log_self, List.mem_append, List.mem_singleton] at hx
      rcases hx with hx | rfl
      · exact h.last _ hg x hx
      · exact Nat.le_refl _
    · rw [access_log_of_ne hl] at hx
      exact h.last y hy x hx
  sorted l := by
    by_cases hl : l = g.lock
    · subst hl
      rw [access_log_self, List.pairwise_append]
      refine ⟨h.sorted _, List.pairwise_singleton _ _, fun x hx y hy => ?_⟩
      rw [List.mem_singleton.mp hy]
      exact h.last _ hg x hx
    · rw [access_log_of_ne hl]
      exact h.sorted l
  data l := by
    by_cases hl : l = g.lock
    · subst hl
      rw [access_data_self, access_log_self, List.foldl_append, ← h.data]
      rfl
    · rw [access_data_of_ne hl, access_log_of_ne hl]
      exact h.data l

end Access

/-! ### The steps -/

variable [DecidableEq Cpu] [DecidableEq Lock] [DecidableEq Flow] [Fintype Cpu]

def step (s : State Cpu Lock Flow Data) : Act Cpu Lock Flow Data → Res (State Cpu Lock Flow Data)
  | .op c o => do
    let t ← SpinLock.step s.locks (.op c o)
    .ok (s.follow t o)
  | .timerInterrupt c f => do
    let t ← SpinLock.step s.locks (.timerInterrupt c f)
    .ok { s with locks := t }
  | .iretq c f => do
    let t ← SpinLock.step s.locks (.iretq c f)
    .ok { s with locks := t }
  | .access c i l f => do
    guard (s.locks.at c = .outside)
    match s.live[i]? with
    | none => .error .blocked
    | some (g, n) => do
      guard (g.lock = l)
      .ok (s.access l n f)

lemma Ordered.op (h : Ordered d₀ s) {c : Cpu} {o : Op Lock} (hs : step s (.op c o) = .ok s') :
    Ordered d₀ s' := by
  obtain ⟨t, ht, hs⟩ := bind_ok.mp hs
  cases hs
  have he : Exclusive t := h.exclusive.step ht
  have hkeep : ∀ {o : Op Lock}, (∀ i, o ≠ .drop i) → t.guards = s.locks.guards →
      Ordered d₀ (s.follow t o) := by
    intro o ho hg
    have hfollow : s.follow t o = { s with locks := t } := by
      cases o with
      | drop i => exact absurd rfl (ho i)
      | _ =>
        unfold State.follow
        rw [hg, Nat.sub_self]
        rfl
    rw [hfollow]
    exact h.keep he hg
  rcases exec_cases ht with ⟨l, rfl, -, rfl⟩ | ⟨i, g, rfl, -, hg, rfl⟩ | ⟨l, b, rfl, -, rfl⟩ |
    ⟨l, b, rfl, -, -, rfl⟩ | ⟨l, b, rfl, -, -, rfl⟩ | ⟨b, rfl, -, rfl⟩
  · exact hkeep (by simp) rfl
  · exact h.drop he rfl
  · exact hkeep (by simp) rfl
  · exact hkeep (by simp) rfl
  · have hnew : ∀ t : SpinLock.State Cpu Lock Flow, t.guards = ⟨l, b⟩ :: s.locks.guards →
        s.follow t .next =
          { s with locks := t, live := (⟨l, b⟩, s.taken) :: s.live, taken := s.taken + 1 } := by
      intro t hg
      unfold State.follow
      rw [hg, List.length_cons, Nat.add_sub_cancel_left]
      rfl
    rw [hnew _ rfl]
    exact h.take he rfl
  · have hg : ((if b then s.locks.setInterrupts c true else s.locks).goto c .outside).guards =
        s.locks.guards := by cases b <;> rfl
    exact hkeep (by simp) hg

lemma Ordered.step {a : Act Cpu Lock Flow Data} (h : Ordered d₀ s) (hs : Serial.step s a = .ok s') :
    Ordered d₀ s' := by
  cases a with
  | op c o => exact h.op hs
  | timerInterrupt c f =>
    obtain ⟨t, ht, hs⟩ := bind_ok.mp hs
    cases hs
    have he : Exclusive t := h.exclusive.step ht
    obtain ⟨_, -, ht⟩ := bind_ok.mp ht
    cases ht
    exact h.keep he rfl
  | iretq c f =>
    obtain ⟨t, ht, hs⟩ := bind_ok.mp hs
    cases hs
    have he : Exclusive t := h.exclusive.step ht
    obtain ⟨_, -, ht⟩ := bind_ok.mp ht
    cases ht
    exact h.keep he rfl
  | access c i l f =>
    obtain ⟨_, -, hs⟩ := bind_ok.mp hs
    split at hs
    · cases hs
    · next g n hg =>
      obtain ⟨_, hl, hs⟩ := bind_ok.mp hs
      have hl := guard_ok.mp hl
      subst hl
      cases hs
      exact h.access (List.mem_of_getElem? hg) f

/-- **Critical sections run one after the other.** Whatever steps the flows and the interrupts take
and however the accesses interleave, the accesses to the data of a lock come in sections, one for
each guard that had any, in the order the guards were taken; and the data is what these sections
make of it, run as a whole one after the other. -/
theorem sections_serial {s₀ : State Cpu Lock Flow Data} {as : List (Act Cpu Lock Flow Data)}
    (h0 : Initial s₀) (hr : run step s₀ as = .ok s) (l : Lock) :
    ∃ sections : List (ℕ × List (Data l → Data l)), s.log l = entries sections ∧
      (sections.map Prod.fst).Pairwise (· < ·) ∧ (∀ x ∈ sections, x.1 < s.taken) ∧
      s.data l = foldSections (fun d f => f d) (s₀.data l) sections := by
  have h : Ordered s₀.data s := run_keeps (fun _ _ _ h hs => h.step hs) h0.ordered hr
  obtain ⟨sections, hlog, hsorted, hne⟩ := exists_sections (h.sorted l)
  refine ⟨sections, hlog.symm, hsorted, fun x hx => ?_, ?_⟩
  · obtain ⟨f, fs, hf⟩ := List.exists_cons_of_ne_nil (hne x hx)
    refine h.logged l (x.1, f) ?_
    rw [← hlog]
    exact List.mem_flatMap.mpr ⟨x, hx, by simp [hf]⟩
  · rw [h.data l, ← hlog]
    exact foldl_entries (fun d f => f d) (s₀.data l) sections

/-- No lock is taken, and no list has an element. -/
def quietLists (n : ℕ) : State (Fin n) ℕ ℕ fun _ => List ℕ := ⟨quiet n, [], 0, fun _ => [], fun _ => []⟩

/-- Two CPUs want one lock; the loser writes to another list meanwhile, and to this one when it has
the lock. -/
def contendedLists (c d : Fin 2) : List (Act (Fin 2) ℕ ℕ fun _ => List ℕ) :=
  [.op d (.lock 2), .op d .next, .op d .next, .op c (.lock 1), .op c .next, .op c .next,
    .access c 0 1 (3 :: ·), .access d 1 2 (5 :: ·), .op d (.lock 1), .op d .next, .op d .next,
    .access c 0 1 (List.map (· + 1)), .op c (.drop 0), .op c .next, .op d .next,
    .access d 0 1 (8 :: ·)]

theorem sections_serial_contended :
    ∃ s, run step (quietLists 2) (contendedLists 0 1) = .ok s ∧ s.data 1 = [8, 4] ∧
      ∃ sections, s.log 1 = entries sections ∧
        s.data 1 = foldSections (fun d f => f d) [] sections := by
  obtain ⟨s, hs, hdata⟩ := exists_run_of_map (f := fun s => s.data 1) (c := [8, 4])
    (show (run step (quietLists 2) (contendedLists 0 1)).map _ = _ by rfl)
  obtain ⟨sections, hlog, -, -, hfold⟩ := sections_serial ⟨quiet_initial 2, rfl, fun _ => rfl⟩ hs 1
  exact ⟨s, hs, hdata, sections, hlog, hfold⟩

end OsRust.Serial
