import OsRust.Deadlock
import OsRust.Panics
import OsRust.CurrentThread
import Mathlib.Algebra.Ring.Nat

/-!
Progress under the locks: what a CPU has begun it gets done. Every step of every CPU succeeds, but
for one that spins on a lock another CPU holds, or an allocation that finds no memory, whose panic
ends the run; a step leaves less to do; and so, whatever the interleaving, the CPUs come to an end of
their critical sections and interrupt handlers, with every lock free and interrupts on again.
-/

namespace OsRust.Progress

open OsRust.Ring OsRust.Task OsRust.Sched OsRust.Effects OsRust.ThreadIds OsRust.Placement
open OsRust.Locks OsRust.Deadlock OsRust.Panics
open OsRust.Lib.Machine OsRust.Lib.WaitFor OsRust.Lib.Ledger

variable {Cpu : Type} [LinearOrder Cpu] [Fintype Cpu] {m m' : Machine Cpu} {k k' : Kernel Cpu}
  {c d : Cpu} {op : Op Cpu} {rest : List (Op Cpu)} {t t' : Core Cpu}

/-! ### What a step does to its CPU -/

/-- The last step of `common_entry` or of an interrupt handler: interrupts are on after it. -/
def returns : Op Cpu → Bool
  | .forceSwitchToIdle => true
  | .iretq => true
  | _ => false

/-- It takes or drops no lock either. -/
def goesOn : Op Cpu → Bool
  | .lock _ => false
  | .spin _ _ => false
  | .drop => false
  | .forceSwitchToIdle => false
  | .iretq => false
  | _ => true

/-- How many steps there are to take, at the most. A queue holds 256 threads, so that no more than
128 are ever moved at once. -/
def weight : Op Cpu → ℕ
  | .lock _ => 2
  | .getThreadMut _ => 8
  | .getCpuTls _ => 654
  | .maybeLoadBalance _ => 652
  | .doLoadBalance _ => 645
  | .moveThreads n _ _ => 5 * n + 1
  | _ => 1

def codeWork (code : List (Op Cpu)) : ℕ := (code.map weight).sum

/-- What a CPU does before it runs threads. -/
def starts : Op Cpu → Bool
  | .setupTls _ => true
  | .forceSwitchToIdle => true
  | _ => false

def isAdd : Op Cpu → Bool
  | .addThread _ => true
  | _ => false

/-- What a step that succeeds does to its CPU. -/
inductive CoreStep (t : Core Cpu) (rest : List (Op Cpu)) : Op Cpu → Core Cpu → Prop
  | lock (l : Lock Cpu) : CoreStep t rest (.lock l)
      { t with interrupts := false, code := .spin l t.interrupts :: rest }
  | spin (l : Lock Cpu) (b : Bool) : CoreStep t rest (.spin l b)
      { t with guards := ⟨l, b⟩ :: t.guards, code := rest }
  | drop (g : SpinLockGuard Cpu) (gs : List (SpinLockGuard Cpu)) (h : t.guards = g :: gs) :
      CoreStep t rest .drop ⟨t.interrupts || g.interruptsState, gs, rest⟩
  | wake (op : Op Cpu) (h : returns op = true) : CoreStep t rest op
      { t with interrupts := true, code := rest }
  | go (op : Op Cpu) (code : List (Op Cpu)) (h : goesOn op = true)
      (hw : codeWork code < weight op) (hst : ∀ o ∈ code, starts o = false ∧ isAdd o = false) :
      CoreStep t rest op { t with code := code ++ rest }

/-- What a step that succeeds does to the CPUs. -/
structure Steps (m : Machine Cpu) (c : Cpu) (rest : List (Op Cpu)) (op : Op Cpu)
    (m' : Machine Cpu) : Prop where
  others : ∀ d, d ≠ c → m'.core d = m.core d
  core : CoreStep (m.core c) rest op (m'.core c)

section Steps

variable {m₀ : Machine Cpu} {code : List (Op Cpu)}

omit [Fintype Cpu]

lemma steps_setCore (hm : m₀.core = m.core) (h : CoreStep (m.core c) rest op t) :
    Steps m c rest op (m₀.setCore c t) := by
  refine ⟨fun d hd => ?_, ?_⟩
  · simp [Machine.setCore, hd, hm]
  · simpa [Machine.setCore] using h

lemma steps_go (h : CoreStep (m.core c) rest op { m.core c with code := code }) :
    Steps m c rest op (m.go c k code) := steps_setCore (m := m) rfl h

lemma steps_wake (h : returns op = true) : Steps m c rest op ((m.go c k rest).enable c) := by
  refine ⟨fun d hd => ?_, ?_⟩
  · simp [Machine.enable, Machine.go, Machine.setCore, hd]
  · simpa [Machine.enable, Machine.go, Machine.setCore] using CoreStep.wake (t := m.core c) op h

/-- The CPU goes on with its code. -/
lemma steps_rest (h : goesOn op = true) (hw : 0 < weight op) :
    Steps m c rest op (m.go c k rest) := steps_go (.go op [] h hw (by simp))

/-- The CPU goes on with more code. -/
lemma steps_unfold (code : List (Op Cpu)) (h : goesOn op = true)
    (hw : codeWork code < weight op) (hst : ∀ o ∈ code, starts o = false ∧ isAdd o = false) :
    Steps m c rest op (m.go c k (code ++ rest)) := steps_go (.go op code h hw hst)

end Steps

lemma steps_of_exec (h : Disciplined m) (hs : exec m c rest op = .ok m') :
    Steps m c rest op m' := by
  cases op with
  | lock l =>
    cases hs
    exact steps_setCore rfl (.lock l)
  | spin l b =>
    simp only [Locks.exec] at hs
    split at hs
    · cases hs
    · cases hs
      exact steps_setCore rfl (.spin l b)
  | drop =>
    simp only [Locks.exec] at hs
    split at hs
    · cases hs
    · next g gs hgs =>
      cases hs
      exact steps_setCore rfl (.drop g gs hgs)
  | forceSwitchToIdle =>
    obtain ⟨k', hk, hs⟩ := bind_ok.mp hs
    cases hs
    exact steps_wake rfl
  | getThreadMut id =>
    obtain ⟨i, hi, hs⟩ := bind_ok.mp hs
    cases hs
    exact steps_unfold [.lock (.sched (.slot i)), .lock (.queue c), .ready id i, .drop, .drop] rfl
      (by simp [codeWork, weight]) (by simp [starts, isAdd])
  | ready id i =>
    obtain ⟨_, -, hs⟩ := bind_ok.mp hs
    obtain ⟨k', hk, hs⟩ := bind_ok.mp hs
    cases hs
    exact steps_rest rfl (by simp [weight])
  | getCpuTls o =>
    cases hs
    split
    · exact steps_unfold [.drop, .maybeLoadBalance o] rfl (by simp [codeWork, weight])
        (by simp [starts, isAdd])
    · exact steps_unfold [.drop] rfl (by simp [codeWork, weight]) (by simp [starts, isAdd])
  | maybeLoadBalance o =>
    simp only [Locks.exec] at hs
    cases hs
    split
    · exact steps_rest rfl (by simp [weight])
    · split
      · exact steps_unfold [.lock (.queue c), .lock (.queue o), .doLoadBalance o, .drop, .drop] rfl
          (by simp [codeWork, weight]) (by simp [starts, isAdd])
      · exact steps_unfold [.lock (.queue o), .lock (.queue c), .doLoadBalance o, .drop, .drop] rfl
          (by simp [codeWork, weight]) (by simp [starts, isAdd])
  | doLoadBalance o =>
    have hc := (h.placed.wf c).len
    have ho := (h.placed.wf o).len
    simp only [Locks.exec] at hs
    cases hs
    split
    · exact steps_rest rfl (by simp [weight])
    · split
      · refine steps_unfold (.moveThreads _ c o :: println) rfl ?_ (by simp [starts, isAdd, println])
        simp only [codeWork, weight, println, List.map_cons, List.map_nil, List.sum_cons,
          List.sum_nil]
        omega
      · refine steps_unfold (.moveThreads _ o c :: println) rfl ?_ (by simp [starts, isAdd, println])
        simp only [codeWork, weight, println, List.map_cons, List.map_nil, List.sum_cons,
          List.sum_nil]
        omega
  | moveThreads n s d =>
    cases n with
    | zero =>
      cases hs
      exact steps_rest rfl (by simp [weight])
    | succ n =>
      obtain ⟨x, hpop, hs⟩ := bind_ok.mp hs
      cases x with
      | none =>
        cases hs
        exact steps_unfold [.moveThreads n s d] rfl (by simp [codeWork, weight]) (by simp [starts, isAdd])
      | some x =>
        cases hs
        refine steps_unfold [.lock (.sched x.1), .moveThread s d, .drop, .moveThreads n s d] rfl ?_
          (by simp [starts, isAdd])
        simp only [codeWork, weight, List.map_cons, List.map_nil, List.sum_cons, List.sum_nil]
        omega
  | moveThread s d =>
    obtain ⟨_, -, hs⟩ := bind_ok.mp hs
    obtain ⟨k', hk, hs⟩ := bind_ok.mp hs
    cases hs
    exact steps_rest rfl (by simp [weight])
  | iretq =>
    cases hs
    exact steps_wake rfl
  | _ =>
    obtain ⟨k', hk, hs⟩ := bind_ok.mp hs
    cases hs
    exact steps_rest rfl (by simp [weight])

/-! ### What a step does to the kernel -/

/-- Whether the TLS of a CPU is set up, and whether it runs threads. -/
inductive Mode
  | off
  | entering
  | runs
  deriving DecidableEq

def mode (k : Kernel Cpu) (c : Cpu) : Mode :=
  if k.online c = false then .off else if Started k c then .runs else .entering

/-- What a step does to the modes of the CPUs and to the threads built. -/
structure KernelStep (c : Cpu) (op : Op Cpu) (k k' : Kernel Cpu) : Prop where
  others : ∀ d, d ≠ c → mode k' d = mode k d
  own : starts op = false → mode k' c = mode k c
  built : ∀ id ∈ k.built.map Thread.id, op ≠ .addThread id → id ∈ k'.built.map Thread.id

omit [Fintype Cpu] in
lemma mode_congr (hon : k'.online d = k.online d) (hst : Started k' d ↔ Started k d) :
    mode k' d = mode k d := by
  unfold mode
  rw [hon]
  simp only [hst]

omit [Fintype Cpu] in
lemma mode_of_addr (hon : k'.online d = k.online d)
    (ht : (k'.tls d).threadAddr = (k.tls d).threadAddr) : mode k' d = mode k d :=
  mode_congr hon (by rw [Started, ht, Started])

omit [Fintype Cpu] in
lemma KernelStep.of_same (hm : ∀ d, mode k' d = mode k d) (hb : k'.built = k.built) :
    KernelStep c op k k' :=
  ⟨fun d _ => hm d, fun _ => hm c, fun id hid _ => by rwa [hb]⟩

lemma kernelStep (h : Disciplined m) (hs : exec m c rest op = .ok m') :
    KernelStep c op m.kernel m'.kernel := by
  cases op with
  | spin l b =>
    simp only [Locks.exec] at hs
    split at hs
    · cases hs
    · cases hs
      exact .of_same (fun _ => rfl) rfl
  | drop =>
    simp only [Locks.exec] at hs
    split at hs
    · cases hs
    · cases hs
      exact .of_same (fun _ => rfl) rfl
  | allocFrame =>
    obtain ⟨k', hk, hs⟩ := bind_ok.mp hs
    cases hs
    obtain ⟨-, rfl⟩ := step_allocFrame hk
    exact .of_same (fun _ => rfl) rfl
  | setupTls base =>
    obtain ⟨k', hk, hs⟩ := bind_ok.mp hs
    cases hs
    obtain ⟨-, rfl⟩ := step_setupTls hk
    refine ⟨fun d hd => mode_of_addr ?_ ?_, by simp [starts], fun id hid _ => hid⟩
    · simp [Machine.go, Machine.setCore, hd]
    · simp [Machine.go, Machine.setCore, hd]
  | forceSwitchToIdle =>
    obtain ⟨k', hk, hs⟩ := bind_ok.mp hs
    cases hs
    obtain ⟨-, -, rfl⟩ := step_forceSwitchToIdle hk
    refine ⟨fun d hd => mode_of_addr rfl ?_, by simp [starts], fun id hid _ => hid⟩
    simp [Machine.enable, Machine.go, Machine.setCore, hd]
  | spawnRaw base =>
    obtain ⟨k', hk, hs⟩ := bind_ok.mp hs
    cases hs
    obtain ⟨-, -, rfl⟩ := step_spawnRaw hk
    refine ⟨fun _ _ => rfl, fun _ => rfl, fun id hid _ => ?_⟩
    show id ∈ List.map Thread.id (m.kernel.built ++ _)
    rw [List.map_append]
    exact List.mem_append_left _ hid
  | addThread id =>
    obtain ⟨k', hk, hs⟩ := bind_ok.mp hs
    cases hs
    obtain ⟨-, t, ht, rfl⟩ := step_addThread hk
    refine ⟨fun _ _ => rfl, fun _ => rfl, fun id' hid' hne => ?_⟩
    show id' ∈ List.map Thread.id (m.kernel.built.eraseIdx _)
    rw [← List.eraseIdx_map, List.eraseIdx_idxOf_eq_erase]
    exact (List.mem_erase_of_ne fun he => hne (by rw [he])).mpr hid'
  | ready id i =>
    obtain ⟨_, -, hs⟩ := bind_ok.mp hs
    obtain ⟨k', hk, hs⟩ := bind_ok.mp hs
    cases hs
    have hwf : QueuesWf { m.kernel with added := m.kernel.added.erase id } := h.placed.wf
    obtain ⟨-, q, -, -, rfl⟩ := ready_ok hwf hk
    refine .of_same (fun d => mode_of_addr rfl ?_) rfl
    by_cases hd : d = c
    · subst hd
      simp [Machine.go, Machine.setCore]
    · simp [Machine.go, Machine.setCore, hd]
  | saveRsp rsp =>
    obtain ⟨k', hk, hs⟩ := bind_ok.mp hs
    cases hs
    obtain ⟨-, -, rfl⟩ := step_saveRsp hk
    exact .of_same (fun _ => rfl) rfl
  | switch =>
    obtain ⟨k', hk, hs⟩ := bind_ok.mp hs
    cases hs
    have hst := (step_switch hk).1
    have hst' : Started k' c := CurrentThread.started_step h.placed hk hst
    obtain ⟨-, t, -, rfl⟩ := step_switch hk
    refine .of_same (fun d => ?_) rfl
    by_cases hd : d = c
    · subst hd
      exact mode_congr rfl ⟨fun _ => hst, fun _ => hst'⟩
    · exact mode_of_addr rfl (by simp [Machine.go, Machine.setCore, hd])
  | moveThread s e =>
    obtain ⟨_, -, hs⟩ := bind_ok.mp hs
    obtain ⟨k', hk, hs⟩ := bind_ok.mp hs
    cases hs
    obtain ⟨⟨th, qs, qd⟩, -, he⟩ := bind_ok.mp hk
    cases he
    refine .of_same (fun d => mode_of_addr rfl ?_) rfl
    by_cases hde : d = e
    · subst hde
      simp [Machine.go, Machine.setCore]
    · by_cases hds : d = s
      · subst hds
        simp [Machine.go, Machine.setCore, hde]
      · simp [Machine.go, Machine.setCore, hde, hds]
  | getThreadMut id =>
    obtain ⟨i, hi, hs⟩ := bind_ok.mp hs
    cases hs
    exact .of_same (fun _ => rfl) rfl
  | moveThreads n s d =>
    cases n with
    | zero =>
      cases hs
      exact .of_same (fun _ => rfl) rfl
    | succ n =>
      obtain ⟨x, -, hs⟩ := bind_ok.mp hs
      cases x <;> cases hs <;> exact .of_same (fun _ => rfl) rfl
  | _ =>
    cases hs
    exact .of_same (fun _ => rfl) rfl

/-! ### The invariant -/

/-- The code leads from the mode the CPU is in to running threads, and what needs a thread context
comes after that. -/
def Fits : Mode → List (Op Cpu) → Prop
  | mode, [] => mode = .runs
  | mode, op :: rest =>
    match op with
    | .lock _ => Fits mode rest
    | .spin _ _ => Fits mode rest
    | .drop => Fits mode rest
    | .allocFrame => Fits mode rest
    | .setupTls _ => mode = .off ∧ Fits .entering rest
    | .forceSwitchToIdle => mode = .entering ∧ Fits .runs rest
    | _ => mode = .runs ∧ Fits .runs rest

/-- When the code is done, interrupts are on: they are, or the last step turns them on, or the
outermost guard restores them. -/
inductive Wakes (t : Core Cpu) : Prop
  | awake (hc : t.code = []) (hi : t.interrupts = true)
  | returns (op : Op Cpu) (hl : t.code.getLast? = some op) (h : returns op = true)
  | guarded (g : SpinLockGuard Cpu) (hl : t.guards.getLast? = some g)
      (h : g.interruptsState = true)
  | spins (l : Lock Cpu) (rest : List (Op Cpu)) (hg : t.guards = [])
      (hc : t.code = .spin l true :: rest)

/-- The CPU has not started, or knows what it does. -/
def OnTrack (k : Kernel Cpu) (c : Cpu) (t : Core Cpu) : Prop :=
  (t.code = [] ∧ t.interrupts = false ∧ mode k c = .off) ∨ Fits (mode k c) t.code ∧ Wakes t

structure Going (m : Machine Cpu) : Prop extends Disciplined m where
  track : ∀ c, OnTrack m.kernel c (m.core c)
  adds : ∀ c id, .addThread id ∈ (m.core c).code → id ∈ m.kernel.built.map Thread.id
  once : ∀ c, (m.core c).code.countP isAdd ≤ 1

omit [LinearOrder Cpu] [Fintype Cpu] in
/-- In a thread context, everything but starting the CPU again fits. -/
lemma fits_runs {code : List (Op Cpu)} (h : ∀ o ∈ code, starts o = false ∧ isAdd o = false)
    (hr : Fits .runs rest) : Fits .runs (code ++ rest) := by
  induction code with
  | nil => exact hr
  | cons o code ih =>
    have hrest := ih fun o' ho' => h o' (List.mem_cons_of_mem o ho')
    have ho := (h o List.mem_cons_self).1
    cases o with
    | setupTls base => cases ho
    | forceSwitchToIdle => cases ho
    | lock l => exact hrest
    | spin l b => exact hrest
    | drop => exact hrest
    | allocFrame => exact hrest
    | _ => exact ⟨rfl, hrest⟩

omit [LinearOrder Cpu] [Fintype Cpu] in
/-- The last step stays the last. -/
lemma getLast?_rest {o : Op Cpu} (hl : (op :: rest).getLast? = some o) (ho : returns o = true)
    (hop : returns op = false) (code : List (Op Cpu)) : (code ++ rest).getLast? = some o := by
  cases rest with
  | nil =>
    rw [List.getLast?_singleton] at hl
    cases hl
    rw [hop] at ho
    cases ho
  | cons o' rest =>
    rw [List.getLast?_cons_cons] at hl
    rw [List.getLast?_append, hl]
    rfl

omit [LinearOrder Cpu] [Fintype Cpu] in
lemma returns_of_goesOn (h : goesOn op = true) : returns op = false := by
  cases op <;> simp_all [goesOn, returns]

lemma wakes_step (h : Disciplined m) (hcode : (m.core c).code = op :: rest)
    (hw : Wakes (m.core c)) (hs : CoreStep (m.core c) rest op t) : Wakes t := by
  have hsafe := h.safe c
  rw [hcode] at hsafe
  cases hw with
  | awake hc hi =>
    rw [hc] at hcode
    cases hcode
  | returns o hl ho =>
    rw [hcode] at hl
    cases hs with
    | lock l => exact .returns o (getLast?_rest hl ho rfl [_]) ho
    | spin l b => exact .returns o (getLast?_rest hl ho rfl []) ho
    | drop g gs hg => exact .returns o (getLast?_rest hl ho rfl []) ho
    | wake op hr =>
      refine .awake ?_ rfl
      cases op with
      | forceSwitchToIdle => exact hsafe.2
      | iretq => exact hsafe.2
      | _ => cases hr
    | go op code hg => exact .returns o (getLast?_rest hl ho (returns_of_goesOn hg) code) ho
  | guarded g hl hg =>
    cases hs with
    | lock l => exact .guarded g hl hg
    | spin l b =>
      refine .guarded g ?_ hg
      cases hgs : (m.core c).guards with
      | nil => simp [hgs] at hl
      | cons g' gs => rwa [hgs] at hl
    | drop g' gs hgs =>
      rw [hgs] at hl hsafe
      cases gs with
      | nil =>
        -- the outermost guard is dropped, and nothing comes after it
        rw [List.getLast?_singleton] at hl
        cases hl
        obtain ⟨_, _, he, hlast, -⟩ := hsafe
        cases he
        exact .awake (hlast hg) (by simp [hg])
      | cons g'' gs => exact .guarded g hl hg
    | wake op hr =>
      have hnil : (m.core c).guards = [] := by
        cases op with
        | forceSwitchToIdle => exact hsafe.1
        | iretq => exact hsafe.1
        | _ => cases hr
      simp [hnil] at hl
    | go op code _ => exact .guarded g hl hg
  | spins l rest' hg hc =>
    rw [hc] at hcode
    cases hcode
    cases hs with
    | spin => exact .guarded ⟨l, true⟩ (by simp [hg]) rfl
    | wake _ hr => cases hr
    | go _ code hr => cases hr

omit [Fintype Cpu] in
lemma mode_setupTls {base : UInt64} (hs : Sched.step k (.setupTls c base) = .ok k') :
    mode k' c = .entering := by
  obtain ⟨-, rfl⟩ := step_setupTls hs
  simp [mode, Started]

omit [Fintype Cpu] in
lemma mode_forceSwitchToIdle (hs : Sched.step k (.forceSwitchToIdle c) = .ok k') :
    mode k' c = .runs := by
  obtain ⟨hon, -, rfl⟩ := step_forceSwitchToIdle hs
  simp [mode, Started, hon]

omit [LinearOrder Cpu] [Fintype Cpu] in
lemma weight_pos (op : Op Cpu) : 0 < weight op := by
  cases op <;> simp [weight]

omit [LinearOrder Cpu] [Fintype Cpu] in
lemma eq_nil_of_work {code : List (Op Cpu)} (h : codeWork code < 1) : code = [] := by
  cases code with
  | nil => rfl
  | cons op code =>
    have hpos := weight_pos op
    simp only [codeWork, List.map_cons, List.sum_cons] at h
    omega

omit [LinearOrder Cpu] [Fintype Cpu] in
/-- What goes on with its code needs a thread context, but for `setup_tls` and the allocations of
`common_entry`. -/
lemma fits_goesOn {md : Mode} (hg : goesOn op = true) (hst : starts op = false)
    (ha : op ≠ .allocFrame) (hf : Fits md (op :: rest)) : md = .runs ∧ Fits .runs rest := by
  cases op with
  | allocFrame => exact absurd rfl ha
  | setupTls base => cases hst
  | lock l => cases hg
  | spin l b => cases hg
  | drop => cases hg
  | forceSwitchToIdle => cases hg
  | iretq => cases hg
  | _ => exact hf

lemma fits_step (h : Disciplined m) (hf : Fits (mode m.kernel c) (op :: rest))
    (hs : exec m c rest op = .ok m') : Fits (mode m'.kernel c) (m'.core c).code := by
  by_cases hst : starts op = true
  · cases op with
    | setupTls base =>
      obtain ⟨k', hk, hs⟩ := bind_ok.mp hs
      cases hs
      have hmode : mode (m.go c k' rest).kernel c = .entering := mode_setupTls hk
      rw [hmode]
      simpa [Machine.go, Machine.setCore] using hf.2
    | forceSwitchToIdle =>
      obtain ⟨k', hk, hs⟩ := bind_ok.mp hs
      cases hs
      have hmode : mode ((m.go c k' rest).enable c).kernel c = .runs := mode_forceSwitchToIdle hk
      rw [hmode]
      simpa [Machine.enable, Machine.go, Machine.setCore] using hf.2
    | _ => cases hst
  · have hst' : starts op = false := by simpa using hst
    have hcore := (steps_of_exec h hs).core
    rw [(kernelStep h hs).own hst']
    generalize m'.core c = t at hcore ⊢
    cases hcore with
    | lock l => exact hf
    | spin l b => exact hf
    | drop g gs hg => exact hf
    | wake op hr =>
      cases op with
      | iretq =>
        rw [hf.1]
        exact hf.2
      | forceSwitchToIdle => cases hst'
      | _ => cases hr
    | go op code hg hw hcode =>
      by_cases ha : op = .allocFrame
      · subst ha
        rw [eq_nil_of_work hw]
        exact hf
      · obtain ⟨hruns, hrest⟩ := fits_goesOn hg hst' ha hf
        rw [hruns]
        exact fits_runs hcode hrest

omit [LinearOrder Cpu] [Fintype Cpu] in
/-- A step puts no thread in the table but those it was to put there. -/
lemma CoreStep.isAdd_le (h : CoreStep t rest op t') : t'.code.countP isAdd ≤ rest.countP isAdd := by
  cases h with
  | lock l => simp [isAdd]
  | go op code hg hw hst =>
    have hzero : code.countP isAdd = 0 := List.countP_eq_zero.mpr fun o ho => by simp [(hst o ho).2]
    simp [List.countP_append, hzero]
  | _ => exact le_rfl

omit [LinearOrder Cpu] [Fintype Cpu] in
lemma CoreStep.mem_rest (h : CoreStep t rest op t') {id : UInt64}
    (hid : .addThread id ∈ t'.code) : .addThread id ∈ rest := by
  cases h with
  | lock l => simpa using hid
  | go op code hg hw hst =>
    refine (List.mem_append.mp hid).resolve_left fun hmem => ?_
    have := (hst _ hmem).2
    cases this
  | _ => exact hid

/-- **Every step keeps the CPUs going.** -/
lemma Going.exec (h : Going m) (hcode : (m.core c).code = op :: rest)
    (hs : exec m c rest op = .ok m') : Going m' := by
  have hsteps := steps_of_exec h.toDisciplined hs
  have hkernel := kernelStep h.toDisciplined hs
  have honce := h.once c
  rw [hcode, List.countP_cons] at honce
  refine ⟨h.toDisciplined.exec hcode hs, fun d => ?_, fun d id hadd => ?_, fun d => ?_⟩
  · by_cases hd : d = c
    · subst hd
      rcases h.track d with ⟨hnil, -⟩ | ⟨hf, hw⟩
      · rw [hnil] at hcode
        cases hcode
      · rw [hcode] at hf
        exact .inr ⟨fits_step h.toDisciplined hf hs, wakes_step h.toDisciplined hcode hw hsteps.core⟩
    · have htrack := h.track d
      rwa [OnTrack, ← hkernel.others d hd, ← hsteps.others d hd] at htrack
  · by_cases hd : d = c
    · subst hd
      have hrest := hsteps.core.mem_rest hadd
      refine hkernel.built id (h.adds d id (by simp [hcode, hrest])) ?_
      -- the thread would be put in the table twice
      rintro rfl
      have hpos : 0 < rest.countP isAdd := List.countP_pos_iff.mpr ⟨_, hrest, rfl⟩
      simp only [isAdd, if_true] at honce
      omega
    · rw [hsteps.others d hd] at hadd
      refine hkernel.built id (h.adds d id hadd) ?_
      rintro rfl
      exact hd (h.alone d c _ hadd (.addThread id) (by simp [hcode]) id rfl rfl)
  · by_cases hd : d = c
    · subst hd
      have := hsteps.core.isAdd_le
      omega
    · rw [hsteps.others d hd]
      exact h.once d

omit [Fintype Cpu] in
lemma mode_off : mode k c = .off ↔ k.online c = false := by
  unfold mode
  split
  · next h => simp [h]
  · next h => split <;> simp [h]

omit [Fintype Cpu] in
lemma online_of_entering (h : mode k c = .entering) : k.online c = true ∧ ¬ Started k c := by
  unfold mode at h
  split at h
  · cases h
  · next hon =>
    split at h
    · cases h
    · next hst => exact ⟨by simpa using hon, hst⟩

omit [Fintype Cpu] in
lemma started_of_runs (h : mode k c = .runs) : Started k c := by
  unfold mode at h
  split at h
  · cases h
  · split at h
    · next hst => exact hst
    · cases h

/-- A CPU that has nothing to do runs a thread with interrupts on, or has not started. -/
lemma Going.of_nil (h : Going m) (hcode : (m.core c).code = []) :
    (mode m.kernel c = .runs ∧ (m.core c).interrupts = true) ∨
      mode m.kernel c = .off ∧ (m.core c).interrupts = false := by
  rcases h.track c with ⟨-, hi, hm⟩ | ⟨hf, hw⟩
  · exact .inr ⟨hm, hi⟩
  · rw [hcode] at hf
    refine .inl ⟨hf, ?_⟩
    cases hw with
    | awake _ hi => exact hi
    | returns o hl _ =>
      rw [hcode] at hl
      cases hl
    | guarded g hl _ =>
      rw [h.no_guards hcode] at hl
      cases hl
    | spins l r _ hc =>
      rw [hcode] at hc
      cases hc

lemma Going.setCore (h : Going m) (hd : Disciplined (m.setCore c t)) (hf : Fits (mode m.kernel c) t.code)
    (hw : Wakes t) (hadds : ∀ id, .addThread id ∈ t.code → id ∈ m.kernel.built.map Thread.id)
    (honce : t.code.countP isAdd ≤ 1) : Going (m.setCore c t) := by
  have hself : (m.setCore c t).core c = t := Function.update_self ..
  have hother : ∀ d, d ≠ c → (m.setCore c t).core d = m.core d :=
    fun d hd => Function.update_of_ne hd _ _
  refine ⟨hd, fun d => ?_, fun d id => ?_, fun d => ?_⟩
  · by_cases hdc : d = c
    · subst hdc
      rw [hself]
      exact .inr ⟨hf, hw⟩
    · rw [hother d hdc]
      exact h.track d
  · by_cases hdc : d = c
    · subst hdc
      rw [hself]
      exact hadds id
    · rw [hother d hdc]
      exact h.adds d id
  · by_cases hdc : d = c
    · subst hdc
      rwa [hself]
    · rw [hother d hdc]
      exact h.once d

lemma Going.boot (h : Locks.Boot m) : Going m where
  toDisciplined := .boot h
  track c := by
    rw [h.core c]
    exact .inl ⟨rfl, rfl, mode_off.mpr (h.kernel.online c)⟩
  adds c id hid := by
    rw [h.core c] at hid
    cases hid
  once c := by
    rw [h.core c]
    exact Nat.zero_le 1

lemma Going.step {a : Locks.Act Cpu} (h : Going m) (hs : Locks.step m a = .ok m') : Going m' := by
  have hd := h.toDisciplined.step hs
  cases a with
  | commonEntry c base =>
    obtain ⟨_, hg, hs⟩ := bind_ok.mp hs
    cases hs
    obtain ⟨hcode, hint⟩ := guard_ok.mp hg
    rcases h.of_nil (List.isEmpty_iff.mp hcode) with ⟨-, hi⟩ | ⟨hm, -⟩
    · rw [hint] at hi
      cases hi
    · refine h.setCore hd ?_ (.returns .forceSwitchToIdle rfl rfl)
        (by simp [commonEntry, println, allocFrame])
        (by simp [commonEntry, println, allocFrame, isAdd])
      rw [hm]
      exact ⟨rfl, rfl, rfl⟩
  | call c s =>
    obtain ⟨_, hg, hs⟩ := bind_ok.mp hs
    obtain ⟨hcode, hint, hp⟩ := guard_ok.mp hg
    cases hs
    have hnil := List.isEmpty_iff.mp hcode
    rcases h.of_nil hnil with ⟨hm, -⟩ | ⟨-, hi⟩
    · refine h.setCore hd ?_ ?_ ?_ ?_
      · rw [hm]
        cases s with
        | allocFrame => rfl
        | println => rfl
        | _ => exact ⟨rfl, rfl⟩
      · exact .spins s.lock s.code (h.no_guards hnil) (by rw [hint])
      · intro id hid
        cases s with
        | addThread id' =>
          simp only [Section.code, List.mem_cons, reduceCtorEq, Op.addThread.injEq, List.not_mem_nil,
            or_false, false_or] at hid
          rw [hid]
          exact hp.1
        | _ => simp [Section.code] at hid
      · cases s <;> simp [Section.code, List.countP_cons, isAdd]
    · rw [hint] at hi
      cases hi
  | timerInterrupt c o rsp =>
    obtain ⟨_, hg, hs⟩ := bind_ok.mp hs
    cases hs
    have hint := guard_ok.mp hg
    have hnil := h.interrupts c hint
    rw [hnil, List.append_nil] at hd ⊢
    rcases h.of_nil hnil with ⟨hm, -⟩ | ⟨-, hi⟩
    · refine h.setCore hd ?_ (.returns .iretq rfl rfl) (by simp [timerInterrupt])
        (by simp [timerInterrupt, isAdd])
      rw [hm]
      exact ⟨rfl, rfl, rfl, rfl, rfl⟩
    · rw [hint] at hi
      cases hi
  | next c =>
    simp only [Locks.step] at hs
    split at hs
    · cases hs
    · next op rest hcode => exact h.exec hcode hs

lemma going_of_reachable (h : Reachable Locks.step Locks.Boot m) : Going m :=
  h.inv (fun _ hb => .boot hb) fun _ _ _ hg hs => hg.step hs

/-! ### Every step succeeds -/

/-- The steps for which there may be no memory: one that takes a frame when none is left, and one
that takes the frames of a stack, which have to follow one another. -/
inductive NoMemory (k : Kernel Cpu) : Op Cpu → Prop
  | frame (h : k.freeFrames = 0) : NoMemory k .allocFrame
  | stack (base : UInt64) : NoMemory k (.spawnRaw base)

/-- A panic of the allocator, at a step that allocates. -/
def OutOfMemory (m : Machine Cpu) (c : Cpu) (r : Res (Machine Cpu)) : Prop :=
  ∃ op ∈ (m.core c).code.head?, NoMemory m.kernel op ∧ r = .error (.panic "Out of memory")

/-- What can keep a CPU from its next step: another CPU holds the lock it spins on, or there is no
memory. -/
inductive Outcome (m : Machine Cpu) (c : Cpu) (r : Res (Machine Cpu)) : Prop
  | ok (m' : Machine Cpu) (h : r = .ok m')
  | spins (d : Cpu) (hw : Waits (wants m) m.locks c d) (hne : c ≠ d) (h : r = .error .blocked)
  | noMemory (h : OutOfMemory m c r)

omit [LinearOrder Cpu] [Fintype Cpu] in
lemma Outcome.bind_ok {x : Res (Kernel Cpu)} {f : Kernel Cpu → Machine Cpu} (h : ∃ k', x = .ok k') :
    Outcome m c (x >>= fun k => .ok (f k)) := by
  obtain ⟨k', rfl⟩ := h
  exact .ok _ rfl

omit [LinearOrder Cpu] [Fintype Cpu] in
lemma allocFrames_cases (k : Kernel Cpu) (n : ℕ) :
    (∃ k', allocFrames k n = .ok k') ∨
      k.freeFrames < n ∧ allocFrames k n = .error (.panic "Out of memory") := by
  unfold allocFrames
  split
  · exact .inl ⟨_, rfl⟩
  · next h => exact .inr ⟨not_le.mp h, rfl⟩

omit [Fintype Cpu] in
/-- A spawn finds the frames of its stack, or it panics. -/
lemma spawnRaw_cases (base : UInt64) (h : Started k c) :
    (∃ k', Sched.step k (.spawnRaw c base) = .ok k') ∨
      Sched.step k (.spawnRaw c base) = .error (.panic "Out of memory") := by
  rw [Sched.step, guard_bind h, Sched.spawnRaw]
  rcases allocFrames_cases { k with threadIdCounter := k.threadIdCounter + 1 } 4 with
    ⟨k', hk⟩ | ⟨-, hk⟩
  · exact .inl ⟨_, by rw [hk]; rfl⟩
  · exact .inr (by rw [hk]; rfl)

/-- There is room in a queue that one of the threads of the table is not in. -/
lemma room_of_notMem (h : Placed k) {i : ℕ} (hi : i < 256) (hnot : .slot i ∉ queue k d) :
    (queue k d).length < 256 := by
  have hnd : (ThreadAddr.slot i :: queue k d).Nodup :=
    List.nodup_cons.mpr ⟨hnot, queue_nodup h d⟩
  have hsub : (ThreadAddr.slot i :: queue k d).toFinset ⊆
      (Finset.range 256).image ThreadAddr.slot := by
    intro a ha
    rcases List.mem_cons.mp (List.mem_toFinset.mp ha) with rfl | ha
    · exact Finset.mem_image_of_mem _ (Finset.mem_range.mpr hi)
    · obtain ⟨j, rfl⟩ := h.slots d a ha
      have hj := lt_of_isReady (h.ready_of_here (here_queue_pos ha))
      exact Finset.mem_image_of_mem _ (Finset.mem_range.mpr hj)
  have hcard := (Finset.card_le_card hsub).trans Finset.card_image_le
  rw [List.toFinset_card_of_nodup hnd, List.length_cons, Finset.card_range] at hcard
  omega

/-- One round of moving threads succeeds: a thread taken from one queue is not in the other, so that
there is room for it. -/
lemma moveThread_total {s d : Cpu} (h : Placed k) (hne : s ≠ d) :
    ∃ k', Locks.moveThread k s d = .ok k' := by
  suffices hr : ∃ r, moveThreads d 1 k.threads (k.tls s).readyQueue (k.tls d).readyQueue = .ok r by
    obtain ⟨⟨th, qs, qd⟩, hr⟩ := hr
    exact ⟨_, by rw [Locks.moveThread, hr]; rfl⟩
  rcases (h.wf s).pop_cases with ⟨-, hpop⟩ | ⟨a, q, hpop, -, hl⟩
  · exact ⟨_, by rw [moveThreads, hpop]; rfl⟩
  · have hmem : a ∈ queue k s := by
      rw [queue, hl]
      exact List.mem_cons_self
    obtain ⟨i, rfl⟩ := h.slots s a hmem
    have hroom := room_of_notMem h (lt_of_isReady (h.ready_of_here (here_queue_pos hmem)))
      fun hd => hne (h.here_unique (here_queue_pos hmem) (here_queue_pos hd))
    have hpos : (k.tls s).readyQueue.len ≠ 0 := fun h0 => by
      rw [(h.wf s).toList_eq_nil.mpr h0] at hl
      cases hl
    rw [queue, (h.wf d).length] at hroom
    exact moveThreads_total (h.wf s) (h.wf d) (by omega) (by omega) fun b hb => h.isSome hb

lemma exec_total (h : Going m) (hcode : (m.core c).code = op :: rest) :
    Outcome m c (exec m c rest op) := by
  have hsafe := h.safe c
  rw [hcode] at hsafe
  have hf : Fits (mode m.kernel c) (op :: rest) := by
    rcases h.track c with ⟨hnil, -⟩ | ⟨hf, -⟩
    · rw [hcode] at hnil
      cases hnil
    · rwa [hcode] at hf
  have hp := h.placed
  cases op with
  | lock l => exact .ok _ rfl
  | spin l b =>
    cases hl : m.locks l with
    | none => exact .ok _ (by simp only [Locks.exec, hl]; rfl)
    | some d =>
      have hw : wants m c = some l := by rw [wants, hcode]
      refine .spins d ⟨l, hw, hl⟩ ?_ (by simp only [Locks.exec, hl])
      -- a CPU does not hold the lock it wants
      rintro rfl
      exact hsafe.1.1.notMem ((h.locks l c).mp hl)
  | drop =>
    obtain ⟨g, gs, hgs, -⟩ := hsafe
    exact .ok _ (by simp only [Locks.exec, hgs]; rfl)
  | allocFrame =>
    rcases allocFrames_cases m.kernel 1 with hk | ⟨hlt, hk⟩
    · exact .bind_ok hk
    · exact .noMemory ⟨.allocFrame, by rw [hcode]; rfl, .frame (by omega),
        by rw [Locks.exec, Sched.step, hk]; rfl⟩
  | setupTls base => exact .bind_ok ⟨_, by rw [Sched.step, guard_bind (mode_off.mp hf.1)]⟩
  | forceSwitchToIdle =>
    obtain ⟨hon, hst⟩ := online_of_entering hf.1
    exact .bind_ok ⟨_, by rw [Sched.step, guard_bind ⟨hon, hst⟩]⟩
  | spawnRaw base =>
    rcases spawnRaw_cases base (started_of_runs hf.1) with hk | hk
    · exact .bind_ok hk
    · exact .noMemory ⟨.spawnRaw base, by rw [hcode]; rfl, .stack base,
        by rw [Locks.exec, hk]; rfl⟩
  | addThread id =>
    have hlt := List.idxOf_lt_length_iff.mpr (h.adds c id (by simp [hcode]))
    rw [List.length_map] at hlt
    exact .bind_ok ⟨_, by rw [Sched.step, guard_bind (started_of_runs hf.1), Sched.addThread,
      List.getElem?_eq_getElem hlt]⟩
  | getThreadMut id =>
    have hid : id ∈ m.kernel.added := h.owned c (.getThreadMut id) (by simp [hcode])
    obtain ⟨n, hn⟩ := List.mem_iff_getElem?.mp hid
    obtain ⟨i, hi, -⟩ := hp.ids.find hn
    exact .ok _ (by rw [Locks.exec, hi]; rfl)
  | ready id i =>
    obtain ⟨hid, hview⟩ : id ∈ m.kernel.added ∧ view m.kernel i = some (id, .born) :=
      h.owned c (.ready id i) (by simp [hcode])
    have hn : m.kernel.added[m.kernel.added.idxOf id]? = some id := by
      rw [List.getElem?_eq_getElem (List.idxOf_lt_length_iff.mpr hid), List.getElem_idxOf]
    obtain ⟨k', hk⟩ := readyAdded_total hp hn c
    obtain ⟨j, hj, hvj⟩ := hp.ids.find hn
    obtain rfl := hp.ids.inj i j _ _ _ hview hvj
    simp only [readyAdded, hn, hj, unwrap, ok_bind, List.eraseIdx_idxOf_eq_erase] at hk
    exact .ok _ (by rw [Locks.exec, guard_bind (started_of_runs hf.1), hk]; rfl)
  | saveRsp rsp => exact .bind_ok (saveRsp_total hp (started_of_runs hf.1) rsp)
  | switch => exact .bind_ok (switch_total hp (started_of_runs hf.1))
  | getCpuTls o => exact .ok _ rfl
  | maybeLoadBalance o => exact .ok _ rfl
  | doLoadBalance o => exact .ok _ rfl
  | moveThreads n s d =>
    cases n with
    | zero => exact .ok _ rfl
    | succ n =>
      rcases (hp.wf s).pop_cases with ⟨-, hpop⟩ | ⟨a, q, hpop, -⟩
      · exact .ok _ (by rw [Locks.exec, hpop, ok_bind])
      · exact .ok _ (by rw [Locks.exec, hpop, ok_bind])
  | moveThread s d =>
    obtain ⟨k', hk⟩ := moveThread_total hp hsafe.1
    exact .ok _ (by rw [Locks.exec, guard_bind (started_of_runs hf.1), hk]; rfl)
  | iretq => exact .ok _ rfl

lemma next_outcome (h : Going m) (hcode : (m.core c).code ≠ []) :
    Outcome m c (Locks.step m (.next c)) := by
  obtain ⟨op, rest, hcons⟩ := List.exists_cons_of_ne_nil hcode
  simp only [Locks.step, hcons]
  exact exec_total h hcons

/-- **No step fails.** In every state any interleaving of the CPUs reaches, a CPU that has something
left to do can take its next step, or it spins on a lock that another CPU holds, or it allocates and
the allocator panics: a single frame when none is left, or the frames of a stack. No queue is ever
found full or without the thread it should have, no thread is missing from the table, and no guard is
dropped that is not there. -/
theorem no_step_fails (h : Reachable Locks.step Locks.Boot m) (hcode : (m.core c).code ≠ []) :
    Outcome m c (Locks.step m (.next c)) := next_outcome (going_of_reachable h) hcode

theorem no_step_fails_spinning :
    ∃ m, run Locks.step bootMachine (twoSpawns 0 1 2) = .ok m ∧
      Outcome m 1 (Locks.step m (.next 1)) := by
  obtain ⟨m, hm, hc⟩ := exists_run_of_map (f := fun m => (m.core 1).code.length) (c := 3)
    (show (run Locks.step bootMachine (twoSpawns 0 1 2)).map _ = _ by rfl)
  have hboot : Locks.Boot bootMachine := ⟨boot_bootKernel (by decide), fun _ => rfl, fun _ => rfl⟩
  refine ⟨m, hm, no_step_fails ⟨_, _, hboot, hm⟩ fun hnil => ?_⟩
  rw [hnil] at hc
  cases hc

/-! ### What is begun is done -/

omit [LinearOrder Cpu] [Fintype Cpu] in
lemma CoreStep.work_lt (h : CoreStep t rest op t') : codeWork t'.code < weight op + codeWork rest := by
  have hpos := weight_pos op
  cases h with
  | lock l =>
    simp only [codeWork, weight, List.map_cons, List.sum_cons]
    omega
  | go op code hg hw hst =>
    simp only [codeWork, List.map_append, List.sum_append] at hw ⊢
    omega
  | _ =>
    show codeWork rest < _
    omega

/-- A step leaves its CPU less to do. -/
lemma work_next (h : Going m) (hs : Locks.step m (.next c) = .ok m') (d : Cpu) :
    codeWork (m'.core d).code + (if c = d then 1 else 0) ≤ codeWork (m.core d).code := by
  simp only [Locks.step] at hs
  split at hs
  · cases hs
  · next op rest hcode =>
    have hsteps := steps_of_exec h.toDisciplined hs
    split
    · next he =>
      subst he
      have hlt := hsteps.core.work_lt
      rw [hcode]
      simp only [codeWork, List.map_cons, List.sum_cons] at hlt ⊢
      omega
    · next hne =>
      rw [hsteps.others d (Ne.symm hne)]
      exact le_rfl

lemma work_run (h : Going m) {cs : List Cpu} (hr : run Locks.step m (cs.map .next) = .ok m') :
    Going m' ∧ ∀ d, codeWork (m'.core d).code + cs.count d ≤ codeWork (m.core d).code := by
  induction cs generalizing m with
  | nil =>
    cases hr
    exact ⟨h, fun d => by simp⟩
  | cons c cs ih =>
    obtain ⟨m₁, h₁, hr⟩ := run_cons_ok.mp hr
    obtain ⟨hg, hle⟩ := ih (h.step h₁) hr
    refine ⟨hg, fun d => ?_⟩
    have hd := hle d
    have hc := work_next h h₁ d
    simp only [List.count_cons, beq_iff_eq]
    omega

/-- All CPUs are outside of critical sections and interrupt handlers. -/
structure Quiescent (m : Machine Cpu) : Prop where
  locks : ∀ l, m.locks l = none
  guards : ∀ c, (m.core c).guards = []
  code : ∀ c, (m.core c).code = []
  interrupts : ∀ c, Started m.kernel c → (m.core c).interrupts = true

/-- Where no CPU can take a step, nobody has anything left to do. -/
lemma Going.quiescent (h : Going m) (hstuck : ∀ c m', Locks.step m (.next c) ≠ .ok m')
    (hmem : ∀ c, ¬ OutOfMemory m c (Locks.step m (.next c))) : Quiescent m := by
  have hcode : ∀ c, (m.core c).code = [] := by
    by_contra hne
    obtain ⟨c₀, hc₀⟩ := not_forall.mp hne
    have hacyclic := acyclic_of_rank (fun c => rank (held (m.core c).guards))
      fun a b c hab hbc => h.rank_lt hab hbc
    -- one of those with something to do waits for none of the others
    obtain ⟨c, hc, hfree⟩ := exists_free hacyclic (s := {c | (m.core c).code ≠ []}) ⟨c₀, hc₀⟩
    cases next_outcome h hc with
    | ok m' hs => exact hstuck c m' hs
    | spins d hw hne' hs =>
      refine hfree d (fun hnil => ?_) hw
      obtain ⟨l, -, hl⟩ := hw
      rw [h.locks, h.no_guards hnil] at hl
      cases hl
    | noMemory hn => exact hmem c hn
  have hguards : ∀ c, (m.core c).guards = [] := fun c => h.no_guards (hcode c)
  refine ⟨fun l => ?_, hguards, hcode, fun c hst => ?_⟩
  · cases hl : m.locks l with
    | none => rfl
    | some d =>
      rw [h.locks, hguards d] at hl
      cases hl
  · rcases h.of_nil (hcode c) with ⟨-, hi⟩ | ⟨hoff, -⟩
    · exact hi
    · have hon := h.placed.online hst
      rw [mode_off.mp hoff] at hon
      cases hon

/-- What comes of letting the CPUs take steps, in the order `cs`, with no new call or interrupt. -/
structure Drains (m : Machine Cpu) (cs : List Cpu) (m' : Machine Cpu) : Prop where
  bounded : ∀ c, cs.count c ≤ codeWork (m.core c).code
  ends : (∃ c m'', Locks.step m' (.next c) = .ok m'') ∨ Quiescent m' ∨
    ∃ c, OutOfMemory m' c (Locks.step m' (.next c))

/-- **The CPUs get done.** From any state they can reach, in any order, and without a new call or
interrupt, each CPU takes no more steps than its code has work in it; and where no CPU can take
another, every lock is free, no guard is alive, and every CPU that runs threads has its interrupts
on, unless memory has run out. -/
theorem drains (h : Reachable Locks.step Locks.Boot m) {cs : List Cpu}
    (hr : run Locks.step m (cs.map .next) = .ok m') : Drains m cs m' := by
  obtain ⟨hg, hle⟩ := work_run (going_of_reachable h) hr
  refine ⟨fun c => by have := hle c; omega, ?_⟩
  by_cases hstep : ∃ c m'', Locks.step m' (.next c) = .ok m''
  · exact .inl hstep
  · refine .inr ?_
    by_cases hmem : ∃ c, OutOfMemory m' c (Locks.step m' (.next c))
    · exact .inr hmem
    · exact .inl (hg.quiescent (fun c m'' hs => hstep ⟨c, m'', hs⟩) fun c hc => hmem ⟨c, hc⟩)

/-- The first CPU makes its thread ready, and the second puts its own in the table. -/
def finishing : List (Fin 3) := List.replicate 8 0 ++ List.replicate 3 1

theorem drains_two_spawns :
    ∃ m m', run Locks.step bootMachine (twoSpawns 0 1 2) = .ok m ∧
      run Locks.step m (finishing.map .next) = .ok m' ∧ Drains m finishing m' := by
  obtain ⟨m', hm', -⟩ := exists_run_of_map (f := fun m => (m.core 1).code.length) (c := 0)
    (show (run Locks.step bootMachine
      (twoSpawns 0 1 2 ++ finishing.map .next)).map _ = _ by rfl)
  obtain ⟨m, hm, hr⟩ := run_append_ok.mp hm'
  have hboot : Locks.Boot bootMachine := ⟨boot_bootKernel (by decide), fun _ => rfl, fun _ => rfl⟩
  exact ⟨m, m', hm, hr, drains ⟨_, _, hboot, hm⟩ hr⟩

-- a timer interrupt takes 662 steps of its CPU at the most, its spinning apart
example (c o : Cpu) (rsp : UInt64) : codeWork (timerInterrupt c o rsp) = 662 := by
  simp [codeWork, timerInterrupt, weight]

end OsRust.Progress
