import OsRust.Progress
import OsRust.Protected

/-!
No data races: a CPU reads and writes what a lock protects only while it holds that lock, in every
interleaving of the lock steps of all CPUs.

The locks a step takes are those it holds when it comes to it; what it then does to the kernel is
independent of everything behind the other locks.
-/

namespace OsRust.Guarded

open OsRust.Ring OsRust.Task OsRust.Sched OsRust.Effects OsRust.Placement
open OsRust.Locks OsRust.Protected OsRust.Deadlock OsRust.Lib.Machine

variable {Cpu : Type}

/-! ### The code -/

/-- The moves from queue to queue that are left of a load balance. -/
def moves : List (Op Cpu) → List (Cpu × Cpu)
  | [] => []
  | .moveThreads n s d :: r => List.replicate n (s, d) ++ moves r
  | .moveThread s d :: r => (s, d) :: moves r
  | _ :: r => moves r

/-- The locks held after a step; that on `CPUS` is dropped behind `get_cpu_tls`. -/
def after : Op Cpu → List (Lock Cpu) → List (Lock Cpu)
  | .lock l, ls => l :: ls
  | .spin l _, ls => l :: ls
  | .drop, ls => ls.tail
  | .getCpuTls _, ls => ls.tail
  | _, ls => ls

/-- A load balance is over before anything else begins. -/
def Settled : Op Cpu → List (Op Cpu) → Prop
  | .lock _, _ => True
  | .spin _ _, _ => True
  | .drop, _ => True
  | .moveThread s d, r => (∃ n, moves r = List.replicate n (s, d)) ∧ ∀ s' d', .moveThread s' d' ∉ r
  | _, r => moves r = []

/-- The code, begun with these locks, has those it needs at every step, and those of the queues it
moves threads between up to the last move. -/
def Covered (k : Kernel Cpu) (c : Cpu) : List (Lock Cpu) → List (Op Cpu) → Prop
  | _, [] => True
  | ls, op :: r => (∀ l ∈ needs k c op, l ∈ ls) ∧
      (∀ p ∈ moves (op :: r), .queue p.1 ∈ ls ∧ .queue p.2 ∈ ls) ∧ Settled op r ∧
        Covered k c (after op ls) r

variable {k k' : Kernel Cpu} {c d : Cpu} {ls : List (Lock Cpu)} {code rest : List (Op Cpu)} {op : Op Cpu}

lemma Covered.moves (h : Covered k c ls code) {p : Cpu × Cpu} (hp : p ∈ moves code) :
    .queue p.1 ∈ ls ∧ .queue p.2 ∈ ls := by
  cases code with
  | nil => cases hp
  | cons op r => exact h.2.1 p hp

lemma mem_moves {s d : Cpu} (h : .moveThread s d ∈ code) : (s, d) ∈ moves code := by
  induction code with
  | nil => cases h
  | cons op r ih =>
    rcases List.mem_cons.mp h with rfl | h
    · exact List.mem_cons_self
    · have hr := ih h
      cases op with
      | moveThreads n s' d' => exact List.mem_append_right _ hr
      | moveThread s' d' => exact List.mem_cons_of_mem _ hr
      | _ => exact hr

/-- Of the kernel, the code depends on the front of the queue it is about to move a thread from. -/
lemma Covered.congr (h : Covered k c ls code)
    (hk : ∀ s d, .moveThread s d ∈ code → (queue k' s).head? = (queue k s).head?) :
    Covered k' c ls code := by
  induction code generalizing ls with
  | nil => trivial
  | cons op r ih =>
    obtain ⟨hn, hm, hs, hr⟩ := h
    refine ⟨?_, hm, hs, ih hr fun s d hsd => hk s d (List.mem_cons_of_mem _ hsd)⟩
    cases op with
    | moveThread s d =>
      rw [needs, hk s d List.mem_cons_self]
      exact hn
    | _ => exact hn

/-! ### The steps -/

variable {m m' : Machine Cpu}

/-- A step that has to do with no lock, and with no move left behind it. -/
lemma Covered.next (k' : Kernel Cpu) (h : Covered k c ls (op :: code)) (ha : after op ls = ls)
    (hno : ∀ s d, .moveThread s d ∉ code) : Covered k' c ls code := by
  obtain ⟨-, -, -, hr⟩ := h
  rw [ha] at hr
  exact hr.congr fun s d hsd => absurd hsd (hno s d)

lemma not_mem_of_moves (h : moves code = []) (s d : Cpu) : .moveThread s d ∉ code := fun hsd => by
  have := mem_moves hsd
  rw [h] at this
  cases this

/-- A lock taken and dropped. -/
lemma Covered.lockDrop (h : Covered k c ls code) (l : Lock Cpu) :
    Covered k c ls (.lock l :: .drop :: code) :=
  ⟨by simp [needs], fun _ hp => h.moves hp, trivial, by simp [needs],
    fun _ hp => ⟨List.mem_cons_of_mem _ (h.moves hp).1, List.mem_cons_of_mem _ (h.moves hp).2⟩,
    trivial, h⟩

/-- Two locks taken, something done that is no move, and the two dropped. -/
lemma Covered.lockTwo (h : Covered k c ls code) (hm : Guarded.moves code = []) (l l' : Lock Cpu)
    (hneeds : ∀ x ∈ needs k c op, x ∈ l' :: l :: ls) (ha : after op (l' :: l :: ls) = l' :: l :: ls)
    (hop : Guarded.moves (op :: .drop :: .drop :: code) = Guarded.moves code)
    (hs : Settled op (.drop :: .drop :: code)) :
    Covered k c ls (.lock l :: .lock l' :: op :: .drop :: .drop :: code) := by
  have hnone : ∀ p : Cpu × Cpu, p ∉ Guarded.moves (op :: .drop :: .drop :: code) := by simp [hop, hm]
  have hnone' : ∀ p : Cpu × Cpu, p ∉ Guarded.moves code := by simp [hm]
  refine ⟨by simp [needs], fun p hp => absurd hp (hnone p), trivial, by simp [needs],
    fun p hp => absurd hp (hnone p), trivial, hneeds, fun p hp => absurd hp (hnone p), hs, ?_⟩
  show Covered k c (after op (l' :: l :: ls)) _
  rw [ha]
  exact ⟨by simp [needs], fun p hp => absurd hp (hnone' p), trivial, by simp [needs],
    fun p hp => absurd hp (hnone' p), trivial, h⟩

/-- One round of load balancing, on the thread at the front of the queue. -/
lemma Covered.round {n : ℕ} {s d : Cpu} {a : ThreadAddr Cpu}
    (h : Covered k c ls (.moveThreads n s d :: code)) (hm : Guarded.moves code = [])
    (ha : (queue k s).head? = some a) (hs : .queue s ∈ ls) (hd : .queue d ∈ ls) :
    Covered k c ls (.lock (.sched a) :: .moveThread s d :: .drop :: .moveThreads n s d :: code) := by
  have hmoves : Guarded.moves (.drop :: .moveThreads n s d :: code) = List.replicate n (s, d) := by
    show List.replicate n (s, d) ++ Guarded.moves code = _
    rw [hm, List.append_nil]
  have hin : ∀ p ∈ (s, d) :: List.replicate n (s, d), .queue p.1 ∈ ls ∧ .queue p.2 ∈ ls := by
    intro p hp
    rw [← List.replicate_succ] at hp
    rw [List.eq_of_mem_replicate hp]
    exact ⟨hs, hd⟩
  have hin' : ∀ p ∈ (s, d) :: List.replicate n (s, d),
      .queue p.1 ∈ .sched a :: ls ∧ .queue p.2 ∈ .sched a :: ls := fun p hp =>
    ⟨List.mem_cons_of_mem _ (hin p hp).1, List.mem_cons_of_mem _ (hin p hp).2⟩
  refine ⟨by simp [needs], fun p hp => hin p ?_, trivial, by simp [needs, after, ha, hs, hd],
    fun p hp => hin' p ?_, ⟨⟨n, hmoves⟩, ?_⟩, by simp [needs], fun p hp => hin' p ?_, trivial, h⟩
  · rw [← hmoves]
    exact hp
  · rw [← hmoves]
    exact hp
  · intro s' d' hsd
    simp only [List.mem_cons, reduceCtorEq, false_or] at hsd
    exact not_mem_of_moves hm s' d' hsd
  · refine List.mem_cons_of_mem _ ?_
    rw [← hmoves]
    exact hp

section Steps

variable [LinearOrder Cpu] {m m' : Machine Cpu}

@[simp] lemma core_go (m : Machine Cpu) (k : Kernel Cpu) (code : List (Op Cpu)) :
    (m.go c k code).core c = { m.core c with code := code } := by
  simp [Machine.go, Machine.setCore]

@[simp] lemma kernel_go (m : Machine Cpu) (k : Kernel Cpu) (code : List (Op Cpu)) :
    (m.go c k code).kernel = k := rfl

/-- **A step of a CPU leaves it the locks its code needs.** -/
lemma covered_exec (hwf : QueuesWf m.kernel)
    (h : Covered m.kernel c (held (m.core c).guards) (op :: rest))
    (hs : exec m c rest op = .ok m') :
    Covered m'.kernel c (held (m'.core c).guards) (m'.core c).code := by
  have hsettled := h.2.2.1
  cases op with
  | lock l =>
    cases hs
    have h : Covered m.kernel c (held (m.core c).guards)
      (.spin l (m.core c).interrupts :: rest) := h
    simpa [Machine.setCore] using h
  | spin l b =>
    simp only [Locks.exec] at hs
    split at hs
    · cases hs
    · cases hs
      simpa [Machine.setCore, Machine.setLock, held, after] using h.2.2.2
  | drop =>
    simp only [Locks.exec] at hs
    split at hs
    · cases hs
    · next g gs hgs =>
      cases hs
      have hr := h.2.2.2
      rw [hgs] at hr
      simpa [Machine.setCore, Machine.setLock, held, after] using hr
  | forceSwitchToIdle =>
    obtain ⟨k', hk, hs⟩ := bind_ok.mp hs
    cases hs
    simpa [Machine.enable, Machine.setCore] using h.next k' rfl (not_mem_of_moves hsettled)
  | getThreadMut id =>
    obtain ⟨i, hi, hs⟩ := bind_ok.mp hs
    cases hs
    have htable : Lock.table ∈ held (m.core c).guards := h.1 _ (by simp [needs])
    simp only [core_go, kernel_go]
    refine (h.next m.kernel rfl (not_mem_of_moves hsettled)).lockTwo hsettled _ _ ?_ rfl rfl hsettled
    simp [needs, htable]
  | ready id i =>
    obtain ⟨_, -, hs⟩ := bind_ok.mp hs
    obtain ⟨k', hk, hs⟩ := bind_ok.mp hs
    cases hs
    simpa using h.next k' rfl (not_mem_of_moves hsettled)
  | getCpuTls o =>
    cases hs
    have hr := h.2.2.2
    have hnone : ∀ p : Cpu × Cpu, p ∉ moves rest := by simp [show moves rest = [] from hsettled]
    simp only [core_go, kernel_go]
    split
    · exact ⟨by simp [needs], fun p hp => absurd hp (hnone p), trivial, by simp [needs],
        fun p hp => absurd hp (hnone p), hsettled, hr⟩
    · exact ⟨by simp [needs], fun p hp => absurd hp (hnone p), trivial, hr⟩
  | maybeLoadBalance o =>
    simp only [Locks.exec] at hs
    cases hs
    have hr := h.next m.kernel rfl (not_mem_of_moves hsettled)
    simp only [core_go, kernel_go]
    split
    · exact hr
    · split
      · exact hr.lockTwo hsettled _ _ (by simp [needs]) rfl rfl hsettled
      · exact hr.lockTwo hsettled _ _ (by simp [needs]) rfl rfl hsettled
  | doLoadBalance o =>
    simp only [Locks.exec] at hs
    cases hs
    have hr := h.next m.kernel rfl (not_mem_of_moves hsettled)
    have hc : Lock.queue c ∈ held (m.core c).guards := h.1 _ (by simp [needs])
    have ho : Lock.queue o ∈ held (m.core c).guards := h.1 _ (by simp [needs])
    have hprint : ∀ n s d, .queue s ∈ held (m.core c).guards → .queue d ∈ held (m.core c).guards →
        Covered m.kernel c (held (m.core c).guards) (.moveThreads n s d :: println ++ rest) := by
      intro n s d hs hd
      refine ⟨by simp [needs, hs, hd], fun p hp => ?_, hsettled, hr.lockDrop .terminal⟩
      have hp : p ∈ List.replicate n (s, d) ++ moves rest := hp
      rw [show moves rest = [] from hsettled, List.append_nil] at hp
      rw [List.eq_of_mem_replicate hp]
      exact ⟨hs, hd⟩
    simp only [core_go, kernel_go]
    split
    · exact hr
    · split
      · exact hprint _ c o hc ho
      · exact hprint _ o c ho hc
  | moveThreads n s d =>
    have hsrc : Lock.queue s ∈ held (m.core c).guards := h.1 _ (by simp [needs])
    have hdst : Lock.queue d ∈ held (m.core c).guards := h.1 _ (by simp [needs])
    have hr := h.next m.kernel rfl (not_mem_of_moves hsettled)
    cases n with
    | zero =>
      cases hs
      simpa using hr
    | succ n =>
      -- what is left after this round
      have hleft : Covered m.kernel c (held (m.core c).guards) (.moveThreads n s d :: rest) := by
        refine ⟨by simp [needs, hsrc, hdst], fun p hp => h.moves ?_, hsettled, hr⟩
        exact List.mem_cons_of_mem _ hp
      obtain ⟨x, hpop, hs⟩ := bind_ok.mp hs
      cases x with
      | none =>
        cases hs
        simpa using hleft
      | some x =>
        cases hs
        have hfront : (queue m.kernel s).head? = some x.1 := by
          rcases (hwf s).pop_cases with ⟨-, hp⟩ | ⟨a, q, hp, -, hl⟩
          · rw [hpop] at hp
            cases hp
          · rw [hpop] at hp
            cases hp
            rw [queue, hl]
            rfl
        simpa using hleft.round hsettled hfront hsrc hdst
  | moveThread s d =>
    obtain ⟨_, -, hs⟩ := bind_ok.mp hs
    obtain ⟨k', hk, hs⟩ := bind_ok.mp hs
    cases hs
    simpa using h.next k' rfl hsettled.2
  | iretq =>
    cases hs
    simpa [Machine.enable, Machine.setCore] using
      h.next m.kernel rfl (not_mem_of_moves hsettled)
  | _ =>
    obtain ⟨k', hk, hs⟩ := bind_ok.mp hs
    cases hs
    simpa using h.next k' rfl (not_mem_of_moves hsettled)

/-- A step changes no queue whose lock its CPU does not hold. -/
lemma queue_exec [Fintype Cpu] (hp : Placed m.kernel)
    (h : Covered m.kernel c (held (m.core c).guards) (op :: rest)) (hs : exec m c rest op = .ok m')
    {e : Cpu} (he : .queue e ∉ held (m.core c).guards) : queue m'.kernel e = queue m.kernel e := by
  have hk := part_of_exec hs
  have hneeds : .queue e ∉ needs m.kernel c op := fun hl => he (h.1 _ hl)
  by_cases hset : ∃ base, op = .setupTls base ∧ c = e
  · obtain ⟨base, rfl, rfl⟩ := hset
    obtain ⟨hoff, hk⟩ := part_setupTls.mp hk
    -- the ready queue of a CPU that was offline is empty
    rw [queue, queue, ← hk, hp.offline c hoff]
    simp [setupTls]
  · rw [queue, queue,
      readyQueue_kept hp.wf hk (fun base hop _ hc => hset ⟨base, hop, hc⟩) hneeds]

end Steps

/-! ### Runs -/

lemma covered_section (s : Section) : Covered k c [] (.spin s.lock true :: s.code) := by
  cases s <;> simp [Covered, Section.lock, Section.code, needs, moves, Settled, after]

variable [LinearOrder Cpu] [Fintype Cpu] {m m' : Machine Cpu}

structure Orderly (m : Machine Cpu) : Prop where
  disciplined : Disciplined m
  covered : ∀ c, Covered m.kernel c (held (m.core c).guards) (m.core c).code

/-- A CPU takes up code that needs no lock it does not take itself. -/
lemma Orderly.setCore {t : Core Cpu} (h : Orderly m) (hd : Disciplined (m.setCore c t))
    (hc : Covered m.kernel c (held t.guards) t.code) : Orderly (m.setCore c t) where
  disciplined := hd
  covered e := by
    by_cases he : e = c
    · subst he
      simpa [Machine.setCore] using hc
    · simpa [Machine.setCore, he] using h.covered e

lemma Orderly.exec (h : Orderly m) (hcode : (m.core c).code = op :: rest)
    (hs : Locks.exec m c rest op = .ok m') : Orderly m' where
  disciplined := h.disciplined.exec hcode hs
  covered e := by
    have hc := h.covered c
    rw [hcode] at hc
    by_cases he : e = c
    · subst he
      exact covered_exec h.disciplined.placed.wf hc hs
    · rw [(Progress.steps_of_exec h.disciplined hs).others e he]
      refine (h.covered e).congr fun s d hsd => ?_
      -- the queue the other CPU moves threads from is locked by it
      have hmine := ((h.covered e).moves (mem_moves hsd)).1
      rw [queue_exec h.disciplined.placed hc hs]
      intro hother
      rw [← h.disciplined.locks] at hmine hother
      rw [hmine] at hother
      exact he (Option.some.inj hother)

lemma Orderly.boot (h : Locks.Boot m) : Orderly m where
  disciplined := .boot h
  covered c := by
    rw [h.core c]
    trivial

lemma Orderly.step {a : Locks.Act Cpu} (h : Orderly m) (hs : Locks.step m a = .ok m') :
    Orderly m' := by
  have hd := h.disciplined.step hs
  cases a with
  | commonEntry c base =>
    obtain ⟨_, hg, hs⟩ := bind_ok.mp hs
    cases hs
    have hgs := h.disciplined.no_guards (List.isEmpty_iff.mp (guard_ok.mp hg).1)
    refine h.setCore hd ?_
    rw [hgs]
    simp [Covered, Locks.commonEntry, Locks.println, Locks.allocFrame, needs, moves, Settled, after,
      held]
  | call c s =>
    obtain ⟨_, hg, hs⟩ := bind_ok.mp hs
    obtain ⟨hcode, hint, -⟩ := guard_ok.mp hg
    cases hs
    have hgs := h.disciplined.no_guards (List.isEmpty_iff.mp hcode)
    refine h.setCore hd ?_
    rw [hgs, hint]
    exact covered_section s
  | timerInterrupt c o rsp =>
    obtain ⟨_, hg, hs⟩ := bind_ok.mp hs
    cases hs
    have hcode := h.disciplined.interrupts c (guard_ok.mp hg)
    refine h.setCore hd ?_
    rw [h.disciplined.no_guards hcode, hcode]
    simp [Covered, Locks.timerInterrupt, needs, moves, Settled, after, held]
  | next c =>
    simp only [Locks.step] at hs
    split at hs
    · cases hs
    · next op rest hcode => exact h.exec hcode hs

/-- What CPU `c` does in its next step, which leads from `m` to `m'`. -/
structure RaceFree (m : Machine Cpu) (c : Cpu) (m' : Machine Cpu) : Prop where
  /-- What is behind the locks it does not hold stays as it is. -/
  leaves : ∀ l, m.locks l ≠ some c → There m.kernel l → Agree m.kernel m'.kernel l
  /-- With anything else behind one of them, it does the same, and leaves that alone. -/
  ignores : ∀ l p, m.locks l ≠ some c → There m.kernel l → Behind c m.kernel l p →
    Locks.step (withKernel m (p.apply m.kernel)) (.next c) =
      .ok (withKernel m' (p.apply m'.kernel))
  /-- What no lock protects, it writes for itself only. -/
  current : ∀ e, e ≠ c → current m'.kernel e = current m.kernel e
  regs : ∀ a, There m.kernel (.sched a) → a ≠ Effects.current m.kernel c →
    regs m'.kernel a = regs m.kernel a

/-- **No data races.** In every interleaving, a CPU neither reads nor writes what a lock protects but
while it holds that lock: the free frames, the slots of the thread table, who is online, the
`sched_state` of a thread that is there, and the ready queue of a CPU that is online. -/
theorem accesses_locked (h : Reachable Locks.step Locks.Boot m)
    (hs : Locks.step m (.next c) = .ok m') : RaceFree m c m' := by
  have ho : Orderly m := h.inv (fun _ hb => .boot hb) fun _ _ _ hm hs => hm.step hs
  have hwf := ho.disciplined.placed.wf
  have hc := ho.covered c
  simp only [Locks.step] at hs
  split at hs
  · cases hs
  · next op rest hcode =>
    rw [hcode] at hc
    -- the locks the step needs are held
    have hneeds : ∀ l, m.locks l ≠ some c → l ∉ needs m.kernel c op := fun l hl hmem =>
      hl ((ho.disciplined.locks l c).mpr (hc.1 l hmem))
    have hk := part_of_exec hs
    refine ⟨fun l hl ht => agree_of_part hwf hk ht (hneeds l hl), fun l p hl ht hb => ?_,
      fun e he => current_of_part hk he, fun a ht ha => regs_of_part hwf hk ht ha⟩
    have hout := outside_of_behind hb ht (hneeds l hl)
    simp only [Locks.step, withKernel, hcode]
    exact exec_untouched (untouched_of_outside hwf hout) hs

/-- CPU `c` spawns a thread that gets the identifier `id`. -/
def spawnOn (c : Cpu) (base id : UInt64) : List (Locks.Act Cpu) :=
  Locks.Act.call c .allocFrame :: List.replicate 3 (Locks.Act.next c) ++
    Locks.Act.call c (.spawnRaw base) :: List.replicate 3 (Locks.Act.next c) ++
    Locks.Act.call c (.addThread id) :: List.replicate 3 (Locks.Act.next c) ++
    Locks.Act.call c (.ready id) :: List.replicate 10 (Locks.Act.next c)

/-- CPU `c` spawns three threads, and in its timer interrupt CPU `d` is about to take the first. -/
def takesFirst (c d : Cpu) : List (Locks.Act Cpu) :=
  Locks.Act.commonEntry c 0x10000 :: List.replicate 24 (Locks.Act.next c) ++
    Locks.Act.commonEntry d 0x20000 :: List.replicate 24 (Locks.Act.next d) ++
    spawnOn c 0x30000 1 ++ spawnOn c 0x40000 2 ++ spawnOn c 0x50000 3 ++
    Locks.Act.timerInterrupt d c 0x900 :: List.replicate 18 (Locks.Act.next d)

def bootMachine (Cpu : Type) (n : ℕ) : Machine Cpu :=
  ⟨bootKernel Cpu n, fun _ => none, fun _ => ⟨false, [], []⟩⟩

omit [Fintype Cpu] [LinearOrder Cpu] in
lemma boot_bootMachine {n : ℕ} (h : n < 4 * 2 ^ 64) : Locks.Boot (bootMachine Cpu n) :=
  ⟨boot_bootKernel h, fun _ => rfl, fun _ => rfl⟩

/-- The thread a CPU is about to move to another queue. -/
def aboutToMove (m : Machine Cpu) (c : Cpu) : Option (ThreadAddr Cpu) :=
  match (m.core c).code with
  | .moveThread s _ :: _ => (queue m.kernel s).head?
  | _ => none

/-- CPU 1 moves the first thread from the queue of CPU 0 to its own, holding the locks of the two
queues and of that thread, and not that of the next one. -/
theorem accesses_locked_taking :
    ∃ m m', run Locks.step (bootMachine (Fin 2) 64) (takesFirst 0 1) = .ok m ∧
      (aboutToMove m 1 = some (.slot 0) ∧ m.locks (.sched (.slot 0)) = some 1 ∧
        m.locks (.queue 0) = some 1 ∧ m.locks (.sched (.slot 1)) = none) ∧
      Locks.step m (.next 1) = .ok m' ∧ RaceFree m 1 m' := by
  obtain ⟨m', hm', -⟩ := exists_run_of_map (f := fun m => aboutToMove m 1) (c := none)
    (show (run Locks.step (bootMachine (Fin 2) 64)
      (takesFirst 0 1 ++ [.next 1])).map _ = _ by rfl)
  obtain ⟨m, hm, hr⟩ := run_append_ok.mp hm'
  obtain ⟨m₁, hs, hr⟩ := run_cons_ok.mp hr
  cases hr
  obtain ⟨m₂, hm₂, hf⟩ := exists_run_of_map
    (f := fun m => (aboutToMove m 1, m.locks (.sched (.slot 0)), m.locks (.queue 0),
      m.locks (.sched (.slot 1))))
    (c := (some (.slot 0), some 1, some 1, none))
    (show (run Locks.step (bootMachine (Fin 2) 64) (takesFirst 0 1)).map _ = _ by rfl)
  rw [hm] at hm₂
  cases hm₂
  simp only [Prod.mk.injEq] at hf
  exact ⟨m, m', hm, hf, hs, accesses_locked ⟨_, _, boot_bootMachine (by decide), hm⟩ hs⟩

end OsRust.Guarded
