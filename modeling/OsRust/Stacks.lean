import OsRust.Placement

/-!
Which kernel stack each CPU executes on, with the timer interrupt in the four steps the code
has: the entry that saves `rsp`, `switch`, `maybe_load_balance`, and the exit that loads `rsp`
for whatever thread is current by then.

Between `switch` and the exit a CPU stands on the stack of a thread it has already put back in
its ready queue.
-/

namespace OsRust.Stacks

open OsRust.Ring OsRust.Task OsRust.Sched OsRust.Effects OsRust.Placement OsRust.Lib.Machine

/-- Where a CPU is in its timer interrupt; `thread` is outside it, `boot` before the switch to
the idle thread. -/
inductive Phase
  | boot
  | thread
  | entered
  | switched
  | balanced
  deriving DecidableEq

/-- A CPU's phase, and the thread whose kernel stack it executes on once it has left `boot`. -/
structure Ctl (Cpu : Type*) where
  phase : Phase
  stack : ThreadAddr Cpu

structure Machine (Cpu : Type*) where
  kernel : Kernel Cpu
  ctl : Cpu → Ctl Cpu

variable {Cpu : Type} [DecidableEq Cpu]

/-- Pages are left out: a frame more or less free is nothing to a stack. -/
inductive Act (Cpu : Type*)
  | setupTls (c : Cpu) (base : UInt64)
  | forceSwitchToIdle (c : Cpu)
  | spawnRaw (c : Cpu) (base : UInt64)
  | addThread (c : Cpu) (n : ℕ)
  | readyAdded (c : Cpu) (n : ℕ)
  | entry (c : Cpu) (rsp : UInt64)
  | switch (c : Cpu)
  | maybeLoadBalance (c o : Cpu)
  | exit (c : Cpu)

/-- CPU `c`, in phase `p`, takes the kernel step `a` and then executes as `f` says. -/
def advance (m : Machine Cpu) (c : Cpu) (p : Phase) (a : Sched.Act Cpu)
    (f : Kernel Cpu → Ctl Cpu) : Res (Machine Cpu) := do
  guard ((m.ctl c).phase = p)
  let k ← Sched.step m.kernel a
  .ok ⟨k, Function.update m.ctl c (f k)⟩

def step (m : Machine Cpu) : Act Cpu → Res (Machine Cpu)
  | .setupTls c base => advance m c .boot (.setupTls c base) fun _ => m.ctl c
  | .forceSwitchToIdle c =>
    advance m c .boot (.forceSwitchToIdle c) fun k => ⟨.thread, (k.tls c).threadAddr⟩
  | .spawnRaw c base => advance m c .thread (.spawnRaw c base) fun _ => m.ctl c
  | .addThread c n => advance m c .thread (.addThread c n) fun _ => m.ctl c
  | .readyAdded c n => advance m c .thread (.readyAdded c n) fun _ => m.ctl c
  | .entry c rsp => advance m c .thread (.saveRsp c rsp) fun _ => ⟨.entered, (m.ctl c).stack⟩
  | .switch c => advance m c .entered (.switch c) fun _ => ⟨.switched, (m.ctl c).stack⟩
  | .maybeLoadBalance c o =>
    advance m c .switched (.maybeLoadBalance c o) fun _ => ⟨.balanced, (m.ctl c).stack⟩
  | .exit c => do
    guard ((m.ctl c).phase = .balanced)
    .ok { m with ctl := Function.update m.ctl c ⟨.thread, (m.kernel.tls c).threadAddr⟩ }

/-- No CPU has started. -/
structure Boot (m : Machine Cpu) : Prop where
  kernel : Sched.Boot m.kernel
  ctl : ∀ c, (m.ctl c).phase = .boot

/-- The CPU executes on the kernel stack of a thread. -/
def OnStack (m : Machine Cpu) (c : Cpu) (a : ThreadAddr Cpu) : Prop :=
  (m.ctl c).phase ≠ .boot ∧ (m.ctl c).stack = a

/-- No two CPUs execute on the kernel stack of one thread. -/
def Exclusive (m : Machine Cpu) : Prop :=
  ∀ c d a, OnStack m c a → OnStack m d a → c = d

/-- The threads a load balance between `c` and `o` takes: half the difference of the queue
lengths, from the front of the longer queue. -/
def taken (k : Kernel Cpu) (c o : Cpu) : List (ThreadAddr Cpu) :=
  (queue k c).take (((queue k c).length - (queue k o).length) / 2) ++
    (queue k o).take (((queue k o).length - (queue k c).length) / 2)

/-- The load balance takes no thread on whose stack a CPU still executes. -/
def Clear (m : Machine Cpu) : Act Cpu → Prop
  | .maybeLoadBalance c o => m.kernel.online o = true →
    ∀ e, (m.ctl e).phase ≠ .boot → (m.ctl e).stack ∉ taken m.kernel c o
  | _ => True

instance [Fintype Cpu] (m : Machine Cpu) : (a : Act Cpu) → Decidable (Clear m a)
  | .maybeLoadBalance c o => inferInstanceAs (Decidable (m.kernel.online o = true →
    ∀ e, (m.ctl e).phase ≠ .boot → (m.ctl e).stack ∉ taken m.kernel c o))
  | .setupTls .. | .forceSwitchToIdle .. | .spawnRaw .. | .addThread .. | .readyAdded ..
  | .entry .. | .switch .. | .exit .. => isTrue trivial

variable {m m' : Machine Cpu} {c o : Cpu}

lemma advance_ok {p : Phase} {a : Sched.Act Cpu} {f : Kernel Cpu → Ctl Cpu} :
    advance m c p a f = .ok m' ↔ (m.ctl c).phase = p ∧ ∃ k, Sched.step m.kernel a = .ok k ∧
      m' = ⟨k, Function.update m.ctl c (f k)⟩ := by
  unfold advance
  rw [bind_ok]
  simp only [guard_ok, bind_ok, Except.ok.injEq]
  constructor
  · rintro ⟨-, hp, k, hk, rfl⟩
    exact ⟨hp, k, hk, rfl⟩
  · rintro ⟨hp, k, hk, rfl⟩
    exact ⟨(), hp, k, hk, rfl⟩

/-! ### Where the stacks are -/

variable [Fintype Cpu]

/-- A CPU executes on the stack of its current thread, or, between `switch` and the exit, on one
whose thread is its idle thread or waits in its own ready queue. -/
structure Standing (m : Machine Cpu) : Prop where
  placed : Placed m.kernel
  started : ∀ c, (m.ctl c).phase = .boot ↔ current m.kernel c = .null
  stack : ∀ c a, OnStack m c a → a = current m.kernel c ∨
    ((m.ctl c).phase = .switched ∨ (m.ctl c).phase = .balanced) ∧
      (a = .idle c ∨ a ∈ queue m.kernel c)

lemma Standing.exclusive (h : Standing m) : Exclusive m := by
  -- on CPU `c`, only its own idle thread or a thread that stands there
  have hwhere : ∀ c a, OnStack m c a → a = .idle c ∨ ∃ i, a = .slot i ∧ 0 < here m.kernel c a := by
    intro c a ha
    rcases h.stack c a ha with rfl | ⟨-, rfl | hq⟩
    · rcases h.placed.current c with hc | hc | ⟨i, hc⟩
      · exact absurd ((h.started c).mpr hc) ha.1
      · exact .inl hc
      · exact .inr ⟨i, hc, here_current_pos rfl⟩
    · exact .inl rfl
    · obtain ⟨i, rfl⟩ := h.placed.slots c a hq
      exact .inr ⟨i, rfl, here_queue_pos hq⟩
  intro c d a hc hd
  rcases hwhere c a hc with rfl | ⟨i, rfl, hi⟩
  · rcases hwhere d _ hd with he | ⟨i, he, -⟩
    · cases he
      rfl
    · cases he
  · rcases hwhere d _ hd with he | ⟨j, he, hj⟩
    · cases he
    · exact h.placed.here_unique hi hj

/-- What has to be shown of a step of CPU `c`: on the others, that the current thread is the same
and no stack they execute on has left their queue; on `c`, where it executes now. -/
lemma Standing.next (h : Standing m) {k' : Kernel Cpu} {x : Ctl Cpu} (hp : Placed k')
    (hcur : ∀ e, e ≠ c → current k' e = current m.kernel e)
    (hq : ∀ e a, e ≠ c → OnStack m e a → a ∈ queue m.kernel e → a ∈ queue k' e)
    (hst : x.phase = .boot ↔ current k' c = .null)
    (hx : x.phase ≠ .boot → x.stack = current k' c ∨
      (x.phase = .switched ∨ x.phase = .balanced) ∧
        (x.stack = .idle c ∨ x.stack ∈ queue k' c)) :
    Standing ⟨k', Function.update m.ctl c x⟩ where
  placed := hp
  started e := by
    by_cases he : e = c
    · subst he
      simpa using hst
    · simp only [Function.update_of_ne he]
      rw [hcur e he]
      exact h.started e
  stack e a ha := by
    by_cases he : e = c
    · subst he
      obtain ⟨hne, rfl⟩ := ha
      simp only [Function.update_self] at hne ⊢
      exact hx hne
    · have ha' : OnStack m e a := by simpa [OnStack, he] using ha
      simp only [Function.update_of_ne he]
      rw [hcur e he]
      rcases h.stack e a ha' with h1 | ⟨h1, h2 | h2⟩
      · exact .inl h1
      · exact .inr ⟨h1, .inl h2⟩
      · exact .inr ⟨h1, .inr (hq e a he ha' h2)⟩

omit [DecidableEq Cpu] [Fintype Cpu] in
lemma queue_congr {k k' : Kernel Cpu} (h : k'.tls = k.tls) (e : Cpu) : queue k' e = queue k e := by
  rw [queue, h, queue]

omit [DecidableEq Cpu] [Fintype Cpu] in
lemma current_congr {k k' : Kernel Cpu} (h : k'.tls = k.tls) (e : Cpu) :
    current k' e = current k e := by
  rw [current, h, current]

/-- A step that leaves every ready queue and current thread alone and keeps CPU `c` where it is,
outside the part of the interrupt behind `switch`. -/
lemma Standing.same (h : Standing m) {k' : Kernel Cpu} {x : Ctl Cpu} (hp : Placed k')
    (ht : k'.tls = m.kernel.tls) (hx : x.stack = (m.ctl c).stack)
    (hb : x.phase = .boot ↔ (m.ctl c).phase = .boot)
    (hn : (m.ctl c).phase ≠ .switched ∧ (m.ctl c).phase ≠ .balanced) :
    Standing ⟨k', Function.update m.ctl c x⟩ := by
  refine h.next hp (fun e _ => current_congr ht e) (fun e a _ _ ha => ?_) ?_ fun hne => ?_
  · rwa [queue_congr ht]
  · rw [hb, h.started c, current_congr ht]
  · have hon : OnStack m c (m.ctl c).stack := ⟨fun h0 => hne (hb.mpr h0), rfl⟩
    rcases h.stack c _ hon with h1 | ⟨h1 | h1, -⟩
    · exact .inl (by rw [hx, h1, current_congr ht])
    · exact absurd h1 hn.1
    · exact absurd h1 hn.2

lemma Standing.boot (h : Boot m) : Standing m where
  placed := .boot h.kernel
  started c := by simp [h.ctl, current, h.kernel.tls]
  stack c a ha := absurd (h.ctl c) ha.1

lemma Standing.switch (h : Standing m) (hs : step m (.switch c) = .ok m') : Standing m' := by
  obtain ⟨hphase, k', hk, rfl⟩ := advance_ok.mp hs
  have hp' := h.placed.switch hk
  obtain ⟨hst, t, ht, rfl⟩ := step_switch hk
  obtain ⟨t', ht', -, hcase⟩ := switch_spec (h.placed.wf c) c
  rw [ht] at ht'
  cases ht'
  have hon : OnStack m c (m.ctl c).stack := ⟨by simp [hphase], rfl⟩
  have hstack : (m.ctl c).stack = current m.kernel c := by
    rcases h.stack c _ hon with h1 | ⟨h1 | h1, -⟩
    · exact h1
    · rw [hphase] at h1
      cases h1
    · rw [hphase] at h1
      cases h1
  refine h.next hp' (fun e he => by simp [current, he]) (fun e a he _ ha => ?_) ?_ fun _ => ?_
  · simpa [queue, he] using ha
  · simp only [reduceCtorEq, false_iff, current, Function.update_self]
    rcases hcase with ⟨-, rfl⟩ | ⟨rest, hl, -⟩
    · exact hst
    · obtain ⟨i, hi⟩ := h.placed.slots c t.threadAddr (by simp [queue, hl])
      simp [hi]
  · -- the thread preempted, whose stack this is, has gone back to the queue
    rw [hstack]
    simp only [current, queue, Function.update_self]
    rcases hcase with ⟨-, rfl⟩ | ⟨rest, -, hq⟩
    · exact .inl rfl
    · refine .inr ⟨.inl trivial, ?_⟩
      show (m.kernel.tls c).threadAddr = .idle c ∨ _
      by_cases hid : (m.kernel.tls c).threadAddr = .idle c
      · exact .inl hid
      · right
        rw [hq, if_neg hid]
        simp

omit [Fintype Cpu] in
/-- What a load balance takes is what `taken` says. -/
lemma taken_of_balanced {k k' : Kernel Cpu} {s d : Cpu} {n : ℕ} (h : Balanced k k' s d n)
    (hsd : s = c ∧ d = o ∨ s = o ∧ d = c) {a : ThreadAddr Cpu} (ha : a ∈ (queue k s).take n) :
    a ∈ taken k c o := by
  have hn : n = ((queue k s).length - (queue k d).length) / 2 := by
    have := h.lower
    have := h.upper
    omega
  rw [hn] at ha
  rcases hsd with ⟨rfl, rfl⟩ | ⟨rfl, rfl⟩
  · exact List.mem_append_left _ ha
  · exact List.mem_append_right _ ha

omit [Fintype Cpu] in
/-- A load balance keeps in its queue every thread it does not take. -/
lemma mem_queue_of_balanced {k k' : Kernel Cpu} {s d e : Cpu} {n : ℕ} (h : Balanced k k' s d n)
    {a : ThreadAddr Cpu} (ha : a ∈ queue k e) (hn : a ∉ (queue k s).take n) :
    a ∈ queue k' e := by
  by_cases hes : e = s
  · subst hes
    rw [← List.take_append_drop n (queue k e)] at ha
    rw [h.src]
    exact (List.mem_append.mp ha).resolve_left hn
  · by_cases hed : e = d
    · subst hed
      rw [h.dst]
      exact List.mem_append_left _ ha
    · rwa [queue, h.others e hes hed]

lemma Standing.maybeLoadBalance (h : Standing m) (hc : Clear m (.maybeLoadBalance c o))
    (hs : step m (.maybeLoadBalance c o) = .ok m') : Standing m' := by
  obtain ⟨hphase, k', hk, rfl⟩ := advance_ok.mp hs
  have hp' := h.placed.step hk
  obtain ⟨hst, hcase⟩ := step_maybeLoadBalance h.placed.wf hk
  have hon : OnStack m c (m.ctl c).stack := ⟨by simp [hphase], rfl⟩
  have hcur : ∀ e, current k' e = current m.kernel e := by
    rcases hcase with rfl | ⟨-, s, d, n, -, hB⟩
    · exact fun e => rfl
    · exact hB.current
  have hkeep : ∀ e a, OnStack m e a → a ∈ queue m.kernel e → a ∈ queue k' e := by
    rcases hcase with rfl | ⟨hon, s, d, n, hsd, hB⟩
    · exact fun e a _ ha => ha
    · intro e a he ha
      exact mem_queue_of_balanced hB ha fun ht =>
        hc hon e he.1 (he.2 ▸ taken_of_balanced hB hsd ht)
  refine h.next hp' (fun e _ => hcur e) (fun e a _ => hkeep e a) ?_ fun _ => ?_
  · rw [hcur]
    simpa using (show current m.kernel c ≠ .null from hst)
  · rcases h.stack c _ hon with h1 | ⟨-, h2 | h2⟩
    · exact .inl (by rw [hcur]; exact h1)
    · exact .inr ⟨.inr rfl, .inl h2⟩
    · exact .inr ⟨.inr rfl, .inr (hkeep c _ hon h2)⟩

lemma Standing.setupTls {base : UInt64} (h : Standing m)
    (hs : step m (.setupTls c base) = .ok m') : Standing m' := by
  obtain ⟨hphase, k', hk, rfl⟩ := advance_ok.mp hs
  obtain ⟨hoff, hk'⟩ := step_setupTls hk
  have ht : k'.tls = m.kernel.tls := by
    rw [hk', ← h.placed.offline c hoff]
    exact Function.update_eq_self c _
  exact h.same (h.placed.step hk) ht rfl Iff.rfl (by simp [hphase])

lemma Standing.forceSwitchToIdle (h : Standing m)
    (hs : step m (.forceSwitchToIdle c) = .ok m') : Standing m' := by
  obtain ⟨-, k', hk, rfl⟩ := advance_ok.mp hs
  have hp' := h.placed.step hk
  obtain ⟨-, -, rfl⟩ := step_forceSwitchToIdle hk
  refine h.next hp' (fun e he => by simp [current, he]) (fun e a he _ ha => ?_) ?_ fun _ => ?_
  · simpa [queue, he] using ha
  · simp [current]
  · exact .inl rfl

lemma Standing.readyAdded {n : ℕ} (h : Standing m) (hs : step m (.readyAdded c n) = .ok m') :
    Standing m' := by
  obtain ⟨hphase, k', hk, rfl⟩ := advance_ok.mp hs
  have hp' := h.placed.step hk
  obtain ⟨-, id, i, -, -, q, -, hq, rfl⟩ := step_readyAdded h.placed.wf hk
  have hon : OnStack m c (m.ctl c).stack := ⟨by simp [hphase], rfl⟩
  refine h.next hp' (fun e he => by simp [current, he]) (fun e a he _ ha => ?_) ?_ fun _ => ?_
  · simpa [queue, he] using ha
  · rw [h.started c]
    simp [current]
  · rcases h.stack c _ hon with h1 | ⟨h1 | h1, -⟩
    · exact .inl (by simpa [current] using h1)
    · simp [hphase] at h1
    · simp [hphase] at h1

lemma Standing.exit (h : Standing m) (hs : step m (.exit c) = .ok m') : Standing m' := by
  obtain ⟨_, hg, he⟩ := bind_ok.mp hs
  cases he
  have hne : current m.kernel c ≠ .null := fun h0 => by
    rw [← h.started c, guard_ok.mp hg] at h0
    cases h0
  refine h.next h.placed (fun e _ => rfl) (fun e a _ _ ha => ha) ?_ fun _ => .inl rfl
  simpa using hne

lemma Standing.step {a : Act Cpu} (h : Standing m) (hc : Clear m a) (hs : step m a = .ok m') :
    Standing m' := by
  cases a with
  | setupTls c base => exact h.setupTls hs
  | forceSwitchToIdle c => exact h.forceSwitchToIdle hs
  | spawnRaw c base =>
    obtain ⟨hphase, k', hk, rfl⟩ := advance_ok.mp hs
    refine h.same (h.placed.step hk) ?_ rfl Iff.rfl (by simp [hphase])
    rw [(step_spawnRaw hk).2.2]
  | addThread c n =>
    obtain ⟨hphase, k', hk, rfl⟩ := advance_ok.mp hs
    refine h.same (h.placed.step hk) ?_ rfl Iff.rfl (by simp [hphase])
    obtain ⟨-, t, -, rfl⟩ := step_addThread hk
    rfl
  | readyAdded c n => exact h.readyAdded hs
  | entry c rsp =>
    obtain ⟨hphase, k', hk, rfl⟩ := advance_ok.mp hs
    refine h.same (h.placed.step hk) ?_ rfl (by simp [hphase]) (by simp [hphase])
    rw [(step_saveRsp hk).2.2]
  | switch c => exact h.switch hs
  | maybeLoadBalance c o => exact h.maybeLoadBalance hc hs
  | exit c => exact h.exit hs

/-- **Kernel stacks are exclusive as long as balancing is clear.** In a run whose load balances
take no thread on whose stack a CPU still executes, no two CPUs ever execute on one stack. -/
theorem exclusive_of_clear {m₀ : Machine Cpu} {as : List (Act Cpu)} (h0 : Boot m₀)
    (hc : AllSteps step Clear m₀ as) (hr : run step m₀ as = .ok m) : Exclusive m :=
  have hstep : ∀ (s : Machine Cpu) a s', Standing s → Clear s a → step s a = .ok s' →
      Standing s' := fun _ _ _ h hc hs => h.step hc hs
  (run_keeps_of_allSteps hstep (Standing.boot h0) hc hr).exclusive

/-- A machine with `n` free frames, before any CPU has started. -/
def bootMachine (Cpu : Type) (n : ℕ) : Machine Cpu := ⟨bootKernel Cpu n, fun _ => ⟨.boot, .null⟩⟩

omit [DecidableEq Cpu] [Fintype Cpu] in
lemma boot_bootMachine {n : ℕ} (h : n < 4 * 2 ^ 64) : Boot (bootMachine Cpu n) :=
  ⟨boot_bootKernel h, fun _ => rfl⟩

/-- CPU `c` from `setup_tls` to its idle thread. -/
def start (c : Cpu) : List (Act Cpu) := [.setupTls c 0, .forceSwitchToIdle c]

/-- CPU `c` spawns a thread. -/
def spawn (c : Cpu) : List (Act Cpu) := [.spawnRaw c 0, .addThread c 0, .readyAdded c 0]

/-- A whole timer interrupt of CPU `c`, balancing with `o`. -/
def tick (c o : Cpu) : List (Act Cpu) :=
  [.entry c 0, .switch c, .maybeLoadBalance c o, .exit c]

theorem exclusive_of_clear_two :
    ∃ m : Machine (Fin 2), run step (bootMachine (Fin 2) 64)
      (start 0 ++ start 1 ++ spawn 0 ++ spawn 0 ++ tick 1 0 ++ tick 1 1) = .ok m ∧
      (m.ctl 1).stack = .slot 0 ∧ Exclusive m := by
  obtain ⟨m, hm, hs⟩ := exists_run_of_map (f := fun m => (m.ctl 1).stack) (c := .slot 0)
    (show (run step (bootMachine (Fin 2) 64)
      (start 0 ++ start 1 ++ spawn 0 ++ spawn 0 ++ tick 1 0 ++ tick 1 1)).map _ = _ by rfl)
  exact ⟨m, hm, hs, exclusive_of_clear (boot_bootMachine (by decide)) (by decide +kernel) hm⟩

/-- CPU `c` preempts the thread in slot 0 and stays behind `switch`. The balance of CPU `d` makes
its queue long enough for that of CPU `e` to take the thread, which the next tick of CPU `e`
resumes. -/
def race (c d e : Cpu) : List (Act Cpu) :=
  start c ++ start d ++ start e ++ spawn c ++ tick c c ++ spawn c ++
    spawn d ++ spawn d ++ spawn d ++ spawn d ++
    [.entry c 0, .switch c] ++ tick d c ++ tick e c ++ tick e e

/-- Two CPUs can come to execute on one kernel stack. -/
theorem exclusive_fails : ∃ m : Machine (Fin 3), Reachable step Boot m ∧ ¬ Exclusive m := by
  obtain ⟨m, hm, hs⟩ := exists_run_of_map (f := fun m => (m.ctl 0, m.ctl 2))
    (c := (⟨.switched, .slot 0⟩, ⟨.thread, .slot 0⟩))
    (show (run step (bootMachine (Fin 3) 64) (race 0 1 2)).map _ = _ by rfl)
  obtain ⟨h0, h2⟩ := Prod.mk.injEq .. ▸ hs
  have hon0 : OnStack m 0 (.slot 0) := by simp [OnStack, h0]
  have hon2 : OnStack m 2 (.slot 0) := by simp [OnStack, h2]
  exact ⟨m, ⟨_, _, boot_bootMachine (by decide), hm⟩, fun he =>
    absurd (he 0 2 _ hon0 hon2) (by decide)⟩

end OsRust.Stacks
