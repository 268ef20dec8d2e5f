import OsRust.Stacks
import OsRust.Slots

/-!
`current_thread_id` in its three steps: it reads GsBase, the `thread_addr` of the TLS page there,
and the `id` of the thread at that address. The timer can interrupt a thread between any two of
them, and the thread may go on with the next one on another CPU.
-/

namespace OsRust.CurrentThread

open OsRust.Ring OsRust.Task OsRust.Sched OsRust.Effects OsRust.ThreadIds OsRust.Placement
open OsRust.Slots OsRust.Stacks OsRust.Lib.Machine

/-- What a thread has in its registers in the middle of a call. -/
inductive Progress (Cpu : Type*)
  | outside
  /-- the TLS page of this CPU -/
  | gsBase (tls : Cpu)
  /-- an address read from the TLS page of one CPU, on another or the same one -/
  | threadAddr (tls readOn : Cpu) (addr : ThreadAddr Cpu)
  deriving DecidableEq

/-- A call that has returned. -/
structure Return (Cpu : Type*) where
  caller : ThreadAddr Cpu
  tls : Cpu
  readOn : Cpu
  id : UInt64
  deriving DecidableEq

structure State (Cpu : Type*) where
  machine : Machine Cpu
  /-- The registers of a thread are its own, wherever it runs. -/
  call : ThreadAddr Cpu → Progress Cpu
  returned : List (Return Cpu)

inductive Act (Cpu : Type*)
  | system (a : Stacks.Act Cpu)
  | readGsBase (c : Cpu)
  | readThreadAddr (c : Cpu)
  | readId (c : Cpu)

variable {Cpu : Type} [DecidableEq Cpu]

omit [DecidableEq Cpu] in
/-- `(*thread).id` -/
def idAt (k : Kernel Cpu) (a : ThreadAddr Cpu) : Option UInt64 := (k.threads.get? a).map Thread.id

/-- The thread on whose stack the CPU is goes on to `p`. -/
def State.goto (s : State Cpu) (c : Cpu) (p : Progress Cpu) : State Cpu :=
  { s with call := Function.update s.call (s.machine.ctl c).stack p }

def step (s : State Cpu) : Act Cpu → Res (State Cpu)
  | .system a => do
    let m ← Stacks.step s.machine a
    .ok { s with machine := m }
  | .readGsBase c => do
    guard ((s.machine.ctl c).phase = .thread ∧ s.call (s.machine.ctl c).stack = .outside)
    .ok (s.goto c (.gsBase c))
  | .readThreadAddr c => do
    guard ((s.machine.ctl c).phase = .thread)
    match s.call (s.machine.ctl c).stack with
    | .gsBase d => .ok (s.goto c (.threadAddr d c (current s.machine.kernel d)))
    | _ => .error .blocked
  | .readId c => do
    guard ((s.machine.ctl c).phase = .thread)
    match s.call (s.machine.ctl c).stack with
    | .threadAddr d e b =>
      match idAt s.machine.kernel b with
      | none => .error .undef
      | some id =>
        .ok { s.goto c .outside with
          returned := ⟨(s.machine.ctl c).stack, d, e, id⟩ :: s.returned }
    | _ => .error .blocked

lemma goto_call (s : State Cpu) (c : Cpu) (p : Progress Cpu) (a : ThreadAddr Cpu) :
    (s.goto c p).call a = if a = (s.machine.ctl c).stack then p else s.call a :=
  Function.update_apply ..

structure Boot (s : State Cpu) : Prop where
  machine : Stacks.Boot s.machine
  call : ∀ a, s.call a = .outside
  returned : s.returned = []

/-- The address is read on the CPU whose TLS page it is read from. -/
def Unmoved (s : State Cpu) : Act Cpu → Prop
  | .readThreadAddr c => ∀ d, s.call (s.machine.ctl c).stack = .gsBase d → d = c
  | _ => True

variable {k k' : Kernel Cpu} {m m' : Machine Cpu} {s s' : State Cpu} {c d : Cpu}
  {a b : ThreadAddr Cpu} {v w : UInt64}

/-! ### Current threads -/

section Current

variable [Fintype Cpu]

/-- What a step of the kernel can do to the current thread of a CPU. -/
lemma current_step {x : Sched.Act Cpu} (h : Placed k) (hs : Sched.step k x = .ok k') (e : Cpu) :
    current k' e = current k e ∨ (x = .forceSwitchToIdle e ∧ current k' e = .idle e) ∨
      x = .switch e ∧ current k' e ≠ .null := by
  cases x with
  | allocFrame =>
    obtain ⟨-, rfl⟩ := step_allocFrame hs
    exact .inl rfl
  | setupTls c base =>
    obtain ⟨hoff, rfl⟩ := step_setupTls hs
    left
    by_cases he : e = c
    · subst he
      simp [current, h.offline e hoff]
    · simp [current, he]
  | forceSwitchToIdle c =>
    obtain ⟨-, -, rfl⟩ := step_forceSwitchToIdle hs
    by_cases he : e = c
    · subst he
      exact .inr (.inl ⟨rfl, by simp [current]⟩)
    · exact .inl (by simp [current, he])
  | spawnRaw c base =>
    obtain ⟨-, -, rfl⟩ := step_spawnRaw hs
    exact .inl rfl
  | addThread c n =>
    obtain ⟨-, t, -, rfl⟩ := step_addThread hs
    exact .inl rfl
  | readyAdded c n =>
    obtain ⟨-, id, i, -, -, q, -, -, rfl⟩ := step_readyAdded h.wf hs
    left
    by_cases he : e = c
    · subst he
      simp [current]
    · simp [current, he]
  | saveRsp c rsp =>
    obtain ⟨-, -, rfl⟩ := step_saveRsp hs
    exact .inl rfl
  | switch c =>
    have h' := h.switch hs
    obtain ⟨hst, t, ht, rfl⟩ := step_switch hs
    by_cases he : e = c
    · subst he
      obtain ⟨t', ht', -, hcase⟩ := switch_spec (h.wf e) e
      rw [ht] at ht'
      cases ht'
      refine .inr (.inr ⟨rfl, ?_⟩)
      simp only [current, Function.update_self]
      rcases hcase with ⟨-, rfl⟩ | ⟨rest, hl, -⟩
      · exact hst
      · obtain ⟨i, hi⟩ := h.slots e t.threadAddr (by simp [queue, hl])
        simp [hi]
    · exact .inl (by simp [current, he])
  | maybeLoadBalance c o =>
    obtain ⟨-, rfl | ⟨-, s, d, n, -, hB⟩⟩ := step_maybeLoadBalance h.wf hs
    · exact .inl rfl
    · exact .inl (hB.current e)

/-- A CPU that runs threads runs its current one. -/
structure Running (m : Machine Cpu) : Prop where
  placed : Placed m.kernel
  started : ∀ c, (m.ctl c).phase = .boot ↔ current m.kernel c = .null
  stack : ∀ c, (m.ctl c).phase = .thread → (m.ctl c).stack = current m.kernel c

lemma current_other {x : Sched.Act Cpu} (h : Placed k) (hs : Sched.step k x = .ok k') {e : Cpu}
    (hidle : x ≠ .forceSwitchToIdle e) (hswitch : x ≠ .switch e) :
    current k' e = current k e := by
  rcases current_step h hs e with he | ⟨hx, -⟩ | ⟨hx, -⟩
  · exact he
  · exact absurd hx hidle
  · exact absurd hx hswitch

lemma Running.boot (h : Stacks.Boot m) : Running m where
  placed := .boot h.kernel
  started c := by simp [h.ctl, current, h.kernel.tls]
  stack c hc := by simp [h.ctl] at hc

/-- What has to be shown of a step of CPU `c`. -/
lemma Running.next (h : Running m) {y : Ctl Cpu} (hp : Placed k')
    (hcur : ∀ e, e ≠ c → current k' e = current m.kernel e)
    (hst : y.phase = .boot ↔ current k' c = .null)
    (hy : y.phase = .thread → y.stack = current k' c) :
    Running ⟨k', Function.update m.ctl c y⟩ where
  placed := hp
  started e := by
    by_cases he : e = c
    · subst he
      simpa using hst
    · simp only [Function.update_of_ne he]
      rw [hcur e he]
      exact h.started e
  stack e := by
    by_cases he : e = c
    · subst he
      simpa using hy
    · simp only [Function.update_of_ne he]
      rw [hcur e he]
      exact h.stack e

/-- A step that switches no thread, from one phase to another that is not `thread` unless that was
the phase before. -/
lemma Running.advance {p q : Phase} {x : Sched.Act Cpu} {f : Kernel Cpu → Ctl Cpu} (h : Running m)
    (hs : Stacks.advance m c p x f = .ok m') (hf : ∀ k', f k' = ⟨q, (m.ctl c).stack⟩)
    (hpq : p = .boot ↔ q = .boot) (hq : q = .thread → p = .thread)
    (hx : ∀ e, x ≠ .forceSwitchToIdle e ∧ x ≠ .switch e) : Running m' := by
  obtain ⟨hphase, k', hk, rfl⟩ := advance_ok.mp hs
  have hcur : ∀ e, current k' e = current m.kernel e :=
    fun e => current_other h.placed hk (hx e).1 (hx e).2
  rw [hf]
  refine h.next (h.placed.step hk) (fun e _ => hcur e) ?_ fun hthread => ?_
  · rw [hcur, ← h.started c, hphase, hpq]
  · rw [hcur]
    exact h.stack c (hphase.trans (hq hthread))

lemma Running.step {x : Stacks.Act Cpu} (h : Running m) (hs : Stacks.step m x = .ok m') :
    Running m' := by
  cases x with
  | setupTls c base =>
    have hboot := (advance_ok.mp hs).1
    refine h.advance (q := .boot) hs (fun _ => ?_) Iff.rfl (by simp) (by simp)
    rw [← hboot]
  | forceSwitchToIdle c =>
    obtain ⟨-, k', hk, rfl⟩ := advance_ok.mp hs
    have hidle : current k' c = .idle c := by
      obtain ⟨-, -, rfl⟩ := step_forceSwitchToIdle hk
      simp [current]
    refine h.next (h.placed.step hk)
      (fun e he => current_other h.placed hk (by simp [he.symm]) (by simp)) ?_ fun _ => rfl
    simp [hidle]
  | spawnRaw c base =>
    have hthread := (advance_ok.mp hs).1
    refine h.advance (q := .thread) hs (fun _ => ?_) (by simp) (by simp) (by simp)
    rw [← hthread]
  | addThread c n =>
    have hthread := (advance_ok.mp hs).1
    refine h.advance (q := .thread) hs (fun _ => ?_) (by simp) (by simp) (by simp)
    rw [← hthread]
  | readyAdded c n =>
    have hthread := (advance_ok.mp hs).1
    refine h.advance (q := .thread) hs (fun _ => ?_) (by simp) (by simp) (by simp)
    rw [← hthread]
  | entry c rsp =>
    exact h.advance (q := .entered) hs (fun _ => rfl) (by simp) (by simp) (by simp)
  | switch c =>
    obtain ⟨hphase, k', hk, rfl⟩ := advance_ok.mp hs
    refine h.next (h.placed.step hk)
      (fun e he => current_other h.placed hk (by simp) (by simp [he.symm])) ?_ (by simp)
    have hst := (h.started c).not.mp (by simp [hphase])
    rcases current_step h.placed hk c with he | ⟨hx, -⟩ | ⟨-, hne⟩
    · simp [he, hst]
    · cases hx
    · simp [hne]
  | maybeLoadBalance c o =>
    exact h.advance (q := .balanced) hs (fun _ => rfl) (by simp) (by simp) (by simp)
  | exit c =>
    obtain ⟨_, hg, he⟩ := bind_ok.mp hs
    cases he
    have hphase := guard_ok.mp hg
    refine h.next h.placed (fun _ _ => rfl) ?_ fun _ => rfl
    rw [← h.started c, hphase]
    simp

/-! ### Identifiers -/

/-- The thread at the address has this identifier, now and from now on. -/
structure HasId (k : Kernel Cpu) (a : ThreadAddr Cpu) (v : UInt64) : Prop where
  idAt : idAt k a = some v
  online : ∀ d, a = .idle d → k.online d = true

/-- The identifier of an idle thread is what it was, or its CPU has just come online. -/
lemma idle_step {x : Sched.Act Cpu} (h : Placed k) (hs : Sched.step k x = .ok k') (d : Cpu) :
    (k'.online d = k.online d ∧ (k'.threads.idle d).id = (k.threads.idle d).id) ∨
      k.online d = false ∧ k'.online d = true ∧ (k'.threads.idle d).id = 0 := by
  cases x with
  | allocFrame =>
    obtain ⟨-, rfl⟩ := step_allocFrame hs
    exact .inl ⟨rfl, rfl⟩
  | setupTls c base =>
    obtain ⟨hoff, rfl⟩ := step_setupTls hs
    by_cases hd : d = c
    · subst hd
      exact .inr ⟨hoff, by simp, by simp [newIdle]⟩
    · exact .inl ⟨by simp [hd], by simp [hd]⟩
  | forceSwitchToIdle c =>
    obtain ⟨-, -, rfl⟩ := step_forceSwitchToIdle hs
    exact .inl ⟨rfl, rfl⟩
  | spawnRaw c base =>
    obtain ⟨-, -, rfl⟩ := step_spawnRaw hs
    exact .inl ⟨rfl, rfl⟩
  | addThread c n =>
    obtain ⟨-, t, -, rfl⟩ := step_addThread hs
    exact .inl ⟨rfl, rfl⟩
  | readyAdded c n =>
    obtain ⟨-, id, i, -, -, q, -, -, rfl⟩ := step_readyAdded h.wf hs
    exact .inl ⟨rfl, rfl⟩
  | saveRsp c rsp =>
    obtain ⟨-, -, rfl⟩ := step_saveRsp hs
    refine .inl ⟨rfl, ?_⟩
    cases current k c with
    | null => rfl
    | idle e =>
      simp only [Threads.modify]
      split
      · rfl
      · rfl
    | slot i => rfl
  | switch c =>
    obtain ⟨-, t, -, rfl⟩ := step_switch hs
    exact .inl ⟨rfl, rfl⟩
  | maybeLoadBalance c o =>
    obtain ⟨-, rfl | ⟨-, s, e, n, -, hB⟩⟩ := step_maybeLoadBalance h.wf hs
    · exact .inl ⟨rfl, rfl⟩
    · refine .inl ⟨by rw [hB.rest], ?_⟩
      have hthread := congrArg (Option.map Thread.id) (hB.threads (.idle d))
      split at hthread
      · exact Option.some.inj hthread
      · exact Option.some.inj hthread

lemma HasId.step {x : Sched.Act Cpu} (h : HasId k a v) (hp : Placed k)
    (hs : Sched.step k x = .ok k') : HasId k' a v := by
  cases a with
  | null => cases h.idAt
  | idle d =>
    have hon := h.online d rfl
    rcases idle_step hp hs d with ⟨hon', hid⟩ | ⟨hoff, -⟩
    · refine ⟨?_, fun e he => ?_⟩
      · have hv : some (k.threads.idle d).id = some v := h.idAt
        rw [← hid] at hv
        exact hv
      · cases he
        rw [hon', hon]
    · rw [hoff] at hon
      cases hon
  | slot i =>
    obtain ⟨t, ht, hid⟩ := Option.map_eq_some_iff.mp h.idAt
    have hocc : occupant k i = some (v, t.kernelStack) := by
      have hget : k.threads.table.get? i = some t := ht
      rw [occupant, hget, Option.map_some, hid]
    obtain ⟨u, hu, he⟩ := Option.map_eq_some_iff.mp (occupant_step hp.wf hs hocc)
    refine ⟨?_, fun d hd => by cases hd⟩
    have hget : k'.threads.get? (.slot i) = some u := hu
    rw [CurrentThread.idAt, hget, Option.map_some, (Prod.mk.inj he).1]

/-- The identifier of the idle threads. -/
def IdleIds (k : Kernel Cpu) : Prop := ∀ d, k.online d = true → (k.threads.idle d).id = 0

lemma IdleIds.step {x : Sched.Act Cpu} (h : IdleIds k) (hp : Placed k)
    (hs : Sched.step k x = .ok k') : IdleIds k' := by
  intro d hd
  rcases idle_step hp hs d with ⟨hon, hid⟩ | ⟨-, -, hid⟩
  · rw [hid]
    exact h d (hon ▸ hd)
  · exact hid

/-- Current threads of different CPUs have different identifiers, unless one is null. -/
lemma current_ids (hp : Placed k) (hi : IdleIds k) (hne : c ≠ d) {i : ℕ}
    (hc : current k c = .slot i) (hd : current k d ≠ .null) :
    ∃ v w, HasId k (current k c) v ∧ HasId k (current k d) w ∧ w ≠ v := by
  obtain ⟨t, ht, -⟩ := hp.recorded c i (here_current_pos hc)
  have hview : view k i = some (t.id, t.schedState.state) := by rw [view, ht, Option.map_some]
  have hcid : HasId k (current k c) t.id := by
    rw [hc]
    exact ⟨by rw [idAt, ht, Option.map_some], fun e he => by cases he⟩
  rcases hp.current d with hnull | hidle | ⟨j, hj⟩
  · exact absurd hnull hd
  · have hon : k.online d = true := hp.online hd
    refine ⟨t.id, 0, hcid, ?_, ?_⟩
    · rw [hidle]
      refine ⟨?_, fun e he => ?_⟩
      · show some (k.threads.idle d).id = some 0
        rw [hi d hon]
      · cases he
        exact hon
    · -- identifiers of spawned threads are not zero
      intro h0
      have hpos := (hp.ids.table i _ _ hview).1
      rw [← h0] at hpos
      cases hpos
  · obtain ⟨u, hu, -⟩ := hp.recorded d j (here_current_pos hj)
    have hview' : view k j = some (u.id, u.schedState.state) := by rw [view, hu, Option.map_some]
    refine ⟨t.id, u.id, hcid, ?_, fun he => hne ?_⟩
    · rw [hj]
      exact ⟨by rw [idAt, hu, Option.map_some], fun e he => by cases he⟩
    · have hij := hp.ids.inj j i u.id _ _ hview' (he ▸ hview)
      subst hij
      exact hp.here_unique (here_current_pos hc) (here_current_pos hj)

/-! ### Calls -/

omit [Fintype Cpu] in
/-- A step of the machine is one of the kernel, or leaves the kernel alone. -/
lemma kernel_cases {x : Stacks.Act Cpu} (hs : Stacks.step m x = .ok m') :
    m'.kernel = m.kernel ∨ ∃ y, Sched.step m.kernel y = .ok m'.kernel := by
  have hadvance : ∀ {c p y f}, Stacks.advance m c p y f = .ok m' →
      m'.kernel = m.kernel ∨ ∃ y, Sched.step m.kernel y = .ok m'.kernel := by
    intro c p y f hs
    obtain ⟨-, k', hk, rfl⟩ := advance_ok.mp hs
    exact .inr ⟨y, hk⟩
  cases x with
  | exit c =>
    obtain ⟨_, -, he⟩ := bind_ok.mp hs
    cases he
    exact .inl rfl
  | setupTls c base => exact hadvance hs
  | forceSwitchToIdle c => exact hadvance hs
  | spawnRaw c base => exact hadvance hs
  | addThread c n => exact hadvance hs
  | readyAdded c n => exact hadvance hs
  | entry c rsp => exact hadvance hs
  | switch c => exact hadvance hs
  | maybeLoadBalance c o => exact hadvance hs

/-- A CPU that has started stays so. -/
lemma started_step {x : Sched.Act Cpu} (hp : Placed k) (hs : Sched.step k x = .ok k')
    (hd : current k d ≠ .null) : current k' d ≠ .null := by
  rcases current_step hp hs d with he | ⟨-, he⟩ | ⟨-, he⟩
  · rwa [he]
  · simp [he]
  · exact he

/-- Where a call is in between, and what came of those that have returned. -/
structure Calls (s : State Cpu) : Prop where
  gsBase : ∀ a d, s.call a = .gsBase d →
    current s.machine.kernel d ≠ .null ∧ (a = .idle d ∨ ∃ i, a = .slot i)
  threadAddr : ∀ a d e b, s.call a = .threadAddr d e b → ∃ v w,
    HasId s.machine.kernel a v ∧ HasId s.machine.kernel b w ∧ (w = v ↔ d = e)
  returned : ∀ r ∈ s.returned, ∃ v,
    HasId s.machine.kernel r.caller v ∧ (r.id = v ↔ r.tls = r.readOn)

structure Inv (s : State Cpu) : Prop where
  running : Running s.machine
  idle : IdleIds s.machine.kernel
  calls : Calls s

lemma Calls.system (h : Inv s) {x : Stacks.Act Cpu} (hs : Stacks.step s.machine x = .ok m) :
    IdleIds m.kernel ∧ Calls { s with machine := m } := by
  have hp := h.running.placed
  rcases kernel_cases hs with he | ⟨y, hy⟩
  · constructor
    · rw [he]
      exact h.idle
    · exact ⟨by simpa only [he] using h.calls.gsBase, by simpa only [he] using h.calls.threadAddr,
        by simpa only [he] using h.calls.returned⟩
  · refine ⟨h.idle.step hp hy, fun a d ha => ?_, fun a d e b ha => ?_, fun r hr => ?_⟩
    · obtain ⟨hd, hor⟩ := h.calls.gsBase a d ha
      exact ⟨started_step hp hy hd, hor⟩
    · obtain ⟨v, w, hv, hw, hiff⟩ := h.calls.threadAddr a d e b ha
      exact ⟨v, w, hv.step hp hy, hw.step hp hy, hiff⟩
    · obtain ⟨v, hv, hiff⟩ := h.calls.returned r hr
      exact ⟨v, hv.step hp hy, hiff⟩

omit [Fintype Cpu] in
/-- A thread that goes on with its call: the other threads have not moved. -/
lemma Calls.goto {p : Progress Cpu} (h : Calls s)
    (hgs : ∀ d, p = .gsBase d → current s.machine.kernel d ≠ .null ∧
      ((s.machine.ctl c).stack = .idle d ∨ ∃ i, (s.machine.ctl c).stack = .slot i))
    (haddr : ∀ d e b, p = .threadAddr d e b → ∃ v w,
      HasId s.machine.kernel (s.machine.ctl c).stack v ∧ HasId s.machine.kernel b w ∧
        (w = v ↔ d = e)) : Calls (s.goto c p) where
  gsBase a d ha := by
    rw [goto_call] at ha
    split at ha
    · next he =>
      subst he
      exact hgs d ha
    · exact h.gsBase a d ha
  threadAddr a d e b ha := by
    rw [goto_call] at ha
    split at ha
    · next he =>
      subst he
      exact haddr d e b ha
    · exact h.threadAddr a d e b ha
  returned := h.returned

omit [Fintype Cpu] in
/-- The three steps of a call and where they lead. -/
lemma call_cases {x : Act Cpu} (hs : step s x = .ok s') :
    (∃ y m, x = .system y ∧ Stacks.step s.machine y = .ok m ∧ s' = { s with machine := m }) ∨
      ∃ c, (s.machine.ctl c).phase = .thread ∧
        ((x = .readGsBase c ∧ s' = s.goto c (.gsBase c)) ∨
          (∃ d, x = .readThreadAddr c ∧ s.call (s.machine.ctl c).stack = .gsBase d ∧
            s' = s.goto c (.threadAddr d c (current s.machine.kernel d))) ∨
          ∃ d e b id, x = .readId c ∧ s.call (s.machine.ctl c).stack = .threadAddr d e b ∧
            idAt s.machine.kernel b = some id ∧
            s' = { s.goto c .outside with
              returned := ⟨(s.machine.ctl c).stack, d, e, id⟩ :: s.returned }) := by
  cases x with
  | system y =>
    obtain ⟨m, hm, hs⟩ := bind_ok.mp hs
    cases hs
    exact .inl ⟨y, m, rfl, hm, rfl⟩
  | readGsBase c =>
    obtain ⟨_, hg, hs⟩ := bind_ok.mp hs
    cases hs
    exact .inr ⟨c, (guard_ok.mp hg).1, .inl ⟨rfl, rfl⟩⟩
  | readThreadAddr c =>
    obtain ⟨_, hg, hs⟩ := bind_ok.mp hs
    split at hs
    · next d hd =>
      cases hs
      exact .inr ⟨c, guard_ok.mp hg, .inr (.inl ⟨d, rfl, hd, rfl⟩)⟩
    · cases hs
  | readId c =>
    obtain ⟨_, hg, hs⟩ := bind_ok.mp hs
    split at hs
    · next d e b hb =>
      split at hs
      · cases hs
      · next id hid =>
        cases hs
        exact .inr ⟨c, guard_ok.mp hg, .inr (.inr ⟨d, e, b, id, rfl, hb, hid, rfl⟩)⟩
    · cases hs

/-- Where the thread runs whose address is read, its identifier is the one of the caller. -/
lemma Inv.readThreadAddr (h : Inv s) (hphase : (s.machine.ctl c).phase = .thread)
    (hd : s.call (s.machine.ctl c).stack = .gsBase d) :
    ∃ v w, HasId s.machine.kernel (s.machine.ctl c).stack v ∧
      HasId s.machine.kernel (current s.machine.kernel d) w ∧ (w = v ↔ d = c) := by
  have hp := h.running.placed
  obtain ⟨hstarted, hor⟩ := h.calls.gsBase _ d hd
  have hstack := h.running.stack c hphase
  rw [hstack] at hor ⊢
  by_cases hdc : d = c
  · subst hdc
    obtain ⟨v, hv⟩ : ∃ v, HasId s.machine.kernel (current s.machine.kernel d) v := by
      rcases hp.current d with hnull | hidle | ⟨i, hi⟩
      · exact absurd hnull hstarted
      · refine ⟨(s.machine.kernel.threads.idle d).id, ?_, fun e he => ?_⟩
        · rw [hidle]
          rfl
        · rw [hidle] at he
          cases he
          exact hp.online hstarted
      · obtain ⟨t, ht, -⟩ := hp.recorded d i (here_current_pos hi)
        rw [hi]
        exact ⟨t.id, by rw [idAt, ht, Option.map_some], fun e he => by cases he⟩
    exact ⟨v, v, hv, hv, iff_of_true rfl rfl⟩
  · rcases hor with hidle | ⟨i, hi⟩
    · -- the idle thread of one CPU is never current on another
      rcases hp.current c with hc | hc | ⟨i, hc⟩
      · rw [hidle] at hc
        cases hc
      · rw [hidle] at hc
        cases hc
        exact absurd rfl hdc
      · rw [hidle] at hc
        cases hc
    · obtain ⟨v, w, hv, hw, hne⟩ := current_ids hp h.idle (Ne.symm hdc) hi hstarted
      exact ⟨v, w, hv, hw, iff_of_false hne hdc⟩

lemma Inv.step {x : Act Cpu} (h : Inv s) (hs : step s x = .ok s') : Inv s' := by
  rcases call_cases hs with ⟨y, m, -, hm, rfl⟩ | ⟨c, hphase, ⟨-, rfl⟩ | ⟨d, -, hd, rfl⟩ |
    ⟨d, e, b, id, -, hb, hid, rfl⟩⟩
  · obtain ⟨hidle, hcalls⟩ := Calls.system h hm
    exact ⟨h.running.step hm, hidle, hcalls⟩
  · refine ⟨h.running, h.idle, h.calls.goto (fun d hd => ?_) fun d e b hb => by cases hb⟩
    cases hd
    have hstarted := (h.running.started c).not.mp (by simp [hphase])
    rw [h.running.stack c hphase]
    rcases h.running.placed.current c with hnull | hor
    · exact absurd hnull hstarted
    · exact ⟨hstarted, hor⟩
  · refine ⟨h.running, h.idle, h.calls.goto (fun _ hd => by cases hd) fun d' e b hb => ?_⟩
    cases hb
    exact h.readThreadAddr hphase hd
  · obtain ⟨v, w, hv, hw, hiff⟩ := h.calls.threadAddr _ d e b hb
    have hgoto : Calls (s.goto c .outside) :=
      h.calls.goto (fun _ hd => by cases hd) fun _ _ _ hb => by cases hb
    refine ⟨h.running, h.idle, hgoto.gsBase, hgoto.threadAddr, fun r hr => ?_⟩
    rcases List.mem_cons.mp hr with rfl | hr
    · have hidw : id = w := Option.some.inj (hid.symm.trans hw.idAt)
      exact ⟨v, hv, hidw ▸ hiff⟩
    · exact h.calls.returned r hr

lemma Inv.boot (h : Boot s) : Inv s where
  running := .boot h.machine
  idle d hd := by simp [h.machine.kernel.online] at hd
  calls := by
    refine ⟨fun a d ha => ?_, fun a d e b ha => ?_, by simp [h.returned]⟩
    · rw [h.call] at ha
      cases ha
    · rw [h.call] at ha
      cases ha

/-- What was read from a TLS page was read on its CPU. -/
structure Stayed (s : State Cpu) : Prop where
  threadAddr : ∀ a d e b, s.call a = .threadAddr d e b → d = e
  returned : ∀ r ∈ s.returned, r.tls = r.readOn

omit [Fintype Cpu] in
lemma Stayed.step {x : Act Cpu} (h : Stayed s) (hu : Unmoved s x) (hs : step s x = .ok s') :
    Stayed s' := by
  have hgoto : ∀ {c p}, (∀ d e b, p = .threadAddr d e b → d = e) → Stayed (s.goto c p) := by
    refine fun {c p} hp => ⟨fun a d e b ha => ?_, h.returned⟩
    rw [goto_call] at ha
    split at ha
    · exact hp d e b ha
    · exact h.threadAddr a d e b ha
  rcases call_cases hs with ⟨y, m, -, -, rfl⟩ | ⟨c, -, ⟨-, rfl⟩ | ⟨d, rfl, hd, rfl⟩ |
    ⟨d, e, b, id, -, hb, -, rfl⟩⟩
  · exact ⟨h.threadAddr, h.returned⟩
  · exact hgoto fun _ _ _ hp => by cases hp
  · refine hgoto fun _ _ _ hp => ?_
    cases hp
    exact hu d hd
  · refine ⟨(hgoto fun _ _ _ hp => by cases hp).threadAddr, fun r hr => ?_⟩
    rcases List.mem_cons.mp hr with rfl | hr
    · exact h.threadAddr _ d e b hb
    · exact h.returned r hr

/-- **The current thread.** A call returns the identifier of its caller exactly when it read
`thread_addr` on the CPU whose TLS page it read it from; so all calls of a run do when they all read
it there. -/
theorem current_thread_id_iff {s₀ : State Cpu} {as : List (Act Cpu)} (h0 : Boot s₀)
    (hr : run step s₀ as = .ok s) :
    (∀ r ∈ s.returned, idAt s.machine.kernel r.caller = some r.id ↔ r.tls = r.readOn) ∧
      (AllSteps step Unmoved s₀ as →
        ∀ r ∈ s.returned, idAt s.machine.kernel r.caller = some r.id) := by
  have hinv : Inv s := run_keeps (fun _ _ _ h hs => h.step hs) (Inv.boot h0) hr
  have hiff : ∀ r ∈ s.returned, idAt s.machine.kernel r.caller = some r.id ↔ r.tls = r.readOn := by
    intro r hmem
    obtain ⟨v, hv, hiff⟩ := hinv.calls.returned r hmem
    rw [hv.idAt, Option.some.injEq, ← hiff, eq_comm]
  refine ⟨hiff, fun hall r hmem => (hiff r hmem).mpr ?_⟩
  have h0' : Stayed s₀ := by
    refine ⟨fun a d e b ha => ?_, by simp [h0.returned]⟩
    rw [h0.call] at ha
    cases ha
  exact (run_keeps_of_allSteps (fun _ _ _ h hu hs => h.step hu hs) h0' hall hr).returned r hmem

end Current

/-- The machine before any CPU has started, and no call. -/
def bootState (Cpu : Type) (n : ℕ) : State Cpu := ⟨bootMachine Cpu n, fun _ => .outside, []⟩

omit [DecidableEq Cpu] in
lemma boot_bootState {n : ℕ} (h : n < 4 * 2 ^ 64) : Boot (bootState Cpu n) :=
  ⟨boot_bootMachine h, fun _ => rfl, rfl⟩

def system (as : List (Stacks.Act Cpu)) : List (Act Cpu) := as.map .system

/-- Two CPUs, and three threads of which the first runs on `c`. -/
def threeThreads (c d : Cpu) : List (Act Cpu) :=
  system (start c ++ start d ++ spawn c ++ spawn c ++ spawn c ++ tick c c)

/-- The first thread reads GsBase on `c` and is preempted there; the balance of `d` takes it, and it
goes on on `d` with the TLS page of `c`. -/
def moved (c d : Cpu) : List (Act Cpu) :=
  threeThreads c d ++ [.readGsBase c] ++ system (tick c c ++ tick c c ++ tick d c ++ tick d d) ++
    [.readThreadAddr d, .readId d]

/-- The caller has identifier 1, and is told that it is 3. -/
theorem current_thread_id_fails : ∃ s : State (Fin 2), Reachable step Boot s ∧
    s.returned = [⟨.slot 0, 0, 1, 3⟩] ∧ idAt s.machine.kernel (.slot 0) = some 1 := by
  obtain ⟨s, hs, hf⟩ := exists_run_of_map
    (f := fun s => (s.returned, idAt s.machine.kernel (.slot 0)))
    (c := ([⟨.slot 0, 0, 1, 3⟩], some 1))
    (show (run step (bootState (Fin 2) 64) (moved 0 1)).map _ = _ by decide +kernel)
  obtain ⟨hret, hid⟩ := Prod.mk.inj hf
  exact ⟨s, ⟨_, _, boot_bootState (by decide), hs⟩, hret, hid⟩

/-- The same, but for the preemption, which comes before the first step of the call and once more
before the last. -/
def stayed (c d : Cpu) : List (Act Cpu) :=
  threeThreads c d ++ system (tick c c ++ tick c c ++ tick d c ++ tick d d) ++
    [.readGsBase d, .readThreadAddr d] ++ system (spawn d ++ tick d d ++ tick d d) ++ [.readId d]

theorem current_thread_id_iff_stayed : ∃ s : State (Fin 2),
    run step (bootState (Fin 2) 64) (stayed 0 1) = .ok s ∧ s.returned = [⟨.slot 0, 1, 1, 1⟩] ∧
      idAt s.machine.kernel (.slot 0) = some 1 := by
  obtain ⟨s, hs, hret⟩ := exists_run_of_map (f := fun s => s.returned)
    (c := [⟨.slot 0, 1, 1, 1⟩])
    (show (run step (bootState (Fin 2) 64) (stayed 0 1)).map _ = _ by decide +kernel)
  refine ⟨s, hs, hret, ?_⟩
  exact ((current_thread_id_iff (boot_bootState (by decide)) hs).1 ⟨.slot 0, 1, 1, 1⟩
    (by simp [hret])).mpr rfl

end OsRust.CurrentThread
