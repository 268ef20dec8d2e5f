import OsRust.Guarded
import OsRust.Levelled

/-!
Critical sections as single steps: every interleaving of the lock steps of the CPUs does to the
kernel what some interleaving of whole critical sections does.

A load balance is the one section in which the kernel changes more than once, and it counts as done
when it is decided how many threads are to be moved. Until it is through, the kernel is behind: the
threads still to be moved stand in their old queue, and name their old CPU.
-/

namespace OsRust.Atomic

open OsRust.Ring OsRust.Task OsRust.Sched OsRust.Effects OsRust.ThreadIds OsRust.Placement
open OsRust.Panics OsRust.Levelled OsRust.Locks OsRust.Deadlock OsRust.Progress OsRust.Protected
open OsRust.Guarded
open OsRust.Lib.Machine

variable {Cpu : Type}

/-- The critical section that takes effect with a step. -/
def effect (k : Kernel Cpu) (c : Cpu) : Op Cpu → List (Sched.Act Cpu)
  | .allocFrame => [.allocFrame]
  | .setupTls base => [.setupTls c base]
  | .forceSwitchToIdle => [.forceSwitchToIdle c]
  | .spawnRaw base => [.spawnRaw c base]
  | .addThread id => [.addThread c ((k.built.map Thread.id).idxOf id)]
  | .ready id _ => [.readyAdded c (k.added.idxOf id)]
  | .saveRsp rsp => [.saveRsp c rsp]
  | .switch => [.switch c]
  | .doLoadBalance o => [.maybeLoadBalance c o]
  | _ => []

def effects (m : Machine Cpu) : Locks.Act Cpu → List (Sched.Act Cpu)
  | .next c =>
    match (m.core c).code with
    | [] => []
    | op :: _ => effect m.kernel c op
  | _ => []

/-! ### The kernel ahead -/

/-- CPU `c` is in a load balance, with `n` threads still to be moved. -/
structure Moving (m : Machine Cpu) (c : Cpu) (n : ℕ) (s d : Cpu) : Prop where
  pos : 0 < n
  left : moves (m.core c).code = List.replicate n (s, d)

/-- The thread is still to be moved to the queue of `d`. -/
def Bound (m : Machine Cpu) (a : ThreadAddr Cpu) (d : Cpu) : Prop :=
  ∃ c n s, Moving m c n s d ∧ a ∈ (queue m.kernel s).take n

/-- No CPU moves threads from or to the queue of `e`. -/
def Still (m : Machine Cpu) (e : Cpu) : Prop := ∀ c n s d, Moving m c n s d → e ≠ s ∧ e ≠ d

/-- What load balancing leaves alone is the same. -/
structure Alike (k k' : Kernel Cpu) : Prop where
  counter : k'.threadIdCounter = k.threadIdCounter
  frames : k'.freeFrames = k.freeFrames
  online : k'.online = k.online
  built : k'.built = k.built
  added : k'.added = k.added
  current : ∀ e, current k' e = current k e

/-- `k` is the kernel as it will be when the load balances begun are through. -/
structure Ahead (m : Machine Cpu) (k : Kernel Cpu) : Prop where
  alike : Alike m.kernel k
  moved : ∀ c n s d, Moving m c n s d → s ≠ d ∧ n ≤ (queue m.kernel s).length ∧
    queue k s = (queue m.kernel s).drop n ∧
    queue k d = queue m.kernel d ++ (queue m.kernel s).take n
  still : ∀ e, Still m e → queue k e = queue m.kernel e
  recorded : ∀ a d, Bound m a d →
    k.threads.get? a = (m.kernel.threads.get? a).map (Thread.setCpu d)
  others : ∀ a, (∀ d, ¬ Bound m a d) → k.threads.get? a = m.kernel.threads.get? a

variable {m m' : Machine Cpu} {k k' : Kernel Cpu} {c d o s : Cpu} {n : ℕ} {a : ThreadAddr Cpu}
  {op : Op Cpu} {rest : List (Op Cpu)}

lemma Bound.mem (h : Bound m a d) : ∃ s, a ∈ queue m.kernel s := by
  obtain ⟨c, n, s, -, ha⟩ := h
  exact ⟨s, List.mem_of_mem_take ha⟩

lemma moving_congr (h : ∀ e, moves (m'.core e).code = moves (m.core e).code) :
    Moving m' c n s d ↔ Moving m c n s d :=
  ⟨fun hm => ⟨hm.pos, (h c).symm.trans hm.left⟩, fun hm => ⟨hm.pos, (h c).trans hm.left⟩⟩

lemma Moving.eq {n' : ℕ} {s' d' : Cpu} (h : Moving m c n' s' d')
    (hl : moves (m.core c).code = List.replicate n (s, d)) : n' = n ∧ s' = s ∧ d' = d := by
  have heq := h.left.symm.trans hl
  have hmem : (s', d') ∈ List.replicate n (s, d) := by
    rw [← heq]
    exact List.mem_replicate.mpr ⟨h.pos.ne', rfl⟩
  cases List.eq_of_mem_replicate hmem
  exact ⟨by simpa using congrArg List.length heq, rfl, rfl⟩

lemma Moving.of_core (h : Moving m c n s d) (hc : m'.core c = m.core c) : Moving m' c n s d :=
  ⟨h.pos, by rw [hc, h.left]⟩

/-- The identifiers and states of the threads are the same in both. -/
lemma Ahead.view (h : Ahead m k) (i : ℕ) : view k i = view m.kernel i := by
  unfold ThreadIds.view
  by_cases hb : ∃ d, Bound m (.slot i) d
  · obtain ⟨d, hb⟩ := hb
    rw [h.recorded _ d hb, Option.map_map]
    rfl
  · rw [h.others _ fun d hd => hb ⟨d, hd⟩]

/-- Both kernels take the same step, which changes no queue threads are moved from or to. A thread
still to be moved may be written to, but not so that it matters which CPU it names. -/
lemma Ahead.congr (h : Ahead m k) (hmv : ∀ e, moves (m'.core e).code = moves (m.core e).code)
    (halike : Alike m'.kernel k')
    (hq : ∀ e, queue m'.kernel e = queue m.kernel e ∧ queue k' e = queue k e ∨
      Still m e ∧ queue k' e = queue m'.kernel e)
    (ht : ∀ a, (∃ f : Thread Cpu → Thread Cpu, (∀ d t, f (t.setCpu d) = (f t).setCpu d) ∧
        m'.kernel.threads.get? a = (m.kernel.threads.get? a).map f ∧
        k'.threads.get? a = (k.threads.get? a).map f) ∨
      (∀ d, ¬ Bound m a d) ∧ k'.threads.get? a = m'.kernel.threads.get? a) : Ahead m' k' := by
  have hmoving : ∀ c n s d, Moving m' c n s d ↔ Moving m c n s d := fun _ _ _ _ => moving_congr hmv
  have hstill : ∀ e, Still m' e ↔ Still m e := fun e => by simp only [Still, hmoving]
  -- the queues threads are moved from or to
  have hends : ∀ c n s d, Moving m c n s d →
      (queue m'.kernel s = queue m.kernel s ∧ queue k' s = queue k s) ∧
        queue m'.kernel d = queue m.kernel d ∧ queue k' d = queue k d := fun c n s d hm =>
    ⟨(hq s).resolve_right fun hs => (hs.1 c n s d hm).1 rfl,
      (hq d).resolve_right fun hs => (hs.1 c n s d hm).2 rfl⟩
  have hbound : ∀ a d, Bound m' a d ↔ Bound m a d := by
    refine fun a d => ⟨?_, ?_⟩
    · rintro ⟨c, n, s, hm, ha⟩
      rw [hmoving] at hm
      rw [(hends c n s d hm).1.1] at ha
      exact ⟨c, n, s, hm, ha⟩
    · rintro ⟨c, n, s, hm, ha⟩
      rw [← (hends c n s d hm).1.1] at ha
      exact ⟨c, n, s, (hmoving c n s d).mpr hm, ha⟩
  refine ⟨halike, fun c n s d hm => ?_, fun e he => ?_, fun a d hb => ?_, fun a hb => ?_⟩
  · rw [hmoving] at hm
    obtain ⟨⟨hs, hs'⟩, hd, hd'⟩ := hends c n s d hm
    rw [hs, hs', hd, hd']
    exact h.moved c n s d hm
  · rw [hstill] at he
    rcases hq e with ⟨hκ, hk⟩ | ⟨-, hk⟩
    · rw [hκ, hk, h.still e he]
    · exact hk
  · rw [hbound] at hb
    rcases ht a with ⟨f, hf, hκ, hk⟩ | ⟨hnot, -⟩
    · rw [hκ, hk, h.recorded a d hb, Option.map_map, Option.map_map]
      congr 1
      exact funext (hf d)
    · exact absurd hb (hnot d)
  · simp only [hbound] at hb
    rcases ht a with ⟨f, -, hκ, hk⟩ | ⟨-, hk⟩
    · rw [hκ, hk, h.others a hb]
    · exact hk

/-- A step that leaves the kernel and the moves left alone. -/
lemma Ahead.same (h : Ahead m k) (hk : m'.kernel = m.kernel)
    (hmv : ∀ e, moves (m'.core e).code = moves (m.core e).code) : Ahead m' k := by
  refine h.congr hmv (hk ▸ h.alike) (fun e => .inl ⟨by rw [hk], rfl⟩) fun a => .inl ⟨id, ?_⟩
  simp [hk]

/-! ### The same step of both kernels -/

variable [LinearOrder Cpu] [Fintype Cpu]

/-- A thread still to be moved stands in a queue, and so in the table. -/
lemma Bound.slot (h : Bound m a d) (hp : Placed m.kernel) :
    ∃ i, a = .slot i ∧ isReady m.kernel i = true := by
  obtain ⟨s, hs⟩ := h.mem
  obtain ⟨i, rfl⟩ := hp.slots s a hs
  exact ⟨i, rfl, hp.ready_of_here (here_queue_pos hs)⟩

/-- A CPU moves threads between queues it has locked. -/
lemma Moving.locked (h : Moving m c n s d) (ho : Orderly m) :
    m.locks (.queue s) = some c ∧ m.locks (.queue d) = some c := by
  have hmem : (s, d) ∈ moves (m.core c).code := by
    rw [h.left]
    exact List.mem_replicate.mpr ⟨h.pos.ne', rfl⟩
  have hheld := (ho.covered c).moves hmem
  exact ⟨(ho.disciplined.locks _ c).mpr hheld.1, (ho.disciplined.locks _ c).mpr hheld.2⟩

/-- A queue locked by a CPU that has nothing to move. -/
lemma still_of_locked (ho : Orderly m) (hl : m.locks (.queue o) = some c)
    (hc : moves (m.core c).code = []) : Still m o := by
  intro e n s d hm
  have hne : e ≠ c := by
    rintro rfl
    exact hm.pos.ne' (hm.eq (n := 0) (s := s) (d := d) hc).1
  obtain ⟨hs, hd⟩ := hm.locked ho
  constructor
  · rintro rfl
    rw [hs] at hl
    exact hne (Option.some.inj hl)
  · rintro rfl
    rw [hd] at hl
    exact hne (Option.some.inj hl)

/-- What the two machines have in common, and what holds of each. -/
structure Simulates (m : Machine Cpu) (k : Kernel Cpu) : Prop where
  going : Going m
  orderly : Orderly m
  placed : Placed k
  ahead : Ahead m k

omit [LinearOrder Cpu] [Fintype Cpu] in
lemma queue_of_tls {e : Cpu} (h : k'.tls e = k.tls e) : queue k' e = queue k e := by
  rw [queue, h, queue]

omit [LinearOrder Cpu] [Fintype Cpu] in
lemma Ahead.started (h : Ahead m k) : Started k c ↔ Started m.kernel c := by
  have hcur : (k.tls c).threadAddr = (m.kernel.tls c).threadAddr := h.alike.current c
  rw [Started, hcur, Started]

omit [Fintype Cpu] in
lemma moves_steps (hsteps : Steps m c rest op m')
    (hc : moves (m'.core c).code = moves (m.core c).code) (e : Cpu) :
    moves (m'.core e).code = moves (m.core e).code := by
  by_cases he : e = c
  · rw [he, hc]
  · rw [hsteps.others e he]

variable {κ : Kernel Cpu}

omit [LinearOrder Cpu] [Fintype Cpu] in
/-- The thread is written to in both kernels. -/
lemma same_write {f : Thread Cpu → Thread Cpu} (hf : ∀ d t, f (t.setCpu d) = (f t).setCpu d)
    (hκ : κ.threads.get? a = (m.kernel.threads.get? a).map f)
    (hk : k'.threads.get? a = (k.threads.get? a).map f) :
    (∃ f : Thread Cpu → Thread Cpu, (∀ d t, f (t.setCpu d) = (f t).setCpu d) ∧
        κ.threads.get? a = (m.kernel.threads.get? a).map f ∧
        k'.threads.get? a = (k.threads.get? a).map f) ∨
      (∀ d, ¬ Bound m a d) ∧ k'.threads.get? a = κ.threads.get? a := .inl ⟨f, hf, hκ, hk⟩

omit [LinearOrder Cpu] [Fintype Cpu] in
/-- The thread is left alone in both kernels. -/
lemma same_thread (hκ : κ.threads.get? a = m.kernel.threads.get? a)
    (hk : k'.threads.get? a = k.threads.get? a) :
    (∃ f : Thread Cpu → Thread Cpu, (∀ d t, f (t.setCpu d) = (f t).setCpu d) ∧
        κ.threads.get? a = (m.kernel.threads.get? a).map f ∧
        k'.threads.get? a = (k.threads.get? a).map f) ∨
      (∀ d, ¬ Bound m a d) ∧ k'.threads.get? a = κ.threads.get? a :=
  .inl ⟨id, fun _ _ => rfl, by simp [hκ], by simp [hk]⟩

lemma queue_setupTls (hp : Placed k) (hoff : k.online c = false)
    (htls : k'.tls = Function.update k.tls c ⟨.null, Ring.new⟩) (e : Cpu) :
    queue k' e = queue k e := by
  by_cases he : e = c
  · subst he
    simp [queue, htls, hp.offline e hoff]
  · simp [queue, htls, he]

lemma Simulates.allocFrame (h : Simulates m k)
    (hmv : ∀ e, moves (m'.core e).code = moves (m.core e).code)
    (hs : Sched.step m.kernel .allocFrame = .ok m'.kernel) :
    ∃ k', Sched.step k .allocFrame = .ok k' ∧ Ahead m' k' := by
  have ha := h.ahead.alike
  obtain ⟨hle, hκ⟩ := step_allocFrame hs
  refine ⟨_, allocFrames_ok.mpr ⟨by rw [ha.frames]; exact hle, rfl⟩, ?_⟩
  refine h.ahead.congr hmv ?_ (fun e => .inl ⟨by rw [hκ]; rfl, rfl⟩) fun a =>
    same_thread (by rw [hκ]) rfl
  rw [hκ]
  exact ⟨ha.counter, by simp [ha.frames], ha.online, ha.built, ha.added, ha.current⟩

lemma Simulates.setupTls {base : UInt64} (h : Simulates m k)
    (hmv : ∀ e, moves (m'.core e).code = moves (m.core e).code)
    (hs : Sched.step m.kernel (.setupTls c base) = .ok m'.kernel) :
    ∃ k', Sched.step k (.setupTls c base) = .ok k' ∧ Ahead m' k' := by
  have hp := h.orderly.disciplined.placed
  obtain ⟨hoff, hκ⟩ := step_setupTls hs
  have hoff' : k.online c = false := by rw [h.ahead.alike.online, hoff]
  obtain ⟨k', hk'⟩ : ∃ k', Sched.step k (.setupTls c base) = .ok k' :=
    ⟨_, by rw [Sched.step, guard_bind hoff']⟩
  refine ⟨k', hk', ?_⟩
  obtain ⟨-, hk'⟩ := step_setupTls hk'
  have ha := h.ahead.alike
  refine h.ahead.congr hmv ?_ (fun e => .inl ⟨queue_setupTls hp hoff (by rw [hκ]) e,
    queue_setupTls h.placed hoff' (by rw [hk']) e⟩) fun a => ?_
  · rw [hκ, hk']
    refine ⟨ha.counter, ha.frames, by simp [ha.online], ha.built, ha.added, fun e => ?_⟩
    by_cases he : e = c
    · subst he
      simp [current]
    · simpa [current, he] using ha.current e
  · by_cases hidle : a = .idle c
    · -- the idle thread is new, and in no queue
      subst hidle
      refine .inr ⟨fun d hb => ?_, by simp [hκ, hk', Threads.get?]⟩
      obtain ⟨i, hi, -⟩ := hb.slot hp
      cases hi
    · have hother : ∀ th : Threads Cpu, Threads.get? { th with
          idle := Function.update th.idle c (newIdle (Stack.new base 1)) } a = th.get? a := by
        intro th
        cases a with
        | idle d =>
          have hd : d ≠ c := fun hd => hidle (by rw [hd])
          simp [Threads.get?, hd]
        | _ => rfl
      exact same_thread (by rw [hκ]; exact hother _) (by rw [hk']; exact hother _)

lemma Simulates.forceSwitchToIdle (h : Simulates m k)
    (hmv : ∀ e, moves (m'.core e).code = moves (m.core e).code)
    (hs : Sched.step m.kernel (.forceSwitchToIdle c) = .ok m'.kernel) :
    ∃ k', Sched.step k (.forceSwitchToIdle c) = .ok k' ∧ Ahead m' k' := by
  have ha := h.ahead.alike
  obtain ⟨hon, hnull, hκ⟩ := step_forceSwitchToIdle hs
  have hguard : k.online c = true ∧ ¬ Started k c := by
    rw [h.ahead.started, ha.online]
    exact ⟨hon, fun hst => hst hnull⟩
  obtain ⟨k', hk'⟩ : ∃ k', Sched.step k (.forceSwitchToIdle c) = .ok k' :=
    ⟨_, by rw [Sched.step, guard_bind hguard]⟩
  refine ⟨k', hk', ?_⟩
  obtain ⟨-, -, hk'⟩ := step_forceSwitchToIdle hk'
  have hq : ∀ (k : Kernel Cpu) e, queue { k with
      tls := Function.update k.tls c { k.tls c with threadAddr := .idle c } } e = queue k e := by
    intro k e
    by_cases he : e = c
    · subst he
      simp [queue]
    · simp [queue, he]
  refine h.ahead.congr hmv ?_ (fun e => .inl ⟨by rw [hκ, hq], by rw [hk', hq]⟩) fun a =>
    same_thread (by rw [hκ]) (by rw [hk'])
  rw [hκ, hk']
  refine ⟨ha.counter, ha.frames, ha.online, ha.built, ha.added, fun e => ?_⟩
  by_cases he : e = c
  · subst he
    simp [current]
  · simpa [current, he] using ha.current e

lemma Simulates.spawnRaw {base : UInt64} (h : Simulates m k)
    (hmv : ∀ e, moves (m'.core e).code = moves (m.core e).code)
    (hs : Sched.step m.kernel (.spawnRaw c base) = .ok m'.kernel) :
    ∃ k', Sched.step k (.spawnRaw c base) = .ok k' ∧ Ahead m' k' := by
  have ha := h.ahead.alike
  obtain ⟨hst, hf, hκ⟩ := step_spawnRaw hs
  obtain ⟨k', hk'⟩ : ∃ k', Sched.step k (.spawnRaw c base) = .ok k' :=
    ⟨_, part_spawnRaw.mpr ⟨h.ahead.started.mpr hst, by rw [ha.frames]; exact hf, rfl⟩⟩
  refine ⟨k', hk', ?_⟩
  obtain ⟨-, -, hk'⟩ := step_spawnRaw hk'
  refine h.ahead.congr hmv ?_ (fun e => .inl ⟨by rw [hκ]; rfl, by rw [hk']; rfl⟩) fun a =>
    same_thread (by rw [hκ]) (by rw [hk'])
  rw [hκ, hk']
  exact ⟨by simp [ha.counter], by simp [ha.frames], ha.online, by simp [ha.built, ha.counter],
    ha.added, ha.current⟩

lemma Simulates.addThread (h : Simulates m k)
    (hmv : ∀ e, moves (m'.core e).code = moves (m.core e).code)
    (hs : Sched.step m.kernel (.addThread c n) = .ok m'.kernel) :
    ∃ k', Sched.step k (.addThread c n) = .ok k' ∧ Ahead m' k' := by
  have ha := h.ahead.alike
  have hp := h.orderly.disciplined.placed
  obtain ⟨hst, t, ht, hκ⟩ := step_addThread hs
  obtain ⟨k', hk'⟩ : ∃ k', Sched.step k (.addThread c n) = .ok k' :=
    ⟨_, by rw [Sched.step, guard_bind (h.ahead.started.mpr hst), Sched.addThread, ha.built, ht]⟩
  refine ⟨k', hk', ?_⟩
  obtain ⟨-, t', ht', hk'⟩ := step_addThread hk'
  rw [ha.built] at ht'
  obtain rfl : t = t' := Option.some.inj (ht.symm.trans ht')
  have hfree : ∀ i, m.kernel.threads.table.get? i = none ↔ k.threads.table.get? i = none := by
    intro i
    have hv := h.ahead.view i
    unfold ThreadIds.view at hv
    rw [← Option.map_eq_none_iff (f := fun t : Thread Cpu => (t.id, t.schedState.state)),
      ← Option.map_eq_none_iff (f := fun t : Thread Cpu => (t.id, t.schedState.state))]
    exact (Eq.congr_left hv).symm
  obtain ⟨hadded, hslot⟩ := addThread_alike hfree t
  refine h.ahead.congr hmv ?_ (fun e => .inl ⟨by rw [hκ]; rfl, by rw [hk']; rfl⟩) fun a => ?_
  · rw [hκ, hk']
    exact ⟨ha.counter, ha.frames, ha.online, by simp only [ha.built],
      by simp only [hadded, ha.added], ha.current⟩
  · rw [hκ, hk']
    rcases hslot with ⟨i, hi, hget, hget'⟩ | ⟨hsame, hsame'⟩
    · by_cases hai : a = .slot i
      · -- the slot was free, so that nothing in it is to be moved
        subst hai
        refine .inr ⟨fun d hb => ?_, by simp [Threads.get?, hget, hget']⟩
        obtain ⟨j, hj, hr⟩ := hb.slot hp
        cases hj
        have hnone : m.kernel.threads.get? (.slot i) = none := hi
        simp [isReady, ThreadIds.view, hnone] at hr
      · have hother : ∀ th th' : Threads Cpu, th'.idle = th.idle →
            (∀ j, th'.table.get? j = if j = i then some t else th.table.get? j) →
            th'.get? a = th.get? a := by
          intro th th' hidle hj
          cases a with
          | null => rfl
          | idle d => simp [Threads.get?, hidle]
          | slot j =>
            have hji : j ≠ i := fun hji => hai (by rw [hji])
            simp [Threads.get?, hj, hji]
        exact same_thread (hother _ _ rfl hget) (hother _ _ rfl hget')
    · exact same_thread (by simp only [hsame]) (by simp only [hsame'])

lemma Simulates.ready {id : UInt64} {i : ℕ} (h : Simulates m k)
    (hmv : ∀ e, moves (m'.core e).code = moves (m.core e).code)
    (hstill : Still m c) (hst : Started m.kernel c) (hid : id ∈ m.kernel.added)
    (hborn : view m.kernel i = some (id, .born))
    (hs : Sched.ready { m.kernel with added := m.kernel.added.erase id } c (.slot i) =
      .ok m'.kernel) :
    ∃ k', Sched.step k (.readyAdded c (m.kernel.added.idxOf id)) = .ok k' ∧ Ahead m' k' := by
  have ha := h.ahead.alike
  have hp := h.orderly.disciplined.placed
  have hwf : QueuesWf { m.kernel with added := m.kernel.added.erase id } := hp.wf
  obtain ⟨-, q, -, hq, hκ⟩ := ready_ok hwf hs
  have hn : k.added[m.kernel.added.idxOf id]? = some id := by
    rw [ha.added, List.getElem?_eq_getElem (List.idxOf_lt_length_iff.mpr hid), List.getElem_idxOf]
  obtain ⟨k', hk'⟩ := readyAdded_total h.placed hn c
  have hstep : Sched.step k (.readyAdded c (m.kernel.added.idxOf id)) = .ok k' := by
    rw [Sched.step, guard_bind (h.ahead.started.mpr hst), hk']
  refine ⟨k', hstep, ?_⟩
  obtain ⟨-, id', j, hid', hj, q', -, hq', hk'⟩ := step_readyAdded h.placed.wf hstep
  obtain rfl : id = id' := Option.some.inj (hn.symm.trans hid')
  -- both find the same thread
  obtain ⟨j', hj', hview⟩ := h.placed.ids.find hn
  obtain rfl : j = j' := Option.some.inj (hj.symm.trans hj')
  obtain rfl : i = j := h.placed.ids.inj _ _ _ _ _ ((h.ahead.view i).trans hborn) hview
  refine h.ahead.congr hmv ?_ (fun e => ?_) fun a => ?_
  · rw [hκ, hk']
    refine ⟨ha.counter, ha.frames, ha.online, ha.built, ?_, fun e => ?_⟩
    · simp only [ha.added, List.eraseIdx_idxOf_eq_erase]
    · have hcur := ha.current
      by_cases he : e = c
      · subst he
        simpa [current] using hcur e
      · simpa [current, he] using hcur e
  · by_cases he : e = c
    · subst he
      refine .inr ⟨hstill, ?_⟩
      have hκq : queue m'.kernel e = queue m.kernel e ++ [.slot i] := by simpa [hκ, queue] using hq
      rw [hκq, ← h.ahead.still e hstill]
      simpa [hk', queue] using hq'
    · exact .inl ⟨by simp [hκ, queue, he], by simp [hk', queue, he]⟩
  · by_cases hai : a = .slot i
    · -- the thread is in no queue yet
      subst hai
      refine .inr ⟨fun d hb => ?_, ?_⟩
      · obtain ⟨j, hj, hr⟩ := hb.slot hp
        cases hj
        simp [isReady, hborn] at hr
      · have hnot : ∀ d, ¬ Bound m (.slot i) d := fun d hb => by
          obtain ⟨j, hj, hr⟩ := hb.slot hp
          cases hj
          simp [isReady, hborn] at hr
        simp [hκ, hk', Threads.get?_modify, h.ahead.others _ hnot]
    · exact same_thread (by simp [hκ, Threads.get?_modify, hai])
        (by simp [hk', Threads.get?_modify, hai])

lemma Simulates.saveRsp {rsp : UInt64} (h : Simulates m k)
    (hmv : ∀ e, moves (m'.core e).code = moves (m.core e).code)
    (hs : Sched.step m.kernel (.saveRsp c rsp) = .ok m'.kernel) :
    ∃ k', Sched.step k (.saveRsp c rsp) = .ok k' ∧ Ahead m' k' := by
  have ha := h.ahead.alike
  obtain ⟨hst, -, hκ⟩ := step_saveRsp hs
  obtain ⟨k', hk'⟩ := saveRsp_total h.placed (h.ahead.started.mpr hst) rsp
  refine ⟨k', hk', ?_⟩
  obtain ⟨-, -, hk'⟩ := step_saveRsp hk'
  refine h.ahead.congr hmv ?_ (fun e => .inl ⟨by rw [hκ]; rfl, by rw [hk']; rfl⟩) fun a => ?_
  · rw [hκ, hk']
    exact ⟨ha.counter, ha.frames, ha.online, ha.built, ha.added, ha.current⟩
  · rw [hκ, hk', ha.current]
    by_cases hcur : a = current m.kernel c
    · exact same_write (f := fun t => { t with regs := rsp }) (fun _ _ => rfl)
        (by simp [Threads.get?_modify, hcur]) (by simp [Threads.get?_modify, hcur])
    · exact same_thread (by simp [Threads.get?_modify, hcur])
        (by simp [Threads.get?_modify, hcur])

lemma Simulates.switch (h : Simulates m k)
    (hmv : ∀ e, moves (m'.core e).code = moves (m.core e).code) (hstill : Still m c)
    (hs : Sched.step m.kernel (.switch c) = .ok m'.kernel) :
    ∃ k', Sched.step k (.switch c) = .ok k' ∧ Ahead m' k' := by
  have ha := h.ahead.alike
  obtain ⟨hst, t, ht, hκ⟩ := step_switch hs
  obtain ⟨k', hk'⟩ := switch_total h.placed (h.ahead.started.mpr hst)
  refine ⟨k', hk', ?_⟩
  obtain ⟨-, t', ht', hk'⟩ := step_switch hk'
  have hsame : t'.threadAddr = t.threadAddr ∧ t'.readyQueue.toList = t.readyQueue.toList := by
    obtain ⟨t₁, h₁, -, hcase⟩ := switch_spec (h.orderly.disciplined.placed.wf c) c
    obtain ⟨t₂, h₂, -, hcase'⟩ := switch_spec (h.placed.wf c) c
    cases ht.symm.trans h₁
    cases ht'.symm.trans h₂
    have hq : (k.tls c).readyQueue.toList = (m.kernel.tls c).readyQueue.toList :=
      h.ahead.still c hstill
    have hcur : (k.tls c).threadAddr = (m.kernel.tls c).threadAddr := ha.current c
    rw [hq, hcur] at hcase'
    rcases hcase with ⟨hnil, rfl⟩ | ⟨r, hl, hr⟩
    · rcases hcase' with ⟨-, rfl⟩ | ⟨r', hl', -⟩
      · exact ⟨hcur, hq⟩
      · rw [hnil] at hl'
        cases hl'
    · rcases hcase' with ⟨hnil, -⟩ | ⟨r', hl', hr'⟩
      · rw [hnil] at hl
        cases hl
      · obtain ⟨he, rfl⟩ := List.cons.inj (hl'.symm.trans hl)
        exact ⟨he, hr'.trans hr.symm⟩
  refine h.ahead.congr hmv ?_ (fun e => ?_) fun a => same_thread (by rw [hκ]) (by rw [hk'])
  · rw [hκ, hk']
    refine ⟨ha.counter, ha.frames, ha.online, ha.built, ha.added, fun e => ?_⟩
    by_cases he : e = c
    · subst he
      simpa [current] using hsame.1
    · simpa [current, he] using ha.current e
  · by_cases he : e = c
    · subst he
      exact .inr ⟨hstill, by simpa [hκ, hk', queue] using hsame.2⟩
    · exact .inl ⟨by simp [hκ, queue, he], by simp [hk', queue, he]⟩

/-! ### Load balancing -/

/-- A load balance is decided on: one kernel is still to do it, and the other has done it. -/
lemma Simulates.begin (h : Simulates m k) (hκ : m'.kernel = m.kernel)
    (hnone : moves (m.core c).code = []) (hleft : moves (m'.core c).code = List.replicate n (s, d))
    (hothers : ∀ e, e ≠ c → m'.core e = m.core e) (hs : Still m s) (hd : Still m d)
    (hB : Shifted k k' s d n) : Ahead m' k' := by
  have ha := h.ahead.alike
  have hp := h.orderly.disciplined.placed
  have hmine : Moving m' c n s d := ⟨hB.pos, hleft⟩
  have hqs : queue k s = queue m.kernel s := h.ahead.still s hs
  have hqd : queue k d = queue m.kernel d := h.ahead.still d hd
  -- the CPU moved nothing before, and moves this now
  have hmoving : ∀ e n' s' d', Moving m' e n' s' d' →
      e = c ∧ n' = n ∧ s' = s ∧ d' = d ∨ e ≠ c ∧ Moving m e n' s' d' := by
    intro e n' s' d' hm
    by_cases he : e = c
    · subst he
      exact .inl ⟨rfl, hm.eq hleft⟩
    · exact .inr ⟨he, hm.of_core (hothers e he).symm⟩
  have hother : ∀ e n' s' d', Moving m e n' s' d' → Moving m' e n' s' d' := by
    intro e n' s' d' hm
    have he : e ≠ c := by
      rintro rfl
      exact hm.pos.ne' (hm.eq (n := 0) (s := s) (d := d) hnone).1
    exact hm.of_core (hothers e he)
  have hbound : ∀ b e, Bound m' b e → e = d ∧ b ∈ (queue k s).take n ∨ Bound m b e := by
    rintro b e ⟨c', n', s', hm, hb⟩
    rw [hκ] at hb
    rcases hmoving _ _ _ _ hm with ⟨-, rfl, rfl, rfl⟩ | ⟨-, hm⟩
    · exact .inl ⟨rfl, by rwa [hqs]⟩
    · exact .inr ⟨c', n', s', hm, hb⟩
  -- what stands in the queue is bound for nowhere yet
  have hfresh : ∀ b ∈ (queue k s).take n, ∀ e, ¬ Bound m b e := by
    rintro b hb e ⟨c', n', s', hm, hb'⟩
    have hbs : b ∈ queue m.kernel s := hqs ▸ List.mem_of_mem_take hb
    have hbs' := List.mem_of_mem_take hb'
    obtain ⟨i, rfl⟩ := hp.slots s b hbs
    exact (hs c' n' s' e hm).1 (hp.here_unique (here_queue_pos hbs) (here_queue_pos hbs'))
  refine ⟨?_, fun e n' s' d' hm => ?_, fun e he => ?_, fun b e hb => ?_, fun b hb => ?_⟩
  · rw [hκ]
    have hrest := hB.rest
    exact ⟨by rw [hrest, ha.counter], by rw [hrest, ha.frames], by rw [hrest, ha.online],
      by rw [hrest, ha.built], by rw [hrest, ha.added], fun e => by rw [hB.current, ha.current]⟩
  · rw [hκ]
    rcases hmoving _ _ _ _ hm with ⟨-, rfl, rfl, rfl⟩ | ⟨-, hm⟩
    · rw [hB.src, hB.dst, hqs, hqd]
      exact ⟨hB.ne, hqs ▸ hB.enough, rfl, rfl⟩
    · have hsame : ∀ e, e ≠ s → e ≠ d → queue k' e = queue k e := fun e hes hed =>
        queue_of_tls (hB.others e hes hed)
      have hns := hs _ _ _ _ hm
      have hnd := hd _ _ _ _ hm
      rw [hsame s' hns.1.symm hnd.1.symm, hsame d' hns.2.symm hnd.2.symm]
      exact h.ahead.moved _ _ _ _ hm
  · have hes := (he c n s d hmine).1
    have hed := (he c n s d hmine).2
    rw [hκ, queue_of_tls (hB.others e hes hed)]
    exact h.ahead.still e fun c' n' s' d' hm => he c' n' s' d' (hother _ _ _ _ hm)
  · rw [hκ, hB.threads]
    rcases hbound b e hb with ⟨rfl, hmem⟩ | hm
    · rw [if_pos hmem, h.ahead.others b (hfresh b hmem)]
    · rw [if_neg fun hmem => hfresh b hmem e hm, h.ahead.recorded b e hm]
  · have hnot : b ∉ (queue k s).take n := fun hmem => hb d ⟨c, n, s, hmine, by rwa [hκ, ← hqs]⟩
    rw [hκ, hB.threads, if_neg hnot]
    exact h.ahead.others b fun e ⟨c', n', s', hm, hmem⟩ =>
      hb e ⟨c', n', s', hother _ _ _ _ hm, by rwa [hκ]⟩

lemma Simulates.doLoadBalance (h : Simulates m k)
    (hcode : (m.core c).code = .doLoadBalance o :: rest) (hst : Started m.kernel c)
    (hs : exec m c rest (.doLoadBalance o) = .ok m') :
    ∃ k', Sched.step k (.maybeLoadBalance c o) = .ok k' ∧ Ahead m' k' := by
  have ho := h.orderly
  have hp := ho.disciplined.placed
  have ha := h.ahead.alike
  have hcov := ho.covered c
  have hsafe := ho.disciplined.safe c
  rw [hcode] at hcov hsafe
  obtain ⟨hneeds, -, hrest, -⟩ := hcov
  obtain ⟨-, hco, hon, -, -⟩ := hsafe
  have hrest : moves rest = [] := hrest
  have hnone : moves (m.core c).code = [] := by rw [hcode]; exact hrest
  have hlocked : ∀ e, .queue e ∈ needs m.kernel c (.doLoadBalance o) → Still m e := fun e he =>
    still_of_locked ho ((ho.disciplined.locks _ c).mpr (hneeds _ he)) hnone
  have hstillc := hlocked c (by simp [needs])
  have hstillo := hlocked o (by simp [needs])
  have hlen : ∀ e, Still m e → ((m.kernel.tls e).readyQueue.len : ℤ) = (queue k e).length := by
    intro e he
    rw [h.ahead.still e he, queue, (hp.wf e).length]
  have hon' : k.online o = true := by rw [ha.online, hon]
  obtain ⟨k', hk'⟩ := balance_total h.placed (h.ahead.started.mpr hst) o
  refine ⟨k', hk', ?_⟩
  have hsteps := steps_of_exec ho.disciplined hs
  obtain ⟨_, -, hbal⟩ := bind_ok.mp hk'
  simp only [Locks.exec, hlen c hstillc, hlen o hstillo] at hs
  cases hs
  rcases maybeLoadBalance_cases h.placed.wf hbal with rfl | ⟨-, s, d, n, hsd, hB⟩
  · -- the queues are level, and nothing is to be moved
    have hlevel := level_of_same h.placed hon' hco hbal
    refine h.ahead.same rfl (moves_steps hsteps ?_)
    rw [hnone, core_go, if_pos (by omega)]
    exact hrest
  · have hlo := hB.lower
    have hup := hB.upper
    have hpos := hB.pos
    rcases hsd with ⟨rfl, rfl⟩ | ⟨rfl, rfl⟩
    · refine h.begin rfl hnone ?_ hsteps.others hstillc hstillo hB.toShifted
      rw [core_go, if_neg (by omega), if_pos (by omega)]
      have hn : (((queue k s).length : ℤ) - (queue k d).length).natAbs / 2 = n := by omega
      rw [hn]
      show List.replicate n (s, d) ++ moves rest = _
      rw [hrest, List.append_nil]
    · refine h.begin rfl hnone ?_ hsteps.others hstillo hstillc hB.toShifted
      rw [core_go, if_neg (by omega), if_neg (by omega)]
      have hn : (((queue k d).length : ℤ) - (queue k s).length).natAbs / 2 = n := by omega
      rw [hn]
      show List.replicate n (s, d) ++ moves rest = _
      rw [hrest, List.append_nil]

/-- One round: the kernel catches up by one thread. -/
lemma Simulates.moveThread (h : Simulates m k) (hcode : (m.core c).code = .moveThread s d :: rest)
    (hs : Locks.moveThread m.kernel s d = .ok κ) : Ahead (m.go c κ rest) k := by
  have hp := h.orderly.disciplined.placed
  have ha := h.ahead.alike
  have hsettled := h.orderly.covered c
  rw [hcode] at hsettled
  obtain ⟨-, -, ⟨⟨n, hrest⟩, -⟩, -⟩ := hsettled
  have hmine : Moving m c (n + 1) s d := by
    refine ⟨Nat.succ_pos n, ?_⟩
    rw [hcode, List.replicate_succ, ← hrest]
    rfl
  obtain ⟨hsd, hle, hqs, hqd⟩ := h.ahead.moved _ _ _ _ hmine
  have hB : Shifted m.kernel κ s d 1 := by
    obtain ⟨⟨th, qs, qd⟩, hm, he⟩ := bind_ok.mp hs
    cases he
    have hlen : 1 ≤ (m.kernel.tls s).readyQueue.len := by
      rw [queue, (hp.wf s).length] at hle
      omega
    exact shifted_of_moved hp.wf hsd le_rfl hlen (moveThreads_ok (hp.wf s) (hp.wf d) hlen hm)
  have hrest' : moves ((m.go c κ rest).core c).code = List.replicate n (s, d) := by
    rw [core_go]
    exact hrest
  have hothers : ∀ e, e ≠ c → (m.go c κ rest).core e = m.core e := fun e he => by
    simp [Machine.go, Machine.setCore, he]
  have hmoving : ∀ e n' s' d', Moving (m.go c κ rest) e n' s' d' →
      e = c ∧ n' = n ∧ s' = s ∧ d' = d ∨ e ≠ c ∧ Moving m e n' s' d' := by
    intro e n' s' d' hm
    by_cases he : e = c
    · subst he
      exact .inl ⟨rfl, hm.eq hrest'⟩
    · exact .inr ⟨he, hm.of_core (hothers e he).symm⟩
  -- the two queues are locked, so that no other CPU moves threads between them
  have hapart : ∀ e n' s' d', e ≠ c → Moving m e n' s' d' → (s' ≠ s ∧ s' ≠ d) ∧ d' ≠ s ∧ d' ≠ d := by
    intro e n' s' d' he hm
    obtain ⟨hls, hld⟩ := hmine.locked h.orderly
    obtain ⟨hls', hld'⟩ := hm.locked h.orderly
    refine ⟨⟨?_, ?_⟩, ?_, ?_⟩ <;> rintro rfl
    · exact he (Option.some.inj (hls'.symm.trans hls))
    · exact he (Option.some.inj (hls'.symm.trans hld))
    · exact he (Option.some.inj (hld'.symm.trans hls))
    · exact he (Option.some.inj (hld'.symm.trans hld))
  have hsame : ∀ e, e ≠ s → e ≠ d → queue κ e = queue m.kernel e := fun e hes hed =>
    queue_of_tls (hB.others e hes hed)
  refine ⟨?_, fun e n' s' d' hm => ?_, fun e he => ?_, fun b e hb => ?_, fun b hb => ?_⟩
  · have hcur := hB.current
    rw [kernel_go, hB.rest]
    exact ⟨ha.counter, ha.frames, ha.online, ha.built, ha.added,
      fun e => (ha.current e).trans (hcur e).symm⟩
  · rw [kernel_go]
    rcases hmoving _ _ _ _ hm with ⟨-, rfl, rfl, rfl⟩ | ⟨he, hm⟩
    · refine ⟨hsd, ?_, ?_, ?_⟩
      · rw [hB.src, List.length_drop]
        omega
      · rw [hqs, hB.src, List.drop_drop, Nat.add_comm]
      · rw [hqd, hB.dst, hB.src, Nat.add_comm, List.take_add, List.append_assoc]
    · obtain ⟨⟨h₁, h₂⟩, h₃, h₄⟩ := hapart _ _ _ _ he hm
      rw [hsame s' h₁ h₂, hsame d' h₃ h₄]
      exact h.ahead.moved _ _ _ _ hm
  · rw [kernel_go]
    by_cases hes : e = s
    · subst hes
      -- the last thread has left the queue
      obtain rfl : n = 0 := by
        by_contra hn
        exact (he c n e d ⟨Nat.pos_of_ne_zero hn, hrest'⟩).1 rfl
      rw [hqs, hB.src]
    · by_cases hed : e = d
      · subst hed
        obtain rfl : n = 0 := by
          by_contra hn
          exact (he c n s e ⟨Nat.pos_of_ne_zero hn, hrest'⟩).2 rfl
        rw [hqd, hB.dst]
      · rw [hsame e hes hed]
        refine h.ahead.still e fun c' n' s' d' hm => ?_
        by_cases hc : c' = c
        · subst hc
          obtain ⟨-, rfl, rfl⟩ := hm.eq hmine.left
          exact ⟨hes, hed⟩
        · exact he c' n' s' d' (hm.of_core (hothers c' hc))
  · obtain ⟨c', n', s', hm, hmem⟩ := hb
    rw [kernel_go] at hmem ⊢
    rw [hB.threads]
    rcases hmoving _ _ _ _ hm with ⟨-, rfl, rfl, rfl⟩ | ⟨hc, hm⟩
    · rw [hB.src] at hmem
      have hbound : Bound m b e := by
        refine ⟨c, n' + 1, s', hmine, ?_⟩
        rw [Nat.add_comm, List.take_add]
        exact List.mem_append_right _ hmem
      rw [h.ahead.recorded b e hbound]
      split
      · rw [Option.map_map]
        rfl
      · rfl
    · have hs' := (hapart _ _ _ _ hc hm).1
      rw [hsame s' hs'.1 hs'.2] at hmem
      rw [h.ahead.recorded b e ⟨c', n', s', hm, hmem⟩, if_neg]
      -- a thread stands in one queue only
      intro hfront
      have hbs := List.mem_of_mem_take hfront
      have hbs' := List.mem_of_mem_take hmem
      obtain ⟨i, rfl⟩ := hp.slots s b hbs
      exact hs'.1 (hp.here_unique (here_queue_pos hbs') (here_queue_pos hbs))
  · rw [kernel_go, hB.threads]
    split
    · next hfront =>
      refine h.ahead.recorded b d ⟨c, n + 1, s, hmine, ?_⟩
      rw [Nat.add_comm, List.take_add]
      exact List.mem_append_left _ hfront
    · next hfront =>
      refine h.ahead.others b ?_
      rintro e ⟨c', n', s', hm, hmem⟩
      by_cases hc : c' = c
      · subst hc
        obtain ⟨rfl, rfl, rfl⟩ := hm.eq hmine.left
        rw [Nat.add_comm, List.take_add] at hmem
        rcases List.mem_append.mp hmem with hmem | hmem
        · exact hfront hmem
        · have hn : 0 < n := by
            by_contra hn
            obtain rfl : n = 0 := by omega
            simp at hmem
          exact hb e ⟨c', n, s', ⟨hn, hrest'⟩, by rwa [kernel_go, hB.src]⟩
      · have hs' := (hapart _ _ _ _ hc hm).1
        exact hb e ⟨c', n', s', hm.of_core (hothers c' hc), by rwa [kernel_go, hsame s' hs'.1 hs'.2]⟩

/-! ### Runs -/

omit [Fintype Cpu] in
lemma run_one {b : Sched.Act Cpu} (h : ∃ k', Sched.step k b = .ok k' ∧ Ahead m' k') :
    ∃ k', run Sched.step k [b] = .ok k' ∧ Ahead m' k' := by
  obtain ⟨k', hk, ha⟩ := h
  exact ⟨k', run_cons_ok.mpr ⟨k', hk, rfl⟩, ha⟩

/-- **A step of a CPU** under the locks is a critical section as a whole, or none. -/
lemma Simulates.exec (h : Simulates m k) (hcode : (m.core c).code = op :: rest)
    (hs : exec m c rest op = .ok m') :
    ∃ k', run Sched.step k (effect m.kernel c op) = .ok k' ∧ Ahead m' k' := by
  have hsteps := steps_of_exec h.orderly.disciplined hs
  obtain ⟨hneeds, -, hsettled, -⟩ : Covered m.kernel c (held (m.core c).guards) (op :: rest) :=
    hcode ▸ h.orderly.covered c
  have hf : Fits (mode m.kernel c) (op :: rest) := by
    rcases h.going.track c with ⟨hnil, -⟩ | ⟨hf, -⟩
    · rw [hcode] at hnil
      cases hnil
    · rwa [hcode] at hf
  -- the code goes on, with no move in it
  have hgo : ∀ κ, moves (op :: rest) = moves rest →
      moves ((m.go c κ rest).core c).code = moves (m.core c).code := fun κ hop => by
    rw [core_go, hcode, hop]
  have hstill : ∀ e, .queue e ∈ needs m.kernel c op → moves (op :: rest) = [] → Still m e :=
    fun e he hnone => still_of_locked h.orderly
      ((h.orderly.disciplined.locks _ c).mpr (hneeds _ he)) (by rw [hcode, hnone])
  cases op with
  | lock l =>
    cases hs
    refine ⟨k, rfl, h.ahead.same rfl (moves_steps hsteps ?_)⟩
    simp [Machine.setCore, hcode, moves]
  | spin l b =>
    simp only [Locks.exec] at hs
    split at hs
    · cases hs
    · cases hs
      refine ⟨k, rfl, h.ahead.same rfl (moves_steps hsteps ?_)⟩
      simp [Machine.setCore, hcode, moves]
  | drop =>
    simp only [Locks.exec] at hs
    split at hs
    · cases hs
    · cases hs
      refine ⟨k, rfl, h.ahead.same rfl (moves_steps hsteps ?_)⟩
      simp [Machine.setCore, hcode, moves]
  | allocFrame =>
    obtain ⟨κ, hk, hs⟩ := bind_ok.mp hs
    cases hs
    exact run_one (h.allocFrame (moves_steps hsteps (hgo κ rfl)) hk)
  | setupTls base =>
    obtain ⟨κ, hk, hs⟩ := bind_ok.mp hs
    cases hs
    exact run_one (h.setupTls (moves_steps hsteps (hgo κ rfl)) hk)
  | forceSwitchToIdle =>
    obtain ⟨κ, hk, hs⟩ := bind_ok.mp hs
    cases hs
    refine run_one (h.forceSwitchToIdle (moves_steps hsteps ?_) hk)
    simp [Machine.enable, Machine.go, Machine.setCore, hcode, moves]
  | spawnRaw base =>
    obtain ⟨κ, hk, hs⟩ := bind_ok.mp hs
    cases hs
    exact run_one (h.spawnRaw (moves_steps hsteps (hgo κ rfl)) hk)
  | addThread id =>
    obtain ⟨κ, hk, hs⟩ := bind_ok.mp hs
    cases hs
    exact run_one (h.addThread (moves_steps hsteps (hgo κ rfl)) hk)
  | getThreadMut id =>
    obtain ⟨i, hi, hs⟩ := bind_ok.mp hs
    cases hs
    refine ⟨k, rfl, h.ahead.same rfl (moves_steps hsteps ?_)⟩
    rw [core_go, hcode]
    rfl
  | ready id i =>
    obtain ⟨_, hst, hs⟩ := bind_ok.mp hs
    obtain ⟨κ, hk, hs⟩ := bind_ok.mp hs
    cases hs
    obtain ⟨hid, hborn⟩ : id ∈ m.kernel.added ∧ view m.kernel i = some (id, .born) :=
      h.going.owned c (.ready id i) (by simp [hcode])
    exact run_one (h.ready (moves_steps hsteps (hgo κ rfl))
      (hstill c (by simp [needs]) hsettled) (guard_ok.mp hst) hid hborn hk)
  | saveRsp rsp =>
    obtain ⟨κ, hk, hs⟩ := bind_ok.mp hs
    cases hs
    exact run_one (h.saveRsp (moves_steps hsteps (hgo κ rfl)) hk)
  | switch =>
    obtain ⟨κ, hk, hs⟩ := bind_ok.mp hs
    cases hs
    exact run_one (h.switch (moves_steps hsteps (hgo κ rfl))
      (hstill c (by simp [needs]) hsettled) hk)
  | getCpuTls o =>
    cases hs
    refine ⟨k, rfl, h.ahead.same rfl (moves_steps hsteps ?_)⟩
    rw [core_go, hcode]
    split <;> rfl
  | maybeLoadBalance o =>
    simp only [Locks.exec] at hs
    cases hs
    refine ⟨k, rfl, h.ahead.same rfl (moves_steps hsteps ?_)⟩
    rw [core_go, hcode]
    split
    · rfl
    · split <;> rfl
  | doLoadBalance o => exact run_one (h.doLoadBalance hcode (started_of_runs hf.1) hs)
  | moveThreads n s d =>
    cases n with
    | zero =>
      cases hs
      refine ⟨k, rfl, h.ahead.same rfl (moves_steps hsteps (hgo _ rfl))⟩
    | succ n =>
      obtain ⟨x, hpop, hs⟩ := bind_ok.mp hs
      cases x with
      | none =>
        -- there is a thread for every round
        have hmine : Moving m c (n + 1) s d := by
          refine ⟨Nat.succ_pos n, ?_⟩
          rw [hcode, Guarded.moves, show Guarded.moves rest = [] from hsettled, List.append_nil]
        have hle := (h.ahead.moved _ _ _ _ hmine).2.1
        rcases (h.orderly.disciplined.placed.wf s).pop_cases with ⟨hnil, -⟩ | ⟨_, _, hp, -⟩
        · rw [queue, hnil] at hle
          cases hle
        · rw [hp] at hpop
          cases hpop
      | some x =>
        cases hs
        refine ⟨k, rfl, h.ahead.same rfl (moves_steps hsteps ?_)⟩
        rw [core_go, hcode]
        rfl
  | moveThread s d =>
    obtain ⟨_, -, hs⟩ := bind_ok.mp hs
    obtain ⟨κ, hk, hs⟩ := bind_ok.mp hs
    cases hs
    exact ⟨k, rfl, h.moveThread hcode hk⟩
  | iretq =>
    cases hs
    refine ⟨k, rfl, h.ahead.same rfl (moves_steps hsteps ?_)⟩
    simp [Machine.enable, Machine.go, Machine.setCore, hcode, moves]

omit [Fintype Cpu] in
/-- A CPU takes up code with nothing to move. -/
lemma Ahead.setCore {t : Core Cpu} (h : Ahead m k) (hold : moves (m.core c).code = [])
    (hnew : moves t.code = []) : Ahead (m.setCore c t) k := by
  refine h.same rfl fun e => ?_
  by_cases he : e = c
  · subst he
    simpa [Machine.setCore] using hnew.trans hold.symm
  · simp [Machine.setCore, he]

lemma Simulates.step {b : Locks.Act Cpu} (h : Simulates m k) (hs : Locks.step m b = .ok m') :
    ∃ k', run Sched.step k (effects m b) = .ok k' ∧ Simulates m' k' := by
  suffices hk : ∃ k', run Sched.step k (effects m b) = .ok k' ∧ Ahead m' k' by
    obtain ⟨k', hr, ha⟩ := hk
    exact ⟨k', hr, h.going.step hs, h.orderly.step hs,
      run_keeps (fun _ _ _ hp => hp.step) h.placed hr, ha⟩
  cases b with
  | commonEntry c base =>
    obtain ⟨_, hg, hs⟩ := bind_ok.mp hs
    cases hs
    have hnil := List.isEmpty_iff.mp (guard_ok.mp hg).1
    exact ⟨k, rfl, h.ahead.setCore (by rw [hnil]; rfl) rfl⟩
  | call c sec =>
    obtain ⟨_, hg, hs⟩ := bind_ok.mp hs
    cases hs
    have hnil := List.isEmpty_iff.mp (guard_ok.mp hg).1
    exact ⟨k, rfl, h.ahead.setCore (by rw [hnil]; rfl) (by cases sec <;> rfl)⟩
  | timerInterrupt c o rsp =>
    obtain ⟨_, hg, hs⟩ := bind_ok.mp hs
    cases hs
    have hnil := h.orderly.disciplined.interrupts c (guard_ok.mp hg)
    exact ⟨k, rfl, h.ahead.setCore (by rw [hnil]; rfl) (by rw [hnil]; rfl)⟩
  | next c =>
    simp only [Locks.step] at hs
    split at hs
    · cases hs
    · next op rest hcode =>
      have he : effects m (.next c) = effect m.kernel c op := by simp only [effects, hcode]
      rw [he]
      exact h.exec hcode hs

lemma Simulates.boot (h : Locks.Boot m) : Simulates m m.kernel where
  going := .boot h
  orderly := .boot h
  placed := .boot h.kernel
  ahead := by
    have hnone : ∀ c n s d, ¬ Moving m c n s d := fun c n s d hm =>
      hm.pos.ne' (hm.eq (n := 0) (s := s) (d := d) (by rw [h.core]; rfl)).1
    exact ⟨⟨rfl, rfl, rfl, rfl, rfl, fun _ => rfl⟩, fun c n s d hm => absurd hm (hnone c n s d),
      fun _ _ => rfl, fun a d ⟨c, n, s, hm, _⟩ => absurd hm (hnone c n s d), fun _ _ => rfl⟩

/-- **Critical sections are atomic.** Every interleaving of the lock steps of all CPUs does to the
kernel what a run does that takes its critical sections as a whole, in the order they take effect.
It is ahead of the kernel by the load balances begun; and when there are none, the two agree. -/
theorem critical_sections_atomic {m₀ : Machine Cpu} {as : List (Locks.Act Cpu)}
    (h0 : Locks.Boot m₀) (hr : run Locks.step m₀ as = .ok m) :
    ∃ k, run Sched.step m₀.kernel (emitted Locks.step effects m₀ as) = .ok k ∧ Ahead m k ∧
      ((∀ c, moves (m.core c).code = []) → Alike m.kernel k ∧
        (∀ e, queue k e = queue m.kernel e) ∧
        ∀ a, k.threads.get? a = m.kernel.threads.get? a) := by
  obtain ⟨k, hk, hsim⟩ := run_simulates (R := Simulates)
    (fun _ _ _ _ hsim hs => hsim.step hs) (Simulates.boot h0) hr
  refine ⟨k, hk, hsim.ahead, fun hidle => ?_⟩
  have hnone : ∀ c n s d, ¬ Moving m c n s d := fun c n s d hm =>
    hm.pos.ne' (hm.eq (n := 0) (s := s) (d := d) (hidle c)).1
  exact ⟨hsim.ahead.alike, fun e => hsim.ahead.still e fun c n s d hm => absurd hm (hnone c n s d),
    fun a => hsim.ahead.others a fun d ⟨c, n, s, hm, _⟩ => hnone c n s d hm⟩

/-- In the midst of a load balance: the thread to be moved is still in its old queue, and ahead of
that in the new one. -/
theorem critical_sections_atomic_taking :
    ∃ m k, run Locks.step (bootMachine (Fin 2) 64) (takesFirst 0 1) = .ok m ∧
      run Sched.step (bootKernel (Fin 2) 64)
        (emitted Locks.step effects (bootMachine (Fin 2) 64) (takesFirst 0 1)) = .ok k ∧
      queue m.kernel 0 = [.slot 0, .slot 1, .slot 2] ∧ queue k 0 = [.slot 1, .slot 2] := by
  obtain ⟨m, hm, hf⟩ := exists_run_of_map (f := fun m => (moves (m.core 1).code, queue m.kernel 0))
    (c := ([(0, 1)], [.slot 0, .slot 1, .slot 2]))
    (show (run Locks.step (bootMachine (Fin 2) 64) (takesFirst 0 1)).map _ = _ by rfl)
  obtain ⟨hmoves, hq⟩ := Prod.mk.inj hf
  obtain ⟨k, hk, hahead, -⟩ := critical_sections_atomic (boot_bootMachine (by decide)) hm
  have hmoving : Moving m 1 1 0 1 := ⟨by decide, hmoves⟩
  refine ⟨m, k, hm, hk, hq, ?_⟩
  rw [(hahead.moved _ _ _ _ hmoving).2.2.1, hq]
  rfl

end OsRust.Atomic
