import OsRust.Locks
import OsRust.Placement
import Mathlib.Order.WithBot

/-!
No deadlock: the CPUs never wait for each other in a circle.

No order on the locks explains it. `ready` takes the `sched_state` of a thread before a ready
queue, and load balancing takes it after two of them; what keeps them apart is that the thread
`ready` is called on stands in no queue yet.
-/

namespace OsRust.Deadlock

open OsRust.Ring OsRust.Task OsRust.Sched OsRust.Effects OsRust.ThreadIds OsRust.Placement
open OsRust.Locks OsRust.Lib.Machine OsRust.Lib.WaitFor

variable {Cpu : Type} [LinearOrder Cpu]

/-! ### What the kernel steps leave alone -/

section Keeps

variable [Fintype Cpu] {k k' : Kernel Cpu} {c : Cpu}

/-- What the locks depend on is kept, but for the thread with the identifier `x`. -/
structure Keeps (x : Option UInt64) (k k' : Kernel Cpu) : Prop where
  placed : Placed k'
  online : ∀ c, k.online c = true → k'.online c = true
  ready : ∀ i, isReady k i = true → isReady k' i = true
  view : ∀ i id s, view k i = some (id, s) → some id ≠ x → view k' i = some (id, s)
  added : ∀ id ∈ k.added, some id ≠ x → id ∈ k'.added

lemma Keeps.refl (h : Placed k) : Keeps none k k :=
  ⟨h, fun _ h => h, fun _ h => h, fun _ _ _ h _ => h, fun _ h _ => h⟩

lemma Keeps.of_view (hp : Placed k') (hon : ∀ c, k.online c = true → k'.online c = true)
    (hv : ∀ i, ThreadIds.view k' i = ThreadIds.view k i) (ha : k'.added = k.added) :
    Keeps none k k' where
  placed := hp
  online := hon
  ready i h := by rwa [isReady_congr (hv i)]
  view i id s h _ := by rw [hv, h]
  added id h _ := by rwa [ha]

lemma keeps_allocFrame (h : Placed k) (hs : Sched.step k .allocFrame = .ok k') :
    Keeps none k k' := by
  have hp := h.step hs
  obtain ⟨-, rfl⟩ := step_allocFrame hs
  exact .of_view hp (fun _ hd => hd) (fun _ => rfl) rfl

lemma keeps_setupTls {base : UInt64} (h : Placed k)
    (hs : Sched.step k (.setupTls c base) = .ok k') : Keeps none k k' := by
  have hp := h.step hs
  obtain ⟨-, rfl⟩ := step_setupTls hs
  refine .of_view hp (fun d hd => ?_) (fun _ => rfl) rfl
  by_cases hdc : d = c
  · simp [hdc]
  · simpa [hdc] using hd

lemma keeps_forceSwitchToIdle (h : Placed k)
    (hs : Sched.step k (.forceSwitchToIdle c) = .ok k') : Keeps none k k' := by
  have hp := h.step hs
  obtain ⟨-, -, rfl⟩ := step_forceSwitchToIdle hs
  exact .of_view hp (fun _ hd => hd) (fun _ => rfl) rfl

lemma keeps_spawnRaw {base : UInt64} (h : Placed k)
    (hs : Sched.step k (.spawnRaw c base) = .ok k') : Keeps none k k' := by
  have hp := h.step hs
  obtain ⟨-, -, rfl⟩ := step_spawnRaw hs
  exact .of_view hp (fun _ hd => hd) (fun _ => rfl) rfl

lemma keeps_switch (h : Placed k) (hs : Sched.step k (.switch c) = .ok k') : Keeps none k k' := by
  have hp := h.step hs
  obtain ⟨-, t, -, rfl⟩ := step_switch hs
  exact .of_view hp (fun _ hd => hd) (fun _ => rfl) rfl

lemma keeps_saveRsp {rsp : UInt64} (h : Placed k)
    (hs : Sched.step k (.saveRsp c rsp) = .ok k') : Keeps none k k' := by
  have hp := h.step hs
  obtain ⟨-, -, rfl⟩ := step_saveRsp hs
  have hv := view_modify (k := k) (f := fun t => { t with regs := rsp }) (fun _ => rfl)
    (fun _ => rfl) (current k c)
  exact .of_view hp (fun _ hd => hd) hv rfl

lemma keeps_addThread {n : ℕ} (h : Placed k)
    (hs : Sched.step k (.addThread c n) = .ok k') : Keeps none k k' := by
  have hp := h.step hs
  have hon : k'.online = k.online := by
    obtain ⟨-, t, -, rfl⟩ := step_addThread hs
    rfl
  obtain ⟨t, -, -, -, -, hcase⟩ := view_addThread hs
  rcases hcase with ⟨i, hi, ha, hv⟩ | ⟨ha, hv⟩
  · -- the slot filled was empty
    have hold : ∀ j v, ThreadIds.view k j = some v → ThreadIds.view k' j = some v := by
      intro j v hj
      rw [hv, if_neg, hj]
      rintro rfl
      rw [hi] at hj
      cases hj
    refine ⟨hp, by simp [hon], fun j hj => ?_, fun j id s hj _ => hold j _ hj,
      fun id hid _ => by simp [ha, hid]⟩
    unfold isReady at hj ⊢
    cases hvj : ThreadIds.view k j with
    | none => simp [hvj] at hj
    | some v => rwa [hold j v hvj, ← hvj]
  · exact .of_view hp (by simp [hon]) hv ha

/-- One round of the loop of `do_load_balance`. -/
lemma keeps_moveThread {s d : Cpu} (h : Placed k) (hne : s ≠ d) (hon : k.online d = true)
    (hs : moveThread k s d = .ok k') : Keeps none k k' := by
  obtain ⟨⟨th, qs, qd⟩, hm, he⟩ := bind_ok.mp hs
  cases he
  by_cases hlen : (k.tls s).readyQueue.len = 0
  · -- nothing left to move
    simp only [moveThreads, Queue.pop_empty hlen, ok_bind] at hm
    cases hm
    simpa using Keeps.refl h
  · have hM := moveThreads_ok (h.wf s) (h.wf d) (by omega) hm
    have hshift := shifted_of_moved h.wf hne le_rfl (by omega) hM
    exact .of_view (h.shifted hon hshift) (fun _ hd => hd) (view_shifted hshift) rfl

/-- `ready` on the thread found for an identifier. -/
lemma keeps_ready {id : UInt64} {i : ℕ} (h : Placed k) (hst : Started k c) (hid : id ∈ k.added)
    (hi : ThreadIds.view k i = some (id, .born))
    (hs : ready { k with added := k.added.erase id } c (.slot i) = .ok k') :
    Keeps (some id) k k' := by
  have hn : k.added[k.added.idxOf id]? = some id := by
    rw [List.getElem?_eq_getElem (List.idxOf_lt_length_iff.mpr hid), List.getElem_idxOf]
  have hstep : Sched.step k (.readyAdded c (k.added.idxOf id)) = .ok k' := by
    obtain ⟨j, hj, hvj⟩ := h.ids.find hn
    obtain rfl := h.ids.inj i j _ _ _ hi hvj
    rw [Sched.step, guard_bind hst, readyAdded, hn]
    simp only [hj, unwrap, ok_bind, List.eraseIdx_idxOf_eq_erase]
    exact hs
  have hon : k'.online = k.online := by
    obtain ⟨-, _, _, -, -, _, -, -, rfl⟩ := step_readyAdded h.wf hstep
    rfl
  obtain ⟨id', j, hid', hj, ha, -, -, -, hv⟩ := view_readyAdded h.ids h.wf hstep
  obtain rfl : id = id' := by
    rw [hn] at hid'
    exact Option.some.inj hid'
  refine ⟨h.step hstep, by simp [hon], fun l hl => ?_, fun l id' s hl hne => ?_,
    fun id' hid' hne => ?_⟩
  · unfold isReady at hl ⊢
    rw [hv]
    split
    · rfl
    · exact hl
  · rw [hv, if_neg, hl]
    rintro rfl
    rw [hj] at hl
    cases hl
    exact hne rfl
  · rw [ha, mem_eraseIdx_iff h.ids.added_nodup hn]
    exact ⟨hid', fun he => hne (by rw [he])⟩

end Keeps

/-! ### How the locks nest -/

def held (gs : List (SpinLockGuard Cpu)) : List (Lock Cpu) := gs.map SpinLockGuard.lock

/-- The locks a CPU can hold at a time, the newest first. The `sched_state` on top of the table is
that of a thread `ready` is called on, the one on top of two queues that of a thread moved. -/
inductive Nested (k : Kernel Cpu) (c : Cpu) : List (Lock Cpu) → Prop
  | nil : Nested k c []
  | single (l : Lock Cpu) (h : ∀ a, l ≠ .sched a) : Nested k c [l]
  | sched (i : ℕ) : Nested k c [.sched (.slot i), .table]
  | queue (i : ℕ) : Nested k c [.queue c, .sched (.slot i), .table]
  | queues (lo hi : Cpu) (h : lo < hi) : Nested k c [.queue hi, .queue lo]
  | moved (i : ℕ) (lo hi : Cpu) (h : lo < hi) (hr : isReady k i = true) :
    Nested k c [.sched (.slot i), .queue hi, .queue lo]
  | printing (lo hi : Cpu) (h : lo < hi) : Nested k c [.terminal, .queue hi, .queue lo]

/-- A code that has nothing to do with a spawn. -/
def Quiet (code : List (Op Cpu)) : Prop := ∀ op ∈ code, op.spawns = none

/-- Two ready queues are held, in the order of their CPUs. -/
def Balances (gs : List (SpinLockGuard Cpu)) : Prop :=
  ∃ lo hi, lo < hi ∧ held gs = [.queue hi, .queue lo]

/-- The lock may be taken next. Over the table, `ready` is still to be called on the thread. -/
def Takes (k : Kernel Cpu) (c : Cpu) (gs : List (SpinLockGuard Cpu)) (l : Lock Cpu)
    (rest : List (Op Cpu)) : Prop :=
  Nested k c (l :: held gs) ∧
    (.table ∈ held gs → ∃ id i, .ready id i ∈ rest ∧ .sched (.slot i) ∈ l :: held gs)

/-- With these guards the code keeps to the nesting of the locks, up to an end without guards. -/
def Safe (k : Kernel Cpu) (c : Cpu) : List (SpinLockGuard Cpu) → List (Op Cpu) → Prop
  | gs, [] => gs = []
  | gs, .lock l :: r => Takes k c gs l r ∧ Safe k c (⟨l, false⟩ :: gs) r
  | gs, .spin l b :: r => Takes k c gs l r ∧ Safe k c (⟨l, b⟩ :: gs) r
  | gs, .drop :: r => ∃ g gs', gs = g :: gs' ∧ (g.interruptsState = true → r = []) ∧
      Quiet r ∧ Safe k c gs' r
  | gs, .getThreadMut _ :: r => held gs = [.table] ∧ Quiet r ∧ Safe k c gs r
  | gs, .ready _ _ :: r => Quiet r ∧ Safe k c gs r
  | gs, .getCpuTls _ :: r => (∃ g, gs = [g] ∧ g.interruptsState = false) ∧ Quiet r ∧ Safe k c [] r
  | gs, .maybeLoadBalance o :: r => gs = [] ∧ k.online o = true ∧ Quiet r ∧ Safe k c [] r
  | gs, .doLoadBalance o :: r =>
    Balances gs ∧ c ≠ o ∧ k.online o = true ∧ Quiet r ∧ Safe k c gs r
  | gs, .moveThreads _ s d :: r =>
    Balances gs ∧ s ≠ d ∧ (d = c ∨ k.online d = true) ∧ Quiet r ∧ Safe k c gs r
  | gs, .moveThread s d :: r => s ≠ d ∧ (d = c ∨ k.online d = true) ∧ Safe k c gs r
  | gs, .forceSwitchToIdle :: r => gs = [] ∧ r = []
  | gs, .iretq :: r => gs = [] ∧ r = []
  | gs, .allocFrame :: r => Safe k c gs r
  | gs, .setupTls _ :: r => Safe k c gs r
  | gs, .spawnRaw _ :: r => Safe k c gs r
  | gs, .addThread _ :: r => Safe k c gs r
  | gs, .saveRsp _ :: r => Safe k c gs r
  | gs, .switch :: r => Safe k c gs r

section Nesting

variable {k k' : Kernel Cpu} {c : Cpu} {gs : List (SpinLockGuard Cpu)} {l : Lock Cpu}

lemma Nested.tail {ls : List (Lock Cpu)} (h : Nested k c (l :: ls)) : Nested k c ls := by
  cases h with
  | single => exact .nil
  | sched i => exact .single _ (by simp)
  | queue i => exact .sched i
  | queues lo hi hlt => exact .single _ (by simp)
  | moved i lo hi hlt hr => exact .queues lo hi hlt
  | printing lo hi hlt => exact .queues lo hi hlt

lemma Nested.notMem {ls : List (Lock Cpu)} (h : Nested k c (l :: ls)) : l ∉ ls := by
  cases h with
  | single => simp
  | sched i => simp
  | queue i => simp
  | queues lo hi hlt => simp [hlt.ne']
  | moved i lo hi hlt hr => simp
  | printing lo hi hlt => simp

/-- A thread made ready stays ready, and a CPU stays online. -/
structure Grows (k k' : Kernel Cpu) : Prop where
  ready : ∀ i, isReady k i = true → isReady k' i = true
  online : ∀ c, k.online c = true → k'.online c = true

lemma Nested.mono {ls : List (Lock Cpu)} (hg : Grows k k') (h : Nested k c ls) :
    Nested k' c ls := by
  cases h with
  | nil => exact .nil
  | single l hl => exact .single l hl
  | sched i => exact .sched i
  | queue i => exact .queue i
  | queues lo hi hlt => exact .queues lo hi hlt
  | moved i lo hi hlt hr => exact .moved i lo hi hlt (hg.ready i hr)
  | printing lo hi hlt => exact .printing lo hi hlt

lemma Safe.mono (hg : Grows k k') {code : List (Op Cpu)} (h : Safe k c gs code) :
    Safe k' c gs code := by
  induction code generalizing gs with
  | nil => exact h
  | cons op r ih =>
    cases op with
    | lock l => exact ⟨⟨h.1.1.mono hg, h.1.2⟩, ih h.2⟩
    | spin l b => exact ⟨⟨h.1.1.mono hg, h.1.2⟩, ih h.2⟩
    | drop =>
      obtain ⟨g, gs', he, hb, hq, hs⟩ := h
      exact ⟨g, gs', he, hb, hq, ih hs⟩
    | getThreadMut id => exact ⟨h.1, h.2.1, ih h.2.2⟩
    | ready id i => exact ⟨h.1, ih h.2⟩
    | getCpuTls o => exact ⟨h.1, h.2.1, ih h.2.2⟩
    | maybeLoadBalance o =>
      obtain ⟨he, hon, hq, hs⟩ := h
      exact ⟨he, hg.online o hon, hq, ih hs⟩
    | doLoadBalance o =>
      obtain ⟨hb, hne, hon, hq, hs⟩ := h
      exact ⟨hb, hne, hg.online o hon, hq, ih hs⟩
    | moveThreads n s d =>
      obtain ⟨hb, hne, hon, hq, hs⟩ := h
      exact ⟨hb, hne, hon.imp_right (hg.online d), hq, ih hs⟩
    | moveThread s d =>
      obtain ⟨hne, hon, hs⟩ := h
      exact ⟨hne, hon.imp_right (hg.online d), ih hs⟩
    | forceSwitchToIdle => exact h
    | iretq => exact h
    | allocFrame => exact ih h
    | setupTls base => exact ih h
    | spawnRaw base => exact ih h
    | addThread id => exact ih h
    | saveRsp rsp => exact ih h
    | switch => exact ih h

end Nesting

/-! ### The invariant -/

/-- The thread a step of a spawn is about still waits to be made ready. -/
def Owned (k : Kernel Cpu) : Op Cpu → Prop
  | .getThreadMut id => id ∈ k.added
  | .ready id i => id ∈ k.added ∧ view k i = some (id, .born)
  | _ => True

variable [Fintype Cpu] {m m' : Machine Cpu} {k k' : Kernel Cpu} {c d : Cpu}
variable {op : Op Cpu} {rest : List (Op Cpu)}

structure Disciplined (m : Machine Cpu) : Prop where
  placed : Placed m.kernel
  locks : ∀ l d, m.locks l = some d ↔ l ∈ held (m.core d).guards
  nested : ∀ d, Nested m.kernel d (held (m.core d).guards)
  safe : ∀ d, Safe m.kernel d (m.core d).guards (m.core d).code
  interrupts : ∀ d, (m.core d).interrupts = true → (m.core d).code = []
  owned : ∀ d, ∀ op ∈ (m.core d).code, Owned m.kernel op
  alone : ∀ d e, ∀ op ∈ (m.core d).code, ∀ op' ∈ (m.core e).code, ∀ id, op.spawns = some id →
    op'.spawns = some id → d = e

lemma Keeps.grows {x : Option UInt64} (h : Keeps x k k') : Grows k k' := ⟨h.ready, h.online⟩

lemma Keeps.owned {x : Option UInt64} (h : Keeps x k k') (ho : Owned k op)
    (hx : ∀ id, x = some id → op.spawns ≠ some id) : Owned k' op := by
  have hne : ∀ id, op.spawns = some id → some id ≠ x := fun id hid he => hx id he.symm hid
  cases op with
  | getThreadMut id => exact h.added id ho (hne id rfl)
  | ready id i => exact ⟨h.added id ho.1 (hne id rfl), h.view i id .born ho.2 (hne id rfl)⟩
  | _ => exact trivial

omit [LinearOrder Cpu] [Fintype Cpu] in
lemma owned_of_quiet {code : List (Op Cpu)} (h : Quiet code) : ∀ op ∈ code, Owned k op := by
  intro op hop
  have hs := h op hop
  cases op with
  | getThreadMut id => cases hs
  | ready id i => cases hs
  | _ => exact trivial

/-- What has to be shown of a step of CPU `c`: the locks, the guards and the code of the others are
as before. -/
lemma Disciplined.update {x : Option UInt64} {t : Core Cpu} {locks : Lock Cpu → Option Cpu}
    (h : Disciplined m) (hk : Keeps x m.kernel k')
    (hx : ∀ id, x = some id → ∃ op ∈ (m.core c).code, op.spawns = some id)
    (hothers : ∀ l d, d ≠ c → (locks l = some d ↔ m.locks l = some d))
    (hlocks : ∀ l, locks l = some c ↔ l ∈ held t.guards) (hnested : Nested k' c (held t.guards))
    (hsafe : Safe k' c t.guards t.code) (hint : t.interrupts = true → t.code = [])
    (howned : ∀ op ∈ t.code, Owned k' op)
    (hnew : ∀ op ∈ t.code, ∀ id, op.spawns = some id → ∀ d, d ≠ c → ∀ op' ∈ (m.core d).code,
      op'.spawns ≠ some id) :
    Disciplined ⟨k', locks, Function.update m.core c t⟩ := by
  have hself : Function.update m.core c t c = t := Function.update_self ..
  have hother : ∀ d, d ≠ c → Function.update m.core c t d = m.core d :=
    fun d hd => Function.update_of_ne hd _ _
  refine ⟨hk.placed, fun l d => ?_, fun d => ?_, fun d => ?_, fun d => ?_, fun d => ?_,
    fun d e => ?_⟩
  · by_cases hd : d = c
    · subst hd
      simpa only [hself] using hlocks l
    · simpa only [hother d hd] using (hothers l d hd).trans (h.locks l d)
  · by_cases hd : d = c
    · subst hd
      simpa only [hself] using hnested
    · simpa only [hother d hd] using (h.nested d).mono hk.grows
  · by_cases hd : d = c
    · subst hd
      simpa only [hself] using hsafe
    · simpa only [hother d hd] using (h.safe d).mono hk.grows
  · by_cases hd : d = c
    · subst hd
      simpa only [hself] using hint
    · simpa only [hother d hd] using h.interrupts d
  · by_cases hd : d = c
    · subst hd
      simpa only [hself] using howned
    · simp only [hother d hd]
      intro op hop
      refine hk.owned (h.owned d op hop) fun id hid hspawns => ?_
      obtain ⟨op', hop', hspawns'⟩ := hx id hid
      exact hd (h.alone d c op hop op' hop' id hspawns hspawns')
  · intro op hop op' hop' id hs hs'
    by_contra hne
    by_cases hd : d = c
    · subst hd
      simp only [hself, hother e (Ne.symm hne)] at hop hop'
      exact hnew op hop id hs e (Ne.symm hne) op' hop' hs'
    · by_cases he : e = c
      · subst he
        simp only [hself, hother d hd] at hop hop'
        exact hnew op' hop' id hs' d hd op hop hs
      · simp only [hother d hd, hother e he] at hop hop'
        exact hne (h.alone d e op hop op' hop' id hs hs')

/-! ### The steps -/

/-- The CPU takes a step that leaves its guards alone. -/
lemma Disciplined.go {x : Option UInt64} {code : List (Op Cpu)} (h : Disciplined m)
    (hcode : (m.core c).code = op :: rest) (hk : Keeps x m.kernel k')
    (hx : ∀ id, x = some id → op.spawns = some id) (hsafe : Safe k' c (m.core c).guards code)
    (howned : ∀ op' ∈ code, Owned k' op')
    (hnew : ∀ op' ∈ code, ∀ id, op'.spawns = some id →
      ∃ op'' ∈ op :: rest, op''.spawns = some id) :
    Disciplined (m.go c k' code) := by
  refine h.update hk (fun id hid => ⟨op, by simp [hcode], hx id hid⟩) (fun _ _ _ => Iff.rfl)
    (fun l => h.locks l c) ((h.nested c).mono hk.grows) hsafe (fun hint => ?_) howned ?_
  · rw [h.interrupts c hint] at hcode
    cases hcode
  · intro op' hop' id hs d hd op₂ hop₂ hs₂
    obtain ⟨op'', hop'', hs''⟩ := hnew op' hop' id hs
    exact hd (h.alone d c op₂ hop₂ op'' (hcode ▸ hop'') id hs₂ hs'')

/-- A step on the data, after which the CPU goes on. -/
lemma Disciplined.effect (h : Disciplined m) (hcode : (m.core c).code = op :: rest)
    (hk : Keeps none m.kernel k') (hsafe : Safe m.kernel c (m.core c).guards rest) :
    Disciplined (m.go c k' rest) := by
  refine h.go hcode hk (by simp) (hsafe.mono hk.grows) (fun op' hop' => ?_)
    fun op' hop' id hs => ⟨op', List.mem_cons_of_mem _ hop', hs⟩
  exact hk.owned (h.owned c op' (by rw [hcode]; exact List.mem_cons_of_mem _ hop')) (by simp)

/-- A step that only unfolds the code. -/
lemma Disciplined.unfold {code : List (Op Cpu)} (h : Disciplined m)
    (hcode : (m.core c).code = op :: rest) (hquiet : Quiet code)
    (hsafe : Safe m.kernel c (m.core c).guards code) : Disciplined (m.go c m.kernel code) := by
  refine h.go hcode (.refl h.placed) (by simp) hsafe (owned_of_quiet hquiet) fun op' hop' id hs => ?_
  rw [hquiet op' hop'] at hs
  cases hs

/-- `iretq`: the CPU has nothing left to do, and its interrupts are on. -/
lemma Disciplined.enable (h : Disciplined m) (hk : Keeps none m.kernel k')
    (hgs : (m.core c).guards = []) : Disciplined ((m.go c k' []).enable c) := by
  have heq : (m.go c k' []).enable c =
      ⟨k', m.locks, Function.update m.core c { m.core c with interrupts := true, code := [] }⟩ := by
    simp [Machine.enable, Machine.go, Machine.setCore]
  rw [heq]
  refine h.update hk (by simp) (fun _ _ _ => Iff.rfl) (fun l => h.locks l c)
    ((h.nested c).mono hk.grows) hgs (fun _ => rfl) (by simp) (by simp)

/-- With its interrupts off, the CPU takes up a code. -/
lemma Disciplined.setCode {code : List (Op Cpu)} (h : Disciplined m)
    (hsafe : Safe m.kernel c (m.core c).guards code) (howned : ∀ op ∈ code, Owned m.kernel op)
    (hnew : ∀ op ∈ code, ∀ id, op.spawns = some id → ∀ d, d ≠ c → ∀ op' ∈ (m.core d).code,
      op'.spawns ≠ some id) :
    Disciplined (m.setCore c { m.core c with interrupts := false, code := code }) :=
  h.update (.refl h.placed) (by simp) (fun _ _ _ => Iff.rfl) (fun l => h.locks l c) (h.nested c)
    hsafe (by simp) howned hnew

lemma Disciplined.interrupts_off (h : Disciplined m) (hcode : (m.core c).code = op :: rest) :
    (m.core c).interrupts = false := by
  by_contra hint
  rw [h.interrupts c (by simpa using hint)] at hcode
  cases hcode

/-- What is still to do of a code is about no other thread than the code was. -/
lemma Disciplined.new_rest (h : Disciplined m) (hcode : (m.core c).code = op :: rest) :
    ∀ op' ∈ rest, ∀ id, op'.spawns = some id → ∀ d, d ≠ c → ∀ op'' ∈ (m.core d).code,
      op''.spawns ≠ some id := by
  intro op' hop' id hs d hd op'' hop'' hs''
  refine hd (h.alone d c op'' hop'' op' ?_ id hs'' hs)
  rw [hcode]
  exact List.mem_cons_of_mem _ hop'

lemma Disciplined.owned_rest (h : Disciplined m) (hcode : (m.core c).code = op :: rest) :
    ∀ op' ∈ rest, Owned m.kernel op' := fun op' hop' =>
  h.owned c op' (by rw [hcode]; exact List.mem_cons_of_mem _ hop')

lemma Disciplined.lock {l : Lock Cpu} (h : Disciplined m)
    (hcode : (m.core c).code = .lock l :: rest) :
    Disciplined (m.setCore c
      { m.core c with interrupts := false, code := .spin l (m.core c).interrupts :: rest }) := by
  have hsafe := h.safe c
  rw [hcode] at hsafe
  rw [h.interrupts_off hcode]
  refine h.setCode hsafe ?_ ?_
  · intro op' hop'
    rcases List.mem_cons.mp hop' with rfl | hop'
    · exact trivial
    · exact h.owned_rest hcode op' hop'
  · intro op' hop' id hs
    rcases List.mem_cons.mp hop' with rfl | hop'
    · cases hs
    · exact h.new_rest hcode op' hop' id hs

lemma Disciplined.spin {l : Lock Cpu} {b : Bool} (h : Disciplined m)
    (hcode : (m.core c).code = .spin l b :: rest) (hfree : m.locks l = none) :
    Disciplined (m.setLock l (some c)
      |>.setCore c { m.core c with guards := ⟨l, b⟩ :: (m.core c).guards, code := rest }) := by
  have hsafe := h.safe c
  rw [hcode] at hsafe
  refine h.update (.refl h.placed) (by simp) (fun l' d hd => ?_) (fun l' => ?_) hsafe.1.1 hsafe.2
    (fun hint => ?_) (h.owned_rest hcode) (h.new_rest hcode)
  · by_cases hl : l' = l
    · subst hl
      simp [hfree, Ne.symm hd]
    · simp [hl]
  · by_cases hl : l' = l
    · subst hl
      simp [held]
    · simpa [hl, held] using h.locks l' c
  · rw [h.interrupts_off hcode] at hint
    cases hint

lemma Disciplined.drop {g : SpinLockGuard Cpu} {gs : List (SpinLockGuard Cpu)} (h : Disciplined m)
    (hcode : (m.core c).code = .drop :: rest) (hgs : (m.core c).guards = g :: gs) :
    Disciplined (m.setLock g.lock none
      |>.setCore c ⟨(m.core c).interrupts || g.interruptsState, gs, rest⟩) := by
  have hsafe := h.safe c
  rw [hcode, hgs] at hsafe
  obtain ⟨g', gs', he, hlast, -, hsafe⟩ := hsafe
  cases he
  have hnested := h.nested c
  rw [hgs] at hnested
  have hmine : m.locks g.lock = some c := (h.locks _ c).mpr (by simp [hgs, held])
  rw [h.interrupts_off hcode, Bool.false_or]
  refine h.update (.refl h.placed) (by simp) (fun l' d hd => ?_) (fun l' => ?_) hnested.tail hsafe
    hlast (h.owned_rest hcode) (h.new_rest hcode)
  · by_cases hl : l' = g.lock
    · subst hl
      simp [hmine, Ne.symm hd]
    · simp [hl]
  · by_cases hl : l' = g.lock
    · subst hl
      have hnot : g.lock ∉ held gs := hnested.notMem
      simp [hnot]
    · have := h.locks l' c
      rw [hgs] at this
      simpa [hl, held] using this

omit [LinearOrder Cpu] [Fintype Cpu] in
lemma quiet_cons (hop : op.spawns = none) (h : Quiet rest) : Quiet (op :: rest) := by
  intro op' hop'
  rcases List.mem_cons.mp hop' with rfl | hop'
  · exact hop
  · exact h op' hop'

omit [Fintype Cpu] in
/-- The table is not held under two ready queues. -/
lemma Balances.takes {l : Lock Cpu} {gs : List (SpinLockGuard Cpu)} (hb : Balances gs)
    (hn : Nested k c (l :: held gs)) : Takes k c gs l rest := by
  obtain ⟨lo, hi, -, hgs⟩ := hb
  refine ⟨hn, fun ht => ?_⟩
  rw [hgs] at ht
  simp at ht

lemma Disciplined.getThreadMut {id : UInt64} {i : ℕ} (h : Disciplined m)
    (hcode : (m.core c).code = .getThreadMut id :: rest)
    (hi : m.kernel.threads.table.getThreadMut id = some i) :
    Disciplined (m.go c m.kernel (.lock (.sched (.slot i)) :: .lock (.queue c) :: .ready id i ::
      .drop :: .drop :: rest)) := by
  have hsafe := h.safe c
  rw [hcode] at hsafe
  obtain ⟨hgs, hquiet, hrest⟩ := hsafe
  have hid : id ∈ m.kernel.added := h.owned c (.getThreadMut id) (by simp [hcode])
  -- the thread found is the one put in the table, not ready yet
  obtain ⟨n, hn⟩ := List.mem_iff_getElem?.mp hid
  obtain ⟨j, hj, hview⟩ := h.placed.ids.find hn
  obtain rfl : i = j := by
    rw [hi] at hj
    exact Option.some.inj hj
  have hend : Quiet (.drop :: .drop :: rest) := quiet_cons rfl (quiet_cons rfl hquiet)
  refine h.go hcode (.refl h.placed) (by simp) ?_ ?_ ?_
  · refine ⟨⟨?_, fun _ => ⟨id, i, by simp, by simp⟩⟩, ⟨?_, fun _ => ⟨id, i, by simp, by simp [held]⟩⟩,
      hend, _, _, rfl, by simp, quiet_cons rfl hquiet, _, _, rfl, by simp, hquiet, hrest⟩
    · rw [hgs]
      exact .sched i
    · have : held (⟨.sched (.slot i), false⟩ :: (m.core c).guards) =
          [.sched (.slot i), .table] := by
        rw [← hgs]
        rfl
      rw [this]
      exact .queue i
  · intro op' hop'
    simp only [List.mem_cons] at hop'
    rcases hop' with rfl | rfl | rfl | hop'
    · exact trivial
    · exact trivial
    · exact ⟨hid, hview⟩
    · exact owned_of_quiet hend op' (by simpa using hop')
  · intro op' hop' id' hs
    simp only [List.mem_cons] at hop'
    rcases hop' with rfl | rfl | rfl | hop'
    · cases hs
    · cases hs
    · exact ⟨.getThreadMut id, by simp, hs⟩
    · rw [hend op' (by simpa using hop')] at hs
      cases hs

lemma Disciplined.ready {id : UInt64} {i : ℕ} (h : Disciplined m)
    (hcode : (m.core c).code = .ready id i :: rest) (hst : Started m.kernel c)
    (hk : Sched.ready { m.kernel with added := m.kernel.added.erase id } c (.slot i) = .ok k') :
    Disciplined (m.go c k' rest) := by
  have hsafe := h.safe c
  rw [hcode] at hsafe
  obtain ⟨hquiet, hrest⟩ := hsafe
  obtain ⟨hid, hview⟩ : id ∈ m.kernel.added ∧ view m.kernel i = some (id, .born) :=
    h.owned c (.ready id i) (by simp [hcode])
  have hkeeps := keeps_ready h.placed hst hid hview hk
  refine h.go hcode hkeeps (fun id' he => he ▸ rfl) (hrest.mono hkeeps.grows)
    (owned_of_quiet hquiet) fun op' hop' id' hs => ?_
  rw [hquiet op' hop'] at hs
  cases hs

lemma Disciplined.getCpuTls {o : Cpu} (h : Disciplined m)
    (hcode : (m.core c).code = .getCpuTls o :: rest) :
    Disciplined (m.go c m.kernel (.drop ::
      if m.kernel.online o then .maybeLoadBalance o :: rest else rest)) := by
  have hsafe := h.safe c
  rw [hcode] at hsafe
  obtain ⟨⟨g, hgs, hg⟩, hquiet, hrest⟩ := hsafe
  split
  · next hon =>
    have hq : Quiet (.maybeLoadBalance o :: rest) := quiet_cons rfl hquiet
    exact h.unfold hcode (quiet_cons rfl hq)
      ⟨g, [], hgs, by simp [hg], hq, rfl, hon, hquiet, hrest⟩
  · exact h.unfold hcode (quiet_cons rfl hquiet) ⟨g, [], hgs, by simp [hg], hquiet, hrest⟩

/-- The two ready queues are taken in the order of their CPUs. -/
lemma Disciplined.lockQueues {o lo hi : Cpu} (h : Disciplined m)
    (hcode : (m.core c).code = .maybeLoadBalance o :: rest) (hlt : lo < hi) (hne : c ≠ o) :
    Disciplined (m.go c m.kernel
      (.lock (.queue lo) :: .lock (.queue hi) :: .doLoadBalance o :: .drop :: .drop :: rest)) := by
  have hsafe := h.safe c
  rw [hcode] at hsafe
  obtain ⟨hgs, hon, hquiet, hrest⟩ := hsafe
  have hq : Quiet (.drop :: .drop :: rest) := quiet_cons rfl (quiet_cons rfl hquiet)
  refine h.unfold hcode
    (quiet_cons rfl (quiet_cons rfl (quiet_cons rfl hq))) ?_
  rw [hgs]
  exact ⟨⟨.single _ (by simp), by simp [held]⟩, ⟨.queues lo hi hlt, by simp [held]⟩,
    ⟨lo, hi, hlt, rfl⟩, hne, hon, hq,
    _, _, rfl, by simp, quiet_cons rfl hquiet, _, _, rfl, by simp, hquiet, hrest⟩

lemma Disciplined.doLoadBalance {o s d : Cpu} (n : ℕ) (h : Disciplined m)
    (hcode : (m.core c).code = .doLoadBalance o :: rest) (hsd : s = c ∧ d = o ∨ s = o ∧ d = c) :
    Disciplined (m.go c m.kernel (.moveThreads n s d :: println ++ rest)) := by
  have hsafe := h.safe c
  rw [hcode] at hsafe
  obtain ⟨hb, hne, hon, hquiet, hrest⟩ := hsafe
  have hprint : Safe m.kernel c (m.core c).guards (println ++ rest) := by
    have hb' := hb
    obtain ⟨lo, hi, hlt, hgs⟩ := hb'
    refine ⟨hb.takes ?_, _, _, rfl, by simp, hquiet, hrest⟩
    rw [hgs]
    exact .printing lo hi hlt
  have hq : Quiet (println ++ rest) := quiet_cons rfl (quiet_cons rfl hquiet)
  refine h.unfold hcode (quiet_cons rfl hq) ⟨hb, ?_, ?_, hq, hprint⟩
  · rcases hsd with ⟨rfl, rfl⟩ | ⟨rfl, rfl⟩
    · exact hne
    · exact hne.symm
  · rcases hsd with ⟨rfl, rfl⟩ | ⟨rfl, rfl⟩
    · exact .inr hon
    · exact .inl rfl

/-- One round of the loop. The thread to be moved stands in a queue, so it is ready. -/
lemma Disciplined.moveThreads {n : ℕ} {s d : Cpu} {a : ThreadAddr Cpu}
    {q : Queue (ThreadAddr Cpu)} (h : Disciplined m)
    (hcode : (m.core c).code = .moveThreads (n + 1) s d :: rest)
    (hpop : (m.kernel.tls s).readyQueue.pop = .ok (some (a, q))) :
    Disciplined (m.go c m.kernel (.lock (.sched a) :: .moveThread s d :: .drop ::
      .moveThreads n s d :: rest)) := by
  have hsafe := h.safe c
  rw [hcode] at hsafe
  obtain ⟨hb, hne, hon, hquiet, hrest⟩ := hsafe
  have hq : Quiet (.moveThreads n s d :: rest) := quiet_cons rfl hquiet
  refine h.unfold hcode (quiet_cons rfl (quiet_cons rfl (quiet_cons rfl hq)))
    ⟨hb.takes ?_, hne, hon, _, _, rfl, by simp, hq, hb, hne, hon, hquiet, hrest⟩
  have hmem : a ∈ queue m.kernel s := by
    rcases (h.placed.wf s).pop_cases with ⟨-, hp⟩ | ⟨a', q', hp, -, hl⟩
    · rw [hpop] at hp
      cases hp
    · rw [hpop] at hp
      cases hp
      simp [queue, hl]
  obtain ⟨i, rfl⟩ := h.placed.slots s a hmem
  obtain ⟨lo, hi, hlt, hgs⟩ := hb
  rw [hgs]
  exact .moved i lo hi hlt (h.placed.ready_of_here (here_queue_pos hmem))

/-- **Every step keeps the discipline.** -/
lemma Disciplined.exec (h : Disciplined m) (hcode : (m.core c).code = op :: rest)
    (hs : exec m c rest op = .ok m') : Disciplined m' := by
  have hsafe := h.safe c
  rw [hcode] at hsafe
  cases op with
  | lock l =>
    cases hs
    exact h.lock hcode
  | spin l b =>
    simp only [Locks.exec] at hs
    split at hs
    · cases hs
    · next hfree =>
      cases hs
      exact h.spin hcode hfree
  | drop =>
    simp only [Locks.exec] at hs
    split at hs
    · cases hs
    · next g gs hgs =>
      cases hs
      exact h.drop hcode hgs
  | allocFrame =>
    obtain ⟨k', hk, hs⟩ := bind_ok.mp hs
    cases hs
    exact h.effect hcode (keeps_allocFrame h.placed hk) hsafe
  | setupTls base =>
    obtain ⟨k', hk, hs⟩ := bind_ok.mp hs
    cases hs
    exact h.effect hcode (keeps_setupTls h.placed hk) hsafe
  | forceSwitchToIdle =>
    obtain ⟨k', hk, hs⟩ := bind_ok.mp hs
    cases hs
    obtain ⟨hgs, rfl⟩ := hsafe
    exact h.enable (keeps_forceSwitchToIdle h.placed hk) hgs
  | spawnRaw base =>
    obtain ⟨k', hk, hs⟩ := bind_ok.mp hs
    cases hs
    exact h.effect hcode (keeps_spawnRaw h.placed hk) hsafe
  | addThread id =>
    obtain ⟨k', hk, hs⟩ := bind_ok.mp hs
    cases hs
    exact h.effect hcode (keeps_addThread h.placed hk) hsafe
  | getThreadMut id =>
    obtain ⟨i, hi, hs⟩ := bind_ok.mp hs
    cases hs
    exact h.getThreadMut hcode (unwrap_ok.mp hi)
  | ready id i =>
    obtain ⟨_, hg, hs⟩ := bind_ok.mp hs
    obtain ⟨k', hk, hs⟩ := bind_ok.mp hs
    cases hs
    exact h.ready hcode (guard_ok.mp hg) hk
  | saveRsp rsp =>
    obtain ⟨k', hk, hs⟩ := bind_ok.mp hs
    cases hs
    exact h.effect hcode (keeps_saveRsp h.placed hk) hsafe
  | switch =>
    obtain ⟨k', hk, hs⟩ := bind_ok.mp hs
    cases hs
    exact h.effect hcode (keeps_switch h.placed hk) hsafe
  | getCpuTls o =>
    cases hs
    exact h.getCpuTls hcode
  | maybeLoadBalance o =>
    obtain ⟨hgs, -, hquiet, hrest⟩ := hsafe
    simp only [Locks.exec] at hs
    cases hs
    split
    · exact h.unfold hcode hquiet (by rw [hgs]; exact hrest)
    · next hne =>
      split
      · next hlt => exact h.lockQueues hcode hlt hne
      · next hge => exact h.lockQueues hcode (lt_of_le_of_ne (not_lt.mp hge) (Ne.symm hne)) hne
  | doLoadBalance o =>
    obtain ⟨-, -, -, hquiet, hrest⟩ := hsafe
    simp only [Locks.exec] at hs
    cases hs
    split
    · exact h.unfold hcode hquiet hrest
    · split
      · exact h.doLoadBalance _ hcode (.inl ⟨rfl, rfl⟩)
      · exact h.doLoadBalance _ hcode (.inr ⟨rfl, rfl⟩)
  | moveThreads n s d =>
    obtain ⟨hb, hne, hon, hquiet, hrest⟩ := hsafe
    cases n with
    | zero =>
      cases hs
      exact h.unfold hcode hquiet hrest
    | succ n =>
      obtain ⟨x, hpop, hs⟩ := bind_ok.mp hs
      cases x with
      | none =>
        cases hs
        exact h.unfold hcode (quiet_cons rfl hquiet) ⟨hb, hne, hon, hquiet, hrest⟩
      | some x =>
        cases hs
        exact h.moveThreads hcode hpop
  | moveThread s d =>
    obtain ⟨hne, hon, hrest⟩ := hsafe
    obtain ⟨_, hg, hs⟩ := bind_ok.mp hs
    obtain ⟨k', hk, hs⟩ := bind_ok.mp hs
    cases hs
    have hond : m.kernel.online d = true := by
      rcases hon with rfl | hon
      · exact h.placed.online (guard_ok.mp hg)
      · exact hon
    exact h.effect hcode (keeps_moveThread h.placed hne hond hk) hrest
  | iretq =>
    cases hs
    obtain ⟨hgs, rfl⟩ := hsafe
    exact h.enable (.refl h.placed) hgs

lemma Disciplined.boot (h : Locks.Boot m) : Disciplined m where
  placed := .boot h.kernel
  locks l d := by
    rw [h.locks l, h.core d]
    simp [held]
  nested d := by
    rw [h.core d]
    exact .nil
  safe d := by
    rw [h.core d]
    rfl
  interrupts d hint := by
    rw [h.core d]
  owned d op hop := by
    rw [h.core d] at hop
    cases hop
  alone d e op hop := by
    rw [h.core d] at hop
    cases hop

/-- A CPU without code holds no lock. -/
lemma Disciplined.no_guards (h : Disciplined m) (hcode : (m.core c).code = []) :
    (m.core c).guards = [] := by
  have hsafe := h.safe c
  rw [hcode] at hsafe
  exact hsafe

omit [Fintype Cpu] in
lemma takes_first {l : Lock Cpu} (hl : ∀ a, l ≠ .sched a) : Takes k c [] l rest :=
  ⟨.single l hl, by simp [held]⟩

omit [Fintype Cpu] in
/-- A lock taken and dropped again at once. -/
lemma safe_lock_drop {l : Lock Cpu} (hl : ∀ a, l ≠ .sched a) (hquiet : Quiet rest)
    (hrest : Safe k c [] rest) : Safe k c [] (.lock l :: .drop :: rest) :=
  ⟨takes_first hl, _, _, rfl, by simp, hquiet, hrest⟩

omit [Fintype Cpu] in
lemma safe_allocFrame (hquiet : Quiet rest) (hrest : Safe k c [] rest) :
    Safe k c [] (Locks.allocFrame ++ rest) :=
  ⟨takes_first (by simp), _, _, rfl, by simp, hquiet, hrest⟩

lemma Disciplined.commonEntry {base : UInt64} (h : Disciplined m)
    (hcode : (m.core c).code = []) (hint : (m.core c).interrupts = false) :
    Disciplined (m.go c m.kernel (commonEntry base)) := by
  have heq : m.go c m.kernel (Locks.commonEntry base) = m.setCore c
      { m.core c with interrupts := false, code := Locks.commonEntry base } := by
    rw [← hint]
    rfl
  have hquiet : Quiet (Locks.commonEntry base : List (Op Cpu)) := by
    simp [Quiet, Locks.commonEntry, println, Locks.allocFrame, Op.spawns]
  have hend : Safe m.kernel c [] [.forceSwitchToIdle] := ⟨rfl, rfl⟩
  have htables := safe_allocFrame (by simp [Quiet, Locks.allocFrame, Op.spawns])
    (safe_allocFrame (by simp [Quiet, Op.spawns]) hend)
  have htls : Safe m.kernel c [] ([.lock .cpus, .setupTls base, .drop] ++
      (Locks.allocFrame ++ (Locks.allocFrame ++ [.forceSwitchToIdle]))) :=
    ⟨takes_first (by simp), _, _, rfl, by simp,
      by simp [Quiet, Locks.allocFrame, Op.spawns], htables⟩
  rw [heq]
  refine h.setCode ?_ (owned_of_quiet hquiet) fun op hop id hs => ?_
  · rw [h.no_guards hcode]
    refine safe_lock_drop (by simp) (by simp [Quiet, Locks.allocFrame, Op.spawns]) ?_
    refine safe_allocFrame (by simp [Quiet, Locks.allocFrame, Op.spawns]) ?_
    exact safe_allocFrame (by simp [Quiet, Locks.allocFrame, Op.spawns]) htls
  · rw [hquiet op hop] at hs
    cases hs

omit [LinearOrder Cpu] [Fintype Cpu] in
/-- A section that goes on with a spawn finds its thread waiting, and no other CPU at it. -/
lemma owned_of_pending {s : Section} (hp : Pending m s) (hop : op ∈ s.code) :
    Owned m.kernel op ∧ ∀ id, op.spawns = some id → ∀ d, ∀ op' ∈ (m.core d).code,
      op'.spawns ≠ some id := by
  cases s with
  | addThread id =>
    simp only [Section.code, List.mem_cons, List.not_mem_nil, or_false] at hop
    rcases hop with rfl | rfl
    · refine ⟨trivial, fun id' hs => ?_⟩
      cases hs
      exact hp.2
    · exact ⟨trivial, by simp [Op.spawns]⟩
  | ready id =>
    simp only [Section.code, List.mem_cons, List.not_mem_nil, or_false] at hop
    rcases hop with rfl | rfl
    · refine ⟨hp.1, fun id' hs => ?_⟩
      cases hs
      exact hp.2
    · exact ⟨trivial, by simp [Op.spawns]⟩
  | spawnRaw base =>
    simp only [Section.code, List.mem_cons, List.not_mem_nil, or_false] at hop
    rcases hop with rfl | rfl <;> exact ⟨trivial, by simp [Op.spawns]⟩
  | allocFrame =>
    simp only [Section.code, List.mem_cons, List.not_mem_nil, or_false] at hop
    rcases hop with rfl | rfl <;> exact ⟨trivial, by simp [Op.spawns]⟩
  | println =>
    rw [List.mem_singleton.mp hop]
    exact ⟨trivial, by simp [Op.spawns]⟩

lemma Disciplined.call {s : Section} (h : Disciplined m) (hcode : (m.core c).code = [])
    (hp : Pending m s) :
    Disciplined (m.setCore c
      { m.core c with interrupts := false, code := .spin s.lock true :: s.code }) := by
  refine h.setCode ?_ (fun op hop => ?_) fun op hop id hs d _ => ?_
  · rw [h.no_guards hcode]
    refine ⟨takes_first ?_, ?_⟩
    · cases s <;> simp [Section.lock]
    · cases s with
      | ready id =>
        exact ⟨rfl, by simp [Quiet, Op.spawns], _, _, rfl, by simp, by simp [Quiet], rfl⟩
      | _ => exact ⟨_, _, rfl, by simp, by simp [Quiet], rfl⟩
  · rcases List.mem_cons.mp hop with rfl | hop
    · exact trivial
    · exact (owned_of_pending hp hop).1
  · rcases List.mem_cons.mp hop with rfl | hop
    · cases hs
    · exact (owned_of_pending hp hop).2 id hs d

lemma Disciplined.timerInterrupt {o : Cpu} {rsp : UInt64} (h : Disciplined m)
    (hcode : (m.core c).code = []) :
    Disciplined (m.setCore c
      { m.core c with interrupts := false, code := timerInterrupt c o rsp ++ (m.core c).code }) := by
  have hquiet : Quiet (Locks.timerInterrupt c o rsp) := by
    simp [Quiet, Locks.timerInterrupt, Op.spawns]
  rw [hcode, List.append_nil]
  refine h.setCode ?_ (owned_of_quiet hquiet) fun op hop id hs => ?_
  · rw [h.no_guards hcode]
    refine ⟨takes_first (by simp), _, _, rfl, by simp, by simp [Quiet, Op.spawns], ?_⟩
    exact ⟨takes_first (by simp), ⟨_, rfl, rfl⟩, by simp [Quiet, Op.spawns], rfl, rfl⟩
  · rw [hquiet op hop] at hs
    cases hs

lemma Disciplined.step {a : Locks.Act Cpu} (h : Disciplined m) (hs : Locks.step m a = .ok m') :
    Disciplined m' := by
  cases a with
  | commonEntry c base =>
    obtain ⟨_, hg, hs⟩ := bind_ok.mp hs
    cases hs
    obtain ⟨hcode, hint⟩ := guard_ok.mp hg
    exact h.commonEntry (List.isEmpty_iff.mp hcode) hint
  | call c s =>
    obtain ⟨_, hg, hs⟩ := bind_ok.mp hs
    obtain ⟨hcode, hint, hp⟩ := guard_ok.mp hg
    cases hs
    rw [hint]
    exact h.call (List.isEmpty_iff.mp hcode) hp
  | timerInterrupt c o rsp =>
    obtain ⟨_, hg, hs⟩ := bind_ok.mp hs
    cases hs
    exact h.timerInterrupt (h.interrupts c (guard_ok.mp hg))
  | next c =>
    simp only [Locks.step] at hs
    split at hs
    · cases hs
    · next op rest hcode => exact h.exec hcode hs

/-! ### Who waits for whom -/

/-- How far up a CPU with these locks is. Without locks it is at the bottom, then come `ready`, load
balancing with one queue, ranked by its CPU, and load balancing with both. -/
def rank : List (Lock Cpu) → WithBot (WithBot (WithTop Cpu))
  | [] => ⊥
  | [.queue lo] => ((lo : WithTop Cpu) : WithBot (WithTop Cpu))
  | ls => if .table ∈ ls then ((⊥ : WithBot (WithTop Cpu)) : WithBot (WithBot (WithTop Cpu)))
    else (((⊤ : WithTop Cpu) : WithBot (WithTop Cpu)) : WithBot (WithBot (WithTop Cpu)))

section Rank

omit [Fintype Cpu]

lemma rank_ready (a : ThreadAddr Cpu) : rank [.sched a, .table] =
    ((⊥ : WithBot (WithTop Cpu)) : WithBot (WithBot (WithTop Cpu))) := by
  simp [rank]

lemma rank_queues (lo hi : Cpu) : rank [.queue hi, .queue lo] =
    (((⊤ : WithTop Cpu) : WithBot (WithTop Cpu)) : WithBot (WithBot (WithTop Cpu))) := by
  simp [rank]

lemma rank_ready_lt (a : ThreadAddr Cpu) (lo : Cpu) :
    rank [.sched a, .table] < rank [.queue lo] := by
  rw [rank_ready]
  exact WithBot.coe_lt_coe.mpr (WithBot.bot_lt_coe _)

lemma rank_queue_lt {lo lo' : Cpu} (h : lo < lo') : rank [.queue lo] < rank [.queue lo'] :=
  WithBot.coe_lt_coe.mpr (WithBot.coe_lt_coe.mpr (WithTop.coe_lt_coe.mpr h))

lemma rank_queue_lt_queues (x lo hi : Cpu) : rank [.queue x] < rank [.queue hi, .queue lo] := by
  rw [rank_queues]
  exact WithBot.coe_lt_coe.mpr (WithBot.coe_lt_coe.mpr (WithTop.coe_lt_top x))

/-- Who wants a ready queue stands below the CPU that balances load with both. -/
lemma rank_lt_queues {x lo hi : Cpu} {ls : List (Lock Cpu)} (hn : Nested k c (.queue x :: ls)) :
    rank ls < rank [.queue hi, .queue lo] := by
  cases hn with
  | single =>
    rw [rank_queues]
    exact WithBot.bot_lt_coe _
  | queue i => exact (rank_ready_lt _ lo).trans (rank_queue_lt_queues lo lo hi)
  | queues lo' _ _ => exact rank_queue_lt_queues lo' lo hi

end Rank

lemma Disciplined.of_wants {l : Lock Cpu} (h : Disciplined m) (hw : wants m c = some l) :
    ∃ rest, Takes m.kernel c (m.core c).guards l rest ∧
      ∀ op ∈ rest, op ∈ (m.core c).code := by
  unfold wants at hw
  split at hw
  · next l' b rest hcode =>
    cases hw
    have hsafe := h.safe c
    rw [hcode] at hsafe
    exact ⟨rest, hsafe.1, fun op hop => by rw [hcode]; exact List.mem_cons_of_mem _ hop⟩
  · cases hw

/-- A thread `ready` is still to be called on is not ready. -/
lemma Disciplined.not_ready {id : UInt64} {i : ℕ} (h : Disciplined m)
    (hop : .ready id i ∈ (m.core c).code) : isReady m.kernel i = false := by
  obtain ⟨-, hview⟩ : id ∈ m.kernel.added ∧ view m.kernel i = some (id, .born) := h.owned c _ hop
  simp [isReady, hview]

/-- A `sched_state` is held by a CPU that holds the table, or its thread is ready. -/
lemma Disciplined.of_holds_sched {a : ThreadAddr Cpu} (h : Disciplined m)
    (ha : m.locks (.sched a) = some c) :
    m.locks .table = some c ∨ ∃ i, a = .slot i ∧ isReady m.kernel i = true := by
  rw [h.locks] at ha ⊢
  have hn := h.nested c
  generalize held (m.core c).guards = ls at *
  cases hn with
  | nil => cases ha
  | single l hl => exact absurd (List.mem_singleton.mp ha).symm (hl a)
  | sched i => exact .inl (by simp)
  | queue i => exact .inl (by simp)
  | queues lo hi hlt => simp at ha
  | moved i lo hi hlt hr =>
    simp only [List.mem_cons, Lock.sched.injEq, reduceCtorEq, List.not_mem_nil, or_false] at ha
    exact .inr ⟨i, ha, hr⟩
  | printing lo hi hlt => simp at ha

/-- **On a chain of waits the rank goes up.** -/
lemma Disciplined.rank_lt {e : Cpu} (h : Disciplined m) (hcd : Waits (wants m) m.locks c d)
    (hde : Waits (wants m) m.locks d e) :
    rank (held (m.core c).guards) < rank (held (m.core d).guards) := by
  obtain ⟨l, hcl, hld⟩ := hcd
  obtain ⟨l', hdl, hle⟩ := hde
  obtain ⟨restc, ⟨hnc, -⟩, -⟩ := h.of_wants hcl
  obtain ⟨restd, ⟨hnd, htd⟩, hsubd⟩ := h.of_wants hdl
  rw [h.locks] at hld
  have hmine := fun x => h.locks x d
  have htable := h.locks .table c
  have hsame : c = d → held (m.core c).guards = held (m.core d).guards := fun he => he ▸ rfl
  generalize held (m.core c).guards = lc at *
  generalize held (m.core d).guards = ld at *
  cases hnd with
  | single => cases hld
  | sched i =>
    -- nobody holds the lock of the thread that `ready` is being called on
    obtain ⟨id, i', hready, hi'⟩ := htd (by simp)
    obtain rfl : i' = i := by simpa using hi'
    rcases h.of_holds_sched hle with ht | ⟨j, hj, hr⟩
    · have hd : m.locks .table = some d := (hmine .table).mpr (by simp)
      rw [hd] at ht
      cases ht
      simpa using (hmine _).mp hle
    · cases hj
      rw [h.not_ready (hsubd _ hready)] at hr
      cases hr
  | queue i =>
    -- nor does anybody want it who holds a lock
    obtain ⟨id, i', hready, hi'⟩ := htd (by simp)
    obtain rfl : i' = i := by simpa using hi'
    simp only [List.mem_cons, List.not_mem_nil, or_false] at hld
    rcases hld with rfl | rfl
    · cases hnc with
      | single _ hl => exact absurd rfl (hl _)
      | sched =>
        have hd : m.locks .table = some d := (hmine .table).mpr (by simp)
        have hc : m.locks .table = some c := htable.mpr (by simp)
        rw [hd] at hc
        cases hc
        simpa using hsame rfl
      | moved _ lo hi hlt hr =>
        rw [h.not_ready (hsubd _ hready)] at hr
        cases hr
    · cases hnc with
      | single =>
        rw [rank_ready]
        exact WithBot.bot_lt_coe _
  | queues lo hi hlt =>
    obtain rfl := List.mem_singleton.mp hld
    cases hnc with
    | single => exact WithBot.bot_lt_coe _
    | queue i => exact rank_ready_lt _ _
    | queues lo' hi' hlt' => exact rank_queue_lt hlt'
  | moved i lo hi hlt hr =>
    simp only [List.mem_cons, List.not_mem_nil, or_false] at hld
    rcases hld with rfl | rfl
    · exact rank_lt_queues hnc
    · exact rank_lt_queues hnc
  | printing lo hi hlt =>
    simp only [List.mem_cons, List.not_mem_nil, or_false] at hld
    rcases hld with rfl | rfl
    · exact rank_lt_queues hnc
    · exact rank_lt_queues hnc

/-- **The scheduler's locks cannot deadlock.** In every state any interleaving of the CPUs reaches,
no CPUs wait for each other in a circle, and a CPU that takes a timer interrupt holds no lock. -/
theorem no_deadlock (h : Reachable Locks.step Locks.Boot m) :
    (∀ c, ¬ Relation.TransGen (Waits (wants m) m.locks) c c) ∧
      ∀ c o rsp m', Locks.step m (.timerInterrupt c o rsp) = .ok m' → ∀ l, m.locks l ≠ some c := by
  have hd : Disciplined m := h.inv (fun _ hb => .boot hb) fun _ _ _ hd hs => hd.step hs
  refine ⟨acyclic_of_rank (fun c => rank (held (m.core c).guards))
    fun a b c hab hbc => hd.rank_lt hab hbc, ?_⟩
  intro c o rsp m' hs l hl
  obtain ⟨_, hg, -⟩ := bind_ok.mp hs
  rw [hd.locks, hd.no_guards (hd.interrupts c (guard_ok.mp hg))] at hl
  cases hl

def bootMachine : Machine (Fin 3) :=
  ⟨bootKernel (Fin 3) 64, fun _ => none, fun _ => ⟨false, [], []⟩⟩

/-- Three CPUs start, and two of them spawn a thread. The first is making its thread ready when the
second wants to put its own in the table. -/
def twoSpawns (c d e : Cpu) : List (Locks.Act Cpu) :=
  Locks.Act.commonEntry c 0x10000 :: List.replicate 24 (Locks.Act.next c) ++
    Locks.Act.commonEntry d 0x20000 :: List.replicate 24 (Locks.Act.next d) ++
    Locks.Act.commonEntry e 0x30000 :: List.replicate 24 (Locks.Act.next e) ++
    Locks.Act.call c .allocFrame :: List.replicate 3 (Locks.Act.next c) ++
    Locks.Act.call c (.spawnRaw 0x40000) :: List.replicate 3 (Locks.Act.next c) ++
    Locks.Act.call c (.addThread 1) :: List.replicate 3 (Locks.Act.next c) ++
    Locks.Act.call d .allocFrame :: List.replicate 3 (Locks.Act.next d) ++
    Locks.Act.call d (.spawnRaw 0x50000) :: List.replicate 3 (Locks.Act.next d) ++
    [Locks.Act.call c (.ready 1), Locks.Act.next c, Locks.Act.next c,
      Locks.Act.call d (.addThread 2)]

theorem no_deadlock_two_spawns :
    ∃ m, run Locks.step bootMachine (twoSpawns 0 1 2) = .ok m ∧ Waits (wants m) m.locks 1 0 ∧
      ¬ Relation.TransGen (Waits (wants m) m.locks) 1 1 ∧ m.locks .table ≠ some 2 := by
  obtain ⟨m, hm, hf⟩ := exists_run_of_map
    (f := fun m => (wants m 1, m.locks .table, (m.core 2).interrupts))
    (c := (some .table, some 0, true))
    (show (run Locks.step bootMachine (twoSpawns 0 1 2)).map _ = _ by rfl)
  obtain ⟨hwants, hrest⟩ := Prod.mk.inj hf
  obtain ⟨htable, hint⟩ := Prod.mk.inj hrest
  have hreach : Reachable Locks.step Locks.Boot m :=
    ⟨bootMachine, twoSpawns 0 1 2, ⟨boot_bootKernel (by decide), fun _ => rfl, fun _ => rfl⟩, hm⟩
  obtain ⟨hacyclic, htimer⟩ := no_deadlock hreach
  have hs : Locks.step m (.timerInterrupt 2 0 0x500) = .ok (m.setCore 2
      { m.core 2 with interrupts := false, code := timerInterrupt 2 0 0x500 ++ (m.core 2).code }) := by
    simp only [Locks.step]
    rw [guard_bind hint]
  exact ⟨m, hm, ⟨.table, hwants, htable⟩, hacyclic 1, htimer 2 0 0x500 _ hs .table⟩

end OsRust.Deadlock
