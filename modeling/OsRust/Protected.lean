import OsRust.Slots
import OsRust.Locks

/-!
What the locks protect: a step that does without a lock does the same whatever is behind it, and
leaves that as it is.

Behind the lock of the allocator are the free frames, behind that of the table the free slots,
behind `CPUS` who is online, behind that of a thread its `sched_state`, behind that of a ready queue
the queue. Behind no lock are the registers saved in a thread and the `thread_addr` of a TLS page,
which a CPU writes for itself only, and a TLS page with its idle thread until its CPU is online. The
counter of identifiers is atomic, and the identifier and the stack of a thread in the table never
change.
-/

namespace OsRust.Protected

open OsRust.Ring OsRust.Task OsRust.Sched OsRust.Effects OsRust.Locks OsRust.Lib.Machine

variable {Cpu : Type}

/-! ### The table -/

section Table

variable {t : Thread Cpu} {tbl tbl' : ThreadTable Cpu}

lemma addLoop_slot (l : List (Option (Thread Cpu))) (t : Thread Cpu) :
    addLoop l t = match l.findIdx? Option.isNone with
      | some i => (l.set i (some t), true)
      | none => (l, false) := by
  induction l with
  | nil => rfl
  | cons s l ih =>
    cases s with
    | none => simp [addLoop, List.findIdx?_cons]
    | some u =>
      rw [addLoop, ih, List.findIdx?_cons]
      cases l.findIdx? Option.isNone <;> simp

lemma addThread_full (h : tbl.threads.findIdx? Option.isNone = none) :
    tbl.addThread t = (tbl, false) := by
  have hl : addLoop tbl.threads t = (tbl.threads, false) := by rw [addLoop_slot, h]
  simp only [ThreadTable.addThread, hl]

lemma addThread_free {i : ℕ} (h : tbl.threads.findIdx? Option.isNone = some i) :
    tbl.get? i = none ∧ (tbl.addThread t).2 = true ∧
      ∀ j, (tbl.addThread t).1.get? j = if j = i then some t else tbl.get? j := by
  have hl : addLoop tbl.threads t = (tbl.threads.set i (some t), true) := by rw [addLoop_slot, h]
  obtain ⟨hlt, hnone, -⟩ := List.findIdx?_eq_some_iff_getElem.mp h
  refine ⟨?_, by simp only [ThreadTable.addThread, hl], fun j => ?_⟩
  · rw [ThreadTable.get?, List.getElem?_eq_getElem hlt, Option.isNone_iff_eq_none.mp hnone]
    rfl
  · simp only [ThreadTable.addThread, hl, ThreadTable.get?, List.getElem?_set]
    by_cases hij : i = j
    · subst hij
      simp [hlt]
    · simp [hij, Ne.symm hij]

/-- Two tables with the same free slots take a thread into the same slot. -/
lemma addThread_alike (h : ∀ i, tbl.get? i = none ↔ tbl'.get? i = none) (t : Thread Cpu) :
    (tbl.addThread t).2 = (tbl'.addThread t).2 ∧
      ((∃ i, tbl.get? i = none ∧
          (∀ j, (tbl.addThread t).1.get? j = if j = i then some t else tbl.get? j) ∧
          ∀ j, (tbl'.addThread t).1.get? j = if j = i then some t else tbl'.get? j) ∨
        (tbl.addThread t).1 = tbl ∧ (tbl'.addThread t).1 = tbl') := by
  have hmap : tbl.threads.map Option.isNone = tbl'.threads.map Option.isNone := by
    refine List.ext_getElem (by rw [List.length_map, List.length_map, tbl.size, tbl'.size])
      fun i hi hi' => ?_
    have := h i
    rw [List.length_map] at hi hi'
    rw [ThreadTable.get?, ThreadTable.get?, List.getElem?_eq_getElem hi,
      List.getElem?_eq_getElem hi', Option.join_some, Option.join_some] at this
    rw [List.getElem_map, List.getElem_map, Bool.eq_iff_iff, Option.isNone_iff_eq_none,
      Option.isNone_iff_eq_none]
    exact this
  have hidx : tbl.threads.findIdx? Option.isNone = tbl'.threads.findIdx? Option.isNone := by
    have := congrArg (List.findIdx? id) hmap
    rwa [List.findIdx?_map, List.findIdx?_map] at this
  cases hi : tbl.threads.findIdx? Option.isNone with
  | none =>
    rw [addThread_full hi, addThread_full (hidx ▸ hi)]
    exact ⟨rfl, .inr ⟨rfl, rfl⟩⟩
  | some i =>
    obtain ⟨hfree, htaken, hset⟩ := addThread_free (t := t) hi
    obtain ⟨-, htaken', hset'⟩ := addThread_free (t := t) (hidx ▸ hi)
    exact ⟨htaken.trans htaken'.symm, .inl ⟨i, hfree, hset, hset'⟩⟩

lemma table_ext (h : ∀ i, tbl.get? i = tbl'.get? i) : tbl = tbl' := by
  obtain ⟨l, hl⟩ := tbl
  obtain ⟨l', hl'⟩ := tbl'
  have he : l = l' := by
    refine List.ext_getElem (hl.trans hl'.symm) fun i hi hi' => ?_
    have := h i
    rwa [ThreadTable.get?, ThreadTable.get?, List.getElem?_eq_getElem hi,
      List.getElem?_eq_getElem hi', Option.join_some, Option.join_some] at this
  subst he
  rfl

/-- A new thread goes into the same slot whatever is written to one that is there. -/
lemma addThread_modify {i : ℕ} (f : Thread Cpu → Thread Cpu)
    (hi : (tbl.get? i).isSome) (t : Thread Cpu) :
    ((tbl.modify i f).addThread t).1 = (tbl.addThread t).1.modify i f ∧
      ((tbl.modify i f).addThread t).2 = (tbl.addThread t).2 := by
  have hfree : ∀ j, tbl.get? j = none ↔ (tbl.modify i f).get? j = none := fun j => by
    rw [get?_modify]
    split <;> simp
  obtain ⟨htaken, ⟨j, hj, hset, hset'⟩ | ⟨hfull, hfull'⟩⟩ := addThread_alike hfree t
  · have hij : i ≠ j := by
      rintro rfl
      simp [hj] at hi
    refine ⟨table_ext fun b => ?_, htaken.symm⟩
    rw [hset', get?_modify, get?_modify, hset]
    by_cases hb : b = j
    · subst hb
      simp [hij.symm]
    · simp [hb]
  · exact ⟨by rw [hfull, hfull'], htaken.symm⟩

/-- A table with more threads in the free slots. -/
def fill (x : ℕ → Option (Thread Cpu)) (tbl : ThreadTable Cpu) : ThreadTable Cpu :=
  ⟨tbl.threads.mapIdx fun i s => s.or (x i), by rw [List.length_mapIdx, tbl.size]⟩

lemma get?_fill (x : ℕ → Option (Thread Cpu)) (tbl : ThreadTable Cpu) (i : ℕ) :
    (fill x tbl).get? i = if i < 256 then (tbl.get? i).or (x i) else none := by
  simp only [fill, ThreadTable.get?, List.getElem?_mapIdx]
  split
  · next h =>
    rw [List.getElem?_eq_getElem (by rwa [tbl.size])]
    rfl
  · next h =>
    rw [List.getElem?_eq_none (by rw [tbl.size]; omega)]
    rfl

lemma getLoop_modify {f : Thread Cpu → Thread Cpu} (hf : ∀ t, (f t).id = t.id)
    (l : List (Option (Thread Cpu))) (i : ℕ) (id : UInt64) :
    getLoop (l.modify i (Option.map f)) id = getLoop l id := by
  induction l generalizing i with
  | nil => cases i <;> rfl
  | cons s l ih =>
    cases i with
    | zero => cases s <;> simp [getLoop, hf]
    | succ i => cases s <;> simp [getLoop, ih]

end Table

/-! ### The threads -/

section Threads

variable [DecidableEq Cpu] {th th' : Threads Cpu} {a b : ThreadAddr Cpu}

omit [DecidableEq Cpu] in
lemma threads_ext (h : ∀ a, th.get? a = th'.get? a) : th = th' := by
  obtain ⟨tbl, idle⟩ := th
  obtain ⟨tbl', idle'⟩ := th'
  have ht : tbl = tbl' := table_ext fun i => h (.slot i)
  have hi : idle = idle' := funext fun c => Option.some.inj (h (.idle c))
  rw [ht, hi]

/-- Two writes can be swapped if they are to different threads or of different fields. -/
lemma write_modify {f g : Thread Cpu → Thread Cpu} (h : a ≠ b ∨ ∀ t, f (g t) = g (f t))
    (hw : th.write a f = .ok th') : (th.modify g b).write a f = .ok (th'.modify g b) := by
  obtain ⟨hsome, rfl⟩ := Threads.write_ok.mp hw
  refine Threads.write_ok.mpr ⟨?_, threads_ext fun e => ?_⟩
  · rw [Threads.get?_modify]
    split <;> simpa using hsome
  · simp only [Threads.get?_modify]
    by_cases ha : e = a
    · subst ha
      by_cases hb : e = b
      · subst hb
        have hfg := h.resolve_left fun hne => hne rfl
        simp [hfg, Function.comp_def]
      · simp [hb]
    · simp [ha]

/-- Other threads, in the slots that are free. -/
def fillThreads (x : ℕ → Option (Thread Cpu)) (th : Threads Cpu) : Threads Cpu :=
  { th with table := fill x th.table }

omit [DecidableEq Cpu] in
lemma get?_fillThreads {x : ℕ → Option (Thread Cpu)} (h : (th.get? a).isSome) :
    (fillThreads x th).get? a = th.get? a := by
  obtain ⟨t, ht⟩ := Option.isSome_iff_exists.mp h
  cases a with
  | null => rfl
  | idle c => rfl
  | slot i =>
    show (fill x th.table).get? i = th.table.get? i
    rw [get?_fill, if_pos (lt_of_get? ht), show th.table.get? i = some t from ht]
    rfl

/-- A write to a thread that is there does not depend on the free slots. -/
lemma write_fill {f : Thread Cpu → Thread Cpu} (x : ℕ → Option (Thread Cpu))
    (hw : th.write a f = .ok th') : (fillThreads x th).write a f = .ok (fillThreads x th') := by
  obtain ⟨hsome, rfl⟩ := Threads.write_ok.mp hw
  refine Threads.write_ok.mpr ⟨by rwa [get?_fillThreads hsome], threads_ext fun b => ?_⟩
  cases b with
  | null => cases a <;> rfl
  | idle c => cases a <;> rfl
  | slot j =>
    cases a with
    | null => cases hsome
    | idle c => rfl
    | slot i =>
      show (fill x (th.table.modify i f)).get? j = ((fill x th.table).modify i f).get? j
      rw [get?_fill, get?_modify, get?_modify, get?_fill]
      by_cases hj : j = i
      · subst hj
        obtain ⟨t, ht⟩ := Option.isSome_iff_exists.mp hsome
        have ht : th.table.get? j = some t := ht
        simp [ht]
      · simp [hj]

end Threads

/-! ### What is behind the locks -/

/-- Other data, put in the place of some that locks protect. No lock protects a `thread_addr`. -/
structure Put (Cpu : Type) where
  frames : ℕ → ℕ
  threads : Threads Cpu → Threads Cpu
  online : (Cpu → Bool) → Cpu → Bool
  tls : (Cpu → TlsData Cpu) → Cpu → TlsData Cpu
  addr : ∀ t c, (tls t c).threadAddr = (t c).threadAddr

def Put.apply (p : Put Cpu) (k : Kernel Cpu) : Kernel Cpu :=
  { k with
    freeFrames := p.frames k.freeFrames
    threads := p.threads k.threads
    online := p.online k.online
    tls := p.tls k.tls }

@[simp] lemma started_apply (p : Put Cpu) (k : Kernel Cpu) (c : Cpu) :
    Started (p.apply k) c ↔ Started k c := by
  rw [Started, Started, Put.apply, p.addr]

section Kernel

variable [LinearOrder Cpu]

/-- What a step does to the kernel. -/
def kernelPart (c : Cpu) : Op Cpu → Kernel Cpu → Res (Kernel Cpu)
  | .allocFrame, k => Sched.step k .allocFrame
  | .setupTls base, k => Sched.step k (.setupTls c base)
  | .forceSwitchToIdle, k => Sched.step k (.forceSwitchToIdle c)
  | .spawnRaw base, k => Sched.step k (.spawnRaw c base)
  | .addThread id, k => Sched.step k (.addThread c ((k.built.map Thread.id).idxOf id))
  | .ready id i, k => do
    guard (Started k c)
    Sched.ready { k with added := k.added.erase id } c (.slot i)
  | .saveRsp rsp, k => Sched.step k (.saveRsp c rsp)
  | .switch, k => Sched.step k (.switch c)
  | .moveThread s d, k => do
    guard (Started k c)
    Locks.moveThread k s d
  | _, k => .ok k

/-- The step sees no difference between the two kernels. -/
def SameReads (k k' : Kernel Cpu) (c : Cpu) : Op Cpu → Prop
  | .getThreadMut id => k'.threads.table.getThreadMut id = k.threads.table.getThreadMut id
  | .getCpuTls o => k'.online o = k.online o
  | .doLoadBalance o => (k'.tls c).readyQueue = (k.tls c).readyQueue ∧
      (k'.tls o).readyQueue = (k.tls o).readyQueue
  | .moveThreads _ s _ => (k'.tls s).readyQueue = (k.tls s).readyQueue
  | _ => True

/-- The step neither depends on what `f` changes nor changes it. -/
structure Untouched (f : Kernel Cpu → Kernel Cpu) (k : Kernel Cpu) (c : Cpu) (op : Op Cpu) :
    Prop where
  part : ∀ k', kernelPart c op k = .ok k' → kernelPart c op (f k) = .ok (f k')
  reads : SameReads k (f k) c op

end Kernel

section Exec

variable [LinearOrder Cpu] {m m' : Machine Cpu} {c : Cpu} {op : Op Cpu} {rest : List (Op Cpu)}

/-- The machine in another kernel. -/
def withKernel (m : Machine Cpu) (k : Kernel Cpu) : Machine Cpu := { m with kernel := k }

lemma exec_untouched {f : Kernel Cpu → Kernel Cpu} (h : Untouched f m.kernel c op)
    (hs : exec m c rest op = .ok m') :
    exec (withKernel m (f m.kernel)) c rest op = .ok (withKernel m' (f m'.kernel)) := by
  obtain ⟨hpart, hreads⟩ := h
  cases op with
  | lock l =>
    cases hs
    rfl
  | spin l b =>
    simp only [Locks.exec, withKernel] at hs ⊢
    split at hs
    · cases hs
    · cases hs
      rfl
  | drop =>
    simp only [Locks.exec, withKernel] at hs ⊢
    split at hs
    · cases hs
    · cases hs
      rfl
  | getThreadMut id =>
    obtain ⟨i, hi, hs⟩ := bind_ok.mp hs
    cases hs
    have hreads : (f m.kernel).threads.table.getThreadMut id = _ := hreads
    simp only [Locks.exec, withKernel, hreads, hi]
    rfl
  | ready id i =>
    obtain ⟨_, hg, hs⟩ := bind_ok.mp hs
    obtain ⟨k', hk, hs⟩ := bind_ok.mp hs
    cases hs
    have hpart' := hpart k' (by rw [kernelPart, guard_bind (guard_ok.mp hg), hk])
    obtain ⟨_, hg', hk'⟩ := bind_ok.mp hpart'
    rw [Locks.exec, withKernel, guard_bind (guard_ok.mp hg'), hk']
    rfl
  | moveThread s d =>
    obtain ⟨_, hg, hs⟩ := bind_ok.mp hs
    obtain ⟨k', hk, hs⟩ := bind_ok.mp hs
    cases hs
    have hpart' := hpart k' (by rw [kernelPart, guard_bind (guard_ok.mp hg), hk])
    obtain ⟨_, hg', hk'⟩ := bind_ok.mp hpart'
    rw [Locks.exec, withKernel, guard_bind (guard_ok.mp hg'), hk']
    rfl
  | getCpuTls o =>
    cases hs
    have hreads : (f m.kernel).online o = _ := hreads
    simp only [Locks.exec, withKernel, hreads]
    rfl
  | maybeLoadBalance o =>
    cases hs
    rfl
  | doLoadBalance o =>
    cases hs
    obtain ⟨hc, ho⟩ := hreads
    simp only [Locks.exec, withKernel, hc, ho]
    rfl
  | moveThreads n s d =>
    cases n with
    | zero =>
      cases hs
      rfl
    | succ n =>
      have hreads : ((f m.kernel).tls s).readyQueue = _ := hreads
      obtain ⟨x, hx, hs⟩ := bind_ok.mp hs
      simp only [Locks.exec, withKernel, hreads, hx, ok_bind]
      cases x <;> cases hs <;> rfl
  | iretq =>
    cases hs
    rfl
  | _ =>
    obtain ⟨k', hk, hs⟩ := bind_ok.mp hs
    cases hs
    have hk' := hpart k' hk
    simp only [kernelPart] at hk'
    simp only [Locks.exec, withKernel, hk']
    rfl

end Exec

/-! ### The steps, in every kernel -/

section Parts

variable [LinearOrder Cpu] {k k' : Kernel Cpu} {c d e s : Cpu} {a : ThreadAddr Cpu}

lemma part_setupTls {base : UInt64} : kernelPart c (.setupTls base) k = .ok k' ↔
    k.online c = false ∧ setupTls k c base = k' := by
  simp [kernelPart, Sched.step, bind_ok]

lemma part_forceSwitchToIdle : kernelPart c .forceSwitchToIdle k = .ok k' ↔
    (k.online c = true ∧ ¬ Started k c) ∧
      { k with tls := Function.update k.tls c (forceSwitchToIdle c (k.tls c)) } = k' := by
  simp [kernelPart, Sched.step, bind_ok]

lemma part_spawnRaw {base : UInt64} : kernelPart c (.spawnRaw base) k = .ok k' ↔ Started k c ∧
    4 ≤ k.freeFrames ∧
      { k with
        threadIdCounter := k.threadIdCounter + 1
        freeFrames := k.freeFrames - 4
        built := k.built ++ [newThread k.threadIdCounter (Stack.new base 4)] } = k' := by
  simp only [kernelPart, Sched.step, spawnRaw, bind_ok, guard_ok, exists_const, allocFrames_ok]
  refine and_congr_right fun _ => ?_
  constructor
  · rintro ⟨_, ⟨hle, rfl⟩, hk⟩
    exact ⟨hle, Except.ok.inj hk⟩
  · rintro ⟨hle, rfl⟩
    exact ⟨_, ⟨hle, rfl⟩, rfl⟩

lemma part_addThread {id : UInt64} : kernelPart c (.addThread id) k = .ok k' ↔ Started k c ∧
    ∃ t, k.built[(k.built.map Thread.id).idxOf id]? = some t ∧
      { k with
        threads := { k.threads with table := (k.threads.table.addThread t).1 }
        built := k.built.eraseIdx ((k.built.map Thread.id).idxOf id)
        added := if (k.threads.table.addThread t).2 then k.added ++ [t.id] else k.added } = k' := by
  simp only [kernelPart, Sched.step, bind_ok, guard_ok, exists_const]
  refine and_congr_right fun _ => ?_
  unfold addThread
  cases k.built[(k.built.map Thread.id).idxOf id]? <;> simp

lemma part_saveRsp {rsp : UInt64} : kernelPart c (.saveRsp rsp) k = .ok k' ↔ Started k c ∧
    ∃ th, k.threads.write (k.tls c).threadAddr (fun t => { t with regs := rsp }) = .ok th ∧
      { k with threads := th } = k' := by
  simp [kernelPart, Sched.step, saveRsp, bind_ok]

lemma part_switch : kernelPart c .switch k = .ok k' ↔ Started k c ∧
    ∃ t, switch c (k.tls c) = .ok t ∧ { k with tls := Function.update k.tls c t } = k' := by
  simp [kernelPart, Sched.step, bind_ok]

lemma part_ready {id : UInt64} {i : ℕ} : kernelPart c (.ready id i) k = .ok k' ↔ Started k c ∧
    ∃ th q, k.threads.write (.slot i) (Thread.markReady c) = .ok th ∧
      (k.tls c).readyQueue.push (.slot i) = .ok (.ok q) ∧
      { k with
        threads := th
        tls := Function.update k.tls c { k.tls c with readyQueue := q }
        added := k.added.erase id } = k' := by
  simp only [kernelPart, ready, bind_ok, guard_ok, Except.ok.injEq, exists_const]
  refine and_congr_right fun _ => ?_
  constructor
  · rintro ⟨th, hth, x, hx, q, hq, hk⟩
    exact ⟨th, q, hth, expect_ok.mp hq ▸ hx, hk⟩
  · rintro ⟨th, q, hth, hq, hk⟩
    exact ⟨th, hth, _, hq, q, rfl, hk⟩

lemma part_moveThread : kernelPart c (.moveThread s d) k = .ok k' ↔ Started k c ∧
    ∃ th qs qd, Sched.moveThreads d 1 k.threads (k.tls s).readyQueue (k.tls d).readyQueue =
        .ok (th, qs, qd) ∧
      { k with
        threads := th
        tls := Function.update
          (Function.update k.tls s { k.tls s with readyQueue := qs })
          d { k.tls d with readyQueue := qd } } = k' := by
  simp [kernelPart, Locks.moveThread, bind_ok]

/-- A round of moving threads writes to the thread at the front of its queue. -/
lemma moveThreads_one {F : Threads Cpu → Threads Cpu} {th th' : Threads Cpu}
    {src dst src' dst' : Queue (ThreadAddr Cpu)}
    (hF : ∀ a th', src.toList.head? = some a → th.write a (Thread.setCpu d) = .ok th' →
      (F th).write a (Thread.setCpu d) = .ok (F th'))
    (hsrc : src.Wf) (h : Sched.moveThreads d 1 th src dst = .ok (th', src', dst')) :
    Sched.moveThreads d 1 (F th) src dst = .ok (F th', src', dst') := by
  rcases hsrc.pop_cases with ⟨-, hpop⟩ | ⟨a, q, hpop, -, hl⟩
  · rw [Sched.moveThreads, hpop, ok_bind] at h ⊢
    cases h
    rfl
  · rw [Sched.moveThreads, hpop, ok_bind] at h ⊢
    obtain ⟨th₁, hw, h⟩ := bind_ok.mp h
    obtain ⟨x, hx, h⟩ := bind_ok.mp h
    obtain ⟨q', hq', h⟩ := bind_ok.mp h
    cases h
    have hw' := hF a th' (by rw [hl]; rfl) hw
    simp only [hw', hx, hq', ok_bind]
    rfl

end Parts

/-! ### What the steps do without -/

section Outside

variable [LinearOrder Cpu] {k k' : Kernel Cpu} {c : Cpu} {op : Op Cpu}

/-- The write does the same to the threads put there. -/
def SameWrite (p : Put Cpu) (k : Kernel Cpu) (a : ThreadAddr Cpu) (f : Thread Cpu → Thread Cpu) :
    Prop :=
  ∀ th, k.threads.write a f = .ok th → (p.threads k.threads).write a f = .ok (p.threads th)

/-- The data are put where the step neither reads nor writes. -/
def Outside (p : Put Cpu) (k : Kernel Cpu) (c : Cpu) : Op Cpu → Prop
  | .allocFrame => p.frames = id
  | .spawnRaw _ => p.frames = id
  | .setupTls _ => k.online c = false → p.online = id ∧
      (∀ t, p.threads { k.threads with idle := Function.update k.threads.idle c t } =
        { p.threads k.threads with idle := Function.update (p.threads k.threads).idle c t }) ∧
      ∀ t, p.tls (Function.update k.tls c t) = Function.update (p.tls k.tls) c t
  | .forceSwitchToIdle => p.online k.online c = k.online c ∧
      p.tls (Function.update k.tls c { k.tls c with threadAddr := .idle c }) =
        Function.update (p.tls k.tls) c { p.tls k.tls c with threadAddr := .idle c }
  | .addThread _ => ∀ t,
      p.threads { k.threads with table := (k.threads.table.addThread t).1 } =
        { p.threads k.threads with table := ((p.threads k.threads).table.addThread t).1 } ∧
      ((p.threads k.threads).table.addThread t).2 = (k.threads.table.addThread t).2
  | .getThreadMut id =>
      (p.threads k.threads).table.getThreadMut id = k.threads.table.getThreadMut id
  | .ready _ i => SameWrite p k (.slot i) (Thread.markReady c) ∧ p.tls k.tls c = k.tls c ∧
      ∀ t, p.tls (Function.update k.tls c t) = Function.update (p.tls k.tls) c t
  | .saveRsp rsp => SameWrite p k (k.tls c).threadAddr fun t => { t with regs := rsp }
  | .switch => p.tls k.tls c = k.tls c ∧
      ∀ t, p.tls (Function.update k.tls c t) = Function.update (p.tls k.tls) c t
  | .getCpuTls o => p.online k.online o = k.online o
  | .doLoadBalance o => p.tls k.tls c = k.tls c ∧ p.tls k.tls o = k.tls o
  | .moveThreads _ s _ => p.tls k.tls s = k.tls s
  | .moveThread s d => (∀ a ∈ (queue k s).head?, SameWrite p k a (Thread.setCpu d)) ∧
      p.tls k.tls s = k.tls s ∧ p.tls k.tls d = k.tls d ∧
      ∀ t t', p.tls (Function.update (Function.update k.tls s t) d t') =
        Function.update (Function.update (p.tls k.tls) s t) d t'
  | _ => True

lemma untouched_of_outside {p : Put Cpu} (hwf : QueuesWf k) (h : Outside p k c op) :
    Untouched p.apply k c op := by
  refine ⟨fun k' hk => ?_, ?_⟩
  · cases op with
    | allocFrame =>
      obtain ⟨hle, rfl⟩ := step_allocFrame hk
      have hf : p.frames = id := h
      exact allocFrames_ok.mpr ⟨by simpa [Put.apply, hf] using hle, by simp [Put.apply, hf]⟩
    | spawnRaw base =>
      obtain ⟨hst, hle, rfl⟩ := part_spawnRaw.mp hk
      have hf : p.frames = id := h
      exact part_spawnRaw.mpr ⟨(started_apply p k c).mpr hst, by simpa [Put.apply, hf] using hle,
        by simp [Put.apply, hf]⟩
    | setupTls base =>
      obtain ⟨hoff, rfl⟩ := part_setupTls.mp hk
      obtain ⟨hon, hth, htls⟩ := h hoff
      exact part_setupTls.mpr ⟨by simpa [Put.apply, hon] using hoff,
        by simp [Put.apply, setupTls, hon, hth, htls]⟩
    | forceSwitchToIdle =>
      obtain ⟨⟨hon, hst⟩, rfl⟩ := part_forceSwitchToIdle.mp hk
      exact part_forceSwitchToIdle.mpr ⟨⟨h.1.trans hon, mt (started_apply p k c).mp hst⟩,
        by simp [Put.apply, forceSwitchToIdle, h.2]⟩
    | addThread id =>
      obtain ⟨hst, t, ht, rfl⟩ := part_addThread.mp hk
      obtain ⟨hadd, htaken⟩ := h t
      exact part_addThread.mpr ⟨(started_apply p k c).mpr hst, t, ht,
        by simp [Put.apply, hadd, htaken]⟩
    | ready id i =>
      obtain ⟨hst, th, q, hw, hq, rfl⟩ := part_ready.mp hk
      obtain ⟨hth, hc, htls⟩ := h
      exact part_ready.mpr ⟨(started_apply p k c).mpr hst, p.threads th, q, hth th hw,
        by simpa [Put.apply, hc] using hq, by simp [Put.apply, hc, htls]⟩
    | saveRsp rsp =>
      obtain ⟨hst, th, hw, rfl⟩ := part_saveRsp.mp hk
      exact part_saveRsp.mpr ⟨(started_apply p k c).mpr hst, p.threads th,
        by simpa [Put.apply, p.addr] using h th hw, rfl⟩
    | switch =>
      obtain ⟨hst, t, ht, rfl⟩ := part_switch.mp hk
      obtain ⟨hc, htls⟩ := h
      exact part_switch.mpr ⟨(started_apply p k c).mpr hst, t, by simpa [Put.apply, hc] using ht,
        by simp [Put.apply, htls]⟩
    | moveThread s d =>
      obtain ⟨hst, th, qs, qd, hr, rfl⟩ := part_moveThread.mp hk
      obtain ⟨hth, hs, hd, htls⟩ := h
      have hr' := moveThreads_one (F := p.threads) (fun a th₁ ha => hth a ha th₁) (hwf s) hr
      exact part_moveThread.mpr ⟨(started_apply p k c).mpr hst, p.threads th, qs, qd,
        by simpa [Put.apply, hs, hd] using hr', by simp [Put.apply, hs, hd, htls]⟩
    | _ =>
      cases hk
      rfl
  · cases op with
    | getThreadMut id => exact h
    | getCpuTls o => exact h
    | doLoadBalance o => exact ⟨congrArg TlsData.readyQueue h.1, congrArg TlsData.readyQueue h.2⟩
    | moveThreads n s d => exact congrArg TlsData.readyQueue h
    | _ => trivial

end Outside

/-! ### One lemma for each lock -/

section Locks

variable [LinearOrder Cpu] {k k' : Kernel Cpu} {c e : Cpu} {a : ThreadAddr Cpu} {op : Op Cpu}

/-- The locks of what a step reads and writes. A round of load balancing also writes the
`sched_state` of the thread it moves, the first of its queue. -/
def needs (k : Kernel Cpu) (c : Cpu) : Op Cpu → List (Lock Cpu)
  | .allocFrame => [.frames]
  | .setupTls _ => [.cpus]
  | .spawnRaw _ => [.frames]
  | .addThread _ => [.table]
  | .getThreadMut _ => [.table]
  | .ready _ i => [.table, .sched (.slot i), .queue c]
  | .switch => [.queue c]
  | .getCpuTls _ => [.cpus]
  | .doLoadBalance o => [.queue c, .queue o]
  | .moveThreads _ s d => [.queue s, .queue d]
  | .moveThread s d => [.queue s, .queue d] ++ ((queue k s).head?.map .sched).toList
  | _ => []

/-- Nothing is put anywhere. -/
def keep : Put Cpu := ⟨id, id, id, id, fun _ _ => rfl⟩

lemma sameWrite_of_threads {p : Put Cpu} (h : p.threads = id) (f : Thread Cpu → Thread Cpu) :
    SameWrite p k a f := fun th hw => by simpa [h] using hw

def putFrames (n : ℕ) : Put Cpu := { keep with frames := fun _ => n }

lemma frames_outside (n : ℕ) (h : .frames ∉ needs k c op) : Outside (putFrames n) k c op := by
  cases op with
  | allocFrame => simp [needs] at h
  | spawnRaw base => simp [needs] at h
  | ready id i => exact ⟨sameWrite_of_threads rfl _, rfl, fun _ => rfl⟩
  | saveRsp rsp => exact sameWrite_of_threads rfl _
  | moveThread s d => exact ⟨fun _ _ => sameWrite_of_threads rfl _, rfl, rfl, fun _ _ => rfl⟩
  | _ => simp [Outside, putFrames, keep]

def putOnline (on : Cpu → Bool) : Put Cpu := { keep with online := fun _ => on }

lemma online_outside (on : Cpu → Bool) (hc : on c = k.online c) (h : .cpus ∉ needs k c op) :
    Outside (putOnline on) k c op := by
  cases op with
  | setupTls base => simp [needs] at h
  | getCpuTls o => simp [needs] at h
  | forceSwitchToIdle => exact ⟨hc, rfl⟩
  | ready id i => exact ⟨sameWrite_of_threads rfl _, rfl, fun _ => rfl⟩
  | saveRsp rsp => exact sameWrite_of_threads rfl _
  | moveThread s d => exact ⟨fun _ _ => sameWrite_of_threads rfl _, rfl, rfl, fun _ _ => rfl⟩
  | _ => simp [Outside, putOnline, keep]

def putQueue (e : Cpu) (q : Queue (ThreadAddr Cpu)) : Put Cpu :=
  { keep with
    tls := fun t => Function.update t e { t e with readyQueue := q }
    addr := fun t c => by
      by_cases hc : c = e
      · subst hc
        simp
      · simp [hc] }

lemma queue_outside (q : Queue (ThreadAddr Cpu))
    (hne : ∀ base, op = .setupTls base → k.online c = false → c ≠ e)
    (h : .queue e ∉ needs k c op) : Outside (putQueue e q) k c op := by
  -- the TLS page of another CPU
  have htls : ∀ d, d ≠ e → (putQueue e q).tls k.tls d = k.tls d := fun d hd => by
    simp [putQueue, hd]
  have hupd : ∀ (t : Cpu → TlsData Cpu) d x, d ≠ e → (putQueue e q).tls (Function.update t d x) =
      Function.update ((putQueue e q).tls t) d x := fun t d x hd => by
    simp [putQueue, hd.symm, Function.update_comm hd]
  cases op with
  | setupTls base =>
    exact fun hoff => ⟨rfl, fun _ => rfl, fun t => hupd _ c t (hne base rfl hoff)⟩
  | forceSwitchToIdle =>
    refine ⟨rfl, ?_⟩
    by_cases hc : c = e
    · subst hc
      simp [putQueue]
    · rw [hupd _ c _ hc, htls c hc]
  | ready id i =>
    have hc : c ≠ e := by
      rintro rfl
      simp [needs] at h
    exact ⟨sameWrite_of_threads rfl _, htls c hc, fun t => hupd _ c t hc⟩
  | saveRsp rsp => exact sameWrite_of_threads rfl _
  | switch =>
    have hc : c ≠ e := by
      rintro rfl
      simp [needs] at h
    exact ⟨htls c hc, fun t => hupd _ c t hc⟩
  | doLoadBalance o =>
    simp only [needs, List.mem_cons, Lock.queue.injEq, List.not_mem_nil, or_false, not_or] at h
    exact ⟨htls c (Ne.symm h.1), htls o (Ne.symm h.2)⟩
  | moveThreads n s d =>
    simp only [needs, List.mem_cons, Lock.queue.injEq, List.not_mem_nil, or_false, not_or] at h
    exact htls s (Ne.symm h.1)
  | moveThread s d =>
    have hs : s ≠ e := by
      rintro rfl
      simp [needs] at h
    have hd : d ≠ e := by
      rintro rfl
      simp [needs] at h
    exact ⟨fun _ _ => sameWrite_of_threads rfl _, htls s hs, htls d hd, fun t t' => by
      rw [hupd _ d t' hd, hupd _ s t hs]⟩
  | _ => simp [Outside, putQueue, keep]

def putTable (x : ℕ → Option (Thread Cpu)) : Put Cpu := { keep with threads := fillThreads x }

lemma table_outside (x : ℕ → Option (Thread Cpu)) (h : .table ∉ needs k c op) :
    Outside (putTable x) k c op := by
  cases op with
  | addThread id => simp [needs] at h
  | getThreadMut id => simp [needs] at h
  | ready id i => simp [needs] at h
  | saveRsp rsp => exact fun _ hw => write_fill x hw
  | moveThread s d => exact ⟨fun _ _ _ hw => write_fill x hw, rfl, rfl, fun _ _ => rfl⟩
  | _ => simp [Outside, putTable, keep, fillThreads]

def putSched (a : ThreadAddr Cpu) (s : SchedState Cpu) : Put Cpu :=
  { keep with threads := fun th => th.modify (fun t => { t with schedState := s }) a }

lemma sched_outside (s : SchedState Cpu) (ha : (k.threads.get? a).isSome)
    (hidle : ∀ d, a = .idle d → k.online d = true) (h : .sched a ∉ needs k c op) :
    Outside (putSched a s) k c op := by
  cases op with
  | setupTls base =>
    refine fun hoff => ⟨rfl, fun t => ?_, fun _ => rfl⟩
    cases a with
    | null => rfl
    | slot i => rfl
    | idle d =>
      -- the CPU of the idle thread is online, and this one is not
      have hdc : d ≠ c := by
        rintro rfl
        rw [hidle d rfl] at hoff
        cases hoff
      refine threads_ext fun b => ?_
      cases b with
      | idle e =>
        by_cases he : e = c
        · subst he
          simp [putSched, Threads.modify, Threads.get?, hdc.symm]
        · simp [putSched, Threads.modify, Threads.get?, he]
      | _ => rfl
  | addThread id =>
    intro t
    cases a with
    | null => cases ha
    | idle d => exact ⟨rfl, rfl⟩
    | slot i =>
      obtain ⟨hadd, htaken⟩ := addThread_modify (fun t => { t with schedState := s }) ha t
      exact ⟨by simp [putSched, Threads.modify, hadd], htaken⟩
  | getThreadMut id =>
    cases a with
    | null => rfl
    | idle d => rfl
    | slot i =>
      exact getLoop_modify (f := fun t => { t with schedState := s }) (fun _ => rfl) _ i id
  | ready id i =>
    have hne : ThreadAddr.slot i ≠ a := by
      rintro rfl
      simp [needs] at h
    exact ⟨fun _ hw => write_modify (.inl hne) hw, rfl, fun _ => rfl⟩
  | saveRsp rsp => exact fun _ hw => write_modify (.inr fun _ => rfl) hw
  | moveThread s' d =>
    refine ⟨fun b hb _ hw => write_modify (.inl ?_) hw, rfl, rfl, fun _ _ => rfl⟩
    rintro rfl
    have hb : (queue k s').head? = some b := hb
    simp [needs, hb] at h
  | _ => simp [Outside, putSched, keep]

end Locks

/-! ### What a step does to the kernel -/

section Kernels

variable [LinearOrder Cpu] {m m' : Machine Cpu} {k k' : Kernel Cpu} {c d e s : Cpu}
  {a : ThreadAddr Cpu} {op : Op Cpu} {rest : List (Op Cpu)} {l : Lock Cpu} {p : Put Cpu}

lemma part_of_exec (hs : exec m c rest op = .ok m') :
    kernelPart c op m.kernel = .ok m'.kernel := by
  cases op with
  | lock l =>
    cases hs
    rfl
  | spin l b =>
    simp only [Locks.exec] at hs
    split at hs
    · cases hs
    · cases hs
      rfl
  | drop =>
    simp only [Locks.exec] at hs
    split at hs
    · cases hs
    · cases hs
      rfl
  | getThreadMut id =>
    obtain ⟨i, -, hs⟩ := bind_ok.mp hs
    cases hs
    rfl
  | ready id i =>
    obtain ⟨_, hg, hs⟩ := bind_ok.mp hs
    obtain ⟨k', hk, hs⟩ := bind_ok.mp hs
    cases hs
    rw [kernelPart, guard_bind (guard_ok.mp hg)]
    exact hk
  | moveThread s d =>
    obtain ⟨_, hg, hs⟩ := bind_ok.mp hs
    obtain ⟨k', hk, hs⟩ := bind_ok.mp hs
    cases hs
    rw [kernelPart, guard_bind (guard_ok.mp hg)]
    exact hk
  | getCpuTls o =>
    cases hs
    rfl
  | maybeLoadBalance o =>
    cases hs
    rfl
  | doLoadBalance o =>
    cases hs
    rfl
  | moveThreads n s d =>
    cases n with
    | zero =>
      cases hs
      rfl
    | succ n =>
      obtain ⟨x, -, hs⟩ := bind_ok.mp hs
      cases x <;> cases hs <;> rfl
  | iretq =>
    cases hs
    rfl
  | _ =>
    obtain ⟨k', hk, hs⟩ := bind_ok.mp hs
    cases hs
    exact hk

/-- `p` puts other data behind the lock. Which slots of the table are taken, and whether the CPU
itself is online, no other CPU can undo. -/
inductive Behind (c : Cpu) (k : Kernel Cpu) : Lock Cpu → Put Cpu → Prop
  | frames (n : ℕ) : Behind c k .frames (putFrames n)
  | table (x : ℕ → Option (Thread Cpu)) : Behind c k .table (putTable x)
  | cpus (on : Cpu → Bool) (h : on c = k.online c) : Behind c k .cpus (putOnline on)
  | terminal : Behind c k .terminal keep
  | sched (a : ThreadAddr Cpu) (s : SchedState Cpu) : Behind c k (.sched a) (putSched a s)
  | queue (e : Cpu) (q : Queue (ThreadAddr Cpu)) : Behind c k (.queue e) (putQueue e q)

/-- What the lock protects is there: a ready queue and an idle thread, once their CPU is online. -/
def There (k : Kernel Cpu) : Lock Cpu → Prop
  | .queue e => k.online e = true
  | .sched (.idle e) => k.online e = true
  | .sched a => (k.threads.get? a).isSome
  | _ => True

lemma outside_of_behind (hb : Behind c k l p) (ht : There k l) (h : l ∉ needs k c op) :
    Outside p k c op := by
  cases hb with
  | frames n => exact frames_outside n h
  | table x => exact table_outside x h
  | cpus on hc => exact online_outside on hc h
  | terminal =>
    cases op with
    | ready id i => exact ⟨sameWrite_of_threads rfl _, rfl, fun _ => rfl⟩
    | saveRsp rsp => exact sameWrite_of_threads rfl _
    | moveThread s d => exact ⟨fun _ _ => sameWrite_of_threads rfl _, rfl, rfl, fun _ _ => rfl⟩
    | _ => simp [Outside, keep]
  | sched a s =>
    refine sched_outside s ?_ (fun d hd => by subst hd; exact ht) h
    cases a with
    | idle d => rfl
    | _ => exact ht
  | queue e q =>
    refine queue_outside q (fun _ _ hoff => ?_) h
    rintro rfl
    rw [show k.online c = true from ht] at hoff
    cases hoff

/-- What the lock protects is the same in both kernels. -/
def Agree (k k' : Kernel Cpu) : Lock Cpu → Prop
  | .frames => k'.freeFrames = k.freeFrames
  | .table => ∀ i, Slots.occupant k' i = Slots.occupant k i
  | .cpus => k'.online = k.online
  | .terminal => True
  | .sched a =>
    (k'.threads.get? a).map Thread.schedState = (k.threads.get? a).map Thread.schedState
  | .queue e => (k'.tls e).readyQueue = (k.tls e).readyQueue

/-- What was put there before the step is there after it. -/
lemma kept (hwf : QueuesWf k) (hk : kernelPart c op k = .ok k') (h : Outside p k c op)
    (hsame : p.apply k = k) : p.apply k' = k' := by
  have hp := (untouched_of_outside hwf h).part k' hk
  rw [hsame, hk] at hp
  exact (Except.ok.inj hp).symm

lemma readyQueue_kept (hwf : QueuesWf k) (hk : kernelPart c op k = .ok k')
    (hne : ∀ base, op = .setupTls base → k.online c = false → c ≠ e)
    (h : .queue e ∉ needs k c op) : (k'.tls e).readyQueue = (k.tls e).readyQueue := by
  have hput := kept hwf hk (queue_outside (k.tls e).readyQueue hne h)
    (by simp [Put.apply, putQueue, keep])
  rw [← hput]
  simp [Put.apply, putQueue]

/-- What a step writes to a thread that is there. -/
inductive Writes (k : Kernel Cpu) (c : Cpu) (a : ThreadAddr Cpu) :
    Op Cpu → (Thread Cpu → Thread Cpu) → Prop
  | none (op : Op Cpu) : Writes k c a op id
  | saveRsp (rsp : UInt64) (h : a = current k c) :
      Writes k c a (.saveRsp rsp) fun t => { t with regs := rsp }
  | ready (id : UInt64) (i : ℕ) (h : a = .slot i) : Writes k c a (.ready id i) (Thread.markReady c)
  | moveThread (s d : Cpu) (h : (queue k s).head? = some a) :
      Writes k c a (.moveThread s d) (Thread.setCpu d)

lemma threads_of_part (hwf : QueuesWf k) (hk : kernelPart c op k = .ok k')
    (hadd : ∀ id, op = .addThread id → (k.threads.get? a).isSome)
    (hset : ∀ base, op = .setupTls base → k.online c = false → a ≠ .idle c) :
    ∃ f, Writes k c a op f ∧ k'.threads.get? a = (k.threads.get? a).map f := by
  have hsame : k'.threads.get? a = k.threads.get? a →
      ∃ f, Writes k c a op f ∧ k'.threads.get? a = (k.threads.get? a).map f := fun h =>
    ⟨id, .none op, by simp [h]⟩
  cases op with
  | allocFrame =>
    obtain ⟨-, rfl⟩ := step_allocFrame hk
    exact hsame rfl
  | setupTls base =>
    obtain ⟨hoff, rfl⟩ := part_setupTls.mp hk
    refine hsame ?_
    cases a with
    | idle d =>
      have hdc : d ≠ c := fun hd => hset base rfl hoff (by rw [hd])
      simp [setupTls, Threads.get?, hdc]
    | _ => rfl
  | forceSwitchToIdle =>
    obtain ⟨-, rfl⟩ := part_forceSwitchToIdle.mp hk
    exact hsame rfl
  | spawnRaw base =>
    obtain ⟨-, -, rfl⟩ := part_spawnRaw.mp hk
    exact hsame rfl
  | addThread id =>
    obtain ⟨-, t, -, rfl⟩ := part_addThread.mp hk
    refine hsame ?_
    cases a with
    | slot i =>
      have hsome := hadd id rfl
      show (k.threads.table.addThread t).1.get? i = k.threads.table.get? i
      rcases addThread_cases k.threads.table t with ⟨j, tbl, he, -, hfree, hget⟩ | ⟨-, he⟩
      · have hij : i ≠ j := by
          rintro rfl
          simp [Threads.get?, hfree] at hsome
        rw [he, hget, if_neg hij]
      · rw [he]
    | _ => rfl
  | ready id i =>
    obtain ⟨-, th, q, hw, -, rfl⟩ := part_ready.mp hk
    obtain ⟨-, rfl⟩ := Threads.write_ok.mp hw
    by_cases ha : a = .slot i
    · exact ⟨_, .ready id i ha, by simp [Threads.get?_modify, ha]⟩
    · exact hsame (by simp [Threads.get?_modify, ha])
  | saveRsp rsp =>
    obtain ⟨-, th, hw, rfl⟩ := part_saveRsp.mp hk
    obtain ⟨-, rfl⟩ := Threads.write_ok.mp hw
    by_cases ha : a = (k.tls c).threadAddr
    · exact ⟨_, .saveRsp rsp ha, by rw [Threads.get?_modify, if_pos ha]⟩
    · refine hsame ?_
      rw [Threads.get?_modify, if_neg ha]
  | switch =>
    obtain ⟨-, t, -, rfl⟩ := part_switch.mp hk
    exact hsame rfl
  | moveThread s d =>
    obtain ⟨-, th, qs, qd, hr, rfl⟩ := part_moveThread.mp hk
    rcases (hwf s).pop_cases with ⟨-, hpop⟩ | ⟨b, q, hpop, -, hl⟩
    · rw [Sched.moveThreads, hpop, ok_bind] at hr
      cases hr
      exact hsame rfl
    · rw [Sched.moveThreads, hpop, ok_bind] at hr
      obtain ⟨th₁, hw, hr⟩ := bind_ok.mp hr
      obtain ⟨_, -, hr⟩ := bind_ok.mp hr
      obtain ⟨_, -, hr⟩ := bind_ok.mp hr
      cases hr
      obtain ⟨-, rfl⟩ := Threads.write_ok.mp hw
      by_cases ha : a = b
      · subst ha
        exact ⟨_, .moveThread s d (by rw [queue, hl]; rfl), by rw [Threads.get?_modify, if_pos rfl]⟩
      · refine hsame ?_
        rw [Threads.get?_modify, if_neg ha]
  | _ =>
    cases hk
    exact hsame rfl

/-- The thread is there: what is written to it is all that changes of it. -/
lemma threads_of_there (hwf : QueuesWf k) (hk : kernelPart c op k = .ok k')
    (ht : There k (.sched a)) :
    ∃ f, Writes k c a op f ∧ k'.threads.get? a = (k.threads.get? a).map f := by
  refine threads_of_part hwf hk (fun _ _ => ?_) fun _ _ hoff => ?_
  · cases a with
    | idle d => rfl
    | _ => exact ht
  · rintro rfl
    rw [show k.online c = true from ht] at hoff
    cases hoff

/-- **A step leaves alone what is behind the locks it does without.** -/
lemma agree_of_part (hwf : QueuesWf k) (hk : kernelPart c op k = .ok k') (ht : There k l)
    (h : l ∉ needs k c op) : Agree k k' l := by
  cases l with
  | frames =>
    have hput := kept hwf hk (frames_outside k.freeFrames h) rfl
    show k'.freeFrames = k.freeFrames
    rw [← hput]
    rfl
  | table =>
    intro i
    obtain ⟨f, hw, hget⟩ := threads_of_part (a := .slot i) hwf hk
      (by rintro id rfl; simp [needs] at h) (fun _ _ _ => by simp)
    simp only [Threads.get?] at hget
    rw [Slots.occupant, Slots.occupant, hget, Option.map_map]
    cases hw <;> rfl
  | cpus =>
    have hput := kept hwf hk (online_outside k.online rfl h) rfl
    show k'.online = k.online
    rw [← hput]
    rfl
  | terminal => trivial
  | sched a =>
    obtain ⟨f, hw, hget⟩ := threads_of_there hwf hk ht
    show (k'.threads.get? a).map _ = _
    rw [hget, Option.map_map]
    cases hw with
    | ready id i ha => simp [needs, ha] at h
    | moveThread s d ha => simp [needs, ha] at h
    | _ => rfl
  | queue e =>
    refine readyQueue_kept hwf hk (fun _ _ hoff => ?_) h
    rintro rfl
    rw [show k.online c = true from ht] at hoff
    cases hoff

def regs (k : Kernel Cpu) (a : ThreadAddr Cpu) : Option UInt64 := (k.threads.get? a).map Thread.regs

lemma regs_of_part (hwf : QueuesWf k) (hk : kernelPart c op k = .ok k') (ht : There k (.sched a))
    (ha : a ≠ current k c) : regs k' a = regs k a := by
  obtain ⟨f, hw, hget⟩ := threads_of_there hwf hk ht
  rw [regs, hget, regs, Option.map_map]
  cases hw with
  | saveRsp rsp h => exact absurd h ha
  | _ => rfl

lemma current_of_part (hk : kernelPart c op k = .ok k') (he : e ≠ c) :
    current k' e = current k e := by
  cases op with
  | allocFrame =>
    obtain ⟨-, rfl⟩ := step_allocFrame hk
    rfl
  | setupTls base =>
    obtain ⟨-, rfl⟩ := part_setupTls.mp hk
    simp [current, setupTls, he]
  | forceSwitchToIdle =>
    obtain ⟨-, rfl⟩ := part_forceSwitchToIdle.mp hk
    simp [current, he]
  | spawnRaw base =>
    obtain ⟨-, -, rfl⟩ := part_spawnRaw.mp hk
    rfl
  | addThread id =>
    obtain ⟨-, t, -, rfl⟩ := part_addThread.mp hk
    rfl
  | ready id i =>
    obtain ⟨-, th, q, -, -, rfl⟩ := part_ready.mp hk
    simp [current, he]
  | saveRsp rsp =>
    obtain ⟨-, th, -, rfl⟩ := part_saveRsp.mp hk
    rfl
  | switch =>
    obtain ⟨-, t, -, rfl⟩ := part_switch.mp hk
    simp [current, he]
  | moveThread s d =>
    obtain ⟨-, th, qs, qd, -, rfl⟩ := part_moveThread.mp hk
    by_cases hd : e = d
    · subst hd
      simp [current]
    · by_cases hs : e = s
      · subst hs
        simp [current, hd]
      · simp [current, hd, hs]
  | _ =>
    cases hk
    rfl

end Kernels

end OsRust.Protected
