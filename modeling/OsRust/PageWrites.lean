import OsRust.Recycled
import OsRust.Lib.WriteLog

/-!
Where `map_page` writes. It takes the address of the next table from whatever entry it finds: it
does not ask whether the PML4 entry is present, nor at any level whether the entry is a huge page.
-/

namespace OsRust.PageWrites

open OsRust.Frames OsRust.Vmm OsRust.Mapping OsRust.Recycled OsRust.Lib.RadixTree
  OsRust.Lib.WriteLog

/-! ### The call with its writes -/

/-- A call, with what it has done when it returns or panics. -/
abbrev Effect (α : Type) := Logged PhysAddr (Fin 512) UInt64 Stop α

def allocFrameLogged (s : Vm) : Effect (Frame × Vm) :=
  match allocFrame s with
  | .ok (f, s') => ⟨[.claim f.addr], .ok (f, s')⟩
  | .error e => ⟨[], .error e⟩

def writeEntryLogged (s : Vm) (table : PhysAddr) (i : Fin 512) (e : UInt64) : Effect Vm :=
  ⟨[.write table i e], .ok (writeEntry s table i e)⟩

def ensureTableLogged (s : Vm) (table : PhysAddr) (i : Fin 512) : Effect Vm :=
  if !contains (entryFlags (s.mem table i)) PRESENT then do
    let (newPage, s) ← allocFrameLogged s
    let e ← Logged.lift (setAddr newPage.addr (PRESENT ||| WRITABLE))
    writeEntryLogged s table i e
  else pure s

/-- The last entry. -/
def mapLeafLogged (s : Vm) (phys : UInt64) (pt : PhysAddr) (ptIndex : Fin 512) : Effect Vm := do
  let addr ← Logged.lift (PhysAddr.new phys.toNat)
  let e ← Logged.lift (setAddr addr (PRESENT ||| WRITABLE))
  writeEntryLogged s pt ptIndex e

def mapPageLogged (s : Vm) (phys virt : UInt64) : Effect Vm := do
  let pml4 := s.cr3
  let pml4Index := index virt 39
  let pdpt := entryAddr (s.mem pml4 pml4Index)
  let pdptIndex := index virt 30
  let s ← ensureTableLogged s pdpt pdptIndex
  let pd := entryAddr (s.mem pdpt pdptIndex)
  let pdIndex := index virt 21
  let s ← ensureTableLogged s pd pdIndex
  let pt := entryAddr (s.mem pd pdIndex)
  mapLeafLogged s phys pt (index virt 12)

/-! ### Tables -/

/-- A table of the tree. -/
def IsTable (s : Vm) (t : PhysAddr) : Prop := ∃ p, follow kind s.mem 0 s.cr3 p = some t

/-- The call writes to tables of the tree and to frames it was given, each after it was given. -/
def OnlyTables (s : Vm) (phys virt : UInt64) : Prop :=
  KeepsTo (IsTable s) (mapPageLogged s phys virt).log

/-- A table of the tree, or the frame. -/
def TableOr (s : Vm) (f : Frame) (t : PhysAddr) : Prop := IsTable s t ∨ t = f.addr

/-- The physical address is that of a frame. -/
def IsFrame (phys : UInt64) : Prop := phys.toNat < 2 ^ 52 ∧ phys.toNat % 4096 = 0

/-- The addresses the call takes for those of tables, and writes to, are those of tables. -/
structure Aimed (s : Vm) (phys virt : UInt64) : Prop where
  /-- The page directory is missing. -/
  directory {f : Frame} {fs : List Frame}
    (h₁ : present (s.mem (pdptOf s virt) (index virt 30)) = false) (hs : s.supply = f :: fs) :
    TableOr s f (pdptOf s virt) ∧ (present (s.mem f.addr (index virt 21)) = true →
      IsFrame phys → TableOr s f (entryAddr (s.mem f.addr (index virt 21))))
  /-- The page table is missing. -/
  table {f : Frame} {fs : List Frame}
    (h₁ : present (s.mem (pdptOf s virt) (index virt 30)) = true)
    (h₂ : present (s.mem (pdOf s virt) (index virt 21)) = false) (hs : s.supply = f :: fs) :
    TableOr s f (pdOf s virt)
  /-- No table is missing. -/
  page (h₁ : present (s.mem (pdptOf s virt) (index virt 30)) = true)
    (h₂ : present (s.mem (pdOf s virt) (index virt 21)) = true) (hphys : IsFrame phys) :
    IsTable s (entryAddr (s.mem (pdOf s virt) (index virt 21)))

/-! ### It is the same call -/

variable {s s' : Vm} {phys virt : UInt64} {t : PhysAddr} {i : Fin 512} {f : Frame}
  {fs : List Frame}

lemma allocFrameLogged_result : (allocFrameLogged s).result = allocFrame s := by
  unfold allocFrameLogged
  split
  · next h => exact h.symm
  · next h => exact h.symm

lemma ensureTableLogged_result : (ensureTableLogged s t i).result = ensureTable s t i := by
  unfold ensureTableLogged ensureTable
  split
  · rw [bind_result, allocFrameLogged_result]
    congr 1
    funext b
    rw [bind_result]
    rfl
  · rfl

lemma mapLeafLogged_result : (mapLeafLogged s phys t i).result = (do
    let addr ← PhysAddr.new phys.toNat
    let e ← setAddr addr (PRESENT ||| WRITABLE)
    .ok (writeEntry s t i e)) := by
  unfold mapLeafLogged
  rw [bind_result]
  congr 1
  funext addr
  rw [bind_result]
  rfl

/-- **The same call**: it returns what `map_page` returns, or panics as it does. -/
theorem mapPageLogged_result : (mapPageLogged s phys virt).result = mapPage s phys virt := by
  unfold mapPageLogged mapPage
  simp only [bind_result, ensureTableLogged_result, mapLeafLogged_result]

/-! ### What the steps do -/

lemma ensureTableLogged_of_present (h : present (s.mem t i) = true) :
    ensureTableLogged s t i = ⟨[], .ok s⟩ := by
  have hcontains : contains (entryFlags (s.mem t i)) PRESENT = true := h
  rw [ensureTableLogged, hcontains]
  rfl

/-- There is no frame left to make the table of. -/
lemma ensureTableLogged_of_nil (h : present (s.mem t i) = false) (hs : s.supply = []) :
    ensureTableLogged s t i = ⟨[], .error outOfMemory⟩ := by
  have hcontains : contains (entryFlags (s.mem t i)) PRESENT = false := h
  have halloc : allocFrameLogged s = ⟨[], .error outOfMemory⟩ := by
    rw [allocFrameLogged, allocFrame, hs]
  rw [ensureTableLogged, hcontains, halloc]
  rfl

/-- The frame is given before the entry that points to it is written. -/
lemma ensureTableLogged_of_cons (h : present (s.mem t i) = false) (hs : s.supply = f :: fs) :
    ∃ e, entryAddr e = f.addr ∧ ensureTableLogged s t i =
      ⟨[.claim f.addr, .write t i e], .ok ⟨s.cr3, write s.mem t i e, fs⟩⟩ := by
  obtain ⟨e, he, haddr, -⟩ := setAddr_spec f.aligned
  have hcontains : contains (entryFlags (s.mem t i)) PRESENT = false := h
  have halloc : allocFrameLogged s = ⟨[.claim f.addr], .ok (f, { s with supply := fs })⟩ := by
    rw [allocFrameLogged, allocFrame, hs]
  refine ⟨e, haddr, ?_⟩
  rw [ensureTableLogged, hcontains, halloc]
  simp only [Bool.not_false, if_true]
  rw [bind_of_ok rfl, bind_of_ok (b := e) he]
  rfl

lemma mapLeafLogged_of_isFrame (h : IsFrame phys) :
    ∃ e, mapLeafLogged s phys t i = ⟨[.write t i e], .ok (writeEntry s t i e)⟩ := by
  obtain ⟨e, he, -, -⟩ := setAddr_spec (a := ⟨phys.toNat, h.1⟩) h.2
  refine ⟨e, ?_⟩
  rw [mapLeafLogged, bind_of_ok (PhysAddr.new_ok h.1), bind_of_ok (b := e) he]
  rfl

/-- Where the physical address is none of a frame, the call panics before the last write. -/
lemma mapLeafLogged_of_not_isFrame (h : ¬ IsFrame phys) :
    ∃ stop, mapLeafLogged s phys t i = ⟨[], .error stop⟩ := by
  by_cases hlt : phys.toNat < 2 ^ 52
  · have hal : ¬ phys.toNat % 4096 = 0 := fun hal => h ⟨hlt, hal⟩
    obtain ⟨stop, he⟩ : ∃ stop, setAddr ⟨phys.toNat, hlt⟩ (PRESENT ||| WRITABLE) = .error stop :=
      ⟨_, if_neg hal⟩
    refine ⟨stop, ?_⟩
    rw [mapLeafLogged, bind_of_ok (PhysAddr.new_ok hlt), bind_of_error he]
    rfl
  · have hnew : PhysAddr.new phys.toNat = .error _ := dif_neg hlt
    exact ⟨_, bind_of_error hnew⟩

/-- What holds of the three outcomes holds of the step. -/
lemma ensureTableLogged_elim {P : Effect Vm → Prop} (hfound : P ⟨[], .ok s⟩)
    (hnone : P ⟨[], .error outOfMemory⟩)
    (hmade : ∀ f fs e, s.supply = f :: fs →
      P ⟨[.claim f.addr, .write t i e], .ok ⟨s.cr3, write s.mem t i e, fs⟩⟩) :
    P (ensureTableLogged s t i) := by
  cases hp : present (s.mem t i) with
  | true =>
    rw [ensureTableLogged_of_present hp]
    exact hfound
  | false =>
    cases hs : s.supply with
    | nil =>
      rw [ensureTableLogged_of_nil hp hs]
      exact hnone
    | cons f fs =>
      obtain ⟨e, -, he⟩ := ensureTableLogged_of_cons hp hs
      rw [he]
      exact hmade f fs e hs

lemma mapLeafLogged_elim {P : Effect Vm → Prop}
    (hwritten : ∀ e, P ⟨[.write t i e], .ok (writeEntry s t i e)⟩)
    (hpanic : ∀ stop, P ⟨[], .error stop⟩) : P (mapLeafLogged s phys t i) := by
  by_cases hphys : IsFrame phys
  · obtain ⟨e, he⟩ := mapLeafLogged_of_isFrame (s := s) (t := t) (i := i) hphys
    rw [he]
    exact hwritten e
  · obtain ⟨stop, he⟩ := mapLeafLogged_of_not_isFrame (s := s) (t := t) (i := i) hphys
    rw [he]
    exact hpanic stop

lemma ensureTableLogged_records : Records Vm.mem s (ensureTableLogged s t i) := by
  apply ensureTableLogged_elim
  · rintro s' ⟨⟩
    rfl
  · rintro s' ⟨⟩
  · rintro f fs e - s' ⟨⟩
    rfl

lemma mapLeafLogged_records : Records Vm.mem s (mapLeafLogged s phys t i) := by
  apply mapLeafLogged_elim
  · rintro e s' ⟨⟩
    rfl
  · rintro stop s' ⟨⟩

/-- **The memory** a call returns is that of its writes. -/
theorem mapPageLogged_memory (h : mapPage s phys virt = .ok s') :
    s'.mem = replay s.mem (mapPageLogged s phys virt).log := by
  rw [← mapPageLogged_result] at h
  have hrecords : Records Vm.mem s (mapPageLogged s phys virt) :=
    .bind ensureTableLogged_records fun _ _ =>
      .bind ensureTableLogged_records fun _ _ => mapLeafLogged_records
  exact hrecords s' h

/-! ### Where it writes -/

lemma mapLeafLogged_keepsTo {tables : PhysAddr → Prop} :
    KeepsTo tables (mapLeafLogged s phys t i).log ↔ (IsFrame phys → tables t) := by
  by_cases hphys : IsFrame phys
  · obtain ⟨e, he⟩ := mapLeafLogged_of_isFrame (s := s) (t := t) (i := i) hphys
    simp [he, hphys]
  · obtain ⟨stop, he⟩ := mapLeafLogged_of_not_isFrame (s := s) (t := t) (i := i) hphys
    simp [he, hphys]

/-- From the page directory on. A missing page table is linked from it, and then the page goes to
the frame given for the table; else the page goes to where the entry points. -/
lemma below_keepsTo {tables : PhysAddr → Prop} {pd : PhysAddr} :
    KeepsTo tables (do
      let s ← ensureTableLogged s pd (index virt 21)
      mapLeafLogged s phys (entryAddr (s.mem pd (index virt 21))) (index virt 12)).log ↔
    (present (s.mem pd (index virt 21)) = true → IsFrame phys →
      tables (entryAddr (s.mem pd (index virt 21)))) ∧
    (present (s.mem pd (index virt 21)) = false → ∀ f fs, s.supply = f :: fs →
      tables pd ∨ pd = f.addr) := by
  cases hp : present (s.mem pd (index virt 21)) with
  | true =>
    rw [ensureTableLogged_of_present hp, bind_of_ok rfl, List.nil_append, mapLeafLogged_keepsTo]
    simp
  | false =>
    cases hs : s.supply with
    | nil =>
      rw [ensureTableLogged_of_nil hp hs, bind_of_error rfl]
      simp
    | cons f fs =>
      obtain ⟨e, haddr, he⟩ := ensureTableLogged_of_cons hp hs
      rw [he, bind_of_ok rfl, keepsTo_append, mapLeafLogged_keepsTo]
      simp [haddr]

/-- The entry for `virt` in a frame that has become the page directory: what was left there, or the
link to the frame itself when the frame is the PDPT too and the two indices are the same. -/
lemma stale_iff (phys : UInt64) {e₁ : UInt64} {pdpt : PhysAddr}
    (h₁ : present (s.mem pdpt (index virt 30)) = false) (haddr : entryAddr e₁ = f.addr) :
    (present (write s.mem pdpt (index virt 30) e₁ f.addr (index virt 21)) = true → IsFrame phys →
      TableOr s f (entryAddr (write s.mem pdpt (index virt 30) e₁ f.addr (index virt 21)))) ↔
    (present (s.mem f.addr (index virt 21)) = true → IsFrame phys →
      TableOr s f (entryAddr (s.mem f.addr (index virt 21)))) := by
  by_cases hself : f.addr = pdpt ∧ index virt 21 = index virt 30
  · obtain ⟨rfl, hindex⟩ := hself
    rw [hindex, write_self, haddr, h₁]
    simp [TableOr]
  · rw [write_of_ne (not_and_or.mp hself)]

/-- **Where `map_page` writes.** For any memory and any arguments: all the writes of a call, be it
that it returns or that it panics, go to tables of the tree and to frames it was given, exactly when
the addresses it takes for those of tables are. -/
theorem onlyTables_iff (s : Vm) (phys virt : UInt64) :
    OnlyTables s phys virt ↔ Aimed s phys virt := by
  have hcall : mapPageLogged s phys virt = (do
      let s₁ ← ensureTableLogged s (pdptOf s virt) (index virt 30)
      let s₂ ← ensureTableLogged s₁ (entryAddr (s₁.mem (pdptOf s virt) (index virt 30)))
        (index virt 21)
      mapLeafLogged s₂ phys (entryAddr (s₂.mem (entryAddr (s₁.mem (pdptOf s virt) (index virt 30)))
        (index virt 21))) (index virt 12)) := rfl
  rw [OnlyTables, hcall]
  cases h₁ : present (s.mem (pdptOf s virt) (index virt 30)) with
  | true =>
    rw [ensureTableLogged_of_present h₁, bind_of_ok rfl, List.nil_append, below_keepsTo]
    constructor
    · rintro ⟨hpage, htable⟩
      refine ⟨fun h => ?_, fun _ h₂ hs => htable h₂ _ _ hs, fun _ => hpage⟩
      simp [h₁] at h
    · intro h
      exact ⟨h.page h₁, fun h₂ f fs hs => h.table h₁ h₂ hs⟩
  | false =>
    cases hs : s.supply with
    | nil =>
      -- the call panics before it has written anything
      rw [ensureTableLogged_of_nil h₁ hs, bind_of_error rfl]
      refine iff_of_true keepsTo_nil ⟨fun _ h => ?_, fun h => ?_, fun h => ?_⟩
      · simp [hs] at h
      · simp [h₁] at h
      · simp [h₁] at h
    | cons f fs =>
      -- from here on the page directory is `f`, with what was left in it
      obtain ⟨e₁, haddr, he₁⟩ := ensureTableLogged_of_cons h₁ hs
      have hpd : entryAddr (write s.mem (pdptOf s virt) (index virt 30) e₁ (pdptOf s virt)
        (index virt 30)) = f.addr := by rw [write_self, haddr]
      have hstale := stale_iff phys h₁ haddr
      rw [he₁, bind_of_ok rfl]
      simp only [hpd, List.cons_append, List.nil_append, keepsTo_claim, keepsTo_write, below_keepsTo]
      constructor
      · rintro ⟨hpdpt, hpt, -⟩
        refine ⟨fun _ h => ?_, fun h => ?_, fun h => ?_⟩
        · rw [hs] at h
          cases h
          exact ⟨hpdpt, hstale.mp hpt⟩
        · simp [h₁] at h
        · simp [h₁] at h
      · intro h
        obtain ⟨hpdpt, hpt⟩ := h.directory h₁ hs
        exact ⟨hpdpt, hstale.mpr hpt, fun _ _ _ _ => .inl (.inr trivial)⟩

/-- The tables of `small`, and a page of 1 GiB at `0xc0000000`. -/
def hugeLeaf : Vm := { small with mem := write small.mem (lowFrame 2).addr 3 0x40000083 }

lemma follow_hugeLeaf (q : List (Fin 512)) :
    follow kind hugeLeaf.mem 0 hugeLeaf.cr3 q = follow kind small.mem 0 small.cr3 q := by
  have hpdpt : follow kind small.mem 0 small.cr3 [0] = some (lowFrame 2).addr := by decide
  have habsent : kind 1 (small.mem (lowFrame 2).addr 3) = .absent := by decide
  refine follow_write_leaf small_sound.tree hpdpt (fun u hu => ?_) (by decide) q
  rw [List.length_singleton, habsent] at hu
  cases hu

lemma hugeLeaf_sound : Sound hugeLeaf where
  tree p q t hp hq := by
    rw [follow_hugeLeaf] at hp hq
    exact small_sound.tree p q t hp hq
  fresh f hf p hp := by
    rw [follow_hugeLeaf] at hp
    exact small_sound.fresh f hf p hp
  zero f hf i := by
    have hne : f.addr ≠ (lowFrame 2).addr := by
      intro he
      exact (small_supply f hf).2 (congrArg PhysAddr.val he)
    have hsame : hugeLeaf.mem f.addr i = small.mem f.addr i := write_of_ne (.inl hne)
    rw [hsame, small_sound.zero f hf i]
  nodup := small_sound.nodup

/-- With no PML4 entry for the address the call writes into the frame at address 0, and where there
is a page of 1 GiB it writes into that page. -/
theorem onlyTables_fails :
    (Sound small ∧ present (small.mem small.cr3 (index 0x8000000000 39)) = false ∧
      ¬ OnlyTables small 0xfee00000 0x8000000000) ∧
    (Sound hugeLeaf ∧
      (hardwareWalk hugeLeaf 0xc0000000).map (fun l => (l.depth, l.addr.val)) =
        some (1, 0x40000000) ∧
      ¬ OnlyTables hugeLeaf 0xfee00000 0xfee00000) := by
  refine ⟨⟨small_sound, by decide, fun h => ?_⟩, hugeLeaf_sound, by decide, fun h => ?_⟩
  · have hlog : (mapPageLogged small 0xfee00000 0x8000000000).log =
        [.claim (lowFrame 3).addr, .write (lowFrame 0).addr 0 0x3003, .claim (lowFrame 4).addr,
          .write (lowFrame 3).addr 0 0x4003, .write (lowFrame 4).addr 0 0xfee00003] := by decide
    rw [OnlyTables, hlog, keepsTo_claim, keepsTo_write] at h
    rcases h.1 with ⟨q, hq⟩ | hgiven
    · rcases follow_small hq with ⟨-, hval⟩ | ⟨-, hval⟩
      · exact absurd hval (by decide)
      · exact absurd hval (by decide)
    · exact absurd hgiven (by decide)
  · have hlog : (mapPageLogged hugeLeaf 0xfee00000 0xfee00000).log =
        [.claim (lowFrame 3).addr, .write (entryAddr 0x40000083) 503 0x3003,
          .write (lowFrame 3).addr 0 0xfee00003] := by decide
    rw [OnlyTables, hlog, keepsTo_claim, keepsTo_write] at h
    rcases h.1 with ⟨q, hq⟩ | hgiven
    · rw [follow_hugeLeaf] at hq
      rcases follow_small hq with ⟨-, hval⟩ | ⟨-, hval⟩
      · exact absurd hval (by decide)
      · exact absurd hval (by decide)
    · exact absurd hgiven (by decide)

/-- Where the PML4 entry is present, no huge leaf lies on the path, and the frame that becomes the
page directory has no present entry for the address, all is well. -/
theorem aimed_of_mappable (hv : Mappable s virt)
    (hstale : ∀ f fs, s.supply = f :: fs → present (s.mem (pdptOf s virt) (index virt 30)) = false →
      present (s.mem f.addr (index virt 21)) = false) : Aimed s phys virt where
  directory h₁ hs := by
    refine ⟨.inl ⟨_, follow_pdpt hv⟩, fun hp => ?_⟩
    rw [hstale _ _ hs h₁] at hp
    cases hp
  table h₁ _ _ := .inl ⟨_, follow_pd hv h₁⟩
  page h₁ h₂ _ := ⟨_, follow_pt hv h₁ h₂⟩

/-! ### The rest of memory -/

/-- The frames given are from the supply. -/
def Draws (s : Vm) (x : Effect Vm) : Prop :=
  (∀ t, .claim t ∈ x.log → ∃ f ∈ s.supply, f.addr = t) ∧
    ∀ s', x.result = .ok s' → s'.supply ⊆ s.supply

lemma Draws.bind {x : Effect Vm} {k : Vm → Effect Vm} (hx : Draws s x) (hk : ∀ s, Draws s (k s)) :
    Draws s (x >>= k) := by
  cases hs : x.result with
  | error stop =>
    rw [bind_of_error hs]
    refine ⟨hx.1, fun s' h => ?_⟩
    cases h
  | ok s₁ =>
    rw [bind_of_ok hs]
    have hsub := hx.2 s₁ hs
    refine ⟨fun t ht => ?_, fun s' h => List.Subset.trans ((hk s₁).2 s' h) hsub⟩
    rcases List.mem_append.mp ht with ht | ht
    · exact hx.1 t ht
    · obtain ⟨f, hf, haddr⟩ := (hk s₁).1 t ht
      exact ⟨f, hsub hf, haddr⟩

lemma ensureTableLogged_draws : Draws s (ensureTableLogged s t i) := by
  apply ensureTableLogged_elim
  · refine ⟨by simp, ?_⟩
    rintro s' ⟨⟩
    exact List.Subset.refl _
  · refine ⟨by simp, ?_⟩
    rintro s' ⟨⟩
  · intro f fs e hs
    refine ⟨fun u hu => ⟨f, by simp [hs], by simpa [eq_comm] using hu⟩, ?_⟩
    rintro s' ⟨⟩
    simp [hs]

lemma mapLeafLogged_draws : Draws s (mapLeafLogged s phys t i) := by
  apply mapLeafLogged_elim
  · intro e
    refine ⟨by simp, ?_⟩
    rintro s' ⟨⟩
    exact List.Subset.refl _
  · intro stop
    refine ⟨by simp, ?_⟩
    rintro s' ⟨⟩

/-- **The rest of memory.** A call that only writes to tables leaves all frames alone that are
neither tables nor in the supply, also when it panics. -/
theorem rest_untouched (h : OnlyTables s phys virt) (ht : ¬ IsTable s t)
    (hs : ∀ f ∈ s.supply, f.addr ≠ t) :
    replay s.mem (mapPageLogged s phys virt).log t = s.mem t := by
  have hdraws : Draws s (mapPageLogged s phys virt) :=
    ensureTableLogged_draws.bind fun _ => ensureTableLogged_draws.bind fun _ => mapLeafLogged_draws
  refine replay_of_keepsTo h ht fun hclaim => ?_
  obtain ⟨f, hf, haddr⟩ := hdraws.1 t hclaim
  exact hs f hf haddr

end OsRust.PageWrites
