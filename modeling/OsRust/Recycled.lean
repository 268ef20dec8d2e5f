import OsRust.Mapping

/-!
What `map_page` does to the other pages when the frames it makes tables of hold what an earlier
owner left there. It does not clear them: an entry left in one maps a page, unless it is the one
that is overwritten.
-/

namespace OsRust.Recycled

open OsRust.Frames OsRust.Vmm OsRust.Mapping OsRust.Lib.RadixTree

/-- The tables are a tree, and the frames to be handed out are none of them and different. What is
in these frames does not matter. -/
structure Unused (s : Vm) : Prop where
  tree : IsTree kind s.mem s.cr3
  fresh : ∀ f ∈ s.supply, Fresh kind s.mem s.cr3 f.addr
  nodup : s.supply.Nodup

/-- No page but that of `virt` has come to be mapped. -/
def NoStray (s s' : Vm) (virt : UInt64) : Prop :=
  ∀ w, page w ≠ page virt → hardwareWalk s w = none → hardwareWalk s' w = none

def present (e : UInt64) : Bool := contains (entryFlags e) PRESENT

/-- The table has no present entry. -/
def Clear (m : TableMem) (t : PhysAddr) : Prop := ∀ j, present (m t j) = false

/-- The table has no present entry, unless number `i` is one. -/
def ClearBut (m : TableMem) (t : PhysAddr) (i : Fin 512) : Prop :=
  ∀ j, j ≠ i → present (m t j) = false

/-- Below the page directory `pd` nothing but the page of `virt` is found when it is linked from
`pdpt` and its entry for `virt` links `pt`: each other entry is absent, or links a table that is
written to no more and has no present entry. -/
structure ClearBelow (m : TableMem) (virt : UInt64) (pdpt pd pt : PhysAddr) : Prop where
  table : ClearBut m pt (index virt 12)
  directory : ∀ j, j ≠ index virt 21 → present (m pd j) = false ∨
    ∃ t, kind 2 (m pd j) = .link t ∧ t ≠ pdpt ∧ t ≠ pt ∧ Clear m t

/-- The tables on the way of an address. -/
def pdptOf (s : Vm) (virt : UInt64) : PhysAddr := entryAddr (s.mem s.cr3 (index virt 39))

def pdOf (s : Vm) (virt : UInt64) : PhysAddr := entryAddr (s.mem (pdptOf s virt) (index virt 30))

/-- What is left in the frames handed out does no harm. -/
inductive Harmless (s : Vm) (virt : UInt64) : Prop
  /-- No table is missing. -/
  | complete (h₁ : present (s.mem (pdptOf s virt) (index virt 30)) = true)
      (h₂ : present (s.mem (pdOf s virt) (index virt 21)) = true)
  /-- The page table is missing. -/
  | table {f : Frame} {fs : List Frame} (hs : s.supply = f :: fs)
      (h₁ : present (s.mem (pdptOf s virt) (index virt 30)) = true)
      (h₂ : present (s.mem (pdOf s virt) (index virt 21)) = false)
      (hf : ClearBut s.mem f.addr (index virt 12))
  /-- The page directory and the page table are missing. -/
  | directory {f g : Frame} {fs : List Frame} (hs : s.supply = f :: g :: fs)
      (h₁ : present (s.mem (pdptOf s virt) (index virt 30)) = false)
      (h₂ : present (s.mem f.addr (index virt 21)) = false)
      (hfg : ClearBelow s.mem virt (pdptOf s virt) f.addr g.addr)
  /-- The page directory is missing, and its frame already links a page table. -/
  | link {f : Frame} {fs : List Frame} {pt : PhysAddr} (hs : s.supply = f :: fs)
      (h₁ : present (s.mem (pdptOf s virt) (index virt 30)) = false)
      (h₂ : kind 2 (s.mem f.addr (index virt 21)) = .link pt)
      (hpt : Fresh kind s.mem s.cr3 pt) (hne : pt ≠ f.addr)
      (hf : ClearBelow s.mem virt (pdptOf s virt) f.addr pt)

/-- Where a frame becomes the page directory and its entry for `virt` is present already, this entry
does not point to a table in use, or to the frame itself. -/
def StaleApart (s : Vm) (virt : UInt64) : Prop :=
  ∀ f fs, s.supply = f :: fs → present (s.mem (pdptOf s virt) (index virt 30)) = false →
    present (s.mem f.addr (index virt 21)) = true →
    Fresh kind s.mem s.cr3 (entryAddr (s.mem f.addr (index virt 21))) ∧
      entryAddr (s.mem f.addr (index virt 21)) ≠ f.addr

/-! ### Entries and keys -/

variable {s s' : Vm} {phys virt : UInt64} {p q : List (Fin 512)} {t : PhysAddr} {i : Fin 512}
  {m m' : TableMem}

lemma kind_eq_absent {d : ℕ} {e : UInt64} : kind d e = .absent ↔ present e = false := kind_absent

/-- In a page table there are no links. -/
lemma kind_pageTable (e : UInt64) : kind 3 e = if present e = false then .absent else .leaf := by
  unfold kind
  rw [if_neg (show ¬ (3 = 0 ∨ 3 < 3 ∧ contains (entryFlags e) HUGE_PAGE = false) by omega)]
  rfl

lemma walk_pageTable {j : Fin 512} : walk kind m 3 t [j] = none ↔ present (m t j) = false := by
  rw [walk, kind_pageTable]
  cases present (m t j) with
  | false => simp
  | true => simp

lemma exists_key {a b c d : Fin 512} : ∃ w, key w = [a, b, c, d] := by
  have ha := a.isLt
  have hb := b.isLt
  have hc := c.isLt
  have hd := d.isLt
  let n := a.val * 2 ^ 39 + b.val * 2 ^ 30 + c.val * 2 ^ 21 + d.val * 2 ^ 12
  have hn : (UInt64.ofNat n).toNat = n := by
    rw [UInt64.toNat_ofNat']
    omega
  refine ⟨UInt64.ofNat n, ?_⟩
  simp only [key, List.cons.injEq, and_true, Fin.ext_iff]
  rw [index_39, index_30, index_21, index_12, hn]
  omega

/-- Where an entry was absent and is the only one changed in the tables in use, the pages that may
have come to be mapped are those below it. -/
lemma noStray_iff_below (hT : IsTree kind s.mem s.cr3) (ht : follow kind s.mem 0 s.cr3 p = some t)
    (hm : SameBut kind s.mem s'.mem s.cr3 t i) (hcr3 : s'.cr3 = s.cr3)
    (hkey : key virt = p ++ i :: q) (habsent : present (s.mem t i) = false) :
    NoStray s s' virt ↔
      ∀ q', q'.length = q.length → q' ≠ q → walk kind s'.mem p.length t (i :: q') = none := by
  have hbefore : ∀ q', walk kind s.mem 0 s.cr3 (p ++ i :: q') = none := by
    intro q'
    rw [walk_append ht, Nat.zero_add, walk, kind_eq_absent.mpr habsent]
  have hafter : ∀ q', walk kind s'.mem 0 s'.cr3 (p ++ i :: q') =
      walk kind s'.mem p.length t (i :: q') := by
    intro q'
    rw [hcr3]
    exact walk_sameBut_below hT ht hm
  constructor
  · intro h q' hlen hq
    have hlength : (p ++ i :: q').length = 4 := by
      have := congrArg List.length hkey
      simp only [key, List.length_cons, List.length_nil, List.length_append] at this ⊢
      omega
    obtain ⟨a, b, c, d, habcd⟩ := List.length_eq_four.mp hlength
    obtain ⟨w, hw⟩ := exists_key (a := a) (b := b) (c := c) (d := d)
    rw [← habcd] at hw
    have hpage : page w ≠ page virt := by
      rw [Ne, ← key_eq_iff, hw, hkey]
      simpa using hq
    have hnone : hardwareWalk s w = none := by rw [hardwareWalk, hw, hbefore]; rfl
    have := h w hpage hnone
    rwa [hardwareWalk, Option.map_eq_none_iff, hw, hafter] at this
  · intro h w hpage hnone
    rw [hardwareWalk, Option.map_eq_none_iff] at hnone ⊢
    by_cases hk : p ++ [i] <+: key w
    · obtain ⟨q', hq'⟩ := hk
      have hkw : key w = p ++ i :: q' := by rw [← hq']; simp
      rw [hkw, hafter]
      apply h
      · have h₁ := congrArg List.length hkw
        have h₂ := congrArg List.length hkey
        simp only [key, List.length_cons, List.length_nil, List.length_append] at h₁ h₂
        omega
      · rintro rfl
        exact hpage (key_eq_iff.mp (hkw.trans hkey.symm))
    · rw [hcr3, walk_sameBut hT ht hm hk, hnone]

/-! ### The missing tables -/

lemma present_of_link {d : ℕ} {e : UInt64} (h : kind d e = .link t) : present e = true := by
  by_contra hn
  rw [Bool.not_eq_true] at hn
  rw [kind_eq_absent.mpr hn] at h
  cases h

/-- A frame is linked as the page table. -/
lemma noStray_table {f : PhysAddr} (hT : IsTree kind s.mem s.cr3)
    (hpd : follow kind s.mem 0 s.cr3 [index virt 39, index virt 30] = some t)
    (hm : SameBut kind s.mem s'.mem s.cr3 t (index virt 21)) (hcr3 : s'.cr3 = s.cr3)
    (habsent : present (s.mem t (index virt 21)) = false)
    (hlink : kind 2 (s'.mem t (index virt 21)) = .link f)
    (hf : ∀ j, j ≠ index virt 12 → s'.mem f j = s.mem f j) :
    NoStray s s' virt ↔ ClearBut s.mem f (index virt 12) := by
  rw [noStray_iff_below hT hpd hm hcr3 (q := [index virt 12]) rfl habsent]
  have hbelow : ∀ j, walk kind s'.mem 2 t [index virt 21, j] = none ↔
      present (s'.mem f j) = false := by
    intro j
    rw [walk_cons_link hlink, walk_pageTable]
  constructor
  · intro h j hj
    have := (hbelow j).mp (h [j] rfl (by simpa using hj))
    rwa [hf j hj] at this
  · intro h q' hlen hq
    obtain ⟨j, rfl⟩ := List.length_eq_one_iff.mp hlen
    have hj : j ≠ index virt 12 := by simpa using hq
    exact (hbelow j).mpr (by rw [hf j hj]; exact h j hj)

/-- The memory once the frame `pd` is linked from `pdpt` as the page directory, links `pt` as the
page table, and this holds the page. -/
structure Linked (s s' : Vm) (virt : UInt64) (pdpt pd pt : PhysAddr) : Prop where
  directory : kind 1 (s'.mem pdpt (index virt 30)) = .link pd
  table : kind 2 (s'.mem pd (index virt 21)) = .link pt
  page : present (s'.mem pt (index virt 12)) = true
  pd_ne : pd ≠ pdpt
  pt_ne : pt ≠ pd
  pt_ne_pdpt : pt ≠ pdpt
  rest : ∀ t j, ¬ (t = pdpt ∧ j = index virt 30) → ¬ (t = pd ∧ j = index virt 21) →
    ¬ (t = pt ∧ j = index virt 12) → s'.mem t j = s.mem t j

variable {pdpt pd pt : PhysAddr}

/-- What is found through an entry of the new page directory that is not the one of the address. -/
lemma Linked.other (h : Linked s s' virt pdpt pd pt) {j : Fin 512} (hj : j ≠ index virt 21) :
    (∀ k, walk kind s'.mem 2 pd [j, k] = none) ↔ present (s.mem pd j) = false ∨
      ∃ t, kind 2 (s.mem pd j) = .link t ∧ t ≠ pdpt ∧ t ≠ pt ∧ Clear s.mem t := by
  have hentry : s'.mem pd j = s.mem pd j :=
    h.rest pd j (fun hn => h.pd_ne hn.1) (fun hn => hj hn.2) (fun hn => h.pt_ne hn.1.symm)
  cases hk : kind 2 (s.mem pd j) with
  | absent =>
    refine iff_of_true (fun k => ?_) (.inl (kind_eq_absent.mp hk))
    rw [walk, hentry, hk]
  | leaf =>
    refine iff_of_false (fun hn => ?_) ?_
    · have := hn j
      rw [walk, hentry, hk] at this
      cases this
    · rintro (hp | ⟨t, ht, -⟩)
      · rw [kind_eq_absent.mpr hp] at hk
        cases hk
      · cases ht
  | link t =>
    have hwalk : ∀ k, walk kind s'.mem 2 pd [j, k] = none ↔ present (s'.mem t k) = false := by
      intro k
      rw [walk_cons_link (hentry ▸ hk), walk_pageTable]
    simp only [hwalk]
    constructor
    · intro hnone
      have hne : t ≠ pdpt := by
        rintro rfl
        have := hnone (index virt 30)
        rw [present_of_link h.directory] at this
        cases this
      have hne' : t ≠ pt := by
        rintro rfl
        have := hnone (index virt 12)
        rw [h.page] at this
        cases this
      have hne'' : t ≠ pd := by
        rintro rfl
        have := hnone (index virt 21)
        rw [present_of_link h.table] at this
        cases this
      refine .inr ⟨t, rfl, hne, hne', fun k => ?_⟩
      rw [← h.rest t k (fun hn => hne hn.1) (fun hn => hne'' hn.1) (fun hn => hne' hn.1)]
      exact hnone k
    · rintro (hp | ⟨u, hu, hne, hne', hclear⟩) k
      · rw [kind_eq_absent.mpr hp] at hk
        cases hk
      · cases hu
        have hne'' : t ≠ pd := by
          rintro rfl
          have := hclear j
          rw [present_of_link hk] at this
          cases this
        rw [h.rest t k (fun hn => hne hn.1) (fun hn => hne'' hn.1) (fun hn => hne' hn.1)]
        exact hclear k

/-- A frame is linked as the page directory. -/
lemma noStray_directory (hT : IsTree kind s.mem s.cr3)
    (hpdpt : follow kind s.mem 0 s.cr3 [index virt 39] = some pdpt)
    (hm : SameBut kind s.mem s'.mem s.cr3 pdpt (index virt 30)) (hcr3 : s'.cr3 = s.cr3)
    (habsent : present (s.mem pdpt (index virt 30)) = false)
    (hl : Linked s s' virt pdpt pd pt) :
    NoStray s s' virt ↔ ClearBelow s.mem virt pdpt pd pt := by
  rw [noStray_iff_below hT hpdpt hm hcr3 (q := [index virt 21, index virt 12]) rfl habsent]
  have hdown : ∀ q', walk kind s'.mem 1 pdpt (index virt 30 :: q') = walk kind s'.mem 2 pd q' :=
    fun q' => walk_cons_link hl.directory
  have hown : ∀ k, k ≠ index virt 12 →
      (walk kind s'.mem 2 pd [index virt 21, k] = none ↔ present (s.mem pt k) = false) := by
    intro k hk
    rw [walk_cons_link hl.table, walk_pageTable, hl.rest pt k (fun hn => hl.pt_ne_pdpt hn.1)
      (fun hn => hl.pt_ne hn.1) (fun hn => hk hn.2)]
  constructor
  · intro h
    constructor
    · intro k hk
      exact (hown k hk).mp (hdown _ ▸ h [index virt 21, k] rfl (by simpa using hk))
    · intro j hj
      refine (hl.other hj).mp fun k => ?_
      exact hdown _ ▸ h [j, k] rfl (by simp [hj])
  · intro h q' hlen hq
    obtain ⟨j, k, rfl⟩ := List.length_eq_two.mp hlen
    show walk kind s'.mem 1 pdpt (index virt 30 :: [j, k]) = none
    rw [hdown]
    by_cases hj : j = index virt 21
    · subst hj
      have hk : k ≠ index virt 12 := by simpa using hq
      exact (hown k hk).mpr (h.table k hk)
    · exact (hl.other hj).mpr (h.directory j hj) k

/-! ### One call -/

lemma ensureTable_cases (h : ensureTable s t i = .ok s') :
    present (s.mem t i) = true ∧ s' = s ∨
      present (s.mem t i) = false ∧ ∃ f fs e, s.supply = f :: fs ∧ entryAddr e = f.addr ∧
        entryFlags e = PRESENT ||| WRITABLE ∧ s' = ⟨s.cr3, write s.mem t i e, fs⟩ := by
  unfold ensureTable at h
  cases hp : present (s.mem t i) with
  | true =>
    left
    have hcontains : contains (entryFlags (s.mem t i)) PRESENT = true := hp
    rw [hcontains] at h
    cases h
    exact ⟨rfl, rfl⟩
  | false =>
    right
    have hcontains : contains (entryFlags (s.mem t i)) PRESENT = false := hp
    rw [hcontains] at h
    obtain ⟨⟨f, s₁⟩, halloc, h⟩ := bind_ok.mp h
    unfold allocFrame at halloc
    split at halloc
    · cases halloc
    · next f fs hsupply =>
      cases halloc
      obtain ⟨e, he, haddr, hflags⟩ := setAddr_spec f.aligned
      simp only [he, ok_bind] at h
      cases h
      exact ⟨rfl, f, fs, e, hsupply, haddr, hflags, rfl⟩

lemma link_of_present {d : ℕ} {e : UInt64} (hp : present e = true) (hl : kind d e ≠ .leaf) :
    kind d e = .link (entryAddr e) := by
  cases hk : kind d e with
  | absent =>
    rw [kind_eq_absent.mp hk] at hp
    cases hp
  | leaf => exact absurd hk hl
  | link t => rw [kind_link hk]

lemma written {e : UInt64} {d : ℕ} (hd : d < 3) (haddr : entryAddr e = t)
    (hflags : entryFlags e = PRESENT ||| WRITABLE) : kind d e = .link t := by
  rw [kind_written hflags, if_pos hd, haddr]

lemma present_written {e : UInt64} (hflags : entryFlags e = PRESENT ||| WRITABLE) :
    present e = true := by
  rw [present, hflags]
  decide

lemma Unused.ne {f g : Frame} {fs : List Frame} (h : Unused s) (hs : s.supply = f :: g :: fs) :
    g.addr ≠ f.addr := by
  intro haddr
  have hfg : g = f := by
    cases f
    cases g
    congr
  have := h.nodup
  simp [hs, hfg] at this

lemma follow_pdpt (hv : Mappable s virt) :
    follow kind s.mem 0 s.cr3 [index virt 39] = some (pdptOf s virt) :=
  follow_pml4.mp hv.present

lemma follow_pd (hv : Mappable s virt)
    (h₁ : present (s.mem (pdptOf s virt) (index virt 30)) = true) :
    follow kind s.mem 0 s.cr3 [index virt 39, index virt 30] = some (pdOf s virt) := by
  have hpdpt := follow_pdpt hv
  have hleaf : kind 1 (s.mem (pdptOf s virt) (index virt 30)) ≠ .leaf :=
    not_leaf (q := [index virt 21, index virt 12]) hv.noHuge hpdpt rfl (by simp)
  exact follow_snoc_link hpdpt (link_of_present h₁ hleaf)

lemma follow_pt (hv : Mappable s virt)
    (h₁ : present (s.mem (pdptOf s virt) (index virt 30)) = true)
    (h₂ : present (s.mem (pdOf s virt) (index virt 21)) = true) :
    follow kind s.mem 0 s.cr3 [index virt 39, index virt 30, index virt 21] =
      some (entryAddr (s.mem (pdOf s virt) (index virt 21))) := by
  have hpd := follow_pd hv h₁
  have hleaf : kind 2 (s.mem (pdOf s virt) (index virt 21)) ≠ .leaf :=
    not_leaf (q := [index virt 12]) hv.noHuge hpd rfl (by simp)
  exact follow_snoc_link hpd (link_of_present h₂ hleaf)

/-- What a call has done: which tables it found missing, and what it wrote. -/
inductive Done (s : Vm) (virt : UInt64) (s' : Vm) : Prop
  | complete {e : UInt64} (h₁ : present (s.mem (pdptOf s virt) (index virt 30)) = true)
      (h₂ : present (s.mem (pdOf s virt) (index virt 21)) = true)
      (hs' : s' =
        writeEntry s (entryAddr (s.mem (pdOf s virt) (index virt 21))) (index virt 12) e)
  | table {f : Frame} {fs : List Frame} {e₁ e : UInt64} (hs : s.supply = f :: fs)
      (h₁ : present (s.mem (pdptOf s virt) (index virt 30)) = true)
      (h₂ : present (s.mem (pdOf s virt) (index virt 21)) = false)
      (haddr : entryAddr e₁ = f.addr) (hflags₁ : entryFlags e₁ = PRESENT ||| WRITABLE)
      (hcr3 : s'.cr3 = s.cr3)
      (hmem : s'.mem =
        write (write s.mem (pdOf s virt) (index virt 21) e₁) f.addr (index virt 12) e)
  | directory {f g : Frame} {fs : List Frame} {e₁ e₂ e : UInt64} (hs : s.supply = f :: g :: fs)
      (h₁ : present (s.mem (pdptOf s virt) (index virt 30)) = false)
      (h₂ : present (s.mem f.addr (index virt 21)) = false)
      (haddr₁ : entryAddr e₁ = f.addr) (hflags₁ : entryFlags e₁ = PRESENT ||| WRITABLE)
      (haddr₂ : entryAddr e₂ = g.addr) (hflags₂ : entryFlags e₂ = PRESENT ||| WRITABLE)
      (hflags : entryFlags e = PRESENT ||| WRITABLE) (hcr3 : s'.cr3 = s.cr3)
      (hmem : s'.mem = write (write (write s.mem (pdptOf s virt) (index virt 30) e₁) f.addr
        (index virt 21) e₂) g.addr (index virt 12) e)
  | link {f : Frame} {fs : List Frame} {e₁ e : UInt64} (hs : s.supply = f :: fs)
      (h₁ : present (s.mem (pdptOf s virt) (index virt 30)) = false)
      (h₂ : present (s.mem f.addr (index virt 21)) = true)
      (haddr : entryAddr e₁ = f.addr) (hflags₁ : entryFlags e₁ = PRESENT ||| WRITABLE)
      (hflags : entryFlags e = PRESENT ||| WRITABLE) (hcr3 : s'.cr3 = s.cr3)
      (hmem : s'.mem = write (write s.mem (pdptOf s virt) (index virt 30) e₁)
        (entryAddr (s.mem f.addr (index virt 21))) (index virt 12) e)

section Call

variable (hu : Unused s) (hv : Mappable s virt)

include hu hv

lemma mapPage_done (h : mapPage s phys virt = .ok s') : Done s virt s' := by
  obtain ⟨s₁, h₁, h⟩ := bind_ok.mp h
  obtain ⟨s₂, h₂, h⟩ := bind_ok.mp h
  obtain ⟨a, -, h⟩ := bind_ok.mp h
  obtain ⟨e, he, h⟩ := bind_ok.mp h
  cases h
  have hflags : entryFlags e = PRESENT ||| WRITABLE := by
    by_cases hal : a.val % 4096 = 0
    · obtain ⟨e', he', -, hflags⟩ := setAddr_spec hal
      rw [he'] at he
      cases he
      exact hflags
    · rw [setAddr, if_neg hal] at he
      cases he
  rcases ensureTable_cases h₁ with ⟨hp₁, rfl⟩ | ⟨hp₁, f, fs, e₁, hf, haddr₁, hflags₁, rfl⟩
  · rcases ensureTable_cases h₂ with ⟨hp₂, rfl⟩ | ⟨hp₂, f, fs, e₂, hf, haddr₂, hflags₂, rfl⟩
    · exact .complete hp₁ hp₂ rfl
    · refine .table (e := e) hf hp₁ hp₂ haddr₂ hflags₂ rfl ?_
      show write _ (entryAddr (write s₁.mem (pdOf s₁ virt) _ e₂ (pdOf s₁ virt) _)) _ _ = _
      rw [write_self, haddr₂]
      rfl
  · -- the new page directory is not the table it was linked from
    have hfp : f.addr ≠ pdptOf s virt :=
      ne_of_fresh (follow_pdpt hv) (hu.fresh f (by simp [hf]))
    have hdir : entryAddr (write s.mem (pdptOf s virt) (index virt 30) e₁ (pdptOf s virt)
        (index virt 30)) = f.addr := by rw [write_self, haddr₁]
    have hstale : write s.mem (pdptOf s virt) (index virt 30) e₁ f.addr (index virt 21) =
        s.mem f.addr (index virt 21) := write_of_ne (.inl hfp)
    change ensureTable ⟨s.cr3, write s.mem (pdptOf s virt) (index virt 30) e₁, fs⟩ (entryAddr
      (write s.mem (pdptOf s virt) (index virt 30) e₁ (pdptOf s virt) (index virt 30))) _ = _ at h₂
    rw [hdir] at h₂
    rcases ensureTable_cases h₂ with ⟨hp₂, rfl⟩ | ⟨hp₂, g, gs, e₂, hg, haddr₂, hflags₂, rfl⟩
    · simp only [hstale] at hp₂
      refine .link (e := e) hf hp₁ hp₂ haddr₁ hflags₁ hflags rfl ?_
      show write _ (entryAddr (write s.mem (pdptOf s virt) _ e₁ (entryAddr
        (write s.mem (pdptOf s virt) _ e₁ (pdptOf s virt) _)) _)) _ _ = _
      rw [hdir, hstale]
    · simp only [hstale] at hp₂
      change fs = g :: gs at hg
      subst hg
      refine .directory (e := e) hf hp₁ hp₂ haddr₁ hflags₁ haddr₂ hflags₂ hflags rfl ?_
      show write _ (entryAddr (write (write s.mem (pdptOf s virt) _ e₁) f.addr _ e₂ (entryAddr
        (write s.mem (pdptOf s virt) _ e₁ (pdptOf s virt) _)) _)) _ _ = _
      rw [hdir, write_self, haddr₂]

/-- No table is missing. -/
lemma noStray_complete (h₁ : present (s.mem (pdptOf s virt) (index virt 30)) = true)
    (h₂ : present (s.mem (pdOf s virt) (index virt 21)) = true) (e : UInt64) :
    NoStray s (writeEntry s (entryAddr (s.mem (pdOf s virt) (index virt 21))) (index virt 12) e)
      virt := by
  intro w hpage hnone
  rw [hardwareWalk, Option.map_eq_none_iff] at hnone ⊢
  refine (walk_write hu.tree (follow_pt hv h₁ h₂) fun hpre => hpage ?_).trans hnone
  exact key_eq_iff.mp (hpre.eq_of_length rfl).symm

variable {f : Frame} {fs : List Frame} {e₁ e₂ e : UInt64}

/-- The page table is missing. -/
lemma noStray_newTable (hs : s.supply = f :: fs)
    (h₁ : present (s.mem (pdptOf s virt) (index virt 30)) = true)
    (h₂ : present (s.mem (pdOf s virt) (index virt 21)) = false)
    (haddr : entryAddr e₁ = f.addr) (hflags : entryFlags e₁ = PRESENT ||| WRITABLE)
    (hmem : s'.mem = write (write s.mem (pdOf s virt) (index virt 21) e₁) f.addr (index virt 12) e)
    (hcr3 : s'.cr3 = s.cr3) :
    NoStray s s' virt ↔ ClearBut s.mem f.addr (index virt 12) := by
  have hpd := follow_pd hv h₁
  have hfresh : Fresh kind s.mem s.cr3 f.addr := hu.fresh f (by simp [hs])
  have hne := ne_of_fresh hpd hfresh
  refine noStray_table hu.tree hpd ?_ hcr3 h₂ ?_ fun j hj => ?_
  · intro q u j hq hj
    rw [hmem, write_of_ne (.inl (ne_of_fresh hq hfresh).symm), write_of_ne hj]
  · rw [hmem, write_of_ne (.inl hne.symm), write_self]
    exact written (by decide) haddr hflags
  · rw [hmem, write_of_ne (.inr hj), write_of_ne (.inl hne)]

/-- The page directory is missing, and so is the page table. -/
lemma noStray_newDirectory {g : Frame} (hs : s.supply = f :: g :: fs)
    (h₁ : present (s.mem (pdptOf s virt) (index virt 30)) = false)
    (haddr₁ : entryAddr e₁ = f.addr) (hflags₁ : entryFlags e₁ = PRESENT ||| WRITABLE)
    (haddr₂ : entryAddr e₂ = g.addr) (hflags₂ : entryFlags e₂ = PRESENT ||| WRITABLE)
    (hflags : entryFlags e = PRESENT ||| WRITABLE)
    (hmem : s'.mem = write (write (write s.mem (pdptOf s virt) (index virt 30) e₁) f.addr
      (index virt 21) e₂) g.addr (index virt 12) e)
    (hcr3 : s'.cr3 = s.cr3) :
    NoStray s s' virt ↔ ClearBelow s.mem virt (pdptOf s virt) f.addr g.addr := by
  have hpdpt := follow_pdpt hv
  have hf : Fresh kind s.mem s.cr3 f.addr := hu.fresh f (by simp [hs])
  have hg : Fresh kind s.mem s.cr3 g.addr := hu.fresh g (by simp [hs])
  have hfp := ne_of_fresh hpdpt hf
  have hgp := ne_of_fresh hpdpt hg
  have hgf := hu.ne hs
  refine noStray_directory hu.tree hpdpt ?_ hcr3 h₁ ⟨?_, ?_, ?_, hfp, hgf, hgp, ?_⟩
  · intro q u j hq hj
    rw [hmem, write_of_ne (.inl (ne_of_fresh hq hg).symm),
      write_of_ne (.inl (ne_of_fresh hq hf).symm), write_of_ne hj]
  · rw [hmem, write_of_ne (.inl hgp.symm), write_of_ne (.inl hfp.symm), write_self]
    exact written (by decide) haddr₁ hflags₁
  · rw [hmem, write_of_ne (.inl hgf.symm), write_self]
    exact written (by decide) haddr₂ hflags₂
  · rw [hmem, write_self]
    exact present_written hflags
  · intro t j n₁ n₂ n₃
    rw [hmem, write_of_ne (not_and_or.mp n₃), write_of_ne (not_and_or.mp n₂),
      write_of_ne (not_and_or.mp n₁)]

/-- The page directory is missing, and its frame already links a page table. -/
lemma noStray_staleLink (hs : s.supply = f :: fs)
    (h₁ : present (s.mem (pdptOf s virt) (index virt 30)) = false)
    (h₂ : kind 2 (s.mem f.addr (index virt 21)) = .link pt)
    (hpt : Fresh kind s.mem s.cr3 pt) (hne : pt ≠ f.addr)
    (haddr : entryAddr e₁ = f.addr) (hflags₁ : entryFlags e₁ = PRESENT ||| WRITABLE)
    (hflags : entryFlags e = PRESENT ||| WRITABLE)
    (hmem : s'.mem = write (write s.mem (pdptOf s virt) (index virt 30) e₁) pt (index virt 12) e)
    (hcr3 : s'.cr3 = s.cr3) :
    NoStray s s' virt ↔ ClearBelow s.mem virt (pdptOf s virt) f.addr pt := by
  have hpdpt := follow_pdpt hv
  have hf : Fresh kind s.mem s.cr3 f.addr := hu.fresh f (by simp [hs])
  have hfp := ne_of_fresh hpdpt hf
  have hgp := ne_of_fresh hpdpt hpt
  refine noStray_directory hu.tree hpdpt ?_ hcr3 h₁ ⟨?_, ?_, ?_, hfp, hne, hgp, ?_⟩
  · intro q u j hq hj
    rw [hmem, write_of_ne (.inl (ne_of_fresh hq hpt).symm), write_of_ne hj]
  · rw [hmem, write_of_ne (.inl hgp.symm), write_self]
    exact written (by decide) haddr hflags₁
  · rw [hmem, write_of_ne (.inl hne.symm), write_of_ne (.inl hfp)]
    exact h₂
  · rw [hmem, write_self]
    exact present_written hflags
  · intro t j n₁ _ n₃
    rw [hmem, write_of_ne (not_and_or.mp n₃), write_of_ne (not_and_or.mp n₁)]

/-- The page directory is missing, and its frame holds a huge page where the address is. -/
lemma stray_of_staleLeaf (hs : s.supply = f :: fs)
    (h₁ : present (s.mem (pdptOf s virt) (index virt 30)) = false)
    (h₂ : kind 2 (s.mem f.addr (index virt 21)) = .leaf)
    (hpt : Fresh kind s.mem s.cr3 pt) (hne : pt ≠ f.addr)
    (haddr : entryAddr e₁ = f.addr) (hflags₁ : entryFlags e₁ = PRESENT ||| WRITABLE)
    (hmem : s'.mem = write (write s.mem (pdptOf s virt) (index virt 30) e₁) pt (index virt 12) e)
    (hcr3 : s'.cr3 = s.cr3) : ¬ NoStray s s' virt := by
  have hpdpt := follow_pdpt hv
  have hf : Fresh kind s.mem s.cr3 f.addr := hu.fresh f (by simp [hs])
  have hsame : SameBut kind s.mem s'.mem s.cr3 (pdptOf s virt) (index virt 30) := by
    intro q u j hq hj
    rw [hmem, write_of_ne (.inl (ne_of_fresh hq hpt).symm), write_of_ne hj]
  have hlink : kind 1 (s'.mem (pdptOf s virt) (index virt 30)) = .link f.addr := by
    rw [hmem, write_of_ne (.inl (ne_of_fresh hpdpt hpt).symm), write_self]
    exact written (by decide) haddr hflags₁
  have hleaf : kind 2 (s'.mem f.addr (index virt 21)) = .leaf := by
    rw [hmem, write_of_ne (.inl hne.symm), write_of_ne (.inl (ne_of_fresh hpdpt hf))]
    exact h₂
  rw [noStray_iff_below hu.tree hpdpt hsame hcr3 (q := [index virt 21, index virt 12]) rfl h₁]
  intro h
  obtain ⟨k, hk⟩ := exists_ne (index virt 12)
  have hnone : walk kind s'.mem 1 (pdptOf s virt) [index virt 30, index virt 21, k] = none :=
    h [index virt 21, k] rfl (by simpa using hk)
  rw [walk_cons_link hlink, walk, hleaf] at hnone
  cases hnone

end Call

/-- **Recycled frames.** A call maps no other page when what is left in the frames handed out is
harmless. It does map one when it is not, unless an entry left there makes it write into a table in
use. -/
theorem noStray_iff_harmless (hu : Unused s) (hv : Mappable s virt)
    (hok : mapPage s phys virt = .ok s') :
    (Harmless s virt → NoStray s s' virt) ∧
      (StaleApart s virt → NoStray s s' virt → Harmless s virt) := by
  cases mapPage_done hu hv hok with
  | complete h₁ h₂ hs' =>
    subst hs'
    exact ⟨fun _ => noStray_complete hu hv h₁ h₂ _, fun _ _ => .complete h₁ h₂⟩
  | table hs h₁ h₂ haddr hflags hcr3 hmem =>
    rw [noStray_newTable hu hv hs h₁ h₂ haddr hflags hmem hcr3]
    refine ⟨fun h => ?_, fun _ h => .table hs h₁ h₂ h⟩
    cases h with
    | complete _ h => simp [h₂] at h
    | table hs' _ _ h =>
      rw [hs] at hs'
      cases hs'
      exact h
    | directory _ h => simp [h₁] at h
    | link _ h => simp [h₁] at h
  | directory hs h₁ h₂ haddr₁ hflags₁ haddr₂ hflags₂ hflags hcr3 hmem =>
    rw [noStray_newDirectory hu hv hs h₁ haddr₁ hflags₁ haddr₂ hflags₂ hflags hmem hcr3]
    refine ⟨fun h => ?_, fun _ h => .directory hs h₁ h₂ h⟩
    cases h with
    | complete h => simp [h₁] at h
    | table _ h => simp [h₁] at h
    | directory hs' _ _ h =>
      rw [hs] at hs'
      cases hs'
      exact h
    | link hs' _ h =>
      rw [hs] at hs'
      cases hs'
      rw [present_of_link h] at h₂
      cases h₂
  | @link f _ _ _ hs h₁ h₂ haddr hflags₁ hflags hcr3 hmem =>
    constructor
    · intro h
      cases h with
      | complete h => simp [h₁] at h
      | table _ h => simp [h₁] at h
      | directory hs' _ h =>
        rw [hs] at hs'
        cases hs'
        rw [h₂] at h
        cases h
      | link hs' _ hk hpt hne h =>
        rw [hs] at hs'
        cases hs'
        rw [← kind_link hk] at hmem
        rw [noStray_staleLink hu hv hs h₁ hk hpt hne haddr hflags₁ hflags hmem hcr3]
        exact h
    · intro hapart hno
      obtain ⟨hpt, hne⟩ := hapart _ _ hs h₁ h₂
      by_cases hleaf : kind 2 (s.mem f.addr (index virt 21)) = .leaf
      · exact absurd hno (stray_of_staleLeaf hu hv hs h₁ hleaf hpt hne haddr hflags₁ hmem hcr3)
      · have hk := link_of_present h₂ hleaf
        refine .link hs h₁ hk hpt hne ?_
        rwa [← noStray_staleLink hu hv hs h₁ hk hpt hne haddr hflags₁ hflags hmem hcr3]

/-- The tables of `small`, and an entry left in one of the two frames to spare. -/
def leftIn (f : Frame) (i : Fin 512) (e : UInt64) : Vm :=
  { small with mem := write small.mem f.addr i e }

lemma leftIn_reached {f : Frame} (hf : f ∈ small.supply) {i : Fin 512} {e : UInt64}
    (q : List (Fin 512)) (u : PhysAddr) (j : Fin 512)
    (hq : follow kind small.mem 0 small.cr3 q = some u) : (leftIn f i e).mem u j = small.mem u j :=
  write_of_ne (.inl (ne_of_fresh hq (small_sound.fresh f hf)).symm)

lemma leftIn_unused {f : Frame} (hf : f ∈ small.supply) (i : Fin 512) (e : UInt64) :
    Unused (leftIn f i e) where
  tree := isTree_unreached small_sound.tree (leftIn_reached hf)
  fresh g hg q hq := by
    refine small_sound.fresh g hg q ?_
    rw [← hq]
    exact (follow_unreached (leftIn_reached hf) q).symm
  nodup := small_sound.nodup

lemma leftIn_mappable (i : Fin 512) (e : UInt64)
    (hpml4 : present ((leftIn (lowFrame 4) i e).mem small.cr3 (index virt 39)) = true)
    (hnone : hardwareWalk (leftIn (lowFrame 4) i e) virt = none) :
    Mappable (leftIn (lowFrame 4) i e) virt where
  present := hpml4
  noHuge l hl := by
    rw [hnone] at hl
    cases hl

/-- The frame that becomes the page table of `0xfee00000` has a present entry for the sixth page of
it: that page gets mapped, to where the entry points. -/
theorem noStray_fails : ∃ s s' phys virt, Unused s ∧ Mappable s virt ∧
    mapPage s phys virt = .ok s' ∧ ¬ NoStray s s' virt ∧
    hardwareWalk s 0xfee05000 = none ∧
    (hardwareWalk s' 0xfee05000).map (fun l => l.addr.val) = some 0x7000 := by
  have hrun : (do
      let s' ← mapPage (leftIn (lowFrame 4) 5 0x7003) 0xfee00000 0xfee00000
      Except.ok ((hardwareWalk s' 0xfee05000).map fun l => l.addr.val)) =
        (.ok (some 0x7000) : Res (Option ℕ)) := by decide
  obtain ⟨s', hok, hwalk⟩ := bind_ok.mp hrun
  have hwalk := Except.ok.inj hwalk
  have hnone : hardwareWalk (leftIn (lowFrame 4) 5 0x7003) 0xfee05000 = none := by decide
  refine ⟨_, s', _, _, leftIn_unused (by decide) 5 0x7003,
    leftIn_mappable 5 0x7003 (by decide) (by decide), hok, fun hno => ?_, hnone, hwalk⟩
  rw [hno 0xfee05000 (by decide) hnone] at hwalk
  cases hwalk

/-- The one entry left in the page table is that of the page itself, and is overwritten. -/
theorem noStray_iff_harmless_overwritten : ∃ s s' phys virt,
    present (s.mem (lowFrame 4).addr 0) = true ∧ mapPage s phys virt = .ok s' ∧
      NoStray s s' virt := by
  have hrun : (do
      let _ ← mapPage (leftIn (lowFrame 4) 0 0x7003) 0xfee00000 0xfee00000
      Except.ok ()) = (.ok () : Res Unit) := by decide
  obtain ⟨s', hok, -⟩ := bind_ok.mp hrun
  have hzero : ∀ t j, t.val ≠ 0x1000 → t ≠ (lowFrame 4).addr ∨ j ≠ 0 →
      present ((leftIn (lowFrame 4) 0 0x7003).mem t j) = false := by
    intro t j ht hj
    have hsame : (leftIn (lowFrame 4) 0 0x7003).mem t j = small.mem t j := write_of_ne hj
    rw [hsame, small_zero ht]
    decide
  have hclear : ClearBelow (leftIn (lowFrame 4) 0 0x7003).mem 0xfee00000
      (pdptOf (leftIn (lowFrame 4) 0 0x7003) 0xfee00000) (lowFrame 3).addr (lowFrame 4).addr := by
    have h12 : index 0xfee00000 12 = 0 := by decide
    constructor
    · rw [h12]
      exact fun j hj => hzero _ j (by decide) (.inr hj)
    · exact fun j _ => .inl (hzero _ j (by decide) (.inl (by decide)))
  exact ⟨_, s', _, _, by decide, hok,
    (noStray_iff_harmless (leftIn_unused (by decide) 0 0x7003)
      (leftIn_mappable 0 0x7003 (by decide) (by decide)) hok).1
      (.directory rfl (by decide) (by decide) hclear)⟩

end OsRust.Recycled
