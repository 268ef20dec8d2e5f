import OsRust.Vmm
import OsRust.Lib.RadixTree
import OsRust.Lib.Machine

/-!
What the hardware finds in the page tables, and what a call of `map_page` makes of that: its
own page is mapped, no other is touched, and no two paths come to share a table.
-/

namespace OsRust.Mapping

open OsRust.Frames OsRust.Vmm OsRust.Lib.RadixTree OsRust.Lib.Machine

/-! ### The walk -/

/-- What an entry is to the hardware, the entries of the PML4 being at depth 0 and those of a page
table at depth 3. Reserved bits are taken to be clear. -/
def kind (d : ℕ) (e : UInt64) : Kind PhysAddr :=
  if contains (entryFlags e) PRESENT = false then .absent
  else if d = 0 ∨ d < 3 ∧ contains (entryFlags e) HUGE_PAGE = false then .link (entryAddr e)
  else .leaf

/-- The indices a virtual address is looked up with. -/
def key (v : UInt64) : List (Fin 512) := [index v 39, index v 30, index v 21, index v 12]

/-- The leaf a walk ends at: at depth 3 a page of 4 KiB, above that a huge one. -/
structure Leaf where
  depth : ℕ
  addr : PhysAddr
  flags : UInt64
  deriving DecidableEq

def hardwareWalk (s : Vm) (v : UInt64) : Option Leaf :=
  (walk kind s.mem 0 s.cr3 (key v)).map fun l => ⟨l.1, entryAddr l.2, entryFlags l.2⟩

/-- Bits 12 to 47. -/
def page (v : UInt64) : UInt64 := (v >>> 12) &&& 0xfffffffff

/-! ### Entries -/

lemma testBit_addrMask (i : ℕ) : addrMask.toNat.testBit i = decide (12 ≤ i ∧ i < 52) := by
  have h : addrMask.toNat = (2 ^ 40 - 1) <<< 12 := by decide
  rw [h, Nat.testBit_shiftLeft, Nat.testBit_two_pow_sub_one, ← Bool.decide_and]
  congr 1
  ext
  omega

/-- The address of a frame has no bits outside the mask. -/
lemma ofNat_and_addrMask {a : PhysAddr} (h : a.val % 4096 = 0) :
    UInt64.ofNat a.val &&& addrMask = UInt64.ofNat a.val := by
  have hlt := a.lt
  have hval : (UInt64.ofNat a.val).toNat = a.val := by
    rw [UInt64.toNat_ofNat']
    omega
  apply UInt64.toNat_inj.mp
  rw [UInt64.toNat_and, hval]
  apply Nat.eq_of_testBit_eq
  intro i
  rw [Nat.testBit_and, testBit_addrMask]
  rcases Nat.lt_or_ge i 12 with hi | hi
  · have hlow : (a.val % 2 ^ 12).testBit i = false := by
      rw [show a.val % 2 ^ 12 = 0 from h]
      exact Nat.zero_testBit i
    rw [Nat.testBit_mod_two_pow] at hlow
    have : a.val.testBit i = false := by simpa [hi] using hlow
    simp [this]
  · rcases Nat.lt_or_ge i 52 with hi' | hi'
    · simp [hi, hi']
    · have : a.val.testBit i = false :=
        Nat.testBit_lt_two_pow (Nat.lt_of_lt_of_le hlt (Nat.pow_le_pow_right (by decide) hi'))
      simp [this]

lemma or_and (a b c : UInt64) : (a ||| b) &&& c = (a &&& c) ||| (b &&& c) := by
  apply UInt64.toNat_inj.mp
  simp only [UInt64.toNat_and, UInt64.toNat_or]
  exact Nat.and_or_distrib_right _ _ _

/-- `set_addr` with the flags `map_page` sets: the entry holds this address and these flags. -/
lemma setAddr_spec {a : PhysAddr} (h : a.val % 4096 = 0) :
    ∃ e, setAddr a (PRESENT ||| WRITABLE) = .ok e ∧ entryAddr e = a ∧
      entryFlags e = PRESENT ||| WRITABLE := by
  have hmask := ofNat_and_addrMask h
  refine ⟨_, if_pos h, ?_, ?_⟩
  · have hlt := a.lt
    have hflags : (PRESENT ||| WRITABLE) &&& addrMask = 0 := by decide
    have haddr : (UInt64.ofNat a.val ||| (PRESENT ||| WRITABLE)) &&& addrMask =
        UInt64.ofNat a.val := by
      rw [or_and, hmask, hflags, UInt64.or_zero]
    unfold entryAddr
    congr 1
    rw [haddr, UInt64.toNat_ofNat']
    omega
  · have hflags : (PRESENT ||| WRITABLE) &&& ~~~ addrMask = PRESENT ||| WRITABLE := by decide
    have haddr : UInt64.ofNat a.val &&& ~~~ addrMask = 0 := by
      rw [← hmask, UInt64.and_assoc, UInt64.and_not_self, UInt64.and_zero]
    rw [entryFlags, or_and, haddr, hflags, UInt64.zero_or]

lemma kind_absent {d : ℕ} {e : UInt64} :
    kind d e = .absent ↔ contains (entryFlags e) PRESENT = false := by
  unfold kind
  split
  · next h => simp [h]
  · next h =>
    split
    · simp [h]
    · simp [h]

lemma kind_link {d : ℕ} {e : UInt64} {t : PhysAddr} (h : kind d e = .link t) :
    t = entryAddr e := by
  unfold kind at h
  split at h
  · cases h
  · split at h
    · cases h
      rfl
    · cases h

/-- The entries `map_page` writes are links above the page tables, and leaves in them. -/
lemma kind_written {d : ℕ} {e : UInt64} (h : entryFlags e = PRESENT ||| WRITABLE) :
    kind d e = if d < 3 then .link (entryAddr e) else .leaf := by
  have hpresent : contains (PRESENT ||| WRITABLE) PRESENT = true := by decide
  have hhuge : contains (PRESENT ||| WRITABLE) HUGE_PAGE = false := by decide
  unfold kind
  rw [h, hpresent, hhuge, if_neg (by simp)]
  rcases Nat.lt_or_ge d 3 with hd | hd
  · rw [if_pos (.inr ⟨hd, rfl⟩), if_pos hd]
  · rw [if_neg (fun hn => by omega), if_neg (by omega)]

lemma kind_zero (d : ℕ) : kind d 0 = .absent := kind_absent.mpr (by decide)

@[simp] lemma writeEntry_cr3 (s : Vm) (t : PhysAddr) (i : Fin 512) (e : UInt64) :
    (writeEntry s t i e).cr3 = s.cr3 := rfl

/-! ### Indices -/

lemma index_val (v s : UInt64) (hs : s.toNat < 64) :
    (index v s).val = v.toNat / 2 ^ s.toNat % 512 := by
  have h511 : (0o777 : UInt64).toNat = 2 ^ 9 - 1 := by decide
  show ((v >>> s) &&& 0o777).toNat = _
  rw [UInt64.toNat_and, UInt64.toNat_shiftRight, h511, Nat.and_two_pow_sub_one_eq_mod,
    Nat.mod_eq_of_lt hs, Nat.shiftRight_eq_div_pow]

lemma index_39 (v : UInt64) : (index v 39).val = v.toNat / 2 ^ 39 % 512 :=
  index_val v 39 (by decide)

lemma index_30 (v : UInt64) : (index v 30).val = v.toNat / 2 ^ 30 % 512 :=
  index_val v 30 (by decide)

lemma index_21 (v : UInt64) : (index v 21).val = v.toNat / 2 ^ 21 % 512 :=
  index_val v 21 (by decide)

lemma index_12 (v : UInt64) : (index v 12).val = v.toNat / 2 ^ 12 % 512 :=
  index_val v 12 (by decide)

lemma page_toNat (v : UInt64) : (page v).toNat = v.toNat / 2 ^ 12 % 2 ^ 36 := by
  have hmask : (0xfffffffff : UInt64).toNat = 2 ^ 36 - 1 := by decide
  have h12 : (12 : UInt64).toNat = 12 := by decide
  rw [page, UInt64.toNat_and, UInt64.toNat_shiftRight, hmask, h12,
    Nat.and_two_pow_sub_one_eq_mod, Nat.shiftRight_eq_div_pow]

/-- The indices are those of the page, and different pages have different ones. -/
lemma key_eq_iff {v w : UInt64} : key v = key w ↔ page v = page w := by
  have hkey : key v = key w ↔ index v 39 = index w 39 ∧ index v 30 = index w 30 ∧
      index v 21 = index w 21 ∧ index v 12 = index w 12 := by
    simp [key]
  rw [hkey, ← UInt64.toNat_inj, page_toNat, page_toNat, Fin.ext_iff, Fin.ext_iff, Fin.ext_iff,
    Fin.ext_iff, index_39, index_39, index_30, index_30, index_21, index_21, index_12, index_12]
  omega

/-! ### New tables -/

/-- The tables are a tree, and the frames still to be handed out are none of them, different and
full of zeros. -/
structure Sound (s : Vm) : Prop where
  tree : IsTree kind s.mem s.cr3
  fresh : ∀ f ∈ s.supply, Fresh kind s.mem s.cr3 f.addr
  zero : ∀ f ∈ s.supply, ∀ i, s.mem f.addr i = 0
  nodup : s.supply.Nodup

/-- What filling in missing tables keeps: the tables there were are where they were, and all keys
lead where they led. -/
structure Extends (s s' : Vm) : Prop where
  sound : Sound s'
  cr3 : s'.cr3 = s.cr3
  supply : s.supply.length ≤ s'.supply.length + 1
  follow : ∀ p t, follow kind s.mem 0 s.cr3 p = some t → follow kind s'.mem 0 s'.cr3 p = some t
  walk : ∀ k, walk kind s'.mem 0 s'.cr3 k = walk kind s.mem 0 s.cr3 k

variable {s s' : Vm} {p : List (Fin 512)} {t : PhysAddr} {i : Fin 512}

lemma Sound.empty {f : Frame} (h : Sound s) (hf : f ∈ s.supply) : Empty kind s.mem f.addr := by
  intro d i
  rw [h.zero f hf i]
  exact kind_zero d

/-- **A missing table is filled in.** Above the page tables, and unless the entry is a huge leaf,
there is a table behind it afterwards, or there is no frame left to make one. -/
lemma ensureTable_spec (h : Sound s) (ht : follow kind s.mem 0 s.cr3 p = some t)
    (hp : p.length < 3) (hleaf : kind p.length (s.mem t i) ≠ .leaf) :
    (s.supply = [] ∧ ensureTable s t i = .error outOfMemory) ∨
      ∃ s', ensureTable s t i = .ok s' ∧ Extends s s' ∧
        follow kind s'.mem 0 s'.cr3 (p ++ [i]) = some (entryAddr (s'.mem t i)) := by
  cases hk : kind p.length (s.mem t i) with
  | leaf => exact absurd hk hleaf
  | link u =>
    have hpresent : contains (entryFlags (s.mem t i)) PRESENT = true := by
      by_contra hn
      rw [Bool.not_eq_true] at hn
      rw [kind_absent.mpr hn] at hk
      cases hk
    refine .inr ⟨s, ?_, ⟨h, rfl, by omega, fun _ _ hq => hq, fun _ => rfl⟩, ?_⟩
    · rw [ensureTable, hpresent]
      rfl
    · rw [follow_snoc ht, follow_cons_link hk, kind_link hk]
      rfl
  | absent =>
    by_cases hsupply : s.supply = []
    · refine .inl ⟨hsupply, ?_⟩
      rw [ensureTable, kind_absent.mp hk, allocFrame, hsupply]
      rfl
    obtain ⟨f, fs, hfs⟩ := List.exists_cons_of_ne_nil hsupply
    have hf : f ∈ s.supply := by simp [hfs]
    obtain ⟨e, he, haddr, hflags⟩ := setAddr_spec f.aligned
    have hlink : kind p.length e = .link f.addr := by rw [kind_written hflags, if_pos hp, haddr]
    have hfresh := h.fresh f hf
    have hempty := h.empty hf
    have hmem : ∀ g ∈ fs, g ∈ s.supply := fun g hg => by simp [hfs, hg]
    have hne : ∀ g ∈ fs, g.addr ≠ f.addr := by
      intro g hg haddr'
      have hgf : g = f := by
        cases f
        cases g
        congr
      have := h.nodup
      rw [hfs, List.nodup_cons] at this
      exact this.1 (hgf ▸ hg)
    let s' : Vm := ⟨s.cr3, write s.mem t i e, fs⟩
    refine .inr ⟨s', ?_, ⟨⟨?_, ?_, ?_, ?_⟩, rfl, ?_, ?_, ?_⟩, ?_⟩
    · rw [ensureTable, kind_absent.mp hk, allocFrame, hfs]
      simp only [Bool.not_false, if_true, ok_bind, he]
      rfl
    · exact isTree_write_link h.tree ht hk hlink hfresh hempty
    · intro g hg
      exact fresh_write_link h.tree ht hk hlink hfresh hempty (h.fresh g (hmem g hg)) (hne g hg)
    · intro g hg j
      have hgt : g.addr ≠ t := ne_of_fresh ht (h.fresh g (hmem g hg))
      show write s.mem t i e g.addr j = 0
      rw [write_of_ne (.inl hgt)]
      exact h.zero g (hmem g hg) j
    · have := h.nodup
      rw [hfs] at this
      exact this.of_cons
    · simp [s', hfs]
    · intro q u hq
      exact follow_write_link_of_some h.tree ht hk hlink hfresh hempty hq
    · intro k
      exact walk_write_link h.tree ht hk hlink hfresh hempty k
    · show follow kind (write s.mem t i e) 0 s.cr3 (p ++ [i]) = _
      rw [follow_write_link h.tree ht hk hlink hfresh hempty, if_pos rfl]
      show _ = some (entryAddr (write s.mem t i e t i))
      rw [write_self, haddr]

/-! ### One call -/

/-- The PML4 entry of the address is present, and no huge leaf lies on its path. -/
structure Mappable (s : Vm) (virt : UInt64) : Prop where
  present : contains (entryFlags (s.mem s.cr3 (index virt 39))) PRESENT = true
  noHuge : ∀ l, hardwareWalk s virt = some l → l.depth = 3

variable {phys virt : UInt64}

/-- In the PML4, present entries are links. -/
lemma kind_pml4 {e : UInt64} :
    contains (entryFlags e) PRESENT = true ↔ kind 0 e = .link (entryAddr e) := by
  unfold kind
  cases contains (entryFlags e) PRESENT <;> simp

lemma follow_pml4 {j : Fin 512} :
    contains (entryFlags (s.mem s.cr3 j)) PRESENT = true ↔
      follow kind s.mem 0 s.cr3 [j] = some (entryAddr (s.mem s.cr3 j)) := by
  rw [kind_pml4]
  constructor
  · intro h
    rw [follow_cons_link h]
    rfl
  · intro h
    rw [follow] at h
    split at h
    · next u hu => rw [hu, kind_link hu]
    · cases h

/-- No entry on the path of a mappable address is a huge leaf. -/
lemma not_leaf {q : List (Fin 512)} (hv : ∀ l, hardwareWalk s virt = some l → l.depth = 3)
    (ht : follow kind s.mem 0 s.cr3 p = some t) (hkey : key virt = p ++ i :: q)
    (hp : p.length < 3) : kind p.length (s.mem t i) ≠ .leaf := by
  intro hleaf
  have hwalk : hardwareWalk s virt =
      some ⟨p.length, entryAddr (s.mem t i), entryFlags (s.mem t i)⟩ := by
    rw [hardwareWalk, hkey, walk_append ht, Nat.zero_add, walk, hleaf]
    rfl
  have := hv _ hwalk
  simp only at this
  omega

lemma Extends.hardwareWalk (h : Extends s s') (v : UInt64) :
    hardwareWalk s' v = hardwareWalk s v := by
  rw [Mapping.hardwareWalk, h.walk, Mapping.hardwareWalk]

/-- **The leaf.** Writing it in the page table of an address maps the page and leaves all else
alone. -/
lemma writeLeaf_spec {e : UInt64} (h : Sound s) (ht : follow kind s.mem 0 s.cr3 p = some t)
    (hkey : key virt = p ++ [i]) (hflags : entryFlags e = PRESENT ||| WRITABLE) :
    Sound (writeEntry s t i e) ∧
      (∀ q, follow kind (writeEntry s t i e).mem 0 s.cr3 q = follow kind s.mem 0 s.cr3 q) ∧
      ∀ w, hardwareWalk (writeEntry s t i e) w = if page w = page virt then
        some ⟨3, entryAddr e, PRESENT ||| WRITABLE⟩ else hardwareWalk s w := by
  have hp : p.length = 3 := by
    have hlen := congrArg List.length hkey
    simpa [key] using hlen.symm
  have hnew : kind p.length e = .leaf := by rw [kind_written hflags, if_neg (by omega)]
  have hold : ∀ u, kind p.length (s.mem t i) ≠ .link u := by
    intro u
    unfold kind
    rw [hp]
    split
    · simp
    · simp
  have hfollow : ∀ q, follow kind (writeEntry s t i e).mem 0 s.cr3 q = follow kind s.mem 0 s.cr3 q :=
    fun q => follow_write_leaf h.tree ht hold hnew q
  refine ⟨⟨?_, ?_, ?_, h.nodup⟩, hfollow, fun w => ?_⟩
  · exact isTree_write_leaf h.tree ht hold hnew
  · intro f hf q hq
    rw [writeEntry_cr3, hfollow] at hq
    exact h.fresh f hf q hq
  · intro f hf j
    show write s.mem t i e f.addr j = 0
    rw [write_of_ne (.inl (ne_of_fresh ht (h.fresh f hf)))]
    exact h.zero f hf j
  · have hpre : p ++ [i] <+: key w ↔ page w = page virt := by
      rw [← hkey, ← key_eq_iff]
      constructor
      · intro hpre
        exact (hpre.eq_of_length rfl).symm
      · intro he
        rw [he]
    have hwalk : walk kind (writeEntry s t i e).mem 0 s.cr3 (key w) =
        if p ++ [i] <+: key w then some (p.length, e) else walk kind s.mem 0 s.cr3 (key w) :=
      walk_write_leaf h.tree ht hnew (key w)
    rw [hardwareWalk, writeEntry_cr3, hwalk]
    by_cases hw : page w = page virt
    · rw [if_pos (hpre.mpr hw), if_pos hw, hp, Option.map_some, hflags]
    · rw [if_neg (fun hn => hw (hpre.mp hn)), if_neg hw, hardwareWalk]

/-- An address stays mappable when no table gets lost and its walk ends as before or in a page of
4 KiB. -/
lemma Mappable.next {w : UInt64} (hw : Mappable s w)
    (hfollow : ∀ q u, follow kind s.mem 0 s.cr3 q = some u → follow kind s'.mem 0 s'.cr3 q = some u)
    (hwalk : hardwareWalk s' w = hardwareWalk s w ∨ ∃ a f, hardwareWalk s' w = some ⟨3, a, f⟩) :
    Mappable s' w := by
  constructor
  · have h := hfollow _ _ (follow_pml4.mp hw.present)
    rw [follow] at h
    split at h
    · next u hu => rw [kind_pml4, hu, kind_link hu]
    · cases h
  · intro l hl
    rcases hwalk with he | ⟨a, f, he⟩
    · exact hw.noHuge l (he ▸ hl)
    · rw [he] at hl
      cases hl
      rfl

/-- **What one call does**: it maps its page, leaves the others alone, and keeps the tree, or it
runs out of memory, which takes fewer than two frames. -/
lemma mapPage_spec (h : Sound s) (hv : Mappable s virt) (hal : phys.toNat % 4096 = 0)
    (hlt : phys.toNat < 2 ^ 52) :
    (s.supply.length < 2 ∧ mapPage s phys virt = .error outOfMemory) ∨
      ∃ s', mapPage s phys virt = .ok s' ∧ Sound s' ∧ s.supply.length ≤ s'.supply.length + 2 ∧
        (∀ w, hardwareWalk s' w = if page w = page virt then
          some ⟨3, ⟨phys.toNat, hlt⟩, PRESENT ||| WRITABLE⟩ else hardwareWalk s w) ∧
        ∀ w, Mappable s w → Mappable s' w := by
  have hkey : key virt = [index virt 39, index virt 30, index virt 21, index virt 12] := rfl
  -- the page directory pointer table is there, the tables below are made where they are missing
  have h₁ := follow_pml4.mp hv.present
  rcases ensureTable_spec h h₁ (i := index virt 30) (by simp)
    (not_leaf hv.noHuge h₁ hkey (by simp)) with ⟨hnil, hs₁⟩ | ⟨s₁, hs₁, hE₁, h₂⟩
  · refine .inl ⟨by simp [hnil], ?_⟩
    simp only [mapPage, hs₁, error_bind]
  have hno₁ : ∀ l, hardwareWalk s₁ virt = some l → l.depth = 3 := by
    intro l hl
    rw [hE₁.hardwareWalk] at hl
    exact hv.noHuge l hl
  have hleft := hE₁.supply
  rcases ensureTable_spec hE₁.sound h₂ (i := index virt 21) (by simp)
    (not_leaf hno₁ h₂ hkey (by simp)) with ⟨hnil, hs₂⟩ | ⟨s₂, hs₂, hE₂, h₃⟩
  · refine .inl ⟨by rw [hnil] at hleft; simpa using Nat.lt_succ_of_le hleft, ?_⟩
    simp only [mapPage, hs₁, ok_bind, hs₂, error_bind]
  have hleft' := hE₂.supply
  obtain ⟨e, he, haddr, hflags⟩ := setAddr_spec (a := ⟨phys.toNat, hlt⟩) hal
  obtain ⟨hsound, hfollow, hwalk⟩ := writeLeaf_spec hE₂.sound h₃ hkey hflags
  refine .inr ⟨_, ?_, hsound, ?_, fun w => ?_, fun w hw => hw.next ?_ ?_⟩
  · simp only [mapPage, hs₁, ok_bind, hs₂, PhysAddr.new_ok hlt, he]
  · show _ ≤ s₂.supply.length + 2
    omega
  · rw [hwalk w, haddr, hE₂.hardwareWalk, hE₁.hardwareWalk]
  · intro q u hq
    exact (hfollow q).trans (hE₂.follow q u (hE₁.follow q u hq))
  · rw [hwalk w, hE₂.hardwareWalk, hE₁.hardwareWalk]
    split
    · exact .inr ⟨_, _, rfl⟩
    · exact .inl rfl

/-! ### Many calls -/

/-- A call, with its two arguments. -/
structure Call where
  phys : UInt64
  virt : UInt64
  deriving DecidableEq

def step (s : Vm) (c : Call) : Res Vm := mapPage s c.phys c.virt

/-- The last of the calls that are for the page of `v`. -/
def lastCall (calls : List Call) (v : UInt64) : Option Call :=
  calls.reverse.find? fun c => page c.virt = page v

lemma lastCall_cons (c : Call) (calls : List Call) (v : UInt64) :
    lastCall (c :: calls) v =
      (lastCall calls v).or (if page c.virt = page v then some c else none) := by
  unfold lastCall
  rw [List.reverse_cons, List.find?_append]
  congr 1
  by_cases h : page c.virt = page v
  · simp [h]
  · simp [h]

/-- What the calls have made of the tables: a tree again, in which the walk of a page ends at the
address of the last call for it, or where it ended at the start when there was none. -/
structure Mapped (calls : List Call) (s s' : Vm) : Prop where
  tree : IsTree kind s'.mem s'.cr3
  last : ∀ v c, lastCall calls v = some c → ∃ l, hardwareWalk s' v = some l ∧ l.depth = 3 ∧
    l.addr.val = c.phys.toNat ∧ l.flags = PRESENT ||| WRITABLE
  others : ∀ v, lastCall calls v = none → hardwareWalk s' v = hardwareWalk s v

/-- One call more, before the others. -/
lemma Mapped.cons {c : Call} {calls : List Call} {s₁ : Vm} (hlt : c.phys.toNat < 2 ^ 52)
    (hwalk : ∀ v, hardwareWalk s₁ v = if page v = page c.virt then
      some ⟨3, ⟨c.phys.toNat, hlt⟩, PRESENT ||| WRITABLE⟩ else hardwareWalk s v)
    (h : Mapped calls s₁ s') : Mapped (c :: calls) s s' where
  tree := h.tree
  last v d hd := by
    rw [lastCall_cons, Option.or_eq_some_iff] at hd
    rcases hd with hd | ⟨hrest, hd⟩
    · exact h.last v d hd
    · -- this call is the last one for the page
      split at hd
      · next hpage =>
        cases hd
        have hwv := hwalk v
        rw [if_pos hpage.symm] at hwv
        exact ⟨_, (h.others v hrest).trans hwv, rfl, rfl, rfl⟩
      · cases hd
  others v hd := by
    rw [lastCall_cons, Option.or_eq_none_iff] at hd
    rw [h.others v hd.1, hwalk v, if_neg]
    intro hpage
    have := hd.2
    rw [if_pos hpage.symm] at this
    cases this

/-- Any calls do what they are meant to, or run out of memory, which takes fewer than two frames for
each. -/
lemma calls_spec {calls : List Call} (h : Sound s)
    (hcalls : ∀ c ∈ calls, c.phys.toNat % 4096 = 0 ∧ c.phys.toNat < 2 ^ 52 ∧ Mappable s c.virt) :
    (s.supply.length < 2 * calls.length ∧ run step s calls = .error outOfMemory) ∨
      ∃ s', run step s calls = .ok s' ∧ Mapped calls s s' := by
  induction calls generalizing s with
  | nil => exact .inr ⟨s, rfl, h.tree, fun v c hc => (by cases hc), fun v _ => rfl⟩
  | cons c calls ih =>
    obtain ⟨hal, hlt, hv⟩ := hcalls c (by simp)
    rw [List.length_cons]
    rcases mapPage_spec h hv hal hlt with ⟨hfew, hs⟩ | ⟨s₁, hs, hsound, hleft, hwalk, hmappable⟩
    · refine .inl ⟨by omega, ?_⟩
      have hstep : step s c = .error outOfMemory := hs
      rw [run, hstep]
    · have hrest : ∀ d ∈ calls, d.phys.toNat % 4096 = 0 ∧ d.phys.toNat < 2 ^ 52 ∧
          Mappable s₁ d.virt := by
        intro d hd
        obtain ⟨h₁, h₂, h₃⟩ := hcalls d (by simp [hd])
        exact ⟨h₁, h₂, hmappable _ h₃⟩
      rcases ih hsound hrest with ⟨hfew, hrun⟩ | ⟨s', hrun, hmapped⟩
      · refine .inl ⟨by omega, ?_⟩
        have hstep : step s c = .ok s₁ := hs
        rw [run, hstep]
        exact hrun
      · exact .inr ⟨s', run_cons_ok.mpr ⟨s₁, hs, hrun⟩, hmapped.cons hlt hwalk⟩

/-- Two frames for each call are enough. -/
lemma enough_memory {calls : List Call} (h : Sound s)
    (hcalls : ∀ c ∈ calls, c.phys.toNat % 4096 = 0 ∧ c.phys.toNat < 2 ^ 52 ∧ Mappable s c.virt)
    (hsupply : 2 * calls.length ≤ s.supply.length) : run step s calls ≠ .error outOfMemory := by
  rcases calls_spec h hcalls with ⟨hfew, -⟩ | ⟨s', hrun, -⟩
  · omega
  · rw [hrun]
    simp

/-- **The mapping law.** Any calls of `map_page` that do not run out of memory succeed. The walk of
a page then ends at the address of the last call for that page, or where it ended at the start when
there was none; and the tables are a tree again. -/
theorem mapping_law {calls : List Call} (h : Sound s)
    (hcalls : ∀ c ∈ calls, c.phys.toNat % 4096 = 0 ∧ c.phys.toNat < 2 ^ 52 ∧ Mappable s c.virt)
    (hmemory : run step s calls ≠ .error outOfMemory) :
    ∃ s', run step s calls = .ok s' ∧ Mapped calls s s' := by
  rcases calls_spec h hcalls with ⟨-, hrun⟩ | hmapped
  · exact absurd hrun hmemory
  · exact hmapped

lemma lowFrame_lt (n : UInt8) : 4096 * n.toNat < 2 ^ 52 := by
  have := n.toNat_lt
  omega

lemma lowFrame_aligned (n : UInt8) : 4096 * n.toNat % 4096 = 0 := Nat.mul_mod_right ..

def lowFrame (n : UInt8) : Frame := ⟨⟨4096 * n.toNat, lowFrame_lt n⟩, lowFrame_aligned n⟩

/-- A PML4 at `0x1000` with one entry, for an empty table at `0x2000`, and two frames to spare. -/
def small : Vm where
  cr3 := (lowFrame 1).addr
  mem t i := if t.val = 0x1000 ∧ i.val = 0 then 0x2003 else 0
  supply := [lowFrame 3, lowFrame 4]

lemma small_zero {t : PhysAddr} (h : t.val ≠ 0x1000) (i : Fin 512) : small.mem t i = 0 :=
  if_neg fun hn => h hn.1

lemma follow_small {p : List (Fin 512)} {t : PhysAddr}
    (h : follow kind small.mem 0 small.cr3 p = some t) :
    p = [] ∧ t.val = 0x1000 ∨ p = [0] ∧ t.val = 0x2000 := by
  cases p with
  | nil =>
    cases h
    exact .inl ⟨rfl, rfl⟩
  | cons i p =>
    right
    by_cases hi : i = 0
    · subst hi
      have hlink : kind 0 (small.mem small.cr3 0) = .link ⟨0x2000, by decide⟩ := by decide
      rw [follow_cons_link hlink] at h
      cases p with
      | nil =>
        cases h
        exact ⟨rfl, rfl⟩
      | cons j p =>
        rw [follow, small_zero (by decide), kind_zero] at h
        cases h
    · have hzero : small.mem small.cr3 i = 0 := if_neg fun hn => hi (Fin.ext hn.2)
      rw [follow, hzero, kind_zero] at h
      cases h

lemma small_supply : ∀ f ∈ small.supply, f.addr.val ≠ 0x1000 ∧ f.addr.val ≠ 0x2000 := by decide

lemma small_sound : Sound small where
  tree p q t hp hq := by
    rcases follow_small hp with ⟨rfl, h₁⟩ | ⟨rfl, h₁⟩
    · rcases follow_small hq with ⟨rfl, -⟩ | ⟨rfl, h₂⟩
      · rfl
      · omega
    · rcases follow_small hq with ⟨rfl, h₂⟩ | ⟨rfl, -⟩
      · omega
      · rfl
  fresh f hf p hp := by
    rcases follow_small hp with ⟨-, h⟩ | ⟨-, h⟩
    · exact (small_supply f hf).1 h
    · exact (small_supply f hf).2 h
  zero f hf i := small_zero (small_supply f hf).1 i
  nodup := by decide

/-- A page, another one of the same table, and the first one again, to another frame. -/
def smallCalls : List Call :=
  [⟨0xfee00000, 0xfee00000⟩, ⟨0x5000, 0xfee01000⟩, ⟨0x6000, 0xfee00000⟩]

lemma smallCalls_ok : ∀ c ∈ smallCalls,
    c.phys.toNat % 4096 = 0 ∧ c.phys.toNat < 2 ^ 52 ∧ Mappable small c.virt := by
  intro c hc
  have hnone : hardwareWalk small c.virt = none := by
    revert c
    decide
  have hsmall : c.phys.toNat % 4096 = 0 ∧ c.phys.toNat < 2 ^ 52 ∧
      contains (entryFlags (small.mem small.cr3 (index c.virt 39))) PRESENT = true := by
    revert c
    decide
  refine ⟨hsmall.1, hsmall.2.1, hsmall.2.2, fun l hl => ?_⟩
  rw [hnone] at hl
  cases hl

-- two frames are enough, since the calls share a table
lemma smallCalls_memory : run step small smallCalls ≠ .error outOfMemory := by
  intro he
  have hok : (run step small smallCalls).isOk = true := by decide
  rw [he] at hok
  cases hok

theorem mapping_law_small : ∃ s', run step small smallCalls = .ok s' ∧
    (∃ l, hardwareWalk s' 0xfee00020 = some l ∧ l.addr.val = 0x6000) ∧
    ∃ l, hardwareWalk s' 0xfee01020 = some l ∧ l.addr.val = 0x5000 := by
  obtain ⟨s', hrun, hmapped⟩ := mapping_law small_sound smallCalls_ok smallCalls_memory
  obtain ⟨l, hl, -, haddr, -⟩ := hmapped.last 0xfee00020 ⟨0x6000, 0xfee00000⟩ (by decide)
  obtain ⟨l', hl', -, haddr', -⟩ := hmapped.last 0xfee01020 ⟨0x5000, 0xfee01000⟩ (by decide)
  exact ⟨s', hrun, ⟨l, hl, haddr⟩, l', hl', haddr'⟩

end OsRust.Mapping
