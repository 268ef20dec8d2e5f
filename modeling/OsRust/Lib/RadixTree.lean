import Mathlib.Logic.Function.Basic
import Mathlib.Data.List.Basic

/-!
Radix trees whose nodes are tables in a memory: a key is a list of indices, and each entry on
its way is absent, a leaf, or a link to the next table. What an entry is can depend on its
depth.

The memory is a tree when no table is reached by two paths. Then a write to one entry changes
what is found only below that entry, and so does linking a new empty table.
-/

namespace OsRust.Lib.RadixTree

inductive Kind (α : Type*)
  | absent
  | leaf
  | link (next : α)
  deriving DecidableEq

variable {α ι ε : Type*}

section Defs

variable (kind : ℕ → ε → Kind α) (m : α → ι → ε)

/-- The table at the end of a path that starts in table `t` at depth `d`. -/
def follow : ℕ → α → List ι → Option α
  | _, t, [] => some t
  | d, t, i :: p =>
    match kind d (m t i) with
    | .link t' => follow (d + 1) t' p
    | _ => none

/-- The leaf a key leads to, and its depth. -/
def walk : ℕ → α → List ι → Option (ℕ × ε)
  | _, _, [] => none
  | d, t, i :: k =>
    match kind d (m t i) with
    | .absent => none
    | .leaf => some (d, m t i)
    | .link t' => walk (d + 1) t' k

/-- No table is reached from `r` by two paths. -/
def IsTree (r : α) : Prop :=
  ∀ p q t, follow kind m 0 r p = some t → follow kind m 0 r q = some t → p = q

/-- The table is not reached from `r`. -/
def Fresh (r t : α) : Prop := ∀ p, follow kind m 0 r p ≠ some t

/-- At every depth the table is empty. -/
def Empty (t : α) : Prop := ∀ d i, kind d (m t i) = .absent

end Defs

/-- The memory with one entry of one table changed. -/
def write [DecidableEq α] [DecidableEq ι] (m : α → ι → ε) (t : α) (i : ι) (e : ε) : α → ι → ε :=
  Function.update m t (Function.update (m t) i e)

variable {kind : ℕ → ε → Kind α} {m : α → ι → ε} {r t t' : α} {d : ℕ} {i : ι} {p q k : List ι} {e : ε}

/-! ### Following paths -/

lemma follow_cons_link (h : kind d (m t i) = .link t') :
    follow kind m d t (i :: p) = follow kind m (d + 1) t' p := by
  rw [follow, h]

lemma walk_cons_link (h : kind d (m t i) = .link t') :
    walk kind m d t (i :: p) = walk kind m (d + 1) t' p := by
  rw [walk, h]

/-- A path in two parts. -/
lemma follow_append (h : follow kind m d r p = some t) :
    follow kind m d r (p ++ q) = follow kind m (d + p.length) t q := by
  induction p generalizing d r with
  | nil =>
    cases h
    rfl
  | cons j p ih =>
    rw [follow] at h
    split at h
    · next u hu =>
      rw [List.cons_append, follow_cons_link hu, ih h, List.length_cons, Nat.add_assoc,
        Nat.add_comm 1]
    · cases h

/-- A key whose first part is the path of a table. -/
lemma walk_append (h : follow kind m d r p = some t) :
    walk kind m d r (p ++ k) = walk kind m (d + p.length) t k := by
  induction p generalizing d r with
  | nil =>
    cases h
    rfl
  | cons j p ih =>
    rw [follow] at h
    split at h
    · next u hu =>
      rw [List.cons_append, walk_cons_link hu, ih h, List.length_cons, Nat.add_assoc,
        Nat.add_comm 1]
    · cases h

lemma follow_snoc (h : follow kind m 0 r p = some t) :
    follow kind m 0 r (p ++ i :: q) = follow kind m p.length t (i :: q) := by
  rw [follow_append h, Nat.zero_add]

/-- One link further. -/
lemma follow_snoc_link (h : follow kind m 0 r p = some t)
    (hl : kind p.length (m t i) = .link t') : follow kind m 0 r (p ++ [i]) = some t' := by
  rw [follow_snoc h, follow_cons_link hl]
  rfl

/-! ### Writing an entry -/

variable [DecidableEq α] [DecidableEq ι]

omit [DecidableEq α] [DecidableEq ι] in
/-- Memories with the same entries along the way lead to the same table. -/
lemma follow_congr {m' : α → ι → ε}
    (h : ∀ p₁ i p₂ u, p = p₁ ++ i :: p₂ → follow kind m d t p₁ = some u → m' u i = m u i) :
    follow kind m' d t p = follow kind m d t p := by
  induction p generalizing d t with
  | nil => rfl
  | cons j p ih =>
    have hj : m' t j = m t j := h [] j p t rfl rfl
    rw [follow, follow, hj]
    split
    · next u hu =>
      apply ih
      intro p₁ i p₂ w hp hw
      exact h (j :: p₁) i p₂ w (by rw [hp, List.cons_append]) (by rw [follow_cons_link hu, hw])
    · rfl

omit [DecidableEq α] [DecidableEq ι] in
lemma walk_congr {m' : α → ι → ε}
    (h : ∀ p₁ i p₂ u, k = p₁ ++ i :: p₂ → follow kind m d t p₁ = some u → m' u i = m u i) :
    walk kind m' d t k = walk kind m d t k := by
  induction k generalizing d t with
  | nil => rfl
  | cons j k ih =>
    have hj : m' t j = m t j := h [] j k t rfl rfl
    rw [walk, walk, hj]
    split
    · rfl
    · rfl
    · next u hu =>
      apply ih
      intro p₁ i p₂ w hk hw
      exact h (j :: p₁) i p₂ w (by rw [hk, List.cons_append]) (by rw [follow_cons_link hu, hw])

@[simp] lemma write_self : write m t i e t i = e := by simp [write]

lemma write_of_ne {u : α} {j : ι} (h : u ≠ t ∨ j ≠ i) : write m t i e u j = m u j := by
  unfold write
  by_cases hu : u = t
  · subst hu
    rw [Function.update_self, Function.update_of_ne (h.resolve_left fun hn => hn rfl)]
  · rw [Function.update_of_ne hu]

omit [DecidableEq α] [DecidableEq ι] in
lemma ne_of_fresh (ht : follow kind m 0 r p = some t) (h : Fresh kind m r t') : t' ≠ t := by
  rintro rfl
  exact h p ht

/-- On the tables reached from `r` the memories differ at most in the one entry. -/
def SameBut (kind : ℕ → ε → Kind α) (m m' : α → ι → ε) (r t : α) (i : ι) : Prop :=
  ∀ q u j, follow kind m 0 r q = some u → u ≠ t ∨ j ≠ i → m' u j = m u j

lemma write_sameBut : SameBut kind m (write m t i e) r t i := fun _ _ _ _ h => write_of_ne h

omit [DecidableEq α] [DecidableEq ι] in
/-- What happens in tables that are not reached is not seen. -/
lemma follow_unreached {m' : α → ι → ε}
    (h : ∀ q u j, follow kind m 0 r q = some u → m' u j = m u j) (q : List ι) :
    follow kind m' 0 r q = follow kind m 0 r q := by
  apply follow_congr
  intro p₁ j p₂ u _ hu
  exact h p₁ u j hu

omit [DecidableEq α] [DecidableEq ι] in
lemma isTree_unreached {m' : α → ι → ε} (hT : IsTree kind m r)
    (h : ∀ q u j, follow kind m 0 r q = some u → m' u j = m u j) : IsTree kind m' r := by
  intro p q t hp hq
  rw [follow_unreached h] at hp hq
  exact hT p q t hp hq

section SameBut

variable {m' : α → ι → ε} (hT : IsTree kind m r) (ht : follow kind m 0 r p = some t)
  (hm : SameBut kind m m' r t i)

include hT ht hm

omit [DecidableEq α] [DecidableEq ι] in
/-- In a tree, only the keys below an entry see it. -/
lemma sameBut_unseen {p₁ p₂ : List ι} {j : ι} {u : α} (hq : ¬ p ++ [i] <+: p₁ ++ j :: p₂)
    (hu : follow kind m 0 r p₁ = some u) : m' u j = m u j := by
  apply hm p₁ u j hu
  by_cases hut : u = t
  · right
    rintro rfl
    subst hut
    rw [hT _ _ _ hu ht] at hq
    exact hq ⟨p₂, by simp⟩
  · exact .inl hut

omit [DecidableEq α] [DecidableEq ι] in
/-- **A change is seen only below it**: paths. -/
lemma follow_sameBut (hq : ¬ p ++ [i] <+: q) : follow kind m' 0 r q = follow kind m 0 r q := by
  apply follow_congr
  intro p₁ j p₂ u hp hu
  exact sameBut_unseen hT ht hm (hp ▸ hq) hu

omit [DecidableEq α] [DecidableEq ι] in
/-- **A change is seen only below it**: keys. -/
lemma walk_sameBut (hk : ¬ p ++ [i] <+: k) : walk kind m' 0 r k = walk kind m 0 r k := by
  apply walk_congr
  intro p₁ j p₂ u hp hu
  exact sameBut_unseen hT ht hm (hp ▸ hk) hu

omit [DecidableEq α] [DecidableEq ι] in
/-- The table with the change is still where it was. -/
lemma follow_sameBut_self : follow kind m' 0 r p = some t := by
  rw [follow_sameBut hT ht hm, ht]
  intro hpre
  have := hpre.length_le
  simp only [List.length_append, List.length_singleton] at this
  omega

omit [DecidableEq α] [DecidableEq ι] in
lemma walk_sameBut_below : walk kind m' 0 r (p ++ i :: k) = walk kind m' p.length t (i :: k) := by
  rw [walk_append (follow_sameBut_self hT ht hm), Nat.zero_add]

end SameBut

section Write

variable (hT : IsTree kind m r) (ht : follow kind m 0 r p = some t)

include hT ht

lemma follow_write (hq : ¬ p ++ [i] <+: q) :
    follow kind (write m t i e) 0 r q = follow kind m 0 r q :=
  follow_sameBut hT ht write_sameBut hq

lemma walk_write (hk : ¬ p ++ [i] <+: k) :
    walk kind (write m t i e) 0 r k = walk kind m 0 r k :=
  walk_sameBut hT ht write_sameBut hk

lemma follow_write_below : follow kind (write m t i e) 0 r (p ++ i :: q) =
    follow kind (write m t i e) p.length t (i :: q) :=
  follow_snoc (follow_sameBut_self hT ht write_sameBut)

lemma walk_write_below : walk kind (write m t i e) 0 r (p ++ i :: k) =
    walk kind (write m t i e) p.length t (i :: k) :=
  walk_sameBut_below hT ht write_sameBut

/-! ### A leaf -/

/-- What was reached before, and nothing else, is reached after writing a leaf over no link. -/
lemma follow_write_leaf (hold : ∀ u, kind p.length (m t i) ≠ .link u)
    (hnew : kind p.length e = .leaf) (q : List ι) :
    follow kind (write m t i e) 0 r q = follow kind m 0 r q := by
  by_cases hq : p ++ [i] <+: q
  · obtain ⟨q', rfl⟩ := hq
    have hbelow : p ++ [i] ++ q' = p ++ i :: q' := by simp
    rw [hbelow, follow_write_below hT ht, follow_snoc ht, follow, follow, write_self, hnew]
    cases hk : kind p.length (m t i) with
    | absent => rfl
    | leaf => rfl
    | link u => exact absurd hk (hold u)
  · exact follow_write hT ht hq

/-- **Writing a leaf** over no link keeps the tree. -/
theorem isTree_write_leaf (hold : ∀ u, kind p.length (m t i) ≠ .link u)
    (hnew : kind p.length e = .leaf) : IsTree kind (write m t i e) r := by
  intro q q' u hq hq'
  rw [follow_write_leaf hT ht hold hnew] at hq hq'
  exact hT q q' u hq hq'

/-- **Writing a leaf** puts it at the keys below its entry and leaves the others alone. -/
theorem walk_write_leaf (hnew : kind p.length e = .leaf) (k : List ι) [Decidable (p ++ [i] <+: k)] :
    walk kind (write m t i e) 0 r k =
      if p ++ [i] <+: k then some (p.length, e) else walk kind m 0 r k := by
  split
  · next hk =>
    obtain ⟨k', rfl⟩ := hk
    have hbelow : p ++ [i] ++ k' = p ++ i :: k' := by simp
    rw [hbelow, walk_write_below hT ht, walk, write_self, hnew]
  · next hk => exact walk_write hT ht hk

/-! ### A new table -/

variable (hold : kind p.length (m t i) = .absent) (hnew : kind p.length e = .link t')
  (hfresh : Fresh kind m r t') (hempty : Empty kind m t')

include hold hnew hfresh hempty

/-- The paths after linking a new table: the old ones, and the one to the new table. -/
lemma follow_write_link (q : List ι) :
    follow kind (write m t i e) 0 r q =
      if q = p ++ [i] then some t' else follow kind m 0 r q := by
  by_cases hq : p ++ [i] <+: q
  · obtain ⟨q', rfl⟩ := hq
    have hbelow : p ++ [i] ++ q' = p ++ i :: q' := by simp
    have hne := ne_of_fresh ht hfresh
    have hlink : kind p.length (write m t i e t i) = .link t' := by rw [write_self, hnew]
    rw [hbelow, follow_write_below hT ht, follow_cons_link hlink, follow_snoc ht, follow, hold]
    cases q' with
    | nil => simp [follow]
    | cons j q' =>
      have hj : kind (p.length + 1) (write m t i e t' j) = .absent := by
        rw [write_of_ne (.inl hne)]
        exact hempty _ _
      rw [follow, hj]
      simp
  · rw [follow_write hT ht hq, if_neg]
    rintro rfl
    exact hq (List.prefix_refl _)

/-- **Linking a new table** keeps the tree. -/
theorem isTree_write_link : IsTree kind (write m t i e) r := by
  intro q q' u hq hq'
  rw [follow_write_link hT ht hold hnew hfresh hempty] at hq hq'
  split at hq
  · next hqp =>
    cases hq
    split at hq'
    · next hqp' => rw [hqp, hqp']
    · exact absurd hq' (hfresh q')
  · split at hq'
    · cases hq'
      exact absurd hq (hfresh q)
    · exact hT q q' u hq hq'

/-- **Linking a new table** changes what no key leads to. -/
theorem walk_write_link (k : List ι) :
    walk kind (write m t i e) 0 r k = walk kind m 0 r k := by
  by_cases hk : p ++ [i] <+: k
  · obtain ⟨k', rfl⟩ := hk
    have hbelow : p ++ [i] ++ k' = p ++ i :: k' := by simp
    have hne := ne_of_fresh ht hfresh
    have hlink : kind p.length (write m t i e t i) = .link t' := by rw [write_self, hnew]
    rw [hbelow, walk_write_below hT ht, walk_cons_link hlink, walk_append ht, Nat.zero_add, walk, hold]
    cases k' with
    | nil => rfl
    | cons j k' =>
      have hj : kind (p.length + 1) (write m t i e t' j) = .absent := by
        rw [write_of_ne (.inl hne)]
        exact hempty _ _
      rw [walk, hj]
  · exact walk_write hT ht hk

lemma follow_write_link_of_some {u : α} (hq : follow kind m 0 r q = some u) :
    follow kind (write m t i e) 0 r q = some u := by
  rw [follow_write_link hT ht hold hnew hfresh hempty, if_neg, hq]
  rintro rfl
  rw [follow_snoc ht, follow, hold] at hq
  cases hq

lemma fresh_write_link {u : α} (hu : Fresh kind m r u) (hne : u ≠ t') :
    Fresh kind (write m t i e) r u := by
  intro q hq
  rw [follow_write_link hT ht hold hnew hfresh hempty] at hq
  split at hq
  · exact hne (Option.some.inj hq).symm
  · exact hu q hq

end Write

end OsRust.Lib.RadixTree
