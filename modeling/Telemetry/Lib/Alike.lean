import Telemetry.Lib.Tree
import Mathlib.Data.List.Forall2

/-!
# Trees up to the order of their entries

A dict has no order of its own: two trees say the same if their scalars do, their lists do item
by item, and their dicts do key by key. The keys of the second tree may be written in another way.

A value of a language whose lists and dicts have an identity is a tree only if none of them lies
within itself.

## Main definitions

* `Tree.Alike` — two trees up to the order of their entries.
* `Tree.Acyclic` — no list or dict lies within itself.
* `Tree.mapScalar` — a tree with its scalars changed.
* `Tree.AllScalars`, `Tree.AllKeys` — every scalar, or key, of a tree is one of some kind.
-/

namespace Telemetry.Lib.Tree

variable {κ κ' ι ι' α β : Type}

/-- Two trees with related scalars, up to the order of the entries of a dict. -/
inductive Alike (f : κ' → κ) (R : α → β → Prop) : Tree κ ι α → Tree κ' ι' β → Prop
  | scalar {a : α} {b : β} (h : R a b) : Alike f R (.scalar a) (.scalar b)
  | list {r : ι} {r' : ι'} {xs : List (Tree κ ι α)} {ys : List (Tree κ' ι' β)}
      (hlength : xs.length = ys.length)
      (h : ∀ (i : ℕ) (hx : i < xs.length) (hy : i < ys.length), Alike f R xs[i] ys[i]) :
      Alike f R (.list r xs) (.list r' ys)
  | dict {r : ι} {r' : ι'} {entries : List (κ × Tree κ ι α)} {entries' : List (κ' × Tree κ' ι' β)}
      (hkeys : (entries.map Prod.fst).Perm (entries'.map fun e => f e.1))
      (h : ∀ e ∈ entries, ∀ e' ∈ entries', e.1 = f e'.1 → Alike f R e.2 e'.2) :
      Alike f R (.dict r entries) (.dict r' entries')

/-- No list or dict lies within itself, or within one of those that were entered. -/
inductive Acyclic : List ι → Tree κ ι α → Prop
  | scalar {seen : List ι} (a : α) : Acyclic seen (.scalar a)
  | list {seen : List ι} {r : ι} {items : List (Tree κ ι α)} (hnew : r ∉ seen)
      (h : ∀ x ∈ items, Acyclic (r :: seen) x) : Acyclic seen (.list r items)
  | dict {seen : List ι} {r : ι} {entries : List (κ × Tree κ ι α)} (hnew : r ∉ seen)
      (h : ∀ e ∈ entries, Acyclic (r :: seen) e.2) : Acyclic seen (.dict r entries)

variable {f : κ' → κ} {R : α → β → Prop}

/-- Two lists that are alike item by item. -/
theorem Alike.of_forall₂ (r : ι) (r' : ι') {xs : List (Tree κ ι α)} {ys : List (Tree κ' ι' β)}
    (h : List.Forall₂ (Alike f R) xs ys) : Alike f R (.list r xs) (.list r' ys) :=
  .list h.length_eq fun _ hx hy => h.get hx hy

/-- Two dicts with their entries put in some order, in which they are alike entry by entry. -/
theorem Alike.of_perm (r : ι) (r' : ι') {entries es : List (κ × Tree κ ι α)}
    {entries' es' : List (κ' × Tree κ' ι' β)} (hperm : es.Perm entries)
    (hperm' : es'.Perm entries') (hnodup : (entries.map Prod.fst).Nodup)
    (h : List.Forall₂ (fun e e' => e.1 = f e'.1 ∧ Alike f R e.2 e'.2) es es') :
    Alike f R (.dict r entries) (.dict r' entries') := by
  have hkeys : es.map Prod.fst = es'.map fun e => f e.1 := by
    clear hperm hperm'
    induction h with
    | nil => rfl
    | cons he _ ih => rw [List.map_cons, List.map_cons, he.1, ih]
  have hdup : (es.map Prod.fst).Nodup := (hperm.map Prod.fst).nodup_iff.mpr hnodup
  have hpair : ∀ e ∈ es, ∀ e' ∈ es', e.1 = f e'.1 → Alike f R e.2 e'.2 := by
    clear hperm hperm'
    induction h with
    | nil => simp
    | cons he hrest ih =>
        rename_i e e' es es'
        rw [List.map_cons, List.map_cons, List.cons.injEq] at hkeys
        rw [List.map_cons, List.nodup_cons] at hdup
        intro d hd d' hd' hkey
        rcases List.mem_cons.mp hd with rfl | hd
        · rcases List.mem_cons.mp hd' with rfl | hd'
          · exact he.2
          · -- the key would be there a second time
            have hmem : d.1 ∈ es.map Prod.fst := by
              rw [hkey, hkeys.2]
              exact List.mem_map_of_mem hd'
            exact absurd hmem hdup.1
        · rcases List.mem_cons.mp hd' with rfl | hd'
          · have hmem : e.1 ∈ es.map Prod.fst := by
              rw [he.1, ← hkey]
              exact List.mem_map_of_mem hd
            exact absurd hmem hdup.1
          · exact ih hkeys.2 hdup.2 d hd d' hd' hkey
  apply Alike.dict
  · have hmap := (hperm.map Prod.fst).symm
    rw [hkeys] at hmap
    exact hmap.trans (hperm'.map _)
  · intro e he e' he'
    exact hpair e (hperm.mem_iff.mpr he) e' (hperm'.mem_iff.mpr he')

/-! ## Changing the scalars -/

mutual
/-- Change the scalars. -/
def mapScalar (g : α → β) : Tree κ ι α → Tree κ ι β
  | .scalar a => .scalar (g a)
  | .list r items => .list r (mapScalarItems g items)
  | .dict r entries => .dict r (mapScalarEntries g entries)
/-- On the items of a list. -/
def mapScalarItems (g : α → β) : List (Tree κ ι α) → List (Tree κ ι β)
  | [] => []
  | x :: items => mapScalar g x :: mapScalarItems g items
/-- On the entries of a dict. -/
def mapScalarEntries (g : α → β) : List (κ × Tree κ ι α) → List (κ × Tree κ ι β)
  | [] => []
  | (k, x) :: entries => (k, mapScalar g x) :: mapScalarEntries g entries
end

theorem mapScalar_list (g : α → β) (r : ι) (items : List (Tree κ ι α)) :
    mapScalar g (.list r items) = .list r (items.map (mapScalar g)) := by
  rw [mapScalar]
  congr 1
  induction items with
  | nil => rfl
  | cons x items ih => rw [mapScalarItems, ih, List.map_cons]

theorem mapScalar_dict (g : α → β) (r : ι) (entries : List (κ × Tree κ ι α)) :
    mapScalar g (.dict r entries) = .dict r (entries.map fun e => (e.1, mapScalar g e.2)) := by
  rw [mapScalar]
  congr 1
  induction entries with
  | nil => rfl
  | cons e entries ih => rw [mapScalarEntries, ih, List.map_cons]

theorem Acyclic.mapScalar {seen : List ι} {t : Tree κ ι α} (h : t.Acyclic seen) (g : α → β) :
    (t.mapScalar g).Acyclic seen := by
  induction h with
  | scalar a => exact .scalar (g a)
  | list hnew _ ih =>
      rw [mapScalar_list]
      exact .list hnew (List.forall_mem_map.mpr ih)
  | dict hnew _ ih =>
      rw [mapScalar_dict]
      exact .dict hnew (List.forall_mem_map.mpr ih)

/-! ## Every scalar -/

/-- Every scalar of the tree is one of these. -/
inductive AllScalars (P : α → Prop) : Tree κ ι α → Prop
  | scalar {a : α} (h : P a) : AllScalars P (.scalar a)
  | list {r : ι} {items : List (Tree κ ι α)} (h : ∀ x ∈ items, AllScalars P x) :
      AllScalars P (.list r items)
  | dict {r : ι} {entries : List (κ × Tree κ ι α)} (h : ∀ e ∈ entries, AllScalars P e.2) :
      AllScalars P (.dict r entries)

theorem AllScalars.imp {P Q : α → Prop} {t : Tree κ ι α} (h : t.AllScalars P)
    (hPQ : ∀ {a}, P a → Q a) : t.AllScalars Q := by
  induction h with
  | scalar h => exact .scalar (hPQ h)
  | list _ ih => exact .list ih
  | dict _ ih => exact .dict ih

theorem AllScalars.and {P Q : α → Prop} {t : Tree κ ι α} (h : t.AllScalars P)
    (h' : t.AllScalars Q) : t.AllScalars fun a => P a ∧ Q a := by
  induction h with
  | scalar h =>
      rcases h' with ⟨h'⟩
      exact .scalar ⟨h, h'⟩
  | list _ ih =>
      rcases h' with - | ⟨h'⟩
      exact .list fun x hx => ih x hx (h' x hx)
  | dict _ ih =>
      rcases h' with - | - | ⟨h'⟩
      exact .dict fun e he => ih e he (h' e he)

/-- What a relation says of its first scalar holds of every scalar of the first tree. -/
theorem Alike.allScalars {P : α → Prop} {t : Tree κ ι α} {u : Tree κ' ι' β} (h : Alike f R t u)
    (hR : ∀ {a b}, R a b → P a) : t.AllScalars P := by
  induction h with
  | scalar h => exact .scalar (hR h)
  | list hlength _ ih =>
      refine .list fun x hx => ?_
      rcases List.mem_iff_getElem.mp hx with ⟨i, hi, rfl⟩
      exact ih i hi (hlength ▸ hi)
  | dict hkeys _ ih =>
      refine .dict fun e he => ?_
      rcases List.mem_map.mp (hkeys.mem_iff.mp (List.mem_map_of_mem he)) with ⟨e', he', hkey⟩
      exact ih e he e' he' hkey.symm

/-- A tree that is alike to itself with its scalars changed: the change relates every scalar to
what it becomes. -/
theorem allScalars_of_alike_mapScalar {R : α → β → Prop} {g : α → β} {t : Tree κ ι α}
    (h : Alike id R t (t.mapScalar g)) : t.AllScalars fun a => R a (g a) := by
  induction t using Tree.induct with
  | scalar a =>
      rcases h with ⟨h⟩
      exact .scalar h
  | list r items ih =>
      rw [mapScalar_list] at h
      rcases h with - | ⟨-, h⟩
      refine .list fun x hx => ih x hx ?_
      rcases List.mem_iff_getElem.mp hx with ⟨i, hi, rfl⟩
      have hitem := h i hi (by rwa [List.length_map])
      rwa [List.getElem_map] at hitem
  | dict r entries ih =>
      rw [mapScalar_dict] at h
      rcases h with - | - | ⟨-, h⟩
      exact .dict fun e he => ih e he (h e he _ (List.mem_map_of_mem he) rfl)

theorem allScalars_mapScalar_iff {P : β → Prop} {g : α → β} {t : Tree κ ι α} :
    (t.mapScalar g).AllScalars P ↔ t.AllScalars fun a => P (g a) := by
  induction t using Tree.induct with
  | scalar a =>
      constructor
      · rintro ⟨h⟩
        exact .scalar h
      · rintro ⟨h⟩
        exact .scalar h
  | list r items ih =>
      rw [mapScalar_list]
      constructor
      · rintro (- | ⟨h⟩)
        exact .list fun x hx => (ih x hx).mp (h _ (List.mem_map_of_mem hx))
      · rintro (- | ⟨h⟩)
        exact .list (List.forall_mem_map.mpr fun x hx => (ih x hx).mpr (h x hx))
  | dict r entries ih =>
      rw [mapScalar_dict]
      constructor
      · rintro (- | - | ⟨h⟩)
        exact .dict fun e he => (ih e he).mp (h _ (List.mem_map_of_mem he))
      · rintro (- | - | ⟨h⟩)
        exact .dict (List.forall_mem_map.mpr fun e he => (ih e he).mpr (h e he))

/-- What is the same for the scalars that a tree may have is the same for the tree. -/
theorem AllScalars.congr {P Q R : α → Prop} {t : Tree κ ι α} (h : t.AllScalars R)
    (hPQ : ∀ a, R a → (P a ↔ Q a)) : t.AllScalars P ↔ t.AllScalars Q :=
  ⟨fun hP => (h.and hP).imp fun ha => (hPQ _ ha.1).mp ha.2,
    fun hQ => (h.and hQ).imp fun ha => (hPQ _ ha.1).mpr ha.2⟩

/-! ## Every key -/

/-- Every key of the tree is one of these. -/
inductive AllKeys (P : κ → Prop) : Tree κ ι α → Prop
  | scalar (a : α) : AllKeys P (.scalar a)
  | list {r : ι} {items : List (Tree κ ι α)} (h : ∀ x ∈ items, AllKeys P x) :
      AllKeys P (.list r items)
  | dict {r : ι} {entries : List (κ × Tree κ ι α)} (hkeys : ∀ e ∈ entries, P e.1)
      (h : ∀ e ∈ entries, AllKeys P e.2) : AllKeys P (.dict r entries)

theorem AllKeys.mapScalar {P : κ → Prop} {t : Tree κ ι α} (h : t.AllKeys P) (g : α → β) :
    (t.mapScalar g).AllKeys P := by
  induction h with
  | scalar a => exact .scalar (g a)
  | list _ ih =>
      rw [mapScalar_list]
      exact .list (List.forall_mem_map.mpr ih)
  | dict hkeys _ ih =>
      rw [mapScalar_dict]
      exact .dict (List.forall_mem_map.mpr hkeys) (List.forall_mem_map.mpr ih)

end Telemetry.Lib.Tree
