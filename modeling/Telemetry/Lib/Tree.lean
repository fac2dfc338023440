import Mathlib.Data.List.Nodup
import Mathlib.Data.List.Lookmap

/-!
# Trees of dicts, lists and scalars

The data that JSON-like values share: scalars `α`, lists, and dicts as association lists
over keys `κ`. Every list and dict carries an annotation `ι`; a model in which identity
does not matter takes `Unit`, one in which it does puts the reference there.

A position is a list of steps from the root. Its segments are what a path pattern sees of
it: the keys, and one wildcard for every list index.

## Main definitions

* `Tree`, `Tree.induct` — the trees and their induction rule.
* `Tree.get?` — the subtree at a position.
* `Tree.NodupKeys` — no dict has a key twice.
* `segments`, `wildcardMatch` — paths and patterns.
-/

namespace Telemetry.Lib

/-- Scalars, lists and dicts. -/
inductive Tree (κ ι α : Type)
  | scalar (a : α)
  | list (r : ι) (items : List (Tree κ ι α))
  | dict (r : ι) (entries : List (κ × Tree κ ι α))

/-- One step into a tree. -/
inductive Step (κ : Type)
  | key (k : κ)
  | index (i : ℕ)
  deriving DecidableEq, Repr

/-- A lookup in a list whose first entry is known. -/
theorem lookup_cons_eq {κ β : Type} [DecidableEq κ] (k : κ) (e : κ × β) (entries : List (κ × β)) :
    (e :: entries).lookup k = if k = e.1 then some e.2 else entries.lookup k := by
  rw [List.lookup_cons]
  by_cases hk : k = e.1
  · simp [hk]
  · simp [hk, beq_false_of_ne hk]

namespace Tree

variable {κ ι ι' α : Type}

/-- Induction over a tree, with the hypothesis for every item and every entry. -/
@[elab_as_elim]
theorem induct {P : Tree κ ι α → Prop} (scalar : ∀ a, P (.scalar a))
    (list : ∀ r items, (∀ x ∈ items, P x) → P (.list r items))
    (dict : ∀ r entries, (∀ e ∈ entries, P e.2) → P (.dict r entries)) : ∀ t, P t
  | .scalar a => scalar a
  | .list r items => list r items fun x _ => induct scalar list dict x
  | .dict r entries => dict r entries fun e _ => induct scalar list dict e.2
termination_by t => sizeOf t
decreasing_by
  · have := List.sizeOf_lt_of_mem ‹x ∈ items›
    simp only [Tree.list.sizeOf_spec]
    omega
  · have hmem := List.sizeOf_lt_of_mem ‹e ∈ entries›
    have hpair : sizeOf e.2 < sizeOf e := by
      cases e
      simp only [Prod.mk.sizeOf_spec]
      omega
    simp only [Tree.dict.sizeOf_spec]
    omega

/-- Whether the tree is a list or a dict. -/
def isContainer : Tree κ ι α → Bool
  | .scalar _ => false
  | _ => true

/-! ## Positions -/

variable [DecidableEq κ]

/-- The child a step leads to. -/
def child? : Tree κ ι α → Step κ → Option (Tree κ ι α)
  | .dict _ entries, .key k => entries.lookup k
  | .list _ items, .index i => items[i]?
  | _, _ => none

/-- The subtree at a position. -/
def get? : Tree κ ι α → List (Step κ) → Option (Tree κ ι α)
  | t, [] => some t
  | t, s :: p => (t.child? s).bind fun c => get? c p

@[simp] theorem get?_nil (t : Tree κ ι α) : t.get? [] = some t := rfl

theorem get?_cons (t : Tree κ ι α) (s : Step κ) (p : List (Step κ)) :
    t.get? (s :: p) = (t.child? s).bind fun c => c.get? p := rfl

@[simp] theorem child?_scalar (a : α) (s : Step κ) :
    (scalar a : Tree κ ι α).child? s = none := by
  cases s <;> rfl

@[simp] theorem child?_dict (r : ι) (entries : List (κ × Tree κ ι α)) (k : κ) :
    (dict r entries).child? (.key k) = entries.lookup k := rfl

@[simp] theorem child?_list (r : ι) (items : List (Tree κ ι α)) (i : ℕ) :
    (list r items).child? (.index i) = items[i]? := rfl

/-- Nothing lies below a scalar. -/
theorem get?_scalar_cons (a : α) (s : Step κ) (p : List (Step κ)) :
    (scalar a : Tree κ ι α).get? (s :: p) = none := by
  rw [get?_cons, child?_scalar]
  rfl

/-- Nothing is left below a child that is gone or a scalar. -/
theorem bind_get?_eq_none {o : Option (Tree κ ι α)} {p : List (Step κ)}
    (h : o = none ∨ ∃ a, o = some (.scalar a)) (hp : p ≠ []) :
    (o.bind fun c => c.get? p) = none := by
  obtain ⟨s, p, rfl⟩ := List.exists_cons_of_ne_nil hp
  obtain rfl | ⟨a, rfl⟩ := h
  · rfl
  · exact get?_scalar_cons a s p

theorem get?_singleton (t : Tree κ ι α) (s : Step κ) : t.get? [s] = t.child? s := by
  rw [get?_cons]
  cases t.child? s <;> rfl

/-- The way to a position goes through a child. -/
theorem get?_cons_eq_some {t c : Tree κ ι α} {s : Step κ} {p : List (Step κ)} :
    t.get? (s :: p) = some c ↔ ∃ d, t.child? s = some d ∧ d.get? p = some c := by
  rw [get?_cons, Option.bind_eq_some_iff]

/-- Where something lies below, there is a child. -/
theorem exists_child_of_get? {t c : Tree κ ι α} {p : List (Step κ)} (h : t.get? p = some c)
    (hp : p ≠ []) : ∃ s d, t.child? s = some d := by
  obtain ⟨s, p, rfl⟩ := List.exists_cons_of_ne_nil hp
  obtain ⟨d, hd, -⟩ := get?_cons_eq_some.mp h
  exact ⟨s, d, hd⟩

/-- A key step leads somewhere only from a dict. -/
theorem child?_key_eq_some {t c : Tree κ ι α} {k : κ} (h : t.child? (.key k) = some c) :
    ∃ r entries, t = .dict r entries ∧ entries.lookup k = some c := by
  cases t with
  | scalar a => simp at h
  | list r items => cases h
  | dict r entries => exact ⟨r, entries, rfl, h⟩

/-- An index step leads somewhere only from a list. -/
theorem child?_index_eq_some {t c : Tree κ ι α} {i : ℕ} (h : t.child? (.index i) = some c) :
    ∃ r items, t = .list r items ∧ items[i]? = some c := by
  cases t with
  | scalar a => simp at h
  | list r items => exact ⟨r, items, rfl, h⟩
  | dict r entries => cases h

/-! ## Comparing two trees -/

omit [DecidableEq κ] in
@[simp] theorem isContainer_scalar (a : α) : (scalar a : Tree κ ι α).isContainer = false := rfl
omit [DecidableEq κ] in
@[simp] theorem isContainer_list (r : ι) (items : List (Tree κ ι α)) :
    (list r items).isContainer = true := rfl
omit [DecidableEq κ] in
@[simp] theorem isContainer_dict (r : ι) (entries : List (κ × Tree κ ι α)) :
    (dict r entries).isContainer = true := rfl

omit [DecidableEq κ] in
theorem exists_scalar_of_not_isContainer {t : Tree κ ι α} (h : t.isContainer = false) :
    ∃ a, t = scalar a := by
  cases t with
  | scalar a => exact ⟨a, rfl⟩
  | list r items => cases h
  | dict r entries => cases h

/-- What something lies in is a container. -/
theorem isContainer_of_ne_nil {t c : Tree κ ι α} {p : List (Step κ)} (h : t.get? p = some c)
    (hp : p ≠ []) : t.isContainer = true := by
  cases t with
  | scalar a =>
      obtain ⟨s, d, hd⟩ := exists_child_of_get? h hp
      simp at hd
  | list r items => rfl
  | dict r entries => rfl

/-- What a container lies in is a container. -/
theorem isContainer_of_get? {t c : Tree κ ι α} {p : List (Step κ)} (h : t.get? p = some c)
    (hc : c.isContainer = true) : t.isContainer = true := by
  cases t with
  | scalar a =>
      cases p with
      | nil =>
          cases h
          exact hc
      | cons s p => cases (get?_scalar_cons a s p).symm.trans h
  | list r items => rfl
  | dict r entries => rfl

/-- Where `c` was, there is nothing now, or another value. A container that is still a
container counts as kept, whatever became of its content. -/
def Replaced (c : Tree κ ι α) (o : Option (Tree κ ι α)) : Prop :=
  ∀ d, o = some d → d ≠ c ∧ (c.isContainer = true → d.isContainer = false)

/-- **Every changed leaf lies at or below a replaced position** whose parent is still there. -/
theorem exists_replaced {t u : Tree κ ι α} {p : List (Step κ)} {a : α}
    (ht : t.get? p = some (scalar a)) (hu : u.get? p ≠ some (scalar a)) (hp : p ≠ [])
    (hroot : u.isContainer = true) :
    ∃ q s r c d, p = q ++ s :: r ∧ t.get? (q ++ [s]) = some c ∧ u.get? q = some d ∧
      d.isContainer = true ∧ Replaced c (u.get? (q ++ [s])) := by
  induction p generalizing t u with
  | nil => exact absurd rfl hp
  | cons s p ih =>
      obtain ⟨c, hc, hrest⟩ := get?_cons_eq_some.mp ht
      by_cases hrep : Replaced c (u.get? [s])
      · exact ⟨[], s, p, c, u, rfl, get?_cons_eq_some.mpr ⟨c, hc, rfl⟩, rfl, hroot, hrep⟩
      · simp only [Replaced, not_forall] at hrep
        obtain ⟨d, hd, hkept⟩ := hrep
        obtain ⟨d', hchild, hd'⟩ := get?_cons_eq_some.mp hd
        obtain rfl : d' = d := Option.some.inj hd'
        have hne : d' ≠ c := by
          rintro rfl
          exact hu (get?_cons_eq_some.mpr ⟨d', hchild, hrest⟩)
        have hcont : c.isContainer = true ∧ d'.isContainer = true := by
          simpa [hne] using hkept
        have hp' : p ≠ [] := by
          rintro rfl
          obtain rfl : c = scalar a := Option.some.inj hrest
          simp at hcont
        have hrest' : d'.get? p ≠ some (scalar a) := by
          intro h
          exact hu (get?_cons_eq_some.mpr ⟨d', hchild, h⟩)
        obtain ⟨q, s', r, x, y, rfl, hx, hy, hycont, hrep⟩ := ih hrest hrest' hp' hcont.2
        refine ⟨s :: q, s', r, x, y, rfl, get?_cons_eq_some.mpr ⟨c, hc, hx⟩,
          get?_cons_eq_some.mpr ⟨d', hchild, hy⟩, hycont, ?_⟩
        rw [List.cons_append, get?_cons, hchild]
        exact hrep

/-! ## Keys that occur once -/

/-- No dict of the tree has a key twice. -/
inductive NodupKeys : Tree κ ι α → Prop
  | scalar (a : α) : NodupKeys (.scalar a)
  | list {r : ι} {items : List (Tree κ ι α)} (h : ∀ x ∈ items, NodupKeys x) :
      NodupKeys (.list r items)
  | dict {r : ι} {entries : List (κ × Tree κ ι α)} (hkeys : (entries.map Prod.fst).Nodup)
      (h : ∀ e ∈ entries, NodupKeys e.2) : NodupKeys (.dict r entries)

omit [DecidableEq κ] in
theorem NodupKeys.items {r : ι} {items : List (Tree κ ι α)} (h : NodupKeys (.list r items)) :
    ∀ x ∈ items, NodupKeys x := by
  cases h
  assumption

omit [DecidableEq κ] in
theorem NodupKeys.keys {r : ι} {entries : List (κ × Tree κ ι α)}
    (h : NodupKeys (.dict r entries)) : (entries.map Prod.fst).Nodup := by
  cases h
  assumption

omit [DecidableEq κ] in
theorem NodupKeys.entries {r : ι} {entries : List (κ × Tree κ ι α)}
    (h : NodupKeys (.dict r entries)) : ∀ e ∈ entries, NodupKeys e.2 := by
  cases h
  assumption

theorem mem_of_lookup {β : Type} {entries : List (κ × β)} {k : κ} {v : β}
    (h : entries.lookup k = some v) : (k, v) ∈ entries := by
  induction entries with
  | nil => cases h
  | cons e entries ih =>
      rw [List.lookup_cons] at h
      split at h
      · rename_i heq
        obtain rfl : k = e.1 := by simpa using heq
        cases h
        exact List.mem_cons_self
      · exact List.mem_cons_of_mem _ (ih h)

theorem lookup_of_mem {β : Type} {entries : List (κ × β)} {k : κ} {v : β}
    (hkeys : (entries.map Prod.fst).Nodup) (h : (k, v) ∈ entries) :
    entries.lookup k = some v := by
  induction entries with
  | nil => cases h
  | cons e entries ih =>
      rw [List.map_cons, List.nodup_cons] at hkeys
      rw [List.lookup_cons]
      obtain rfl | h := List.mem_cons.mp h
      · simp
      · have hne : k ≠ e.1 := by
          rintro rfl
          exact hkeys.1 (List.mem_map.mpr ⟨(e.1, v), h, rfl⟩)
        have hk : (k == e.1) = false := by simpa using hne
        simp only [hk]
        exact ih hkeys.2 h

/-- Rewriting the values of an association list: a lookup finds the rewritten value. -/
theorem lookup_map {β γ : Type} (f : κ → β → γ) (entries : List (κ × β)) (k : κ) :
    (entries.map fun e => (e.1, f e.1 e.2)).lookup k = (entries.lookup k).map (f k) := by
  induction entries with
  | nil => rfl
  | cons e entries ih =>
      rw [List.map_cons, List.lookup_cons, List.lookup_cons, ih]
      split
      · rename_i heq
        obtain rfl : k = e.1 := by simpa using heq
        rfl
      · rfl

/-- Rewriting the values of an association list, and dropping some: a lookup finds the
rewritten value. -/
theorem lookup_filterMap {β γ : Type} (f : κ → β → Option γ) {entries : List (κ × β)}
    (hkeys : (entries.map Prod.fst).Nodup) (k : κ) :
    (entries.filterMap fun e => (f e.1 e.2).map fun v => (e.1, v)).lookup k =
      (entries.lookup k).bind (f k) := by
  induction entries with
  | nil => rfl
  | cons e entries ih =>
      rw [List.map_cons, List.nodup_cons] at hkeys
      have hrest := ih hkeys.2
      obtain ⟨k', v⟩ := e
      have hgone : (entries.lookup k') = none := by
        cases h : entries.lookup k' with
        | none => rfl
        | some v' => exact absurd (List.mem_map.mpr ⟨_, mem_of_lookup h, rfl⟩) hkeys.1
      rw [List.lookup_cons]
      by_cases hk : k = k'
      · subst hk
        cases hf : f k v with
        | none => simp [hf, hrest, hgone]
        | some w => simp [hf]
      · have hk' : (k == k') = false := by simpa using hk
        cases hf : f k' v with
        | none => simp [hf, hrest, hk']
        | some w => simp [hf, List.lookup_cons, hrest, hk']

omit [DecidableEq κ] in
/-- Dropping entries and changing values keeps the keys apart. -/
theorem nodup_filterMap {β γ : Type} (f : κ → β → Option γ) {entries : List (κ × β)}
    (hkeys : (entries.map Prod.fst).Nodup) :
    ((entries.filterMap fun e => (f e.1 e.2).map fun v => (e.1, v)).map Prod.fst).Nodup := by
  refine hkeys.sublist ?_
  clear hkeys
  induction entries with
  | nil => exact List.Sublist.refl _
  | cons e entries ih =>
      rw [List.filterMap_cons, List.map_cons]
      cases f e.1 e.2 with
      | none => exact ih.cons _
      | some v => exact ih.cons_cons _

/-- The keys of a child occur once. -/
theorem NodupKeys.child {t c : Tree κ ι α} {s : Step κ} (h : t.NodupKeys)
    (hc : t.child? s = some c) : c.NodupKeys := by
  cases s with
  | key k =>
      obtain ⟨r, entries, rfl, hlookup⟩ := child?_key_eq_some hc
      exact h.entries (k, c) (mem_of_lookup hlookup)
  | index i =>
      obtain ⟨r, items, rfl, hitem⟩ := child?_index_eq_some hc
      exact h.items c (List.mem_of_getElem? hitem)

/-! ## Annotations -/

mutual
/-- Change the annotations. -/
def mapRef (f : ι → ι') : Tree κ ι α → Tree κ ι' α
  | .scalar a => .scalar a
  | .list r items => .list (f r) (mapRefItems f items)
  | .dict r entries => .dict (f r) (mapRefEntries f entries)
/-- On the items of a list. -/
def mapRefItems (f : ι → ι') : List (Tree κ ι α) → List (Tree κ ι' α)
  | [] => []
  | x :: items => mapRef f x :: mapRefItems f items
/-- On the entries of a dict. -/
def mapRefEntries (f : ι → ι') : List (κ × Tree κ ι α) → List (κ × Tree κ ι' α)
  | [] => []
  | (k, x) :: entries => (k, mapRef f x) :: mapRefEntries f entries
end

omit [DecidableEq κ] in
theorem mapRefItems_eq_map (f : ι → ι') (items : List (Tree κ ι α)) :
    mapRefItems f items = items.map (mapRef f) := by
  induction items with
  | nil => rfl
  | cons x items ih => rw [mapRefItems, ih, List.map_cons]

omit [DecidableEq κ] in
theorem mapRefEntries_eq_map (f : ι → ι') (entries : List (κ × Tree κ ι α)) :
    mapRefEntries f entries = entries.map fun e => (e.1, mapRef f e.2) := by
  induction entries with
  | nil => rfl
  | cons e entries ih => rw [mapRefEntries, ih, List.map_cons]

theorem child?_mapRef (f : ι → ι') (t : Tree κ ι α) (s : Step κ) :
    (t.mapRef f).child? s = (t.child? s).map (mapRef f) := by
  cases t with
  | scalar a => cases s <;> rfl
  | list r items =>
      rw [mapRef, mapRefItems_eq_map]
      cases s with
      | key k => rfl
      | index i => exact List.getElem?_map
  | dict r entries =>
      rw [mapRef, mapRefEntries_eq_map]
      cases s with
      | key k => exact lookup_map (fun _ => mapRef f) entries k
      | index i => rfl

omit [DecidableEq κ] in
/-- Changing the annotations keeps the keys apart. -/
theorem NodupKeys.mapRef {t : Tree κ ι α} (h : t.NodupKeys) (f : ι → ι') :
    (t.mapRef f).NodupKeys := by
  induction t using induct with
  | scalar a => exact .scalar a
  | list r items ih =>
      rw [Tree.mapRef, mapRefItems_eq_map]
      apply NodupKeys.list
      intro x hx
      obtain ⟨item, hitem, rfl⟩ := List.mem_map.mp hx
      exact ih item hitem (h.items item hitem)
  | dict r entries ih =>
      rw [Tree.mapRef, mapRefEntries_eq_map]
      refine .dict ?_ ?_
      · rw [List.map_map]
        exact h.keys
      · intro x hx
        obtain ⟨e, he, rfl⟩ := List.mem_map.mp hx
        exact ih e he (h.entries e he)

end Tree

/-! ## Paths -/

/-- What a path pattern sees of a position: keys, and the wildcard for list indices. -/
def segments {κ : Type} (wild : κ) : List (Step κ) → List κ
  | [] => []
  | .key k :: p => k :: segments wild p
  | .index _ :: p => wild :: segments wild p

@[simp] theorem segments_nil {κ : Type} (wild : κ) : segments wild [] = [] := rfl
@[simp] theorem segments_key {κ : Type} (wild k : κ) (p : List (Step κ)) :
    segments wild (.key k :: p) = k :: segments wild p := rfl
@[simp] theorem segments_index {κ : Type} (wild : κ) (i : ℕ) (p : List (Step κ)) :
    segments wild (.index i :: p) = wild :: segments wild p := rfl

/-- Segment by segment, the pattern has the wildcard or the path's own segment. -/
def wildcardMatch {κ : Type} [DecidableEq κ] (wild : κ) (pattern path : List κ) : Bool :=
  pattern.length == path.length &&
    (pattern.zip path).all fun (part, elem) => part == wild || part == elem

end Telemetry.Lib
