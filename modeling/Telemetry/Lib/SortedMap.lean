import Mathlib.Order.Basic
import Mathlib.Order.Lattice
import Mathlib.Order.Defs.LinearOrder
import Telemetry.Lib.Tree

/-!
# Maps as association lists in the order of their keys

Inserting keeps the keys in increasing order, so that no key is there twice; a lookup finds
what was inserted last under its key.

## Main definitions

* `insertKey` — insert into an association list, replacing what the key held.
* `SortedKeys` — the keys are in increasing order.
* `SortedMap` — an association list with its keys in increasing order, and its operations.
-/

namespace Telemetry.Lib

variable {κ β : Type} [LinearOrder κ]

/-- Put a value under a key, in the key's place. -/
def insertKey (key : κ) (value : β) : List (κ × β) → List (κ × β)
  | [] => [(key, value)]
  | e :: entries =>
      if key < e.1 then (key, value) :: e :: entries
      else if key = e.1 then (key, value) :: entries
      else e :: insertKey key value entries

attribute [local simp] insertKey

/-- The keys are in increasing order. -/
def SortedKeys (entries : List (κ × β)) : Prop := entries.Pairwise fun e e' => e.1 < e'.1

theorem mem_insertKey {key : κ} {value : β} {entries : List (κ × β)} {e : κ × β}
    (h : e ∈ insertKey key value entries) : e = (key, value) ∨ e ∈ entries := by
  induction entries with
  | nil => simpa using h
  | cons e' entries ih =>
      rw [insertKey] at h
      split at h
      · simpa using h
      · split at h
        · rcases List.mem_cons.mp h with rfl | h
          · exact .inl rfl
          · exact .inr (List.mem_cons_of_mem _ h)
        · rcases List.mem_cons.mp h with rfl | h
          · exact .inr List.mem_cons_self
          · exact (ih h).imp_right (List.mem_cons_of_mem _)

theorem SortedKeys.insertKey {entries : List (κ × β)} (h : SortedKeys entries) (key : κ)
    (value : β) : SortedKeys (insertKey key value entries) := by
  induction entries with
  | nil => exact List.pairwise_singleton _ _
  | cons e entries ih =>
      rcases List.pairwise_cons.mp h with ⟨hhead, htail⟩
      rw [Lib.insertKey]
      split
      next hlt =>
        rw [SortedKeys, List.pairwise_cons]
        constructor
        · intro e' he'
          rcases List.mem_cons.mp he' with rfl | he'
          · exact hlt
          · exact hlt.trans (hhead e' he')
        · exact h
      next hlt =>
        split
        next heq =>
          rw [SortedKeys, List.pairwise_cons]
          constructor
          · intro e' he'
            rw [heq]
            exact hhead e' he'
          · exact htail
        next hne =>
          rw [SortedKeys, List.pairwise_cons]
          constructor
          · intro e' he'
            rcases mem_insertKey he' with rfl | he'
            · exact lt_of_le_of_ne (not_lt.mp hlt) (Ne.symm hne)
            · exact hhead e' he'
          · exact ih htail

theorem sortedKeys_nil : SortedKeys ([] : List (κ × β)) := List.Pairwise.nil

/-- Keys in increasing order occur once. -/
theorem SortedKeys.nodup {entries : List (κ × β)} (h : SortedKeys entries) :
    (entries.map Prod.fst).Nodup := by
  rw [List.Nodup, List.pairwise_map]
  exact List.Pairwise.imp (fun hlt => ne_of_lt hlt) h

theorem SortedKeys.filter {entries : List (κ × β)} (h : SortedKeys entries)
    (p : κ × β → Bool) : SortedKeys (entries.filter p) :=
  List.Pairwise.filter p h

/-- A lookup after an insertion. -/
theorem lookup_insertKey (key k : κ) (value : β) (entries : List (κ × β)) :
    (insertKey key value entries).lookup k =
      if k = key then some value else entries.lookup k := by
  induction entries with
  | nil => simp [lookup_cons_eq]
  | cons e entries ih =>
      rw [insertKey]
      split
      · rw [lookup_cons_eq]
      · split
        next heq =>
          rw [lookup_cons_eq, lookup_cons_eq]
          by_cases hk : k = key
          · simp [hk]
          · simp [hk, ← heq]
        next hne =>
          rw [lookup_cons_eq, lookup_cons_eq, ih]
          by_cases hk : k = e.1
          · subst hk
            simp [Ne.symm hne]
          · simp [hk]

theorem length_insertKey {key : κ} {value : β} {entries : List (κ × β)}
    (h : entries.lookup key = none) :
    (insertKey key value entries).length = entries.length + 1 := by
  induction entries with
  | nil => rfl
  | cons e entries ih =>
      rw [lookup_cons_eq] at h
      rw [insertKey]
      split
      · rfl
      · by_cases heq : key = e.1
        · rw [if_pos heq] at h
          cases h
        · rw [if_neg heq] at h ⊢
          rw [List.length_cons, ih h, List.length_cons]

theorem length_insertKey_of_mem {key : κ} {value : β} {entries : List (κ × β)}
    (hsorted : SortedKeys entries) (h : key ∈ entries.map Prod.fst) :
    (insertKey key value entries).length = entries.length := by
  induction entries with
  | nil => cases h
  | cons e entries ih =>
      rcases List.pairwise_cons.mp hsorted with ⟨hfirst, hrest⟩
      rw [insertKey]
      rcases List.mem_cons.mp h with rfl | hmem
      · rw [if_neg (lt_irrefl _), if_pos rfl]
        rfl
      · rcases List.mem_map.mp hmem with ⟨d, hd, rfl⟩
        rw [if_neg (hfirst d hd).not_gt, if_neg (hfirst d hd).ne', List.length_cons,
          ih hrest hmem, List.length_cons]

/-- A key is held exactly where a lookup finds something. -/
theorem mem_keys_iff_isSome_lookup {entries : List (κ × β)} {k : κ} :
    k ∈ entries.map Prod.fst ↔ (entries.lookup k).isSome = true := by
  rw [List.lookup_isSome_iff]
  simp

theorem SortedKeys.map {γ : Type} {entries : List (κ × β)} (h : SortedKeys entries)
    (f : β → γ) : SortedKeys (entries.map fun e => (e.1, f e.2)) := by
  rw [SortedKeys, List.pairwise_map]
  exact h

/-! ## Maps -/

/-- The entries of a map, in the order of their keys. -/
structure SortedMap (κ β : Type) [LinearOrder κ] where
  entries : List (κ × β)
  sorted : SortedKeys entries

namespace SortedMap

variable {γ : Type}

instance [DecidableEq β] : DecidableEq (SortedMap κ β) := fun m m' =>
  decidable_of_iff (m.entries = m'.entries) <| by
    cases m
    cases m'
    simp

/-- The map with no entries. -/
def empty : SortedMap κ β := ⟨[], sortedKeys_nil⟩

/-- What a key holds. -/
def lookup (m : SortedMap κ β) (k : κ) : Option β := m.entries.lookup k

/-- The keys, in order. -/
def keys (m : SortedMap κ β) : List κ := m.entries.map Prod.fst

/-- Whether a key holds something. -/
def contains (m : SortedMap κ β) (k : κ) : Bool := (m.lookup k).isSome

/-- Put a value under a key, replacing what it held. -/
def insert (m : SortedMap κ β) (key : κ) (value : β) : SortedMap κ β :=
  ⟨insertKey key value m.entries, m.sorted.insertKey key value⟩

/-- The entries whose keys satisfy a predicate. -/
def restrict (m : SortedMap κ β) (p : κ → Bool) : SortedMap κ β :=
  ⟨m.entries.filter fun e => p e.1, m.sorted.filter _⟩

/-- Remove a key. -/
def erase (m : SortedMap κ β) (key : κ) : SortedMap κ β := m.restrict fun k => k ≠ key

/-- Change every value. -/
def mapValues (m : SortedMap κ β) (f : β → γ) : SortedMap κ γ :=
  ⟨m.entries.map fun e => (e.1, f e.2), m.sorted.map f⟩

/-- Insert entries one after another. -/
def extend (m : SortedMap κ β) (entries : List (κ × β)) : SortedMap κ β :=
  entries.foldl (fun m e => m.insert e.1 e.2) m

variable {m : SortedMap κ β} {k : κ}

@[simp] theorem lookup_empty : (empty : SortedMap κ β).lookup k = none := rfl

@[simp] theorem lookup_insert (key : κ) (value : β) :
    (m.insert key value).lookup k = if k = key then some value else m.lookup k :=
  lookup_insertKey key k value m.entries

/-- A new key makes the map longer by one. -/
theorem length_insert {key : κ} (h : m.contains key = false) (value : β) :
    (m.insert key value).entries.length = m.entries.length + 1 := by
  apply length_insertKey
  rw [contains, Option.isSome_eq_false_iff, Option.isNone_iff_eq_none] at h
  exact h

/-- A key that is held keeps the length. -/
theorem length_insert_of_contains {key : κ} (h : m.contains key = true) (value : β) :
    (m.insert key value).entries.length = m.entries.length :=
  length_insertKey_of_mem m.sorted (mem_keys_iff_isSome_lookup.mpr h)

@[simp] theorem lookup_restrict (p : κ → Bool) :
    (m.restrict p).lookup k = if p k then m.lookup k else none := by
  have hentries : ∀ entries : List (κ × β),
      (entries.filter fun e => p e.1).lookup k = if p k then entries.lookup k else none := by
    intro entries
    induction entries with
    | nil => simp
    | cons e entries ih =>
        rw [List.filter_cons, lookup_cons_eq]
        by_cases hk : k = e.1
        · subst hk
          cases hp : p e.1 with
          | true => simp [lookup_cons_eq]
          | false => simp [ih, hp]
        · rw [if_neg hk, ← ih]
          cases hp : p e.1 with
          | true => rw [if_pos rfl, lookup_cons_eq, if_neg hk]
          | false => rw [if_neg Bool.false_ne_true]
  exact hentries m.entries

@[simp] theorem lookup_erase (key : κ) :
    (m.erase key).lookup k = if k = key then none else m.lookup k := by
  rw [erase, lookup_restrict]
  by_cases hk : k = key
  · simp [hk]
  · simp [hk]

@[simp] theorem lookup_mapValues (f : β → γ) : (m.mapValues f).lookup k = (m.lookup k).map f :=
  Tree.lookup_map (fun _ => f) m.entries k

/-- Changing the values before or after a value is put. -/
theorem mapValues_insert (f : β → γ) (name : κ) (value : β) :
    (m.insert name value).mapValues f = (m.mapValues f).insert name (f value) := by
  have hentries : ∀ entries : List (κ × β),
      (insertKey name value entries).map (fun e => (e.1, f e.2)) =
        insertKey name (f value) (entries.map fun e => (e.1, f e.2)) := by
    intro entries
    induction entries with
    | nil => rfl
    | cons e entries ih =>
        rw [insertKey, List.map_cons, insertKey]
        split
        · rfl
        · split
          · rfl
          · rw [List.map_cons, ih]
  rw [insert, insert, mapValues, mapValues, mk.injEq]
  exact hentries m.entries

/-- A key is among the keys exactly where it holds something. -/
theorem mem_keys : k ∈ m.keys ↔ (m.lookup k).isSome = true := mem_keys_iff_isSome_lookup

@[simp] theorem keys_mapValues (f : β → γ) : (m.mapValues f).keys = m.keys := by
  simp [keys, mapValues]

theorem nodup_keys (m : SortedMap κ β) : m.keys.Nodup := m.sorted.nodup

/-- An entry is found under its key. -/
theorem lookup_eq_some {v : β} : m.lookup k = some v ↔ (k, v) ∈ m.entries := by
  constructor
  · exact Tree.mem_of_lookup
  · exact Tree.lookup_of_mem m.nodup_keys

/-- Inserting entries adds no others. -/
theorem mem_of_mem_extend {entries : List (κ × β)} {e : κ × β}
    (h : e ∈ (m.extend entries).entries) : e ∈ m.entries ∨ e ∈ entries := by
  induction entries generalizing m with
  | nil => exact .inl h
  | cons d entries ih =>
      rcases ih (m := m.insert d.1 d.2) h with hround | hmem
      · rcases mem_insertKey hround with rfl | hmem
        · exact .inr List.mem_cons_self
        · exact .inl hmem
      · exact .inr (List.mem_cons_of_mem d hmem)

theorem mapValues_extend (f : β → γ) (entries : List (κ × β)) :
    (m.extend entries).mapValues f =
      (m.mapValues f).extend (entries.map fun e => (e.1, f e.2)) := by
  induction entries generalizing m with
  | nil => rfl
  | cons e entries ih =>
      have hrest := ih (m := m.insert e.1 e.2)
      rw [mapValues_insert] at hrest
      exact hrest

/-- What is found after inserting entries: the last of its key, where there is one. -/
theorem lookup_extend_last (m : SortedMap κ β) (entries : List (κ × β)) (k : κ) :
    (m.extend entries).lookup k =
      ((entries.reverse.find? fun e => e.1 = k).map Prod.snd).or (m.lookup k) := by
  induction entries generalizing m with
  | nil => rfl
  | cons e entries ih =>
      have hrest := ih (m.insert e.1 e.2)
      rw [extend] at hrest ⊢
      rw [List.foldl_cons, hrest, lookup_insert, List.reverse_cons, List.find?_append]
      cases entries.reverse.find? fun e => e.1 = k with
      | some last => rfl
      | none =>
          by_cases hk : e.1 = k
          · simp [hk]
          · simp [hk, Ne.symm hk]

/-- What is found after inserting entries with keys that differ: the entry, where there is
one. -/
theorem lookup_extend {entries : List (κ × β)} (h : (entries.map Prod.fst).Nodup) :
    (m.extend entries).lookup k = (entries.lookup k).or (m.lookup k) := by
  induction entries generalizing m with
  | nil => rfl
  | cons e entries ih =>
      rw [List.map_cons, List.nodup_cons] at h
      have hrest := ih (m := m.insert e.1 e.2) h.2
      rw [extend] at hrest ⊢
      rw [List.foldl_cons, hrest, lookup_insert, lookup_cons_eq]
      by_cases hk : k = e.1
      · have hgone : entries.lookup k = none := by
          rw [← Option.not_isSome_iff_eq_none, ← mem_keys_iff_isSome_lookup, hk]
          exact h.1
        rw [if_pos hk, if_pos hk, hgone, Option.none_or, Option.some_or]
      · rw [if_neg hk, if_neg hk]

end SortedMap

end Telemetry.Lib
