import Telemetry.Lib.Tree
import Mathlib.Data.Nat.Notation

/-!
# Payloads over any scalars

The Go and Rust engines look at a scalar in one way only: whether it is a string. Their
models are over any type of scalars that has the strings among them, so that two engines
can be run on the same payload.

## Main definitions

* `Scalars` — a type of scalars with the strings among them.
* `Value`, `Entries`, `Payload` — payload values, the entries of a map, a whole payload.
* `height` — how many maps and lists lie around the innermost value.
* `setItem`, `delItem` — a map with one entry set or removed.
-/

namespace Telemetry.Pii

open Telemetry.Lib

/-- Scalars with the strings among them. -/
class Scalars (α : Type) where
  str : String → α
  str? : α → Option String
  str?_eq_some : ∀ {a s}, str? a = some s ↔ a = str s

/-- The strings alone. -/
instance : Scalars String where
  str s := s
  str? s := some s
  str?_eq_some := Option.some_inj

/-- A payload value. -/
abbrev Value (α : Type) := Tree String Unit α

/-- The entries of a map. -/
abbrev Entries (α : Type) := List (String × Value α)

/-- A map that holds no key twice, and no map in it does. -/
structure Payload (α : Type) where
  entries : Entries α
  nodupKeys : (Tree.dict () entries : Value α).NodupKeys

section

variable {α : Type} [Scalars α]

/-- A string as a value. -/
def text (s : String) : Value α := .scalar (Scalars.str s)

/-- The string that a value is. -/
def text? : Value α → Option String
  | .scalar a => Scalars.str? a
  | _ => none

@[simp] theorem text?_text (s : String) : text? (text s : Value α) = some s :=
  Scalars.str?_eq_some.mpr rfl

theorem text?_eq_some {v : Value α} {s : String} : text? v = some s ↔ v = text s := by
  cases v with
  | scalar a => rw [text?, Scalars.str?_eq_some, text, Tree.scalar.injEq]
  | list r items => simp [text?, text]
  | dict r entries => simp [text?, text]

@[simp] theorem text_inj {s t : String} : (text s : Value α) = text t ↔ s = t := by
  rw [← text?_eq_some, text?_text, Option.some.injEq]

end

mutual
/-- How many maps and lists lie around the innermost value. -/
def height {α : Type} : Value α → ℕ
  | .scalar _ => 0
  | .list _ items => heightItems items + 1
  | .dict _ entries => heightEntries entries + 1
/-- The height of the highest item. -/
def heightItems {α : Type} : List (Value α) → ℕ
  | [] => 0
  | item :: items => max (height item) (heightItems items)
/-- The height of the highest entry. -/
def heightEntries {α : Type} : Entries α → ℕ
  | [] => 0
  | (_, value) :: entries => max (height value) (heightEntries entries)
end

section Map

variable {β : Type}

/-- `entries[key] = value`. -/
def setItem (key : String) (value : β) : List (String × β) → List (String × β)
  | [] => [(key, value)]
  | (k, v) :: entries =>
      if k = key then (k, value) :: entries else (k, v) :: setItem key value entries

/-- Remove a key. -/
def delItem (key : String) (entries : List (String × β)) : List (String × β) :=
  entries.filter fun e => e.1 ≠ key

theorem lookup_setItem (key k : String) (value : β) (entries : List (String × β)) :
    (setItem key value entries).lookup k =
      if k = key then some value else entries.lookup k := by
  induction entries with
  | nil => rw [setItem, lookup_cons_eq]
  | cons e entries ih =>
      rcases e with ⟨k', v⟩
      rw [setItem]
      by_cases hk' : k' = key
      · subst hk'
        rw [if_pos rfl, lookup_cons_eq, lookup_cons_eq]
        split <;> rfl
      · rw [if_neg hk', lookup_cons_eq, lookup_cons_eq, ih]
        by_cases hk : k = k'
        · subst hk
          rw [if_pos rfl, if_neg hk', if_pos rfl]
        · rw [if_neg hk, if_neg hk]

theorem lookup_delItem (key k : String) (entries : List (String × β)) :
    (delItem key entries).lookup k = if k = key then none else entries.lookup k := by
  induction entries with
  | nil => simp [delItem]
  | cons e entries ih =>
      rcases e with ⟨k', v⟩
      rw [delItem] at ih ⊢
      rw [List.filter_cons, lookup_cons_eq]
      by_cases hk' : k' = key
      · subst hk'
        simp only [ne_eq, not_true, decide_false, Bool.false_eq_true, if_false, ih]
        split <;> rfl
      · simp only [ne_eq, hk', not_false_eq_true, decide_true, if_true, lookup_cons_eq, ih]
        by_cases hk : k = k'
        · subst hk
          rw [if_pos rfl, if_neg hk', if_pos rfl]
        · rw [if_neg hk, if_neg hk]

end Map

/-! ## Keys that stand once -/

section Keys

variable {α : Type} {key : String} {entries : Entries α}

theorem mem_setItem {value : Value α} {e : String × Value α} (h : e ∈ setItem key value entries) :
    e = (key, value) ∨ e ∈ entries := by
  induction entries with
  | nil => simpa [setItem] using h
  | cons e' entries ih =>
      rw [setItem] at h
      split at h
      next heq =>
        rcases List.mem_cons.mp h with rfl | h
        · exact .inl (by rw [heq])
        · exact .inr (List.mem_cons_of_mem _ h)
      next =>
        rcases List.mem_cons.mp h with rfl | h
        · exact .inr List.mem_cons_self
        · exact (ih h).imp_right (List.mem_cons_of_mem _)

theorem nodup_keys_setItem (key : String) (value : Value α)
    (h : (entries.map Prod.fst).Nodup) : ((setItem key value entries).map Prod.fst).Nodup := by
  induction entries with
  | nil => simp [setItem]
  | cons e entries ih =>
      rw [List.map_cons, List.nodup_cons] at h
      rw [setItem]
      split
      next heq => simpa [heq] using h
      next hne =>
        rw [List.map_cons, List.nodup_cons]
        constructor
        · intro hmem
          rcases List.mem_map.mp hmem with ⟨e', he', hkey⟩
          rcases mem_setItem he' with rfl | he'
          · exact hne hkey.symm
          · exact h.1 (List.mem_map.mpr ⟨e', he', hkey⟩)
        · exact ih h.2

/-- Setting an item keeps the keys apart. -/
theorem nodupKeys_setItem {value : Value α}
    (hvalue : value.NodupKeys) (h : (Tree.dict () entries : Value α).NodupKeys) :
    (Tree.dict () (setItem key value entries) : Value α).NodupKeys := by
  constructor
  · exact nodup_keys_setItem key value h.keys
  · intro e he
    rcases mem_setItem he with rfl | he
    · exact hvalue
    · exact h.entries e he

/-- Removing a key keeps the others apart. -/
theorem nodupKeys_delItem (h : (Tree.dict () entries : Value α).NodupKeys) :
    (Tree.dict () (delItem key entries) : Value α).NodupKeys := by
  constructor
  · exact h.keys.sublist (List.filter_sublist.map _)
  · intro e he
    exact h.entries e (List.mem_of_mem_filter he)

end Keys

end Telemetry.Pii
