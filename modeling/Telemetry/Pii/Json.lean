import Telemetry.Lib.SortedMap
import Telemetry.Pii.Scalars
import Mathlib.Data.String.Basic

/-!
# Maps of well-formed values

A value in which no map has a key twice, and maps of such values in the order of their keys.
The log pipelines keep a record's fields in such a map; the sanitizers take a payload.

## Main definitions

* `Json` — a value in which no map has a key twice.
* `toPayload`, `ofMap` — from a map to a payload, and from a value back to a map.
-/

namespace Telemetry.Pii

open Telemetry.Lib

variable {α : Type}

/-- A value in which no map has a key twice. -/
abbrev Json (α : Type) := { v : Value α // v.NodupKeys }

/-- A string. -/
def jsonText [Scalars α] (s : String) : Json α := ⟨text s, .scalar _⟩

@[simp] theorem val_jsonText [Scalars α] (s : String) : (jsonText s : Json α).val = text s := rfl

/-- A map as a payload. -/
def toPayload (m : SortedMap String (Json α)) : Payload α where
  entries := m.entries.map fun e => (e.1, e.2.val)
  nodupKeys := by
    constructor
    · rw [List.map_map]
      exact m.nodup_keys
    · intro e he
      rcases List.mem_map.mp he with ⟨e', -, rfl⟩
      exact e'.2.property

/-- A map with one entry has no key twice. -/
theorem nodupKeys_single (key : String) (value : Json α) :
    (.dict () [(key, value.val)] : Value α).NodupKeys :=
  .dict (List.nodup_singleton key) (List.forall_mem_singleton.mpr value.property)

/-- A map as a value. -/
def toJson (m : SortedMap String (Json α)) : Json α := ⟨.dict () (toPayload m).entries,
  (toPayload m).nodupKeys⟩

theorem lookup_toPayload (m : SortedMap String (Json α)) (key : String) :
    (toPayload m).entries.lookup key = (m.lookup key).map Subtype.val :=
  Tree.lookup_map (fun _ => Subtype.val) m.entries key

/-- The entries of a map value; any other value has none. -/
def ofMap : (v : Value α) → v.NodupKeys → SortedMap String (Json α)
  | .dict _ entries, h =>
      SortedMap.empty.extend (entries.pmap (fun e he => (e.1, ⟨e.2, he⟩)) h.entries)
  | _, _ => .empty

theorem lookup_ofMap {v : Value α} (h : v.NodupKeys) (key : String) :
    ((ofMap v h).lookup key).map Subtype.val = v.child? (.key key) := by
  cases v with
  | scalar a => rw [Tree.child?_scalar]; rfl
  | list r items => rfl
  | dict r entries =>
      rw [ofMap, SortedMap.lookup_extend, SortedMap.lookup_empty, Option.or_none, Tree.child?_dict]
      · have hpmap : ∀ (entries : Entries α) (hall : ∀ e ∈ entries, e.2.NodupKeys),
            ((entries.pmap (fun e he => (e.1, (⟨e.2, he⟩ : Json α))) hall).lookup key).map
              Subtype.val = entries.lookup key := by
          intro entries
          induction entries with
          | nil => intro _; rfl
          | cons e entries ih =>
              intro hall
              rw [List.pmap_cons, lookup_cons_eq, lookup_cons_eq]
              split
              next => rfl
              next => exact ih _
        exact hpmap entries h.entries
      · rw [List.map_pmap]
        simpa using h.keys

end Telemetry.Pii
