import Telemetry.Lib.Renamed
import Telemetry.Pii.Json
import Telemetry.Pii.Rust

/-!
# The hardening stage of the Rust SDK

`harden.rs`: strings lose control characters and are cut to a length, containers that lie too
deep collapse, and maps are rebuilt under cleaned keys.

## Main definitions

* `hardenString`, `hardenKeys`, `hardenValue` — the stage.
* `hardenJson` — the stage on a `serde_json::Value`, in which no map has a key twice.
-/

namespace Telemetry.Logging.Rust

open Telemetry.Lib Telemetry.Pii

variable {α : Type} [Scalars α]

/-- `TRUNCATION_MARKER`. -/
def truncationMarker : String := "..."

/-- `HardenLimits`. -/
structure HardenLimits where
  maxValueLength : ℕ
  maxAttrCount : ℕ
  maxDepth : ℕ
  deriving DecidableEq, Repr

/-- The longest prefix that ends within a number of bytes. -/
def fitting (limit : ℕ) : List Char → List Char
  | [] => []
  | ch :: chars => if ch.utf8Size ≤ limit then ch :: fitting (limit - ch.utf8Size) chars else []

/-- `truncate_string_value`. -/
def truncateStringValue (value : String) (maxValueLength : ℕ) : String :=
  if maxValueLength = 0 ∨ value.utf8ByteSize ≤ maxValueLength then value
  else String.ofList (fitting maxValueLength value.toList) ++ truncationMarker

/-- `should_strip_value_char`. -/
def shouldStripValueChar (ch : Char) : Bool :=
  ch ≤ '\x08' || ch == '\x0b' || ch == '\x0c' || ('\x0e' ≤ ch && ch ≤ '\x1f') || ch == '\x7f'

/-- `should_strip_key_char`. -/
def shouldStripKeyChar (ch : Char) : Bool := ch ≤ '\x1f' || ch == '\x7f'

/-- `clean_key`. -/
def cleanKey (key : String) : String :=
  String.ofList (key.toList.filter fun ch => !shouldStripKeyChar ch)

/-- `cleaned_key_claims_slot`. -/
def cleanedKeyClaimsSlot (occupied untouched holderIsVerbatim : Bool) : Bool :=
  !occupied || (untouched && !holderIsVerbatim)

/-- `harden_string`. -/
def hardenString (text : String) (maxValueLength : ℕ) : String :=
  truncateStringValue (String.ofList (text.toList.filter fun ch => !shouldStripValueChar ch))
    maxValueLength

/-- One round of the loop of `harden_keys`. -/
def hardenKey {β : Type} (state : Rebuilt String β) (e : String × β) : Rebuilt String β :=
  let name := cleanKey e.1
  let untouched := name = e.1
  if cleanedKeyClaimsSlot (state.out.contains name) untouched (state.verbatim.contains name) then
    { out := state.out.insert name e.2
      verbatim := if untouched then name :: state.verbatim else state.verbatim }
  else state

/-- `harden_keys`, which is also the loop of `harden_value` over a map. -/
def hardenKeys {β : Type} (entries : List (String × β)) : SortedMap String β :=
  (entries.foldl hardenKey {}).out

/-- `retained_entries`. -/
def retainedEntries {β : Type} (entries : List (String × β)) (maxAttrCount : ℕ) :
    List (String × β) :=
  entries.take (if maxAttrCount = 0 then entries.length else maxAttrCount)

mutual
/-- `harden_value`. -/
def hardenValue (limits : HardenLimits) (depth : ℕ) : Value α → Value α
  | .scalar a =>
      match Scalars.str? a with
      | some t => text (hardenString t limits.maxValueLength)
      | none => .scalar a
  | .list _ items =>
      if limits.maxDepth ≤ depth then text Pii.Rust.redacted
      else .list () (hardenItems limits (depth + 1) items)
  | .dict _ entries =>
      if limits.maxDepth ≤ depth then text Pii.Rust.redacted
      else .dict () (hardenKeys
        (retainedEntries (hardenEntries limits (depth + 1) entries) limits.maxAttrCount)).entries
/-- The items of an array. -/
def hardenItems (limits : HardenLimits) (depth : ℕ) : List (Value α) → List (Value α)
  | [] => []
  | item :: items => hardenValue limits depth item :: hardenItems limits depth items
/-- The values of a map. -/
def hardenEntries (limits : HardenLimits) (depth : ℕ) : Entries α → Entries α
  | [] => []
  | (key, nested) :: entries =>
      (key, hardenValue limits depth nested) :: hardenEntries limits depth entries
end

/-! ## Keys -/

/-- Cleaning a cleaned key changes nothing. -/
theorem cleanKey_cleanKey (key : String) : cleanKey (cleanKey key) = cleanKey key := by
  simp [cleanKey, List.filter_filter]

/-- The keys of a map are renamed by `cleanKey`. -/
theorem hardenKeys_eq_renamed {β : Type} (entries : List (String × β)) :
    hardenKeys entries = renamed cleanKey entries := by
  have hround : (hardenKey : Rebuilt String β → String × β → Rebuilt String β) =
      Rebuilt.claim cleanKey := by
    funext state e
    simp only [hardenKey, Rebuilt.claim, cleanedKeyClaimsSlot]
    rfl
  rw [hardenKeys, hround]
  rfl

/-! ## Values -/

theorem hardenItems_eq_map (limits : HardenLimits) (depth : ℕ) (items : List (Value α)) :
    hardenItems limits depth items = items.map (hardenValue limits depth) := by
  induction items with
  | nil => rw [hardenItems]; rfl
  | cons item items ih => rw [hardenItems, ih]; rfl

theorem hardenEntries_eq_map (limits : HardenLimits) (depth : ℕ) (entries : Entries α) :
    hardenEntries limits depth entries =
      entries.map fun e => (e.1, hardenValue limits depth e.2) := by
  induction entries with
  | nil => rw [hardenEntries]; rfl
  | cons e entries ih => rw [hardenEntries, ih]; rfl

/-- No map of a hardened value has a key twice, whatever the value was. -/
theorem nodupKeys_hardenValue (limits : HardenLimits) (depth : ℕ) (v : Value α) :
    (hardenValue limits depth v).NodupKeys := by
  induction v using Tree.induct generalizing depth with
  | scalar a =>
      rw [hardenValue]
      split
      next => exact .scalar _
      next => exact .scalar _
  | list r items ih =>
      rw [hardenValue]
      split
      next => exact .scalar _
      next =>
        rw [hardenItems_eq_map]
        apply Tree.NodupKeys.list
        intro x hx
        rcases List.mem_map.mp hx with ⟨item, hitem, rfl⟩
        exact ih item hitem (depth + 1)
  | dict r entries ih =>
      rw [hardenValue]
      split
      next => exact .scalar _
      next =>
        constructor
        · exact (hardenKeys _).nodup_keys
        · intro e he
          rw [hardenKeys_eq_renamed] at he
          rcases exists_of_mem_renamed he with ⟨e', he', hvalue⟩
          rw [← hvalue]
          have hkept := List.mem_of_mem_take he'
          rw [hardenEntries_eq_map] at hkept
          rcases List.mem_map.mp hkept with ⟨entry, hentry, rfl⟩
          exact ih entry hentry (depth + 1)

/-- `harden_value` on a value without repeated keys. -/
def hardenJson (limits : HardenLimits) (depth : ℕ) (v : Json α) : Json α :=
  ⟨hardenValue limits depth v.val, nodupKeys_hardenValue limits depth v.val⟩

end Telemetry.Logging.Rust
