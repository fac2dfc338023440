import Telemetry.Logging.Go
import Telemetry.Lib.Slots
import Mathlib.Data.Fintype.Card

/-!
# What the Go SDK finds by reflection

The part of `harden.go` below a log record's strings and groups: pointers are followed, maps,
slices, arrays and structs are rebuilt, and every reference is crossed once in a walk. The values
lie on a finite heap of references, which may be shared and may form cycles. An interface is the
value that it holds.

The depth ceiling ends the walk downwards. Along pointers it ends since each of them is new to the
walk.

## Main definitions

* `GoValue`, `Heap` — the values of a caller.
* `followReferences`, `hardenKind`, `hardenAt` — the walk.
* `reflectionOf` — the stage over strings and groups, with this walk below them.
-/

namespace Telemetry.Hardening.Go

open Telemetry.Lib Telemetry.Pii Telemetry.Logging.Go

/-- Scalars with `nil` among them. -/
class GoScalars (α : Type) extends Scalars α where
  null : α
  null_not_str : str? null = none

variable {ι α : Type} [GoScalars α]

/-- A boolean, an integer, a float, or `nil`. -/
abbrev Plain (α : Type) [Scalars α] := { a : α // Scalars.str? a = none }

/-- `reflect.StructField`, as far as it is read. -/
structure StructField where
  name : String
  exported : Bool
  jsonTag : Option String
  deriving Inhabited, DecidableEq, Repr

/-- The result of a value's own `Error` or `MarshalText`. It has none if that errors or panics. -/
abbrev Rendering := Option String

/-- A value that reflection sees, with what it renders itself as, if its type does. A map or a
slice that is `nil` is `null`. -/
inductive GoValue (ι α : Type) [Scalars α]
  | null
  | scalar (a : Plain α)
  | str (s : String)
  /-- A value of another kind than the tracked ones, which renders itself. -/
  | self (r : Rendering)
  /-- A channel, a function, a complex number. -/
  | shapeless
  | array (items : List (GoValue ι α))
  | struct (fields : List (StructField × GoValue ι α))
  | pointer (self? : Option Rendering) (id : ι)
  | map (self? : Option Rendering) (id : ι)
  | slice (self? : Option Rendering) (id : ι) (len : ℕ)

/-- A map: one with string keys, or with others. -/
inductive MapObject (ι α : Type) [Scalars α]
  | strings (m : SortedMap String (GoValue ι α))
  | others (len : ℕ)

/-- What a slice's address holds: elements, or the text of so many bytes. -/
inductive SliceObject (ι α : Type) [Scalars α]
  | elements (element : ℕ → GoValue ι α)
  | bytes (text : ℕ → String)

/-- What the references refer to. A reference is an address with a type. -/
structure Heap (ι α : Type) [Scalars α] where
  pointee : ι → GoValue ι α
  mapAt : ι → MapObject ι α
  sliceAt : ι → SliceObject ι α

/-! ## Values -/

/-- A string of the result. -/
def redacted : Json α := jsonText Pii.Go.redacted

/-- `nil` in the result. -/
def jsonNull : Json α := ⟨.scalar GoScalars.null, .scalar _⟩

/-- A list of the result. -/
def jsonList (items : List (Json α)) : Json α where
  val := .list () (items.map Subtype.val)
  property := .list fun x hx => by
    rcases List.mem_map.mp hx with ⟨item, -, rfl⟩
    exact item.property

variable (limits : Limits)

/-- `_guardedText`. -/
def guardedText (r : Rendering) : Json α :=
  match r with
  | some text => jsonText (hardenString text limits)
  | none => redacted

/-- `strings.Cut(tag, ",")`: the part before the comma. -/
def beforeComma (tag : String) : String := String.ofList (tag.toList.takeWhile (· ≠ ','))

/-- `_jsonFieldName`. -/
def jsonFieldName (field : StructField) : Option String :=
  match field.jsonTag with
  | none => some field.name
  | some tag =>
      if beforeComma tag = "-" then none
      else if beforeComma tag = "" then some field.name
      else some (beforeComma tag)

/-- The name under which a field is hardened, if it is. -/
def fieldKey (field : StructField) : Option String :=
  if field.exported then jsonFieldName field else none

variable (heap : Heap ι α)

/-- `Value.Len` of a map. -/
def MapObject.len : MapObject ι α → ℕ
  | .strings m => m.entries.length
  | .others len => len

/-- The items of a slice. -/
def elements (element : ℕ → GoValue ι α) (len : ℕ) : List (GoValue ι α) :=
  (List.range len).map element

/-- `_containerIdentity`. -/
def containerIdentity : GoValue ι α → Option ι
  | .map _ id => if (heap.mapAt id).len = 0 then none else some id
  | .slice _ id len => if len = 0 then none else some id
  | _ => none

/-- `_hardenAsText` on a value that is not a pointer. -/
def hardenAsText : GoValue ι α → Option (Json α)
  | .self r => some (guardedText limits r)
  | .map self? _ | .slice self? _ _ => self?.map (guardedText limits)
  | _ => none

/-- `hardenScalar`. -/
def hardenScalar : GoValue ι α → Option (Json α)
  | .str s => some (jsonText (hardenString s limits))
  | .scalar a => some ⟨.scalar a.val, .scalar _⟩
  | .null => some jsonNull
  | .slice _ id len =>
      match heap.sliceAt id with
      | .bytes text => some (jsonText (hardenString (text len) limits))
      | .elements _ => none
  | _ => none

/-! ## The walk -/

variable [DecidableEq ι]

/-- `_followReferences`, with the references that the walk has crossed: an answer that settles the
value, or the value at the end of the pointers. -/
def followReferences [Fintype ι] (seen : List ι) : GoValue ι α → (Json α ⊕ GoValue ι α) × List ι
  | .null => (.inl jsonNull, seen)
  | .pointer self? id =>
      if id ∈ seen then (.inl redacted, seen)
      else
        match self? with
        | some r => (.inl (guardedText limits r), id :: seen)
        | none => followReferences (id :: seen) (heap.pointee id)
  | v => (.inr v, seen)
termination_by (seen.toFinsetᶜ).card
decreasing_by
  rename_i hnew
  rw [List.toFinset_cons, Finset.compl_insert]
  exact Finset.card_erase_lt_of_mem (by simpa using hnew)

/-- The loop of `hardenStruct`. -/
def hardenFields {σ : Type} (harden : GoValue ι α → StateM σ (Json α))
    (out : SortedMap String (Json α)) :
    List (StructField × GoValue ι α) → StateM σ (SortedMap String (Json α))
  | [] => pure out
  | (field, v) :: fields =>
      match fieldKey field with
      | none => hardenFields harden out fields
      | some name =>
          if 0 < limits.maxAttrCount ∧ limits.maxAttrCount ≤ out.entries.length then pure out
          else do
            let value ← harden v
            hardenFields harden (out.insert name value) fields

/-- `hardenKind`, with the hardening of the values one level deeper, if the ceiling allows any. -/
def hardenKind (deeper : Option (GoValue ι α → StateM (List ι) (Json α))) (v : GoValue ι α) :
    StateM (List ι) (Json α) :=
  match hardenScalar limits heap v with
  | some scalar => pure scalar
  | none =>
      match deeper with
      | none => pure redacted
      | some harden =>
          match v with
          | .map _ id =>
              match heap.mapAt id with
              | .others _ => pure redacted
              | .strings m => do
                  let m ← hardenMap limits (m.mapValues harden)
                  pure (toJson m)
          | .slice _ id len =>
              match heap.sliceAt id with
              | .bytes _ => pure redacted
              | .elements element => do
                  let items ← (elements element len).mapM harden
                  pure (jsonList items)
          | .array items => do
              let items ← items.mapM harden
              pure (jsonList items)
          | .struct fields => do
              let m ← hardenFields limits harden .empty fields
              pure (toJson m)
          | _ => pure redacted

/-- `hardenValue`, after the references. -/
def hardenContent (deeper : Option (GoValue ι α → StateM (List ι) (Json α))) (v : GoValue ι α) :
    StateM (List ι) (Json α) :=
  match hardenAsText limits v with
  | some text => pure text
  | none => hardenKind limits heap deeper v

/-- `hardenValue`, after the pointers. -/
def hardenReached (deeper : Option (GoValue ι α → StateM (List ι) (Json α))) (v : GoValue ι α) :
    StateM (List ι) (Json α) := do
  let seen ← get
  match containerIdentity heap v with
  | some id =>
      if id ∈ seen then pure redacted
      else
        set (id :: seen)
        hardenContent limits heap deeper v
  | none => hardenContent limits heap deeper v

/-- `hardenValue`, with the hardening of the values one level deeper. -/
def hardenStep [Fintype ι] (deeper : Option (GoValue ι α → StateM (List ι) (Json α)))
    (v : GoValue ι α) : StateM (List ι) (Json α) := do
  let seen ← get
  match followReferences limits heap seen v with
  | (.inl early, seen) =>
      set seen
      pure early
  | (.inr v, seen) =>
      set seen
      hardenReached limits heap deeper v

/-- `hardenValue`. The room is what the ceiling leaves below the depth. -/
def hardenAt [Fintype ι] : ℕ → GoValue ι α → StateM (List ι) (Json α)
  | 0 => hardenStep limits heap none
  | room + 1 => hardenStep limits heap (some (hardenAt room))

/-- The reflection of a record's hardening. -/
def reflectionOf [Fintype ι] : Reflection (List ι) (GoValue ι α) α where
  initial := []
  hardenOther limits depth v := hardenAt limits heap (limits.maxDepth - depth) v

/-! ## Runs -/

variable {limits heap} {deeper : Option (GoValue ι α → StateM (List ι) (Json α))}
  {v : GoValue ι α} {seen : List ι}

theorem followReferences_null [Fintype ι] :
    followReferences limits heap seen .null = (.inl jsonNull, seen) := by
  rw [followReferences.eq_def]

theorem followReferences_pointer [Fintype ι] (self? : Option Rendering) (id : ι) :
    followReferences limits heap seen (.pointer self? id) =
      if id ∈ seen then (.inl redacted, seen)
      else
        match self? with
        | some r => (.inl (guardedText limits r), id :: seen)
        | none => followReferences limits heap (id :: seen) (heap.pointee id) := by
  rw [followReferences.eq_def]

theorem run_hardenReached : (hardenReached limits heap deeper v).run seen =
    match containerIdentity heap v with
    | some id =>
        if id ∈ seen then (redacted, seen)
        else (hardenContent limits heap deeper v).run (id :: seen)
    | none => (hardenContent limits heap deeper v).run seen := by
  rw [hardenReached]
  cases containerIdentity heap v with
  | none => rfl
  | some id =>
      change StateT.run (if id ∈ seen then _ else _) seen = _
      by_cases hseen : id ∈ seen
      · rw [if_pos hseen]
        simp only [if_pos hseen]
        rfl
      · rw [if_neg hseen]
        simp only [if_neg hseen]
        rfl

theorem run_hardenStep [Fintype ι] : (hardenStep limits heap deeper v).run seen =
    match followReferences limits heap seen v with
    | (.inl early, seen') => (early, seen')
    | (.inr w, seen') => (hardenReached limits heap deeper w).run seen' := by
  rw [hardenStep]
  change StateT.run (match followReferences limits heap seen v with
    | (.inl early, seen) => _ | (.inr v, seen) => _) seen = _
  rcases followReferences limits heap seen v with ⟨early | w, seen'⟩
  · rfl
  · rfl

end Telemetry.Hardening.Go
