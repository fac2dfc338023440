import Telemetry.Lib.CodePoints
import Telemetry.Lib.Slots

/-!
# The hardening stage of the Python SDK

`harden_input` of `logger/processors.py`: strings lose control characters and are cut, keys are
cleaned, and dicts and lists are rebuilt down to a depth, each of them once. A tuple or a set is
handed back as it is.

The values that a caller passes live on a heap, and may share and contain each other. What comes
out is a tree of new dicts and lists, whose leaves are strings, scalars, and the tuples and sets of
the heap.

## Main definitions

* `Heap`, `Value` — the values of a caller.
* `hardenKeys`, `cleanValue`, `hardenInput` — the stage.
-/

namespace Telemetry.Hardening.Python

open Telemetry.Lib

-- strings are compared by the instance that the lemmas on lookups have
local instance (priority := 2000) : BEq CodePoints := instBEqOfDecidableEq

/-- A value: a string, `None`, any other scalar, or a container by its `id`. -/
inductive Value
  | none
  | str (text : CodePoints)
  | other (tag : ℕ)
  | ref (id : ℕ)
  deriving DecidableEq

/-- The key of a dict: a string, or any other key, by what `str` makes of it if it does not
raise. -/
inductive Key
  | str (text : CodePoints)
  | other (text : Option CodePoints)

/-- A container. -/
inductive Container
  | dict (entries : List (Key × Value))
  | list (items : List Value)
  | tuple (items : List Value)
  | set (items : List Value)

/-- The containers by their `id`. -/
abbrev Heap := ℕ → Container

/-- A hardened value: new dicts and lists, and what was not rebuilt. -/
abbrev Cleaned := Tree CodePoints Unit Value

/-- `_HARDENED_PLACEHOLDER`. -/
def placeholder : CodePoints := CodePoints.ofString "***"

/-- `_TRUNCATION_SUFFIX`. -/
def truncationSuffix : CodePoints := CodePoints.ofString "..."

/-- `_BACKPRESSURE_TICKET_KEY`. -/
def backpressureTicketKey : CodePoints :=
  CodePoints.ofString "__provide_telemetry_backpressure_ticket__"

/-- `_HARDEN_PRIORITY_KEYS`. -/
def hardenPriorityKeys : List CodePoints :=
  ["event", "level", "timestamp", "trace_id", "span_id", "logger", "logger_name"].map
    CodePoints.ofString

/-! ## Keys -/

/-- `_CONTROL_CHAR_RE`. -/
def isControl : CodePoint → Bool
  | .surrogate _ => false
  | .scalar c =>
      c ≤ '\x08' || c == '\x0b' || c == '\x0c' || ('\x0e' ≤ c && c ≤ '\x1f') || c == '\x7f'

/-- `_CONTROL_CHAR_KEY_RE`. -/
def isKeyControl : CodePoint → Bool
  | .surrogate _ => false
  | .scalar c => c ≤ '\x1f' || c == '\x7f'

/-- `_key_text`. -/
def Key.text : Key → Option CodePoints
  | .str text => some text
  | .other text => text

/-- `_clean_key`. -/
def cleanKey : Option CodePoints → CodePoints
  | none => placeholder
  | some text => text.filter fun c => !isKeyControl c

/-- What an entry of a dict claims in the loop of `_harden_keys`. -/
def claimOf (e : Key × Value) : Claim CodePoints Value where
  name := cleanKey e.1.text
  untouched := some (cleanKey e.1.text) = e.1.text
  value := if e.1.text = none then .str placeholder else e.2

/-- `_harden_keys`. -/
def hardenKeys (entries : List (Key × Value)) : List (CodePoints × Value) :=
  claimed (entries.map claimOf)

/-! ## Values -/

/-- `_clean_value` on a string. -/
def cleanText (maxValueLength : ℕ) (text : CodePoints) : CodePoints :=
  let cleaned := text.filter fun c => !isControl c
  if maxValueLength < cleaned.length then cleaned.take maxValueLength ++ truncationSuffix
  else cleaned

/-- A composite that is not expanded. -/
def collapsed : Cleaned := .scalar (.str placeholder)

/-- `_clean_value`. The room is what the ceiling leaves below the depth, and the state holds the
composites that were traversed. -/
def cleanValue (heap : Heap) (maxValueLength : ℕ) (room : ℕ) (value : Value) :
    StateM (List ℕ) Cleaned :=
  match value with
  | .str text => pure (.scalar (.str (cleanText maxValueLength text)))
  | .ref id =>
      match heap id, room with
      | .dict _, 0 | .list _, 0 => pure collapsed
      | .dict entries, room + 1 => do
          let seen ← get
          if id ∈ seen then pure collapsed
          else
            set (id :: seen)
            let hardened ← (hardenKeys entries).mapM (onValue (cleanValue heap maxValueLength room))
            pure (.dict () hardened)
      | .list items, room + 1 => do
          let seen ← get
          if id ∈ seen then pure collapsed
          else
            set (id :: seen)
            let hardened ← items.mapM (cleanValue heap maxValueLength room)
            pure (.list () hardened)
      | .tuple _, _ | .set _, _ => pure (.scalar value)
  | .none | .other _ => pure (.scalar value)

/-! ## The stage -/

/-- What the stage takes from elsewhere: the values of the caller, and the order in which the
priority keys are visited. -/
structure Env where
  heap : Heap
  priorityOrder : List CodePoints
  perm_priorityOrder : priorityOrder.Perm hardenPriorityKeys

/-- The limits. -/
structure Limits where
  maxValueLength : ℕ
  maxAttrCount : ℕ
  maxDepth : ℕ

/-- An event dict, in which no key occurs twice. -/
structure EventDict where
  entries : List (CodePoints × Value)
  nodup : (entries.map Prod.fst).Nodup

variable (E : Env) (limits : Limits) (event : EventDict)

/-- `event_dict.pop(_BACKPRESSURE_TICKET_KEY, None)`: the ticket. -/
def EventDict.ticket : Value := (event.entries.lookup backpressureTicketKey).getD .none

/-- The event dict without the ticket. -/
def EventDict.fields : List (CodePoints × Value) :=
  event.entries.filter fun e => e.1 ≠ backpressureTicketKey

/-- The entries that are there under priority keys. -/
def priorityFields : List (CodePoints × Value) :=
  E.priorityOrder.filterMap fun k => (event.fields.lookup k).map (k, ·)

/-- The entries that the attribute cap keeps. -/
def keptFields : List (CodePoints × Value) :=
  if 0 < limits.maxAttrCount ∧ limits.maxAttrCount < event.fields.length then
    let priority := priorityFields E event
    let remaining := limits.maxAttrCount - priority.length
    let userFields := event.fields.filter fun e => e.1 ∉ hardenPriorityKeys
    priority ++ userFields.take remaining
  else event.fields

/-- The entries under their cleaned keys. -/
def namedFields : List (CodePoints × Value) :=
  hardenKeys ((keptFields E limits event).map fun e => (Key.str e.1, e.2))

/-- The record without its ticket. -/
def hardenedFields : List (CodePoints × Cleaned) :=
  (((namedFields E limits event).mapM
    (onValue (cleanValue E.heap limits.maxValueLength limits.maxDepth))).run []).1

/-- `harden_input`. -/
def hardenInput : List (CodePoints × Cleaned) :=
  if event.ticket ≠ .none then
    assign backpressureTicketKey (.scalar event.ticket) (hardenedFields E limits event)
  else hardenedFields E limits event

end Telemetry.Hardening.Python
