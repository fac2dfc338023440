import Telemetry.Lib.Logged
import Telemetry.Pii.Scalars
import Mathlib.Data.Int.Notation

/-!
# The Go payload sanitizer

`internal/piicore/pii.go` and the part of `pii.go` that calls it: one walk over the payload,
in which the first rule that matches an entry masks it, a default-sensitive key or a
secret-looking string is redacted, and anything else is walked into; then the
classification policy acts on the top level.

A Go map is an association list in the order in which `range` happens to visit it. What the
sanitizer takes from elsewhere (`fmt`, the canonical JSON, SHA-256, `unicode.ToLower`, the
secret scan) is a parameter, `Env`.

The log is the calls of the receipt hook. What the code does not report, the position of the
value and the rule that matched it, is kept beside each.

## Main definitions

* `applyMode`, `intercept` — what is done to a value instead of walking into it.
* `sanitizeMap`, `sanitizeSlice`, `sanitizeValue` — the walk.
* `applyClassificationPolicy`, `sanitizePayload`.
-/

namespace Telemetry.Pii.Go

open Telemetry.Lib

variable {α : Type} [Scalars α]

/-- What the sanitizer takes from elsewhere. -/
structure Env (α : Type) where
  /-- `fmt.Sprintf("%v", value)`. -/
  sprintf : Value α → String
  /-- The canonicalizer that the root package installs. -/
  hashCanonicalizer : Value α → String
  /-- The SHA-256 hex digest of a text's bytes. -/
  sha256Hex : String → String
  /-- `unicode.ToLower`. -/
  toLower : Char → Char
  /-- `replaceSpans` over `secretSpans`, where there are any. -/
  replaceSecretSpans : String → Option String

/-- `PIIRule`. -/
structure PIIRule where
  path : List String
  mode : String
  truncateTo : ℤ
  deriving DecidableEq, Repr

/-- `Redacted`. -/
def redacted : String := "***"

/-- `TruncationSuffix`. -/
def truncationSuffix : String := "..."

/-- `DefaultTruncateTo`. -/
def defaultTruncateTo : ℤ := 8

/-- `DefaultMaxDepth`. -/
def defaultMaxDepth : ℕ := 8

/-- The segment that stands for any segment. -/
def wild : String := "*"

/-- `DefaultSensitiveKeys`. -/
def defaultSensitiveKeys : List String :=
  ["password", "passwd", "secret", "token", "api_key", "apikey", "auth", "authorization",
    "credential", "private_key", "ssn", "credit_card", "creditcard", "cvv", "pin",
    "account_number", "cookie"]

/-- `IsDefaultSensitiveKey`. -/
def isDefaultSensitiveKey (E : Env α) (key : String) : Bool :=
  defaultSensitiveKeys.contains (key.map E.toLower)

/-- `ApplyRule`. -/
def applyRule (rule : PIIRule) (path : List String) : Bool :=
  wildcardMatch wild rule.path path

/-- The first rule that matches a path. -/
def findRule (rules : List PIIRule) (path : List String) : Option PIIRule :=
  rules.find? fun rule => applyRule rule path

/-- The truncate branch of `ApplyMode`. -/
def truncate (s : String) (truncateTo : ℤ) : String :=
  let limit := (max truncateTo 0).toNat
  if limit < s.length then String.ofList (s.toList.take limit) ++ truncationSuffix else s

/-- `ApplyMode`: nothing where the value is dropped. A mode that is none of the four
redacts. -/
def applyMode (E : Env α) (value : Value α) (mode : String) (truncateTo : ℤ) :
    Option (Value α) :=
  if mode = "drop" then none
  else if mode = "hash" then
    some (text (String.ofList
      ((E.sha256Hex ((text? value).getD (E.hashCanonicalizer value))).toList.take 12)))
  else if mode = "truncate" then some (text (truncate (E.sprintf value) truncateTo))
  else some (text redacted)

/-- A call of the receipt hook, with what led to it. -/
structure Receipt (α : Type) where
  fieldPath : String
  action : String
  original : Value α
  position : List (Step String)
  rule : Option PIIRule

/-- `strings.Join(path, ".")`. -/
def joined (path : List String) : String := ".".intercalate path

/-- `SanitizeValue` up to the recursion: what is done to a value instead of walking into it,
its new value, if it is to have one. -/
def intercept (E : Env α) (rules : List PIIRule) (position : List (Step String)) (key : String)
    (value : Value α) (path : List String) :
    Option (Logged (Receipt α) (Option (Value α))) :=
  match findRule rules path with
  | some rule => some do
      Logged.tell ⟨joined path, rule.mode, value, position, some rule⟩
      pure (applyMode E value rule.mode rule.truncateTo)
  | none =>
      let replacement :=
        if isDefaultSensitiveKey E key then some redacted
        else (text? value).bind E.replaceSecretSpans
      replacement.map fun replacement => do
        Logged.tell ⟨key, "redact", value, position, none⟩
        pure (some (text replacement))

mutual
/-- `SanitizeValue`. -/
def sanitizeValue (E : Env α) (rules : List PIIRule) (position : List (Step String))
    (key : String) (path : List String) (depth : ℕ) :
    Value α → Logged (Receipt α) (Option (Value α))
  | .dict _ entries =>
      match intercept E rules position key (.dict () entries) path with
      | some result => result
      | none =>
          if depth ≤ 1 then pure (some (.dict () entries))
          else do
            let output ← sanitizeEntries E rules position path (depth - 1) entries
            pure (some (.dict () output))
  | .list _ items =>
      match intercept E rules position key (.list () items) path with
      | some result => result
      | none =>
          if depth ≤ 1 then pure (some (.list () items))
          else do
            let output ← sanitizeSlice E rules position path (depth - 1) 0 items
            pure (some (.list () output))
  | .scalar a =>
      match intercept E rules position key (.scalar a) path with
      | some result => result
      | none => pure (some (.scalar a))
/-- `SanitizeMap`, on the entries of the map. -/
def sanitizeEntries (E : Env α) (rules : List PIIRule) (position : List (Step String))
    (path : List String) (depth : ℕ) : Entries α → Logged (Receipt α) (Entries α)
  | [] => pure []
  | (key, value) :: entries => do
      let sanitized ←
        sanitizeValue E rules (position ++ [.key key]) key (path ++ [key]) depth value
      let output ← sanitizeEntries E rules position path depth entries
      pure (match sanitized with
        | some value => (key, value) :: output
        | none => output)
/-- `SanitizeSlice`, from the `i`-th item on. An item's path is that of the list. -/
def sanitizeSlice (E : Env α) (rules : List PIIRule) (position : List (Step String))
    (path : List String) (depth : ℕ) (i : ℕ) :
    List (Value α) → Logged (Receipt α) (List (Value α))
  | [] => pure []
  | .dict _ entries :: items => do
      let inner ← sanitizeEntries E rules (position ++ [.index i]) path depth entries
      let output ← sanitizeSlice E rules position path depth (i + 1) items
      pure (.dict () inner :: output)
  | item :: items => do
      let sanitized ← sanitizeValue E rules (position ++ [.index i]) "" path depth item
      let output ← sanitizeSlice E rules position path depth (i + 1) items
      pure (match sanitized with
        | some value => value :: output
        | none => output)
end

/-- `SanitizeMap`. -/
def sanitizeMap (E : Env α) (m : Entries α) (path : List String) (rules : List PIIRule)
    (depth : ℕ) : Logged (Receipt α) (Entries α) :=
  sanitizeEntries E rules [] path depth m

/-! ## The pipeline -/

/-- `_classificationHook` and `_policyHook`. -/
structure Hooks (α : Type) where
  classification : Option (String → Value α → String) := none
  policy : Option (String → String) := none

/-- `_applyMaskAction`. -/
def applyMaskAction (E : Env α) (result : Entries α) (k : String) (v : Value α)
    (action : String) : Entries α :=
  if action ≠ "redact" ∧ action ≠ "hash" ∧ action ≠ "truncate" then result
  else if text? v = some redacted then result
  else
    match applyMode E v action defaultTruncateTo with
    | some masked => setItem k masked result
    | none => result

/-- One round of the loop in `_applyClassificationPolicy`, on a key of the snapshot. -/
def classifyKey (E : Env α) (classHook : String → Value α → String)
    (policyHook : Option (String → String)) (result : Entries α) (k : String) : Entries α :=
  match result.lookup k with
  | none => result
  | some v =>
      let label := classHook k v
      if label = "" then result
      else
        let action := (policyHook.map fun policy => policy label).getD "pass"
        if action = "drop" then delItem k result
        else applyMaskAction E (setItem ("__" ++ k ++ "__class") (text label) result) k v action

/-- `_applyClassificationPolicy`. -/
def applyClassificationPolicy (E : Env α) (hooks : Hooks α) (result : Entries α) : Entries α :=
  match hooks.classification with
  | some classHook => (result.map Prod.fst).foldl (classifyKey E classHook hooks.policy) result
  | none => result

/-- `SanitizePayload`. -/
def sanitizePayload (E : Env α) (hooks : Hooks α) (rules : List PIIRule) (payload : Payload α)
    (enabled : Bool) (maxDepth : ℤ) : Logged (Receipt α) (Entries α) :=
  if enabled then do
    let depth := if maxDepth ≤ 0 then defaultMaxDepth else maxDepth.toNat
    let result ← sanitizeMap E payload.entries [] rules depth
    pure (applyClassificationPolicy E hooks result)
  else pure payload.entries

end Telemetry.Pii.Go
