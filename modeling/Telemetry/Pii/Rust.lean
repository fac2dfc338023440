import Telemetry.Lib.Logged
import Telemetry.Pii.Scalars

/-!
# The Rust payload sanitizer

`pii.rs`: one walk over the payload, in which the first rule that matches an entry masks it,
a default-sensitive key or a secret-looking string is redacted, and anything else is walked
into; then the classification policy acts on the top level.

`serde_json`'s maps are association lists in their own order. What the sanitizer takes from
elsewhere (`Value::to_string`, the canonical JSON, SHA-256, the secret scan, the
classification rules and policy) is a parameter, `Env`.

The log is the calls of `record_redaction`. What the code does not record, the position of
the entry and the rule that matched it, is kept beside each.

## Main definitions

* `maskValue`, `intercept` — what is done to an entry instead of walking into it.
* `applyRules` — the walk.
* `annotateGovernanceClasses`, `sanitizePayload`.
-/

namespace Telemetry.Pii.Rust

open Telemetry.Lib

variable {α : Type} [Scalars α]

/-- What the sanitizer takes from elsewhere. -/
structure Env (α : Type) where
  /-- `Value::to_string`. -/
  toString : Value α → String
  /-- `canonical_json`. -/
  canonicalJson : Value α → String
  /-- The SHA-256 hex digest of a text's bytes. -/
  sha256Hex : String → String
  /-- `redact_if_secret`. -/
  redactIfSecret : String → Option String
  /-- `classify_key`. -/
  classifyKey : String → Option String
  /-- `ClassificationPolicy::lookup_action`. -/
  lookupAction : String → String

/-- `PIIMode`. -/
inductive PIIMode
  | drop
  | redact
  | hash
  | truncate
  deriving DecidableEq, Repr

/-- `PIIRule`. -/
structure PIIRule where
  path : List String
  mode : PIIMode := .redact
  truncateTo : ℕ := 8
  deriving DecidableEq, Repr

/-- `REDACTED`. -/
def redacted : String := "***"

/-- `TRUNC_SUFFIX`. -/
def truncSuffix : String := "..."

/-- `DEFAULT_TRUNCATE_TO`. -/
def defaultTruncateTo : ℕ := 8

/-- The segment that stands for any segment. -/
def wild : String := "*"

/-- `DEFAULT_SENSITIVE`. -/
def defaultSensitive : List String :=
  ["password", "passwd", "secret", "token", "api_key", "apikey", "auth", "authorization",
    "credential", "private_key", "ssn", "credit_card", "creditcard", "cvv", "pin",
    "account_number", "cookie"]

/-- `str::to_ascii_lowercase`. -/
def toAsciiLowercase (s : String) : String := s.map Char.toLower

/-- `sensitive_key`. -/
def sensitiveKey (key : String) : Bool := defaultSensitive.contains (toAsciiLowercase key)

/-- `hash_value`. -/
def hashValue (E : Env α) (value : Value α) : String :=
  String.ofList ((E.sha256Hex ((text? value).getD (E.canonicalJson value))).toList.take 12)

/-- The truncate branch of `mask_value`. -/
def truncate (s : String) (truncateTo : ℕ) : String :=
  if s.length ≤ truncateTo then s
  else String.ofList (s.toList.take truncateTo) ++ truncSuffix

/-- `mask_value`. -/
def maskValue (E : Env α) (value : Value α) (mode : PIIMode) (truncateTo : ℕ) :
    Option (Value α) :=
  match mode with
  | .drop => none
  | .redact => some (text redacted)
  | .hash => some (text (hashValue E value))
  | .truncate => some (text (truncate ((text? value).getD (E.toString value)) truncateTo))

/-- `match_rule_path`. -/
def matchRulePath (rulePath childPath : List String) : Bool :=
  wildcardMatch wild rulePath childPath

/-- The first rule that matches a path. -/
def findRule (rules : List PIIRule) (path : List String) : Option PIIRule :=
  rules.find? fun rule => matchRulePath rule.path path

/-- A call of `record_redaction`, with what led to it. -/
structure Receipt (α : Type) where
  fieldPath : String
  action : PIIMode
  original : Value α
  position : List (Step String)
  rule : Option PIIRule

/-- `child_path.join(".")`. -/
def joined (path : List String) : String := ".".intercalate path

/-- What is done to an entry at a path instead of walking into it: the entry's new value, if
it is to have one. -/
def intercept (E : Env α) (rules : List PIIRule) (position : List (Step String))
    (childPath : List String) (key : String) (value : Value α) :
    Option (Logged (Receipt α) (Option (Value α))) :=
  match findRule rules childPath with
  | some rule => some do
      Logged.tell ⟨joined childPath, rule.mode, value, position, some rule⟩
      pure (maskValue E value rule.mode rule.truncateTo)
  | none =>
      let replacement :=
        if sensitiveKey key then some redacted else (text? value).bind E.redactIfSecret
      replacement.map fun replacement => do
        Logged.tell ⟨joined childPath, .redact, value, position, none⟩
        pure (some (text replacement))

/-- An entry whose value may be gone. -/
def insertSome (key : String) (value : Option (Value α)) (output : Entries α) : Entries α :=
  match value with
  | some value => (key, value) :: output
  | none => output

mutual
/-- `apply_rules`. -/
def applyRules (E : Env α) (rules : List PIIRule) (position : List (Step String))
    (path : List String) (maxDepth : ℕ) : Value α → Logged (Receipt α) (Value α)
  | .dict _ entries =>
      if maxDepth = 0 then pure (.dict () entries)
      else do
        let output ← applyRulesEntries E rules position path (maxDepth - 1) entries
        pure (.dict () output)
  | .list _ items =>
      if maxDepth = 0 then pure (.list () items)
      else do
        let output ← applyRulesItems E rules position (path ++ [wild]) (maxDepth - 1) 0 items
        pure (.list () output)
  | .scalar a => pure (.scalar a)
/-- The loop of `apply_rules` over a map. -/
def applyRulesEntries (E : Env α) (rules : List PIIRule) (position : List (Step String))
    (path : List String) (maxDepth : ℕ) : Entries α → Logged (Receipt α) (Entries α)
  | [] => pure []
  | (key, value) :: entries => do
      let child ←
        match intercept E rules (position ++ [.key key]) (path ++ [key]) key value with
        | some child => child
        | none => do
            let child ←
              applyRules E rules (position ++ [.key key]) (path ++ [key]) maxDepth value
            pure (some child)
      let output ← applyRulesEntries E rules position path maxDepth entries
      pure (insertSome key child output)
/-- The loop of `apply_rules` over an array, each item at the given path. -/
def applyRulesItems (E : Env α) (rules : List PIIRule) (position : List (Step String))
    (starPath : List String) (maxDepth : ℕ) (i : ℕ) :
    List (Value α) → Logged (Receipt α) (List (Value α))
  | [] => pure []
  | item :: items => do
      let child ← applyRules E rules (position ++ [.index i]) starPath maxDepth item
      let output ← applyRulesItems E rules position starPath maxDepth (i + 1) items
      pure (child :: output)
end

/-- The walk on one entry, whose value may be gone. -/
def applyRulesEntry (E : Env α) (rules : List PIIRule) (position : List (Step String))
    (path : List String) (maxDepth : ℕ) (key : String) (value : Value α) :
    Logged (Receipt α) (Option (Value α)) :=
  match intercept E rules (position ++ [.key key]) (path ++ [key]) key value with
  | some child => child
  | none => do
      let child ← applyRules E rules (position ++ [.key key]) (path ++ [key]) maxDepth value
      pure (some child)

theorem applyRulesEntries_cons (E : Env α) (rules : List PIIRule)
    (position : List (Step String)) (path : List String) (maxDepth : ℕ) (key : String)
    (value : Value α) (entries : Entries α) :
    applyRulesEntries E rules position path maxDepth ((key, value) :: entries) =
      (do
        let child ← applyRulesEntry E rules position path maxDepth key value
        let output ← applyRulesEntries E rules position path maxDepth entries
        pure (insertSome key child output)) := by
  rw [applyRulesEntries, applyRulesEntry]
  cases intercept E rules (position ++ [.key key]) (path ++ [key]) key value with
  | some child => rfl
  | none => ext <;> simp

/-! ## The pipeline -/

/-- The mode of a policy action that masks. -/
def actionMode : String → Option PIIMode
  | "redact" => some .redact
  | "hash" => some .hash
  | "truncate" => some .truncate
  | _ => none

/-- One round of the loop in `annotate_governance_classes`, on a key of the snapshot. -/
def annotateKey (E : Env α) (cleaned : Entries α) (key : String) : Entries α :=
  match E.classifyKey key with
  | none => cleaned
  | some label =>
      let action := E.lookupAction label
      if action = "drop" then delItem key cleaned
      else
        let masked :=
          match actionMode action, cleaned.lookup key with
          | some mode, some current =>
              if text? current = some redacted then cleaned
              else
                match maskValue E current mode defaultTruncateTo with
                | some masked => setItem key masked cleaned
                | none => cleaned
          | _, _ => cleaned
        setItem ("__" ++ key ++ "__class") (text label) masked

/-- `annotate_governance_classes`. -/
def annotateGovernanceClasses (E : Env α) (cleaned : Entries α) : Entries α :=
  (cleaned.map Prod.fst).foldl (annotateKey E) cleaned

/-- `sanitize_payload` on a map. -/
def sanitizePayload (E : Env α) (rules : List PIIRule) (payload : Payload α) (enabled : Bool)
    (maxDepth : ℕ) : Logged (Receipt α) (Value α) :=
  if enabled then do
    let cleaned ← applyRules E rules [] [] (max maxDepth 1) (.dict () payload.entries)
    match cleaned with
    | .dict _ entries => pure (.dict () (annotateGovernanceClasses E entries))
    | v => pure v
  else pure (.dict () payload.entries)

end Telemetry.Pii.Rust
