import Telemetry.Lib.Logged
import Telemetry.Lib.Tree
import Mathlib.Data.Rat.Defs

/-!
# The Python payload sanitizer

`pii.py`: the registered rules are applied one after another, then the default pass redacts
sensitive keys and secret-looking strings, then the classification policy acts on the top
level. A receipt hook is called along the way; its calls are the log of the computation.

A payload is a tree of dicts, lists and scalars. A dict is an association list in insertion
order. What the sanitizer takes from elsewhere (`str`, `str.lower`, SHA-256, the canonical
JSON and the secret scan) is a parameter, `Env`. A canonical JSON that raises makes the whole
call raise; such a call has no output and is outside the model.

## Main definitions

* `Scalar`, `Value`, `valueEq` — values, and Python's `==` on them.
* `applyRule` — the pass of one rule.
* `applyDefault` — the default pass.
* `sanitizePayload` — the pipeline.
-/

namespace Telemetry.Pii.Python

open Telemetry.Lib

/-! ## Values -/

/-- A Python float. -/
inductive PyFloat
  | finite (q : ℚ)
  | negZero
  | inf
  | negInf
  | nan
  deriving DecidableEq

/-- The scalars of a payload. -/
inductive Scalar
  | none
  | bool (b : Bool)
  | int (n : ℤ)
  | float (x : PyFloat)
  | str (s : String)
  deriving DecidableEq

/-- A payload value. -/
abbrev Value := Tree String Unit Scalar

/-- The items of a dict. -/
abbrev Entries := List (String × Value)

/-- A string as a value. -/
abbrev str (s : String) : Value := .scalar (.str s)

/-- The dict a caller hands over: no dict in it has a key twice. -/
structure Payload where
  entries : Entries
  nodupKeys : (Tree.dict () entries : Value).NodupKeys

/-- The payload as a value. -/
def Payload.value (payload : Payload) : Value := .dict () payload.entries

/-- The number a scalar compares as: `True` is `1` and `1.0` is `1`. -/
def Scalar.num? : Scalar → Option ℚ
  | .bool b => some (if b then 1 else 0)
  | .int n => some n
  | .float (.finite q) => some q
  | .float .negZero => some 0
  | _ => Option.none

/-- `a == b` on scalars. A NaN equals nothing, itself included. -/
def Scalar.eq (a b : Scalar) : Bool :=
  match a.num?, b.num? with
  | some x, some y => x == y
  | Option.none, Option.none => a == b && a != .float .nan
  | _, _ => false

mutual
/-- How a list or a dict compares its elements: identity first, then `==`. The sanitizer hands
a scalar on as the object it was, so equal scalars stand for identical ones here. -/
def elemEq : Value → Value → Bool
  | .scalar a, .scalar b => a == b || a.eq b
  | .list _ xs, .list _ ys => itemsEq xs ys
  | .dict _ xs, .dict _ ys => xs.length == ys.length && entriesEq xs ys
  | _, _ => false
/-- Lists compare item by item. -/
def itemsEq : List Value → List Value → Bool
  | [], [] => true
  | x :: xs, y :: ys => elemEq x y && itemsEq xs ys
  | _, _ => false
/-- Every entry of the first dict is in the second. -/
def entriesEq : Entries → Entries → Bool
  | [], _ => true
  | (k, x) :: xs, ys => (ys.lookup k).any (elemEq x) && entriesEq xs ys
end

/-- `v == w`. -/
def valueEq : Value → Value → Bool
  | .scalar a, .scalar b => a.eq b
  | v, w => elemEq v w

/-! ## Rules and masks -/

/-- What the sanitizer takes from elsewhere. -/
structure Env where
  /-- `str(value)`. -/
  str : Value → String
  /-- `key.lower()`. -/
  lower : String → String
  /-- The SHA-256 hex digest of a text's UTF-8 encoding. -/
  sha256Hex : String → String
  /-- `receipts.canonical_json`. -/
  canonicalJson : Value → String
  /-- `_redact_if_secret`: the text with its secret-looking spans replaced, if it has any. -/
  redactIfSecret : String → Option String

/-- `MaskMode`. -/
inductive MaskMode
  | drop
  | redact
  | hash
  | truncate
  deriving DecidableEq, Repr

/-- `PIIRule`. -/
structure PIIRule where
  path : List String
  mode : MaskMode := .redact
  truncateTo : ℤ := 8
  deriving DecidableEq, Repr

/-- `_REDACTED`. -/
def redacted : Value := str "***"

/-- `_TRUNCATION_SUFFIX`. -/
def truncationSuffix : String := "..."

/-- The segment that stands for any key in a rule's path, and for a list index in a value's. -/
def wild : String := "*"

/-- `_hash` branch of `_mask`: the first 12 digits of a digest. -/
def hash12 (E : Env) (value : Value) : String :=
  let text := match value with
    | .scalar (.str s) => s
    | _ => E.canonicalJson value
  String.ofList ((E.sha256Hex text).toList.take 12)

/-- The truncate branch of `_mask`. -/
def truncate (text : String) (truncateTo : ℤ) : String :=
  let limit := (max 0 truncateTo).toNat
  if text.length ≤ limit then text
  else String.ofList (text.toList.take limit) ++ truncationSuffix

/-- `_mask`; `none` is Python's `None`. -/
def mask (E : Env) (value : Value) (mode : MaskMode) (truncateTo : ℤ) : Option Value :=
  match mode with
  | .drop => none
  | .redact => some redacted
  | .hash => some (str (hash12 E value))
  | .truncate => some (str (truncate (E.str value) truncateTo))

/-- `_match`. -/
def match_ (path target : List String) : Bool :=
  wildcardMatch wild path target

/-- One call of the receipt hook. -/
structure Receipt where
  fieldPath : String
  action : MaskMode
  original : Value

/-- `".".join(path)`. -/
def joined (path : List String) : String := ".".intercalate path

/-- The hard safety limit of `_apply_rule`. -/
def ruleDepth : ℕ := 32

mutual
/-- `_apply_rule`. -/
def applyRule (E : Env) (rule : PIIRule) (currentPath : List String) (depth : ℕ) :
    Value → Logged Receipt Value
  | .dict _ entries =>
      if ruleDepth ≤ depth then pure (.dict () entries)
      else do
        let output ← applyRuleEntries E rule currentPath depth entries
        pure (.dict () output)
  | .list _ items =>
      if ruleDepth ≤ depth then pure (.list () items)
      else do
        let output ← applyRuleItems E rule (currentPath ++ [wild]) (depth + 1) items
        pure (.list () output)
  | .scalar a => pure (.scalar a)
/-- The loop of `_apply_rule` over a dict's items. -/
def applyRuleEntries (E : Env) (rule : PIIRule) (currentPath : List String) (depth : ℕ) :
    Entries → Logged Receipt Entries
  | [] => pure []
  | (key, value) :: entries =>
      if match_ rule.path (currentPath ++ [key]) then do
        Logged.tell ⟨joined (currentPath ++ [key]), rule.mode, value⟩
        let output ← applyRuleEntries E rule currentPath depth entries
        match mask E value rule.mode rule.truncateTo with
        | some masked => pure ((key, masked) :: output)
        | none => pure output
      else do
        let child ← applyRule E rule (currentPath ++ [key]) (depth + 1) value
        let output ← applyRuleEntries E rule currentPath depth entries
        pure ((key, child) :: output)
/-- The comprehension of `_apply_rule` over a list's items, each at the given path. -/
def applyRuleItems (E : Env) (rule : PIIRule) (itemPath : List String) (depth : ℕ) :
    List Value → Logged Receipt (List Value)
  | [] => pure []
  | item :: items => do
      let child ← applyRule E rule itemPath depth item
      let output ← applyRuleItems E rule itemPath depth items
      pure (child :: output)
end

/-! ## The default pass -/

/-- `_DEFAULT_SENSITIVE_KEYS`. -/
def defaultSensitiveKeys : List String :=
  ["password", "passwd", "secret", "token", "api_key", "apikey", "auth", "authorization",
    "credential", "private_key", "ssn", "credit_card", "creditcard", "cvv", "pin",
    "account_number", "cookie"]

/-- Whether the key, lower-cased, is a default sensitive one. -/
def sensitive (E : Env) (key : String) : Bool :=
  defaultSensitiveKeys.contains (E.lower key)

/-- `_path_has_rule`. -/
def pathHasRule (rulePaths : List (List String)) (childPath : List String) : Bool :=
  rulePaths.any fun path => match_ path childPath

/-- `_collect_rule_paths`. -/
def collectRulePaths (rules : List PIIRule) : List (List String) :=
  (rules.filter fun rule => rule.path ≠ []).map PIIRule.path

/-- The redacted form of a value that is a string with a secret in it. -/
def redactIfSecret (E : Env) : Value → Option String
  | .scalar (.str s) => E.redactIfSecret s
  | _ => none

mutual
/-- `_apply_default_sensitive_key_redaction`. -/
def applyDefault (E : Env) (maxDepth : ℤ) (rulePaths : List (List String))
    (currentPath : List String) (depth : ℕ) : Value → Value → Logged Receipt Value
  | .dict _ entries, .dict _ originals =>
      if maxDepth ≤ depth then pure (.dict () entries)
      else do
        let output ← applyDefaultEntries E maxDepth rulePaths currentPath depth originals entries
        pure (.dict () output)
  | .list _ items, .list _ originals =>
      if maxDepth ≤ depth then pure (.list () items)
      else do
        let output ← applyDefaultItems E maxDepth rulePaths (currentPath ++ [wild]) (depth + 1)
          items originals
        pure (.list () output)
  | node, _ => pure node
/-- The loop over a dict's items, beside the original dict. -/
def applyDefaultEntries (E : Env) (maxDepth : ℤ) (rulePaths : List (List String))
    (currentPath : List String) (depth : ℕ) (originals : Entries) :
    Entries → Logged Receipt Entries
  | [] => pure []
  | (key, value) :: entries => do
      let original := (originals.lookup key).getD value
      let childPath := currentPath ++ [key]
      let child ←
        if sensitive E key then
          if pathHasRule rulePaths childPath || !valueEq value original then pure value
          else do
            Logged.tell ⟨joined childPath, .redact, original⟩
            pure redacted
        else match redactIfSecret E value with
          | some text => do
              Logged.tell ⟨joined childPath, .redact, value⟩
              pure (str text)
          | none => applyDefault E maxDepth rulePaths childPath (depth + 1) value original
      let output ← applyDefaultEntries E maxDepth rulePaths currentPath depth originals entries
      pure ((key, child) :: output)
/-- The loop over a list's items, each at the given path, beside the original list. -/
def applyDefaultItems (E : Env) (maxDepth : ℤ) (rulePaths : List (List String))
    (itemPath : List String) (depth : ℕ) : List Value → List Value → Logged Receipt (List Value)
  | item :: items, original :: originals => do
      let child ←
        match redactIfSecret E item with
        | some text => do
            Logged.tell ⟨"(list_item)", .redact, item⟩
            pure (str text)
        | none => applyDefault E maxDepth rulePaths itemPath depth item original
      let output ← applyDefaultItems E maxDepth rulePaths itemPath depth items originals
      pure (child :: output)
  | _, _ => pure []
end

/-! ## The pipeline -/

/-- `_classification_hook` and `_policy_hook`; `none` where the module is not loaded. -/
structure Hooks where
  classification : Option (String → Value → Option String) := none
  policy : Option (String → String) := none

/-- `entries[key] = value`. -/
def setItem (key : String) (value : Value) : Entries → Entries
  | [] => [(key, value)]
  | (k, v) :: entries =>
      if k = key then (k, value) :: entries else (k, v) :: setItem key value entries

/-- `del entries[key]`. -/
def delItem (key : String) (entries : Entries) : Entries :=
  entries.filter fun e => e.1 ≠ key

/-- The mode of a policy action that masks. -/
def maskAction : String → Option MaskMode
  | "redact" => some .redact
  | "hash" => some .hash
  | "truncate" => some .truncate
  | _ => none

/-- The policy's action for a label, `"pass"` where no policy is loaded. -/
def policyAction : Option (String → String) → String → String
  | some policyFn, label => policyFn label
  | none, _ => "pass"

/-- One round of the classification loop, on the item `(key, value)` of the snapshot. -/
def classifyItem (E : Env) (classification : String → Value → Option String)
    (policy : Option (String → String)) (cleaned : Entries) (item : String × Value) : Entries :=
  match classification item.1 item.2 with
  | none => cleaned
  | some label =>
      let action := policyAction policy label
      if action = "drop" then delItem item.1 cleaned
      else
        let tagged := setItem ("__" ++ item.1 ++ "__class") (str label) cleaned
        match maskAction action with
        | some mode =>
            if valueEq item.2 redacted then tagged
            else setItem item.1 ((mask E item.2 mode 8).getD (.scalar .none)) tagged
        | none => tagged

/-- The classification loop. -/
def classify (E : Env) (hooks : Hooks) (cleaned : Entries) : Entries :=
  match hooks.classification with
  | some classification => cleaned.foldl (classifyItem E classification hooks.policy) cleaned
  | none => cleaned

/-- The rules, one after another, on a payload value. -/
def applyRules (E : Env) (rules : List PIIRule) (payload : Value) : Logged Receipt Value :=
  rules.foldlM (fun cleaned rule => applyRule E rule [] 0 cleaned) payload

/-- `sanitize_payload` up to the classification: the rules, then the default pass. -/
def clean (E : Env) (rules : List PIIRule) (maxDepth : ℤ) (payload : Value) :
    Logged Receipt Value := do
  let cleaned ← applyRules E rules payload
  applyDefault E maxDepth (collectRulePaths rules) [] 0 cleaned payload

/-- `sanitize_payload`. -/
def sanitizePayload (E : Env) (hooks : Hooks) (rules : List PIIRule) (payload : Payload)
    (enabled : Bool) (maxDepth : ℤ) : Logged Receipt Value :=
  if enabled then do
    let cleaned ← clean E rules maxDepth payload.value
    match cleaned with
    | .dict _ entries => pure (.dict () (classify E hooks entries))
    | _ => pure (.dict () [])
  else pure payload.value

end Telemetry.Pii.Python
