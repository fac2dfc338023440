import Telemetry.Lib.Tree
import Mathlib.Data.Rat.Floor

/-!
# The TypeScript payload sanitizer

`pii.ts`: the registered rules rebuild the payload one after another, the default pass redacts
blocked keys and secret-looking strings beside the original, and the result is written back
into the caller's object. No classification hook and no receipt hook is installed.

Whether a rule changed a value is decided by `!==`, so objects and arrays carry their
reference: the caller's, or that of the object a pass builds at a position. The position also
is what the source passes down as `currentPath` and `depth`.

Objects are plain: they have neither an own `__proto__` key nor a `toString` of their own. The
pipeline hands over nothing else.

## Main definitions

* `Value`, `strictNe` — values with references, and `!==` on them.
* `applyRuleFull` — the pass of one rule.
* `applyDefault` — the default pass.
* `sanitizePayload` — the pipeline.
-/

namespace Telemetry.Pii.TypeScript

open Telemetry.Lib

/-! ## Values -/

/-- A JavaScript number. -/
inductive Number
  | finite (q : ℚ)
  | negZero
  | inf
  | negInf
  | nan
  deriving DecidableEq

/-- A number's place on the line, if it has one. -/
def Number.val? : Number → Option ℚ
  | .finite q => some q
  | .negZero => some 0
  | _ => none

/-- `x === y` on numbers. -/
def Number.strictEq (x y : Number) : Bool :=
  match x.val?, y.val? with
  | some a, some b => a == b
  | none, none => x == y && x != .nan
  | _, _ => false

/-- Everything that is neither an object nor an array. -/
inductive Scalar
  | undefined
  | null
  | bool (b : Bool)
  | number (x : Number)
  | str (s : String)
  /-- A bigint, a symbol or a function. -/
  | other (id : ℕ)
  /-- What every object has under this name from `Object.prototype`. -/
  | inherited (name : String)
  deriving DecidableEq

/-- `a === b` on scalars. -/
def Scalar.strictEq : Scalar → Scalar → Bool
  | .number x, .number y => x.strictEq y
  | a, b => a == b

/-- The identity of an object or an array. -/
inductive Ref
  /-- One of the caller's. -/
  | caller (n : ℕ)
  /-- The one that a pass builds at a position. -/
  | allocated (pass : ℕ) (pos : List (Step String))
  deriving DecidableEq

/-- A payload value. -/
abbrev Value := Tree String Ref Scalar

/-- The own enumerable properties of an object. -/
abbrev Entries := List (String × Value)

/-- A string as a value. -/
abbrev str (s : String) : Value := .scalar (.str s)

/-- `v !== w`. -/
def strictNe : Value → Value → Bool
  | .scalar a, .scalar b => !a.strictEq b
  | .list r _, .list r' _ => r != r'
  | .dict r _, .dict r' _ => r != r'
  | _, _ => true

/-- The names every object inherits from `Object.prototype`. -/
def objectPrototype : List String :=
  ["constructor", "__defineGetter__", "__defineSetter__", "hasOwnProperty", "__lookupGetter__",
    "__lookupSetter__", "isPrototypeOf", "propertyIsEnumerable", "toString", "valueOf",
    "__proto__", "toLocaleString"]

/-- `obj[key]`, or `none` unless `key in obj`. -/
def property (obj : Entries) (key : String) : Option Value :=
  match obj.lookup key with
  | some v => some v
  | none => if objectPrototype.contains key then some (.scalar (.inherited key)) else none

/-- The object a caller hands over: every reference in it is the caller's, and no object has a
key twice. -/
structure Payload where
  ref : ℕ
  properties : List (String × Tree String ℕ Scalar)
  nodupKeys : (Tree.dict ref properties).NodupKeys

/-- The payload's own properties. -/
def Payload.obj (payload : Payload) : Entries :=
  Tree.mapRefEntries Ref.caller payload.properties

/-- The payload as a value. -/
def Payload.value (payload : Payload) : Value :=
  .dict (.caller payload.ref) payload.obj

/-! ## Rules and masks -/

/-- What the sanitizer takes from elsewhere. -/
structure Env where
  /-- `String(value)` of a scalar that is no string. -/
  primitiveString : Scalar → String
  /-- `key.toLowerCase()`. -/
  toLowerCase : String → String
  /-- The eight words of the SHA-256 digest of a text's UTF-8 encoding. -/
  sha256Words : String → Fin 8 → UInt32
  /-- `canonicalJson`. -/
  canonicalJson : Value → String
  /-- `_redactIfSecret`: the text with its secret-looking spans replaced, if it has any. -/
  redactIfSecret : String → Option String

/-- `MaskMode`. -/
inductive MaskMode
  | redact
  | drop
  | hash
  | truncate
  deriving DecidableEq, Repr

/-- `PIIRule`. -/
structure PIIRule where
  path : String
  mode : MaskMode
  truncateTo : Option Number := none
  deriving DecidableEq

/-- `REDACTED`. -/
def redacted : Value := str "***"

/-- `TRUNCATION_SUFFIX`. -/
def truncationSuffix : String := "..."

/-- `DEFAULT_TRUNCATE_TO`. -/
def defaultTruncateTo : Number := .finite 8

/-- The segment that stands for any key in a rule's path, and for an index in a value's. -/
def wild : String := "*"

/-- `s.padStart(8, '0')`. -/
def padStart8 (s : List Char) : List Char := List.replicate (8 - s.length) '0' ++ s

/-- `wordsToHex`. -/
def wordsToHex (words : Fin 8 → UInt32) : List Char :=
  (List.ofFn words).flatMap fun word => padStart8 (Nat.toDigits 16 word.toNat)

/-- `shortHash12`. -/
def shortHash12 (E : Env) (input : String) : String :=
  String.ofList ((wordsToHex (E.sha256Words input)).take 12)

/-- `_hashAny`. -/
def hashAny (E : Env) : Value → String
  | .scalar (.str s) => shortHash12 E s
  | value => shortHash12 E (E.canonicalJson value)

/-- What `Array.prototype.join` shows of an item, given what `String` makes of it. -/
def joinItem (string : String) : Value → String
  | .scalar .undefined => ""
  | .scalar .null => ""
  | _ => string

mutual
/-- `String(value)`. -/
def stringOf (E : Env) : Value → String
  | .scalar (.str s) => s
  | .scalar a => E.primitiveString a
  | .list _ items => ",".intercalate (stringItems E items)
  | .dict _ _ => "[object Object]"
/-- What `Array.prototype.join` joins. -/
def stringItems (E : Env) : List Value → List String
  | [] => []
  | item :: items => joinItem (stringOf E item) item :: stringItems E items
end

/-- `_truncate` for a whole limit. -/
def truncateAt (text : String) (limit : ℕ) : String :=
  if text.length ≤ limit then text
  else String.ofList (text.toList.take limit) ++ truncationSuffix

/-- `_truncate(text, Math.max(0, limit))`. `slice` rounds its end down, and takes NaN for 0. -/
def truncate (text : String) : Number → String
  | .finite q => truncateAt text ⌊max 0 q⌋.toNat
  | .negZero => truncateAt text 0
  | .negInf => truncateAt text 0
  | .inf => text
  | .nan => truncationSuffix

/-- `_applyMode`; `none` where `keep` is false. -/
def applyMode (E : Env) (value : Value) (rule : PIIRule) : Option Value :=
  match rule.mode with
  | .drop => none
  | .hash => some (str (hashAny E value))
  | .truncate =>
      some (str (truncate (stringOf E value) (rule.truncateTo.getD defaultTruncateTo)))
  | .redact => some redacted

/-- `_pathSegments`: `path.split('.')`. -/
def pathSegments (path : String) : List String :=
  (path.toList.splitOn '.').map String.ofList

/-- `currentPath` at a position. -/
def currentPath (pos : List (Step String)) : List String := segments wild pos

/-- `_matches(_pathSegments(rule.path), currentPath)`. -/
def ruleMatches (rule : PIIRule) (pos : List (Step String)) : Bool :=
  wildcardMatch wild (pathSegments rule.path) (currentPath pos)

/-- `depth >= maxDepth`. -/
def atLeast (depth : ℕ) : Number → Bool
  | .finite q => decide (q ≤ depth)
  | .negZero => true
  | .negInf => true
  | .inf => false
  | .nan => false

mutual
/-- `_applyRuleFull`, as the pass of this number. -/
def applyRuleFull (E : Env) (rule : PIIRule) (maxDepth : Number) (pass : ℕ)
    (pos : List (Step String)) : Value → Value
  | .scalar a => .scalar a
  | .list r items =>
      if atLeast pos.length maxDepth then .list r items
      else .list (.allocated pass pos) (applyRuleItems E rule maxDepth pass pos 0 items)
  | .dict r entries =>
      if atLeast pos.length maxDepth then .dict r entries
      else .dict (.allocated pass pos) (applyRuleEntries E rule maxDepth pass pos entries)
/-- The loop over an object's entries. -/
def applyRuleEntries (E : Env) (rule : PIIRule) (maxDepth : Number) (pass : ℕ)
    (pos : List (Step String)) : Entries → Entries
  | [] => []
  | (key, val) :: entries =>
      if ruleMatches rule (pos ++ [.key key]) then
        match applyMode E val rule with
        | some value => (key, value) :: applyRuleEntries E rule maxDepth pass pos entries
        | none => applyRuleEntries E rule maxDepth pass pos entries
      else
        (key, applyRuleFull E rule maxDepth pass (pos ++ [.key key]) val) ::
          applyRuleEntries E rule maxDepth pass pos entries
/-- The `map` over an array, from the item at this index on. -/
def applyRuleItems (E : Env) (rule : PIIRule) (maxDepth : Number) (pass : ℕ)
    (pos : List (Step String)) (i : ℕ) : List Value → List Value
  | [] => []
  | item :: items =>
      applyRuleFull E rule maxDepth pass (pos ++ [.index i]) item ::
        applyRuleItems E rule maxDepth pass pos (i + 1) items
end

/-! ## The default pass -/

/-- `DEFAULT_SANITIZE_FIELDS`. -/
def defaultSanitizeFields : List String :=
  ["password", "passwd", "secret", "token", "api_key", "apikey", "auth", "authorization",
    "credential", "private_key", "ssn", "credit_card", "creditcard", "cvv", "pin",
    "account_number", "cookie"]

/-- Whether `blocked.has(key.toLowerCase())`. -/
def blocked (E : Env) (extraFields : List String) (key : String) : Bool :=
  ((defaultSanitizeFields ++ extraFields).map E.toLowerCase).contains (E.toLowerCase key)

/-- `_pathHasRule`. -/
def pathHasRule (rules : List PIIRule) (pos : List (Step String)) : Bool :=
  rules.any fun rule => ruleMatches rule pos

/-- The redacted form of a value that is a string with a secret in it. -/
def redactIfSecret (E : Env) : Value → Option String
  | .scalar (.str s) => E.redactIfSecret s
  | _ => none

/-- `Array.isArray(original) ? original : []`. -/
def originalItems : Value → List Value
  | .list _ items => items
  | _ => []

/-- The original's properties, or the node's own if the original is no plain object. -/
def originalEntries (entries : Entries) : Value → Entries
  | .dict _ originals => originals
  | _ => entries

mutual
/-- `_applyDefaultSensitiveKeyRedaction`, on a node and its original. -/
def applyDefault (E : Env) (extraFields : List String) (rules : List PIIRule)
    (maxDepth : Number) (pos : List (Step String)) : Value → Value → Value
  | .scalar a, _ => .scalar a
  | .list r items, original =>
      if atLeast pos.length maxDepth then .list r items
      else
        .list (.allocated rules.length pos)
          (applyDefaultItems E extraFields rules maxDepth pos (originalItems original) 0 items)
  | .dict r entries, original =>
      if atLeast pos.length maxDepth then .dict r entries
      else
        .dict (.allocated rules.length pos)
          (applyDefaultEntries E extraFields rules maxDepth pos (originalEntries entries original)
            entries)
/-- The loop over an object's entries, beside the original object. -/
def applyDefaultEntries (E : Env) (extraFields : List String) (rules : List PIIRule)
    (maxDepth : Number) (pos : List (Step String)) (orig : Entries) : Entries → Entries
  | [] => []
  | (key, val) :: entries =>
      let origVal := (property orig key).getD (.scalar .undefined)
      let child := pos ++ [.key key]
      let value :=
        if blocked E extraFields key then
          if strictNe val origVal || pathHasRule rules child then val else redacted
        else match redactIfSecret E val with
          | some text => str text
          | none => applyDefault E extraFields rules maxDepth child val origVal
      (key, value) :: applyDefaultEntries E extraFields rules maxDepth pos orig entries
/-- The `map` over an array, from the item at this index on, beside the original array. -/
def applyDefaultItems (E : Env) (extraFields : List String) (rules : List PIIRule)
    (maxDepth : Number) (pos : List (Step String)) (origArr : List Value) (i : ℕ) :
    List Value → List Value
  | [] => []
  | item :: items =>
      applyDefault E extraFields rules maxDepth (pos ++ [.index i]) item
          (origArr[i]?.getD (.scalar .undefined)) ::
        applyDefaultItems E extraFields rules maxDepth pos origArr (i + 1) items
end

/-! ## The pipeline -/

/-- The rules, one after another, as the passes from this number on. -/
def applyRules (E : Env) (maxDepth : Number) (pos : List (Step String)) :
    ℕ → List PIIRule → Value → Value
  | _, [], current => current
  | pass, rule :: rules, current =>
      applyRules E maxDepth pos (pass + 1) rules (applyRuleFull E rule maxDepth pass pos current)

/-- Write the result back: every key of the caller's object takes its new value or goes, then
keys it does not have are added. -/
def update (obj c : Entries) : Entries :=
  let kept := obj.filterMap fun e => (property c e.1).map fun v => (e.1, v)
  kept ++ c.filter fun e => (property kept e.1).isNone

/-- `sanitizePayload`: what it makes of the caller's object. -/
def sanitizePayload (E : Env) (rules : List PIIRule) (extraFields : List String)
    (maxDepth : Number) (payload : Payload) : Value :=
  let current := applyRules E maxDepth [] 0 rules payload.value
  match current with
  | .dict _ _ =>
      match applyDefault E extraFields rules maxDepth [] current payload.value with
      | .dict _ c => .dict (.caller payload.ref) (update payload.obj c)
      | _ => payload.value
  | _ => payload.value

end Telemetry.Pii.TypeScript
