import Telemetry.Lib.CodePoints
import Telemetry.Lib.Tree
import Telemetry.Pii.Python
import Telemetry.Receipts.Numbers
import Mathlib.Data.List.Sort

/-!
# Canonical JSON and receipts in the Python SDK

`canonical_json` and `sign_receipt` of `receipts.py`, and `_mask` of `pii.py`, which hashes the
canonical form. The strings are those of Python, lone surrogates included, and what raises is
modelled as raising: the encodings at a surrogate, `str` of an integer with too many digits,
`str` of a key.

Every list and dict carries its `id`. A cycle is a tree that stops where an `id` comes again on
its own path, since nothing below is read.

## Main definitions

* `Value`, `Key` — values, and what a dict can have as a key.
* `canonicalJson` — the canonical form.
* `signReceipt` — a receipt.
* `mask` — the masks.
-/

namespace Telemetry.Receipts.Python

open Telemetry.Lib
open Telemetry.Pii.Python (MaskMode)

/-- A scalar. The last is anything that JSON cannot represent. -/
inductive Scalar
  | none
  | bool (b : Bool)
  | int (n : ℤ)
  | float (x : PyFloat)
  | str (text : CodePoints)
  | other

/-- The key of a dict. The last is any other key, by what its `__str__` does. -/
inductive Key
  | none
  | bool (b : Bool)
  | int (n : ℤ)
  | float (x : PyFloat)
  | str (text : CodePoints)
  | other (result : Except PyError CodePoints)

/-- A value, with the `id` of every list and dict. -/
abbrev Value := Tree Key ℕ Scalar

/-- `str` of an integer. -/
def strInt (n : ℤ) : Except PyError CodePoints :=
  let digits := Nat.toDigits 10 n.natAbs
  if intMaxStrDigits < digits.length then .error .valueError
  else .ok (CodePoints.ofChars (if n < 0 then '-' :: digits else digits))

/-- `str` of a key. -/
def Key.toStr : Key → Except PyError CodePoints
  | .none => .ok (CodePoints.ofString "None")
  | .bool b => .ok (CodePoints.ofString (if b then "True" else "False"))
  | .int n => strInt n
  | .float x => .ok (CodePoints.ofChars x.repr)
  | .str text => .ok text
  | .other result => result

/-- What an `encode` gives, or the error it raises. -/
def encoded (bytes : Option (List UInt8)) : Except PyError (List UInt8) :=
  match bytes with
  | none => .error .unicodeEncodeError
  | some bytes => .ok bytes

/-! ## The canonical form -/

/-- `_sort_key`. -/
def sortKey (key : CodePoints) : Except PyError (List UInt8) := encoded key.encodeUtf16Be

/-- The digits of a `\u` escape. -/
def hex4 (n : ℕ) : List Char :=
  let digits := Nat.toDigits 16 n
  List.replicate (4 - digits.length) '0' ++ digits

/-- The escape of one code point in `json.dumps(…, ensure_ascii=False)`. -/
def escape (c : CodePoint) : CodePoints :=
  match c with
  | .surrogate _ => [c]
  | .scalar '"' => CodePoints.ofString "\\\""
  | .scalar '\\' => CodePoints.ofString "\\\\"
  | .scalar '\n' => CodePoints.ofString "\\n"
  | .scalar '\r' => CodePoints.ofString "\\r"
  | .scalar '\t' => CodePoints.ofString "\\t"
  | .scalar '\x0c' => CodePoints.ofString "\\f"
  | .scalar '\x08' => CodePoints.ofString "\\b"
  | .scalar d => if d.toNat < 0x20 then CodePoints.ofChars ('\\' :: 'u' :: hex4 d.toNat) else [c]

/-- `_json_string`. -/
def jsonString (text : CodePoints) : CodePoints :=
  CodePoints.ofString "\"" ++ text.flatMap escape ++ CodePoints.ofString "\""

/-- What cannot be represented. -/
def null : CodePoints := CodePoints.ofString "null"

/-- `_canonical` on a scalar. -/
def canonicalScalar : Scalar → Except PyError CodePoints
  | .none => .ok null
  | .bool b => .ok (CodePoints.ofString (if b then "true" else "false"))
  | .str text => .ok (jsonString text)
  | .int n => strInt n
  | .float x => if x.isFinite then (formatNumber x).map CodePoints.ofChars else .ok null
  | .other => .ok null

variable {α : Type}

/-- The loop of `_named_pairs`, on what it has named so far. -/
def nameAll (named : List (CodePoints × α)) : List (Key × α) → Option (List (CodePoints × α))
  | [] => some named
  | (key, item) :: items =>
      match key.toStr with
      | .error _ => none
      | .ok name =>
          if name ∈ named.map Prod.fst then none else nameAll (named ++ [(name, item)]) items

/-- `sorted(named.items(), key=lambda pair: _sort_key(pair[0]))`: the keys of all pairs are
computed before anything is compared. -/
def sortPairs (pairs : List (CodePoints × α)) : Except PyError (List (CodePoints × α)) := do
  let keyed ← pairs.mapM fun pair => do
    let key ← sortKey pair.1
    pure (key, pair)
  pure ((keyed.insertionSort fun a b => a.1 ≤ b.1).map Prod.snd)

/-- `_named_pairs`. -/
def namedPairs (items : List (Key × α)) : Except PyError (Option (List (CodePoints × α))) :=
  match nameAll [] items with
  | none => .ok none
  | some named => (sortPairs named).map some

/-- The parts of a list or a dict, with commas between them. -/
def commaJoined (parts : List CodePoints) : CodePoints :=
  (CodePoints.ofString ",").intercalate parts

/-- The body of `_canonical_sequence`, from what `_canonical` does on the items. -/
def canonicalSequence (items : List (Except PyError CodePoints)) : Except PyError CodePoints := do
  let parts ← items.mapM id
  pure (CodePoints.ofString "[" ++ commaJoined parts ++ CodePoints.ofString "]")

/-- The members of an object, from what `_canonical` does on the values. -/
def canonicalMembers (pairs : List (CodePoints × Except PyError CodePoints)) :
    Except PyError CodePoints := do
  let parts ← pairs.mapM fun (name, item) => do
    let text ← item
    pure (jsonString name ++ CodePoints.ofString ":" ++ text)
  pure (CodePoints.ofString "\x7b" ++ commaJoined parts ++ CodePoints.ofString "\x7d")

/-- The body of `_canonical_mapping`, from what `_canonical` does on the values. -/
def canonicalMapping (items : List (Key × Except PyError CodePoints)) :
    Except PyError CodePoints := do
  match ← namedPairs items with
  | none => pure null
  | some pairs => canonicalMembers pairs

mutual
/-- `_canonical`. -/
def canonical (seen : List ℕ) : Value → Except PyError CodePoints
  | .scalar a => canonicalScalar a
  | .list id items =>
      if id ∈ seen then .ok null else canonicalSequence (canonicalItems (id :: seen) items)
  | .dict id entries =>
      if id ∈ seen then .ok null else canonicalMapping (canonicalEntries (id :: seen) entries)
/-- `_canonical` on the items of a list. -/
def canonicalItems (seen : List ℕ) : List Value → List (Except PyError CodePoints)
  | [] => []
  | item :: items => canonical seen item :: canonicalItems seen items
/-- `_canonical` on the values of a dict. -/
def canonicalEntries (seen : List ℕ) :
    List (Key × Value) → List (Key × Except PyError CodePoints)
  | [] => []
  | (key, item) :: entries => (key, canonical seen item) :: canonicalEntries seen entries
end

/-- `canonical_json`. -/
def canonicalJson (value : Value) : Except PyError CodePoints := canonical [] value

/-! ## Receipts and masks -/

/-- What is computed elsewhere: the digests in lower-case hex, and `str` of a value. -/
structure Env where
  sha256Hex : List UInt8 → String
  hmacSha256Hex : List UInt8 → List UInt8 → String
  str : Value → Except PyError CodePoints

/-- `RedactionReceipt`. -/
structure RedactionReceipt where
  receiptId : CodePoints
  timestamp : CodePoints
  serviceName : CodePoints
  fieldPath : CodePoints
  action : CodePoints
  originalHash : String
  hmac : String

/-- The keyword arguments of `sign_receipt`. No key is an empty one: the code asks whether there
is a nonempty one. -/
structure Identity where
  receiptId : CodePoints
  timestamp : CodePoints
  fieldPath : CodePoints
  action : CodePoints
  serviceName : CodePoints := CodePoints.ofString "unknown"
  key : List UInt8 := []

/-- `receipt_payload`. -/
def receiptPayload (receiptId timestamp fieldPath action originalHash : CodePoints) :
    CodePoints :=
  (CodePoints.ofString "|").intercalate [receiptId, timestamp, fieldPath, action, originalHash]

/-- The signature of `sign_receipt`, if there is a key. -/
def signature (E : Env) (args : Identity) (originalHash : String) : Except PyError String :=
  if args.key = [] then .ok ""
  else do
    let payload := receiptPayload args.receiptId args.timestamp args.fieldPath args.action
      (CodePoints.ofString originalHash)
    let payloadBytes ← encoded payload.encodeUtf8
    pure (E.hmacSha256Hex args.key payloadBytes)

/-- `sign_receipt`. -/
def signReceipt (E : Env) (value : Value) (args : Identity) :
    Except PyError RedactionReceipt := do
  let text ← canonicalJson value
  let canonical ← encoded text.encodeUtf8
  let originalHash := E.sha256Hex canonical
  let hmac ← signature E args originalHash
  pure
    { receiptId := args.receiptId
      timestamp := args.timestamp
      serviceName := args.serviceName
      fieldPath := args.fieldPath
      action := args.action
      originalHash
      hmac }

/-- The text that `_mask` hashes: a string as it is, anything else in its canonical form. -/
def hashedText : Value → Except PyError CodePoints
  | .scalar (.str text) => .ok text
  | value => canonicalJson value

/-- `_mask`. Nothing is what a dropped value leaves. -/
def mask (E : Env) (value : Value) (mode : MaskMode) (truncateTo : ℤ) :
    Except PyError (Option CodePoints) :=
  match mode with
  | .drop => .ok none
  | .redact => .ok (some (CodePoints.ofString "***"))
  | .hash => do
      let text ← hashedText value
      let bytes ← encoded text.encodeUtf8
      pure (some (CodePoints.ofChars ((E.sha256Hex bytes).toList.take 12)))
  | .truncate => do
      let text ← E.str value
      let limit := (max 0 truncateTo).toNat
      if text.length ≤ limit then pure (some text)
      else pure (some (text.take limit ++ CodePoints.ofString "..."))

end Telemetry.Receipts.Python
