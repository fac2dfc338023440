import Telemetry.Lib.Scripts
import Telemetry.Lib.Utf16
import Telemetry.Receipts.Integers
import Telemetry.Receipts.NumberLayout

/-!
# The canonical JSON of Go, C# and TypeScript

The other three SDKs write the same canonical form, each over its own strings: Go over octets, of
which `range` makes runes, C# and TypeScript over UTF-16. Go and C# print an integer as it is, and
TypeScript has doubles only. All three carry the lists and objects that they are inside of, and
write `null` for one that they meet again.

A value of Python has its counterparts in the other languages. Where it has, all texts are the text
of Python, recoded.

## Main definitions

* `pyScript` — the canonical form of Python as a script.
* `Go.canonicalJSON`, `CSharp.serialize`, `TypeScript.canonicalJson` — the ports.

## Main results

* `canonical_eq_write` — Python's canonical form is that script.
* `Go.translates`, `CSharp.translates`, `TypeScript.translates` — each port says what it says.
-/

namespace Telemetry.Receipts

open Telemetry.Lib
open Python (Shortest PyFloat digitChar twoDigits signed minus hex4)

/-! ## The script of Python -/

/-- The UTF-16 of a code point. -/
def unitsOf : CodePoint → List ℕ
  | .scalar c => CodePoints.utf16Units c
  | .surrogate offset => [0xd800 + offset]

/-- The canonical form of Python. -/
def pyScript : Script Python.Key Python.Scalar CodePoints where
  scalar a := (Python.canonicalScalar a).toOption.getD []
  list parts := CodePoints.ofString "[" ++ Python.commaJoined parts ++ CodePoints.ofString "]"
  member key text := Python.jsonString (keyText key) ++ CodePoints.ofString ":" ++ text
  dict parts := CodePoints.ofString "\x7b" ++ Python.commaJoined parts ++ CodePoints.ofString "\x7d"
  cut := Python.null
  rank key := (keyText key).flatMap unitsOf
  sparesEmpty := false

theorem flatMap_unitsOf_ofChars (cs : List Char) :
    (CodePoints.ofChars cs).flatMap unitsOf = cs.flatMap CodePoints.utf16Units := by
  rw [CodePoints.ofChars, List.flatMap_map]
  rfl

theorem nameLE_iff_rank {name name' : CodePoints} (h : name.WellFormed) (h' : name'.WellFormed) :
    Python.NameLE name name' ↔ pyScript.rank (.str name) ≤ pyScript.rank (.str name') := by
  obtain ⟨cs, rfl⟩ := h.exists_ofChars
  obtain ⟨ds, rfl⟩ := h'.exists_ofChars
  have hle := nameLE_iff (String.ofList cs) (String.ofList ds)
  simp only [CodePoints.ofString, Rust.encodeUtf16, String.toList_ofList] at hle
  rw [hle]
  simp only [pyScript, keyText, flatMap_unitsOf_ofChars]

theorem rank_injective {name name' : CodePoints} (h : name.WellFormed) (h' : name'.WellFormed)
    (hrank : pyScript.rank (.str name) = pyScript.rank (.str name')) : name = name' := by
  obtain ⟨cs, rfl⟩ := h.exists_ofChars
  obtain ⟨ds, rfl⟩ := h'.exists_ofChars
  simp only [pyScript, keyText, flatMap_unitsOf_ofChars] at hrank
  rw [CodePoints.utf16_injective hrank]

/-- Every scalar of the value has a text. -/
abbrev Written (v : Python.Value) : Prop := v.AllScalars fun a => Returns (Python.canonicalScalar a)

/-- **Python's canonical form is the script**, for a value with string keys whose scalars have
texts, shared or not, cyclic or not. -/
theorem canonical_eq_write {finite : PyFloat → Prop} {v : Python.Value}
    (h : Python.Plain finite v) (hwritten : Written v) (seen : List ℕ) :
    Python.canonical seen v = .ok (pyScript.write seen v) := by
  induction h generalizing seen with
  | scalar h =>
      obtain ⟨⟨text, htext⟩⟩ := hwritten
      simp only [Python.canonical, Script.write, pyScript, htext]
      rfl
  | @list ref items h ih =>
      obtain - | ⟨hwritten⟩ := hwritten
      by_cases hseen : ref ∈ seen
      · simp [Python.canonical, Script.write, Script.cuts, pyScript, hseen]
      · have hitems : items.map (Python.canonical (ref :: seen)) =
            (items.map (pyScript.write (ref :: seen))).map .ok := by
          rw [List.map_map]
          exact List.map_congr_left fun x hx => ih x hx (hwritten x hx) _
        rw [Script.write_list_of_notMem hseen, Python.canonical, if_neg hseen,
          Python.canonicalSequence, Python.canonicalItems_eq_map, hitems,
          mapM_eq_ok_iff.mpr (List.map_id _)]
        rfl
  | @dict ref named hnames hnodup h ih =>
      obtain - | - | ⟨hwritten⟩ := hwritten
      have hvalue : ∀ e ∈ named, Python.canonical (ref :: seen) e.2 =
          .ok (pyScript.write (ref :: seen) e.2) :=
        fun e he => ih e he (hwritten _ (List.mem_map_of_mem he)) _
      by_cases hseen : ref ∈ seen
      · simp [Python.canonical, Script.write, Script.cuts, pyScript, hseen]
      · obtain ⟨text, htext⟩ := Python.returns_canonical_dict hnodup hnames hseen
          fun e he => ⟨_, hvalue e he⟩
        obtain ⟨written, hperm, hsorted, htexts, rfl⟩ :=
          Python.written_of_dict hnodup hseen htext
        -- the members that Python writes are those of the script, and in its order
        let members := written.map fun m => (Python.Key.str m.1.1, m.2)
        have hmembers : members = (written.map Prod.fst).map fun e =>
            (Python.Key.str e.1, pyScript.write (ref :: seen) e.2) := by
          rw [List.map_map]
          refine List.map_congr_left fun m hm => ?_
          have hown := hvalue m.1 (hperm.mem_iff.mp (List.mem_map_of_mem hm))
          rw [htexts m hm, Except.ok.injEq] at hown
          rw [hown]
          rfl
        have hperm' : members.Perm ((Python.strKeys named).map fun e =>
            (e.1, pyScript.write (ref :: seen) e.2)) := by
          rw [hmembers, Python.strKeys, List.map_map (l := named)]
          exact hperm.map _
        have hwell : ∀ m ∈ written, m.1.1.WellFormed := fun m hm =>
          hnames m.1 (hperm.mem_iff.mp (List.mem_map_of_mem hm))
        have hpairwise : members.Pairwise fun e e' => pyScript.rank e.1 ≤ pyScript.rank e'.1 := by
          rw [List.pairwise_map]
          refine List.Pairwise.imp_of_mem (fun hm hm' hle => ?_) hsorted
          exact (nameLE_iff_rank (hwell _ hm) (hwell _ hm')).mp hle
        have hdistinct : (members.map Prod.fst).Nodup := by
          rw [(hperm'.map Prod.fst).nodup_iff, List.map_map]
          exact Python.nodup_keys_strKeys hnodup
        have hrank : ∀ e ∈ members, ∀ e' ∈ members, pyScript.rank e.1 = pyScript.rank e'.1 →
            e.1 = e'.1 := by
          intro e he e' he' heq
          obtain ⟨m, hm, rfl⟩ := List.mem_map.mp he
          obtain ⟨m', hm', rfl⟩ := List.mem_map.mp he'
          exact congrArg Python.Key.str (rank_injective (hwell m hm) (hwell m' hm') heq)
        have hsame := Script.sorted_eq_of_perm hperm' hdistinct hrank
        rw [htext, Script.write_dict_of_notMem hseen, Script.object, ← hsame, Script.sorted,
          hpairwise.insertionSort_eq, List.map_map]
        rfl

/-! ## Numbers and escapes -/

/-- `float64`, `double`, a number of ECMAScript. -/
abbrev Binary64 := PyFloat

/-- `JSON.stringify` of a number. -/
def numberText : PyFloat → List Char
  | .nan | .inf _ => "null".toList
  | .zero _ => "0".toList
  | .nonzero negative x => minus negative ++ numberToString (x.digits.map digitChar) x.point

/-- The letter of a two-character escape. -/
def shortEscape : ℕ → Option Char
  | 0x22 => '"'
  | 0x5c => '\\'
  | 0x08 => 'b'
  | 0x0c => 'f'
  | 0x0a => 'n'
  | 0x0d => 'r'
  | 0x09 => 't'
  | _ => none

/-- Parts between brackets, with commas between them, in an encoding. -/
def bracketed {γ : Type} (encode : List Char → List γ) (opening closing : Char)
    (parts : List (List γ)) : List γ :=
  encode [opening] ++ (encode [',']).intercalate parts ++ encode [closing]

/-! ## Go -/

namespace Go

/-- `[]rune(s)`, where an octet that starts no character is U+FFFD. -/
def runesUpTo : ℕ → List UInt8 → List Char
  | 0, _ => []
  | _ + 1, [] => []
  | n + 1, b :: bytes =>
      match Utf8.decodeChar? (b :: bytes) with
      | some c => c :: runesUpTo n ((b :: bytes).drop c.utf8Size)
      | none => Utf8.replacement :: runesUpTo n bytes

/-- The runes of a string; there are no more of them than octets. -/
def runes (s : List UInt8) : List Char := runesUpTo s.length s

/-- A value that hardening leaves and that is no slice and no map. -/
inductive Scalar
  | nil
  | bool (b : Bool)
  | string (s : List UInt8)
  | int64 (n : ℤ) (h : -2 ^ 63 ≤ n ∧ n < 2 ^ 63)
  | uint64 (n : ℕ) (h : n < 2 ^ 64)
  | float64 (f : Binary64)

/-- What hardening leaves. A slice or map has the identity that `_pathIdentity` reads. -/
abbrev Value := Tree (List UInt8) ℕ Scalar

/-- A character of `hexDigits`. -/
def hexDigit (n : ℕ) : Char := "0123456789abcdef".toList.getD n '0'

/-- What `appendCanonicalString` appends for a rune. -/
def appendRune (r : Char) : List UInt8 :=
  match shortEscape r.toNat with
  | some letter => Utf8.encode ['\\', letter]
  | none =>
      if r.toNat < 0x20 then
        Utf8.encode ("\\u00".toList ++ [hexDigit (r.toNat >>> 4), hexDigit (r.toNat &&& 0xf)])
      else String.utf8EncodeChar r

/-- `appendCanonicalString`. -/
def appendCanonicalString (s : List UInt8) : List UInt8 :=
  Utf8.encode ['"'] ++ (runes s).flatMap appendRune ++ Utf8.encode ['"']

/-- `strconv.FormatFloat(f, 'e', -1, 64)` of a positive double. -/
def formatFloat (x : Shortest) : List Char :=
  (Rust.lowerExp x).1 ++ 'e' :: signed (x.point - 1) twoDigits

/-- `strconv.Atoi`. -/
def atoi (s : List Char) : ℤ := Python.readInt s

/-- `canonicalNumber`. -/
def canonicalNumber (f : Binary64) : List Char :=
  match f with
  | .nan | .inf _ => "null".toList
  | .zero _ => "0".toList
  | .nonzero negative x =>
      let text := formatFloat x
      let mantissa := text.takeWhile (· ≠ 'e')
      let exp := atoi ((text.dropWhile (· ≠ 'e')).drop 1)
      let digits := mantissa.erase '.'
      minus negative ++ canonicalDigits digits (exp + 1)

/-- `appendCanonical` on a value that is no slice and no map. -/
def appendScalar : Scalar → List UInt8
  | .nil => Utf8.encode "null".toList
  | .bool b => Utf8.encode (if b then "true" else "false").toList
  | .string s => appendCanonicalString s
  | .int64 n _ => Utf8.encode (itoa n)
  | .uint64 n _ => Utf8.encode (itoa n)
  | .float64 f => Utf8.encode (canonicalNumber f)

/-- `appendCanonicalObject` and `appendCanonicalArray`: the keys are ordered by `compareUTF16`, and
an empty composite is not tracked on the path. -/
def script : Script (List UInt8) Scalar (List UInt8) where
  scalar := appendScalar
  list := bracketed Utf8.encode '[' ']'
  member key text := appendCanonicalString key ++ Utf8.encode [':'] ++ text
  dict := bracketed Utf8.encode '\x7b' '\x7d'
  cut := Utf8.encode "null".toList
  rank key := (runes key).flatMap CodePoints.utf16Units
  sparesEmpty := true

/-- What `appendCanonical` appends. -/
def appendCanonical (path : List ℕ) (value : Value) : List UInt8 := script.write path value

/-- `CanonicalJSON`. -/
def canonicalJSON (value : Value) : List UInt8 := appendCanonical [] value

end Go

/-! ## Strings of UTF-16 -/

/-- Text in UTF-16. -/
def utf16 (cs : List Char) : List UInt16 := (cs.flatMap CodePoints.utf16Units).map Nat.toUInt16

/-- The code point of a unit that is half of no pair. -/
def codePointOfUnit (u : UInt16) : CodePoint :=
  if Surrogates.isPlain u then .scalar (Char.ofNat u.toNat)
  else .surrogate (Fin.ofNat 2048 (u.toNat - 0xd800))

/-- The code points of a string of UTF-16. -/
def codePoints : List UInt16 → CodePoints
  | u :: v :: s =>
      if Surrogates.isHigh u && Surrogates.isLow v then
        .scalar (Char.ofNat (0x10000 + (u.toNat - 0xd800) * 1024 + (v.toNat - 0xdc00))) ::
          codePoints s
      else codePointOfUnit u :: codePoints (v :: s)
  | [u] => [codePointOfUnit u]
  | [] => []

/-! ## C# -/

namespace CSharp

/-- What `WriteString` appends for a `char`. -/
def writeChar (c : UInt16) : List UInt16 :=
  match shortEscape c.toNat with
  | some letter => utf16 ['\\', letter]
  | none => if c.toNat < 0x20 then utf16 ('\\' :: 'u' :: hex4 c.toNat) else [c]

/-- `WriteString`. -/
def writeString (value : List UInt16) : List UInt16 :=
  utf16 ['"'] ++ value.flatMap writeChar ++ utf16 ['"']

/-- `value.ToString("R")` of a positive double. -/
def toStringR (x : Shortest) : List Char :=
  let digits := x.digits.map digitChar
  if x.point < -3 ∨ 15 < x.point then
    (Rust.lowerExp x).1 ++ 'E' :: signed (x.point - 1) twoDigits
  else if x.point ≤ 0 then '0' :: '.' :: List.replicate (-x.point).toNat '0' ++ digits
  else if digits.length ≤ x.point then
    digits ++ List.replicate (x.point - digits.length).toNat '0'
  else digits.take x.point.toNat ++ '.' :: digits.drop x.point.toNat

/-- `ParseSignificand`. -/
def parseSignificand (round : List Char) : List Char × ℤ :=
  let mantissa := round.takeWhile (· ≠ 'E')
  let exponent10 := if 'E' ∈ round then Python.readInt ((round.dropWhile (· ≠ 'E')).drop 1) else 0
  let digits := mantissa.erase '.'
  let n : ℤ := (mantissa.takeWhile (· ≠ '.')).length + exponent10
  let start := (digits.takeWhile (· = '0')).length
  ((digits.drop start).rdropWhile (· = '0'), n - start)

/-- `FormatDouble`, if it does not throw. -/
def formatDouble (negative : Bool) (x : Shortest) : Option (List Char) :=
  let significand := parseSignificand (toStringR x)
  (formatSignificand significand.1 significand.2).map (minus negative ++ ·)

/-- `TryFormatNumber` of a `double`. -/
def formatNumber (d : Binary64) : Option (List Char) :=
  match d with
  | .nan | .inf _ => some "null".toList
  | .zero _ => some "0".toList
  | .nonzero negative x => formatDouble negative x

/-- A value that is no dictionary and no sequence. -/
inductive Scalar
  | null
  | bool (b : Bool)
  | string (s : List UInt16)
  | int64 (n : ℤ) (h : -2 ^ 63 ≤ n ∧ n < 2 ^ 63)
  | uint64 (n : ℕ) (h : n < 2 ^ 64)
  | double (d : Binary64)
  /-- A value that JSON has no encoding for. -/
  | other

/-- What is serialized. A dictionary or sequence has a reference. -/
abbrev Value := Tree (List UInt16) ℕ Scalar

/-- `Write` on a value that is no dictionary and no sequence. -/
def writeScalar : Scalar → List UInt16
  | .null | .other => utf16 "null".toList
  | .bool b => utf16 (if b then "true" else "false").toList
  | .string s => writeString s
  | .int64 n _ => utf16 (Go.itoa n)
  | .uint64 n _ => utf16 (Go.itoa n)
  | .double d => utf16 ((formatNumber d).getD [])

/-- `WriteObject` and `WriteArray`; `StringComparer.Ordinal` compares units. -/
def script : Script (List UInt16) Scalar (List UInt16) where
  scalar := writeScalar
  list := bracketed utf16 '[' ']'
  member key text := writeString key ++ utf16 [':'] ++ text
  dict := bracketed utf16 '\x7b' '\x7d'
  cut := utf16 "null".toList
  rank key := key.map UInt16.toNat
  sparesEmpty := false

/-- `Serialize`. -/
def serialize (value : Value) : List UInt16 := script.write [] value

end CSharp

/-! ## TypeScript -/

namespace TypeScript

/-- What `JSON.stringify` writes for a code point of a string: a surrogate alone is escaped. -/
def quoteCodePoint : CodePoint → List UInt16
  | .surrogate offset => utf16 ('\\' :: 'u' :: hex4 (0xd800 + offset))
  | .scalar c =>
      match shortEscape c.toNat with
      | some letter => utf16 ['\\', letter]
      | none => if c.toNat < 0x20 then utf16 ('\\' :: 'u' :: hex4 c.toNat) else utf16 [c]

/-- `JSON.stringify` of a string. -/
def stringify (s : List UInt16) : List UInt16 :=
  utf16 ['"'] ++ (codePoints s).flatMap quoteCodePoint ++ utf16 ['"']

/-- A value that is no array and no other object. -/
inductive Scalar
  | null
  | undefined
  | boolean (b : Bool)
  | number (x : Binary64)
  | string (s : List UInt16)
  /-- A `bigint`, a `symbol` or a function. -/
  | unencodable

/-- What is canonicalized. An array or other object has an identity. -/
abbrev Value := Tree (List UInt16) ℕ Scalar

/-- `_canonical` on a value that is no array and no other object. -/
def canonicalScalar : Scalar → List UInt16
  | .null | .undefined | .unencodable => utf16 "null".toList
  | .boolean b => utf16 (if b then "true" else "false").toList
  | .number x => utf16 (numberText x)
  | .string s => stringify s

/-- `_canonical` on an array or other object; `sort` compares units. -/
def script : Script (List UInt16) Scalar (List UInt16) where
  scalar := canonicalScalar
  list := bracketed utf16 '[' ']'
  member key text := stringify key ++ utf16 [':'] ++ text
  dict := bracketed utf16 '\x7b' '\x7d'
  cut := utf16 "null".toList
  rank key := key.map UInt16.toNat
  sparesEmpty := false

/-- `_canonical`. -/
def canonical (path : List ℕ) (value : Value) : List UInt16 := script.write path value

/-- `canonicalJson`. -/
def canonicalJson (value : Value) : List UInt16 := canonical [] value

end TypeScript

/-! ## The numbers -/

theorem canonicalScalar_float (x : PyFloat) :
    Python.canonicalScalar (.float x) = .ok (CodePoints.ofChars (numberText x)) := by
  cases x with
  | nonzero negative x =>
      have hfinite : (PyFloat.nonzero negative x).isFinite = true := rfl
      rw [Python.canonicalScalar, if_pos hfinite, Python.formatNumber_nonzero,
        formatSignificand_python_eq (by simpa using x.ne_nil) x.printed]
      rfl
  | _ => rfl

theorem readInt_signed_twoDigits (n : ℤ) : Python.readInt (signed n twoDigits) = n := by
  have hread : ∀ n, Nat.ofDigitChars 10 (twoDigits n) 0 = n := by
    intro n
    rw [twoDigits]
    split
    · rw [Nat.ofDigitChars_cons]
      exact Nat.ofDigitChars_ten_toDigits
    · exact Nat.ofDigitChars_ten_toDigits
  rw [signed]
  split <;> rw [Python.readInt, hread] <;> omega

/-- The mantissa of a scientific form: it has no letter, one digit in front of the point, and the
digits. -/
theorem mantissa_spec (x : Shortest) {c : Char} (hc : c.isDigit = false) (hpoint : c ≠ '.') :
    c ∉ (Rust.lowerExp x).1 ∧ ((Rust.lowerExp x).1.takeWhile (· ≠ '.')).length = 1 ∧
      (Rust.lowerExp x).1.erase '.' = x.digits.map digitChar := by
  have hdigits : ∀ digits : List Python.Digit,
      c ∉ digits.map digitChar ∧ '.' ∉ digits.map digitChar := fun digits =>
    ⟨Python.not_mem_of_isDigit hc Python.isDigit_of_mem_map,
      Python.not_mem_of_isDigit rfl Python.isDigit_of_mem_map⟩
  have hne : ∀ d : Python.Digit, digitChar d ≠ '.' := by decide
  rw [Rust.lowerExp]
  split
  · rename_i d d' rest heq
    have hd := (hdigits [d]).1
    have hrest := (hdigits (d' :: rest)).1
    refine ⟨by simp_all, by simp [hne d], ?_⟩
    rw [List.erase_cons_tail (by simpa using hne d), List.erase_cons_head, heq]
    rfl
  · rename_i hshort
    refine ⟨(hdigits x.digits).1, ?_, List.erase_of_not_mem (hdigits x.digits).2⟩
    obtain ⟨d, others, hx⟩ := List.exists_cons_of_ne_nil x.ne_nil
    cases others with
    | nil => simp [hx, hne d]
    | cons d' rest => exact absurd hx (hshort d d' rest)

theorem Go.canonicalNumber_eq (f : Binary64) : Go.canonicalNumber f = numberText f := by
  cases f with
  | nonzero negative x =>
      obtain ⟨hnot, -, herase⟩ := mantissa_spec x (c := 'e') rfl (by decide)
      obtain ⟨htake, hdrop⟩ := Python.takeWhile_dropWhile_of_not_mem hnot
        (signed (x.point - 1) twoDigits)
      obtain ⟨hlow, hhigh⟩ := x.inRange
      simp only [Go.canonicalNumber, Go.formatFloat, htake, hdrop, herase, Go.atoi,
        readInt_signed_twoDigits, Int.sub_add_cancel, numberText]
      rw [canonicalDigits_eq (by omega) (by omega)]
  | _ => rfl


/-- The digits without the zeros around them. -/
theorem trim_zeros (x : Shortest) (k j : ℕ) :
    let digits := List.replicate k '0' ++ x.digits.map digitChar ++ List.replicate j '0'
    (digits.takeWhile (· = '0')).length = k ∧
      (digits.drop k).rdropWhile (· = '0') = x.digits.map digitChar := by
  have hzero : ∀ {d : Python.Digit}, d ≠ 0 → digitChar d ≠ '0' := by decide
  constructor
  · rw [List.append_assoc, List.takeWhile_append_of_pos (by simp)]
    obtain ⟨d, rest, hdigits⟩ := List.exists_cons_of_ne_nil x.ne_nil
    have hd : d ≠ 0 := by
      have hhead := x.head_ne
      simp only [hdigits, List.head_cons] at hhead
      exact hhead
    rw [hdigits, List.map_cons, List.cons_append,
      List.takeWhile_cons_of_neg (by simpa using hzero hd), List.append_nil, List.length_replicate]
  · have hdrop : (List.replicate k '0' ++ (x.digits.map digitChar ++ List.replicate j '0')).drop k =
        x.digits.map digitChar ++ List.replicate j '0' := List.drop_left' List.length_replicate
    rw [List.append_assoc, hdrop]
    induction j with
    | zero =>
        rw [List.replicate_zero, List.append_nil, List.rdropWhile_eq_self_iff]
        intro hne
        rw [List.getLast_map, decide_eq_true_eq]
        exact hzero x.getLast_ne
    | succ j ih =>
        rw [List.replicate_succ', ← List.append_assoc,
          List.rdropWhile_concat_pos _ _ _ (by simp), ih]
        exact List.drop_left' List.length_replicate

/-- What C# reads of a text without an exponent. -/
theorem CSharp.parseSignificand_plain {x : Shortest} {text : List Char} {k j : ℕ}
    (hletter : 'E' ∉ text) (hdigits : text.erase '.' =
      List.replicate k '0' ++ x.digits.map digitChar ++ List.replicate j '0')
    (hpoint : ((text.takeWhile (· ≠ '.')).length : ℤ) = x.point + k) :
    CSharp.parseSignificand text = (x.digits.map digitChar, x.point) := by
  obtain ⟨hstart, hend⟩ := trim_zeros x k j
  obtain ⟨htake, -⟩ := Python.takeWhile_dropWhile_of_absent hletter
  simp only [CSharp.parseSignificand, htake, hdigits, hstart, hend, hpoint, if_neg hletter]
  congr 1
  omega

/-- **What C# reads of its own text** is what the text was written from. -/
theorem CSharp.parseSignificand_toStringR (x : Shortest) :
    CSharp.parseSignificand (CSharp.toStringR x) = (x.digits.map digitChar, x.point) := by
  have hfree : ∀ {c : Char}, c.isDigit = false → ∀ k j : ℕ,
      c ∉ List.replicate k '0' ++ x.digits.map digitChar ++ List.replicate j '0' := fun hc k j =>
    Python.not_mem_of_isDigit hc (Python.isDigit_of_mem_append
      (Python.isDigit_of_mem_append Python.isDigit_of_mem_zeros Python.isDigit_of_mem_map)
      Python.isDigit_of_mem_zeros)
  rw [CSharp.toStringR]
  split
  · -- a scientific text
    obtain ⟨hnot, hwhole, herase⟩ := mantissa_spec x (c := 'E') rfl (by decide)
    obtain ⟨htake, hdrop⟩ := Python.takeWhile_dropWhile_of_not_mem hnot
      (signed (x.point - 1) twoDigits)
    obtain ⟨hstart, hend⟩ := trim_zeros x 0 0
    simp only [List.replicate_zero, List.nil_append, List.append_nil] at hstart hend
    simp only [CSharp.parseSignificand, htake, hdrop, herase, hwhole, hstart, hend,
      readInt_signed_twoDigits, if_pos (List.mem_append_right _ (List.mem_cons_self ..))]
    congr 1
    omega
  · split
    · -- zeros behind the point
      rename_i hpoint
      have hnot := hfree (c := 'E') rfl ((-x.point).toNat + 1) 0
      refine parseSignificand_plain (k := (-x.point).toNat + 1) (j := 0) ?_ ?_ ?_
      · simpa [List.replicate_succ] using hnot
      · simp [List.erase_cons_tail, List.replicate_succ]
      · simp
        omega
    · split
      · -- zeros in front of the point
        rename_i hpos hlength
        have hnot := fun {c : Char} hc =>
          hfree (c := c) hc 0 (x.point - (x.digits.map digitChar).length).toNat
        simp only [List.replicate_zero, List.nil_append] at hnot
        refine parseSignificand_plain (k := 0) (hnot rfl)
          (by rw [List.erase_of_not_mem (hnot rfl)]; rfl) ?_
        rw [(Python.takeWhile_dropWhile_of_absent (hnot rfl)).1, List.length_append,
          List.length_replicate]
        push_cast
        omega
      · -- a point among the digits
        rename_i hpos hlength
        have hnot := fun {c : Char} hc => hfree (c := c) hc 0 0
        simp only [List.replicate_zero, List.nil_append, List.append_nil] at hnot
        have hpoint : '.' ∉ (x.digits.map digitChar).take x.point.toNat := fun hmem =>
          hnot rfl (List.mem_of_mem_take hmem)
        refine parseSignificand_plain (k := 0) (j := 0) ?_ ?_ ?_
        · rw [List.mem_append, List.mem_cons, not_or, not_or]
          exact ⟨fun hmem => hnot rfl (List.mem_of_mem_take hmem), by decide,
            fun hmem => hnot rfl (List.mem_of_mem_drop hmem)⟩
        · rw [List.erase_append_right _ hpoint, List.erase_cons_head, List.take_append_drop]
          simp
        · rw [(Python.takeWhile_dropWhile_of_not_mem hpoint _).1, List.length_take]
          omega

theorem CSharp.formatNumber_eq (d : Binary64) : CSharp.formatNumber d = some (numberText d) := by
  cases d with
  | nonzero negative x =>
      obtain ⟨hlow, hhigh⟩ := x.inRange
      have hne : x.digits.map digitChar ≠ [] := by simpa using x.ne_nil
      simp only [CSharp.formatNumber, CSharp.formatDouble, CSharp.parseSignificand_toStringR]
      rw [formatSignificand_csharp_eq hne (by omega) (by omega)]
      rfl
  | _ => rfl

/-! ## Recoding -/

/-- What is written for a character of a string. -/
def escapeText (c : Char) : List Char :=
  match shortEscape c.toNat with
  | some letter => ['\\', letter]
  | none => if c.toNat < 0x20 then '\\' :: 'u' :: hex4 c.toNat else [c]

theorem escape_eq_escapeText (c : Char) :
    Python.escape (.scalar c) = CodePoints.ofChars (escapeText c) := by
  have hne : ∀ {d : Char}, (c = d → False) → c.toNat ≠ d.toNat := fun hcd heq =>
    hcd (Char.toNat_inj.mp heq)
  rw [escape_eq, Rust.writeChar.eq_def]
  split
  any_goals rfl
  rename_i h₁ h₂ h₃ h₄ h₅ h₆ h₇
  have hnone : shortEscape c.toNat = none := by
    rw [shortEscape.eq_def]
    split
    case h_1 heq => exact absurd heq (hne h₁)
    case h_2 heq => exact absurd heq (hne h₂)
    case h_3 heq => exact absurd heq (hne h₃)
    case h_4 heq => exact absurd heq (hne h₄)
    case h_5 heq => exact absurd heq (hne h₅)
    case h_6 heq => exact absurd heq (hne h₆)
    case h_7 heq => exact absurd heq (hne h₇)
    case h_8 => rfl
  have hlt : c < '\x20' ↔ c.toNat < 0x20 := by
    rw [Char.lt_def, UInt32.lt_iff_toNat_lt]
    rfl
  simp only [escapeText, hnone, hlt]

/-- A way to recode texts of code points, which encodes characters. -/
structure Recodes {γ : Type} (encode : List Char → List γ) (recode : CodePoint → List γ) :
    Prop where
  append : ∀ s t, encode (s ++ t) = encode s ++ encode t
  scalar : ∀ c, recode (.scalar c) = encode [c]

section

variable {γ : Type} {encode : List Char → List γ} {recode : CodePoint → List γ}

theorem Recodes.ofChars (h : Recodes encode recode) (cs : List Char) :
    (CodePoints.ofChars cs).flatMap recode = encode cs := by
  have hnil : encode [] = [] := by
    have hlength := congrArg List.length (h.append [] [])
    rw [List.append_nil, List.length_append] at hlength
    exact List.length_eq_zero_iff.mp (by omega)
  induction cs with
  | nil => exact hnil.symm
  | cons c cs ih =>
      have hcons := h.append [c] cs
      rw [List.singleton_append] at hcons
      rw [hcons, ← h.scalar, ← ih]
      rfl

theorem Recodes.ofString (h : Recodes encode recode) (s : String) :
    (CodePoints.ofString s).flatMap recode = encode s.toList := h.ofChars s.toList

theorem flatMap_intercalate {α β : Type} (f : α → List β) (sep : List α) (parts : List (List α)) :
    (sep.intercalate parts).flatMap f =
      (sep.flatMap f).intercalate (parts.map fun part => part.flatMap f) := by
  induction parts with
  | nil => rfl
  | cons part parts ih =>
      cases parts with
      | nil => simp [List.intercalate]
      | cons part' parts =>
          rw [List.map_cons, List.map_cons, List.intercalate_cons_cons, List.flatMap_append,
            List.flatMap_append, ih, List.map_cons, List.intercalate_cons_cons]

theorem Recodes.bracketed (h : Recodes encode recode) (opening closing : Char)
    (parts : List CodePoints) :
    bracketed encode opening closing (parts.map fun part => part.flatMap recode) =
      (CodePoints.ofChars [opening] ++ Python.commaJoined parts ++
        CodePoints.ofChars [closing]).flatMap recode := by
  have hcomma : (CodePoints.ofString ",").flatMap recode = encode [','] := h.ofString ","
  rw [Receipts.bracketed, List.flatMap_append, List.flatMap_append, h.ofChars, h.ofChars,
    Python.commaJoined, flatMap_intercalate, hcomma]

/-- A string in an encoding, if what is written for its characters is what Python writes. -/
theorem Recodes.jsonString (h : Recodes encode recode) (text : CodePoints) :
    (Python.jsonString text).flatMap recode =
      encode ['"'] ++ text.flatMap (fun c => (Python.escape c).flatMap recode) ++ encode ['"'] := by
  have hquote : (CodePoints.ofString "\"").flatMap recode = encode ['"'] := h.ofString "\""
  rw [Python.jsonString, List.flatMap_append, List.flatMap_append, hquote, List.flatMap_assoc]

theorem Recodes.escape (h : Recodes encode recode) (c : Char) :
    (Python.escape (.scalar c)).flatMap recode = encode (escapeText c) := by
  rw [escape_eq_escapeText, h.ofChars]

/-- **A script that brackets and separates as Python does**, in an encoding of its own, says what
Python's says if its scalars, its keys and their order do. -/
theorem Recodes.translates (h : Recodes encode recode) {κ α : Type} {S : Script κ α (List γ)}
    {f : κ → Python.Key} {R : Python.Scalar → α → Prop} {quote : κ → List γ}
    (hscalar : ∀ {a b}, R a b → S.scalar b = (pyScript.scalar a).flatMap recode)
    (hlist : S.list = Receipts.bracketed encode '[' ']')
    (hmember : S.member = fun key text => quote key ++ encode [':'] ++ text)
    (hquote : ∀ key, quote key = (Python.jsonString (keyText (f key))).flatMap recode)
    (hdict : S.dict = Receipts.bracketed encode '\x7b' '\x7d')
    (hrank : ∀ key, S.rank key = pyScript.rank (f key))
    (hinj : ∀ k k', pyScript.rank (f k) = pyScript.rank (f k') → f k = f k') :
    Script.Translates pyScript S f R fun text => text.flatMap recode where
  scalar := hscalar
  list parts := by
    rw [hlist]
    exact h.bracketed '[' ']' parts
  member key text := by
    have hcolon : (CodePoints.ofString ":").flatMap recode = encode [':'] := h.ofString ":"
    simp only [hmember, hquote, pyScript, List.flatMap_append, hcolon]
  dict parts := by
    rw [hdict]
    exact h.bracketed '\x7b' '\x7d' parts
  rank_le k k' := by rw [hrank, hrank]
  rank_injective := hinj

end

/-! ## The ports translate -/

theorem pyScript_float (x : PyFloat) :
    pyScript.scalar (.float x) = CodePoints.ofChars (numberText x) := by
  simp only [pyScript, canonicalScalar_float]
  rfl

theorem pyScript_int {n : ℤ} (h : n.natAbs < 2 ^ 64) :
    pyScript.scalar (.int n) = CodePoints.ofChars (Go.itoa n) := by
  simp only [pyScript, Python.canonicalScalar, strInt_of_natAbs_lt (h.trans (by decide)), Go.itoa,
    Python.minus, decide_eq_true_eq]
  split <;> rfl

/-! ### Go -/

namespace Go

/-- The octets of a code point. -/
def octetsOf : CodePoint → List UInt8
  | .scalar c => String.utf8EncodeChar c
  | .surrogate _ => []

theorem recodes : Recodes Utf8.encode octetsOf where
  append _ _ := List.flatMap_append
  scalar _ := (List.flatMap_singleton ..).symm

/-- **What was encoded has its characters as runes.** -/
theorem runes_encode (cs : List Char) : runes (Utf8.encode cs) = cs := by
  have hupTo : ∀ (cs : List Char) (n : ℕ), cs.length ≤ n → runesUpTo n (Utf8.encode cs) = cs := by
    intro cs
    induction cs with
    | nil => intro n _; cases n <;> rfl
    | cons c cs ih =>
        intro n hn
        rw [List.length_cons] at hn
        obtain ⟨m, rfl⟩ : ∃ m, n = m + 1 := ⟨n - 1, by omega⟩
        have hne : String.utf8EncodeChar c ++ Utf8.encode cs ≠ [] := by
          simp [String.utf8EncodeChar_ne_nil]
        obtain ⟨b, bytes, hbytes⟩ := List.exists_cons_of_ne_nil hne
        have hchar := Utf8.decodeChar?_append c (Utf8.encode cs)
        have hdrop : (b :: bytes).drop c.utf8Size = Utf8.encode cs := by
          rw [← hbytes, ← String.length_utf8EncodeChar c, List.drop_left]
        rw [Utf8.encode_cons, hbytes, runesUpTo, ← hbytes, hchar]
        simp only [hbytes, hdrop]
        rw [ih m (by omega)]
  exact hupTo cs _ (Utf8.length_le_encode cs)

/-- The string of Python with the runes of a string. -/
def text (s : List UInt8) : CodePoints := CodePoints.ofChars (runes s)

/-- The key of Python that is the key of a map. -/
def keyOf (key : List UInt8) : Python.Key := .str (text key)

/-- The scalars of Python and those of Go. -/
def Represents : Python.Scalar → Scalar → Prop
  | .none, .nil => True
  | .bool b, .bool b' => b = b'
  | .int n, .int64 m _ => n = m
  | .int n, .uint64 m _ => n = m
  | .float x, .float64 f => x = f
  | .str t, .string s => t = text s
  | _, _ => False

theorem appendRune_eq (r : Char) : appendRune r = Utf8.encode (escapeText r) := by
  have hhex : ∀ n : Fin 32, '\\' :: 'u' :: hex4 n =
      "\\u00".toList ++ [hexDigit (n.1 >>> 4), hexDigit (n.1 &&& 0xf)] := by decide
  rw [appendRune, escapeText]
  split
  · rfl
  · split
    · rename_i hlow
      rw [hhex ⟨r.toNat, hlow⟩]
    · exact (List.flatMap_singleton ..).symm

theorem appendCanonicalString_eq (s : List UInt8) :
    appendCanonicalString s = (Python.jsonString (text s)).flatMap octetsOf := by
  have hruns : (text s).flatMap (fun c => (Python.escape c).flatMap octetsOf) =
      (runes s).flatMap appendRune := by
    rw [text, CodePoints.ofChars, List.flatMap_map]
    refine List.flatMap_congr fun r _ => ?_
    rw [appendRune_eq, recodes.escape]
  rw [recodes.jsonString, hruns, appendCanonicalString]

/-- **Go says what Python says**, with every integer in full. -/
theorem translates :
    Script.Translates pyScript script keyOf Represents fun t => t.flatMap octetsOf := by
  refine recodes.translates ?_ rfl rfl appendCanonicalString_eq rfl ?_ ?_
  · intro a b h
    cases a <;> cases b <;> first | exact h.elim | skip
    case none.nil => exact (recodes.ofString "null").symm
    case bool.bool b b' =>
        cases h
        exact (recodes.ofString _).symm
    case int.int64 n m hm =>
        cases h
        rw [pyScript_int (by omega), recodes.ofChars]
        rfl
    case int.uint64 n m hm =>
        cases h
        rw [pyScript_int (by omega), recodes.ofChars]
        rfl
    case float.float64 x f =>
        cases h
        rw [pyScript_float, recodes.ofChars, ← canonicalNumber_eq]
        rfl
    case str.string t s =>
        cases h
        exact appendCanonicalString_eq s
  · intro key
    exact (flatMap_unitsOf_ofChars _).symm
  · intro k k' hrank
    have hrunes := CodePoints.utf16_injective
      ((flatMap_unitsOf_ofChars _).symm.trans (hrank.trans (flatMap_unitsOf_ofChars _)))
    rw [keyOf, keyOf, text, text, hrunes]

end Go

/-! ### UTF-16 -/

theorem utf16_append (cs ds : List Char) : utf16 (cs ++ ds) = utf16 cs ++ utf16 ds := by
  rw [utf16, utf16, utf16, List.flatMap_append, List.map_append]

/-- The UTF-16 of a code point, a surrogate alone being itself. -/
def toUnits (c : CodePoint) : List UInt16 := (unitsOf c).map Nat.toUInt16

theorem recodes_toUnits : Recodes utf16 toUnits where
  append := utf16_append
  scalar _ := by rw [utf16, List.flatMap_singleton]; rfl

theorem unitsOf_codePointOfUnit (u : UInt16) : unitsOf (codePointOfUnit u) = [u.toNat] := by
  have hlt := u.toNat_lt
  rw [codePointOfUnit]
  split
  · rename_i hplain
    obtain ⟨c, hc⟩ := Surrogates.exists_char_of_plain hplain
    have hsmall : c.toNat = u.toNat := by
      rw [CodePoints.utf16Units] at hc
      split at hc <;> simp at hc
      exact hc
    rw [← hsmall, Char.ofNat_toNat, unitsOf, hc, hsmall]
  · rename_i hnot
    simp only [Surrogates.isPlain, Surrogates.isHigh, Surrogates.isLow, Bool.and_eq_true,
      Bool.not_eq_true', Bool.and_eq_false_iff, decide_eq_false_iff_not] at hnot
    simp only [unitsOf, Fin.val_ofNat, List.cons.injEq, and_true]
    omega

/-- **The code points of a string have its units.** -/
theorem unitsOf_codePoints (s : List UInt16) :
    (codePoints s).flatMap unitsOf = s.map UInt16.toNat := by
  induction s using codePoints.induct with
  | case1 u v s hpair ih =>
      rw [codePoints, if_pos hpair, List.flatMap_cons, ih]
      rw [Bool.and_eq_true] at hpair
      obtain ⟨c, hc⟩ := Surrogates.exists_char_of_pair hpair.1 hpair.2
      have hchar : c.toNat = 0x10000 + (u.toNat - 0xd800) * 1024 + (v.toNat - 0xdc00) := by
        have hc' := hc
        rw [CodePoints.utf16Units] at hc'
        split at hc'
        · simp at hc'
        · simp only [List.cons.injEq, and_true] at hc'
          omega
      rw [← hchar, Char.ofNat_toNat, unitsOf, hc]
      rfl
  | case2 u v s hpair ih =>
      rw [codePoints, if_neg hpair, List.flatMap_cons, ih, unitsOf_codePointOfUnit]
      rfl
  | case3 u => rw [codePoints, List.flatMap_singleton, unitsOf_codePointOfUnit]; rfl
  | case4 => rfl

theorem toUnits_codePoints (s : List UInt16) : (codePoints s).flatMap toUnits = s := by
  have hunits := congrArg (List.map Nat.toUInt16) (unitsOf_codePoints s)
  rw [List.map_flatMap, List.map_map] at hunits
  refine hunits.trans ((List.map_congr_left fun u _ => ?_).trans (List.map_id s))
  exact UInt16.ofNat_toNat

/-- The key of Python that is the key of an object. -/
def keyOfUnits (key : List UInt16) : Python.Key := .str (codePoints key)

theorem rank_keyOfUnits (key : List UInt16) :
    pyScript.rank (keyOfUnits key) = key.map UInt16.toNat := unitsOf_codePoints key

theorem keyOfUnits_eq_of_rank {k k' : List UInt16}
    (h : pyScript.rank (keyOfUnits k) = pyScript.rank (keyOfUnits k')) :
    keyOfUnits k = keyOfUnits k' := by
  rw [rank_keyOfUnits, rank_keyOfUnits] at h
  rw [List.map_injective_iff.mpr (fun _ _ => UInt16.toNat_inj.mp) h]

/-! ### C# -/

namespace CSharp

/-- The scalars of Python and those of C#. -/
def Represents : Python.Scalar → Scalar → Prop
  | .none, .null => True
  | .bool b, .bool b' => b = b'
  | .int n, .int64 m _ => n = m
  | .int n, .uint64 m _ => n = m
  | .float x, .double d => x = d
  | .str t, .string s => t = codePoints s
  | .other, .other => True
  | _, _ => False

/-- What is no control character and no quote is written as it is. -/
theorem writeChar_of_le {u : UInt16} (h : 0x80 ≤ u.toNat) : writeChar u = [u] := by
  have hnone : shortEscape u.toNat = none := by
    rw [shortEscape.eq_def]
    split
    case h_8 => rfl
    all_goals omega
  have hhigh : ¬ u.toNat < 0x20 := by omega
  simp only [writeChar, hnone, if_neg hhigh]

/-- A code point is written unit by unit. -/
theorem flatMap_writeChar (c : CodePoint) :
    (toUnits c).flatMap writeChar = (Python.escape c).flatMap toUnits := by
  have hhigh : ∀ us : List UInt16, (∀ u ∈ us, 0x80 ≤ u.toNat) → us.flatMap writeChar = us := by
    intro us hus
    induction us with
    | nil => rfl
    | cons u us ih =>
        rw [List.forall_mem_cons] at hus
        rw [List.flatMap_cons, writeChar_of_le hus.1, ih hus.2, List.singleton_append]
  cases c with
  | surrogate offset =>
      have hunits : Python.escape (.surrogate offset) = [.surrogate offset] := rfl
      rw [hunits, List.flatMap_singleton]
      refine hhigh _ fun u hu => ?_
      simp only [toUnits, unitsOf, List.map_cons, List.map_nil, List.mem_singleton] at hu
      subst hu
      have := offset.isLt
      simp
      omega
  | scalar c =>
      rw [recodes_toUnits.escape]
      have hself : utf16 [c] = toUnits (.scalar c) := (recodes_toUnits.scalar c).symm
      have hvalid := CodePoints.toNat_char c
      by_cases hbmp : c.toNat < 0x10000
      · have hunits : toUnits (.scalar c) = [c.toNat.toUInt16] := by
          rw [toUnits, unitsOf, CodePoints.utf16Units, if_pos hbmp]
          rfl
        have hunit : c.toNat.toUInt16.toNat = c.toNat := by
          rw [Nat.toUInt16_eq, UInt16.toNat_ofNat', Nat.mod_eq_of_lt hbmp]
        rw [hunits, List.flatMap_singleton, writeChar, escapeText, hunit]
        split
        · rfl
        · split
          · rfl
          · rw [hself, hunits]
      · -- both halves of a pair are written as they are
        have hplain : escapeText c = [c] := by
          have hnone : shortEscape c.toNat = none := by
            rw [shortEscape.eq_def]
            split
            case h_8 => rfl
            all_goals omega
          have hhigh : ¬ c.toNat < 0x20 := by omega
          simp only [escapeText, hnone, if_neg hhigh]
        rw [hplain, hself]
        refine hhigh _ fun u hu => ?_
        rw [toUnits, unitsOf, CodePoints.utf16Units, if_neg hbmp] at hu
        simp only [List.map_cons, List.map_nil, List.mem_cons, List.not_mem_nil, or_false] at hu
        obtain rfl | rfl := hu <;> simp <;> omega

theorem writeString_eq (value : List UInt16) :
    writeString value = (Python.jsonString (codePoints value)).flatMap toUnits := by
  have hunits : value.flatMap writeChar =
      (codePoints value).flatMap fun c => (Python.escape c).flatMap toUnits := by
    conv_lhs => rw [← toUnits_codePoints value]
    rw [List.flatMap_assoc]
    exact List.flatMap_congr fun c _ => flatMap_writeChar c
  rw [recodes_toUnits.jsonString, ← hunits, writeString]

/-- **C# says what Python says**, with every integer in full. -/
theorem translates :
    Script.Translates pyScript script keyOfUnits Represents fun t => t.flatMap toUnits := by
  refine recodes_toUnits.translates ?_ rfl rfl writeString_eq rfl
    (fun key => (rank_keyOfUnits key).symm) fun _ _ => keyOfUnits_eq_of_rank
  intro a b h
  cases a <;> cases b <;> first | exact h.elim | skip
  case none.null => exact (recodes_toUnits.ofString "null").symm
  case other.other => exact (recodes_toUnits.ofString "null").symm
  case bool.bool b b' =>
      cases h
      exact (recodes_toUnits.ofString _).symm
  case int.int64 n m hm =>
      cases h
      rw [pyScript_int (by omega), recodes_toUnits.ofChars]
      rfl
  case int.uint64 n m hm =>
      cases h
      rw [pyScript_int (by omega), recodes_toUnits.ofChars]
      rfl
  case float.double x d =>
      cases h
      rw [pyScript_float, recodes_toUnits.ofChars]
      simp only [script, writeScalar, formatNumber_eq, Option.getD_some]
  case str.string t s =>
      cases h
      exact writeString_eq s

end CSharp

/-! ### TypeScript -/

namespace TypeScript

/-- The UTF-16 of a code point, a surrogate alone being escaped. -/
def toEscaped : CodePoint → List UInt16
  | .scalar c => utf16 [c]
  | .surrogate offset => utf16 ('\\' :: 'u' :: hex4 (0xd800 + offset))

theorem recodes_toEscaped : Recodes utf16 toEscaped where
  append := utf16_append
  scalar _ := rfl

/-- The scalars of Python and those of TypeScript, which has doubles only. -/
def Represents : Python.Scalar → Scalar → Prop
  | .none, .null => True
  | .none, .undefined => True
  | .bool b, .boolean b' => b = b'
  | .float x, .number y => x = y
  | .str t, .string s => t = codePoints s
  | .other, .unencodable => True
  | _, _ => False

theorem quoteCodePoint_eq (c : CodePoint) :
    quoteCodePoint c = (Python.escape c).flatMap toEscaped := by
  cases c with
  | surrogate offset => exact (List.flatMap_singleton ..).symm
  | scalar c =>
      rw [recodes_toEscaped.escape, quoteCodePoint, escapeText]
      split
      · rfl
      · split <;> rfl

theorem stringify_eq (s : List UInt16) :
    stringify s = (Python.jsonString (codePoints s)).flatMap toEscaped := by
  rw [recodes_toEscaped.jsonString, stringify]
  congr 2
  exact List.flatMap_congr fun c _ => quoteCodePoint_eq c

/-- **TypeScript says what Python says** of doubles. -/
theorem translates :
    Script.Translates pyScript script keyOfUnits Represents fun t => t.flatMap toEscaped := by
  refine recodes_toEscaped.translates ?_ rfl rfl stringify_eq rfl
    (fun key => (rank_keyOfUnits key).symm) fun _ _ => keyOfUnits_eq_of_rank
  intro a b h
  cases a <;> cases b <;> first | exact h.elim | skip
  case none.null => exact (recodes_toEscaped.ofString "null").symm
  case none.undefined => exact (recodes_toEscaped.ofString "null").symm
  case other.unencodable => exact (recodes_toEscaped.ofString "null").symm
  case bool.boolean b b' =>
      cases h
      exact (recodes_toEscaped.ofString _).symm
  case float.number x y =>
      cases h
      rw [pyScript_float, recodes_toEscaped.ofChars]
      rfl
  case str.string t s =>
      cases h
      exact stringify_eq s

end TypeScript

end Telemetry.Receipts
