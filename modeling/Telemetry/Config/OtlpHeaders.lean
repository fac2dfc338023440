import Telemetry.Config.PythonText
import Telemetry.Lib.Dict
import Telemetry.Lib.Percent
import Telemetry.Pii.SecretScans
import Telemetry.Propagation.Baggage

/-!
# OTLP headers in the SDKs of Rust, Go and TypeScript

A header list has members with commas between them. Each parser splits a member at its first equals
sign, trims both parts and decodes the percent escapes in them, and skips a member whose key is
empty or whose escapes it does not understand. Of bytes that are not UTF-8, Go makes a string all
the same, Rust puts replacement characters, and TypeScript skips the member.

A string of Go is a list of bytes; the other two have strings of characters. All three read a text
of characters here.

## Main definitions

* `Rust.parseOtlpHeaders`, `Go.parseOTLPHeaders`, `TypeScript.parseOtlpHeaders` — the parsers.
* `documented` — what a member says: trimmed, decoded, skipped if it is malformed.

## Main results

* `Rust.hasInvalidPercentEncoding_eq` — the loop of Rust finds what is malformed.
* `Go.readHeader_eq` — **Go reads what is documented**.
* `Rust.readHeader_eq`, `TypeScript.readHeader_eq` — the others do, up to what is not UTF-8.
-/

namespace Telemetry.Config.OtlpHeaders

open Telemetry.Lib Telemetry.Propagation

/-- A string of bytes. -/
abbrev Bytes := List UInt8

/-! ## Rust -/

namespace Rust

/-- `str::trim`. -/
def trim (s : List Char) : List Char := strip isWhiteSpace s

/-- `u8::is_ascii_hexdigit`. -/
def isAsciiHexdigit (b : UInt8) : Bool := isHexDigit (Char.ofNat b.toNat)

/-- `has_invalid_percent_encoding`, from an index on. -/
def hasInvalidFrom : Bytes → Bool
  | [] => false
  | b :: bytes =>
      if b = UInt8.ofNat '%'.toNat then
        match bytes with
        | a :: c :: rest => !isAsciiHexdigit a || !isAsciiHexdigit c || hasInvalidFrom rest
        | _ => true
      else hasInvalidFrom bytes

/-- `has_invalid_percent_encoding`. -/
def hasInvalidPercentEncoding (raw : List Char) : Bool := hasInvalidFrom (Utf8.encode raw)

/-- `percent_decode_str`: an escape that is not understood stays. -/
def percentDecodeStr (raw : List Char) : Bytes := Percent.unescape (Utf8.byteChars raw)

/-- `decode_header_component`. -/
def decodeHeaderComponent (raw : List Char) : Option (List Char) :=
  if hasInvalidPercentEncoding raw then none else some (Utf8.decodeLossy (percentDecodeStr raw))

/-- What one pair says, if it says something. -/
def readHeader (pair : List Char) : Option (List Char × List Char) := do
  -- `split_once`
  let (key, value) ← if '=' ∈ pair then some (partition '=' pair) else none
  let key ← decodeHeaderComponent (trim key)
  if key = [] then none
  else
    let value ← decodeHeaderComponent (trim value)
    pure (key, value)

/-- `parse_otlp_headers`. -/
def parseOtlpHeaders : Option (List Char) → Option (Dict (List Char) (List Char))
  | none => none
  | some raw =>
      if trim raw = [] then some .empty
      else some (Dict.empty.update ((raw.splitOn ',').filterMap readHeader))

end Rust

/-! ## Go -/

namespace Go

/-- `strings.TrimSpace`. -/
def trimSpace (s : List Char) : List Char := strip isWhiteSpace s

/-- `url.PathUnescape`, if it does not fail. -/
def pathUnescape (s : List Char) : Option Bytes := Percent.unescape? (Utf8.byteChars s)

/-- What one pair says, if it says something. -/
def readHeader (pair : List Char) : Option (Bytes × Bytes) :=
  -- `idx < 1`
  if '=' ∉ pair ∨ (partition '=' pair).1 = [] then none
  else
    match pathUnescape (trimSpace (partition '=' pair).1) with
    | none => none
    | some key =>
        if key = [] then none
        else (pathUnescape (trimSpace (partition '=' pair).2)).map fun value => (key, value)

/-- `parseOTLPHeaders`. -/
def parseOTLPHeaders (raw : List Char) : Dict Bytes Bytes :=
  if raw = [] then .empty else Dict.empty.update ((raw.splitOn ',').filterMap readHeader)

end Go

/-! ## TypeScript -/

namespace TypeScript

/-- `String.prototype.trim`. -/
def trim (s : List Char) : List Char := strip Pii.TypeScript.isSpace s

/-- `decodeURIComponent`, if it does not throw: no character that is not escaped finishes one that
is begun by escapes. -/
def decodeURIComponent (s : List Char) : Option (List Char) :=
  (Percent.unescape? (Utf8.byteChars s)).bind fun bytes =>
    if Utf8.Valid bytes then some (Utf8.decodeLossy bytes) else none

/-- What one pair says, if it says something. -/
def readHeader (pair : List Char) : Option (List Char × List Char) :=
  -- `idx < 1`
  if '=' ∉ pair ∨ (partition '=' pair).1 = [] then none
  else
    match decodeURIComponent (trim (partition '=' pair).1) with
    | none => none
    | some key =>
        if key = [] then none
        else (decodeURIComponent (trim (partition '=' pair).2)).map fun value => (key, value)

/-- `__proto__`. -/
def proto : List Char := "__proto__".toList

/-- `result[key] = val`. Setting the `__proto__` of an object to a string does nothing. -/
def assign (result : Dict (List Char) (List Char)) (e : List Char × List Char) :
    Dict (List Char) (List Char) :=
  if e.1 = proto then result else result.set e.1 e.2

/-- `parseOtlpHeaders`. -/
def parseOtlpHeaders (raw : List Char) : Dict (List Char) (List Char) :=
  if raw = [] then .empty
  else ((raw.splitOn ',').filterMap readHeader).foldl assign .empty

end TypeScript

/-! ## What is documented -/

/-- A part of a member: trimmed and percent-decoded, unless an escape in it is malformed. -/
def decode (part : List Char) : Option Bytes :=
  Percent.unescape? (Utf8.byteChars (strip isWhiteSpace part))

/-- **What a member says**: the text before the first equals sign and the text behind it, decoded.
A member without one, with an empty key, or with a malformed escape says nothing. -/
def documented (member : List Char) : Option (Bytes × Bytes) :=
  if '=' ∉ member then none
  else
    (decode (partition '=' member).1).bind fun key =>
      if key = [] then none
      else (decode (partition '=' member).2).map fun value => (key, value)

variable {member : List Char} {k v : List Char}

/-! ## What the parsers read -/

theorem byteChar_eq_percent_iff (b : UInt8) :
    Char.ofNat b.toNat = '%' ↔ b = UInt8.ofNat '%'.toNat := by
  constructor
  · intro h
    have hnat := congrArg Char.toNat h
    rw [Utf8.toNat_byteChar] at hnat
    exact UInt8.toNat_inj.mp hnat
  · rintro rfl
    rfl

theorem Rust.hasInvalidFrom_eq (bytes : Bytes) :
    hasInvalidFrom bytes = Percent.malformed (bytes.map fun b => Char.ofNat b.toNat) := by
  fun_induction hasInvalidFrom bytes with
  | case1 => rfl
  | case2 a c rest ih =>
      rw [ih]
      rfl
  | case3 bytes hshort =>
      obtain _ | ⟨a, _ | ⟨c, rest⟩⟩ := bytes
      · rfl
      · rfl
      · exact absurd rfl (hshort a c rest)
  | case4 b bytes hb ih =>
      rw [ih, List.map_cons, Percent.malformed_cons (mt (byteChar_eq_percent_iff b).mp hb)]

/-- **The loop finds what is malformed.** -/
theorem Rust.hasInvalidPercentEncoding_eq (raw : List Char) :
    hasInvalidPercentEncoding raw = Percent.malformed (Utf8.byteChars raw) :=
  hasInvalidFrom_eq _

theorem Rust.decodeHeaderComponent_trim (part : List Char) :
    decodeHeaderComponent (trim part) = (decode part).map Utf8.decodeLossy := by
  rw [decodeHeaderComponent, hasInvalidPercentEncoding_eq, decode, Percent.unescape?, trim,
    percentDecodeStr]
  split <;> rfl

/-- **Go reads what is documented.** -/
theorem Go.readHeader_eq (member : List Char) : readHeader member = documented member := by
  rw [readHeader, documented]
  by_cases hequals : '=' ∈ member
  · by_cases hkey : (partition '=' member).1 = []
    · rw [if_pos (.inr hkey), if_neg (not_not_intro hequals), hkey]
      rfl
    · rw [if_neg (not_or_intro (not_not_intro hequals) hkey), if_neg (not_not_intro hequals)]
      rw [show pathUnescape (trimSpace (partition '=' member).1) = decode (partition '=' member).1
        from rfl]
      cases decode (partition '=' member).1 <;> rfl
  · rw [if_pos (.inl hequals), if_pos hequals]

/-- **Rust reads what is documented**, with replacement characters. -/
theorem Rust.readHeader_eq (member : List Char) : readHeader member =
    (documented member).map (Prod.map Utf8.decodeLossy Utf8.decodeLossy) := by
  rw [readHeader, documented]
  by_cases hequals : '=' ∈ member
  · rw [if_pos hequals, if_neg (not_not_intro hequals)]
    simp only [Option.bind_eq_bind, Option.bind_some, decodeHeaderComponent_trim]
    cases decode (partition '=' member).1 with
    | none => rfl
    | some key =>
        simp only [Option.map_some, Option.bind_some, Utf8.decodeLossy_eq_nil_iff]
        split
        · rfl
        · cases decode (partition '=' member).2 <;> rfl
  · rw [if_neg hequals, if_pos hequals]
    rfl

/-- TypeScript's space is everybody's in a text of ASCII. -/
theorem TypeScript.isSpace_ascii {c : Char} (h : c.toNat < 128) :
    Pii.TypeScript.isSpace c = isWhiteSpace c :=
  eq_of_beq (Python.CaseTables.of_ascii (P := fun c => Pii.TypeScript.isSpace c == isWhiteSpace c)
    (by decide) h)

theorem TypeScript.decodeURIComponent_trim {part : List Char} (h : ∀ c ∈ part, c.toNat < 128) :
    decodeURIComponent (trim part) = (decode part).bind fun bytes =>
      if Utf8.Valid bytes then some (Utf8.decodeLossy bytes) else none := by
  rw [decodeURIComponent, trim, strip_congr fun c hc => isSpace_ascii (h c hc)]
  rfl

theorem mem_of_mem_partition {c : Char} (h : c ∈ (partition '=' member).1 ∨
    c ∈ (partition '=' member).2) : c ∈ member := by
  obtain h | h := h
  · exact (List.takeWhile_sublist _).subset h
  · exact (List.dropWhile_sublist _).subset (List.mem_of_mem_tail h)

/-- An entry whose parts are both UTF-8, as text. -/
def validText (e : Bytes × Bytes) : Option (List Char × List Char) :=
  if Utf8.Valid e.1 ∧ Utf8.Valid e.2 then some (Utf8.decodeLossy e.1, Utf8.decodeLossy e.2)
  else none

/-- **TypeScript reads what is documented** of a member of ASCII, if it is UTF-8. -/
theorem TypeScript.readHeader_eq (h : ∀ c ∈ member, c.toNat < 128) :
    readHeader member = (documented member).bind validText := by
  rw [readHeader, documented]
  by_cases hequals : '=' ∈ member
  · rw [decodeURIComponent_trim fun c hc => h c (mem_of_mem_partition (.inl hc)),
      decodeURIComponent_trim fun c hc => h c (mem_of_mem_partition (.inr hc))]
    by_cases hkey : (partition '=' member).1 = []
    · rw [if_pos (.inr hkey), if_neg (not_not_intro hequals), hkey]
      rfl
    · rw [if_neg (not_or_intro (not_not_intro hequals) hkey), if_neg (not_not_intro hequals)]
      cases decode (partition '=' member).1 with
      | none => rfl
      | some key =>
          simp only [Option.bind_some]
          by_cases hnil : key = []
          · subst hnil
            by_cases hvalid : Utf8.Valid ([] : Bytes) <;> simp [hvalid]
          · by_cases hvalid : Utf8.Valid key
            · simp only [hvalid, hnil, if_true, if_false, Utf8.decodeLossy_eq_nil_iff]
              cases decode (partition '=' member).2 with
              | none => rfl
              | some value => by_cases hvalue : Utf8.Valid value <;> simp [validText, *]
            · cases decode (partition '=' member).2 <;> simp [hvalid, hnil, validText]
  · rw [if_pos (.inl hequals), if_pos hequals]
    rfl

end Telemetry.Config.OtlpHeaders
