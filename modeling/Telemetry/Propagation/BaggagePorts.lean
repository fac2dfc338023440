import Mathlib.Data.String.Basic
import Telemetry.Lib.Parts
import Telemetry.Lib.SortedMap
import Telemetry.Propagation.PythonBaggage

/-!
# Parsing `baggage` in the Python and in the Rust SDK

`parse_baggage` of `propagation.rs` goes the same way as the one of `propagation.py`. But `trim`
takes off white space, and `str.strip` the information separators U+001C to U+001F too. A member
with one of them around its name is one for Python alone; and where one of them stands before the
space at an end of a value, the space behind it is left by Rust alone.

## Main definitions

* `Rust.parseBaggage` — the parser of Rust.
* `ReadsAlike` — the two parsers return the same map, of tokens and values without control
  characters.

## Main results

* `readsAlike_iff` — **when they do**.
-/

namespace Telemetry.Propagation

open Telemetry.Lib

namespace Rust

/-- `str::trim`. -/
def trim (s : List Char) : List Char := strip isWhiteSpace s

/-- What `is_baggage_token` asks of a byte. No byte of a character that is not ASCII passes. -/
def isTokenChar (c : Char) : Bool := c.isAlphanum || "!#$%&'*+-.^_`|~".toList.contains c

/-- `is_baggage_token`. -/
def isBaggageToken (key : List Char) : Bool := !key.isEmpty && key.all isTokenChar

/-- The pattern of `strip_control_chars`. -/
def isControlChar (c : Char) : Bool :=
  ('\u0000' ≤ c && c ≤ '\u0008') || ('\u000a' ≤ c && c ≤ '\u001f') || c == '\u007f'

/-- `strip_control_chars`. -/
def stripControlChars (value : List Char) : List Char := value.filter fun c => !isControlChar c

/-- One round of the loop in `parse_baggage`. -/
def parseMember (result : SortedMap String String) (member : List Char) :
    SortedMap String String :=
  let kv := (member.splitOn ';').headD []
  match kv.findIdx? fun c => c = '=' with
  | none => result
  | some eqIdx =>
      let key := trim (kv.take eqIdx)
      if isBaggageToken key then
        let value := trim (kv.drop (eqIdx + 1))
        result.insert (String.ofList key) (String.ofList (stripControlChars value))
      else result

/-- `parse_baggage`. -/
def parseBaggage (raw : String) : SortedMap String String :=
  (raw.toList.splitOn ',').foldl parseMember SortedMap.empty

/-- The characters of `parse_baggage`. -/
def alphabet : Alphabet Char where
  comma := ','
  semicolon := ';'
  equals := '='
  isToken := isTokenChar
  isControl := isControlChar

/-! ## Reading the members -/

theorem findIdx?_eq (sep : Char) (s : List Char) :
    (s.findIdx? fun c => c = sep) =
      if sep ∈ s then some (partition sep s).1.length else none := by
  induction s with
  | nil => rfl
  | cons c s ih =>
      rw [List.findIdx?_cons, ih]
      by_cases hc : c = sep
      · simp [hc, partition]
      · by_cases hmem : sep ∈ s
        · simp [hc, Ne.symm hc, hmem, partition]
        · simp [hc, Ne.symm hc, hmem]

theorem take_length_partition (sep : Char) (s : List Char) :
    s.take (partition sep s).1.length = (partition sep s).1 :=
  (List.prefix_iff_eq_take.mp (List.takeWhile_prefix _)).symm

theorem drop_length_partition (sep : Char) (s : List Char) :
    s.drop ((partition sep s).1.length + 1) = (partition sep s).2 := by
  have hdrop : ((s.takeWhile fun c => c ≠ sep) ++ s.dropWhile fun c => c ≠ sep).drop
      (s.takeWhile fun c => c ≠ sep).length = s.dropWhile fun c => c ≠ sep := List.drop_left
  rw [List.takeWhile_append_dropWhile] at hdrop
  rw [← List.drop_drop, partition, hdrop, List.drop_one]

theorem isBaggageToken_iff (key : List Char) :
    isBaggageToken key = true ↔ alphabet.IsToken key := by
  rw [isBaggageToken, Bool.and_eq_true, List.all_eq_true, Bool.not_eq_true',
    List.isEmpty_eq_false_iff]
  rfl

theorem parseMember_eq (result : SortedMap String String) (member : List Char) :
    parseMember result member =
      match alphabet.read isWhiteSpace member with
      | some e => result.insert (String.ofList e.1) (String.ofList e.2)
      | none => result := by
  have hmem : '=' ∈ (partition ';' member).1 ↔ alphabet.equals ∈ alphabet.pair member := Iff.rfl
  have hkv : (member.splitOn ';').headD [] = (partition ';' member).1 := headD_splitOn ';' member
  rw [parseMember, hkv, findIdx?_eq]
  by_cases hequals : alphabet.equals ∈ alphabet.pair member
  · rw [if_pos (hmem.mpr hequals)]
    simp only [take_length_partition, drop_length_partition, isBaggageToken_iff]
    by_cases hkey : alphabet.IsToken (strip isWhiteSpace (alphabet.name member))
    · rw [Alphabet.read_eq_some_iff.mpr ⟨⟨hequals, hkey⟩, rfl⟩]
      exact if_pos hkey
    · have hnone : alphabet.read isWhiteSpace member = none := if_neg fun h => hkey h.2
      rw [hnone]
      exact if_neg hkey
  · rw [if_neg (mt hmem.mp hequals), Alphabet.read, if_neg fun h => hequals h.1]

/-- **The parser reads the members one by one.** -/
theorem parseBaggage_eq (raw : String) :
    parseBaggage raw = SortedMap.empty.extend
      (((raw.toList.splitOn ',').filterMap (alphabet.read isWhiteSpace)).map
        (Prod.map String.ofList String.ofList)) := by
  rw [parseBaggage]
  generalize (SortedMap.empty : SortedMap String String) = result
  induction raw.toList.splitOn ',' generalizing result with
  | nil => rfl
  | cons member members ih =>
      rw [List.foldl_cons, ih, parseMember_eq]
      cases hread : alphabet.read isWhiteSpace member with
      | none => rw [List.filterMap_cons_none hread]
      | some e =>
          rw [List.filterMap_cons_some hread]
          rfl

theorem lookup_parseBaggage (raw key : String) :
    (parseBaggage raw).lookup key =
      (alphabet.found isWhiteSpace key.toList (raw.toList.splitOn ',')).map String.ofList := by
  have hkey : (fun e : String × String => decide (e.1 = key)) ∘
      Prod.map String.ofList String.ofList = fun e => decide (e.1 = key.toList) := by
    funext e
    rw [Function.comp_apply, decide_eq_decide]
    constructor
    · rintro rfl
      exact String.toList_ofList.symm
    · intro h
      rw [Prod.map_fst, h, String.ofList_toList]
  rw [parseBaggage_eq, SortedMap.lookup_extend_last, SortedMap.lookup_empty, Option.or_none,
    ← List.map_reverse, List.find?_map, hkey, Option.map_map, Alphabet.found, Option.map_map]
  rfl

end Rust

/-! ## The parser of Python on scalar values -/

theorem python_isTokenChar_scalar (c : Char) :
    Python.isTokenChar (.scalar c) = decide (c ∈ Python.baggageTokenChars.toList) := by
  rw [Python.isTokenChar, decide_eq_decide, CodePoints.ofString, CodePoints.ofChars,
    List.mem_map_of_injective fun _ _ => CodePoint.scalar.inj]

private theorem not_mem_of_ascii {cs : List Char} {c : Char} (hc : ¬ c.toNat < 128)
    (h : (cs.all fun c => decide (c.toNat < 128)) = true) : c ∉ cs :=
  fun hmem => hc (of_decide_eq_true (List.all_eq_true.mp h c hmem))

/-- Both parsers know the same tokens. -/
theorem isTokenChar_scalar (c : Char) : Python.isTokenChar (.scalar c) = Rust.isTokenChar c := by
  rw [python_isTokenChar_scalar]
  by_cases hc : c.toNat < 128
  · have hascii : ∀ n < 128, decide (Char.ofNat n ∈ Python.baggageTokenChars.toList) =
        Rust.isTokenChar (Char.ofNat n) := by decide +kernel
    have h := hascii c.toNat hc
    rwa [Char.ofNat_toNat] at h
  · have hpython : c ∉ Python.baggageTokenChars.toList := not_mem_of_ascii hc (by decide)
    have hset : "!#$%&'*+-.^_`|~".toList.contains c = false := by
      rw [List.contains_eq_mem, decide_eq_false_iff_not]
      exact not_mem_of_ascii hc (by decide)
    have halpha : c.isAlphanum = false := by
      delta Char.isAlphanum Char.isAlpha Char.isUpper Char.isLower Char.isDigit
      simp [UInt32.le_iff_toNat_le]
      omega
    rw [Rust.isTokenChar, hset, halpha, decide_eq_false hpython]
    rfl

theorem isControl_scalar (c : Char) : Python.isControl (.scalar c) = Rust.isControlChar c := by
  have hzero : '\u0000' ≤ c := by
    rw [Char.le_def, UInt32.le_iff_toNat_le]
    exact Nat.zero_le _
  simp [Python.isControl, Python.isControlChar, Rust.isControlChar, hzero]

/-- No character of tokens is space. -/
theorem isSpaceChar_of_isTokenChar (c : Char) (h : Rust.isTokenChar c = true) :
    Python.isSpaceChar c = false := by
  rw [← isTokenChar_scalar, python_isTokenChar_scalar, decide_eq_true_eq] at h
  have hall : (Python.baggageTokenChars.toList.all fun c => !Python.isSpaceChar c) = true := by
    decide +kernel
  simpa using List.all_eq_true.mp hall c h

theorem read_scalar (member : List Char) :
    Python.alphabet.read Python.isSpace (member.map CodePoint.scalar) =
      (Rust.alphabet.read Python.isSpaceChar member).map
        (Prod.map (List.map CodePoint.scalar) (List.map CodePoint.scalar)) :=
  Alphabet.read_map (fun _ _ => CodePoint.scalar.inj) rfl rfl isTokenChar_scalar isControl_scalar
    (fun _ => rfl) member

variable {T : Python.Printable} {raw : String}

theorem get?_parseBaggage (key : CodePoints) :
    (Python.parseBaggage T (CodePoints.ofString raw)).get? key =
      Python.alphabet.found Python.isSpace key
        ((raw.toList.splitOn ',').map (List.map CodePoint.scalar)) := by
  have hsplit := splitOn_map (fun _ _ => CodePoint.scalar.inj) ',' raw.toList
  rw [Python.parseBaggage_eq, Dict.get?_update, Dict.get?_empty, Option.or_none,
    Python.readMembers, CodePoints.ofString, CodePoints.ofChars, hsplit]
  rfl

/-- What Python finds are the values of the members as they are read with its space. -/
theorem get?_parseBaggage_iff (key value : CodePoints) :
    (Python.parseBaggage T (CodePoints.ofString raw)).get? key = some value ↔
      ∃ k v : String, key = CodePoints.ofString k ∧ value = CodePoints.ofString v ∧
        Rust.alphabet.found Python.isSpaceChar k.toList (raw.toList.splitOn ',') =
          some v.toList := by
  rw [get?_parseBaggage, Alphabet.found_map (fun _ _ => CodePoint.scalar.inj) read_scalar]
  constructor
  · rintro ⟨k, v, hk, hv, h⟩
    refine ⟨String.ofList k, String.ofList v, ?_, ?_, ?_⟩
    · rw [CodePoints.ofString, String.toList_ofList, hk, CodePoints.ofChars]
    · rw [CodePoints.ofString, String.toList_ofList, hv, CodePoints.ofChars]
    · rw [String.toList_ofList, String.toList_ofList, h]
  · rintro ⟨k, v, hk, hv, h⟩
    exact ⟨k.toList, v.toList, hk, hv, h⟩

/-! ## Agreement -/

/-- The parsers return the same map; its keys are tokens, and its values have no control
characters. -/
structure ReadsAlike (T : Python.Printable) (raw : String) : Prop where
  same : ∀ key value,
    (Python.parseBaggage T (CodePoints.ofString raw)).get? key = some value ↔
      ∃ k v, key = CodePoints.ofString k ∧ value = CodePoints.ofString v ∧
        (Rust.parseBaggage raw).lookup k = some v
  python : ∀ key value,
    (Python.parseBaggage T (CodePoints.ofString raw)).get? key = some value →
      Python.alphabet.IsToken key ∧ ∀ c ∈ value, Python.isControl c = false
  rust : ∀ key value, (Rust.parseBaggage raw).lookup key = some value →
    Rust.alphabet.IsToken key.toList ∧ ∀ c ∈ value.toList, Rust.isControlChar c = false

theorem lookup_eq_some_iff (key value : String) :
    (Rust.parseBaggage raw).lookup key = some value ↔
      Rust.alphabet.found isWhiteSpace key.toList (raw.toList.splitOn ',') = some value.toList := by
  rw [Rust.lookup_parseBaggage, Option.map_eq_some_iff]
  constructor
  · rintro ⟨v, hv, rfl⟩
    rw [hv, String.toList_ofList]
  · intro h
    exact ⟨_, h, String.ofList_toList⟩

theorem ofString_injective : Function.Injective CodePoints.ofString := by
  intro s t h
  exact String.toList_injective (List.map_injective_iff.mpr (fun _ _ => CodePoint.scalar.inj) h)

/-- The maps are the same if the same is found under every name. -/
theorem same_iff :
    (∀ key value, (Python.parseBaggage T (CodePoints.ofString raw)).get? key = some value ↔
      ∃ k v, key = CodePoints.ofString k ∧ value = CodePoints.ofString v ∧
        (Rust.parseBaggage raw).lookup k = some v) ↔
    ∀ key, Rust.alphabet.found Python.isSpaceChar key (raw.toList.splitOn ',') =
      Rust.alphabet.found isWhiteSpace key (raw.toList.splitOn ',') := by
  simp only [get?_parseBaggage_iff, lookup_eq_some_iff]
  constructor
  · intro h key
    ext1 value
    have hkey := h (CodePoints.ofString (String.ofList key))
      (CodePoints.ofString (String.ofList value))
    simpa [ofString_injective.eq_iff, String.ofList_inj] using hkey
  · intro h key value
    simp only [h]

/-- **When the parsers agree**: for every name the last of its members must be settled. -/
theorem readsAlike_iff (T : Python.Printable) (raw : String) :
    ReadsAlike T raw ↔ ∀ key, Rust.alphabet.Settles isWhiteSpace Python.isSpaceChar key
      (raw.toList.splitOn ',') := by
  have hspace : ∀ c, isWhiteSpace c = true → Python.isSpaceChar c = true := by
    intro c hc
    rw [Python.isSpaceChar, hc, Bool.true_or]
  have hsettles := fun key => Alphabet.found_eq_iff (A := Rust.alphabet) hspace
    isSpaceChar_of_isTokenChar key (raw.toList.splitOn ',')
  constructor
  · intro h key
    exact (hsettles key).mp (same_iff.mp h.same key)
  · intro h
    refine ⟨same_iff.mpr fun key => (hsettles key).mpr (h key), ?_, ?_⟩
    · intro key value hvalue
      rw [get?_parseBaggage] at hvalue
      exact Alphabet.found_sound hvalue
    · intro key value hvalue
      rw [lookup_eq_some_iff] at hvalue
      exact Alphabet.found_sound hvalue

/-- The characters that are not control characters are printable. -/
def Python.visibleOnly : Python.Printable where
  isPrintable c := !Python.isControl c
  control c hc := by rw [hc, Bool.not_true]

/-- A member with U+001C before its name is one for Python alone. -/
theorem separator_before_name :
    (Python.parseBaggage Python.visibleOnly (CodePoints.ofString "\u001ca=1")).get?
        (CodePoints.ofString "a") = some (CodePoints.ofString "1") ∧
      (Rust.parseBaggage "\u001ca=1").lookup "a" = none ∧
      ¬ ReadsAlike Python.visibleOnly "\u001ca=1" := by
  have hpython : (Python.parseBaggage Python.visibleOnly (CodePoints.ofString "\u001ca=1")).get?
      (CodePoints.ofString "a") = some (CodePoints.ofString "1") := by decide +kernel
  have hrust : (Rust.parseBaggage "\u001ca=1").lookup "a" = none := by decide +kernel
  refine ⟨hpython, hrust, fun h => ?_⟩
  obtain ⟨k, v, hk, -, hlookup⟩ := (h.same _ _).mp hpython
  rw [← ofString_injective hk, hrust] at hlookup
  cases hlookup

end Telemetry.Propagation
