import Telemetry.Lib.Parts
import Telemetry.Lib.Utf16
import Telemetry.Propagation.Python
import Telemetry.Propagation.PythonContext
import Telemetry.Propagation.Tracestate

/-!
# Injecting and extracting headers in the Python SDK

`inject_traceparent` writes the ids and the `tracestate` that are bound into the headers of an
outbound call, and `extract_w3c_context` reads the headers of an inbound one. Both hold the
`tracestate` against the grammar of its members. Only the reader also limits its length and the
number of its members. OpenTelemetry is absent.

## Main definitions

* `extractW3cContext`, `injectTraceparent` — the reader and the writer.
* `RoundTrip` — what is written is safe, and is read as it was bound.

## Main results

* `roundTrip_iff` — **when it is**.
-/

namespace Telemetry.Propagation.Python

open Telemetry.Lib

/-! ## Reading headers -/

/-- The name or the value of a header: bytes, a string, or another object. -/
inductive HeaderText
  | bytes (bs : List UInt8)
  | str (text : CodePoints)
  | other
  deriving DecidableEq

/-- `bytes.lower`. -/
def lowerByte (b : UInt8) : UInt8 := if 0x41 ≤ b ∧ b ≤ 0x5a then b + 0x20 else b

/-- `str.isascii`. -/
def isascii (text : CodePoints) : Bool :=
  text.all fun c => (c.char?.map fun d => decide (d.toNat < 128)).getD false

/-- `_normalize_header_name`, where another object has no name. -/
def normalizeHeaderName (U : Unicode) : HeaderText → Option (List UInt8)
  | .bytes bs => some (bs.map lowerByte)
  | .str text => if isascii (U.lower text) then (U.lower text).encodeUtf8 else some []
  | .other => none

/-- `bytes.decode("latin-1")`. -/
def decodeLatin1 (bs : List UInt8) : CodePoints :=
  CodePoints.ofChars (bs.map fun b => Char.ofNat b.toNat)

/-- `_decode_header_value`. -/
def decodeHeaderValue : HeaderText → Option CodePoints
  | .str text => some text
  | .bytes bs =>
      match bs.toByteArray.utf8Decode? with
      | some chars => some (CodePoints.ofChars chars.toList)
      | none => some (decodeLatin1 bs)
  | .other => none

/-- `scope["headers"]`. -/
abbrev Headers := List (HeaderText × HeaderText)

/-- `get_header`. -/
def getHeader (U : Unicode) (headers : Headers) (key : List UInt8) : Option CodePoints :=
  match headers.find? fun e => normalizeHeaderName U e.1 = some key with
  | some e => decodeHeaderValue e.2
  | none => none

def maxHeaderLength : ℕ := 512

def maxTracestatePairs : ℕ := 32

def maxBaggageLength : ℕ := 8192

/-- `ord`. -/
def ord : CodePoint → ℕ
  | .scalar c => c.toNat
  | .surrogate offset => 0xd800 + offset

/-- `_TRACESTATE_MEMBER_RE.match`, with `\Z` at the end of the pattern. -/
def matchesMember (member : CodePoints) : Bool :=
  Regex.accepts List.isEmpty Tracestate.memberRe (member.map ord)

/-- `_is_forwardable_tracestate`. -/
def isForwardableTracestate (value : CodePoints) : Bool :=
  (value.splitOn (.scalar ',')).all matchesMember

/-- A header is dropped, if the test says so. A header that is empty is not tested. -/
def dropIf (test : CodePoints → Bool) (value : Option CodePoints) : Option CodePoints :=
  value.filter fun text => text = [] || !test text

def traceparentBytes : List UInt8 := "traceparent".toList.flatMap String.utf8EncodeChar

def tracestateBytes : List UInt8 := "tracestate".toList.flatMap String.utf8EncodeChar

def baggageBytes : List UInt8 := "baggage".toList.flatMap String.utf8EncodeChar

/-- `extract_w3c_context`. -/
def extractW3cContext (U : Unicode) (headers : Headers) : PropagationContext :=
  let rawTraceparent := getHeader U headers traceparentBytes
  let tracestate := getHeader U headers tracestateBytes
  let baggage := getHeader U headers baggageBytes
  let rawTraceparent := dropIf (fun text => maxHeaderLength < text.length) rawTraceparent
  let tracestate := dropIf (fun text => maxHeaderLength < text.length) tracestate
  let tracestate :=
    dropIf (fun text => maxTracestatePairs < text.count (.scalar ',') + 1) tracestate
  let tracestate := dropIf (fun text => !isForwardableTracestate text) tracestate
  let baggage := dropIf (fun text => maxBaggageLength < text.length) baggage
  match parseTraceparent U rawTraceparent with
  | some ids =>
      { traceparent := rawTraceparent, tracestate, baggage, traceId := some ids.traceId,
        spanId := some ids.spanId }
  | none => { tracestate, baggage }

/-! ## Writing headers -/

variable {O : Type}

/-- `_is_injectable_id`. -/
def isInjectableId (value : Option CodePoints) (length : ℕ) : Bool :=
  match value with
  | none => false
  | some value =>
      if value.length ≠ length then false
      else if value = zeros length then false
      else value.all fun c => c ∈ CodePoints.ofChars lowerHexDigits

/-- `inject_traceparent`. -/
def injectTraceparent (s : Vars O) (headers : Dict CodePoints CodePoints) :
    Dict CodePoints CodePoints :=
  if !isInjectableId s.traceId 32 || !isInjectableId s.spanId 16 then headers
  else
    let headers := headers.set traceparentKey
      (CodePoints.ofString "00-" ++ s.traceId.getD [] ++ CodePoints.ofString "-" ++
        s.spanId.getD [] ++ CodePoints.ofString "-01")
    match s.getContext.get? tracestateKey with
    | some (.str tracestate) =>
        if tracestate ≠ [] && isForwardableTracestate tracestate then
          headers.set tracestateKey tracestate
        else headers
    | _ => headers

/-! ## There and back -/

/-- The string as it stands, or its bytes. -/
def HeaderText.ofCodePoints (asBytes : Bool) (text : CodePoints) : HeaderText :=
  if asBytes then .bytes (text.encodeUtf8.getD []) else .str text

/-- The written headers as those of a scope. -/
def scopeOf (asBytes : Bool) (headers : Dict CodePoints CodePoints) : Headers :=
  headers.entries.map fun e => (.ofCodePoints asBytes e.1, .ofCodePoints asBytes e.2)

/-- Ids that may be injected are bound. -/
def BindsIds (s : Vars O) : Prop :=
  isInjectableId s.traceId 32 = true ∧ isInjectableId s.spanId 16 = true

/-- A printable ASCII character, or a tab. -/
def IsPrintable (c : CodePoint) : Prop := ord c = 0x09 ∨ 0x20 ≤ ord c ∧ ord c ≤ 0x7e

/-- What is written to an empty mapping is safe, and is read as it was bound; and nothing is written
if no ids are bound. -/
structure RoundTrip (U : Unicode) (s : Vars O) : Prop where
  printable : ∀ e ∈ (injectTraceparent s Dict.empty).entries, ∀ c ∈ e.2, IsPrintable c
  ids : BindsIds s → ∀ asBytes,
    let read := extractW3cContext U (scopeOf asBytes (injectTraceparent s Dict.empty))
    read.traceId = s.traceId ∧ read.spanId = s.spanId
  tracestate : ∀ asBytes,
    (extractW3cContext U (scopeOf asBytes (injectTraceparent s Dict.empty))).tracestate =
      (injectTraceparent s Dict.empty).get? tracestateKey
  unchanged : ¬ BindsIds s → injectTraceparent s Dict.empty = Dict.empty

/-- The `tracestate` that is forwarded, if there is one, is not longer than a reader takes it. -/
def Short (s : Vars O) : Prop :=
  ∀ text, s.getContext.get? tracestateKey = some (.str text) → BindsIds s → text ≠ [] →
    isForwardableTracestate text = true →
      text.length ≤ maxHeaderLength ∧ text.count (.scalar ',') + 1 ≤ maxTracestatePairs

variable {U : Unicode} {s : Vars O}

/-! ### What is written -/

/-- An id that may be injected. -/
theorem isInjectableId_iff {value : Option CodePoints} {n : ℕ} :
    isInjectableId value n = true ↔ ∃ id : List Char, value = some (CodePoints.ofChars id) ∧
      id.length = n ∧ id ≠ List.replicate n '0' ∧ ∀ c ∈ id, c ∈ lowerHexDigits := by
  have hinjective : Function.Injective CodePoints.ofChars :=
    List.map_injective_iff.mpr fun _ _ => CodePoint.scalar.inj
  have hzeros : zeros n = CodePoints.ofChars (List.replicate n '0') :=
    (List.map_replicate (f := CodePoint.scalar)).symm
  constructor
  · intro h
    cases value with
    | none => cases h
    | some value =>
        rw [isInjectableId] at h
        split at h
        · cases h
        · rename_i hlength
          split at h
          · cases h
          · rename_i hne
            rw [List.all_eq_true] at h
            have hchars : ∃ id : List Char, value = CodePoints.ofChars id ∧
                ∀ c ∈ id, c ∈ lowerHexDigits := by
              clear hlength hne
              induction value with
              | nil => exact ⟨[], rfl, by simp⟩
              | cons c value ih =>
                  rw [List.forall_mem_cons, decide_eq_true_eq] at h
                  obtain ⟨id, hid, hmem⟩ := ih h.2
                  obtain ⟨d, hd, hc⟩ := List.mem_map.mp h.1
                  exact ⟨d :: id, by rw [hid, ← hc]; rfl, List.forall_mem_cons.mpr ⟨hd, hmem⟩⟩
            obtain ⟨id, hid, hmem⟩ := hchars
            refine ⟨id, by rw [hid], ?_, ?_, hmem⟩
            · rw [hid, CodePoints.ofChars, List.length_map] at hlength
              exact not_not.mp hlength
            · intro heq
              exact hne (by rw [hid, heq, hzeros])
  · rintro ⟨id, rfl, hlength, hne, hmem⟩
    rw [isInjectableId, if_neg (by simpa [CodePoints.ofChars] using hlength),
      if_neg (fun h => hne (hinjective (h.trans hzeros))), List.all_eq_true]
    intro c hc
    obtain ⟨d, hd, rfl⟩ := List.mem_map.mp hc
    exact decide_eq_true (List.mem_map_of_mem (hmem d hd))

/-- The fields of the `traceparent` that is written. -/
def writtenFields (traceId spanId : List Char) : Fields Char where
  version := "00".toList
  traceId := traceId
  spanId := spanId
  flags := "01".toList

theorem isHexDigit_of_mem {c : Char} (h : c ∈ lowerHexDigits) : isHexDigit c = true :=
  List.all_eq_true.mp (by decide : lowerHexDigits.all isHexDigit = true) c h

theorem toLower_of_mem {c : Char} (h : c ∈ lowerHexDigits) : c.toLower = c :=
  of_decide_eq_true (List.all_eq_true.mp
    (by decide : (lowerHexDigits.all fun c => decide (c.toLower = c)) = true) c h)

theorem valid_writtenFields {traceId spanId : List Char} (htrace : traceId.length = 32)
    (hspan : spanId.length = 16) (htrace' : traceId ≠ List.replicate 32 '0')
    (hspan' : spanId ≠ List.replicate 16 '0') (hmem : ∀ c ∈ traceId, c ∈ lowerHexDigits)
    (hmem' : ∀ c ∈ spanId, c ∈ lowerHexDigits) : (writtenFields traceId spanId).Valid where
  version := rfl
  traceId := htrace
  spanId := hspan
  flags := rfl
  hex := by
    simp only [Fields.parts, writtenFields, List.forall_mem_cons, List.not_mem_nil, false_implies,
      implies_true, and_true]
    refine ⟨?_, fun c hc => isHexDigit_of_mem (hmem c hc),
      fun c hc => isHexDigit_of_mem (hmem' c hc), ?_⟩
    · exact List.all_eq_true.mp (by decide : "00".toList.all isHexDigit = true)
    · exact List.all_eq_true.mp (by decide : "01".toList.all isHexDigit = true)
  version_ne := by
    change "00".toList.map Char.toLower ≠ "ff".toList
    decide
  traceId_ne := htrace'
  spanId_ne := hspan'

theorem map_toLower_of_mem {id : List Char} (h : ∀ c ∈ id, c ∈ lowerHexDigits) :
    id.map Char.toLower = id := by
  rw [List.map_congr_left fun c hc => toLower_of_mem (h c hc), List.map_id']

/-- The `traceparent` that is written for two ids. -/
def writtenTraceparent (traceId spanId : List Char) : CodePoints :=
  CodePoints.ofChars ((writtenFields traceId spanId).text '-')

/-- The `tracestate` that is written with the ids. -/
def forwardedTracestate (s : Vars O) : Option CodePoints :=
  match s.getContext.get? tracestateKey with
  | some (.str text) => if text ≠ [] && isForwardableTracestate text then some text else none
  | _ => none

theorem forwardedTracestate_eq_some_iff {text : CodePoints} :
    forwardedTracestate s = some text ↔ s.getContext.get? tracestateKey = some (.str text) ∧
      text ≠ [] ∧ isForwardableTracestate text = true := by
  rw [forwardedTracestate]
  split
  · rename_i bound hbound
    rw [hbound]
    split
    · rename_i h
      simp only [Bool.and_eq_true, decide_eq_true_eq] at h
      simp only [Option.some.injEq, Value.str.injEq]
      constructor
      · rintro rfl
        exact ⟨rfl, h⟩
      · exact fun h => h.1
    · rename_i h
      simp only [Bool.and_eq_true, decide_eq_true_eq] at h
      simp only [Option.some.injEq, Value.str.injEq, reduceCtorEq, false_iff]
      rintro ⟨rfl, hrest⟩
      exact h hrest
  · rename_i hne
    simp only [reduceCtorEq, false_iff]
    exact fun h => hne text h.1

theorem injectTraceparent_of_not (h : ¬ BindsIds s) (headers : Dict CodePoints CodePoints) :
    injectTraceparent s headers = headers := by
  rw [injectTraceparent, if_pos]
  rw [BindsIds] at h
  simpa [← Bool.and_eq_true, ← Bool.not_and] using h

/-- **What is written to an empty mapping.** -/
theorem entries_injectTraceparent {traceId spanId : List Char} (hids : BindsIds s)
    (htrace : s.traceId = some (CodePoints.ofChars traceId))
    (hspan : s.spanId = some (CodePoints.ofChars spanId)) :
    (injectTraceparent s Dict.empty).entries =
      (traceparentKey, writtenTraceparent traceId spanId) ::
        (forwardedTracestate s).toList.map fun text => (tracestateKey, text) := by
  have htext : CodePoints.ofString "00-" ++ CodePoints.ofChars traceId ++ CodePoints.ofString "-" ++
      CodePoints.ofChars spanId ++ CodePoints.ofString "-01" =
        writtenTraceparent traceId spanId := by
    simp [writtenTraceparent, writtenFields, Fields.text, Fields.parts, List.intercalate,
      CodePoints.ofChars, CodePoints.ofString]
  have hkeys : traceparentKey ≠ tracestateKey := by decide
  rw [injectTraceparent, if_neg (by simp [hids.1, hids.2]), htrace, hspan, Option.getD_some,
    Option.getD_some, htext, forwardedTracestate]
  simp only
  split
  · split
    · simp [Dict.set, Dict.empty, assign, hkeys]
    · simp [Dict.set, Dict.empty, assign]
  · simp [Dict.set, Dict.empty, assign]

/-! ### What is read -/

/-- Scalar values are read as they were written. -/
theorem decodeHeaderValue_ofChars (asBytes : Bool) (chars : List Char) :
    decodeHeaderValue (.ofCodePoints asBytes (CodePoints.ofChars chars)) =
      some (CodePoints.ofChars chars) := by
  cases asBytes with
  | false => rfl
  | true =>
      have hdecode : (chars.flatMap String.utf8EncodeChar).toByteArray.utf8Decode? =
          some chars.toArray := List.utf8Decode?_utf8Encode
      rw [HeaderText.ofCodePoints, if_pos rfl, CodePoints.encodeUtf8_ofChars, Utf8.encode]
      simp only [Option.getD_some, decodeHeaderValue, hdecode]

/-- An ASCII character that is not in upper case. -/
def isLowerAscii (c : Char) : Bool :=
  decide (c.toNat < 128) && decide (c.toLower = c) &&
    decide ((String.utf8EncodeChar c).map lowerByte = String.utf8EncodeChar c)

/-- A name in lower case is found as it was written. -/
theorem normalizeHeaderName_ofChars (U : Unicode) (asBytes : Bool) {name : List Char}
    (h : name.all isLowerAscii = true) :
    normalizeHeaderName U (.ofCodePoints asBytes (CodePoints.ofChars name)) =
      some (name.flatMap String.utf8EncodeChar) := by
  simp only [List.all_eq_true, isLowerAscii, Bool.and_eq_true, decide_eq_true_eq] at h
  cases asBytes with
  | false =>
      have hlower : U.lower (CodePoints.ofChars name) = CodePoints.ofChars name := by
        rw [U.lower_ascii name fun c hc => (h c hc).1.1,
          List.map_congr_left fun c hc => (h c hc).1.2, List.map_id']
      have hascii : isascii (CodePoints.ofChars name) = true := by
        rw [isascii, List.all_eq_true]
        intro c hc
        obtain ⟨d, hd, rfl⟩ := List.mem_map.mp hc
        simpa [CodePoint.char?] using (h d hd).1.1
      have hname : HeaderText.ofCodePoints false (CodePoints.ofChars name) =
          .str (CodePoints.ofChars name) := rfl
      rw [hname, normalizeHeaderName, hlower, if_pos hascii, CodePoints.encodeUtf8_ofChars,
        Utf8.encode]
  | true =>
      have hname : HeaderText.ofCodePoints true (CodePoints.ofChars name) =
          .bytes (name.flatMap String.utf8EncodeChar) := by
        rw [HeaderText.ofCodePoints, if_pos rfl, CodePoints.encodeUtf8_ofChars, Utf8.encode,
          Option.getD_some]
      rw [hname, normalizeHeaderName, List.map_flatMap]
      congr 1
      exact List.flatMap_congr fun c hc => (h c hc).2

theorem getHeader_cons (U : Unicode) (e : HeaderText × HeaderText) (headers : Headers)
    (key : List UInt8) : getHeader U (e :: headers) key =
      if normalizeHeaderName U e.1 = some key then decodeHeaderValue e.2
      else getHeader U headers key := by
  rw [getHeader, getHeader]
  by_cases h : normalizeHeaderName U e.1 = some key
  · simp [h]
  · simp [h]

theorem normalizeHeaderName_traceparent (U : Unicode) (asBytes : Bool) :
    normalizeHeaderName U (.ofCodePoints asBytes traceparentKey) = some traceparentBytes :=
  normalizeHeaderName_ofChars U asBytes (by decide)

theorem normalizeHeaderName_tracestate (U : Unicode) (asBytes : Bool) :
    normalizeHeaderName U (.ofCodePoints asBytes tracestateKey) = some tracestateBytes :=
  normalizeHeaderName_ofChars U asBytes (by decide)

/-! ### The grammar -/

theorem isMember_of_matchesMember {member : CodePoints} (h : matchesMember member = true) :
    Tracestate.IsMember (member.map ord) := by
  obtain ⟨rest, hfits, hrest⟩ := Regex.accepts_iff.mp h
  obtain ⟨t, ht, hmember⟩ := Tracestate.fits_memberRe_iff.mp hfits
  rw [List.isEmpty_iff.mp hrest, List.append_nil] at ht
  rwa [ht]

/-- **What is forwarded is safe.** -/
theorem isPrintable_of_forwardable {text : CodePoints} (h : isForwardableTracestate text = true) :
    ∀ c ∈ text, IsPrintable c := by
  have hcomma : IsPrintable (.scalar ',') := .inr (by decide)
  refine (forall_mem_splitOn hcomma text).mp ?_
  intro member hmember c hc
  rw [isForwardableTracestate, List.all_eq_true] at h
  exact (isMember_of_matchesMember (h member hmember)).printable (ord c) (List.mem_map_of_mem hc)

theorem exists_chars_of_isPrintable {text : CodePoints} (h : ∀ c ∈ text, IsPrintable c) :
    ∃ chars, text = CodePoints.ofChars chars := by
  induction text with
  | nil => exact ⟨[], rfl⟩
  | cons c text ih =>
      rw [List.forall_mem_cons] at h
      obtain ⟨chars, hchars⟩ := ih h.2
      cases c with
      | scalar d => exact ⟨d :: chars, by rw [hchars]; rfl⟩
      | surrogate offset =>
          have hprintable := h.1
          simp only [IsPrintable, ord] at hprintable
          omega

theorem isPrintable_writtenTraceparent {traceId spanId : List Char}
    (hvalid : (writtenFields traceId spanId).Valid) :
    ∀ c ∈ writtenTraceparent traceId spanId, IsPrintable c := by
  have hdigit : ∀ c : Char, isHexDigit c = true → IsPrintable (.scalar c) := by
    intro c hc
    have h := Hex.forall_isHexDigit (P := fun c => 0x20 ≤ c.toNat ∧ c.toNat ≤ 0x7e) (by decide) hc
    exact .inr h
  have hdash : ∀ c ∈ [dash], IsPrintable c := by
    simp only [List.mem_singleton, forall_eq]
    exact .inr (by decide)
  rw [writtenTraceparent, ofChars_text, Fields.text, CodePoints.forall_mem_intercalate hdash]
  intro part hpart c hc
  obtain ⟨d, rfl, hd⟩ := isHex_of_mem_map hvalid part hpart c hc
  exact hdigit d hd

/-! ### The round trip -/

theorem tracestate_extract (U : Unicode) (headers : Headers) :
    (extractW3cContext U headers).tracestate =
      dropIf (fun text => !isForwardableTracestate text)
        (dropIf (fun text => maxTracestatePairs < text.count (.scalar ',') + 1)
          (dropIf (fun text => maxHeaderLength < text.length)
            (getHeader U headers tracestateBytes))) := by
  rw [extractW3cContext]
  split <;> rfl

/-- The ids that are written are read. -/
theorem ids_extract {headers : Headers} {h : Fields Char} (hvalid : h.Valid)
    (hheader : getHeader U headers traceparentBytes = some (CodePoints.ofChars (h.text '-'))) :
    (extractW3cContext U headers).traceId = some (CodePoints.ofChars h.ids.traceId) ∧
      (extractW3cContext U headers).spanId = some (CodePoints.ofChars h.ids.spanId) := by
  have hlength : (CodePoints.ofChars (h.text '-')).length = 55 := by
    simp [CodePoints.ofChars, Fields.text, Fields.parts, List.intercalate, hvalid.version,
      hvalid.traceId, hvalid.spanId, hvalid.flags]
  have hkept : dropIf (fun text => maxHeaderLength < text.length)
      (some (CodePoints.ofChars (h.text '-'))) = some (CodePoints.ofChars (h.text '-')) := by
    rw [dropIf, Option.filter_some, if_pos]
    simp [hlength, maxHeaderLength]
  rw [extractW3cContext]
  simp only [hheader, hkept, parseTraceparent_of_valid hvalid]
  exact ⟨rfl, rfl⟩

theorem dropIf_some {test : CodePoints → Bool} {text : CodePoints} (hne : text ≠ []) :
    dropIf test (some text) = if test text = true then none else some text := by
  rw [dropIf, Option.filter_some]
  cases test text <;> simp [hne]

/-- The text that is forwarded is read exactly if it is short. -/
theorem dropIf_forwarded {text : CodePoints} (hne : text ≠ [])
    (hforwardable : isForwardableTracestate text = true) :
    dropIf (fun text => !isForwardableTracestate text)
        (dropIf (fun text => maxTracestatePairs < text.count (.scalar ',') + 1)
          (dropIf (fun text => maxHeaderLength < text.length) (some text))) = some text ↔
      text.length ≤ maxHeaderLength ∧ text.count (.scalar ',') + 1 ≤ maxTracestatePairs := by
  by_cases hlength : maxHeaderLength < text.length
  · rw [dropIf_some hne, if_pos (decide_eq_true hlength)]
    exact iff_of_false (by simp [dropIf]) (by omega)
  · rw [dropIf_some hne, if_neg (by simpa using hlength), dropIf_some hne]
    by_cases hcount : maxTracestatePairs < text.count (.scalar ',') + 1
    · rw [if_pos (decide_eq_true hcount)]
      exact iff_of_false (by simp [dropIf]) (by omega)
    · rw [if_neg (by simpa using hcount), dropIf_some hne, hforwardable]
      exact iff_of_true rfl (by omega)

theorem getHeader_scopeOf {traceId spanId : List Char} (hids : BindsIds s)
    (htrace : s.traceId = some (CodePoints.ofChars traceId))
    (hspan : s.spanId = some (CodePoints.ofChars spanId)) (asBytes : Bool) :
    let headers := scopeOf asBytes (injectTraceparent s Dict.empty)
    getHeader U headers traceparentBytes = some (writtenTraceparent traceId spanId) ∧
      getHeader U headers tracestateBytes = forwardedTracestate s := by
  have hne : traceparentBytes ≠ tracestateBytes := by decide
  intro headers
  have hheaders : headers = (.ofCodePoints asBytes traceparentKey,
      .ofCodePoints asBytes (writtenTraceparent traceId spanId)) ::
        (forwardedTracestate s).toList.map fun text =>
          (.ofCodePoints asBytes tracestateKey, .ofCodePoints asBytes text) := by
    simp only [headers, scopeOf, entries_injectTraceparent hids htrace hspan, List.map_cons,
      List.map_map]
    rfl
  rw [hheaders, getHeader_cons, getHeader_cons, normalizeHeaderName_traceparent, if_pos rfl,
    if_neg (by simpa using hne)]
  refine ⟨decodeHeaderValue_ofChars asBytes _, ?_⟩
  cases hforwarded : forwardedTracestate s with
  | none => rfl
  | some text =>
      obtain ⟨-, -, hforwardable⟩ := forwardedTracestate_eq_some_iff.mp hforwarded
      obtain ⟨chars, rfl⟩ := exists_chars_of_isPrintable (isPrintable_of_forwardable hforwardable)
      rw [Option.toList_some, List.map_singleton, getHeader_cons, normalizeHeaderName_tracestate,
        if_pos rfl, decodeHeaderValue_ofChars]

/-- **When what is written is read as it was bound**: exactly if no `tracestate` is forwarded that
is too long for a reader. -/
theorem roundTrip_iff (U : Unicode) (s : Vars O) : RoundTrip U s ↔ Short s := by
  by_cases hids : BindsIds s
  · obtain ⟨traceId, htrace, hlength, hzeros, hmem⟩ := isInjectableId_iff.mp hids.1
    obtain ⟨spanId, hspan, hlength', hzeros', hmem'⟩ := isInjectableId_iff.mp hids.2
    have hvalid := valid_writtenFields hlength hlength' hzeros hzeros' hmem hmem'
    have hentries := entries_injectTraceparent hids htrace hspan
    have hheaders := getHeader_scopeOf (U := U) hids htrace hspan
    have hwritten : (injectTraceparent s Dict.empty).get? tracestateKey =
        forwardedTracestate s := by
      have hkeys : traceparentKey ≠ tracestateKey := by decide
      rw [Dict.get?, hentries]
      cases forwardedTracestate s <;> simp [hkeys]
    constructor
    · intro h text hbound _ hne hforwardable
      have hforwarded := forwardedTracestate_eq_some_iff.mpr ⟨hbound, hne, hforwardable⟩
      have htracestate := h.tracestate false
      rw [tracestate_extract, (hheaders false).2, hwritten, hforwarded] at htracestate
      exact (dropIf_forwarded hne hforwardable).mp htracestate
    · intro h
      refine ⟨?_, ?_, ?_, fun hnot => absurd hids hnot⟩
      · rw [hentries, List.forall_mem_cons]
        refine ⟨isPrintable_writtenTraceparent hvalid, fun e he => ?_⟩
        obtain ⟨text, htext, rfl⟩ := List.mem_map.mp he
        rw [Option.mem_toList] at htext
        exact isPrintable_of_forwardable (forwardedTracestate_eq_some_iff.mp htext).2.2
      · intro _ asBytes
        have hread := ids_extract hvalid (hheaders asBytes).1
        rw [htrace, hspan]
        simp only [Fields.ids, writtenFields, map_toLower_of_mem hmem, map_toLower_of_mem hmem']
          at hread
        exact hread
      · intro asBytes
        rw [tracestate_extract, (hheaders asBytes).2, hwritten]
        cases hforwarded : forwardedTracestate s with
        | none => rfl
        | some text =>
            obtain ⟨hbound, hne, hforwardable⟩ := forwardedTracestate_eq_some_iff.mp hforwarded
            exact (dropIf_forwarded hne hforwardable).mpr (h text hbound hids hne hforwardable)
  · have hnone := injectTraceparent_of_not hids Dict.empty
    refine iff_of_true ⟨?_, fun h => absurd h hids, ?_, fun _ => hnone⟩ fun _ _ h => absurd h hids
    · rw [hnone]
      intro e he
      cases he
    · intro asBytes
      rw [hnone]
      rfl

/-- A `tracestate` of 33 members. -/
def manyMembers : CodePoints :=
  [.scalar ','].intercalate (List.replicate 33 (CodePoints.ofString "a=1"))

/-- It is bound with valid ids. -/
def manyMembersBound : Vars Unit where
  context := some (Dict.empty.set tracestateKey (.str manyMembers))
  traceId := some (CodePoints.ofString "0af7651916cd43dd8448eb211c80319c")
  spanId := some (CodePoints.ofString "b7ad6b7169203331")

/-- A `tracestate` of 33 members is written, and not read. -/
theorem many_members_written :
    (injectTraceparent manyMembersBound Dict.empty).get? tracestateKey = some manyMembers ∧
      (extractW3cContext asciiOnly
        (scopeOf false (injectTraceparent manyMembersBound Dict.empty))).tracestate = none ∧
      ¬ RoundTrip asciiOnly manyMembersBound := by
  have hwritten : (injectTraceparent manyMembersBound Dict.empty).get? tracestateKey =
      some manyMembers := by decide +kernel
  have hread : (extractW3cContext asciiOnly
      (scopeOf false (injectTraceparent manyMembersBound Dict.empty))).tracestate = none := by
    decide +kernel
  refine ⟨hwritten, hread, fun h => ?_⟩
  have htracestate := h.tracestate false
  rw [hwritten, hread] at htracestate
  cases htracestate

end Telemetry.Propagation.Python
