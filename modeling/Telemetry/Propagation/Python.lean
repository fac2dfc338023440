import Telemetry.Propagation.Traceparent

/-!
# Parsing `traceparent` in the Python SDK

`_parse_traceparent` of `propagation.py` checks the widths of the fields and asks `int(…, 16)`
whether they are hexadecimal. That function takes white space, signs, marks, underscores and
decimal digits of any script, so a field of the right width need not consist of hexadecimal digits.

## Main definitions

* `Unicode` — what Python knows about the characters that are not ASCII.
* `int16` — whether `int(text, 16)` returns.
* `parseTraceparent` — the parser.
* `Lenient` — the headers that are taken although a field is no hexadecimal one.

## Main results

* `parsesExactly_iff` — **the parser accepts its grammar at every header but the lenient ones**.
-/

namespace Telemetry.Propagation.Python

open Telemetry.Lib

/-- The character tables of Python, and its `str.lower`. -/
structure Unicode where
  /-- `Py_UNICODE_ISSPACE`. -/
  isSpace : CodePoint → Bool
  /-- `Py_UNICODE_TODECIMAL`. -/
  toDecimal : CodePoint → Option (Fin 10)
  lower : CodePoints → CodePoints
  lower_ascii : ∀ s : List Char, (∀ c ∈ s, c.toNat < 128) →
    lower (CodePoints.ofChars s) = CodePoints.ofChars (s.map Char.toLower)

/-- The character that `_PyUnicode_TransformDecimalAndSpaceToASCII` puts for one. -/
def Unicode.toAscii (U : Unicode) (c : CodePoint) : Option Char :=
  match c.char?.filter fun d => d.toNat < 127 with
  | some d => some d
  | none =>
      if U.isSpace c then some ' '
      else (U.toDecimal c).map fun d => Char.ofNat (48 + d)

/-- `_PyUnicode_TransformDecimalAndSpaceToASCII`, which stops at a character that is none of
them. -/
def transformDecimalAndSpaceToAscii (U : Unicode) : CodePoints → List Char
  | [] => []
  | c :: text =>
      match U.toAscii c with
      | some d => d :: transformDecimalAndSpaceToAscii U text
      | none => ['?']

/-- Whether `int(text, 16)` returns. -/
def int16 (U : Unicode) (text : CodePoints) : Bool :=
  Hex.accepts (transformDecimalAndSpaceToAscii U text)

/-- The dash. -/
def dash : CodePoint := .scalar '-'

/-- `"0" * n`. -/
def zeros (n : ℕ) : CodePoints := List.replicate n (.scalar '0')

/-- `_parse_traceparent`, where nothing is the pair of two times `None`. -/
def parseTraceparent (U : Unicode) : Option CodePoints → Option (Ids CodePoint)
  | none => none
  | some value =>
      match Fields.ofText dash value with
      | none => none
      | some ⟨version, traceId, spanId, traceFlags⟩ =>
          if version.length ≠ 2 ∨ traceId.length ≠ 32 ∨ spanId.length ≠ 16 ∨
              traceFlags.length ≠ 2 then none
          else if traceId = zeros 32 ∨ spanId = zeros 16 then none
          else if U.lower version = CodePoints.ofString "ff" then none
          else if int16 U version && int16 U traceId && int16 U spanId && int16 U traceFlags then
            some ⟨U.lower traceId, U.lower spanId⟩
          else none

/-- Ids of scalar values. -/
def ofChars (ids : Ids Char) : Ids CodePoint where
  traceId := CodePoints.ofChars ids.traceId
  spanId := CodePoints.ofChars ids.spanId

/-- A code point that is a hexadecimal digit. -/
def IsHex (c : CodePoint) : Prop := ∃ d, c = .scalar d ∧ isHexDigit d = true

/-- The header is taken if and only if it is a `traceparent`, and then its ids are returned in
lower case, and have lower-case hexadecimal digits only. -/
structure ParsesExactly (U : Unicode) (s : CodePoints) : Prop where
  returns_iff : (parseTraceparent U (some s)).isSome ↔
    ∃ h : Fields Char, h.Valid ∧ s = CodePoints.ofChars (h.text '-')
  ids : ∀ (ids : Ids CodePoint) (h : Fields Char), parseTraceparent U (some s) = some ids →
    h.Valid → s = CodePoints.ofChars (h.text '-') →
      ids = ofChars h.ids ∧ ∀ c ∈ h.ids.traceId ++ h.ids.spanId, c ∈ lowerHexDigits

/-- A header whose fields have their widths and are all taken by `int`, though some character of
them is no hexadecimal digit. -/
structure Lenient (U : Unicode) (h : Fields CodePoint) : Prop extends h.Sized where
  dash_notMem : ∀ part ∈ h.parts, dash ∉ part
  literal : ∀ part ∈ h.parts, Hex.IsLiteral (transformDecimalAndSpaceToAscii U part)
  traceId_ne : h.traceId ≠ zeros 32
  spanId_ne : h.spanId ≠ zeros 16
  version_ne : U.lower h.version ≠ CodePoints.ofString "ff"
  not_hex : ∃ part ∈ h.parts, ∃ c ∈ part, ¬ IsHex c

variable {U : Unicode} {s : CodePoints}

/-- **What is returned.** -/
theorem parseTraceparent_eq_some_iff {ids : Ids CodePoint} :
    parseTraceparent U (some s) = some ids ↔ ∃ h : Fields CodePoint,
      s = h.text dash ∧ (∀ part ∈ h.parts, dash ∉ part) ∧ h.Sized ∧
        h.traceId ≠ zeros 32 ∧ h.spanId ≠ zeros 16 ∧ U.lower h.version ≠ CodePoints.ofString "ff" ∧
        (∀ part ∈ h.parts, Hex.IsLiteral (transformDecimalAndSpaceToAscii U part)) ∧
        ids = ⟨U.lower h.traceId, U.lower h.spanId⟩ := by
  have hchecks : ∀ h : Fields CodePoint,
      (int16 U h.version && int16 U h.traceId && int16 U h.spanId && int16 U h.flags) = true ↔
        ∀ part ∈ h.parts, Hex.IsLiteral (transformDecimalAndSpaceToAscii U part) := by
    intro h
    simp only [int16, Bool.and_eq_true, Hex.accepts_iff, Fields.parts, List.forall_mem_cons,
      List.not_mem_nil, false_implies, implies_true, and_true, and_assoc]
  have hsplit : ∀ (h : Fields CodePoint) (P : Prop),
      (s = h.text dash ∧ (∀ part ∈ h.parts, dash ∉ part) ∧ P) ↔
        Fields.ofText dash s = some h ∧ P := fun h P => by
    rw [Fields.ofText_eq_some_iff, and_assoc]
  rw [parseTraceparent]
  simp only [hsplit]
  cases Fields.ofText dash s with
  | none => simp
  | some h =>
      obtain ⟨version, traceId, spanId, traceFlags⟩ := h
      simp only [Option.some.injEq, exists_eq_left', Option.ite_none_left_eq_some,
        Option.ite_none_right_eq_some, not_or, not_not, ← hchecks]
      constructor
      · intro haccepted
        obtain ⟨⟨hv, ht, hp, hf⟩, ⟨htrace, hspan⟩, hversion, hint, hids⟩ := haccepted
        exact ⟨⟨hv, ht, hp, hf⟩, htrace, hspan, hversion, hint, hids.symm⟩
      · intro haccepted
        obtain ⟨hsized, htrace, hspan, hversion, hint, hids⟩ := haccepted
        exact ⟨⟨hsized.version, hsized.traceId, hsized.spanId, hsized.flags⟩, ⟨htrace, hspan⟩,
          hversion, hint, hids.symm⟩

/-! ## Hexadecimal fields -/

theorem toAscii_scalar {c : Char} (hc : c.toNat < 127) : U.toAscii (.scalar c) = some c := by
  have hfilter : (CodePoint.scalar c).char?.filter (fun d => d.toNat < 127) = some c := by
    rw [CodePoint.char?, Option.filter_some, if_pos (by simpa using hc)]
  rw [Unicode.toAscii, hfilter]

theorem toNat_lt_of_isHexDigit {c : Char} (h : isHexDigit c = true) : c.toNat < 127 :=
  Hex.forall_isHexDigit (P := fun c => c.toNat < 127) (by decide) h

/-- ASCII characters are kept. -/
theorem transform_ofChars {text : List Char} (h : ∀ c ∈ text, isHexDigit c = true) :
    transformDecimalAndSpaceToAscii U (CodePoints.ofChars text) = text := by
  induction text with
  | nil => rfl
  | cons c text ih =>
      rw [List.forall_mem_cons] at h
      rw [CodePoints.ofChars, List.map_cons, transformDecimalAndSpaceToAscii,
        toAscii_scalar (toNat_lt_of_isHexDigit h.1)]
      exact congrArg (c :: ·) (ih h.2)

/-- A hexadecimal field is taken. -/
theorem isLiteral_of_hex {text : List Char} (hne : text ≠ [])
    (h : ∀ c ∈ text, isHexDigit c = true) : Hex.IsLiteral text :=
  ⟨[], [], [], text, [], by simp, by simp, by simp, by simp [Hex.marks],
    Hex.grouped_of_forall hne h, by simp⟩

theorem lower_ofChars {text : List Char} (h : ∀ c ∈ text, isHexDigit c = true) :
    U.lower (CodePoints.ofChars text) = CodePoints.ofChars (text.map Char.toLower) :=
  U.lower_ascii text fun c hc => Nat.lt_succ_of_lt (toNat_lt_of_isHexDigit (h c hc))

/-- Fields of hexadecimal digits are fields of characters. -/
theorem exists_chars {part : CodePoints} (h : ∀ c ∈ part, IsHex c) :
    ∃ text, part = CodePoints.ofChars text ∧ ∀ c ∈ text, isHexDigit c = true := by
  induction part with
  | nil => exact ⟨[], rfl, by simp⟩
  | cons c part ih =>
      rw [List.forall_mem_cons] at h
      rcases h.1 with ⟨d, rfl, hd⟩
      rcases ih h.2 with ⟨text, rfl, htext⟩
      exact ⟨d :: text, rfl, List.forall_mem_cons.mpr ⟨hd, htext⟩⟩

/-- A header of characters. -/
theorem ofChars_text (h : Fields Char) :
    CodePoints.ofChars (h.text '-') = (h.map CodePoint.scalar).text dash :=
  Fields.map_text _ _ _

theorem isHex_of_mem_map {h : Fields Char} (hvalid : h.Valid) :
    ∀ part ∈ (h.map CodePoint.scalar).parts, ∀ c ∈ part, IsHex c := by
  intro part hpart c hc
  rw [Fields.parts_map] at hpart
  rcases List.mem_map.mp hpart with ⟨text, htext, rfl⟩
  rcases List.mem_map.mp hc with ⟨d, hd, rfl⟩
  exact ⟨d, rfl, hvalid.hex text htext d hd⟩

/-- No field of hexadecimal digits has a dash. -/
theorem dash_notMem_of_hex {part : CodePoints} (h : ∀ c ∈ part, IsHex c) : dash ∉ part := by
  intro hmem
  rcases h _ hmem with ⟨d, hd, hhex⟩
  cases hd
  exact absurd hhex (by decide)

/-- **A `traceparent` is taken**, and its ids are returned in lower case. -/
theorem parseTraceparent_of_valid {h : Fields Char} (hvalid : h.Valid) :
    parseTraceparent U (some (CodePoints.ofChars (h.text '-'))) = some (ofChars h.ids) := by
  have hhex := isHex_of_mem_map hvalid
  have hmem : ∀ {part}, part ∈ h.parts → ∀ c ∈ part, isHexDigit c = true :=
    fun hpart => hvalid.hex _ hpart
  have hversion : h.version ∈ h.parts := by simp [Fields.parts]
  have htrace : h.traceId ∈ h.parts := by simp [Fields.parts]
  have hspan : h.spanId ∈ h.parts := by simp [Fields.parts]
  have hinjective : ∀ {a b : List Char}, CodePoints.ofChars a = CodePoints.ofChars b → a = b :=
    fun heq => List.map_injective_iff.mpr (fun _ _ => CodePoint.scalar.inj) heq
  have hzeros : ∀ n, zeros n = CodePoints.ofChars (List.replicate n '0') := by
    intro n
    rw [CodePoints.ofChars, List.map_replicate]
    rfl
  refine parseTraceparent_eq_some_iff.mpr
    ⟨h.map .scalar, ofChars_text h, ?_, ?_, ?_, ?_, ?_, ?_, ?_⟩
  · exact fun part hpart => dash_notMem_of_hex (hhex part hpart)
  · constructor <;> simp [Fields.map, hvalid.version, hvalid.traceId, hvalid.spanId, hvalid.flags]
  · rw [hzeros]
    exact fun heq => hvalid.traceId_ne (hinjective heq)
  · rw [hzeros]
    exact fun heq => hvalid.spanId_ne (hinjective heq)
  · change U.lower (CodePoints.ofChars h.version) ≠ _
    rw [lower_ofChars (hmem hversion)]
    exact fun heq => hvalid.version_ne (hinjective heq)
  · intro part hpart
    rw [Fields.parts_map] at hpart
    rcases List.mem_map.mp hpart with ⟨text, htext, rfl⟩
    have hliteral := transform_ofChars (U := U) (hmem htext)
    rw [CodePoints.ofChars] at hliteral
    rw [hliteral]
    apply isLiteral_of_hex _ (hmem htext)
    rintro rfl
    have hlength := hvalid.toSized
    simp only [Fields.parts, List.mem_cons, List.not_mem_nil, or_false] at htext
    rcases htext with htext | htext | htext | htext
    · exact absurd hlength.version (by simp [← htext])
    · exact absurd hlength.traceId (by simp [← htext])
    · exact absurd hlength.spanId (by simp [← htext])
    · exact absurd hlength.flags (by simp [← htext])
  · have htrace' := lower_ofChars (U := U) (hmem htrace)
    have hspan' := lower_ofChars (U := U) (hmem hspan)
    rw [CodePoints.ofChars] at htrace' hspan'
    rw [Fields.map, htrace', hspan']
    rfl

/-- Fields that are taken and have hexadecimal digits only are those of a `traceparent`. -/
theorem exists_valid {h : Fields CodePoint} (hsized : h.Sized) (htrace : h.traceId ≠ zeros 32)
    (hspan : h.spanId ≠ zeros 16) (hversion : U.lower h.version ≠ CodePoints.ofString "ff")
    (hhex : ∀ part ∈ h.parts, ∀ c ∈ part, IsHex c) :
    ∃ h' : Fields Char, h'.Valid ∧ h = h'.map CodePoint.scalar := by
  rcases h with ⟨version, traceId, spanId, flags⟩
  simp only [Fields.parts, List.forall_mem_cons, List.not_mem_nil, false_implies, implies_true,
    and_true] at hhex
  rcases exists_chars hhex.1 with ⟨v, rfl, hv⟩
  rcases exists_chars hhex.2.1 with ⟨t, rfl, ht⟩
  rcases exists_chars hhex.2.2.1 with ⟨p, rfl, hp⟩
  rcases exists_chars hhex.2.2.2 with ⟨f, rfl, hf⟩
  have hlength : ∀ cs : List Char, (CodePoints.ofChars cs).length = cs.length :=
    fun cs => List.length_map _
  refine ⟨⟨v, t, p, f⟩, ⟨⟨?_, ?_, ?_, ?_⟩, ?_, ?_, ?_, ?_⟩, rfl⟩
  · rw [← hlength, hsized.version]
  · rw [← hlength, hsized.traceId]
  · rw [← hlength, hsized.spanId]
  · rw [← hlength, hsized.flags]
  · simp only [Fields.parts, List.forall_mem_cons, List.not_mem_nil, false_implies, implies_true,
      and_true]
    exact ⟨hv, ht, hp, hf⟩
  · rw [lower_ofChars hv] at hversion
    exact fun heq => hversion (congrArg CodePoints.ofChars heq)
  · rintro rfl
    exact htrace (List.map_replicate ..)
  · rintro rfl
    exact hspan (List.map_replicate ..)

/-- **The parser accepts its grammar at every header but the lenient ones.** -/
theorem parsesExactly_iff : ParsesExactly U s ↔ ¬ ∃ h, Lenient U h ∧ s = h.text dash := by
  constructor
  · rintro hexact ⟨h, hlenient, rfl⟩
    have hreturns := parseTraceparent_eq_some_iff.mpr ⟨h, rfl, hlenient.dash_notMem,
      hlenient.toSized, hlenient.traceId_ne, hlenient.spanId_ne, hlenient.version_ne,
      hlenient.literal, rfl⟩
    rcases hexact.returns_iff.mp (by rw [hreturns]; rfl) with ⟨h', hvalid, heq⟩
    -- the fields of the header are found in one way only
    have hhex := isHex_of_mem_map hvalid
    have hfields : Fields.ofText dash (h.text dash) = some (h'.map .scalar) := by
      rw [heq, ofChars_text]
      exact Fields.ofText_eq_some_iff.mpr
        ⟨rfl, fun part hpart => dash_notMem_of_hex (hhex part hpart)⟩
    rw [Fields.ofText_eq_some_iff.mpr ⟨rfl, hlenient.dash_notMem⟩, Option.some.injEq] at hfields
    rcases hlenient.not_hex with ⟨part, hpart, c, hc, hnot⟩
    rw [hfields] at hpart
    exact hnot (hhex part hpart c hc)
  · intro hstrict
    refine ⟨⟨?_, ?_⟩, ?_⟩
    · intro hsome
      rcases Option.isSome_iff_exists.mp hsome with ⟨ids, hids⟩
      rcases parseTraceparent_eq_some_iff.mp hids with
        ⟨h, rfl, hfree, hsized, htrace, hspan, hversion, hliteral, -⟩
      have hhex : ∀ part ∈ h.parts, ∀ c ∈ part, IsHex c := by
        by_contra hnot
        push Not at hnot
        exact hstrict ⟨h, ⟨hsized, hfree, hliteral, htrace, hspan, hversion, hnot⟩, rfl⟩
      rcases exists_valid hsized htrace hspan hversion hhex with ⟨h', hvalid, rfl⟩
      exact ⟨h', hvalid, (ofChars_text h').symm⟩
    · rintro ⟨h, hvalid, rfl⟩
      rw [parseTraceparent_of_valid hvalid]
      rfl
    · rintro ids h hids hvalid rfl
      rw [parseTraceparent_of_valid hvalid, Option.some.injEq] at hids
      exact ⟨hids.symm, hvalid.mem_lowerHexDigits⟩

/-- Characters that are not ASCII are neither spaces nor digits, and have one case. -/
def asciiOnly : Unicode where
  isSpace := fun _ => false
  toDecimal := fun _ => none
  lower := fun text => text.map fun
    | .scalar c => .scalar c.toLower
    | c => c
  lower_ascii := fun s _ => by
    rw [CodePoints.ofChars, CodePoints.ofChars, List.map_map, List.map_map]
    rfl

/-- A trace id that starts with a line feed is returned. -/
theorem line_feed_in_traceId :
    let s := CodePoints.ofString "00-\naf7651916cd43dd8448eb211c80319c-b7ad6b7169203331-01"
    parseTraceparent asciiOnly (some s) =
        some ⟨CodePoints.ofString "\naf7651916cd43dd8448eb211c80319c",
          CodePoints.ofString "b7ad6b7169203331"⟩ ∧
      ¬ ParsesExactly asciiOnly s := by
  have hreturns : parseTraceparent asciiOnly
      (some (CodePoints.ofString "00-\naf7651916cd43dd8448eb211c80319c-b7ad6b7169203331-01")) =
        some ⟨CodePoints.ofString "\naf7651916cd43dd8448eb211c80319c",
          CodePoints.ofString "b7ad6b7169203331"⟩ := by decide +kernel
  refine ⟨hreturns, fun hexact => ?_⟩
  rcases hexact.returns_iff.mp (by rw [hreturns]; rfl) with ⟨h, hvalid, heq⟩
  have hids := parseTraceparent_of_valid (U := asciiOnly) hvalid
  rw [← heq, hreturns, Option.some.injEq] at hids
  have htrace := congrArg Ids.traceId hids
  have hmem : CodePoint.scalar '\n' ∈ (ofChars h.ids).traceId := by
    rw [← htrace]
    decide
  rcases List.mem_map.mp hmem with ⟨c, hc, hline⟩
  rw [CodePoint.scalar.inj hline] at hc
  exact absurd (hvalid.mem_lowerHexDigits _ (List.mem_append_left _ hc)) (by decide)

end Telemetry.Propagation.Python
