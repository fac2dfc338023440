import Telemetry.Lib.Utf8
import Mathlib.Data.List.Basic

/-!
# Strings with lone surrogates

A string of a language whose strings are sequences of code points: the scalar values, which
`Char` has, and the surrogates, which no encoding form can write.

## Main definitions

* `CodePoint`, `CodePoints` — the code points, and strings of them.
* `CodePoints.WellFormed` — no surrogate.
* `CodePoints.encodeUtf8`, `CodePoints.encodeUtf16Be` — the encodings.

## Main results

* `CodePoints.isSome_encodeUtf8_iff`, `CodePoints.isSome_encodeUtf16Be_iff` — what can be
  encoded.
* `CodePoints.encodeUtf8_inj` — two strings with one encoding are the same.
-/

namespace Telemetry.Lib

/-- A code point. The surrogates are counted from U+D800. -/
inductive CodePoint
  | scalar (c : Char)
  | surrogate (offset : Fin 2048)
  deriving DecidableEq, Repr

/-- The scalar value, unless it is a surrogate. -/
def CodePoint.char? : CodePoint → Option Char
  | .scalar c => some c
  | .surrogate _ => none

/-- A string of code points. -/
abbrev CodePoints := List CodePoint

namespace CodePoints

instance lawfulBEq : LawfulBEq CodePoints := List.instLawfulBEq

/-- Scalar values as code points. -/
def ofChars (cs : List Char) : CodePoints := cs.map .scalar

/-- A string without surrogates as code points. -/
def ofString (s : String) : CodePoints := ofChars s.toList

/-- No surrogate is in the string. -/
def WellFormed (s : CodePoints) : Prop := ∀ c ∈ s, c.char?.isSome = true

instance (s : CodePoints) : Decidable s.WellFormed :=
  inferInstanceAs (Decidable (∀ c ∈ s, c.char?.isSome = true))

/-- The string as scalar values, if it is one of them. -/
def chars? (s : CodePoints) : Option (List Char) := s.mapM CodePoint.char?

/-- The bytes of a character in UTF-16BE. -/
def utf16BeEncodeChar (c : Char) : List UInt8 :=
  let unit (u : ℕ) : List UInt8 := [(u / 256).toUInt8, (u % 256).toUInt8]
  if c.toNat < 0x10000 then unit c.toNat
  else
    let u := c.toNat - 0x10000
    unit (0xD800 + u / 1024) ++ unit (0xDC00 + u % 1024)

/-- The string in UTF-8. -/
def encodeUtf8 (s : CodePoints) : Option (List UInt8) :=
  s.chars?.map fun cs => cs.flatMap String.utf8EncodeChar

/-- The string in UTF-16BE. -/
def encodeUtf16Be (s : CodePoints) : Option (List UInt8) :=
  s.chars?.map fun cs => cs.flatMap utf16BeEncodeChar

/-! ## Well-formed strings -/

variable {s : CodePoints}

@[simp] theorem wellFormed_cons (c : CodePoint) (s : CodePoints) :
    WellFormed (c :: s) ↔ c.char?.isSome = true ∧ WellFormed s :=
  List.forall_mem_cons

/-- What holds of scalar values holds of a string of them. -/
theorem forall_mem_ofChars {q : CodePoint → Prop} (hq : ∀ c, q (.scalar c)) (cs : List Char) :
    ∀ c ∈ ofChars cs, q c := by
  intro c hc
  rcases List.mem_map.mp hc with ⟨d, -, rfl⟩
  exact hq d

theorem forall_mem_ofString {q : CodePoint → Prop} (hq : ∀ c, q (.scalar c)) (s : String) :
    ∀ c ∈ ofString s, q c :=
  forall_mem_ofChars hq s.toList

@[simp] theorem wellFormed_ofString (s : String) : WellFormed (ofString s) :=
  forall_mem_ofString (fun _ => rfl) s

/-- The code points of parts with a separator between them, if the separator does not matter. -/
theorem forall_mem_intercalate {q : CodePoint → Prop} {sep : CodePoints} (hsep : ∀ c ∈ sep, q c)
    (parts : List CodePoints) :
    (∀ c ∈ sep.intercalate parts, q c) ↔ ∀ part ∈ parts, ∀ c ∈ part, q c := by
  induction parts with
  | nil => simp [List.intercalate]
  | cons part parts ih =>
      cases parts with
      | nil => simp [List.intercalate]
      | cons next parts =>
          rw [List.intercalate_cons_cons, List.forall_mem_append, List.forall_mem_append, ih,
            and_iff_left hsep, List.forall_mem_cons (a := part)]

/-! ## What can be encoded -/

/-- The scalar values of a well-formed string. -/
theorem isSome_chars?_iff : s.chars?.isSome = true ↔ s.WellFormed := by
  rw [chars?]
  induction s with
  | nil => simp [WellFormed]
  | cons c s ih =>
      rw [wellFormed_cons, ← ih, List.mapM_cons]
      cases c.char? with
      | none => simp
      | some d => cases List.mapM CodePoint.char? s <;> simp

theorem chars?_ofChars (cs : List Char) : (ofChars cs).chars? = some cs := by
  induction cs with
  | nil => rfl
  | cons c cs ih =>
      rw [chars?] at ih
      rw [chars?, ofChars, List.map_cons, List.mapM_cons, ← ofChars, ih]
      rfl

theorem encodeUtf8_ofChars (cs : List Char) :
    (ofChars cs).encodeUtf8 = some (Utf8.encode cs) := by
  rw [encodeUtf8, chars?_ofChars]
  rfl

/-- What is well formed consists of scalar values. -/
theorem WellFormed.exists_ofChars (h : s.WellFormed) : ∃ cs, s = ofChars cs := by
  induction s with
  | nil => exact ⟨[], rfl⟩
  | cons c s ih =>
      rw [wellFormed_cons] at h
      obtain ⟨cs, rfl⟩ := ih h.2
      cases c with
      | scalar c => exact ⟨c :: cs, rfl⟩
      | surrogate offset => cases h.1

theorem isSome_encodeUtf8_iff : s.encodeUtf8.isSome = true ↔ s.WellFormed := by
  rw [encodeUtf8, Option.isSome_map, isSome_chars?_iff]

/-- **Two strings with one encoding are the same.** -/
theorem encodeUtf8_inj {t : CodePoints} (hs : s.WellFormed) (h : s.encodeUtf8 = t.encodeUtf8) :
    s = t := by
  have ht : t.WellFormed := by
    rw [← isSome_encodeUtf8_iff, ← h]
    exact isSome_encodeUtf8_iff.mpr hs
  obtain ⟨cs, rfl⟩ := hs.exists_ofChars
  obtain ⟨ds, rfl⟩ := ht.exists_ofChars
  rw [encodeUtf8_ofChars, encodeUtf8_ofChars, Option.some.injEq] at h
  rw [Utf8.encode_injective h]

theorem isSome_encodeUtf16Be_iff : s.encodeUtf16Be.isSome = true ↔ s.WellFormed := by
  rw [encodeUtf16Be, Option.isSome_map, isSome_chars?_iff]

end CodePoints
end Telemetry.Lib
