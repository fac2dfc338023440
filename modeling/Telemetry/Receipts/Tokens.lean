import Telemetry.Lib.Delimited
import Telemetry.Receipts.Doubles

/-!
# The tokens of canonical JSON

The words, numbers and strings of a canonical text, as something that can be told apart: a number
ends before a comma or a closing bracket, a string ends at its closing quote, and the first
character of a value tells what kind of value it is.

## Main definitions

* `Kind`, `kindOf` — the kinds of values, and the one that a first character belongs to.
* `stops` — what ends a number.
* `unescape` — one character of a string, read back.

## Main results

* `splits_jsonString` — two strings in quotes.
* `splits_number` — two numbers.
-/

namespace Telemetry.Receipts.Python

open Telemetry.Lib

/-! ## Kinds -/

/-- The kinds of values that start differently. -/
inductive Kind
  | null
  | true
  | false
  | number
  | string
  | array
  | object
  deriving DecidableEq, Repr

/-- The kind of the value that starts with a character. -/
def kindOf : CodePoint → Option Kind
  | .scalar 'n' => some .null
  | .scalar 't' => some .true
  | .scalar 'f' => some .false
  | .scalar '"' => some .string
  | .scalar '[' => some .array
  | .scalar '{' => some .object
  | .scalar c => if c.isDigit || c == '-' then some .number else none
  | .surrogate _ => none

/-- What comes after a value in a list or a dict. -/
def stops (c : CodePoint) : Prop := c = .scalar ',' ∨ c = .scalar ']' ∨ c = .scalar '\x7d'

/-- A text that starts as the texts of a kind do. -/
def StartsAs (kind : Kind) (text : CodePoints) : Prop :=
  ∃ c rest, text = c :: rest ∧ kindOf c = some kind

/-- Texts of different kinds start differently. -/
theorem splits_of_kind_ne {k k' : Kind} {s t : CodePoints} {Q : Prop} (hs : StartsAs k s)
    (ht : StartsAs k' t) (hne : k ≠ k') : Splits stops s t Q := by
  rcases hs with ⟨c, s, rfl, hc⟩
  rcases ht with ⟨d, t, rfl, hd⟩
  apply splits_of_head_ne
  rintro rfl
  rw [hc, Option.some.injEq] at hd
  exact hne hd

/-- No value starts with a stop. -/
theorem StartsAs.head_ne {k : Kind} {text : CodePoints} (h : StartsAs k text) {close : CodePoint}
    (hclose : kindOf close = none) : ∃ c s, text = c :: s ∧ c ≠ close := by
  rcases h with ⟨c, s, rfl, hc⟩
  refine ⟨c, s, rfl, ?_⟩
  rintro rfl
  rw [hclose] at hc
  cases hc

/-! ## Strings -/

/-- The digits of a `\u` escape, read back. -/
def hexValue (digits : List Char) : ℕ :=
  digits.foldl (fun n c => 16 * n + (if c.isDigit then c.toNat - 48 else c.toNat - 87)) 0

/-- The character that a short escape stands for. -/
def unescapeChar : Char → Char
  | 'n' => '\n'
  | 'r' => '\r'
  | 't' => '\t'
  | 'f' => '\x0c'
  | 'b' => '\x08'
  | c => c

/-- The first character of the inside of a string, and what is left of it. -/
def unescape : CodePoints → Option (CodePoint × CodePoints)
  | .scalar '\\' :: .scalar 'u' :: .scalar a :: .scalar b :: .scalar c :: .scalar d :: rest =>
      some (.scalar (Char.ofNat (hexValue [a, b, c, d])), rest)
  | .scalar '\\' :: .scalar c :: rest => some (.scalar (unescapeChar c), rest)
  | c :: rest => some (c, rest)
  | [] => none

/-- A control character has four digits, and is read back from them. -/
theorem hex4_of_lt {n : ℕ} (h : n < 32) :
    ∃ a b c d, hex4 n = [a, b, c, d] ∧ hexValue [a, b, c, d] = n := by
  have hall : ∀ n : Fin 32, (hex4 n).length = 4 ∧ hexValue (hex4 n) = n := by decide
  rcases hall ⟨n, h⟩ with ⟨hlength, hvalue⟩
  match hex4 n, hlength, hvalue with
  | [a, b, c, d], _, hvalue => exact ⟨a, b, c, d, rfl, hvalue⟩

/-- **An escape is read back.** -/
theorem unescape_escape (c : CodePoint) (rest : CodePoints) :
    unescape (escape c ++ rest) = some (c, rest) := by
  rw [escape.eq_def]
  split
  any_goals rfl
  rename_i d _ hbackslash _ _ _ _ _
  split
  · rename_i hcontrol
    rcases hex4_of_lt hcontrol with ⟨h₁, h₂, h₃, h₄, hhex, hvalue⟩
    simp only [hhex, CodePoints.ofChars, List.map_cons, List.map_nil, List.cons_append,
      List.nil_append, unescape, hvalue, Char.ofNat_toNat]
  · rw [List.singleton_append]
    unfold unescape
    split
    · rename_i heq
      exact absurd (CodePoint.scalar.inj (List.cons.inj heq).1) hbackslash
    · rename_i heq
      exact absurd (CodePoint.scalar.inj (List.cons.inj heq).1) hbackslash
    · rename_i heq
      rw [(List.cons.inj heq).1, (List.cons.inj heq).2]
    · rename_i heq
      cases heq

/-- A quotation mark ends the inside of a string: no escape starts with one. -/
theorem quote_cons_ne_escape (c : CodePoint) (r rest : CodePoints) :
    CodePoint.scalar '"' :: r ≠ escape c ++ rest := by
  intro h
  have hread := unescape_escape c rest
  rw [← h] at hread
  have hc : CodePoint.scalar '"' = c := (Prod.mk.inj (Option.some.inj hread)).1
  rw [← hc] at h
  exact absurd (List.cons.inj h).1 (by decide)

/-- The insides of two strings. -/
theorem splits_escaped (s t : CodePoints) :
    SplitsAlways (s.flatMap escape ++ CodePoints.ofString "\"")
      (t.flatMap escape ++ CodePoints.ofString "\"") (s = t) := by
  intro r r' _ _ heq
  have hquote : CodePoints.ofString "\"" = [.scalar '"'] := rfl
  induction s generalizing t with
  | nil =>
      cases t with
      | nil => exact ⟨rfl, List.append_cancel_left heq⟩
      | cons d t =>
          simp only [hquote, List.flatMap_cons, List.append_assoc] at heq
          exact absurd heq (quote_cons_ne_escape d _ _)
  | cons c s ih =>
      cases t with
      | nil =>
          simp only [hquote, List.flatMap_cons, List.append_assoc] at heq
          exact absurd heq.symm (quote_cons_ne_escape c _ _)
      | cons d t =>
          simp only [List.flatMap_cons, List.append_assoc] at heq
          have hread := congrArg unescape heq
          rw [unescape_escape, unescape_escape, Option.some.injEq, Prod.mk.injEq] at hread
          rcases ih t (by simpa only [List.append_assoc] using hread.2) with ⟨hst, hr⟩
          exact ⟨by rw [hread.1, hst], hr⟩

/-- **Two strings in quotes** are the same string. -/
theorem splits_jsonString (s t : CodePoints) :
    SplitsAlways (jsonString s) (jsonString t) (s = t) := by
  rw [jsonString, jsonString, List.append_assoc, List.append_assoc]
  exact (splits_escaped s t).append_left _

theorem startsAs_jsonString (s : CodePoints) : StartsAs .string (jsonString s) :=
  ⟨.scalar '"', s.flatMap escape ++ CodePoints.ofString "\"", rfl, rfl⟩

/-! ## Numbers -/

/-- A character of a number. -/
def isNumberChar (c : Char) : Bool := c.isDigit || c == '-' || c == '+' || c == '.' || c == 'e'

/-- The texts of numbers: their characters, and how they start. -/
structure NumberText (cs : List Char) : Prop where
  chars : ∀ c ∈ cs, isNumberChar c = true
  head : ∃ c rest, cs = c :: rest ∧ (c.isDigit || c == '-') = true

theorem isNumberChar_of_isDigit {c : Char} (h : c.isDigit = true) : isNumberChar c = true := by
  simp [isNumberChar, h]

theorem isNumberChar_toDigits (n : ℕ) : ∀ c ∈ Nat.toDigits 10 n, isNumberChar c = true :=
  fun _ hc => isNumberChar_of_isDigit (Nat.isDigit_of_mem_toDigits (by decide) (by decide) hc)

theorem isNumberChar_signed (n : ℤ) : ∀ c ∈ signed n (Nat.toDigits 10), isNumberChar c = true := by
  rw [signed, List.forall_mem_cons]
  constructor
  · split <;> rfl
  · exact isNumberChar_toDigits _

theorem isNumberChar_formatSignificand {digits text : List Char} {n : ℤ}
    (hdigits : ∀ c ∈ digits, isNumberChar c = true)
    (h : formatSignificand digits n = .ok text) : ∀ c ∈ text, isNumberChar c = true := by
  have hzeros : ∀ k : ℕ, ∀ c ∈ List.replicate k '0', isNumberChar c = true := by
    intro k c hc
    rw [List.eq_of_mem_replicate hc]
    rfl
  have hexponent : ∀ c ∈ 'e' :: signed (n - 1) (Nat.toDigits 10), isNumberChar c = true :=
    List.forall_mem_cons.mpr ⟨rfl, isNumberChar_signed _⟩
  have hpoint : isNumberChar '.' = true := rfl
  rw [formatSignificand] at h
  split at h
  · obtain ⟨d, rest, rfl, rfl⟩ := exists_of_exponential h
    rw [mantissa]
    split
    · exact List.forall_mem_cons.mpr ⟨hdigits d List.mem_cons_self, hexponent⟩
    · rw [List.forall_mem_cons] at hdigits
      exact List.forall_mem_append.mpr
        ⟨List.forall_mem_cons.mpr ⟨hdigits.1, List.forall_mem_cons.mpr ⟨hpoint, hdigits.2⟩⟩,
          hexponent⟩
  · split at h
    · cases h
      exact List.forall_mem_append.mpr ⟨hdigits, hzeros _⟩
    · split at h
      · cases h
        rw [List.forall_mem_append, List.forall_mem_cons]
        exact ⟨fun c hc => hdigits c (List.mem_of_mem_take hc), hpoint,
          fun c hc => hdigits c (List.mem_of_mem_drop hc)⟩
      · cases h
        rw [List.forall_mem_append, List.forall_mem_cons, List.forall_mem_cons]
        exact ⟨⟨rfl, hpoint, hzeros _⟩, hdigits⟩

theorem numberText_formatNumber {x : PyFloat} {text : List Char} (h : formatNumber x = .ok text) :
    NumberText text := by
  cases x with
  | zero negative =>
      cases h
      exact ⟨List.forall_mem_singleton.mpr rfl, '0', [], rfl, rfl⟩
  | nonzero negative x =>
      obtain ⟨significand, hsignificand, rfl⟩ := exists_significand h
      have hchars : ∀ c ∈ significand, isNumberChar c = true :=
        isNumberChar_formatSignificand
          (fun c hc => isNumberChar_of_isDigit (isDigit_of_mem_map c hc)) hsignificand
      rcases head_formatSignificand isDigit_of_mem_map (by simpa using x.ne_nil) hsignificand
        with ⟨c, rest, rfl, hc⟩
      cases negative with
      | false => exact ⟨hchars, c, rest, rfl, by rw [hc, Bool.true_or]⟩
      | true => exact ⟨List.forall_mem_cons.mpr ⟨rfl, hchars⟩, '-', _, rfl, rfl⟩
  | inf negative => cases h
  | nan => cases h

theorem numberText_of_strInt {n : ℤ} {text : CodePoints} (h : strInt n = .ok text) :
    ∃ cs, text = CodePoints.ofChars cs ∧ NumberText cs := by
  rw [strInt] at h
  split at h
  · cases h
  · cases h
    refine ⟨_, rfl, ?_⟩
    have hdigits := isNumberChar_toDigits n.natAbs
    split
    · exact ⟨List.forall_mem_cons.mpr ⟨rfl, hdigits⟩, '-', _, rfl, rfl⟩
    · cases hcs : Nat.toDigits 10 n.natAbs with
      | nil => exact absurd hcs Nat.toDigits_ne_nil
      | cons c cs =>
          rw [hcs] at hdigits
          have hc : c.isDigit = true :=
            Nat.isDigit_of_mem_toDigits (b := 10) (by decide) (by decide) (by rw [hcs]; simp)
          exact ⟨hdigits, c, cs, rfl, by rw [hc, Bool.true_or]⟩

/-- A number's text has no stops. -/
theorem NumberText.free {cs : List Char} (h : NumberText cs) :
    ∀ c ∈ CodePoints.ofChars cs, ¬ stops c := by
  intro c hc
  rcases List.mem_map.mp hc with ⟨d, hd, rfl⟩
  have hnumber := h.chars d hd
  rintro (heq | heq | heq) <;> rw [CodePoint.scalar.inj heq] at hnumber <;>
    exact absurd hnumber (by decide)

theorem NumberText.startsAs {cs : List Char} (h : NumberText cs) :
    StartsAs .number (CodePoints.ofChars cs) := by
  rcases h.head with ⟨c, rest, rfl, hc⟩
  refine ⟨.scalar c, CodePoints.ofChars rest, rfl, ?_⟩
  rw [kindOf.eq_def]
  split
  case h_7 => rename_i heq; rw [← CodePoint.scalar.inj heq, if_pos hc]
  case h_8 => rename_i heq; cases heq
  all_goals
    rename_i heq
    rw [CodePoint.scalar.inj heq] at hc
    exact absurd hc (by decide)

/-- **Two numbers' texts** are one text. -/
theorem splits_number {cs ds : List Char} (hcs : NumberText cs) (hds : NumberText ds) :
    Splits stops (CodePoints.ofChars cs) (CodePoints.ofChars ds) (cs = ds) :=
  (splits_of_free hcs.free hds.free).imp ofChars_injective

end Telemetry.Receipts.Python
