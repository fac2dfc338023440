import Mathlib.Data.List.TakeWhile

/-!
# Hexadecimal texts

A hexadecimal digit is one of twenty-two ASCII characters. What CPython's `int(text, 16)` takes
for a hexadecimal number is much more: white space around it, a sign, a mark `0x`, and single
underscores between the digits.

## Main definitions

* `isHexDigit` — a hexadecimal digit.
* `Hex.accepts` — `PyLong_FromString` with base 16, as it goes through the text.
* `Hex.IsLiteral` — the texts that it is meant for.

## Main results

* `Hex.accepts_iff` — **what is accepted**.
-/

namespace Telemetry.Lib

/-- A hexadecimal digit, in upper or lower case. -/
def isHexDigit (c : Char) : Bool :=
  ('0' ≤ c && c ≤ '9') || ('a' ≤ c && c ≤ 'f') || ('A' ≤ c && c ≤ 'F')

/-- The digits in lower case. -/
def lowerHexDigits : List Char := "0123456789abcdef".toList

namespace Hex

/-- All digits. -/
def digits : List Char := "0123456789abcdefABCDEF".toList

theorem mem_digits_iff {c : Char} : c ∈ digits ↔ isHexDigit c = true := by
  constructor
  · intro hc
    exact List.all_eq_true.mp (by decide : digits.all isHexDigit = true) c hc
  · intro hc
    have hrange : ∀ n, n < 103 → isHexDigit (Char.ofNat n) = true → Char.ofNat n ∈ digits := by
      decide
    have hlt : c.toNat < 103 := by
      have hf : c ≤ 'f' := by
        simp only [isHexDigit, Bool.or_eq_true, Bool.and_eq_true, decide_eq_true_eq] at hc
        rcases hc with (⟨-, hle⟩ | ⟨-, hle⟩) | ⟨-, hle⟩
        · exact Char.le_trans hle (by decide)
        · exact hle
        · exact Char.le_trans hle (by decide)
      exact Nat.lt_succ_of_le hf
    have hmem := hrange c.toNat hlt
    rw [Char.ofNat_toNat] at hmem
    exact hmem hc

/-- What holds of every digit can be checked one by one. -/
theorem forall_isHexDigit {P : Char → Prop} [DecidablePred P]
    (h : digits.all (fun c => P c) = true) {c : Char}
    (hc : isHexDigit c = true) : P c :=
  of_decide_eq_true (List.all_eq_true.mp h c (mem_digits_iff.mpr hc))

theorem toLower_mem {c : Char} (hc : isHexDigit c = true) : c.toLower ∈ lowerHexDigits :=
  forall_isHexDigit (P := fun c => c.toLower ∈ lowerHexDigits) (by decide) hc

/-! ## `int(text, 16)` -/

/-- `Py_ISSPACE`. -/
def isSpace (c : Char) : Bool := c = ' ' || ('\t' ≤ c && c ≤ '\r')

/-- The loop over white space. -/
def skipSpaces (text : List Char) : List Char := text.dropWhile isSpace

/-- Skip a sign. -/
def skipSign : List Char → List Char
  | '+' :: text => text
  | '-' :: text => text
  | text => text

/-- One underscore is allowed after the mark. -/
def skipUnderscore : List Char → List Char
  | '_' :: text => text
  | text => text

/-- Skip the mark of a hexadecimal number. -/
def skipMark : List Char → List Char
  | '0' :: 'x' :: text => skipUnderscore text
  | '0' :: 'X' :: text => skipUnderscore text
  | text => text

/-- `long_from_binary_base`: what is behind the digits, unless an underscore is not between two of
them. The flag says that the character before was an underscore. -/
def skipDigits : Bool → List Char → Option (List Char)
  | after, [] => if after then none else some []
  | after, c :: text =>
      if c = '_' then if after then none else skipDigits true text
      else if isHexDigit c then skipDigits false text
      else if after then none
      else some (c :: text)

/-- `PyLong_FromString` with base 16: whether it reads the whole text. -/
def accepts (text : List Char) : Bool :=
  let start := skipMark (skipSign (skipSpaces text))
  if start.head? = some '_' then false
  else
    match skipDigits false start with
    | none => false
    | some rest => rest != start && (skipSpaces rest).isEmpty

/-- Digits with single underscores between them. -/
inductive Grouped : List Char → Prop
  | last {c : Char} (hc : isHexDigit c = true) : Grouped [c]
  | next {c : Char} {rest : List Char} (hc : isHexDigit c = true) (h : Grouped rest) :
      Grouped (c :: rest)
  | group {c : Char} {rest : List Char} (hc : isHexDigit c = true) (h : Grouped rest) :
      Grouped (c :: '_' :: rest)

/-- The marks that can be in front of the digits. -/
def marks : List (List Char) := [[], ['0', 'x'], ['0', 'X'], ['0', 'x', '_'], ['0', 'X', '_']]

/-- A hexadecimal number as `int` takes it. -/
def IsLiteral (text : List Char) : Prop :=
  ∃ before sign mark body after, text = before ++ (sign ++ (mark ++ (body ++ after))) ∧
    (∀ c ∈ before, isSpace c = true) ∧ sign ∈ [[], ['+'], ['-']] ∧ mark ∈ marks ∧
    Grouped body ∧ ∀ c ∈ after, isSpace c = true

/-! ### Digits -/

theorem Grouped.head {body : List Char} (h : Grouped body) :
    ∃ c rest, body = c :: rest ∧ isHexDigit c = true := by
  cases h with
  | last hc => exact ⟨_, _, rfl, hc⟩
  | next hc _ => exact ⟨_, _, rfl, hc⟩
  | group hc _ => exact ⟨_, _, rfl, hc⟩

/-- Digits without underscores. -/
theorem grouped_of_forall {body : List Char} (hne : body ≠ [])
    (h : ∀ c ∈ body, isHexDigit c = true) : Grouped body := by
  induction body with
  | nil => exact absurd rfl hne
  | cons c rest ih =>
      have hc := h c List.mem_cons_self
      cases rest with
      | nil => exact .last hc
      | cons d rest =>
          exact .next hc (ih (by simp) fun e he => h e (List.mem_cons_of_mem c he))

theorem ne_of_isHexDigit {c d : Char} (hc : isHexDigit c = true) (hd : isHexDigit d = false) :
    c ≠ d := by
  rintro rfl
  rw [hc] at hd
  cases hd

theorem skipDigits_cons {c : Char} (hc : isHexDigit c = true) (after : Bool) (text : List Char) :
    skipDigits after (c :: text) = skipDigits false text := by
  rw [skipDigits, if_neg (ne_of_isHexDigit hc rfl), if_pos hc]

/-- Digits are skipped up to what is none. -/
theorem skipDigits_grouped {body : List Char} (h : Grouped body) {rest : List Char}
    (hrest : ∀ c ∈ rest.head?, c ≠ '_' ∧ isHexDigit c = false) (after : Bool) :
    skipDigits after (body ++ rest) = some rest := by
  have hstop : skipDigits false rest = some rest := by
    cases rest with
    | nil => rfl
    | cons c rest =>
        rcases hrest c rfl with ⟨hne, hc⟩
        rw [skipDigits, if_neg hne, if_neg (by simp [hc])]
        rfl
  induction h generalizing after with
  | last hc => rw [List.singleton_append, skipDigits_cons hc, hstop]
  | next hc _ ih => rw [List.cons_append, skipDigits_cons hc, ih]
  | group hc _ ih =>
      rw [List.cons_append, List.cons_append, skipDigits_cons hc, skipDigits, if_pos rfl]
      exact ih true

/-- What is skipped is nothing, or digits, with an underscore in front of them at most if the
character before is none. -/
theorem grouped_of_skipDigits {text rest : List Char} {after : Bool}
    (h : skipDigits after text = some rest) :
    (after = false ∧ text = rest) ∨
      ∃ body, Grouped body ∧
        (text = body ++ rest ∨ after = false ∧ text = '_' :: body ++ rest) := by
  induction text generalizing after with
  | nil =>
      cases after with
      | true => cases h
      | false => exact .inl ⟨rfl, Option.some.inj h⟩
  | cons c text ih =>
      rw [skipDigits] at h
      split at h
      · rename_i hc
        subst hc
        cases after with
        | true => cases h
        | false =>
            rcases ih h with ⟨hfalse, -⟩ | ⟨body, hbody, rfl | ⟨hfalse, -⟩⟩
            · cases hfalse
            · exact .inr ⟨body, hbody, .inr ⟨rfl, rfl⟩⟩
            · cases hfalse
      · split at h
        · rename_i hc
          right
          rcases ih h with ⟨-, rfl⟩ | ⟨body, hbody, rfl | ⟨-, rfl⟩⟩
          · exact ⟨[c], .last hc, .inl rfl⟩
          · exact ⟨c :: body, .next hc hbody, .inl rfl⟩
          · exact ⟨c :: '_' :: body, .group hc hbody, .inl rfl⟩
        · cases after with
          | true => cases h
          | false => exact .inl ⟨rfl, Option.some.inj h⟩

/-! ### White space, signs and marks -/

theorem isHexDigit_of_isSpace {c : Char} (h : isSpace c = true) :
    c ≠ '_' ∧ isHexDigit c = false := by
  have hall : ∀ n, n < 33 → Char.ofNat n ≠ '_' ∧ isHexDigit (Char.ofNat n) = false := by decide
  have hlt : c.toNat < 33 := by
    simp only [isSpace, Bool.or_eq_true, Bool.and_eq_true, decide_eq_true_eq] at h
    rcases h with rfl | ⟨-, hle⟩
    · decide
    · exact Nat.lt_succ_of_le (Char.le_trans hle (by decide : '\r' ≤ ' '))
  have hc := hall c.toNat hlt
  rwa [Char.ofNat_toNat] at hc

theorem isSpace_of_isHexDigit {c : Char} (h : isHexDigit c = true) : isSpace c = false := by
  by_contra hspace
  rw [Bool.not_eq_false] at hspace
  rw [(isHexDigit_of_isSpace hspace).2] at h
  cases h

theorem skipSpaces_append {before text : List Char} (h : ∀ c ∈ before, isSpace c = true)
    (hhead : ∀ c ∈ text.head?, isSpace c = false) : skipSpaces (before ++ text) = text := by
  rw [skipSpaces, List.dropWhile_append_of_pos h]
  cases text with
  | nil => rfl
  | cons c text => rw [List.dropWhile_cons_of_neg (by simp [hhead c rfl])]

/-- A text is the white space in front of it and what is behind. -/
theorem exists_spaces (text : List Char) :
    ∃ before, (∀ c ∈ before, isSpace c = true) ∧ text = before ++ skipSpaces text :=
  ⟨text.takeWhile isSpace, fun _ hc => List.mem_takeWhile_imp hc,
    List.takeWhile_append_dropWhile.symm⟩

theorem exists_sign (text : List Char) :
    ∃ sign ∈ [[], ['+'], ['-']], text = sign ++ skipSign text := by
  rw [skipSign.eq_def]
  split
  · exact ⟨['+'], by decide, rfl⟩
  · exact ⟨['-'], by decide, rfl⟩
  · exact ⟨[], by decide, rfl⟩

theorem exists_mark (text : List Char) : ∃ mark ∈ marks, text = mark ++ skipMark text := by
  have hunderscore : ∀ x rest, ['0', x] ∈ marks → ['0', x, '_'] ∈ marks →
      ∃ mark ∈ marks, '0' :: x :: rest = mark ++ skipUnderscore rest := by
    intro x rest hx hx'
    rw [skipUnderscore.eq_def]
    split
    · exact ⟨_, hx', rfl⟩
    · exact ⟨_, hx, rfl⟩
  rw [skipMark.eq_def]
  split
  · exact hunderscore 'x' _ (by decide) (by decide)
  · exact hunderscore 'X' _ (by decide) (by decide)
  · exact ⟨[], by decide, rfl⟩

/-- A text that does not start with a sign keeps its start. -/
theorem skipSign_cons {c : Char} (h : isHexDigit c = true) (text : List Char) :
    skipSign (c :: text) = c :: text := by
  rw [skipSign.eq_def]
  split
  · rename_i heq
    exact absurd (List.cons.inj heq).1 (ne_of_isHexDigit h rfl)
  · rename_i heq
    exact absurd (List.cons.inj heq).1 (ne_of_isHexDigit h rfl)
  · rfl

theorem skipUnderscore_cons {c : Char} (h : isHexDigit c = true) (text : List Char) :
    skipUnderscore (c :: text) = c :: text := by
  rw [skipUnderscore.eq_def]
  split
  · rename_i heq
    exact absurd (List.cons.inj heq).1 (ne_of_isHexDigit h rfl)
  · rfl

/-- Digits have no mark of their own. -/
theorem skipMark_grouped {body after : List Char} (h : Grouped body)
    (hafter : ∀ c ∈ after.head?, isSpace c = true) : skipMark (body ++ after) = body ++ after := by
  have hsecond : ∀ c d rest, body ++ after = c :: d :: rest → d ≠ 'x' ∧ d ≠ 'X' := by
    intro c d rest heq
    have hspace : ∀ d ∈ after.head?, d ≠ 'x' ∧ d ≠ 'X' := by
      intro d hd
      have hd' := hafter d hd
      constructor
      · rintro rfl
        exact absurd hd' (by decide)
      · rintro rfl
        exact absurd hd' (by decide)
    cases h with
    | last hc =>
        rw [List.singleton_append, List.cons.injEq] at heq
        exact hspace d (by rw [heq.2]; rfl)
    | next hc hrest =>
        rcases hrest.head with ⟨e, rest', rfl, he⟩
        rw [List.cons_append, List.cons_append, List.cons.injEq, List.cons.injEq] at heq
        rw [← heq.2.1]
        exact ⟨ne_of_isHexDigit he rfl, ne_of_isHexDigit he rfl⟩
    | group hc _ =>
        rw [List.cons_append, List.cons_append, List.cons.injEq, List.cons.injEq] at heq
        rw [← heq.2.1]
        decide
  generalize body ++ after = text at *
  rw [skipMark.eq_def]
  split
  · exact absurd rfl (hsecond _ _ _ rfl).1
  · exact absurd rfl (hsecond _ _ _ rfl).2
  · rfl

/-- A mark is skipped. -/
theorem skipMark_mark {mark body after : List Char} (hmark : mark ∈ marks) (h : Grouped body)
    (hafter : ∀ c ∈ after.head?, isSpace c = true) :
    skipMark (mark ++ (body ++ after)) = body ++ after := by
  have hunderscore : skipUnderscore (body ++ after) = body ++ after := by
    rcases h.head with ⟨c, rest, rfl, hc⟩
    exact skipUnderscore_cons hc _
  simp only [marks, List.mem_cons, List.not_mem_nil, or_false] at hmark
  rcases hmark with rfl | rfl | rfl | rfl | rfl
  · rw [List.nil_append]
    exact skipMark_grouped h hafter
  · exact hunderscore
  · exact hunderscore
  · rfl
  · rfl

/-- A mark or a digit is at the start of what follows a sign. -/
theorem head_mark {mark body : List Char} (after : List Char) (hmark : mark ∈ marks)
    (h : Grouped body) :
    ∃ c rest, mark ++ (body ++ after) = c :: rest ∧ isHexDigit c = true := by
  simp only [marks, List.mem_cons, List.not_mem_nil, or_false] at hmark
  rcases hmark with rfl | rfl | rfl | rfl | rfl
  · rcases h.head with ⟨c, rest, rfl, hc⟩
    exact ⟨c, _, rfl, hc⟩
  all_goals exact ⟨'0', _, rfl, rfl⟩

/-- **What is accepted**: white space, a sign, a mark, digits with single underscores between them,
and white space. -/
theorem accepts_iff {text : List Char} : accepts text = true ↔ IsLiteral text := by
  constructor
  · intro h
    rcases exists_spaces text with ⟨before, hbefore, htext⟩
    rcases exists_sign (skipSpaces text) with ⟨sign, hsign, hsigned⟩
    rcases exists_mark (skipSign (skipSpaces text)) with ⟨mark, hmark, hmarked⟩
    rw [accepts] at h
    generalize skipMark (skipSign (skipSpaces text)) = start at h hmarked
    split at h
    · cases h
    · rename_i hhead
      split at h
      · cases h
      · rename_i rest hrest
        rw [Bool.and_eq_true, bne_iff_ne, List.isEmpty_iff] at h
        rcases grouped_of_skipDigits hrest with ⟨-, heq⟩ | ⟨body, hbody, rfl | ⟨-, rfl⟩⟩
        · exact absurd heq.symm h.1
        · refine ⟨before, sign, mark, body, rest, ?_, hbefore, hsign, hmark, hbody, ?_⟩
          · rw [← hmarked, ← hsigned, ← htext]
          · exact List.dropWhile_eq_nil_iff.mp h.2
        · exact absurd rfl hhead
  · rintro ⟨before, sign, mark, body, after, rfl, hbefore, hsign, hmark, hbody, hafter⟩
    have hafter' : ∀ c ∈ after.head?, isSpace c = true :=
      fun c hc => hafter c (List.mem_of_mem_head? hc)
    rcases head_mark after hmark hbody with ⟨c, rest, hstart, hc⟩
    have hsigned : skipSign (sign ++ (mark ++ (body ++ after))) = mark ++ (body ++ after) := by
      simp only [List.mem_cons, List.not_mem_nil, or_false] at hsign
      rcases hsign with rfl | rfl | rfl
      · rw [List.nil_append, hstart, skipSign_cons hc]
      · rfl
      · rfl
    have hspaces : skipSpaces (before ++ (sign ++ (mark ++ (body ++ after)))) =
        sign ++ (mark ++ (body ++ after)) := by
      apply skipSpaces_append hbefore
      simp only [List.mem_cons, List.not_mem_nil, or_false] at hsign
      rcases hsign with rfl | rfl | rfl
      · rw [List.nil_append, hstart]
        rintro d ⟨⟩
        exact isSpace_of_isHexDigit hc
      · rintro d ⟨⟩
        rfl
      · rintro d ⟨⟩
        rfl
    have hdigits := skipDigits_grouped hbody
      (fun c hc => isHexDigit_of_isSpace (hafter' c hc)) false
    rcases hbody.head with ⟨d, digits, rfl, hd⟩
    rw [accepts, hspaces, hsigned, skipMark_mark hmark hbody hafter']
    simp only [hdigits]
    have hne : ¬ (d :: digits ++ after).head? = some '_' := by
      rw [List.cons_append, List.head?_cons, Option.some.injEq]
      exact ne_of_isHexDigit hd rfl
    rw [if_neg hne, Bool.and_eq_true, bne_iff_ne, List.isEmpty_iff]
    refine ⟨?_, List.dropWhile_eq_nil_iff.mpr hafter⟩
    intro heq
    have hlength := congrArg List.length heq
    rw [List.length_append, List.length_cons] at hlength
    omega

example : accepts " -0X_dead_Beef\n".toList = true := by decide

end Hex

end Telemetry.Lib
