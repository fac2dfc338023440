import Telemetry.Classification.Rules

/-!
# What each SDK reads in a pattern

Python reads a pattern as a glob. In Go the wildcards stand for no separator, so that a key has as
many of them as the pattern. In Rust a mark takes a byte, so that a run of wildcards is measured in
bytes. In TypeScript a mark lets the character before it be left out, or stands behind a star and
means nothing; where neither stands before it, there is no expression, and neither this rule nor a
later one is registered.

## Main definitions

* `ReadsGlob` — a glob.
* `Rust.Reads`, `Go.Reads`, `TypeScript.Reads` — what the other three read.

## Main results

* `Rust.matchGlob_iff`, `Go.filepathMatch_iff`, `TypeScript.regExpTest_iff` — **the matchers of
  the SDKs**, for every pattern and key.
* `TypeScript.isSome_compileGlob` — on which patterns there is an expression.
-/

namespace Telemetry.Classification

open Telemetry.Lib Telemetry.Glob

/-- The pattern has a star. -/
def Pattern.HasStar (p : Pattern) : Prop := '*' ∈ p.text

/-- The pattern has a question mark. -/
def Pattern.HasMark (p : Pattern) : Prop := '?' ∈ p.text

instance (p : Pattern) : Decidable p.HasStar := inferInstanceAs (Decidable ('*' ∈ p.text))

instance (p : Pattern) : Decidable p.HasMark := inferInstanceAs (Decidable ('?' ∈ p.text))

/-! ## What is read -/

/-- A unit of a pattern as a part of it. -/
def unitToken {β : Type*} [DecidableEq β] (star mark u : β) : Token β :=
  if u = star then .star else if u = mark then .one else .lit u

/-- A pattern matches a key as a glob: a star stands for any run of characters, a mark for one. -/
def ReadsGlob (p : Pattern) (key : List Char) : Prop := Matches (fun _ => true) p.tokens key

/-- A glob whose runs of wildcards take as many bytes as they have marks, or more with a star. -/
def Rust.Reads (p : Pattern) (key : List Char) : Prop :=
  Covers Char.utf8Size 0 false p.tokens key

/-- A glob with as many separators as the key has. -/
def Go.Reads (p : Pattern) (key : List Char) : Prop :=
  ReadsGlob p key ∧ key.count Go.separator = p.text.count Go.separator

namespace TypeScript

/-- Every mark has something before it to quantify: a character, once or twice, or a star, once. -/
def Quantifies : List (Token ℕ) → Bool
  | [] => true
  | .one :: _ => false
  | .star :: .one :: p => Quantifies p
  | .star :: p => Quantifies p
  | .lit _ :: .one :: .one :: p => Quantifies p
  | .lit _ :: .one :: p => Quantifies p
  | .lit _ :: p => Quantifies p

/-- What is matched where the marks are quantifiers: one or two behind a character let it be left
out, one behind a star changes nothing. -/
def MatchesQuantified : List (Token ℕ) → List ℕ → Prop
  | [], s => s = []
  | .one :: _, _ => False
  | .star :: .one :: p, s =>
      ∃ run t, s = run ++ t ∧ (∀ u ∈ run, u ∉ lineTerminators) ∧ MatchesQuantified p t
  | .star :: p, s =>
      ∃ run t, s = run ++ t ∧ (∀ u ∈ run, u ∉ lineTerminators) ∧ MatchesQuantified p t
  | .lit u :: .one :: .one :: p, s =>
      MatchesQuantified p s ∨ ∃ t, s = u :: t ∧ MatchesQuantified p t
  | .lit u :: .one :: p, s => MatchesQuantified p s ∨ ∃ t, s = u :: t ∧ MatchesQuantified p t
  | .lit u :: p, s => ∃ t, s = u :: t ∧ MatchesQuantified p t

/-- The parts of a pattern in code units. -/
def unitTokens (p : Pattern) : List (Token ℕ) := (units p.text).map (unitToken star mark)

/-- A pattern that the constructor of the expression takes. -/
def Compiles (p : Pattern) : Bool := Quantifies (unitTokens p)

/-- The marks of the pattern are quantifiers, and its stars end with the line. -/
def Reads (p : Pattern) (key : List Char) : Prop := MatchesQuantified (unitTokens p) (units key)

end TypeScript

/-! ## The parts of a pattern -/

theorem token_of_ne {c : Char} (hstar : c ≠ '*') (hmark : c ≠ '?') : token c = .lit c := by
  unfold token
  split
  · exact absurd rfl hstar
  · exact absurd rfl hmark
  · rfl

theorem token_eq_star_iff {c : Char} : token c = .star ↔ c = '*' := by
  unfold token
  split <;> simp_all

theorem token_eq_one_iff {c : Char} : token c = .one ↔ c = '?' := by
  unfold token
  split <;> simp_all

theorem star_mem_tokens_iff {p : Pattern} : .star ∈ p.tokens ↔ p.HasStar := by
  simp only [Pattern.tokens, List.mem_map, token_eq_star_iff, exists_eq_right, Pattern.HasStar]

theorem one_mem_tokens_iff {p : Pattern} : .one ∈ p.tokens ↔ p.HasMark := by
  simp only [Pattern.tokens, List.mem_map, token_eq_one_iff, exists_eq_right, Pattern.HasMark]

/-- A pattern without wildcards consists of its characters. -/
theorem tokens_eq_lits {p : Pattern} (hstar : ¬ p.HasStar) (hmark : ¬ p.HasMark) :
    p.tokens = p.text.map .lit := by
  refine List.map_congr_left fun c hc => token_of_ne ?_ ?_
  · rintro rfl; exact hstar hc
  · rintro rfl; exact hmark hc

section Units

variable {β : Type*} [DecidableEq β]

/-- The parts of a pattern in units, where the wildcards are units of no other character. -/
theorem map_unitToken {star mark : β} (enc : Char → List β) (hstar : enc '*' = [star])
    (hmark : enc '?' = [mark]) (hne : mark ≠ star) (hstars : ∀ c, star ∈ enc c → c = '*')
    (hmarks : ∀ c, mark ∈ enc c → c = '?') (text : List Char) :
    (text.flatMap enc).map (unitToken star mark) =
      (text.map token).flatMap (Token.encode enc) := by
  rw [List.map_flatMap, List.flatMap_map]
  refine List.flatMap_congr fun c _ => ?_
  by_cases hs : c = '*'
  · subst hs
    rw [hstar, List.map_singleton, unitToken, if_pos rfl]
    rfl
  by_cases hm : c = '?'
  · subst hm
    rw [hmark, List.map_singleton, unitToken, if_neg hne, if_pos rfl]
    rfl
  rw [token_of_ne hs hm, Token.encode]
  refine List.map_congr_left fun u hu => ?_
  have hustar : u ≠ star := by rintro rfl; exact hs (hstars c hu)
  have humark : u ≠ mark := by rintro rfl; exact hm (hmarks c hu)
  rw [unitToken, if_neg hustar, if_neg humark]

end Units

/-! ## Rust -/

namespace Rust

theorem globMatch_cons (pc : UInt8) (p s : List UInt8) :
    globMatch (pc :: p) s =
      if pc = star then
        (List.range (s.length + 1)).any fun offset => globMatch p (s.drop offset)
      else
        match s with
        | [] => false
        | sc :: s => (pc = mark || pc == sc) && globMatch p s := by
  cases s <;> rfl

theorem globMatch_iff {p s : List UInt8} :
    globMatch p s = true ↔ Matches (fun _ => true) (p.map (unitToken star mark)) s := by
  induction p generalizing s with
  | nil => cases s <;> simp [globMatch, Matches]
  | cons pc p ih =>
      rw [globMatch_cons, List.map_cons, unitToken]
      by_cases hstar : pc = star
      · rw [if_pos hstar, if_pos hstar, List.any_eq_true]
        constructor
        · rintro ⟨offset, -, h⟩
          exact ⟨_, _, (List.take_append_drop offset s).symm, by simp, ih.mp h⟩
        · rintro ⟨run, t, rfl, -, h⟩
          refine ⟨run.length, List.mem_range.mpr ?_, ?_⟩
          · rw [List.length_append]; omega
          · rw [List.drop_left]; exact ih.mpr h
      rw [if_neg hstar, if_neg hstar]
      by_cases hmark : pc = mark
      · rw [if_pos hmark]
        cases s with
        | nil => simp [Matches]
        | cons sc s => simp [Matches, hmark, ih]
      · rw [if_neg hmark]
        cases s with
        | nil => simp [Matches]
        | cons sc s =>
            simp only [Matches, hmark, decide_false, Bool.false_or, Bool.and_eq_true, beq_iff_eq,
              ih]
            constructor
            · rintro ⟨rfl, h⟩
              exact ⟨s, rfl, h⟩
            · rintro ⟨t, hs, h⟩
              obtain ⟨rfl, rfl⟩ := List.cons_eq_cons.mp hs
              exact ⟨rfl, h⟩

theorem encode_tokens (p : Pattern) :
    (Utf8.encode p.text).map (unitToken star mark) =
      p.tokens.flatMap (Token.encode String.utf8EncodeChar) := by
  have hbyte (c d : Char) (b : UInt8) (hb : b ∈ String.utf8EncodeChar c) (hlt : b.toNat < 128)
      (hd : d.toNat = b.toNat) : c = d :=
    Char.toNat_inj.mp ((eq_of_mem_utf8EncodeChar hb hlt).2.trans hd.symm)
  exact map_unitToken String.utf8EncodeChar (by decide) (by decide) (by decide)
    (fun c hc => hbyte c _ _ hc (by decide) (by decide))
    (fun c hc => hbyte c _ _ hc (by decide) (by decide)) p.text

/-- The pattern and the key in bytes. -/
theorem matches_bytes_iff {p : Pattern} {key : List Char} :
    Matches (fun _ => true) (p.tokens.flatMap (Token.encode String.utf8EncodeChar))
      (Utf8.encode key) ↔ Reads p key := by
  rw [Utf8.encode, matches_encode_iff_covers selfSync_utf8, Reads]
  exact covers_congr fun c _ => String.length_utf8EncodeChar c

/-- Without marks, bytes are matched as characters are. -/
theorem reads_iff_of_not_hasMark {p : Pattern} (hmark : ¬ p.HasMark) {key : List Char} :
    Reads p key ↔ ReadsGlob p key := by
  have hagrees : Agrees String.utf8EncodeChar isFirstByte (fun _ => true) fun _ => true :=
    ⟨fun _ => rfl, fun _ => rfl⟩
  rw [← matches_bytes_iff]
  exact matches_encode selfSync_utf8 hagrees fun h => hmark (one_mem_tokens_iff.mp h)

/-- **What `match_glob` matches.** -/
theorem matchGlob_iff {p : Pattern} {key : List Char} :
    matchGlob p.text key = true ↔ Reads p key := by
  rw [matchGlob]
  by_cases hwild : p.text.any (['*', '?'].contains ·) = true
  · rw [if_neg (not_not.mpr hwild), globMatch_iff, encode_tokens, matches_bytes_iff]
  · have hstar : ¬ p.HasStar := fun h => hwild (List.any_eq_true.mpr ⟨_, h, rfl⟩)
    have hmark : ¬ p.HasMark := fun h => hwild (List.any_eq_true.mpr ⟨_, h, rfl⟩)
    rw [if_pos hwild, reads_iff_of_not_hasMark hmark, ReadsGlob, tokens_eq_lits hstar hmark,
      matches_lits, beq_iff_eq, eq_comm]

end Rust

/-! ## Go -/

/-- What a pattern has of the characters other than the wildcards is in its literal part. -/
theorem countP_literals (p : Pattern) {f : Char → Bool} (hstar : f '*' = false)
    (hmark : f '?' = false) : (literals p.tokens).countP f = p.text.countP f := by
  rw [Pattern.tokens]
  induction p.text with
  | nil => rfl
  | cons c text ih =>
      rw [List.map_cons]
      by_cases hs : c = '*'
      · subst hs
        rw [List.countP_cons_of_neg (by simp [hstar]), ← ih]
        rfl
      by_cases hm : c = '?'
      · subst hm
        rw [List.countP_cons_of_neg (by simp [hmark]), ← ih]
        rfl
      rw [token_of_ne hs hm, literals_lit_cons, List.countP_cons, List.countP_cons, ih]

/-- **What `filepath.Match` matches.** -/
theorem Go.filepathMatch_iff {p : Pattern} {key : List Char} :
    filepathMatch p key = true ↔ Reads p key := by
  have hcount (s : List Char) : s.countP (fun c => !(c != separator)) = s.count separator := by
    rw [List.count]
    exact List.countP_congr fun c _ => by simp
  rw [filepathMatch, test_iff, matches_class_iff, countP_literals p (by decide) (by decide), hcount,
    hcount, Reads, ReadsGlob]

/-! ## TypeScript -/

namespace TypeScript

/-- What a part of a pattern becomes in the expression. -/
def lexemes : Token ℕ → List Lexeme
  | .star => [.dot, .star]
  | .one => [.mark]
  | .lit u => [.char u]

theorem lex_cons {u : ℕ} (h : u ≠ backslash) (rest : List ℕ) :
    lex (u :: rest) = lexeme u :: lex rest := by
  cases rest with
  | nil => rfl
  | cons v rest => rw [lex, if_neg h]

theorem lex_escaped (us : List ℕ) :
    lex (escaped us) = (us.map (unitToken star mark)).flatMap lexemes := by
  induction us with
  | nil => rfl
  | cons u us ih =>
      have hcons : escaped (u :: us) = escaped [u] ++ escaped us := by simp [escaped]
      rw [hcons, List.map_cons, List.flatMap_cons, ← ih]
      by_cases hspecial : u ∈ specials
      · have hstar : u ≠ star := by rintro rfl; exact absurd hspecial (by decide)
        have hmark : u ≠ mark := by rintro rfl; exact absurd hspecial (by decide)
        have hone : escaped [u] = [backslash, u] := by
          simp [escaped, hspecial, hstar, show backslash ≠ star by decide]
        rw [hone, unitToken, if_neg hstar, if_neg hmark]
        simp [lex, lexemes]
      by_cases hstar : u = star
      · subst hstar
        rw [show escaped [star] = [dot, star] by decide, unitToken, if_pos rfl, List.cons_append,
          lex_cons (by decide), List.cons_append, lex_cons (by decide)]
        rfl
      · have hone : escaped [u] = [u] := by simp [escaped, hspecial, hstar]
        have hbackslash : u ≠ backslash := by rintro rfl; exact hspecial (by decide)
        have hdot : u ≠ dot := by rintro rfl; exact hspecial (by decide)
        rw [hone, unitToken, if_neg hstar, List.cons_append, lex_cons hbackslash, lexeme,
          if_neg hdot, if_neg hstar]
        split <;> rfl

attribute [local simp] lexemes atom terms Quantifies MatchesQuantified

/-- Only a star and a mark quantify what stands before them, and no part begins with the first. -/
theorem flatMap_lexemes_ne {p : List (Token ℕ)} (h : ∀ q, p ≠ .one :: q) (ls : List Lexeme) :
    p.flatMap lexemes ≠ .star :: ls ∧ p.flatMap lexemes ≠ .mark :: ls := by
  match p with
  | [] => exact ⟨nofun, nofun⟩
  | .star :: p => exact ⟨nofun, nofun⟩
  | .lit u :: p => exact ⟨nofun, nofun⟩
  | .one :: p => exact absurd rfl (h p)

/-- An atom of the expression that nothing quantifies. -/
theorem terms_cons {a : Lexeme} {ls : List Lexeme}
    (h : ∀ rest, ls ≠ .star :: rest ∧ ls ≠ .mark :: rest) :
    terms (a :: ls) = (atom a).bind fun f => (terms ls).map (⟨f, 1, some 1⟩ :: ·) := by
  rw [terms]
  · rintro _ rfl; exact (h _).1 rfl
  · rintro _ rfl; exact (h _).1 rfl
  · rintro _ rfl; exact (h _).2 rfl
  · rintro _ rfl; exact (h _).2 rfl

/-- What the expression of a pattern is to be. -/
inductive Spec (p : List (Token ℕ)) : Prop
  | invalid (h : Quantifies p = false) (hterms : terms (p.flatMap lexemes) = none)
  | valid (h : Quantifies p = true) (e : List (Regex.Piece ℕ))
      (hterms : terms (p.flatMap lexemes) = some e)
      (hfits : ∀ s, Regex.Fits e s [] ↔ MatchesQuantified p s)

/-- One more atom with its quantifier. -/
theorem Spec.cons {p q : List (Token ℕ)} (h : Spec p) (piece : Regex.Piece ℕ)
    (hquantifies : Quantifies q = Quantifies p)
    (hterms : terms (q.flatMap lexemes) = (terms (p.flatMap lexemes)).map (piece :: ·))
    (hmatches : ∀ s, MatchesQuantified q s ↔
      ∃ run t, s = run ++ t ∧ piece.Takes run ∧ MatchesQuantified p t) : Spec q := by
  cases h with
  | invalid h hnone => exact .invalid (hquantifies.trans h) (by rw [hterms, hnone]; rfl)
  | valid h e hsome hfits =>
      refine .valid (hquantifies.trans h) (piece :: e) (by rw [hterms, hsome]; rfl) fun s => ?_
      simp only [Regex.Fits, hmatches, hfits]

/-- A run without line terminators. -/
theorem takes_dots_iff {run : List ℕ} :
    (⟨isAnyChar, 0, none⟩ : Regex.Piece ℕ).Takes run ↔ ∀ u ∈ run, u ∉ lineTerminators := by
  rw [Regex.takes_any_iff]
  exact forall₂_congr fun u _ => decide_eq_true_iff

/-- A character, or nothing in its place. -/
theorem exists_optional_iff {u : ℕ} {P : List ℕ → Prop} {s : List ℕ} :
    (∃ run t, s = run ++ t ∧ (⟨(· == u), 0, some 1⟩ : Regex.Piece ℕ).Takes run ∧ P t) ↔
      P s ∨ ∃ t, s = u :: t ∧ P t := by
  simp only [Regex.takes_optional_iff, beq_iff_eq]
  constructor
  · rintro ⟨_, t, rfl, rfl | ⟨_, rfl, rfl⟩, ht⟩
    · exact .inl ht
    · exact .inr ⟨t, rfl, ht⟩
  · rintro (h | ⟨t, rfl, ht⟩)
    · exact ⟨[], s, rfl, .inl rfl, h⟩
    · exact ⟨[u], t, rfl, .inr ⟨u, rfl, rfl⟩, ht⟩

/-- A quantifier with nothing before it. -/
theorem terms_mark (ls : List Lexeme) : terms (.mark :: ls) = none := by
  rw [terms.eq_def]
  split
  · rename_i heq
    cases heq
  all_goals
    rename_i heq
    obtain ⟨rfl, -⟩ := List.cons_eq_cons.mp heq
    rfl

/-- **The expression of a pattern**, or that there is none. -/
theorem spec (p : List (Token ℕ)) : Spec p := by
  fun_induction Quantifies p with
  | case1 => exact .valid rfl [] rfl fun s => Iff.rfl
  | case2 p => exact .invalid rfl (terms_mark _)
  | case3 p ih =>
      refine ih.cons _ rfl rfl fun s => ?_
      simp only [MatchesQuantified, takes_dots_iff]
  | case4 p h ih =>
      have hne := flatMap_lexemes_ne h
      refine ih.cons ⟨isAnyChar, 0, none⟩ ?_ ?_ fun s => ?_
      · rw [Quantifies]
        exact h
      · change terms (.dot :: .star :: p.flatMap lexemes) = _
        rw [terms]
        · rfl
        · exact fun ls => (hne ls).2
      · rw [MatchesQuantified]
        · simp only [takes_dots_iff]
        · exact h
  | case5 u p ih =>
      refine ih.cons _ rfl rfl fun s => ?_
      rw [exists_optional_iff]
      rfl
  | case6 u p h ih =>
      have hne := flatMap_lexemes_ne h
      refine ih.cons ⟨(· == u), 0, some 1⟩ ?_ ?_ fun s => ?_
      · rw [Quantifies]
        exact h
      · change terms (.char u :: .mark :: p.flatMap lexemes) = _
        rw [terms]
        · rfl
        · exact fun ls => (hne ls).2
      · rw [exists_optional_iff, MatchesQuantified]
        exact h
  | case7 u p h h' ih =>
      refine ih.cons ⟨(· == u), 1, some 1⟩ ?_ ?_ fun s => ?_
      · rw [Quantifies]
        · exact h
        · exact h'
      · change terms (.char u :: p.flatMap lexemes) = _
        rw [terms_cons (flatMap_lexemes_ne h')]
        rfl
      · rw [MatchesQuantified]
        · simp only [Regex.takes_one_iff, beq_iff_eq]
          constructor
          · rintro ⟨t, rfl, ht⟩
            exact ⟨[u], t, rfl, ⟨u, rfl, rfl⟩, ht⟩
          · rintro ⟨_, t, rfl, ⟨_, rfl, rfl⟩, ht⟩
            exact ⟨t, rfl, ht⟩
        · exact h
        · exact h'

theorem agrees_isAnyChar :
    Agrees CodePoints.utf16Units isFirstUnit isAnyChar fun c => isAnyChar c.toNat where
  first {c b tail} h := by
    have hc := CodePoints.toNat_char c
    rw [CodePoints.utf16Units] at h
    split at h
    · obtain ⟨rfl, -⟩ := List.cons_eq_cons.mp h
      rfl
    · obtain ⟨rfl, -⟩ := List.cons_eq_cons.mp h
      simp only [isAnyChar, lineTerminators, decide_eq_decide, List.mem_cons, List.not_mem_nil,
        or_false]
      omega
  later {u} h := by
    simp only [isFirstUnit, decide_eq_false_iff_not] at h
    simp only [isAnyChar, lineTerminators, decide_eq_true_eq, List.mem_cons, List.not_mem_nil,
      or_false]
    omega

/-- The pattern in code units. -/
theorem unitTokens_eq (p : Pattern) :
    unitTokens p = p.tokens.flatMap (Token.encode CodePoints.utf16Units) := by
  have hunit (c d : Char) (u : ℕ) (hu : u ∈ CodePoints.utf16Units c) (hlt : u < 0xD800)
      (hd : d.toNat = u) : c = d :=
    Char.toNat_inj.mp ((eq_of_mem_utf16Units hu hlt).2.trans hd.symm)
  exact map_unitToken CodePoints.utf16Units (rfl : _ = [star]) (rfl : _ = [mark])
    (by decide) (fun c hc => hunit c _ _ hc (by decide) rfl)
    (fun c hc => hunit c _ _ hc (by decide) rfl) p.text

theorem compileGlob_eq (p : Pattern) :
    compileGlob p.text = terms ((unitTokens p).flatMap lexemes) := by
  rw [compileGlob, lex_escaped, unitTokens]

/-- **What `_compileGlob` takes.** -/
theorem isSome_compileGlob (p : Pattern) : (compileGlob p.text).isSome = Compiles p := by
  rw [compileGlob_eq, Compiles]
  cases spec (unitTokens p) with
  | invalid h hterms => rw [h, hterms]; rfl
  | valid h e hterms => rw [h, hterms]; rfl

/-- **What the expression of a pattern matches.** -/
theorem regExpTest_iff {p : Pattern} {e : List (Regex.Piece ℕ)} (h : compileGlob p.text = some e)
    (key : List Char) : regExpTest e (units key) = true ↔ Reads p key := by
  rw [compileGlob_eq] at h
  cases spec (unitTokens p) with
  | invalid _ hterms => rw [hterms] at h; cases h
  | valid _ e' hterms hfits =>
      obtain rfl := Option.some.inj (hterms.symm.trans h)
      rw [regExpTest, Regex.accepts_iff, Reads, ← hfits]
      constructor
      · rintro ⟨rest, h, hrest⟩
        rwa [List.isEmpty_iff.mp hrest] at h
      · exact fun h => ⟨[], h, rfl⟩

/-- Without marks there is nothing to quantify. -/
theorem matchesQuantified_iff {p : List (Token ℕ)} (h : .one ∉ p) :
    Quantifies p = true ∧ ∀ s, MatchesQuantified p s ↔ Matches isAnyChar p s := by
  induction p with
  | nil => exact ⟨rfl, fun s => Iff.rfl⟩
  | cons t p ih =>
      rw [List.mem_cons, not_or] at h
      obtain ⟨hquantifies, hmatches⟩ := ih h.2
      have hne (q : List (Token ℕ)) : p ≠ .one :: q := fun hq => h.2 (hq ▸ List.mem_cons_self)
      cases t with
      | one => exact absurd rfl h.1
      | star =>
          constructor
          · rw [Quantifies]
            · exact hquantifies
            · exact hne
          · intro s
            rw [MatchesQuantified]
            · simp only [hmatches, Matches, isAnyChar, decide_eq_true_eq]
            · exact hne
      | lit u =>
          constructor
          · rw [Quantifies]
            · exact hquantifies
            · exact fun q => hne _
            · exact hne
          · intro s
            rw [MatchesQuantified]
            · simp only [hmatches, Matches]
            · exact fun q => hne _
            · exact hne

theorem one_notMem_unitTokens {p : Pattern} (hone : .one ∉ p.tokens) : .one ∉ unitTokens p := by
  rw [unitTokens_eq, List.mem_flatMap]
  rintro ⟨t, ht, hmem⟩
  cases t with
  | star => simp [Token.encode] at hmem
  | one => exact hone ht
  | lit c => simp [Token.encode] at hmem

/-- A pattern without marks is a regular expression. -/
theorem compiles_of_not_hasMark {p : Pattern} (hmark : ¬ p.HasMark) : Compiles p = true :=
  (matchesQuantified_iff (one_notMem_unitTokens fun h => hmark (one_mem_tokens_iff.mp h))).1

/-- Without marks, a pattern is a glob whose stars end with the line. -/
theorem reads_iff_matches {p : Pattern} (hmark : ¬ p.HasMark) {key : List Char} :
    Reads p key ↔ Matches (fun c => isAnyChar c.toNat) p.tokens key := by
  have hone : .one ∉ p.tokens := fun h => hmark (one_mem_tokens_iff.mp h)
  rw [Reads, (matchesQuantified_iff (one_notMem_unitTokens hone)).2, unitTokens_eq, units,
    matches_encode selfSync_utf16 agrees_isAnyChar hone]

/-- **Without marks, a pattern is a glob** with as many line terminators as the key. -/
theorem reads_iff_of_not_hasMark {p : Pattern} (hmark : ¬ p.HasMark) {key : List Char} :
    Reads p key ↔ ReadsGlob p key ∧
      key.countP (fun c => !isAnyChar c.toNat) = p.text.countP fun c => !isAnyChar c.toNat := by
  rw [reads_iff_matches hmark, matches_class_iff,
    countP_literals p (by decide) (by decide), ReadsGlob]

end TypeScript

end Telemetry.Classification
