import Telemetry.Lib.Regex
import Telemetry.Lib.SelfSync

/-!
# Glob patterns

A pattern of literal characters and wildcards: a star stands for any run of characters of a class
and a mark for one of them. A pattern and a text may be written in the units of a code that shows
where a character starts; without marks the pattern matches the same texts there.

## Main definitions

* `Matches` — what a pattern matches, and `test`, which decides it.
* `Agrees` — a class of units that holds a character's first unit if one of characters holds it.
* `Covers` — a pattern whose runs of wildcards take characters of some size together.

## Main results

* `matches_encode` — **matching units is matching characters** if there is no mark.
* `matches_encode_iff_covers` — **with marks, a run of wildcards is measured in units**.
* `matches_class_iff` — what the wildcards do not stand for is in the text as often as in the
  pattern.
* `matches_fill` — the wildcards filled with one character.
-/

namespace Telemetry.Glob

open Telemetry.Lib

/-- A part of a pattern. -/
inductive Token (γ : Type*)
  | star
  | one
  | lit (c : γ)
  deriving DecidableEq, Repr

/-- What a pattern matches whose wildcards stand for characters of the class. -/
def Matches {γ : Type*} (f : γ → Bool) : List (Token γ) → List γ → Prop
  | [], s => s = []
  | .star :: p, s => ∃ run t, s = run ++ t ∧ (∀ c ∈ run, f c = true) ∧ Matches f p t
  | .one :: p, s => ∃ c t, s = c :: t ∧ f c = true ∧ Matches f p t
  | .lit c :: p, s => ∃ t, s = c :: t ∧ Matches f p t

attribute [local simp] Matches

section Basic

variable {γ : Type*} {f g : γ → Bool} {p : List (Token γ)} {s : List γ}

/-- A part of a pattern as a repeated class. -/
def Token.piece [DecidableEq γ] (f : γ → Bool) : Token γ → Regex.Piece γ
  | .star => ⟨f, 0, none⟩
  | .one => ⟨f, 1, some 1⟩
  | .lit c => ⟨(· == c), 1, some 1⟩

/-- Whether a pattern matches the whole text. -/
def test [DecidableEq γ] (f : γ → Bool) (p : List (Token γ)) (s : List γ) : Bool :=
  Regex.accepts List.isEmpty (p.map (Token.piece f)) s

theorem fits_pieces_iff [DecidableEq γ] :
    Regex.Fits (p.map (Token.piece f)) s [] ↔ Matches f p s := by
  induction p generalizing s with
  | nil => rfl
  | cons t p ih =>
      rw [List.map_cons, Regex.Fits]
      cases t with
      | star => simp only [Token.piece, Regex.takes_any_iff, ih, Matches]
      | one =>
          simp only [Token.piece, Regex.takes_one_iff, ih, Matches]
          constructor
          · rintro ⟨_, t, rfl, ⟨c, rfl, hc⟩, ht⟩
            exact ⟨c, t, rfl, hc, ht⟩
          · rintro ⟨c, t, rfl, hc, ht⟩
            exact ⟨[c], t, rfl, ⟨c, rfl, hc⟩, ht⟩
      | lit c =>
          simp only [Token.piece, Regex.takes_one_iff, ih, Matches, beq_iff_eq]
          constructor
          · rintro ⟨_, t, rfl, ⟨_, rfl, rfl⟩, ht⟩
            exact ⟨t, rfl, ht⟩
          · rintro ⟨t, rfl, ht⟩
            exact ⟨[c], t, rfl, ⟨c, rfl, rfl⟩, ht⟩

theorem test_iff [DecidableEq γ] : test f p s = true ↔ Matches f p s := by
  rw [test, Regex.accepts_iff, ← fits_pieces_iff]
  constructor
  · rintro ⟨rest, h, hrest⟩
    rwa [List.isEmpty_iff.mp hrest] at h
  · intro h
    exact ⟨[], h, rfl⟩

instance decidableMatches [DecidableEq γ] (f : γ → Bool) (p : List (Token γ)) (s : List γ) :
    Decidable (Matches f p s) := decidable_of_iff _ test_iff

/-- Only what the class holds of the text's own characters matters. -/
theorem matches_congr (h : ∀ c ∈ s, f c = g c) : Matches f p s ↔ Matches g p s := by
  induction p generalizing s with
  | nil => rfl
  | cons t p ih =>
      cases t with
      | star =>
          refine exists_congr fun run => exists_congr fun t => and_congr_right fun hs => ?_
          subst hs
          refine and_congr ?_ (ih fun c hc => h c (List.mem_append_right _ hc))
          exact forall₂_congr fun c hc => by rw [h c (List.mem_append_left _ hc)]
      | one =>
          refine exists_congr fun c => exists_congr fun t => and_congr_right fun hs => ?_
          subst hs
          rw [h c List.mem_cons_self, ih fun c hc => h c (List.mem_cons_of_mem _ hc)]
      | lit c =>
          refine exists_congr fun t => and_congr_right fun hs => ?_
          subst hs
          exact ih fun c hc => h c (List.mem_cons_of_mem _ hc)

/-- Literal characters at the front of a pattern. -/
theorem matches_lits_append (w : List γ) :
    Matches f (w.map .lit ++ p) s ↔ ∃ t, s = w ++ t ∧ Matches f p t := by
  induction w generalizing s with
  | nil => simp
  | cons c w ih =>
      rw [List.map_cons, List.cons_append, Matches]
      constructor
      · rintro ⟨_, rfl, h⟩
        obtain ⟨t, rfl, ht⟩ := ih.mp h
        exact ⟨t, rfl, ht⟩
      · rintro ⟨t, rfl, ht⟩
        exact ⟨w ++ t, rfl, ih.mpr ⟨t, rfl, ht⟩⟩

/-- A pattern without wildcards matches itself. -/
theorem matches_lits (w : List γ) : Matches f (w.map .lit) s ↔ s = w := by
  rw [← List.append_nil (w.map _), matches_lits_append]
  simp

/-! ## Filling the wildcards -/

/-- The literal characters of a pattern. -/
def literals (p : List (Token γ)) : List γ :=
  p.filterMap fun
    | .lit c => some c
    | _ => none

@[simp] theorem literals_star_cons : literals (.star :: p) = literals p := rfl

@[simp] theorem literals_one_cons : literals (.one :: p) = literals p := rfl

@[simp] theorem literals_lit_cons (c : γ) : literals (.lit c :: p) = c :: literals p := rfl

/-- The part as a character, a wildcard as the given one. -/
def Token.fill (x : γ) : Token γ → γ
  | .lit c => c
  | _ => x

/-- The wildcards can stand for a character of the class each. -/
theorem matches_fill {x : γ} (hx : f x = true) : Matches f p (p.map (Token.fill x)) := by
  induction p with
  | nil => rfl
  | cons t p ih =>
      cases t with
      | star => exact ⟨[x], _, rfl, by simpa using hx, ih⟩
      | one => exact ⟨x, _, rfl, hx, ih⟩
      | lit c => exact ⟨_, rfl, ih⟩

/-- A text has the literal part of the pattern in it, in this order. -/
theorem literals_sublist (h : Matches f p s) : (literals p).Sublist s := by
  induction p generalizing s with
  | nil => exact List.nil_sublist s
  | cons t p ih =>
      cases t with
      | star =>
          obtain ⟨run, t, rfl, -, ht⟩ := h
          exact (ih ht).trans (List.sublist_append_right run t)
      | one =>
          obtain ⟨c, t, rfl, -, ht⟩ := h
          exact (ih ht).cons c
      | lit c =>
          obtain ⟨t, rfl, ht⟩ := h
          exact (ih ht).cons_cons c

/-- **What the wildcards do not stand for** is in the text as often as in the pattern. -/
theorem matches_class_iff :
    Matches f p s ↔ Matches (fun _ => true) p s ∧
      s.countP (fun c => !f c) = (literals p).countP fun c => !f c := by
  induction p generalizing s with
  | nil =>
      refine ⟨fun h => ⟨h, ?_⟩, And.left⟩
      rw [show s = [] from h]
      rfl
  | cons t p ih =>
      cases t with
      | star =>
          constructor
          · rintro ⟨run, t, rfl, hrun, ht⟩
            refine ⟨⟨run, t, rfl, fun _ _ => rfl, (ih.mp ht).1⟩, ?_⟩
            rw [List.countP_append, List.countP_eq_zero.mpr (by simpa using hrun), Nat.zero_add]
            exact (ih.mp ht).2
          · rintro ⟨⟨run, t, rfl, -, ht⟩, hcount⟩
            -- the rest of the text has all of them already
            have hrest := (literals_sublist ht).countP_le (p := fun c => !f c)
            rw [List.countP_append, literals_star_cons] at hcount
            have hrun : run.countP (fun c => !f c) = 0 := by omega
            refine ⟨run, t, rfl, ?_, ih.mpr ⟨ht, by omega⟩⟩
            simpa using List.countP_eq_zero.mp hrun
      | one =>
          constructor
          · rintro ⟨c, t, rfl, hc, ht⟩
            refine ⟨⟨c, t, rfl, rfl, (ih.mp ht).1⟩, ?_⟩
            rw [List.countP_cons_of_neg (by simp [hc]), literals_one_cons]
            exact (ih.mp ht).2
          · rintro ⟨⟨c, t, rfl, -, ht⟩, hcount⟩
            have hrest := (literals_sublist ht).countP_le (p := fun c => !f c)
            rw [List.countP_cons, literals_one_cons] at hcount
            have hc : f c = true := by
              by_contra hne
              rw [if_pos (by simpa using hne)] at hcount
              omega
            rw [if_neg (by simp [hc])] at hcount
            exact ⟨c, t, rfl, hc, ih.mpr ⟨ht, hcount⟩⟩
      | lit c =>
          constructor
          · rintro ⟨t, rfl, ht⟩
            refine ⟨⟨t, rfl, (ih.mp ht).1⟩, ?_⟩
            rw [literals_lit_cons, List.countP_cons, List.countP_cons, (ih.mp ht).2]
          · rintro ⟨⟨t, rfl, ht⟩, hcount⟩
            rw [literals_lit_cons, List.countP_cons, List.countP_cons,
              Nat.add_right_cancel_iff] at hcount
            exact ⟨t, rfl, ih.mpr ⟨ht, hcount⟩⟩

/-- A filled wildcard is one more character. -/
theorem count_literals_lt [DecidableEq γ] {x : γ} (h : .star ∈ p ∨ .one ∈ p) :
    (literals p).count x < (p.map (Token.fill x)).count x := by
  have hle (q : List (Token γ)) : (literals q).count x ≤ (q.map (Token.fill x)).count x :=
    (literals_sublist (matches_fill (f := fun _ => true) rfl)).count_le x
  obtain h | h := h <;> obtain ⟨u, v, rfl⟩ := List.append_of_mem h <;>
    · have hu := hle u
      have hv := hle v
      simp only [literals, List.filterMap_append, List.filterMap_cons, List.count_append,
        List.map_append, List.map_cons, Token.fill, List.count_cons_self] at hu hv ⊢
      omega

/-- A mark stands for a character of its own. -/
theorem ne_nil_of_one_mem (h : .one ∈ p) : ¬ Matches f p [] := by
  induction p with
  | nil => cases h
  | cons t p ih =>
      cases t with
      | star =>
          rintro ⟨run, t, hs, -, ht⟩
          rw [eq_comm, List.append_eq_nil_iff] at hs
          rw [hs.2] at ht
          exact ih (by simpa using h) ht
      | one => rintro ⟨c, t, hs, -⟩; cases hs
      | lit c => rintro ⟨t, hs, -⟩; cases hs

end Basic

/-! ## Patterns in the units of a code -/

section Encoded

variable {α β : Type*}

/-- A part of a pattern in units. -/
def Token.encode (enc : α → List β) : Token α → List (Token β)
  | .star => [.star]
  | .one => [.one]
  | .lit c => (enc c).map .lit

variable {enc : α → List β} {isFirst : β → Bool} {f : β → Bool} {g : α → Bool}

/-- A wildcard stands for a unit in the middle of a character, and for its first one if it stands
for the character. -/
structure Agrees (enc : α → List β) (isFirst f : β → Bool) (g : α → Bool) : Prop where
  first : ∀ {c b tail}, enc c = b :: tail → f b = g c
  later : ∀ {x}, isFirst x = false → f x = true

theorem matches_of_encode (hcode : SelfSync enc isFirst) (hfg : Agrees enc isFirst f g)
    {p : List (Token α)} (hp : .one ∉ p) {s : List α} {junk : List β}
    (hjunk : ∀ x ∈ junk, isFirst x = false) (hstar : junk = [] ∨ ∃ p', p = .star :: p')
    (h : Matches f (p.flatMap (Token.encode enc)) (junk ++ s.flatMap enc)) : Matches g p s := by
  induction p generalizing s junk with
  | nil =>
      rw [List.flatMap_nil, Matches, List.append_eq_nil_iff] at h
      cases s with
      | nil => rfl
      | cons c s =>
          obtain ⟨b, tail, hc, -⟩ := hcode.first c
          rw [List.flatMap_cons, hc] at h
          cases h.2
  | cons t p ih =>
      have hp' : .one ∉ p := fun hmem => hp (List.mem_cons_of_mem _ hmem)
      rw [List.flatMap_cons] at h
      cases t with
      | one => exact absurd List.mem_cons_self hp
      | star =>
          obtain ⟨run, t, hs, hrun, ht⟩ := h
          change Matches f (p.flatMap (Token.encode enc)) t at ht
          obtain ⟨s₁, s₂, junk', rfl, rfl, hjunk', hmem⟩ := hcode.split_run hs.symm hjunk
          refine ⟨s₁, s₂, rfl, fun c hc => ?_, ih hp' hjunk' ?_ ht⟩
          · obtain ⟨b, hb, tail, henc⟩ := hmem c hc
            rw [← hfg.first henc]
            exact hrun b hb
          -- a literal does not start in the middle of a character
          · match p with
            | [] =>
                rw [List.flatMap_nil, Matches, List.append_eq_nil_iff] at ht
                exact .inl ht.1
            | .star :: p' => exact .inr ⟨p', rfl⟩
            | .one :: p' => exact absurd List.mem_cons_self hp'
            | .lit c :: p' =>
                obtain ⟨b, tail, hc, hfirst, -⟩ := hcode.first c
                rw [List.flatMap_cons, Token.encode, matches_lits_append, hc] at ht
                obtain ⟨u, hu, -⟩ := ht
                cases junk' with
                | nil => exact .inl rfl
                | cons y junk' =>
                    rw [List.cons_append, List.cons_append, List.cons_eq_cons] at hu
                    have hy := hjunk' y List.mem_cons_self
                    rw [hu.1, hfirst] at hy
                    cases hy
      | lit c =>
          obtain rfl | ⟨p', hp'⟩ := hstar
          · rw [Token.encode, matches_lits_append, List.nil_append] at h
            obtain ⟨t, hs, ht⟩ := h
            cases s with
            | nil =>
                obtain ⟨b, tail, hc, -⟩ := hcode.first c
                rw [hc] at hs
                cases hs
            | cons d s =>
                rw [List.flatMap_cons] at hs
                obtain rfl := hcode.unique hs
                rw [List.append_cancel_left hs.symm] at ht
                exact ⟨s, rfl, ih hp' (List.forall_mem_nil _) (.inl rfl) ht⟩
          · cases hp'

/-- **Matching units is matching characters** where no part stands for one unit. -/
theorem matches_encode (hcode : SelfSync enc isFirst) (hfg : Agrees enc isFirst f g)
    {p : List (Token α)} (hp : .one ∉ p) {s : List α} :
    Matches f (p.flatMap (Token.encode enc)) (s.flatMap enc) ↔ Matches g p s := by
  refine ⟨fun h => matches_of_encode hcode hfg hp (List.forall_mem_nil _) (.inl rfl) h, fun h => ?_⟩
  induction p generalizing s with
  | nil => rw [show s = [] from h]; rfl
  | cons t p ih =>
      have hp' : .one ∉ p := fun hmem => hp (List.mem_cons_of_mem _ hmem)
      cases t with
      | one => exact absurd List.mem_cons_self hp
      | star =>
          obtain ⟨run, t, rfl, hrun, ht⟩ := h
          refine ⟨run.flatMap enc, t.flatMap enc, List.flatMap_append, fun x hx => ?_, ih hp' ht⟩
          obtain ⟨c, hc, hx⟩ := List.mem_flatMap.mp hx
          obtain ⟨b, tail, henc, -, htail⟩ := hcode.first c
          rw [henc] at hx
          obtain rfl | hx := List.mem_cons.mp hx
          · rw [hfg.first henc]
            exact hrun c hc
          · exact hfg.later (htail x hx)
      | lit c =>
          obtain ⟨t, rfl, ht⟩ := h
          exact matches_lits_append _ |>.mpr ⟨t.flatMap enc, rfl, ih hp' ht⟩

/-! ## Counting marks -/

/-- Whether a run of wildcards with so many marks, and perhaps a star, takes so many units. -/
def Enough (marks : ℕ) (starred : Bool) (n : ℕ) : Prop :=
  if starred then marks ≤ n else n = marks

theorem enough_succ {marks n : ℕ} {starred : Bool} :
    Enough (marks + 1) starred (n + 1) ↔ Enough marks starred n := by
  cases starred <;> simp [Enough]

/-- What a pattern matches whose runs of wildcards take characters of some size together: the size
of their marks, or more than that if there is a star in the run. `marks` and `starred` are what has
been read of a run. -/
def Covers {γ : Type*} (size : γ → ℕ) : ℕ → Bool → List (Token γ) → List γ → Prop
  | marks, starred, [], s => Enough marks starred (s.map size).sum
  | marks, starred, .one :: p, s => Covers size (marks + 1) starred p s
  | marks, _, .star :: p, s => Covers size marks true p s
  | marks, starred, .lit c :: p, s =>
      ∃ run t, s = run ++ c :: t ∧ Enough marks starred (run.map size).sum ∧
        Covers size 0 false p t

attribute [local simp] Covers

/-- Only the sizes of the text's own characters matter. -/
theorem covers_congr {size size' : α → ℕ} {p : List (Token α)} {s : List α} {marks : ℕ}
    {starred : Bool} (h : ∀ c ∈ s, size c = size' c) :
    Covers size marks starred p s ↔ Covers size' marks starred p s := by
  induction p generalizing s marks starred with
  | nil => rw [Covers, Covers, List.map_congr_left h]
  | cons t p ih =>
      cases t with
      | star => exact ih h
      | one => exact ih h
      | lit c =>
          refine exists_congr fun run => exists_congr fun t => and_congr_right fun hs => ?_
          subst hs
          rw [List.map_congr_left fun d hd => h d (List.mem_append_left _ hd),
            ih fun d hd => h d (List.mem_append_right _ (List.mem_cons_of_mem _ hd))]

/-- A pattern behind what has been read of a run of wildcards. -/
def Behind (marks : ℕ) (starred : Bool) (p : List (Token β)) (s : List β) : Prop :=
  ∃ run t, s = run ++ t ∧ Enough marks starred run.length ∧ Matches (fun _ => true) p t

section Behind

variable {marks : ℕ} {starred : Bool} {p : List (Token β)} {s : List β}

theorem behind_zero : Behind 0 false p s ↔ Matches (fun _ => true) p s := by
  constructor
  · rintro ⟨run, t, rfl, hrun, ht⟩
    rwa [List.eq_nil_of_length_eq_zero hrun]
  · intro h
    exact ⟨[], s, rfl, rfl, h⟩

theorem behind_nil : Behind marks starred [] s ↔ Enough marks starred s.length := by
  constructor
  · rintro ⟨run, _, rfl, hrun, rfl⟩
    rwa [List.append_nil]
  · intro h
    exact ⟨s, [], (List.append_nil s).symm, h, rfl⟩

/-- One more mark is one more unit. -/
theorem behind_one : Behind marks starred (.one :: p) s ↔ Behind (marks + 1) starred p s := by
  constructor
  · rintro ⟨run, _, rfl, hrun, x, t, rfl, -, ht⟩
    exact ⟨run ++ [x], t, by simp, by rwa [List.length_append, List.length_singleton, enough_succ],
      ht⟩
  · rintro ⟨run, t, rfl, hrun, ht⟩
    have hne : run ≠ [] := by
      rintro rfl
      cases starred <;> simp [Enough] at hrun
    obtain ⟨run, x, rfl⟩ : ∃ run' x, run = run' ++ [x] :=
      ⟨_, _, (List.dropLast_append_getLast hne).symm⟩
    rw [List.length_append, List.length_singleton, enough_succ] at hrun
    exact ⟨run, x :: t, by simp, hrun, x, t, rfl, rfl, ht⟩

/-- A star takes what there is beyond the marks. -/
theorem behind_star : Behind marks starred (.star :: p) s ↔ Behind marks true p s := by
  constructor
  · rintro ⟨run, _, rfl, hrun, run', t, rfl, -, ht⟩
    refine ⟨run ++ run', t, by simp, ?_, ht⟩
    simp only [Enough, if_true, List.length_append] at hrun ⊢
    split at hrun <;> omega
  · rintro ⟨run, t, rfl, hrun, ht⟩
    have hlength : (run.take marks).length = marks := by
      rw [List.length_take]
      exact min_eq_left hrun
    refine ⟨run.take marks, run.drop marks ++ t, by simp [← List.append_assoc], ?_, run.drop marks,
      t, rfl, fun _ _ => rfl, ht⟩
    rw [Enough, hlength]
    split <;> simp

end Behind

theorem behind_encode_iff (hcode : SelfSync enc isFirst) {p : List (Token α)} {s : List α}
    {marks : ℕ} {starred : Bool} :
    Behind marks starred (p.flatMap (Token.encode enc)) (s.flatMap enc) ↔
      Covers (fun c => (enc c).length) marks starred p s := by
  induction p generalizing s marks starred with
  | nil => rw [List.flatMap_nil, behind_nil, Covers, List.length_flatMap]
  | cons t p ih =>
      rw [List.flatMap_cons]
      cases t with
      | star => exact behind_star.trans ih
      | one => exact behind_one.trans ih
      | lit c =>
          rw [Covers, Behind]
          constructor
          · rintro ⟨run, _, hs, hrun, hlit⟩
            obtain ⟨t, rfl, ht⟩ := (matches_lits_append (enc c)).mp hlit
            obtain ⟨s₁, s₂, junk, rfl, hjunk, hlater, -⟩ :=
              hcode.split_run hs.symm (List.forall_mem_nil _)
            -- the literal starts a character of the text
            obtain ⟨b, tail, hc, hfirst, -⟩ := hcode.first c
            obtain rfl : junk = [] := by
              cases junk with
              | nil => rfl
              | cons x junk =>
                  rw [hc, List.cons_append, List.cons_append, List.cons_eq_cons] at hjunk
                  have hx := hlater x List.mem_cons_self
                  rw [← hjunk.1, hfirst] at hx
                  cases hx
            rw [List.nil_append] at hjunk
            cases s₂ with
            | nil => rw [hc] at hjunk; cases hjunk
            | cons d s₂ =>
                rw [List.flatMap_cons] at hjunk
                obtain rfl := hcode.unique hjunk
                obtain rfl := List.append_cancel_left hjunk
                rw [List.flatMap_append, List.flatMap_cons] at hs
                obtain rfl := List.append_cancel_right hs
                refine ⟨s₁, s₂, rfl, ?_, ih.mp (behind_zero.mpr ht)⟩
                rwa [List.length_flatMap] at hrun
          · rintro ⟨run, t, rfl, hrun, ht⟩
            refine ⟨run.flatMap enc, (c :: t).flatMap enc, List.flatMap_append, ?_, ?_⟩
            · rwa [List.length_flatMap]
            · exact (matches_lits_append _).mpr
                ⟨t.flatMap enc, List.flatMap_cons, behind_zero.mp (ih.mpr ht)⟩

/-- **A run of wildcards is measured in units** where the pattern and the text are written in
them. -/
theorem matches_encode_iff_covers (hcode : SelfSync enc isFirst) {p : List (Token α)}
    {s : List α} :
    Matches (fun _ => true) (p.flatMap (Token.encode enc)) (s.flatMap enc) ↔
      Covers (fun c => (enc c).length) 0 false p s :=
  behind_zero.symm.trans (behind_encode_iff hcode)

end Encoded

end Telemetry.Glob
