import Telemetry.Lib.Runs
import Mathlib.Algebra.GroupWithZero.Nat

/-!
# Concatenations of repeated character classes

A pattern is a sequence of character classes, each with the least and, it may be, the
most times it repeats. A match is found by backtracking: each class first takes as many
characters as it can and gives them back one at a time until the rest of the pattern
matches. The matches of a text are taken from left to right without overlap.

Other patterns start at the front of a text and have an anchor at their end. The anchor is asked
about what is left when all classes have taken their characters. If it refuses, a class gives one
back.

## Main definitions

* `accepts`, `lengthBefore` — the match by backtracking, and its length.
* `Fits` — the classes take the text up to a rest.

## Main results

* `accepts_iff` — **a text is accepted if it can be taken apart**.
-/

namespace Telemetry.Regex

open Telemetry.Spans

variable {γ : Type*}

/-- A character class repeated `least` to `most` times; without `most`, any number of
times. -/
structure Piece (γ : Type*) where
  mem : γ → Bool
  least : ℕ
  most : Option ℕ

/-- How many characters at the front of the text the class can take. -/
def Piece.reach (p : Piece γ) (s : List γ) : ℕ :=
  match p.most with
  | some most => min (s.takeWhile p.mem).length most
  | none => (s.takeWhile p.mem).length

/-- The numbers of characters the class may take, the largest first. -/
def Piece.counts (p : Piece γ) (s : List γ) : List ℕ :=
  (List.range' p.least (p.reach s + 1 - p.least)).reverse

/-- The length of the match at the front of the text. -/
def matchAt : List (Piece γ) → List γ → Option ℕ
  | [], _ => some 0
  | p :: ps, s => (p.counts s).findSome? fun n => (matchAt ps (s.drop n)).map (n + ·)

/-- The nonempty matches from position `pos` on, after the next `skip` characters, which
a match has taken. -/
def findAll (r : List (Piece γ)) : ℕ → ℕ → List γ → List Span
  | _, _, [] => []
  | pos, skip + 1, _ :: s => findAll r (pos + 1) skip s
  | pos, 0, c :: s =>
    match matchAt r (c :: s) with
    | some (n + 1) => (pos, pos + n + 1) :: findAll r (pos + 1) n s
    | _ => findAll r (pos + 1) 0 s

attribute [local simp] matchAt findAll

theorem Piece.mem_counts {p : Piece γ} {s : List γ} {n : ℕ} :
    n ∈ p.counts s ↔ p.least ≤ n ∧ n ≤ p.reach s := by
  rw [counts, List.mem_reverse, List.mem_range'_1]
  omega

theorem Piece.reach_le (p : Piece γ) (s : List γ) : p.reach s ≤ s.length := by
  have hle : (s.takeWhile p.mem).length ≤ s.length :=
    List.IsPrefix.length_le (List.takeWhile_prefix _)
  cases hmost : p.most with
  | none => simpa [reach, hmost] using hle
  | some most =>
      simp only [reach, hmost]
      exact (Nat.min_le_left _ _).trans hle

theorem matchAt_le {r : List (Piece γ)} {s : List γ} {n : ℕ} (h : matchAt r s = some n) :
    n ≤ s.length := by
  induction r generalizing s n with
  | nil =>
      simp only [matchAt, Option.some.injEq] at h
      omega
  | cons p ps ih =>
      rcases List.exists_of_findSome?_eq_some h with ⟨k, hk, hrest⟩
      rcases Option.map_eq_some_iff.mp hrest with ⟨l, hl, hsum⟩
      have hreach := (Piece.mem_counts.mp hk).2.trans (p.reach_le s)
      have hdrop := ih hl
      rw [List.length_drop] at hdrop
      omega

/-- A match is at least as long as its classes ask for together. -/
theorem le_matchAt {r : List (Piece γ)} {s : List γ} {n : ℕ} (h : matchAt r s = some n) :
    (r.map Piece.least).sum ≤ n := by
  induction r generalizing s n with
  | nil => simp
  | cons p ps ih =>
      rcases List.exists_of_findSome?_eq_some h with ⟨k, hk, hrest⟩
      rcases Option.map_eq_some_iff.mp hrest with ⟨l, hl, hsum⟩
      have hleast := (Piece.mem_counts.mp hk).1
      have hrest := ih hl
      simp only [List.map_cons, List.sum_cons]
      omega

/-! ### Matches and positions -/

theorem findAll_bounds {r : List (Piece γ)} {pos skip : ℕ} {s : List γ} {m : Span}
    (h : m ∈ findAll r pos skip s) :
    pos + skip ≤ m.1 ∧ m.1 < m.2 ∧ m.2 ≤ pos + s.length := by
  induction s generalizing pos skip with
  | nil => exact absurd h List.not_mem_nil
  | cons c s ih =>
      rw [List.length_cons]
      cases skip with
      | succ skip =>
          have := ih h
          omega
      | zero =>
          rw [findAll] at h
          split at h
          next n hmatch =>
            have hlen := matchAt_le hmatch
            rw [List.length_cons] at hlen
            rcases List.mem_cons.mp h with rfl | h
            · simp only
              omega
            · have := ih h
              omega
          next =>
            have := ih h
            omega

theorem le_of_mem_findAll {r : List (Piece γ)} {pos skip : ℕ} {s : List γ} {m : Span}
    (h : m ∈ findAll r pos skip s) : m.1 + (r.map Piece.least).sum ≤ m.2 := by
  induction s generalizing pos skip with
  | nil => exact absurd h List.not_mem_nil
  | cons c s ih =>
      cases skip with
      | succ skip => exact ih h
      | zero =>
          rw [findAll] at h
          split at h
          next n hmatch =>
            have hlen := le_matchAt hmatch
            rcases List.mem_cons.mp h with rfl | h
            · simp only
              omega
            · exact ih h
          next => exact ih h

theorem findAll_ordered (r : List (Piece γ)) (pos skip : ℕ) (s : List γ) :
    (findAll r pos skip s).Pairwise fun a b => a.2 ≤ b.1 := by
  induction s generalizing pos skip with
  | nil => exact List.Pairwise.nil
  | cons c s ih =>
      cases skip with
      | succ skip => exact ih (pos + 1) skip
      | zero =>
          rw [findAll]
          split
          next n hmatch =>
            rw [List.pairwise_cons]
            constructor
            · intro m hm
              have := (findAll_bounds hm).1
              simp only
              omega
            · exact ih (pos + 1) n
          next => exact ih (pos + 1) 0

theorem findAll_add (r : List (Piece γ)) (pos k skip : ℕ) (s : List γ) :
    findAll r (pos + k) skip s = (findAll r pos skip s).map (Span.shift k) := by
  induction s generalizing pos skip with
  | nil => rfl
  | cons c s ih =>
      have hstep : pos + k + 1 = pos + 1 + k := by omega
      cases skip with
      | succ skip => simp only [findAll, hstep, ih]
      | zero =>
          cases hmatch : matchAt r (c :: s) with
          | none => simp only [findAll, hmatch, hstep, ih]
          | some n =>
              cases n with
              | zero => simp only [findAll, hmatch, hstep, ih]
              | succ n =>
                  have hend : pos + k + n + 1 = pos + n + 1 + k := by omega
                  simp only [findAll, hmatch, hstep, ih, List.map_cons, Span.shift, hend]

/-- The pattern as a function from a text to its matches. -/
def matcher (r : List (Piece γ)) : Matcher γ where
  run := findAll r 0 0
  inside := by
    intro s m hm
    have := findAll_bounds hm
    omega
  ordered := findAll_ordered r 0 0

/-! ### A character outside every class -/

/-- No class of the pattern holds the character. -/
def Avoids (r : List (Piece γ)) (c : γ) : Prop := ∀ p ∈ r, p.mem c = false

theorem Piece.reach_append_cons {p : Piece γ} {c : γ} (hc : p.mem c = false) (u v : List γ) :
    p.reach (u ++ c :: v) = p.reach u := by
  simp only [reach, takeWhile_append_cons u v hc]

theorem findSome?_congr_mem {α β : Type*} {f g : α → Option β} {l : List α}
    (h : ∀ a ∈ l, f a = g a) : l.findSome? f = l.findSome? g := by
  induction l with
  | nil => rfl
  | cons a l ih =>
      rw [List.findSome?_cons, List.findSome?_cons, h a List.mem_cons_self,
        ih fun b hb => h b (List.mem_cons_of_mem _ hb)]

/-- A match does not look past a character outside every class. -/
theorem matchAt_append_cons {r : List (Piece γ)} {c : γ} (hc : Avoids r c) (u v : List γ) :
    matchAt r (u ++ c :: v) = matchAt r u := by
  induction r generalizing u with
  | nil => rfl
  | cons p ps ih =>
      have hp : p.mem c = false := hc p List.mem_cons_self
      have hps : Avoids ps c := fun q hq => hc q (List.mem_cons_of_mem _ hq)
      have hcounts : p.counts (u ++ c :: v) = p.counts u := by
        simp only [Piece.counts, Piece.reach_append_cons hp]
      simp only [matchAt, hcounts]
      apply findSome?_congr_mem
      intro n hn
      have hle : n ≤ u.length := (Piece.mem_counts.mp hn).2.trans (p.reach_le u)
      rw [List.drop_append_of_le_length hle, ih hps]

/-- The matches around a character outside every class are those on either side. -/
theorem findAll_append_cons {r : List (Piece γ)} {c : γ} (hc : Avoids r c) (pos skip : ℕ)
    (u v : List γ) (hskip : skip ≤ u.length) :
    findAll r pos skip (u ++ c :: v) =
      findAll r pos skip u ++ findAll r (pos + u.length + 1) 0 v := by
  induction u generalizing pos skip with
  | nil =>
      have hzero : skip = 0 := by simpa using hskip
      have hmatch : matchAt r (c :: v) = matchAt r [] := matchAt_append_cons hc [] v
      subst hzero
      cases hnil : matchAt r ([] : List γ) with
      | none => simp [hmatch, hnil]
      | some n =>
          have hn : n = 0 := by simpa using matchAt_le hnil
          simp [hmatch, hnil, hn]
  | cons d u ih =>
      have hend : pos + 1 + u.length + 1 = pos + (d :: u).length + 1 := by
        rw [List.length_cons]
        omega
      rw [List.length_cons] at hskip
      cases skip with
      | succ skip =>
          simp only [List.cons_append, findAll, ih (pos + 1) skip (by omega), hend]
      | zero =>
          have hmatch : matchAt r (d :: (u ++ c :: v)) = matchAt r (d :: u) :=
            matchAt_append_cons hc (d :: u) v
          cases hmid : matchAt r (d :: u) with
          | none =>
              simp only [List.cons_append, findAll, hmatch, hmid, hend,
                ih (pos + 1) 0 (Nat.zero_le _)]
          | some n =>
              cases n with
              | zero =>
                  simp only [List.cons_append, findAll, hmatch, hmid, hend,
                    ih (pos + 1) 0 (Nat.zero_le _)]
              | succ n =>
                  have hn := matchAt_le hmid
                  rw [List.length_cons] at hn
                  simp only [List.cons_append, findAll, hmatch, hmid, hend,
                    ih (pos + 1) n (by omega)]

theorem matcher_local {r : List (Piece γ)} {isSpace : γ → Bool}
    (h : ∀ c, isSpace c = true → Avoids r c) : (matcher r).Local isSpace := by
  intro u c v hc
  have hsplit := findAll_append_cons (h c hc) 0 0 u v (Nat.zero_le _)
  have hright := findAll_add r 0 (u.length + 1) 0 v
  simp only [Nat.zero_add] at hright hsplit
  change findAll r 0 0 (u ++ c :: v) = _
  rw [hsplit, hright]
  rfl

end Telemetry.Regex

/-! ## With an anchor at the end -/

namespace Telemetry.Regex

variable {γ : Type*}

/-- Whether the pattern matches at the front of the text and leaves what the anchor accepts. -/
def accepts (anchor : List γ → Bool) : List (Piece γ) → List γ → Bool
  | [], s => anchor s
  | p :: ps, s => (p.counts s).any fun n => accepts anchor ps (s.drop n)

/-- The length of the match, where the anchor looks at what follows it. -/
def lengthBefore (anchor : List γ → Bool) : List (Piece γ) → List γ → Option ℕ
  | [], s => if anchor s then some 0 else none
  | p :: ps, s =>
      (p.counts s).findSome? fun n => (lengthBefore anchor ps (s.drop n)).map (n + ·)

/-- The characters are of the class, and there are as many as it asks for. -/
structure Piece.Takes (p : Piece γ) (part : List γ) : Prop where
  mem : ∀ c ∈ part, p.mem c = true
  least : p.least ≤ part.length
  most : ∀ most ∈ p.most, part.length ≤ most

/-- The classes take the text up to the rest. -/
def Fits : List (Piece γ) → List γ → List γ → Prop
  | [], s, rest => s = rest
  | p :: ps, s, rest => ∃ part s', s = part ++ s' ∧ p.Takes part ∧ Fits ps s' rest

variable {p : Piece γ} {r : List (Piece γ)} {s rest : List γ} {n : ℕ} {anchor : List γ → Bool}

/-- The characters at the front that are of the class. -/
theorem le_length_takeWhile_iff {f : γ → Bool} (hn : n ≤ s.length) :
    n ≤ (s.takeWhile f).length ↔ ∀ c ∈ s.take n, f c = true := by
  induction s generalizing n with
  | nil => simp_all
  | cons c s ih =>
      cases n with
      | zero => simp
      | succ n =>
          rw [List.length_cons, Nat.add_le_add_iff_right] at hn
          by_cases hc : f c = true
          · simp [hc, ih hn]
          · simp [hc]

/-- **How many characters a class may take.** -/
theorem Piece.mem_counts_iff : n ∈ p.counts s ↔ n ≤ s.length ∧ p.Takes (s.take n) := by
  rw [mem_counts]
  constructor
  · intro h
    obtain ⟨hleast, hreach⟩ := h
    have hlength : n ≤ s.length := hreach.trans (p.reach_le s)
    have htake : (s.take n).length = n := by simp [hlength]
    refine ⟨hlength, ?_, by rw [htake]; exact hleast, ?_⟩
    · refine (le_length_takeWhile_iff hlength).mp (hreach.trans ?_)
      rw [reach]
      split
      · exact Nat.min_le_left _ _
      · exact Nat.le_refl _
    · intro most hmost
      rw [Option.mem_def] at hmost
      rw [reach, hmost] at hreach
      rw [htake]
      exact hreach.trans (Nat.min_le_right _ _)
  · intro h
    obtain ⟨hlength, htakes⟩ := h
    have htake : (s.take n).length = n := by simp [hlength]
    have hwhile := (le_length_takeWhile_iff hlength).mpr htakes.mem
    refine ⟨htake ▸ htakes.least, ?_⟩
    rw [reach]
    split
    · rename_i most hmost
      exact Nat.le_min.mpr ⟨hwhile, htake ▸ htakes.most most hmost⟩
    · exact hwhile

/-- **A text is accepted if it can be taken apart** and the anchor accepts the rest. -/
theorem accepts_iff : accepts anchor r s = true ↔ ∃ rest, Fits r s rest ∧ anchor rest = true := by
  induction r generalizing s with
  | nil => simp [accepts, Fits]
  | cons p ps ih =>
      simp only [accepts, List.any_eq_true, ih, Fits]
      constructor
      · intro ⟨n, hn, rest, hfits, hanchor⟩
        exact ⟨rest, ⟨s.take n, s.drop n, (List.take_append_drop n s).symm,
          (Piece.mem_counts_iff.mp hn).2, hfits⟩, hanchor⟩
      · intro ⟨rest, ⟨part, s', hs, htakes, hfits⟩, hanchor⟩
        subst hs
        refine ⟨part.length, Piece.mem_counts_iff.mpr ⟨by simp, by simpa using htakes⟩, rest, ?_,
          hanchor⟩
        simpa using hfits

/-- A class for one character. -/
theorem takes_one_iff {f : γ → Bool} {part : List γ} :
    (⟨f, 1, some 1⟩ : Piece γ).Takes part ↔ ∃ c, part = [c] ∧ f c = true := by
  constructor
  · intro h
    obtain ⟨c, hc⟩ := List.length_eq_one_iff.mp (Nat.le_antisymm (h.most 1 rfl) h.least)
    exact ⟨c, hc, h.mem c (by simp [hc])⟩
  · intro ⟨c, hpart, hc⟩
    subst hpart
    exact ⟨by simpa using hc, by simp, by simp⟩

/-- A class for one character or none. -/
theorem takes_optional_iff {f : γ → Bool} {part : List γ} :
    (⟨f, 0, some 1⟩ : Piece γ).Takes part ↔ part = [] ∨ ∃ c, part = [c] ∧ f c = true := by
  constructor
  · intro h
    match part, h.most 1 rfl with
    | [], _ => exact .inl rfl
    | [c], _ => exact .inr ⟨c, rfl, h.mem c (by simp)⟩
  · rintro (rfl | ⟨c, rfl, hc⟩)
    · exact ⟨by simp, by simp, by simp⟩
    · exact ⟨by simpa using hc, by simp, by simp⟩

/-- A class for any number of characters. -/
theorem takes_any_iff {f : γ → Bool} {part : List γ} :
    (⟨f, 0, none⟩ : Piece γ).Takes part ↔ ∀ c ∈ part, f c = true :=
  ⟨fun h => h.mem, fun h => ⟨h, Nat.zero_le _, by simp⟩⟩

theorem fits_append_iff {r r' : List (Piece γ)} :
    Fits (r ++ r') s rest ↔ ∃ mid, Fits r s mid ∧ Fits r' mid rest := by
  induction r generalizing s with
  | nil => simp [Fits]
  | cons p r ih =>
      simp only [List.cons_append, Fits, ih]
      constructor
      · intro h
        obtain ⟨part, u', hu, htakes, mid, hmid, hrest⟩ := h
        exact ⟨mid, ⟨part, u', hu, htakes, hmid⟩, hrest⟩
      · intro h
        obtain ⟨mid, ⟨part, u', hu, htakes, hmid⟩, hrest⟩ := h
        exact ⟨part, u', hu, htakes, mid, hmid, hrest⟩

end Telemetry.Regex
