import Telemetry.Lib.Regex

/-!
# The built-in secret patterns, and what a path looks like

Every SDK compiles the same five patterns, generated from one file, and none of them
counts a match that has the shape of a filesystem path. Each SDK has its own type of
characters; the patterns are compiled for any that has codes.

## Main definitions

* `patternTable` — the five built-in patterns.
* `builtinPatterns` — the same, compiled for a type of characters.
* `pathShaped` — slash-separated segments, at least half of them words.
-/
namespace Telemetry.Pii

open Telemetry.Spans Telemetry.Regex

/-- The shortest text that is scanned, in the unit the SDK measures its strings in. -/
def minSecretLength : ℕ := 20

/-! ### The patterns -/

/-- A class of characters given by ranges, with the least and most times it repeats. -/
structure CharClass where
  ranges : List (Char × Char)
  least : ℕ
  most : Option ℕ

/-- One character out of a class. -/
def one (ranges : List (Char × Char)) : CharClass := ⟨ranges, 1, some 1⟩

/-- The letters of a word, one by one. -/
def word (letters : List Char) : List CharClass := letters.map fun c => one [(c, c)]

/-- `(?:AKIA|ASIA)[A-Z0-9]{16}`; the two words differ in their second letter. -/
def awsKey : List CharClass :=
  word ['A'] ++ [one [('K', 'K'), ('S', 'S')]] ++ word ['I', 'A'] ++
    [⟨[('A', 'Z'), ('0', '9')], 16, some 16⟩]

/-- `[A-Za-z0-9_-]{10,}`, a part of a JSON web token. -/
def jwtPart : CharClass :=
  ⟨[('A', 'Z'), ('a', 'z'), ('0', '9'), ('_', '_'), ('-', '-')], 10, none⟩

/-- `eyJ[A-Za-z0-9_-]{10,}\.[A-Za-z0-9_-]{10,}` -/
def jwt : List CharClass := word ['e', 'y', 'J'] ++ [jwtPart] ++ word ['.'] ++ [jwtPart]

/-- `gh[pos]_[A-Za-z0-9_]{36,}` -/
def githubToken : List CharClass :=
  word ['g', 'h'] ++ [one [('p', 'p'), ('o', 'o'), ('s', 's')]] ++ word ['_'] ++
    [⟨[('A', 'Z'), ('a', 'z'), ('0', '9'), ('_', '_')], 36, none⟩]

/-- `[0-9a-fA-F]{40,}` -/
def longHex : List CharClass := [⟨[('0', '9'), ('a', 'f'), ('A', 'F')], 40, none⟩]

/-- `[A-Za-z0-9+/]{40,}={0,2}` -/
def longBase64 : List CharClass :=
  [⟨[('A', 'Z'), ('a', 'z'), ('0', '9'), ('+', '+'), ('/', '/')], 40, none⟩,
    ⟨[('=', '=')], 0, some 2⟩]

def patternTable : List (List CharClass) := [awsKey, jwt, githubToken, longHex, longBase64]

/-! ### Compiled for a type of characters -/

section

variable {γ : Type*} (code : γ → ℕ)

/-- The code of the character lies in one of the ranges. -/
def inRanges (ranges : List (Char × Char)) (c : γ) : Bool :=
  ranges.any fun r => decide (r.1.toNat ≤ code c) && decide (code c ≤ r.2.toNat)

def CharClass.piece (k : CharClass) : Piece γ := ⟨inRanges code k.ranges, k.least, k.most⟩

def builtinPatterns : List (Matcher γ) :=
  patternTable.map fun r => matcher (r.map (CharClass.piece code))

/-- The characters that some built-in pattern matches somewhere. -/
def alphabet : List (Char × Char) :=
  [('A', 'Z'), ('a', 'z'), ('0', '9'), ('+', '+'), ('-', '-'), ('.', '.'), ('/', '/'), ('=', '='),
    ('_', '_')]

theorem ranges_within_alphabet : ∀ r ∈ patternTable, ∀ k ∈ r, ∀ range ∈ k.ranges,
    ∃ wide ∈ alphabet, wide.1.toNat ≤ range.1.toNat ∧ range.2.toNat ≤ wide.2.toNat := by
  decide

variable {code}

/-- No built-in pattern has a class that holds a character outside the alphabet. -/
theorem avoids_of_not_inRanges {c : γ} (hc : inRanges code alphabet c = false) :
    ∀ r ∈ patternTable, Avoids (r.map (CharClass.piece code)) c := by
  intro r hr p hp
  rcases List.mem_map.mp hp with ⟨k, hk, rfl⟩
  rw [Bool.eq_false_iff]
  intro hmem
  simp only [CharClass.piece, inRanges, List.any_eq_true, Bool.and_eq_true,
    decide_eq_true_eq] at hmem
  rcases hmem with ⟨range, hrange, hlo, hhi⟩
  rcases ranges_within_alphabet r hr k hk range hrange with ⟨wide, hwide, hwlo, hwhi⟩
  have hin : inRanges code alphabet c = true := by
    simp only [inRanges, List.any_eq_true, Bool.and_eq_true, decide_eq_true_eq]
    exact ⟨wide, hwide, hwlo.trans hlo, hhi.trans hwhi⟩
  rw [hin] at hc
  exact Bool.noConfusion hc

theorem builtinPatterns_local {isSpace : γ → Bool}
    (h : ∀ c, isSpace c = true → inRanges code alphabet c = false) :
    ∀ p ∈ builtinPatterns code, p.Local isSpace := by
  intro p hp
  rcases List.mem_map.mp hp with ⟨r, hr, rfl⟩
  exact matcher_local fun c hc => avoids_of_not_inRanges (h c hc) r hr

theorem twenty_le_least : ∀ r ∈ patternTable, 20 ≤ (r.map CharClass.least).sum := by
  decide

/-- A match of a built-in pattern has at least twenty characters. -/
theorem twenty_le_of_mem_run {p : Matcher γ} (hp : p ∈ builtinPatterns code) {s : List γ}
    {m : Span} (hm : m ∈ p.run s) : m.1 + 20 ≤ m.2 := by
  rcases List.mem_map.mp hp with ⟨r, hr, rfl⟩
  have hlen := le_of_mem_findAll hm
  have hleast := twenty_le_least r hr
  have hsame : (r.map (CharClass.piece code)).map Piece.least = r.map CharClass.least := by
    rw [List.map_map]
    rfl
  rw [hsame] at hlen
  omega

end

/-! ### Paths -/

section

variable {γ : Type*}

/-- How many segments a match needs before its shape reads as a path. -/
def pathMinSegments : ℕ := 3

/-- At least three nonempty segments between slashes, at least half of them words. -/
def pathShaped (isSlash : γ → Bool) (wordy : List γ → Bool) (span : List γ) : Bool :=
  let segments := (span.splitOnP isSlash).filter fun segment => !segment.isEmpty
  decide (pathMinSegments ≤ segments.length) &&
    decide (segments.length ≤ (segments.filter wordy).length * 2)

end

end Telemetry.Pii
