import Telemetry.Lib.Regex
import Telemetry.Lib.Reading

/-!
# Words

A word starts with a character of one class and goes on with characters of another. In some
languages the `$` that a pattern ends in also stands before a line feed at the end of the text, and
then a pattern for words takes a word with a line feed as well.

## Main definitions

* `IsWord`, `wordRe` — words, and the pattern for them.
* `IsFedWord` — a word with a line feed.
* `readWord` — a word is read off a text.

## Main results

* `accepts_wordRe_iff` — **what the pattern takes**.
-/

namespace Telemetry.Lib

open Regex

variable {γ : Type} {first others : γ → Bool} {s t rest : List γ} {feed c : γ}

/-- A character of one class, and then characters of another. -/
def IsWord (first others : γ → Bool) (s : List γ) : Prop :=
  ∃ c t, s = c :: t ∧ first c = true ∧ ∀ d ∈ t, others d = true

/-- A word, and a line feed. -/
def IsFedWord (feed : γ) (first others : γ → Bool) (s : List γ) : Prop :=
  ∃ t, IsWord first others t ∧ s = t ++ [feed]

/-- The pattern for words. -/
def wordRe (first others : γ → Bool) : List (Piece γ) := [⟨first, 1, some 1⟩, ⟨others, 0, none⟩]

/-- The pattern takes a word off the text. -/
theorem fits_wordRe_iff :
    Fits (wordRe first others) s rest ↔ ∃ t, IsWord first others t ∧ s = t ++ rest := by
  simp only [wordRe, Fits, takes_one_iff, takes_any_iff]
  constructor
  · intro h
    obtain ⟨_, _, rfl, ⟨c, rfl, hc⟩, part, _, rfl, hpart, rfl⟩ := h
    exact ⟨c :: part, ⟨c, part, rfl, hc, hpart⟩, rfl⟩
  · intro h
    obtain ⟨_, ⟨c, part, rfl, hc, hpart⟩, rfl⟩ := h
    exact ⟨[c], part ++ rest, rfl, ⟨c, rfl, hc⟩, part, rest, rfl, hpart, rfl⟩

/-- A character that is of no class is in no word. -/
theorem IsWord.notMem (h : IsWord first others s) (hfirst : first c = false)
    (hothers : others c = false) : c ∉ s := by
  obtain ⟨d, t, rfl, hd, ht⟩ := h
  intro hmem
  obtain rfl | hmem := List.mem_cons.mp hmem
  · rw [hfirst] at hd
    cases hd
  · have hc := ht c hmem
    rw [hothers] at hc
    cases hc

/-- The first character of a word, and whatever follows the word. -/
theorem IsWord.head?_ne (h : IsWord first others s) (hfirst : first c = false) (rest : List γ) :
    (s ++ rest).head? ≠ some c := by
  obtain ⟨d, t, rfl, hd, -⟩ := h
  intro heq
  obtain rfl := Option.some.inj heq
  rw [hfirst] at hd
  cases hd

/-- The longest word at the start of a text. -/
def readWord (first others : γ → Bool) : Reader γ (List γ)
  | [] => none
  | c :: s => if first c then some (c :: s.takeWhile others, s.dropWhile others) else none

/-- **A word is read off**, where what follows it does not go on with it. -/
theorem readWord_append (rest : List γ) (h : IsWord first others s)
    (hrest : ∀ c, rest.head? = some c → others c = false) :
    readWord first others (s ++ rest) = some (s, rest) := by
  obtain ⟨c, t, rfl, hc, ht⟩ := h
  have htake : rest.takeWhile others = [] := by
    cases rest with
    | nil => rfl
    | cons d rest => simp [hrest d rfl]
  have hdrop : rest.dropWhile others = rest := by
    cases rest with
    | nil => rfl
    | cons d rest => simp [hrest d rfl]
  rw [List.cons_append, readWord, if_pos hc, List.takeWhile_append_of_pos ht,
    List.dropWhile_append_of_pos ht, htake, hdrop, List.append_nil]

theorem readWord_self (h : IsWord first others s) : readWord first others s = some (s, []) := by
  have happend := readWord_append [] h (by simp)
  rwa [List.append_nil] at happend

variable [DecidableEq γ]

/-- `$` in a language where it also stands before a line feed at the end. -/
def atEnd (feed : γ) (rest : List γ) : Bool := rest = [] || rest = [feed]

/-- **What the pattern takes**: a word, or a word with a line feed. -/
theorem accepts_wordRe_iff : accepts (atEnd feed) (wordRe first others) s = true ↔
    IsWord first others s ∨ IsFedWord feed first others s := by
  simp only [accepts_iff, fits_wordRe_iff, atEnd, Bool.or_eq_true, decide_eq_true_eq]
  constructor
  · intro h
    obtain ⟨_, ⟨t, ht, rfl⟩, rfl | rfl⟩ := h
    · exact .inl ((List.append_nil t).symm ▸ ht)
    · exact .inr ⟨t, ht, rfl⟩
  · intro h
    obtain h | ⟨t, ht, rfl⟩ := h
    · exact ⟨[], ⟨s, h, (List.append_nil s).symm⟩, .inl rfl⟩
    · exact ⟨[feed], ⟨t, ht, rfl⟩, .inr rfl⟩

end Telemetry.Lib
