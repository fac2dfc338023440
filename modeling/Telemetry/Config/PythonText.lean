import Mathlib.Data.List.Infix
import Telemetry.Lib.Strip
import Telemetry.Propagation.Python
import Telemetry.Propagation.PythonBaggage

/-!
# The texts of a configuration in Python

`str.strip`, `str.upper` and `str.lower`, over the character tables. What is ASCII is computed, and
of the rest is known what the tables have in common with ASCII: an upper-case text has no letter
that has an upper case, no white space comes or goes, and the only letter outside ASCII whose lower
case is ASCII is the Kelvin sign.

## Main definitions

* `CaseTables` — what Python knows about letters.
* `CaseTables.strip`, `CaseTables.upper` — the methods of strings.

## Main results

* `CaseTables.strip_upper_strip`, `CaseTables.upper_upper` — a text in upper case stays as it is.
* `CaseTables.upper_strip_of_lower` — a word that is ASCII in lower case is ASCII in upper case.
-/

namespace Telemetry.Config.Python

open Telemetry.Lib
open Telemetry.Propagation.Python (Unicode)

/-- The character tables with the upper case, `_PyUnicode_ToUpperFull`. -/
structure CaseTables extends Unicode where
  isSpace_eq : isSpace = Propagation.Python.isSpace
  toUpper : CodePoint → CodePoints
  toUpper_ascii : ∀ c : Char, c.toNat < 128 → toUpper (.scalar c) = [.scalar c.toUpper]
  toUpper_ne_nil : ∀ c, toUpper c ≠ []
  toUpper_toUpper : ∀ c, ∀ d ∈ toUpper c, toUpper d = [d]
  isSpace_of_mem_toUpper : ∀ c, ∀ d ∈ toUpper c, isSpace d = true → isSpace c = true
  /-- Only U+212A, the Kelvin sign, has a lower case in ASCII without being ASCII. -/
  ascii_of_lower : ∀ (s : CodePoints) (t : List Char), (∀ c ∈ t, c.toNat < 128 ∧ c ≠ 'k') →
    lower s = CodePoints.ofChars t →
      ∃ u : List Char, (∀ c ∈ u, c.toNat < 128) ∧ s = CodePoints.ofChars u

namespace CaseTables

/-- `str.strip`. -/
def strip (T : CaseTables) (s : CodePoints) : CodePoints := Lib.strip T.isSpace s

/-- `str.upper`. -/
def upper (T : CaseTables) (s : CodePoints) : CodePoints := s.flatMap T.toUpper

variable (T : CaseTables)

theorem upper_ofChars {s : List Char} (h : ∀ c ∈ s, c.toNat < 128) :
    T.upper (CodePoints.ofChars s) = CodePoints.ofChars (s.map Char.toUpper) := by
  induction s with
  | nil => rfl
  | cons c s ih =>
      rw [List.forall_mem_cons] at h
      have htail := ih h.2
      simp only [upper, CodePoints.ofChars] at htail ⊢
      rw [List.map_cons, List.flatMap_cons, htail, T.toUpper_ascii c h.1]
      rfl

/-- **An upper case has no upper case but itself.** -/
@[simp] theorem upper_upper (s : CodePoints) : T.upper (T.upper s) = T.upper s := by
  have hfixed : ∀ t : CodePoints, (∀ c ∈ t, T.toUpper c = [c]) → T.upper t = t := by
    intro t ht
    rw [upper, List.flatMap_congr ht, List.flatMap_singleton']
  apply hfixed
  intro d hd
  obtain ⟨c, -, hc⟩ := List.mem_flatMap.mp hd
  exact T.toUpper_toUpper c d hc

/-- **A stripped text is stripped in upper case, too.** -/
theorem strip_upper_strip (s : CodePoints) :
    T.strip (T.upper (T.strip s)) = T.upper (T.strip s) := by
  have hbare : Bare T.isSpace (T.strip s) := bare_strip s
  refine strip_of_bare ⟨?_, ?_⟩
  · generalize T.strip s = t at hbare ⊢
    cases t with
    | nil => simp [upper]
    | cons c t =>
        intro d hd
        rw [upper, List.flatMap_cons, List.head?_append_of_ne_nil _ (T.toUpper_ne_nil c)] at hd
        have hspace := mt (T.isSpace_of_mem_toUpper c d (List.mem_of_mem_head? hd))
        simpa [hbare.head c rfl] using hspace
  · generalize T.strip s = t at hbare ⊢
    intro d hd
    cases ht : t.getLast? with
    | none =>
        rw [List.getLast?_eq_none_iff.mp ht] at hd
        simp [upper] at hd
    | some c =>
        obtain ⟨init, rfl⟩ := List.getLast?_eq_some_iff.mp ht
        rw [upper, List.flatMap_append, List.flatMap_singleton,
          List.getLast?_append_of_ne_nil _ (T.toUpper_ne_nil c)] at hd
        have hspace := mt (T.isSpace_of_mem_toUpper c d (List.mem_of_getLast? hd))
        simpa [hbare.getLast c ht] using hspace

/-- A word of ASCII letters has nothing to strip. -/
theorem strip_ofChars {s : List Char} (h : ∀ c ∈ s, Propagation.Python.isSpaceChar c = false) :
    T.strip (CodePoints.ofChars s) = CodePoints.ofChars s := by
  have hspace : ∀ c ∈ CodePoints.ofChars s, T.isSpace c = false := by
    intro c hc
    obtain ⟨d, hd, rfl⟩ := List.mem_map.mp hc
    rw [T.isSpace_eq]
    exact h d hd
  refine strip_of_bare ⟨?_, ?_⟩
  · intro c hc
    exact hspace c (List.mem_of_mem_head? hc)
  · intro c hc
    exact hspace c (List.mem_of_getLast? hc)

/-- What can be checked for the characters of ASCII one by one. -/
theorem of_ascii {P : Char → Bool} (h : ((List.range 128).all fun n => P (Char.ofNat n)) = true)
    {c : Char} (hc : c.toNat < 128) : P c = true := by
  have hn := List.all_eq_true.mp h c.toNat (List.mem_range.mpr hc)
  rwa [Char.ofNat_toNat] at hn

/-- A character is no space if its lower case is none. -/
theorem isSpaceChar_of_toLower {c : Char} (hc : c.toNat < 128)
    (h : Propagation.Python.isSpaceChar c.toLower = false) :
    Propagation.Python.isSpaceChar c = false := by
  have hor := of_ascii (P := fun c => Propagation.Python.isSpaceChar c.toLower ||
    !Propagation.Python.isSpaceChar c) (by decide) hc
  simpa [h] using hor

theorem toUpper_toLower {c : Char} (hc : c.toNat < 128) : c.toLower.toUpper = c.toUpper :=
  eq_of_beq (of_ascii (P := fun c => c.toLower.toUpper == c.toUpper) (by decide) hc)

/-- **A word that is ASCII in lower case** is the same word in upper case. -/
theorem upper_strip_of_lower {s : CodePoints} {t : List Char}
    (ht : ∀ c ∈ t, c.toNat < 128 ∧ c ≠ 'k' ∧ Propagation.Python.isSpaceChar c = false)
    (h : T.lower s = CodePoints.ofChars t) :
    T.upper (T.strip s) = CodePoints.ofChars (t.map Char.toUpper) := by
  obtain ⟨u, hu, rfl⟩ :=
    T.ascii_of_lower s t (fun c hc => ⟨(ht c hc).1, (ht c hc).2.1⟩) h
  rw [T.lower_ascii u hu] at h
  have hinj : Function.Injective CodePoint.scalar := fun _ _ hcd => CodePoint.scalar.inj hcd
  obtain rfl : u.map Char.toLower = t := List.map_injective_iff.mpr hinj h
  have hspace : ∀ c ∈ u, Propagation.Python.isSpaceChar c = false := by
    intro c hc
    exact isSpaceChar_of_toLower (hu c hc) (ht _ (List.mem_map_of_mem hc)).2.2
  have hupper : (u.map Char.toLower).map Char.toUpper = u.map Char.toUpper := by
    rw [List.map_map]
    exact List.map_congr_left fun c hc => toUpper_toLower (hu c hc)
  rw [T.strip_ofChars hspace, T.upper_ofChars hu, hupper]

end CaseTables

/-- Only characters of ASCII have an upper case. -/
def asciiUpper (c : Char) : Char := if c.toNat < 128 then c.toUpper else c

theorem asciiUpper_asciiUpper (c : Char) : asciiUpper (asciiUpper c) = asciiUpper c := by
  by_cases hc : c.toNat < 128
  · exact eq_of_beq (CaseTables.of_ascii
      (P := fun c => asciiUpper (asciiUpper c) == asciiUpper c) (by decide) hc)
  · simp [asciiUpper, hc]

theorem isSpaceChar_of_asciiUpper {c : Char}
    (h : Propagation.Python.isSpaceChar (asciiUpper c) = true) :
    Propagation.Python.isSpaceChar c = true := by
  by_cases hc : c.toNat < 128
  · have hor := CaseTables.of_ascii (P := fun c => !Propagation.Python.isSpaceChar (asciiUpper c) ||
      Propagation.Python.isSpaceChar c) (by decide) hc
    simpa [h] using hor
  · simpa [asciiUpper, hc] using h

theorem toNat_lt_of_toLower {c : Char} (h : c.toLower.toNat < 128) : c.toNat < 128 := by
  delta Char.toLower at h
  split at h
  · rename_i hrange
    have hle := hrange.2
    rw [UInt32.le_iff_toNat_le] at hle
    exact lt_of_le_of_lt hle (by decide)
  · exact h

/-- Characters that are not ASCII have one case. -/
def asciiCase : CaseTables where
  isSpace := Propagation.Python.isSpace
  toDecimal := fun _ => none
  lower := Propagation.Python.asciiOnly.lower
  lower_ascii := Propagation.Python.asciiOnly.lower_ascii
  isSpace_eq := rfl
  toUpper := fun
    | .scalar c => [.scalar (asciiUpper c)]
    | c => [c]
  toUpper_ascii := fun c hc => by simp [asciiUpper, hc]
  toUpper_ne_nil := by
    intro c
    cases c <;> simp
  toUpper_toUpper := by
    intro c d hd
    cases c with
    | scalar c =>
        obtain rfl := List.mem_singleton.mp hd
        simp [asciiUpper_asciiUpper]
    | surrogate _ =>
        obtain rfl := List.mem_singleton.mp hd
        rfl
  isSpace_of_mem_toUpper := by
    intro c d hd hspace
    cases c with
    | scalar c =>
        obtain rfl := List.mem_singleton.mp hd
        exact isSpaceChar_of_asciiUpper hspace
    | surrogate _ =>
        obtain rfl := List.mem_singleton.mp hd
        exact hspace
  ascii_of_lower := by
    intro s t ht h
    induction s generalizing t with
    | nil => exact ⟨[], by simp, rfl⟩
    | cons c s ih =>
        cases t with
        | nil => cases h
        | cons d t =>
            obtain ⟨hd, htail⟩ := List.forall_mem_cons.mp ht
            obtain ⟨hhead, hrest⟩ := List.cons.inj h
            obtain ⟨u, hu, rfl⟩ := ih t htail hrest
            cases c with
            | scalar c =>
                have hlower : c.toLower = d := CodePoint.scalar.inj hhead
                have hc : c.toNat < 128 := toNat_lt_of_toLower (hlower ▸ hd.1)
                exact ⟨c :: u, List.forall_mem_cons.mpr ⟨hc, hu⟩, rfl⟩
            | surrogate _ => cases hhead

end Telemetry.Config.Python
