import Mathlib.Data.List.Basic

/-!
# The parts of a text

A text is split at a separator. What holds of the characters of the parts, and of the separator,
holds of the characters of the text.

## Main results

* `forall_mem_splitOn` — the characters of the parts are those of the text.
* `splitOn_map` — the parts of a text that is mapped.
* `splitOn_intercalate` — the parts of texts that are joined.
* `headD_splitOn` — the first part.
-/

namespace Telemetry.Lib

variable {γ δ : Type} [DecidableEq γ] [DecidableEq δ]

/-- **The characters of the parts** are those of the text, if the separator does not matter. -/
theorem forall_mem_splitOn {q : γ → Prop} {sep : γ} (hsep : q sep) (s : List γ) :
    (∀ part ∈ s.splitOn sep, ∀ c ∈ part, q c) ↔ ∀ c ∈ s, q c := by
  induction s with
  | nil => simp
  | cons c s ih =>
      rw [List.splitOn_cons_eq_if_modifyHead, List.forall_mem_cons (a := c), ← ih]
      by_cases hc : c = sep
      · simp [hc, hsep]
      · rw [if_neg (by simpa using hc)]
        cases hsplit : s.splitOn sep with
        | nil => exact absurd hsplit (List.splitOn_ne_nil sep s)
        | cons first others => simp [List.modifyHead_cons, and_assoc]

omit [DecidableEq γ] in
/-- No separator is in a part. -/
theorem eq_false_of_mem_splitOnP {p : γ → Bool} (s : List γ) :
    ∀ part ∈ s.splitOnP p, ∀ c ∈ part, p c = false := by
  induction s with
  | nil => simp
  | cons c s ih =>
      rw [List.splitOnP_cons_eq_if_modifyHead]
      split
      · exact List.forall_mem_cons.mpr ⟨by simp, ih⟩
      · next hc =>
          cases hsplit : s.splitOnP p with
          | nil => exact absurd hsplit (List.splitOnP_ne_nil p s)
          | cons first others =>
              rw [hsplit, List.forall_mem_cons] at ih
              rw [List.modifyHead_cons, List.forall_mem_cons, List.forall_mem_cons]
              exact ⟨⟨by simpa using hc, ih.1⟩, ih.2⟩

omit [DecidableEq γ] [DecidableEq δ] in
/-- The parts of a text that is mapped, at the characters that satisfy a predicate. -/
theorem splitOnP_map (f : γ → δ) (p : δ → Bool) (s : List γ) :
    (s.map f).splitOnP p = (s.splitOnP (p ∘ f)).map (List.map f) := by
  induction s with
  | nil => rfl
  | cons c s ih =>
      rw [List.map_cons, List.splitOnP_cons_eq_if_modifyHead, List.splitOnP_cons_eq_if_modifyHead,
        ih, Function.comp_apply]
      split
      · rfl
      · cases s.splitOnP (p ∘ f) <;> rfl

/-- The parts of a text that is mapped. -/
theorem splitOn_map {f : γ → δ} (hf : Function.Injective f) (sep : γ) (s : List γ) :
    (s.map f).splitOn (f sep) = (s.splitOn sep).map (List.map f) := by
  have hsep : (fun c => f c == f sep) = fun c => c == sep := by
    funext c
    rw [Bool.eq_iff_iff, beq_iff_eq, beq_iff_eq, hf.eq_iff]
  rw [List.splitOn, splitOnP_map, List.splitOn, ← hsep]
  rfl

/-- There is one part more than there are separators. -/
theorem length_splitOn (sep : γ) (s : List γ) : (s.splitOn sep).length = s.count sep + 1 := by
  induction s with
  | nil => rfl
  | cons c s ih =>
      rw [List.splitOn_cons_eq_if_modifyHead, List.count_cons]
      split
      · rw [List.length_cons, ih]
      · rw [List.length_modifyHead, ih, Nat.add_zero]

/-- Texts that are joined by the separator are split where they were joined, and inside. -/
theorem splitOn_intercalate (sep : γ) {texts : List (List γ)} (hne : texts ≠ []) :
    ([sep].intercalate texts).splitOn sep = texts.flatMap fun s => s.splitOn sep := by
  induction texts with
  | nil => exact absurd rfl hne
  | cons s texts ih =>
      cases texts with
      | nil => simp [List.intercalate]
      | cons t texts =>
          rw [List.intercalate_cons_cons, List.append_assoc, List.singleton_append,
            List.flatMap_cons, ← ih (List.cons_ne_nil t texts)]
          exact List.splitOnP_append_cons s _ (beq_self_eq_true sep)

/-- A text without the separator is its own part. -/
theorem splitOn_of_notMem {sep : γ} {s : List γ} (h : sep ∉ s) : s.splitOn sep = [s] := by
  apply List.splitOnP_eq_singleton
  intro c hc
  exact beq_eq_false_iff_ne.mpr fun heq => h (heq ▸ hc)

/-- The first part is what comes before the separator. -/
theorem headD_splitOn (sep : γ) (s : List γ) :
    (s.splitOn sep).headD [] = s.takeWhile fun c => c ≠ sep := by
  induction s with
  | nil => rfl
  | cons c s ih =>
      rw [List.splitOn_cons_eq_if_modifyHead]
      by_cases hc : c = sep
      · simp [hc]
      · rw [if_neg (by simpa using hc)]
        cases hsplit : s.splitOn sep with
        | nil => exact absurd hsplit (List.splitOn_ne_nil sep s)
        | cons first others =>
            rw [hsplit] at ih
            simpa [hc] using ih

end Telemetry.Lib
