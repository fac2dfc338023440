import Mathlib.Data.List.Lex
import Mathlib.Data.Nat.Digits.Defs

/-!
# Numbers of a fixed width

The last digits of a number in a base, as many as are asked for. Numbers that are padded with zeros
are such texts, and their order is that of the numbers.

## Main definitions

* `fixedDigits` — the last digits of a number.

## Main results

* `replicate_append_toDigits` — digits that are padded with zeros.
* `fixedDigits_lt` — **the order of the texts is that of the numbers**.
* `append_lt_append` — the order of texts whose first parts have one length.
-/

namespace Telemetry.Lib

/-- The last `width` digits of a number. -/
def fixedDigits (b : ℕ) : ℕ → ℕ → List Char
  | 0, _ => []
  | width + 1, n => fixedDigits b width (n / b) ++ [Nat.digitChar (n % b)]

variable {b width n : ℕ}

theorem length_fixedDigits (b width n : ℕ) : (fixedDigits b width n).length = width := by
  induction width generalizing n with
  | zero => rfl
  | succ width ih => rw [fixedDigits, List.length_append, ih, List.length_singleton]

theorem fixedDigits_zero (b width : ℕ) : fixedDigits b width 0 = List.replicate width '0' := by
  induction width with
  | zero => rfl
  | succ width ih => rw [fixedDigits, Nat.zero_div, ih, Nat.zero_mod, List.replicate_succ']; rfl

/-- Digits that are padded with zeros. -/
theorem replicate_append_toDigits (hb : 1 < b) (h : n < b ^ (width + 1)) :
    List.replicate (width + 1 - (Nat.toDigits b n).length) '0' ++ Nat.toDigits b n =
      fixedDigits b (width + 1) n := by
  induction width generalizing n with
  | zero =>
      rw [zero_add, pow_one] at h
      rw [Nat.toDigits_of_lt_base h, fixedDigits, fixedDigits, Nat.mod_eq_of_lt h]
      rfl
  | succ width ih =>
      by_cases hn : n < b
      · rw [Nat.toDigits_of_lt_base hn, fixedDigits, Nat.div_eq_of_lt hn, fixedDigits_zero,
          Nat.mod_eq_of_lt hn]
        rfl
      · have hdiv : n / b < b ^ (width + 1) := by
          rw [Nat.div_lt_iff_lt_mul (by omega), ← pow_succ]
          exact h
        rw [Nat.toDigits_of_base_le hb (by omega), fixedDigits, ← ih hdiv, List.length_append,
          List.length_singleton, List.append_assoc, Nat.add_sub_add_right]

/-! ## Order -/

/-- Texts are ordered by their first parts, if these have one length. -/
theorem append_lt_append {α : Type} [LT α] {s s' : List α} (hlen : s.length = s'.length)
    (h : s < s') (t t' : List α) : s ++ t < s' ++ t' := by
  induction s generalizing s' with
  | nil =>
      cases s' with
      | nil => exact absurd h (List.not_lt_nil [])
      | cons c s' => exact absurd hlen (by simp)
  | cons c s ih =>
      cases s' with
      | nil => exact absurd hlen (by simp)
      | cons c' s' =>
          rw [List.cons_append, List.cons_append, List.cons_lt_cons_iff]
          obtain hlt | ⟨rfl, hlt⟩ := List.cons_lt_cons_iff.mp h
          · exact .inl hlt
          · exact .inr ⟨rfl, ih (Nat.succ.inj hlen) hlt⟩

theorem digitChar_lt {i j : ℕ} (h : i < j) (hj : j < 10) : Nat.digitChar i < Nat.digitChar j := by
  have hall : ∀ j < 10, ∀ i < j, Nat.digitChar i < Nat.digitChar j := by decide
  exact hall j hj i h

/-- **The order of the texts is that of the numbers.** -/
theorem fixedDigits_lt {m : ℕ} (h : m < n) (hn : n < 10 ^ width) :
    fixedDigits 10 width m < fixedDigits 10 width n := by
  induction width generalizing m n with
  | zero => omega
  | succ width ih =>
      rw [pow_succ] at hn
      rw [fixedDigits, fixedDigits]
      obtain hdiv | hdiv : m / 10 < n / 10 ∨ m / 10 = n / 10 := by omega
      · refine append_lt_append ?_ (ih hdiv (by omega)) _ _
        rw [length_fixedDigits, length_fixedDigits]
      · rw [hdiv]
        refine List.append_left_lt (List.cons_lt_cons_iff.mpr (.inl (digitChar_lt ?_ ?_)))
        · omega
        · omega

end Telemetry.Lib
