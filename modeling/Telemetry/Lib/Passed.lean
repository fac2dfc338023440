import Mathlib.Data.List.Basic
import Mathlib.Data.List.Forall2

/-!
# Remembering what passed a check

A check is dear, so what passed it once is remembered under a key, and what has a remembered key
passes without the check. What did not pass is checked again the next time. Where keys can be made
at all, the answers are those of the check unless a key is remembered for one and used for another.

## Main definitions

* `Passing` — the check and the keys.
* `Passing.ask`, `Passing.answers` — one question, and one after the other.

## Main results

* `Passing.forall₂_right_iff` — **when all answers are those of the check**.
-/

namespace Telemetry.Lib

/-- A check, and the key under which it is remembered that it was passed, if there is one. -/
structure Passing (α κ : Type) where
  key : α → Option κ
  passes : α → Prop

namespace Passing

variable {α κ : Type} [DecidableEq κ] (P : Passing α κ) [DecidablePred P.passes]

/-- One question, with the keys that are remembered; without a key there is no answer. -/
def ask (known : List κ) (a : α) : Option Bool × List κ :=
  match P.key a with
  | none => (none, known)
  | some k =>
      if k ∈ known then (some true, known)
      else if P.passes a then (some true, k :: known)
      else (some false, known)

/-- The answers to questions that are asked one after the other. -/
def answers : List κ → List α → List (Option Bool)
  | _, [] => []
  | known, a :: as => (P.ask known a).1 :: answers (P.ask known a).2 as

/-- An answer is yes exactly where the check is passed. -/
def Right (a : α) (answer : Option Bool) : Prop := answer = some true ↔ P.passes a

/-- What is passed has a key. -/
def HasKey (a : α) : Prop := P.passes a → (P.key a).isSome = true

/-- If the first passes, the other does not have its key without passing. -/
def Apart (a b : α) : Prop := P.passes a → (P.key a).isSome = true → P.key a = P.key b → P.passes b

variable {P} {known : List κ} {a : α} {as : List α} {k : κ}

omit [DecidableEq κ] [DecidablePred P.passes] in
/-- A key is apart from one that does not pass. -/
theorem apart_of_not_passes (h : ¬P.passes a) (b : α) : P.Apart a b :=
  fun ha => absurd ha h

/-- **Whether all answers are right**, with some keys that are known already. -/
theorem forall₂_right_known_iff (known : List κ) (as : List α) :
    List.Forall₂ P.Right as (P.answers known as) ↔
      (∀ a ∈ as, P.HasKey a) ∧ (∀ a ∈ as, ∀ k ∈ known, P.key a = some k → P.passes a) ∧
        as.Pairwise P.Apart := by
  induction as generalizing known with
  | nil => simp [answers]
  | cons a as ih =>
      rw [answers, List.forall₂_cons, ih, List.forall_mem_cons, List.forall_mem_cons,
        List.pairwise_cons, ask]
      cases hkey : P.key a with
      | none =>
          -- no answer: right iff the question does not pass, and then nothing is remembered
          have hright : P.Right a none ↔ P.HasKey a := by simp [Right, HasKey, hkey]
          have hapart : ∀ b ∈ as, P.Apart a b := fun b _ => by simp [Apart, hkey]
          have hknown : ∀ k ∈ known, (none : Option κ) = some k → P.passes a := by simp
          simp only [hright]
          tauto
      | some k =>
          have hhas : P.HasKey a := fun _ => by simp [hkey]
          dsimp only
          split
          · next hmem =>
            -- the key is known: the answer is yes, and nothing more is remembered
            have hright : P.Right a (some true) ↔ P.passes a := by simp [Right]
            have hknown : (∀ j ∈ known, some k = some j → P.passes a) ↔ P.passes a :=
              ⟨fun h => h k hmem rfl, fun h _ _ _ => h⟩
            have hapart : (∀ b ∈ as, ∀ j ∈ known, P.key b = some j → P.passes b) →
                ∀ b ∈ as, P.Apart a b := fun h b hb _ _ heq =>
              h b hb k hmem (heq ▸ hkey)
            simp only [hright, hknown]
            tauto
          · next hmem =>
            have hknown : ∀ j ∈ known, some k = some j → P.passes a := fun j hj heq =>
              absurd (Option.some.inj heq ▸ hj) hmem
            split
            · next hpass =>
              -- the question passes, and its key is remembered
              have hright : P.Right a (some true) := by simp [Right, hpass]
              have hcons : (∀ b ∈ as, ∀ j ∈ k :: known, P.key b = some j → P.passes b) ↔
                  (∀ b ∈ as, P.Apart a b) ∧
                    ∀ b ∈ as, ∀ j ∈ known, P.key b = some j → P.passes b := by
                rw [← forall₂_and]
                refine forall₂_congr fun b _ => ?_
                rw [List.forall_mem_cons]
                simp [Apart, hpass, hkey, eq_comm]
              simp only [hright, hcons]
              tauto
            · next hpass =>
              have hright : P.Right a (some false) := by simp [Right, hpass]
              have hapart : ∀ b ∈ as, P.Apart a b := fun b _ => apart_of_not_passes hpass b
              simp only [hright]
              tauto

variable (P)

/-- **When all answers are those of the check.** -/
theorem forall₂_right_iff (as : List α) :
    List.Forall₂ P.Right as (P.answers [] as) ↔
      (∀ a ∈ as, P.HasKey a) ∧ as.Pairwise P.Apart := by
  rw [forall₂_right_known_iff]
  simp

end Passing
end Telemetry.Lib
