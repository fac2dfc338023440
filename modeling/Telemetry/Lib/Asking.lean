import Mathlib.Data.Nat.Notation

/-!
# Computations that ask

A computation may ask questions on its way, and may raise. What it does with an answer is its own
affair, so nothing is known of it but what it asks, and what it can return. Where every question
leaves the state of the one who answers as it is, so does the computation.

## Main definitions

* `Asking` — a computation, with its monad structure and `Asking.attempt`, a handler.
* `Asking.run` — the computation with the answers of someone who has a state.
* `Asking.Always` — what holds of everything that it can return.

## Main results

* `Asking.run_of_steady` — **answers that leave the state**.
* `Asking.Always.of_run` — what is returned is among what can be returned.
-/

namespace Telemetry.Lib

/-- A computation that returns or raises, or asks and goes on with the answer. -/
inductive Asking (Q A ε α : Type)
  | done (result : Except ε α)
  | ask (question : Q) (next : A → Asking Q A ε α)

namespace Asking

variable {Q A ε α β σ : Type}

/-- One computation after the other. -/
def bind : Asking Q A ε α → (α → Asking Q A ε β) → Asking Q A ε β
  | done (.ok a), f => f a
  | done (.error e), _ => done (.error e)
  | ask q next, f => ask q fun answer => (next answer).bind f

instance : Monad (Asking Q A ε) where
  pure a := done (.ok a)
  bind := bind

/-- Raise an exception. -/
def raise (e : ε) : Asking Q A ε α := done (.error e)

/-- If an exception of a kind is raised, the other computation takes over. -/
def attempt : Asking Q A ε α → (ε → Bool) → Asking Q A ε α → Asking Q A ε α
  | done (.ok a), _, _ => done (.ok a)
  | done (.error e), kind, other => if kind e then other else done (.error e)
  | ask q next, kind, other => ask q fun answer => (next answer).attempt kind other

/-- The computation, with someone who answers, if he does, and changes his state. -/
def run (answer : Q → σ → Option (A × σ)) : Asking Q A ε α → σ → Option (Except ε α × σ)
  | done result, s => some (result, s)
  | ask q next, s =>
      match answer q s with
      | none => none
      | some (a, s') => run answer (next a) s'

/-- Whatever the answers are, what is returned has the property. -/
def Always (P : α → Prop) : Asking Q A ε α → Prop
  | done (.ok a) => P a
  | done (.error _) => True
  | ask _ next => ∀ answer, Always P (next answer)

variable {answer : Q → σ → Option (A × σ)} {s s' : σ} {P : α → Prop} {R : β → Prop}
  {c other : Asking Q A ε α}

/-- **Answers that leave the state** where it is. -/
theorem run_of_steady (h : ∀ q, ∃ a, answer q s = some (a, s)) (c : Asking Q A ε α) :
    ∃ result, c.run answer s = some (result, s) := by
  induction c with
  | done result => exact ⟨result, rfl⟩
  | ask q next ih =>
      obtain ⟨a, ha⟩ := h q
      rw [run, ha]
      exact ih a

@[simp] theorem always_pure {a : α} : Always P (pure a : Asking Q A ε α) ↔ P a := Iff.rfl

@[simp] theorem always_raise {e : ε} : Always P (raise e : Asking Q A ε α) := trivial

theorem Always.mono {P' : α → Prop} (h : c.Always P) (hp : ∀ a, P a → P' a) : c.Always P' := by
  induction c with
  | done result =>
      cases result with
      | ok a => exact hp a h
      | error e => trivial
  | ask q next ih => exact fun answer => ih answer (h answer)

/-- Nothing is asked of what can be returned. -/
theorem always_of_forall (h : ∀ a, P a) (c : Asking Q A ε α) : c.Always P := by
  induction c with
  | done result =>
      cases result with
      | ok a => exact h a
      | error e => trivial
  | ask q next ih => exact fun answer => ih answer

theorem Always.bind {f : α → Asking Q A ε β} (h : c.Always P) (hf : ∀ a, P a → (f a).Always R) :
    (c >>= f).Always R := by
  induction c with
  | done result =>
      cases result with
      | ok a => exact hf a h
      | error e => trivial
  | ask q next ih => exact fun answer => ih answer (h answer)

theorem Always.attempt {kind : ε → Bool} (h : c.Always P) (hother : other.Always P) :
    (c.attempt kind other).Always P := by
  induction c with
  | done result =>
      cases result with
      | ok a => exact h
      | error e =>
          rw [Asking.attempt]
          split
          · exact hother
          · trivial
  | ask q next ih => exact fun answer => ih answer (h answer)

/-- **What is returned** is among what can be returned. -/
theorem Always.of_run (h : c.Always P) {a : α} (hrun : c.run answer s = some (.ok a, s')) :
    P a := by
  induction c generalizing s with
  | done result =>
      cases hrun
      exact h
  | ask q next ih =>
      rw [run] at hrun
      cases hq : answer q s with
      | none =>
          rw [hq] at hrun
          cases hrun
      | some step =>
          rw [hq] at hrun
          exact ih step.1 (h step.1) hrun

end Asking
end Telemetry.Lib
