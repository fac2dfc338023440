import Mathlib.Algebra.BigOperators.Group.Finset.Piecewise
import Mathlib.Tactic.Abel

/-!
# Postings to accounts

A posting adds to an account or sets it. What an account has after a history of postings is found
by replaying those to it, from zero on; the total is the sum over all accounts that were ever
posted to.

## Main definitions

* `Posting`, `balance`, `total`.

## Main results

* `total_append` — one posting changes the total by as much as it changes its account.
-/

namespace Telemetry.Lib

variable {κ A : Type} [DecidableEq κ] [AddCommGroup A]

/-- What is done to an account. -/
inductive Posting (A : Type)
  | add (amount : A)
  | set (value : A)
  deriving DecidableEq, Repr

/-- What an account has after a posting. -/
def Posting.apply : Posting A → A → A
  | .add amount, x => x + amount
  | .set value, _ => value

/-- What an account has after a history of postings. -/
def balance (h : List (κ × Posting A)) (k : κ) : A :=
  h.foldl (fun x e => if e.1 = k then e.2.apply x else x) 0

/-- The accounts that were posted to. -/
def accounts (h : List (κ × Posting A)) : Finset κ := (h.map Prod.fst).toFinset

/-- What all accounts have together. -/
def total (h : List (κ × Posting A)) : A := ∑ k ∈ accounts h, balance h k

variable {h : List (κ × Posting A)} {k : κ} {p : Posting A}

@[simp] theorem balance_nil (k : κ) : balance ([] : List (κ × Posting A)) k = 0 := rfl

/-- One posting changes its account and no other. -/
theorem balance_append (h : List (κ × Posting A)) (k : κ) (p : Posting A) :
    balance (h ++ [(k, p)]) = Function.update (balance h) k (p.apply (balance h k)) := by
  ext j
  by_cases hj : j = k
  · subst hj
    simp [balance]
  · simp [balance, hj, Ne.symm hj]

/-- An account that was not posted to has nothing. -/
theorem balance_eq_zero (hk : k ∉ accounts h) : balance h k = 0 := by
  induction h using List.reverseRecOn with
  | nil => rfl
  | append_singleton h e ih =>
      obtain ⟨j, p⟩ := e
      have hne : k ≠ j ∧ k ∉ accounts h := by
        simpa [accounts, not_or, and_comm] using hk
      rw [balance_append, Function.update_of_ne hne.1]
      exact ih hne.2

@[simp] theorem total_nil : total ([] : List (κ × Posting A)) = 0 := rfl

/-- **One posting** changes the total by as much as it changes its account. -/
theorem total_append (h : List (κ × Posting A)) (k : κ) (p : Posting A) :
    total (h ++ [(k, p)]) = total h + (p.apply (balance h k) - balance h k) := by
  have haccounts : accounts (h ++ [(k, p)]) = insert k (accounts h) := by
    ext j
    simp [accounts]
  have hbefore : total h = ∑ j ∈ insert k (accounts h), balance h j :=
    (Finset.sum_insert_of_eq_zero_if_notMem balance_eq_zero).symm
  have hself : k ∈ insert k (accounts h) := Finset.mem_insert_self k _
  calc
    total (h ++ [(k, p)]) =
        ∑ j ∈ insert k (accounts h),
          Function.update (balance h) k (p.apply (balance h k)) j := by
      rw [total, haccounts, balance_append]
    _ = p.apply (balance h k) + ∑ j ∈ insert k (accounts h) \ {k}, balance h j :=
      Finset.sum_update_of_mem hself _ _
    _ = balance h k + ∑ j ∈ insert k (accounts h) \ {k}, balance h j +
        (p.apply (balance h k) - balance h k) := by abel
    _ = ∑ j ∈ insert k (accounts h), balance h j + (p.apply (balance h k) - balance h k) := by
      rw [← Finset.sum_update_of_mem hself, Function.update_eq_self]
    _ = total h + (p.apply (balance h k) - balance h k) := by rw [hbefore]

end Telemetry.Lib
