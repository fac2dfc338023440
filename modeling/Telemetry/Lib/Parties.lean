import Mathlib.Data.Set.Insert
import Mathlib.Logic.Function.Basic
import Mathlib.Order.BooleanAlgebra.Set

/-!
# Parties with a status

Each party of a system has a status, and a step changes the status of one. Which parties have a
status of some kind then changes by that party alone.

## Main results

* `setOf_update_of_holds`, `setOf_update_of_not`, `setOf_update_of_iff` — the party joins the
  others, leaves them, or stays where it was.
-/

namespace Telemetry.Lib

universe u v

variable {ι : Type u} {τ : Type v} [DecidableEq ι] {P : τ → Prop} {status : ι → τ} {i : ι} {t : τ}

/-- A party takes on a status of the kind. -/
theorem setOf_update_of_holds (h : P t) :
    {j | P (Function.update status i t j)} = insert i {j | P (status j)} := by
  ext j
  by_cases hj : j = i
  · subst hj
    simp [h]
  · simp [hj]

/-- A party takes on a status that is not of the kind. -/
theorem setOf_update_of_not (h : ¬ P t) :
    {j | P (Function.update status i t j)} = {j | P (status j)} \ {i} := by
  ext j
  by_cases hj : j = i
  · subst hj
    simp [h]
  · simp [hj]

/-- A party takes on a status of the kind just if its old one was. -/
theorem setOf_update_of_iff (h : P t ↔ P (status i)) :
    {j | P (Function.update status i t j)} = {j | P (status j)} := by
  ext j
  by_cases hj : j = i
  · subst hj
    simp [h]
  · simp [hj]

end Telemetry.Lib
