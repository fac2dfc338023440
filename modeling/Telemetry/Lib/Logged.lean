import Mathlib.Data.List.Basic

/-!
# Computations that report

A `Logged ω α` is a value together with the list of reports made on the way to it, in
order. It is how a function that calls a hook is written as a pure function: the hook's
calls are the log.

## Main definitions

* `Logged` — a value and a log, with its monad structure.
* `Logged.tell` — make one report.
-/

namespace Telemetry.Lib

universe u v

/-- A value, and what was reported while it was computed. -/
@[ext] structure Logged (ω : Type u) (α : Type v) where
  /-- The result. -/
  val : α
  /-- The reports, in order. -/
  log : List ω
  deriving DecidableEq, Repr

namespace Logged

variable {ω : Type u} {α β : Type v}

instance : Monad (Logged ω) where
  pure a := ⟨a, []⟩
  bind x f := ⟨(f x.val).val, x.log ++ (f x.val).log⟩

/-- Make one report. -/
def tell (w : ω) : Logged ω PUnit.{v + 1} := ⟨⟨⟩, [w]⟩

@[simp] theorem val_pure (a : α) : (pure a : Logged ω α).val = a := rfl
@[simp] theorem log_pure (a : α) : (pure a : Logged ω α).log = [] := rfl
@[simp] theorem val_bind (x : Logged ω α) (f : α → Logged ω β) :
    (x >>= f).val = (f x.val).val := rfl
@[simp] theorem log_bind (x : Logged ω α) (f : α → Logged ω β) :
    (x >>= f).log = x.log ++ (f x.val).log := rfl
@[simp] theorem log_tell (w : ω) : (tell w : Logged ω PUnit.{v + 1}).log = [w] := rfl

/-- The value of a monadic fold is the fold of the values. -/
theorem val_foldlM (f : β → α → Logged ω β) (b : β) (xs : List α) :
    (xs.foldlM f b).val = xs.foldl (fun b x => (f b x).val) b := by
  induction xs generalizing b with
  | nil => rfl
  | cons x xs ih =>
      rw [List.foldlM_cons, val_bind, ih]
      rfl

/-- A report of a fold is a report of one of its steps. -/
theorem mem_log_foldlM {f : β → α → Logged ω β} {b : β} {xs : List α} {w : ω}
    (h : w ∈ (xs.foldlM f b).log) :
    ∃ ys x zs, xs = ys ++ x :: zs ∧ w ∈ (f (ys.foldl (fun b x => (f b x).val) b) x).log := by
  induction xs generalizing b with
  | nil => cases h
  | cons x xs ih =>
      rw [List.foldlM_cons, log_bind, List.mem_append] at h
      obtain h | h := h
      · exact ⟨[], x, xs, rfl, h⟩
      · obtain ⟨ys, y, zs, rfl, hy⟩ := ih h
        exact ⟨x :: ys, y, zs, rfl, hy⟩

end Logged
end Telemetry.Lib
