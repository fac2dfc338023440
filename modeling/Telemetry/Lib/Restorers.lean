import Mathlib.Logic.Function.Basic
import Telemetry.Lib.Run

/-!
# Guards that put a cell back

A change of a cell hands out a guard with the value from before the change, and when the guard is
dropped that value is written back. Guards are numbered in the order in which they were handed out,
and each is dropped at most once, in any order.

## Main definitions

* `Cells` — the cells and the guards that are still held.
* `restorers` — the machine.

## Main results

* `restorers_origin` — where a guard comes from.
* `restorers_drop` — **a drop puts back what was there before the change**.
-/

namespace Telemetry.Lib

universe u v

/-- The cells, and for every guard handed out its cell and value until it is dropped. -/
structure Cells (ι : Type u) (α : Type v) where
  cells : ι → α
  guards : List (Option (ι × α)) := []

/-- A change of a cell, or a drop of a guard. -/
inductive Restorer (ι : Type u) (α : Type v)
  | take (i : ι) (change : α → α)
  | drop (n : ℕ)

namespace Restorer

variable {ι : Type u} {α : Type v}

/-- The change hands out a guard. -/
def isTake : Restorer ι α → Bool
  | .take _ _ => true
  | .drop _ => false

end Restorer

variable {ι : Type u} {α : Type v} [DecidableEq ι]

/-- The cells with their guards, from given values. -/
def restorers (cells : ι → α) : Machine (Cells ι α) (Restorer ι α) where
  init := { cells := cells }
  step s
    | .take i change => some
        { cells := Function.update s.cells i (change (s.cells i))
          guards := s.guards ++ [some (i, s.cells i)] }
    | .drop n =>
        match s.guards[n]? with
        | some (some held) => some
            { cells := Function.update s.cells held.1 held.2
              guards := s.guards.set n none }
        | _ => none

variable {cells : ι → α} {ls : List (Restorer ι α)} {s : Cells ι α} {n : ℕ} {i : ι} {v : α}

theorem restorers_step_take (cells : ι → α) (s : Cells ι α) (i : ι) (change : α → α) :
    (restorers cells).step s (.take i change) = some
      { cells := Function.update s.cells i (change (s.cells i))
        guards := s.guards ++ [some (i, s.cells i)] } := rfl

/-- Only a guard that is still held can be dropped. -/
theorem restorers_step_drop {s' : Cells ι α}
    (h : (restorers cells).step s (.drop n) = some s') :
    ∃ held, s.guards[n]? = some (some held) ∧
      s' = { cells := Function.update s.cells held.1 held.2, guards := s.guards.set n none } := by
  simp only [restorers] at h
  split at h
  next held hheld => exact ⟨held, hheld, (Option.some.inj h).symm⟩
  next => cases h

/-- Every change hands out one guard. -/
theorem length_guards (h : (restorers cells).run ls = some s) :
    s.guards.length = ls.countP Restorer.isTake := by
  induction ls using List.reverseRecOn generalizing s with
  | nil =>
      obtain rfl : (restorers cells).init = s := by simpa [Machine.run] using h
      rfl
  | append_singleton ls l ih =>
      obtain ⟨t, ht, hstep⟩ := Machine.run_concat.mp h
      rw [List.countP_append, ← ih ht]
      cases l with
      | take i change =>
          obtain rfl := Option.some.inj hstep
          simp [Restorer.isTake]
      | drop n =>
          obtain ⟨held, -, rfl⟩ := restorers_step_drop hstep
          simp [Restorer.isTake]

/-- **Where a guard comes from**: from the change with its number, and its value is what the cell
held before that change. -/
theorem restorers_origin (h : (restorers cells).run ls = some s)
    (hheld : s.guards[n]? = some (some (i, v))) :
    ∃ pre change mid t, ls = pre ++ .take i change :: mid ∧ pre.countP Restorer.isTake = n ∧
      (restorers cells).run pre = some t ∧ t.cells i = v := by
  induction ls using List.reverseRecOn generalizing s with
  | nil =>
      obtain rfl : (restorers cells).init = s := by simpa [Machine.run] using h
      simp [restorers] at hheld
  | append_singleton ls l ih =>
      obtain ⟨t, ht, hstep⟩ := Machine.run_concat.mp h
      -- a guard that was held before is the same guard
      have hbefore : t.guards[n]? = some (some (i, v)) →
          ∃ pre change mid t, ls ++ [l] = pre ++ .take i change :: mid ∧
            pre.countP Restorer.isTake = n ∧
            (restorers cells).run pre = some t ∧ t.cells i = v := by
        intro hold
        obtain ⟨pre, change, mid, r, rfl, hpre⟩ := ih ht hold
        exact ⟨pre, change, mid ++ [l], r, by simp, hpre⟩
      cases l with
      | take j change =>
          obtain rfl := Option.some.inj hstep
          rw [List.getElem?_append] at hheld
          split at hheld
          next => exact hbefore hheld
          next hge =>
            have hn : n - t.guards.length = 0 := by
              by_contra hne
              rw [List.getElem?_eq_none (by simp; omega)] at hheld
              cases hheld
            simp only [hn, List.getElem?_cons_zero, Option.some.injEq, Prod.mk.injEq] at hheld
            obtain ⟨rfl, hv⟩ := hheld
            refine ⟨ls, change, [], t, rfl, ?_, ht, hv⟩
            rw [← length_guards ht]
            omega
      | drop m =>
          obtain ⟨held, -, rfl⟩ := restorers_step_drop hstep
          rw [List.getElem?_set] at hheld
          split at hheld
          next => split at hheld <;> simp at hheld
          next => exact hbefore hheld

/-- **A drop puts back what was there before the change**, and nothing else moves. -/
theorem restorers_drop (h : (restorers cells).run (ls ++ [.drop n]) = some s) :
    ∃ pre i change mid t t', ls = pre ++ .take i change :: mid ∧
      pre.countP Restorer.isTake = n ∧
      (restorers cells).run pre = some t ∧ (restorers cells).run ls = some t' ∧
      s.cells i = t.cells i ∧ ∀ j, j ≠ i → s.cells j = t'.cells j := by
  obtain ⟨t', ht', hstep⟩ := Machine.run_concat.mp h
  obtain ⟨⟨i, v⟩, hheld, rfl⟩ := restorers_step_drop hstep
  obtain ⟨pre, change, mid, t, hls, hcount, ht, hv⟩ := restorers_origin ht' hheld
  refine ⟨pre, i, change, mid, t, t', hls, hcount, ht, ht', ?_, fun j hj => ?_⟩
  · simp [hv]
  · simp [hj]

end Telemetry.Lib
