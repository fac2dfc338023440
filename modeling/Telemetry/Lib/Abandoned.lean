import Mathlib.Data.Int.Notation
import Mathlib.Data.List.Basic
import Mathlib.Data.Nat.Notation

/-!
# Charging for abandoned jobs

Somebody waits for a job until a deadline and then abandons it; the job may end before or after.
Two flags under one lock settle who comes first. If the job has not ended when it is abandoned, one
is charged for it, and when a charged job ends, the charge is taken back.

## Main definitions

* `Arbiter` — the two flags of a job.
* `Charges` — the count of the charges, and the flags of all jobs.
* `Charges.Balanced` — the count is the number of jobs that are charged and have not ended.

## Main results

* `Charges.balanced_start`, `Charges.balanced_finish`, `Charges.balanced_abandon` — the balance is
  kept as long as a job ends once and is abandoned once.
-/

namespace Telemetry.Lib

/-- What is known of a job: that it ended, and that it was charged. -/
structure Arbiter where
  finished : Bool := false
  counted : Bool := false
  deriving DecidableEq, Repr

/-- The job is charged and has not ended. -/
def Arbiter.owed (a : Arbiter) : Bool := a.counted && !a.finished

/-- The count, and the flags of the jobs. -/
structure Charges where
  count : ℤ := 0
  jobs : List Arbiter := []
  deriving DecidableEq, Repr

section

variable {δ : Type} {ds : List δ} {d : δ} {i : ℕ}

/-- One element replaced by another. -/
theorem countP_set (h : ds[i]? = some d) (p : δ → Bool) (d' : δ) :
    (ds.set i d').countP p = ds.countP p - (if p d then 1 else 0) + if p d' then 1 else 0 := by
  obtain ⟨hlt, rfl⟩ := List.getElem?_eq_some_iff.mp h
  exact List.countP_set hlt

theorem set_eq_self (h : ds[i]? = some d) : ds.set i d = ds := by
  obtain ⟨hlt, rfl⟩ := List.getElem?_eq_some_iff.mp h
  exact List.set_getElem_self hlt

end

namespace Charges

/-- A job starts. -/
def start (c : Charges) : Charges := { c with jobs := c.jobs ++ [{}] }

/-- A job ends; what was charged for it is taken back. -/
def finish (c : Charges) (i : ℕ) (a : Arbiter) : Charges where
  count := if a.counted then c.count - 1 else c.count
  jobs := c.jobs.set i { a with finished := true }

/-- A job is abandoned; it is charged unless it ended. -/
def abandon (c : Charges) (i : ℕ) (a : Arbiter) : Charges :=
  if a.finished then c
  else { count := c.count + 1, jobs := c.jobs.set i { a with counted := true } }

/-- How many jobs are charged and have not ended. -/
def owing (c : Charges) : ℕ := c.jobs.countP Arbiter.owed

/-- The count is the number of jobs that are charged and have not ended. -/
def Balanced (c : Charges) : Prop := c.count = c.owing

variable {c : Charges} {i : ℕ} {a b : Arbiter}

theorem owing_start (c : Charges) : c.start.owing = c.owing := by
  simp [owing, start, Arbiter.owed]

/-- Jobs are counted by a question that their flags answer. -/
theorem countP_eq_owing {δ : Type} {jobs : List δ} {p : δ → Bool} {flags : δ → Arbiter} (n : ℤ)
    (h : ∀ d ∈ jobs, p d = (flags d).owed) :
    jobs.countP p = (⟨n, jobs.map flags⟩ : Charges).owing := by
  rw [owing, List.countP_map]
  exact List.countP_congr fun d hd => by rw [h d hd]; rfl

/-- A job that is charged and has not ended is among those that owe. -/
theorem owing_pos (h : c.jobs[i]? = some a) (ha : a.owed = true) : 0 < c.owing :=
  List.countP_pos_iff.mpr ⟨a, List.mem_of_getElem? h, ha⟩

theorem balanced_start (h : c.Balanced) : c.start.Balanced := by
  rw [Balanced, owing_start]
  exact h

/-- **A job ends**, once. -/
theorem balanced_finish (h : c.Balanced) (hi : c.jobs[i]? = some a) (ha : a.finished = false) :
    (c.finish i a).Balanced := by
  have howed : a.owed = a.counted := by simp [Arbiter.owed, ha]
  have hafter : Arbiter.owed { a with finished := true } = false := by simp [Arbiter.owed]
  rw [Balanced, owing, finish, countP_set hi, ← owing, hafter, howed]
  rw [Balanced] at h
  cases hcounted : a.counted with
  | true =>
      have hpos := owing_pos hi (howed.trans hcounted)
      simp [h]
      omega
  | false => simp [h]

/-- **A job is abandoned**, once. -/
theorem balanced_abandon (h : c.Balanced) (hi : c.jobs[i]? = some a) (ha : a.counted = false) :
    (c.abandon i a).Balanced := by
  rw [abandon]
  split
  · exact h
  · next hfinished =>
      have howed : a.owed = false := by simp [Arbiter.owed, ha]
      have hafter : Arbiter.owed { a with counted := true } = true := by
        simpa [Arbiter.owed] using hfinished
      rw [Balanced, owing, countP_set hi, ← owing, hafter, howed, h]
      simp

end Charges
end Telemetry.Lib
