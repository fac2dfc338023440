import Telemetry.Lib.Parties
import Telemetry.Lib.Run
import Mathlib.Data.Set.Subsingleton

/-!
# A test-and-set flag with no owner

Parties raise a flag to claim a slot and lower it by reporting, but the flag is a
bare boolean: it does not remember who raised it, so *any* party's report lowers
it, and a party that quits without reporting leaves it as it is.

The two ways such a flag goes wrong are independent, and so are the two conditions
under which it does not:

* if, while the flag is raised, only a party holding the slot reports, then at most
  one party ever holds it (`exclusive_of_reachable`);
* if no party holding the slot quits, then a raised flag always has a holder
  (`attended_of_reachable`), whatever the other parties report.

## Main definitions

* `OwnerlessFlag` — the flag and the set of parties holding the slot.
* `Event`, `machine` — claiming, reporting, quitting.
* `ofParties` — the flag that a system of parties shows.
* `Exclusive`, `Attended` — the two invariants.
-/

namespace Telemetry.Lib

universe u v

/-- The flag, and the parties that raised it and have neither reported nor quit. -/
@[ext] structure OwnerlessFlag (ι : Type u) where
  /-- Whether the flag is raised. -/
  raised : Bool
  /-- The parties that claimed the slot and still hold it. -/
  holders : Set ι

namespace OwnerlessFlag

variable {ι : Type u}

/-- What a party may do. -/
inductive Event (ι : Type u)
  /-- Raise the flag, which must be down. -/
  | claim (i : ι)
  /-- Lower the flag, whoever raised it. -/
  | report (i : ι)
  /-- Leave the flag as it is and go. -/
  | quit (i : ι)

open Classical in
/-- The flag as a machine. A claim is enabled only while the flag is down. -/
noncomputable def machine (ι : Type u) : Machine (OwnerlessFlag ι) (Event ι) where
  init := ⟨false, ∅⟩
  step f
    | .claim i => if f.raised then none else some ⟨true, insert i f.holders⟩
    | .report i => some ⟨false, f.holders \ {i}⟩
    | .quit i => some ⟨f.raised, f.holders \ {i}⟩

/-- What one step can do. -/
theorem step_cases {f f' : OwnerlessFlag ι} {e : Event ι}
    (h : (machine ι).step f e = some f') :
    (∃ i, e = .claim i ∧ f.raised = false ∧ f' = ⟨true, insert i f.holders⟩) ∨
    (∃ i, e = .report i ∧ f' = ⟨false, f.holders \ {i}⟩) ∨
    (∃ i, e = .quit i ∧ f' = ⟨f.raised, f.holders \ {i}⟩) := by
  cases e with
  | claim i =>
      by_cases hr : f.raised = true
      · simp [machine, hr] at h
      · exact .inl ⟨i, rfl, by simpa using hr, by simpa [machine, hr] using h.symm⟩
  | report i => exact .inr (.inl ⟨i, rfl, by simpa [machine] using h.symm⟩)
  | quit i => exact .inr (.inr ⟨i, rfl, by simpa [machine] using h.symm⟩)

/-! ## The flag of a system of parties -/

section Parties

variable {τ : Type v} [DecidableEq ι]

/-- The flag as a system shows it: who holds the slot is read off each party's status. -/
def ofParties (Holds : τ → Prop) (raised : Bool) (status : ι → τ) : OwnerlessFlag ι :=
  ⟨raised, {i | Holds (status i)}⟩

variable {Holds : τ → Prop} {raised : Bool} {status : ι → τ} {i : ι} {t : τ}

/-- A party takes on a status that holds the slot. -/
theorem ofParties_update_of_holds (h : Holds t) :
    ofParties Holds raised (Function.update status i t) =
      ⟨raised, insert i (ofParties Holds raised status).holders⟩ :=
  OwnerlessFlag.ext rfl (setOf_update_of_holds h)

/-- A party takes on a status that does not. -/
theorem ofParties_update_of_not (h : ¬ Holds t) :
    ofParties Holds raised (Function.update status i t) =
      ⟨raised, (ofParties Holds raised status).holders \ {i}⟩ :=
  OwnerlessFlag.ext rfl (setOf_update_of_not h)

/-- A party takes on a status that holds the slot just if its old one did. -/
theorem ofParties_update_of_iff (h : Holds t ↔ Holds (status i)) :
    ofParties Holds raised (Function.update status i t) = ofParties Holds raised status :=
  OwnerlessFlag.ext rfl (setOf_update_of_iff h)

end Parties

/-! ## At most one holder -/

/-- At most one party holds the slot, and only while the flag is raised. -/
structure Exclusive (f : OwnerlessFlag ι) : Prop where
  raised_of_holder : f.holders.Nonempty → f.raised = true
  subsingleton : f.holders.Subsingleton

/-- While the flag is raised, a report comes from a party holding the slot. -/
def ReportsOwn (f : OwnerlessFlag ι) : Event ι → Prop
  | .report i => f.raised = true → i ∈ f.holders
  | _ => True

theorem exclusive_step {f f' : OwnerlessFlag ι} {e : Event ι} (hf : Exclusive f)
    (hg : ReportsOwn f e) (h : (machine ι).step f e = some f') : Exclusive f' := by
  obtain ⟨i, rfl, hdown, rfl⟩ | ⟨i, rfl, rfl⟩ | ⟨i, rfl, rfl⟩ := step_cases h
  · -- The flag was down, so nobody held the slot: the claimant is alone.
    have hnone : f.holders = ∅ := by
      rw [← Set.not_nonempty_iff_eq_empty]
      intro hne
      simp [hf.raised_of_holder hne] at hdown
    exact ⟨fun _ => rfl, by simp [hnone]⟩
  · -- The report came from the only holder, if there was one.
    have hnone : f.holders \ {i} = ∅ := by
      rw [← Set.not_nonempty_iff_eq_empty]
      rintro ⟨j, hj, hji⟩
      exact hji (hf.subsingleton hj (hg (hf.raised_of_holder ⟨j, hj⟩)))
    exact ⟨by simp [hnone], by simp [hnone]⟩
  · exact ⟨fun hne => hf.raised_of_holder (hne.mono Set.sdiff_subset),
      hf.subsingleton.anti Set.sdiff_subset⟩

/-- **Mutual exclusion**, as long as nobody reports against another's claim. -/
theorem exclusive_of_reachable {f : OwnerlessFlag ι}
    (hf : (machine ι).Reachable ReportsOwn f) : Exclusive f :=
  hf.invariant (P := Exclusive) ⟨by simp [machine], by simp [machine]⟩
    fun _ _ _ hP hg h => exclusive_step hP hg h

/-! ## No raised flag without a holder -/

/-- A raised flag has a holder. -/
def Attended (f : OwnerlessFlag ι) : Prop := f.raised = true → f.holders.Nonempty

/-- A party holding the slot does not quit. -/
def HoldersStay (f : OwnerlessFlag ι) : Event ι → Prop
  | .quit i => i ∉ f.holders
  | _ => True

theorem attended_step {f f' : OwnerlessFlag ι} {e : Event ι} (hf : Attended f)
    (hg : HoldersStay f e) (h : (machine ι).step f e = some f') : Attended f' := by
  obtain ⟨i, rfl, -, rfl⟩ | ⟨i, rfl, rfl⟩ | ⟨i, rfl, rfl⟩ := step_cases h
  · exact fun _ => ⟨i, Set.mem_insert i _⟩
  · intro hr
    simp at hr
  · intro hr
    rw [show f.holders \ {i} = f.holders from Set.sdiff_singleton_eq_self hg]
    exact hf hr

/-- **No abandoned flag**, as long as no holder quits; stale reports do no harm. -/
theorem attended_of_reachable {f : OwnerlessFlag ι}
    (hf : (machine ι).Reachable HoldersStay f) : Attended f :=
  hf.invariant (P := Attended) (by simp [Attended, machine])
    fun _ _ _ hP hg h => attended_step hP hg h

end OwnerlessFlag
end Telemetry.Lib
