import Mathlib.Data.List.Basic
import Mathlib.Order.Basic

/-!
# What is out since the term began

Slips are handed out in terms, one term after the other. A slip is out until it is returned, but
only in the term it was handed out in: when a new term begins, nothing is out.

## Main definitions

* `Terms` — the slips handed out so far, and the term that it is.
* `Terms.out` — how many slips of a kind are out.

## Main results

* `Terms.out_renew`, `Terms.out_issue`, `Terms.out_turnIn` — what a new term, a slip handed out and
  a slip turned in make of that.
-/

namespace Telemetry.Lib

/-- A slip of some kind, the term it was handed out in, and whether it was returned. -/
structure TermSlip (κ : Type) where
  kind : κ
  term : ℕ
  returned : Bool := false

/-- The term that it is, and the slips of all terms, the oldest first. -/
structure Terms (κ : Type) where
  term : ℕ := 0
  slips : List (TermSlip κ) := []

variable {κ : Type}

namespace Terms

/-- A new term begins. -/
def renew (b : Terms κ) : Terms κ := { b with term := b.term + 1 }

/-- A slip is handed out. -/
def issue (b : Terms κ) (kind : κ) : Terms κ :=
  { b with slips := b.slips ++ [⟨kind, b.term, false⟩] }

/-- The slip at a place is turned in. -/
def turnIn (b : Terms κ) (k : ℕ) (x : TermSlip κ) : Terms κ :=
  { b with slips := b.slips.set k { x with returned := true } }

/-- No slip is of a term to come. -/
def Dated (b : Terms κ) : Prop := ∀ x ∈ b.slips, x.term ≤ b.term

variable {b : Terms κ} {k : ℕ} {x : TermSlip κ}

theorem dated_renew (h : b.Dated) : b.renew.Dated := fun x hx => Nat.le_succ_of_le (h x hx)

theorem dated_issue (h : b.Dated) (kind : κ) : (b.issue kind).Dated := by
  intro x hx
  simp only [issue, List.mem_append, List.mem_singleton] at hx
  obtain hx | rfl := hx
  · exact h x hx
  · exact Nat.le_refl _

theorem dated_turnIn (h : b.Dated) (hx : b.slips[k]? = some x) : (b.turnIn k x).Dated := by
  intro y hy
  obtain hy | rfl := List.mem_or_eq_of_mem_set hy
  · exact h y hy
  · exact h x (List.mem_of_getElem? hx)

end Terms

/-! ## Counting what is out -/

variable [DecidableEq κ]

/-- The slip is out. -/
def TermSlip.outIn (term : ℕ) (kind : κ) (x : TermSlip κ) : Bool :=
  !x.returned && decide (x.term = term) && decide (x.kind = kind)

namespace Terms

/-- How many slips of a kind are out. -/
def out (b : Terms κ) (kind : κ) : ℕ := b.slips.countP (TermSlip.outIn b.term kind)

variable {b : Terms κ} {k : ℕ} {x : TermSlip κ} {kind : κ}

/-- **Nothing is out when a term begins.** -/
theorem out_renew (h : b.Dated) (kind : κ) : b.renew.out kind = 0 := by
  rw [out, List.countP_eq_zero]
  intro x hx hout
  have hterm : x.term = b.term + 1 := by
    rw [TermSlip.outIn, Bool.and_eq_true, Bool.and_eq_true] at hout
    exact of_decide_eq_true hout.1.2
  have hle := h x hx
  omega

theorem out_issue (b : Terms κ) (kind other : κ) :
    (b.issue kind).out other = b.out other + if kind = other then 1 else 0 := by
  by_cases h : kind = other <;> simp [out, issue, TermSlip.outIn, h]

/-- A slip that is turned in is out no longer. -/
theorem out_turnIn (hx : b.slips[k]? = some x) (kind : κ) :
    (b.turnIn k x).out kind = b.out kind - if x.outIn b.term kind then 1 else 0 := by
  obtain ⟨hlt, rfl⟩ := List.getElem?_eq_some_iff.mp hx
  have hnot : TermSlip.outIn b.term kind
      ⟨(b.slips[k]).kind, (b.slips[k]).term, true⟩ = false := rfl
  simp [out, turnIn, List.countP_set hlt, hnot]

theorem out_pos (hx : b.slips[k]? = some x) (hout : x.outIn b.term kind = true) :
    0 < b.out kind :=
  List.countP_pos_iff.mpr ⟨x, List.mem_of_getElem? hx, hout⟩

end Terms
end Telemetry.Lib
