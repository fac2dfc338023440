import Mathlib.Data.Finset.Card
import Mathlib.Data.Int.Notation
import Mathlib.Logic.Function.Basic

/-!
# The bounded queues of the TypeScript SDK

`backpressure.ts`: a set of tokens for each signal, a policy that bounds the sets, and one counter
that all tokens come from. A queue without a bound hands out the token 0 and keeps nothing.

## Main definitions

* `Queues` — the state of the module.
* `tryAcquire`, `release`.
-/

namespace Telemetry.Backpressure.TypeScript

/-- The signals of a `QueueTicket`. -/
inductive Signal
  | logs
  | traces
  | metrics
  deriving DecidableEq, Repr

/-- `QueuePolicy`. -/
structure QueuePolicy where
  maxLogs : ℤ := 0
  maxTraces : ℤ := 0
  maxMetrics : ℤ := 0
  deriving DecidableEq, Repr

/-- `QueueTicket`. -/
structure QueueTicket where
  signal : Signal
  token : ℕ
  deriving DecidableEq, Repr

/-- The state of the module. -/
structure Queues where
  policy : QueuePolicy := {}
  tokenCounter : ℕ := 1
  acquired : Signal → Finset ℕ := fun _ => ∅
  /-- The health counter of refusals. -/
  dropped : Signal → ℕ := fun _ => 0

namespace Queues

/-- `_maxFor`. -/
def maxFor (q : Queues) : Signal → ℤ
  | .logs => q.policy.maxLogs
  | .traces => q.policy.maxTraces
  | .metrics => q.policy.maxMetrics

/-- `tryAcquire`. -/
def tryAcquire (signal : Signal) (q : Queues) : Queues × Option QueueTicket :=
  if q.maxFor signal ≤ 0 then (q, some ⟨signal, 0⟩)
  else if q.maxFor signal ≤ (q.acquired signal).card then
    ({ q with dropped := Function.update q.dropped signal (q.dropped signal + 1) }, none)
  else
    ({ q with
        tokenCounter := q.tokenCounter + 1
        acquired := Function.update q.acquired signal
          (insert q.tokenCounter (q.acquired signal)) },
      some ⟨signal, q.tokenCounter⟩)

/-- `release`. -/
def release (ticket : QueueTicket) (q : Queues) : Queues :=
  if ticket.token = 0 then q
  else
    { q with acquired :=
        Function.update q.acquired ticket.signal ((q.acquired ticket.signal).erase ticket.token) }

variable {q : Queues} {signal : Signal}

/-- What an attempt on a bounded queue does: it is refused, or takes the next token. -/
theorem tryAcquire_of_pos (h : 0 < q.maxFor signal) :
    (∃ dropped, q.tryAcquire signal = ({ q with dropped }, none)) ∨
      ((q.acquired signal).card < q.maxFor signal ∧
        q.tryAcquire signal =
          ({ q with
              tokenCounter := q.tokenCounter + 1
              acquired := Function.update q.acquired signal
                (insert q.tokenCounter (q.acquired signal)) },
            some ⟨signal, q.tokenCounter⟩)) := by
  rw [tryAcquire, if_neg (by omega)]
  by_cases hfull : q.maxFor signal ≤ (q.acquired signal).card
  · rw [if_pos hfull]
    exact .inl ⟨_, rfl⟩
  · rw [if_neg hfull]
    exact .inr ⟨by omega, rfl⟩

/-- An attempt on one queue leaves the others as they are. -/
theorem tryAcquire_of_ne {signal' : Signal} (h : signal' ≠ signal) :
    (q.tryAcquire signal).1.policy = q.policy ∧
      (q.tryAcquire signal).1.acquired signal' = q.acquired signal' ∧
        q.tokenCounter ≤ (q.tryAcquire signal).1.tokenCounter := by
  rw [tryAcquire]
  split
  next => exact ⟨rfl, rfl, le_refl _⟩
  next =>
    split
    next => exact ⟨rfl, rfl, le_refl _⟩
    next => exact ⟨rfl, Function.update_of_ne h .., Nat.le_succ _⟩

end Queues
end Telemetry.Backpressure.TypeScript
