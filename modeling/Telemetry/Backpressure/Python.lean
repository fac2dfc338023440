import Mathlib.Data.Int.Notation
import Mathlib.Data.Nat.Notation
import Mathlib.Logic.Function.Basic

/-!
# The bounded queues of the Python SDK

`backpressure.py`: one queue of tokens a signal, a policy that bounds them, and a counter
that the tokens come from. A queue without a bound hands out one shared ticket, whose token
is 0, and keeps nothing.

An unknown signal raises before anything is read or written, so `Signal` has the three valid
ones only.

## Main definitions

* `Queues` — the module's state, with the health counter of refusals.
* `tryAcquire`, `release`, `setQueuePolicy`, `resetQueuesForTests`.
-/

namespace Telemetry.Backpressure.Python

/-- The members of `_VALID_SIGNALS`. -/
inductive Signal
  | logs
  | traces
  | metrics
  deriving DecidableEq, Repr

/-- `QueuePolicy`. -/
structure QueuePolicy where
  logsMaxsize : ℤ := 0
  tracesMaxsize : ℤ := 0
  metricsMaxsize : ℤ := 0
  deriving DecidableEq, Repr

/-- `QueueTicket`. -/
structure QueueTicket where
  signal : Signal
  token : ℕ
  deriving DecidableEq, Repr

/-- The module's state. -/
structure Queues where
  policy : QueuePolicy := {}
  /-- What `next(_tokens)` returns. -/
  tokens : ℕ := 1
  /-- `_queues`, the oldest token first. -/
  queues : Signal → List ℕ := fun _ => []
  /-- The health counter that `increment_dropped` moves. -/
  dropped : Signal → ℕ := fun _ => 0

namespace Queues

/-- `_maxsize`. -/
def maxsize (s : Queues) : Signal → ℤ
  | .traces => s.policy.tracesMaxsize
  | .metrics => s.policy.metricsMaxsize
  | .logs => s.policy.logsMaxsize

/-- `set_queue_policy`. -/
def setQueuePolicy (policy : QueuePolicy) (s : Queues) : Queues :=
  { s with policy := policy }

/-- `try_acquire`. -/
def tryAcquire (signal : Signal) (s : Queues) : Queues × Option QueueTicket :=
  if s.maxsize signal ≤ 0 then (s, some ⟨signal, 0⟩)
  else if s.maxsize signal ≤ (s.queues signal).length then
    ({ s with dropped := Function.update s.dropped signal (s.dropped signal + 1) }, none)
  else
    ({ s with
        tokens := s.tokens + 1
        queues := Function.update s.queues signal (s.queues signal ++ [s.tokens]) },
      some ⟨signal, s.tokens⟩)

/-- `release`: the first occurrence of the token goes, whoever it was handed to. -/
def release (ticket : Option QueueTicket) (s : Queues) : Queues :=
  match ticket with
  | none => s
  | some ticket =>
      if ticket.token = 0 then s
      else
        { s with queues :=
            Function.update s.queues ticket.signal ((s.queues ticket.signal).erase ticket.token) }

/-- `reset_queues_for_tests`: the counter starts again at 1. -/
def resetQueuesForTests (s : Queues) : Queues :=
  { s with policy := {}, tokens := 1, queues := fun _ => [] }

/-! ## What the operations do -/

variable {s s' : Queues} {signal : Signal} {t : Option QueueTicket}

/-- The outcomes of `try_acquire`: no bound, a full queue, a slot. -/
theorem tryAcquire_cases (h : s.tryAcquire signal = (s', t)) :
    (t = some ⟨signal, 0⟩ ∧ s' = s) ∨
    (t = none ∧ s'.queues = s.queues ∧ s'.tokens = s.tokens ∧
      s'.dropped = Function.update s.dropped signal (s.dropped signal + 1)) ∨
    (t = some ⟨signal, s.tokens⟩ ∧ s'.tokens = s.tokens + 1 ∧ s'.dropped = s.dropped ∧
      s'.queues = Function.update s.queues signal (s.queues signal ++ [s.tokens])) := by
  rw [tryAcquire] at h
  split at h
  · left
    cases h
    exact ⟨rfl, rfl⟩
  · right
    split at h
    · left
      cases h
      exact ⟨rfl, rfl, rfl, rfl⟩
    · right
      cases h
      exact ⟨rfl, rfl, rfl, rfl⟩

/-- Releasing a token that the signal's queue does not hold does nothing. -/
theorem release_of_notMem {ticket : QueueTicket} (h : ticket.token ∉ s.queues ticket.signal) :
    s.release (some ticket) = s := by
  rw [release]
  split
  · rfl
  · rw [List.erase_of_not_mem h, Function.update_eq_self]

end Queues
end Telemetry.Backpressure.Python
