import Mathlib.Algebra.Order.Ring.Rat
import Mathlib.Tactic.Linarith
import Mathlib.Tactic.NormNum

/-!
# The C# breaker

`Resilience.cs` for one signal, and `ResilienceExecutor.ExecuteAsync` as it runs when
nobody else touches the circuit.

`int` and `long` additions wrap, since no project file turns overflow checks on. Times are
seconds: `now` is a reading of the breaker's clock, `utcNow` one of `DateTimeOffset.UtcNow`.
An attempt is its ending, with what the executor reads around it.

## Main definitions

* `CircuitState` — `AllowAttempt`, `RecordSuccess`, `RecordFailure`.
* `runAttempt`, `delayBoundedByDeadline` — what leaves them, result or exception.
* `loopBody`, `executeAsync` — one pass of the loop, one call.
* `LeavesUnrecorded` — the attempts that an exception leaves before anything is recorded.
-/

namespace Telemetry.Breaker.CSharp

/-- `MaxExportAttempts`. -/
def maxExportAttempts : ℤ := 101

/-- `CircuitBreakerThreshold`. -/
def circuitBreakerThreshold : ℤ := 3

/-- `CircuitBaseCooldownSeconds`. -/
def circuitBaseCooldownSeconds : ℚ := 30

/-- `CircuitMaxCooldownSeconds`. -/
def circuitMaxCooldownSeconds : ℚ := 1024

/-- `ExporterPolicy`. -/
structure ExporterPolicy where
  retries : ℤ := 0
  backoffSeconds : ℚ := 0
  timeoutSeconds : ℚ := 10
  failOpen : Bool := true
  deriving DecidableEq, Repr

/-- What `SetExporterPolicy` stores. -/
def ExporterPolicy.clamped (policy : ExporterPolicy) : ExporterPolicy where
  retries := max 0 (min policy.retries (maxExportAttempts - 1))
  backoffSeconds := max 0 policy.backoffSeconds
  timeoutSeconds := max 0 policy.timeoutSeconds
  failOpen := policy.failOpen

/-- `maxAttempts`. -/
def ExporterPolicy.maxAttempts (policy : ExporterPolicy) : ℕ :=
  (min (max 1 (policy.retries + 1)) maxExportAttempts).toNat

theorem one_le_maxAttempts (policy : ExporterPolicy) : 1 ≤ policy.maxAttempts := by
  simp only [ExporterPolicy.maxAttempts, maxExportAttempts]
  omega

/-! ## The circuit -/

/-- `CircuitState`. -/
structure CircuitState where
  consecutiveTimeouts : ℤ := 0
  halfOpenProbing : Bool := false
  trippedAtTicks : ℚ := 0
  openCount : ℤ := 0
  deriving DecidableEq, Repr

namespace CircuitState

/-- `CooldownRemaining`. -/
def cooldownRemaining (now : ℚ) (c : CircuitState) : ℚ :=
  min (circuitBaseCooldownSeconds * 2 ^ c.openCount) circuitMaxCooldownSeconds
    - (now - c.trippedAtTicks)

/-- `Trip`. -/
def trip (now : ℚ) (c : CircuitState) : CircuitState :=
  { c with openCount := Int.bmod (c.openCount + 1) (2 ^ 64), trippedAtTicks := now }

/-- `AllowAttempt`. -/
def allowAttempt (now : ℚ) (c : CircuitState) : Bool × CircuitState :=
  if c.consecutiveTimeouts < circuitBreakerThreshold then (true, c)
  else if c.halfOpenProbing then (false, c)
  else if 0 < c.cooldownRemaining now then (false, c)
  else (true, { c with halfOpenProbing := true })

/-- `RecordSuccess`. -/
def recordSuccess (c : CircuitState) : CircuitState :=
  if c.halfOpenProbing then
    { c with
      halfOpenProbing := false
      openCount := max 0 (Int.bmod (c.openCount - 1) (2 ^ 64))
      consecutiveTimeouts := 0 }
  else { c with consecutiveTimeouts := 0 }

/-- `RecordFailure`. -/
def recordFailure (now : ℚ) (isTimeout : Bool) (c : CircuitState) : CircuitState :=
  if c.halfOpenProbing then ({ c with halfOpenProbing := false } : CircuitState).trip now
  else if !isTimeout then { c with consecutiveTimeouts := 0 }
  else
    let counted : CircuitState :=
      { c with consecutiveTimeouts := Int.bmod (c.consecutiveTimeouts + 1) (2 ^ 32) }
    if circuitBreakerThreshold ≤ counted.consecutiveTimeouts then counted.trip now else counted

@[simp] theorem recordSuccess_probing (c : CircuitState) :
    c.recordSuccess.halfOpenProbing = false := by
  rw [recordSuccess]
  split_ifs with h
  · rfl
  · simpa using h

@[simp] theorem recordFailure_probing (now : ℚ) (isTimeout : Bool) (c : CircuitState) :
    (c.recordFailure now isTimeout).halfOpenProbing = false := by
  simp only [recordFailure, trip]
  split_ifs with h
  · rfl
  all_goals simpa using h

/-- What the gate can do. -/
theorem allowAttempt_cases {now : ℚ} {c c' : CircuitState} {allowed : Bool}
    (h : c.allowAttempt now = (allowed, c')) :
    (allowed = true ∧ c' = c ∧ c.consecutiveTimeouts < circuitBreakerThreshold) ∨
    (allowed = false ∧ c' = c ∧ circuitBreakerThreshold ≤ c.consecutiveTimeouts ∧
      (c.halfOpenProbing = true ∨ 0 < c.cooldownRemaining now)) ∨
    (allowed = true ∧ c' = { c with halfOpenProbing := true } ∧
      circuitBreakerThreshold ≤ c.consecutiveTimeouts ∧ c.halfOpenProbing = false) := by
  simp only [allowAttempt] at h
  split_ifs at h with hclosed hprobing hcooldown
  · left
    cases h
    exact ⟨rfl, rfl, hclosed⟩
  · right; left
    cases h
    exact ⟨rfl, rfl, not_lt.mp hclosed, .inl hprobing⟩
  · right; left
    cases h
    exact ⟨rfl, rfl, not_lt.mp hclosed, .inr hcooldown⟩
  · right; right
    cases h
    exact ⟨rfl, rfl, not_lt.mp hclosed, by simpa using hprobing⟩

theorem allowAttempt_of_probing {c : CircuitState} (now : ℚ)
    (h : ¬ c.consecutiveTimeouts < circuitBreakerThreshold) (hset : c.halfOpenProbing = true) :
    c.allowAttempt now = (false, c) := by
  rw [allowAttempt, if_neg h, if_pos hset]

/-- With the flag clear a call is let through, at the latest when the cooldown is over. -/
theorem allowed_of_clear {c : CircuitState} (hclear : c.halfOpenProbing = false) (now : ℚ) :
    ∃ t, now ≤ t ∧ (c.allowAttempt t).1 = true := by
  let t := max now (c.trippedAtTicks + circuitMaxCooldownSeconds)
  refine ⟨t, le_max_left _ _, ?_⟩
  have hover : ¬ 0 < c.cooldownRemaining t := by
    have hlate : c.trippedAtTicks + circuitMaxCooldownSeconds ≤ t := le_max_right _ _
    have hcap : min (circuitBaseCooldownSeconds * 2 ^ c.openCount) circuitMaxCooldownSeconds ≤
        circuitMaxCooldownSeconds := min_le_right _ _
    rw [cooldownRemaining]
    linarith
  have hprobing : ¬ c.halfOpenProbing = true := by simp [hclear]
  rw [allowAttempt, if_neg hprobing, if_neg hover]
  split <;> rfl

end CircuitState

/-! ## An attempt -/

/-- How the delegate ends. -/
inductive Ending
  | returned (succeeded : Bool)
  | operationCanceledException
  | timeoutException
  /-- Any other exception. -/
  | exception
  deriving DecidableEq, Repr

/-- One attempt, with what is read around it. -/
structure Attempt where
  utcNow : ℚ := 0
  ending : Ending := .returned true
  /-- Whether the caller's token is cancelled when the ending is looked at. -/
  isCancellationRequested : Bool := false
  recordedAt : ℚ := 0
  deriving DecidableEq, Repr

/-- `Timer.MaxSupportedTimeout`, in milliseconds. -/
def maxSupportedTimeout : ℤ := 0xfffffffe

/-- Whether a timer throws an `ArgumentOutOfRangeException` for a delay. -/
def timerRejects (delay : ℚ) : Bool := decide (maxSupportedTimeout < Rat.floor (delay * 1000))

/-- `RunAttempt`: whether the attempt succeeded and whether it timed out, or nothing where
an exception leaves. `CancelAfter` stands before the `try`. -/
def runAttempt (deadline : ℚ) (a : Attempt) : Option (Bool × Bool) :=
  let budget := deadline - a.utcNow
  if 0 < budget ∧ timerRejects budget then none
  else
    match a.ending with
    | .returned succeeded => some (succeeded, false)
    | .operationCanceledException =>
        if !a.isCancellationRequested then some (false, true) else none
    | .timeoutException => some (false, true)
    | .exception => some (false, false)

/-- The attempts that end in an exception that leaves `RunAttempt`: the delegate gives up
on the caller's own cancellation, or the deadline is farther away than a timer reaches. -/
def LeavesUnrecorded (deadline : ℚ) (a : Attempt) : Prop :=
  (0 < deadline - a.utcNow ∧ timerRejects (deadline - a.utcNow)) ∨
  (a.ending = .operationCanceledException ∧ a.isCancellationRequested = true)

instance (deadline : ℚ) (a : Attempt) : Decidable (LeavesUnrecorded deadline a) :=
  inferInstanceAs (Decidable (_ ∨ _))

theorem runAttempt_eq_none_iff {deadline : ℚ} {a : Attempt} :
    runAttempt deadline a = none ↔ LeavesUnrecorded deadline a := by
  rw [LeavesUnrecorded]
  simp only [runAttempt]
  by_cases hbudget : 0 < deadline - a.utcNow ∧ timerRejects (deadline - a.utcNow) = true
  · simp [hbudget.2, sub_pos.mp hbudget.1]
  · rw [if_neg hbudget, or_iff_right hbudget]
    cases a.ending <;> simp

/-! ## The delay between two attempts -/

/-- What is read between two attempts. -/
structure Backoff where
  /-- The time of the deadline check. -/
  checkedAt : ℚ := 0
  utcNow : ℚ := 0
  /-- Whether the caller's token is cancelled before the delay is over. -/
  cancelled : Bool := false
  deriving DecidableEq, Repr

/-- `TimeSpan.MaxValue`. -/
def timeSpanMaxValue : ℚ := (2 ^ 63 - 1) / 10 ^ 7

/-- `DelayBoundedByDeadline`: whether it completes. A `TimeSpan` that overflows throws, as
do a timer out of range and a token that is cancelled. -/
def delayBoundedByDeadline (policy : ExporterPolicy) (index : ℕ) (deadline : ℚ) (b : Backoff) :
    Bool :=
  if policy.backoffSeconds ≤ 0 then true
  else
    let backoff := policy.backoffSeconds * 2 ^ (index - 1)
    if timeSpanMaxValue < backoff then false
    else
      let remaining := deadline - b.utcNow
      let delay := if backoff < remaining then backoff else remaining
      if 0 < delay then !timerRejects delay && !b.cancelled else true

/-! ## The call -/

/-- `ExportOutcome`. -/
inductive ExportOutcome
  | succeeded
  | failed
  | timedOut
  deriving DecidableEq, Repr

/-- How a call ends. -/
inductive Exit
  | result (outcome : ExportOutcome) (attempts : ℕ)
  | threw
  deriving DecidableEq, Repr

/-- What happens in one pass of the loop. -/
structure Pass where
  backoff : Backoff := {}
  attempt : Attempt := {}
  deriving DecidableEq, Repr

/-- The gate before the loop. -/
def gate (policy : ExporterPolicy) (now : ℚ) (c : CircuitState) : CircuitState × Option Exit :=
  if 0 < policy.timeoutSeconds then
    match c.allowAttempt now with
    | (true, c) => (c, none)
    | (false, c) =>
        (c, some (.result (if policy.failOpen then .succeeded else .failed) 0))
  else (c, none)

/-- What a retry does before its attempt. -/
def beforeAttempt (policy : ExporterPolicy) (deadline : ℚ) (index : ℕ) (b : Backoff) :
    Option Exit :=
  if 0 < index then
    if deadline - b.checkedAt ≤ 0 then some (.result .timedOut index)
    else if delayBoundedByDeadline policy index deadline b then none
    else some .threw
  else none

/-- One pass of the loop; no exit where the next one follows. -/
def loopBody (policy : ExporterPolicy) (deadline : ℚ) (index : ℕ) (p : Pass) (c : CircuitState) :
    CircuitState × Option Exit :=
  match beforeAttempt policy deadline index p.backoff with
  | some e => (c, some e)
  | none =>
      match runAttempt deadline p.attempt with
      | none => (c, some .threw)
      | some (true, _) => (c.recordSuccess, some (.result .succeeded (index + 1)))
      | some (false, timedOut) =>
          (c.recordFailure p.attempt.recordedAt timedOut,
            if index + 1 < policy.maxAttempts then none
            else some (.result .failed policy.maxAttempts))

/-- The loop, from the `index`-th pass on. -/
def loop (policy : ExporterPolicy) (deadline : ℚ) (passes : ℕ → Pass) :
    ℕ → ℕ → CircuitState → CircuitState × Exit
  | 0, _, c => (c, .result .failed policy.maxAttempts)
  | remaining + 1, index, c =>
      match loopBody policy deadline index (passes index) c with
      | (c, some e) => (c, e)
      | (c, none) => loop policy deadline passes remaining (index + 1) c

/-- `ExecuteAsync`. -/
def executeAsync (policy : ExporterPolicy) (deadline now : ℚ) (passes : ℕ → Pass)
    (c : CircuitState) : CircuitState × Exit :=
  match gate policy now c with
  | (c, some e) => (c, e)
  | (c, none) => loop policy deadline passes policy.maxAttempts 0 c

/-- Whether a pass records its attempt. -/
def passRecords (policy : ExporterPolicy) (deadline : ℚ) (index : ℕ) (p : Pass) : Bool :=
  (beforeAttempt policy deadline index p.backoff).isNone && (runAttempt deadline p.attempt).isSome

section Pass

variable {policy : ExporterPolicy} {deadline : ℚ} {index : ℕ} {p : Pass} {c : CircuitState}

/-- The first pass records its attempt unless an exception leaves it. -/
theorem passRecords_first : passRecords policy deadline 0 p = true ↔
    ¬ LeavesUnrecorded deadline p.attempt := by
  rw [← runAttempt_eq_none_iff]
  simp [passRecords, beforeAttempt, Option.isSome_iff_ne_none]

/-- A pass that records leaves the flag clear. -/
theorem loopBody_of_records (h : passRecords policy deadline index p = true) :
    (loopBody policy deadline index p c).1.halfOpenProbing = false := by
  simp only [passRecords, Bool.and_eq_true, Option.isNone_iff_eq_none] at h
  rcases Option.isSome_iff_exists.mp h.2 with ⟨⟨succeeded, timedOut⟩, hattempt⟩
  simp only [loopBody, h.1, hattempt]
  cases succeeded <;> simp

/-- A pass that does not record leaves the circuit as it is, and the loop. -/
theorem loopBody_of_not_records (h : passRecords policy deadline index p = false) :
    ∃ e, loopBody policy deadline index p c = (c, some e) := by
  rw [loopBody]
  split
  · exact ⟨_, rfl⟩
  · rename_i hbefore
    simp only [passRecords, hbefore, Option.isNone_none, Bool.true_and,
      Option.isSome_eq_false_iff, Option.isNone_iff_eq_none] at h
    exact ⟨_, by rw [h]⟩

/-- The flag stays clear through the rest of the loop. -/
theorem loop_probing {passes : ℕ → Pass} (remaining : ℕ) (hclear : c.halfOpenProbing = false) :
    (loop policy deadline passes remaining index c).1.halfOpenProbing = false := by
  induction remaining generalizing index c with
  | zero => exact hclear
  | succ remaining ih =>
      have hbody : (loopBody policy deadline index (passes index) c).1.halfOpenProbing = false := by
        cases hrecords : passRecords policy deadline index (passes index) with
        | true => exact loopBody_of_records hrecords
        | false =>
            rcases loopBody_of_not_records (c := c) hrecords with ⟨e, he⟩
            rw [he]
            exact hclear
      rw [loop]
      cases hpass : loopBody policy deadline index (passes index) c with
      | mk c' exit =>
          rw [hpass] at hbody
          cases exit with
          | some e => exact hbody
          | none => exact ih hbody

end Pass

/-! ## A probe that runs alone -/

/-- `AllowAttempt` admits the call as the half-open probe. -/
def AdmittedAsProbe (policy : ExporterPolicy) (now : ℚ) (c : CircuitState) : Prop :=
  0 < policy.timeoutSeconds ∧ c.halfOpenProbing = false ∧
    c.allowAttempt now = (true, { c with halfOpenProbing := true })

instance (policy : ExporterPolicy) (now : ℚ) (c : CircuitState) :
    Decidable (AdmittedAsProbe policy now c) := inferInstanceAs (Decidable (_ ∧ _))

/-- The probe leaves the flag clear exactly if its first attempt is recorded. -/
theorem probe_clears_flag_iff {policy : ExporterPolicy} {deadline now : ℚ} {passes : ℕ → Pass}
    {c : CircuitState} (h : AdmittedAsProbe policy now c) :
    (executeAsync policy deadline now passes c).1.halfOpenProbing = false ↔
      ¬ LeavesUnrecorded deadline (passes 0).attempt := by
  obtain ⟨k, hk⟩ : ∃ k, policy.maxAttempts = k + 1 :=
    ⟨_, (Nat.sub_add_cancel (one_le_maxAttempts policy)).symm⟩
  simp only [executeAsync, gate, if_pos h.1, h.2.2, hk, loop]
  have hfirst : passRecords policy deadline 0 (passes 0) = true ↔ _ := passRecords_first
  rw [← hfirst]
  cases hrecords : passRecords policy deadline 0 (passes 0) with
  | true =>
      have hbody := loopBody_of_records (c := { c with halfOpenProbing := true }) hrecords
      simp only [iff_true]
      cases hpass : loopBody policy deadline 0 (passes 0) { c with halfOpenProbing := true } with
      | mk c' exit =>
          rw [hpass] at hbody
          cases exit with
          | some e => exact hbody
          | none => exact loop_probing k hbody
  | false =>
      rcases loopBody_of_not_records (c := { c with halfOpenProbing := true }) hrecords with ⟨e, he⟩
      rw [he]
      simp

end Telemetry.Breaker.CSharp
