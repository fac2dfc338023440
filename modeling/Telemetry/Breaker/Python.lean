import Mathlib.Algebra.Order.Ring.Rat
import Mathlib.Logic.Function.Basic
import Mathlib.Algebra.Order.Ring.Abs
import Mathlib.Tactic.Linarith
import Mathlib.Tactic.NormNum

/-!
# The Python breaker and retry loop

`resilience.py` for one signal: the lock-held breaker sections
`_check_circuit_breaker`, `_record_attempt_success` and `_record_attempt_failure`,
the retry loop they are called from, and `get_circuit_state`.

What the environment decides is an input: the clock readings, how each attempt
leaves `_run_attempt_with_timeout`, whether an event loop is running, whether the
warning filters turn a `RuntimeWarning` into an exception, and whether something
interrupts the backoff sleep. The thread pools behind an attempt are not modelled.

Times are seconds, as rationals. The one place where the double format matters is
the cooldown, whose factor `2 ** open_count` is an unbounded `int` that Python has
to convert before it multiplies.

## Main definitions

* `Circuit` — the four per-signal breaker variables.
* `cooldown`, `checkCircuitBreaker`, `recordAttemptSuccess`, `recordAttemptFailure`.
* `loopBody`, `retryLoop`, `applyEventLoopLimits`, `runWithResilience`.
* `getCircuitState`, `getHealthSnapshot` — what the breaker reports.
-/

namespace Telemetry.Breaker.Python

/-- `_CIRCUIT_BREAKER_THRESHOLD`: consecutive timeouts before tripping. -/
def circuitBreakerThreshold : ℕ := 3

/-- `_CIRCUIT_BASE_COOLDOWN`, in seconds. -/
def circuitBaseCooldown : ℚ := 30

/-- `_CIRCUIT_MAX_COOLDOWN`, in seconds. -/
def circuitMaxCooldown : ℚ := 1024

/-- `MAX_EXPORT_RETRIES`. -/
def maxExportRetries : ℤ := 100

/-- `MAX_EXPORT_ATTEMPTS`: the first try and the retries. -/
def maxExportAttempts : ℤ := maxExportRetries + 1

/-- What leaves a call as an exception. -/
inductive Raised
  /-- `OverflowError: int too large to convert to float`. -/
  | overflowError
  /-- `TimeoutError("circuit breaker open: too many consecutive timeouts")`. -/
  | circuitOpen
  /-- The last attempt's `TimeoutError`. -/
  | timeoutError
  /-- The last attempt's other `Exception`. -/
  | exception
  /-- A `BaseException` that is no `Exception`: `KeyboardInterrupt`, `CancelledError`. -/
  | baseException
  /-- A `RuntimeWarning` the filters escalate. -/
  | runtimeWarning
  /-- `RuntimeError("resilience operation failed without captured error")`. -/
  | runtimeError
  deriving DecidableEq, Repr

/-- The breaker variables of one signal. -/
structure Circuit where
  /-- `_consecutive_timeouts[signal]`. -/
  consecutiveTimeouts : ℕ := 0
  /-- `_circuit_tripped_at[signal]`. -/
  circuitTrippedAt : ℚ := 0
  /-- `_open_count[signal]`. -/
  openCount : ℕ := 0
  /-- `_half_open_probing[signal]`. -/
  halfOpenProbing : Bool := false
  deriving DecidableEq, Repr

/-! ## The cooldown -/

/-- A non-negative double. -/
inductive Double
  | finite (x : ℚ)
  | inf
  deriving DecidableEq, Repr

/-- An `int` operand of a float product is converted first, which fails for an
`int` past the largest double. -/
def floatOfInt (n : ℕ) : Except Raised ℚ :=
  if n < 2 ^ 1024 then .ok n else .error .overflowError

/-- A product of doubles; past the largest double it is `inf`, not an error. The
products formed here are small multiples of powers of two, so they are exact. -/
def Double.mul (x y : ℚ) : Double := if x * y < 2 ^ 1024 then .finite (x * y) else .inf

/-- `min(x, cap)`. -/
def Double.min (x : Double) (cap : ℚ) : ℚ :=
  match x with
  | .finite x => if cap < x then cap else x
  | .inf => cap

/-- `min(_CIRCUIT_BASE_COOLDOWN * (2 ** open_count), _CIRCUIT_MAX_COOLDOWN)`. -/
def cooldown (openCount : ℕ) : Except Raised ℚ := do
  let factor ← floatOfInt (2 ^ openCount)
  return (Double.mul circuitBaseCooldown factor).min circuitMaxCooldown

/-- Up to `open_count` 1023 the cooldown is the documented one. -/
theorem cooldown_of_lt {n : ℕ} (h : n < 1024) : cooldown n = .ok (min (30 * 2 ^ n) 1024) := by
  have hfit : (2 : ℕ) ^ n < 2 ^ 1024 := by
    rw [Nat.pow_lt_pow_iff_right (by norm_num)]
    exact h
  have hfactor : floatOfInt (2 ^ n) = .ok ((2 : ℚ) ^ n) := by
    simp only [floatOfInt, if_pos hfit, Nat.cast_pow, Nat.cast_ofNat]
  have hmin : (Double.mul 30 (2 ^ n)).min 1024 = min (30 * 2 ^ n : ℚ) 1024 := by
    by_cases hbig : (30 * 2 ^ n : ℚ) < 2 ^ 1024
    · rw [Double.mul, if_pos hbig, Double.min, min_def]
      split_ifs <;> linarith
    · have hcap : (1024 : ℚ) ≤ 30 * 2 ^ n := by
        calc (1024 : ℚ) = 2 ^ 10 := by norm_num
          _ ≤ 2 ^ 1024 := pow_le_pow_right₀ (by norm_num) (by norm_num)
          _ ≤ 30 * 2 ^ n := not_lt.mp hbig
      rw [Double.mul, if_neg hbig, Double.min, min_eq_right hcap]
  simp only [cooldown, hfactor, circuitBaseCooldown, circuitMaxCooldown]
  exact congrArg Except.ok hmin

/-- From `open_count` 1024 on the conversion of the factor fails before the cap is applied. -/
theorem cooldown_of_le {n : ℕ} (h : 1024 ≤ n) : cooldown n = .error .overflowError := by
  have hbig : ¬ (2 : ℕ) ^ n < 2 ^ 1024 := by
    rw [Nat.pow_lt_pow_iff_right (by norm_num)]
    exact not_lt.mpr h
  simp only [cooldown, floatOfInt, if_neg hbig]
  rfl

theorem cooldown_bounds {n : ℕ} (h : n < 1024) :
    ∃ v, cooldown n = .ok v ∧ 30 ≤ v ∧ v ≤ 1024 := by
  refine ⟨_, cooldown_of_lt h, le_min ?_ (by norm_num), min_le_right _ _⟩
  have hone : (1 : ℚ) ≤ 2 ^ n := one_le_pow₀ (by norm_num)
  linarith

/-! ## The lock-held sections -/

/-- What `_check_circuit_breaker` decided. The first two are its `None`: the circuit
was closed, or this call set the probe flag. The third is its `True`. -/
inductive Gate
  | closed
  | probe
  | rejected
  deriving DecidableEq, Repr

/-- `_check_circuit_breaker`. -/
def checkCircuitBreaker (now : ℚ) (c : Circuit) : Except Raised (Gate × Circuit) :=
  if c.consecutiveTimeouts < circuitBreakerThreshold then
    .ok (.closed, c)
  else if c.halfOpenProbing then
    .ok (.rejected, c) -- a probe is already in progress
  else do
    let limit ← cooldown c.openCount
    let elapsed := now - c.circuitTrippedAt
    if elapsed < limit then
      return (.rejected, c)
    else
      return (.probe, { c with halfOpenProbing := true })

theorem check_of_closed {c : Circuit} (now : ℚ)
    (h : c.consecutiveTimeouts < circuitBreakerThreshold) :
    checkCircuitBreaker now c = .ok (.closed, c) := if_pos h

theorem check_of_probing {c : Circuit} (now : ℚ)
    (h : ¬ c.consecutiveTimeouts < circuitBreakerThreshold) (hset : c.halfOpenProbing = true) :
    checkCircuitBreaker now c = .ok (.rejected, c) := by
  rw [checkCircuitBreaker, if_neg h, if_pos hset]

/-- An open circuit that nobody probes compares the elapsed time with the cooldown. -/
theorem check_of_open {c : Circuit} (now : ℚ)
    (h : ¬ c.consecutiveTimeouts < circuitBreakerThreshold) (hclear : c.halfOpenProbing = false)
    (hcount : c.openCount < 1024) :
    checkCircuitBreaker now c =
      .ok (if now - c.circuitTrippedAt < min (30 * 2 ^ c.openCount) 1024 then (.rejected, c)
        else (.probe, { c with halfOpenProbing := true })) := by
  rw [checkCircuitBreaker, if_neg h, if_neg (by simp [hclear]), cooldown_of_lt hcount]
  change (if now - c.circuitTrippedAt < min (30 * 2 ^ c.openCount) 1024 then
    Except.ok (Gate.rejected, c) else .ok (.probe, { c with halfOpenProbing := true })) = _
  split_ifs <;> rfl

/-- From `open_count` 1024 on it raises. -/
theorem check_of_overflow {c : Circuit} (now : ℚ)
    (h : ¬ c.consecutiveTimeouts < circuitBreakerThreshold) (hclear : c.halfOpenProbing = false)
    (hcount : ¬ c.openCount < 1024) : checkCircuitBreaker now c = .error .overflowError := by
  rw [checkCircuitBreaker, if_neg h, if_neg (by simp [hclear]), cooldown_of_le (not_lt.mp hcount)]
  rfl

/-- What an answered check can be. -/
theorem check_cases {now : ℚ} {c c' : Circuit} {g : Gate}
    (h : checkCircuitBreaker now c = .ok (g, c')) :
    (g = .closed ∧ c' = c ∧ c.consecutiveTimeouts < circuitBreakerThreshold) ∨
    (g = .rejected ∧ c' = c ∧ circuitBreakerThreshold ≤ c.consecutiveTimeouts) ∨
    (g = .probe ∧ c' = { c with halfOpenProbing := true } ∧ c.halfOpenProbing = false ∧
      circuitBreakerThreshold ≤ c.consecutiveTimeouts) := by
  by_cases hclosed : c.consecutiveTimeouts < circuitBreakerThreshold
  · rw [check_of_closed now hclosed] at h
    cases h
    exact .inl ⟨rfl, rfl, hclosed⟩
  have hopen := not_lt.mp hclosed
  cases hset : c.halfOpenProbing with
  | true =>
      rw [check_of_probing now hclosed hset] at h
      cases h
      exact .inr (.inl ⟨rfl, rfl, hopen⟩)
  | false =>
      by_cases hcount : c.openCount < 1024
      · rw [check_of_open now hclosed hset hcount] at h
        split_ifs at h
        · cases h
          exact .inr (.inl ⟨rfl, rfl, hopen⟩)
        · cases h
          exact .inr (.inr ⟨rfl, rfl, rfl, hopen⟩)
      · rw [check_of_overflow now hclosed hset hcount] at h
        cases h

/-- The check raises exactly when it reaches a cooldown it cannot compute. -/
theorem check_error_iff {now : ℚ} {c : Circuit} {e : Raised} :
    checkCircuitBreaker now c = .error e ↔
      e = .overflowError ∧ circuitBreakerThreshold ≤ c.consecutiveTimeouts ∧
        c.halfOpenProbing = false ∧ 1024 ≤ c.openCount := by
  constructor
  · intro h
    by_cases hclosed : c.consecutiveTimeouts < circuitBreakerThreshold
    · rw [check_of_closed now hclosed] at h
      cases h
    cases hset : c.halfOpenProbing with
    | true =>
        rw [check_of_probing now hclosed hset] at h
        cases h
    | false =>
        by_cases hcount : c.openCount < 1024
        · rw [check_of_open now hclosed hset hcount] at h
          cases h
        · rw [check_of_overflow now hclosed hset hcount] at h
          cases h
          exact ⟨rfl, not_lt.mp hclosed, rfl, not_lt.mp hcount⟩
  · rintro ⟨rfl, hopen, hclear, hcount⟩
    exact check_of_overflow now (not_lt.mpr hopen) hclear (not_lt.mpr hcount)

/-- `_record_attempt_success`. -/
def recordAttemptSuccess (c : Circuit) : Circuit :=
  if c.halfOpenProbing then
    { c with halfOpenProbing := false, consecutiveTimeouts := 0, openCount := c.openCount - 1 }
  else
    { c with consecutiveTimeouts := 0 }

/-- `_record_attempt_failure`, reading the clock at `now`. -/
def recordAttemptFailure (now : ℚ) (isTimeout : Bool) (c : Circuit) : Circuit :=
  if c.halfOpenProbing then
    { c with halfOpenProbing := false, openCount := c.openCount + 1, circuitTrippedAt := now }
  else if isTimeout then
    if circuitBreakerThreshold ≤ c.consecutiveTimeouts + 1 then
      { c with consecutiveTimeouts := c.consecutiveTimeouts + 1
               openCount := c.openCount + 1
               circuitTrippedAt := now }
    else
      { c with consecutiveTimeouts := c.consecutiveTimeouts + 1 }
  else
    { c with consecutiveTimeouts := 0 }

/-- Whatever is recorded, and by whichever call, the probe flag ends up clear. -/
@[simp] theorem recordAttemptSuccess_probing (c : Circuit) :
    (recordAttemptSuccess c).halfOpenProbing = false := by
  unfold recordAttemptSuccess
  split <;> simp_all

@[simp] theorem recordAttemptFailure_probing (now : ℚ) (isTimeout : Bool) (c : Circuit) :
    (recordAttemptFailure now isTimeout c).halfOpenProbing = false := by
  unfold recordAttemptFailure
  split_ifs <;> simp_all

/-! ## One call -/

/-- `ExporterPolicy`. -/
structure ExporterPolicy where
  retries : ℤ := 0
  backoffSeconds : ℚ := 0
  timeoutSeconds : ℚ := 10
  failOpen : Bool := true
  allowBlockingInEventLoop : Bool := false
  deriving DecidableEq, Repr

/-- The health counters a call touches. -/
structure Health where
  exportFailures : ℕ := 0
  retries : ℕ := 0
  asyncBlockingRisk : ℕ := 0
  exportLatencyMs : ℚ := 0
  deriving DecidableEq, Repr

/-- Everything the module keeps for one signal, the policy apart. -/
structure SignalState where
  circuit : Circuit := {}
  health : Health := {}
  /-- The `allow_blocking` values `_async_warned_signals` holds for this signal. -/
  asyncWarned : List Bool := []
  /-- Whether the signal is in `_async_setup_warned_signals`. -/
  asyncSetupWarned : Bool := false
  deriving DecidableEq, Repr

/-- How an attempt leaves `_run_attempt_with_timeout`. -/
inductive Ending
  | returned
  | timeoutError
  /-- Any other `Exception`, a saturated executor included. -/
  | exception
  /-- A `BaseException`, which no `except` clause of the loop names. -/
  | baseException
  deriving DecidableEq, Repr

/-- One attempt as the environment plays it. -/
structure Attempt where
  ending : Ending
  /-- The clock when the outcome is recorded. -/
  recordedAt : ℚ := 0
  latencyMs : ℚ := 0
  /-- Whether a `BaseException` interrupts the backoff sleep after this attempt. -/
  sleepInterrupted : Bool := false
  deriving DecidableEq, Repr

/-- How a call ends. -/
inductive CallExit
  /-- The operation's own result. -/
  | value
  /-- `None`, under `fail_open`. -/
  | none
  | raised (e : Raised)
  deriving DecidableEq, Repr

/-- The surroundings of one call. -/
structure CallEnv where
  /-- The clock at the breaker check. -/
  startedAt : ℚ
  /-- `_is_running_in_event_loop()`. -/
  inLoop : Bool := false
  /-- Whether the filters raise a `RuntimeWarning`. -/
  warningsRaise : Bool := false
  /-- The `i`-th attempt, should the call get that far. -/
  ops : ℕ → Attempt

/-- `record_export_failure`. -/
def recordExportFailure (s : SignalState) : SignalState :=
  { s with health := { s.health with exportFailures := s.health.exportFailures + 1 } }

/-- `increment_retries`. -/
def incrementRetries (s : SignalState) : SignalState :=
  { s with health := { s.health with retries := s.health.retries + 1 } }

/-- `increment_async_blocking_risk`. -/
def incrementAsyncBlockingRisk (s : SignalState) : SignalState :=
  { s with health := { s.health with asyncBlockingRisk := s.health.asyncBlockingRisk + 1 } }

/-- `record_export_latency`. -/
def recordExportLatency (latencyMs : ℚ) (s : SignalState) : SignalState :=
  { s with health := { s.health with exportLatencyMs := max 0 latencyMs } }

@[simp] theorem recordExportFailure_circuit (s : SignalState) :
    (recordExportFailure s).circuit = s.circuit := rfl
@[simp] theorem incrementRetries_circuit (s : SignalState) :
    (incrementRetries s).circuit = s.circuit := rfl
@[simp] theorem incrementAsyncBlockingRisk_circuit (s : SignalState) :
    (incrementAsyncBlockingRisk s).circuit = s.circuit := rfl
@[simp] theorem recordExportLatency_circuit (latencyMs : ℚ) (s : SignalState) :
    (recordExportLatency latencyMs s).circuit = s.circuit := rfl

/-- `_maybe_backoff`; the flag says whether the sleep was interrupted. -/
def maybeBackoff (attempt attempts : ℕ) (backoffSeconds : ℚ) (a : Attempt) (s : SignalState) :
    SignalState × Bool :=
  if attempt < attempts - 1 then
    (incrementRetries s, decide (0 < backoffSeconds) && a.sleepInterrupted)
  else
    (s, false)

@[simp] theorem maybeBackoff_circuit (attempt attempts : ℕ) (b : ℚ) (a : Attempt)
    (s : SignalState) : (maybeBackoff attempt attempts b a s).1.circuit = s.circuit := by
  unfold maybeBackoff
  split <;> rfl

/-- Only an interrupted sleep makes the backoff raise. -/
theorem maybeBackoff_interrupted (attempt attempts : ℕ) (b : ℚ) {a : Attempt} (s : SignalState)
    (h : a.sleepInterrupted = false) : (maybeBackoff attempt attempts b a s).2 = false := by
  unfold maybeBackoff
  split <;> simp [h]

/-- What follows one iteration of the loop. -/
inductive Flow
  | leave (e : CallExit)
  /-- Go on, with this `last_error`. -/
  | next (lastError : Raised)
  deriving DecidableEq, Repr

/-- The two `except` clauses of the loop, which differ in `is_timeout` only. -/
def exceptClause (isTimeout : Bool) (attempt attempts : ℕ) (backoffSeconds : ℚ) (a : Attempt)
    (s : SignalState) : SignalState × Flow :=
  let s := recordExportFailure s
  let s := { s with circuit := recordAttemptFailure a.recordedAt isTimeout s.circuit }
  match maybeBackoff attempt attempts backoffSeconds a s with
  | (s, true) => (s, .leave (.raised .baseException))
  | (s, false) => (s, .next (if isTimeout then .timeoutError else .exception))

/-- One iteration of `_retry_loop`. -/
def loopBody (attempt attempts : ℕ) (backoffSeconds : ℚ) (a : Attempt) (s : SignalState) :
    SignalState × Flow :=
  match a.ending with
  | .returned =>
      let s := recordExportLatency a.latencyMs s
      ({ s with circuit := recordAttemptSuccess s.circuit }, .leave .value)
  | .timeoutError => exceptClause true attempt attempts backoffSeconds a s
  | .exception => exceptClause false attempt attempts backoffSeconds a s
  | .baseException => (s, .leave (.raised .baseException))

/-- What an attempt's ending records in the breaker. -/
def recordEnding (a : Attempt) (c : Circuit) : Circuit :=
  match a.ending with
  | .returned => recordAttemptSuccess c
  | .timeoutError => recordAttemptFailure a.recordedAt true c
  | .exception => recordAttemptFailure a.recordedAt false c
  | .baseException => c

@[simp] theorem exceptClause_circuit (isTimeout : Bool) (attempt attempts : ℕ) (b : ℚ)
    (a : Attempt) (s : SignalState) :
    (exceptClause isTimeout attempt attempts b a s).1.circuit =
      recordAttemptFailure a.recordedAt isTimeout s.circuit := by
  have hkeep := maybeBackoff_circuit attempt attempts b a
    { recordExportFailure s with
      circuit := recordAttemptFailure a.recordedAt isTimeout (recordExportFailure s).circuit }
  simp only [exceptClause]
  split
  all_goals
    rename_i heq
    rw [heq] at hkeep
    exact hkeep

@[simp] theorem loopBody_circuit (attempt attempts : ℕ) (b : ℚ) (a : Attempt) (s : SignalState) :
    (loopBody attempt attempts b a s).1.circuit = recordEnding a s.circuit := by
  unfold loopBody recordEnding
  cases a.ending <;> simp

/-- What the loop ends with when no attempt returned. -/
def afterLoop (policy : ExporterPolicy) (lastError : Option Raised) : CallExit :=
  if policy.failOpen then .none else .raised (lastError.getD .runtimeError)

/-- `_retry_loop`, with `remaining` of the `attempts` iterations still to come. -/
def retryLoop (policy : ExporterPolicy) (attempts : ℕ) (backoffSeconds : ℚ)
    (ops : ℕ → Attempt) : ℕ → Option Raised → SignalState → SignalState × CallExit
  | 0, lastError, s => (s, afterLoop policy lastError)
  | remaining + 1, _, s =>
      let attempt := attempts - (remaining + 1)
      match loopBody attempt attempts backoffSeconds (ops attempt) s with
      | (s, .leave e) => (s, e)
      | (s, .next e) => retryLoop policy attempts backoffSeconds ops remaining (some e) s

/-- `_warn_event_loop_setup`: warns once per signal; the flag says it raised. -/
def warnEventLoopSetup (warningsRaise : Bool) (s : SignalState) : SignalState × Bool :=
  if s.asyncSetupWarned then (s, false) else ({ s with asyncSetupWarned := true }, warningsRaise)

/-- `_warn_async_risk`: warns once per signal and `allow_blocking` value. -/
def warnAsyncRisk (warningsRaise : Bool) (policy : ExporterPolicy) (s : SignalState) :
    SignalState × Bool :=
  if policy.allowBlockingInEventLoop ∈ s.asyncWarned then (s, false)
  else ({ s with asyncWarned := policy.allowBlockingInEventLoop :: s.asyncWarned }, warningsRaise)

/-- `skip_executor`: an event loop is running and the policy forbids blocking it. -/
def skipExecutor (inLoop : Bool) (policy : ExporterPolicy) (timeoutSeconds : ℚ) : Bool :=
  inLoop && !policy.allowBlockingInEventLoop && decide (0 < timeoutSeconds)

/-- `has_retries_in_loop`. -/
def hasRetriesInLoop (inLoop : Bool) (policy : ExporterPolicy) : Bool :=
  inLoop && (decide (0 < policy.retries) || decide (0 < policy.backoffSeconds))

/-- `_apply_event_loop_limits`: the attempts and backoff to use, or the escalated
warning. -/
def applyEventLoopLimits (inLoop warningsRaise : Bool) (policy : ExporterPolicy) (attempts : ℕ)
    (backoffSeconds timeoutSeconds : ℚ) (s : SignalState) :
    SignalState × Except Raised (ℕ × ℚ) :=
  let skip := skipExecutor inLoop policy timeoutSeconds
  let hasRetries := hasRetriesInLoop inLoop policy
  let s := if skip || hasRetries then incrementAsyncBlockingRisk s else s
  let setup := if skip then warnEventLoopSetup warningsRaise s else (s, false)
  if setup.2 then (setup.1, .error .runtimeWarning)
  else if hasRetries then
    let risk := warnAsyncRisk warningsRaise policy setup.1
    if risk.2 then (risk.1, .error .runtimeWarning)
    else if policy.allowBlockingInEventLoop then (risk.1, .ok (attempts, backoffSeconds))
    else (risk.1, .ok (1, 0))
  else (setup.1, .ok (attempts, backoffSeconds))

@[simp] theorem warnEventLoopSetup_circuit (warningsRaise : Bool) (s : SignalState) :
    (warnEventLoopSetup warningsRaise s).1.circuit = s.circuit := by
  unfold warnEventLoopSetup
  split <;> rfl

@[simp] theorem warnAsyncRisk_circuit (warningsRaise : Bool) (policy : ExporterPolicy)
    (s : SignalState) : (warnAsyncRisk warningsRaise policy s).1.circuit = s.circuit := by
  unfold warnAsyncRisk
  split <;> rfl

theorem warnEventLoopSetup_raises {warningsRaise : Bool} {s : SignalState}
    (h : (warnEventLoopSetup warningsRaise s).2 = true) : warningsRaise = true := by
  unfold warnEventLoopSetup at h
  split at h
  · cases h
  · exact h

theorem warnAsyncRisk_raises {warningsRaise : Bool} {policy : ExporterPolicy} {s : SignalState}
    (h : (warnAsyncRisk warningsRaise policy s).2 = true) : warningsRaise = true := by
  unfold warnAsyncRisk at h
  split at h
  · cases h
  · exact h

/-- The limits warn and count, but leave the breaker alone. They answer with an
escalated warning, which takes filters that raise, or with the attempts to make:
a single one where a running loop suppresses the retries. -/
theorem applyEventLoopLimits_cases (inLoop warningsRaise : Bool) (policy : ExporterPolicy)
    (attempts : ℕ) (b t : ℚ) (s : SignalState) :
    ∃ s' answer, applyEventLoopLimits inLoop warningsRaise policy attempts b t s = (s', answer) ∧
      s'.circuit = s.circuit ∧
      (answer = .error .runtimeWarning ∧ warningsRaise = true ∨
        answer = .ok (if hasRetriesInLoop inLoop policy && !policy.allowBlockingInEventLoop
          then (1, 0) else (attempts, b))) := by
  obtain ⟨setup, hsetup⟩ : ∃ setup, setup =
      (if skipExecutor inLoop policy t then warnEventLoopSetup warningsRaise
        (if skipExecutor inLoop policy t || hasRetriesInLoop inLoop policy
          then incrementAsyncBlockingRisk s else s)
      else (if skipExecutor inLoop policy t || hasRetriesInLoop inLoop policy
        then incrementAsyncBlockingRisk s else s, false)) := ⟨_, rfl⟩
  have hcircuit : setup.1.circuit = s.circuit := by
    rw [hsetup]
    split_ifs <;> simp
  have hraises : setup.2 = true → warningsRaise = true := by
    rw [hsetup]
    split_ifs
    · exact warnEventLoopSetup_raises
    · exact warnEventLoopSetup_raises
    all_goals exact fun h => absurd h (by simp)
  simp only [applyEventLoopLimits, ← hsetup]
  by_cases h1 : setup.2 = true
  · rw [if_pos h1]
    exact ⟨_, _, rfl, hcircuit, .inl ⟨rfl, hraises h1⟩⟩
  rw [if_neg h1]
  by_cases h2 : hasRetriesInLoop inLoop policy = true
  · rw [if_pos h2]
    by_cases h3 : (warnAsyncRisk warningsRaise policy setup.1).2 = true
    · rw [if_pos h3]
      exact ⟨_, _, rfl, by simp [hcircuit], .inl ⟨rfl, warnAsyncRisk_raises h3⟩⟩
    · rw [if_neg h3]
      cases hblock : policy.allowBlockingInEventLoop <;>
        exact ⟨_, _, rfl, by simp [hcircuit], .inr (by simp [h2])⟩
  · rw [if_neg h2]
    exact ⟨_, _, rfl, hcircuit, .inr (by simp [h2])⟩

/-- `attempts = min(max(1, policy.retries + 1), MAX_EXPORT_ATTEMPTS)`. -/
def policyAttempts (policy : ExporterPolicy) : ℕ :=
  (min (max 1 (policy.retries + 1)) maxExportAttempts).toNat

theorem one_le_policyAttempts (policy : ExporterPolicy) : 1 ≤ policyAttempts policy := by
  unfold policyAttempts maxExportAttempts maxExportRetries
  omega

theorem policyAttempts_eq_one_iff (policy : ExporterPolicy) :
    policyAttempts policy = 1 ↔ policy.retries ≤ 0 := by
  unfold policyAttempts maxExportAttempts maxExportRetries
  omega

/-- `run_with_resilience` after the breaker let the call through. -/
def runAdmitted (env : CallEnv) (policy : ExporterPolicy) (timeoutSeconds : ℚ) (s : SignalState) :
    SignalState × CallExit :=
  match applyEventLoopLimits env.inLoop env.warningsRaise policy (policyAttempts policy)
      policy.backoffSeconds timeoutSeconds s with
  | (s, .error e) => (s, .raised e)
  | (s, .ok (attempts, backoffSeconds)) =>
      retryLoop policy attempts backoffSeconds env.ops attempts none s

/-- `run_with_resilience`. -/
def runWithResilience (env : CallEnv) (policy : ExporterPolicy) (s : SignalState) :
    SignalState × CallExit :=
  let timeoutSeconds := max 0 policy.timeoutSeconds
  if 0 < timeoutSeconds then
    match checkCircuitBreaker env.startedAt s.circuit with
    | .error e => (s, .raised e)
    | .ok (.rejected, c) =>
        (recordExportFailure { s with circuit := c },
          if policy.failOpen then .none else .raised .circuitOpen)
    | .ok (_, c) => runAdmitted env policy timeoutSeconds { s with circuit := c }
  else
    runAdmitted env policy timeoutSeconds s

/-- Calls made one after the other. -/
def runCalls (s : SignalState) : List (CallEnv × ExporterPolicy) → SignalState
  | [] => s
  | (env, policy) :: calls => runCalls (runWithResilience env policy s).1 calls

/-! ## What the breaker reports -/

/-- The state names of `get_circuit_state`. -/
inductive CircuitState
  | closed
  | isOpen
  | halfOpen
  deriving DecidableEq, Repr

/-- `get_circuit_state`: state, `open_count` and remaining cooldown. -/
def getCircuitState (now : ℚ) (c : Circuit) : Except Raised (CircuitState × ℕ × ℚ) :=
  if c.halfOpenProbing then
    .ok (.halfOpen, c.openCount, 0)
  else if circuitBreakerThreshold ≤ c.consecutiveTimeouts then do
    let limit ← cooldown c.openCount
    let remaining := limit - (now - c.circuitTrippedAt)
    if 0 < remaining then
      return (.isOpen, c.openCount, remaining)
    else
      return (.halfOpen, c.openCount, 0)
  else
    .ok (.closed, c.openCount, 0)

/-- The three signals. -/
inductive Signal
  | logs
  | traces
  | metrics
  deriving DecidableEq, Repr

/-- Calls made one after the other, each on its own signal. -/
def runSignals (state : Signal → SignalState) :
    List (Signal × CallEnv × ExporterPolicy) → Signal → SignalState
  | [] => state
  | (signal, env, policy) :: calls =>
      runSignals (Function.update state signal (runWithResilience env policy (state signal)).1)
        calls

/-- The part of `get_health_snapshot` that can fail: it asks for the three circuit
states, in this order, before it reads its own counters. -/
def getHealthSnapshot (now : Signal → ℚ) (state : Signal → SignalState) :
    Except Raised ((CircuitState × ℕ × ℚ) × (CircuitState × ℕ × ℚ) × (CircuitState × ℕ × ℚ)) := do
  let logs ← getCircuitState (now .logs) (state .logs).circuit
  let traces ← getCircuitState (now .traces) (state .traces).circuit
  let metrics ← getCircuitState (now .metrics) (state .metrics).circuit
  return (logs, traces, metrics)

end Telemetry.Breaker.Python
