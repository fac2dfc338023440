import Mathlib.Algebra.Order.Ring.Rat
import Mathlib.Tactic.NormNum

/-!
# The Rust breaker

`resilience.rs` for one signal: the three lock-held sections, and `run_with_resilience_inner` as it
runs when nobody drops its future.

Counters are `u32` and wrap, since no profile turns overflow checks on. An `Instant`
is a number of seconds; `elapsed` saturates at zero.

## Main definitions

* `CircuitState` — the per-signal breaker variables.
* `checkAndStartProbeForWrappers`, `recordCircuitSuccessForWrappers`,
  `recordCircuitFailureForWrappers`.
* `runWithResilienceInner` — one call.
-/

namespace Telemetry.Breaker.Rust

/-- `CIRCUIT_BREAKER_THRESHOLD`. -/
def circuitBreakerThreshold : ℕ := 3

/-- `CIRCUIT_COOLDOWN`, in seconds. -/
def circuitCooldown : ℚ := 30

/-- `MAX_EXPORT_ATTEMPTS`, one more than `MAX_EXPORTER_RETRIES`. -/
def maxExportAttempts : ℕ := 100 + 1

/-- A `u32` addition. -/
def addU32 (a b : ℕ) : ℕ := (a + b) % 2 ^ 32

theorem addU32_lt (a b : ℕ) : addU32 a b < 2 ^ 32 := Nat.mod_lt _ (by norm_num)

/-- Where the sum fits, it is the sum. -/
theorem addU32_of_lt {a b : ℕ} (h : a + b < 2 ^ 32) : addU32 a b = a + b := Nat.mod_eq_of_lt h

/-- `CircuitState`. -/
structure CircuitState where
  consecutiveTimeouts : ℕ := 0
  trippedAt : Option ℚ := none
  openCount : ℕ := 0
  halfOpenProbing : Bool := false
  deriving DecidableEq, Repr

/-- `Instant::elapsed`. -/
def elapsed (now instant : ℚ) : ℚ := max 0 (now - instant)

/-- `circuit_cooldown_is_active`. -/
def circuitCooldownIsActive (elapsed : ℚ) : Bool := decide (elapsed < circuitCooldown)

/-- `cooldown_active`: never tripped counts as elapsed. -/
def CircuitState.cooldownActive (now : ℚ) (state : CircuitState) : Bool :=
  (state.trippedAt.map fun instant => circuitCooldownIsActive (elapsed now instant)).getD false

/-- `_check_and_start_probe_for_wrappers`: whether to reject the call. -/
def checkAndStartProbeForWrappers (now : ℚ) (state : CircuitState) : Bool × CircuitState :=
  if state.consecutiveTimeouts < circuitBreakerThreshold then (false, state)
  else if state.cooldownActive now then (true, state)
  else if state.halfOpenProbing then (true, state)
  else (false, { state with halfOpenProbing := true })

/-- `_record_circuit_success_for_wrappers`. -/
def recordCircuitSuccessForWrappers (state : CircuitState) : CircuitState :=
  if state.halfOpenProbing then { state with halfOpenProbing := false, consecutiveTimeouts := 0 }
  else { state with consecutiveTimeouts := 0 }

/-- `_record_circuit_failure_for_wrappers`, reading the clock at `now`. -/
def recordCircuitFailureForWrappers (now : ℚ) (isTimeout : Bool) (state : CircuitState) :
    CircuitState :=
  if state.halfOpenProbing then
    { state with halfOpenProbing := false, openCount := addU32 state.openCount 1
                 trippedAt := some now }
  else if !isTimeout then
    { state with consecutiveTimeouts := 0 }
  else
    let consecutive := addU32 state.consecutiveTimeouts 1
    if circuitBreakerThreshold ≤ consecutive then
      { state with consecutiveTimeouts := consecutive, openCount := addU32 state.openCount 1
                   trippedAt := some now }
    else { state with consecutiveTimeouts := consecutive }

/-- Whatever is recorded, and by whichever call, the probe flag ends up clear. -/
@[simp] theorem recordCircuitSuccessForWrappers_probing (state : CircuitState) :
    (recordCircuitSuccessForWrappers state).halfOpenProbing = false := by
  simp only [recordCircuitSuccessForWrappers]
  split_ifs with h
  · rfl
  · simpa using h

@[simp] theorem recordCircuitFailureForWrappers_probing (now : ℚ) (isTimeout : Bool)
    (state : CircuitState) :
    (recordCircuitFailureForWrappers now isTimeout state).halfOpenProbing = false := by
  simp only [recordCircuitFailureForWrappers]
  split_ifs with h
  · rfl
  all_goals simpa using h

theorem check_of_closed {state : CircuitState} (now : ℚ)
    (h : state.consecutiveTimeouts < circuitBreakerThreshold) :
    checkAndStartProbeForWrappers now state = (false, state) := if_pos h

theorem check_of_probing {state : CircuitState} (now : ℚ)
    (h : ¬ state.consecutiveTimeouts < circuitBreakerThreshold)
    (hset : state.halfOpenProbing = true) :
    checkAndStartProbeForWrappers now state = (true, state) := by
  rw [checkAndStartProbeForWrappers, if_neg h, if_pos hset]
  exact ite_self _

/-- An open circuit that nobody probes compares the elapsed time with the cooldown. -/
theorem check_of_open {state : CircuitState} (now : ℚ)
    (h : ¬ state.consecutiveTimeouts < circuitBreakerThreshold)
    (hclear : state.halfOpenProbing = false) :
    checkAndStartProbeForWrappers now state =
      if state.cooldownActive now then (true, state)
      else (false, { state with halfOpenProbing := true }) := by
  simp only [checkAndStartProbeForWrappers, if_neg h, hclear, Bool.false_eq_true, if_false]

/-- What the check can do. -/
theorem check_cases {now : ℚ} {state state' : CircuitState} {reject : Bool}
    (h : checkAndStartProbeForWrappers now state = (reject, state')) :
    (reject = false ∧ state' = state ∧ state.consecutiveTimeouts < circuitBreakerThreshold) ∨
    (reject = true ∧ state' = state ∧ circuitBreakerThreshold ≤ state.consecutiveTimeouts) ∨
    (reject = false ∧ state' = { state with halfOpenProbing := true } ∧
      state.halfOpenProbing = false ∧ state.cooldownActive now = false ∧
      circuitBreakerThreshold ≤ state.consecutiveTimeouts) := by
  simp only [checkAndStartProbeForWrappers] at h
  split_ifs at h with hclosed hactive hprobing
  · obtain ⟨rfl, rfl⟩ := Prod.mk.inj h
    exact .inl ⟨rfl, rfl, hclosed⟩
  · obtain ⟨rfl, rfl⟩ := Prod.mk.inj h
    exact .inr (.inl ⟨rfl, rfl, not_lt.mp hclosed⟩)
  · obtain ⟨rfl, rfl⟩ := Prod.mk.inj h
    exact .inr (.inl ⟨rfl, rfl, not_lt.mp hclosed⟩)
  · obtain ⟨rfl, rfl⟩ := Prod.mk.inj h
    exact .inr (.inr ⟨rfl, rfl, by simpa using hprobing, by simpa using hactive,
      not_lt.mp hclosed⟩)

/-! ## One call -/

/-- The `ExporterPolicy` fields the loop reads. -/
structure ExporterPolicy where
  retries : ℕ := 0
  backoffSeconds : ℚ := 0
  timeoutSeconds : ℚ := 10
  failOpen : Bool := true
  deriving DecidableEq, Repr

/-- `capped_attempts`; the addition saturates. -/
def cappedAttempts (retries : ℕ) : ℕ := min (min (retries + 1) (2 ^ 32 - 1)) maxExportAttempts

theorem one_le_cappedAttempts (retries : ℕ) : 1 ≤ cappedAttempts retries := by
  simp only [cappedAttempts, maxExportAttempts]
  omega

/-- `timeout_active`: the timeout, rounded to nanoseconds, is not zero and a reactor runs. -/
def timeoutActive (policy : ExporterPolicy) (hasTokioReactor : Bool) : Bool :=
  if policy.timeoutSeconds * 1000000000 ≤ 1 / 2 then false else hasTokioReactor

/-- `backoff_duration(..).is_some()`: whether `wait_before_retry` sleeps. -/
def backoffSleeps (policy : ExporterPolicy) (hasTokioReactor : Bool) : Bool :=
  !(decide (policy.backoffSeconds ≤ 0) || !hasTokioReactor)

/-- How one attempt resolves. -/
inductive Outcome
  | value
  /-- The operation's own error, and whether `is_sdk_timeout` takes it for a timeout. -/
  | err (isSdkTimeout : Bool)
  /-- `tokio::time::timeout` fired. -/
  | wrapperTimeout
  deriving DecidableEq, Repr

/-- `is_timeout` of a failed attempt. -/
def Outcome.isTimeout : Outcome → Bool
  | .value => false
  | .err isSdkTimeout => isSdkTimeout
  | .wrapperTimeout => true

/-- What an attempt's outcome records. -/
def recordOutcome (now : ℚ) (o : Outcome) (state : CircuitState) : CircuitState :=
  match o with
  | .value => recordCircuitSuccessForWrappers state
  | _ => recordCircuitFailureForWrappers now o.isTimeout state

@[simp] theorem recordOutcome_probing (now : ℚ) (o : Outcome) (state : CircuitState) :
    (recordOutcome now o state).halfOpenProbing = false := by
  cases o <;> simp [recordOutcome]

/-- How a call ends. -/
inductive CallExit
  /-- `Ok(Some(value))`. -/
  | value
  /-- `Ok(None)`, under `fail_open`. -/
  | none
  | circuitOpen
  /-- The last attempt's error. -/
  | lastErr
  deriving DecidableEq, Repr

/-- One attempt and the clock when its outcome is recorded. -/
structure Attempt where
  outcome : Outcome
  recordedAt : ℚ := 0
  deriving DecidableEq, Repr

/-- The loop over the attempts that are still to come, the first being attempt `i`. -/
def attemptLoop (failOpen : Bool) (ops : ℕ → Attempt) :
    ℕ → ℕ → CircuitState → CircuitState × CallExit
  | 0, _, state => (state, if failOpen then .none else .lastErr)
  | remaining + 1, i, state =>
      let state := recordOutcome (ops i).recordedAt (ops i).outcome state
      if (ops i).outcome = .value then (state, .value)
      else attemptLoop failOpen ops remaining (i + 1) state

/-- `run_with_resilience_inner`, polled to completion. -/
def runWithResilienceInner (policy : ExporterPolicy) (hasTokioReactor : Bool) (startedAt : ℚ)
    (ops : ℕ → Attempt) (state : CircuitState) : CircuitState × CallExit :=
  if timeoutActive policy hasTokioReactor then
    match checkAndStartProbeForWrappers startedAt state with
    | (true, state) => (state, if policy.failOpen then .none else .circuitOpen)
    | (false, state) =>
        attemptLoop policy.failOpen ops (cappedAttempts policy.retries) 0 state
  else
    attemptLoop policy.failOpen ops (cappedAttempts policy.retries) 0 state

end Telemetry.Breaker.Rust
