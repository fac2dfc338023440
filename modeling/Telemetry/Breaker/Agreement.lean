import Telemetry.Lib.Lockstep
import Telemetry.Breaker.PythonProbe
import Telemetry.Breaker.Rust

/-!
# The Rust breaker against the Python one

Both breakers run on the same events: a call at a clock time, with the outcomes of the
attempts it makes. They differ in two places. Python's cooldown doubles with every trip
and Rust's is constant; a successful probe takes one off Python's `open_count` and leaves
Rust's alone. So they agree on a run exactly as long as no call falls between the two
cooldowns and no probe succeeds at the first attempt, within the range of `u32`.

## Main definitions

* `Event`, `pyEvent`, `rustEvent` — one call, on either machine.
* `Coupled` — the states that the two machines reach together.
* `Meets` — the condition on one event.
* `agree_iff_allMeet` — agreement on a run is the condition on every event.
-/

namespace Telemetry.Breaker

open Telemetry.Lib

/-- The outcome of an attempt. -/
inductive Outcome
  | success
  | timeout
  | failure
  deriving DecidableEq, Repr

/-- A call: the clock at its breaker check, and its attempts with the clock at each record. -/
structure Event where
  time : ℚ
  outcomes : List (Outcome × ℚ)
  /-- `MAX_EXPORT_ATTEMPTS`. -/
  attempts_le : outcomes.length ≤ 101

/-- Record the outcomes on the Python machine; a success ends the call. -/
def pyRecord (c : Python.Circuit) : List (Outcome × ℚ) → Python.Circuit
  | [] => c
  | (.success, _) :: _ => Python.recordAttemptSuccess c
  | (.timeout, t) :: os => pyRecord (Python.recordAttemptFailure t true c) os
  | (.failure, t) :: os => pyRecord (Python.recordAttemptFailure t false c) os

/-- A call on the Python machine: whether it was admitted; `none` if the check raises. -/
def pyEvent (c : Python.Circuit) (e : Event) : Option (Bool × Python.Circuit) :=
  match Python.checkCircuitBreaker e.time c with
  | .error _ => none
  | .ok (.rejected, c) => some (false, c)
  | .ok (_, c) => some (true, pyRecord c e.outcomes)

/-- Record the outcomes on the Rust machine; a success ends the call. -/
def rustRecord (r : Rust.CircuitState) : List (Outcome × ℚ) → Rust.CircuitState
  | [] => r
  | (.success, _) :: _ => Rust.recordCircuitSuccessForWrappers r
  | (.timeout, t) :: os => rustRecord (Rust.recordCircuitFailureForWrappers t true r) os
  | (.failure, t) :: os => rustRecord (Rust.recordCircuitFailureForWrappers t false r) os

/-- A call on the Rust machine: whether it was admitted. -/
def rustEvent (r : Rust.CircuitState) (e : Event) : Option (Bool × Rust.CircuitState) :=
  match Rust.checkAndStartProbeForWrappers e.time r with
  | (true, r) => some (false, r)
  | (false, r) => some (true, rustRecord r e.outcomes)

/-- What one sees of both states: the times of the trips are left out. -/
def Same (c : Python.Circuit) (r : Rust.CircuitState) : Prop :=
  r.consecutiveTimeouts = c.consecutiveTimeouts ∧ r.openCount = c.openCount ∧
    r.halfOpenProbing = c.halfOpenProbing

/-! ## The events are the calls -/

/-- The outcome an ending of a Python attempt counts as. -/
def outcomeOf : Python.Ending → Outcome
  | .returned => .success
  | .timeoutError => .timeout
  | _ => .failure

/-- The event of a Python call: the attempts its policy allows. -/
def pyEventOf (env : Python.CallEnv) (policy : Python.ExporterPolicy) : Event where
  time := env.startedAt
  outcomes := (List.range (Python.policyAttempts policy)).map fun i =>
    (outcomeOf (env.ops i).ending, (env.ops i).recordedAt)
  attempts_le := by
    simp only [List.length_map, List.length_range, Python.policyAttempts,
      Python.maxExportAttempts, Python.maxExportRetries]
    omega

/-- No attempt ends in a `BaseException` and no sleep is interrupted. -/
def Undisturbed (env : Python.CallEnv) : Prop :=
  env.inLoop = false ∧ ∀ i, (env.ops i).ending ≠ .baseException ∧
    (env.ops i).sleepInterrupted = false

/-- The loop records the outcomes it has left. -/
theorem retryLoop_eq_pyRecord {policy : Python.ExporterPolicy} {b : ℚ} {ops : ℕ → Python.Attempt}
    (hops : ∀ i, (ops i).ending ≠ .baseException ∧ (ops i).sleepInterrupted = false)
    (attempts remaining : ℕ) (hle : remaining ≤ attempts) (err : Option Python.Raised)
    (s : Python.SignalState) :
    (Python.retryLoop policy attempts b ops remaining err s).1.circuit =
      pyRecord s.circuit ((List.range' (attempts - remaining) remaining).map fun i =>
        (outcomeOf (ops i).ending, (ops i).recordedAt)) := by
  induction remaining generalizing err s with
  | zero => rfl
  | succ remaining ih =>
      obtain ⟨hbase, hsleep⟩ := hops (attempts - (remaining + 1))
      have hcircuit := Python.loopBody_circuit (attempts - (remaining + 1)) attempts b
        (ops (attempts - (remaining + 1))) s
      have hnext : attempts - (remaining + 1) + 1 = attempts - remaining := by omega
      simp only [Python.retryLoop, List.range'_succ, List.map_cons, hnext]
      by_cases hret : (ops (attempts - (remaining + 1))).ending = .returned
      · simp [Python.loopBody, hret, outcomeOf, pyRecord]
      · obtain ⟨s', e, hbody⟩ := Python.loopBody_of_fails (attempts - (remaining + 1)) attempts b s
          (a := ops (attempts - (remaining + 1)))
          (by cases h : (ops (attempts - (remaining + 1))).ending <;> simp_all) hsleep
        rw [hbody] at hcircuit ⊢
        simp only at hcircuit ⊢
        rw [ih (by omega), hcircuit]
        cases h : (ops (attempts - (remaining + 1))).ending <;>
          simp_all [outcomeOf, pyRecord, Python.recordEnding]

/-- **A Python call with a timeout is its event**: the breaker it leaves is the event's. -/
theorem runWithResilience_eq_pyEvent {env : Python.CallEnv} {policy : Python.ExporterPolicy}
    (htimeout : 0 < policy.timeoutSeconds) (henv : Undisturbed env) (s : Python.SignalState) :
    (Python.runWithResilience env policy s).1.circuit =
      ((pyEvent s.circuit (pyEventOf env policy)).map Prod.snd).getD s.circuit := by
  obtain ⟨hloop, hops⟩ := henv
  have hadmitted : ∀ c, (Python.runAdmitted env policy (max 0 policy.timeoutSeconds)
      { s with circuit := c }).1.circuit = pyRecord c (pyEventOf env policy).outcomes := by
    intro c
    have hlimits : Python.applyEventLoopLimits env.inLoop env.warningsRaise policy
        (Python.policyAttempts policy) policy.backoffSeconds (max 0 policy.timeoutSeconds)
        { s with circuit := c }
          = ({ s with circuit := c },
            .ok (Python.policyAttempts policy, policy.backoffSeconds)) := by
      simp [Python.applyEventLoopLimits, Python.skipExecutor, Python.hasRetriesInLoop, hloop]
    simp only [Python.runAdmitted, hlimits]
    rw [retryLoop_eq_pyRecord hops _ _ le_rfl, Nat.sub_self, ← List.range_eq_range']
    rfl
  have hpos : 0 < max 0 policy.timeoutSeconds := lt_max_of_lt_right htimeout
  simp only [Python.runWithResilience, if_pos hpos, pyEvent, pyEventOf]
  cases hcheck : Python.checkCircuitBreaker env.startedAt s.circuit with
  | error e => rfl
  | ok answer =>
      obtain ⟨gate, c⟩ := answer
      cases gate with
      | rejected => rfl
      | closed => exact hadmitted c
      | probe => exact hadmitted c

/-- The outcome a Rust attempt counts as. -/
def rustOutcomeOf : Rust.Outcome → Outcome
  | .value => .success
  | .err true => .timeout
  | .err false => .failure
  | .wrapperTimeout => .timeout

theorem length_attempts_le (retries : ℕ) (f : ℕ → Outcome × ℚ) :
    ((List.range (Rust.cappedAttempts retries)).map f).length ≤ 101 := by
  simp only [List.length_map, List.length_range, Rust.cappedAttempts, Rust.maxExportAttempts]
  omega

/-- The event of a Rust call: the attempts its policy allows. -/
def rustEventOf (policy : Rust.ExporterPolicy) (startedAt : ℚ) (ops : ℕ → Rust.Attempt) :
    Event where
  time := startedAt
  outcomes := (List.range (Rust.cappedAttempts policy.retries)).map fun i =>
    (rustOutcomeOf (ops i).outcome, (ops i).recordedAt)
  attempts_le := length_attempts_le policy.retries _

theorem attemptLoop_eq_rustRecord (failOpen : Bool) (ops : ℕ → Rust.Attempt) (remaining i : ℕ)
    (r : Rust.CircuitState) :
    (Rust.attemptLoop failOpen ops remaining i r).1 =
      rustRecord r ((List.range' i remaining).map fun i =>
        (rustOutcomeOf (ops i).outcome, (ops i).recordedAt)) := by
  induction remaining generalizing i r with
  | zero => rfl
  | succ remaining ih =>
      simp only [Rust.attemptLoop, List.range'_succ, List.map_cons]
      cases h : (ops i).outcome with
      | value => rfl
      | wrapperTimeout => exact ih _ _
      | err isTimeout => cases isTimeout <;> exact ih _ _

/-- **A Rust call with an active timeout is its event.** -/
theorem runWithResilienceInner_eq_rustEvent {policy : Rust.ExporterPolicy} {reactor : Bool}
    (hactive : Rust.timeoutActive policy reactor = true) (startedAt : ℚ) (ops : ℕ → Rust.Attempt)
    (r : Rust.CircuitState) :
    some (Rust.runWithResilienceInner policy reactor startedAt ops r).1 =
      (rustEvent r (rustEventOf policy startedAt ops)).map Prod.snd := by
  simp only [Rust.runWithResilienceInner, if_pos hactive, rustEvent, rustEventOf]
  cases Rust.checkAndStartProbeForWrappers startedAt r with
  | mk reject r' =>
      cases reject with
      | true => rfl
      | false =>
          simp only [attemptLoop_eq_rustRecord, List.range_eq_range']
          rfl

/-! ## Coupled states -/

/-- The states that the machines reach together. An open circuit has been tripped, at the
same time on both; the counts fit their words. -/
structure Coupled (c : Python.Circuit) (r : Rust.CircuitState) : Prop where
  same : Same c r
  tripped : 3 ≤ c.consecutiveTimeouts → r.trippedAt = some c.circuitTrippedAt
  open_pos : 3 ≤ c.consecutiveTimeouts → 1 ≤ c.openCount
  probing_open : c.halfOpenProbing = true → 3 ≤ c.consecutiveTimeouts
  consecutive_le : c.consecutiveTimeouts ≤ c.openCount + 2
  count_lt : c.openCount < 2 ^ 32

theorem coupled_init : Coupled {} {} := by
  constructor <;> simp [Same]

/-- The trips that the outcomes add once the probe flag is clear. -/
def trips : ℕ → List (Outcome × ℚ) → ℕ
  | _, [] => 0
  | _, (.success, _) :: _ => 0
  | n, (.timeout, _) :: os => (if 3 ≤ n + 1 then 1 else 0) + trips (n + 1) os
  | _, (.failure, _) :: os => trips 0 os

theorem trips_le_length (n : ℕ) (os : List (Outcome × ℚ)) : trips n os ≤ os.length := by
  induction os generalizing n with
  | nil => exact le_rfl
  | cons o os ih =>
      obtain ⟨o, t⟩ := o
      cases o with
      | success => exact Nat.zero_le _
      | timeout =>
          have := ih (n + 1)
          simp only [trips, List.length_cons]
          split_ifs <;> omega
      | failure =>
          have := ih 0
          simp only [trips, List.length_cons]
          omega

/-- A failure recorded on the Python machine with the flag clear. -/
theorem recordAttemptFailure_clear {c : Python.Circuit} (hclear : c.halfOpenProbing = false)
    (t : ℚ) (isTimeout : Bool) :
    Python.recordAttemptFailure t isTimeout c =
      if isTimeout = true then
        if 3 ≤ c.consecutiveTimeouts + 1 then
          { c with consecutiveTimeouts := c.consecutiveTimeouts + 1
                   openCount := c.openCount + 1, circuitTrippedAt := t }
        else { c with consecutiveTimeouts := c.consecutiveTimeouts + 1 }
      else { c with consecutiveTimeouts := 0 } := by
  simp only [Python.recordAttemptFailure, hclear, Bool.false_eq_true, if_false,
    Python.circuitBreakerThreshold]

/-- The same on the Rust machine, while the counts fit. -/
theorem recordCircuitFailure_clear {r : Rust.CircuitState} (hclear : r.halfOpenProbing = false)
    (hcons : r.consecutiveTimeouts + 1 < 2 ^ 32) (t : ℚ) (isTimeout : Bool) :
    Rust.recordCircuitFailureForWrappers t isTimeout r =
      if isTimeout = true then
        if 3 ≤ r.consecutiveTimeouts + 1 then
          { r with consecutiveTimeouts := r.consecutiveTimeouts + 1
                   openCount := Rust.addU32 r.openCount 1, trippedAt := some t }
        else { r with consecutiveTimeouts := r.consecutiveTimeouts + 1 }
      else { r with consecutiveTimeouts := 0 } := by
  have hwrap := Rust.addU32_of_lt hcons
  simp only [Rust.recordCircuitFailureForWrappers, hclear, Bool.false_eq_true, if_false, hwrap,
    Rust.circuitBreakerThreshold]
  cases isTimeout <;> simp

/-- Python's records with the flag clear: each trip is counted, and the flag stays clear. -/
theorem pyRecord_clear {c : Python.Circuit} (hclear : c.halfOpenProbing = false)
    (os : List (Outcome × ℚ)) :
    (pyRecord c os).openCount = c.openCount + trips c.consecutiveTimeouts os ∧
      (pyRecord c os).halfOpenProbing = false := by
  induction os generalizing c with
  | nil => exact ⟨rfl, hclear⟩
  | cons o os ih =>
      obtain ⟨o, t⟩ := o
      cases o with
      | success => simp [pyRecord, trips, Python.recordAttemptSuccess, hclear]
      | timeout =>
          obtain ⟨hcount, hflag⟩ := ih (Python.recordAttemptFailure_probing t true c)
          refine ⟨?_, hflag⟩
          rw [pyRecord, hcount, recordAttemptFailure_clear hclear, if_pos rfl, trips]
          split_ifs <;> simp only <;> omega
      | failure =>
          obtain ⟨hcount, hflag⟩ := ih (Python.recordAttemptFailure_probing t false c)
          refine ⟨?_, hflag⟩
          rw [pyRecord, hcount, recordAttemptFailure_clear hclear, trips]
          rfl

/-- A failure recorded on both machines with the flag clear keeps them coupled, as long as
the counts fit. -/
theorem Coupled.failure {c : Python.Circuit} {r : Rust.CircuitState} (h : Coupled c r)
    (hclear : c.halfOpenProbing = false) (t : ℚ) (isTimeout : Bool)
    (hcons : c.consecutiveTimeouts + 1 < 2 ^ 32)
    (hcount : (Python.recordAttemptFailure t isTimeout c).openCount < 2 ^ 32) :
    Coupled (Python.recordAttemptFailure t isTimeout c)
      (Rust.recordCircuitFailureForWrappers t isTimeout r) := by
  obtain ⟨⟨hsameCons, hsameCount, hsameFlag⟩, htripped, hpos, hprob, hle, hlt⟩ := h
  rw [recordAttemptFailure_clear hclear] at hcount ⊢
  rw [recordCircuitFailure_clear (hsameFlag.trans hclear) (by omega), hsameCons]
  split_ifs at hcount ⊢ with htimeout htrip
  · have hwrap : Rust.addU32 r.openCount 1 = c.openCount + 1 := by
      rw [hsameCount, Rust.addU32_of_lt hcount]
    refine ⟨⟨rfl, hwrap, hsameFlag⟩, fun _ => rfl, fun _ => by simp, ?_, ?_, hcount⟩
    · intro hset
      simp [hclear] at hset
    · simp only
      omega
  · refine ⟨⟨rfl, hsameCount, hsameFlag⟩, fun h3 => absurd h3 htrip, fun h3 => absurd h3 htrip,
      ?_, ?_, hlt⟩
    · intro hset
      simp [hclear] at hset
    · simp only
      omega
  · refine ⟨⟨rfl, hsameCount, hsameFlag⟩, ?_, ?_, ?_, ?_, hlt⟩
    · intro h3
      simp at h3
    · intro h3
      simp at h3
    · intro hset
      simp [hclear] at hset
    · simp

/-- **Recording with the flag clear** keeps the machines coupled while the counts fit. -/
theorem Coupled.record {c : Python.Circuit} {r : Rust.CircuitState} (h : Coupled c r)
    (hclear : c.halfOpenProbing = false) (os : List (Outcome × ℚ))
    (hcons : c.consecutiveTimeouts + os.length < 2 ^ 32)
    (hroom : c.openCount + trips c.consecutiveTimeouts os < 2 ^ 32) :
    Coupled (pyRecord c os) (rustRecord r os) := by
  induction os generalizing c r with
  | nil => exact h
  | cons o os ih =>
      obtain ⟨o, t⟩ := o
      rw [List.length_cons] at hcons
      -- One failure, then the rest, whose trips are what is left of the room.
      have hfailure : ∀ isTimeout,
          (pyRecord (Python.recordAttemptFailure t isTimeout c) os).openCount < 2 ^ 32 →
          Coupled (pyRecord (Python.recordAttemptFailure t isTimeout c) os)
            (rustRecord (Rust.recordCircuitFailureForWrappers t isTimeout r) os) := by
        intro isTimeout hend
        have hclear' := Python.recordAttemptFailure_probing t isTimeout c
        rw [(pyRecord_clear hclear' os).1] at hend
        refine ih (h.failure hclear t isTimeout (by omega) (by omega)) hclear' ?_ hend
        have hgrow : (Python.recordAttemptFailure t isTimeout c).consecutiveTimeouts
            ≤ c.consecutiveTimeouts + 1 := by
          rw [recordAttemptFailure_clear hclear]
          split_ifs <;> simp
        omega
      have hend := (pyRecord_clear hclear ((o, t) :: os)).1
      cases o with
      | timeout => exact hfailure true (hend ▸ hroom)
      | failure => exact hfailure false (hend ▸ hroom)
      | success =>
          obtain ⟨⟨hsameCons, hsameCount, hsameFlag⟩, htripped, hpos, hprob, hle, hlt⟩ := h
          have hflag := hsameFlag.trans hclear
          simp only [pyRecord, rustRecord, Python.recordAttemptSuccess,
            Rust.recordCircuitSuccessForWrappers, hclear, hflag, Bool.false_eq_true, if_false]
          exact ⟨⟨rfl, hsameCount, by simp⟩, fun h3 => by simp at h3,
            fun h3 => by simp at h3, fun hset => by simp at hset, by simp, hlt⟩

/-- The first failure of a probe re-opens the circuit on both machines. -/
theorem Coupled.probe_failure {c : Python.Circuit} {r : Rust.CircuitState} (h : Coupled c r)
    (hopen : 3 ≤ c.consecutiveTimeouts) (hcount : c.openCount < 1024) (t : ℚ) (isTimeout : Bool) :
    Coupled (Python.recordAttemptFailure t isTimeout { c with halfOpenProbing := true })
      (Rust.recordCircuitFailureForWrappers t isTimeout { r with halfOpenProbing := true }) := by
  obtain ⟨⟨hsameCons, hsameCount, -⟩, -, -, -, hle, -⟩ := h
  have hwrap : Rust.addU32 r.openCount 1 = c.openCount + 1 := by
    rw [hsameCount, Rust.addU32_of_lt (by omega)]
  simp only [Python.recordAttemptFailure, Rust.recordCircuitFailureForWrappers, if_true, hwrap]
  exact ⟨⟨hsameCons, rfl, rfl⟩, fun _ => rfl, fun _ => by simp, fun _ => hopen,
    by simp only; omega, by simp only; omega⟩

/-! ## One event -/

/-- The condition under which an event is the same on both machines. A closed circuit has
to leave room in `open_count`; a probe in flight rejects on both; and an open circuit has to
be called either before Rust's cooldown is over, or after Python's with a first attempt that
fails. -/
def Meets (c : Python.Circuit) (e : Event) : Prop :=
  if c.consecutiveTimeouts < 3 then
    c.openCount + trips c.consecutiveTimeouts e.outcomes < 2 ^ 32
  else
    c.halfOpenProbing = true ∨ c.openCount < 1024 ∧
      (e.time - c.circuitTrippedAt < 30 ∨
        min (30 * 2 ^ c.openCount) 1024 ≤ e.time - c.circuitTrippedAt ∧
          e.outcomes.head?.map Prod.fst ≠ some .success)

instance (c : Python.Circuit) (e : Event) : Decidable (Meets c e) :=
  inferInstanceAs (Decidable (ite (_ < 3) (_ < _) (_ = true ∨ _ < _ ∧ (_ < _ ∨ _ ≤ _ ∧ _ ≠ _))))

theorem pyEvent_closed {c : Python.Circuit} (e : Event) (h : c.consecutiveTimeouts < 3) :
    pyEvent c e = some (true, pyRecord c e.outcomes) := by
  rw [pyEvent, Python.check_of_closed e.time h]

theorem pyEvent_probing {c : Python.Circuit} (e : Event) (h : ¬ c.consecutiveTimeouts < 3)
    (hset : c.halfOpenProbing = true) : pyEvent c e = some (false, c) := by
  rw [pyEvent, Python.check_of_probing e.time h hset]

theorem pyEvent_open {c : Python.Circuit} (e : Event) (h : ¬ c.consecutiveTimeouts < 3)
    (hclear : c.halfOpenProbing = false) :
    pyEvent c e =
      if c.openCount < 1024 then
        if e.time - c.circuitTrippedAt < min (30 * 2 ^ c.openCount) 1024 then some (false, c)
        else some (true, pyRecord { c with halfOpenProbing := true } e.outcomes)
      else none := by
  by_cases hcount : c.openCount < 1024
  · rw [pyEvent, Python.check_of_open e.time h hclear hcount, if_pos hcount]
    split_ifs <;> rfl
  · rw [pyEvent, Python.check_of_overflow e.time h hclear hcount, if_neg hcount]

theorem rustEvent_closed {r : Rust.CircuitState} (e : Event) (h : r.consecutiveTimeouts < 3) :
    rustEvent r e = some (true, rustRecord r e.outcomes) := by
  rw [rustEvent, Rust.check_of_closed e.time h]

theorem rustEvent_probing {r : Rust.CircuitState} (e : Event) (h : ¬ r.consecutiveTimeouts < 3)
    (hset : r.halfOpenProbing = true) : rustEvent r e = some (false, r) := by
  rw [rustEvent, Rust.check_of_probing e.time h hset]

theorem rustEvent_open {r : Rust.CircuitState} (e : Event) (h : ¬ r.consecutiveTimeouts < 3)
    (hclear : r.halfOpenProbing = false) {t : ℚ} (htripped : r.trippedAt = some t) :
    rustEvent r e =
      if e.time - t < 30 then some (false, r)
      else some (true, rustRecord { r with halfOpenProbing := true } e.outcomes) := by
  have hactive : r.cooldownActive e.time = decide (e.time - t < 30) := by
    simp [Rust.CircuitState.cooldownActive, htripped, Rust.circuitCooldownIsActive,
      Rust.elapsed, Rust.circuitCooldown]
  rw [rustEvent, Rust.check_of_open e.time h hclear, hactive]
  by_cases helapsed : e.time - t < 30 <;> simp [helapsed]

/-- An event that meets the condition keeps the machines coupled, with one answer. -/
theorem Coupled.event {c : Python.Circuit} {r : Rust.CircuitState} {e : Event} (h : Coupled c r)
    (hmeets : Meets c e) :
    ∃ o c' r', pyEvent c e = some (o, c') ∧ rustEvent r e = some (o, r') ∧ Coupled c' r' := by
  have hcons := h.same.1
  have hlen := e.attempts_le
  have hle := h.consecutive_le
  simp only [Meets] at hmeets
  by_cases hclosed : c.consecutiveTimeouts < 3
  · rw [if_pos hclosed] at hmeets
    have hclear : c.halfOpenProbing = false := by
      by_contra hset
      have := h.probing_open (by simpa using hset)
      omega
    exact ⟨_, _, _, pyEvent_closed e hclosed, rustEvent_closed e (by omega),
      h.record hclear _ (by omega) hmeets⟩
  rw [if_neg hclosed] at hmeets
  have hopen : 3 ≤ c.consecutiveTimeouts := not_lt.mp hclosed
  have hclosed' : ¬ r.consecutiveTimeouts < 3 := by omega
  cases hset : c.halfOpenProbing with
  | true =>
      exact ⟨_, _, _, pyEvent_probing e hclosed hset,
        rustEvent_probing e hclosed' (h.same.2.2.trans hset), h⟩
  | false =>
      obtain ⟨hcount, htime⟩ := hmeets.resolve_left (by simp [hset])
      have hpy := pyEvent_open e hclosed hset
      have hrust := rustEvent_open e hclosed' (h.same.2.2.trans hset) (h.tripped hopen)
      have hbase : (30 : ℚ) ≤ min (30 * 2 ^ c.openCount) 1024 := by
        have hone : (1 : ℚ) ≤ 2 ^ c.openCount := one_le_pow₀ (by norm_num)
        exact le_min (by linarith) (by norm_num)
      rw [if_pos hcount] at hpy
      rcases htime with hearly | ⟨hlate, hfirst⟩
      · rw [if_pos (by linarith)] at hpy
        rw [if_pos hearly] at hrust
        exact ⟨_, _, _, hpy, hrust, h⟩
      · rw [if_neg (not_lt.mpr hlate)] at hpy
        rw [if_neg (by linarith)] at hrust
        refine ⟨_, _, _, hpy, hrust, ?_⟩
        -- The first attempt, if any, fails and takes the flag; the rest is recorded clear.
        have hrest : ∀ (isTimeout : Bool) (t : ℚ) (os : List (Outcome × ℚ)), os.length ≤ 101 →
            Coupled
              (pyRecord (Python.recordAttemptFailure t isTimeout
                { c with halfOpenProbing := true }) os)
              (rustRecord (Rust.recordCircuitFailureForWrappers t isTimeout
                { r with halfOpenProbing := true }) os) := by
          intro isTimeout t os hos
          have hprobe := h.probe_failure hopen hcount t isTimeout
          have htrips := trips_le_length (Python.recordAttemptFailure t isTimeout
            { c with halfOpenProbing := true }).consecutiveTimeouts os
          refine hprobe.record (Python.recordAttemptFailure_probing _ _ _) os ?_ ?_
          · simp only [Python.recordAttemptFailure, if_true]
            omega
          · simp only [Python.recordAttemptFailure, if_true] at htrips ⊢
            omega
        cases hos : e.outcomes with
        | nil =>
            exact ⟨⟨hcons, h.same.2.1, rfl⟩, h.tripped, h.open_pos, fun _ => hopen, hle, h.count_lt⟩
        | cons o os =>
            obtain ⟨o, t⟩ := o
            rw [hos, List.length_cons] at hlen
            cases o with
            | success => simp [hos] at hfirst
            | timeout => exact hrest true t os (by omega)
            | failure => exact hrest false t os (by omega)

theorem rustRecord_openCount_lt {r : Rust.CircuitState} (h : r.openCount < 2 ^ 32)
    (os : List (Outcome × ℚ)) : (rustRecord r os).openCount < 2 ^ 32 := by
  have hfailure : ∀ (t : ℚ) (b : Bool) (r : Rust.CircuitState), r.openCount < 2 ^ 32 →
      (Rust.recordCircuitFailureForWrappers t b r).openCount < 2 ^ 32 := by
    intro t b r h
    simp only [Rust.recordCircuitFailureForWrappers]
    split_ifs
    · exact Rust.addU32_lt _ _
    · exact h
    · exact Rust.addU32_lt _ _
    · exact h
  induction os generalizing r with
  | nil => exact h
  | cons o os ih =>
      obtain ⟨o, t⟩ := o
      cases o with
      | success =>
          simp only [rustRecord, Rust.recordCircuitSuccessForWrappers]
          split_ifs <;> exact h
      | timeout => exact ih (hfailure t true r h)
      | failure => exact ih (hfailure t false r h)

/-- An event outside the condition is told apart at once: by its answer, or by the
`open_count` it leaves. -/
theorem Coupled.event_differs {c : Python.Circuit} {r : Rust.CircuitState} {e : Event}
    (h : Coupled c r) (hmeets : ¬ Meets c e) :
    ¬ Lockstep.StepAgree pyEvent rustEvent Same c r e := by
  rintro ⟨o, c', r', hpy, hrust, -, hcount, -⟩
  have hcons := h.same.1
  simp only [Meets] at hmeets
  by_cases hclosed : c.consecutiveTimeouts < 3
  · -- Python's count no longer fits, Rust's always does.
    rw [if_pos hclosed] at hmeets
    have hclear : c.halfOpenProbing = false := by
      by_contra hset
      have := h.probing_open (by simpa using hset)
      omega
    rw [pyEvent_closed e hclosed] at hpy
    rw [rustEvent_closed e (by omega)] at hrust
    obtain ⟨-, rfl⟩ := Prod.mk.inj (Option.some.inj hpy)
    obtain ⟨-, rfl⟩ := Prod.mk.inj (Option.some.inj hrust)
    have hbig := (pyRecord_clear hclear e.outcomes).1
    have hcount : r.openCount < 2 ^ 32 := by
      have hsame := h.same.2.1
      have hlt := h.count_lt
      omega
    have hfits := rustRecord_openCount_lt hcount e.outcomes
    omega
  rw [if_neg hclosed, not_or, not_and_or, not_or, not_and_or] at hmeets
  obtain ⟨hset, hwhen⟩ := hmeets
  rw [Bool.not_eq_true] at hset
  have hopen : 3 ≤ c.consecutiveTimeouts := not_lt.mp hclosed
  rw [pyEvent_open e hclosed hset] at hpy
  rw [rustEvent_open e (by omega) (h.same.2.2.trans hset) (h.tripped hopen)] at hrust
  rcases hwhen with hover | ⟨hlate, hwhen⟩
  · rw [if_neg hover] at hpy
    cases hpy
  rw [if_neg hlate] at hrust
  obtain ⟨rfl, rfl⟩ := Prod.mk.inj (Option.some.inj hrust)
  split_ifs at hpy with hfits hearly
  · cases hpy
  · -- Both probe, and the probe succeeds at once: only Python takes one off the count.
    have hfirst := hwhen.resolve_left (by simpa using hearly)
    obtain ⟨-, rfl⟩ := Prod.mk.inj (Option.some.inj hpy)
    cases hos : e.outcomes with
    | nil => simp [hos] at hfirst
    | cons o os =>
        obtain ⟨o, t⟩ := o
        obtain rfl : o = .success := by simpa [hos] using hfirst
        have hpos := h.open_pos hopen
        have hsame := h.same.2.1
        simp [hos, pyRecord, rustRecord, Python.recordAttemptSuccess,
          Rust.recordCircuitSuccessForWrappers] at hcount
        omega

/-! ## Whole runs -/

/-- **The Rust breaker agrees with the Python one on a run** exactly if every event of it
meets the condition in the state it finds. -/
theorem agree_iff_allMeet (events : List Event) :
    Lockstep.Agree pyEvent rustEvent Same {} {} events ↔
      Lockstep.AllMeet pyEvent Meets {} events :=
  Lockstep.agree_iff (fun _ _ _ hR hm => hR.event hm) (fun _ _ hR => hR.same)
    (fun _ _ _ hR hm => hR.event_differs hm) events coupled_init

/-- A call at `t` whose only attempt times out there. -/
def timedOutAt (t : ℚ) : Event := ⟨t, [(.timeout, t)], by simp⟩

/-- Three timeouts trip both breakers at time 3; at time 40 Rust's cooldown is over and
Python's is not. -/
def earlyProbe : List Event :=
  [timedOutAt 1, timedOutAt 2, timedOutAt 3, timedOutAt 40]

theorem earlyProbe_differs : ¬ Lockstep.Agree pyEvent rustEvent Same {} {} earlyProbe := by
  rw [agree_iff_allMeet]
  decide +kernel

end Telemetry.Breaker
