import Telemetry.Breaker.PythonProbe

/-!
# When the breaker can compute its cooldown

`open_count` has no upper bound, and the factor `2 ** open_count` is converted to a
double before the cap is applied. From `open_count` 1024 on the conversion fails, in
the check and in the report alike.

## Main definitions

* `BreakersAnswer` — every cooldown is computable and in range, and neither a call
  nor the health snapshot raises because of one.
* `breakersAnswer_iff` — after any calls, this is `open_count < 1024` on each signal.
* `openCount_runSignals_le` — a signal's `open_count` is at most its attempts.
-/

namespace Telemetry.Breaker.Python

/-! ## Where the overflow surfaces -/

/-- The loop ends with an overflow only if it was handed one. -/
theorem retryLoop_ne_overflow {policy : ExporterPolicy} {attempts : ℕ} {b : ℚ}
    {ops : ℕ → Attempt} (remaining : ℕ) (err : Option Raised) (s : SignalState)
    (herr : err ≠ some .overflowError) :
    (retryLoop policy attempts b ops remaining err s).2 ≠ .raised .overflowError := by
  induction remaining generalizing err s with
  | zero =>
      simp only [retryLoop, afterLoop]
      split
      · simp
      · cases err with
        | none => simp
        | some e => simpa using herr
  | succ remaining ih =>
      have hbody : ∀ a : Attempt, ∀ attempt,
          (loopBody attempt attempts b a s).2 ≠ .leave (.raised .overflowError) ∧
            (loopBody attempt attempts b a s).2 ≠ .next .overflowError := by
        intro a attempt
        cases hend : a.ending <;> simp only [loopBody, hend, exceptClause]
        case returned => simp
        case baseException => simp
        all_goals split <;> simp
      obtain ⟨hleave, hnext⟩ :=
        hbody (ops (attempts - (remaining + 1))) (attempts - (remaining + 1))
      simp only [retryLoop]
      split
      · rename_i heq
        rw [heq] at hleave
        simpa using hleave
      · rename_i heq
        rw [heq] at hnext
        exact ih _ _ (by simpa using hnext)

/-- After the check nothing computes a cooldown. -/
theorem runAdmitted_ne_overflow (env : CallEnv) (policy : ExporterPolicy) (t : ℚ)
    (s : SignalState) : (runAdmitted env policy t s).2 ≠ .raised .overflowError := by
  obtain ⟨s', answer, hlimits, -, hanswer⟩ := applyEventLoopLimits_cases env.inLoop
    env.warningsRaise policy (policyAttempts policy) policy.backoffSeconds t s
  simp only [runAdmitted, hlimits]
  rcases hanswer with ⟨rfl, -⟩ | rfl
  · simp
  · exact retryLoop_ne_overflow _ _ _ (by simp)

/-- A call raises the overflow exactly when its own check does. -/
theorem runWithResilience_overflow_iff {env : CallEnv} {policy : ExporterPolicy}
    {s : SignalState} :
    (runWithResilience env policy s).2 = .raised .overflowError ↔
      0 < policy.timeoutSeconds ∧
        checkCircuitBreaker env.startedAt s.circuit = .error .overflowError := by
  have hpos : 0 < max 0 policy.timeoutSeconds ↔ 0 < policy.timeoutSeconds := by simp
  simp only [runWithResilience, hpos]
  split
  case isFalse hzero => simp [hzero, runAdmitted_ne_overflow]
  case isTrue htimeout =>
    cases hcheck : checkCircuitBreaker env.startedAt s.circuit with
    | error e => simp [htimeout]
    | ok answer =>
        obtain ⟨gate, c⟩ := answer
        cases gate with
        | rejected => cases hopen : policy.failOpen <;> simp
        | closed => simpa using runAdmitted_ne_overflow _ _ _ _
        | probe => simpa using runAdmitted_ne_overflow _ _ _ _

theorem getCircuitState_ok {now : ℚ} {c : Circuit} (h : c.openCount < 1024) :
    ∃ r, getCircuitState now c = .ok r := by
  unfold getCircuitState
  rw [cooldown_of_lt h]
  split_ifs
  · exact ⟨_, rfl⟩
  · by_cases hrem : 0 < min (30 * 2 ^ c.openCount) 1024 - (now - c.circuitTrippedAt)
    · exact ⟨_, if_pos hrem⟩
    · exact ⟨_, if_neg hrem⟩
  · exact ⟨_, rfl⟩

theorem getHealthSnapshot_ok {now : Signal → ℚ} {state : Signal → SignalState}
    (h : ∀ signal, ∃ r, getCircuitState (now signal) (state signal).circuit = .ok r) :
    ∃ r, getHealthSnapshot now state = .ok r := by
  obtain ⟨logs, hlogs⟩ := h .logs
  obtain ⟨traces, htraces⟩ := h .traces
  obtain ⟨metrics, hmetrics⟩ := h .metrics
  exact ⟨(logs, traces, metrics), by simp only [getHealthSnapshot, hlogs, htraces, hmetrics]; rfl⟩

/-! ## The exact condition -/

/-- Every cooldown is a number between the base and the cap, so that no call which
fails open raises out of its breaker check and the health snapshot does not raise. -/
structure BreakersAnswer (state : Signal → SignalState) : Prop where
  cooldowns : ∀ signal, ∃ v, cooldown (state signal).circuit.openCount = .ok v ∧
    circuitBaseCooldown ≤ v ∧ v ≤ circuitMaxCooldown
  calls : ∀ signal env policy, policy.failOpen = true →
    (runWithResilience env policy (state signal)).2 ≠ .raised .overflowError
  reports : ∀ now signal, ∃ r, getCircuitState now (state signal).circuit = .ok r
  snapshot : ∀ now, ∃ r, getHealthSnapshot now state = .ok r

/-- **The breakers of a run answer** exactly as long as every `open_count` is below 1024. -/
theorem breakersAnswer_iff (calls : List (Signal × CallEnv × ExporterPolicy)) :
    BreakersAnswer (runSignals (fun _ => {}) calls) ↔
      ∀ signal, (runSignals (fun _ => {}) calls signal).circuit.openCount < 1024 := by
  constructor
  · intro h signal
    by_contra hbig
    obtain ⟨v, hv, -⟩ := h.cooldowns signal
    rw [cooldown_of_le (not_lt.mp hbig)] at hv
    cases hv
  · intro h
    refine ⟨?_, ?_,
      fun now signal => getCircuitState_ok (h signal),
      fun now => getHealthSnapshot_ok fun signal => getCircuitState_ok (h signal)⟩
    · intro signal
      simpa only [circuitBaseCooldown, circuitMaxCooldown] using cooldown_bounds (h signal)
    · intro signal env policy _ hraise
      obtain ⟨-, hcheck⟩ := runWithResilience_overflow_iff.mp hraise
      have := check_error_iff.mp hcheck
      have := h signal
      omega

/-! ## How far `open_count` can have come -/

theorem openCount_recordEnding_le (a : Attempt) (c : Circuit) :
    (recordEnding a c).openCount ≤ c.openCount + 1 := by
  cases hend : a.ending <;>
    simp only [recordEnding, hend, recordAttemptSuccess, recordAttemptFailure]
  case baseException => omega
  all_goals split_ifs <;> simp only <;> omega

theorem openCount_retryLoop_le {policy : ExporterPolicy} {attempts : ℕ} {b : ℚ}
    {ops : ℕ → Attempt} (remaining : ℕ) (err : Option Raised) (s : SignalState) :
    (retryLoop policy attempts b ops remaining err s).1.circuit.openCount ≤
      s.circuit.openCount + remaining := by
  induction remaining generalizing err s with
  | zero => simp [retryLoop]
  | succ remaining ih =>
      have hbody := openCount_recordEnding_le (ops (attempts - (remaining + 1))) s.circuit
      rw [← loopBody_circuit (attempts - (remaining + 1)) attempts b] at hbody
      simp only [retryLoop]
      split
      · rename_i heq
        rw [heq] at hbody
        simp only at hbody ⊢
        omega
      · rename_i s' e heq
        rw [heq] at hbody
        have := ih (some e) s'
        simp only at hbody
        omega

theorem openCount_runAdmitted_le (env : CallEnv) (policy : ExporterPolicy) (t : ℚ)
    (s : SignalState) :
    (runAdmitted env policy t s).1.circuit.openCount ≤
      s.circuit.openCount + policyAttempts policy := by
  obtain ⟨s', answer, hlimits, hcircuit, hanswer⟩ := applyEventLoopLimits_cases env.inLoop
    env.warningsRaise policy (policyAttempts policy) policy.backoffSeconds t s
  simp only [runAdmitted, hlimits, ← hcircuit]
  rcases hanswer with ⟨rfl, -⟩ | rfl
  · simp
  · have hone := one_le_policyAttempts policy
    split_ifs
    · exact (openCount_retryLoop_le _ _ _).trans (by omega)
    · exact openCount_retryLoop_le _ _ _

theorem openCount_runWithResilience_le (env : CallEnv) (policy : ExporterPolicy)
    (s : SignalState) :
    (runWithResilience env policy s).1.circuit.openCount ≤
      s.circuit.openCount + policyAttempts policy := by
  simp only [runWithResilience]
  split
  case isFalse => exact openCount_runAdmitted_le _ _ _ _
  case isTrue =>
    cases hcheck : checkCircuitBreaker env.startedAt s.circuit with
    | error e => simp
    | ok answer =>
        obtain ⟨gate, c⟩ := answer
        have hcount : c.openCount = s.circuit.openCount := by
          obtain ⟨-, rfl, -⟩ | ⟨-, rfl, -⟩ | ⟨-, rfl, -⟩ := check_cases hcheck <;> rfl
        cases gate with
        | rejected => simp [hcount]
        | closed => exact hcount ▸ openCount_runAdmitted_le env policy _ { s with circuit := c }
        | probe => exact hcount ▸ openCount_runAdmitted_le env policy _ { s with circuit := c }

/-- The attempts the policies of a signal's calls allow. -/
def attemptsOn (signal : Signal) (calls : List (Signal × CallEnv × ExporterPolicy)) : ℕ :=
  ((calls.filter fun call => call.1 = signal).map fun call => policyAttempts call.2.2).sum

/-- **A signal's `open_count` is at most the attempts it was given**, so the breakers
answer throughout any run with fewer than 1024 of them on each signal. -/
theorem openCount_runSignals_le (calls : List (Signal × CallEnv × ExporterPolicy))
    (state : Signal → SignalState) (signal : Signal) :
    (runSignals state calls signal).circuit.openCount ≤
      (state signal).circuit.openCount + attemptsOn signal calls := by
  induction calls generalizing state with
  | nil => simp [runSignals]
  | cons call calls ih =>
      obtain ⟨other, env, policy⟩ := call
      have hrest := ih (Function.update state other (runWithResilience env policy (state other)).1)
      simp only [runSignals]
      by_cases hsame : other = signal
      · subst hsame
        have hcall := openCount_runWithResilience_le env policy (state other)
        simp only [attemptsOn, List.filter_cons, decide_true, if_true, List.map_cons,
          List.sum_cons, Function.update_self] at hrest ⊢
        omega
      · simpa [attemptsOn, Function.update_of_ne (Ne.symm hsame), hsame] using hrest

/-! ## An outage that gets there -/

/-- A call with a hundred retries at time `t`: all attempts time out, the last but
fails otherwise and closes the circuit again. -/
def outageCall (t : ℚ) : Signal × CallEnv × ExporterPolicy :=
  (.logs, { startedAt := t
            ops := fun i =>
              { ending := if i < 100 then .timeoutError else .exception, recordedAt := t } },
    { retries := 100 })

/-- Eleven such calls, and one whose three attempts trip the circuit for good. -/
def outage : List (Signal × CallEnv × ExporterPolicy) :=
  (List.range 11).map (fun n => outageCall (n : ℕ)) ++
    [(.logs, { startedAt := 11, ops := fun _ => { ending := .timeoutError, recordedAt := 11 } },
      { retries := 2 })]

/-- After the outage the check raises, and so does the health snapshot. -/
theorem outage_overflows :
    (runSignals (fun _ => {}) outage .logs).circuit.openCount = 1079 ∧
      (runWithResilience { startedAt := 100000, ops := fun _ => { ending := .returned } }
        { failOpen := true } (runSignals (fun _ => {}) outage .logs)).2
          = .raised .overflowError ∧
      getHealthSnapshot (fun _ => 100000) (runSignals (fun _ => {}) outage)
        = .error .overflowError ∧
      ¬ BreakersAnswer (runSignals (fun _ => {}) outage) := by
  have hcount : (runSignals (fun _ => {}) outage .logs).circuit.openCount = 1079 := by
    decide +kernel
  refine ⟨hcount, by decide +kernel, by decide +kernel, ?_⟩
  intro h
  obtain ⟨v, hv, -⟩ := h.cooldowns .logs
  rw [cooldown_of_le (by omega)] at hv
  cases hv

end Telemetry.Breaker.Python
