import Telemetry.Breaker.Python

/-!
# One call admitted as the half-open probe

What a single `run_with_resilience` call does to the breaker when the check made it
the probe, with no other call in between.

The first recorded attempt clears the probe flag, so the call's own retries run
through the closed-state branches. Two consequences are stated exactly: which calls
leave the flag set, and which all-failing calls re-open the circuit once.
-/

namespace Telemetry.Breaker.Python

/-- The breaker check admits the call as the half-open probe. -/
def AdmittedAsProbe (env : CallEnv) (policy : ExporterPolicy) (s : SignalState) : Prop :=
  0 < policy.timeoutSeconds ∧
    ∃ c, checkCircuitBreaker env.startedAt s.circuit = .ok (.probe, c)

/-- The state a probe starts its attempts from. -/
def probing (s : SignalState) : SignalState :=
  { s with circuit := { s.circuit with halfOpenProbing := true } }

theorem AdmittedAsProbe.run_eq {env : CallEnv} {policy : ExporterPolicy} {s : SignalState}
    (h : AdmittedAsProbe env policy s) :
    runWithResilience env policy s =
      runAdmitted env policy (max 0 policy.timeoutSeconds) (probing s) := by
  obtain ⟨hpos, c, hc⟩ := h
  have htimeout : 0 < max 0 policy.timeoutSeconds := lt_max_of_lt_right hpos
  obtain ⟨hg, -⟩ | ⟨hg, -⟩ | ⟨-, rfl, -⟩ := check_cases hc
  · cases hg
  · cases hg
  · simp only [runWithResilience, if_pos htimeout, hc]
    rfl

theorem AdmittedAsProbe.threshold_le {env : CallEnv} {policy : ExporterPolicy} {s : SignalState}
    (h : AdmittedAsProbe env policy s) :
    circuitBreakerThreshold ≤ s.circuit.consecutiveTimeouts := by
  obtain ⟨-, c, hc⟩ := h
  obtain ⟨hg, -⟩ | ⟨hg, -⟩ | ⟨-, -, -, hopen⟩ := check_cases hc
  · cases hg
  · cases hg
  · exact hopen

/-! ## The probe flag -/

/-- A recorded ending clears the flag; only a `BaseException` records nothing. -/
theorem recordEnding_probing (a : Attempt) (c : Circuit) :
    (recordEnding a c).halfOpenProbing =
      (decide (a.ending = .baseException) && c.halfOpenProbing) := by
  unfold recordEnding
  cases a.ending <;> simp

/-- Once the flag is clear, the rest of the loop leaves it clear. -/
theorem retryLoop_probing (policy : ExporterPolicy) (attempts : ℕ) (b : ℚ) (ops : ℕ → Attempt)
    (remaining : ℕ) (err : Option Raised) (s : SignalState)
    (hclear : s.circuit.halfOpenProbing = false) :
    (retryLoop policy attempts b ops remaining err s).1.circuit.halfOpenProbing = false := by
  induction remaining generalizing err s with
  | zero => exact hclear
  | succ remaining ih =>
      have hbody := loopBody_circuit (attempts - (remaining + 1)) attempts b
        (ops (attempts - (remaining + 1))) s
      have hnext : (recordEnding (ops (attempts - (remaining + 1))) s.circuit).halfOpenProbing
          = false := by rw [recordEnding_probing, hclear, Bool.and_false]
      rw [← hbody] at hnext
      simp only [retryLoop]
      split
      · rename_i heq
        rwa [heq] at hnext
      · rename_i heq
        rw [heq] at hnext
        exact ih _ _ hnext

/-- A `BaseException` out of an attempt leaves the call there and then. -/
theorem loopBody_of_baseException {attempt attempts : ℕ} {b : ℚ} {a : Attempt} {s : SignalState}
    (h : a.ending = .baseException) :
    loopBody attempt attempts b a s = (s, .leave (.raised .baseException)) := by
  simp only [loopBody, h]

/-- The loop entered with the flag set leaves it set exactly when the first attempt
ends in a `BaseException`. -/
theorem retryLoop_probing_iff (policy : ExporterPolicy) (n : ℕ) (b : ℚ) (ops : ℕ → Attempt)
    (s : SignalState) (hset : s.circuit.halfOpenProbing = true) :
    (retryLoop policy (n + 1) b ops (n + 1) none s).1.circuit.halfOpenProbing = true ↔
      (ops 0).ending = .baseException := by
  simp only [retryLoop, Nat.sub_self]
  by_cases hbase : (ops 0).ending = .baseException
  · simp [loopBody_of_baseException hbase, hbase, hset]
  · have hclear : (loopBody 0 (n + 1) b (ops 0) s).1.circuit.halfOpenProbing = false := by
      rw [loopBody_circuit, recordEnding_probing]
      simp [hbase]
    simp only [hbase, iff_false, Bool.not_eq_true]
    split
    · rename_i heq
      rwa [heq] at hclear
    · rename_i heq
      rw [heq] at hclear
      exact retryLoop_probing _ _ _ _ _ _ _ hclear

/-- An event-loop warning is escalated between the check and the first attempt. -/
def WarningEscalates (env : CallEnv) (policy : ExporterPolicy) (s : SignalState) : Prop :=
  (applyEventLoopLimits env.inLoop env.warningsRaise policy (policyAttempts policy)
    policy.backoffSeconds (max 0 policy.timeoutSeconds) s).2 = .error .runtimeWarning

/-- **A probe that ran alone leaves the flag set** exactly when a warning is escalated
before its first attempt or that attempt ends in a `BaseException`. -/
theorem probe_leaves_flag_iff {env : CallEnv} {policy : ExporterPolicy} {s : SignalState}
    (h : AdmittedAsProbe env policy s) :
    (runWithResilience env policy s).1.circuit.halfOpenProbing = true ↔
      WarningEscalates env policy (probing s) ∨ (env.ops 0).ending = .baseException := by
  obtain ⟨s', answer, hlimits, hcircuit, hanswer⟩ := applyEventLoopLimits_cases env.inLoop
    env.warningsRaise policy (policyAttempts policy) policy.backoffSeconds
    (max 0 policy.timeoutSeconds) (probing s)
  have hset : s'.circuit.halfOpenProbing = true := by rw [hcircuit]; rfl
  rw [h.run_eq]
  simp only [runAdmitted, WarningEscalates, hlimits]
  rcases hanswer with ⟨rfl, -⟩ | rfl
  · simp [hset]
  · obtain ⟨k, hk⟩ : ∃ k, policyAttempts policy = k + 1 :=
      ⟨_, (Nat.sub_add_cancel (one_le_policyAttempts policy)).symm⟩
    split_ifs
    · simpa using retryLoop_probing_iff policy 0 0 env.ops s' hset
    · simpa [hk] using retryLoop_probing_iff policy k policy.backoffSeconds env.ops s' hset

/-! ## Re-opening -/

/-- Every attempt fails with an `Exception`, and nothing else interferes: no warning is
escalated and no sleep is interrupted. -/
structure FailsThroughout (env : CallEnv) (policy : ExporterPolicy) (s : SignalState) : Prop where
  quiet : ¬ WarningEscalates env policy (probing s)
  fails : ∀ i, (env.ops i).ending = .timeoutError ∨ (env.ops i).ending = .exception
  sleeps : ∀ i, (env.ops i).sleepInterrupted = false

/-- A failed attempt sends the loop on to the next iteration. -/
theorem loopBody_of_fails (attempt attempts : ℕ) (b : ℚ) {a : Attempt} (s : SignalState)
    (hfail : a.ending = .timeoutError ∨ a.ending = .exception)
    (hsleep : a.sleepInterrupted = false) :
    ∃ s' e, loopBody attempt attempts b a s = (s', .next e) := by
  have hclause : ∀ isTimeout, ∃ s' e, exceptClause isTimeout attempt attempts b a s
      = (s', .next e) := by
    intro isTimeout
    let recorded : SignalState :=
      { recordExportFailure s with
        circuit := recordAttemptFailure a.recordedAt isTimeout (recordExportFailure s).circuit }
    have hgo := maybeBackoff_interrupted attempt attempts b recorded hsleep
    simp only [exceptClause]
    split
    · rename_i heq
      rw [heq] at hgo
      cases hgo
    · exact ⟨_, _, rfl⟩
  rcases hfail with hfail | hfail <;> simp only [loopBody, hfail] <;> exact hclause _

/-- Outside a probe a recorded failure adds to `open_count` or leaves the circuit closed. -/
theorem recordEnding_of_fails {a : Attempt} {c : Circuit}
    (hfail : a.ending = .timeoutError ∨ a.ending = .exception)
    (hclear : c.halfOpenProbing = false) :
    c.openCount ≤ (recordEnding a c).openCount ∧
      ((recordEnding a c).openCount = c.openCount →
        (recordEnding a c).consecutiveTimeouts < circuitBreakerThreshold) := by
  rcases hfail with hfail | hfail
  · simp only [recordEnding, hfail, recordAttemptFailure, hclear, Bool.false_eq_true, if_false,
      if_true]
    split_ifs with htrip
    · simp
    · exact ⟨le_rfl, fun _ => not_le.mp htrip⟩
  · simp [recordEnding, hfail, recordAttemptFailure, hclear, circuitBreakerThreshold]

/-- Over further failures `open_count` only grows, and if it does not grow the circuit
ends closed: the invariant is that a circuit still open has been tripped anew. -/
theorem retryLoop_of_fails (policy : ExporterPolicy) (attempts : ℕ) (b : ℚ) {ops : ℕ → Attempt}
    (hfail : ∀ i, (ops i).ending = .timeoutError ∨ (ops i).ending = .exception)
    (hsleep : ∀ i, (ops i).sleepInterrupted = false) (remaining : ℕ) (err : Option Raised)
    (s : SignalState) (hclear : s.circuit.halfOpenProbing = false) :
    s.circuit.openCount ≤ (retryLoop policy attempts b ops remaining err s).1.circuit.openCount ∧
      (s.circuit.consecutiveTimeouts < circuitBreakerThreshold ∨ 0 < remaining →
        (retryLoop policy attempts b ops remaining err s).1.circuit.openCount
          = s.circuit.openCount →
        (retryLoop policy attempts b ops remaining err s).1.circuit.consecutiveTimeouts
          < circuitBreakerThreshold) := by
  induction remaining generalizing err s with
  | zero => exact ⟨le_rfl, fun h _ => h.resolve_right (lt_irrefl 0)⟩
  | succ remaining ih =>
      let a := ops (attempts - (remaining + 1))
      have hcircuit := loopBody_circuit (attempts - (remaining + 1)) attempts b a s
      obtain ⟨s', e, hbody⟩ := loopBody_of_fails (attempts - (remaining + 1)) attempts b s
        (hfail _) (hsleep (attempts - (remaining + 1)))
      have hs' : s'.circuit = recordEnding a s.circuit := by
        rw [← hcircuit]
        exact congrArg (fun r => r.1.circuit) hbody.symm
      obtain ⟨hgrow, hclosed⟩ := recordEnding_of_fails (hfail (attempts - (remaining + 1))) hclear
      have hclear' : s'.circuit.halfOpenProbing = false := by
        rw [hs', recordEnding_probing, hclear, Bool.and_false]
      obtain ⟨hmore, hend⟩ := ih (some e) s' hclear'
      simp only [retryLoop, hbody]
      rw [hs'] at hmore hend
      refine ⟨le_trans hgrow hmore, ?_⟩
      intro _ heq
      have hstill : (recordEnding a s.circuit).openCount = s.circuit.openCount :=
        le_antisymm (heq ▸ hmore) hgrow
      exact hend (.inl (hclosed hstill)) (heq.trans hstill.symm)

/-- The circuit a probe's first failure leaves: open, with one more trip. -/
theorem recordEnding_probing_of_fails {a : Attempt} {c : Circuit}
    (hfail : a.ending = .timeoutError ∨ a.ending = .exception)
    (hset : c.halfOpenProbing = true) :
    recordEnding a c = { c with halfOpenProbing := false, openCount := c.openCount + 1
                                circuitTrippedAt := a.recordedAt } := by
  rcases hfail with hfail | hfail <;> simp [recordEnding, hfail, recordAttemptFailure, hset]

/-- The circuit is open again, with exactly one more trip and nobody probing. -/
def ReopenedOnce (c c' : Circuit) : Prop :=
  circuitBreakerThreshold ≤ c'.consecutiveTimeouts ∧ c'.halfOpenProbing = false ∧
    c'.openCount = c.openCount + 1

instance (c c' : Circuit) : Decidable (ReopenedOnce c c') := by
  unfold ReopenedOnce
  infer_instance

/-- `n + 1` failing attempts of a probe re-open the circuit once exactly when `n = 0`. -/
theorem retryLoop_reopenedOnce_iff (policy : ExporterPolicy) (b : ℚ) {ops : ℕ → Attempt}
    (hfail : ∀ i, (ops i).ending = .timeoutError ∨ (ops i).ending = .exception)
    (hsleep : ∀ i, (ops i).sleepInterrupted = false) (n : ℕ) (s : SignalState)
    (hset : s.circuit.halfOpenProbing = true)
    (hopen : circuitBreakerThreshold ≤ s.circuit.consecutiveTimeouts) :
    ReopenedOnce s.circuit (retryLoop policy (n + 1) b ops (n + 1) none s).1.circuit ↔ n = 0 := by
  obtain ⟨s', e, hbody⟩ := loopBody_of_fails 0 (n + 1) b s (hfail 0) (hsleep 0)
  have hs' : s'.circuit = { s.circuit with
      halfOpenProbing := false, openCount := s.circuit.openCount + 1
      circuitTrippedAt := (ops 0).recordedAt } := by
    rw [← recordEnding_probing_of_fails (hfail 0) hset,
      ← loopBody_circuit 0 (n + 1) b (ops 0) s, hbody]
  have hclear : s'.circuit.halfOpenProbing = false := by rw [hs']
  simp only [retryLoop, Nat.sub_self, hbody]
  constructor
  · -- With retries left, an `open_count` of one more means the circuit ended closed.
    rintro ⟨hstill, -, hcount⟩
    by_contra hn
    obtain ⟨-, hend⟩ := retryLoop_of_fails policy (n + 1) b hfail hsleep n (some e) s' hclear
    have hlow := hend (.inr (Nat.pos_of_ne_zero hn)) (by rw [hcount, hs'])
    exact absurd hstill (not_le.mpr hlow)
  · rintro rfl
    refine ⟨?_, hclear, ?_⟩
    · simpa [retryLoop, hs'] using hopen
    · simp [retryLoop, hs']

/-- A call with the default policy whose only attempt times out at `t`. -/
def timedOutCall (t : ℚ) : CallEnv × ExporterPolicy :=
  ({ startedAt := t, ops := fun _ => { ending := .timeoutError, recordedAt := t } }, {})

/-- The circuit tripped at time 3; its cooldown is 60 seconds. -/
def trippedState : SignalState :=
  runCalls {} [timedOutCall 1, timedOutCall 2, timedOutCall 3]

/-- A probe at time 100 whose first attempt times out and whose other attempts fail
otherwise. -/
def failingProbe : CallEnv where
  startedAt := 100
  ops i := if i = 0 then { ending := .timeoutError, recordedAt := 101 }
    else { ending := .exception, recordedAt := 102 }

theorem failingProbe_fails (policy : ExporterPolicy) (s : SignalState) :
    FailsThroughout failingProbe policy s where
  quiet h := by
    obtain ⟨s', answer, hlimits, -, hanswer⟩ := applyEventLoopLimits_cases false false policy
      (policyAttempts policy) policy.backoffSeconds (max 0 policy.timeoutSeconds) (probing s)
    rcases hanswer with ⟨-, hraise⟩ | rfl
    · cases hraise
    · simp only [WarningEscalates, failingProbe, hlimits] at h
      cases h
  fails i := by
    by_cases hi : i = 0
    · exact .inl (by simp [failingProbe, hi])
    · exact .inr (by simp [failingProbe, hi])
  sleeps i := by
    by_cases hi : i = 0 <;> simp [failingProbe, hi]

/-- The circuit is open and its cooldown has elapsed, whatever the policy retries. -/
theorem failingProbe_admitted (retries : ℤ) :
    AdmittedAsProbe failingProbe { retries } trippedState :=
  ⟨by norm_num, { trippedState.circuit with halfOpenProbing := true }, by decide +kernel⟩

end Telemetry.Breaker.Python
