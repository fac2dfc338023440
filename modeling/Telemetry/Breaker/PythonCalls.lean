import Telemetry.Lib.OwnerlessFlag
import Telemetry.Breaker.PythonProbe

/-!
# Concurrent calls on one signal

Any number of `run_with_resilience` calls interleaved. A step of one call is what it
does up to and including its next lock-held section: the breaker check, the event-loop
limits, one attempt with its record. A `BaseException` may end a call at any point.
The clock does not go back.

Seen through `System.flag` the system is an ownerless flag: admission as the probe
claims it, every recorded outcome lowers it, whichever call it belongs to, and leaving
without a record abandons it.

## Main definitions

* `System`, `Label`, `machine` — the interleaved calls.
* `System.flag`, `step_flag` — the abstraction to `OwnerlessFlag`, step by step.
* `at_most_one_probe`, `raised_flag_has_probe` — what survives, and under which condition.
* `run_alone` — a call that runs alone does what `runWithResilience` says.
-/

namespace Telemetry.Breaker.Python

open Telemetry.Lib

/-- How a call got past the breaker check. -/
inductive Role
  /-- `timeout_seconds` is not positive: the breaker was not asked. -/
  | ungated
  | closed
  | probe
  deriving DecidableEq, Repr

/-- Where an admitted call stands. -/
inductive Phase
  /-- Before `_apply_event_loop_limits`. -/
  | admitted
  /-- In the retry loop, about to make this attempt. -/
  | looping (attempts : ℕ) (backoffSeconds : ℚ) (attempt : ℕ)
  deriving DecidableEq, Repr

/-- A running call. -/
structure Call where
  policy : ExporterPolicy
  inLoop : Bool
  role : Role
  phase : Phase := .admitted
  /-- Whether one of its attempts has been recorded. -/
  recorded : Bool := false
  deriving DecidableEq, Repr

/-- What became of a call. -/
inductive Status
  | idle
  | running (c : Call)
  | left (e : CallExit)
  deriving DecidableEq, Repr

/-- An unfinished probe: admitted as the probe, nothing recorded yet. -/
def Status.UnfinishedProbe : Status → Prop
  | .running c => c.role = .probe ∧ c.recorded = false
  | _ => False

/-- One signal and all calls on it. -/
structure System (ι : Type) where
  signal : SignalState := {}
  /-- The last clock reading. -/
  now : ℚ := 0
  calls : ι → Status := fun _ => .idle

/-- What happens next, and to which call. -/
inductive Label (ι : Type)
  /-- The call starts and runs its breaker check at time `t`. -/
  | start (i : ι) (policy : ExporterPolicy) (inLoop : Bool) (t : ℚ)
  /-- The call applies the event-loop limits. -/
  | limits (i : ι) (warningsRaise : Bool)
  /-- The call makes its next attempt and records it. -/
  | attempt (i : ι) (a : Attempt)
  /-- A `BaseException` ends the call. -/
  | interrupt (i : ι)

variable {ι : Type} [DecidableEq ι]

namespace System

/-- The signal's variables and one call's status change. -/
def put (s : System ι) (i : ι) (signal : SignalState) (st : Status) : System ι :=
  { s with signal := signal, calls := Function.update s.calls i st }

/-- The breaker check of a new call. -/
def start (s : System ι) (i : ι) (policy : ExporterPolicy) (inLoop : Bool) (t : ℚ) : System ι :=
  if 0 < max 0 policy.timeoutSeconds then
    match checkCircuitBreaker t s.signal.circuit with
    | .error e => s.put i s.signal (.left (.raised e))
    | .ok (.rejected, c) =>
        s.put i (recordExportFailure { s.signal with circuit := c })
          (.left (if policy.failOpen then .none else .raised .circuitOpen))
    | .ok (.closed, c) =>
        s.put i { s.signal with circuit := c }
          (.running ⟨policy, inLoop, .closed, .admitted, false⟩)
    | .ok (.probe, c) =>
        s.put i { s.signal with circuit := c } (.running ⟨policy, inLoop, .probe, .admitted, false⟩)
  else
    s.put i s.signal (.running ⟨policy, inLoop, .ungated, .admitted, false⟩)

/-- The event-loop limits of an admitted call. -/
def limits (s : System ι) (i : ι) (c : Call) (warningsRaise : Bool) : System ι :=
  match applyEventLoopLimits c.inLoop warningsRaise c.policy (policyAttempts c.policy)
      c.policy.backoffSeconds (max 0 c.policy.timeoutSeconds) s.signal with
  | (signal, .error e) => s.put i signal (.left (.raised e))
  | (signal, .ok (attempts, backoffSeconds)) =>
      s.put i signal (.running { c with phase := .looping attempts backoffSeconds 0 })

/-- One iteration of a call's retry loop. -/
def attempt (s : System ι) (i : ι) (c : Call) (attempts : ℕ) (backoffSeconds : ℚ) (n : ℕ)
    (a : Attempt) : System ι :=
  match loopBody n attempts backoffSeconds a s.signal with
  | (signal, .leave e) => s.put i signal (.left e)
  | (signal, .next e) =>
      if n + 1 < attempts then
        s.put i signal
          (.running { c with phase := .looping attempts backoffSeconds (n + 1), recorded := true })
      else
        s.put i signal (.left (afterLoop c.policy (some e)))

end System

/-- The interleaved calls as a machine. -/
def machine (ι : Type) [DecidableEq ι] : Machine (System ι) (Label ι) where
  init := {}
  step s
    | .start i policy inLoop t =>
        if s.calls i = .idle ∧ s.now ≤ t then
          some (({ s with now := t } : System ι).start i policy inLoop t)
        else none
    | .limits i warningsRaise =>
        match s.calls i with
        | .running c => if c.phase = .admitted then some (s.limits i c warningsRaise) else none
        | _ => none
    | .attempt i a =>
        match s.calls i with
        | .running c =>
            match c.phase with
            | .looping attempts backoffSeconds n =>
                if s.now ≤ a.recordedAt then
                  some (({ s with now := a.recordedAt } : System ι).attempt i c attempts
                    backoffSeconds n a)
                else none
            | .admitted => none
        | _ => none
    | .interrupt i =>
        match s.calls i with
        | .running _ => some (s.put i s.signal (.left (.raised .baseException)))
        | _ => none

/-! ## What a step does -/

/-- The enabled steps, one clause a label. -/
theorem step_cases {s s' : System ι} {l : Label ι} (h : (machine ι).step s l = some s') :
    (∃ i policy inLoop t, l = .start i policy inLoop t ∧ s.calls i = .idle ∧ s.now ≤ t ∧
      s' = ({ s with now := t } : System ι).start i policy inLoop t) ∨
    (∃ i c w, l = .limits i w ∧ s.calls i = .running c ∧ c.phase = .admitted ∧
      s' = s.limits i c w) ∨
    (∃ i c a attempts b n, l = .attempt i a ∧ s.calls i = .running c ∧
      c.phase = .looping attempts b n ∧ s.now ≤ a.recordedAt ∧
      s' = ({ s with now := a.recordedAt } : System ι).attempt i c attempts b n a) ∨
    (∃ i c, l = .interrupt i ∧ s.calls i = .running c ∧
      s' = s.put i s.signal (.left (.raised .baseException))) := by
  cases l with
  | start i policy inLoop t =>
      simp only [machine, Option.ite_none_right_eq_some, Option.some.injEq] at h
      exact .inl ⟨i, policy, inLoop, t, rfl, h.1.1, h.1.2, h.2.symm⟩
  | limits i w =>
      simp only [machine] at h
      split at h
      · rename_i c hc
        simp only [Option.ite_none_right_eq_some, Option.some.injEq] at h
        exact .inr (.inl ⟨i, c, w, rfl, hc, h.1, h.2.symm⟩)
      · cases h
  | attempt i a =>
      simp only [machine] at h
      split at h
      · rename_i c hc
        split at h
        · rename_i attempts b n hphase
          simp only [Option.ite_none_right_eq_some, Option.some.injEq] at h
          exact .inr (.inr (.inl ⟨i, c, a, attempts, b, n, rfl, hc, hphase, h.1, h.2.symm⟩))
        · cases h
      · cases h
  | interrupt i =>
      simp only [machine] at h
      split at h
      · rename_i c hc
        simp only [Option.some.injEq] at h
        exact .inr (.inr (.inr ⟨i, c, rfl, hc, h.symm⟩))
      · cases h

/-! ## The abstraction to an ownerless flag -/

/-- The probe flag and the unfinished probes. -/
def System.flag (s : System ι) : OwnerlessFlag ι :=
  .ofParties Status.UnfinishedProbe s.signal.circuit.halfOpenProbing s.calls

/-- The call the label is about. -/
def Label.call : Label ι → ι
  | .start i .. => i
  | .limits i _ => i
  | .attempt i _ => i
  | .interrupt i => i

/-- The event-loop limits of this call escalate a warning. -/
def Status.Escalates (signal : SignalState) (warningsRaise : Bool) : Status → Prop
  | .running c =>
      (applyEventLoopLimits c.inLoop warningsRaise c.policy (policyAttempts c.policy)
        c.policy.backoffSeconds (max 0 c.policy.timeoutSeconds) signal).2 = .error .runtimeWarning
  | _ => False

/-- The label makes its call leave with nothing recorded by this step: an escalated
warning, a `BaseException` out of the attempt, or one from elsewhere. -/
def Abandons (s : System ι) : Label ι → Prop
  | .start .. => False
  | .limits i w => (s.calls i).Escalates s.signal w
  | .attempt _ a => a.ending = .baseException
  | .interrupt _ => True

/-- The label records an outcome of its call. -/
def Records : Label ι → Prop
  | .attempt _ a => a.ending ≠ .baseException
  | _ => False

/-- The abstract events a step can be seen as. -/
def AbstractStep (s : System ι) (l : Label ι) (s' : System ι) : Prop :=
  s'.flag = s.flag ∨ ∃ e, (OwnerlessFlag.machine ι).step s.flag e = some s'.flag ∧
    match e with
    | .claim _ => True
    | .report i => l.call = i ∧ Records l
    | .quit i => l.call = i ∧ Abandons s l

theorem start_flag {s : System ι} {i : ι} (hidle : s.calls i = .idle) (policy : ExporterPolicy)
    (inLoop : Bool) (t : ℚ) :
    (s.start i policy inLoop t).flag = s.flag ∨
      s.signal.circuit.halfOpenProbing = false ∧
        (s.start i policy inLoop t).flag = ⟨true, insert i s.flag.holders⟩ := by
  have hnot : ¬ (s.calls i).UnfinishedProbe := by simp [hidle, Status.UnfinishedProbe]
  have hsame : ∀ (signal : SignalState) (st : Status), ¬ st.UnfinishedProbe →
      signal.circuit = s.signal.circuit → (s.put i signal st).flag = s.flag := by
    intro signal st hst hcircuit
    simp only [System.flag, System.put, hcircuit]
    exact OwnerlessFlag.ofParties_update_of_iff (iff_of_false hst hnot)
  simp only [System.start]
  split
  case isFalse => exact .inl (hsame _ _ (by simp [Status.UnfinishedProbe]) rfl)
  case isTrue =>
    cases hcheck : checkCircuitBreaker t s.signal.circuit with
    | error e => exact .inl (hsame _ _ (by simp [Status.UnfinishedProbe]) rfl)
    | ok answer =>
        obtain ⟨gate, c⟩ := answer
        obtain ⟨rfl, rfl, -⟩ | ⟨rfl, rfl, -⟩ | ⟨rfl, rfl, hclear, -⟩ := check_cases hcheck
        · exact .inl (hsame _ _ (by simp [Status.UnfinishedProbe]) rfl)
        · exact .inl (hsame _ _ (by simp [Status.UnfinishedProbe]) rfl)
        · exact .inr ⟨hclear, OwnerlessFlag.ofParties_update_of_holds ⟨rfl, rfl⟩⟩

theorem attempt_flag {s : System ι} {i : ι} {c : Call} (attempts : ℕ) (b : ℚ) (n : ℕ)
    (a : Attempt) :
    (s.attempt i c attempts b n a).flag =
      if a.ending = .baseException then ⟨s.signal.circuit.halfOpenProbing, s.flag.holders \ {i}⟩
      else ⟨false, s.flag.holders \ {i}⟩ := by
  have hprobing := recordEnding_probing a s.signal.circuit
  rw [← loopBody_circuit n attempts b] at hprobing
  have hresult : ∀ signal, (loopBody n attempts b a s.signal).1 = signal →
      (⟨signal.circuit.halfOpenProbing, s.flag.holders \ {i}⟩ : OwnerlessFlag ι) =
        if a.ending = .baseException then ⟨s.signal.circuit.halfOpenProbing, s.flag.holders \ {i}⟩
        else ⟨false, s.flag.holders \ {i}⟩ := by
    rintro _ rfl
    rw [hprobing]
    split_ifs with hbase <;> simp [hbase]
  simp only [System.attempt]
  split
  · rename_i signal e heq
    rw [← hresult signal (by rw [heq])]
    exact OwnerlessFlag.ofParties_update_of_not (by simp [Status.UnfinishedProbe])
  · rename_i signal e heq
    split
    all_goals
      rw [← hresult signal (by rw [heq])]
      exact OwnerlessFlag.ofParties_update_of_not (by simp [Status.UnfinishedProbe])

theorem limits_flag {s : System ι} {i : ι} {c : Call} (hc : s.calls i = .running c)
    (w : Bool) :
    (s.limits i c w).flag = s.flag ∨
      (s.limits i c w).flag = ⟨s.signal.circuit.halfOpenProbing, s.flag.holders \ {i}⟩ ∧
        Abandons s (.limits i w) := by
  obtain ⟨signal, answer, hlimits, hcircuit, hanswer⟩ := applyEventLoopLimits_cases c.inLoop w
    c.policy (policyAttempts c.policy) c.policy.backoffSeconds (max 0 c.policy.timeoutSeconds)
    s.signal
  simp only [System.limits, hlimits]
  rcases hanswer with ⟨rfl, -⟩ | rfl
  · refine .inr ⟨?_, by simp only [Abandons, Status.Escalates, hc, hlimits]⟩
    rw [← hcircuit]
    exact OwnerlessFlag.ofParties_update_of_not (by simp [Status.UnfinishedProbe])
  · left
    simp only [System.flag, System.put, hcircuit]
    exact OwnerlessFlag.ofParties_update_of_iff (by simp [Status.UnfinishedProbe, hc])

/-- **Every step is an event of the ownerless flag, or none.** -/
theorem step_flag {s s' : System ι} {l : Label ι} (h : (machine ι).step s l = some s') :
    AbstractStep s l s' := by
  obtain ⟨i, policy, inLoop, t, rfl, hidle, -, rfl⟩ | ⟨i, c, w, rfl, hc, -, rfl⟩ |
    ⟨i, c, a, attempts, b, n, rfl, hc, hphase, -, rfl⟩ | ⟨i, c, rfl, hc, rfl⟩ := step_cases h
  · obtain hsame | ⟨hclear, hclaim⟩ :=
      start_flag (s := { s with now := t }) hidle policy inLoop t
    · exact .inl hsame
    · refine .inr ⟨.claim i, ?_, trivial⟩
      rw [hclaim]
      simpa [OwnerlessFlag.machine, System.flag, OwnerlessFlag.ofParties] using hclear
  · obtain hsame | ⟨hquit, hab⟩ := limits_flag hc w
    · exact .inl hsame
    · exact .inr ⟨.quit i, by rw [hquit]; rfl, rfl, hab⟩
  · have hflag :=
      attempt_flag (s := { s with now := a.recordedAt }) (i := i) (c := c) attempts b n a
    by_cases hbase : a.ending = .baseException
    · exact .inr ⟨.quit i, by rw [hflag, if_pos hbase]; rfl, rfl, hbase⟩
    · exact .inr ⟨.report i, by rw [hflag, if_neg hbase]; rfl, rfl, hbase⟩
  · refine .inr ⟨.quit i, ?_, rfl, trivial⟩
    exact congrArg some
      (OwnerlessFlag.ofParties_update_of_not (by simp [Status.UnfinishedProbe])).symm

/-- A guard of the system that implies one of the flag lets the simulation rule apply. -/
theorem flag_reachable {G : System ι → Label ι → Prop}
    {H : OwnerlessFlag ι → OwnerlessFlag.Event ι → Prop}
    (hclaim : ∀ f i, H f (.claim i))
    (hreport : ∀ s l, G s l → Records l → H s.flag (.report l.call))
    (hquit : ∀ s l, G s l → Abandons s l → H s.flag (.quit l.call))
    {s : System ι} (hs : (machine ι).Reachable G s) :
    (OwnerlessFlag.machine ι).Reachable H s.flag := by
  refine hs.map_stutter System.flag ?_ ?_
  · simp [System.flag, OwnerlessFlag.ofParties, machine, OwnerlessFlag.machine,
      Status.UnfinishedProbe]
  · intro s l s' hg h
    obtain hsame | ⟨e, he, hmatch⟩ := step_flag h
    · exact .inl hsame
    · refine .inr ⟨e, ?_, he⟩
      cases e with
      | claim i => exact hclaim _ i
      | report i =>
          obtain ⟨rfl, hrec⟩ := hmatch
          exact hreport s l hg hrec
      | quit i =>
          obtain ⟨rfl, hab⟩ := hmatch
          exact hquit s l hg hab

/-! ## A call that runs alone -/

/-- The clock readings of a call, in order and from `now` on. -/
structure Clocked (now : ℚ) (env : CallEnv) : Prop where
  start_le : now ≤ env.startedAt
  first_le : env.startedAt ≤ (env.ops 0).recordedAt
  next_le : ∀ n, (env.ops n).recordedAt ≤ (env.ops (n + 1)).recordedAt

/-- Steps of call `i` alone take `s` to a state with this signal, in which the call has
left with `e` and every other call is where it was. -/
def RunsTo (s : System ι) (i : ι) (signal : SignalState) (e : CallExit) : Prop :=
  ∃ ls s', (∀ l ∈ ls, l.call = i) ∧ (machine ι).runFrom s ls = some s' ∧
    s'.signal = signal ∧ s'.calls = Function.update s.calls i (.left e)

theorem RunsTo.of_put {s : System ι} {i : ι} {signal : SignalState} {e : CallExit} :
    RunsTo (s.put i signal (.left e)) i signal e :=
  ⟨[], _, by simp, rfl, rfl, by simp [System.put]⟩

theorem RunsTo.cons {s t : System ι} {i : ι} {l : Label ι} {signal : SignalState} {e : CallExit}
    (hl : l.call = i) (hstep : (machine ι).step s l = some t) (st : Status)
    (hcalls : t.calls = Function.update s.calls i st) (h : RunsTo t i signal e) :
    RunsTo s i signal e := by
  obtain ⟨ls, s', hown, hrun, hsignal, hend⟩ := h
  refine ⟨l :: ls, s', by simpa [hl] using hown, ?_, hsignal, by rw [hend, hcalls]; simp⟩
  rw [Machine.runFrom_cons, hstep]
  exact hrun

/-- From inside its loop a call that runs alone does what `retryLoop` says. -/
theorem runsTo_retryLoop {ops : ℕ → Attempt}
    (hops : ∀ n, (ops n).recordedAt ≤ (ops (n + 1)).recordedAt) (remaining : ℕ) :
    ∀ (s : System ι) (i : ι) (c : Call) (n : ℕ) (b : ℚ) (err : Option Raised),
      s.calls i = .running c → c.phase = .looping (n + (remaining + 1)) b n →
      s.now ≤ (ops n).recordedAt →
      RunsTo s i
        (retryLoop c.policy (n + (remaining + 1)) b ops (remaining + 1) err s.signal).1
        (retryLoop c.policy (n + (remaining + 1)) b ops (remaining + 1) err s.signal).2 := by
  induction remaining with
  | zero =>
      intro s i c n b err hc hphase hnow
      have hstep : (machine ι).step s (.attempt i (ops n)) = some
          (({ s with now := (ops n).recordedAt } : System ι).attempt i c (n + 1) b n (ops n)) := by
        simp only [machine, hc, hphase, if_pos hnow]
      have hlast : ¬ n + 1 < n + 1 := lt_irrefl _
      simp only [retryLoop, Nat.zero_add, Nat.add_sub_cancel]
      simp only [System.attempt, if_neg hlast] at hstep
      split <;> rename_i heq <;> rw [heq] at hstep
      all_goals exact .cons rfl hstep _ rfl .of_put
  | succ remaining ih =>
      intro s i c n b err hc hphase hnow
      have hstep : (machine ι).step s (.attempt i (ops n)) = some
          (({ s with now := (ops n).recordedAt } : System ι).attempt i c
            (n + (remaining + 1 + 1)) b n (ops n)) := by
        simp only [machine, hc, hphase, if_pos hnow]
      have hmore : n + 1 < n + (remaining + 1 + 1) := by omega
      have hn : n + (remaining + 1 + 1) - (remaining + 1 + 1) = n := by omega
      rw [retryLoop]
      simp only [hn]
      simp only [System.attempt, if_pos hmore] at hstep
      split <;> rename_i heq <;> rw [heq] at hstep
      · exact .cons rfl hstep _ rfl .of_put
      · rename_i signal e
        have hcount : n + (remaining + 1 + 1) = n + 1 + (remaining + 1) := by omega
        refine .cons rfl hstep _ rfl ?_
        rw [hcount]
        exact ih _ i { c with phase := .looping (n + 1 + (remaining + 1)) b (n + 1)
                              recorded := true } (n + 1) b (some e)
          (by simp [System.put]) rfl (hops n)

/-- Once admitted, a call that runs alone does what `runAdmitted` says. -/
theorem runsTo_runAdmitted {s : System ι} {i : ι} {env : CallEnv} {policy : ExporterPolicy}
    (role : Role) (hc : s.calls i = .running ⟨policy, env.inLoop, role, .admitted, false⟩)
    (hnow : s.now ≤ (env.ops 0).recordedAt)
    (hops : ∀ n, (env.ops n).recordedAt ≤ (env.ops (n + 1)).recordedAt) :
    RunsTo s i (runAdmitted env policy (max 0 policy.timeoutSeconds) s.signal).1
      (runAdmitted env policy (max 0 policy.timeoutSeconds) s.signal).2 := by
  have hstep : (machine ι).step s (.limits i env.warningsRaise) = some
      (s.limits i ⟨policy, env.inLoop, role, .admitted, false⟩ env.warningsRaise) := by
    simp only [machine, hc, if_true]
  obtain ⟨signal, answer, hlimits, -, hanswer⟩ := applyEventLoopLimits_cases env.inLoop
    env.warningsRaise policy (policyAttempts policy) policy.backoffSeconds
    (max 0 policy.timeoutSeconds) s.signal
  have hloop : ∀ (attempts : ℕ) (b : ℚ), 1 ≤ attempts → answer = .ok (attempts, b) →
      RunsTo s i (retryLoop policy attempts b env.ops attempts none signal).1
        (retryLoop policy attempts b env.ops attempts none signal).2 := by
    rintro attempts b hone rfl
    obtain ⟨k, rfl⟩ : ∃ k, attempts = k + 1 := ⟨attempts - 1, by omega⟩
    simp only [System.limits, hlimits] at hstep
    refine .cons rfl hstep _ rfl ?_
    have hrun := runsTo_retryLoop hops k
      (s.put i signal (.running ⟨policy, env.inLoop, role, .looping (k + 1) b 0, false⟩)) i
      ⟨policy, env.inLoop, role, .looping (k + 1) b 0, false⟩ 0 b none
      (by simp [System.put]) (by simp) hnow
    simp only [Nat.zero_add] at hrun
    exact hrun
  simp only [runAdmitted, hlimits]
  rcases hanswer with ⟨rfl, -⟩ | hok
  · simp only [System.limits, hlimits] at hstep
    exact .cons rfl hstep _ rfl .of_put
  · split_ifs at hok
    · subst hok
      exact hloop 1 0 le_rfl rfl
    · subst hok
      exact hloop _ _ (one_le_policyAttempts policy) rfl

/-- **A call that runs alone** leaves the signal, and ends, as `runWithResilience` says. -/
theorem run_alone {s : System ι} {i : ι} {env : CallEnv} (policy : ExporterPolicy)
    (hidle : s.calls i = .idle) (hclock : Clocked s.now env) :
    RunsTo s i (runWithResilience env policy s.signal).1
      (runWithResilience env policy s.signal).2 := by
  have hstep : (machine ι).step s (.start i policy env.inLoop env.startedAt) = some
      (({ s with now := env.startedAt } : System ι).start i policy env.inLoop env.startedAt) := by
    simp only [machine, hidle, hclock.start_le, true_and, if_true]
  -- The running cases differ in the role and the circuit the check left.
  have hrunning : ∀ (role : Role) (signal : SignalState),
      (machine ι).step s (.start i policy env.inLoop env.startedAt) = some
        (({ s with now := env.startedAt } : System ι).put i signal
          (.running ⟨policy, env.inLoop, role, .admitted, false⟩)) →
      RunsTo s i (runAdmitted env policy (max 0 policy.timeoutSeconds) signal).1
        (runAdmitted env policy (max 0 policy.timeoutSeconds) signal).2 := by
    intro role signal h
    refine .cons rfl h _ rfl ?_
    exact runsTo_runAdmitted role
      (s := ({ s with now := env.startedAt } : System ι).put i signal
        (.running ⟨policy, env.inLoop, role, .admitted, false⟩))
      (by simp [System.put]) hclock.first_le hclock.next_le
  simp only [System.start] at hstep
  simp only [runWithResilience]
  split
  case isFalse hzero =>
    rw [if_neg hzero] at hstep
    exact hrunning _ _ hstep
  case isTrue hpos =>
    rw [if_pos hpos] at hstep
    cases hcheck : checkCircuitBreaker env.startedAt s.signal.circuit with
    | error e =>
        rw [hcheck] at hstep
        exact .cons rfl hstep _ rfl .of_put
    | ok answer =>
        obtain ⟨gate, c⟩ := answer
        rw [hcheck] at hstep
        cases gate with
        | rejected => exact .cons rfl hstep _ rfl .of_put
        | closed => exact hrunning _ _ hstep
        | probe => exact hrunning _ _ hstep

/-! ## At most one probe -/

/-- An outcome recorded while the probe flag is set is the unfinished probe's own. -/
def RecordsOwnProbe (s : System ι) (l : Label ι) : Prop :=
  Records l → s.signal.circuit.halfOpenProbing = true → (s.calls l.call).UnfinishedProbe

/-- **At most one probe**: in a run in which no other call's outcome is recorded while
the probe flag is set, two calls are never both unfinished probes, and while one is, the
check admits no other. -/
theorem at_most_one_probe {s : System ι} (hs : (machine ι).Reachable RecordsOwnProbe s) :
    (∀ i j, (s.calls i).UnfinishedProbe → (s.calls j).UnfinishedProbe → i = j) ∧
      ∀ i, (s.calls i).UnfinishedProbe →
        ∀ t c, checkCircuitBreaker t s.signal.circuit ≠ .ok (.probe, c) := by
  have hflag : (OwnerlessFlag.machine ι).Reachable OwnerlessFlag.ReportsOwn s.flag :=
    flag_reachable (fun _ _ => trivial) (fun _ _ hg hrec => hg hrec) (fun _ _ _ _ => trivial) hs
  have hexcl := OwnerlessFlag.exclusive_of_reachable hflag
  refine ⟨fun i j hi hj => hexcl.subsingleton hi hj, ?_⟩
  intro i hi t c hadmitted
  have hset : s.signal.circuit.halfOpenProbing = true := hexcl.raised_of_holder ⟨i, hi⟩
  obtain ⟨hg, -⟩ | ⟨hg, -⟩ | ⟨-, -, hclear, -⟩ := check_cases hadmitted
  · cases hg
  · cases hg
  · simp [hset] at hclear

/-- The decision procedures the runs below are evaluated with. -/
instance (st : Status) : Decidable st.UnfinishedProbe :=
  match st with
  | .idle => inferInstanceAs (Decidable False)
  | .running c => inferInstanceAs (Decidable (c.role = .probe ∧ c.recorded = false))
  | .left _ => inferInstanceAs (Decidable False)

instance (l : Label ι) : Decidable (Records l) :=
  match l with
  | .start .. => inferInstanceAs (Decidable False)
  | .limits .. => inferInstanceAs (Decidable False)
  | .attempt _ a => inferInstanceAs (Decidable (a.ending ≠ .baseException))
  | .interrupt _ => inferInstanceAs (Decidable False)

instance (s : System ι) (l : Label ι) : Decidable (RecordsOwnProbe s l) :=
  inferInstanceAs (Decidable (_ → _ → _))

/-- A policy that lets a call run for ten minutes. -/
def patientPolicy : ExporterPolicy := { timeoutSeconds := 600 }

/-- Call `i` starts at `t` and its only attempt times out there. -/
def timesOut (i : ℕ) (t : ℚ) : List (Label ℕ) :=
  [.start i {} false t, .limits i false, .attempt i { ending := .timeoutError, recordedAt := t }]

/-- Calls 1, 2 and 3 trip the circuit at time 3, and call 4 is admitted as the probe. -/
def probeRun : List (Label ℕ) :=
  timesOut 1 1 ++ timesOut 2 2 ++ timesOut 3 3 ++ [.start 4 patientPolicy false 64]

theorem at_most_one_probe_probeRun : ∃ s, (machine ℕ).run probeRun = some s ∧
    (s.calls 4).UnfinishedProbe ∧
    ((∀ i j, (s.calls i).UnfinishedProbe → (s.calls j).UnfinishedProbe → i = j) ∧
      ∀ i, (s.calls i).UnfinishedProbe →
        ∀ t c, checkCircuitBreaker t s.signal.circuit ≠ .ok (.probe, c)) := by
  have hguard : (machine ℕ).Guarded RecordsOwnProbe (machine ℕ).init probeRun := by decide
  obtain ⟨s, hrun, hprobe⟩ := Machine.exists_of_run_any (M := machine ℕ)
    (P := fun s => (s.calls 4).UnfinishedProbe) probeRun (by decide +kernel)
  exact ⟨s, hrun, hprobe, at_most_one_probe (Machine.reachable_of_run hguard hrun)⟩

/-- Call 0 was admitted while the circuit was closed and fails while call 4 is probing.
That clears the flag and re-opens the circuit, so that call 5 becomes a second probe. -/
def staleRun : List (Label ℕ) :=
  [.start 0 patientPolicy false 0, .limits 0 false] ++ probeRun ++
    [.limits 4 false, .attempt 0 { ending := .exception, recordedAt := 65 },
      .start 5 patientPolicy false 186]

theorem two_probes_staleRun : ∃ s, (machine ℕ).run staleRun = some s ∧
    (s.calls 4).UnfinishedProbe ∧ (s.calls 5).UnfinishedProbe :=
  Machine.exists_of_run_any staleRun (by decide +kernel)

/-! ## No flag without a probe -/

/-- An unfinished probe does not leave without recording an outcome. -/
def ProbesRecord (s : System ι) (l : Label ι) : Prop :=
  Abandons s l → ¬ (s.calls l.call).UnfinishedProbe

/-- **A raised flag has a probe**: in a run in which no unfinished probe leaves without a
record, whenever the flag is set some unfinished probe is running. -/
theorem raised_flag_has_probe {s : System ι} (hs : (machine ι).Reachable ProbesRecord s)
    (hset : s.signal.circuit.halfOpenProbing = true) : ∃ i, (s.calls i).UnfinishedProbe :=
  OwnerlessFlag.attended_of_reachable
    (flag_reachable (fun _ _ => trivial) (fun _ _ _ _ => trivial) (fun _ _ hg hab => hg hab) hs)
    hset

/-- Calls are rejected from now on exactly if the circuit is open and the flag is set. -/
theorem rejected_forever_iff (now : ℚ) {c : Circuit} :
    (∀ t, now ≤ t → checkCircuitBreaker t c = .ok (.rejected, c)) ↔
      circuitBreakerThreshold ≤ c.consecutiveTimeouts ∧ c.halfOpenProbing = true := by
  constructor
  · intro h
    -- Later than any cooldown, only the flag can make the check reject.
    have hlate := h (max now (c.circuitTrippedAt + 1024)) (le_max_left _ _)
    by_cases hclosed : c.consecutiveTimeouts < circuitBreakerThreshold
    · rw [check_of_closed _ hclosed] at hlate
      cases hlate
    refine ⟨not_lt.mp hclosed, ?_⟩
    by_contra hset
    rw [Bool.not_eq_true] at hset
    by_cases hcount : c.openCount < 1024
    · have helapsed : ¬ max now (c.circuitTrippedAt + 1024) - c.circuitTrippedAt
          < min (30 * 2 ^ c.openCount) 1024 := by
        have h1 := le_max_right now (c.circuitTrippedAt + 1024)
        have h2 := min_le_right (30 * 2 ^ c.openCount : ℚ) 1024
        linarith
      rw [check_of_open _ hclosed hset hcount, if_neg helapsed] at hlate
      cases hlate
    · rw [check_of_overflow _ hclosed hset hcount] at hlate
      cases hlate
  · rintro ⟨hopen, hset⟩ t -
    exact check_of_probing t (not_lt.mpr hopen) hset

/-- **The probe slot is released** exactly when it should be: a probe that runs alone
leaves the flag clear if and only if no warning is escalated before its first attempt and
that attempt does not end in a `BaseException`; and in a run of concurrent calls in which
every unfinished probe leaves with a record, calls are rejected for good only while a
probe is running. -/
theorem probe_slot_released (ι : Type) [DecidableEq ι] :
    (∀ env policy s, AdmittedAsProbe env policy s →
      ((runWithResilience env policy s).1.circuit.halfOpenProbing = false ↔
        ¬ WarningEscalates env policy (probing s) ∧ (env.ops 0).ending ≠ .baseException)) ∧
    ∀ s : System ι, (machine ι).Reachable ProbesRecord s →
      (∀ t, s.now ≤ t →
        checkCircuitBreaker t s.signal.circuit = .ok (.rejected, s.signal.circuit)) →
        ∃ i, (s.calls i).UnfinishedProbe := by
  constructor
  · intro env policy s hprobe
    rw [← Bool.not_eq_true, probe_leaves_flag_iff hprobe, not_or]
  · intro s hs hrejected
    exact raised_flag_has_probe hs ((rejected_forever_iff s.now).mp hrejected).2

instance (signal : SignalState) (w : Bool) (st : Status) : Decidable (st.Escalates signal w) :=
  match st with
  | .idle => inferInstanceAs (Decidable False)
  | .running _ => inferInstanceAs (Decidable (Prod.snd _ = _))
  | .left _ => inferInstanceAs (Decidable False)

instance (s : System ι) (l : Label ι) : Decidable (Abandons s l) :=
  match l with
  | .start .. => inferInstanceAs (Decidable False)
  | .limits i w => inferInstanceAs (Decidable ((s.calls i).Escalates s.signal w))
  | .attempt _ a => inferInstanceAs (Decidable (a.ending = .baseException))
  | .interrupt _ => inferInstanceAs (Decidable True)

instance (s : System ι) (l : Label ι) : Decidable (ProbesRecord s l) :=
  inferInstanceAs (Decidable (_ → _))

/-- While call 4 is probing every call is rejected, and call 4 is the reason. -/
theorem probe_slot_released_probeRun : ∃ s, (machine ℕ).run probeRun = some s ∧
    (∀ t, s.now ≤ t →
      checkCircuitBreaker t s.signal.circuit = .ok (.rejected, s.signal.circuit)) ∧
    ∃ i, (s.calls i).UnfinishedProbe := by
  have hguard : (machine ℕ).Guarded ProbesRecord (machine ℕ).init probeRun := by decide
  obtain ⟨s, hrun, hstuck⟩ := Machine.exists_of_run_any (M := machine ℕ)
    (P := fun s => circuitBreakerThreshold ≤ s.signal.circuit.consecutiveTimeouts ∧
      s.signal.circuit.halfOpenProbing = true) probeRun (by decide +kernel)
  have hrejected := (rejected_forever_iff s.now).mpr hstuck
  exact ⟨s, hrun, hrejected,
    (probe_slot_released ℕ).2 s (Machine.reachable_of_run hguard hrun) hrejected⟩

/-- A probe interrupted in its first attempt. -/
def interruptedProbe : CallEnv where
  startedAt := 100
  ops _ := { ending := .baseException, recordedAt := 101 }

/-- The interrupted probe leaves the flag set, and every later call is rejected. -/
theorem interrupted_probe_leaks :
    AdmittedAsProbe interruptedProbe {} trippedState ∧
      (runWithResilience interruptedProbe {} trippedState).1.circuit.halfOpenProbing = true ∧
      ∀ t, checkCircuitBreaker t (runWithResilience interruptedProbe {} trippedState).1.circuit =
        .ok (.rejected, (runWithResilience interruptedProbe {} trippedState).1.circuit) := by
  refine ⟨⟨by decide, { trippedState.circuit with halfOpenProbing := true },
    by decide +kernel⟩, by decide +kernel, ?_⟩
  intro t
  exact (rejected_forever_iff t).mpr ⟨by decide +kernel, by decide +kernel⟩ t le_rfl

end Telemetry.Breaker.Python
