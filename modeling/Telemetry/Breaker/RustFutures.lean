import Telemetry.Lib.OwnerlessFlag
import Telemetry.Breaker.Rust
import Mathlib.Tactic.Linarith

/-!
# Futures of the Rust breaker

`run_with_resilience_inner` as a future that is polled from one await point to the next:
the backoff sleep, and the attempt under its timeout. Between two polls its owner may
drop it, and a panic of the operation drops it too; nothing is recorded then. The
exporter wrappers run the same futures.

Any number of such futures share one signal's `CircuitState`. Seen through
`System.flag` they are an ownerless flag in which a drop abandons the slot.

## Main definitions

* `System`, `Label`, `machine` — the futures on one signal.
* `step_flag` — each step is an event of the ownerless flag, or none.
* `probing_only_while_alive` — what holds as long as no probe is dropped unrecorded.
* `poll_alone` — a future polled to completion does what `runWithResilienceInner` says.
-/

namespace Telemetry.Breaker.Rust

open Telemetry.Lib

/-- Where a future waits. -/
inductive AwaitPoint
  /-- `tokio::time::sleep(backoff).await`. -/
  | sleep
  /-- `operation().await`, under `tokio::time::timeout` if that is active. -/
  | operation
  deriving DecidableEq, Repr

/-- A future that has been polled and is not done. -/
structure InFlight where
  policy : ExporterPolicy
  hasTokioReactor : Bool
  /-- Whether the check admitted it as the half-open probe. -/
  probe : Bool
  attempt : ℕ := 0
  point : AwaitPoint := .operation
  /-- Whether one of its attempts has been recorded. -/
  recorded : Bool := false
  deriving DecidableEq, Repr

/-- What became of a future. -/
inductive Status
  | idle
  | pending (f : InFlight)
  | ready (e : CallExit)
  | dropped
  deriving DecidableEq, Repr

/-- An admitted probe that is still alive. -/
def Status.AliveProbe : Status → Prop
  | .pending f => f.probe = true
  | _ => False

/-- An admitted probe that is alive and has recorded nothing. -/
def Status.UnfinishedProbe : Status → Prop
  | .pending f => f.probe = true ∧ f.recorded = false
  | _ => False

theorem Status.UnfinishedProbe.alive {st : Status} (h : st.UnfinishedProbe) : st.AliveProbe := by
  cases st with
  | pending f => exact h.1
  | idle => exact h
  | ready e => exact h
  | dropped => exact h

/-- One signal and all futures on it. -/
structure System (ι : Type) where
  circuit : CircuitState := {}
  /-- The last clock reading. -/
  now : ℚ := 0
  calls : ι → Status := fun _ => .idle

/-- What happens next, and to which future. -/
inductive Label (ι : Type)
  /-- The first poll, at time `t`: the breaker check. -/
  | start (i : ι) (policy : ExporterPolicy) (hasTokioReactor : Bool) (t : ℚ)
  /-- The backoff sleep is over. -/
  | wake (i : ι)
  /-- The attempt resolves and is recorded. -/
  | resolve (i : ι) (a : Attempt)
  /-- The future is dropped. -/
  | drop (i : ι)

variable {ι : Type} [DecidableEq ι]

namespace System

/-- The circuit and one future's status change. -/
def put (s : System ι) (i : ι) (circuit : CircuitState) (st : Status) : System ι :=
  { s with circuit := circuit, calls := Function.update s.calls i st }

/-- The first poll. A call that goes through an open circuit is the probe. -/
def start (s : System ι) (i : ι) (policy : ExporterPolicy) (reactor : Bool) (t : ℚ) : System ι :=
  if timeoutActive policy reactor then
    match checkAndStartProbeForWrappers t s.circuit with
    | (true, circuit) => s.put i circuit (.ready (if policy.failOpen then .none else .circuitOpen))
    | (false, circuit) =>
        s.put i circuit (.pending ⟨policy, reactor,
          decide (circuitBreakerThreshold ≤ s.circuit.consecutiveTimeouts), 0, .operation, false⟩)
  else
    s.put i s.circuit (.pending ⟨policy, reactor, false, 0, .operation, false⟩)

/-- An attempt resolves: the loop body up to the next await point. -/
def resolve (s : System ι) (i : ι) (f : InFlight) (a : Attempt) : System ι :=
  let circuit := recordOutcome a.recordedAt a.outcome s.circuit
  if a.outcome = .value then s.put i circuit (.ready .value)
  else if f.attempt + 1 < cappedAttempts f.policy.retries then
    s.put i circuit (.pending { f with
      attempt := f.attempt + 1, recorded := true
      point := if backoffSleeps f.policy f.hasTokioReactor then .sleep else .operation })
  else
    s.put i circuit (.ready (if f.policy.failOpen then .none else .lastErr))

end System

/-- The futures as a machine. A wrapper timeout takes an active timeout. -/
def machine (ι : Type) [DecidableEq ι] : Machine (System ι) (Label ι) where
  init := {}
  step s
    | .start i policy reactor t =>
        if s.calls i = .idle ∧ s.now ≤ t then
          some (({ s with now := t } : System ι).start i policy reactor t)
        else none
    | .wake i =>
        match s.calls i with
        | .pending f =>
            if f.point = .sleep then
              some (s.put i s.circuit (.pending { f with point := .operation }))
            else none
        | _ => none
    | .resolve i a =>
        match s.calls i with
        | .pending f =>
            if f.point = .operation ∧ s.now ≤ a.recordedAt ∧
                (a.outcome = .wrapperTimeout → timeoutActive f.policy f.hasTokioReactor = true) then
              some (({ s with now := a.recordedAt } : System ι).resolve i f a)
            else none
        | _ => none
    | .drop i =>
        match s.calls i with
        | .pending _ => some (s.put i s.circuit .dropped)
        | _ => none

/-! ## What a step does -/

/-- The enabled steps, one clause a label. -/
theorem step_cases {s s' : System ι} {l : Label ι} (h : (machine ι).step s l = some s') :
    (∃ i policy reactor t, l = .start i policy reactor t ∧ s.calls i = .idle ∧ s.now ≤ t ∧
      s' = ({ s with now := t } : System ι).start i policy reactor t) ∨
    (∃ i f, l = .wake i ∧ s.calls i = .pending f ∧
      s' = s.put i s.circuit (.pending { f with point := .operation })) ∨
    (∃ i f a, l = .resolve i a ∧ s.calls i = .pending f ∧
      s' = ({ s with now := a.recordedAt } : System ι).resolve i f a) ∨
    (∃ i f, l = .drop i ∧ s.calls i = .pending f ∧ s' = s.put i s.circuit .dropped) := by
  cases l with
  | start i policy reactor t =>
      simp only [machine, Option.ite_none_right_eq_some, Option.some.injEq] at h
      exact .inl ⟨i, policy, reactor, t, rfl, h.1.1, h.1.2, h.2.symm⟩
  | wake i =>
      simp only [machine] at h
      split at h
      · rename_i f hf
        simp only [Option.ite_none_right_eq_some, Option.some.injEq] at h
        exact .inr (.inl ⟨i, f, rfl, hf, h.2.symm⟩)
      · cases h
  | resolve i a =>
      simp only [machine] at h
      split at h
      · rename_i f hf
        simp only [Option.ite_none_right_eq_some, Option.some.injEq] at h
        exact .inr (.inr (.inl ⟨i, f, a, rfl, hf, h.2.symm⟩))
      · cases h
  | drop i =>
      simp only [machine] at h
      split at h
      · rename_i f hf
        simp only [Option.some.injEq] at h
        exact .inr (.inr (.inr ⟨i, f, rfl, hf, h.symm⟩))
      · cases h

/-! ## The abstraction to an ownerless flag -/

/-- The probe flag and the unfinished probes. -/
def System.flag (s : System ι) : OwnerlessFlag ι :=
  .ofParties Status.UnfinishedProbe s.circuit.halfOpenProbing s.calls

theorem start_flag {s : System ι} {i : ι} (hidle : s.calls i = .idle) (policy : ExporterPolicy)
    (reactor : Bool) (t : ℚ) :
    (s.start i policy reactor t).flag = s.flag ∨
      s.circuit.halfOpenProbing = false ∧
        (s.start i policy reactor t).flag = ⟨true, insert i s.flag.holders⟩ := by
  have hnot : ¬ (s.calls i).UnfinishedProbe := by simp [hidle, Status.UnfinishedProbe]
  have hsame : ∀ st : Status, ¬ st.UnfinishedProbe → (s.put i s.circuit st).flag = s.flag :=
    fun st hst => OwnerlessFlag.ofParties_update_of_iff (iff_of_false hst hnot)
  simp only [System.start]
  split
  case isFalse => exact .inl (hsame _ (by simp [Status.UnfinishedProbe]))
  case isTrue =>
    cases hcheck : checkAndStartProbeForWrappers t s.circuit with
    | mk reject circuit =>
        obtain ⟨rfl, rfl, hclosed⟩ | ⟨rfl, rfl, -⟩ | ⟨rfl, rfl, hclear, -, hopen⟩ :=
          check_cases hcheck
        · exact .inl (hsame _ (by simpa [Status.UnfinishedProbe] using hclosed))
        · exact .inl (hsame _ (by simp [Status.UnfinishedProbe]))
        · exact .inr ⟨hclear, OwnerlessFlag.ofParties_update_of_holds ⟨decide_eq_true hopen, rfl⟩⟩

theorem resolve_flag (s : System ι) (i : ι) (f : InFlight) (a : Attempt) :
    (s.resolve i f a).flag = ⟨false, s.flag.holders \ {i}⟩ := by
  have hput : ∀ st : Status, ¬ st.UnfinishedProbe →
      (s.put i (recordOutcome a.recordedAt a.outcome s.circuit) st).flag
        = ⟨false, s.flag.holders \ {i}⟩ := by
    intro st hst
    simp only [System.flag, System.put, recordOutcome_probing]
    exact OwnerlessFlag.ofParties_update_of_not hst
  simp only [System.resolve]
  split_ifs
  all_goals exact hput _ (by simp [Status.UnfinishedProbe])

/-- **Every step is an event of the ownerless flag, or none**; only a drop quits. -/
theorem step_flag {s s' : System ι} {l : Label ι} (h : (machine ι).step s l = some s') :
    s'.flag = s.flag ∨ ∃ e, (OwnerlessFlag.machine ι).step s.flag e = some s'.flag ∧
      ∀ i, e = .quit i → l = .drop i := by
  obtain ⟨i, policy, reactor, t, rfl, hidle, -, rfl⟩ | ⟨i, f, rfl, hf, rfl⟩ |
    ⟨i, f, a, rfl, hf, rfl⟩ | ⟨i, f, rfl, hf, rfl⟩ := step_cases h
  · obtain hsame | ⟨hclear, hclaim⟩ :=
      start_flag (s := { s with now := t }) hidle policy reactor t
    · exact .inl hsame
    · refine .inr ⟨.claim i, ?_, by simp⟩
      rw [hclaim]
      simpa [OwnerlessFlag.machine, System.flag, OwnerlessFlag.ofParties] using hclear
  · exact .inl (OwnerlessFlag.ofParties_update_of_iff (by simp [Status.UnfinishedProbe, hf]))
  · exact .inr ⟨.report i, by rw [resolve_flag]; rfl, by simp⟩
  · refine .inr ⟨.quit i, ?_, by simp⟩
    exact congrArg some
      (OwnerlessFlag.ofParties_update_of_not (by simp [Status.UnfinishedProbe])).symm

/-! ## A future polled to completion -/

/-- Polling future `i` alone takes `s` to a state with this circuit, in which the future is
ready with `e` and every other one is where it was. -/
def PollsTo (s : System ι) (i : ι) (circuit : CircuitState) (e : CallExit) : Prop :=
  ∃ ls s', (machine ι).runFrom s ls = some s' ∧
    s'.circuit = circuit ∧ s'.calls = Function.update s.calls i (.ready e)

theorem PollsTo.of_put {s : System ι} {i : ι} {circuit : CircuitState} {e : CallExit} :
    PollsTo (s.put i circuit (.ready e)) i circuit e :=
  ⟨[], _, rfl, rfl, by simp [System.put]⟩

theorem PollsTo.cons {s t : System ι} {i : ι} {l : Label ι} {circuit : CircuitState}
    {e : CallExit} (hstep : (machine ι).step s l = some t) (st : Status)
    (hcalls : t.calls = Function.update s.calls i st) (h : PollsTo t i circuit e) :
    PollsTo s i circuit e := by
  obtain ⟨ls, s', hrun, hcircuit, hend⟩ := h
  refine ⟨l :: ls, s', ?_, hcircuit, by rw [hend, hcalls]; simp⟩
  rw [Machine.runFrom_cons, hstep]
  exact hrun

/-- The attempts of an environment, in the order of the clock, and such that a wrapper
timeout takes an active timeout. -/
structure Clocked (active : Bool) (ops : ℕ → Attempt) : Prop where
  next_le : ∀ n, (ops n).recordedAt ≤ (ops (n + 1)).recordedAt
  wrapper : ∀ n, (ops n).outcome = .wrapperTimeout → active = true

/-- From its `n`-th attempt on, a future polled alone does what `attemptLoop` says. -/
theorem pollsTo_attemptLoop {ops : ℕ → Attempt} {policy : ExporterPolicy} {reactor : Bool}
    (hops : Clocked (timeoutActive policy reactor) ops) (remaining : ℕ) :
    ∀ (s : System ι) (i : ι) (f : InFlight) (n : ℕ), s.calls i = .pending f →
      f.policy = policy → f.hasTokioReactor = reactor → f.attempt = n → f.point = .operation →
      n + (remaining + 1) = cappedAttempts policy.retries → s.now ≤ (ops n).recordedAt →
      PollsTo s i (attemptLoop policy.failOpen ops (remaining + 1) n s.circuit).1
        (attemptLoop policy.failOpen ops (remaining + 1) n s.circuit).2 := by
  induction remaining with
  | zero =>
      rintro s i f n hf rfl rfl rfl hpoint hcount hnow
      have hstep : (machine ι).step s (.resolve i (ops f.attempt)) = some
          (({ s with now := (ops f.attempt).recordedAt } : System ι).resolve i f
            (ops f.attempt)) := by
        simp only [machine, hf]
        rw [if_pos ⟨hpoint, hnow, hops.wrapper _⟩]
      have hlast : ¬ f.attempt + 1 < cappedAttempts f.policy.retries := by omega
      simp only [System.resolve, if_neg hlast] at hstep
      simp only [attemptLoop]
      split_ifs at hstep ⊢
      · exact .cons hstep _ rfl .of_put
      · exact .cons hstep _ rfl .of_put
      · exact .cons hstep _ rfl .of_put
  | succ remaining ih =>
      rintro s i f n hf rfl rfl rfl hpoint hcount hnow
      have hstep : (machine ι).step s (.resolve i (ops f.attempt)) = some
          (({ s with now := (ops f.attempt).recordedAt } : System ι).resolve i f
            (ops f.attempt)) := by
        simp only [machine, hf]
        rw [if_pos ⟨hpoint, hnow, hops.wrapper _⟩]
      have hmore : f.attempt + 1 < cappedAttempts f.policy.retries := by omega
      simp only [System.resolve, if_pos hmore] at hstep
      rw [attemptLoop]
      by_cases hvalue : (ops f.attempt).outcome = .value
      · rw [if_pos hvalue] at hstep ⊢
        exact .cons hstep _ rfl .of_put
      rw [if_neg hvalue] at hstep ⊢
      refine .cons hstep _ rfl ?_
      let next : InFlight :=
        { f with attempt := f.attempt + 1, recorded := true, point := .operation }
      have hnext := fun (t : System ι) (hi : t.calls i = .pending next)
          (ht : t.now ≤ (ops (f.attempt + 1)).recordedAt) =>
        ih t i next (f.attempt + 1) hi rfl rfl rfl rfl (by omega) ht
      by_cases hsleep : backoffSleeps f.policy f.hasTokioReactor = true
      · -- The backoff sleep comes first.
        let asleep : System ι :=
          ({ s with now := (ops f.attempt).recordedAt } : System ι).put i
            (recordOutcome (ops f.attempt).recordedAt (ops f.attempt).outcome s.circuit)
            (.pending { next with point := .sleep })
        have hwake : (machine ι).step asleep (.wake i) = some
            (asleep.put i asleep.circuit (.pending next)) := by
          simp [machine, asleep, System.put, next]
        rw [if_pos hsleep]
        refine PollsTo.cons (s := asleep) hwake _ rfl ?_
        exact hnext (asleep.put i asleep.circuit (.pending next)) (by simp [System.put])
          (hops.next_le _)
      · rw [if_neg hsleep]
        exact hnext (({ s with now := (ops f.attempt).recordedAt } : System ι).put i
          (recordOutcome (ops f.attempt).recordedAt (ops f.attempt).outcome s.circuit)
          (.pending next)) (by simp [System.put]) (hops.next_le _)

/-- **A future polled to completion** leaves the circuit, and ends, as
`runWithResilienceInner` says. -/
theorem poll_alone {s : System ι} {i : ι} {policy : ExporterPolicy} {reactor : Bool}
    {startedAt : ℚ} {ops : ℕ → Attempt} (hidle : s.calls i = .idle) (hstart : s.now ≤ startedAt)
    (hfirst : startedAt ≤ (ops 0).recordedAt)
    (hops : Clocked (timeoutActive policy reactor) ops) :
    PollsTo s i (runWithResilienceInner policy reactor startedAt ops s.circuit).1
      (runWithResilienceInner policy reactor startedAt ops s.circuit).2 := by
  have hstep : (machine ι).step s (.start i policy reactor startedAt) = some
      (({ s with now := startedAt } : System ι).start i policy reactor startedAt) := by
    simp only [machine, hidle, hstart, true_and, if_true]
  obtain ⟨k, hk⟩ : ∃ k, cappedAttempts policy.retries = k + 1 :=
    ⟨_, (Nat.sub_add_cancel (one_le_cappedAttempts policy.retries)).symm⟩
  have hloop : ∀ (circuit : CircuitState) (probe : Bool),
      (machine ι).step s (.start i policy reactor startedAt) = some
        (({ s with now := startedAt } : System ι).put i circuit
          (.pending ⟨policy, reactor, probe, 0, .operation, false⟩)) →
      PollsTo s i (attemptLoop policy.failOpen ops (cappedAttempts policy.retries) 0 circuit).1
        (attemptLoop policy.failOpen ops (cappedAttempts policy.retries) 0 circuit).2 := by
    intro circuit probe h
    refine .cons h _ rfl ?_
    rw [hk]
    exact pollsTo_attemptLoop hops k
      (({ s with now := startedAt } : System ι).put i circuit
        (.pending ⟨policy, reactor, probe, 0, .operation, false⟩)) i
      ⟨policy, reactor, probe, 0, .operation, false⟩ 0
      (by simp [System.put]) rfl rfl rfl rfl (by omega) hfirst
  simp only [System.start] at hstep
  simp only [runWithResilienceInner]
  split
  case isFalse hinactive =>
    rw [if_neg hinactive] at hstep
    exact hloop _ _ hstep
  case isTrue hactive =>
    rw [if_pos hactive] at hstep
    cases hcheck : checkAndStartProbeForWrappers startedAt s.circuit with
    | mk reject circuit =>
        rw [hcheck] at hstep
        cases reject with
        | true => exact .cons hstep _ rfl .of_put
        | false => exact hloop _ _ hstep

/-! ## The flag while no probe is dropped -/

/-- No probe is dropped before one of its attempts is recorded. -/
def ProbesNotDropped (s : System ι) : Label ι → Prop
  | .drop i => ¬ (s.calls i).UnfinishedProbe
  | _ => True

theorem raised_flag_has_probe {s : System ι} (hs : (machine ι).Reachable ProbesNotDropped s)
    (hset : s.circuit.halfOpenProbing = true) : ∃ i, (s.calls i).UnfinishedProbe := by
  have hflag : (OwnerlessFlag.machine ι).Reachable OwnerlessFlag.HoldersStay s.flag := by
    refine hs.map_stutter System.flag ?_ ?_
    · simp [System.flag, OwnerlessFlag.ofParties, machine, OwnerlessFlag.machine,
        Status.UnfinishedProbe]
    · intro s l s' hg h
      obtain hsame | ⟨e, he, hquit⟩ := step_flag h
      · exact .inl hsame
      · refine .inr ⟨e, ?_, he⟩
        cases e with
        | claim i => trivial
        | report i => trivial
        | quit i =>
            obtain rfl := hquit i rfl
            exact hg
  exact OwnerlessFlag.attended_of_reachable hflag hset

/-- With the flag clear a call is let through, at the latest when the cooldown is over. -/
theorem admitted_of_clear {c : CircuitState} (hclear : c.halfOpenProbing = false) (now : ℚ) :
    ∃ t, now ≤ t ∧ (checkAndStartProbeForWrappers t c).1 = false := by
  by_cases hclosed : c.consecutiveTimeouts < circuitBreakerThreshold
  · exact ⟨now, le_rfl, by rw [check_of_closed now hclosed]⟩
  · let t := max now (c.trippedAt.getD 0 + circuitCooldown)
    have hover : c.cooldownActive t = false := by
      cases htripped : c.trippedAt with
      | none => simp [CircuitState.cooldownActive, htripped]
      | some instant =>
          have hlate : instant + circuitCooldown ≤ t := by
            simp [t, htripped]
          have helapsed : circuitCooldown ≤ elapsed t instant :=
            le_max_of_le_right (by linarith)
          simp [CircuitState.cooldownActive, htripped, circuitCooldownIsActive, helapsed]
    refine ⟨t, le_max_left _ _, ?_⟩
    rw [check_of_open t hclosed hclear, hover]
    rfl

/-- **The flag is set only while a probe is in flight**: in a run in which no probe is
dropped before it recorded an attempt, once no admitted probe is alive the flag is clear,
and a call that comes late enough is let through. -/
theorem probing_only_while_alive {s : System ι} (hs : (machine ι).Reachable ProbesNotDropped s)
    (hnone : ∀ i, ¬ (s.calls i).AliveProbe) :
    s.circuit.halfOpenProbing = false ∧
      ∃ t, s.now ≤ t ∧ (checkAndStartProbeForWrappers t s.circuit).1 = false := by
  have hclear : s.circuit.halfOpenProbing = false := by
    by_contra hset
    obtain ⟨i, hi⟩ := raised_flag_has_probe hs (by simpa using hset)
    exact hnone i hi.alive
  exact ⟨hclear, admitted_of_clear hclear s.now⟩

/-! ## Runs -/

instance (st : Status) : Decidable st.AliveProbe :=
  match st with
  | .idle => inferInstanceAs (Decidable False)
  | .pending f => inferInstanceAs (Decidable (f.probe = true))
  | .ready _ => inferInstanceAs (Decidable False)
  | .dropped => inferInstanceAs (Decidable False)

instance (st : Status) : Decidable st.UnfinishedProbe :=
  match st with
  | .idle => inferInstanceAs (Decidable False)
  | .pending f => inferInstanceAs (Decidable (f.probe = true ∧ f.recorded = false))
  | .ready _ => inferInstanceAs (Decidable False)
  | .dropped => inferInstanceAs (Decidable False)

instance (s : System ι) (l : Label ι) : Decidable (ProbesNotDropped s l) :=
  match l with
  | .start .. => inferInstanceAs (Decidable True)
  | .wake _ => inferInstanceAs (Decidable True)
  | .resolve .. => inferInstanceAs (Decidable True)
  | .drop i => inferInstanceAs (Decidable (¬ (s.calls i).UnfinishedProbe))

/-- Future `i` starts at `t` and its only attempt runs into the timeout there. -/
def timesOut (i : Fin 5) (t : ℚ) : List (Label (Fin 5)) :=
  [.start i {} true t, .resolve i { outcome := .wrapperTimeout, recordedAt := t }]

/-- Futures 0, 1 and 2 trip the circuit at time 3, and future 3 is admitted as the probe. -/
def probeRun : List (Label (Fin 5)) :=
  timesOut 0 1 ++ timesOut 1 2 ++ timesOut 2 3 ++ [.start 3 {} true 40]

/-- The probe completes. -/
theorem probing_only_while_alive_completed : ∃ s,
    (machine (Fin 5)).run (probeRun ++ [.resolve 3 { outcome := .value, recordedAt := 41 }])
      = some s ∧
    s.circuit.halfOpenProbing = false ∧
      ∃ t, s.now ≤ t ∧ (checkAndStartProbeForWrappers t s.circuit).1 = false := by
  let ls := probeRun ++ [.resolve 3 { outcome := .value, recordedAt := 41 }]
  have hguard : (machine (Fin 5)).Guarded ProbesNotDropped (machine (Fin 5)).init ls := by
    decide +kernel
  obtain ⟨s, hrun, hnone⟩ := Machine.exists_of_run_any (M := machine (Fin 5))
    (P := fun s => ∀ i, ¬ (s.calls i).AliveProbe) ls (by decide +kernel)
  exact ⟨s, hrun, probing_only_while_alive (Machine.reachable_of_run hguard hrun) hnone⟩

/-- The probe is dropped: no probe is alive, the flag is set, and every later call is
rejected. -/
theorem dropped_probe_leaks : ∃ s,
    (machine (Fin 5)).run (probeRun ++ [.drop 3]) = some s ∧
      (∀ i, ¬ (s.calls i).AliveProbe) ∧ s.circuit.halfOpenProbing = true ∧
        ∀ t, checkAndStartProbeForWrappers t s.circuit = (true, s.circuit) := by
  obtain ⟨s, hrun, hnone, hset, hopen⟩ := Machine.exists_of_run_any (M := machine (Fin 5))
    (P := fun s => (∀ i, ¬ (s.calls i).AliveProbe) ∧ s.circuit.halfOpenProbing = true ∧
      ¬ s.circuit.consecutiveTimeouts < circuitBreakerThreshold)
    (probeRun ++ [.drop 3]) (by decide +kernel)
  exact ⟨s, hrun, hnone, hset, fun t => check_of_probing t hopen hset⟩

end Telemetry.Breaker.Rust
