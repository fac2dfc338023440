import Telemetry.Lib.OwnerlessFlag
import Telemetry.Breaker.Agreement
import Mathlib.Data.Rat.Floor
import Mathlib.Data.Fintype.Basic

/-!
# The TypeScript breaker

`resilience.ts` for one signal. JavaScript runs a call of `runWithResilience` up to its next
`await` before it runs anything else: the breaker check with the start of the first attempt, then
one piece of the loop for each attempt that settles and each backoff that ends. Any number of calls
are interleaved at these points, and share the signal's variables.

Nothing drops a call between two of its points, and a call that is let through an open circuit has
a timer. So the probe flag, which nobody owns, always comes down; and where timers fire in time and
within a minute, no two probes are ever in flight.

Times are milliseconds.

## Main definitions

* `CircuitState`, `checkBreaker`, `record` — the signal's variables and the pieces that change them.
* `System`, `Label`, `machine` — the calls on one signal.
* `Prompt`, `OnlyTimeouts` — what is asked of a run.

## Main results

* `flag_comes_down` — **a raised flag has a probe that lowers it**, however its attempt settles.
* `one_probe_in_flight` — **no two probes are in flight**, if timers are short and on time.
* `spared_for_a_minute` — **a tripped circuit lets no call through** for the first minute.
-/

namespace Telemetry.Breaker.TypeScript

open Telemetry.Lib

/-! ## The policy -/

/-- `ExporterPolicy`, with the values of `DEFAULT_POLICY`. -/
structure ExporterPolicy where
  retries : ℚ := 0
  backoffMs : ℚ := 0
  timeoutMs : ℚ := 10000
  failOpen : Bool := true
  deriving DecidableEq, Repr

/-- `Partial<ExporterPolicy>`. -/
structure PartialPolicy where
  retries : Option ℚ := none
  backoffMs : Option ℚ := none
  timeoutMs : Option ℚ := none
  failOpen : Option Bool := none
  deriving DecidableEq, Repr

/-- `{ ...DEFAULT_POLICY, ...policy }`. -/
def PartialPolicy.overDefault (p : PartialPolicy) : ExporterPolicy where
  retries := p.retries.getD ({} : ExporterPolicy).retries
  backoffMs := p.backoffMs.getD ({} : ExporterPolicy).backoffMs
  timeoutMs := p.timeoutMs.getD ({} : ExporterPolicy).timeoutMs
  failOpen := p.failOpen.getD ({} : ExporterPolicy).failOpen

/-- `MAX_EXPORT_ATTEMPTS`. -/
def maxExportAttempts : ℚ := 101

/-- `Math.min(Math.max(1, policy.retries + 1), MAX_EXPORT_ATTEMPTS)`. -/
def attempts (policy : ExporterPolicy) : ℚ := min (max 1 (policy.retries + 1)) maxExportAttempts

/-- The length of `Array.from({ length: attempts })`, which drops a fraction. -/
def iterations (policy : ExporterPolicy) : ℕ := ⌊attempts policy⌋₊

theorem one_le_iterations (policy : ExporterPolicy) : 1 ≤ iterations policy :=
  Nat.le_floor (le_min (by simp) (by norm_num [maxExportAttempts]))

theorem iterations_le (policy : ExporterPolicy) : iterations policy ≤ 101 := by
  have hle : attempts policy ≤ ((101 : ℕ) : ℚ) := min_le_right _ _
  exact (Nat.floor_mono hle).trans_eq (Nat.floor_natCast 101)

/-! ## The circuit -/

/-- `CIRCUIT_BREAKER_THRESHOLD`. -/
def circuitBreakerThreshold : ℕ := 3

/-- `CIRCUIT_BASE_COOLDOWN_MS`. -/
def circuitBaseCooldownMs : ℚ := 30000

/-- `CIRCUIT_MAX_COOLDOWN_MS`. -/
def circuitMaxCooldownMs : ℚ := 1024000

/-- The breaker variables of one signal. -/
structure CircuitState where
  /-- `_consecutiveTimeouts[signal]`. -/
  consecutiveTimeouts : ℕ := 0
  /-- `_circuitTrippedAt[signal]`. -/
  circuitTrippedAt : ℚ := 0
  /-- `_openCount[signal]`. -/
  openCount : ℕ := 0
  /-- `_halfOpenProbing[signal]`. -/
  halfOpenProbing : Bool := false
  deriving DecidableEq, Repr

/-- `Math.min(CIRCUIT_BASE_COOLDOWN_MS * 2 ** openCount, CIRCUIT_MAX_COOLDOWN_MS)`. A power that is
no double any more is `Infinity`, and the cap is taken. -/
def cooldownMs (openCount : ℕ) : ℚ :=
  min (circuitBaseCooldownMs * 2 ^ openCount) circuitMaxCooldownMs

/-- What the breaker check decides. -/
inductive Gate
  | closed
  | probe
  /-- `circuit breaker open: probe in progress`. -/
  | probeInProgress
  /-- `circuit breaker open: too many consecutive timeouts`. -/
  | tooManyTimeouts
  deriving DecidableEq, Repr

/-- The breaker check of `runWithResilience`. -/
def checkBreaker (policy : ExporterPolicy) (now : ℚ) (c : CircuitState) : Gate × CircuitState :=
  if 0 < policy.timeoutMs ∧ circuitBreakerThreshold ≤ c.consecutiveTimeouts then
    if c.halfOpenProbing then (.probeInProgress, c)
    else if now - c.circuitTrippedAt < cooldownMs c.openCount then (.tooManyTimeouts, c)
    else (.probe, { c with halfOpenProbing := true })
  else (.closed, c)

/-- How an attempt settles. -/
inductive Ending
  | resolves
  /-- The timer of `_withTimeout` is first. -/
  | timerRejects
  /-- The operation rejects, or throws, with a `TelemetryTimeoutError` or with another error. -/
  | rejects (isTimeout : Bool)
  deriving DecidableEq, Repr

/-- What it counts as. -/
def Ending.outcome : Ending → Outcome
  | .resolves => .success
  | .timerRejects | .rejects true => .timeout
  | .rejects false => .failure

/-- What is done to the circuit when an attempt settles. -/
def record (now : ℚ) (c : CircuitState) : Outcome → CircuitState
  | .success =>
      if c.halfOpenProbing then
        { c with halfOpenProbing := false, consecutiveTimeouts := 0, openCount := c.openCount - 1 }
      else { c with consecutiveTimeouts := 0 }
  | .timeout =>
      if c.halfOpenProbing then
        { c with halfOpenProbing := false, openCount := c.openCount + 1, circuitTrippedAt := now }
      else if circuitBreakerThreshold ≤ c.consecutiveTimeouts + 1 then
        { c with consecutiveTimeouts := c.consecutiveTimeouts + 1, openCount := c.openCount + 1
                 circuitTrippedAt := now }
      else { c with consecutiveTimeouts := c.consecutiveTimeouts + 1 }
  | .failure =>
      if c.halfOpenProbing then
        { c with halfOpenProbing := false, openCount := c.openCount + 1, circuitTrippedAt := now }
      else { c with consecutiveTimeouts := 0 }

/-- The states of `getCircuitState`. -/
inductive Reported
  | closed
  | isOpen
  | halfOpen
  deriving DecidableEq, Repr

/-- `getCircuitState`: state, `openCount` and `cooldownRemainingMs`. -/
def getCircuitState (now : ℚ) (c : CircuitState) : Reported × ℕ × ℚ :=
  if c.halfOpenProbing then (.halfOpen, c.openCount, 0)
  else if circuitBreakerThreshold ≤ c.consecutiveTimeouts then
    let remaining := cooldownMs c.openCount - (now - c.circuitTrippedAt)
    if 0 < remaining then (.isOpen, c.openCount, remaining) else (.halfOpen, c.openCount, 0)
  else (.closed, c.openCount, 0)

/-! ## The calls -/

/-- The signal's fields of the health state. -/
structure Health where
  exportFailures : ℕ := 0
  retries : ℕ := 0
  exportLatencyMs : ℚ := 0
  deriving DecidableEq, Repr

/-- How a call ends. -/
inductive Result
  | value
  | null
  /-- The `TelemetryTimeoutError` of the breaker check. -/
  | rejected (g : Gate)
  /-- `lastError`, a `TelemetryTimeoutError` or not; `none` is `all retry attempts failed`. -/
  | lastError (isTimeout : Option Bool)
  deriving DecidableEq, Repr

/-- A call behind its breaker check. -/
structure InFlight where
  policy : ExporterPolicy
  /-- Whether the check let it through as the half-open probe. -/
  probe : Bool
  attempt : ℕ := 0
  /-- `started`, of this attempt. -/
  startedAt : ℚ
  lastError : Option Bool := none
  /-- Whether the attempt has settled and `_sleep(policy.backoffMs)` is awaited. -/
  asleep : Bool := false
  deriving DecidableEq, Repr

/-- What became of a call. -/
inductive Status
  | idle
  | pending (f : InFlight)
  | done (r : Result)
  deriving DecidableEq, Repr

/-- The attempt that comes next, or the end of the loop. -/
def InFlight.proceed (f : InFlight) (n : ℕ) (now : ℚ) : Status :=
  if n < iterations f.policy then
    .pending { f with attempt := n, startedAt := now, asleep := false }
  else .done (if f.policy.failOpen then .null else .lastError f.lastError)

/-- One signal and all calls on it. -/
structure System (ι : Type) where
  /-- `_policies[signal]`. -/
  policy : Option ExporterPolicy := none
  circuit : CircuitState := {}
  health : Health := {}
  /-- The last reading of the clock. -/
  now : ℚ := 0
  calls : ι → Status := fun _ => .idle

/-- What happens next, and to which call. -/
inductive Label (ι : Type)
  | setExporterPolicy (p : PartialPolicy)
  /-- A call, up to the start of its first attempt. -/
  | call (i : ι) (t : ℚ)
  /-- The attempt settles. -/
  | settle (i : ι) (e : Ending) (t : ℚ)
  /-- The backoff is over. -/
  | wake (i : ι) (t : ℚ)

variable {ι : Type} [DecidableEq ι]

namespace System

/-- The variables and the status of one call change. -/
def put (s : System ι) (i : ι) (circuit : CircuitState) (health : Health) (st : Status) :
    System ι :=
  { s with circuit := circuit, health := health, calls := Function.update s.calls i st }

/-- `_policies[signal] ?? { ...DEFAULT_POLICY }`. -/
def policyInForce (s : System ι) : ExporterPolicy := s.policy.getD {}

/-- A call up to its first `await`. -/
def call (s : System ι) (i : ι) : System ι :=
  let policy := s.policyInForce
  let reject (g : Gate) (circuit : CircuitState) : System ι :=
    s.put i circuit { s.health with exportFailures := s.health.exportFailures + 1 }
      (.done (if policy.failOpen then .null else .rejected g))
  match checkBreaker policy s.now s.circuit with
  | (.probeInProgress, circuit) => reject .probeInProgress circuit
  | (.tooManyTimeouts, circuit) => reject .tooManyTimeouts circuit
  | (gate, circuit) =>
      let f : InFlight := { policy := policy, probe := gate = .probe, startedAt := s.now }
      s.put i circuit s.health (f.proceed 0 s.now)

/-- An attempt settles: the loop up to its next `await`. -/
def settle (s : System ι) (i : ι) (f : InFlight) (e : Ending) : System ι :=
  let circuit := record s.now s.circuit e.outcome
  if e.outcome = Outcome.success then
    s.put i circuit { s.health with exportLatencyMs := s.now - f.startedAt } (.done .value)
  else
    let health := { s.health with exportFailures := s.health.exportFailures + 1 }
    let f : InFlight := { f with lastError := some (decide (e.outcome = Outcome.timeout)) }
    if (f.attempt : ℚ) < attempts f.policy - 1 then
      s.put i circuit { health with retries := health.retries + 1 }
        (if 0 < f.policy.backoffMs then .pending { f with asleep := true }
        else f.proceed (f.attempt + 1) s.now)
    else s.put i circuit health (f.proceed (f.attempt + 1) s.now)

end System

/-- The calls as a machine. -/
def machine (ι : Type) [DecidableEq ι] : Machine (System ι) (Label ι) where
  init := {}
  step s
    | .setExporterPolicy p => some { s with policy := some p.overDefault }
    | .call i t =>
        if s.calls i = .idle ∧ s.now ≤ t then some (({ s with now := t } : System ι).call i)
        else none
    | .settle i e t =>
        match s.calls i with
        | .pending f =>
            if f.asleep = false ∧ s.now ≤ t ∧ (e = .timerRejects → 0 < f.policy.timeoutMs) then
              some (({ s with now := t } : System ι).settle i f e)
            else none
        | _ => none
    | .wake i t =>
        match s.calls i with
        | .pending f =>
            if f.asleep = true ∧ s.now ≤ t then
              some (({ s with now := t } : System ι).put i s.circuit s.health
                (f.proceed (f.attempt + 1) t))
            else none
        | _ => none

/-! ## What a step does -/

/-- The enabled steps, one clause a label. -/
theorem step_cases {s s' : System ι} {l : Label ι} (h : (machine ι).step s l = some s') :
    (∃ p, l = .setExporterPolicy p ∧ s' = { s with policy := some p.overDefault }) ∨
    (∃ i t, l = .call i t ∧ s.calls i = .idle ∧ s.now ≤ t ∧
      s' = ({ s with now := t } : System ι).call i) ∨
    (∃ i f e t, l = .settle i e t ∧ s.calls i = .pending f ∧ f.asleep = false ∧ s.now ≤ t ∧
      s' = ({ s with now := t } : System ι).settle i f e) ∨
    (∃ i f t, l = .wake i t ∧ s.calls i = .pending f ∧ f.asleep = true ∧ s.now ≤ t ∧
      s' = ({ s with now := t } : System ι).put i s.circuit s.health
        (f.proceed (f.attempt + 1) t)) := by
  cases l with
  | setExporterPolicy p => exact .inl ⟨p, rfl, (Option.some.inj h).symm⟩
  | call i t =>
      simp only [machine, Option.ite_none_right_eq_some, Option.some.injEq] at h
      exact .inr (.inl ⟨i, t, rfl, h.1.1, h.1.2, h.2.symm⟩)
  | settle i e t =>
      simp only [machine] at h
      split at h
      · rename_i f hf
        simp only [Option.ite_none_right_eq_some, Option.some.injEq] at h
        exact .inr (.inr (.inl ⟨i, f, e, t, rfl, hf, h.1.1, h.1.2.1, h.2.symm⟩))
      · cases h
  | wake i t =>
      simp only [machine] at h
      split at h
      · rename_i f hf
        simp only [Option.ite_none_right_eq_some, Option.some.injEq] at h
        exact .inr (.inr (.inr ⟨i, f, t, rfl, hf, h.1.1, h.1.2, h.2.symm⟩))
      · cases h

/-- What the breaker check can be. -/
theorem check_cases (policy : ExporterPolicy) (now : ℚ) (c : CircuitState) :
    (checkBreaker policy now c = (.closed, c) ∧
      ¬ (0 < policy.timeoutMs ∧ 3 ≤ c.consecutiveTimeouts)) ∨
    (checkBreaker policy now c = (.probeInProgress, c) ∧ c.halfOpenProbing = true) ∨
    (checkBreaker policy now c = (.tooManyTimeouts, c) ∧ c.halfOpenProbing = false) ∨
    (checkBreaker policy now c = (.probe, { c with halfOpenProbing := true }) ∧
      c.halfOpenProbing = false ∧ 0 < policy.timeoutMs ∧ 3 ≤ c.consecutiveTimeouts ∧
      cooldownMs c.openCount ≤ now - c.circuitTrippedAt) := by
  by_cases hopen : 0 < policy.timeoutMs ∧ 3 ≤ c.consecutiveTimeouts
  · rw [checkBreaker, circuitBreakerThreshold, if_pos hopen]
    cases hset : c.halfOpenProbing with
    | true => exact .inr (.inl ⟨if_pos rfl, rfl⟩)
    | false =>
        rw [if_neg Bool.false_ne_true]
        split_ifs with htime
        · exact .inr (.inr (.inl ⟨rfl, rfl⟩))
        · exact .inr (.inr (.inr ⟨rfl, rfl, hopen.1, hopen.2, not_lt.mp htime⟩))
  · exact .inl ⟨if_neg hopen, hopen⟩

/-- A circuit is reported open exactly while the cooldown turns calls with a timeout away. -/
theorem reported_open_iff {policy : ExporterPolicy} (htimed : 0 < policy.timeoutMs) (now : ℚ)
    (c : CircuitState) : (getCircuitState now c).1 = .isOpen ↔
      (checkBreaker policy now c).1 = .tooManyTimeouts := by
  cases hset : c.halfOpenProbing with
  | true =>
      simp only [getCircuitState, checkBreaker, hset, if_true]
      split_ifs <;> simp
  | false =>
      simp only [getCircuitState, checkBreaker, hset, htimed, true_and, Bool.false_eq_true,
        if_false, sub_pos]
      split_ifs <;> simp

/-- Whatever is recorded lowers the flag. -/
@[simp] theorem record_probing (now : ℚ) (c : CircuitState) (o : Outcome) :
    (record now c o).halfOpenProbing = false := by
  cases hset : c.halfOpenProbing with
  | true => cases o <;> simp [record, hset]
  | false =>
      cases o with
      | success => simp [record, hset]
      | timeout =>
          simp only [record, hset, Bool.false_eq_true, if_false]
          split_ifs <;> rfl
      | failure => simp [record, hset]

theorem proceed_zero (f : InFlight) (now : ℚ) :
    f.proceed 0 now = .pending { f with attempt := 0, startedAt := now, asleep := false } :=
  if_pos (one_le_iterations f.policy)

/-- What goes on is the same call, at a later attempt. -/
theorem pending_of_proceed {f f' : InFlight} {n : ℕ} {now : ℚ} (h : f.proceed n now = .pending f') :
    f' = { f with attempt := n, startedAt := now, asleep := false } := by
  rw [InFlight.proceed] at h
  split_ifs at h
  exact (Status.pending.inj h).symm

/-- A probe whose first attempt has not settled. -/
def InFlight.Unfinished (f : InFlight) : Prop := f.probe = true ∧ f.attempt = 0 ∧ f.asleep = false

/-- The call is such a probe. -/
def Status.UnfinishedProbe : Status → Prop
  | .pending f => f.Unfinished
  | _ => False

instance : DecidablePred Status.UnfinishedProbe
  | .pending _ => inferInstanceAs (Decidable (_ ∧ _ ∧ _))
  | .idle | .done _ => isFalse id

theorem Status.UnfinishedProbe.pending {st : Status} (h : st.UnfinishedProbe) :
    ∃ f, st = .pending f ∧ f.Unfinished := by
  cases st with
  | pending f => exact ⟨f, rfl, h⟩
  | idle => exact h.elim
  | done r => exact h.elim

theorem Status.not_unfinishedProbe {st : Status} (h : ∀ f, st = .pending f → ¬ f.Unfinished) :
    ¬ st.UnfinishedProbe := by
  intro hprobe
  obtain ⟨f, hf, hown⟩ := hprobe.pending
  exact h f hf hown

/-- A call is not behind its first attempt when it goes on to another. -/
theorem not_unfinished_of_proceed {f f' : InFlight} {n : ℕ} {now : ℚ}
    (h : f.proceed (n + 1) now = .pending f') : ¬ f'.Unfinished := by
  rw [pending_of_proceed h]
  rintro ⟨-, hzero, -⟩
  cases hzero

/-- A call of its own that is let through, or one that is turned away. -/
theorem call_cases (s : System ι) (i : ι) :
    (∃ st health, (∀ f, st ≠ .pending f) ∧ s.call i = s.put i s.circuit health st) ∨
    (s.call i = s.put i s.circuit s.health
      (.pending { policy := s.policyInForce, probe := false, startedAt := s.now }) ∧
      ¬ (0 < s.policyInForce.timeoutMs ∧ 3 ≤ s.circuit.consecutiveTimeouts)) ∨
    (s.call i = s.put i { s.circuit with halfOpenProbing := true } s.health
      (.pending { policy := s.policyInForce, probe := true, startedAt := s.now }) ∧
      s.circuit.halfOpenProbing = false ∧ 0 < s.policyInForce.timeoutMs ∧
      3 ≤ s.circuit.consecutiveTimeouts ∧
      cooldownMs s.circuit.openCount ≤ s.now - s.circuit.circuitTrippedAt) := by
  have hturned : ∀ g : Gate, ∀ f,
      Status.done (if s.policyInForce.failOpen then .null else .rejected g) ≠ .pending f := by
    intro g f h
    cases h
  obtain ⟨hcheck, hclosed⟩ | ⟨hcheck, -⟩ | ⟨hcheck, -⟩ | ⟨hcheck, hprobe⟩ :=
    check_cases s.policyInForce s.now s.circuit
  · refine .inr (.inl ⟨?_, hclosed⟩)
    simp only [System.call, hcheck, proceed_zero]
    rfl
  · refine .inl ⟨_, { s.health with exportFailures := s.health.exportFailures + 1 },
      hturned .probeInProgress, ?_⟩
    simp only [System.call, hcheck]
  · refine .inl ⟨_, { s.health with exportFailures := s.health.exportFailures + 1 },
      hturned .tooManyTimeouts, ?_⟩
    simp only [System.call, hcheck]
  · refine .inr (.inr ⟨?_, hprobe⟩)
    simp only [System.call, hcheck, proceed_zero]
    rfl

/-- An attempt that settles is recorded, and its call goes on at another attempt, sleeps, or is
done. -/
theorem settle_cases (s : System ι) (i : ι) (f : InFlight) (e : Ending) :
    ∃ st health, s.settle i f e = s.put i (record s.now s.circuit e.outcome) health st ∧
      ∀ f', st = .pending f' → f'.policy = f.policy ∧ f'.probe = f.probe ∧ ¬ f'.Unfinished ∧
        (f'.startedAt = f.startedAt ∨ f'.startedAt = s.now) := by
  have hnext : ∀ (last : Option Bool) (f' : InFlight),
      ({ f with lastError := last } : InFlight).proceed (f.attempt + 1) s.now = .pending f' →
      f'.policy = f.policy ∧ f'.probe = f.probe ∧ ¬ f'.Unfinished ∧
        (f'.startedAt = f.startedAt ∨ f'.startedAt = s.now) := by
    intro last f' h
    have hlater := not_unfinished_of_proceed h
    rw [pending_of_proceed h] at hlater ⊢
    exact ⟨rfl, rfl, hlater, .inr rfl⟩
  simp only [System.settle]
  split_ifs
  · refine ⟨_, _, rfl, ?_⟩
    intro f' h
    cases h
  · refine ⟨_, _, rfl, ?_⟩
    intro f' h
    cases h
    exact ⟨rfl, rfl, fun hown => by simp [InFlight.Unfinished] at hown, .inl rfl⟩
  · exact ⟨_, _, rfl, hnext _⟩
  · exact ⟨_, _, rfl, hnext _⟩

/-! ## The flag comes down -/

/-- The flag and the unfinished probes. -/
def System.flag (s : System ι) : OwnerlessFlag ι :=
  .ofParties Status.UnfinishedProbe s.circuit.halfOpenProbing s.calls

/-- **Every step is an event of the ownerless flag, or none**, and no party quits. -/
theorem step_flag {s s' : System ι} {l : Label ι} (h : (machine ι).step s l = some s') :
    s'.flag = s.flag ∨ ∃ e, (OwnerlessFlag.machine ι).step s.flag e = some s'.flag ∧
      OwnerlessFlag.HoldersStay s.flag e := by
  obtain ⟨p, rfl, rfl⟩ | ⟨i, t, rfl, hidle, -, rfl⟩ | ⟨i, f, e, t, rfl, hf, hawake, -, rfl⟩ |
    ⟨i, f, t, rfl, hf, hasleep, -, rfl⟩ := step_cases h
  · exact .inl rfl
  · have hnot : ¬ (s.calls i).UnfinishedProbe := by simp [hidle, Status.UnfinishedProbe]
    obtain ⟨st, health, hst, hcall⟩ | ⟨hcall, -⟩ | ⟨hcall, hclear, -⟩ :=
      call_cases { s with now := t } i
    · rw [hcall]
      exact .inl (OwnerlessFlag.ofParties_update_of_iff
        (iff_of_false (Status.not_unfinishedProbe fun f hf => absurd hf (hst f)) hnot))
    · rw [hcall]
      exact .inl (OwnerlessFlag.ofParties_update_of_iff
        (iff_of_false (by simp [Status.UnfinishedProbe, InFlight.Unfinished]) hnot))
    · refine .inr ⟨.claim i, ?_, trivial⟩
      have hraised : s.flag.raised = false := hclear
      rw [hcall]
      simp only [OwnerlessFlag.machine, hraised, Bool.false_eq_true, if_false]
      exact congrArg some (OwnerlessFlag.ofParties_update_of_holds ⟨rfl, rfl, rfl⟩).symm
  · refine .inr ⟨.report i, ?_, trivial⟩
    obtain ⟨st, health, hsettle, hst⟩ := settle_cases { s with now := t } i f e
    have hnot : ¬ st.UnfinishedProbe :=
      Status.not_unfinishedProbe fun f' hf' => (hst f' hf').2.2.1
    rw [hsettle]
    simp only [OwnerlessFlag.machine, System.flag, System.put, record_probing]
    exact congrArg some (OwnerlessFlag.ofParties_update_of_not hnot).symm
  · refine .inl (OwnerlessFlag.ofParties_update_of_iff (iff_of_false ?_ ?_))
    · exact Status.not_unfinishedProbe fun f' hf' => not_unfinished_of_proceed hf'
    · simp [hf, Status.UnfinishedProbe, InFlight.Unfinished, hasleep]

/-- A probe that is in flight has a timer. -/
def ProbesTimed (s : System ι) : Prop :=
  ∀ i f, s.calls i = .pending f → f.probe = true → 0 < f.policy.timeoutMs

/-- What is pending once one call has changed. -/
theorem pending_put {s : System ι} {i j : ι} {circuit : CircuitState} {health : Health}
    {st : Status} {f : InFlight} :
    (s.put i circuit health st).calls j = .pending f ↔
      j = i ∧ st = .pending f ∨ j ≠ i ∧ s.calls j = .pending f := by
  by_cases hj : j = i
  · subst hj
    simp [System.put]
  · simp [System.put, hj]

theorem probesTimed_step {s s' : System ι} {l : Label ι} (hs : ProbesTimed s)
    (h : (machine ι).step s l = some s') : ProbesTimed s' := by
  obtain ⟨p, rfl, rfl⟩ | ⟨i, t, rfl, -, -, rfl⟩ | ⟨i, f, e, t, rfl, hf, -, -, rfl⟩ |
    ⟨i, f, t, rfl, hf, -, -, rfl⟩ := step_cases h
  · exact hs
  · obtain ⟨st, health, hst, hcall⟩ | ⟨hcall, -⟩ | ⟨hcall, -, htimed, -⟩ :=
      call_cases { s with now := t } i
    all_goals
      rw [hcall]
      intro j g hg hprobe
      obtain ⟨-, hown⟩ | ⟨-, hother⟩ := pending_put.mp hg
    · exact absurd hown (hst g)
    · exact hs j g hother hprobe
    · cases hown
      cases hprobe
    · exact hs j g hother hprobe
    · cases hown
      exact htimed
    · exact hs j g hother hprobe
  · obtain ⟨st, health, hsettle, hst⟩ := settle_cases { s with now := t } i f e
    rw [hsettle]
    intro j g hg hprobe
    obtain ⟨-, hown⟩ | ⟨-, hother⟩ := pending_put.mp hg
    · obtain ⟨hpolicy, hsame, -⟩ := hst g hown
      rw [hpolicy]
      exact hs i f hf (hsame.symm.trans hprobe)
    · exact hs j g hother hprobe
  · intro j g hg hprobe
    obtain ⟨-, hown⟩ | ⟨-, hother⟩ := pending_put.mp hg
    · rw [pending_of_proceed hown] at hprobe ⊢
      exact hs i f hf hprobe
    · exact hs j g hother hprobe

/-- Three calls time out, and a fourth goes through the open circuit a minute later. -/
def probedRun : List (Label (Fin 6)) :=
  [.call 0 1, .settle 0 .timerRejects 2, .call 1 3, .settle 1 (.rejects true) 4, .call 2 5,
    .settle 2 .timerRejects 6, .call 3 60006]

/-- No attempt under a timer is found behind its deadline. -/
def Status.InTime (t : ℚ) : Status → Prop
  | .pending f => f.asleep = false → 0 < f.policy.timeoutMs → t ≤ f.startedAt + f.policy.timeoutMs
  | _ => True

instance (t : ℚ) : DecidablePred (Status.InTime t)
  | .pending _ => inferInstanceAs (Decidable (_ → _ → _))
  | .idle | .done _ => isTrue trivial

/-- Timers are shorter than a minute, and fire in time. -/
def Prompt (s : System ι) : Label ι → Prop
  | .setExporterPolicy p => p.overDefault.timeoutMs < 60000
  | .call _ t | .settle _ _ t | .wake _ t => ∀ i, (s.calls i).InTime t

instance [Fintype ι] (s : System ι) : DecidablePred (Prompt s)
  | .setExporterPolicy _ => inferInstanceAs (Decidable (_ < _))
  | .call _ _ | .settle _ _ _ | .wake _ _ => inferInstanceAs (Decidable (∀ _, _))

/-- What holds of all calls while timers are short and in time. -/
structure Orderly (s : System ι) : Prop where
  short_policy : s.policyInForce.timeoutMs < 60000
  short : ∀ i f, s.calls i = .pending f → f.policy.timeoutMs < 60000
  timed : ProbesTimed s
  started : ∀ i f, s.calls i = .pending f → f.startedAt ≤ s.now
  open_pos : 3 ≤ s.circuit.consecutiveTimeouts → 1 ≤ s.circuit.openCount
  probing_open : s.circuit.halfOpenProbing = true → 3 ≤ s.circuit.consecutiveTimeouts
  /-- A circuit that is open again was tripped behind the start of every unfinished probe. -/
  before_trip : s.circuit.halfOpenProbing = false → 3 ≤ s.circuit.consecutiveTimeouts →
    ∀ i f, s.calls i = .pending f → f.Unfinished →
      f.startedAt ≤ s.circuit.circuitTrippedAt
  one : ∀ i j f g, s.calls i = .pending f → s.calls j = .pending g → f.Unfinished →
    g.Unfinished → i = j

/-- The circuit that a record leaves is closed, or still open and tripped just now. -/
theorem record_cases (now : ℚ) (c : CircuitState) (o : Outcome) :
    (record now c o).consecutiveTimeouts < 3 ∨
      1 ≤ (record now c o).openCount ∧ (record now c o).circuitTrippedAt = now := by
  cases hset : c.halfOpenProbing with
  | true => cases o <;> simp [record, hset]
  | false =>
      cases o with
      | success => simp [record, hset]
      | timeout =>
          simp only [record, hset, Bool.false_eq_true, if_false, circuitBreakerThreshold]
          split_ifs with htrip
          · exact .inr ⟨Nat.succ_pos _, rfl⟩
          · exact .inl (not_le.mp htrip)
      | failure => simp [record, hset]

theorem le_cooldownMs {n : ℕ} (h : 1 ≤ n) : 60000 ≤ cooldownMs n := by
  have htwo : (2 : ℚ) ^ 1 ≤ 2 ^ n := pow_le_pow_right₀ (by norm_num) h
  refine le_min ?_ (by norm_num [circuitMaxCooldownMs])
  rw [circuitBaseCooldownMs]
  linarith

/-- A call that changes without becoming an unfinished probe. -/
theorem Orderly.put {s : System ι} (hs : Orderly s) {t : ℚ} (hnow : s.now ≤ t) (i : ι)
    {circuit : CircuitState} (health : Health) {st : Status}
    (hst : ∀ f, st = .pending f → f.policy.timeoutMs < 60000 ∧
      (f.probe = true → 0 < f.policy.timeoutMs) ∧ f.startedAt ≤ t ∧ ¬ f.Unfinished)
    (hpos : 3 ≤ circuit.consecutiveTimeouts → 1 ≤ circuit.openCount)
    (hprobing : circuit.halfOpenProbing = true → 3 ≤ circuit.consecutiveTimeouts)
    (hbefore : circuit.halfOpenProbing = false → 3 ≤ circuit.consecutiveTimeouts →
      ∀ j g, s.calls j = .pending g → g.Unfinished → g.startedAt ≤ circuit.circuitTrippedAt) :
    Orderly (({ s with now := t } : System ι).put i circuit health st) := by
  have hother : ∀ {j g}, (({ s with now := t } : System ι).put i circuit health st).calls j =
      .pending g → g.Unfinished → s.calls j = .pending g := by
    intro j g hg hown
    obtain ⟨-, hst'⟩ | ⟨-, hold⟩ := pending_put.mp hg
    · exact absurd hown (hst g hst').2.2.2
    · exact hold
  refine ⟨hs.short_policy, ?_, ?_, ?_, hpos, hprobing, ?_, ?_⟩
  · intro j g hg
    obtain ⟨-, hst'⟩ | ⟨-, hold⟩ := pending_put.mp hg
    · exact (hst g hst').1
    · exact hs.short j g hold
  · intro j g hg
    obtain ⟨-, hst'⟩ | ⟨-, hold⟩ := pending_put.mp hg
    · exact (hst g hst').2.1
    · exact hs.timed j g hold
  · intro j g hg
    obtain ⟨-, hst'⟩ | ⟨-, hold⟩ := pending_put.mp hg
    · exact (hst g hst').2.2.1
    · exact (hs.started j g hold).trans hnow
  · exact fun hclear hopen j g hg hown => hbefore hclear hopen j g (hother hg hown) hown
  · exact fun j k g g' hg hg' hown hown' =>
      hs.one j k g g' (hother hg hown) (hother hg' hown') hown hown'

omit [DecidableEq ι] in
/-- A call let through an open circuit finds no unfinished probe: the circuit was tripped behind
the start of it, and the cooldown is longer than its timer. -/
theorem Orderly.no_probe {s : System ι} (hs : Orderly s) {t : ℚ}
    (hin_time : ∀ i, (s.calls i).InTime t) (hclear : s.circuit.halfOpenProbing = false)
    (hopen : 3 ≤ s.circuit.consecutiveTimeouts)
    (hcool : cooldownMs s.circuit.openCount ≤ t - s.circuit.circuitTrippedAt) {i : ι}
    {f : InFlight} (hf : s.calls i = .pending f) : ¬ f.Unfinished := by
  intro hown
  have hstarted := hs.before_trip hclear hopen i f hf hown
  have hin := hin_time i
  rw [hf] at hin
  have hdeadline := hin hown.2.2 (hs.timed i f hf hown.1)
  have hshort := hs.short i f hf
  have hlong := le_cooldownMs (hs.open_pos hopen)
  linarith

theorem Orderly.call {s : System ι} (hs : Orderly s) {t : ℚ} (hnow : s.now ≤ t) (i : ι)
    (hin_time : ∀ i, (s.calls i).InTime t) :
    Orderly (({ s with now := t } : System ι).call i) := by
  obtain ⟨st, health, hst, hcall⟩ | ⟨hcall, -⟩ | ⟨hcall, hclear, htimed, hopen, hcool⟩ :=
    call_cases { s with now := t } i
  · rw [hcall]
    exact hs.put hnow i _ (fun f hf => absurd hf (hst f)) hs.open_pos hs.probing_open
      hs.before_trip
  · rw [hcall]
    refine hs.put hnow i _ ?_ hs.open_pos hs.probing_open hs.before_trip
    intro f hf
    cases hf
    refine ⟨hs.short_policy, fun h => ?_, le_rfl, fun hown => ?_⟩
    · cases h
    · cases hown.1
  · -- the only unfinished probe is the call itself
    have hnone := fun j g => hs.no_probe (i := j) (f := g) hin_time hclear hopen hcool
    have hself : ∀ j g, (({ s with now := t } : System ι).call i).calls j = .pending g →
        g.Unfinished → j = i := by
      intro j g hg hown
      rw [hcall] at hg
      obtain ⟨hj, -⟩ | ⟨-, hold⟩ := pending_put.mp hg
      · exact hj
      · exact absurd hown (hnone j g hold)
    have hown : ∀ {j g}, (({ s with now := t } : System ι).call i).calls j = .pending g →
        g = { policy := s.policyInForce, probe := true, startedAt := t } ∨
          s.calls j = .pending g := by
      intro j g hg
      rw [hcall] at hg
      obtain ⟨-, hst⟩ | ⟨-, hold⟩ := pending_put.mp hg
      · exact .inl (Status.pending.inj hst).symm
      · exact .inr hold
    have hcircuit : (({ s with now := t } : System ι).call i).circuit =
        { s.circuit with halfOpenProbing := true } := by rw [hcall]; rfl
    have hpolicy : (({ s with now := t } : System ι).call i).policyInForce = s.policyInForce := by
      rw [hcall]
      rfl
    have htime : (({ s with now := t } : System ι).call i).now = t := by rw [hcall]; rfl
    refine ⟨hpolicy ▸ hs.short_policy, ?_, ?_, ?_, ?_, ?_, ?_, ?_⟩
    · intro j g hg
      obtain rfl | hold := hown hg
      · exact hs.short_policy
      · exact hs.short j g hold
    · intro j g hg
      obtain rfl | hold := hown hg
      · exact fun _ => htimed
      · exact hs.timed j g hold
    · intro j g hg
      rw [htime]
      obtain rfl | hold := hown hg
      · exact le_rfl
      · exact (hs.started j g hold).trans hnow
    · rw [hcircuit]
      exact hs.open_pos
    · rw [hcircuit]
      exact fun _ => hopen
    · intro hset
      rw [hcircuit] at hset
      cases hset
    · exact fun j k g g' hg hg' hg₁ hg₂ => (hself j g hg hg₁).trans (hself k g' hg' hg₂).symm

theorem Orderly.settle {s : System ι} (hs : Orderly s) {t : ℚ} (hnow : s.now ≤ t) {i : ι}
    {f : InFlight} (hf : s.calls i = .pending f) (e : Ending) :
    Orderly (({ s with now := t } : System ι).settle i f e) := by
  obtain ⟨st, health, hsettle, hst⟩ := settle_cases { s with now := t } i f e
  have hrecord := record_cases t s.circuit e.outcome
  rw [hsettle]
  refine hs.put hnow i health ?_ ?_ ?_ ?_
  · intro f' hf'
    obtain ⟨hpolicy, hprobe, hdone, hstarted⟩ := hst f' hf'
    rw [hpolicy, hprobe]
    refine ⟨hs.short i f hf, hs.timed i f hf, ?_, hdone⟩
    obtain hsame | hlater := hstarted
    · rw [hsame]
      exact (hs.started i f hf).trans hnow
    · exact hlater.le
  · intro hopen
    obtain hclosed | ⟨hpos, -⟩ := hrecord
    · exact absurd hopen (not_le.mpr hclosed)
    · exact hpos
  · intro hset
    rw [record_probing] at hset
    cases hset
  · intro _ hopen j g hg _
    obtain hclosed | ⟨-, htripped⟩ := hrecord
    · exact absurd hopen (not_le.mpr hclosed)
    · exact ((hs.started j g hg).trans hnow).trans_eq htripped.symm

theorem orderly_step {s s' : System ι} {l : Label ι} (hs : Orderly s) (hprompt : Prompt s l)
    (h : (machine ι).step s l = some s') : Orderly s' := by
  obtain ⟨p, rfl, rfl⟩ | ⟨i, t, rfl, -, hnow, rfl⟩ | ⟨i, f, e, t, rfl, hf, -, hnow, rfl⟩ |
    ⟨i, f, t, rfl, hf, -, hnow, rfl⟩ := step_cases h
  · exact ⟨hprompt, hs.short, hs.timed, hs.started, hs.open_pos, hs.probing_open,
      hs.before_trip, hs.one⟩
  · exact hs.call hnow i hprompt
  · exact hs.settle hnow hf e
  · refine hs.put hnow i _ ?_ hs.open_pos hs.probing_open hs.before_trip
    intro f' hf'
    have hlater := not_unfinished_of_proceed hf'
    rw [pending_of_proceed hf'] at hlater ⊢
    exact ⟨hs.short i f hf, hs.timed i f hf, le_rfl, hlater⟩

/-- **No two probes are in flight** in any interleaving in which timers are shorter than a minute
and fire in time, although a probe's flag may be lowered by any other call. -/
theorem one_probe_in_flight {s : System ι} (hs : (machine ι).Reachable Prompt s) {i j : ι}
    {f g : InFlight} (hf : s.calls i = .pending f) (hg : s.calls j = .pending g)
    (hown : f.Unfinished) (hown' : g.Unfinished) : i = j := by
  have horderly : Orderly s := by
    refine hs.invariant (P := Orderly) ?_ fun _ _ _ hP hprompt h => orderly_step hP hprompt h
    constructor <;> simp [machine, System.policyInForce, ProbesTimed]
    norm_num
  exact horderly.one i j f g hf hg hown hown'

theorem one_probe_in_flight_probedRun : ∃ s : System (Fin 6),
    (machine (Fin 6)).run probedRun = some s ∧ (s.calls 3).UnfinishedProbe ∧
      ∀ j g, s.calls j = .pending g → g.Unfinished → (3 : Fin 6) = j := by
  obtain ⟨s, hs, hprobe⟩ := Machine.exists_of_run_any (M := machine (Fin 6))
    (P := fun s => (s.calls 3).UnfinishedProbe) probedRun (by with_unfolding_all decide)
  have hguarded : (machine (Fin 6)).Guarded Prompt (machine (Fin 6)).init probedRun := by
    with_unfolding_all decide
  obtain ⟨f, hf, hown⟩ := hprobe.pending
  exact ⟨s, hs, hprobe, fun j g hg hown' =>
    one_probe_in_flight (Machine.reachable_of_run hguarded hs) hf hg hown hown'⟩

/-! ## An open circuit -/

/-- What holds of every circuit: it was not tripped in the future, and is open only when tripped. -/
structure Tripped (s : System ι) : Prop where
  tripped_le : s.circuit.circuitTrippedAt ≤ s.now
  open_pos : 3 ≤ s.circuit.consecutiveTimeouts → 1 ≤ s.circuit.openCount

theorem record_tripped_le {now : ℚ} {c : CircuitState} (h : c.circuitTrippedAt ≤ now)
    (o : Outcome) : (record now c o).circuitTrippedAt ≤ now := by
  cases o <;> simp only [record] <;> split_ifs <;> simp [h]

theorem tripped_step {s s' : System ι} {l : Label ι} (hs : Tripped s)
    (h : (machine ι).step s l = some s') : Tripped s' := by
  obtain ⟨p, rfl, rfl⟩ | ⟨i, t, rfl, -, hnow, rfl⟩ | ⟨i, f, e, t, rfl, hf, -, hnow, rfl⟩ |
    ⟨i, f, t, rfl, hf, -, hnow, rfl⟩ := step_cases h
  · exact ⟨hs.tripped_le, hs.open_pos⟩
  · obtain ⟨st, health, -, hcall⟩ | ⟨hcall, -⟩ | ⟨hcall, -⟩ := call_cases { s with now := t } i
    all_goals
      rw [hcall]
      exact ⟨hs.tripped_le.trans hnow, hs.open_pos⟩
  · obtain ⟨st, health, hsettle, -⟩ := settle_cases { s with now := t } i f e
    rw [hsettle]
    refine ⟨record_tripped_le (hs.tripped_le.trans hnow) _, fun hopen => ?_⟩
    obtain hclosed | ⟨hpos, -⟩ := record_cases t s.circuit e.outcome
    · exact absurd hopen (not_le.mpr hclosed)
    · exact hpos
  · exact ⟨hs.tripped_le.trans hnow, hs.open_pos⟩

/-- For a minute after `T` nothing but timeouts settles, and every policy has a timeout. -/
def OnlyTimeouts (T : ℚ) (_ : System ι) : Label ι → Prop
  | .setExporterPolicy p => 0 < p.overDefault.timeoutMs
  | .call _ t => t < T + 60000
  | .settle _ e _ => e.outcome = .timeout
  | .wake _ _ => True

instance (T : ℚ) (s : System ι) : DecidablePred (OnlyTimeouts T s)
  | .setExporterPolicy _ | .call _ _ => inferInstanceAs (Decidable (_ < _))
  | .settle _ _ _ => inferInstanceAs (Decidable (_ = _))
  | .wake _ _ => isTrue trivial

/-- A call that was not admitted: it has not come yet, or the cooldown turned it away. -/
def Status.NotAdmitted (st : Status) : Prop :=
  st = .idle ∨ st = .done .null ∨ st = .done (.rejected .tooManyTimeouts)

/-- The circuit is open since `T` at the earliest, nobody probes, and a call is not admitted. -/
structure Shut (T : ℚ) (i : ι) (s : System ι) : Prop where
  timed : 0 < s.policyInForce.timeoutMs
  is_open : 3 ≤ s.circuit.consecutiveTimeouts
  clear : s.circuit.halfOpenProbing = false
  count : 1 ≤ s.circuit.openCount
  tripped : T ≤ s.circuit.circuitTrippedAt
  now : T ≤ s.now
  not_admitted : (s.calls i).NotAdmitted

theorem record_timeout {now : ℚ} {c : CircuitState} (hopen : 3 ≤ c.consecutiveTimeouts)
    (hclear : c.halfOpenProbing = false) :
    record now c .timeout = { c with consecutiveTimeouts := c.consecutiveTimeouts + 1
                                     openCount := c.openCount + 1, circuitTrippedAt := now } := by
  have htrip : circuitBreakerThreshold ≤ c.consecutiveTimeouts + 1 := Nat.le_succ_of_le hopen
  simp only [record, hclear, Bool.false_eq_true, if_false, if_pos htrip]

/-- A call in the minute after the trip is turned away. -/
theorem Shut.call {T : ℚ} {i : ι} {s : System ι} (hs : Shut T i s) {t : ℚ} (hnow : s.now ≤ t)
    (ht : t < T + 60000) (j : ι) : Shut T i (({ s with now := t } : System ι).call j) := by
  have hcool : t - s.circuit.circuitTrippedAt < cooldownMs s.circuit.openCount := by
    have hlong := le_cooldownMs hs.count
    have htripped := hs.tripped
    linarith
  have hcheck : checkBreaker s.policyInForce t s.circuit = (.tooManyTimeouts, s.circuit) := by
    rw [checkBreaker, if_pos ⟨hs.timed, hs.is_open⟩, hs.clear, if_neg Bool.false_ne_true,
      if_pos hcool]
  have hcall : ({ s with now := t } : System ι).call j =
      ({ s with now := t } : System ι).put j s.circuit
        { s.health with exportFailures := s.health.exportFailures + 1 }
        (.done (if s.policyInForce.failOpen then .null else .rejected .tooManyTimeouts)) := by
    simp only [System.call, System.policyInForce] at hcheck ⊢
    rw [hcheck]
    rfl
  rw [hcall]
  refine ⟨hs.timed, hs.is_open, hs.clear, hs.count, hs.tripped, hs.now.trans hnow, ?_⟩
  by_cases hj : i = j
  · subst hj
    simp only [System.put, Function.update_self]
    split_ifs
    · exact .inr (.inl rfl)
    · exact .inr (.inr rfl)
  · simp only [System.put, Function.update_of_ne hj]
    exact hs.not_admitted

theorem Shut.step {T : ℚ} {i : ι} {s s' : System ι} {l : Label ι} (hs : Shut T i s)
    (hl : OnlyTimeouts T s l) (h : (machine ι).step s l = some s') : Shut T i s' := by
  have hothers : ∀ {j f} (_ : s.calls j = .pending f), i ≠ j := by
    rintro j f hf rfl
    have hnot := hs.not_admitted
    rw [hf] at hnot
    obtain h | h | h := hnot <;> cases h
  obtain ⟨p, rfl, rfl⟩ | ⟨j, t, rfl, -, hnow, rfl⟩ | ⟨j, f, e, t, rfl, hf, -, hnow, rfl⟩ |
    ⟨j, f, t, rfl, hf, -, hnow, rfl⟩ := step_cases h
  · exact ⟨hl, hs.is_open, hs.clear, hs.count, hs.tripped, hs.now, hs.not_admitted⟩
  · exact hs.call hnow hl j
  · obtain ⟨st, health, hsettle, -⟩ := settle_cases { s with now := t } j f e
    have htimeout : e.outcome = .timeout := hl
    rw [hsettle, htimeout, record_timeout hs.is_open hs.clear]
    refine ⟨hs.timed, Nat.le_succ_of_le hs.is_open, hs.clear, Nat.succ_pos _, hs.now.trans hnow,
      hs.now.trans hnow, ?_⟩
    simp only [System.put, Function.update_of_ne (hothers hf)]
    exact hs.not_admitted
  · refine ⟨hs.timed, hs.is_open, hs.clear, hs.count, hs.tripped, hs.now.trans hnow, ?_⟩
    simp only [System.put, Function.update_of_ne (hothers hf)]
    exact hs.not_admitted

/-- **A tripped circuit spares the exporter for a minute**: from any state reached in which it is
open, no call that comes within sixty seconds of the trip is let through at any point of the run,
as long as the calls before it that are still in flight time out. -/
theorem spared_for_a_minute {s s' : System ι} {ls : List (Label ι)}
    (hs : (machine ι).Reachable (fun _ _ => True) s) (htimed : 0 < s.policyInForce.timeoutMs)
    (hopen : 3 ≤ s.circuit.consecutiveTimeouts) (hclear : s.circuit.halfOpenProbing = false)
    (hls : (machine ι).Guarded (OnlyTimeouts s.circuit.circuitTrippedAt) s ls)
    (h : (machine ι).runFrom s ls = some s') {i : ι} (hidle : s.calls i = .idle) :
    (s'.calls i).NotAdmitted := by
  have htripped : Tripped s :=
    hs.invariant (P := Tripped) ⟨le_rfl, by simp [machine]⟩ fun _ _ _ hP _ h => tripped_step hP h
  have hshut : Shut s.circuit.circuitTrippedAt i s :=
    ⟨htimed, hopen, hclear, htripped.open_pos hopen, le_rfl, htripped.tripped_le, .inl hidle⟩
  exact (hls.keeps (P := Shut s.circuit.circuitTrippedAt i) (fun _ _ _ hP hl h => hP.step hl h)
    hshut h).not_admitted

/-- The circuit trips at 6, and a call comes after ten seconds. -/
theorem spared_for_a_minute_call : ∃ s s' : System (Fin 6),
    (machine (Fin 6)).run (probedRun.take 6) = some s ∧
      (machine (Fin 6)).runFrom s [.call 3 10006] = some s' ∧ (s'.calls 3).NotAdmitted := by
  obtain ⟨s, hs, htimed, hopen, hclear, hidle, hls, hend⟩ :=
    Machine.exists_of_run_any (M := machine (Fin 6)) (P := fun s =>
      0 < s.policyInForce.timeoutMs ∧ 3 ≤ s.circuit.consecutiveTimeouts ∧
        s.circuit.halfOpenProbing = false ∧ s.calls 3 = .idle ∧
        (machine (Fin 6)).Guarded (OnlyTimeouts s.circuit.circuitTrippedAt) s [.call 3 10006] ∧
        ((machine (Fin 6)).runFrom s [.call 3 10006]).isSome = true)
      (probedRun.take 6) (by with_unfolding_all decide)
  obtain ⟨s', hs'⟩ := Option.isSome_iff_exists.mp hend
  have hguarded : (machine (Fin 6)).Guarded (fun _ _ => True) (machine (Fin 6)).init
      (probedRun.take 6) := by
    simp [probedRun, Machine.Guarded]
  exact ⟨s, s', hs, hs', spared_for_a_minute (Machine.reachable_of_run hguarded hs) htimed hopen
    hclear hls hs' hidle⟩

end Telemetry.Breaker.TypeScript
