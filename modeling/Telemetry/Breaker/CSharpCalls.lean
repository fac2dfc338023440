import Telemetry.Lib.OwnerlessFlag
import Telemetry.Breaker.CSharp

/-!
# Concurrent calls on the C# breaker

Any number of `ExecuteAsync` calls on one signal's `CircuitState`. Between two passes of its
loop a call holds no lock, and within a pass it touches the circuit once, when it records;
so a pass is one step. `SetExporterPolicy` and `Reset` may come at any time.

Seen through `System.flag` the calls are an ownerless flag in which an exception that
leaves the first attempt abandons the slot.

## Main definitions

* `System`, `Label`, `machine` — the calls on one signal.
* `step_flag` — each step but a reset is an event of the ownerless flag, or none.
* `probe_slot_freed` — **the probe slot is released** as long as no probe leaves its
  first attempt unrecorded.
-/

namespace Telemetry.Breaker.CSharp

open Telemetry.Lib

/-- A call that the gate let through. -/
structure Running where
  policy : ExporterPolicy
  deadline : ℚ
  /-- Whether it was admitted as the half-open probe. -/
  probe : Bool
  index : ℕ := 0
  /-- Whether one of its attempts has been recorded. -/
  recorded : Bool := false
  deriving DecidableEq, Repr

/-- What became of a call. -/
inductive Status
  | idle
  /-- The gate turned it away. -/
  | rejected (e : Exit)
  | running (r : Running)
  | left (r : Running) (e : Exit)
  deriving DecidableEq, Repr

/-- A call that was admitted and has not left. -/
def Status.Running : Status → Prop
  | .running _ => True
  | _ => False

/-- An admitted probe that is running and has recorded nothing. -/
def Status.UnfinishedProbe : Status → Prop
  | .running r => r.probe = true ∧ r.recorded = false
  | _ => False

/-- An admitted probe that left without a record. -/
def Status.LostProbe : Status → Prop
  | .left r _ => r.probe = true ∧ r.recorded = false
  | _ => False

theorem Status.UnfinishedProbe.running {st : Status} (h : st.UnfinishedProbe) : st.Running := by
  cases st with
  | running r => trivial
  | idle => exact h
  | rejected e => exact h
  | left r e => exact h

/-- One signal and all calls on it. -/
structure System (ι : Type) where
  circuit : CircuitState := {}
  policy : ExporterPolicy := {}
  /-- The last reading of the breaker's clock. -/
  now : ℚ := 0
  calls : ι → Status := fun _ => .idle

/-- What happens next. -/
inductive Label (ι : Type)
  | setPolicy (policy : ExporterPolicy)
  /-- `Resilience.Reset`. -/
  | reset
  /-- Call `i` comes to the gate at time `t`. -/
  | start (i : ι) (deadline t : ℚ)
  /-- Call `i` goes through one pass of the loop. -/
  | pass (i : ι) (p : Pass)

variable {ι : Type} [DecidableEq ι]

namespace System

/-- The circuit and one call's status change. -/
def put (s : System ι) (i : ι) (circuit : CircuitState) (st : Status) : System ι :=
  { s with circuit := circuit, calls := Function.update s.calls i st }

/-- The gate. A call that goes through an open circuit is the probe. -/
def start (s : System ι) (i : ι) (deadline t : ℚ) : System ι :=
  match gate s.policy t s.circuit with
  | (circuit, some e) => s.put i circuit (.rejected e)
  | (circuit, none) =>
      s.put i circuit (.running ⟨s.policy, deadline,
        decide (0 < s.policy.timeoutSeconds) &&
          decide (circuitBreakerThreshold ≤ s.circuit.consecutiveTimeouts), 0, false⟩)

/-- What a pass leaves of the call: its history goes on. -/
def after (r : Running) (p : Pass) : Option Exit → Status
  | none => .running
      { r with
        index := r.index + 1
        recorded := r.recorded || passRecords r.policy r.deadline r.index p }
  | some e => .left
      { r with recorded := r.recorded || passRecords r.policy r.deadline r.index p } e

/-- One pass of the loop. -/
def pass (s : System ι) (i : ι) (r : Running) (p : Pass) : System ι :=
  match loopBody r.policy r.deadline r.index p s.circuit with
  | (circuit, exit) => s.put i circuit (after r p exit)

theorem pass_eq (s : System ι) (i : ι) (r : Running) (p : Pass) :
    s.pass i r p = s.put i (loopBody r.policy r.deadline r.index p s.circuit).1
      (after r p (loopBody r.policy r.deadline r.index p s.circuit).2) := rfl

end System

/-- The calls as a machine. -/
def machine (ι : Type) [DecidableEq ι] : Machine (System ι) (Label ι) where
  init := {}
  step s
    | .setPolicy policy => some { s with policy := policy.clamped }
    | .reset => some { s with circuit := {}, policy := {} }
    | .start i deadline t =>
        if s.calls i = .idle ∧ s.now ≤ t then
          some (({ s with now := t } : System ι).start i deadline t)
        else none
    | .pass i p =>
        match s.calls i with
        | .running r =>
            if s.now ≤ p.attempt.recordedAt then
              some (({ s with now := p.attempt.recordedAt } : System ι).pass i r p)
            else none
        | _ => none

/-! ## What a step does -/

/-- The enabled steps, one clause a label. -/
theorem step_cases {s s' : System ι} {l : Label ι} (h : (machine ι).step s l = some s') :
    (∃ policy, l = .setPolicy policy ∧ s' = { s with policy := policy.clamped }) ∨
    (l = .reset ∧ s' = { s with circuit := {}, policy := {} }) ∨
    (∃ i deadline t, l = .start i deadline t ∧ s.calls i = .idle ∧
      s' = ({ s with now := t } : System ι).start i deadline t) ∨
    (∃ i r p, l = .pass i p ∧ s.calls i = .running r ∧
      s' = ({ s with now := p.attempt.recordedAt } : System ι).pass i r p) := by
  cases l with
  | setPolicy policy =>
      left
      cases h
      exact ⟨policy, rfl, rfl⟩
  | reset =>
      right; left
      cases h
      exact ⟨rfl, rfl⟩
  | start i deadline t =>
      right; right; left
      simp only [machine, Option.ite_none_right_eq_some, Option.some.injEq] at h
      exact ⟨i, deadline, t, rfl, h.1.1, h.2.symm⟩
  | pass i p =>
      right; right; right
      simp only [machine] at h
      split at h
      · rename_i r hr
        simp only [Option.ite_none_right_eq_some, Option.some.injEq] at h
        exact ⟨i, r, p, rfl, hr, h.2.symm⟩
      · cases h

/-! ## The abstraction to an ownerless flag -/

/-- The probe flag and the unfinished probes. -/
def System.flag (s : System ι) : OwnerlessFlag ι :=
  .ofParties Status.UnfinishedProbe s.circuit.halfOpenProbing s.calls

theorem start_flag {s : System ι} {i : ι} (hidle : s.calls i = .idle) (deadline t : ℚ) :
    (s.start i deadline t).flag = s.flag ∨
      s.circuit.halfOpenProbing = false ∧
        (s.start i deadline t).flag = ⟨true, insert i s.flag.holders⟩ := by
  have hnot : ¬ (s.calls i).UnfinishedProbe := by simp [hidle, Status.UnfinishedProbe]
  have hsame : ∀ st : Status, ¬ st.UnfinishedProbe → (s.put i s.circuit st).flag = s.flag := by
    intro st hst
    exact OwnerlessFlag.ofParties_update_of_iff (iff_of_false hst hnot)
  simp only [System.start, gate]
  by_cases htimeout : 0 < s.policy.timeoutSeconds
  · rw [if_pos htimeout]
    cases hallow : s.circuit.allowAttempt t with
    | mk allowed circuit =>
        rcases CircuitState.allowAttempt_cases hallow with
          ⟨rfl, rfl, hclosed⟩ | ⟨rfl, rfl, -, -⟩ | ⟨rfl, rfl, hopen, hclear⟩
        · left
          apply hsame
          simp [Status.UnfinishedProbe, hclosed]
        · left
          apply hsame
          simp [Status.UnfinishedProbe]
        · right
          refine ⟨hclear, OwnerlessFlag.ofParties_update_of_holds ?_⟩
          simp [Status.UnfinishedProbe, htimeout, hopen]
  · rw [if_neg htimeout]
    left
    apply hsame
    simp [Status.UnfinishedProbe, htimeout]

/-- A pass that records is a report. -/
theorem pass_flag_of_records {s : System ι} {i : ι} {r : Running} {p : Pass}
    (h : passRecords r.policy r.deadline r.index p = true) :
    (s.pass i r p).flag = ⟨false, s.flag.holders \ {i}⟩ := by
  have hdone : ∀ exit, ¬ (System.after r p exit).UnfinishedProbe := by
    intro exit
    cases exit <;> simp [System.after, Status.UnfinishedProbe, h]
  rw [System.pass_eq, System.flag]
  simp only [System.put, loopBody_of_records h]
  exact OwnerlessFlag.ofParties_update_of_not (hdone _)

/-- A pass that does not record leaves the flag as it is, and the call leaves. -/
theorem pass_of_not_records {s : System ι} {i : ι} {r : Running} {p : Pass}
    (h : passRecords r.policy r.deadline r.index p = false) :
    ∃ e, s.pass i r p = s.put i s.circuit (.left r e) := by
  rcases loopBody_of_not_records (c := s.circuit) h with ⟨e, he⟩
  refine ⟨e, ?_⟩
  simp only [System.pass, he, System.after, h, Bool.or_false]

/-- **Every step but a reset is an event of the ownerless flag, or none**; only a pass that
does not record quits. -/
theorem step_flag {s s' : System ι} {l : Label ι} (h : (machine ι).step s l = some s')
    (hl : l ≠ .reset) :
    s'.flag = s.flag ∨ ∃ e, (OwnerlessFlag.machine ι).step s.flag e = some s'.flag ∧
      ∀ i, e = .quit i → ∃ r p, l = .pass i p ∧ s.calls i = .running r ∧
        passRecords r.policy r.deadline r.index p = false := by
  rcases step_cases h with ⟨policy, rfl, rfl⟩ | ⟨rfl, -⟩ | ⟨i, deadline, t, rfl, hidle, rfl⟩ |
    ⟨i, r, p, rfl, hr, rfl⟩
  · left
    rfl
  · exact absurd rfl hl
  · rcases start_flag (s := { s with now := t }) hidle deadline t with hsame | ⟨hclear, hclaim⟩
    · exact .inl hsame
    · right
      refine ⟨.claim i, ?_, by simp⟩
      rw [hclaim]
      simpa [OwnerlessFlag.machine, System.flag, OwnerlessFlag.ofParties] using hclear
  · right
    cases hrecords : passRecords r.policy r.deadline r.index p with
    | true =>
        refine ⟨.report i, ?_, by simp⟩
        rw [pass_flag_of_records hrecords]
        rfl
    | false =>
        refine ⟨.quit i, ?_, ?_⟩
        · obtain ⟨e, he⟩ := pass_of_not_records
            (s := { s with now := p.attempt.recordedAt }) (i := i) hrecords
          rw [he]
          exact congrArg some
            (OwnerlessFlag.ofParties_update_of_not (by simp [Status.UnfinishedProbe])).symm
        · rintro _ ⟨⟩
          exact ⟨r, p, rfl, hr, hrecords⟩

/-! ## The invariant -/

/-- A probe that has recorded nothing goes through no pass that an exception leaves before
the record: the delegate does not give up on the caller's own cancellation, and the
deadline is not farther away than a timer reaches. -/
def ProbesRecord (s : System ι) : Label ι → Prop
  | .pass i p => ∀ r, s.calls i = .running r → r.probe = true → r.recorded = false →
      ¬ LeavesUnrecorded r.deadline p.attempt
  | _ => True

/-- What every step keeps. -/
structure Inv (s : System ι) : Prop where
  attended : OwnerlessFlag.Attended s.flag
  /-- A call that has recorded nothing is in its first pass. -/
  first : ∀ i r, s.calls i = .running r → r.recorded = false → r.index = 0
  none_lost : ∀ i, ¬ (s.calls i).LostProbe

theorem inv_init : Inv (machine ι).init where
  attended := by simp [OwnerlessFlag.Attended, System.flag, OwnerlessFlag.ofParties, machine]
  first := by simp [machine]
  none_lost := by simp [machine, Status.LostProbe]

/-- One call gets a new status. -/
theorem Inv.put {s : System ι} {i : ι} {circuit : CircuitState} {st : Status} (hs : Inv s)
    (hflag : OwnerlessFlag.Attended (s.put i circuit st).flag)
    (hfirst : ∀ r, st = .running r → r.recorded = false → r.index = 0)
    (hlost : ¬ st.LostProbe) : Inv (s.put i circuit st) where
  attended := hflag
  first := by
    intro j r
    simp only [System.put]
    by_cases hj : j = i
    · subst hj
      rw [Function.update_self]
      exact hfirst r
    · rw [Function.update_of_ne hj]
      exact hs.first j r
  none_lost := by
    intro j
    simp only [System.put]
    by_cases hj : j = i
    · subst hj
      rwa [Function.update_self]
    · rw [Function.update_of_ne hj]
      exact hs.none_lost j

omit [DecidableEq ι] in
/-- The clock and the policy are not part of the invariant. -/
theorem Inv.of_same {s s' : System ι} (hs : Inv s) (hcircuit : s'.circuit = s.circuit)
    (hcalls : s'.calls = s.calls) : Inv s' where
  attended := by
    have hflag : s'.flag = s.flag := by rw [System.flag, hcircuit, hcalls, System.flag]
    rw [hflag]
    exact hs.attended
  first := by
    rw [hcalls]
    exact hs.first
  none_lost := by
    rw [hcalls]
    exact hs.none_lost

/-- The flag after a guarded step has a holder, if it is raised. -/
theorem attended_step {s s' : System ι} {l : Label ι} (hs : Inv s) (hg : ProbesRecord s l)
    (h : (machine ι).step s l = some s') : OwnerlessFlag.Attended s'.flag := by
  by_cases hl : l = .reset
  · subst hl
    cases h
    simp [OwnerlessFlag.Attended, System.flag, OwnerlessFlag.ofParties]
  rcases step_flag h hl with hsame | ⟨e, he, hquit⟩
  · rw [hsame]
    exact hs.attended
  · refine OwnerlessFlag.attended_step hs.attended ?_ he
    cases e with
    | claim i => trivial
    | report i => trivial
    | quit i =>
        rcases hquit i rfl with ⟨r, p, rfl, hr, hrecords⟩
        intro (hholds : (s.calls i).UnfinishedProbe)
        rw [hr] at hholds
        have hindex := hs.first i r hr hholds.2
        rw [hindex, ← Bool.not_eq_true, passRecords_first, not_not] at hrecords
        exact hg r hr hholds.1 hholds.2 hrecords

/-- A started call is in its first pass. -/
theorem Inv.start {s : System ι} {i : ι} {deadline t : ℚ} (hs : Inv s)
    (hflag : OwnerlessFlag.Attended (s.start i deadline t).flag) :
    Inv (s.start i deadline t) := by
  rw [System.start] at hflag ⊢
  cases hgate : gate s.policy t s.circuit with
  | mk circuit exit =>
      rw [hgate] at hflag
      cases exit with
      | some e => exact hs.put hflag (by simp) (by simp [Status.LostProbe])
      | none =>
          apply hs.put hflag
          · rintro r ⟨⟩ -
            rfl
          · simp [Status.LostProbe]

/-- A pass leaves no lost probe, if an unrecorded probe's pass records. -/
theorem Inv.pass {s : System ι} {i : ι} {r : Running} {p : Pass} (hs : Inv s)
    (hr : s.calls i = .running r) (hg : ProbesRecord s (.pass i p))
    (hflag : OwnerlessFlag.Attended (s.pass i r p).flag) : Inv (s.pass i r p) := by
  cases hrecords : passRecords r.policy r.deadline r.index p with
  | true =>
      rw [System.pass_eq] at hflag ⊢
      generalize (loopBody r.policy r.deadline r.index p s.circuit).2 = exit at hflag ⊢
      apply hs.put hflag
      · intro r' hr' hnot
        cases exit with
        | none =>
            cases hr'
            simp [hrecords] at hnot
        | some e => cases hr'
      · cases exit <;> simp [System.after, Status.LostProbe, hrecords]
  | false =>
      rcases pass_of_not_records (s := s) (i := i) hrecords with ⟨e, he⟩
      rw [he] at hflag ⊢
      apply hs.put hflag
      · rintro r' ⟨⟩
      · rintro ⟨hprobe, hnot⟩
        have hindex := hs.first i r hr hnot
        rw [hindex, ← Bool.not_eq_true, passRecords_first, not_not] at hrecords
        exact hg r hr hprobe hnot hrecords

theorem inv_step {s s' : System ι} {l : Label ι} (hs : Inv s) (hg : ProbesRecord s l)
    (h : (machine ι).step s l = some s') : Inv s' := by
  have hflag := attended_step hs hg h
  rcases step_cases h with ⟨policy, rfl, rfl⟩ | ⟨rfl, rfl⟩ | ⟨i, deadline, t, rfl, -, rfl⟩ |
    ⟨i, r, p, rfl, hr, rfl⟩
  · exact hs.of_same rfl rfl
  · exact ⟨hflag, hs.first, hs.none_lost⟩
  · have hclock : Inv { s with now := t } := hs.of_same rfl rfl
    exact hclock.start hflag
  · have hclock : Inv { s with now := p.attempt.recordedAt } := hs.of_same rfl rfl
    exact hclock.pass hr hg hflag

theorem inv_of_reachable {s : System ι} (hs : (machine ι).Reachable ProbesRecord s) : Inv s :=
  hs.invariant (P := Inv) inv_init fun _ _ _ h hg hstep => inv_step h hg hstep

/-! ## The slot -/

/-- A call that the gate rejects after the cooldown is rejected because of the flag. -/
theorem probing_of_rejected {c c' : CircuitState} {t : ℚ} (h : c.allowAttempt t = (false, c'))
    (hcooldown : c.cooldownRemaining t ≤ 0) : c.halfOpenProbing = true := by
  rcases CircuitState.allowAttempt_cases h with ⟨hallowed, -⟩ | ⟨-, -, -, hwhy⟩ | ⟨hallowed, -⟩
  · cases hallowed
  · exact hwhy.resolve_right (not_lt.mpr hcooldown)
  · cases hallowed

/-- **The probe slot is released.** A probe that runs alone leaves the flag clear if and
only if its first attempt is not left unrecorded. In a run of concurrent calls in which no
unrecorded probe's attempt is, no probe has left without a record, the flag is clear
whenever no admitted call is running, and a call rejected after the cooldown finds a probe
that is running. -/
theorem probe_slot_freed (ι : Type) [DecidableEq ι] :
    (∀ policy deadline now passes c, AdmittedAsProbe policy now c →
      ((executeAsync policy deadline now passes c).1.halfOpenProbing = false ↔
        ¬ LeavesUnrecorded deadline (passes 0).attempt)) ∧
    ∀ s : System ι, (machine ι).Reachable ProbesRecord s →
      (∀ i, ¬ (s.calls i).LostProbe) ∧
      ((∀ i, ¬ (s.calls i).Running) → s.circuit.halfOpenProbing = false ∧
        ∃ t, s.now ≤ t ∧ (s.circuit.allowAttempt t).1 = true) ∧
      ∀ t, (s.circuit.allowAttempt t).1 = false → s.circuit.cooldownRemaining t ≤ 0 →
        ∃ i, (s.calls i).UnfinishedProbe := by
  constructor
  · intro policy deadline now passes c hprobe
    exact probe_clears_flag_iff hprobe
  · intro s hs
    have hinv := inv_of_reachable hs
    refine ⟨hinv.none_lost, ?_, ?_⟩
    · intro hnone
      have hclear : s.circuit.halfOpenProbing = false := by
        by_contra hset
        rw [Bool.not_eq_false] at hset
        rcases hinv.attended hset with ⟨i, hi⟩
        exact hnone i (Status.UnfinishedProbe.running hi)
      exact ⟨hclear, CircuitState.allowed_of_clear hclear s.now⟩
    · intro t hrejected hcooldown
      exact hinv.attended (probing_of_rejected (Prod.ext hrejected rfl) hcooldown)

/-! ## Runs -/

instance (s : System ι) (i : ι) (p : Pass) : Decidable (ProbesRecord s (.pass i p)) :=
  match h : s.calls i with
  | .running r =>
      decidable_of_iff
        (r.probe = true → r.recorded = false → ¬ LeavesUnrecorded r.deadline p.attempt)
        (by simp [ProbesRecord, h])
  | .idle => .isTrue (by simp [ProbesRecord, h])
  | .rejected _ => .isTrue (by simp [ProbesRecord, h])
  | .left _ _ => .isTrue (by simp [ProbesRecord, h])

instance (s : System ι) (l : Label ι) : Decidable (ProbesRecord s l) :=
  match l with
  | .setPolicy _ => inferInstanceAs (Decidable True)
  | .reset => inferInstanceAs (Decidable True)
  | .start .. => inferInstanceAs (Decidable True)
  | .pass i p => inferInstanceAs (Decidable (ProbesRecord s (.pass i p)))

/-- Call `i` starts at `t`, with a deadline one second on, and its only attempt ends so. -/
def callAt (i : Fin 4) (t : ℚ) (ending : Ending) (cancelled : Bool) : List (Label (Fin 4)) :=
  [.start i (t + 1) t, .pass i { attempt := ⟨t, ending, cancelled, t⟩ }]

/-- Calls 0, 1 and 2 time out, which trips the circuit at time 3. -/
def trippedRun : List (Label (Fin 4)) :=
  callAt 0 1 .timeoutException false ++ callAt 1 2 .timeoutException false ++
    callAt 2 3 .timeoutException false

/-- While call 3 is probing every call is rejected, and call 3 is the reason. -/
theorem probe_slot_freed_probing : ∃ s,
    (machine (Fin 4)).run (trippedRun ++ [.start 3 91 90]) = some s ∧
      (s.circuit.allowAttempt 90).1 = false ∧ ∃ i, (s.calls i).UnfinishedProbe := by
  let ls := trippedRun ++ [.start 3 91 90]
  have hguard : (machine (Fin 4)).Guarded ProbesRecord (machine (Fin 4)).init ls := by
    decide +kernel
  obtain ⟨s, hrun, hrejected, hcooldown⟩ := Machine.exists_of_run_any (M := machine (Fin 4))
    (P := fun s => (s.circuit.allowAttempt 90).1 = false ∧ s.circuit.cooldownRemaining 90 ≤ 0)
    ls (by decide +kernel)
  exact ⟨s, hrun, hrejected, ((probe_slot_freed (Fin 4)).2 s
    (Machine.reachable_of_run hguard hrun)).2.2 90 hrejected hcooldown⟩

instance (st : Status) : Decidable st.Running :=
  match st with
  | .idle => inferInstanceAs (Decidable False)
  | .rejected _ => inferInstanceAs (Decidable False)
  | .running _ => inferInstanceAs (Decidable True)
  | .left _ _ => inferInstanceAs (Decidable False)

instance (st : Status) : Decidable st.LostProbe :=
  match st with
  | .idle => inferInstanceAs (Decidable False)
  | .rejected _ => inferInstanceAs (Decidable False)
  | .running _ => inferInstanceAs (Decidable False)
  | .left r _ => inferInstanceAs (Decidable (r.probe = true ∧ r.recorded = false))

/-- The probe gives up on its caller's cancellation: it has left without a record, no call
is running, and every later call is rejected. -/
theorem cancelled_probe_leaks : ∃ s,
    (machine (Fin 4)).run (trippedRun ++ callAt 3 90 .operationCanceledException true) = some s ∧
      (s.calls 3).LostProbe ∧ (∀ i, ¬ (s.calls i).Running) ∧
      s.circuit.halfOpenProbing = true ∧ ∀ t, s.circuit.allowAttempt t = (false, s.circuit) := by
  obtain ⟨s, hrun, hlost, hnone, hset, hopen⟩ := Machine.exists_of_run_any
    (M := machine (Fin 4))
    (P := fun s => (s.calls 3).LostProbe ∧ (∀ i, ¬ (s.calls i).Running) ∧
      s.circuit.halfOpenProbing = true ∧
      ¬ s.circuit.consecutiveTimeouts < circuitBreakerThreshold)
    (trippedRun ++ callAt 3 90 .operationCanceledException true) (by decide +kernel)
  refine ⟨s, hrun, hlost, hnone, hset, ?_⟩
  intro t
  exact CircuitState.allowAttempt_of_probing t hopen hset

end Telemetry.Breaker.CSharp
