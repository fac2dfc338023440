import Telemetry.Lib.Abandoned
import Telemetry.Lib.Number
import Telemetry.Lib.Run

/-!
# Bounded drains in the Rust SDK

`otel/bounded.rs`: a flush or a teardown runs on a worker of its own while the caller waits for its
report at most until a deadline. A caller that gives up charges a slot of a process-wide budget
unless the worker has ended, and a worker that ends pays back what was charged for it.

The worker pays back as the last thing it does, after the job. A job that panics unwinds past it:
the report never comes, so that the caller takes the closed channel for an expired deadline, and
the slot is never paid back.

## Main definitions

* `drainDeadline`, `noteWorkerFinished`, `noteWorkerAbandoned` — the functions of the module.
* `Drain`, `Drain.step` — one drain: what its caller and its worker do next.
* `State`, `Label`, `machine` — any number of drains, interleaved.
* `State.Lawful` — the budget is what is abandoned and still running, and no drain is reported late
  that was not.
* `NoPanic` — no job panics that is reported late, before or after.

## Main results

* `lawful_iff_noPanic` — **the budget is exact throughout a run** iff every step is such.
-/

namespace Telemetry.Drains.Rust

open Telemetry.Lib

/-- `MAX_DRAIN_SECONDS`. -/
def maxDrainSeconds : ℚ := 86400

/-- `MAX_ABANDONED_WORKERS`. -/
def maxAbandonedWorkers : ℕ := 8

/-- `drain_budget_saturated`. -/
def drainBudgetSaturated (count : ℕ) : Bool := maxAbandonedWorkers ≤ count

/-- `drain_deadline`: `none` where no bound is asked for. -/
def drainDeadline : Number → Option ℚ
  | .nan => none
  | .num x =>
      if x = ⊤ then none
      else if x ≤ 0 then some 0
      else some (min ((x.unbotD ⊤).untopD 0) maxDrainSeconds)

/-- `DrainAccounting`. -/
abbrev DrainAccounting := Arbiter

/-- `note_worker_finished`, with what becomes of `ABANDONED_WORKERS`. -/
def noteWorkerFinished (count : ℕ) (state : DrainAccounting) : ℕ × DrainAccounting :=
  (if state.counted then count - 1 else count, { state with finished := true })

/-- `note_worker_abandoned`, with what becomes of `ABANDONED_WORKERS`. -/
def noteWorkerAbandoned (count : ℕ) (state : DrainAccounting) : ℕ × DrainAccounting :=
  if state.finished then (count, state) else ((count + 1) % 2 ^ 32, { state with counted := true })

/-- `DrainOutcome`. -/
inductive DrainOutcome
  | drained
  | failed
  | timedOut
  deriving DecidableEq, Repr

/-- `completed_drain_outcome`. -/
def completedDrainOutcome (exported : Bool) : DrainOutcome := if exported then .drained else .failed

/-- `bounded_flush_with` and `bounded_teardown_with`. -/
inductive Kind
  | flush
  | teardown
  deriving DecidableEq, Repr

/-- What the call returns: a teardown has nothing to report. -/
def Kind.report : Kind → DrainOutcome → Option DrainOutcome
  | .flush, outcome => some outcome
  | .teardown, _ => none

/-- Where the worker is. -/
inductive Worker
  /-- In the job, which may take any time or block for good. -/
  | running
  /-- The job returned and its report is in the channel. -/
  | sent (exported : Bool)
  /-- The bookkeeping is done too. -/
  | ended (exported : Bool)
  /-- The job panicked. The channel is closed, and nothing was sent. -/
  | panicked
  deriving DecidableEq, Repr

/-- Where the caller is. -/
inductive Caller
  /-- About to spawn the worker. -/
  | starting
  /-- Running the job itself, without a deadline. -/
  | inline
  /-- In `recv_timeout`. -/
  | waiting
  /-- `recv_timeout` returned an error. -/
  | expired
  /-- Returned after it reported that the deadline expired. -/
  | abandoned (report : Option DrainOutcome)
  | returned (report : Option DrainOutcome)
  /-- The job panicked in the caller. -/
  | panicked
  deriving DecidableEq, Repr

/-- One call, with its worker once there is one. -/
structure Drain where
  kind : Kind
  caller : Caller
  worker : Option Worker := none
  acct : DrainAccounting := {}
  /-- Whether the budget was saturated when the call began. -/
  saturated : Bool
  /-- Where the worker was when the deadline elapsed, if it has. -/
  atDeadline : Option Worker := none
  deriving DecidableEq, Repr

/-- What may happen to a drain next. -/
inductive Event
  | spawn (ok : Bool)
  | inlineReturns (exported : Bool)
  | inlinePanics
  /-- The job returns, and its report is sent. -/
  | workerReturns (exported : Bool)
  /-- `note_worker_finished`, and the thread ends. -/
  | workerEnds
  | workerPanics
  /-- The deadline elapses. -/
  | deadline
  /-- `recv_timeout` returns what was sent. -/
  | receive
  /-- `recv_timeout` returns an error: nothing was sent until the deadline, or never will be. -/
  | expire
  /-- `note_worker_abandoned`, and the caller returns. -/
  | abandon
  deriving DecidableEq, Repr

namespace Drain

/-- One step of a drain, with `ABANDONED_WORKERS`. -/
def step (count : ℕ) (d : Drain) : Event → Option (ℕ × Drain)
  | .spawn ok =>
      if d.caller = .starting then
        some (count, if ok then { d with caller := .waiting, worker := some .running }
          else { d with caller := .inline })
      else none
  | .inlineReturns exported =>
      if d.caller = .inline then
        some (count,
          { d with caller := .returned (d.kind.report (completedDrainOutcome exported)) })
      else none
  | .inlinePanics =>
      if d.caller = .inline then some (count, { d with caller := .panicked }) else none
  | .workerReturns exported =>
      if d.worker = some .running then some (count, { d with worker := some (.sent exported) })
      else none
  | .workerEnds =>
      match d.worker with
      | some (.sent exported) =>
          some ((noteWorkerFinished count d.acct).1,
            { d with
              worker := some (.ended exported)
              acct := (noteWorkerFinished count d.acct).2 })
      | _ => none
  | .workerPanics =>
      if d.worker = some .running then some (count, { d with worker := some .panicked }) else none
  | .deadline =>
      if d.caller = .waiting ∧ d.atDeadline = none then
        some (count, { d with atDeadline := d.worker })
      else none
  | .receive =>
      match d.caller, d.worker with
      | .waiting, some (.sent exported) | .waiting, some (.ended exported) =>
          some (count,
            { d with caller := .returned (d.kind.report (completedDrainOutcome exported)) })
      | _, _ => none
  | .expire =>
      if d.caller = .waiting ∧ (d.atDeadline = some .running ∨ d.worker = some .panicked) then
        some (count, { d with caller := .expired })
      else none
  | .abandon =>
      if d.caller = .expired then
        some ((noteWorkerAbandoned count d.acct).1,
          { d with
            caller := .abandoned (d.kind.report .timedOut)
            acct := (noteWorkerAbandoned count d.acct).2 })
      else none

/-- The caller reported that the deadline expired. -/
def reported (d : Drain) : Bool :=
  match d.caller with
  | .abandoned _ => true
  | _ => false

/-- The worker thread has ended. -/
def ended (d : Drain) : Bool :=
  match d.worker with
  | some (.ended _) | some .panicked => true
  | _ => false

/-- The call returned `TimedOut`. -/
def timedOut (d : Drain) : Bool :=
  match d.caller with
  | .abandoned report | .returned report => report = some .timedOut
  | _ => false

/-- The deadline elapsed while the worker had not ended. -/
def elapsedFirst (d : Drain) : Bool :=
  match d.atDeadline with
  | some .running | some (.sent _) => true
  | _ => false

/-- Reported late, and the worker still there. -/
def outstanding (d : Drain) : Bool := d.reported && !d.ended

end Drain

/-- `ABANDONED_WORKERS`, and all calls there were. -/
structure State where
  count : ℕ := 0
  drains : List Drain := []
  deriving DecidableEq, Repr

/-- A call, or what happens to the `i`-th one. -/
inductive Label
  | call (kind : Kind) (timeoutSeconds : Option Number) (configuredDrainSeconds : Number)
  | drain (i : ℕ) (event : Event)
  deriving DecidableEq

/-- What a call does first: it runs the job itself if there is no deadline, and a flush declines if
the budget is saturated. -/
def begun (kind : Kind) (timeoutSecs : Number) (count : ℕ) : Drain where
  kind := kind
  saturated := drainBudgetSaturated count
  caller :=
    match drainDeadline timeoutSecs with
    | none => .inline
    | some _ =>
        if kind = .flush ∧ drainBudgetSaturated count then .returned (some .timedOut) else .starting

/-- The runs. -/
def machine : Machine State Label where
  init := {}
  step s
    | .call kind timeoutSeconds configured =>
        some { s with drains := s.drains ++ [begun kind (timeoutSeconds.getD configured) s.count] }
    | .drain i event =>
        (s.drains[i]?.bind fun d => d.step s.count event).map fun r =>
          { count := r.1, drains := s.drains.set i r.2 }

/-- **The law of the budget**: the count is the number of drains that were reported late and whose
worker is still there, and a drain is reported late only if its deadline elapsed before its worker
ended, or the budget was saturated when it was called. -/
def State.Lawful (s : State) : Prop :=
  s.count = s.drains.countP Drain.outstanding ∧
    ∀ d ∈ s.drains, d.timedOut = true → d.elapsedFirst = true ∨ d.saturated = true

/-- The worker does not panic after its drain was reported late, the drain is not reported late
after its worker panicked, and the budget has room to count. -/
def Drain.NoPanic (count : ℕ) (d : Drain) : Event → Prop
  | .workerPanics => d.reported = false
  | .abandon => d.worker ≠ some .panicked ∧ (d.acct.finished = false → count + 1 < 2 ^ 32)
  | _ => True

/-- No job panics that is reported late, before or after. -/
def NoPanic (s : State) : Label → Prop
  | .call _ _ _ => True
  | .drain i event => ∀ d ∈ s.drains[i]?, d.NoPanic s.count event

instance (count : ℕ) (d : Drain) : ∀ event, Decidable (d.NoPanic count event)
  | .workerPanics => inferInstanceAs (Decidable (d.reported = false))
  | .abandon => inferInstanceAs (Decidable (d.worker ≠ some .panicked ∧
      (d.acct.finished = false → count + 1 < 2 ^ 32)))
  | .spawn _ | .inlineReturns _ | .inlinePanics | .workerReturns _ | .workerEnds | .deadline
  | .receive | .expire => inferInstanceAs (Decidable True)

instance : ∀ s label, Decidable (NoPanic s label)
  | _, .call _ _ _ => inferInstanceAs (Decidable True)
  | s, .drain i event => inferInstanceAs (Decidable (∀ d ∈ s.drains[i]?, d.NoPanic s.count event))

/-! ## One drain -/

/-- What the two flags of a drain say, and what its caller may rely on. -/
structure Drain.Sound (d : Drain) : Prop where
  unspawned : d.caller = .starting → d.worker = none
  finished_iff : d.acct.finished = true ↔ ∃ exported, d.worker = some (.ended exported)
  reported_of_counted : d.acct.counted = true → d.reported = true
  settled : d.reported = true → d.acct.counted = true ∨ d.acct.finished = true
  not_panicked : d.reported = true → d.worker ≠ some .panicked
  elapsed_of_expired : d.caller = .expired →
    d.atDeadline = some .running ∨ d.worker = some .panicked
  elapsed_of_timedOut : d.timedOut = true → d.elapsedFirst = true ∨ d.saturated = true

variable {d d' : Drain} {count count' : ℕ} {event : Event}

/-- A drain owes its slot as long as it is outstanding. -/
theorem Drain.Sound.outstanding_eq (h : d.Sound) : d.outstanding = d.acct.owed := by
  have hended : d.reported = true → (d.ended = true ↔ d.acct.finished = true) := by
    intro hreported
    have hpanicked := h.not_panicked hreported
    rw [h.finished_iff, Drain.ended]
    split
    · next hworker => simp [hworker]
    · next hworker => exact absurd hworker hpanicked
    · next hworker _ => simpa using hworker
  rw [Drain.outstanding, Arbiter.owed]
  cases hreported : d.reported with
  | false =>
      have hcounted : d.acct.counted = false := by
        by_contra hne
        have := h.reported_of_counted (by simpa using hne)
        simp [hreported] at this
      simp [hcounted]
  | true =>
      have hiff := hended hreported
      obtain hcounted | hfinished := h.settled hreported
      · simp [hcounted, Bool.eq_iff_iff.mpr hiff]
      · simp [hfinished, hiff.mpr hfinished]

theorem Drain.sound_begun (kind : Kind) (timeoutSecs : Number) (count : ℕ) :
    (begun kind timeoutSecs count).Sound := by
  have hcaller : (begun kind timeoutSecs count).caller = .inline ∨
      (begun kind timeoutSecs count).caller = .starting ∨
      ((begun kind timeoutSecs count).caller = .returned (some .timedOut) ∧
        drainBudgetSaturated count = true) := by
    simp only [begun]
    split
    · exact .inl rfl
    · split
      · next h => exact .inr (.inr ⟨rfl, h.2⟩)
      · exact .inr (.inl rfl)
  have hworker : (begun kind timeoutSecs count).worker = none := rfl
  have hacct : (begun kind timeoutSecs count).acct = {} := rfl
  have hsaturated : (begun kind timeoutSecs count).saturated = drainBudgetSaturated count := rfl
  have hreported : (begun kind timeoutSecs count).reported = false := by
    obtain h | h | ⟨h, -⟩ := hcaller <;> rw [Drain.reported, h]
  constructor
  · exact fun _ => hworker
  · simp [hworker, hacct]
  · simp [hacct]
  · simp [hreported]
  · simp [hreported]
  · intro hexpired
    obtain h | h | ⟨h, -⟩ := hcaller <;> rw [h] at hexpired <;> cases hexpired
  · intro htimedOut
    obtain h | h | ⟨-, h⟩ := hcaller
    · rw [Drain.timedOut, h] at htimedOut
      cases htimedOut
    · rw [Drain.timedOut, h] at htimedOut
      cases htimedOut
    · exact .inr (hsaturated.trans h)

/-- **One step** keeps what the flags of a drain say. -/
theorem Drain.Sound.step (h : d.Sound) (hg : d.NoPanic count event)
    (hstep : d.step count event = some (count', d')) : d'.Sound := by
  obtain ⟨hunspawned, hfinished, hcounted, hsettled, hpanicked, hexpired, htimedOut⟩ := h
  obtain ⟨kind, caller, worker, acct, saturated, atDeadline⟩ := d
  cases event with
  | spawn ok =>
      obtain ⟨rfl, rfl, hd⟩ : caller = .starting ∧ count = count' ∧ _ := by
        simpa [Drain.step] using hstep
      obtain rfl : worker = none := hunspawned rfl
      subst hd
      cases ok <;> constructor <;> simp_all [Drain.reported, Drain.timedOut, Drain.elapsedFirst]
  | inlineReturns exported =>
      obtain ⟨rfl, rfl, rfl⟩ : caller = .inline ∧ count = count' ∧ _ = d' := by
        simpa [Drain.step] using hstep
      have hreport : kind.report (completedDrainOutcome exported) ≠ some .timedOut := by
        cases kind <;> cases exported <;> decide
      constructor <;> simp_all [Drain.reported, Drain.timedOut]
  | inlinePanics =>
      obtain ⟨rfl, rfl, rfl⟩ : caller = .inline ∧ count = count' ∧ _ = d' := by
        simpa [Drain.step] using hstep
      constructor <;> simp_all [Drain.reported, Drain.timedOut]
  | workerReturns exported =>
      obtain ⟨rfl, rfl, rfl⟩ : worker = some .running ∧ count = count' ∧ _ = d' := by
        simpa [Drain.step] using hstep
      constructor <;> simp_all [Drain.reported, Drain.timedOut, Drain.elapsedFirst]
  | workerEnds =>
      obtain ⟨exported, rfl⟩ : ∃ exported, worker = some (.sent exported) := by
        simp only [Drain.step] at hstep
        split at hstep
        · next exported => exact ⟨exported, rfl⟩
        · cases hstep
      obtain ⟨-, rfl⟩ : _ = count' ∧ _ = d' := by simpa [Drain.step] using hstep
      constructor <;>
        simp_all [Drain.reported, Drain.timedOut, Drain.elapsedFirst, noteWorkerFinished]
  | workerPanics =>
      obtain ⟨rfl, rfl, rfl⟩ : worker = some .running ∧ count = count' ∧ _ = d' := by
        simpa [Drain.step] using hstep
      constructor <;>
        simp_all [Drain.reported, Drain.timedOut, Drain.elapsedFirst, Drain.NoPanic]
  | deadline =>
      obtain ⟨⟨rfl, rfl⟩, rfl, rfl⟩ :
          (caller = .waiting ∧ atDeadline = none) ∧ count = count' ∧ _ = d' := by
        simpa [Drain.step] using hstep
      constructor <;> simp_all [Drain.reported, Drain.timedOut]
  | receive =>
      obtain ⟨exported, rfl, hd⟩ : ∃ exported, caller = .waiting ∧
          { kind, caller := .returned (kind.report (completedDrainOutcome exported)), worker, acct,
            saturated, atDeadline } = d' := by
        simp only [Drain.step] at hstep
        split at hstep
        · next exported => exact ⟨exported, rfl, (Prod.mk.inj (Option.some.inj hstep)).2⟩
        · next exported => exact ⟨exported, rfl, (Prod.mk.inj (Option.some.inj hstep)).2⟩
        · cases hstep
      have hreport : kind.report (completedDrainOutcome exported) ≠ some .timedOut := by
        cases kind <;> cases exported <;> decide
      subst hd
      constructor <;> simp_all [Drain.reported, Drain.timedOut]
  | expire =>
      obtain ⟨⟨rfl, hlate⟩, rfl, rfl⟩ : (caller = .waiting ∧
          (atDeadline = some .running ∨ worker = some .panicked)) ∧ count = count' ∧ _ = d' := by
        simpa [Drain.step] using hstep
      constructor <;> simp_all [Drain.reported, Drain.timedOut]
  | abandon =>
      obtain ⟨rfl, -, rfl⟩ : caller = .expired ∧ _ = count' ∧ _ = d' := by
        simpa [Drain.step] using hstep
      have hlate : atDeadline = some .running := (hexpired rfl).resolve_right hg.1
      have hkept : (noteWorkerAbandoned count acct).2.finished = acct.finished := by
        rw [noteWorkerAbandoned]
        split <;> rfl
      constructor
      · nofun
      · simpa [hkept] using hfinished
      · exact fun _ => rfl
      · intro _
        simp only [noteWorkerAbandoned]
        split
        · next hdone => exact .inr hdone
        · exact .inl rfl
      · exact fun _ => hg.1
      · nofun
      · intro _
        simp [Drain.elapsedFirst, hlate]

/-- What a step does to the flags and to the count. -/
theorem Drain.step_acct (hstep : d.step count event = some (count', d')) :
    ((∃ exported, d.worker = some (.sent exported)) ∧
      (count', d'.acct) = noteWorkerFinished count d.acct) ∨
    (event = .abandon ∧ d.caller = .expired ∧
      (count', d'.acct) = noteWorkerAbandoned count d.acct) ∨
    (count', d'.acct) = (count, d.acct) := by
  cases event with
  | workerEnds =>
      simp only [Drain.step] at hstep
      split at hstep
      · next exported hworker =>
          cases hstep
          exact .inl ⟨⟨exported, hworker⟩, rfl⟩
      · cases hstep
  | abandon =>
      obtain ⟨hcaller, rfl, rfl⟩ : d.caller = .expired ∧ _ = count' ∧ _ = d' := by
        simpa [Drain.step] using hstep
      exact .inr (.inl ⟨rfl, hcaller, rfl⟩)
  | _ =>
      right; right
      simp only [Drain.step] at hstep
      repeat' split at hstep
      all_goals cases hstep
      all_goals rfl

/-! ## All drains -/

/-- The count and the flags of the drains. -/
def State.charges (s : State) : Charges := ⟨s.count, s.drains.map Drain.acct⟩

/-- What holds in every state of a run in which no job panics that is reported late. -/
structure Sound (s : State) : Prop where
  drains : ∀ d ∈ s.drains, d.Sound
  balanced : s.charges.Balanced

variable {s s' : State} {i : ℕ}

theorem State.outstanding_eq (h : ∀ d ∈ s.drains, d.Sound) :
    s.drains.countP Drain.outstanding = s.charges.owing :=
  Charges.countP_eq_owing s.count fun d hd => (h d hd).outstanding_eq

theorem Sound.lawful (h : Sound s) : s.Lawful := by
  refine ⟨?_, fun d hd => (h.drains d hd).elapsed_of_timedOut⟩
  rw [State.outstanding_eq h.drains]
  exact Int.ofNat.inj h.balanced

/-- **The budget** after a step of one drain. -/
theorem Sound.balanced_step (h : Sound s) (hi : s.drains[i]? = some d)
    (hg : d.NoPanic s.count event) (hstep : d.step s.count event = some (count', d')) :
    State.charges ⟨count', s.drains.set i d'⟩ |>.Balanced := by
  have hd := h.drains d (List.mem_of_getElem? hi)
  have hjob : s.charges.jobs[i]? = some d.acct := by simp [State.charges, hi]
  have hcharges : State.charges ⟨count', s.drains.set i d'⟩ =
      ⟨count', s.charges.jobs.set i d'.acct⟩ := by
    simp [State.charges, List.map_set]
  rw [hcharges]
  obtain ⟨⟨exported, hworker⟩, heq⟩ | ⟨rfl, hcaller, heq⟩ | heq := Drain.step_acct hstep
  · obtain ⟨rfl, hacct⟩ := Prod.mk.inj heq
    have hrunning : d.acct.finished = false := by
      rw [← Bool.not_eq_true, hd.finished_iff]
      simp [hworker]
    have hfinish : (⟨(if d.acct.counted then s.count - 1 else s.count : ℕ),
        s.charges.jobs.set i d'.acct⟩ : Charges) = s.charges.finish i d.acct := by
      rw [Charges.finish, hacct, Charges.mk.injEq]
      refine ⟨?_, rfl⟩
      split
      · next hcounted =>
          have howed : d.acct.owed = true := by simp [Arbiter.owed, hcounted, hrunning]
          have hpos := Charges.owing_pos hjob howed
          have hbalanced : (s.count : ℤ) = s.charges.owing := h.balanced
          change _ = (s.count : ℤ) - 1
          omega
      · rfl
    rw [hfinish]
    exact Charges.balanced_finish h.balanced hjob hrunning
  · have hcounted : d.acct.counted = false := by
      by_contra hne
      have hreported := hd.reported_of_counted (by simpa using hne)
      rw [Drain.reported, hcaller] at hreported
      cases hreported
    have habandon : (⟨count', s.charges.jobs.set i d'.acct⟩ : Charges) =
        s.charges.abandon i d.acct := by
      rw [noteWorkerAbandoned] at heq
      rw [Charges.abandon]
      split at heq
      · next hfinished =>
          obtain ⟨rfl, hacct⟩ := Prod.mk.inj heq
          rw [if_pos hfinished, hacct, set_eq_self hjob]
          rfl
      · next hfinished =>
          obtain ⟨rfl, hacct⟩ := Prod.mk.inj heq
          rw [if_neg hfinished, hacct, Charges.mk.injEq]
          refine ⟨?_, rfl⟩
          have hroom := hg.2 (by simpa using hfinished)
          rw [Nat.mod_eq_of_lt hroom]
          rfl
    rw [habandon]
    exact Charges.balanced_abandon h.balanced hjob hcounted
  · obtain ⟨rfl, hacct⟩ := Prod.mk.inj heq
    rw [hacct, set_eq_self hjob]
    exact h.balanced

theorem Sound.step {label : Label} (h : Sound s) (hg : NoPanic s label)
    (hstep : machine.step s label = some s') : Sound s' := by
  cases label with
  | call kind timeoutSeconds configured =>
      cases hstep
      constructor
      · intro d hd
        simp only [List.mem_append, List.mem_singleton] at hd
        obtain hd | rfl := hd
        · exact h.drains d hd
        · exact Drain.sound_begun ..
      · have hstart : State.charges { s with
            drains := s.drains ++ [begun kind (timeoutSeconds.getD configured) s.count] } =
            s.charges.start := by
          simp [State.charges, Charges.start, begun]
        rw [hstart]
        exact Charges.balanced_start h.balanced
  | drain i event =>
      obtain ⟨r, hr, rfl⟩ := Option.map_eq_some_iff.mp hstep
      obtain ⟨d, hi, hd⟩ := Option.bind_eq_some_iff.mp hr
      have hguard : d.NoPanic s.count event := hg d hi
      constructor
      · intro e he
        obtain he | rfl := List.mem_or_eq_of_mem_set he
        · exact h.drains e he
        · exact (h.drains d (List.mem_of_getElem? hi)).step hguard hd
      · exact h.balanced_step hi hguard hd

theorem sound_init : Sound machine.init where
  drains := by simp [machine]
  balanced := rfl

theorem Drain.outstanding_abandoned (d : Drain) (report : Option DrainOutcome)
    (acct : DrainAccounting) :
    Drain.outstanding { d with caller := .abandoned report, acct := acct } = !d.ended := rfl

/-- **A step that keeps the law** is one without a panic. -/
theorem noPanic_of_lawful {label : Label} (h : Sound s) (hstep : machine.step s label = some s')
    (hlaw : s'.Lawful) : NoPanic s label := by
  cases label with
  | call kind timeoutSeconds configured => trivial
  | drain i event =>
      obtain ⟨r, hr, rfl⟩ := Option.map_eq_some_iff.mp hstep
      obtain ⟨e, hi, he⟩ := Option.bind_eq_some_iff.mp hr
      intro d hd
      obtain rfl : d = e := Option.some.inj (hd.symm.trans hi)
      obtain ⟨count', d'⟩ := r
      have hcount : count' = (s.drains.set i d').countP Drain.outstanding := hlaw.1
      rw [countP_set hi, ← h.lawful.1] at hcount
      have hmem := List.mem_of_getElem? hi
      have hsound := h.drains d hmem
      cases event with
      | workerPanics =>
          obtain ⟨hworker, rfl, rfl⟩ : d.worker = some .running ∧ s.count = count' ∧ _ = d' := by
            simpa [Drain.step] using he
          by_contra hreported
          have hreported : d.reported = true := by simpa [Drain.NoPanic] using hreported
          have hbefore : d.outstanding = true := by
            simp [Drain.outstanding, hreported, Drain.ended, hworker]
          have hpos : 0 < s.count := by
            rw [h.lawful.1]
            exact List.countP_pos_iff.mpr ⟨d, hmem, hbefore⟩
          have hafter : Drain.outstanding { d with worker := some .panicked } = false := by
            simp [Drain.outstanding, Drain.ended]
          simp [hbefore, hafter] at hcount
          omega
      | abandon =>
          obtain ⟨hcaller, rfl, rfl⟩ : d.caller = .expired ∧ _ = count' ∧ _ = d' := by
            simpa [Drain.step] using he
          have hbefore : d.outstanding = false := by
            simp [Drain.outstanding, Drain.reported, hcaller]
          by_cases hfinished : d.acct.finished = true
          · obtain ⟨exported, hworker⟩ := hsound.finished_iff.mp hfinished
            simp [Drain.NoPanic, hworker, hfinished]
          · -- the count goes up, so that the worker must still be there, and there is room
            rw [hbefore, Drain.outstanding_abandoned, noteWorkerAbandoned,
              if_neg hfinished] at hcount
            cases hended : d.ended with
            | true =>
                simp only [hended, Bool.not_true, Bool.false_eq_true, if_false] at hcount
                omega
            | false =>
                simp only [hended, Bool.not_false, Bool.false_eq_true, if_true, if_false] at hcount
                refine ⟨?_, fun _ => by omega⟩
                intro hworker
                simp [Drain.ended, hworker] at hended
      | _ => trivial

/-- **The budget is exact throughout a run** iff no job panics that is reported late. -/
theorem lawful_iff_noPanic {labels : List Label} (h : machine.run labels = some s) :
    machine.Guarded NoPanic machine.init labels ↔
      ∀ ks t, ks <+: labels → machine.run ks = some t → t.Lawful := by
  refine Machine.guarded_iff sound_init (fun s hs => hs.lawful) ?_ ?_ h
  · intro s label s' hs hg hstep
    exact hs.step hg hstep
  · intro s label s' hs hstep hlaw
    exact noPanic_of_lawful hs hstep hlaw

/-- A flush is abandoned at its deadline, and its worker ends later. -/
def lateFlush : List Label :=
  [.call .flush (some .one) .one, .drain 0 (.spawn true), .drain 0 .deadline, .drain 0 .expire,
    .drain 0 .abandon, .drain 0 (.workerReturns true), .drain 0 .workerEnds]

theorem lawful_of_lateFlush :
    (∃ s, machine.run lateFlush = some s) ∧
      ∀ ks t, ks <+: lateFlush → machine.run ks = some t → t.Lawful :=
  ⟨⟨_, rfl⟩, (lawful_iff_noPanic rfl).mp (by decide)⟩

/-- The job of a flush panics at once, long before its deadline: the flush is reported late, and the
slot is charged for good. -/
theorem not_lawful_of_panic : ¬ ∀ labels s, machine.run labels = some s → s.Lawful := by
  intro h
  have hlaw := h [.call .flush (some .one) .one, .drain 0 (.spawn true), .drain 0 .workerPanics,
    .drain 0 .expire, .drain 0 .abandon] _ rfl
  exact absurd hlaw.1 (by decide)

end Telemetry.Drains.Rust
