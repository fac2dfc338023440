import Telemetry.Lib.Abandoned
import Telemetry.Lib.Number
import Telemetry.Lib.Run

/-!
# Bounded drains in the Python SDK

`_provider_drain.py`: `_bounded_provider_call` calls the methods of a provider on a daemon thread
and waits for `completed` at most until a deadline. A caller that gives up counts the worker as
abandoned unless it has finished, and a worker that finishes gives back what was counted; both
under one lock. The worker does so in a `finally`, whatever the methods raise.

`completed` is set before the lock is taken, so that a worker can be past it and not yet finished
when the caller gives up.

The caller's timeout goes to `completed.wait` as it is (`resolve_drain_deadline`). A wait takes no
timeout above `threading.TIMEOUT_MAX`, an infinite one least of all: unless `completed` is set when
it looks, it raises `OverflowError`, which leaves the call, and the worker goes on without it.

## Main definitions

* `Worker`, `Caller`, `Drain`, `Drain.step` — one call and its thread.
* `State`, `Label`, `machine` — any number of calls, interleaved.
* `Drain.verdict` — what a call should report, from what its worker had done by the deadline.
* `State.Counted` — the counter is exact.
* `State.Lawful` — and every result is the verdict.
* `Waits` — no wait begins with such a timeout before `completed` is set.

## Main results

* `lawful_iff_waits` — **a run is lawful throughout** iff every step is such. The counter is exact
  in every run, a result never changes, and a drain that has none can always get one without its
  worker.
-/

namespace Telemetry.Drains.Python

open Telemetry.Lib

/-- `_MAX_ABANDONED_WORKERS`. -/
def maxAbandonedWorkers : ℤ := 8

/-- `threading.TIMEOUT_MAX`, of 64 bits of nanoseconds. -/
def timeoutMax : ℚ := 9223372036

/-- A wait does not take the timeout. -/
def overlong (timeoutSeconds : Number) : Bool := (Number.ofRat timeoutMax).lt timeoutSeconds

/-- How the call of one method goes; `ε` are the exceptions. -/
inductive MethodOutcome (ε : Type)
  /-- There is no such attribute, or it is not callable. -/
  | skipped
  /-- It returned, and whether that was `False`. -/
  | returned (refused : Bool)
  | raised (error : ε)
  deriving DecidableEq, Repr

/-- `_runner`: what is left to call, its variables, and how far it is. -/
structure Worker (ε : Type) where
  methods : List String
  error : Option ε := none
  incomplete : List String := []
  /-- `completed` is set. -/
  completed : Bool := false
  /-- Everything that was called, and how it went. -/
  calls : List (String × MethodOutcome ε) := []
  deriving DecidableEq, Repr

/-- Why a call returned. -/
inductive How
  | declined
  | notStarted
  | timedOut
  | overflowed
  | completed
  deriving DecidableEq, Repr

/-- What a call raises. -/
inductive Raised (ε : Type)
  /-- The `OverflowError` of `completed.wait`. -/
  | overflow
  /-- What a method raised, or the warning. -/
  | error (error : ε)
  deriving DecidableEq, Repr

/-- Where the caller is. -/
inductive Caller (ε : Type)
  /-- About to start the thread. -/
  | starting
  /-- In `completed.wait`. -/
  | waiting
  /-- `completed.wait` returned `False`. -/
  | gaveUp
  /-- The call returned a `bool` or raised. -/
  | returned (how : How) (result : Except (Raised ε) Bool)

/-- One call of `_bounded_provider_call`, with its thread once there is one. -/
structure Drain (ε : Type) where
  methods : List String
  timeoutSeconds : Number
  caller : Caller ε
  worker : Option (Worker ε) := none
  /-- `finished` and `counted`. -/
  flags : Arbiter := {}
  /-- How often the drain was counted as abandoned. -/
  charged : ℕ := 0
  /-- The worker when the deadline elapsed, if it has. -/
  atDeadline : Option (Worker ε) := none

/-- What may happen to a drain next. -/
inductive Event (ε : Type)
  /-- `worker.start()`, which raises `RuntimeError` at the limit of threads. -/
  | start (ok : Bool)
  /-- The next method goes so. -/
  | method (outcome : MethodOutcome ε)
  /-- `completed.set()`. -/
  | setCompleted
  /-- The section of the worker under the lock. -/
  | finish
  /-- The deadline elapses. -/
  | deadline
  /-- `completed.wait` raises, and so does the call. -/
  | overflow
  /-- `completed.wait` returns `True`, and the call returns. -/
  | wake
  /-- `completed.wait` returns `False`. -/
  | giveUp
  /-- The section of the caller under the lock, and the call returns. -/
  | abandon

namespace MethodOutcome

variable {ε : Type}

/-- What was raised. -/
def error? : MethodOutcome ε → Option ε
  | raised error => some error
  | _ => none

/-- `False` was returned. -/
def failed : MethodOutcome ε → Bool
  | returned refused => refused
  | _ => false

end MethodOutcome

namespace Worker

variable {ε : Type}

/-- The next method is called. -/
def call (outcome : MethodOutcome ε) (w : Worker ε) : Option (Worker ε) :=
  match w.methods, w.error with
  | method :: methods, none =>
      some { w with
        methods := methods
        calls := w.calls ++ [(method, outcome)]
        error := outcome.error?
        incomplete := if outcome.failed then w.incomplete ++ [method] else w.incomplete }
  | _, _ => none

/-- The `try` is left: everything was called, or something was raised. -/
def leaves (w : Worker ε) : Bool := w.methods.isEmpty || w.error.isSome

end Worker

/-- What `_warn_drain` is followed by: `False`, unless the filter makes an exception of the
warning. -/
def warned {ε : Type} (warning : Option ε) : Except (Raised ε) Bool :=
  match warning with
  | some error => .error (.error error)
  | none => .ok false

namespace Drain

variable {ε : Type} (warning : Option ε)

/-- What the call returns once `completed.wait` returned `True`. -/
def resultOf (w : Worker ε) : Except (Raised ε) Bool :=
  match w.error with
  | some error => .error (.error error)
  | none => if w.incomplete = [] then .ok true else warned warning

/-- One step of a drain, with `_abandoned_workers`. -/
def step (count : ℤ) (d : Drain ε) : Event ε → Option (ℤ × Drain ε)
  | .start ok =>
      match d.caller with
      | .starting =>
          some (count,
            if ok then { d with caller := .waiting, worker := some { methods := d.methods } }
            else { d with caller := .returned .notStarted (warned warning) })
      | _ => none
  | .method outcome => do
      let w ← d.worker
      let w ← w.call outcome
      some (count, { d with worker := some w })
  | .setCompleted => do
      let w ← d.worker
      if w.leaves ∧ ¬ w.completed then
        some (count, { d with worker := some { w with completed := true } })
      else none
  | .finish => do
      let w ← d.worker
      if w.completed ∧ ¬ d.flags.finished then
        some (if d.flags.counted then count - 1 else count,
          { d with flags := { d.flags with finished := true } })
      else none
  | .deadline =>
      match d.caller, d.atDeadline with
      | .waiting, none =>
          if overlong d.timeoutSeconds then none
          else some (count, { d with atDeadline := d.worker })
      | _, _ => none
  | .overflow => do
      let w ← d.worker
      match d.caller with
      | .waiting =>
          -- the flag is looked at first, and the lock that is waited for looks at the timeout
          if overlong d.timeoutSeconds ∧ ¬ w.completed then
            some (count, { d with caller := .returned .overflowed (.error .overflow) })
          else none
      | _ => none
  | .wake => do
      let w ← d.worker
      match d.caller with
      | .waiting =>
          if w.completed ∧ d.atDeadline.all Worker.completed then
            some (count, { d with caller := .returned .completed (resultOf warning w) })
          else none
      | _ => none
  | .giveUp =>
      match d.caller with
      | .waiting =>
          if d.atDeadline.any fun w => !w.completed then some (count, { d with caller := .gaveUp })
          else none
      | _ => none
  | .abandon =>
      match d.caller with
      | .gaveUp =>
          some (if d.flags.finished then count else count + 1,
            { d with
              caller := .returned .timedOut (warned warning)
              flags := if d.flags.finished then d.flags else { d.flags with counted := true }
              charged := if d.flags.finished then d.charged else d.charged + 1 })
      | _ => none

/-- The drain was reported as timed out. -/
def timedOut (d : Drain ε) : Bool :=
  match d.caller with
  | .returned .timedOut _ => true
  | _ => false

/-- Reported as timed out, and the worker not finished. -/
def outstanding (d : Drain ε) : Bool := d.timedOut && !d.flags.finished

/-- The wait raised. -/
def overflowed (d : Drain ε) : Bool :=
  match d.caller with
  | .returned .overflowed _ => true
  | _ => false

/-- The result of the call, if it has one. -/
def result (d : Drain ε) : Option (Except (Raised ε) Bool) :=
  match d.caller with
  | .returned _ result => some result
  | _ => none

/-- What a worker's calls should be reported as. -/
def outcomeOf (calls : List (String × MethodOutcome ε)) : Except (Raised ε) Bool :=
  match calls.findSome? fun c => c.2.error? with
  | some error => .error (.error error)
  | none => if calls.any fun c => c.2.failed then warned warning else .ok true

/-- **What a call should report**: what the worker's calls come to if they were over by the
deadline, and failure if not, or if there was no worker. -/
def verdict (d : Drain ε) : Except (Raised ε) Bool :=
  match d.worker with
  | none => warned warning
  | some w =>
      if (d.atDeadline.getD w).completed then outcomeOf warning (d.atDeadline.getD w).calls
      else warned warning

end Drain

/-- `_abandoned_workers`, and all calls there were. -/
structure State (ε : Type) where
  count : ℤ := 0
  drains : List (Drain ε) := []

/-- A call, or what happens to the `i`-th one. -/
inductive Label (ε : Type)
  | call (timeoutSeconds : Number) (methods : List String) (declineWhenSaturated : Bool)
  | drain (i : ℕ) (event : Event ε)

section Machine

variable {ε : Type} (warning : Option ε)

/-- What a call does first: it declines if it may and the budget is spent. -/
def begun (timeoutSeconds : Number) (methods : List String) (declineWhenSaturated : Bool)
    (count : ℤ) : Drain ε where
  methods := methods
  timeoutSeconds := timeoutSeconds
  caller :=
    if declineWhenSaturated ∧ maxAbandonedWorkers ≤ count then
      .returned .declined (warned warning)
    else .starting

/-- The runs. -/
def machine : Machine (State ε) (Label ε) where
  init := {}
  step s
    | .call timeout methods decline =>
        some { s with drains := s.drains ++ [begun warning timeout methods decline s.count] }
    | .drain i event =>
        (s.drains[i]?.bind fun d => d.step warning s.count event).map fun r =>
          { count := r.1, drains := s.drains.set i r.2 }

/-- **The law of the counter**: it is the number of drains that were reported as timed out and
whose worker has not finished, and no drain is counted twice. -/
structure State.Counted (s : State ε) : Prop where
  count_eq : s.count = s.drains.countP Drain.outstanding
  nonneg : 0 ≤ s.count
  charged_le : ∀ d ∈ s.drains, d.charged ≤ 1

/-- **The law of the drains**: that of the counter, and every result is the verdict; if it is
`True`, every method was called. -/
structure State.Lawful (s : State ε) : Prop extends s.Counted where
  result_eq : ∀ d ∈ s.drains, ∀ r, d.result = some r → r = d.verdict warning
  complete : ∀ d ∈ s.drains, d.result = some (.ok true) →
    ∃ w, d.worker = some w ∧ w.calls.map Prod.fst = d.methods

/-- A wait that might raise has a timeout that a wait takes, or finds `completed` set. -/
def Drain.Waits (d : Drain ε) : Event ε → Prop
  | .overflow => overlong d.timeoutSeconds = false ∨ d.worker.any Worker.completed = true
  | _ => True

/-- **No wait is asked for more than it takes** before `completed` is set. -/
def Waits (s : State ε) : Label ε → Prop
  | .call .. => True
  | .drain i event => ∀ d ∈ s.drains[i]?, d.Waits event

end Machine

/-! ## One drain -/

section Step

variable {ε : Type} {warning : Option ε} {d d' : Drain ε} {w w' : Worker ε} {count count' : ℤ}
  {event : Event ε}

/-- What the variables of a worker say of its calls. -/
structure Worker.Sound (methods : List String) (w : Worker ε) : Prop where
  split : w.calls.map Prod.fst ++ w.methods = methods
  error_eq : w.error = w.calls.findSome? fun c => c.2.error?
  incomplete_iff : w.incomplete = [] ↔ (w.calls.any fun c => c.2.failed) = false
  leaves_of_completed : w.completed = true → w.leaves = true

/-- What a caller may rely on. -/
def Drain.CallerSound (warning : Option ε) (d : Drain ε) : Prop :=
  match d.caller with
  | .starting => d.worker = none
  | .waiting => d.worker.isSome = true
  | .gaveUp => d.worker.isSome = true ∧ ∃ w ∈ d.atDeadline, w.completed = false
  | .returned .declined r | .returned .notStarted r => d.worker = none ∧ r = warned warning
  | .returned .timedOut r =>
      d.worker.isSome = true ∧ (∃ w ∈ d.atDeadline, w.completed = false) ∧ r = warned warning
  | .returned .overflowed r => d.worker.isSome = true ∧ r = .error .overflow
  | .returned .completed r =>
      ∃ w, d.worker = some w ∧ w.completed = true ∧ (∀ w' ∈ d.atDeadline, w'.completed = true) ∧
        r = Drain.resultOf warning w

/-- What holds of a drain throughout. -/
structure Drain.Sound (warning : Option ε) (d : Drain ε) : Prop where
  caller : d.CallerSound warning
  worker : ∀ w ∈ d.worker, w.Sound d.methods
  deadline : ∀ w ∈ d.atDeadline, w.completed = true → d.worker = some w
  finished : d.flags.finished = true → ∃ w, d.worker = some w ∧ w.completed = true
  timedOut_of_counted : d.flags.counted = true → d.timedOut = true
  settled : d.timedOut = true → d.flags.counted = true ∨ d.flags.finished = true
  charged_eq : d.charged = if d.flags.counted then 1 else 0

/-- A worker whose `try` is left calls nothing. -/
theorem Worker.call_eq_none_of_leaves (h : w.leaves = true) (outcome : MethodOutcome ε) :
    w.call outcome = none := by
  obtain ⟨methods, error, incomplete, completed, calls⟩ := w
  cases methods <;> cases error <;> simp [Worker.leaves] at h <;> rfl

/-- The outcomes of a call: it is written down, and the `try` is not left yet. -/
theorem Worker.call_eq_some {outcome : MethodOutcome ε} (h : w.call outcome = some w') :
    ∃ method methods, w.methods = method :: methods ∧ w.error = none ∧
      w' = { w with
        methods := methods
        calls := w.calls ++ [(method, outcome)]
        error := outcome.error?
        incomplete := if outcome.failed then w.incomplete ++ [method] else w.incomplete } := by
  rw [Worker.call] at h
  split at h
  · next method methods hmethods herror =>
      exact ⟨method, methods, hmethods, herror, by simpa using h.symm⟩
  · cases h

/-- A worker that calls has not set `completed`. -/
theorem Worker.Sound.not_completed {methods : List String} {outcome : MethodOutcome ε}
    (h : w.Sound methods) (hcall : w.call outcome = some w') : w.completed = false := by
  by_contra hcompleted
  have hleaves := h.leaves_of_completed (by simpa using hcompleted)
  rw [Worker.call_eq_none_of_leaves hleaves] at hcall
  cases hcall

theorem Worker.Sound.call {methods : List String} {outcome : MethodOutcome ε}
    (h : w.Sound methods) (hcall : w.call outcome = some w') : w'.Sound methods := by
  have hnot := h.not_completed hcall
  obtain ⟨method, rest, hmethods, herror, rfl⟩ := Worker.call_eq_some hcall
  constructor
  · rw [← h.split, hmethods]
    simp
  · have hnone : w.calls.findSome? (fun c => c.2.error?) = none := by rw [← h.error_eq, herror]
    rw [List.findSome?_append, hnone, Option.none_or]
    simp
  · simp only [List.any_append, List.any_cons, List.any_nil, Bool.or_false, Bool.or_eq_false_iff,
      ← h.incomplete_iff]
    cases outcome.failed <;> simp
  · intro hcompleted
    rw [hnot] at hcompleted
    cases hcompleted

theorem Drain.sound_begun (timeout : Number) (methods : List String) (decline : Bool) (count : ℤ) :
    (begun warning timeout methods decline count).Sound warning := by
  have hworker : (begun warning timeout methods decline count).worker = none := rfl
  have hcaller : (begun warning timeout methods decline count).CallerSound warning ∧
      (begun warning timeout methods decline count).timedOut = false := by
    simp only [begun]
    split
    · exact ⟨⟨rfl, rfl⟩, rfl⟩
    · exact ⟨rfl, rfl⟩
  constructor
  · exact hcaller.1
  · simp [hworker]
  · simp [begun]
  · simp [begun]
  · simp [begun]
  · simp [hcaller.2]
  · rfl

/-! ### What one step does -/

/-- The steps, by what they find and what they leave. -/
inductive Drain.Stepped (warning : Option ε) (count : ℤ) (d : Drain ε) :
    Event ε → ℤ → Drain ε → Prop
  | started (hcaller : d.caller = .starting) :
      Stepped warning count d (.start true) count
        { d with caller := .waiting, worker := some { methods := d.methods } }
  | refused (hcaller : d.caller = .starting) :
      Stepped warning count d (.start false) count
        { d with caller := .returned .notStarted (warned warning) }
  | method {outcome : MethodOutcome ε} {w w' : Worker ε} (hw : d.worker = some w)
      (hcall : w.call outcome = some w') :
      Stepped warning count d (.method outcome) count { d with worker := some w' }
  | setCompleted {w : Worker ε} (hw : d.worker = some w) (hleaves : w.leaves = true)
      (hnot : w.completed = false) :
      Stepped warning count d .setCompleted count
        { d with worker := some { w with completed := true } }
  | finish {w : Worker ε} (hw : d.worker = some w) (hcompleted : w.completed = true)
      (hrunning : d.flags.finished = false) :
      Stepped warning count d .finish (if d.flags.counted then count - 1 else count)
        { d with flags := { d.flags with finished := true } }
  | deadline (hcaller : d.caller = .waiting) (hnone : d.atDeadline = none)
      (hfits : overlong d.timeoutSeconds = false) :
      Stepped warning count d .deadline count { d with atDeadline := d.worker }
  | overflow {w : Worker ε} (hcaller : d.caller = .waiting) (hw : d.worker = some w)
      (hlong : overlong d.timeoutSeconds = true) (hnot : w.completed = false) :
      Stepped warning count d .overflow count
        { d with caller := .returned .overflowed (.error .overflow) }
  | wake {w : Worker ε} (hcaller : d.caller = .waiting) (hw : d.worker = some w)
      (hcompleted : w.completed = true) (hdeadline : d.atDeadline.all Worker.completed = true) :
      Stepped warning count d .wake count
        { d with caller := .returned .completed (Drain.resultOf warning w) }
  | giveUp {w : Worker ε} (hcaller : d.caller = .waiting) (hlate : d.atDeadline = some w)
      (hnot : w.completed = false) :
      Stepped warning count d .giveUp count { d with caller := .gaveUp }
  | abandon (hcaller : d.caller = .gaveUp) :
      Stepped warning count d .abandon (if d.flags.finished then count else count + 1)
        { d with
          caller := .returned .timedOut (warned warning)
          flags := if d.flags.finished then d.flags else { d.flags with counted := true }
          charged := if d.flags.finished then d.charged else d.charged + 1 }

theorem Drain.stepped_of_step (hstep : d.step warning count event = some (count', d')) :
    d.Stepped warning count event count' d' := by
  cases event with
  | start ok =>
      simp only [Drain.step] at hstep
      split at hstep
      next hcaller =>
        cases hstep
        cases ok with
        | true => exact .started hcaller
        | false => exact .refused hcaller
      next => cases hstep
  | method outcome =>
      simp only [Drain.step, Option.bind_eq_bind, Option.bind_eq_some_iff,
        Option.some.injEq] at hstep
      obtain ⟨w, hw, w', hcall, heq⟩ := hstep
      cases heq
      exact .method hw hcall
  | setCompleted =>
      simp only [Drain.step, Option.bind_eq_bind, Option.bind_eq_some_iff] at hstep
      obtain ⟨w, hw, hif⟩ := hstep
      split at hif
      next hcond =>
        cases hif
        exact .setCompleted hw hcond.1 (Bool.eq_false_of_not_eq_true hcond.2)
      next => cases hif
  | finish =>
      simp only [Drain.step, Option.bind_eq_bind, Option.bind_eq_some_iff] at hstep
      obtain ⟨w, hw, hif⟩ := hstep
      split at hif
      next hcond =>
        cases hif
        exact .finish hw hcond.1 (Bool.eq_false_of_not_eq_true hcond.2)
      next => cases hif
  | deadline =>
      simp only [Drain.step] at hstep
      split at hstep
      next hcaller hnone =>
        split at hstep
        next => cases hstep
        next hfits =>
          cases hstep
          exact .deadline hcaller hnone (Bool.eq_false_of_not_eq_true hfits)
      next => cases hstep
  | overflow =>
      simp only [Drain.step, Option.bind_eq_bind, Option.bind_eq_some_iff] at hstep
      obtain ⟨w, hw, hif⟩ := hstep
      split at hif
      next hcaller =>
        split at hif
        next hcond =>
          cases hif
          exact .overflow hcaller hw hcond.1 (Bool.eq_false_of_not_eq_true hcond.2)
        next => cases hif
      next => cases hif
  | wake =>
      simp only [Drain.step, Option.bind_eq_bind, Option.bind_eq_some_iff] at hstep
      obtain ⟨w, hw, hif⟩ := hstep
      split at hif
      next hcaller =>
        split at hif
        next hcond =>
          cases hif
          exact .wake hcaller hw hcond.1 hcond.2
        next => cases hif
      next => cases hif
  | giveUp =>
      simp only [Drain.step] at hstep
      split at hstep
      next hcaller =>
        split at hstep
        next hcond =>
          cases hstep
          obtain ⟨w, hlate, hnot⟩ := (Option.any_eq_true _ _).mp hcond
          exact .giveUp hcaller hlate (by simpa using hnot)
        next => cases hstep
      next => cases hstep
  | abandon =>
      simp only [Drain.step] at hstep
      split at hstep
      next hcaller =>
        cases hstep
        exact .abandon hcaller
      next => cases hstep

/-! ### What one step keeps -/

/-- As long as `completed` is not set, the caller relies on nothing that the worker may change. -/
theorem Drain.CallerSound.set_worker (h : d.CallerSound warning) (hw : d.worker = some w)
    (hnot : w.completed = false) (w' : Worker ε) :
    Drain.CallerSound warning { d with worker := some w' } := by
  obtain ⟨methods, timeout, caller, worker, flags, charged, atDeadline⟩ := d
  obtain rfl : worker = some w := hw
  cases caller with
  | starting => cases h
  | waiting => rfl
  | gaveUp => exact ⟨rfl, h.2⟩
  | returned how result =>
      cases how with
      | declined => cases h.1
      | notStarted => cases h.1
      | timedOut => exact ⟨rfl, h.2⟩
      | overflowed => exact ⟨rfl, h.2⟩
      | completed =>
          obtain ⟨v, hv, hcompleted, -⟩ := h
          obtain rfl : w = v := Option.some.inj hv
          rw [hnot] at hcompleted
          cases hcompleted

/-- A worker that has not set `completed` goes on. -/
theorem Drain.Sound.set_worker (h : d.Sound warning) (hw : d.worker = some w)
    (hnot : w.completed = false) (hw' : w'.Sound d.methods) :
    Drain.Sound warning { d with worker := some w' } where
  caller := h.caller.set_worker hw hnot w'
  worker := by
    rintro v hv
    obtain rfl : w' = v := Option.some.inj hv
    exact hw'
  deadline := by
    intro v hv hcompleted
    obtain rfl : w = v := Option.some.inj (hw.symm.trans (h.deadline v hv hcompleted))
    rw [hnot] at hcompleted
    cases hcompleted
  finished := by
    intro hfinished
    obtain ⟨v, hv, hcompleted⟩ := h.finished hfinished
    obtain rfl : w = v := Option.some.inj (hw.symm.trans hv)
    rw [hnot] at hcompleted
    cases hcompleted
  timedOut_of_counted := h.timedOut_of_counted
  settled := h.settled
  charged_eq := h.charged_eq

/-- A caller that has not reported a timeout, before and after, leaves the flags alone. -/
theorem Drain.Sound.of_not_timedOut (h : d.Sound warning) (hd : d.timedOut = false)
    (hd' : d'.timedOut = false) (hflags : d'.flags = d.flags) (hcharged : d'.charged = d.charged)
    (hcaller : d'.CallerSound warning) (hworker : ∀ w ∈ d'.worker, w.Sound d'.methods)
    (hdeadline : ∀ w ∈ d'.atDeadline, w.completed = true → d'.worker = some w)
    (hkeep : ∀ w, d.worker = some w → d'.worker = some w) : d'.Sound warning where
  caller := hcaller
  worker := hworker
  deadline := hdeadline
  finished := by
    rw [hflags]
    intro hfinished
    obtain ⟨w, hw, hcompleted⟩ := h.finished hfinished
    exact ⟨w, hkeep w hw, hcompleted⟩
  timedOut_of_counted := by
    rw [hflags]
    intro hcounted
    have htimedOut := h.timedOut_of_counted hcounted
    rw [hd] at htimedOut
    cases htimedOut
  settled := by
    rw [hd']
    nofun
  charged_eq := by
    rw [hflags, hcharged]
    exact h.charged_eq

/-- Before the start there is no worker. -/
theorem Drain.Sound.worker_eq_none (h : d.Sound warning) (hcaller : d.caller = .starting) :
    d.worker = none := by
  simpa [Drain.CallerSound, hcaller] using h.caller

/-- In the wait there is one. -/
theorem Drain.Sound.isSome_worker (h : d.Sound warning) (hcaller : d.caller = .waiting) :
    d.worker.isSome = true := by
  simpa [Drain.CallerSound, hcaller] using h.caller

/-- A drain is counted only when its timeout is reported. -/
theorem Drain.Sound.not_counted (h : d.Sound warning) (hd : d.timedOut = false) :
    d.flags.counted = false := by
  by_contra hcounted
  have htimedOut := h.timedOut_of_counted (by simpa using hcounted)
  rw [hd] at htimedOut
  cases htimedOut

/-- A worker that was just started. -/
theorem Worker.sound_start (methods : List String) :
    ({ methods := methods } : Worker ε).Sound methods :=
  ⟨rfl, rfl, by simp, nofun⟩

/-- **One step** keeps what holds of a drain. -/
theorem Drain.Sound.step (h : d.Sound warning)
    (hstep : d.step warning count event = some (count', d')) : d'.Sound warning := by
  cases Drain.stepped_of_step hstep with
  | started hcaller =>
      have hnone := h.worker_eq_none hcaller
      refine h.of_not_timedOut (by rw [Drain.timedOut, hcaller]) rfl rfl rfl rfl ?_ ?_ ?_
      · intro w hw
        obtain rfl : _ = w := Option.some.inj hw
        exact Worker.sound_start d.methods
      · intro w hw hcompleted
        cases hnone.symm.trans (h.deadline w hw hcompleted)
      · intro w hw
        cases hnone.symm.trans hw
  | refused hcaller =>
      exact h.of_not_timedOut (by rw [Drain.timedOut, hcaller]) rfl rfl rfl
        ⟨h.worker_eq_none hcaller, rfl⟩ h.worker h.deadline fun w hw => hw
  | method hw hcall =>
      have hworker := h.worker _ hw
      exact h.set_worker hw (hworker.not_completed hcall) (hworker.call hcall)
  | setCompleted hw hleaves hnot =>
      have hworker := h.worker _ hw
      exact h.set_worker hw hnot
        ⟨hworker.split, hworker.error_eq, hworker.incomplete_iff, fun _ => hleaves⟩
  | finish hw hcompleted hrunning =>
      exact ⟨h.caller, h.worker, h.deadline, fun _ => ⟨_, hw, hcompleted⟩, h.timedOut_of_counted,
        fun _ => .inr rfl, h.charged_eq⟩
  | deadline hcaller hnone hfits =>
      refine h.of_not_timedOut (by rw [Drain.timedOut, hcaller])
        (by simp only [Drain.timedOut, hcaller]) rfl rfl ?_ h.worker (fun w hw _ => hw)
        fun w hw => hw
      simpa [Drain.CallerSound, hcaller] using h.isSome_worker hcaller
  | overflow hcaller hw hlong hnot =>
      exact h.of_not_timedOut (by rw [Drain.timedOut, hcaller]) rfl rfl rfl
        ⟨h.isSome_worker hcaller, rfl⟩ h.worker h.deadline fun w hw => hw
  | wake hcaller hw hcompleted hdeadline =>
      refine h.of_not_timedOut (by rw [Drain.timedOut, hcaller]) rfl rfl rfl
        ⟨_, hw, hcompleted, fun v hv => ?_, rfl⟩ h.worker h.deadline fun w hw => hw
      rwa [Option.mem_def.mp hv, Option.all_some] at hdeadline
  | giveUp hcaller hlate hnot =>
      exact h.of_not_timedOut (by rw [Drain.timedOut, hcaller]) rfl rfl rfl
        ⟨h.isSome_worker hcaller, _, hlate, hnot⟩ h.worker h.deadline fun w hw => hw
  | abandon hcaller =>
      obtain ⟨hsome, hlate⟩ : d.worker.isSome = true ∧ ∃ w ∈ d.atDeadline, w.completed = false := by
        simpa [Drain.CallerSound, hcaller] using h.caller
      have hcharged : d.charged = 0 := by
        simpa [h.not_counted (by rw [Drain.timedOut, hcaller])] using h.charged_eq
      cases hfinished : d.flags.finished with
      | true =>
          exact ⟨⟨hsome, hlate, rfl⟩, h.worker, h.deadline, fun _ => h.finished hfinished,
            fun _ => rfl, fun _ => .inr hfinished, h.charged_eq⟩
      | false =>
          refine ⟨⟨hsome, hlate, rfl⟩, h.worker, h.deadline, ?_, fun _ => rfl,
            fun _ => .inl ?_, ?_⟩
          · simp [hfinished]
          · simp [hfinished]
          · simp [hfinished, hcharged]

/-- What a step does to the flags and to the counter. -/
theorem Drain.step_flags (h : d.Sound warning)
    (hstep : d.step warning count event = some (count', d')) :
    (d.flags.finished = false ∧ d'.flags = { d.flags with finished := true } ∧
      count' = if d.flags.counted then count - 1 else count) ∨
    (d.flags.counted = false ∧
      d'.flags = (if d.flags.finished then d.flags else { d.flags with counted := true }) ∧
      count' = if d.flags.finished then count else count + 1) ∨
    (d'.flags = d.flags ∧ count' = count) := by
  cases Drain.stepped_of_step hstep with
  | finish hw hcompleted hrunning => exact .inl ⟨hrunning, rfl, rfl⟩
  | abandon hcaller =>
      exact .inr (.inl ⟨h.not_counted (by rw [Drain.timedOut, hcaller]), rfl, rfl⟩)
  | started | refused | method | setCompleted | deadline | overflow | wake | giveUp =>
      exact .inr (.inr ⟨rfl, rfl⟩)

theorem Drain.Sound.outstanding_eq (h : d.Sound warning) : d.outstanding = d.flags.owed := by
  rw [Drain.outstanding, Arbiter.owed]
  cases hcounted : d.flags.counted with
  | true => rw [h.timedOut_of_counted hcounted]
  | false =>
      cases htimedOut : d.timedOut with
      | true =>
          have hfinished := (h.settled htimedOut).resolve_left (by simp [hcounted])
          simp [hfinished]
      | false => rfl

/-- What the variables of a worker come to is what its calls come to. -/
theorem Drain.resultOf_eq {methods : List String} (h : w.Sound methods) :
    Drain.resultOf warning w = Drain.outcomeOf warning w.calls := by
  rw [Drain.resultOf, Drain.outcomeOf, ← h.error_eq]
  cases w.error with
  | some error => rfl
  | none =>
      have hiff := h.incomplete_iff
      cases hfailed : w.calls.any fun c => c.2.failed with
      | true =>
          rw [hfailed] at hiff
          rw [if_neg (by simpa using hiff)]
          simp
      | false => simp [hiff.mpr hfailed]

/-- A drain with a result is one whose caller has returned. -/
theorem Drain.exists_returned {r : Except (Raised ε) Bool} (h : d.result = some r) :
    ∃ how, d.caller = .returned how r := by
  rw [Drain.result] at h
  split at h
  · next how result hreturned =>
      obtain rfl := Option.some.inj h
      exact ⟨how, hreturned⟩
  · cases h

/-- The wait raises in no verdict. -/
theorem Drain.verdict_ne_overflow (d : Drain ε) : d.verdict warning ≠ .error .overflow := by
  have hwarned : warned warning ≠ .error .overflow := by cases warning <;> nofun
  rw [Drain.verdict]
  split
  · exact hwarned
  · split
    · rw [Drain.outcomeOf]
      split
      · nofun
      · split
        · exact hwarned
        · nofun
    · exact hwarned

/-- **A result is the verdict**, unless the wait raised. -/
theorem Drain.Sound.result_eq (h : d.Sound warning) {r : Except (Raised ε) Bool}
    (hr : d.result = some r) (hwaited : d.overflowed = false) : r = d.verdict warning := by
  have hcaller := h.caller
  obtain ⟨how, hreturned⟩ := Drain.exists_returned hr
  rw [Drain.CallerSound, hreturned] at hcaller
  cases how with
  | declined | notStarted =>
      rw [Drain.verdict, hcaller.1]
      exact hcaller.2
  | timedOut =>
      obtain ⟨hsome, ⟨v, hv, hnot⟩, rfl⟩ := hcaller
      obtain ⟨w, hw⟩ := Option.isSome_iff_exists.mp hsome
      simp [Drain.verdict, hw, Option.mem_def.mp hv, hnot]
  | overflowed =>
      rw [Drain.overflowed, hreturned] at hwaited
      cases hwaited
  | completed =>
      obtain ⟨w, hw, hcompleted, hdeadline, rfl⟩ := hcaller
      have hbefore : d.atDeadline.getD w = w := by
        cases hat : d.atDeadline with
        | none => rfl
        | some v =>
            have hsame := h.deadline v hat (hdeadline v hat)
            exact Option.some.inj (hsame.symm.trans hw)
      simp [Drain.verdict, hw, hbefore, hcompleted, Drain.resultOf_eq (h.worker w hw)]

/-- If the result is `True`, every method was called. -/
theorem Drain.Sound.complete (h : d.Sound warning) (hr : d.result = some (.ok true)) :
    ∃ w, d.worker = some w ∧ w.calls.map Prod.fst = d.methods := by
  have hwarned : warned warning ≠ .ok true := by
    cases warning <;> nofun
  have hcaller := h.caller
  obtain ⟨how, hreturned⟩ := Drain.exists_returned hr
  rw [Drain.CallerSound, hreturned] at hcaller
  cases how with
  | declined | notStarted => exact absurd hcaller.2.symm hwarned
  | timedOut => exact absurd hcaller.2.2.symm hwarned
  | overflowed => cases hcaller.2
  | completed =>
      obtain ⟨w, hw, hcompleted, -, hresult⟩ := hcaller
      have hsound := h.worker w hw
      have hleaves := hsound.leaves_of_completed hcompleted
      have herror : w.error = none := by
        by_contra hne
        obtain ⟨error, herror⟩ := Option.ne_none_iff_exists'.mp hne
        rw [Drain.resultOf, herror] at hresult
        cases hresult
      have hmethods : w.methods = [] := by simpa [Worker.leaves, herror] using hleaves
      refine ⟨w, hw, ?_⟩
      rw [← hsound.split, hmethods, List.append_nil]

end Step

/-! ## All drains -/

section Runs

variable {ε : Type} {warning : Option ε} {s s' : State ε} {d d' : Drain ε} {count' : ℤ}
  {event : Event ε} {i : ℕ}

/-- The counter and the flags of the drains. -/
def State.charges (s : State ε) : Charges := ⟨s.count, s.drains.map Drain.flags⟩

/-- What holds in every state of a run. -/
structure Sound (warning : Option ε) (s : State ε) : Prop where
  drains : ∀ d ∈ s.drains, d.Sound warning
  balanced : s.charges.Balanced

theorem Sound.counted (h : Sound warning s) : s.Counted := by
  have hcount : s.count = s.drains.countP Drain.outstanding := by
    have howing : s.drains.countP Drain.outstanding = s.charges.owing :=
      Charges.countP_eq_owing s.count fun d hd => (h.drains d hd).outstanding_eq
    rw [howing]
    exact h.balanced
  constructor
  · exact hcount
  · rw [hcount]
    exact Int.natCast_nonneg _
  · intro d hd
    rw [(h.drains d hd).charged_eq]
    split <;> omega

/-- **What is sound is lawful** as long as no wait raised. -/
theorem Sound.lawful (h : Sound warning s) (hwaited : ∀ d ∈ s.drains, d.overflowed = false) :
    s.Lawful warning where
  toCounted := h.counted
  result_eq d hd _ hr := (h.drains d hd).result_eq hr (hwaited d hd)
  complete d hd hr := (h.drains d hd).complete hr

/-- **The counter** after a step of one drain. -/
theorem Sound.balanced_step (h : Sound warning s) (hi : s.drains[i]? = some d)
    (hstep : d.step warning s.count event = some (count', d')) :
    (State.charges ⟨count', s.drains.set i d'⟩).Balanced := by
  have hd := h.drains d (List.mem_of_getElem? hi)
  have hjob : s.charges.jobs[i]? = some d.flags := by simp [State.charges, hi]
  have hset := set_eq_self hjob
  have hcharges : State.charges ⟨count', s.drains.set i d'⟩ =
      ⟨count', s.charges.jobs.set i d'.flags⟩ := by
    simp [State.charges, List.map_set]
  rw [hcharges]
  obtain ⟨hrunning, hflags, rfl⟩ | ⟨hcounted, hflags, rfl⟩ | ⟨hflags, rfl⟩ :=
    Drain.step_flags hd hstep
  · rw [hflags]
    exact Charges.balanced_finish h.balanced hjob hrunning
  · have habandon := Charges.balanced_abandon h.balanced hjob hcounted
    rw [Charges.abandon] at habandon
    rw [hflags]
    split
    · next hfinished =>
        rw [if_pos hfinished] at habandon
        rw [hset]
        exact habandon
    · next hfinished =>
        rw [if_neg hfinished] at habandon
        exact habandon
  · rw [hflags, hset]
    exact h.balanced

theorem Sound.step {label : Label ε} (h : Sound warning s)
    (hstep : (machine warning).step s label = some s') : Sound warning s' := by
  cases label with
  | call timeout methods decline =>
      cases hstep
      constructor
      · intro d hd
        simp only [List.mem_append, List.mem_singleton] at hd
        obtain hd | rfl := hd
        · exact h.drains d hd
        · exact Drain.sound_begun ..
      · have hstart : State.charges { s with
            drains := s.drains ++ [begun warning timeout methods decline s.count] } =
              s.charges.start := by
          simp [State.charges, Charges.start, begun]
        rw [hstart]
        exact Charges.balanced_start h.balanced
  | drain i event =>
      obtain ⟨r, hr, rfl⟩ := Option.map_eq_some_iff.mp hstep
      obtain ⟨d, hi, hd⟩ := Option.bind_eq_some_iff.mp hr
      constructor
      · intro e he
        obtain he | rfl := List.mem_or_eq_of_mem_set he
        · exact h.drains e he
        · exact (h.drains d (List.mem_of_getElem? hi)).step hd
      · exact h.balanced_step hi hd

theorem sound_init : Sound warning (machine warning).init where
  drains := by simp [machine]
  balanced := rfl

theorem Sound.runFrom {labels : List (Label ε)} (h : Sound warning s)
    (hrun : (machine warning).runFrom s labels = some s') : Sound warning s' :=
  Machine.runFrom_keeps (fun _ _ _ hs hstep => hs.step hstep) h hrun

/-! ### A result is there once and for all -/

theorem Drain.result_step {r : Except (Raised ε) Bool} {count : ℤ} (h : d.result = some r)
    (hstep : d.step warning count event = some (count', d')) : d'.result = some r := by
  obtain ⟨how, hreturned⟩ := Drain.exists_returned h
  cases Drain.stepped_of_step hstep with
  | method | setCompleted | finish | deadline => exact h
  | started hcaller | refused hcaller | overflow hcaller | wake hcaller | giveUp hcaller
  | abandon hcaller => cases hreturned.symm.trans hcaller

theorem result_step {label : Label ε} {r : Except (Raised ε) Bool} (hi : s.drains[i]? = some d)
    (hr : d.result = some r) (hstep : (machine warning).step s label = some s') :
    ∃ d', s'.drains[i]? = some d' ∧ d'.result = some r := by
  cases label with
  | call timeout methods decline =>
      cases hstep
      refine ⟨d, ?_, hr⟩
      simp only
      rw [List.getElem?_append_left (List.getElem?_eq_some_iff.mp hi).1]
      exact hi
  | drain j event =>
      obtain ⟨⟨count', e'⟩, hj, rfl⟩ := Option.map_eq_some_iff.mp hstep
      obtain ⟨e, he, hd⟩ := Option.bind_eq_some_iff.mp hj
      simp only
      by_cases hij : j = i
      · subst hij
        obtain rfl : d = e := Option.some.inj (hi.symm.trans he)
        refine ⟨e', ?_, Drain.result_step hr hd⟩
        rw [List.getElem?_set_self (List.getElem?_eq_some_iff.mp hi).1]
      · refine ⟨d, ?_, hr⟩
        rw [List.getElem?_set_ne hij]
        exact hi

/-- A result stays for the rest of the run. -/
theorem result_runFrom {labels : List (Label ε)} {r : Except (Raised ε) Bool}
    (hi : s.drains[i]? = some d)
    (hr : d.result = some r) (hrun : (machine warning).runFrom s labels = some s') :
    ∃ d', s'.drains[i]? = some d' ∧ d'.result = some r := by
  refine Machine.runFrom_keeps (P := fun s : State ε =>
    ∃ d', s.drains[i]? = some d' ∧ d'.result = some r) (fun t label t' ht hstep => ?_)
    ⟨d, hi, hr⟩ hrun
  obtain ⟨e, he, hresult⟩ := ht
  exact result_step he hresult hstep

/-! ### A result can always be had -/

/-- The event is one of the caller's, or the deadline. -/
def Event.ofCaller : Event ε → Bool
  | .start _ | .deadline | .overflow | .wake | .giveUp | .abandon => true
  | _ => false

/-- The `i`-th call can return while its worker does nothing. -/
def CanReturn (warning : Option ε) (s : State ε) (i : ℕ) : Prop :=
  ∃ (events : List (Event ε)) (s' : State ε), (∀ e ∈ events, e.ofCaller = true) ∧
    (machine warning).runFrom s (events.map (Label.drain i)) = some s' ∧
      ∃ d', s'.drains[i]? = some d' ∧ d'.result.isSome = true

theorem canReturn_of_result (hi : s.drains[i]? = some d) (hr : d.result.isSome = true) :
    CanReturn warning s i :=
  ⟨[], s, by simp, rfl, d, hi, hr⟩

/-- The call can return if it can after its next step. -/
theorem CanReturn.of_step (event : Event ε) (hi : s.drains[i]? = some d)
    (he : event.ofCaller = true) (hstep : d.step warning s.count event = some (count', d'))
    (h : ∀ t : State ε, t.drains[i]? = some d' → CanReturn warning t i) :
    CanReturn warning s i := by
  have hget : (s.drains.set i d')[i]? = some d' :=
    List.getElem?_set_self (List.getElem?_eq_some_iff.mp hi).1
  obtain ⟨events, s', hevents, hrun, hresult⟩ := h ⟨count', s.drains.set i d'⟩ hget
  refine ⟨event :: events, s', ?_, ?_, hresult⟩
  · intro e hmem
    obtain rfl | hmem := List.mem_cons.mp hmem
    · exact he
    · exact hevents e hmem
  · rw [List.map_cons, Machine.runFrom_cons, Option.bind_eq_some_iff]
    exact ⟨_, by simp [machine, hi, hstep], hrun⟩

/-- A caller that gave up returns. -/
theorem canReturn_of_gaveUp (hi : s.drains[i]? = some d) (hcaller : d.caller = .gaveUp) :
    CanReturn warning s i := by
  refine CanReturn.of_step .abandon hi rfl (by simp only [Drain.step, hcaller]; rfl) ?_
  intro t ht
  exact canReturn_of_result ht rfl

/-- A caller whose deadline elapsed before `completed` was set returns. -/
theorem canReturn_of_late (hi : s.drains[i]? = some d) (hcaller : d.caller = .waiting)
    {w : Worker ε} (hw : d.atDeadline = some w) (hnot : w.completed = false) :
    CanReturn warning s i := by
  refine CanReturn.of_step .giveUp hi rfl
    (by simp only [Drain.step, hcaller, hw, Option.any_some, hnot, Bool.not_false, if_true]
        rfl) ?_
  intro t ht
  exact canReturn_of_gaveUp ht rfl

/-- A caller whose worker set `completed` by the deadline returns. -/
theorem canReturn_of_completed (hi : s.drains[i]? = some d) (hcaller : d.caller = .waiting)
    {w : Worker ε} (hw : d.worker = some w) (hcompleted : w.completed = true)
    (hdeadline : d.atDeadline.all Worker.completed = true) : CanReturn warning s i := by
  refine CanReturn.of_step .wake hi rfl
    (by simp only [Drain.step, hw, hcaller, Option.bind_eq_bind, Option.bind_some, hcompleted,
          hdeadline, and_self, if_true]
        rfl) ?_
  intro t ht
  exact canReturn_of_result ht rfl

/-- A caller whose timeout is too long returns as well: it raises. -/
theorem canReturn_of_overlong (hi : s.drains[i]? = some d) (hcaller : d.caller = .waiting)
    {w : Worker ε} (hw : d.worker = some w) (hnot : w.completed = false)
    (hlong : overlong d.timeoutSeconds = true) : CanReturn warning s i := by
  refine CanReturn.of_step .overflow hi rfl
    (by simp only [Drain.step, hw, hcaller, Option.bind_eq_bind, Option.bind_some, hlong, hnot,
          Bool.false_eq_true, not_false_eq_true, and_self, if_true]
        rfl) ?_
  intro t ht
  exact canReturn_of_result ht rfl

/-- **Every call can return**, whatever its worker does. -/
theorem Sound.canReturn (h : Sound warning s) (hi : s.drains[i]? = some d) :
    CanReturn warning s i := by
  have hd := h.drains d (List.mem_of_getElem? hi)
  have hsound := hd.caller
  cases hcaller : d.caller with
  | starting =>
      refine CanReturn.of_step (.start false) hi rfl
        (by simp only [Drain.step, hcaller]; rfl) ?_
      intro t ht
      exact canReturn_of_result ht rfl
  | waiting =>
      rw [Drain.CallerSound, hcaller] at hsound
      obtain ⟨w, hw⟩ := Option.isSome_iff_exists.mp hsound
      cases hat : d.atDeadline with
      | none =>
          cases hcompleted : w.completed with
          | true => exact canReturn_of_completed hi hcaller hw hcompleted (by simp [hat])
          | false =>
              cases hlong : overlong d.timeoutSeconds with
              | true => exact canReturn_of_overlong hi hcaller hw hcompleted hlong
              | false =>
                  refine CanReturn.of_step .deadline hi rfl
                    (by simp only [Drain.step, hcaller, hat, hlong]; rfl) ?_
                  intro t ht
                  exact canReturn_of_late ht rfl hw hcompleted
      | some v =>
          cases hcompleted : v.completed with
          | true =>
              exact canReturn_of_completed hi hcaller (hd.deadline v hat hcompleted) hcompleted
                (by simp [hat, hcompleted])
          | false => exact canReturn_of_late hi hcaller hat hcompleted
  | gaveUp => exact canReturn_of_gaveUp hi hcaller
  | returned how result => exact canReturn_of_result hi (by simp [Drain.result, hcaller])

/-! ### Every run -/

/-- What holds of a state until a wait raises. -/
def Undisturbed (warning : Option ε) (s : State ε) : Prop :=
  Sound warning s ∧ ∀ d ∈ s.drains, d.overflowed = false

/-- A wait that raises was asked for more than it takes. -/
theorem Drain.step_overflow (hstep : d.step warning s.count .overflow = some (count', d')) :
    ¬ d.Waits .overflow ∧ d'.result = some (.error .overflow) := by
  cases Drain.stepped_of_step hstep with
  | overflow hcaller hw hlong hnot =>
      refine ⟨?_, rfl⟩
      rintro (hfits | hcompleted)
      · cases hlong.symm.trans hfits
      · rw [hw, Option.any_some, hnot] at hcompleted
        cases hcompleted

/-- No other step is the wait's. -/
theorem Drain.overflowed_step (h : d.overflowed = false) (hwaits : d.Waits event)
    (hstep : d.step warning s.count event = some (count', d')) : d'.overflowed = false := by
  cases Drain.stepped_of_step hstep with
  | overflow => exact absurd hwaits (Drain.step_overflow hstep).1
  | method | setCompleted | finish | deadline => exact h
  | started | refused | wake | giveUp | abandon => rfl

theorem Undisturbed.step {label : Label ε} (h : Undisturbed warning s) (hwaits : Waits s label)
    (hstep : (machine warning).step s label = some s') : Undisturbed warning s' := by
  refine ⟨h.1.step hstep, ?_⟩
  cases label with
  | call timeout methods decline =>
      cases hstep
      intro d hd
      simp only [List.mem_append, List.mem_singleton] at hd
      obtain hd | rfl := hd
      · exact h.2 d hd
      · by_cases hdeclines : decline = true ∧ maxAbandonedWorkers ≤ s.count <;>
          simp [Drain.overflowed, begun, hdeclines]
  | drain i event =>
      obtain ⟨r, hr, rfl⟩ := Option.map_eq_some_iff.mp hstep
      obtain ⟨d, hi, hd⟩ := Option.bind_eq_some_iff.mp hr
      intro e he
      obtain he | rfl := List.mem_or_eq_of_mem_set he
      · exact h.2 e he
      · exact Drain.overflowed_step (h.2 d (List.mem_of_getElem? hi)) (hwaits d hi) hd

/-- **A step that keeps the law** is one in which no wait raises. -/
theorem waits_of_lawful {label : Label ε} (hstep : (machine warning).step s label = some s')
    (hlaw : s'.Lawful warning) : Waits s label := by
  cases label with
  | call timeout methods decline => trivial
  | drain i event =>
      obtain ⟨⟨count', d'⟩, hr, rfl⟩ := Option.map_eq_some_iff.mp hstep
      obtain ⟨e, hi, he⟩ := Option.bind_eq_some_iff.mp hr
      intro d hd
      obtain rfl : d = e := Option.some.inj (hd.symm.trans hi)
      cases event with
      | overflow =>
          have hmem : d' ∈ s.drains.set i d' :=
            List.mem_set (List.getElem?_eq_some_iff.mp hi).1 d'
          have hresult := hlaw.result_eq d' hmem _ (Drain.step_overflow he).2
          exact absurd hresult.symm d'.verdict_ne_overflow
      | _ => trivial

/-- **A run is lawful throughout** iff no wait is asked for more than it takes before `completed` is
set. In every run the counter is exact and never negative and no drain is counted twice, a result
never changes, and a call that has none can always get one, whatever its worker does. -/
theorem lawful_iff_waits {labels : List (Label ε)} (h : (machine warning).run labels = some s) :
    ((machine warning).Guarded Waits (machine warning).init labels ↔
      ∀ ks t, ks <+: labels → (machine warning).run ks = some t → t.Lawful warning) ∧
    s.Counted ∧
    ∀ i d, s.drains[i]? = some d → CanReturn warning s i ∧
      ∀ r, d.result = some r → ∀ ks s', (machine warning).runFrom s ks = some s' →
        ∃ d', s'.drains[i]? = some d' ∧ d'.result = some r := by
  have hsound : Sound warning s := sound_init.runFrom h
  refine ⟨?_, hsound.counted, fun i d hi => ⟨hsound.canReturn hi, ?_⟩⟩
  · refine Machine.guarded_iff (J := Undisturbed warning) ⟨sound_init, by simp [machine]⟩
      (fun t ht => ht.1.lawful ht.2) ?_ ?_ h
    · exact fun t label t' ht hwaits hstep => ht.step hwaits hstep
    · exact fun t label t' _ hstep hlaw => waits_of_lawful hstep hlaw
  · intro r hr ks s' hrun
    exact result_runFrom hi hr hrun

/-- The worker sets `completed` after its caller gave up and before the caller takes the lock; it
finishes later. -/
def lateWorker : List (Label String) :=
  [.call .one ["force_flush"] true, .drain 0 (.start true), .drain 0 .deadline, .drain 0 .giveUp,
    .drain 0 (.method (.returned false)), .drain 0 .setCompleted, .drain 0 .abandon,
    .drain 0 .finish]

theorem lawful_of_lateWorker :
    (∃ s, (machine none).run lateWorker = some s) ∧
      ∀ ks t, ks <+: lateWorker → (machine none).run ks = some t → t.Lawful none := by
  refine ⟨⟨_, rfl⟩, (lawful_iff_waits rfl).1.mp ?_⟩
  simp [lateWorker, Machine.Guarded, Waits, Drain.Waits]

/-- A flush with an infinite timeout: the wait raises at once, and then the worker drains
everything. -/
theorem not_lawful_of_overlong :
    ¬ ∀ labels s, (machine (none : Option String)).run labels = some s → s.Lawful none := by
  intro h
  have hlaw := h [.call (.num ⊤) ["force_flush"] true, .drain 0 (.start true), .drain 0 .overflow,
    .drain 0 (.method (.returned false)), .drain 0 .setCompleted, .drain 0 .finish] _ rfl
  have hresult := hlaw.result_eq _ (List.mem_singleton.mpr rfl) (.error .overflow) rfl
  cases hresult

end Runs
end Telemetry.Drains.Python
