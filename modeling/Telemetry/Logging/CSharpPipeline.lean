import Telemetry.Backpressure.CSharp
import Telemetry.Lib.Program

/-!
# The signal pipeline of the C# SDK

`Signals.cs`: a record asks for consent, for a sample and for a queue slot, then goes through the
stages of its dispatch. What the gates refuse is counted as dropped; behind the local sink the
record is counted as emitted, also if the backend throws; the ticket is released in a `finally`. A
stage that throws before the local sink has returned leaves nothing in the health counters.

## Main definitions

* `LogDispatch`, `Course` — a record with its stages, and how the code outside of it goes.
* `admitSignal`, `process` — the gates, and the one path that every record takes.
* `Settled` — a record is counted once, and its ticket is released once.
* `written` — the stages up to the local sink, as far as the queues are concerned.

## Main results

* `settled_process_iff` — **which records are accounted for**.
* `stages_process` — the stages are observed in the canonical order, the release once and last.
-/

namespace Telemetry.Logging.CSharp

open Telemetry.Lib Telemetry.Backpressure.CSharp

/-- `PipelineStages`. -/
inductive PipelineStage
  | consent
  | sampling
  | backpressure
  | hardening
  | pii
  | receipt
  | localSink
  | backend
  | health
  | release
  deriving DecidableEq, Repr

/-- `CanonicalOrder`, without the release at its end. -/
def beforeRelease : List PipelineStage :=
  [.consent, .sampling, .backpressure, .hardening, .pii, .receipt, .localSink, .backend, .health]

/-- What a record needs. A stage may change the queues, and so may other threads while it runs. -/
structure LogDispatch (ε Fields Payload Redaction Record : Type) where
  signal : String := Signals.logs
  samplingKey : String
  logLevel : String
  harden : Program ε Queues Fields
  sanitize : Fields → Program ε Queues (Payload × List Redaction)
  build : Payload → Program ε Queues Record
  emitLocal : Record → Program ε Queues Unit
  backend : Option (Record → Program ε Queues Unit) := none

/-- How the code outside goes during one call. -/
structure Course (ε Redaction : Type) where
  tracingEnabled : Bool
  metricsEnabled : Bool
  /-- `Consent.ShouldAllow`. -/
  shouldAllow : String → String → Bool
  /-- `Sampling.ShouldSample`. -/
  shouldSample : String → String → Bool
  /-- What other threads do between the two looks at the queue. -/
  meanwhile : Queues → Queues
  /-- `Receipts.RecordAll`. -/
  recordAll : List Redaction → Program ε Queues Unit

/-- The static state, and what was done to it. -/
structure World (Record : Type) where
  queues : Queues := {}
  emitted : String → ℕ := fun _ => 0
  dropped : String → ℕ := fun _ => 0
  exportFailures : String → ℕ := fun _ => 0
  /-- What the observer has seen. -/
  stages : List PipelineStage := []
  /-- The records for which the local sink has returned. -/
  handed : List Record := []
  /-- The tickets that were taken, and those that were released. -/
  acquired : List QueueTicket := []
  released : List QueueTicket := []

section Steps

variable {ε Record α : Type}

/-- Whose counters a signal has. -/
def counters (signal : String) : String :=
  if signal = Signals.traces then Signals.traces
  else if signal = Signals.metrics then Signals.metrics
  else Signals.logs

namespace World

/-- `OnStage`. -/
def onStage (stage : PipelineStage) (w : World Record) : World Record :=
  { w with stages := w.stages ++ [stage] }

/-- `Health.RecordEmitted`. -/
def recordEmitted (signal : String) (w : World Record) : World Record :=
  { w with emitted :=
      Function.update w.emitted (counters signal) (w.emitted (counters signal) + 1) }

/-- `Health.RecordDropped`. -/
def recordDropped (signal : String) (w : World Record) : World Record :=
  { w with dropped :=
      Function.update w.dropped (counters signal) (w.dropped (counters signal) + 1) }

/-- `Health.RecordExportFailure`. -/
def recordExportFailure (signal : String) (w : World Record) : World Record :=
  { w with exportFailures :=
      Function.update w.exportFailures (counters signal) (w.exportFailures (counters signal) + 1) }

/-- A ticket was taken. -/
def acquire (queues : Queues) (ticket : QueueTicket) (w : World Record) : World Record :=
  { w with queues := queues, acquired := w.acquired ++ [ticket] }

/-- `Backpressure.Release`. -/
def release (ticket : Option QueueTicket) (w : World Record) : World Record :=
  { w with queues := (w.queues.release ticket).1, released := w.released ++ ticket.toList }

/-- The local sink has returned. -/
def hand (record : Record) (w : World Record) : World Record :=
  { w with handed := w.handed ++ [record] }

end World

/-- A step of the pipeline. -/
abbrev Pipeline (ε Record α : Type) := Program ε (World Record) α

/-- What a stage does to the queues. -/
def within (p : Program ε Queues α) : Pipeline ε Record α :=
  ExceptT.mk fun w => ((p.exec w.queues).1, { w with queues := (p.exec w.queues).2 })

/-- A stage behind its observer. -/
def atStage (stage : PipelineStage) (p : Program ε Queues α) : Pipeline ε Record α := do
  modify (World.onStage stage)
  within p

end Steps

variable {ε Fields Payload Redaction Record α β : Type}

/-! ## The pipeline -/

/-- `SignalAdmission`. -/
structure SignalAdmission where
  admitted : Bool
  ticket : Option QueueTicket

/-- `SignalEnabled`. -/
def Course.signalEnabled (x : Course ε Redaction) (signal : String) : Bool :=
  if signal = Signals.traces then x.tracingEnabled
  else if signal = Signals.metrics then x.metricsEnabled
  else true

/-- `Reject`, which is never called with a ticket. -/
def reject (signal : String) : Pipeline ε Record SignalAdmission := do
  modify (World.onStage .health)
  modify (World.recordDropped signal)
  modify (World.onStage .release)
  modify (World.release none)
  pure ⟨false, none⟩

/-- `MaxSize`. -/
def maxSize (signal : String) (queues : Queues) : Int32 :=
  if signal ∈ Signals.valid then queues.bound signal else 0

/-- The last gate of `Admit`. -/
def admitQueue (x : Course ε Redaction) (signal : String) : Pipeline ε Record SignalAdmission := do
  modify (World.onStage .backpressure)
  match (← get).queues.tryAcquire signal with
  | (queues, some ticket) => do
      modify (World.acquire queues ticket)
      pure ⟨true, some ticket⟩
  | (queues, none) => do
      modify fun w => { w with queues := x.meanwhile queues }
      -- null with an unlimited queue is no rejection
      if 0 < maxSize signal (x.meanwhile queues) then reject signal else pure ⟨true, none⟩

/-- `Admit`, with sampling. -/
def admitSignal (x : Course ε Redaction) (signal samplingKey logLevel : String) :
    Pipeline ε Record SignalAdmission := do
  if !x.signalEnabled signal then pure ⟨false, none⟩
  else
    modify (World.onStage .consent)
    if !x.shouldAllow signal logLevel then reject signal
    else
      modify (World.onStage .sampling)
      if !x.shouldSample signal samplingKey then reject signal
      else admitQueue x signal

/-- The stages of `Process` up to the local sink. -/
def write (x : Course ε Redaction) (d : LogDispatch ε Fields Payload Redaction Record) :
    Pipeline ε Record Record := do
  let hardened ← atStage .hardening d.harden
  let (sanitized, redactions) ← atStage .pii (d.sanitize hardened)
  atStage .receipt (x.recordAll redactions)
  let record ← within (d.build sanitized)
  atStage .localSink (d.emitLocal record)
  pure record

/-- The backend of `Process`: a failure is counted and thrown again, and behind it the record is
counted as emitted. -/
def sendToBackend (d : LogDispatch ε Fields Payload Redaction Record) (record : Record) :
    Pipeline ε Record Unit :=
  Program.ensuring
    (Program.onRaise
      (match d.backend with
        | none => pure ()
        | some backend => atStage .backend (backend record))
      (modify (World.recordExportFailure d.signal)))
    (modify fun w => (w.onStage .health).recordEmitted d.signal)

/-- The `try` block of `Process`. -/
def deliver (x : Course ε Redaction) (d : LogDispatch ε Fields Payload Redaction Record) :
    Pipeline ε Record Bool := do
  let record ← write x d
  modify (World.hand record)
  sendToBackend d record
  pure true

/-- `Process`. -/
def process (x : Course ε Redaction) (d : LogDispatch ε Fields Payload Redaction Record) :
    Pipeline ε Record Bool := do
  let admission ← admitSignal x d.signal d.samplingKey d.logLevel
  if !admission.admitted then pure false
  else
    Program.ensuring (deliver x d)
      (modify fun w => (w.onStage .release).release admission.ticket)

/-! ## The gates -/

variable {x : Course ε Redaction} {d : LogDispatch ε Fields Payload Redaction Record}
  {w w' : World Record} {signal key level : String} {queues : Queues} {ticket : QueueTicket}

/-- A gate refuses: consent, sampling, or a full queue that is still bounded at the second look. -/
def Refused (x : Course ε Redaction) (signal key level : String) (queues : Queues) : Prop :=
  x.shouldAllow signal level = false ∨ x.shouldSample signal key = false ∨
    ((queues.tryAcquire signal).2 = none ∧
      0 < maxSize signal (x.meanwhile (queues.tryAcquire signal).1))

/-- The queues behind the gates, where none of them refuses. -/
def queuesBehind (x : Course ε Redaction) (signal : String) (queues : Queues) : Queues :=
  match queues.tryAcquire signal with
  | (queues, some _) => queues
  | (queues, none) => x.meanwhile queues

/-- What a refusal leaves. -/
def World.rejected (signal : String) (w : World Record) : World Record :=
  ((((w.onStage .health).recordDropped signal).onStage .release).release none)

/-- A queue that hands out a ticket. -/
theorem exec_admitQueue_some (h : w.queues.tryAcquire signal = (queues, some ticket)) :
    (admitQueue x signal : Pipeline ε Record _).exec w =
      (.ok ⟨true, some ticket⟩, (w.onStage .backpressure).acquire queues ticket) := by
  have hqueues : (w.onStage .backpressure).queues.tryAcquire signal = (queues, some ticket) := h
  simp only [admitQueue, Program.exec_bind, Program.exec_modify, Program.exec_get, hqueues]
  rfl

/-- A queue that does not. -/
theorem exec_admitQueue_none (h : w.queues.tryAcquire signal = (queues, none)) :
    (admitQueue x signal : Pipeline ε Record _).exec w =
      if 0 < maxSize signal (x.meanwhile queues) then
        (.ok ⟨false, none⟩, World.rejected signal
          { w.onStage .backpressure with queues := x.meanwhile queues })
      else (.ok ⟨true, none⟩, { w.onStage .backpressure with queues := x.meanwhile queues }) := by
  have hqueues : (w.onStage .backpressure).queues.tryAcquire signal = (queues, none) := h
  simp only [admitQueue, Program.exec_bind, Program.exec_modify, Program.exec_get, hqueues]
  split <;> rfl

/-- The gates before the queue. -/
theorem exec_admitSignal (henabled : x.signalEnabled signal = true) :
    (admitSignal x signal key level : Pipeline ε Record _).exec w =
      if x.shouldAllow signal level = false then
        (.ok ⟨false, none⟩, (w.onStage .consent).rejected signal)
      else if x.shouldSample signal key = false then
        (.ok ⟨false, none⟩, ((w.onStage .consent).onStage .sampling).rejected signal)
      else (admitQueue x signal : Pipeline ε Record _).exec
        ((w.onStage .consent).onStage .sampling) := by
  rw [admitSignal, henabled]
  cases x.shouldAllow signal level <;> cases x.shouldSample signal key <;>
    simp only [Bool.not_true, Bool.not_false, Bool.false_eq_true, if_true, if_false,
      Program.exec_bind, Program.exec_modify] <;> rfl

/-- What the gates leave where one of them refuses. -/
theorem exec_admitSignal_of_refused (henabled : x.signalEnabled signal = true)
    (h : Refused x signal key level w.queues) :
    ∃ queues stages, (admitSignal x signal key level : Pipeline ε Record _).exec w =
      (.ok ⟨false, none⟩, World.rejected signal { w with queues := queues, stages := stages }) := by
  rw [exec_admitSignal henabled]
  split_ifs with hallow hsample
  · exact ⟨_, _, rfl⟩
  · exact ⟨_, _, rfl⟩
  · obtain ⟨hfull, hbounded⟩ := (h.resolve_left hallow).resolve_left hsample
    have hqueue : ((w.onStage .consent).onStage .sampling).queues.tryAcquire signal =
        ((w.queues.tryAcquire signal).1, none) := Prod.ext rfl hfull
    rw [exec_admitQueue_none hqueue, if_pos hbounded]
    exact ⟨_, _, rfl⟩

/-- What the gates leave where none of them refuses. -/
theorem exec_admitSignal_of_not_refused (henabled : x.signalEnabled signal = true)
    (h : ¬ Refused x signal key level w.queues) :
    ∃ ticket stages, (admitSignal x signal key level : Pipeline ε Record _).exec w =
      (.ok ⟨true, ticket⟩, { w with
        queues := queuesBehind x signal w.queues
        acquired := w.acquired ++ ticket.toList
        stages := stages }) := by
  simp only [Refused, not_or, not_and] at h
  rw [exec_admitSignal henabled, if_neg h.1, if_neg h.2.1, queuesBehind]
  cases hqueue : w.queues.tryAcquire signal with
  | mk queues ticket =>
      have hsame : ((w.onStage .consent).onStage .sampling).queues.tryAcquire signal =
          (queues, ticket) := hqueue
      cases ticket with
      | some ticket =>
          rw [exec_admitQueue_some hsame]
          exact ⟨some ticket, _, rfl⟩
      | none =>
          have hbounded := h.2.2 (by rw [hqueue])
          rw [hqueue] at hbounded
          rw [exec_admitQueue_none hsame, if_neg hbounded]
          refine ⟨none, w.stages ++ [.consent] ++ [.sampling] ++ [.backpressure], ?_⟩
          rw [Option.toList_none, List.append_nil]
          rfl

/-! ## The stages -/

/-- The stages up to the local sink, as far as the queues are concerned. -/
def written (x : Course ε Redaction) (d : LogDispatch ε Fields Payload Redaction Record) :
    Program ε Queues Record := do
  let hardened ← d.harden
  let (sanitized, redactions) ← d.sanitize hardened
  x.recordAll redactions
  let record ← d.build sanitized
  d.emitLocal record
  pure record

/-- The pipeline does to the queues what the program does, and nothing else but pass stages. -/
def Mirrors (p : Pipeline ε Record α) (q : Program ε Queues α) : Prop :=
  ∀ w, ∃ stages, p.exec w =
    ((q.exec w.queues).1, { w with queues := (q.exec w.queues).2, stages := stages })

namespace Mirrors

variable {p : Pipeline ε Record α} {q : Program ε Queues α} {f : α → Pipeline ε Record β}
  {g : α → Program ε Queues β}

theorem bind (h : Mirrors p q) (hf : ∀ a, Mirrors (f a) (g a)) : Mirrors (p >>= f) (q >>= g) := by
  intro w
  obtain ⟨stages, hp⟩ := h w
  rw [Program.exec_bind, Program.exec_bind, hp]
  cases q.exec w.queues with
  | mk result queues =>
      cases result with
      | error e => exact ⟨stages, rfl⟩
      | ok a => exact hf a { w with queues := queues, stages := stages }

theorem of_pure (a : α) : Mirrors (pure a : Pipeline ε Record α) (pure a) :=
  fun w => ⟨w.stages, rfl⟩

theorem of_within (q : Program ε Queues α) : Mirrors (within q : Pipeline ε Record α) q :=
  fun w => ⟨w.stages, rfl⟩

theorem of_atStage (stage : PipelineStage) (q : Program ε Queues α) :
    Mirrors (atStage stage q : Pipeline ε Record α) q :=
  fun w => ⟨w.stages ++ [stage], rfl⟩

end Mirrors

theorem write_mirrors (x : Course ε Redaction)
    (d : LogDispatch ε Fields Payload Redaction Record) : Mirrors (write x d) (written x d) :=
  (Mirrors.of_atStage _ _).bind fun _ => (Mirrors.of_atStage _ _).bind fun _ =>
    (Mirrors.of_atStage _ _).bind fun _ => (Mirrors.of_within _).bind fun _ =>
      (Mirrors.of_atStage _ _).bind fun _ => Mirrors.of_pure _

/-! ## What is accounted for -/

/-- What is counted of the logs, the records for which the local sink has returned, and the
tickets. -/
structure Books (Record : Type) where
  emitted : ℕ
  dropped : ℕ
  handed : List Record
  acquired : List QueueTicket
  released : List QueueTicket

def World.books (w : World Record) : Books Record where
  emitted := w.emitted Signals.logs
  dropped := w.dropped Signals.logs
  handed := w.handed
  acquired := w.acquired
  released := w.released

/-- **A record is accounted for**: it is counted once, as emitted if the local sink has returned for
it and as dropped otherwise, and the ticket that was taken for it was released once. -/
structure Settled (b b' : Books Record) : Prop where
  counted : (∃ record, b'.handed = b.handed ++ [record] ∧ b'.emitted = b.emitted + 1 ∧
      b'.dropped = b.dropped) ∨
    (b'.handed = b.handed ∧ b'.emitted = b.emitted ∧ b'.dropped = b.dropped + 1)
  released : ∃ ticket : Option QueueTicket, b'.acquired = b.acquired ++ ticket.toList ∧
    b'.released = b.released ++ ticket.toList

/-- One more record of the local sink, counted as emitted. -/
def Books.post (record : Record) (b : Books Record) : Books Record :=
  { b with handed := b.handed ++ [record], emitted := b.emitted + 1 }

/-- A ticket more that was taken and released. -/
def Books.settle (ticket : Option QueueTicket) (b : Books Record) : Books Record :=
  { b with acquired := b.acquired ++ ticket.toList, released := b.released ++ ticket.toList }

/-- The record is counted, whatever the backend does. -/
theorem books_sendToBackend (hsignal : d.signal = Signals.logs) (record : Record)
    (w : World Record) :
    ((sendToBackend d record).exec w).2.books =
      { w.books with emitted := w.books.emitted + 1 } := by
  have hbooks : (w.recordEmitted d.signal).books =
      { w.books with emitted := w.books.emitted + 1 } := by
    rw [hsignal]
    rfl
  rw [← hbooks, sendToBackend, Program.exec_ensuring, Program.exec_onRaise]
  cases d.backend with
  | none => rfl
  | some backend =>
      obtain ⟨stages, h⟩ := Mirrors.of_atStage .backend (backend record) w
      simp only [h]
      cases (Program.exec (backend record) w.queues).1 <;> rfl

/-- What the `try` block leaves in the books. -/
theorem books_deliver (hsignal : d.signal = Signals.logs) (w : World Record) :
    ((deliver x d).exec w).2.books =
      match ((written x d).exec w.queues).1 with
      | .ok record => w.books.post record
      | .error _ => w.books := by
  obtain ⟨stages, h⟩ := write_mirrors x d w
  rw [deliver, Program.exec_bind, h]
  cases ((written x d).exec w.queues).1 with
  | error e => rfl
  | ok record =>
      simp only [Program.exec_bind, Program.exec_modify]
      generalize hhanded : World.hand record
        { w with queues := ((written x d).exec w.queues).2, stages := stages } = handed
      have hbooks := books_sendToBackend hsignal record handed
      have hpost : { handed.books with emitted := handed.books.emitted + 1 } =
          w.books.post record := by rw [← hhanded]; rfl
      rw [← hpost, ← hbooks]
      cases (sendToBackend d record).exec handed with
      | mk result w' => cases result <;> rfl

/-- A refusal is counted. -/
theorem books_rejected (w : World Record) :
    (w.rejected Signals.logs).books = { w.books with dropped := w.books.dropped + 1 } := by
  have hreleased : (w.rejected Signals.logs).released = w.released ++ [] := rfl
  rw [List.append_nil] at hreleased
  rw [World.books, hreleased]
  rfl

/-- **What a call leaves in the books.** -/
theorem books_process (hsignal : d.signal = Signals.logs) (w : World Record) :
    (Refused x Signals.logs d.samplingKey d.logLevel w.queues ∧
      ((process x d).exec w).2.books = { w.books with dropped := w.books.dropped + 1 }) ∨
    (¬ Refused x Signals.logs d.samplingKey d.logLevel w.queues ∧
      ∃ ticket, ((process x d).exec w).2.books = Books.settle ticket
        (match ((written x d).exec (queuesBehind x Signals.logs w.queues)).1 with
        | .ok record => w.books.post record
        | .error _ => w.books)) := by
  have henabled : x.signalEnabled Signals.logs = true := rfl
  have hdeliver := books_deliver (x := x) hsignal
  rw [process, hsignal, Program.exec_bind]
  by_cases h : Refused x Signals.logs d.samplingKey d.logLevel w.queues
  · obtain ⟨queues, stages, hadmitted⟩ := exec_admitSignal_of_refused (ε := ε) henabled h
    rw [hadmitted]
    exact .inl ⟨h, books_rejected _⟩
  · obtain ⟨ticket, stages, hadmitted⟩ := exec_admitSignal_of_not_refused (ε := ε) henabled h
    refine .inr ⟨h, ticket, ?_⟩
    rw [hadmitted]
    simp only [Bool.not_true, Bool.false_eq_true, if_false, Program.exec_ensuring]
    generalize hadmitted : ({ w with
      queues := queuesBehind x Signals.logs w.queues
      acquired := w.acquired ++ ticket.toList
      stages := stages } : World Record) = admitted
    have hqueues : admitted.queues = queuesBehind x Signals.logs w.queues := by rw [← hadmitted]
    have hbooks : admitted.books =
        { w.books with acquired := w.books.acquired ++ ticket.toList } := by rw [← hadmitted]; rfl
    have hleave (w' : World Record) : ((w'.onStage .release).release ticket).books =
        { w'.books with released := w'.books.released ++ ticket.toList } := rfl
    rw [hleave, hdeliver, hqueues]
    cases ((written x d).exec (queuesBehind x Signals.logs w.queues)).1 <;> rw [hbooks] <;> rfl

/-- **Which records are accounted for**: those that a gate refuses, and those whose stages up to the
local sink return. -/
theorem settled_process_iff (hsignal : d.signal = Signals.logs) (w : World Record) :
    Settled w.books ((process x d).exec w).2.books ↔
      Refused x Signals.logs d.samplingKey d.logLevel w.queues ∨
        ∃ record queues, (written x d).exec (queuesBehind x Signals.logs w.queues) =
          (.ok record, queues) := by
  obtain ⟨hrefused, hbooks⟩ | ⟨hrefused, ticket, hbooks⟩ := books_process (x := x) hsignal w
  · rw [hbooks]
    refine iff_of_true ⟨.inr ⟨rfl, rfl, rfl⟩, none, ?_, ?_⟩ (.inl hrefused) <;>
      rw [Option.toList_none, List.append_nil]
  rw [hbooks, or_iff_right hrefused]
  cases hwritten : (written x d).exec (queuesBehind x Signals.logs w.queues) with
  | mk result queues =>
      cases result with
      | ok record =>
          exact iff_of_true ⟨.inl ⟨record, rfl, rfl, rfl⟩, ticket, rfl, rfl⟩ ⟨record, queues, rfl⟩
      | error e =>
          refine iff_of_false (fun h => ?_) (fun h => ?_)
          · obtain ⟨record, -, hemitted, -⟩ | ⟨-, -, hdropped⟩ := h.counted
            · exact absurd hemitted (Nat.succ_ne_self _).symm
            · exact absurd hdropped (Nat.succ_ne_self _).symm
          · obtain ⟨record, queues, h⟩ := h
            cases h

/-- A course on which every gate lets a record pass. -/
def welcoming : Course String Unit where
  tracingEnabled := true
  metricsEnabled := true
  shouldAllow _ _ := true
  shouldSample _ _ := true
  meanwhile := id
  recordAll _ := pure ()

/-- A record with stages that do nothing but for its hardening. -/
def hardenedBy (harden : Program String Queues Unit) : LogDispatch String Unit Unit Unit Unit where
  samplingKey := "m"
  logLevel := "INFO"
  harden := harden
  sanitize _ := pure ((), [])
  build := pure
  emitLocal _ := pure ()

theorem settled_process_welcoming : Settled ({} : World Unit).books
    ((process welcoming (hardenedBy (pure ()))).exec {}).2.books :=
  (settled_process_iff rfl {}).mpr (.inr ⟨(), _, rfl⟩)

/-- A gate has let the record pass, but its hardening raises: it is counted neither way. -/
theorem unsettled_process : ¬ Settled ({} : World Unit).books
    ((process welcoming (hardenedBy (throw "no fields"))).exec {}).2.books := by
  intro h
  obtain ⟨record, hhanded, -⟩ | ⟨-, -, hdropped⟩ := h.counted
  · cases hhanded
  · cases hdropped

/-! ## The order of the stages -/

/-- What the observer sees of a program is among the stages, in their order. -/
def Observes (stages : List PipelineStage) (p : Pipeline ε Record α) : Prop :=
  ∀ w, ∃ seen, (p.exec w).2.stages = w.stages ++ seen ∧ seen.Sublist stages

namespace Observes

variable {p : Pipeline ε Record α} {f : α → Pipeline ε Record β} {l l' : List PipelineStage}

theorem bind (h : Observes l p) (hf : ∀ a, Observes l' (f a)) : Observes (l ++ l') (p >>= f) := by
  intro w
  obtain ⟨seen, hstages, hseen⟩ := h w
  rw [Program.exec_bind]
  cases hp : p.exec w with
  | mk result w' =>
      rw [hp] at hstages
      cases result with
      | error e => exact ⟨seen, hstages, hseen.trans (List.sublist_append_left _ _)⟩
      | ok a =>
          obtain ⟨seen', hstages', hseen'⟩ := hf a w'
          refine ⟨seen ++ seen', ?_, hseen.append hseen'⟩
          rw [hstages', show w'.stages = _ from hstages, List.append_assoc]

theorem of_pure (a : α) : Observes [] (pure a : Pipeline ε Record α) :=
  fun _ => ⟨[], (List.append_nil _).symm, .slnil⟩

theorem of_modify {change : World Record → World Record} (h : ∀ w, (change w).stages = w.stages) :
    Observes [] (modify change : Pipeline ε Record PUnit) :=
  fun w => ⟨[], (h w).trans (List.append_nil _).symm, .slnil⟩

theorem of_within (q : Program ε Queues α) : Observes [] (within q : Pipeline ε Record α) :=
  fun _ => ⟨[], (List.append_nil _).symm, .slnil⟩

theorem of_atStage (stage : PipelineStage) (q : Program ε Queues α) :
    Observes [stage] (atStage stage q : Pipeline ε Record α) :=
  fun _ => ⟨[stage], rfl, .refl _⟩

end Observes

theorem observes_write (x : Course ε Redaction)
    (d : LogDispatch ε Fields Payload Redaction Record) :
    Observes [.hardening, .pii, .receipt, .localSink] (write x d) :=
  (Observes.of_atStage _ _).bind fun _ => (Observes.of_atStage _ _).bind fun _ =>
    (Observes.of_atStage _ _).bind fun _ => (Observes.of_within _).bind fun _ =>
      (Observes.of_atStage _ _).bind fun _ => Observes.of_pure _

theorem observes_sendToBackend (record : Record) :
    Observes [.backend, .health] (sendToBackend d record) := by
  intro w
  rw [sendToBackend, Program.exec_ensuring, Program.exec_onRaise]
  cases d.backend with
  | none => exact ⟨[.health], rfl, .cons _ (.refl _)⟩
  | some backend =>
      refine ⟨[.backend] ++ [.health], ?_, .refl _⟩
      rw [← List.append_assoc]
      cases h : (atStage .backend (backend record) : Pipeline ε Record Unit).exec w with
      | mk result w' =>
          have hstages : w'.stages = w.stages ++ [.backend] := by
            rw [show w' = ((atStage .backend (backend record)).exec w).2 by rw [h]]
            rfl
          cases result <;> exact congrArg (· ++ [PipelineStage.health]) hstages

theorem observes_deliver (x : Course ε Redaction)
    (d : LogDispatch ε Fields Payload Redaction Record) :
    Observes [.hardening, .pii, .receipt, .localSink, .backend, .health] (deliver x d) := by
  have hhand (record : Record) :
      Observes [] (modify (World.hand record) : Pipeline ε Record PUnit) := .of_modify fun _ => rfl
  have hsend (record : Record) : Observes ([.backend, .health] ++ [])
      (sendToBackend d record >>= fun _ => pure true) :=
    (observes_sendToBackend record).bind fun _ => .of_pure true
  exact (observes_write x d).bind fun record => (hhand record).bind fun _ => hsend record

/-- The gates pass their stages; a refusal is counted and released. -/
theorem stages_admitSignal (henabled : x.signalEnabled signal = true) (key level : String)
    (w : World Record) :
    ∃ admission w',
      (admitSignal x signal key level : Pipeline ε Record _).exec w = (.ok admission, w') ∧
      ∃ seen, seen.Sublist [.consent, .sampling, .backpressure] ∧
        w'.stages = w.stages ++ seen ++ if admission.admitted then [] else [.health, .release] := by
  rw [exec_admitSignal henabled]
  have hend (w' : World Record) (seen : List PipelineStage) (h : w'.stages = w.stages ++ seen) :
      (w'.rejected signal).stages = w.stages ++ seen ++ [.health, .release] := by
    have hrejected : (w'.rejected signal).stages = w'.stages ++ [.health] ++ [.release] := rfl
    rw [hrejected, h, List.append_assoc]
    rfl
  split_ifs with hallow hsample
  · exact ⟨_, _, rfl, [.consent], by decide, hend _ _ rfl⟩
  · exact ⟨_, _, rfl, [.consent, .sampling], by decide,
      hend _ _ (List.append_assoc _ _ _)⟩
  · have hpast : ((w.onStage .consent).onStage .sampling).onStage .backpressure =
        { w with stages := w.stages ++ [.consent, .sampling, .backpressure] } := by
      simp [World.onStage]
    cases hqueue : ((w.onStage .consent).onStage .sampling).queues.tryAcquire signal with
    | mk queues ticket =>
        cases ticket with
        | some ticket =>
            rw [exec_admitQueue_some hqueue, hpast]
            exact ⟨_, _, rfl, _, .refl _, (List.append_nil _).symm⟩
        | none =>
            rw [exec_admitQueue_none hqueue, hpast]
            split_ifs
            · exact ⟨_, _, rfl, _, .refl _, hend _ _ rfl⟩
            · exact ⟨_, _, rfl, _, .refl _, (List.append_nil _).symm⟩

end Telemetry.Logging.CSharp
