import Telemetry.Backpressure.Python
import Telemetry.Pii.Python

/-!
# The log pipeline of the Python SDK

`processors.py`, `handlers.py` and the chain that `_configure_logging_inner` builds, from the
admission of a record to the handler boundary. Admission takes a backpressure ticket and
puts it into the event dict; the renderer moves it to the record's `extra`; the handler on
the root logger counts the record and gives the ticket back.

An event dict is split into what it holds under the ticket's key and everything else. What
the stages do to everything else may raise, as may every call of code outside the pipeline;
this, and what the queue and the policies answer, is a `Call`. What happens in between to the
ticket's key is modelled as the code has it.

## Main definitions

* `applySampling` — admission.
* `process` — the processors after it.
* `emit` — the handler boundary.
* `logCall` — a log call from admission to its end.
-/

namespace Telemetry.Logging.Python

open Telemetry.Backpressure.Python
open Telemetry.Pii.Python (PIIRule MaskMode match_ maskAction policyAction)

variable {β ε : Type}

/-- `_BACKPRESSURE_TICKET_KEY`. -/
def backpressureTicketKey : String := "__provide_telemetry_backpressure_ticket__"

/-- What an event dict, or a record's `extra`, holds under the ticket's key: nothing, a ticket,
or something that is no ticket. -/
inductive Slot
  | empty
  | ticket (t : QueueTicket)
  | other
  deriving DecidableEq, Repr

/-- An event dict: what it holds under the ticket's key, and the rest. -/
structure EventDict (β : Type) where
  fields : β
  slot : Slot

/-- What a log call can raise. -/
inductive Raised (ε : Type)
  | dropEvent
  | attributeError
  | error (e : ε)
  deriving DecidableEq, Repr

/-- A child of the fan-out handler, and how it takes the record. -/
structure Child (ε : Type) where
  level : ℤ
  handle : Except ε Unit

/-- A log call: the record, and how the code around the pipeline answers in it. -/
structure Call (β ε : Type) where
  /-- The event dict without the ticket's key. -/
  fields : β
  /-- `should_allow("logs", method_name)`. -/
  shouldAllow : Bool
  /-- `str(event_dict.get("event", ""))`. -/
  eventName : Except ε String
  /-- The answer of the sampling policy for an event name. -/
  sampled : String → Bool
  /-- `harden_input` on the rest, and whether a key of it cleans to the ticket's. -/
  hardenInput : β → Except ε (β × Bool)
  /-- `add_standard_fields` on the rest. -/
  addStandardFields : β → Except ε β
  /-- `add_error_fingerprint` on the rest. -/
  addErrorFingerprint : β → Except ε β
  /-- `enforce_event_schema` on the rest. -/
  enforceEventSchema : β → Except ε β
  /-- The `sanitize` switch. -/
  sanitize : Bool
  /-- The PII rules. -/
  rules : List PIIRule
  /-- `_classification_hook` on the ticket's key. -/
  classification : Option (Slot → Option String)
  /-- `_policy_hook`. -/
  policy : Option (String → String)
  /-- `sanitize_payload` on the rest. -/
  sanitizePayload : β → Except ε β
  /-- `CallsiteParameterAdder`, where the configuration has it. -/
  callsite : Option (β → Except ε β)
  /-- `rename_event_to_message`, where the format is JSON. -/
  renameEvent : Option (β → β)
  /-- The renderer. -/
  renderer : β → Except ε String
  /-- The stdlib logger hands the record to the fan-out handler: no level, filter or
  `propagate` flag stops it, and no handler before it raises. -/
  handedOn : Bool
  levelno : ℤ
  children : List (Child ε)

/-- The state a call works on: the queues with their counter of drops, the counter of emitted
logs, and the tickets taken and given back so far. -/
structure State where
  queues : Queues := {}
  emitted : ℕ := 0
  acquired : List QueueTicket := []
  released : List QueueTicket := []

/-- The logs counted as dropped. -/
def State.dropped (s : State) : ℕ := s.queues.dropped .logs

/-- `increment_dropped("logs")`. -/
def State.incrementDropped (s : State) : State :=
  { s with queues :=
      { s.queues with dropped := Function.update s.queues.dropped .logs (s.dropped + 1) } }

/-- `increment_emitted("logs")`. -/
def State.incrementEmitted (s : State) : State := { s with emitted := s.emitted + 1 }

/-- `release(ticket)`. -/
def State.release (s : State) (t : QueueTicket) : State :=
  { s with queues := s.queues.release (some t), released := s.released ++ [t] }

variable (C : Call β ε)

/-! ## Admission -/

/-- `apply_sampling`. What a refused record releases is `None`, which does nothing. -/
def applySampling (s : State) : State × Except (Raised ε) (EventDict β) :=
  if ¬ C.shouldAllow then (s.incrementDropped, .error .dropEvent)
  else
    match C.eventName with
    | .error e => (s, .error (.error e))
    | .ok eventName =>
        -- the sampler counts its own drop
        if ¬ C.sampled eventName then (s.incrementDropped, .error .dropEvent)
        else
          match s.queues.tryAcquire .logs with
          | (queues, none) => ({ s with queues }, .error .dropEvent)
          | (queues, some t) =>
              ({ s with queues, acquired := s.acquired ++ [t] },
                .ok { fields := C.fields, slot := .ticket t })

/-! ## The processors -/

/-- `harden_input`: the ticket is set aside and put back. -/
def hardenInput (event : EventDict β) : Except ε (EventDict β) := do
  let (fields, squatted) ← C.hardenInput event.fields
  let slot :=
    match event.slot with
    | .empty => if squatted then .other else .empty
    | ticket => ticket
  pure { fields, slot }

/-- A stage that leaves the ticket's key alone. -/
def onFields (stage : β → Except ε β) (event : EventDict β) : Except ε (EventDict β) := do
  let fields ← stage event.fields
  pure { event with fields }

/-- `_apply_rule` on the ticket's key. -/
def applyRule (slot : Slot) (rule : PIIRule) : Slot :=
  if slot = .empty then .empty
  else if match_ rule.path [backpressureTicketKey] then
    if rule.mode = .drop then .empty else .other
  else slot

/-- The classification loop on the ticket's key. What a mask of something that is no ticket
leaves is no ticket either. -/
def classify (slot : Slot) : Slot :=
  if slot = .empty then .empty
  else
    match C.classification.bind fun hook => hook slot with
    | none => slot
    | some label =>
        let action := policyAction C.policy label
        if action = "drop" then .empty
        else if (maskAction action).isSome then .other
        else slot

/-- `sanitize_sensitive_fields`. The ticket's key is no default sensitive one, and the ticket
is no string, so only rules and classes touch it. -/
def sanitizeSensitiveFields (event : EventDict β) : Except ε (EventDict β) := do
  let fields ← C.sanitizePayload event.fields
  let slot := if C.sanitize then classify C (C.rules.foldl applyRule event.slot) else event.slot
  pure { fields, slot }

/-- `render_with_backpressure_extra`: the line, and what `extra` holds under the ticket's key. -/
def renderWithBackpressureExtra (event : EventDict β) : Except ε (String × Slot) := do
  let rendered ← C.renderer event.fields
  pure (rendered, event.slot)

/-- The processors after admission, in the order of the chain. -/
def process (event : EventDict β) : Except ε (String × Slot) := do
  let event ← hardenInput C event
  let event ← onFields C.addStandardFields event
  let event ← onFields C.addErrorFingerprint event
  let event ← onFields C.enforceEventSchema event
  let event ← sanitizeSensitiveFields C event
  let event ← onFields (C.callsite.getD pure) event
  let event := { event with fields := C.renameEvent.getD id event.fields }
  renderWithBackpressureExtra C event

/-! ## The handler boundary -/

/-- The loop of `emit` over the children. -/
def fanOut : List (Child ε) → Except ε Unit
  | [] => .ok ()
  | child :: children =>
      if child.level ≤ C.levelno then
        match child.handle with
        | .error e => .error e
        | .ok () => fanOut children
      else fanOut children

/-- The `finally` of `emit`: something that is no ticket has no token. -/
def releaseSlot (s : State) (slot : Slot) (result : Except (Raised ε) Unit) :
    State × Except (Raised ε) Unit :=
  match slot with
  | .empty => (s, result)
  | .ticket t => (s.release t, result)
  | .other => (s, .error .attributeError)

/-- `_BackpressureFanoutHandler.emit` on a record of the pipeline. -/
def emit (s : State) (slot : Slot) : State × Except (Raised ε) Unit :=
  match fanOut C C.children with
  | .error e => releaseSlot s slot (.error (.error e))
  | .ok () => releaseSlot (if slot = .empty then s else s.incrementEmitted) slot (.ok ())

/-! ## A log call -/

/-- A log call, from admission to its end. A `DropEvent` ends it quietly. -/
def logCall (s : State) : State × Except (Raised ε) Unit :=
  match applySampling C s with
  | (s, .error .dropEvent) => (s, .ok ())
  | (s, .error e) => (s, .error e)
  | (s, .ok event) =>
      match process C event with
      | .error e => (s, .error (.error e))
      | .ok (_, slot) => if C.handedOn then emit C s slot else (s, .ok ())

end Telemetry.Logging.Python
