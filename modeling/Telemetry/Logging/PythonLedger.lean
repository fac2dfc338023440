import Telemetry.Logging.Python

/-!
# The ledger of the Python log pipeline

A ticket goes from admission to the handler boundary as an entry of the event dict, through
stages that may raise or rewrite it and through a logger that may swallow the record, and no
`finally` spans the way. So a call keeps the books exactly if the record is refused at
admission or gets through all of it.

## Main definitions

* `Settled` — one record counted, and what was taken given back.
* `GetsThrough` — nothing stops the record or its ticket after admission.

## Main results

* `settled_logCall_iff` — **which calls keep the books**.
* `settled_run` — what a run of such calls adds up to.
-/

namespace Telemetry.Logging.Python

open Telemetry.Backpressure.Python
open Telemetry.Pii.Python (PIIRule match_ maskAction policyAction)

variable {β ε : Type}

/-- A number of records counted once each as emitted or dropped, and every ticket that was taken
given back once. -/
structure Settled (records : ℕ) (s s' : State) : Prop where
  counted : s'.emitted + s'.dropped = s.emitted + s.dropped + records
  released : ∃ ts, s'.acquired = s.acquired ++ ts ∧ s'.released = s.released ++ ts

section

variable (C : Call β ε) (s : State)

/-- The record is refused at admission. -/
def Refused : Prop :=
  C.shouldAllow = false ∨ ∃ name, C.eventName = .ok name ∧
    (C.sampled name = false ∨ (s.queues.tryAcquire .logs).2 = none)

/-- The stages after admission on the record without its ticket. -/
def contents : Except ε String := do
  let (fields, _) ← C.hardenInput C.fields
  let fields ← C.addStandardFields fields
  let fields ← C.addErrorFingerprint fields
  let fields ← C.enforceEventSchema fields
  let fields ← C.sanitizePayload fields
  let fields ← C.callsite.getD pure fields
  C.renderer (C.renameEvent.getD id fields)

/-- No rule matches the ticket's key, and no class of it masks or drops the ticket that is handed
out. -/
def TicketKept : Prop :=
  C.sanitize = true → (∀ rule ∈ C.rules, match_ rule.path [backpressureTicketKey] = false) ∧
    ∀ t, (s.queues.tryAcquire .logs).2 = some t → classify C (.ticket t) = .ticket t

/-- Nothing stops the record or its ticket: the event's name can be read, no stage raises, the
ticket is let through, the logger hands the record on, and no child raises. -/
def GetsThrough : Prop :=
  (∃ name, C.eventName = .ok name) ∧ (∃ line, contents C = .ok line) ∧ TicketKept C s ∧
    C.handedOn = true ∧ fanOut C C.children = .ok ()

end

variable {C : Call β ε} {s : State} {t : QueueTicket}

/-! ## The way of the ticket -/

/-- What the ticket's key holds after the PII stage. -/
def sanitizedSlot (C : Call β ε) (t : QueueTicket) : Slot :=
  if C.sanitize then classify C (C.rules.foldl applyRule (.ticket t)) else .ticket t

/-- After admission the ticket and the rest go their ways: the stages raise or return as they do
on the rest, and only the PII stage touches the ticket. -/
theorem process_ticket (C : Call β ε) (t : QueueTicket) :
    process C { fields := C.fields, slot := .ticket t } =
      (contents C).map fun line => (line, sanitizedSlot C t) := by
  simp only [process, contents, hardenInput, onFields, sanitizeSensitiveFields,
    renderWithBackpressureExtra]
  cases C.hardenInput C.fields with
  | error e => rfl
  | ok hardened =>
      simp only [bind, Except.bind, pure, Except.pure]
      cases C.addStandardFields hardened.1 with
      | error e => rfl
      | ok fields =>
          simp only
          cases C.addErrorFingerprint fields with
          | error e => rfl
          | ok fields =>
              simp only
              cases C.enforceEventSchema fields with
              | error e => rfl
              | ok fields =>
                  simp only
                  cases C.sanitizePayload fields with
                  | error e => rfl
                  | ok fields =>
                      simp only
                      cases C.callsite.getD pure fields with
                      | error e => rfl
                      | ok fields =>
                          simp only
                          cases C.renderer (C.renameEvent.getD id fields) <;> rfl

/-- A rule leaves the ticket where it was exactly if it does not match the key. -/
theorem applyRule_eq_ticket_iff {slot : Slot} {rule : PIIRule} :
    applyRule slot rule = .ticket t ↔
      slot = .ticket t ∧ match_ rule.path [backpressureTicketKey] = false := by
  rw [applyRule]
  by_cases hempty : slot = .empty
  · simp [hempty]
  · rw [if_neg hempty]
    cases match_ rule.path [backpressureTicketKey] with
    | false => simp
    | true => by_cases hdrop : rule.mode = .drop <;> simp [hdrop]

/-- So do the rules one after another. -/
theorem foldl_applyRule_eq_ticket_iff (rules : List PIIRule) (slot : Slot) :
    rules.foldl applyRule slot = .ticket t ↔
      slot = .ticket t ∧
        ∀ rule ∈ rules, match_ rule.path [backpressureTicketKey] = false := by
  induction rules generalizing slot with
  | nil => simp
  | cons rule rules ih =>
      rw [List.foldl_cons, ih, applyRule_eq_ticket_iff]
      simp [and_assoc]

/-- A class makes no ticket out of anything else. -/
theorem eq_ticket_of_classify {slot : Slot} (h : classify C slot = .ticket t) :
    slot = .ticket t := by
  rw [classify] at h
  split at h
  · cases h
  · split at h
    · exact h
    · simp only at h
      split at h
      · cases h
      · split at h
        · cases h
        · exact h

/-- What is left under the key is the ticket that was put there, if it is a ticket at all. -/
theorem eq_of_sanitizedSlot {t' : QueueTicket} (h : sanitizedSlot C t = .ticket t') : t' = t := by
  rw [sanitizedSlot] at h
  split at h
  · have hslot := eq_ticket_of_classify h
    rw [foldl_applyRule_eq_ticket_iff] at hslot
    cases hslot.1
    rfl
  · cases h
    rfl

/-- The ticket that is handed out is let through exactly if `TicketKept`. -/
theorem sanitizedSlot_eq_ticket_iff (ht : (s.queues.tryAcquire .logs).2 = some t) :
    sanitizedSlot C t = .ticket t ↔ TicketKept C s := by
  rw [sanitizedSlot, TicketKept]
  cases C.sanitize with
  | false => simp
  | true =>
      simp only [if_true, ht, Option.some.injEq, forall_eq', true_implies]
      constructor
      · intro h
        have hslot := eq_ticket_of_classify h
        rw [hslot] at h
        exact ⟨((foldl_applyRule_eq_ticket_iff _ _).mp hslot).2, h⟩
      · rintro ⟨hrules, hclass⟩
        rw [(foldl_applyRule_eq_ticket_iff _ _).mpr ⟨rfl, hrules⟩]
        exact hclass

/-! ## Admission -/

/-- A record was admitted: it took a ticket, and nothing is counted yet. -/
structure Admitted (s : State) (t : QueueTicket) (s₁ : State) : Prop where
  emitted : s₁.emitted = s.emitted
  dropped : s₁.dropped = s.dropped
  acquired : s₁.acquired = s.acquired ++ [t]
  released : s₁.released = s.released

@[simp]
theorem State.dropped_incrementDropped (s : State) :
    s.incrementDropped.dropped = s.dropped + 1 := by
  simp [incrementDropped, dropped]

/-- The refusal that consent and the sampler share. -/
theorem settled_incrementDropped (s : State) : Settled 1 s s.incrementDropped where
  counted := by
    rw [State.dropped_incrementDropped]
    simp [State.incrementDropped, Nat.add_assoc]
  released := ⟨[], by simp [State.incrementDropped]⟩

/-- A full queue refuses and counts. -/
theorem settled_of_full {queues : Queues} (h : s.queues.tryAcquire .logs = (queues, none)) :
    Settled 1 s { s with queues } := by
  rcases Queues.tryAcquire_cases h with ⟨ht, -⟩ | ⟨-, -, -, hdropped⟩ | ⟨ht, -⟩
  · cases ht
  · constructor
    · simp [State.dropped, hdropped, Nat.add_assoc]
    · exact ⟨[], by simp⟩
  · cases ht

/-- A queue with room, or none, hands out a ticket and counts nothing. -/
theorem admitted_of_ticket {queues : Queues}
    (h : s.queues.tryAcquire .logs = (queues, some t)) :
    Admitted s t { s with queues, acquired := s.acquired ++ [t] } := by
  have hdropped : queues.dropped = s.queues.dropped := by
    rcases Queues.tryAcquire_cases h with ⟨-, rfl⟩ | ⟨ht, -⟩ | ⟨-, -, hdropped, -⟩
    · rfl
    · cases ht
    · exact hdropped
  exact { emitted := rfl, dropped := congrFun hdropped .logs, acquired := rfl, released := rfl }

/-- What admission does: it refuses and counts, or the event's name raises, or it takes a
ticket. -/
theorem applySampling_cases (C : Call β ε) (s : State) :
    (Refused C s ∧ ∃ s₁, applySampling C s = (s₁, .error .dropEvent) ∧ Settled 1 s s₁) ∨
    (¬ Refused C s ∧ ∃ e, C.eventName = .error e ∧
      applySampling C s = (s, .error (.error e))) ∨
    (¬ Refused C s ∧ ∃ name t s₁, C.eventName = .ok name ∧
      (s.queues.tryAcquire .logs).2 = some t ∧ Admitted s t s₁ ∧
      applySampling C s = (s₁, .ok { fields := C.fields, slot := .ticket t })) := by
  rw [applySampling, Refused]
  cases hallow : C.shouldAllow with
  | false =>
      left
      exact ⟨Or.inl rfl, _, by simp, settled_incrementDropped s⟩
  | true =>
      cases hname : C.eventName with
      | error e =>
          right
          left
          simp
      | ok name =>
          cases hsampled : C.sampled name with
          | false =>
              left
              refine ⟨Or.inr ⟨name, rfl, Or.inl hsampled⟩, _, ?_, settled_incrementDropped s⟩
              simp [hsampled]
          | true =>
              rcases hacquire : s.queues.tryAcquire .logs with ⟨queues, ticket⟩
              cases ticket with
              | none =>
                  left
                  refine ⟨Or.inr ⟨name, rfl, Or.inr rfl⟩, { s with queues }, by simp [hsampled], ?_⟩
                  exact settled_of_full hacquire
              | some t =>
                  right
                  right
                  refine ⟨by simp [hsampled], name, t, _, rfl, rfl, admitted_of_ticket hacquire, ?_⟩
                  simp [hsampled]

/-! ## From admission to the end -/

/-- What an admitted record still owes: one count, and its ticket back. -/
theorem Admitted.settled_iff {s₁ s₂ : State} (h : Admitted s t s₁)
    (hacquired : s₂.acquired = s₁.acquired) :
    Settled 1 s s₂ ↔
      s₂.emitted + s₂.dropped = s₁.emitted + s₁.dropped + 1 ∧
        s₂.released = s₁.released ++ [t] := by
  constructor
  · rintro ⟨hcounted, ts, hts, hreleased⟩
    have htickets : ts = [t] := by
      rw [hacquired, h.acquired] at hts
      exact (List.append_cancel_left hts).symm
    rw [h.emitted, h.dropped, h.released]
    exact ⟨hcounted, htickets ▸ hreleased⟩
  · rintro ⟨hcounted, hreleased⟩
    rw [h.emitted, h.dropped] at hcounted
    rw [h.released] at hreleased
    exact ⟨hcounted, [t], by rw [hacquired, h.acquired], hreleased⟩

/-- An admitted record that nothing more happens to is not counted. -/
theorem Admitted.not_settled {s₁ s₂ : State} (h : Admitted s t s₁)
    (hemitted : s₂.emitted = s₁.emitted) (hdropped : s₂.dropped = s₁.dropped) :
    ¬ Settled 1 s s₂ := by
  intro hs
  have hcounted := hs.counted
  rw [hemitted, hdropped, h.emitted, h.dropped] at hcounted
  omega

theorem State.dropped_release (s : State) (t : QueueTicket) :
    (s.release t).dropped = s.dropped := by
  rw [State.dropped, State.dropped, State.release, Queues.release]
  by_cases hzero : t.token = 0 <;> simp [hzero]

/-- Whatever is under the key, the `finally` counts nothing. -/
theorem releaseSlot_counts (s : State) (slot : Slot) (result : Except (Raised ε) Unit) :
    (releaseSlot s slot result).1.emitted = s.emitted ∧
      (releaseSlot s slot result).1.dropped = s.dropped := by
  cases slot with
  | ticket t => exact ⟨rfl, State.dropped_release s t⟩
  | empty => exact ⟨rfl, rfl⟩
  | other => exact ⟨rfl, rfl⟩

/-- The handler boundary settles an admitted record exactly if no child raises and its ticket is
still there. -/
theorem Admitted.settled_emit_iff {s₁ : State} {slot : Slot} (h : Admitted s t s₁)
    (hslot : ∀ t', slot = .ticket t' → t' = t) :
    Settled 1 s (emit C s₁ slot).1 ↔ slot = .ticket t ∧ fanOut C C.children = .ok () := by
  rw [emit]
  cases hfan : fanOut C C.children with
  | error e =>
      have hcounts := releaseSlot_counts s₁ slot (Except.error (Raised.error e))
      simp [h.not_settled hcounts.1 hcounts.2]
  | ok _ =>
      cases slot with
      | empty =>
          have hsame := h.not_settled rfl rfl
          simpa [releaseSlot] using hsame
      | other =>
          -- counted, but an `AttributeError` instead of a release
          simp [releaseSlot, State.incrementEmitted, h.settled_iff]
      | ticket t' =>
          cases hslot t' rfl
          simp only [reduceCtorEq, if_false, releaseSlot, true_and, iff_true]
          have hacquired : (s₁.incrementEmitted.release t).acquired = s₁.acquired := rfl
          have hemitted : (s₁.incrementEmitted.release t).emitted = s₁.emitted + 1 := rfl
          have hdropped : (s₁.incrementEmitted.release t).dropped = s₁.dropped :=
            State.dropped_release s₁.incrementEmitted t
          rw [h.settled_iff hacquired, hemitted, hdropped]
          exact ⟨Nat.add_right_comm .., rfl⟩

/-- **Which calls keep the books.** From any state, a call has counted its record once and given
back what it took exactly if it was refused at admission or nothing stopped the record or its
ticket afterwards. -/
theorem settled_logCall_iff (C : Call β ε) (s : State) :
    Settled 1 s (logCall C s).1 ↔ Refused C s ∨ GetsThrough C s := by
  rw [logCall, GetsThrough]
  rcases applySampling_cases C s with
    ⟨hrefused, s₁, hsampling, hs₁⟩ | ⟨hrefused, e, hname, hsampling⟩ |
    ⟨hrefused, name, t, s₁, hname, hticket, hadmitted, hsampling⟩
  · simp [hsampling, hs₁, hrefused]
  · have hnot : ¬ Settled 1 s s := by
      intro h
      have hcounted := h.counted
      omega
    simp [hsampling, hnot, hrefused, hname]
  · have hunsettled : ¬ Settled 1 s s₁ := hadmitted.not_settled rfl rfl
    rw [← sanitizedSlot_eq_ticket_iff hticket, hsampling]
    simp only [process_ticket, hrefused, false_or]
    cases contents C with
    | error e => simp [Except.map, hunsettled]
    | ok line =>
        cases C.handedOn with
        | false => simp [Except.map, hunsettled]
        | true =>
            have hemit : Settled 1 s (emit C s₁ (sanitizedSlot C t)).1 ↔
                sanitizedSlot C t = .ticket t ∧ fanOut C C.children = .ok () :=
              hadmitted.settled_emit_iff fun t' ht' => eq_of_sanitizedSlot ht'
            simpa [Except.map, hname] using hemit

/-! ## Runs of calls -/

/-- Log calls one after another. -/
def logCalls : List (Call β ε) → State → State
  | [], s => s
  | C :: Cs, s => logCalls Cs (logCall C s).1

/-- Each call of a run, where it starts, is refused or gets through. -/
def EachKeeps : List (Call β ε) → State → Prop
  | [], _ => True
  | C :: Cs, s => (Refused C s ∨ GetsThrough C s) ∧ EachKeeps Cs (logCall C s).1

theorem Settled.trans {m n : ℕ} {s₁ s₂ : State} (h : Settled m s s₁) (h' : Settled n s₁ s₂) :
    Settled (m + n) s s₂ := by
  constructor
  · rw [h'.counted, h.counted, Nat.add_assoc]
  · rcases h.released with ⟨ts, hacquired, hreleased⟩
    rcases h'.released with ⟨ts', hacquired', hreleased'⟩
    refine ⟨ts ++ ts', ?_, ?_⟩
    · rw [hacquired', hacquired, List.append_assoc]
    · rw [hreleased', hreleased, List.append_assoc]

/-- A run of such calls counts as many records as it has calls, and gives back every ticket. -/
theorem settled_run (Cs : List (Call β ε)) (h : EachKeeps Cs s) :
    Settled Cs.length s (logCalls Cs s) := by
  induction Cs generalizing s with
  | nil => exact { counted := rfl, released := ⟨[], by simp [logCalls]⟩ }
  | cons C Cs ih =>
      have hcall := (settled_logCall_iff C s).mpr h.1
      rw [List.length_cons, Nat.add_comm]
      exact hcall.trans (ih h.2)

/-! ## A call that loses its ticket -/

/-- A record that everything lets pass, under a rule that redacts whatever it finds. -/
def redactedCall : Call Unit Unit where
  fields := ()
  shouldAllow := true
  eventName := .ok "request.done"
  sampled _ := true
  hardenInput _ := .ok ((), false)
  addStandardFields := .ok
  addErrorFingerprint := .ok
  enforceEventSchema := .ok
  sanitize := true
  rules := [{ path := ["*"], mode := .redact }]
  classification := none
  policy := none
  sanitizePayload := .ok
  callsite := none
  renameEvent := none
  renderer _ := .ok "request.done"
  handedOn := true
  levelno := 20
  children := [{ level := 0, handle := .ok () }]

/-- The rule `*` matches the ticket's key too. The record is counted as emitted, but what reaches
the handler is the redacted text, and the only slot of the queue stays taken. -/
theorem not_settled_redactedCall :
    ¬ Settled 1 { queues := { policy := { logsMaxsize := 1 } } }
      (logCall redactedCall { queues := { policy := { logsMaxsize := 1 } } }).1 := by
  intro h
  rcases h.released with ⟨ts, hacquired, hreleased⟩
  have htaken : (logCall redactedCall
      { queues := { policy := { logsMaxsize := 1 } } }).1.acquired = [⟨.logs, 1⟩] := by
    decide
  have hkept : (logCall redactedCall
      { queues := { policy := { logsMaxsize := 1 } } }).1.released = [] := by
    decide
  rw [htaken] at hacquired
  rw [hkept] at hreleased
  cases hacquired
  cases hreleased

end Telemetry.Logging.Python
