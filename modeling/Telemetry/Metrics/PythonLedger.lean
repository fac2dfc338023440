import Telemetry.Backpressure.Python
import Telemetry.Lib.Number
import Telemetry.Lib.Program
import Telemetry.Metrics.PythonGauge

/-!
# The ledger of the Python metrics

`metrics/fallback.py`: `Counter.add`, `Gauge.add`, `Gauge.set` and `Histogram.record` ask for
consent, for a sample and for a queue slot, and release the slot in a `finally`. A counter and a
histogram update their value and count it before anything else can raise. A gauge looks for its
meter and guards the attributes first, reports under its lock, and counts last.

What sampling and the queue refuse is counted by them; what consent refuses is not counted by
anyone. So a call is counted once if consent is given, for a gauge only if also nothing raises.

## Main definitions

* `World`, `Course` — what a call works on, and how the code outside of it goes.
* `counterAdd`, `gaugeAdd`, `gaugeSet`, `histogramRecord` — the entry points.
* `Balanced` — a call is counted once, and releases what it has taken.
* `GaugeCompletes` — nothing raises on the way of a gauge.

## Main results

* `balanced_iff` — **which calls keep the books**.
-/

namespace Telemetry.Metrics.Python

open Telemetry.Lib Telemetry.Backpressure.Python

/-- `ConsentLevel`. -/
inductive ConsentLevel
  | full
  | functional
  | minimal
  | none
  deriving DecidableEq, Repr

/-- `should_allow("metrics")`. -/
def shouldAllow : ConsentLevel → Bool
  | .full | .functional => true
  | .minimal | .none => false

/-- `SamplingPolicy`. -/
structure SamplingPolicy where
  defaultRate : Number := .one
  overrides : SortedMap String Number := .empty

/-- What the code outside raises. -/
inductive Exn
  | typeError
  | other (name : String)
  deriving DecidableEq, Repr

/-- What an instrument knows of its OTel counterpart. -/
structure Handle where
  resolved : Bool := false
  present : Bool := false
  deriving DecidableEq, Repr

/-- There is an OTel instrument. -/
def Handle.usable (handle : Handle) : Bool := handle.resolved && handle.present

/-- How the lookup of the meter goes. -/
inductive MeterLookup
  | raises (e : Exn)
  | noMeter
  /-- Another thread has resolved the instrument by then. -/
  | resolvedElsewhere (present : Bool)
  /-- The meter makes the instrument, or raises, which is caught. -/
  | meter (creates : Bool)
  deriving DecidableEq, Repr

/-- How the code outside goes during one call. -/
structure Course where
  /-- `random.random()` -/
  draw : ℚ
  meter : MeterLookup
  guardAttributes : Attributes → Except Exn Attributes
  /-- There are a trace id and a span id. -/
  exemplar : Bool
  /-- The OTel instrument, called with an exemplar or without. -/
  instrument : Bool → Except Exn Unit

/-- What was handed to an OTel instrument. -/
structure Measurement (V : Type) where
  value : V
  attributes : Attributes
  exemplar : Bool

/-- `Histogram`, what it keeps under its lock. -/
structure Histogram (V : Type) where
  count : ℕ
  total : V
  min : V
  max : V

/-- An instrument with what it keeps, the gates before it, the health counters, and what was done
to them. -/
structure World (σ V : Type) where
  name : String
  kept : σ
  handle : Handle := {}
  consent : ConsentLevel := .full
  policy : SamplingPolicy := {}
  queues : Queues := {}
  emitted : Signal → ℕ := fun _ => 0
  exported : List (Measurement V) := []
  /-- How often the kept value was updated. -/
  updates : ℕ := 0
  /-- The tickets that were taken, and those that were released. -/
  acquired : List QueueTicket := []
  released : List QueueTicket := []

/-- A step of an instrument. -/
abbrev Py (σ V α : Type) := Program Exn (World σ V) α

section Gates

variable {σ V : Type}

/-- `_should_sample_unchecked`, without its count. -/
def sampled (policy : SamplingPolicy) (name : String) (draw : ℚ) : Bool :=
  let rate := (policy.overrides.lookup name).getD policy.defaultRate
  if Number.one.lt rate || Number.one.same rate then true
  else if rate.lt .zero || rate.same .zero then false
  else (Number.ofRat draw).lt rate

/-- `increment_dropped("metrics")`. -/
def World.incrementDropped (w : World σ V) : World σ V :=
  { w with queues :=
      { w.queues with dropped :=
          Function.update w.queues.dropped .metrics (w.queues.dropped .metrics + 1) } }

/-- `increment_emitted("metrics")`. -/
def World.incrementEmitted (w : World σ V) : World σ V :=
  { w with emitted := Function.update w.emitted .metrics (w.emitted .metrics + 1) }

/-- The kept value is updated. -/
def World.update (change : σ → σ) (w : World σ V) : World σ V :=
  { w with kept := change w.kept, updates := w.updates + 1 }

/-- A ticket was taken. -/
def World.acquire (queues : Queues) (ticket : QueueTicket) (w : World σ V) : World σ V :=
  { w with queues := queues, acquired := w.acquired ++ [ticket] }

/-- `release`. -/
def World.release (ticket : QueueTicket) (w : World σ V) : World σ V :=
  { w with queues := w.queues.release (some ticket), released := w.released ++ [ticket] }

/-- The three gates, with the body behind them and the release behind the body. -/
def admitted (x : Course) (body : Py σ V Unit) : Py σ V Unit := do
  let w ← get
  if !shouldAllow w.consent then pure ()
  else if !sampled w.policy w.name x.draw then modify World.incrementDropped
  else
    match w.queues.tryAcquire .metrics with
    | (queues, none) => set { w with queues := queues }
    | (queues, some ticket) => do
        set (w.acquire queues ticket)
        body.ensuring (modify (World.release ticket))

/-- `_resolve_otel`, as what it makes of the handle. -/
def Course.resolve (x : Course) (handle : Handle) : Except Exn Handle :=
  if handle.resolved then .ok handle
  else
    match x.meter with
    | .raises e => .error e
    | .noMeter => .ok handle
    | .resolvedElsewhere present => .ok ⟨true, present⟩
    | .meter creates => .ok ⟨true, creates⟩

/-- `_resolve_otel`: whether there is an OTel instrument. -/
def resolveOtel (x : Course) : Py σ V Bool := do
  let handle ← MonadExcept.ofExcept (x.resolve (← get).handle)
  modify fun w => { w with handle := handle }
  pure handle.usable

/-- The OTel instrument is called. -/
def callInstrument (x : Course) (value : V) (attributes : Attributes) (exemplar : Bool) :
    Py σ V Unit := do
  MonadExcept.ofExcept (x.instrument exemplar)
  modify fun w => { w with exported := w.exported ++ [⟨value, attributes, exemplar⟩] }

/-- The export of a counter or a histogram: an exemplar is left away where it is not supported. -/
def exportWithExemplar (x : Course) (value : V) (attributes : Attributes) : Py σ V Unit := do
  if ← resolveOtel x then
    let attrs ← MonadExcept.ofExcept (x.guardAttributes attributes)
    if x.exemplar && x.instrument true ≠ .error .typeError then
      callInstrument x value attrs true
    else callInstrument x value attrs false

/-- The body of a counter or a histogram: the value is updated and counted, then exported. -/
def countedBody (x : Course) (change : σ → σ) (value : V) (attributes : Attributes) :
    Py σ V Unit := do
  modify (World.update change)
  modify World.incrementEmitted
  exportWithExemplar x value attributes

end Gates

/-! ## The entry points -/

section Entries

variable {V : Type}

/-- `Counter.add`. -/
def counterAdd [Add V] (x : Course) (amount : V) (attributes : Attributes) : Py V V Unit :=
  admitted x (countedBody x (fun value => value + amount) amount attributes)

/-- What `Histogram.record` does under its lock. -/
def Histogram.record [Add V] [LT V] [DecidableLT V] (value : V) (h : Histogram V) :
    Histogram V where
  count := h.count + 1
  total := h.total + value
  min := if value < h.min then value else h.min
  max := if h.max < value then value else h.max

/-- `Histogram.record`. -/
def histogramRecord [Add V] [LT V] [DecidableLT V] (x : Course) (value : V)
    (attributes : Attributes) : Py (Histogram V) V Unit :=
  admitted x (countedBody x (Histogram.record value) value attributes)

/-- The body of `Gauge.add` and `Gauge.set`: the report is under the lock, behind the update. -/
def gaugeBody [AddCommGroup V] (x : Course)
    (locked : List (String × String) → Gauge V → Gauge V × V) (attributes : Attributes) :
    Py (Gauge V) V Unit := do
  let otel ← resolveOtel x
  let attrs ← MonadExcept.ofExcept (x.guardAttributes attributes)
  let reported := (locked (attrsKey attrs) (← get).kept).2
  modify (World.update fun g => (locked (attrsKey attrs) g).1)
  if otel then callInstrument x reported attrs false
  modify World.incrementEmitted

/-- `Gauge.add`. -/
def gaugeAdd [AddCommGroup V] (x : Course) (amount : V) (attributes : Attributes) :
    Py (Gauge V) V Unit :=
  admitted x (gaugeBody x (fun key g => g.add key amount) attributes)

/-- `Gauge.set`. -/
def gaugeSet [AddCommGroup V] (x : Course) (value : V) (attributes : Attributes) :
    Py (Gauge V) V Unit :=
  admitted x (gaugeBody x (fun key g => g.set key value) attributes)

end Entries

/-! ## The books -/

/-- What is counted of the metrics, and which tickets were taken and released. -/
structure Books where
  updates : ℕ
  emitted : ℕ
  dropped : ℕ
  acquired : List QueueTicket
  released : List QueueTicket
  deriving DecidableEq

/-- So many updates more, and so many counts of them. -/
def Books.post (b : Books) (updates emitted : ℕ) : Books :=
  { b with updates := b.updates + updates, emitted := b.emitted + emitted }

section Books

variable {σ V : Type}

def World.books (w : World σ V) : Books where
  updates := w.updates
  emitted := w.emitted .metrics
  dropped := w.queues.dropped .metrics
  acquired := w.acquired
  released := w.released

/-- **A call keeps the books**: it is counted once, as emitted if the kept value was updated and as
dropped otherwise, and what it has taken it has released once. -/
structure Balanced (w w' : World σ V) : Prop where
  counted : (w'.updates = w.updates + 1 ∧ w'.emitted .metrics = w.emitted .metrics + 1 ∧
      w'.queues.dropped .metrics = w.queues.dropped .metrics) ∨
    (w'.updates = w.updates ∧ w'.emitted .metrics = w.emitted .metrics ∧
      w'.queues.dropped .metrics = w.queues.dropped .metrics + 1)
  released : ∃ tickets, w'.acquired = w.acquired ++ tickets ∧ w'.released = w.released ++ tickets

variable {x : Course} {w w' : World σ V} {body : Py σ V Unit} {queues : Queues}
  {ticket : QueueTicket}

/-- The call gets past consent and sampling, and this ticket out of the queue. -/
def Admitted (x : Course) (w : World σ V) (queues : Queues) (ticket : QueueTicket) : Prop :=
  sampled w.policy w.name x.draw = true ∧
    w.queues.tryAcquire .metrics = (queues, some ticket)

/-- Handing out a ticket drops nothing. -/
theorem dropped_of_tryAcquire (h : w.queues.tryAcquire .metrics = (queues, some ticket)) :
    queues.dropped = w.queues.dropped := by
  obtain ⟨-, rfl⟩ | ⟨hnone, -⟩ | ⟨-, -, hdropped, -⟩ := Queues.tryAcquire_cases h
  · rfl
  · cases hnone
  · exact hdropped

/-- A refusal by the queue is counted. -/
theorem dropped_of_refused (h : w.queues.tryAcquire .metrics = (queues, none)) :
    queues.dropped .metrics = w.queues.dropped .metrics + 1 := by
  obtain ⟨hsome, -⟩ | ⟨-, -, -, hdropped⟩ | ⟨hsome, -⟩ := Queues.tryAcquire_cases h
  · cases hsome
  · simp [hdropped]
  · cases hsome

theorem dropped_release (ticket : QueueTicket) (q : Queues) :
    (q.release (some ticket)).dropped = q.dropped := by
  simp only [Queues.release]
  split <;> rfl

/-- **Behind the gates**: whatever the body does, its ticket is released once. -/
theorem exec_admitted (hallow : shouldAllow w.consent = true)
    (h : Admitted x w queues ticket) :
    ((admitted x body).exec w).2 =
      (body.exec (w.acquire queues ticket)).2.release ticket := by
  obtain ⟨hsampled, hticket⟩ := h
  rw [admitted, Program.exec_bind, Program.exec_get]
  simp only [hallow, hsampled, hticket, Bool.not_true, Bool.false_eq_true, if_false]
  rw [Program.exec_bind, Program.exec_set]
  simp only [Program.exec_ensuring]

/-- A call that nothing is counted for does not keep the books. -/
theorem not_balanced_self (w : World σ V) : ¬ Balanced w w := by
  intro h
  obtain ⟨-, hemitted, -⟩ | ⟨-, -, hdropped⟩ := h.counted
  · omega
  · omega

theorem balanced_incrementDropped (w : World σ V) : Balanced w w.incrementDropped where
  counted := by simp [World.incrementDropped]
  released := ⟨[], by simp [World.incrementDropped]⟩

theorem balanced_of_refused (h : w.queues.tryAcquire .metrics = (queues, none)) :
    Balanced w { w with queues := queues } where
  counted := .inr ⟨rfl, rfl, dropped_of_refused h⟩
  released := ⟨[], by simp⟩

/-- A call behind the gates keeps the books exactly if it updates its value once and counts it
once. -/
theorem balanced_release_iff {updates emitted : ℕ}
    (h : w.queues.tryAcquire .metrics = (queues, some ticket))
    (hbooks : w'.books = (w.acquire queues ticket).books.post updates emitted) :
    Balanced w (w'.release ticket) ↔ updates = 1 ∧ emitted = 1 := by
  have hdropped := dropped_of_tryAcquire h
  simp only [World.books, Books.post, World.acquire, Books.mk.injEq, hdropped] at hbooks
  obtain ⟨hupdates, hemitted, hsame, hacquired, hreleased⟩ := hbooks
  have hdropped' : (w'.release ticket).queues.dropped .metrics = w.queues.dropped .metrics := by
    rw [World.release, dropped_release, hsame]
  constructor
  · intro hbalanced
    obtain ⟨hup, hem, -⟩ | ⟨-, -, hmore⟩ := hbalanced.counted
    · simp only [World.release] at hup hem
      omega
    · omega
  · intro ⟨hone, hcounted⟩
    subst hone hcounted
    exact ⟨.inl ⟨hupdates, hemitted, hdropped'⟩, [ticket], hacquired, by
      rw [World.release, hreleased]⟩

/-- **Which calls keep the books**: consent is given, and a body that runs updates its value once
and counts it once. -/
theorem balanced_admitted_iff
    (hbody : ∀ v : World σ V, ∃ updates emitted,
      (body.exec v).2.books = v.books.post updates emitted) :
    Balanced w ((admitted x body).exec w).2 ↔
      shouldAllow w.consent = true ∧
      ∀ queues ticket, Admitted x w queues ticket →
        (body.exec (w.acquire queues ticket)).2.books =
          (w.acquire queues ticket).books.post 1 1 := by
  cases hallow : shouldAllow w.consent with
  | false =>
      have hexec : ((admitted x body).exec w).2 = w := by
        rw [admitted, Program.exec_bind, Program.exec_get]
        simp [hallow]
      simp [hexec, not_balanced_self]
  | true =>
      simp only [true_and]
      cases hsampled : sampled w.policy w.name x.draw with
      | false =>
          have hexec : ((admitted x body).exec w).2 = w.incrementDropped := by
            rw [admitted, Program.exec_bind, Program.exec_get]
            simp [hallow, hsampled]
          rw [hexec]
          refine iff_of_true (balanced_incrementDropped w) ?_
          intro queues ticket hadmitted
          rw [hadmitted.1] at hsampled
          cases hsampled
      | true =>
          cases hqueue : w.queues.tryAcquire .metrics with
          | mk queues found =>
              cases found with
              | none =>
                  have hexec : ((admitted x body).exec w).2 = { w with queues := queues } := by
                    rw [admitted, Program.exec_bind, Program.exec_get]
                    simp [hallow, hsampled, hqueue]
                  rw [hexec]
                  refine iff_of_true (balanced_of_refused hqueue) ?_
                  intro queues' ticket hadmitted
                  rw [hadmitted.2] at hqueue
                  cases hqueue
              | some ticket =>
                  have hadmitted : Admitted x w queues ticket := ⟨hsampled, hqueue⟩
                  obtain ⟨updates, emitted, hbooks⟩ := hbody (w.acquire queues ticket)
                  rw [exec_admitted hallow hadmitted, balanced_release_iff hqueue hbooks]
                  constructor
                  · intro ⟨hone, hcounted⟩ queues' ticket' hadmitted'
                    have hsame := hadmitted.2.symm.trans hadmitted'.2
                    cases hsame
                    rw [hbooks, hone, hcounted]
                  · intro hall
                    have hpost := hbooks.symm.trans (hall queues ticket hadmitted)
                    simp only [Books.post, Books.mk.injEq] at hpost
                    omega

end Books

/-! ## The bodies -/

section Bodies

variable {σ V : Type} {x : Course} {w : World σ V}

theorem keeps_resolveOtel : Program.Keeps World.books (resolveOtel x : Py σ V Bool) := by
  refine .bind .of_get fun w => .bind (.of_except _) fun handle => ?_
  exact .bind (.of_modify fun _ => rfl) fun _ => .of_pure _

theorem keeps_callInstrument (value : V) (attributes : Attributes) (exemplar : Bool) :
    Program.Keeps World.books (callInstrument x value attributes exemplar : Py σ V Unit) :=
  .bind (.of_except _) fun _ => .of_modify fun _ => rfl

theorem keeps_exportWithExemplar (value : V) (attributes : Attributes) :
    Program.Keeps World.books (exportWithExemplar x value attributes : Py σ V Unit) := by
  refine .bind keeps_resolveOtel fun otel => ?_
  split
  · refine .bind (.of_except _) fun attrs => ?_
    split
    · exact keeps_callInstrument value attrs true
    · exact keeps_callInstrument value attrs false
  · exact .of_pure _

/-- A counter and a histogram update once and count once, whatever raises. -/
theorem books_countedBody (change : σ → σ) (value : V) (attributes : Attributes) :
    ((countedBody x change value attributes).exec w).2.books = w.books.post 1 1 := by
  rw [countedBody, Program.exec_bind, Program.exec_modify]
  simp only
  rw [Program.exec_bind, Program.exec_modify]
  exact (keeps_exportWithExemplar value attributes _).trans (by
    simp [World.books, World.incrementEmitted, World.update, Books.post])

/-- Nothing raises on the way of a gauge: not the lookup of the meter, not the guard of the
attributes, and not the OTel gauge where there is one. -/
def GaugeCompletes (x : Course) (handle : Handle) (attributes : Attributes) : Prop :=
  ∃ found attrs, x.resolve handle = .ok found ∧ x.guardAttributes attributes = .ok attrs ∧
    (found.usable = true → x.instrument false = .ok ())

theorem exec_resolveOtel (x : Course) (w : World σ V) :
    (resolveOtel x).exec w =
      match x.resolve w.handle with
      | .ok found => (.ok found.usable, { w with handle := found })
      | .error e => (.error e, w) := by
  rw [resolveOtel, Program.exec_bind, Program.exec_get]
  simp only
  rw [Program.exec_bind, Program.exec_ofExcept]
  cases x.resolve w.handle <;> rfl

/-- A gauge updates once and counts once exactly if nothing raises. -/
theorem books_gaugeBody [AddCommGroup V] (w : World (Gauge V) V)
    (change : List (String × String) → Gauge V → Gauge V × V) (attributes : Attributes) :
    ∃ updates emitted,
      ((gaugeBody x change attributes).exec w).2.books = w.books.post updates emitted ∧
      (updates = 1 ∧ emitted = 1 ↔ GaugeCompletes x w.handle attributes) := by
  rw [gaugeBody, Program.exec_bind, exec_resolveOtel]
  cases hfound : x.resolve w.handle with
  | error e => exact ⟨0, 0, rfl, by simp [GaugeCompletes, hfound]⟩
  | ok found =>
      simp only
      rw [Program.exec_bind, Program.exec_ofExcept]
      cases hattrs : x.guardAttributes attributes with
      | error e => exact ⟨0, 0, rfl, by simp [GaugeCompletes, hattrs]⟩
      | ok attrs =>
          simp only
          rw [Program.exec_bind, Program.exec_get]
          simp only
          rw [Program.exec_bind, Program.exec_modify]
          simp only
          cases hotel : found.usable with
          | false =>
              refine ⟨1, 1, ?_, by simp [GaugeCompletes, hfound, hattrs, hotel]⟩
              simp [World.books, World.incrementEmitted, World.update, Books.post]
          | true =>
              simp only [if_true, callInstrument]
              rw [Program.exec_bind, Program.exec_bind, Program.exec_ofExcept]
              cases hcalled : x.instrument false with
              | error e =>
                  exact ⟨1, 0, rfl, by simp [GaugeCompletes, hfound, hattrs, hotel, hcalled]⟩
              | ok _ =>
                  refine ⟨1, 1, ?_, by simp [GaugeCompletes, hfound, hattrs, hcalled]⟩
                  simp [World.books, World.incrementEmitted, World.update, Books.post]

end Bodies

/-! ## The entry points -/

section Entries

variable {σ V : Type} (x : Course)

/-- A counter or a histogram keeps the books exactly if consent is given. -/
theorem balanced_counted_iff (w : World σ V) (change : σ → σ) (value : V)
    (attributes : Attributes) :
    Balanced w ((admitted x (countedBody x change value attributes)).exec w).2 ↔
      shouldAllow w.consent = true := by
  rw [balanced_admitted_iff fun v => ⟨1, 1, books_countedBody change value attributes⟩]
  constructor
  · exact fun h => h.1
  · exact fun h => ⟨h, fun queues ticket _ => books_countedBody change value attributes⟩

/-- A gauge keeps the books exactly if consent is given and, once it has a ticket, nothing
raises. -/
theorem balanced_gauge_iff [AddCommGroup V] (w : World (Gauge V) V)
    (change : List (String × String) → Gauge V → Gauge V × V) (attributes : Attributes) :
    Balanced w ((admitted x (gaugeBody x change attributes)).exec w).2 ↔
      shouldAllow w.consent = true ∧
      ∀ queues ticket, Admitted x w queues ticket → GaugeCompletes x w.handle attributes := by
  rw [balanced_admitted_iff fun v => by
    obtain ⟨updates, emitted, hbooks, -⟩ := books_gaugeBody (x := x) v change attributes
    exact ⟨updates, emitted, hbooks⟩]
  apply and_congr_right
  intro _
  refine forall₃_congr fun queues ticket _ => ?_
  obtain ⟨updates, emitted, hbooks, hiff⟩ :=
    books_gaugeBody (x := x) (w.acquire queues ticket) change attributes
  have hhandle : (w.acquire queues ticket).handle = w.handle := rfl
  rw [hbooks, ← hhandle, ← hiff]
  simp [Books.post]

/-- **Which calls keep the books.** -/
theorem balanced_iff [AddCommGroup V] [LT V] [DecidableLT V] :
    (∀ (w : World V V) amount attributes,
      Balanced w ((counterAdd x amount attributes).exec w).2 ↔ shouldAllow w.consent = true) ∧
    (∀ (w : World (Gauge V) V) amount attributes,
      Balanced w ((gaugeAdd x amount attributes).exec w).2 ↔
        shouldAllow w.consent = true ∧ ∀ queues ticket, Admitted x w queues ticket →
          GaugeCompletes x w.handle attributes) ∧
    (∀ (w : World (Gauge V) V) value attributes,
      Balanced w ((gaugeSet x value attributes).exec w).2 ↔
        shouldAllow w.consent = true ∧ ∀ queues ticket, Admitted x w queues ticket →
          GaugeCompletes x w.handle attributes) ∧
    (∀ (w : World (Histogram V) V) value attributes,
      Balanced w ((histogramRecord x value attributes).exec w).2 ↔
        shouldAllow w.consent = true) :=
  ⟨fun w _ _ => balanced_counted_iff x w _ _ _, fun w _ _ => balanced_gauge_iff x w _ _,
    fun w _ _ => balanced_gauge_iff x w _ _, fun w _ _ => balanced_counted_iff x w _ _ _⟩

end Entries

/-- Nothing outside raises, except for the OTel instrument. -/
def instrumentRaises : Course where
  draw := 0
  meter := .noMeter
  guardAttributes := .ok
  exemplar := false
  instrument := fun _ => .error (.other "ValueError")

/-- A counter without consent is not counted; a gauge whose OTel gauge raises has its value updated
and is not counted either. -/
theorem uncounted_calls :
    (¬ ∀ (x : Course) (w : World ℤ ℤ) (amount : ℤ) (attributes : Attributes),
      Balanced w ((counterAdd x amount attributes).exec w).2) ∧
    ¬ ∀ (x : Course) (w : World (Gauge ℤ) ℤ) (value : ℤ) (attributes : Attributes),
      shouldAllow w.consent = true → Balanced w ((gaugeSet x value attributes).exec w).2 := by
  constructor
  · intro h
    have hbalanced :=
      h instrumentRaises { name := "requests", kept := 0, consent := .none } 1 .empty
    obtain ⟨-, hemitted, -⟩ | ⟨-, -, hdropped⟩ := hbalanced.counted
    · exact absurd hemitted (by decide)
    · exact absurd hdropped (by decide)
  · intro h
    have hbalanced := h instrumentRaises
      { name := "load", kept := {}, handle := ⟨true, true⟩ } 1 .empty rfl
    obtain ⟨-, hemitted, -⟩ | ⟨hupdates, -, -⟩ := hbalanced.counted
    · exact absurd hemitted (by decide)
    · exact absurd hupdates (by decide)

end Telemetry.Metrics.Python
