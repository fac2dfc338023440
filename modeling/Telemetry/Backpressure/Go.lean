import Telemetry.Lib.Permits
import Telemetry.Lib.Run

/-!
# The bounded queues of the Go SDK

`backpressure.go`: a buffered channel of empty values a signal, made anew whenever a policy is set;
the old one is abandoned and not closed. `TryAcquire` sends into the channel without waiting and
puts the channel on the ticket; `Release` receives from the ticket's channel without waiting.

What is sent and received is anonymous, and a ticket does not remember that it was released. As
long as a ticket is released once, or again only when nothing is left in its channel, every channel
holds exactly as many slots as there are tickets out for it.

## Main definitions

* `Queues`, `tryAcquire`, `release`, `setQueuePolicy` — the package's state and its functions.
* `Runtime`, `Op`, `machine` — runs, with the tickets that were handed out.
* `Runtime.Exact` — every channel holds the slots of its live tickets, and never too many.
* `FreesOwnSlot` — the releases that free nobody else's slot.

## Main results

* `exact_iff_guarded` — **slots are exact throughout a run** iff every release frees its own slot.
-/

namespace Telemetry.Backpressure.Go

open Telemetry.Lib

def signalLogs : String := "logs"

def signalTraces : String := "traces"

def signalMetrics : String := "metrics"

/-- `QueuePolicy`. -/
structure QueuePolicy where
  logsMaxSize : ℤ := 0
  tracesMaxSize : ℤ := 0
  metricsMaxSize : ℤ := 0
  deriving DecidableEq, Repr

/-- `QueueTicket`: a channel is known by its place among those ever made. -/
structure QueueTicket where
  signal : String
  ch : Option ℕ := none
  deriving DecidableEq, Repr

/-- The package's state, and every channel that was ever made. -/
structure Queues where
  queuePolicy : QueuePolicy := {}
  logsQueue : Option ℕ := none
  tracesQueue : Option ℕ := none
  metricsQueue : Option ℕ := none
  chans : List Permits := []
  logsDropped : ℕ := 0
  spansDropped : ℕ := 0
  metricsDropped : ℕ := 0
  deriving DecidableEq, Repr

/-- `_buildQueue`, with the channels there are by then: `nil` where nothing is bounded. -/
def buildQueue (size : ℤ) (chans : List Permits) : Option ℕ × List Permits :=
  if size ≤ 0 then (none, chans) else (some chans.length, chans ++ [.ofSize size.toNat])

theorem buildQueue_extends (size : ℤ) (chans : List Permits) :
    chans <+: (buildQueue size chans).2 := by
  rw [buildQueue]
  split
  · exact List.prefix_rfl
  · exact List.prefix_append _ _

namespace Queues

/-- `_drainAndRebuild`. -/
def drainAndRebuild (policy : QueuePolicy) (s : Queues) : Queues :=
  let logs := buildQueue policy.logsMaxSize s.chans
  let traces := buildQueue policy.tracesMaxSize logs.2
  let metrics := buildQueue policy.metricsMaxSize traces.2
  { s with
    queuePolicy := policy
    logsQueue := logs.1
    tracesQueue := traces.1
    metricsQueue := metrics.1
    chans := metrics.2 }

/-- `SetQueuePolicy`. -/
def setQueuePolicy (policy : QueuePolicy) (s : Queues) : Queues := s.drainAndRebuild policy

/-- The channels that there were stay as they are. -/
theorem setQueuePolicy_extends (policy : QueuePolicy) (s : Queues) :
    s.chans <+: (s.setQueuePolicy policy).chans :=
  ((buildQueue_extends _ _).trans (buildQueue_extends _ _)).trans (buildQueue_extends _ _)

/-- `_queueForSignal`. -/
def queueForSignal (signal : String) (s : Queues) : Option (ℤ × Option ℕ) :=
  if signal = signalLogs then some (s.queuePolicy.logsMaxSize, s.logsQueue)
  else if signal = signalTraces then some (s.queuePolicy.tracesMaxSize, s.tracesQueue)
  else if signal = signalMetrics then some (s.queuePolicy.metricsMaxSize, s.metricsQueue)
  else none

/-- `_incDropped`. -/
def incDropped (signal : String) (s : Queues) : Queues :=
  if signal = signalLogs then { s with logsDropped := s.logsDropped + 1 }
  else if signal = signalTraces then { s with spansDropped := s.spansDropped + 1 }
  else if signal = signalMetrics then { s with metricsDropped := s.metricsDropped + 1 }
  else s

/-- A send that does not wait; sending into `nil` is never ready. -/
def trySend (ch : Option ℕ) (s : Queues) : Option (ℕ × Queues) := do
  let c ← ch
  let chan ← s.chans[c]?
  let chan ← chan.take
  some (c, { s with chans := s.chans.set c chan })

/-- `TryAcquire`. -/
def tryAcquire (signal : String) (s : Queues) : Queues × Option QueueTicket :=
  match s.queueForSignal signal with
  | none => (s, none)
  | some (maxSize, ch) =>
      if maxSize ≤ 0 then (s, some ⟨signal, none⟩)
      else
        match s.trySend ch with
        | some (c, s') => (s', some ⟨signal, some c⟩)
        | none => (s.incDropped signal, none)

/-- `Release`. -/
def release (ticket : Option QueueTicket) (s : Queues) : Queues :=
  match ticket with
  | none => s
  | some ticket =>
      match ticket.ch with
      | none => s
      -- A receive that does not wait: from an empty channel nothing is received.
      | some c => { s with chans := s.chans.modify c Permits.giveBack }

variable {s s' : Queues} {signal : String} {ch : Option ℕ} {c : ℕ}

/-- A refusal is counted, and nothing else changes. -/
theorem incDropped_frame (signal : String) (s : Queues) :
    (s.incDropped signal).chans = s.chans ∧ (s.incDropped signal).queuePolicy = s.queuePolicy ∧
      (s.incDropped signal).logsQueue = s.logsQueue := by
  rw [incDropped]
  split_ifs <;> exact ⟨rfl, rfl, rfl⟩

theorem trySend_eq_some (h : s.trySend ch = some (c, s')) :
    ch = some c ∧ ∃ chan chan', s.chans[c]? = some chan ∧ chan.take = some chan' ∧
      s' = { s with chans := s.chans.set c chan' } := by
  simp only [trySend, Option.bind_eq_bind, Option.bind_eq_some_iff, Option.some.injEq,
    Prod.mk.injEq] at h
  obtain ⟨d, hd, chan, hchan, chan', htake, rfl, rfl⟩ := h
  exact ⟨hd, chan, chan', hchan, htake, rfl⟩

/-- The outcomes of `TryAcquire`: refused, unbounded, a slot. -/
theorem tryAcquire_cases {t : Option QueueTicket} (h : s.tryAcquire signal = (s', t)) :
    (t = none ∧ (s' = s ∨ s' = s.incDropped signal)) ∨
    (t = some ⟨signal, none⟩ ∧ s' = s) ∨
    (∃ c, t = some ⟨signal, some c⟩ ∧
      ∃ maxSize, s.queueForSignal signal = some (maxSize, some c) ∧ 0 < maxSize ∧
      ∃ chan chan', s.chans[c]? = some chan ∧ chan.take = some chan' ∧
        s' = { s with chans := s.chans.set c chan' }) := by
  rw [tryAcquire] at h
  split at h
  · left
    cases h
    exact ⟨rfl, .inl rfl⟩
  · next maxSize ch hqueue =>
      split at h
      · right; left
        cases h
        exact ⟨rfl, rfl⟩
      · next hsize =>
          split at h
          · next c t hsend =>
              right; right
              cases h
              obtain ⟨rfl, hchan⟩ := trySend_eq_some hsend
              exact ⟨c, rfl, maxSize, hqueue, by omega, hchan⟩
          · left
            cases h
            exact ⟨rfl, .inr rfl⟩

end Queues

/-! ## Runs -/

/-- A ticket that was handed out, and whether it was released. -/
structure Issued where
  ticket : QueueTicket
  released : Bool := false
  deriving DecidableEq, Repr

/-- The queues, and the tickets that were handed out, the oldest first. -/
structure Runtime where
  queues : Queues := {}
  issued : List Issued := []
  deriving DecidableEq, Repr

/-- What callers may do. -/
inductive Op
  | setPolicy (policy : QueuePolicy)
  | acquire (signal : String)
  /-- Release the `k`-th ticket handed out. -/
  | release (k : ℕ)
  | releaseNil
  deriving DecidableEq, Repr

/-- The ticket was acquired from the channel and was not released. -/
def Issued.liveAt (c : ℕ) (x : Issued) : Bool := !x.released && decide (x.ticket.ch = some c)

namespace Runtime

/-- `TryAcquire`; a ticket that is handed out is remembered. -/
def acquire (signal : String) (s : Runtime) : Runtime where
  queues := (s.queues.tryAcquire signal).1
  issued := s.issued ++ (s.queues.tryAcquire signal).2.toList.map fun ticket => ⟨ticket, false⟩

/-- `Release` of the `k`-th ticket. -/
def release (k : ℕ) (x : Issued) (s : Runtime) : Runtime where
  queues := s.queues.release (some x.ticket)
  issued := s.issued.set k { x with released := true }

/-- `SetQueuePolicy`. -/
def setPolicy (policy : QueuePolicy) (s : Runtime) : Runtime :=
  { s with queues := s.queues.setQueuePolicy policy }

/-- How many tickets of a channel were not released. -/
def live (s : Runtime) (c : ℕ) : ℕ := s.issued.countP (Issued.liveAt c)

/-- **The law of the slots**: every channel ever made holds as many as there are live tickets of
it, and those are never more than its size. -/
def Exact (s : Runtime) : Prop :=
  ∀ c chan, s.queues.chans[c]? = some chan → chan.held = s.live c ∧ s.live c ≤ chan.size

end Runtime

/-- The runs. Only a ticket that was handed out can be released. -/
def machine : Machine Runtime Op where
  init := {}
  step s
    | .setPolicy policy => some (s.setPolicy policy)
    | .acquire signal => some (s.acquire signal)
    | .release k => (s.issued[k]?).map fun x => s.release k x
    | .releaseNil => some { s with queues := s.queues.release none }

/-- A ticket is released for the first time, or it has no channel, or its channel is empty. -/
def FreesOwnSlot (s : Runtime) : Op → Prop
  | .release k => ∀ x ∈ s.issued[k]?, x.released = true →
      ∀ c ∈ x.ticket.ch, ∀ chan ∈ s.queues.chans[c]?, chan.held = 0
  | _ => True

instance : ∀ s op, Decidable (FreesOwnSlot s op)
  | s, .release k =>
      inferInstanceAs (Decidable (∀ x ∈ s.issued[k]?, x.released = true →
        ∀ c ∈ x.ticket.ch, ∀ chan ∈ s.queues.chans[c]?, chan.held = 0))
  | _, .setPolicy _ => inferInstanceAs (Decidable True)
  | _, .acquire _ => inferInstanceAs (Decidable True)
  | _, .releaseNil => inferInstanceAs (Decidable True)

/-! ## Channels and tickets as a pool of permits -/

/-- What a ticket is a slip of. -/
def Issued.slip (x : Issued) : Slip := ⟨x.ticket.ch, x.released⟩

/-- The channels and the tickets. -/
def Runtime.pool (s : Runtime) : Pool := ⟨s.queues.chans, s.issued.map Issued.slip⟩

/-- What holds in every state of a run in which every release frees its own slot. -/
structure Sound (p : Pool) : Prop where
  balanced : p.Balanced
  known : p.Known

variable {s s' : Runtime} {p : Pool} {k c : ℕ} {x : Issued} {signal : String}

theorem Runtime.live_pool (s : Runtime) (c : ℕ) : s.pool.live c = s.live c := by
  rw [Pool.live, Runtime.pool, List.countP_map]
  rfl

theorem Runtime.exact_iff : s.Exact ↔ s.pool.Balanced := by
  constructor
  · intro h c chan hchan
    rw [Runtime.live_pool]
    exact (h c chan hchan).1
  · intro h c chan hchan
    rw [← Runtime.live_pool]
    exact ⟨h c chan hchan, h.live_le hchan⟩

/-- A new channel has no ticket yet. -/
theorem Sound.buildQueue (h : Sound p) (size : ℤ) :
    Sound ⟨(Go.buildQueue size p.sources).2, p.slips⟩ := by
  rw [Go.buildQueue]
  split
  · exact h
  · exact ⟨Pool.balanced_addSource h.balanced h.known _, Pool.known_addSource h.known _⟩

theorem Sound.setPolicy (h : Sound s.pool) (policy : QueuePolicy) :
    Sound (s.setPolicy policy).pool :=
  ((h.buildQueue policy.logsMaxSize).buildQueue policy.tracesMaxSize).buildQueue
    policy.metricsMaxSize

/-- **One acquisition**: a slot is taken where a ticket for it is handed out. -/
theorem Sound.acquire (h : Sound s.pool) (signal : String) : Sound (s.acquire signal).pool := by
  rw [Runtime.acquire]
  cases hacq : s.queues.tryAcquire signal with
  | mk queues ticket =>
      obtain ⟨rfl, hrefused⟩ | ⟨rfl, rfl⟩ | ⟨c, rfl, -, -, -, chan, chan', hchan, htake, rfl⟩ :=
        Queues.tryAcquire_cases hacq
      · have hchans : queues.chans = s.queues.chans := by
          obtain rfl | rfl := hrefused
          · rfl
          · exact (Queues.incDropped_frame signal s.queues).1
        simpa [Runtime.pool, hchans] using h
      · have hpool : Runtime.pool ⟨s.queues, s.issued ++ [⟨⟨signal, none⟩, false⟩]⟩ =
            s.pool.issueFree := by
          simp [Runtime.pool, Pool.issueFree, Issued.slip]
        simp only [Option.toList_some, List.map_cons, List.map_nil]
        rw [hpool]
        exact ⟨Pool.balanced_issueFree h.balanced, Pool.known_issueFree h.known⟩
      · have hpool : s.pool.take c = some (Runtime.pool
            ⟨{ s.queues with chans := s.queues.chans.set c chan' },
              s.issued ++ [⟨⟨signal, some c⟩, false⟩]⟩) := by
          simp [Runtime.pool, Pool.take, Issued.slip, hchan, htake]
        exact ⟨Pool.balanced_take h.balanced hpool, Pool.known_take h.known hpool⟩

theorem Runtime.pool_release (s : Runtime) (k : ℕ) (x : Issued) :
    (s.release k x).pool = s.pool.giveBack k x.slip := by
  obtain ⟨⟨signal, ch⟩, released⟩ := x
  cases ch <;>
    simp [Runtime.pool, Runtime.release, Queues.release, Pool.giveBack, Issued.slip, List.map_set]

/-- **One release** keeps the law exactly if it frees its own slot. -/
theorem balanced_release_iff (h : Sound s.pool) (hx : s.issued[k]? = some x) :
    (s.release k x).pool.Balanced ↔ FreesOwnSlot s (.release k) := by
  have hslip : s.pool.slips[k]? = some x.slip := by simp [Runtime.pool, hx]
  rw [Runtime.pool_release, Pool.balanced_giveBack_iff h.balanced hslip]
  simp [FreesOwnSlot, Pool.StealsNothing, hx, Issued.slip, Runtime.pool]

theorem Sound.step {op : Op} (h : Sound s.pool) (hg : FreesOwnSlot s op)
    (hstep : machine.step s op = some s') : Sound s'.pool := by
  cases op with
  | setPolicy policy =>
      cases hstep
      exact h.setPolicy policy
  | acquire signal =>
      cases hstep
      exact h.acquire signal
  | release k =>
      obtain ⟨x, hx, rfl⟩ := Option.map_eq_some_iff.mp hstep
      constructor
      · exact (balanced_release_iff h hx).mpr hg
      · rw [Runtime.pool_release]
        exact Pool.known_giveBack h.known (by simp [Runtime.pool, hx])
  | releaseNil =>
      cases hstep
      exact h

theorem sound_init : Sound machine.init.pool := by
  constructor
  · intro c q hq
    simp [machine, Runtime.pool] at hq
  · intro x hx
    simp [machine, Runtime.pool] at hx

/-- **A run is exact throughout** iff every release in it frees its own slot. -/
theorem exact_iff_guarded {ops : List Op} (h : machine.run ops = some s) :
    machine.Guarded FreesOwnSlot machine.init ops ↔
      ∀ ks t, ks <+: ops → machine.run ks = some t → t.Exact := by
  refine Machine.guarded_iff (J := fun s => Sound s.pool) sound_init ?_ ?_ ?_ h
  · intro s hs
    exact Runtime.exact_iff.mpr hs.balanced
  · intro s op s' hs hg hstep
    exact hs.step hg hstep
  · intro s op s' hs hstep hexact
    cases op with
    | release k =>
        obtain ⟨x, hx, rfl⟩ := Option.map_eq_some_iff.mp hstep
        exact (balanced_release_iff hs hx).mp (Runtime.exact_iff.mp hexact)
    | _ => trivial

/-- Two tickets of one channel, each released once. -/
theorem exact_of_one_release_each :
    (∃ s, machine.run [.setPolicy ⟨2, 0, 0⟩, .acquire "logs", .acquire "logs", .release 1,
      .release 0] = some s) ∧
    ∀ ks t, ks <+: [.setPolicy ⟨2, 0, 0⟩, .acquire "logs", .acquire "logs", .release 1,
      .release 0] → machine.run ks = some t → t.Exact :=
  ⟨⟨_, rfl⟩, (exact_iff_guarded rfl).mp (by decide)⟩

/-- One of two tickets is released twice: the slot of the other is free, although it is live, and
three tickets come out of a channel of size two. -/
theorem not_exact_of_second_release :
    ¬ ∀ ops s, machine.run ops = some s → s.Exact := by
  intro h
  have hexact := h [.setPolicy ⟨2, 0, 0⟩, .acquire "logs", .acquire "logs", .release 0, .release 0,
    .acquire "logs", .acquire "logs"] _ rfl
  have hchan := hexact 0 ⟨2, 2, by omega⟩ rfl
  exact absurd hchan.2 (by decide)

end Telemetry.Backpressure.Go
