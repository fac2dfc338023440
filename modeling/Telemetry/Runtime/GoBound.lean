import Telemetry.Runtime.Go

/-!
# The bound of the logs queue across reconfigurations

Runs of `TryAcquire` and `Release` in a Go process that was set up with a bound for the logs
queue, with configs put into force in between that all have the same bound. A ticket is released
once at most.

Every config that is put into force makes a new channel, whatever it changes. The tickets out by
then drain the old one, and the new one hands out the whole bound again. The bound holds as long as
configs are put into force while no logs ticket is out.

## Main definitions

* `Op`, `machine` — the runs.
* `liveLogs` — how many logs tickets are out.
* `NoLogsTicketOut` — the condition on putting a config into force.

## Main results

* `liveLogs_le_iff_guarded` — **the bound holds throughout a run**, however many logs tickets are
  asked for next, iff its configs are put into force while no logs ticket is out.
-/

namespace Telemetry.Runtime.Go

open Telemetry.Lib Telemetry.Backpressure.Go

/-- What the process may do. -/
inductive Op
  | acquire (signal : String)
  /-- Release the `k`-th ticket handed out. -/
  | release (k : ℕ)
  | update (overrides : RuntimeOverrides)
  | reload (fromEnv : Except String TelemetryConfig) (providers : SignalStatus)
  | reconfigure (state : SetupState) (fromEnv : Except String TelemetryConfig)
      (providers : SignalStatus)

/-- The call puts a config into force. -/
def Op.installs : Op → Bool
  | .acquire _ | .release _ => false
  | .update _ | .reload _ _ | .reconfigure _ _ _ => true

namespace World

/-- `SetupTelemetry` in a process that was not set up, where no ticket is out. -/
def setup (cfg : TelemetryConfig) : World := ({} : World).install cfg

/-- The bound of the logs queue that the config in force has. -/
def logsMaxSize (w : World) : Option ℤ := w.runtimeCfg.map fun cfg => cfg.backpressure.maxSize.logs

/-- The world with other tickets. -/
def withTickets (backpressure : Backpressure.Go.Runtime) (w : World) : World :=
  { w with backpressure := backpressure }

end World

/-- A call succeeds, and the config in force has the bound after it. -/
def succeeding (bound : ℤ) : Except Error World → Option World
  | .ok w => if w.logsMaxSize = some bound then some w else none
  | .error _ => none

/-- The runs: a ticket is released once at most, and every call succeeds and keeps the bound. -/
def machine (upper : String → String) (cfg : TelemetryConfig) : Machine World Op where
  init := World.setup cfg
  step w
    | .acquire signal => some (w.withTickets (w.backpressure.acquire signal))
    | .release k =>
        (w.backpressure.issued[k]?).bind fun x =>
          if x.released then none else some (w.withTickets (w.backpressure.release k x))
    | .update overrides =>
        succeeding cfg.backpressure.maxSize.logs (updateRuntimeConfig upper overrides w)
    | .reload fromEnv providers =>
        succeeding cfg.backpressure.maxSize.logs (reloadRuntimeFromEnv fromEnv providers w)
    | .reconfigure state fromEnv providers =>
        succeeding cfg.backpressure.maxSize.logs
          (reconfigureTelemetry upper state fromEnv providers w)

/-- The ticket is for logs, and it was not released. -/
def isLiveLogs (x : Issued) : Bool := !x.released && decide (x.ticket.signal = signalLogs)

/-- How many logs tickets were acquired and not released. -/
def liveLogs (s : Backpressure.Go.Runtime) : ℕ := s.issued.countP isLiveLogs

/-- `TryAcquire` for logs, several times over. -/
def acquireLogs : ℕ → Backpressure.Go.Runtime → Backpressure.Go.Runtime
  | 0, s => s
  | n + 1, s => acquireLogs n (s.acquire signalLogs)

/-- A config is put into force while no logs ticket is out. -/
def NoLogsTicketOut (w : World) (op : Op) : Prop :=
  op.installs = true → liveLogs w.backpressure = 0

instance (w : World) (op : Op) : Decidable (NoLogsTicketOut w op) :=
  inferInstanceAs (Decidable (op.installs = true → liveLogs w.backpressure = 0))

/-! ## The channel of the logs -/

/-- The logs queue is a channel of the size of the bound. -/
structure LogsChannel (bound : ℤ) (s : Queues) (c : ℕ) (chan : Permits) : Prop where
  logsQueue : s.logsQueue = some c
  logsMaxSize : s.queuePolicy.logsMaxSize = bound
  chan_eq : s.chans[c]? = some chan
  size_eq : (chan.size : ℤ) = bound

/-- Every logs ticket that is out drains the channel that is in use, which holds as many slots as
it has tickets. -/
structure InUse (bound : ℤ) (s : Backpressure.Go.Runtime) : Prop where
  sound : Sound s.pool
  channel : ∃ c chan, LogsChannel bound s.queues c chan ∧
    ∀ x ∈ s.issued, isLiveLogs x = true → x.ticket.ch = some c

variable {bound : ℤ} {s s' : Backpressure.Go.Runtime} {q : Queues} {w w' : World} {c k : ℕ}
  {chan : Permits} {x : Issued} {signal : String} {policy : QueuePolicy} {op : Op}
  {upper : String → String} {cfg : TelemetryConfig}

/-- **The bound**: a channel has no more tickets out than its size. -/
theorem InUse.liveLogs_le (h : InUse bound s) : (liveLogs s : ℤ) ≤ bound := by
  obtain ⟨c, chan, hchannel, hissued⟩ := h.channel
  have hlive : liveLogs s ≤ s.live c := by
    apply List.countP_mono_left
    intro x hx hlogs
    have hch := hissued x hx hlogs
    simp only [isLiveLogs, Bool.and_eq_true] at hlogs
    simp [Issued.liveAt, hlogs.1, hch]
  have hsize : s.live c ≤ chan.size := (Runtime.exact_iff.mpr h.sound.balanced c chan
    hchannel.chan_eq).2
  have hbound := hchannel.size_eq
  omega

/-- A policy with a bound for logs gives them a new channel, with no slot taken. -/
theorem logsChannel_setQueuePolicy (hpos : 0 < policy.logsMaxSize) :
    LogsChannel policy.logsMaxSize (q.setQueuePolicy policy) q.chans.length
      (.ofSize policy.logsMaxSize.toNat) := by
  have hbuild : buildQueue policy.logsMaxSize q.chans =
      (some q.chans.length, q.chans ++ [.ofSize policy.logsMaxSize.toNat]) := by
    rw [buildQueue, if_neg (by omega)]
  have hextends : q.chans ++ [.ofSize policy.logsMaxSize.toNat] <+:
      (q.setQueuePolicy policy).chans := by
    simp only [Queues.setQueuePolicy, Queues.drainAndRebuild, hbuild]
    exact (buildQueue_extends _ _).trans (buildQueue_extends _ _)
  constructor
  · simp [Queues.setQueuePolicy, Queues.drainAndRebuild, hbuild]
  · rfl
  · obtain ⟨rest, hrest⟩ := hextends
    rw [← hrest]
    simp
  · simp
    omega

theorem isLiveLogs_iff : isLiveLogs x = true ↔
    x.released = false ∧ x.ticket.signal = signalLogs := by
  simp [isLiveLogs]

/-- Where no logs ticket is out, a new channel is the one that all of them drain. -/
theorem InUse.setPolicy (h : Sound s.pool) (hpos : 0 < policy.logsMaxSize)
    (hnone : liveLogs s = 0) : InUse policy.logsMaxSize (s.setPolicy policy) := by
  refine ⟨h.setPolicy policy, s.queues.chans.length, _, logsChannel_setQueuePolicy hpos, ?_⟩
  intro x hx hlogs
  rw [liveLogs, List.countP_eq_zero] at hnone
  exact absurd hlogs (hnone x hx)

theorem queueForSignal_logs (h : LogsChannel bound q c chan) :
    q.queueForSignal signalLogs = some (bound, some c) := by
  simp [Queues.queueForSignal, h.logsQueue, h.logsMaxSize]

/-- Taking a slot of any channel leaves the channel of the logs what it is. -/
theorem LogsChannel.set (h : LogsChannel bound q c chan) {d : ℕ} {new : Permits}
    (hnew : ∀ old, q.chans[d]? = some old → new.size = old.size) :
    ∃ chan', LogsChannel bound { q with chans := q.chans.set d new } c chan' := by
  by_cases hd : d = c
  · subst hd
    have hsize := hnew chan h.chan_eq
    obtain ⟨hlt, -⟩ := List.getElem?_eq_some_iff.mp h.chan_eq
    refine ⟨new, h.logsQueue, h.logsMaxSize, ?_, ?_⟩
    · simp [hlt]
    · rw [hsize]
      exact h.size_eq
  · exact ⟨chan, h.logsQueue, h.logsMaxSize, by simpa [hd] using h.chan_eq, h.size_eq⟩

/-- A refusal leaves it too. -/
theorem LogsChannel.refused (h : LogsChannel bound s.queues c chan)
    (hq : q = s.queues ∨ q = s.queues.incDropped signal) : LogsChannel bound q c chan := by
  obtain rfl | rfl := hq
  · exact h
  · obtain ⟨hchans, hpolicy, hqueue⟩ := Queues.incDropped_frame signal s.queues
    constructor
    · rw [hqueue, h.logsQueue]
    · rw [hpolicy, h.logsMaxSize]
    · rw [hchans, h.chan_eq]
    · exact h.size_eq

/-- One more ticket keeps the logs tickets in their channel, if it is of it where it is one. -/
theorem ofChannel_append {issued : List Issued} {x : Issued}
    (hissued : ∀ y ∈ issued, isLiveLogs y = true → y.ticket.ch = some c)
    (hnew : x.ticket.signal = signalLogs → x.ticket.ch = some c) :
    ∀ y ∈ issued ++ [x], isLiveLogs y = true → y.ticket.ch = some c := by
  intro y hy hlogs
  rw [List.mem_append, List.mem_singleton] at hy
  obtain hy | rfl := hy
  · exact hissued y hy hlogs
  · exact hnew (isLiveLogs_iff.mp hlogs).2

/-- **One acquisition** hands out a logs ticket of the channel in use, or none. -/
theorem InUse.acquire (h : InUse bound s) (hpos : 0 < bound) (signal : String) :
    InUse bound (s.acquire signal) := by
  refine ⟨h.sound.acquire signal, ?_⟩
  obtain ⟨c, chan, hchannel, hissued⟩ := h.channel
  rw [Runtime.acquire]
  cases hacq : s.queues.tryAcquire signal with
  | mk queues ticket =>
      obtain ⟨rfl, hrefused⟩ | ⟨rfl, hsame⟩ |
          ⟨d, rfl, maxSize, hqueue, -, old, new, hold, htake, rfl⟩ :=
        Queues.tryAcquire_cases hacq
      · exact ⟨c, chan, hchannel.refused hrefused, by simpa using hissued⟩
      · -- Without a bound: that was not a logs ticket.
        subst hsame
        refine ⟨c, chan, hchannel, ofChannel_append hissued fun hsignal => ?_⟩
        have hlogs : signal = signalLogs := hsignal
        subst hlogs
        have hbounded : ¬ bound ≤ 0 := by omega
        rw [Queues.tryAcquire, queueForSignal_logs hchannel] at hacq
        simp only [hbounded, if_false] at hacq
        have hticket := congrArg Prod.snd hacq
        split at hticket <;> cases hticket
      · have hsize : ∀ old', s.queues.chans[d]? = some old' → new.size = old'.size := by
          intro old' hold'
          obtain rfl : old = old' := Option.some.inj (hold.symm.trans hold')
          exact (Permits.take_eq_some htake).1
        obtain ⟨chan', hchannel'⟩ := hchannel.set hsize
        refine ⟨c, chan', hchannel', ofChannel_append hissued fun hsignal => ?_⟩
        have hlogs : signal = signalLogs := hsignal
        subst hlogs
        rw [queueForSignal_logs hchannel] at hqueue
        cases hqueue
        rfl

/-- **One release** of a ticket that is out. -/
theorem InUse.release (h : InUse bound s) (hx : s.issued[k]? = some x)
    (hout : x.released = false) : InUse bound (s.release k x) := by
  have hown : FreesOwnSlot s (.release k) := by
    intro y hy hreleased
    obtain rfl : x = y := Option.some.inj (hx.symm.trans hy)
    rw [hout] at hreleased
    cases hreleased
  have hstep : Backpressure.Go.machine.step s (.release k) = some (s.release k x) := by
    simp [Backpressure.Go.machine, hx]
  refine ⟨h.sound.step hown hstep, ?_⟩
  obtain ⟨c, chan, hchannel, hissued⟩ := h.channel
  have hfresh : ∀ y ∈ (s.release k x).issued, isLiveLogs y = true → y.ticket.ch = some c := by
    intro y hy hlogs
    obtain hy | rfl := List.mem_or_eq_of_mem_set hy
    · exact hissued y hy hlogs
    · cases hlogs
  rw [Runtime.release, Queues.release] at hfresh ⊢
  cases hch : x.ticket.ch with
  | none => exact ⟨c, chan, hchannel, by simpa [hch] using hfresh⟩
  | some d =>
      obtain hnone | ⟨old, hold⟩ := Option.eq_none_or_eq_some s.queues.chans[d]?
      · refine ⟨c, chan, ?_, by simpa [hch] using hfresh⟩
        have hd : d ≠ c := by
          intro heq
          rw [heq, hchannel.chan_eq] at hnone
          cases hnone
        exact ⟨hchannel.logsQueue, hchannel.logsMaxSize, by simp [hd, hchannel.chan_eq],
          hchannel.size_eq⟩
      · have hset : s.queues.chans.modify d Permits.giveBack =
            s.queues.chans.set d old.giveBack := by
          rw [List.modify_eq_set_getElem?, hold]
          rfl
        have hsize : ∀ old', s.queues.chans[d]? = some old' →
            old.giveBack.size = old'.size := by
          intro old' hold'
          obtain rfl : old = old' := Option.some.inj (hold.symm.trans hold')
          rfl
        obtain ⟨chan', hchannel'⟩ := hchannel.set hsize
        exact ⟨c, chan', by simpa [hset] using hchannel', by simpa [hch] using hfresh⟩

/-- However often logs tickets are asked for, the bound holds. -/
theorem InUse.liveLogs_acquireLogs_le (h : InUse bound s) (hpos : 0 < bound) (n : ℕ) :
    (liveLogs (acquireLogs n s) : ℤ) ≤ bound := by
  induction n generalizing s with
  | zero => exact h.liveLogs_le
  | succ n ih => exact ih (h.acquire hpos signalLogs)

/-! ## A channel that is filled -/

/-- While the channel has room, asking for a logs ticket gets one. -/
theorem acquire_logs_of_room (h : LogsChannel bound s.queues c chan) (hpos : 0 < bound)
    (hroom : chan.held < chan.size) :
    (∃ chan', LogsChannel bound (s.acquire signalLogs).queues c chan' ∧
      chan'.held = chan.held + 1) ∧ liveLogs (s.acquire signalLogs) = liveLogs s + 1 := by
  obtain ⟨new, hnew⟩ : ∃ new, chan.take = some new := by
    cases htake : chan.take with
    | none =>
        have hfull := Permits.take_eq_none_iff.mp htake
        omega
    | some new => exact ⟨new, rfl⟩
  obtain ⟨hsize, hheld⟩ := Permits.take_eq_some hnew
  obtain ⟨hlt, -⟩ := List.getElem?_eq_some_iff.mp h.chan_eq
  have hsend : s.queues.trySend (some c) =
      some (c, { s.queues with chans := s.queues.chans.set c new }) := by
    simp [Queues.trySend, h.chan_eq, hnew]
  have hacq : s.queues.tryAcquire signalLogs =
      ({ s.queues with chans := s.queues.chans.set c new }, some ⟨signalLogs, some c⟩) := by
    rw [Queues.tryAcquire, queueForSignal_logs h]
    simp only [hsend, show ¬ bound ≤ 0 by omega, if_false]
  rw [Runtime.acquire, hacq]
  constructor
  · refine ⟨new, ⟨h.logsQueue, h.logsMaxSize, by simp [hlt], ?_⟩, hheld⟩
    rw [hsize]
    exact h.size_eq
  · simp [liveLogs, isLiveLogs]

/-- Filling an empty channel hands out as many logs tickets as it has slots. -/
theorem liveLogs_acquireLogs {n : ℕ} (h : LogsChannel bound s.queues c chan) (hpos : 0 < bound)
    (hroom : chan.held + n ≤ chan.size) : liveLogs (acquireLogs n s) = liveLogs s + n := by
  induction n generalizing s chan with
  | zero => rfl
  | succ n ih =>
      obtain ⟨⟨chan', hchannel, hheld⟩, hlive⟩ := acquire_logs_of_room h hpos (by omega)
      have hsize : chan'.size = chan.size := by
        have hbefore := h.size_eq
        have hafter := hchannel.size_eq
        omega
      rw [acquireLogs, ih hchannel (by omega), hlive]
      omega

/-- **The bound is broken** after a config came into force while a logs ticket was out. -/
theorem liveLogs_eq_zero_of_keptBelow (hpos : 0 < policy.logsMaxSize)
    (h : ∀ n, (liveLogs (acquireLogs n (s.setPolicy policy)) : ℤ) ≤ policy.logsMaxSize) :
    liveLogs s = 0 := by
  have hfilled : liveLogs (acquireLogs policy.logsMaxSize.toNat (s.setPolicy policy)) =
      liveLogs s + policy.logsMaxSize.toNat :=
    liveLogs_acquireLogs (s := s.setPolicy policy) (logsChannel_setQueuePolicy hpos) hpos
      (by simp)
  have hbound := h policy.logsMaxSize.toNat
  rw [hfilled] at hbound
  omega

/-! ## Runs -/

/-- A call that succeeds puts a config with the bound into force. -/
theorem succeeding_installs {r : Except Error World} (h : succeeding bound r = some w')
    (hok : ∀ w', r = .ok w' → ∃ cfg, w.Installed cfg w') :
    ∃ cfg : TelemetryConfig, cfg.backpressure.maxSize.logs = bound ∧
      w'.backpressure = w.backpressure.setPolicy cfg.queuePolicy := by
  cases r with
  | error e => cases h
  | ok w₁ =>
      obtain ⟨cfg, hcfg, -, hqueues⟩ := hok w₁ rfl
      simp only [succeeding] at h
      split at h
      · next hbound =>
          cases h
          refine ⟨cfg, ?_, hqueues⟩
          simpa [World.logsMaxSize, hcfg] using hbound
      · cases h

/-- **What a step does** to the tickets: it acquires, it releases one that is out, or it puts a
config with the bound into force. -/
theorem step_cases (h : (machine upper cfg).step w op = some w') :
    (∃ signal, op.installs = false ∧ w'.backpressure = w.backpressure.acquire signal) ∨
    (∃ k x, op.installs = false ∧ w.backpressure.issued[k]? = some x ∧ x.released = false ∧
      w'.backpressure = w.backpressure.release k x) ∨
    (∃ next : TelemetryConfig, op.installs = true ∧
      next.backpressure.maxSize.logs = cfg.backpressure.maxSize.logs ∧
      w'.backpressure = w.backpressure.setPolicy next.queuePolicy) := by
  cases op with
  | acquire signal =>
      cases h
      exact .inl ⟨signal, rfl, rfl⟩
  | release k =>
      obtain ⟨x, hx, hrest⟩ := Option.bind_eq_some_iff.mp h
      split at hrest
      · cases hrest
      · next hout =>
          cases hrest
          exact .inr (.inl ⟨k, x, rfl, hx, by simpa using hout, rfl⟩)
  | update overrides =>
      obtain ⟨next, hnext⟩ := succeeding_installs (w := w) h fun w₁ hok => by
        obtain ⟨current, -, hinstalled⟩ := updateRuntimeConfig_ok hok
        exact ⟨_, hinstalled⟩
      exact .inr (.inr ⟨next, rfl, hnext⟩)
  | reload fromEnv providers =>
      obtain ⟨next, hnext⟩ := succeeding_installs (w := w) h fun w₁ hok => by
        obtain ⟨current, target, -, -, hinstalled⟩ := reloadRuntimeFromEnv_ok hok
        exact ⟨_, hinstalled⟩
      exact .inr (.inr ⟨next, rfl, hnext⟩)
  | reconfigure state fromEnv providers =>
      obtain ⟨next, hnext⟩ := succeeding_installs (w := w) h fun w₁ hok => by
        obtain ⟨current, target, -, -, hinstalled⟩ := reconfigureTelemetry_ok hok
        exact ⟨_, hinstalled⟩
      exact .inr (.inr ⟨next, rfl, hnext⟩)

/-- A run that goes on asking for logs tickets. -/
theorem runFrom_replicate_acquire (n : ℕ) :
    (machine upper cfg).runFrom w (List.replicate n (.acquire signalLogs)) =
      some (w.withTickets (acquireLogs n w.backpressure)) := by
  induction n generalizing w with
  | zero => rfl
  | succ n ih =>
      rw [List.replicate_succ, Machine.runFrom_cons]
      exact ih

/-- **The bound holds throughout a run**, and however many logs tickets are asked for next, iff
every config in it is put into force while no logs ticket is out. -/
theorem liveLogs_le_iff_guarded {ops : List Op} (hpos : 0 < cfg.backpressure.maxSize.logs)
    (h : (machine upper cfg).run ops = some w) :
    (machine upper cfg).Guarded NoLogsTicketOut (machine upper cfg).init ops ↔
      ∀ ks n v, ks <+: ops →
        (machine upper cfg).run (ks ++ List.replicate n (.acquire signalLogs)) = some v →
        (liveLogs v.backpressure : ℤ) ≤ cfg.backpressure.maxSize.logs := by
  have hruns := Machine.guarded_iff (M := machine upper cfg) (G := NoLogsTicketOut)
    (J := fun w => InUse cfg.backpressure.maxSize.logs w.backpressure)
    (P := fun w => ∀ n,
      (liveLogs (acquireLogs n w.backpressure) : ℤ) ≤ cfg.backpressure.maxSize.logs)
    ?_ ?_ ?_ ?_ h
  · rw [hruns]
    constructor
    · intro hkept ks n v hks hv
      obtain ⟨u, hu, hrest⟩ := Machine.runFrom_append.mp hv
      rw [runFrom_replicate_acquire] at hrest
      cases hrest
      exact hkept ks u hks hu n
    · intro hbound ks u hks hu n
      refine hbound ks n (u.withTickets (acquireLogs n u.backpressure)) hks ?_
      exact Machine.runFrom_append.mpr ⟨u, hu, runFrom_replicate_acquire n⟩
  · have hsound : Sound (Runtime.pool {}) := sound_init
    have hnew : 0 < cfg.queuePolicy.logsMaxSize := hpos
    exact InUse.setPolicy hsound hnew rfl
  · intro w hw n
    exact hw.liveLogs_acquireLogs_le hpos n
  · intro w op w' hw hg hstep
    obtain ⟨signal, -, heq⟩ | ⟨k, x, -, hx, hout, heq⟩ | ⟨next, hinstalls, hbound, heq⟩ :=
      step_cases hstep
    · rw [heq]
      exact hw.acquire hpos signal
    · rw [heq]
      exact hw.release hx hout
    · rw [heq, ← hbound]
      rw [← hbound] at hpos
      have hnew : 0 < next.queuePolicy.logsMaxSize := hpos
      exact InUse.setPolicy hw.sound hnew (hg hinstalls)
  · intro w op w' hw hstep hkept hinstalls
    obtain ⟨signal, hnot, -⟩ | ⟨k, x, hnot, -⟩ | ⟨next, -, hbound, heq⟩ := step_cases hstep
    · rw [hinstalls] at hnot
      cases hnot
    · rw [hinstalls] at hnot
      cases hnot
    · rw [heq, ← hbound] at hkept
      rw [← hbound] at hpos
      have hnew : 0 < next.queuePolicy.logsMaxSize := hpos
      exact liveLogs_eq_zero_of_keptBelow hnew hkept

/-- A config with a bound of one for logs. -/
def oneLog : TelemetryConfig := { backpressure := ⟨⟨1, 0, 0⟩⟩ }

/-- Logs are not sampled any more, and nothing else changes. -/
def logsUnsampled : RuntimeOverrides := { sampling := some ⟨⟨.zero, .one, .one⟩⟩ }

/-- The rate changes after the ticket was released. -/
theorem liveLogs_le_of_update_between :
    (∃ w, (machine id oneLog).run
      [.acquire "logs", .release 0, .update logsUnsampled, .acquire "logs"] = some w) ∧
    ∀ ks n v, ks <+: [.acquire "logs", .release 0, .update logsUnsampled, .acquire "logs"] →
      (machine id oneLog).run (ks ++ List.replicate n (.acquire signalLogs)) = some v →
      (liveLogs v.backpressure : ℤ) ≤ 1 :=
  ⟨⟨_, rfl⟩, (liveLogs_le_iff_guarded (by decide) rfl).mp (by decide)⟩

/-- The rate changes while the ticket is out: then there are two tickets, and the bound is one. -/
theorem liveLogs_exceeds_bound_after_update :
    ¬ ∀ (upper : String → String) (cfg : TelemetryConfig) (ops : List Op) (w : World),
      0 < cfg.backpressure.maxSize.logs → (machine upper cfg).run ops = some w →
        (liveLogs w.backpressure : ℤ) ≤ cfg.backpressure.maxSize.logs := by
  intro h
  have hbound := h id oneLog [.acquire "logs", .update logsUnsampled, .acquire "logs"] _
    (by decide) rfl
  exact absurd hbound (by decide)

end Telemetry.Runtime.Go
