import Telemetry.Lib.Run
import Telemetry.Lib.Terms

/-!
# The bounded queues of the C# SDK

`Backpressure.cs`: a counter a signal under one gate, and tickets that remember that they were
released but not under which policy they were acquired. `SetQueuePolicy` starts the counters again
at zero while tickets of the earlier policy are still held; when one of them is released, the
counter goes down for it too if anything was acquired since, and the slot of a ticket of the new
policy is free although it is held.

## Main definitions

* `Queues`, `setQueuePolicy`, `tryAcquire`, `release` — the static fields and the methods.
* `Runtime`, `Op`, `machine` — runs, with the tickets that were handed out.
* `Runtime.Exact` — every counter is the number of tickets that hold a slot of its signal, and under
  a bound there are never more of them.
* `FreesNobodysSlot` — no stale ticket is released while its signal's counter is not zero, and no
  ticket is handed out on a counter that is at the end of `int`.

## Main results

* `exact_iff_freesNobodysSlot` — **slots are exact throughout a run** iff every step is such.
-/

namespace Telemetry.Backpressure.CSharp

open Telemetry.Lib

namespace Signals

def logs : String := "logs"

def traces : String := "traces"

def metrics : String := "metrics"

/-- The signals that have a queue. -/
def valid : List String := [logs, traces, metrics]

end Signals

/-- `QueuePolicy`. -/
structure QueuePolicy where
  logsMaxSize : Int32 := 0
  tracesMaxSize : Int32 := 0
  metricsMaxSize : Int32 := 0
  deriving DecidableEq, Repr

/-- `QueueTicket`. -/
structure QueueTicket where
  signal : String
  released : Bool := false
  deriving DecidableEq, Repr

/-- The static fields of `Backpressure`. -/
structure Queues where
  policy : QueuePolicy := {}
  logsCount : Int32 := 0
  tracesCount : Int32 := 0
  metricsCount : Int32 := 0
  deriving DecidableEq, Repr

namespace Queues

/-- `SetQueuePolicy`. -/
def setQueuePolicy (policy : QueuePolicy) (_ : Queues) : Queues where
  policy :=
    { logsMaxSize := max 0 policy.logsMaxSize
      tracesMaxSize := max 0 policy.tracesMaxSize
      metricsMaxSize := max 0 policy.metricsMaxSize }

/-- What `TryAcquire` reads of a signal: its bound and its counter. -/
def maxAndCount (signal : String) (s : Queues) : Int32 × Int32 :=
  if signal = Signals.logs then (s.policy.logsMaxSize, s.logsCount)
  else if signal = Signals.traces then (s.policy.tracesMaxSize, s.tracesCount)
  else if signal = Signals.metrics then (s.policy.metricsMaxSize, s.metricsCount)
  else (-1, 0)

/-- The counter goes up. -/
def countUp (signal : String) (s : Queues) : Queues :=
  if signal = Signals.logs then { s with logsCount := s.logsCount + 1 }
  else if signal = Signals.traces then { s with tracesCount := s.tracesCount + 1 }
  else if signal = Signals.metrics then { s with metricsCount := s.metricsCount + 1 }
  else s

/-- The counter goes down if it is positive. -/
def countDown (signal : String) (s : Queues) : Queues :=
  if signal = Signals.logs ∧ 0 < s.logsCount then { s with logsCount := s.logsCount - 1 }
  else if signal = Signals.traces ∧ 0 < s.tracesCount then
    { s with tracesCount := s.tracesCount - 1 }
  else if signal = Signals.metrics ∧ 0 < s.metricsCount then
    { s with metricsCount := s.metricsCount - 1 }
  else s

/-- `TryAcquire`. -/
def tryAcquire (signal : String) (s : Queues) : Queues × Option QueueTicket :=
  let (max, count) := s.maxAndCount signal
  if max < 0 then (s, none)
  -- 0 means unlimited
  else if max = 0 ∨ count < max then (s.countUp signal, some ⟨signal, false⟩)
  else (s, none)

/-- `Release`, and what becomes of the ticket. -/
def release (ticket : Option QueueTicket) (s : Queues) : Queues × Option QueueTicket :=
  match ticket with
  | none => (s, none)
  | some ticket =>
      if ticket.released then (s, some ticket)
      else (s.countDown ticket.signal, some { ticket with released := true })

/-- The bound of a signal. -/
def bound (signal : String) (s : Queues) : Int32 := (s.maxAndCount signal).1

/-- The counter of a signal. -/
def count (signal : String) (s : Queues) : Int32 := (s.maxAndCount signal).2

variable {s : Queues} {signal other : String}

theorem count_setQueuePolicy (policy : QueuePolicy) :
    (s.setQueuePolicy policy).count signal = 0 := by
  rw [count, maxAndCount]
  split_ifs <;> rfl

theorem bound_countUp : (s.countUp signal).bound other = s.bound other := by
  simp only [bound, maxAndCount, countUp]
  split_ifs <;> rfl

theorem bound_countDown : (s.countDown signal).bound other = s.bound other := by
  simp only [bound, maxAndCount, countDown]
  split_ifs <;> rfl

theorem count_countUp (h : signal ∈ Signals.valid) :
    (s.countUp signal).count other =
      if signal = other then s.count signal + 1 else s.count other := by
  simp only [Signals.valid, List.mem_cons, List.not_mem_nil, or_false] at h
  obtain rfl | rfl | rfl := h <;> simp only [count, maxAndCount, countUp] <;> split_ifs <;> grind

theorem count_countDown (h : signal ∈ Signals.valid) :
    (s.countDown signal).count other =
      if signal = other ∧ 0 < s.count signal then s.count signal - 1 else s.count other := by
  simp only [Signals.valid, List.mem_cons, List.not_mem_nil, or_false] at h
  obtain rfl | rfl | rfl := h <;> simp only [count, maxAndCount, countDown] <;> split_ifs <;> grind

theorem tryAcquire_eq (signal : String) (s : Queues) :
    s.tryAcquire signal =
      if s.bound signal < 0 then (s, none)
      else if s.bound signal = 0 ∨ s.count signal < s.bound signal then
        (s.countUp signal, some ⟨signal, false⟩)
      else (s, none) := rfl

/-- The outcomes of `TryAcquire`: refused, or a ticket of a signal that has a queue. -/
theorem tryAcquire_cases (signal : String) (s : Queues) :
    s.tryAcquire signal = (s, none) ∨
    (s.tryAcquire signal = (s.countUp signal, some ⟨signal, false⟩) ∧ signal ∈ Signals.valid ∧
      (s.bound signal = 0 ∨ s.count signal < s.bound signal)) := by
  have hvalid : ¬ s.bound signal < 0 → signal ∈ Signals.valid := by
    intro h
    by_contra hmem
    simp only [Signals.valid, List.mem_cons, List.not_mem_nil, or_false, not_or] at hmem
    rw [bound, maxAndCount, if_neg hmem.1, if_neg hmem.2.1, if_neg hmem.2.2] at h
    exact h (by decide)
  rw [tryAcquire_eq]
  split_ifs with hneg hroom
  · exact .inl rfl
  · exact .inr ⟨rfl, hvalid hneg, hroom⟩
  · exact .inl rfl

end Queues

/-! ## Runs -/

/-- A ticket that was handed out, and how many policies were set before. -/
structure Issued where
  ticket : QueueTicket
  epoch : ℕ
  deriving DecidableEq, Repr

/-- The queues, and the tickets that were handed out, the oldest first. -/
structure Runtime where
  queues : Queues := {}
  epoch : ℕ := 0
  issued : List Issued := []
  deriving DecidableEq, Repr

/-- What callers may do. -/
inductive Op
  | setPolicy (policy : QueuePolicy)
  | acquire (signal : String)
  /-- Release the `k`-th ticket handed out. -/
  | release (k : ℕ)
  | releaseNull
  deriving DecidableEq, Repr

/-- The ticket was acquired since the last `SetQueuePolicy` and not yet released. -/
def Issued.holds (epoch : ℕ) (signal : String) (x : Issued) : Bool :=
  !x.ticket.released && decide (x.epoch = epoch) && decide (x.ticket.signal = signal)

namespace Runtime

/-- `SetQueuePolicy`. -/
def setPolicy (policy : QueuePolicy) (s : Runtime) : Runtime :=
  { s with queues := s.queues.setQueuePolicy policy, epoch := s.epoch + 1 }

/-- `TryAcquire`; a ticket that is handed out is remembered. -/
def acquire (signal : String) (s : Runtime) : Runtime :=
  { s with
    queues := (s.queues.tryAcquire signal).1
    issued := s.issued ++
      (s.queues.tryAcquire signal).2.toList.map fun ticket => ⟨ticket, s.epoch⟩ }

/-- `Release` of the `k`-th ticket. -/
def release (k : ℕ) (x : Issued) (s : Runtime) : Runtime :=
  { s with
    queues := (s.queues.release (some x.ticket)).1
    issued := s.issued.set k
      { x with ticket := (s.queues.release (some x.ticket)).2.getD x.ticket } }

/-- How many tickets of a signal were acquired since the last `SetQueuePolicy` and not yet
released. -/
def held (s : Runtime) (signal : String) : ℕ := s.issued.countP (Issued.holds s.epoch signal)

/-- **The law of the slots**: a counter is the number of tickets that hold a slot of its signal,
and under a bound there are never more of them. -/
def Exact (s : Runtime) : Prop :=
  ∀ signal ∈ Signals.valid, (s.queues.count signal).toInt = s.held signal ∧
    (0 < s.queues.bound signal → (s.held signal : ℤ) ≤ (s.queues.bound signal).toInt)

end Runtime

/-- The runs. Only a ticket that was handed out can be released. -/
def machine : Machine Runtime Op where
  init := {}
  step s
    | .setPolicy policy => some (s.setPolicy policy)
    | .acquire signal => some (s.acquire signal)
    | .release k => (s.issued[k]?).map fun x => s.release k x
    | .releaseNull => some { s with queues := (s.queues.release none).1 }

/-- A ticket that is released for the first time after a later `SetQueuePolicy` finds its counter
at zero; a ticket without a bound is not handed out where the counter is at the end of `int`. -/
def FreesNobodysSlot (s : Runtime) : Op → Prop
  | .acquire signal => signal ∈ Signals.valid → s.queues.bound signal = 0 →
      s.queues.count signal ≠ Int32.maxValue
  | .release k => ∀ x ∈ s.issued[k]?, x.ticket.released = false → x.epoch ≠ s.epoch →
      s.queues.count x.ticket.signal = 0
  | _ => True

instance : ∀ s op, Decidable (FreesNobodysSlot s op)
  | s, .acquire signal =>
      inferInstanceAs (Decidable (signal ∈ Signals.valid → s.queues.bound signal = 0 →
        s.queues.count signal ≠ Int32.maxValue))
  | s, .release k =>
      inferInstanceAs (Decidable (∀ x ∈ s.issued[k]?, x.ticket.released = false →
        x.epoch ≠ s.epoch → s.queues.count x.ticket.signal = 0))
  | _, .setPolicy _ => inferInstanceAs (Decidable True)
  | _, .releaseNull => inferInstanceAs (Decidable True)

/-! ## The tickets as slips of terms -/

/-- What a ticket is a slip of. -/
def Issued.slip (x : Issued) : TermSlip String := ⟨x.ticket.signal, x.epoch, x.ticket.released⟩

/-- The tickets, in terms that begin with each policy. -/
def Runtime.terms (s : Runtime) : Terms String := ⟨s.epoch, s.issued.map Issued.slip⟩

/-- What holds in every state of a run in which no step frees another one's slot. -/
structure Sound (s : Runtime) : Prop where
  exact : s.Exact
  dated : s.terms.Dated
  known : ∀ x ∈ s.issued, x.ticket.signal ∈ Signals.valid

variable {s s' : Runtime} {k : ℕ} {x : Issued} {signal : String}

theorem Runtime.held_eq (s : Runtime) (signal : String) : s.held signal = s.terms.out signal := by
  rw [Terms.out, Runtime.terms, List.countP_map]
  rfl

/-- A counter counts on, except at the end of `int`. -/
theorem toInt_add_one_iff (c : Int32) : (c + 1).toInt = c.toInt + 1 ↔ c ≠ Int32.maxValue := by
  have hlt := c.toInt_lt
  have hle := c.le_toInt
  have hone : (1 : Int32).toInt = 1 := rfl
  have hmax : Int32.maxValue.toInt = 2 ^ 31 - 1 := rfl
  rw [Int32.toInt_add, hone, ← Int32.toInt_inj.ne, hmax]
  constructor
  · intro h hend
    rw [hend] at h
    exact absurd h (by decide)
  · intro h
    exact Int.bmod_eq_of_le (by omega) (by omega)

theorem toInt_sub_one {c : Int32} (h : 0 < c) : (c - 1).toInt = c.toInt - 1 := by
  have hlt := c.toInt_lt
  have hpos : 0 < c.toInt := Int32.lt_iff_toInt_lt.mp h
  rw [Int32.toInt_sub]
  exact Int.bmod_eq_of_le (by simp; omega) (by simp; omega)

/-! ### Policies -/

theorem Sound.setPolicy (h : Sound s) (policy : QueuePolicy) : Sound (s.setPolicy policy) where
  exact := by
    intro signal _
    have hnone : (s.setPolicy policy).held signal = 0 := by
      rw [Runtime.held_eq]
      exact Terms.out_renew h.dated signal
    rw [hnone]
    refine ⟨?_, fun hpos => (Int32.lt_iff_toInt_lt.mp hpos).le⟩
    rw [Runtime.setPolicy, Queues.count_setQueuePolicy]
    rfl
  dated := Terms.dated_renew h.dated
  known := h.known

/-! ### Acquiring -/

/-- Where a ticket is handed out. -/
theorem Runtime.acquire_of_some
    (h : s.queues.tryAcquire signal = (s.queues.countUp signal, some ⟨signal, false⟩)) :
    s.acquire signal = { s with
      queues := s.queues.countUp signal
      issued := s.issued ++ [⟨⟨signal, false⟩, s.epoch⟩] } := by
  rw [Runtime.acquire, h]
  rfl

theorem Runtime.acquire_of_none (h : s.queues.tryAcquire signal = (s.queues, none)) :
    s.acquire signal = s := by
  rw [Runtime.acquire, h]
  simp

/-- **One acquisition** keeps the law exactly if it does not run over the end of `int`. -/
theorem exact_acquire_iff (h : Sound s) (signal : String) :
    (s.acquire signal).Exact ↔ FreesNobodysSlot s (.acquire signal) := by
  obtain hnone | ⟨hsome, hvalid, hroom⟩ := Queues.tryAcquire_cases signal s.queues
  · rw [Runtime.acquire_of_none hnone]
    refine iff_of_true h.exact fun _ hbound => ?_
    rw [Queues.tryAcquire_eq, hbound] at hnone
    simp at hnone
  · have hheld : ∀ other, Runtime.held (s.acquire signal) other =
        s.held other + if signal = other then 1 else 0 := by
      intro other
      rw [Runtime.acquire_of_some hsome, Runtime.held_eq, Runtime.held_eq, ← Terms.out_issue]
      simp [Runtime.terms, Terms.issue, Issued.slip]
    have hcount : ∀ other, (s.acquire signal).queues.count other =
        if signal = other then s.queues.count signal + 1 else s.queues.count other := by
      intro other
      rw [Runtime.acquire_of_some hsome]
      exact Queues.count_countUp hvalid
    have hbound : ∀ other, (s.acquire signal).queues.bound other = s.queues.bound other := by
      intro other
      rw [Runtime.acquire_of_some hsome]
      exact Queues.bound_countUp
    have hsignal := h.exact signal hvalid
    constructor
    · intro hexact _ _
      have hafter := (hexact signal hvalid).1
      rw [hheld, hcount, if_pos rfl, if_pos rfl, Int.natCast_add, ← hsignal.1] at hafter
      exact (toInt_add_one_iff _).mp hafter
    · intro hguard other hother
      rw [hheld, hcount, hbound]
      by_cases heq : signal = other
      · subst heq
        have hend : s.queues.count signal ≠ Int32.maxValue := by
          obtain hzero | hlt := hroom
          · exact hguard hvalid hzero
          · rintro hmax
            rw [hmax] at hlt
            exact absurd (Int32.lt_iff_toInt_lt.mp hlt) (by
              have := (s.queues.bound signal).toInt_le
              omega)
        rw [if_pos rfl, if_pos rfl, (toInt_add_one_iff _).mpr hend, hsignal.1, Int.natCast_add]
        refine ⟨rfl, fun hpos => ?_⟩
        obtain hzero | hlt := hroom
        · rw [hzero] at hpos
          exact absurd hpos (by decide)
        · have hroom := Int32.lt_iff_toInt_lt.mp hlt
          rw [hsignal.1] at hroom
          push_cast
          omega
      · rw [if_neg heq, if_neg heq]
        simpa using h.exact other hother

/-! ### Releasing -/

theorem Runtime.release_of_released (hx : s.issued[k]? = some x) (h : x.ticket.released = true) :
    s.release k x = s := by
  obtain ⟨hlt, rfl⟩ := List.getElem?_eq_some_iff.mp hx
  have hsame : s.issued.set k s.issued[k] = s.issued := List.set_getElem_self hlt
  rw [Runtime.release, Queues.release, if_pos h]
  exact congrArg (fun issued => { s with issued := issued }) hsame

theorem Runtime.release_of_not_released (h : x.ticket.released = false) :
    s.release k x = { s with
      queues := s.queues.countDown x.ticket.signal
      issued := s.issued.set k { x with ticket := { x.ticket with released := true } } } := by
  simp [Runtime.release, Queues.release, h]

theorem Runtime.terms_release (h : x.ticket.released = false) :
    (s.release k x).terms = s.terms.turnIn k x.slip := by
  rw [Runtime.release_of_not_released h]
  simp [Runtime.terms, Terms.turnIn, Issued.slip, List.map_set]

/-- **One release** keeps the law exactly if it frees no slot of a ticket of the policy in force. -/
theorem exact_release_iff (h : Sound s) (hx : s.issued[k]? = some x) :
    (s.release k x).Exact ↔ FreesNobodysSlot s (.release k) := by
  have hguard : FreesNobodysSlot s (.release k) ↔ (x.ticket.released = false →
      x.epoch ≠ s.epoch → s.queues.count x.ticket.signal = 0) := by
    simp [FreesNobodysSlot, hx]
  rw [hguard]
  cases hreleased : x.ticket.released with
  | true =>
      rw [Runtime.release_of_released hx hreleased]
      exact iff_of_true h.exact nofun
  | false =>
      have hvalid := h.known x (List.mem_of_getElem? hx)
      have hslip : s.terms.slips[k]? = some x.slip := by simp [Runtime.terms, hx]
      have hout : ∀ other, x.slip.outIn s.terms.term other =
          (decide (x.epoch = s.epoch) && decide (x.ticket.signal = other)) := by
        intro other
        simp [TermSlip.outIn, Issued.slip, Runtime.terms, hreleased]
      have hheld : ∀ other, (s.release k x).held other = s.held other -
          if x.epoch = s.epoch ∧ x.ticket.signal = other then 1 else 0 := by
        intro other
        rw [Runtime.held_eq, Runtime.held_eq, Runtime.terms_release hreleased,
          Terms.out_turnIn hslip, hout]
        simp
      have hstill : x.epoch ≠ s.epoch → ∀ other, (s.release k x).held other = s.held other := by
        intro hstale other
        rw [hheld, if_neg fun h => hstale h.1, Nat.sub_zero]
      have hcount : ∀ other, (s.release k x).queues.count other =
          if x.ticket.signal = other ∧ 0 < s.queues.count x.ticket.signal then
            s.queues.count x.ticket.signal - 1
          else s.queues.count other := by
        intro other
        rw [Runtime.release_of_not_released hreleased]
        exact Queues.count_countDown hvalid
      have hbound : ∀ other, (s.release k x).queues.bound other = s.queues.bound other := by
        intro other
        rw [Runtime.release_of_not_released hreleased]
        exact Queues.bound_countDown
      have hsignal := h.exact _ hvalid
      constructor
      · intro hexact _ hstale
        have hafter := (hexact _ hvalid).1
        rw [hstill hstale, hcount, ← hsignal.1] at hafter
        split_ifs at hafter with hpos
        · rw [toInt_sub_one hpos.2] at hafter
          omega
        · have hzero : ¬ 0 < s.queues.count x.ticket.signal := fun h => hpos ⟨rfl, h⟩
          rw [Int32.lt_iff_toInt_lt] at hzero
          rw [← Int32.toInt_inj]
          have hnonneg := hsignal.1
          simp only [Int32.toInt_zero] at hzero ⊢
          omega
      · intro hguard other hother
        rw [hcount, hbound]
        have hlaw := h.exact other hother
        by_cases heq : x.ticket.signal = other
        · subst heq
          by_cases hepoch : x.epoch = s.epoch
          · have hpos : 0 < s.held x.ticket.signal := by
              rw [Runtime.held_eq]
              exact Terms.out_pos hslip (by simp [hout, hepoch])
            have hcountPos : 0 < s.queues.count x.ticket.signal := by
              rw [Int32.lt_iff_toInt_lt, hlaw.1]
              simpa using hpos
            rw [hheld, if_pos ⟨rfl, hcountPos⟩, if_pos ⟨hepoch, rfl⟩, toInt_sub_one hcountPos,
              hlaw.1]
            refine ⟨by omega, fun hb => ?_⟩
            have hle := hlaw.2 hb
            omega
          · have hzero := hguard rfl hepoch
            have hnot : ¬ 0 < s.queues.count x.ticket.signal := by
              rw [hzero]
              decide
            rw [hstill hepoch, if_neg fun h => hnot h.2]
            exact hlaw
        · rw [hheld, if_neg fun h => heq h.1, if_neg (fun h => heq h.2 : ¬ (x.epoch = s.epoch ∧ _)),
            Nat.sub_zero]
          exact hlaw

/-! ### Runs -/

theorem Sound.step {op : Op} (h : Sound s) (hg : FreesNobodysSlot s op)
    (hstep : machine.step s op = some s') : Sound s' := by
  cases op with
  | setPolicy policy =>
      cases hstep
      exact h.setPolicy policy
  | acquire signal =>
      cases hstep
      refine ⟨(exact_acquire_iff h signal).mpr hg, ?_, ?_⟩
      · obtain hnone | ⟨hsome, -, -⟩ := Queues.tryAcquire_cases signal s.queues
        · rw [Runtime.acquire_of_none hnone]
          exact h.dated
        · have hterms : (s.acquire signal).terms = s.terms.issue signal := by
            rw [Runtime.acquire_of_some hsome]
            simp [Runtime.terms, Terms.issue, Issued.slip]
          rw [hterms]
          exact Terms.dated_issue h.dated signal
      · obtain hnone | ⟨hsome, hvalid, -⟩ := Queues.tryAcquire_cases signal s.queues
        · rw [Runtime.acquire_of_none hnone]
          exact h.known
        · rw [Runtime.acquire_of_some hsome]
          intro x hx
          simp only [List.mem_append, List.mem_singleton] at hx
          obtain hx | rfl := hx
          · exact h.known x hx
          · exact hvalid
  | release k =>
      obtain ⟨x, hx, rfl⟩ := Option.map_eq_some_iff.mp hstep
      refine ⟨(exact_release_iff h hx).mpr hg, ?_, ?_⟩
      · cases hreleased : x.ticket.released with
        | true =>
            rw [Runtime.release_of_released hx hreleased]
            exact h.dated
        | false =>
            rw [Runtime.terms_release hreleased]
            exact Terms.dated_turnIn h.dated (by simp [Runtime.terms, hx])
      · cases hreleased : x.ticket.released with
        | true =>
            rw [Runtime.release_of_released hx hreleased]
            exact h.known
        | false =>
            rw [Runtime.release_of_not_released hreleased]
            intro y hy
            obtain hy | rfl := List.mem_or_eq_of_mem_set hy
            · exact h.known y hy
            · exact h.known x (List.mem_of_getElem? hx)
  | releaseNull =>
      cases hstep
      exact h

theorem sound_init : Sound machine.init where
  exact := by
    intro signal _
    exact ⟨by simp [machine, Queues.count, Queues.maxAndCount, Runtime.held]; split_ifs <;> rfl,
      fun hpos => (Int32.lt_iff_toInt_lt.mp hpos).le⟩
  dated := by
    intro x hx
    simp [machine, Runtime.terms] at hx
  known := by simp [machine]

/-- **A run is exact throughout** iff no step of it frees a slot of a ticket that holds it. -/
theorem exact_iff_freesNobodysSlot {ops : List Op} (h : machine.run ops = some s) :
    machine.Guarded FreesNobodysSlot machine.init ops ↔
      ∀ ks t, ks <+: ops → machine.run ks = some t → t.Exact := by
  refine Machine.guarded_iff sound_init (fun s hs => hs.exact) ?_ ?_ h
  · intro s op s' hs hg hstep
    exact hs.step hg hstep
  · intro s op s' hs hstep hexact
    cases op with
    | acquire signal =>
        cases hstep
        exact (exact_acquire_iff hs signal).mp hexact
    | release k =>
        obtain ⟨x, hx, rfl⟩ := Option.map_eq_some_iff.mp hstep
        exact (exact_release_iff hs hx).mp hexact
    | _ => trivial

/-- A policy is set while a ticket is out, and the ticket is released before another is acquired. -/
theorem exact_of_early_release :
    (∃ s, machine.run [.setPolicy ⟨1, 0, 0⟩, .acquire "logs", .setPolicy ⟨2, 0, 0⟩, .release 0,
      .acquire "logs", .release 0, .release 1] = some s) ∧
    ∀ ks t, ks <+: [.setPolicy ⟨1, 0, 0⟩, .acquire "logs", .setPolicy ⟨2, 0, 0⟩, .release 0,
      .acquire "logs", .release 0, .release 1] → machine.run ks = some t → t.Exact :=
  ⟨⟨_, rfl⟩, (exact_iff_freesNobodysSlot rfl).mp (by decide)⟩

/-- A ticket of the earlier policy is released after one of the new policy was acquired: the slot
of that one is free although it is held, and two tickets come out of a queue of one. -/
theorem not_exact_of_stale_release :
    ¬ ∀ ops s, machine.run ops = some s → s.Exact := by
  intro h
  have hexact := h [.setPolicy ⟨1, 0, 0⟩, .acquire "logs", .setPolicy ⟨1, 0, 0⟩, .acquire "logs",
    .release 0, .acquire "logs"] _ rfl
  have hlogs := hexact "logs" (by decide)
  exact absurd (hlogs.2 (by decide)) (by decide)

end Telemetry.Backpressure.CSharp
