import Telemetry.Backpressure.TypeScript
import Telemetry.Lib.Run
import Mathlib.Data.List.Count
import Mathlib.Data.List.Nodup

/-!
# Spans of `withTrace` over a whole run

`withTrace` takes a ticket of the trace queue before it starts a span and gives it back in a
`finally`. Calls are nested on the stack of the one thread, and a callback may return a promise that
settles later. The span ends when the promise settles, but the `finally` runs when the callback
returns: the ticket of such a call is back before its span has ended.

## Main definitions

* `System`, `Label`, `machine` — the calls on the stack and the promises that are pending.
* `Sound` — the spans in flight are bounded, and each holds its ticket.
* `ReturnsNoPromise` — the callback of an admitted call returns no promise.

## Main results

* `sound_of_reachable` — **the queue bounds the spans** while no admitted callback returns a
  promise.
* `not_sound_of_promise` — and after one has, it does not.
-/

namespace Telemetry.Backpressure.TypeScript

open Telemetry.Lib

/-- What the checks of `withTrace` before the queue answer. -/
structure Gates where
  tracingEnabled : Bool := true
  shouldAllow : Bool := true
  liveTracerProvider : Bool := false
  shouldSample : Bool := true
  deriving DecidableEq, Repr

/-- They let the call through. -/
def Gates.pass (g : Gates) : Bool :=
  g.tracingEnabled && g.shouldAllow && (g.liveTracerProvider || g.shouldSample)

/-- A call of `withTrace` on the stack. -/
inductive Frame
  /-- The callback runs without a span. -/
  | untraced
  /-- The ticket is taken, and no span has started. -/
  | acquired (token : ℕ)
  /-- The callback runs within the span. -/
  | running (token : ℕ)
  /-- `_spanHandler` has returned or thrown, and the `finally` has not run. -/
  | leaving (token : ℕ)
  deriving DecidableEq, Repr

/-- The ticket of the call. -/
def Frame.ticket : Frame → Option ℕ
  | .untraced => none
  | .acquired token | .running token | .leaving token => some token

/-- The span within which the callback runs. -/
def Frame.span : Frame → Option ℕ
  | .running token => some token
  | _ => none

/-- How a callback ends. -/
inductive Outcome
  | value
  | throws
  | promise
  deriving DecidableEq, Repr

/-- The queues, the calls, and what became of the tickets. -/
structure System where
  queues : Queues := {}
  /-- The calls on the stack, the innermost first. -/
  stack : List Frame := []
  /-- The calls whose spans end when their promises settle. -/
  pending : List ℕ := []
  /-- The tickets of the calls that were admitted. -/
  admitted : List ℕ := []
  /-- The tickets that were released. -/
  released : List ℕ := []

namespace System

/-- The calls on the stack. -/
def inProgress (s : System) : List ℕ := s.stack.filterMap Frame.ticket

/-- The spans that have started and not ended. -/
def openSpans (s : System) : List ℕ := s.stack.filterMap Frame.span ++ s.pending

/-- The calls on the stack, and those whose spans have not ended. -/
def live (s : System) : List ℕ := s.inProgress ++ s.pending

/-- A callback runs, or the event loop. -/
def codeRuns (s : System) : Bool :=
  match s.stack with
  | [] | .untraced :: _ | .running _ :: _ => true
  | _ => false

/-- `withTrace`, up to its ticket. -/
def withTrace (s : System) (gates : Gates) : System :=
  if gates.pass then
    match s.queues.tryAcquire .traces with
    | (queues, some ticket) =>
        { s with
          queues := queues
          stack := .acquired ticket.token :: s.stack
          admitted := ticket.token :: s.admitted }
    | (queues, none) => { s with queues := queues, stack := .untraced :: s.stack }
  else { s with stack := .untraced :: s.stack }

end System

/-- What happens next. -/
inductive Label
  /-- The code that runs calls `withTrace`. -/
  | call (gates : Gates)
  /-- The span starts, and the callback. -/
  | startSpan
  /-- The tracer throws. -/
  | startThrows
  /-- The callback on top of the stack ends, and with it the span unless there is a promise. -/
  | finish (outcome : Outcome)
  /-- The `finally` runs. -/
  | release
  /-- A promise settles, and its span ends. -/
  | settle (token : ℕ)
  /-- A ticket of another queue is taken. -/
  | acquireOther (signal : Signal)
  deriving DecidableEq, Repr

/-- The runs under a policy. Promises settle when the stack is empty. -/
def machine (policy : QueuePolicy) : Machine System Label where
  init := { queues := { policy } }
  step s
    | .call gates => if s.codeRuns then some (s.withTrace gates) else none
    | .startSpan =>
        match s.stack with
        | .acquired token :: stack => some { s with stack := .running token :: stack }
        | _ => none
    | .startThrows =>
        match s.stack with
        | .acquired token :: stack => some { s with stack := .leaving token :: stack }
        | _ => none
    | .finish outcome =>
        match s.stack with
        | .running token :: stack =>
            some { s with
              stack := .leaving token :: stack
              pending := if outcome = .promise then token :: s.pending else s.pending }
        | .untraced :: stack => some { s with stack := stack }
        | _ => none
    | .release =>
        match s.stack with
        | .leaving token :: stack =>
            some { s with
              queues := s.queues.release ⟨.traces, token⟩
              stack := stack
              released := token :: s.released }
        | _ => none
    | .settle token =>
        if s.stack = [] ∧ token ∈ s.pending then
          some { s with pending := s.pending.erase token }
        else none
    | .acquireOther signal =>
        if signal = .traces then none
        else some { s with queues := (s.queues.tryAcquire signal).1 }

/-- The spans in flight are bounded, an admitted call holds its ticket until its span has ended, and
its ticket is released exactly once. -/
structure Sound (maxTraces : ℤ) (s : System) : Prop where
  bounded : s.openSpans.length ≤ maxTraces
  held : ∀ token ∈ s.live, token ∈ s.queues.acquired .traces
  once : ∀ token ∈ s.admitted,
    s.released.count token = if token ∈ s.live then 0 else 1

/-- The callback of an admitted call returns no promise. -/
def ReturnsNoPromise (s : System) (label : Label) : Prop :=
  label = .finish .promise → ∀ frame ∈ s.stack.head?, frame.span = none

/-! ## What a step can do -/

variable {policy : QueuePolicy} {s s' : System} {label : Label}

/-- The tickets are where they were. -/
structure Alike (s s' : System) : Prop where
  policy : s'.queues.policy = s.queues.policy
  counter : s.queues.tokenCounter ≤ s'.queues.tokenCounter
  acquired : s'.queues.acquired .traces = s.queues.acquired .traces
  inProgress : s'.inProgress = s.inProgress
  admitted : s'.admitted = s.admitted
  released : s'.released = s.released

/-- A call is admitted. -/
structure Admits (s s' : System) : Prop where
  room : (s.queues.acquired .traces).card < s.queues.policy.maxTraces
  policy : s'.queues.policy = s.queues.policy
  counter : s'.queues.tokenCounter = s.queues.tokenCounter + 1
  acquired : s'.queues.acquired .traces =
    insert s.queues.tokenCounter (s.queues.acquired .traces)
  inProgress : s'.inProgress = s.queues.tokenCounter :: s.inProgress
  pending : s'.pending = s.pending
  admitted : s'.admitted = s.queues.tokenCounter :: s.admitted
  released : s'.released = s.released

/-- A ticket is released. -/
structure Releases (s s' : System) (token : ℕ) : Prop where
  queues : s'.queues = s.queues.release ⟨.traces, token⟩
  inProgress : s.inProgress = token :: s'.inProgress
  pending : s'.pending = s.pending
  admitted : s'.admitted = s.admitted
  released : s'.released = token :: s.released

theorem withTrace_cases (hpos : 0 < s.queues.policy.maxTraces) (gates : Gates) :
    (Alike s (s.withTrace gates) ∧ (s.withTrace gates).pending = s.pending) ∨
      Admits s (s.withTrace gates) := by
  rw [System.withTrace]
  split
  next =>
    have hbound : 0 < s.queues.maxFor .traces := hpos
    rcases Queues.tryAcquire_of_pos hbound with ⟨dropped, htry⟩ | ⟨hroom, htry⟩
    · left
      rw [htry]
      exact ⟨⟨rfl, le_refl _, rfl, rfl, rfl, rfl⟩, rfl⟩
    · right
      have hacquired : Function.update s.queues.acquired .traces
          (insert s.queues.tokenCounter (s.queues.acquired .traces)) .traces =
            insert s.queues.tokenCounter (s.queues.acquired .traces) := Function.update_self ..
      rw [htry]
      exact ⟨hroom, rfl, rfl, hacquired, rfl, rfl, rfl, rfl⟩
  next => exact .inl ⟨⟨rfl, le_refl _, rfl, rfl, rfl, rfl⟩, rfl⟩

/-- The calls on the stack, when the one on top moves on. -/
theorem alike_of_stack {frame frame' : Frame} {stack : List Frame} {pending : List ℕ}
    (hs : s.stack = frame :: stack) (h : frame'.ticket = frame.ticket) :
    Alike s { s with stack := frame' :: stack, pending } := by
  refine ⟨rfl, le_refl _, rfl, ?_, rfl, rfl⟩
  rw [System.inProgress, System.inProgress, hs, List.filterMap_cons, List.filterMap_cons, h]

/-- What a step does to the tickets. -/
theorem step_cases (hpos : 0 < s.queues.policy.maxTraces)
    (h : (machine policy).step s label = some s') :
    (Alike s s' ∧ s'.pending = s.pending) ∨
      (label = .finish .promise ∧ ∃ token stack, s.stack = .running token :: stack ∧ Alike s s' ∧
        s'.pending = token :: s.pending) ∨
      (∃ token, Alike s s' ∧ s'.pending = s.pending.erase token) ∨
      Admits s s' ∨
      ∃ token, Releases s s' token := by
  cases label with
  | call gates =>
      simp only [machine, Option.ite_none_right_eq_some, Option.some.injEq] at h
      rcases h with ⟨-, rfl⟩
      rcases withTrace_cases hpos gates with halike | hadmits
      · exact .inl halike
      · exact .inr (.inr (.inr (.inl hadmits)))
  | startSpan =>
      simp only [machine] at h
      split at h
      next token stack hs =>
        cases h
        exact .inl ⟨alike_of_stack hs rfl, rfl⟩
      next => cases h
  | startThrows =>
      simp only [machine] at h
      split at h
      next token stack hs =>
        cases h
        exact .inl ⟨alike_of_stack hs rfl, rfl⟩
      next => cases h
  | finish outcome =>
      simp only [machine] at h
      split at h
      next token stack hs =>
        cases h
        by_cases hpromise : outcome = .promise
        · subst hpromise
          exact .inr (.inl ⟨rfl, token, stack, hs, alike_of_stack hs rfl, rfl⟩)
        · exact .inl ⟨alike_of_stack hs rfl, if_neg hpromise⟩
      next stack hs =>
        cases h
        refine .inl ⟨⟨rfl, le_refl _, rfl, ?_, rfl, rfl⟩, rfl⟩
        rw [System.inProgress, System.inProgress, hs]
        rfl
      next => cases h
  | release =>
      simp only [machine] at h
      split at h
      next token stack hs =>
        cases h
        refine .inr (.inr (.inr (.inr ⟨token, rfl, ?_, rfl, rfl, rfl⟩)))
        rw [System.inProgress, hs]
        rfl
      next => cases h
  | settle token =>
      simp only [machine, Option.ite_none_right_eq_some, Option.some.injEq] at h
      rcases h with ⟨-, rfl⟩
      exact .inr (.inr (.inl ⟨token, ⟨rfl, le_refl _, rfl, rfl, rfl, rfl⟩, rfl⟩))
  | acquireOther signal =>
      simp only [machine, Option.ite_none_left_eq_some, Option.some.injEq] at h
      rcases h with ⟨hne, rfl⟩
      rcases Queues.tryAcquire_of_ne (q := s.queues) (Ne.symm hne) with
        ⟨hpolicy, hacquired, hcounter⟩
      exact .inl ⟨⟨hpolicy, hcounter, hacquired, rfl, rfl, rfl⟩, rfl⟩

/-! ## Runs without promises -/

/-- The tickets of the calls on the stack are those that are taken, and none of these calls has
released its own. -/
structure Counted (maxTraces : ℤ) (s : System) : Prop where
  policy : s.queues.policy.maxTraces = maxTraces
  counter : 0 < s.queues.tokenCounter
  acquired : s.queues.acquired .traces = s.inProgress.toFinset
  nodup : s.inProgress.Nodup
  fits : s.inProgress.length ≤ maxTraces
  issued : ∀ token ∈ s.admitted, 0 < token ∧ token < s.queues.tokenCounter
  admitted : ∀ token ∈ s.inProgress, token ∈ s.admitted
  released : ∀ token ∈ s.released, token ∈ s.admitted
  once : ∀ token ∈ s.admitted, s.released.count token = if token ∈ s.inProgress then 0 else 1

theorem counted_of_alike {maxTraces : ℤ} (hs : Counted maxTraces s) (h : Alike s s') :
    Counted maxTraces s' where
  policy := by rw [h.policy, hs.policy]
  counter := lt_of_lt_of_le hs.counter h.counter
  acquired := by rw [h.acquired, h.inProgress, hs.acquired]
  nodup := by
    rw [h.inProgress]
    exact hs.nodup
  fits := by
    rw [h.inProgress]
    exact hs.fits
  issued token htoken := by
    rw [h.admitted] at htoken
    rcases hs.issued token htoken with ⟨hpos, hlt⟩
    exact ⟨hpos, lt_of_lt_of_le hlt h.counter⟩
  admitted token htoken := by
    rw [h.inProgress] at htoken
    rw [h.admitted]
    exact hs.admitted token htoken
  released token htoken := by
    rw [h.released] at htoken
    rw [h.admitted]
    exact hs.released token htoken
  once token htoken := by
    rw [h.admitted] at htoken
    rw [h.released, h.inProgress]
    exact hs.once token htoken

/-- The ticket of a call that is admitted is new. -/
theorem counted_of_admits {maxTraces : ℤ} (hs : Counted maxTraces s) (h : Admits s s') :
    Counted maxTraces s' := by
  have hnew : s.queues.tokenCounter ∉ s.admitted := fun hmem =>
    absurd (hs.issued _ hmem).2 (lt_irrefl _)
  have hidle : s.queues.tokenCounter ∉ s.inProgress := fun hmem => hnew (hs.admitted _ hmem)
  have hcard : (s.queues.acquired .traces).card = s.inProgress.length := by
    rw [hs.acquired, List.toFinset_card_of_nodup hs.nodup]
  have hroom := h.room
  rw [hcard, hs.policy] at hroom
  constructor
  case policy => rw [h.policy, hs.policy]
  case counter =>
    rw [h.counter]
    exact Nat.succ_pos _
  case acquired => rw [h.acquired, h.inProgress, List.toFinset_cons, hs.acquired]
  case nodup =>
    rw [h.inProgress, List.nodup_cons]
    exact ⟨hidle, hs.nodup⟩
  case fits =>
    rw [h.inProgress, List.length_cons]
    omega
  case issued =>
    intro token htoken
    rw [h.admitted] at htoken
    rw [h.counter]
    rcases List.mem_cons.mp htoken with rfl | hold
    · exact ⟨hs.counter, Nat.lt_succ_self _⟩
    · rcases hs.issued token hold with ⟨hpos, hlt⟩
      exact ⟨hpos, by omega⟩
  case admitted =>
    intro token htoken
    rw [h.inProgress] at htoken
    rw [h.admitted]
    rcases List.mem_cons.mp htoken with rfl | hold
    · exact List.mem_cons_self
    · exact List.mem_cons_of_mem _ (hs.admitted token hold)
  case released =>
    intro token htoken
    rw [h.released] at htoken
    rw [h.admitted]
    exact List.mem_cons_of_mem _ (hs.released token htoken)
  case once =>
    intro token htoken
    rw [h.admitted] at htoken
    rw [h.released, h.inProgress]
    rcases List.mem_cons.mp htoken with rfl | hold
    · have hunreleased : s.queues.tokenCounter ∉ s.released := fun hmem =>
        hnew (hs.released _ hmem)
      rw [if_pos List.mem_cons_self, List.count_eq_zero.mpr hunreleased]
    · have hne : token ≠ s.queues.tokenCounter := fun heq => hnew (heq ▸ hold)
      rw [hs.once token hold]
      simp only [List.mem_cons, hne, false_or]

/-- The call that releases its ticket leaves the stack. -/
theorem counted_of_releases {maxTraces : ℤ} (hs : Counted maxTraces s) {token : ℕ}
    (h : Releases s s' token) : Counted maxTraces s' := by
  have hnodup := hs.nodup
  rw [h.inProgress, List.nodup_cons] at hnodup
  have htop : token ∈ s.inProgress := by
    rw [h.inProgress]
    exact List.mem_cons_self
  have hpos : token ≠ 0 := (hs.issued token (hs.admitted token htop)).1.ne'
  have hqueues : s'.queues =
      { s.queues with acquired :=
        Function.update s.queues.acquired .traces ((s.queues.acquired .traces).erase token) } := by
    rw [h.queues, Queues.release, if_neg hpos]
  constructor
  case policy =>
    rw [hqueues]
    exact hs.policy
  case counter =>
    rw [hqueues]
    exact hs.counter
  case acquired =>
    rw [hqueues]
    simp only [Function.update_self]
    rw [hs.acquired, h.inProgress, List.toFinset_cons, Finset.erase_insert]
    exact fun hmem => hnodup.1 (List.mem_toFinset.mp hmem)
  case nodup => exact hnodup.2
  case fits =>
    have hfits := hs.fits
    rw [h.inProgress, List.length_cons] at hfits
    omega
  case issued =>
    intro t ht
    rw [h.admitted] at ht
    rw [hqueues]
    exact hs.issued t ht
  case admitted =>
    intro t ht
    rw [h.admitted]
    apply hs.admitted
    rw [h.inProgress]
    exact List.mem_cons_of_mem _ ht
  case released =>
    intro t ht
    rw [h.released] at ht
    rw [h.admitted]
    rcases List.mem_cons.mp ht with rfl | hold
    · exact hs.admitted t htop
    · exact hs.released t hold
  case once =>
    intro t ht
    rw [h.admitted] at ht
    have honce := hs.once t ht
    rw [h.inProgress] at honce
    rw [h.released]
    by_cases hsame : t = token
    · subst hsame
      rw [if_pos List.mem_cons_self] at honce
      rw [List.count_cons_self, honce, if_neg hnodup.1]
    · rw [List.count_cons_of_ne (Ne.symm hsame), honce]
      simp only [List.mem_cons, hsame, false_or]

theorem counted_init (hpos : 0 < policy.maxTraces) :
    Counted policy.maxTraces (machine policy).init where
  policy := rfl
  counter := Nat.one_pos
  acquired := rfl
  nodup := List.nodup_nil
  fits := hpos.le
  issued _ h := nomatch h
  admitted _ h := nomatch h
  released _ h := nomatch h
  once _ h := nomatch h

/-- The spans that have started are those of calls on the stack. -/
theorem length_filterMap_span_le (stack : List Frame) :
    (stack.filterMap Frame.span).length ≤ (stack.filterMap Frame.ticket).length := by
  induction stack with
  | nil => exact le_refl _
  | cons frame stack ih =>
      cases frame with
      | untraced => exact ih
      | acquired token => exact Nat.le_succ_of_le ih
      | running token => exact Nat.succ_le_succ ih
      | leaving token => exact Nat.le_succ_of_le ih

theorem sound_of_counted {maxTraces : ℤ} (hs : Counted maxTraces s) (hpending : s.pending = []) :
    Sound maxTraces s := by
  have hlive : s.live = s.inProgress := by rw [System.live, hpending, List.append_nil]
  constructor
  case bounded =>
    have hspans := length_filterMap_span_le s.stack
    have hfits := hs.fits
    rw [System.inProgress] at hfits
    rw [System.openSpans, hpending, List.append_nil]
    omega
  case held =>
    intro token htoken
    rw [hlive] at htoken
    rw [hs.acquired]
    exact List.mem_toFinset.mpr htoken
  case once =>
    rw [hlive]
    exact hs.once

/-- The tickets that are taken from a bounded queue have tokens. -/
theorem pos_of_reachable {G : System → Label → Prop} (hpos : 0 < policy.maxTraces)
    (h : (machine policy).Reachable G s) : ∀ token ∈ s.inProgress, 0 < token := by
  have hinv : s.queues.policy.maxTraces = policy.maxTraces ∧ 0 < s.queues.tokenCounter ∧
      ∀ token ∈ s.inProgress, 0 < token := by
    refine h.invariant (P := fun s => s.queues.policy.maxTraces = policy.maxTraces ∧
      0 < s.queues.tokenCounter ∧ ∀ token ∈ s.inProgress, 0 < token)
      ⟨rfl, Nat.one_pos, fun _ h => absurd h List.not_mem_nil⟩ ?_
    rintro s label s' ⟨hpolicy, hcounter, htokens⟩ - hstep
    have hkeep : Alike s s' → s'.queues.policy.maxTraces = policy.maxTraces ∧
        0 < s'.queues.tokenCounter ∧ ∀ token ∈ s'.inProgress, 0 < token := by
      intro halike
      rw [halike.policy, halike.inProgress]
      exact ⟨hpolicy, lt_of_lt_of_le hcounter halike.counter, htokens⟩
    rcases step_cases (by rw [hpolicy]; exact hpos) hstep with ⟨halike, -⟩ |
      ⟨-, token, stack, -, halike, -⟩ | ⟨token, halike, -⟩ | hadmits | ⟨token, hreleases⟩
    · exact hkeep halike
    · exact hkeep halike
    · exact hkeep halike
    · rw [hadmits.policy, hadmits.counter, hadmits.inProgress]
      exact ⟨hpolicy, Nat.succ_pos _, List.forall_mem_cons.mpr ⟨hcounter, htokens⟩⟩
    · rw [hreleases.inProgress, List.forall_mem_cons] at htokens
      rw [hreleases.queues, Queues.release]
      split
      next => exact ⟨hpolicy, hcounter, htokens.2⟩
      next => exact ⟨hpolicy, hcounter, htokens.2⟩
  exact hinv.2.2

/-- **After a promise it is not**: when the `finally` of a call has run whose callback returned a
promise, the span is open and the ticket is back. -/
theorem not_sound_of_promise {G : System → Label → Prop} {s₁ s₂ : System}
    (hpos : 0 < policy.maxTraces) (h : (machine policy).Reachable G s) {token : ℕ}
    {stack : List Frame} (hstack : s.stack = .running token :: stack)
    (hfinish : (machine policy).step s (.finish .promise) = some s₁)
    (hrelease : (machine policy).step s₁ .release = some s₂) :
    token ∈ s₂.openSpans ∧ token ∉ s₂.queues.acquired .traces ∧ ¬ Sound policy.maxTraces s₂ := by
  have htoken : token ≠ 0 := by
    refine (pos_of_reachable hpos h token ?_).ne'
    rw [System.inProgress, hstack]
    exact List.mem_cons_self
  simp only [machine, hstack, if_pos, Option.some.injEq] at hfinish
  subst hfinish
  simp only [machine, Option.some.injEq] at hrelease
  subst hrelease
  have hopen : token ∈ stack.filterMap Frame.span ++ token :: s.pending :=
    List.mem_append_right _ List.mem_cons_self
  have hback : token ∉ (s.queues.release ⟨.traces, token⟩).acquired .traces := by
    rw [Queues.release, if_neg htoken]
    simp only [Function.update_self]
    exact Finset.notMem_erase token _
  refine ⟨hopen, hback, fun hsound => hback (hsound.held token ?_)⟩
  exact List.mem_append_right _ List.mem_cons_self

instance (s : System) (label : Label) : Decidable (ReturnsNoPromise s label) :=
  inferInstanceAs (Decidable
    (label = .finish .promise → ∀ frame ∈ s.stack.head?, frame.span = none))

/-- A call within a call, which the queue refuses and whose callback throws, and one after it. -/
def nested : List Label :=
  [.call {}, .startSpan, .call {}, .finish .throws, .finish .value, .release, .call {}, .startSpan]

/-- Two calls whose callbacks return promises. -/
def overlapping : List Label :=
  [.call {}, .startSpan, .finish .promise, .release, .call {}, .startSpan]

end Telemetry.Backpressure.TypeScript
