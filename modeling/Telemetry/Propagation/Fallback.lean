import Telemetry.Backpressure.TypeScript
import Telemetry.Lib.Promises
import Telemetry.Propagation.TypeScript

/-!
# Scoped helpers of the TypeScript SDK without `AsyncLocalStorage`

Where there is no `AsyncLocalStorage`, `withTrace` puts its ids into variables of the module while
the callback runs, and `runWithContext` its fields. Both put back what was there before:
`runWithContext` in a `finally`, `withTrace` behind the callback, or behind its promise. So the ids
stay where the callback throws.

Without an SDK every span is a no-op span, whose id has zeros only. Nothing else runs while a
promise is awaited.

## Main definitions

* `State` — the variables of the modules.
* `withTrace`, `runWithContext` — the helpers, for any callback.
* `Script` — a callback that makes calls, `Script.run` — what it does.
* `Completion.Restored` — a call has put back what it found.

## Main results

* `restored_iff` — **when every call puts back what it found**.
-/

namespace Telemetry.Propagation.TypeScript.Fallback

open Telemetry.Lib
open Telemetry.Backpressure.TypeScript (Queues)

/-- `ConsentLevel`. -/
inductive ConsentLevel
  | full
  | functional
  | minimal
  | none
  deriving DecidableEq, Repr

/-- `shouldAllow('traces')`. -/
def shouldAllow : ConsentLevel → Bool
  | .full => true
  | .none => false
  | .functional => true
  | .minimal => false

/-- What `withTrace` reads of the other modules, and the ids it draws. -/
structure TraceCall where
  /-- `getConfig().tracingEnabled` -/
  tracingEnabled : Bool
  consent : ConsentLevel
  /-- The answer of `shouldSample`. -/
  sampled : Bool
  /-- The random ids. -/
  traceId : String
  spanId : String
  deriving DecidableEq, Repr

/-- The ids that the call puts in place. -/
def TraceCall.ids (call : TraceCall) : TraceIds := ⟨some call.traceId, some call.spanId⟩

/-- A call that has completed, with the values of its variables before and after. -/
inductive Completion (V : Type)
  | withTrace (call : TraceCall) (admitted threw : Bool) (before after : TraceIds)
  | runWithContext (before after : Context V)

/-- The variables of the modules. -/
structure State (V : Type) where
  /-- `_manualTraceId` and `_manualSpanId` -/
  manual : TraceIds
  /-- `_moduleCtx` -/
  moduleCtx : Context V
  queues : Queues
  /-- The health counter of spans. -/
  tracesEmitted : ℕ
  /-- The calls that have completed. The modules know nothing of it. -/
  calls : List (Completion V)

variable {V : Type}

/-! ## Tracing -/

/-- `_spanHandler` on a no-op span. -/
def spanHandler (fn : Body (State V)) : Body (State V) :=
  fn.after fun s => { s with tracesEmitted := s.tracesEmitted + 1 }

/-- `_withSyntheticIds`. -/
def withSyntheticIds (call : TraceCall) (fn : Body (State V)) : Body (State V) := fun s =>
  let prev := s.manual
  match fn { s with manual := call.ids } with
  -- the exception leaves the function here
  | (s', .settled .error) => (s', .settled .error)
  | (s', .settled .value) => ({ s' with manual := prev }, .settled .value)
  | (s', .promise rest) =>
      (s', .promise fun t => ({ (rest t).1 with manual := prev }, (rest t).2))

/-- `tryAcquire('traces')`. -/
def tryAcquire (s : State V) : Queues × Option Backpressure.TypeScript.QueueTicket :=
  s.queues.tryAcquire .traces

/-- `withTrace`. -/
def withTrace (call : TraceCall) (fn : Body (State V)) : Body (State V) := fun s =>
  if !call.tracingEnabled then fn s
  else if !shouldAllow call.consent then fn s
  else if !call.sampled then fn s
  else
    match tryAcquire s with
    | (queues, none) => fn { s with queues }
    | (queues, some ticket) =>
        let (s', result) := withSyntheticIds call (spanHandler fn) { s with queues }
        ({ s' with queues := s'.queues.release ticket }, result)

/-- The call gets through the gates and has a ticket. -/
def admits (call : TraceCall) (s : State V) : Bool :=
  call.tracingEnabled && shouldAllow call.consent && call.sampled && (tryAcquire s).2.isSome

/-! ## The fields of the log -/

/-- `bindContext`. -/
def bindContext (values : Context V) (s : State V) : State V :=
  { s with moduleCtx := assign values s.moduleCtx }

/-- `unbindContext`. -/
def unbindContext (keys : List String) (s : State V) : State V :=
  { s with moduleCtx := remove keys s.moduleCtx }

/-- `clearContext`. -/
def clearContext (s : State V) : State V := { s with moduleCtx := [] }

/-- `runWithContext`, with its `finally`. -/
def runWithContext (values : Context V) (fn : Body (State V)) : Body (State V) :=
  fn.within (bindContext values) fun s s' => { s' with moduleCtx := s.moduleCtx }

/-! ## Callbacks -/

/-- A function that makes calls, whose callbacks are such functions. -/
inductive Script (V : Type)
  | exit (how : Exit)
  | await (next : Script V)
  | bindContext (values : Context V) (next : Script V)
  | unbindContext (keys : List String) (next : Script V)
  | clearContext (next : Script V)
  | withTrace (call : TraceCall) (async : Bool) (fn : Script V) (next : Exit → Script V)
  | runWithContext (values : Context V) (async : Bool) (fn : Script V) (next : Exit → Script V)

/-- A call is put on record. -/
def State.record (s : State V) (c : Completion V) : State V := { s with calls := s.calls ++ [c] }

/-- A call of `withTrace` is put on record when it has completed. -/
def observeTrace (call : TraceCall) (b : Body (State V)) : Body (State V) := fun s =>
  match b s with
  | (s', .settled how) =>
      (s'.record (.withTrace call (admits call s) (how = .error) s.manual s'.manual), .settled how)
  | (s', .promise rest) =>
      (s', .promise fun t =>
        ((rest t).1.record (.withTrace call (admits call s) false s.manual (rest t).1.manual),
          (rest t).2))

/-- A call of `runWithContext` is put on record when it has returned or thrown. -/
def observeContext (b : Body (State V)) : Body (State V) :=
  b.within id fun s s' => s'.record (.runWithContext s.moduleCtx s'.moduleCtx)

/-- The callback, which an `async` function makes return a promise. -/
def callback (async : Bool) (b : Body (State V)) : Body (State V) := if async then b.async else b

namespace Script

/-- What a function does. -/
def run : Script V → Body (State V)
  | .exit how => Body.exit how
  | .await next => Body.suspend next.run
  | .bindContext values next => next.run.after (Fallback.bindContext values)
  | .unbindContext keys next => next.run.after (Fallback.unbindContext keys)
  | .clearContext next => next.run.after Fallback.clearContext
  | .withTrace call async fn next =>
      Body.andThen (observeTrace call (Fallback.withTrace call (callback async fn.run)))
        fun how => (next how).run
  | .runWithContext values async fn next =>
      Body.andThen (observeContext (Fallback.runWithContext values (callback async fn.run)))
        fun how => (next how).run

/-- The calls of a function, in the order in which they complete. -/
def completions (script : Script V) (s : State V) : List (Completion V) :=
  (Body.settle (script.run { s with calls := [] })).1.calls

end Script

/-- The call has put back what it found. -/
def Completion.Restored : Completion V → Prop
  | .withTrace _ _ _ before after => after = before
  | .runWithContext before after => after = before

/-- The callback of an admitted call does not throw, or the ids that are drawn for the call are
those that were in place. -/
def Completion.Regular : Completion V → Prop
  | .withTrace call admitted threw before _ => admitted = true → threw = true → call.ids = before
  | .runWithContext _ _ => True

/-! ## What a function does to the ids -/

/-- Every call on record has put back what it found. -/
def AllRestored (calls : List (Completion V)) : Prop := ∀ c ∈ calls, c.Restored

def AllRegular (calls : List (Completion V)) : Prop := ∀ c ∈ calls, c.Regular

theorem allRestored_append {cs ds : List (Completion V)} :
    AllRestored (cs ++ ds) ↔ AllRestored cs ∧ AllRestored ds :=
  List.forall_mem_append

theorem allRegular_append {cs ds : List (Completion V)} :
    AllRegular (cs ++ ds) ↔ AllRegular cs ∧ AllRegular ds :=
  List.forall_mem_append

/-- From one state to another calls are put on record. They have all put back what they found
exactly if they are regular, and then the ids are what they were. -/
def Leads (s t : State V) : Prop :=
  ∃ calls, t.calls = s.calls ++ calls ∧ (AllRestored calls ↔ AllRegular calls) ∧
    (AllRegular calls → t.manual = s.manual)

/-- On the way out the ids stay as they are. -/
def Leaves (s t : State V) : Prop :=
  ∃ calls, t.calls = s.calls ++ calls ∧ AllRestored calls ∧ AllRegular calls ∧
    t.manual = s.manual

theorem leaves_of_eq {s t : State V} (hcalls : t.calls = s.calls) (hmanual : t.manual = s.manual) :
    Leaves s t :=
  ⟨[], by simp [hcalls], by simp [AllRestored], by simp [AllRegular], hmanual⟩

theorem frame : Body.Frame (Leaves (V := V)) Leads where
  refl s := leaves_of_eq rfl rfl
  trans := by
    intro s t u ⟨cs, hcs, hrestored, hregular, hmanual⟩ ⟨ds, hds, hrestored', hregular', hmanual'⟩
    exact ⟨cs ++ ds, by rw [hds, hcs, List.append_assoc],
      allRestored_append.mpr ⟨hrestored, hrestored'⟩,
      allRegular_append.mpr ⟨hregular, hregular'⟩, hmanual'.trans hmanual⟩
  sub := by
    intro s t ⟨cs, hcs, hrestored, hregular, hmanual⟩
    exact ⟨cs, hcs, iff_of_true hrestored hregular, fun _ => hmanual⟩
  comp := by
    intro s t u ⟨cs, hcs, hiff, hmanual⟩ ⟨ds, hds, hiff', hmanual'⟩
    refine ⟨cs ++ ds, by rw [hds, hcs, List.append_assoc], ?_, fun h => ?_⟩
    · rw [allRestored_append, allRegular_append, hiff, hiff']
    · rw [allRegular_append] at h
      rw [hmanual' h.2, hmanual h.1]

/-- A change that leaves the record and the ids alone. -/
theorem leads_of_eq {s t : State V} (hcalls : t.calls = s.calls) (hmanual : t.manual = s.manual) :
    Leads s t :=
  frame.sub (leaves_of_eq hcalls hmanual)

/-- A function keeps its frame. -/
abbrev Keeps (b : Body (State V)) : Prop := Body.Keeps Leaves Leads b

/-- One more call on record, which has put back what it found exactly if it is regular. -/
theorem leads_record {s t : State V} {c : Completion V} {calls : List (Completion V)}
    (hcalls : t.calls = s.calls ++ calls) (hiff : AllRestored calls ↔ AllRegular calls)
    (hc : AllRegular calls → (c.Restored ↔ c.Regular))
    (hmanual : AllRegular calls → c.Regular → t.manual = s.manual) : Leads s (t.record c) := by
  have hone : ∀ {P : Completion V → Prop}, (∀ d ∈ [c], P d) ↔ P c := by simp
  refine ⟨calls ++ [c], ?_, ?_, fun h => ?_⟩
  · rw [State.record, hcalls, List.append_assoc]
  · rw [allRestored_append, allRegular_append, hiff]
    refine and_congr_right fun h => ?_
    rw [AllRestored, AllRegular, hone, hone]
    exact hc h
  · rw [allRegular_append] at h
    exact hmanual h.1 (hone.mp h.2)

/-! ### Calls of `withTrace` -/

variable {call : TraceCall} {s : State V}

/-- A call that is not admitted runs its callback. -/
theorem withTrace_of_not_admits (fn : Body (State V)) (h : admits call s = false) :
    ∃ queues, withTrace call fn s = fn { s with queues } := by
  rw [admits] at h
  rw [withTrace]
  by_cases htracing : call.tracingEnabled = true
  · by_cases hconsent : shouldAllow call.consent = true
    · by_cases hsampled : call.sampled = true
      · simp only [htracing, hconsent, hsampled, Bool.true_and] at h
        simp only [htracing, hconsent, hsampled, Bool.not_true, Bool.false_eq_true, if_false]
        cases hacquire : tryAcquire s with
        | mk queues ticket =>
            rw [hacquire] at h
            cases ticket with
            | none => exact ⟨queues, rfl⟩
            | some ticket => simp at h
      · exact ⟨s.queues, by simp [htracing, hconsent, hsampled]⟩
    · exact ⟨s.queues, by simp [htracing, hconsent]⟩
  · exact ⟨s.queues, by simp [htracing]⟩

/-- A call that is admitted runs it with ids of its own, and puts back those before unless it
throws. -/
theorem withTrace_of_admits (fn : Body (State V)) (h : admits call s = true) :
    ∃ (s₀ : State V) (close : State V → State V), s₀.calls = s.calls ∧ s₀.manual = call.ids ∧
      (∀ t, (close t).calls = t.calls ∧ (close t).manual = t.manual) ∧
      withTrace call fn s =
        match fn s₀ with
        | (t, .settled .error) => (close t, .settled .error)
        | (t, .settled .value) => (close { t with manual := s.manual }, .settled .value)
        | (t, .promise rest) =>
            (close t, .promise fun u => ({ (rest u).1 with manual := s.manual }, (rest u).2)) := by
  simp only [admits, Bool.and_eq_true] at h
  obtain ⟨⟨⟨htracing, hconsent⟩, hsampled⟩, hticket⟩ := h
  cases hacquire : tryAcquire s with
  | mk queues ticket =>
      rw [hacquire] at hticket
      cases ticket with
      | none => simp at hticket
      | some ticket =>
          refine ⟨{ s with queues, manual := call.ids, tracesEmitted := s.tracesEmitted + 1 },
            fun t => { t with queues := t.queues.release ticket }, rfl, rfl,
            fun t => ⟨rfl, rfl⟩, ?_⟩
          rw [withTrace]
          simp only [htracing, hconsent, hsampled, hacquire, Bool.not_true, Bool.false_eq_true,
            if_false, withSyntheticIds, spanHandler, Body.after]
          split <;> rfl

/-- A call that is not admitted puts back what it found if its callback does. -/
theorem leads_of_not_admitted {t : State V} (threw : Bool) (h : Leads s t) :
    Leads s (t.record (.withTrace call false threw s.manual t.manual)) := by
  obtain ⟨calls, hcalls, hiff, hmanual⟩ := h
  refine leads_record hcalls hiff (fun hregular => ?_) fun hregular _ => hmanual hregular
  simp [Completion.Restored, Completion.Regular, hmanual hregular]

/-- A call whose callback has not thrown puts back what it found. -/
theorem leads_of_returned {s' t u : State V} (admitted : Bool) (hcalls : s'.calls = s.calls)
    (h : Leads s' t) (hu : u.calls = t.calls) (hmanual : u.manual = s.manual) :
    Leads s (u.record (.withTrace call admitted false s.manual u.manual)) := by
  obtain ⟨calls, hnew, hiff, -⟩ := h
  refine leads_record (by rw [hu, ← hcalls]; exact hnew) hiff (fun _ => ?_) fun _ _ => hmanual
  simp [Completion.Restored, Completion.Regular, hmanual]

/-- A call whose callback has thrown leaves its own ids. -/
theorem leads_of_thrown {s' t : State V} (hcalls : s'.calls = s.calls)
    (hids : s'.manual = call.ids) (h : Leads s' t) :
    Leads s (t.record (.withTrace call true true s.manual t.manual)) := by
  obtain ⟨calls, hnew, hiff, hmanual⟩ := h
  refine leads_record (by rw [← hcalls]; exact hnew) hiff (fun hregular => ?_) fun hregular hc => ?_
  · simp [Completion.Restored, Completion.Regular, hmanual hregular, hids]
  · rw [hmanual hregular, hids]
    exact hc rfl rfl

/-- **A call of `withTrace` keeps the frame** if its callback does. -/
theorem keeps_observeTrace {fn : Body (State V)} (call : TraceCall) (hfn : Keeps fn) :
    Keeps (observeTrace call (withTrace call fn)) where
  settled := by
    intro s s' how h
    rw [observeTrace] at h
    cases hadmits : admits call s with
    | false =>
        obtain ⟨queues, hcall⟩ := withTrace_of_not_admits fn hadmits
        rw [hcall] at h
        cases hresult : fn { s with queues } with
        | mk t outcome =>
            rw [hresult] at h
            cases outcome with
            | promise rest => cases h
            | settled how' =>
                cases h
                rw [hadmits]
                exact leads_of_not_admitted _
                  (frame.comp (t := { s with queues }) (leads_of_eq rfl rfl) (hfn.settled hresult))
    | true =>
        obtain ⟨s₀, close, hcalls, hids, hclose, hcall⟩ := withTrace_of_admits fn hadmits
        rw [hcall] at h
        cases hresult : fn s₀ with
        | mk t outcome =>
            rw [hresult] at h
            cases outcome with
            | promise rest => cases h
            | settled how' =>
                cases how' with
                | error =>
                    cases h
                    rw [hadmits]
                    exact leads_of_thrown hcalls hids (frame.comp (hfn.settled hresult)
                      (leads_of_eq (hclose t).1 (hclose t).2))
                | value =>
                    cases h
                    exact leads_of_returned _ hcalls (hfn.settled hresult) (hclose _).1 (hclose _).2
  promise := by
    intro s s' rest h t ht
    rw [observeTrace] at h
    cases hadmits : admits call s with
    | false =>
        obtain ⟨queues, hcall⟩ := withTrace_of_not_admits fn hadmits
        rw [hcall] at h
        cases hresult : fn { s with queues } with
        | mk u outcome =>
            rw [hresult] at h
            cases outcome with
            | settled how => cases h
            | promise rest' =>
                cases h
                rw [hadmits]
                exact leads_of_not_admitted _ (frame.comp (t := { s with queues })
                  (leads_of_eq rfl rfl) (hfn.promise hresult t ht))
    | true =>
        obtain ⟨s₀, close, hcalls, hids, hclose, hcall⟩ := withTrace_of_admits fn hadmits
        rw [hcall] at h
        cases hresult : fn s₀ with
        | mk u outcome =>
            rw [hresult] at h
            cases outcome with
            | settled how => cases how <;> cases h
            | promise rest' =>
                cases h
                have hleaves : Leaves u t :=
                  frame.trans (leaves_of_eq (hclose u).1 (hclose u).2) ht
                exact leads_of_returned _ hcalls (hfn.promise hresult t hleaves) rfl rfl

/-! ### Functions -/

/-- **A call of `runWithContext` keeps the frame** if its callback does. -/
theorem keeps_observeContext {fn : Body (State V)} (values : Context V) (hfn : Keeps fn) :
    Keeps (observeContext (runWithContext values fn)) := by
  have heq : observeContext (runWithContext values fn) =
      fn.within (bindContext values) fun s t =>
        State.record { t with moduleCtx := s.moduleCtx }
          (.runWithContext s.moduleCtx s.moduleCtx) := rfl
  rw [heq]
  refine Body.keeps_within frame (fun s => leads_of_eq rfl rfl) (fun s t => ?_) hfn
  exact ⟨[.runWithContext s.moduleCtx s.moduleCtx], rfl,
    by simp [AllRestored, Completion.Restored], by simp [AllRegular, Completion.Regular], rfl⟩

theorem keeps_callback {fn : Body (State V)} (async : Bool) (hfn : Keeps fn) :
    Keeps (callback async fn) := by
  cases async with
  | false => exact hfn
  | true => exact Body.keeps_async frame hfn

/-- **Every function keeps its frame.** -/
theorem Script.keeps_run (script : Script V) : Keeps script.run := by
  induction script with
  | exit how => exact Body.keeps_exit frame how
  | await next ih => exact Body.keeps_suspend frame ih
  | bindContext values next ih => exact Body.keeps_after frame (fun s => leads_of_eq rfl rfl) ih
  | unbindContext keys next ih => exact Body.keeps_after frame (fun s => leads_of_eq rfl rfl) ih
  | clearContext next ih => exact Body.keeps_after frame (fun s => leads_of_eq rfl rfl) ih
  | withTrace call async fn next ihfn ihnext =>
      exact Body.keeps_andThen frame (keeps_observeTrace call (keeps_callback async ihfn)) ihnext
  | runWithContext values async fn next ihfn ihnext =>
      exact Body.keeps_andThen frame (keeps_observeContext values (keeps_callback async ihfn))
        ihnext

/-- A call of a module that has just been loaded, and its ids. -/
def firstCall : TraceCall where
  tracingEnabled := true
  consent := .full
  sampled := true
  traceId := "0af7651916cd43dd8448eb211c80319c"
  spanId := "b7ad6b7169203331"

def freshState : State String where
  manual := {}
  moduleCtx := []
  queues := {}
  tracesEmitted := 0
  calls := []

/-- `try { withTrace('a', () => { throw … }) } catch {}`, -/
def throwingScript : Script String :=
  .withTrace firstCall false (.exit .error) fun _ => .exit .value

end Telemetry.Propagation.TypeScript.Fallback
