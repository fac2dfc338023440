import Telemetry.Lib.Scoped
import Telemetry.Pii.Scalars
import Telemetry.Pii.SecretScans

/-!
# Contexts of flows in the TypeScript SDK

Three modules keep what belongs to a flow of control in three storages: the fields of the log, the
propagated context and the trace ids. Each looks for an object that the flow refers to, and falls
back to a variable of the module. The first two enter a copy of their variable before they write;
the third writes the variable. The storages are those of `AsyncLocalStorage`: a flow that is started
refers to the objects of the flow that starts it.

## Main definitions

* `State` — the storages, the variables and the flows.
* `bindContext`, `unbindContext`, `getContext` — the fields of the log.
* `setTraceContext`, `getTraceContext` — the trace ids.
* `bindPropagationContext`, `clearPropagationContext`, `getActivePropagationContext` — the
  propagated context, which takes part in both others.
-/

namespace Telemetry.Propagation.TypeScript

open Telemetry.Lib
open Telemetry.Pii (setItem delItem)

/-- The fields of the log. -/
abbrev Context (V : Type) := List (String × V)

/-- A property that is `undefined` is one that is absent. -/
structure PropagationContext where
  traceparent : Option String := none
  tracestate : Option String := none
  baggage : Option String := none
  traceId : Option String := none
  spanId : Option String := none
  deriving DecidableEq, Repr

/-- `_TraceIds`. -/
structure TraceIds where
  traceId : Option String := none
  spanId : Option String := none
  deriving DecidableEq, Repr

/-- The stacks have their top first. -/
structure PropagationStore (V O : Type) where
  active : PropagationContext := {}
  stack : List PropagationContext := []
  otelCtxStack : List (Option O) := []
  /-- A key that was unset has no value. -/
  baggagePriorStack : List (List (String × Option V)) := []
  traceCtxStack : List TraceIds := []
  deriving DecidableEq, Repr

/-- What lies outside the modules. -/
structure Env (V O : Type) where
  /-- A string as a field of the log. -/
  ofString : String → V
  /-- `getActiveTraceIds`: no operation here starts a span. -/
  activeIds : TraceIds
  /-- The OpenTelemetry context that is extracted from a `traceparent` and a `tracestate`, if there
  is one. -/
  extract : String → Option String → Option O

/-- The storages and the variables of the modules, and the flows that have started. -/
structure State (F V O : Type) where
  flows : List F
  contexts : Scoped F (Context V)
  propagation : Scoped F (PropagationStore V O)
  traceIds : Scoped F TraceIds
  /-- `_moduleCtx` -/
  moduleCtx : Context V
  /-- `_fallbackStore` -/
  fallbackStore : PropagationStore V O
  /-- `_manualTraceId` and `_manualSpanId` -/
  manual : TraceIds

variable {F V O : Type} [DecidableEq F] (env : Env V O) (s : State F V O) (f : F)

/-! ## The fields of the log -/

/-- `Object.assign`. -/
def assign (values store : Context V) : Context V :=
  values.foldl (fun store e => setItem e.1 e.2 store) store

/-- `delete` of each key. -/
def remove (keys : List String) (store : Context V) : Context V :=
  keys.foldl (fun store k => delItem k store) store

omit [DecidableEq F] in
/-- `getStore`. -/
def getStore : Context V := (s.contexts.get f).getD s.moduleCtx

/-- `ensureStore`, and a change of the store. -/
def changeStore (change : Context V → Context V) : State F V O :=
  { s with contexts := (s.contexts.ensure f s.moduleCtx).modify f change }

/-- `bindContext`. -/
def bindContext (values : Context V) : State F V O := changeStore s f (assign values)

/-- `unbindContext`. -/
def unbindContext (keys : List String) : State F V O := changeStore s f (remove keys)

omit [DecidableEq F] in
/-- `getContext`. -/
def getContext : Context V := getStore s f

/-! ## The trace ids -/

/-- `id || undefined`. -/
def orUndefined (id : Option String) : Option String := id.filter (· ≠ "")

/-- The ids that `setTraceContext` puts in place. -/
def normalized (traceId spanId : Option String) : TraceIds where
  traceId := orUndefined traceId
  spanId := orUndefined spanId

omit [DecidableEq F] in
/-- `setTraceContext`. -/
def setTraceContext (traceId spanId : Option String) : State F V O :=
  match s.traceIds.get f with
  | some _ => { s with traceIds := s.traceIds.modify f fun _ => normalized traceId spanId }
  | none => { s with manual := normalized traceId spanId }

omit [DecidableEq F] in
/-- `getTraceContext`. -/
def getTraceContext : TraceIds :=
  let store := s.traceIds.get f
  let traceId := (store.bind TraceIds.traceId).or s.manual.traceId
  let spanId := (store.bind TraceIds.spanId).or s.manual.spanId
  if traceId.isSome ∨ spanId.isSome then ⟨traceId, spanId⟩ else env.activeIds

/-! ## Baggage -/

/-- `isBaggageToken`. -/
def isBaggageToken (key : List Char) : Bool :=
  !key.isEmpty && key.all fun c => c.isAlphanum || "!#$%&'*+-.^_`|~".toList.contains c

/-- `stripBaggageControls`. -/
def stripBaggageControls (value : List Char) : List Char :=
  value.filter fun c => !(c.toNat ≤ 0x08 || (0x0A ≤ c.toNat && c.toNat ≤ 0x1F) || c.toNat = 0x7F)

/-- `trim`. -/
def trim (s : List Char) : List Char :=
  ((s.dropWhile Pii.TypeScript.isSpace).reverse.dropWhile Pii.TypeScript.isSpace).reverse

/-- A member of a baggage header, if it is one. -/
def parseMember (member : List Char) : Option (String × String) :=
  let kv := member.takeWhile (· ≠ ';')
  let name := kv.takeWhile (· ≠ '=')
  if name = kv ∨ name = [] then none
  else if isBaggageToken (trim name) then
    some (String.ofList (trim name),
      String.ofList (stripBaggageControls (trim (kv.drop (name.length + 1)))))
  else none

/-- `parseBaggage`. Setting the `__proto__` of an object to a string does nothing. -/
def parseBaggage (raw : String) : List (String × String) :=
  ((raw.toList.splitOn ',').filterMap parseMember).foldl
    (fun result e => if e.1 = "__proto__" then result else setItem e.1 e.2 result) []

/-! ## The propagated context -/

omit [DecidableEq F] in
/-- `_getStore`. -/
def getPropagationStore : PropagationStore V O := (s.propagation.get f).getD s.fallbackStore

/-- `_ensureStore`. -/
def ensurePropagationStore : State F V O :=
  { s with propagation := s.propagation.ensure f s.fallbackStore }

omit [DecidableEq F] in
/-- A change of the store of the flow. -/
def changePropagationStore (change : PropagationStore V O → PropagationStore V O) : State F V O :=
  { s with propagation := s.propagation.modify f change }

/-- `{ ...active, ...ctx }`. -/
def PropagationContext.merge (active ctx : PropagationContext) : PropagationContext where
  traceparent := ctx.traceparent.or active.traceparent
  tracestate := ctx.tracestate.or active.tracestate
  baggage := ctx.baggage.or active.baggage
  traceId := ctx.traceId.or active.traceId
  spanId := ctx.spanId.or active.spanId

/-- The OpenTelemetry context that is pushed with a propagated one. -/
def extracted (ctx : PropagationContext) : Option O :=
  (orUndefined ctx.traceparent).bind fun traceparent =>
    env.extract traceparent (orUndefined ctx.tracestate)

/-- A new frame, up to the trace ids and the baggage. -/
def pushFrame (ctx : PropagationContext) (store : PropagationStore V O) : PropagationStore V O :=
  { store with
    stack := store.active :: store.stack
    active := store.active.merge ctx
    otelCtxStack := extracted env ctx :: store.otelCtxStack }

/-- The frame is taken away. -/
def popFrame (store : PropagationStore V O) : PropagationStore V O where
  active := store.stack.headD {}
  stack := store.stack.tail
  otelCtxStack := store.otelCtxStack.tail
  baggagePriorStack := store.baggagePriorStack.tail
  traceCtxStack := store.traceCtxStack.tail

/-- There are ids to bridge. -/
def bridges (ctx : PropagationContext) : Bool :=
  (orUndefined ctx.traceId).isSome || (orUndefined ctx.spanId).isSome

/-- The entries of the baggage, each under the key of its field. -/
def baggageFields (ctx : PropagationContext) : List (String × String) :=
  ((orUndefined ctx.baggage).elim [] parseBaggage).map fun e => ("baggage." ++ e.1, e.2)

/-- What the fields of the baggage were before. -/
def priorFields (ctx : PropagationContext) : List (String × Option V) :=
  let currentCtx := getContext s f
  (baggageFields ctx).map fun e => (e.1, currentCtx.lookup e.1)

omit [DecidableEq F] in
/-- The ids before are kept. -/
def saveTrace : State F V O :=
  let prevTrace := getTraceContext env s f
  changePropagationStore s f fun store =>
    { store with traceCtxStack := prevTrace :: store.traceCtxStack }

omit [DecidableEq F] in
/-- The ids are bridged. -/
def bridgeIds (ctx : PropagationContext) : State F V O :=
  if bridges ctx then setTraceContext s f (some (ctx.traceId.getD "")) (some (ctx.spanId.getD ""))
  else s

/-- The baggage is injected, and what was in its place is kept. -/
def injectBaggage (ctx : PropagationContext) : State F V O :=
  let prior := priorFields s f ctx
  let s := (baggageFields ctx).foldl (fun s e => bindContext s f [(e.1, env.ofString e.2)]) s
  changePropagationStore s f fun store =>
    { store with baggagePriorStack := prior :: store.baggagePriorStack }

/-- `bindPropagationContext`. -/
def bindPropagationContext (ctx : PropagationContext) : State F V O :=
  let s := ensurePropagationStore s f
  let s := changePropagationStore s f (pushFrame env ctx)
  let s := saveTrace env s f
  let s := bridgeIds s f ctx
  injectBaggage env s f ctx

/-- One round of the loop over the prior fields. -/
def restoreField (e : String × Option V) : State F V O :=
  match e.2 with
  | none => unbindContext s f [e.1]
  | some v => bindContext s f [(e.1, v)]

omit [DecidableEq F] in
/-- The ids before come back. -/
def restoreTrace (prevTrace : Option TraceIds) : State F V O :=
  match prevTrace with
  | some prevTrace => setTraceContext s f prevTrace.traceId prevTrace.spanId
  | none => s

/-- `clearPropagationContext`. -/
def clearPropagationContext : State F V O :=
  let s := ensurePropagationStore s f
  let store := getPropagationStore s f
  let s := changePropagationStore s f popFrame
  let s := (store.baggagePriorStack.headD []).foldl (fun s e => restoreField s f e) s
  restoreTrace s f store.traceCtxStack.head?

omit [DecidableEq F] in
/-- `getActivePropagationContext`. -/
def getActivePropagationContext : PropagationContext := (getPropagationStore s f).active

end Telemetry.Propagation.TypeScript
