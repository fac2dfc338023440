import Telemetry.Propagation.PythonHeaders

/-!
# The ASGI middleware of the Python SDK

`TelemetryMiddleware.__call__` binds the context of a request, calls the application, and puts back
what was there before. With `auto_slo` it also logs an exception of the application, and records
metrics in a `finally`, before anything is put back. Both ask for values that the application may
have changed, and call code that may raise.

An exception is an object of which is known whether it is an `Exception`. What the logger, the
instruments and the objects of the application do is arbitrary.

## Main definitions

* `Scope`, `App` — the scope of a request, and an application.
* `errorPath`, `redPath` — what is done when an exception comes, and in the `finally`.
* `TelemetryMiddleware.call` — the middleware.
* `GivesBack` — the context and the outcome are given back.

## Main results

* `givesBack_iff` — **when they are**.
-/

namespace Telemetry.Asgi

open Telemetry.Lib Telemetry.Regex
open Telemetry.Propagation Telemetry.Propagation.Python

variable {O X : Type}

/-- A value in the scope: a string, or an object with its answers to `str(…)` and `… == "http"`. -/
inductive Obj (X : Type)
  | str (text : CodePoints)
  | other (text : Except X CodePoints) (isHttp : Except X Bool)

/-- The entries of the scope that are asked for. -/
structure Scope (X : Type) where
  type : Option (Obj X) := none
  path : Option (Obj X) := none
  method : Option (Obj X) := none
  /-- The answer to `getattr(route, "path", None)`, if there is a route. No text is no string. -/
  route : Option (Except X (Option CodePoints)) := none
  headers : Headers := []

/-- A message that is sent. A status or a code that is no integer is none. -/
inductive Message
  | responseStart (status : Option ℤ)
  | websocketAccept
  | websocketClose (code : Option ℤ)
  | other

/-- What the application has done: the scope that it leaves, the context variables, the messages it
has sent, and the exception that it has raised. -/
structure AppResult (O X : Type) where
  scope : Scope X
  vars : Vars O
  sent : List Message := []
  exit : Option X := none

/-- An application, whose binds are balanced. -/
structure App (O X : Type) where
  run : Scope X → Vars O → AppResult O X
  balanced : ∀ scope vars, (run scope vars).vars.restoreStack = vars.restoreStack

/-- What surrounds the middleware. -/
structure Env (X : Type) where
  unicode : Unicode
  printable : Printable
  /-- `isinstance(exc, Exception)` -/
  isException : X → Bool
  /-- `exc.__class__.__name__` -/
  className : X → CodePoints
  /-- An `EventSchemaError` with its message. -/
  eventSchemaError : CodePoints → X
  /-- `_get_strict_check()` -/
  strict : Bool
  /-- `uuid.uuid4().hex` -/
  uuid4Hex : CodePoints
  /-- `self._logger.error`, with the event, the name of the exception and the path. -/
  logError : CodePoints → CodePoints → CodePoints → Except X Unit
  /-- `Counter.add` and `Histogram.record`, with the name of the instrument and the attributes. -/
  add : CodePoints → List (CodePoints × CodePoints) → Except X Unit
  record : CodePoints → List (CodePoints × CodePoints) → Except X Unit

/-! ## Event names -/

/-- `_SEGMENT_RE`: `^[a-z][a-z0-9_]*$`. The anchor also takes a line feed at the end. -/
def matchesSegment (value : CodePoints) : Bool :=
  accepts (fun rest => rest = [] || rest = [0x0a])
    [⟨fun c => 0x61 ≤ c && c ≤ 0x7a, 1, some 1⟩,
      ⟨fun c => (0x61 ≤ c && c ≤ 0x7a) || (0x30 ≤ c && c ≤ 0x39) || c = 0x5f, 0, none⟩]
    (value.map ord)

/-- The first segment that fails the test, with its place. -/
def firstFailing (test : CodePoints → Bool) (segments : List CodePoints) :
    Option (CodePoints × ℕ) :=
  segments.zipIdx.find? fun e => !test e.1

/-- `event_name`. -/
def eventName (env : Env X) (segments : List CodePoints) : Except X CodePoints :=
  if segments.length = 0 then
    .error (env.eventSchemaError (.ofString "event_name requires at least 1 segment"))
  else
    match firstFailing (fun value => value ≠ []) segments with
    | some (_, i) =>
        .error (env.eventSchemaError
          (.ofString ("event name segments must be non-empty: segment[" ++ toString i ++ "]")))
    | none =>
        if !env.strict then .ok ([.scalar '.'].intercalate segments)
        else if segments.length < 3 ∨ 5 < segments.length then
          .error (env.eventSchemaError
            (.ofString ("expected 3-5 segments, got " ++ toString segments.length)))
        else
          match firstFailing matchesSegment segments with
          | some (value, i) =>
              .error (env.eventSchemaError
                (.ofString ("invalid event segment: segment[" ++ toString i ++ "]=") ++ value))
          | none => .ok ([.scalar '.'].intercalate segments)

/-! ## Routes -/

/-- `[0-9a-fA-F]` -/
def isHexCode (c : ℕ) : Bool :=
  (0x30 ≤ c && c ≤ 0x39) || (0x61 ≤ c && c ≤ 0x66) || (0x41 ≤ c && c ≤ 0x46)

/-- A group of a UUID. -/
def hexGroup (n : ℕ) : Piece ℕ := ⟨isHexCode, n, some n⟩

def oneOf (c : ℕ) : Piece ℕ := ⟨fun d => d = c, 1, some 1⟩

/-- The alternatives of `_DYNAMIC_SEGMENT`, each with the slash before it: a UUID, a hexadecimal
id, and a number. -/
def dynamicSegments : List (List (Piece ℕ)) :=
  [[oneOf 0x2f, hexGroup 8, oneOf 0x2d, hexGroup 4, oneOf 0x2d, hexGroup 4, oneOf 0x2d, hexGroup 4,
      oneOf 0x2d, hexGroup 12],
    [oneOf 0x2f, ⟨isHexCode, 24, some 32⟩],
    [oneOf 0x2f, ⟨fun c => 0x30 ≤ c && c ≤ 0x39, 1, none⟩]]

/-- `(?=/|$)` -/
def segmentEnds (rest : List ℕ) : Bool :=
  rest.head? = some 0x2f || rest = [] || rest = [0x0a]

/-- `_DYNAMIC_SEGMENT.sub("/{id}", raw)`, behind the characters that a match has taken. -/
def subDynamicSegments : ℕ → CodePoints → CodePoints
  | _, [] => []
  | skip + 1, _ :: raw => subDynamicSegments skip raw
  | 0, c :: raw =>
      match dynamicSegments.findSome? fun r => lengthBefore segmentEnds r ((c :: raw).map ord) with
      | some (n + 1) => CodePoints.ofString "/\x7bid\x7d" ++ subDynamicSegments n raw
      | _ => c :: subDynamicSegments 0 raw

/-- `_normalize_path`. -/
def normalizePath (raw : CodePoints) : CodePoints := subDynamicSegments 0 raw

/-- `str(…)`. -/
def strOf : Obj X → Except X CodePoints
  | .str text => .ok text
  | .other text _ => text

/-- `str(scope.get(…, default))`. -/
def strOfGet (value : Option (Obj X)) (default : String) : Except X CodePoints :=
  strOf (value.getD (.str (.ofString default)))

/-- `scope.get("type") == "http"`. -/
def isHttp : Option (Obj X) → Except X Bool
  | none => .ok false
  | some (.str text) => .ok (text = CodePoints.ofString "http")
  | some (.other _ isHttp) => isHttp

/-- `_resolve_route`. -/
def resolveRoute (scope : Scope X) : Except X CodePoints := do
  let path ← match scope.route with
    | some path => path
    | none => .ok none
  match path with
  | some path => .ok path
  | none =>
      let raw ← strOfGet scope.path "unknown"
      .ok (normalizePath raw)

/-! ## The middleware -/

/-- `record_red_metrics`. -/
def recordRedMetrics (env : Env X) (route method : CodePoints) (statusCode : ℤ) :
    Except X Unit := do
  let attrs := [(CodePoints.ofString "route", route), (CodePoints.ofString "method", method),
    (CodePoints.ofString "status_code", CodePoints.ofString (toString statusCode))]
  env.add (.ofString "http.requests.total") attrs
  if method ≠ CodePoints.ofString "WS" ∧ 500 ≤ statusCode then
    env.add (.ofString "http.errors.total") attrs
  env.record (.ofString "http.request.duration_ms") attrs

/-- What `_wrapped_send` makes of the status code. -/
def statusAfter (statusCode : ℤ) : Message → ℤ
  | .responseStart (some status) => status
  | .websocketAccept => 101
  | .websocketClose (some code) => code
  | _ => statusCode

/-- What is done when an exception comes. -/
def errorPath (env : Env X) (scope : Scope X) (exc : X) : Except X Unit := do
  let scopeType ← strOfGet scope.type "http"
  let event ← eventName env [scopeType, .ofString "request", .ofString "unhandled_exception"]
  let path ← strOfGet scope.path "unknown"
  env.logError event (env.className exc) path

/-- What is done in the `finally` before anything is put back. -/
def redPath (env : Env X) (scope : Scope X) (statusCode : ℤ) : Except X Unit := do
  let route ← resolveRoute scope
  let method ← if ← isHttp scope.type then strOfGet scope.method "UNKNOWN"
    else .ok (.ofString "WS")
  recordRedMetrics env route method statusCode

/-- `_extract_header`. -/
def extractHeader (env : Env X) (scope : Scope X) (name : String) : Option CodePoints :=
  getHeader env.unicode scope.headers (name.toList.flatMap String.utf8EncodeChar)

/-- `… or None`: an empty string is none. -/
def orNone (value : Option CodePoints) : Option CodePoints := value.filter fun text => text ≠ []

/-- The session id of the request, from its header or from its baggage. -/
def sessionId (env : Env X) (scope : Scope X) : Option CodePoints :=
  match extractHeader env scope "x-session-id" with
  | some id => some id
  | none =>
      match (extractW3cContext env.unicode scope.headers).baggage with
      | some raw => orNone ((parseBaggage env.printable raw).get? (.ofString "session_id"))
      | none => none

/-- What is bound before the application is called. -/
def enter (env : Env X) (scope : Scope X) (s : Vars O) : Vars O :=
  let w3cContext := extractW3cContext env.unicode scope.headers
  let requestId := (orNone (extractHeader env scope "x-request-id")).getD env.uuid4Hex
  let s := bindContext [(.ofString "request_id", .str requestId)] s
  let s := bindSome (.ofString "session_id") (sessionId env scope) s
  bindPropagationContext env.printable w3cContext s

/-- `scope.get("type") in {"http", "websocket"}`. -/
def isRequest : Option (Obj X) → Bool
  | some (.str text) => text = CodePoints.ofString "http" || text = CodePoints.ofString "websocket"
  | _ => false

/-- `TelemetryMiddleware`. -/
structure TelemetryMiddleware (O X : Type) where
  app : App O X
  autoSlo : Bool

/-- `__call__`: the context variables behind it, and the exception that leaves it. -/
def TelemetryMiddleware.call (mw : TelemetryMiddleware O X) (env : Env X) (scope : Scope X)
    (s : Vars O) : Vars O × Option X :=
  if !isRequest scope.type then
    let result := mw.app.run scope s
    (result.vars, result.exit)
  else
    let ctxToken := s.context
    let result := mw.app.run scope (enter env scope s)
    -- `except Exception as exc`, which raises it again unless something else is raised there
    let exit := result.exit.map fun exc =>
      if env.isException exc && mw.autoSlo then
        match errorPath env result.scope exc with
        | .ok () => exc
        | .error other => other
      else exc
    -- `finally`
    let metrics :=
      if mw.autoSlo then redPath env result.scope (result.sent.foldl statusAfter 500) else .ok ()
    match metrics with
    | .error other => (result.vars, some other)
    | .ok () => (resetContext ctxToken (clearPropagationContext result.vars), exit)

/-- The context variables are what they were, and the call ends as the application has ended. -/
structure GivesBack (mw : TelemetryMiddleware O X) (env : Env X) (scope : Scope X) (s : Vars O) :
    Prop where
  vars : (mw.call env scope s).1 = s
  exit : (mw.call env scope s).2 = (mw.app.run scope (enter env scope s)).exit

/-- Without `auto_slo`, or if the metrics are recorded, and the exception of the application is
logged, without another exception. -/
def Harmless (mw : TelemetryMiddleware O X) (env : Env X) (scope : Scope X) (s : Vars O) : Prop :=
  let result := mw.app.run scope (enter env scope s)
  mw.autoSlo = true → redPath env result.scope (result.sent.foldl statusAfter 500) = .ok () ∧
    ∀ exc, result.exit = some exc → env.isException exc = true →
      ∀ other, errorPath env result.scope exc = .error other → other = exc

variable {mw : TelemetryMiddleware O X} {env : Env X} {scope : Scope X} {s : Vars O}

/-- The snapshot of the request has the ids that were there before it. -/
theorem exists_snapshot (env : Env X) (scope : Scope X) (s : Vars O) :
    ∃ (context : PropagationContext) (t : Vars O),
      (enter env scope s).restoreStack = snapshotOf env.printable context t :: s.restoreStack ∧
        t.traceId = s.traceId ∧ t.spanId = s.spanId := by
  have hbind : ∀ key value (u : Vars O), (bindSome key value u).restoreStack = u.restoreStack ∧
      (bindSome key value u).traceId = u.traceId ∧ (bindSome key value u).spanId = u.spanId := by
    intro key value u
    cases value <;> exact ⟨rfl, rfl, rfl⟩
  rw [enter]
  generalize (orNone (extractHeader env scope "x-request-id")).getD env.uuid4Hex = requestId
  have hsession := hbind (.ofString "session_id") (sessionId env scope)
    (bindContext [(.ofString "request_id", .str requestId)] s)
  refine ⟨extractW3cContext env.unicode scope.headers, _, ?_, hsession.2.1, hsession.2.2⟩
  rw [restoreStack_bind, hsession.1]
  rfl

/-- **What is put back** behind the application is what was there before the request. -/
theorem reset_clear_eq (app : App O X) (env : Env X) (scope : Scope X) (s : Vars O) :
    resetContext s.context (clearPropagationContext (app.run scope (enter env scope s)).vars) =
      s := by
  obtain ⟨context, t, hstack, htrace, hspan⟩ := exists_snapshot env scope s
  have hvars := (app.balanced scope (enter env scope s)).trans hstack
  have hids := ids_clear hvars
  have hfields : ∀ u : Vars O, resetContext s.context u =
      ⟨s.context, u.traceId, u.spanId, u.restoreStack⟩ := fun _ => rfl
  rw [hfields, restoreStack_clear hvars, hids.1, hids.2, htrace, hspan]

/-- If an exception comes out of the `finally`, the snapshot is still on the stack. -/
theorem vars_ne (app : App O X) (env : Env X) (scope : Scope X) (s : Vars O) :
    (app.run scope (enter env scope s)).vars ≠ s := by
  intro h
  obtain ⟨context, t, hstack, -⟩ := exists_snapshot env scope s
  have hvars := (app.balanced scope (enter env scope s)).trans hstack
  have hlength := congrArg List.length (h ▸ hvars : s.restoreStack = _ :: s.restoreStack)
  simp at hlength

/-- **When the context and the outcome are given back.** -/
theorem givesBack_iff (mw : TelemetryMiddleware O X) (env : Env X) (scope : Scope X) (s : Vars O)
    (hrequest : isRequest scope.type = true) :
    GivesBack mw env scope s ↔ Harmless mw env scope s := by
  have hreset := reset_clear_eq mw.app env scope s
  have hne := vars_ne mw.app env scope s
  have hcall : mw.call env scope s =
      match (if mw.autoSlo then redPath env (mw.app.run scope (enter env scope s)).scope
        ((mw.app.run scope (enter env scope s)).sent.foldl statusAfter 500) else .ok ()) with
      | .error other => ((mw.app.run scope (enter env scope s)).vars, some other)
      | .ok () =>
          (resetContext s.context
              (clearPropagationContext (mw.app.run scope (enter env scope s)).vars),
            (mw.app.run scope (enter env scope s)).exit.map fun exc =>
              if env.isException exc && mw.autoSlo then
                match errorPath env (mw.app.run scope (enter env scope s)).scope exc with
                | .ok () => exc
                | .error other => other
              else exc) := by
    rw [TelemetryMiddleware.call, if_neg (by simp [hrequest])]
  have hgives : GivesBack mw env scope s ↔ (mw.call env scope s).1 = s ∧
      (mw.call env scope s).2 = (mw.app.run scope (enter env scope s)).exit :=
    ⟨fun h => ⟨h.vars, h.exit⟩, fun h => ⟨h.1, h.2⟩⟩
  rw [hgives, hcall, Harmless]
  generalize mw.app.run scope (enter env scope s) = result at hreset hne ⊢
  cases hslo : mw.autoSlo with
  | false => cases result.exit <;> simp [hreset]
  | true =>
      simp only [if_true, Bool.and_true, true_implies]
      cases hred : redPath env result.scope (result.sent.foldl statusAfter 500) with
      | error other => simp [hne]
      | ok u =>
          cases hexit : result.exit with
          | none => simp [hreset]
          | some exc =>
              cases hexception : env.isException exc with
              | false => simp [hreset, hexception]
              | true =>
                  cases herror : errorPath env result.scope exc with
                  | ok v => simp [hreset, hexception, herror]
                  | error other => simp [hreset, hexception, herror]

/-- Nothing raises but the schema, and an exception is known by its class. -/
def quietEnv : Env String where
  unicode := asciiOnly
  printable := ⟨fun _ => false, fun _ _ => rfl⟩
  isException := fun _ => true
  className := CodePoints.ofString
  eventSchemaError := fun _ => "EventSchemaError"
  strict := false
  uuid4Hex := CodePoints.ofString "0af7651916cd43dd8448eb211c80319c"
  logError := fun _ _ _ => .ok ()
  add := fun _ _ => .ok ()
  record := fun _ _ => .ok ()

/-- An application that empties the type of its scope and raises. -/
def emptyTypeApp : App Unit String where
  run scope vars :=
    { scope := { scope with type := some (.str []) }, vars, exit := some "RuntimeError" }
  balanced _ _ := rfl

/-- A request. -/
def request : Scope String := { type := some (.str (CodePoints.ofString "http")) }

theorem givesBack_request : GivesBack ⟨emptyTypeApp, false⟩ quietEnv request {} ↔
    Harmless ⟨emptyTypeApp, false⟩ quietEnv request {} :=
  givesBack_iff _ _ _ _ rfl

/-- The exception that leaves the call is not the one of the application. -/
theorem exception_replaced :
    (TelemetryMiddleware.call ⟨emptyTypeApp, true⟩ quietEnv request {}).2 =
        some "EventSchemaError" ∧
      (emptyTypeApp.run request (enter quietEnv request {})).exit = some "RuntimeError" ∧
      ¬ GivesBack ⟨emptyTypeApp, true⟩ quietEnv request {} := by
  have hcall : (TelemetryMiddleware.call ⟨emptyTypeApp, true⟩ quietEnv request {}).2 =
      some "EventSchemaError" := by decide
  refine ⟨hcall, rfl, fun h => ?_⟩
  have hexit : some "EventSchemaError" = some "RuntimeError" := hcall.symm.trans h.exit
  exact absurd hexit (by decide)

end Telemetry.Asgi
