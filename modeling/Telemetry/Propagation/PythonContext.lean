import Telemetry.Propagation.PythonBaggage

/-!
# Binding and clearing the propagated context in the Python SDK

The fields of the log, the trace id, the span id and `_restore_stack` are context variables.
`bind_propagation_context` puts a snapshot on the stack and binds the fields of a context, with a
field `baggage.…` for every member of its baggage. `clear_propagation_context` takes the snapshot
off and puts back, field by field, what it says. Without OpenTelemetry the snapshot has no token.

## Main definitions

* `Vars` — the context variables.
* `bindPropagationContext`, `clearPropagationContext` — the operations.
* `Nested` — every bind is followed by its clear, and what is in between is nested.

## Main results

* `clear_restores` — **a clear puts back what was there before its bind**.
-/

namespace Telemetry.Propagation.Python

open Telemetry.Lib

/-- What is bound to a field of the log: a string, or another object. -/
inductive Value (O : Type)
  | str (text : CodePoints)
  | other (object : O)
  deriving DecidableEq

/-- `PropagationContext`. -/
structure PropagationContext where
  traceparent : Option CodePoints := none
  tracestate : Option CodePoints := none
  baggage : Option CodePoints := none
  traceId : Option CodePoints := none
  spanId : Option CodePoints := none
  deriving DecidableEq

variable {O : Type}

/-- The fields of the log. -/
abbrev Context (O : Type) := Dict CodePoints (Value O)

/-- A snapshot on `_restore_stack`, where `_MISSING` is no value. -/
structure Snapshot (O : Type) where
  traceparent : Option (Value O) := none
  tracestate : Option (Value O) := none
  baggage : Option (Value O) := none
  traceId : Option CodePoints := none
  spanId : Option CodePoints := none
  /-- `_baggage_keys` -/
  baggageKeys : List CodePoints := []
  /-- `_baggage_prior` -/
  baggagePrior : Context O := Dict.empty

/-- The context variables. The stack has its top first. -/
structure Vars (O : Type) where
  /-- `_context` -/
  context : Option (Context O) := none
  traceId : Option CodePoints := none
  spanId : Option CodePoints := none
  /-- `_restore_stack` -/
  restoreStack : List (Snapshot O) := []

/-! ## The operations -/

/-- `get_context`. -/
def Vars.getContext (s : Vars O) : Context O := s.context.getD Dict.empty

/-- `bind_context`. -/
def bindContext (values : List (CodePoints × Value O)) (s : Vars O) : Vars O :=
  { s with context := some (s.getContext.update values) }

/-- `unbind_context`. -/
def unbindContext (keys : List CodePoints) (s : Vars O) : Vars O :=
  { s with context := some (keys.foldl Dict.erase s.getContext) }

/-- `reset_context`, where the token holds the context that `save_context` found. -/
def resetContext (token : Option (Context O)) (s : Vars O) : Vars O := { s with context := token }

/-- `set_trace_context`. -/
def setTraceContext (traceId spanId : Option CodePoints) (s : Vars O) : Vars O :=
  { s with traceId, spanId }

def traceparentKey : CodePoints := CodePoints.ofString "traceparent"

def tracestateKey : CodePoints := CodePoints.ofString "tracestate"

def baggageKey : CodePoints := CodePoints.ofString "baggage"

/-- `f"baggage.{key}"`. -/
def ctxKey (key : CodePoints) : CodePoints := CodePoints.ofString "baggage." ++ key

/-- The members of the baggage, as fields of the log. -/
def PropagationContext.baggageFields (T : Printable) (context : PropagationContext) :
    List (CodePoints × CodePoints) :=
  match context.baggage with
  | some raw => (parseBaggage T raw).entries.map fun e => (ctxKey e.1, e.2)
  | none => []

/-- The values that the keys have, under those of them that have one. -/
def priorOf (loggerCtx : Context O) (keys : List CodePoints) : Context O :=
  keys.foldl (fun prior key =>
    match loggerCtx.get? key with
    | some value => prior.set key value
    | none => prior) Dict.empty

/-- The snapshot of `bind_propagation_context`. -/
def snapshotOf (T : Printable) (context : PropagationContext) (s : Vars O) : Snapshot O where
  traceparent := s.getContext.get? traceparentKey
  tracestate := s.getContext.get? tracestateKey
  baggage := s.getContext.get? baggageKey
  traceId := s.traceId
  spanId := s.spanId
  baggageKeys := (context.baggageFields T).map Prod.fst
  baggagePrior := priorOf s.getContext ((context.baggageFields T).map Prod.fst)

/-- A field is bound, if it has a value. -/
def bindSome (key : CodePoints) (value : Option CodePoints) (s : Vars O) : Vars O :=
  match value with
  | some value => bindContext [(key, .str value)] s
  | none => s

/-- `bind_propagation_context`. -/
def bindPropagationContext (T : Printable) (context : PropagationContext) (s : Vars O) : Vars O :=
  let snapshot := snapshotOf T context s
  let s := { s with restoreStack := snapshot :: s.restoreStack }
  let s := bindSome traceparentKey context.traceparent s
  let s := bindSome tracestateKey context.tracestate s
  let s := bindSome baggageKey context.baggage s
  let s := (context.baggageFields T).foldl (fun s e => bindContext [(e.1, .str e.2)] s) s
  if context.traceId ≠ none ∨ context.spanId ≠ none then
    setTraceContext context.traceId context.spanId s
  else s

/-- A field is bound to its value, or unbound if it has none. -/
def restoreKey (key : CodePoints) (value : Option (Value O)) (s : Vars O) : Vars O :=
  match value with
  | none => unbindContext [key] s
  | some value => bindContext [(key, value)] s

/-- `clear_propagation_context`. -/
def clearPropagationContext (s : Vars O) : Vars O :=
  let (previous, stack) :=
    match s.restoreStack with
    | previous :: stack => (previous, stack)
    | [] => ({}, [])
  let s := { s with restoreStack := stack }
  let s := restoreKey traceparentKey previous.traceparent s
  let s := restoreKey tracestateKey previous.tracestate s
  let s := restoreKey baggageKey previous.baggage s
  let s := previous.baggageKeys.foldl (fun s key =>
    restoreKey key (previous.baggagePrior.get? key) s) s
  setTraceContext previous.traceId previous.spanId s

/-! ## Sequences of operations -/

/-- A bind or a clear. -/
inductive Op
  | bind (context : PropagationContext)
  | clear

def step (T : Printable) (s : Vars O) : Op → Vars O
  | .bind context => bindPropagationContext T context s
  | .clear => clearPropagationContext s

def run (T : Printable) (ops : List Op) (s : Vars O) : Vars O := ops.foldl (step T) s

/-- Every bind is followed by its clear. -/
inductive Nested : List Op → Prop
  | nil : Nested []
  | frame (context : PropagationContext) {inner rest : List Op} (hinner : Nested inner)
      (hrest : Nested rest) : Nested (.bind context :: (inner ++ .clear :: rest))

/-- The fields that a frame owns. -/
def ownKeys (T : Printable) (context : PropagationContext) : List CodePoints :=
  traceparentKey :: tracestateKey :: baggageKey :: (context.baggageFields T).map Prod.fst

/-- Nobody can tell the variables apart. -/
structure Alike (s t : Vars O) : Prop where
  context : s.getContext = t.getContext
  traceId : s.traceId = t.traceId
  spanId : s.spanId = t.spanId
  restoreStack : s.restoreStack = t.restoreStack

/-- The clear of a frame puts back what was there before its bind, and neither of them touches a
field that the frame does not own. -/
structure Restores (own : List CodePoints) (before bound closing cleared : Vars O) : Prop where
  alike : Alike cleared before
  bind : ∀ key, key ∉ own → bound.getContext.get? key = before.getContext.get? key
  clear : ∀ key, key ∉ own → cleared.getContext.get? key = closing.getContext.get? key

/-! ## What a bind does -/

variable {T : Printable} {s t : Vars O} {context : PropagationContext}

theorem Alike.refl (s : Vars O) : Alike s s := ⟨rfl, rfl, rfl, rfl⟩

theorem Alike.trans {u : Vars O} (h : Alike s t) (h' : Alike t u) : Alike s u :=
  ⟨h.context.trans h'.context, h.traceId.trans h'.traceId, h.spanId.trans h'.spanId,
    h.restoreStack.trans h'.restoreStack⟩

/-- The fields that are bound. -/
def boundFields (T : Printable) (context : PropagationContext) : List (CodePoints × Value O) :=
  let named (key : CodePoints) (value : Option CodePoints) : List (CodePoints × Value O) :=
    value.toList.map fun text => (key, .str text)
  named traceparentKey context.traceparent ++ named tracestateKey context.tracestate ++
    named baggageKey context.baggage ++
      (context.baggageFields T).map fun e => (e.1, .str e.2)

theorem getContext_bindSome (key : CodePoints) (value : Option CodePoints) (s : Vars O) :
    (bindSome key value s).getContext =
      s.getContext.update (value.toList.map fun text => (key, .str text)) := by
  cases value <;> rfl

theorem update_append (d : Context O) (es es' : List (CodePoints × Value O)) :
    d.update (es ++ es') = (d.update es).update es' := by
  rw [Dict.update, List.foldl_append]
  rfl

theorem getContext_foldl_bind (fields : List (CodePoints × CodePoints)) (s : Vars O) :
    (fields.foldl (fun s e => bindContext [(e.1, .str e.2)] s) s).getContext =
      s.getContext.update (fields.map fun e => (e.1, .str e.2)) := by
  induction fields generalizing s with
  | nil => rfl
  | cons e fields ih => exact ih _

/-- **What a bind does to the fields.** -/
theorem getContext_bind (T : Printable) (context : PropagationContext) (s : Vars O) :
    (bindPropagationContext T context s).getContext =
      s.getContext.update (boundFields T context) := by
  have hids : ∀ u : Vars O, (if context.traceId ≠ none ∨ context.spanId ≠ none then
      setTraceContext context.traceId context.spanId u else u).getContext = u.getContext := by
    intro u
    split <;> rfl
  rw [bindPropagationContext, hids, getContext_foldl_bind, getContext_bindSome,
    getContext_bindSome, getContext_bindSome, boundFields]
  simp only [update_append]
  rfl

theorem restoreStack_foldl_bind (fields : List (CodePoints × CodePoints)) (s : Vars O) :
    (fields.foldl (fun s e => bindContext [(e.1, .str e.2)] s) s).restoreStack =
      s.restoreStack := by
  induction fields generalizing s with
  | nil => rfl
  | cons e fields ih => exact ih _

/-- A bind puts its snapshot on the stack. -/
theorem restoreStack_bind (T : Printable) (context : PropagationContext) (s : Vars O) :
    (bindPropagationContext T context s).restoreStack =
      snapshotOf T context s :: s.restoreStack := by
  have hids : ∀ u : Vars O, (if context.traceId ≠ none ∨ context.spanId ≠ none then
      setTraceContext context.traceId context.spanId u else u).restoreStack = u.restoreStack := by
    intro u
    split <;> rfl
  have hsome : ∀ key value (u : Vars O), (bindSome key value u).restoreStack = u.restoreStack := by
    intro key value u
    cases value <;> rfl
  rw [bindPropagationContext, hids, restoreStack_foldl_bind, hsome, hsome, hsome]

/-- What is bound is owned. -/
theorem mem_ownKeys_of_mem_boundFields {e : CodePoints × Value O}
    (h : e ∈ boundFields T context) : e.1 ∈ ownKeys T context := by
  simp only [boundFields, List.mem_append, List.mem_map] at h
  obtain ((⟨_, -, rfl⟩ | ⟨_, -, rfl⟩) | ⟨_, -, rfl⟩) | ⟨d, hd, rfl⟩ := h
  · simp [ownKeys]
  · simp [ownKeys]
  · simp [ownKeys]
  · simp only [ownKeys, List.mem_cons, List.mem_map]
    exact .inr (.inr (.inr ⟨d, hd, rfl⟩))

theorem get?_bind_of_notMem {key : CodePoints} (h : key ∉ ownKeys T context) :
    (bindPropagationContext T context s).getContext.get? key = s.getContext.get? key := by
  rw [getContext_bind]
  refine Dict.get?_update_of_notMem fun hmem => h ?_
  obtain ⟨e, he, rfl⟩ := List.mem_map.mp hmem
  exact mem_ownKeys_of_mem_boundFields he

/-! ## What a clear does -/

/-- The snapshot says what the fields were. -/
theorem get?_priorOf (loggerCtx : Context O) (keys : List CodePoints) {key : CodePoints}
    (h : key ∈ keys) : (priorOf loggerCtx keys).get? key = loggerCtx.get? key := by
  have hloop : ∀ (keys : List CodePoints) (prior : Context O),
      (keys.foldl (fun prior key =>
        match loggerCtx.get? key with
        | some value => prior.set key value
        | none => prior) prior).get? key =
          if key ∈ keys then (loggerCtx.get? key).or (prior.get? key) else prior.get? key := by
    intro keys
    induction keys with
    | nil => exact fun _ => rfl
    | cons j keys ih =>
        intro prior
        rw [List.foldl_cons, ih]
        by_cases hj : key = j
        · subst hj
          cases hvalue : loggerCtx.get? key with
          | none => simp
          | some value => simp
        · cases hvalue : loggerCtx.get? j with
          | none => simp [hj]
          | some value => simp [hj]
  rw [priorOf, hloop, if_pos h, Dict.get?_empty, Option.or_none]

theorem getContext_restoreKey (key : CodePoints) (value : Option (Value O)) (s : Vars O) :
    (restoreKey key value s).getContext = s.getContext.put key value := by
  cases value <;> rfl

theorem getContext_foldl_restore (value : CodePoints → Option (Value O)) {prior : Context O}
    {keys : List CodePoints} (h : ∀ key ∈ keys, value key = prior.get? key) (s : Vars O) :
    (keys.foldl (fun s key => restoreKey key (value key) s) s).getContext =
      Dict.putBack prior keys s.getContext := by
  induction keys generalizing s with
  | nil => rfl
  | cons key keys ih =>
      rw [List.forall_mem_cons] at h
      rw [List.foldl_cons, ih h.2, getContext_restoreKey, h.1, Dict.putBack_cons]

theorem restoreStack_foldl_restore (value : CodePoints → Option (Value O))
    (keys : List CodePoints) (s : Vars O) :
    (keys.foldl (fun s key => restoreKey key (value key) s) s).restoreStack = s.restoreStack := by
  induction keys generalizing s with
  | nil => rfl
  | cons key keys ih =>
      rw [List.foldl_cons, ih]
      cases value key <;> rfl

/-- **A clear puts back the fields that its frame owns.** -/
theorem getContext_clear {stack : List (Snapshot O)}
    (hstack : t.restoreStack = snapshotOf T context s :: stack) :
    (clearPropagationContext t).getContext =
      Dict.putBack s.getContext (ownKeys T context) t.getContext := by
  have hids : ∀ traceId spanId (u : Vars O),
      (setTraceContext traceId spanId u).getContext = u.getContext := fun _ _ _ => rfl
  have hprior : ∀ key ∈ (snapshotOf T context s).baggageKeys,
      (snapshotOf T context s).baggagePrior.get? key = s.getContext.get? key :=
    fun key hkey => get?_priorOf s.getContext _ hkey
  rw [clearPropagationContext, hstack]
  simp only [hids]
  rw [getContext_foldl_restore _ hprior]
  simp only [getContext_restoreKey]
  rfl

theorem restoreStack_clear {snapshot : Snapshot O} {stack : List (Snapshot O)}
    (hstack : t.restoreStack = snapshot :: stack) :
    (clearPropagationContext t).restoreStack = stack := by
  have hrestore : ∀ key value (u : Vars O),
      (restoreKey key value u).restoreStack = u.restoreStack := by
    intro key value u
    cases value <;> rfl
  have hids : ∀ traceId spanId (u : Vars O),
      (setTraceContext traceId spanId u).restoreStack = u.restoreStack := fun _ _ _ => rfl
  rw [clearPropagationContext, hstack]
  simp only [hids, restoreStack_foldl_restore, hrestore]

/-- A clear puts back the ids. -/
theorem ids_clear {stack : List (Snapshot O)}
    (hstack : t.restoreStack = snapshotOf T context s :: stack) :
    (clearPropagationContext t).traceId = s.traceId ∧
      (clearPropagationContext t).spanId = s.spanId := by
  rw [clearPropagationContext, hstack]
  exact ⟨rfl, rfl⟩

/-! ## Frames -/

/-- **The clear of a frame** whose inside has put back everything. -/
theorem clear_of_alike (h : Alike t (bindPropagationContext T context s)) :
    Alike (clearPropagationContext t) s := by
  have hstack : t.restoreStack = snapshotOf T context s :: s.restoreStack :=
    h.restoreStack.trans (restoreStack_bind T context s)
  constructor
  · rw [getContext_clear hstack, h.context]
    refine Dict.putBack_eq ?_ fun key hkey => get?_bind_of_notMem hkey
    rw [getContext_bind]
    exact Dict.prefix_keys_update (List.prefix_refl _) _
  · exact (ids_clear hstack).1
  · exact (ids_clear hstack).2
  · exact restoreStack_clear hstack

theorem run_append (T : Printable) (ops ops' : List Op) (s : Vars O) :
    run T (ops ++ ops') s = run T ops' (run T ops s) := List.foldl_append

/-- **Nested operations change nothing.** -/
theorem alike_of_nested {ops : List Op} (h : Nested ops) (s : Vars O) : Alike (run T ops s) s := by
  induction h generalizing s with
  | nil => exact Alike.refl s
  | @frame context inner rest _ _ ihinner ihrest =>
      have hrun : run T (.bind context :: (inner ++ .clear :: rest)) s =
          run T rest (clearPropagationContext (run T inner (bindPropagationContext T context s))) :=
        run_append T inner (.clear :: rest) _
      rw [hrun]
      exact (ihrest _).trans (clear_of_alike (ihinner _))

/-- **A clear puts back what was there before its bind**, whatever has happened before. -/
theorem clear_restores (T : Printable) (s : Vars O) (earlier : List Op)
    (context : PropagationContext) {inner : List Op} (hinner : Nested inner) :
    Restores (ownKeys T context) (run T earlier s) (run T (earlier ++ [.bind context]) s)
      (run T (earlier ++ .bind context :: inner) s)
      (run T (earlier ++ .bind context :: (inner ++ [.clear])) s) := by
  simp only [run_append]
  generalize run T earlier s = u
  have hrun : run T (.bind context :: (inner ++ [.clear])) u =
      clearPropagationContext (run T inner (bindPropagationContext T context u)) :=
    run_append T inner [.clear] _
  have halike := alike_of_nested (T := T) hinner (bindPropagationContext T context u)
  have hcleared := clear_of_alike halike
  rw [hrun]
  refine ⟨hcleared, fun key hkey => get?_bind_of_notMem hkey, fun key hkey => ?_⟩
  rw [hcleared.context]
  refine (get?_bind_of_notMem hkey).symm.trans ?_
  exact congrArg (fun context => Dict.get? context key) halike.context.symm

/-- Two frames whose baggage has the same member. -/
theorem clear_restores_twice :
    let T : Printable := ⟨fun _ => false, fun _ _ => rfl⟩
    let outer : PropagationContext := { baggage := some (CodePoints.ofString "a=1") }
    let inner : PropagationContext := { baggage := some (CodePoints.ofString "a=2,a=3") }
    Restores (ownKeys T outer) (run T [] ({} : Vars Unit)) (run T ([] ++ [.bind outer]) {})
      (run T ([] ++ .bind outer :: [.bind inner, .clear]) {})
      (run T ([] ++ .bind outer :: ([.bind inner, .clear] ++ [.clear])) {}) :=
  clear_restores _ _ [] _ (.frame _ .nil .nil)

end Telemetry.Propagation.Python
