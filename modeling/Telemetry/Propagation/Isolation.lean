import Telemetry.Lib.Forks
import Telemetry.Propagation.TypeScript

/-!
# Concurrent flows of the TypeScript SDK

Flows bind and clear contexts in any order and start other flows. What a flow reads should be
determined by its own operations and by those that its ancestors made before they started it. It is
as long as a flow writes to objects that are its alone. But a flow that is started refers to the
objects of the flow that starts it, and both write to them in place. And the trace ids of a flow
without an object for them are written to the variables of the module, which all flows read.

## Main definitions

* `Op`, `machine` — flows that bind, clear and start other flows.
* `Isolated` — every flow reads what its lineage would read, made alone.
* `Apart` — a step after which the other flows see what they saw.

## Main results

* `isolated_of_apart` — **when every flow is isolated**.
-/

namespace Telemetry.Propagation.TypeScript

open Telemetry.Lib

variable {F V O : Type} [DecidableEq F]

/-- What a flow does to its context. -/
inductive Op (V : Type)
  | bindContext (values : Context V)
  | unbindContext (keys : List String)
  | bindPropagationContext (ctx : PropagationContext)
  | clearPropagationContext

/-- What the reads of a flow return. -/
structure Reads (V : Type) where
  context : Context V
  active : PropagationContext
  traceIds : TraceIds
  deriving DecidableEq, Repr

section

variable (env : Env V O) (s : State F V O) (f : F)

/-- An operation of a flow. -/
def perform : Op V → State F V O
  | .bindContext values => bindContext s f values
  | .unbindContext keys => unbindContext s f keys
  | .bindPropagationContext ctx => bindPropagationContext env s f ctx
  | .clearPropagationContext => clearPropagationContext s f

/-- A flow starts another. -/
def spawn (child : F) : State F V O :=
  { s with
    flows := child :: s.flows
    contexts := s.contexts.inherit f child
    propagation := s.propagation.inherit f child
    traceIds := s.traceIds.inherit f child }

omit [DecidableEq F] in
/-- The reads of a flow. -/
def reads : Reads V where
  context := getContext s f
  active := getActivePropagationContext s f
  traceIds := getTraceContext env s f

/-- The flows in any order, from a state of the modules and one flow. -/
def machine (root : F) (start : State F V O) : Machine (State F V O) (F × Act F (Op V)) where
  init := { start with flows := [root] }
  step s
    | (f, .op o) => if f ∈ s.flows then some (perform env s f o) else none
    | (f, .spawn child) =>
        if f ∈ s.flows ∧ child ∉ s.flows then some (spawn s f child) else none

/-- Every flow reads what a single flow would read that makes the operations of the lineage. -/
def Isolated (root : F) (start : State F V O) (run : List (F × Act F (Op V))) : Prop :=
  ∀ s, (machine env root start).run run = some s → ∀ f ∈ s.flows,
    ∃ ops, lineage root run f = some ops ∧
      ∃ t, (machine env root start).run (madeBy root ops) = some t ∧
        reads env s f = reads env t root

/-! ## Steps that no other flow sees -/

/-- The trace ids go to an object that no other flow sees change, or to the variables of the
module when they hold these ids already or there is no other flow. -/
def KeepsIds (ids : TraceIds) : Prop :=
  if (s.traceIds.get f).isSome then s.traceIds.Keeps s.flows f fun _ => ids
  else s.manual = ids ∨ ∀ g ∈ s.flows, g = f

/-- The loop over the fields of the baggage. -/
def injectFields (fields : List (String × String)) (store : Context V) : Context V :=
  fields.foldl (fun store e => assign [(e.1, env.ofString e.2)] store) store

/-- What a round of the loop over the prior fields does to the fields. -/
def restoredField (e : String × Option V) : Context V → Context V :=
  match e.2 with
  | none => remove [e.1]
  | some v => assign [(e.1, v)]

/-- The loop over the prior fields. -/
def restoredFields (prior : List (String × Option V)) (store : Context V) : Context V :=
  prior.foldl (fun store e => restoredField e store) store

/-- What a flow writes is its alone, or stays as it is. -/
def Apart : F × Act F (Op V) → Prop
  | (f, .op (.bindContext values)) => s.contexts.Keeps s.flows f (assign values)
  | (f, .op (.unbindContext keys)) => s.contexts.Keeps s.flows f (remove keys)
  | (f, .op (.bindPropagationContext ctx)) =>
      s.propagation.Alone s.flows f ∧
        s.contexts.Keeps s.flows f (injectFields env (baggageFields ctx)) ∧
        (bridges ctx = true →
          KeepsIds s f (normalized (some (ctx.traceId.getD "")) (some (ctx.spanId.getD ""))))
  | (f, .op .clearPropagationContext) =>
      s.propagation.Keeps s.flows f popFrame ∧
        s.contexts.Keeps s.flows f
          (restoredFields ((getPropagationStore s f).baggagePriorStack.headD [])) ∧
        ∀ prevTrace ∈ (getPropagationStore s f).traceCtxStack.head?,
          KeepsIds s f (normalized prevTrace.traceId prevTrace.spanId)
  | (_, .spawn _) => True

end

section Decide

variable [DecidableEq V] [DecidableEq O]

instance (s : State F V O) (f : F) (ids : TraceIds) : Decidable (KeepsIds s f ids) :=
  inferInstanceAs (Decidable (if (s.traceIds.get f).isSome then _ else _))

instance (env : Env V O) (s : State F V O) : DecidablePred (Apart env s)
  | (f, .op (.bindContext values)) =>
      inferInstanceAs (Decidable (s.contexts.Keeps s.flows f (assign values)))
  | (f, .op (.unbindContext keys)) =>
      inferInstanceAs (Decidable (s.contexts.Keeps s.flows f (remove keys)))
  | (f, .op (.bindPropagationContext ctx)) =>
      inferInstanceAs (Decidable (s.propagation.Alone s.flows f ∧
        s.contexts.Keeps s.flows f (injectFields env (baggageFields ctx)) ∧
        (bridges ctx = true →
          KeepsIds s f (normalized (some (ctx.traceId.getD "")) (some (ctx.spanId.getD ""))))))
  | (f, .op .clearPropagationContext) =>
      inferInstanceAs (Decidable (s.propagation.Keeps s.flows f popFrame ∧
        s.contexts.Keeps s.flows f
          (restoredFields ((getPropagationStore s f).baggagePriorStack.headD [])) ∧
        ∀ prevTrace ∈ (getPropagationStore s f).traceCtxStack.head?,
          KeepsIds s f (normalized prevTrace.traceId prevTrace.spanId)))
  | (_, .spawn _) => inferInstanceAs (Decidable True)

end Decide

/-! ## What a flow sees -/

/-- What the operations of a flow and its reads depend on. -/
structure Sight (V O : Type) where
  store : Option (Context V)
  propagation : Option (PropagationStore V O)
  traceIds : Option TraceIds
  moduleCtx : Context V
  fallbackStore : PropagationStore V O
  manual : TraceIds

omit [DecidableEq F] in
/-- What a flow sees of a state. -/
def sight (s : State F V O) (f : F) : Sight V O where
  store := s.contexts.get f
  propagation := s.propagation.get f
  traceIds := s.traceIds.get f
  moduleCtx := s.moduleCtx
  fallbackStore := s.fallbackStore
  manual := s.manual

variable {env : Env V O} {s t : State F V O} {f g : F}

/-! ### One flow's operations, by what it sees -/

section Own

theorem sight_changeStore (h : sight s f = sight t g) (change : Context V → Context V) :
    sight (changeStore s f change) f = sight (changeStore t g change) g := by
  have hself : ∀ (s : State F V O) (f : F), sight (changeStore s f change) f =
      { sight s f with
        store := some (change ((sight s f).store.getD (sight s f).moduleCtx)) } := by
    intro s f
    rw [sight, changeStore]
    simp only [Scoped.get_modify_self, Scoped.get_ensure_self]
    rfl
  rw [hself, hself, h]

theorem sight_ensurePropagationStore (h : sight s f = sight t g) :
    sight (ensurePropagationStore s f) f = sight (ensurePropagationStore t g) g := by
  have hself : ∀ (s : State F V O) (f : F), sight (ensurePropagationStore s f) f =
      { sight s f with
        propagation := some ((sight s f).propagation.getD (sight s f).fallbackStore) } := by
    intro s f
    rw [sight, ensurePropagationStore]
    simp only [Scoped.get_ensure_self]
    rfl
  rw [hself, hself, h]

omit [DecidableEq F] in
theorem sight_changePropagationStore (h : sight s f = sight t g)
    (change : PropagationStore V O → PropagationStore V O) :
    sight (changePropagationStore s f change) f = sight (changePropagationStore t g change) g := by
  have hself : ∀ (s : State F V O) (f : F), sight (changePropagationStore s f change) f =
      { sight s f with propagation := (sight s f).propagation.map change } := by
    intro s f
    rw [sight, changePropagationStore]
    simp only [Scoped.get_modify_self]
    rfl
  rw [hself, hself, h]

omit [DecidableEq F] in
theorem sight_setTraceContext (h : sight s f = sight t g) (traceId spanId : Option String) :
    sight (setTraceContext s f traceId spanId) f =
      sight (setTraceContext t g traceId spanId) g := by
  have hself : ∀ (s : State F V O) (f : F), sight (setTraceContext s f traceId spanId) f =
      if (sight s f).traceIds.isSome then
        { sight s f with traceIds := some (normalized traceId spanId) }
      else { sight s f with manual := normalized traceId spanId } := by
    intro s f
    rw [setTraceContext]
    cases hids : s.traceIds.get f with
    | none => simp [sight, hids]
    | some ids => simp [sight, hids]
  rw [hself, hself, h]

omit [DecidableEq F] in
theorem getTraceContext_congr (h : sight s f = sight t g) :
    getTraceContext env s f = getTraceContext env t g := by
  have hself : ∀ (s : State F V O) (f : F), getTraceContext env s f =
      let traceId := ((sight s f).traceIds.bind TraceIds.traceId).or (sight s f).manual.traceId
      let spanId := ((sight s f).traceIds.bind TraceIds.spanId).or (sight s f).manual.spanId
      if traceId.isSome ∨ spanId.isSome then ⟨traceId, spanId⟩ else env.activeIds :=
    fun _ _ => rfl
  rw [hself, hself, h]

omit [DecidableEq F] in
theorem getContext_congr (h : sight s f = sight t g) : getContext s f = getContext t g := by
  have hself : ∀ (s : State F V O) (f : F), getContext s f =
      (sight s f).store.getD (sight s f).moduleCtx := fun _ _ => rfl
  rw [hself, hself, h]

omit [DecidableEq F] in
theorem getPropagationStore_congr (h : sight s f = sight t g) :
    getPropagationStore s f = getPropagationStore t g := by
  have hself : ∀ (s : State F V O) (f : F), getPropagationStore s f =
      (sight s f).propagation.getD (sight s f).fallbackStore := fun _ _ => rfl
  rw [hself, hself, h]

omit [DecidableEq F] in
/-- What a flow sees settles what it reads. -/
theorem reads_congr (h : sight s f = sight t g) : reads env s f = reads env t g := by
  rw [reads, reads, getContext_congr h, getTraceContext_congr h, getActivePropagationContext,
    getActivePropagationContext, getPropagationStore_congr h]

/-- A loop whose rounds change the fields. -/
theorem sight_foldl {β : Type} (change : β → Context V → Context V) (es : List β)
    (h : sight s f = sight t g) :
    sight (es.foldl (fun s e => changeStore s f (change e)) s) f =
      sight (es.foldl (fun t e => changeStore t g (change e)) t) g := by
  induction es generalizing s t with
  | nil => exact h
  | cons e es ih => exact ih (sight_changeStore h (change e))

omit [DecidableEq F] in
theorem sight_saveTrace (h : sight s f = sight t g) :
    sight (saveTrace env s f) f = sight (saveTrace env t g) g := by
  have hids : getTraceContext env s f = getTraceContext env t g := getTraceContext_congr h
  rw [saveTrace, saveTrace, hids]
  exact sight_changePropagationStore h _

omit [DecidableEq F] in
theorem sight_bridgeIds (h : sight s f = sight t g) (ctx : PropagationContext) :
    sight (bridgeIds s f ctx) f = sight (bridgeIds t g ctx) g := by
  rw [bridgeIds, bridgeIds]
  split
  next => exact sight_setTraceContext h _ _
  next => exact h

theorem sight_injectBaggage (h : sight s f = sight t g) (ctx : PropagationContext) :
    sight (injectBaggage env s f ctx) f = sight (injectBaggage env t g ctx) g := by
  have hprior : priorFields s f ctx = priorFields t g ctx := by
    rw [priorFields, priorFields, getContext_congr h]
  rw [injectBaggage, injectBaggage, hprior]
  exact sight_changePropagationStore
    (sight_foldl (fun e => assign [(e.1, env.ofString e.2)]) (baggageFields ctx) h) _

theorem sight_bindPropagationContext (h : sight s f = sight t g) (ctx : PropagationContext) :
    sight (bindPropagationContext env s f ctx) f =
      sight (bindPropagationContext env t g ctx) g := by
  have hframe := sight_changePropagationStore (sight_ensurePropagationStore h) (pushFrame env ctx)
  exact sight_injectBaggage (sight_bridgeIds (sight_saveTrace hframe) ctx) ctx

omit [DecidableEq F] in
theorem sight_restoreTrace (h : sight s f = sight t g) (prevTrace : Option TraceIds) :
    sight (restoreTrace s f prevTrace) f = sight (restoreTrace t g prevTrace) g := by
  cases prevTrace with
  | none => exact h
  | some prevTrace => exact sight_setTraceContext h _ _

theorem restoreField_eq (s : State F V O) (f : F) (e : String × Option V) :
    restoreField s f e = changeStore s f (restoredField e) := by
  rcases e with ⟨key, _ | v⟩ <;> rfl

theorem sight_clearPropagationContext (h : sight s f = sight t g) :
    sight (clearPropagationContext s f) f = sight (clearPropagationContext t g) g := by
  have hstore := sight_ensurePropagationStore h
  have hsame := getPropagationStore_congr hstore
  rw [clearPropagationContext, clearPropagationContext]
  simp only [hsame, restoreField_eq]
  exact sight_restoreTrace
    (sight_foldl restoredField _ (sight_changePropagationStore hstore popFrame)) _

/-- What a flow sees after an operation is settled by what it saw. -/
theorem sight_perform (h : sight s f = sight t g) (o : Op V) :
    sight (perform env s f o) f = sight (perform env t g o) g := by
  cases o with
  | bindContext values => exact sight_changeStore h _
  | unbindContext keys => exact sight_changeStore h _
  | bindPropagationContext ctx => exact sight_bindPropagationContext h ctx
  | clearPropagationContext => exact sight_clearPropagationContext h

end Own

/-! ### What the other flows see -/

section Others

theorem sight_changeStore_of_keeps {change : Context V → Context V}
    (h : s.contexts.Keeps s.flows f change) (hg : g ∈ s.flows) (hne : g ≠ f) :
    sight (changeStore s f change) g = sight s g := by
  rw [sight, changeStore]
  simp only [Scoped.get_modify_of_keeps h.ensure hg hne, Scoped.get_ensure_of_ne hne]
  rfl

/-- Two changes of the fields are one. -/
theorem changeStore_changeStore (s : State F V O) (f : F)
    (change change' : Context V → Context V) :
    changeStore (changeStore s f change) f change' =
      changeStore s f fun store => change' (change store) := by
  rw [changeStore, changeStore, changeStore]
  simp only [Scoped.ensure_modify_ensure, Scoped.modify_modify]

/-- A loop over the fields is one change of them, if it has a round. -/
theorem foldl_changeStore {β : Type} (change : β → Context V → Context V) (e : β) (es : List β)
    (s : State F V O) (f : F) :
    (e :: es).foldl (fun s e => changeStore s f (change e)) s =
      changeStore s f fun store => (e :: es).foldl (fun store e => change e store) store := by
  induction es generalizing e s with
  | nil => rfl
  | cons e' es ih =>
      rw [List.foldl_cons, ih, changeStore_changeStore]
      rfl

theorem sight_foldl_of_keeps {β : Type} {change : β → Context V → Context V} {es : List β}
    (h : s.contexts.Keeps s.flows f fun store => es.foldl (fun store e => change e store) store)
    (hg : g ∈ s.flows) (hne : g ≠ f) :
    sight (es.foldl (fun s e => changeStore s f (change e)) s) g = sight s g := by
  cases es with
  | nil => rfl
  | cons e es =>
      rw [foldl_changeStore]
      exact sight_changeStore_of_keeps h hg hne

theorem sight_ensurePropagationStore_of_ne (hne : g ≠ f) :
    sight (ensurePropagationStore s f) g = sight s g := by
  rw [sight, ensurePropagationStore]
  simp only [Scoped.get_ensure_of_ne hne]
  rfl

omit [DecidableEq F] in
theorem sight_changePropagationStore_of_keeps
    {change : PropagationStore V O → PropagationStore V O}
    (h : s.propagation.Keeps s.flows f change) (hg : g ∈ s.flows) (hne : g ≠ f) :
    sight (changePropagationStore s f change) g = sight s g := by
  rw [sight, changePropagationStore]
  simp only [Scoped.get_modify_of_keeps h hg hne]
  rfl

omit [DecidableEq F] in
theorem sight_setTraceContext_of_keepsIds {traceId spanId : Option String}
    (h : KeepsIds s f (normalized traceId spanId)) (hg : g ∈ s.flows) (hne : g ≠ f) :
    sight (setTraceContext s f traceId spanId) g = sight s g := by
  rw [KeepsIds] at h
  rw [setTraceContext]
  cases hids : s.traceIds.get f with
  | none =>
      rw [hids, Option.isSome_none, if_neg Bool.false_ne_true] at h
      rcases h with hsame | halone
      · rw [← hsame]
      · exact absurd (halone g hg) hne
  | some ids =>
      rw [hids, Option.isSome_some, if_pos rfl] at h
      simp only [sight, Scoped.get_modify_of_keeps h hg hne]

omit [DecidableEq F] in
/-- The trace ids are apart from everything else. -/
theorem setTraceContext_rest (s : State F V O) (f : F) (traceId spanId : Option String) :
    (setTraceContext s f traceId spanId).flows = s.flows ∧
      (setTraceContext s f traceId spanId).contexts = s.contexts ∧
      (setTraceContext s f traceId spanId).propagation = s.propagation := by
  rw [setTraceContext]
  cases s.traceIds.get f with
  | none => exact ⟨rfl, rfl, rfl⟩
  | some ids => exact ⟨rfl, rfl, rfl⟩

omit [DecidableEq F] in
theorem bridgeIds_rest (s : State F V O) (f : F) (ctx : PropagationContext) :
    (bridgeIds s f ctx).flows = s.flows ∧ (bridgeIds s f ctx).contexts = s.contexts ∧
      (bridgeIds s f ctx).propagation = s.propagation := by
  rw [bridgeIds]
  split
  next => exact setTraceContext_rest s f _ _
  next => exact ⟨rfl, rfl, rfl⟩

/-- The fields are apart from everything else. -/
theorem foldl_rest {β : Type} (change : β → Context V → Context V) (es : List β)
    (s : State F V O) (f : F) :
    ∃ contexts, es.foldl (fun s e => changeStore s f (change e)) s =
      { s with contexts := contexts } := by
  cases es with
  | nil => exact ⟨s.contexts, rfl⟩
  | cons e es => exact ⟨_, foldl_changeStore change e es s f⟩

omit [DecidableEq F] in
theorem sight_bridgeIds_of_keepsIds {ctx : PropagationContext}
    (h : bridges ctx = true →
      KeepsIds s f (normalized (some (ctx.traceId.getD "")) (some (ctx.spanId.getD ""))))
    (hg : g ∈ s.flows) (hne : g ≠ f) : sight (bridgeIds s f ctx) g = sight s g := by
  rw [bridgeIds]
  split
  next hbridges => exact sight_setTraceContext_of_keepsIds (h hbridges) hg hne
  next => rfl

theorem sight_injectBaggage_of_keeps {ctx : PropagationContext}
    (hfields : s.contexts.Keeps s.flows f (injectFields env (baggageFields ctx)))
    (halone : s.propagation.Alone s.flows f) (hg : g ∈ s.flows) (hne : g ≠ f) :
    sight (injectBaggage env s f ctx) g = sight s g := by
  have hloop : sight ((baggageFields ctx).foldl
      (fun s e => changeStore s f (assign [(e.1, env.ofString e.2)])) s) g = sight s g :=
    sight_foldl_of_keeps hfields hg hne
  rcases foldl_rest (fun e => assign [(e.1, env.ofString e.2)]) (baggageFields ctx) s f with
    ⟨contexts, hrest⟩
  rw [hrest] at hloop
  have hinject : injectBaggage env s f ctx = changePropagationStore { s with contexts } f
      fun store => { store with baggagePriorStack := priorFields s f ctx ::
        store.baggagePriorStack } :=
    congrArg (fun s' => changePropagationStore s' f _) hrest
  rw [hinject, ← hloop]
  exact sight_changePropagationStore_of_keeps (.inl halone) hg hne

theorem sight_bindPropagationContext_of_apart {ctx : PropagationContext}
    (h : Apart env s (f, .op (.bindPropagationContext ctx))) (hg : g ∈ s.flows) (hne : g ≠ f) :
    sight (bindPropagationContext env s f ctx) g = sight s g := by
  rcases h with ⟨halone, hfields, hids⟩
  -- each step leaves what the conditions on the next ones are about
  have hstore : (s.propagation.ensure f s.fallbackStore).Alone s.flows f := halone.ensure
  let s₁ := changePropagationStore (ensurePropagationStore s f) f (pushFrame env ctx)
  have hpush : sight s₁ g = sight (ensurePropagationStore s f) g :=
    sight_changePropagationStore_of_keeps (.inl hstore) hg hne
  have hsave : sight (saveTrace env s₁ f) g = sight s₁ g :=
    sight_changePropagationStore_of_keeps (.inl hstore) hg hne
  have hbridge : sight (bridgeIds (saveTrace env s₁ f) f ctx) g = sight (saveTrace env s₁ f) g :=
    sight_bridgeIds_of_keepsIds hids hg hne
  rcases bridgeIds_rest (saveTrace env s₁ f) f ctx with ⟨hflows, hcontexts, hpropagation⟩
  have hinject : sight (injectBaggage env (bridgeIds (saveTrace env s₁ f) f ctx) f ctx) g =
      sight (bridgeIds (saveTrace env s₁ f) f ctx) g := by
    apply sight_injectBaggage_of_keeps
    · rw [hflows, hcontexts]
      exact hfields
    · rw [hflows, hpropagation]
      exact hstore
    · rw [hflows]
      exact hg
    · exact hne
  calc sight (bindPropagationContext env s f ctx) g
      = sight (bridgeIds (saveTrace env s₁ f) f ctx) g := hinject
    _ = sight (saveTrace env s₁ f) g := hbridge
    _ = sight s₁ g := hsave
    _ = sight (ensurePropagationStore s f) g := hpush
    _ = sight s g := sight_ensurePropagationStore_of_ne hne

theorem getPropagationStore_ensurePropagationStore :
    getPropagationStore (ensurePropagationStore s f) f = getPropagationStore s f := by
  rw [getPropagationStore, ensurePropagationStore]
  simp only [Scoped.get_ensure_self, Option.getD_some]
  rfl

theorem sight_clearPropagationContext_of_apart
    (h : Apart env s (f, .op .clearPropagationContext)) (hg : g ∈ s.flows) (hne : g ≠ f) :
    sight (clearPropagationContext s f) g = sight s g := by
  rcases h with ⟨hpop, hfields, hids⟩
  let store := getPropagationStore s f
  let s₁ := changePropagationStore (ensurePropagationStore s f) f popFrame
  have hpopped : sight s₁ g = sight (ensurePropagationStore s f) g :=
    sight_changePropagationStore_of_keeps hpop.ensure hg hne
  have hloop : sight ((store.baggagePriorStack.headD []).foldl
      (fun s e => changeStore s f (restoredField e)) s₁) g = sight s₁ g :=
    sight_foldl_of_keeps hfields hg hne
  rcases foldl_rest restoredField (store.baggagePriorStack.headD []) s₁ f with ⟨contexts, hrest⟩
  rw [hrest] at hloop
  have hclear : clearPropagationContext s f =
      restoreTrace { s₁ with contexts } f store.traceCtxStack.head? := by
    rw [clearPropagationContext]
    simp only [getPropagationStore_ensurePropagationStore, restoreField_eq]
    exact congrArg (fun s' => restoreTrace s' f _) hrest
  have htrace : sight (restoreTrace { s₁ with contexts } f store.traceCtxStack.head?) g =
      sight { s₁ with contexts } g := by
    cases hprev : store.traceCtxStack.head? with
    | none => rfl
    | some prevTrace => exact sight_setTraceContext_of_keepsIds (hids prevTrace hprev) hg hne
  calc sight (clearPropagationContext s f) g
      = sight { s₁ with contexts } g := (congrArg (fun s' => sight s' g) hclear).trans htrace
    _ = sight s₁ g := hloop
    _ = sight (ensurePropagationStore s f) g := hpopped
    _ = sight s g := sight_ensurePropagationStore_of_ne hne

/-- The other flows see what they saw. -/
theorem sight_perform_of_apart {o : Op V} (h : Apart env s (f, .op o)) (hg : g ∈ s.flows)
    (hne : g ≠ f) : sight (perform env s f o) g = sight s g := by
  cases o with
  | bindContext values => exact sight_changeStore_of_keeps h hg hne
  | unbindContext keys => exact sight_changeStore_of_keeps h hg hne
  | bindPropagationContext ctx => exact sight_bindPropagationContext_of_apart h hg hne
  | clearPropagationContext => exact sight_clearPropagationContext_of_apart h hg hne

end Others

/-! ### Runs -/

theorem flows_perform (s : State F V O) (f : F) (o : Op V) :
    (perform env s f o).flows = s.flows := by
  cases o with
  | bindContext values => rfl
  | unbindContext keys => rfl
  | bindPropagationContext ctx =>
      let s₁ := changePropagationStore (ensurePropagationStore s f) f (pushFrame env ctx)
      rcases foldl_rest (fun e => assign [(e.1, env.ofString e.2)]) (baggageFields ctx)
        (bridgeIds (saveTrace env s₁ f) f ctx) f with ⟨contexts, hrest⟩
      exact (congrArg State.flows hrest).trans (bridgeIds_rest (saveTrace env s₁ f) f ctx).1
  | clearPropagationContext =>
      rw [perform, clearPropagationContext]
      simp only [getPropagationStore_ensurePropagationStore, restoreField_eq]
      rcases foldl_rest restoredField ((getPropagationStore s f).baggagePriorStack.headD [])
        (changePropagationStore (ensurePropagationStore s f) f popFrame) f with ⟨contexts, hrest⟩
      rw [hrest]
      cases (getPropagationStore s f).traceCtxStack.head? with
      | none => rfl
      | some prevTrace => exact (setTraceContext_rest _ f _ _).1

theorem sight_spawn (s : State F V O) (f child g : F) :
    sight (spawn s f child) g = if g = child then sight s f else sight s g := by
  rw [sight, spawn]
  simp only [Scoped.get_inherit]
  split <;> rfl

theorem step_op {root : F} {start s s' : State F V O} {o : Op V}
    (h : (machine env root start).step s (f, .op o) = some s') : s' = perform env s f o := by
  rw [machine] at h
  simp only [Option.ite_none_right_eq_some, Option.some.injEq] at h
  exact h.2.symm

theorem step_spawn {root : F} {start s s' : State F V O} {child : F}
    (h : (machine env root start).step s (f, .spawn child) = some s') :
    f ∈ s.flows ∧ child ∉ s.flows ∧ s' = spawn s f child := by
  rw [machine] at h
  simp only [Option.ite_none_right_eq_some, Option.some.injEq] at h
  exact ⟨h.1.1, h.1.2, h.2.symm⟩

theorem forks_machine (env : Env V O) (root : F) (start : State F V O) :
    Forks (machine env root start) root State.flows sight where
  root := rfl
  ready s f o := by
    rw [machine]
    simp
  op h := by
    rw [step_op h, flows_perform]
  spawn h := by
    rcases step_spawn h with ⟨hf, hchild, rfl⟩
    exact ⟨hf, hchild, rfl⟩
  own hsame h h' := by
    rw [step_op h, step_op h']
    exact sight_perform hsame _
  inherits := by
    intro s s' f child h
    rcases step_spawn h with ⟨-, hchild, rfl⟩
    refine ⟨by rw [sight_spawn, if_pos rfl], fun g hg => ?_⟩
    have hne : g ≠ child := fun heq => hchild (heq ▸ hg)
    rw [sight_spawn, if_neg hne]

/-- **When every flow is isolated**: in every run of steps that write only what is the flow's alone,
or leave it as it is. -/
theorem isolated_of_apart {root : F} {start : State F V O} {run : List (F × Act F (Op V))}
    (h : (machine env root start).Guarded (Apart env) (machine env root start).init run) :
    Isolated env root start run := by
  intro s hs f hf
  have hframe : ∀ s s' f o, Apart env s (f, .op o) →
      (machine env root start).step s (f, .op o) = some s' →
        ∀ g ∈ s.flows, g ≠ f → sight s' g = sight s g := by
    intro s s' f o hapart hstep g hg hne
    rw [step_op hstep]
    exact sight_perform_of_apart hapart hg hne
  rcases (forks_machine env root start).exists_alone hframe h hs hf with ⟨ops, hops, t, ht, hsight⟩
  exact ⟨ops, hops, t, ht, reads_congr hsight⟩

/-! ### Requests -/

/-- Strings as fields, and no OpenTelemetry. -/
def plain : Env String Unit where
  ofString := id
  activeIds := {}
  extract _ _ := none

/-- The modules as they are loaded. -/
def loaded : State ℕ String Unit where
  flows := []
  contexts := .empty
  propagation := .empty
  traceIds := .empty
  moduleCtx := []
  fallbackStore := {}
  manual := {}

/-- Two requests, each with fields and baggage of its own. -/
def twoRequests : List (ℕ × Act ℕ (Op String)) :=
  [(0, .spawn 1), (0, .spawn 2), (1, .op (.bindContext [("user", "ada")])),
    (2, .op (.bindPropagationContext { baggage := some "k=2" })),
    (1, .op (.bindPropagationContext { baggage := some "k=1" })),
    (2, .op (.bindContext [("user", "bob")])), (1, .op .clearPropagationContext),
    (2, .op (.unbindContext ["user"])), (2, .op .clearPropagationContext)]

/-- They are isolated. -/
theorem isolated_twoRequests : Isolated plain 0 loaded twoRequests :=
  isolated_of_apart (by decide)

/-- A field is bound before two requests are started, and one of them binds its own. -/
def sharedFields : List (ℕ × Act ℕ (Op String)) :=
  [(0, .op (.bindContext [("app", "shop")])), (0, .spawn 1), (0, .spawn 2),
    (1, .op (.bindContext [("user", "ada")]))]

/-- One of two requests comes with a `traceparent`. -/
def sharedIds : List (ℕ × Act ℕ (Op String)) :=
  [(0, .spawn 1), (0, .spawn 2),
    (1, .op (.bindPropagationContext
      { traceparent := some "00-0af7651916cd43dd8448eb211c80319c-b7ad6b7169203331-01"
        traceId := some "0af7651916cd43dd8448eb211c80319c"
        spanId := some "b7ad6b7169203331" }))]

/-- Two flows that read the same. -/
theorem Isolated.reads_eq {root : F} {start : State F V O} {run : List (F × Act F (Op V))}
    (h : Isolated env root start run) {f : F} {ops : List (Op V)}
    (hops : lineage root run f = some ops)
    (hf : ∀ s ∈ (machine env root start).run run, f ∈ s.flows) :
    ∀ s ∈ (machine env root start).run run,
      ((machine env root start).run (madeBy root ops)).map (fun t => reads env t root) =
        some (reads env s f) := by
  intro s hs
  rcases h s hs f (hf s hs) with ⟨ops', hops', t, ht, hreads⟩
  rw [hops, Option.some.injEq] at hops'
  subst hops'
  rw [ht, Option.map_some, hreads]

/-- Of a request that did nothing the fields of another are read, and its trace ids. -/
theorem not_isolated :
    ¬ Isolated plain 0 loaded sharedFields ∧ ¬ Isolated plain 0 loaded sharedIds := by
  constructor
  · intro h
    have hops : lineage 0 sharedFields 2 = some [.bindContext [("app", "shop")]] := rfl
    have hsame := h.reads_eq hops (by decide)
    revert hsame
    decide
  · intro h
    have hops : lineage 0 sharedIds 2 = some [] := rfl
    have hsame := h.reads_eq hops (by decide)
    revert hsame
    decide

end Telemetry.Propagation.TypeScript
