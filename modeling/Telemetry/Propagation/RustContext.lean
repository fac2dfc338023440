import Telemetry.Lib.Dict
import Telemetry.Lib.Restorers
import Telemetry.Propagation.BaggagePorts

/-!
# Context guards of the Rust SDK

Every thread has a snapshot of the fields and ids that are bound on it, and so has every task of
the runtime. A call that changes the snapshot of the scope in which it runs returns a guard; when
the guard is dropped, anywhere, the snapshot from before the call is written back. The guard names
a task by its id, but a thread only as *the* thread, which is the one that runs the drop.

## Main definitions

* `Context`, `replaceSnapshot`, `ContextGuard.drop` — the snapshots, and how they change.
* `Call` — the functions that return a guard.
* `System`, `machine` — calls and drops on any threads and tasks.
* `OnOwnThread` — a guard from a thread is dropped on that thread.

## Main results

* `drop_restores` — **a drop puts back the scope of its guard** in runs in which no guard from a
  thread is dropped on another one.
* `propagation_restores` — the guard of `bind_propagation_context`.
-/

namespace Telemetry.Propagation.Rust

open Telemetry.Lib

/-- A `serde_json::Value`: a string, or any other. -/
inductive Value (O : Type)
  | string (text : String)
  | other (value : O)
  deriving DecidableEq

/-- `ContextSnapshot`. -/
structure ContextSnapshot (O : Type) where
  fields : SortedMap String (Value O) := .empty
  sessionId : Option String := none
  traceId : Option String := none
  spanId : Option String := none

variable {O : Type}

namespace ContextSnapshot

/-- `snapshot == ContextSnapshot::default()`. -/
def isDefault (s : ContextSnapshot O) : Bool :=
  s.fields.entries.isEmpty && s.sessionId.isNone && s.traceId.isNone && s.spanId.isNone

theorem isDefault_iff {s : ContextSnapshot O} : s.isDefault = true ↔ s = {} := by
  obtain ⟨⟨entries, hsorted⟩, sessionId, traceId, spanId⟩ := s
  simp [isDefault, SortedMap.empty, and_assoc]

end ContextSnapshot

/-! ## The snapshots -/

/-- `ContextScopeKey`. -/
inductive ContextScopeKey (K : Type)
  | task (id : K)
  | thread
  deriving DecidableEq

/-- Where code runs: on a thread, and maybe in a task. -/
structure Place (T K : Type) where
  thread : T
  task : Option K
  deriving DecidableEq

/-- What has a snapshot of its own. -/
inductive Scope (T K : Type)
  | thread (t : T)
  | task (id : K)
  deriving DecidableEq

/-- `ContextGuard`. -/
structure ContextGuard (O K : Type) where
  key : ContextScopeKey K
  previous : ContextSnapshot O
  epoch : ℕ

/-- `THREAD_CONTEXT` on every thread, `TASK_CONTEXTS` and `CONTEXT_EPOCH`. -/
structure Context (O T K : Type) where
  threads : T → ContextSnapshot O := fun _ => {}
  tasks : Dict K (ContextSnapshot O) := Dict.empty
  epoch : ℕ := 0

variable {T K : Type} [DecidableEq T] [DecidableEq K]

namespace Place

/-- `current_scope_key`. -/
def currentScopeKey (p : Place T K) : ContextScopeKey K :=
  match p.task with
  | some id => .task id
  | none => .thread

/-- The scope that a key names on a thread. -/
def scopeOf (p : Place T K) : ContextScopeKey K → Scope T K
  | .task id => .task id
  | .thread => .thread p.thread

/-- The scope in which code runs. -/
def scope (p : Place T K) : Scope T K := p.scopeOf p.currentScopeKey

end Place

namespace Context

/-- The snapshot of a scope. -/
def snapshot (c : Context O T K) : Scope T K → ContextSnapshot O
  | .task id => (c.tasks.get? id).getD {}
  | .thread t => c.threads t

/-- `current_snapshot`. -/
def currentSnapshot (p : Place T K) (c : Context O T K) : ContextSnapshot O :=
  match p.currentScopeKey with
  | .task id => (c.tasks.get? id).getD {}
  | .thread => c.threads p.thread

/-- `set_snapshot_for_key`, run at a place. -/
def setSnapshotForKey (p : Place T K) (key : ContextScopeKey K) (snapshot : ContextSnapshot O)
    (c : Context O T K) : Context O T K :=
  match key with
  | .task id =>
      if snapshot.isDefault then { c with tasks := c.tasks.erase id }
      else { c with tasks := c.tasks.set id snapshot }
  | .thread => { c with threads := Function.update c.threads p.thread snapshot }

/-- `replace_snapshot`. -/
def replaceSnapshot (p : Place T K) (next : ContextSnapshot O) (c : Context O T K) :
    Context O T K × ContextGuard O K :=
  let key := p.currentScopeKey
  (c.setSnapshotForKey p key next, ⟨key, c.currentSnapshot p, c.epoch⟩)

/-- No task has an entry with the default snapshot. -/
def OnlyBound (c : Context O T K) : Prop := ∀ id s, c.tasks.get? id = some s → s ≠ {}

end Context

/-- `drop` of a guard, run at a place. -/
def ContextGuard.drop (p : Place T K) (g : ContextGuard O K) (c : Context O T K) :
    Context O T K :=
  if c.epoch = g.epoch then c.setSnapshotForKey p g.key g.previous else c

namespace Context

variable (p : Place T K) (key : ContextScopeKey K) (next : ContextSnapshot O) (c : Context O T K)

omit [DecidableEq T] in
theorem currentSnapshot_eq : c.currentSnapshot p = c.snapshot p.scope := by
  obtain ⟨t, task⟩ := p
  cases task <;> rfl

@[simp] theorem epoch_setSnapshotForKey : (c.setSnapshotForKey p key next).epoch = c.epoch := by
  cases key with
  | thread => rfl
  | task id =>
      rw [setSnapshotForKey]
      split <;> rfl

/-- **Writing a snapshot changes one scope.** -/
theorem snapshot_setSnapshotForKey :
    (c.setSnapshotForKey p key next).snapshot =
      Function.update c.snapshot (p.scopeOf key) next := by
  ext1 scope
  cases key with
  | thread =>
      cases scope with
      | task id => simp [setSnapshotForKey, snapshot, Place.scopeOf]
      | thread t => simp [setSnapshotForKey, snapshot, Place.scopeOf, Function.update_apply]
  | task id =>
      rw [setSnapshotForKey]
      split
      next hdefault =>
        obtain rfl := ContextSnapshot.isDefault_iff.mp hdefault
        cases scope with
        | thread t => simp [snapshot, Place.scopeOf]
        | task id' =>
            by_cases h : id' = id <;> simp [snapshot, Place.scopeOf, Function.update_apply, h]
      next =>
        cases scope with
        | thread t => simp [snapshot, Place.scopeOf]
        | task id' =>
            by_cases h : id' = id <;> simp [snapshot, Place.scopeOf, Function.update_apply, h]

/-- Default snapshots are not kept. -/
theorem OnlyBound.setSnapshotForKey {c : Context O T K} (h : c.OnlyBound) (p : Place T K)
    (key : ContextScopeKey K) (next : ContextSnapshot O) :
    (c.setSnapshotForKey p key next).OnlyBound := by
  cases key with
  | thread => exact h
  | task id =>
      intro id' s hs
      rw [Context.setSnapshotForKey] at hs
      split at hs
      next =>
        rw [Dict.get?_erase] at hs
        split at hs
        · cases hs
        · exact h id' s hs
      next hdefault =>
        rw [Dict.get?_set] at hs
        split at hs
        · obtain rfl := Option.some.inj hs
          exact fun heq => hdefault (ContextSnapshot.isDefault_iff.mpr heq)
        · exact h id' s hs

end Context

/-! ## The calls -/

/-- The functions that return a guard, with their arguments. -/
inductive Call (O : Type)
  | bindContext (fields : List (String × Value O))
  | unbindContext (keys : List String)
  | clearContext
  | bindSessionContext (sessionId : String)
  | clearSessionContext
  /-- `set_trace_context_internal` -/
  | setTraceContext (traceId spanId : Option String)

namespace Call

/-- The snapshot that a call makes of the current one. -/
def next : Call O → ContextSnapshot O → ContextSnapshot O
  | .bindContext fields, s => { s with fields := s.fields.extend fields }
  | .unbindContext keys, s => { s with fields := keys.foldl SortedMap.erase s.fields }
  | .clearContext, s => { s with fields := .empty }
  | .bindSessionContext sessionId, s =>
      { s with sessionId := some sessionId
               fields := s.fields.insert "session_id" (.string sessionId) }
  | .clearSessionContext, s =>
      { s with sessionId := none, fields := s.fields.erase "session_id" }
  | .setTraceContext traceId spanId, s => { s with traceId := traceId, spanId := spanId }

/-- A call at a place. -/
def run (call : Call O) (p : Place T K) (c : Context O T K) : Context O T K × ContextGuard O K :=
  c.replaceSnapshot p (call.next (c.currentSnapshot p))

end Call

/-! ## Runs -/

/-- A guard, and the scope of the call that returned it. -/
structure Held (O T K : Type) where
  guard : ContextGuard O K
  scope : Scope T K

/-- The context and the guards. A guard is `none` when it has been dropped. -/
structure System (O T K : Type) where
  context : Context O T K := {}
  guards : List (Option (Held O T K)) := []

/-- What happens next, and where: a call, or the drop of the guard with a number. -/
inductive Label (O T K : Type)
  | call (p : Place T K) (call : Call O)
  | drop (p : Place T K) (n : ℕ)

/-- A call returns a guard. -/
def Label.isCall : Label O T K → Bool
  | .call _ _ => true
  | .drop _ _ => false

/-- Any calls and drops, one at a time. A call is one step, although `bind_context` and its siblings
lock `TASK_CONTEXTS` three times: they read the snapshot that they change, read the one that the
guard keeps, and write. What comes between two of these is not a run here. -/
def machine (O T K : Type) [DecidableEq T] [DecidableEq K] :
    Machine (System O T K) (Label O T K) where
  init := {}
  step s
    | .call p call =>
        let (context, guard) := call.run p s.context
        some { context := context, guards := s.guards ++ [some ⟨guard, p.scope⟩] }
    | .drop p n =>
        match s.guards[n]? with
        | some (some held) => some
            { context := held.guard.drop p s.context, guards := s.guards.set n none }
        | _ => none

/-- A guard from a thread is dropped on that thread. -/
def OnOwnThread (s : System O T K) : Label O T K → Prop
  | .call _ _ => True
  | .drop p n => ∀ held, s.guards[n]? = some (some held) →
      held.guard.key = .thread → held.scope = .thread p.thread

/-! ## What one step does -/

namespace System

variable {s s' : System O T K} {l : Label O T K} {p : Place T K} {call : Call O} {n : ℕ}

/-- Only a guard that is still held can be dropped. -/
theorem step_drop (h : (machine O T K).step s (.drop p n) = some s') :
    ∃ held, s.guards[n]? = some (some held) ∧
      s' = { context := held.guard.drop p s.context, guards := s.guards.set n none } := by
  simp only [machine] at h
  split at h
  next held hheld => exact ⟨held, hheld, (Option.some.inj h).symm⟩
  next => cases h

/-- Every guard has the current epoch, and a task's key is its scope. -/
structure Sound (s : System O T K) : Prop where
  epoch : ∀ held, some held ∈ s.guards → held.guard.epoch = s.context.epoch
  task : ∀ held, some held ∈ s.guards → ∀ id, held.guard.key = .task id → held.scope = .task id
  bound : s.context.OnlyBound

omit [DecidableEq T] in
theorem sound_init : ({} : System O T K).Sound := by
  constructor
  · intro held h
    simp at h
  · intro held h
    simp at h
  · intro id snapshot h
    simp at h

/-- The drop of a guard with the current epoch. -/
theorem drop_eq {held : Held O T K} (h : held.guard.epoch = s.context.epoch) (p : Place T K) :
    held.guard.drop p s.context =
      s.context.setSnapshotForKey p held.guard.key held.guard.previous := by
  rw [ContextGuard.drop, if_pos h.symm]

theorem Sound.step (hs : s.Sound) (h : (machine O T K).step s l = some s') : s'.Sound := by
  cases l with
  | call p call =>
      obtain rfl := Option.some.inj h
      constructor
      · intro held hheld
        rw [List.mem_append, List.mem_singleton, Option.some.injEq] at hheld
        obtain hold | rfl := hheld
        · simpa [Call.run, Context.replaceSnapshot] using hs.epoch held hold
        · exact (Context.epoch_setSnapshotForKey p _ _ s.context).symm
      · intro held hheld id hkey
        rw [List.mem_append, List.mem_singleton, Option.some.injEq] at hheld
        obtain hold | rfl := hheld
        · exact hs.task held hold id hkey
        · have hcurrent : p.currentScopeKey = .task id := hkey
          simp [Place.scope, hcurrent, Place.scopeOf]
      · exact hs.bound.setSnapshotForKey p _ _
  | drop p n =>
      obtain ⟨held, hheld, rfl⟩ := step_drop h
      have hepoch := hs.epoch held (List.mem_of_getElem? hheld)
      have hmem : ∀ other, some other ∈ s.guards.set n none → some other ∈ s.guards := by
        intro other hother
        obtain hold | heq := List.mem_or_eq_of_mem_set hother
        · exact hold
        · cases heq
      rw [drop_eq hepoch]
      constructor
      · intro other hother
        simpa using hs.epoch other (hmem other hother)
      · exact fun other hother => hs.task other (hmem other hother)
      · exact hs.bound.setSnapshotForKey p _ _

theorem sound_reachable {G : System O T K → Label O T K → Prop}
    (h : (machine O T K).Reachable G s) : s.Sound :=
  h.invariant sound_init fun _ _ _ hs _ hstep => hs.step hstep

/-! ## The snapshots as cells -/

/-- The snapshots as cells that are put back. -/
def view (s : System O T K) : Cells (Scope T K) (ContextSnapshot O) where
  cells := s.context.snapshot
  guards := s.guards.map fun slot => slot.map fun held => (held.scope, held.guard.previous)

end System

/-- A call changes the scope in which it runs. -/
def Label.view : Label O T K → Restorer (Scope T K) (ContextSnapshot O)
  | .call p c => .take p.scope c.next
  | .drop _ n => .drop n

omit [DecidableEq T] [DecidableEq K] in
@[simp] theorem Label.isTake_view (l : Label O T K) : l.view.isTake = l.isCall := by
  cases l <;> rfl

namespace System

variable {s s' : System O T K} {l : Label O T K} {ls : List (Label O T K)}

/-- **Each step, seen on the cells**: a drop on the thread of its guard is the drop there. -/
theorem view_step (hs : s.Sound) (hg : OnOwnThread s l)
    (h : (machine O T K).step s l = some s') :
    (restorers fun _ => {}).step s.view l.view = some s'.view := by
  cases l with
  | call p call =>
      obtain rfl := Option.some.inj h
      simp [restorers_step_take, Label.view, view, Context.snapshot_setSnapshotForKey,
        Context.currentSnapshot_eq, Place.scope]
  | drop p n =>
      obtain ⟨held, hheld, rfl⟩ := step_drop h
      have hmem := List.mem_of_getElem? hheld
      have hscope : p.scopeOf held.guard.key = held.scope := by
        cases hkey : held.guard.key with
        | task id => exact (hs.task held hmem id hkey).symm
        | thread => exact (hg held hheld hkey).symm
      rw [drop_eq (hs.epoch held hmem)]
      simp [restorers, Label.view, view, hheld, Context.snapshot_setSnapshotForKey, hscope,
        List.map_set]

/-- A run in which no guard from a thread is dropped on another one, seen on the cells. -/
theorem view_run (hg : (machine O T K).Guarded OnOwnThread {} ls)
    (h : (machine O T K).run ls = some s) :
    (restorers fun _ => {}).run (ls.map Label.view) = some s.view := by
  refine Machine.run_map view Label.view ?_ ?_ hg h
  · refine congrArg₂ Cells.mk ?_ rfl
    ext1 scope
    cases scope <;> rfl
  · exact fun s l s' hs hown hstep => view_step (sound_reachable hs) hown hstep

end System

/-! ## The whole run -/

variable {s : System O T K} {ls earlier : List (Label O T K)} {p : Place T K} {n : ℕ}

/-- The call of the guard that is dropped last in a run, and what its drop does. -/
theorem exists_call (hg : (machine O T K).Guarded OnOwnThread {} (earlier ++ [.drop p n]))
    (h : (machine O T K).run (earlier ++ [.drop p n]) = some s) :
    ∃ pre q call mid before last, earlier = pre ++ .call q call :: mid ∧
      pre.countP Label.isCall = n ∧
      (machine O T K).run pre = some before ∧ (machine O T K).run earlier = some last ∧
      s.context.snapshot q.scope = before.context.snapshot q.scope ∧
      ∀ scope, scope ≠ q.scope → s.context.snapshot scope = last.context.snapshot scope := by
  have hview := System.view_run hg h
  rw [List.map_append, List.map_singleton] at hview
  obtain ⟨pre', scope, change, mid', t, t', hls, hcount, ht, ht', hsame, hothers⟩ :=
    restorers_drop hview
  obtain ⟨pre, rest, rfl, rfl, hrest⟩ := List.map_eq_append_iff.mp hls
  obtain ⟨l, mid, rfl, hl, -⟩ := List.map_eq_cons_iff.mp hrest
  cases l with
  | drop q m => cases hl
  | call q c =>
      injection hl with hscope
      obtain ⟨last, hlast, -⟩ := Machine.run_concat.mp h
      obtain ⟨before, hbefore, -⟩ := Machine.runFrom_append.mp hlast
      have hearlier := System.view_run hg.initial hlast
      have hpre := System.view_run hg.initial.initial hbefore
      obtain rfl := Option.some.inj (ht.symm.trans hpre)
      obtain rfl := Option.some.inj (ht'.symm.trans hearlier)
      refine ⟨pre, q, c, mid, before, last, rfl, ?_, hbefore, hlast, ?_, ?_⟩
      · rw [← hcount, List.countP_map]
        exact List.countP_congr fun l _ => by simp
      · rw [hscope]
        exact hsame
      · rw [hscope]
        exact hothers

/-- **A drop puts back the scope of its guard.** If in a run no guard from a thread is dropped on
another thread, then no task has an entry with the default snapshot, and after a drop the scope in
which the call of the guard ran has the snapshot from before that call, while every other scope has
the one from before the drop. -/
theorem drop_restores (hg : (machine O T K).Guarded OnOwnThread {} ls)
    (h : (machine O T K).run ls = some s) :
    s.context.OnlyBound ∧
      ∀ earlier p n, ls = earlier ++ [.drop p n] →
        ∃ pre q call mid before last, earlier = pre ++ .call q call :: mid ∧
          pre.countP Label.isCall = n ∧
          (machine O T K).run pre = some before ∧ (machine O T K).run earlier = some last ∧
          s.context.snapshot q.scope = before.context.snapshot q.scope ∧
          ∀ scope, scope ≠ q.scope →
            s.context.snapshot scope = last.context.snapshot scope := by
  constructor
  · exact (System.sound_reachable (Machine.reachable_of_run hg h)).bound
  · intro earlier p n hls
    subst hls
    exact exists_call hg h

/-- A task binds on one thread and its guard is dropped on another, while a thread binds too. -/
def movedTask : List (Label Unit ℕ ℕ) :=
  [.call ⟨0, some 7⟩ (.setTraceContext (some "a") none),
    .call ⟨1, none⟩ (.setTraceContext (some "b") none), .drop ⟨1, none⟩ 1, .drop ⟨1, none⟩ 0]

theorem drop_restores_movedTask :
    ∃ s, (machine Unit ℕ ℕ).run movedTask = some s ∧ s.context.OnlyBound ∧
      ∃ pre q call mid before last, movedTask.dropLast = pre ++ .call q call :: mid ∧
        pre.countP Label.isCall = 0 ∧
        (machine Unit ℕ ℕ).run pre = some before ∧
        (machine Unit ℕ ℕ).run movedTask.dropLast = some last ∧
        s.context.snapshot q.scope = before.context.snapshot q.scope ∧
        ∀ scope, scope ≠ q.scope → s.context.snapshot scope = last.context.snapshot scope := by
  have hg : (machine Unit ℕ ℕ).Guarded OnOwnThread {} movedTask := by
    simp [movedTask, Machine.Guarded, OnOwnThread, machine, Call.run, Context.replaceSnapshot,
      Place.currentScopeKey, Place.scope, Place.scopeOf]
  obtain ⟨hbound, hdrop⟩ := drop_restores hg rfl
  exact ⟨_, rfl, hbound, hdrop _ _ _ rfl⟩

/-- A guard from a thread that is dropped on another one overwrites what is bound there, and what
it has bound on its own thread stays. -/
theorem dropped_on_other_thread :
    ∃ s, (machine Unit ℕ ℕ).run
        [.call ⟨0, none⟩ (.setTraceContext (some "a") none),
          .call ⟨1, none⟩ (.setTraceContext (some "b") none), .drop ⟨1, none⟩ 0] = some s ∧
      (s.context.snapshot (.thread 0)).traceId = some "a" ∧
      (s.context.snapshot (.thread 1)).traceId = none :=
  ⟨_, rfl, rfl, rfl⟩

/-! ## Propagation -/

/-- `PropagationContext`. -/
structure PropagationContext where
  traceparent : Option String := none
  tracestate : Option String := none
  baggage : Option String := none
  traceId : Option String := none
  spanId : Option String := none

namespace PropagationContext

/-- The fields that `bind_propagation_context` binds. -/
def fields (context : PropagationContext) : List (String × Value O) :=
  (context.traceparent.toList.map fun t => ("traceparent", .string t)) ++
  (context.tracestate.toList.map fun t => ("tracestate", .string t)) ++
  (context.baggage.toList.flatMap fun b => ("baggage", .string b) ::
    (parseBaggage b).entries.map fun e => ("baggage." ++ e.1, .string e.2))

/-- The calls of `bind_propagation_context`. Its guard drops their guards, the last one first. -/
def calls (context : PropagationContext) : List (Call O) :=
  let fields := context.fields
  (if fields.isEmpty then [] else [.bindContext fields]) ++
  (if context.traceId.isSome || context.spanId.isSome then
    [.setTraceContext context.traceId context.spanId] else [])

end PropagationContext

omit [DecidableEq T] [DecidableEq K] in
/-- The call with a number stands in one place of a run. -/
theorem eq_of_countP_eq {q q' : Place T K} {c c' : Call O} {pre pre' mid mid' : List (Label O T K)}
    (h : pre ++ .call q c :: mid = pre' ++ .call q' c' :: mid')
    (hcount : pre.countP Label.isCall = pre'.countP Label.isCall) :
    pre = pre' ∧ Label.call q c = .call q' c' := by
  induction pre generalizing pre' with
  | nil =>
      cases pre' with
      | nil => exact ⟨rfl, (List.cons.inj h).1⟩
      | cons l pre' =>
          obtain ⟨rfl, -⟩ := List.cons.inj h
          rw [List.countP_cons_of_pos rfl] at hcount
          cases hcount
  | cons l pre ih =>
      cases pre' with
      | nil =>
          obtain ⟨rfl, -⟩ := List.cons.inj h
          rw [List.countP_cons_of_pos rfl] at hcount
          cases hcount
      | cons l' pre' =>
          obtain ⟨rfl, hrest⟩ := List.cons.inj h
          rw [List.countP_cons, List.countP_cons, Nat.add_right_cancel_iff] at hcount
          obtain ⟨rfl, hcall⟩ := ih hrest hcount
          exact ⟨rfl, hcall⟩

/-- The guard of the first of several calls is dropped last: their scope is as it was. -/
theorem propagation_restores {q : Place T K} {context : PropagationContext}
    {pre mid : List (Label O T K)} {before : System O T K}
    (hcalls : context.calls (O := O) ≠ []) (hbefore : (machine O T K).run pre = some before)
    (hg : (machine O T K).Guarded OnOwnThread {}
      (pre ++ context.calls.map (.call q) ++ mid ++ [.drop p (pre.countP Label.isCall)]))
    (h : (machine O T K).run
      (pre ++ context.calls.map (.call q) ++ mid ++ [.drop p (pre.countP Label.isCall)]) =
        some s) :
    s.context.snapshot q.scope = before.context.snapshot q.scope := by
  obtain ⟨c, cs, hcs⟩ := List.exists_cons_of_ne_nil hcalls
  obtain ⟨pre', q', c', mid', before', last, hls, hcount, hbefore', -, hsame, -⟩ :=
    exists_call hg h
  rw [hcs, List.map_cons, List.append_assoc, List.cons_append] at hls
  obtain ⟨rfl, hcall⟩ := eq_of_countP_eq hls hcount.symm
  injection hcall with hq
  obtain rfl := Option.some.inj (hbefore.symm.trans hbefore')
  rw [hq]
  exact hsame

end Telemetry.Propagation.Rust
