import Telemetry.Lib.Run
import Mathlib.Logic.Function.Basic

/-!
# Flows that start flows

A machine whose labels are what flows of control do: operations, and starting other flows. What
can have reached a flow is its lineage: its own operations, and those that its ancestors made
before they started it. Where every flow shows a view of the state, a flow's operation depends on
that flow's view only, no other flow's view changes, and a flow starts with the view of the one
that starts it, the view of each flow is that of a single flow which makes the operations of the
lineage.

## Main definitions

* `Act`, `lineage` — what flows do, and what can have reached a flow.
* `Forks` — a machine of flows with a view for each.

## Main results

* `Forks.exists_alone` — **a flow's view is that of its lineage made alone**.
-/

namespace Telemetry.Lib

universe u v w x

/-- What a flow does. -/
inductive Act (F : Type u) (O : Type v)
  | op (o : O)
  | spawn (child : F)
  deriving DecidableEq

variable {F : Type u} {O : Type v} {σ : Type w} {τ : Type x} [DecidableEq F]

/-- The lineages after a label. -/
def extendLineage (lineages : F → Option (List O)) (label : F × Act F O) : F → Option (List O) :=
  match label.2 with
  | .op o => Function.update lineages label.1 ((lineages label.1).map (· ++ [o]))
  | .spawn child => Function.update lineages child (lineages label.1)

/-- The lineages of a run that starts with one flow. -/
def lineage (root : F) (run : List (F × Act F O)) : F → Option (List O) :=
  run.foldl extendLineage fun f => if f = root then some [] else none

/-- The operations of a lineage, all made by one flow. -/
def madeBy (f : F) (ops : List O) : List (F × Act F O) := ops.map fun o => (f, .op o)

/-- A machine of flows, with a view of the state for each. -/
structure Forks (M : Machine σ (F × Act F O)) (root : F) (started : σ → List F)
    (view : σ → F → τ) : Prop where
  /-- At first there is one flow. -/
  root : started M.init = [root]
  /-- A flow that has started can make any operation. -/
  ready : ∀ s f o, (M.step s (f, .op o)).isSome = true ↔ f ∈ started s
  /-- No operation starts a flow. -/
  op : ∀ {s s' f o}, M.step s (f, .op o) = some s' → started s' = started s
  /-- A flow starts once. -/
  spawn : ∀ {s s' f child}, M.step s (f, .spawn child) = some s' →
    f ∈ started s ∧ child ∉ started s ∧ started s' = child :: started s
  /-- The effect of an operation on the view of its flow depends on this view. -/
  own : ∀ {s s' t t' f g o}, view s f = view t g → M.step s (f, .op o) = some s' →
    M.step t (g, .op o) = some t' → view s' f = view t' g
  /-- A flow starts with the view of the one that starts it. -/
  inherits : ∀ {s s' f child}, M.step s (f, .spawn child) = some s' →
    view s' child = view s f ∧ ∀ g ∈ started s, view s' g = view s g

namespace Forks

variable {M : Machine σ (F × Act F O)} {G : σ → F × Act F O → Prop} {root : F}
  {started : σ → List F} {view : σ → F → τ}

/-- Every flow that has started has a lineage, and the view of that lineage made alone. -/
def Settled (M : Machine σ (F × Act F O)) (root : F) (started : σ → List F) (view : σ → F → τ)
    (s : σ) (lineages : F → Option (List O)) : Prop :=
  ∀ f ∈ started s, ∃ ops, lineages f = some ops ∧
    ∃ t, M.run (madeBy root ops) = some t ∧ started t = [root] ∧ view s f = view t root

/-- One label keeps it, if no operation changes the view of another flow. -/
theorem settled_step (h : Forks M root started view) {s s' : σ} {label : F × Act F O}
    (hframe : ∀ o, label.2 = .op o → ∀ g ∈ started s, g ≠ label.1 → view s' g = view s g)
    (hstep : M.step s label = some s') {lineages : F → Option (List O)}
    (hs : Settled M root started view s lineages) :
    Settled M root started view s' (extendLineage lineages label) := by
  rcases label with ⟨f, o | child⟩
  · have hf : f ∈ started s := (h.ready s f o).mp (by rw [hstep]; rfl)
    intro g hg
    rw [h.op hstep] at hg
    rcases hs g hg with ⟨ops, hops, t, ht, hroot, hview⟩
    by_cases hgf : g = f
    · subst hgf
      -- the lineage is longer by the operation
      refine ⟨ops ++ [o], ?_, ?_⟩
      · rw [extendLineage]
        simp only [Function.update_self, hops, Option.map_some]
      · have hready : (M.step t (root, .op o)).isSome = true :=
          (h.ready t root o).mpr (by rw [hroot]; exact List.mem_singleton_self root)
        rcases Option.isSome_iff_exists.mp hready with ⟨t', ht'⟩
        refine ⟨t', ?_, (h.op ht').trans hroot, h.own hview hstep ht'⟩
        rw [madeBy, Machine.run] at ht
        rw [madeBy, List.map_append, List.map_singleton, Machine.run, Machine.runFrom_concat, ht]
        exact ht'
    · refine ⟨ops, ?_, t, ht, hroot, ?_⟩
      · rw [extendLineage]
        simp only [Function.update_of_ne hgf, hops]
      · rw [hframe o rfl g hg hgf, hview]
  · rcases h.spawn hstep with ⟨hf, hnew, hstarted⟩
    rcases h.inherits hstep with ⟨hchild, hothers⟩
    intro g hg
    rw [hstarted] at hg
    rcases List.mem_cons.mp hg with rfl | hold
    · rcases hs f hf with ⟨ops, hops, t, ht, hroot, hview⟩
      refine ⟨ops, ?_, t, ht, hroot, hchild.trans hview⟩
      rw [extendLineage]
      simp only [Function.update_self, hops]
    · rcases hs g hold with ⟨ops, hops, t, ht, hroot, hview⟩
      have hne : g ≠ child := fun heq => hnew (heq ▸ hold)
      refine ⟨ops, ?_, t, ht, hroot, (hothers g hold).trans hview⟩
      rw [extendLineage]
      simp only [Function.update_of_ne hne, hops]

/-- A run keeps it. -/
theorem settled_runFrom (h : Forks M root started view)
    (hframe : ∀ s s' f o, G s (f, .op o) → M.step s (f, .op o) = some s' →
      ∀ g ∈ started s, g ≠ f → view s' g = view s g)
    {s s' : σ} {run : List (F × Act F O)} (hguard : M.Guarded G s run)
    (hrun : M.runFrom s run = some s') {lineages : F → Option (List O)}
    (hs : Settled M root started view s lineages) :
    Settled M root started view s' (run.foldl extendLineage lineages) := by
  induction run generalizing s lineages with
  | nil =>
      rw [Machine.runFrom_nil, Option.some.injEq] at hrun
      rw [← hrun]
      exact hs
  | cons label run ih =>
      rw [Machine.runFrom_cons, Option.bind_eq_some_iff] at hrun
      rcases hrun with ⟨m, hstep, hrest⟩
      refine ih (hguard.2 m hstep) hrest (h.settled_step ?_ hstep hs)
      intro o ho g hg hne
      rcases label with ⟨f, act⟩
      cases ho
      exact hframe s m f o hguard.1 hstep g hg hne

/-- **A flow's view is that of its lineage made alone**, in every run in which no operation changes
the view of another flow. -/
theorem exists_alone (h : Forks M root started view)
    (hframe : ∀ s s' f o, G s (f, .op o) → M.step s (f, .op o) = some s' →
      ∀ g ∈ started s, g ≠ f → view s' g = view s g)
    {run : List (F × Act F O)} (hguard : M.Guarded G M.init run) {s : σ}
    (hrun : M.run run = some s) {f : F} (hf : f ∈ started s) :
    ∃ ops, lineage root run f = some ops ∧
      ∃ t, M.run (madeBy root ops) = some t ∧ view s f = view t root := by
  have hinit : Settled M root started view M.init fun f => if f = root then some [] else none := by
    intro g hg
    rw [h.root, List.mem_singleton] at hg
    subst hg
    exact ⟨[], if_pos rfl, M.init, rfl, h.root, rfl⟩
  rcases h.settled_runFrom hframe hguard hrun hinit f hf with ⟨ops, hops, t, ht, -, hview⟩
  exact ⟨ops, hops, t, ht, hview⟩

end Forks
end Telemetry.Lib
