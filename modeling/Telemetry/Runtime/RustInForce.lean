import Telemetry.Runtime.RustCalls

/-!
# What is in force after updates and reloads on several threads

The pushes of two calls may come in another order than their stores: an older config is then in
force beside a newer one that is stored. A call owns a part from its store on until a later call
stores that pushes the part as well. As long as no other call pushes behind the owner, what is in
force is what is stored, or the owner still has to push it.

## Main definitions

* `OnTime` — no push comes behind the one of a later store.
* `InForce` — what has been pushed is the stored config's, or still has to be.
* `Started` — a setup, with its policies in force.

## Main results

* `InForce.step` — **what one step on time keeps**.
* `serial_and_in_force` — **when all calls have returned**.
-/

namespace Telemetry.Runtime.Rust

open Telemetry.Lib

variable {ι : Type} [DecidableEq ι] {live : Signal → Bool} {start : Statics} {s s' : System ι}
  {l : Step ι} {config current next : TelemetryConfig} {asked : Asked} {i : ι}
  {rest : List Section} {x : Slot}

/-- The call still has to push a part. -/
def Phase.Ahead (x : Slot) : Phase → Prop
  | .running _ _ _ rest => .push x ∈ rest
  | _ => False

/-- What the call pushes is what a config has. -/
def Phase.Same (x : Slot) (stored : TelemetryConfig) : Phase → Prop
  | .running _ next _ _ => x.Same next stored
  | _ => True

/-- The owner of a part still has to push it. -/
def System.Pending (s : System ι) (x : Slot) : Prop :=
  ∃ i, s.owner x = some i ∧ (s.calls i).Ahead x

/-- No push comes behind the one of a later store, unless both push the same; when a reload stores
again, what it stores is in force; and what live providers keep has not changed since a reload has
read it. -/
def OnTime (live : Signal → Bool) (s : System ι) (l : Step ι) : Prop :=
  Kept live s l ∧
    match l with
    | .run i =>
        match s.calls i with
        | .running _ next _ (.push x :: _) =>
            s.Pending x ∨ ∀ stored, s.statics.active = some stored → x.Same next stored
        | .running current next _ (.storeAgain :: _) =>
            ∀ x : Slot, x.Agrees (withColdFields current next) s.statics
        | _ => True
    | _ => True

/-- What is in force is the stored config's, or its owner still has to push it; and owners push
what the stored config has. -/
structure InForce (s : System ι) : Prop where
  owner : ∀ x i stored, s.statics.active = some stored → s.owner x = some i →
    (s.calls i).Ahead x → (s.calls i).Same x stored
  agrees : ∀ x stored, s.statics.active = some stored → x.Agrees stored s.statics ∨ s.Pending x

/-! ## One step -/

theorem mem_setters (setter : Setter) : setter ∈ setters := by
  cases setter with
  | sampling signal => cases signal <;> decide
  | queue => decide
  | exporter signal => cases signal <;> decide
  | strictSchema => decide

theorem push_mem_reloadSections (x : Slot) : .push x ∈ reloadSections := by
  cases x with
  | policy setter => simp [reloadSections, mem_setters]
  | logging => simp [reloadSections]

/-- An update pushes all but a logging config that it leaves alone. -/
theorem of_push_notMem_updateSections {overrides : RuntimeOverrides} {x : Slot}
    (h : .push x ∉ updateSections overrides) : x = .logging ∧ overrides.logging = none := by
  cases x with
  | policy setter => simp [updateSections, mem_setters] at h
  | logging => simpa [updateSections] using h

/-- A call that has nothing to push, before and after its step. -/
theorem ahead_update_iff {f : ι → Phase} {phase : Phase} (h : ¬ (f i).Ahead x)
    (hphase : ¬ phase.Ahead x) (j : ι) :
    (Function.update f i phase j).Ahead x ↔ (f j).Ahead x := by
  by_cases hj : j = i
  · rw [hj, Function.update_self]
    exact iff_of_false hphase h
  · rw [Function.update_of_ne hj]

/-- A step before the first store of a call. -/
theorem InForce.quiet {phase : Phase} (hs : InForce s) (h : ∀ x, ¬ (s.calls i).Ahead x)
    (hphase : ∀ x, ¬ phase.Ahead x) : InForce (s.setPhase i phase) := by
  have hahead : ∀ x j, ((s.setPhase i phase).calls j).Ahead x ↔ (s.calls j).Ahead x :=
    fun x => ahead_update_iff (h x) (hphase x)
  constructor
  · intro x j stored hactive howner hj
    have hne : j ≠ i := by
      intro heq
      subst heq
      exact h x ((hahead x j).mp hj)
    have hsame := hs.owner x j stored hactive howner ((hahead x j).mp hj)
    simpa [System.setPhase, Function.update_of_ne hne] using hsame
  · intro x stored hactive
    obtain hagrees | ⟨j, howner, hj⟩ := hs.agrees x stored hactive
    · exact .inl hagrees
    · exact .inr ⟨j, howner, (hahead x j).mpr hj⟩

/-- The first store of a call. What it does not push stays what it was. -/
theorem InForce.merge (hs : InForce s) (h : ∀ x, ¬ (s.calls i).Ahead x)
    (hstored : ∃ stored, s.statics.active = some stored)
    (hkept : ∀ x stored, .push x ∉ rest → s.statics.active = some stored →
      x = .logging ∧ next.logging = stored.logging) :
    InForce (s.merge i current next asked rest) := by
  obtain ⟨old, hold⟩ := hstored
  constructor
  · intro x j stored hactive howner hj
    obtain rfl := Option.some.inj hactive
    by_cases hx : .push x ∈ rest
    · simp only [System.merge, hx, if_true, Option.some.injEq] at howner
      subst howner
      simp only [System.merge, Function.update_self]
      exact Slot.same_refl _ x
    · have hne : j ≠ i := by
        intro heq
        subst heq
        simp only [System.merge, Function.update_self] at hj
        exact hx hj
      simp only [System.merge, hx, if_false] at howner
      simp only [System.merge, Function.update_of_ne hne] at hj ⊢
      have hsame := hs.owner x j old hold howner hj
      obtain ⟨rfl, hlogging⟩ := hkept x old hx hold
      cases hphase : s.calls j with
      | running current' next' asked' rest' =>
          rw [hphase] at hsame
          exact hsame.trans hlogging.symm
      | idle => trivial
      | failed => trivial
      | read fresh current' => trivial
  · intro x stored hactive
    obtain rfl := Option.some.inj hactive
    by_cases hx : .push x ∈ rest
    · refine .inr ⟨i, by simp [System.merge, hx], ?_⟩
      simp only [System.merge, Function.update_self]
      exact hx
    · obtain ⟨rfl, hlogging⟩ := hkept x old hx hold
      obtain hagrees | ⟨j, howner, hj⟩ := hs.agrees .logging old hold
      · left
        have hold' : s.statics.Agrees old.logging := hagrees
        rw [← hlogging] at hold'
        exact hold'
      · have hne : j ≠ i := by
          intro heq
          subst heq
          exact h _ hj
        refine .inr ⟨j, by simp [System.merge, hx, howner], ?_⟩
        simpa [System.merge, Function.update_of_ne hne] using hj

/-- A push that is on time. -/
theorem InForce.push (hs : InForce s)
    (h : s.calls i = .running current next asked (.push x :: rest))
    (hg : s.Pending x ∨ ∀ stored, s.statics.active = some stored → x.Same next stored) :
    InForce (s.push i current next asked x rest) := by
  have hactive : (s.push i current next asked x rest).statics.active = s.statics.active :=
    active_push x _ _
  have hself : (s.push i current next asked x rest).calls i = .running current next asked rest :=
    Function.update_self ..
  have hother : ∀ j, j ≠ i → (s.push i current next asked x rest).calls j = s.calls j :=
    fun j hj => Function.update_of_ne hj ..
  constructor
  · intro y j stored hstored howner hj
    rw [hactive] at hstored
    by_cases hji : j = i
    · subst hji
      rw [hself] at hj ⊢
      have hsame := hs.owner y j stored hstored howner
      rw [h] at hsame
      exact hsame (List.mem_cons_of_mem _ hj)
    · rw [hother j hji] at hj ⊢
      exact hs.owner y j stored hstored howner hj
  · intro y stored hstored
    rw [hactive] at hstored
    by_cases hy : y = x
    · subst hy
      obtain ⟨j, howner, hj⟩ | hsame := hg
      · by_cases hji : j = i
        · subst hji
          have hsame := hs.owner y j stored hstored howner hj
          rw [h] at hsame
          exact .inl (Slot.agrees_push_iff.mpr hsame)
        · refine .inr ⟨j, howner, ?_⟩
          rw [hother j hji]
          exact hj
      · exact .inl (Slot.agrees_push_iff.mpr (hsame stored hstored))
    · obtain hagrees | ⟨j, howner, hj⟩ := hs.agrees y stored hstored
      · exact .inl ((Slot.agrees_push_of_ne hy).mpr hagrees)
      · refine .inr ⟨j, howner, ?_⟩
        by_cases hji : j = i
        · subst hji
          rw [hself]
          rw [h] at hj
          have hne : Section.push y ≠ .push x := fun heq => hy (Section.push.inj heq)
          exact List.mem_of_ne_of_mem hne hj
        · rw [hother j hji]
          exact hj

/-- **Each step on time keeps what is in force.** -/
theorem InForce.step (hs : InForce s) (hserial : Serial live config s) (hg : OnTime live s l)
    (h : Stepped live s l s') : InForce s' := by
  obtain ⟨order, hordered⟩ := hserial.ordered
  obtain ⟨-, hg⟩ := hg
  cases h with
  | fail hidle =>
      refine hs.quiet (fun x => ?_) fun x => id
      rw [hidle]
      exact id
  | read hidle hactive =>
      refine hs.quiet (fun x => ?_) fun x => id
      rw [hidle]
      exact id
  | @update i overrides current hidle hactive =>
      refine hs.merge (fun x => ?_) ⟨_, hactive⟩ fun x stored hx hstored => ?_
      · rw [hidle]
        exact id
      · obtain ⟨rfl, hlogging⟩ := of_push_notMem_updateSections hx
        rw [hactive, Option.some.injEq] at hstored
        simp [Asked.apply, Asked.overrides, applyRuntimeOverrides, hlogging, hstored]
  | store hread =>
      refine hs.merge (fun x => ?_) ⟨_, hordered.stored⟩ fun x _ hx _ => ?_
      · rw [hread]
        exact id
      · exact absurd (push_mem_reloadSections x) hx
  | push hrunning =>
      simp only [hrunning] at hg
      exact hs.push hrunning hg
  | again hrunning =>
      simp only [hrunning] at hg
      constructor
      · intro x j stored _ howner
        cases howner
      · intro x stored hactive
        obtain rfl := Option.some.inj hactive
        exact .inl (hg x)

/-! ## Runs -/

/-- A setup with this config, its policies in force and no other logging config above it. -/
structure Statics.Started (start : Statics) (config : TelemetryConfig) : Prop where
  active : start.active = some config
  modules : start.modules = config.installed
  logging : start.Agrees config.logging

omit [DecidableEq ι] in
theorem inForce_init (h : start.Started config) : InForce ({ statics := start } : System ι) := by
  constructor
  · intro x i stored _ howner
    cases howner
  · intro x stored hactive
    obtain rfl := Option.some.inj (h.active.symm.trans hactive)
    left
    cases x with
    | logging => exact h.logging
    | policy setter =>
        simp only [Slot.Agrees, h.modules]
        exact Slot.same_refl config (.policy setter)

theorem inForce_of_reachable (hstart : start.Started config)
    (h : (calls ι live start).Reachable (OnTime live) s) : Serial live config s ∧ InForce s := by
  have hinit : Serial live config ({ statics := start } : System ι) ∧
      InForce ({ statics := start } : System ι) :=
    ⟨serial_init hstart.active, inForce_init hstart⟩
  refine h.invariant (P := fun s => Serial live config s ∧ InForce s) hinit ?_
  intro s l s' ⟨hserial, hforce⟩ hg hstep
  have hstepped := stepped_of_step hstep
  exact ⟨hserial.step hg.1 hstepped, hforce.step hserial hg hstepped⟩

theorem Phase.Returned.not_ahead {phase : Phase} (h : phase.Returned) (x : Slot) :
    ¬ phase.Ahead x := by
  cases phase with
  | running current next asked rest =>
      obtain rfl : rest = [] := h
      simp [Phase.Ahead]
  | idle => exact id
  | failed => exact id
  | read fresh current => exact id

/-- A field of a config, with its override. -/
structure HotField (α : Type) where
  get : TelemetryConfig → α
  override : RuntimeOverrides → Option α
  get_apply : ∀ config overrides,
    get (applyRuntimeOverrides config overrides) = (override overrides).getD (get config)

namespace HotField

/-! The fields of `RuntimeOverrides`. -/

def sampling : HotField SamplingConfig := ⟨(·.sampling), (·.sampling), fun _ _ => rfl⟩

def backpressure : HotField BackpressureConfig :=
  ⟨(·.backpressure), (·.backpressure), fun _ _ => rfl⟩

def exporter : HotField ExporterPolicyConfig := ⟨(·.exporter), (·.exporter), fun _ _ => rfl⟩

def security : HotField SecurityConfig := ⟨(·.security), (·.security), fun _ _ => rfl⟩

def slo : HotField SLOConfig := ⟨(·.slo), (·.slo), fun _ _ => rfl⟩

def piiMaxDepth : HotField ℕ := ⟨(·.piiMaxDepth), (·.piiMaxDepth), fun _ _ => rfl⟩

def strictSchema : HotField Bool := ⟨(·.strictSchema), (·.strictSchema), fun _ _ => rfl⟩

def eventSchema : HotField EventSchemaConfig :=
  ⟨(·.eventSchema), (·.eventSchema), fun _ _ => rfl⟩

def logging : HotField LoggingConfig := ⟨(·.logging), (·.logging), fun _ _ => rfl⟩

end HotField

/-- A call overrides a field of some config. -/
def Asked.Touches {α : Type} (live : Signal → Bool) (field : HotField α) (asked : Asked) : Prop :=
  ∃ current, field.override (asked.overrides live current) ≠ none

/-- A field that no later call touches. -/
theorem HotField.get_foldl {α : Type} (field : HotField α) {later : List Asked}
    (h : ∀ asked ∈ later, ¬ asked.Touches live field) (config : TelemetryConfig) :
    field.get (later.foldl (Asked.apply live) config) = field.get config := by
  induction later generalizing config with
  | nil => rfl
  | cons asked later ih =>
      have hnone : field.override (asked.overrides live config) = none := by
        by_contra hne
        exact h asked List.mem_cons_self ⟨config, hne⟩
      rw [List.foldl_cons, ih fun other hother => h other (List.mem_cons_of_mem _ hother),
        Asked.apply, field.get_apply, hnone, Option.getD_none]

/-- **When all calls have returned** in a run in which every push is on time: the stored config is
the result of those that have stored in some order, an override is there unless a later call
touches it, and the policies and the logging config in force are those of the stored config. -/
theorem serial_and_in_force (hstart : start.Started config) {ls : List (Step ι)}
    (hg : (calls ι live start).Guarded (OnTime live) { statics := start } ls)
    (h : (calls ι live start).run ls = some s) (hreturned : ∀ i, (s.calls i).Returned) :
    ∃ order : List (ι × Asked), ∃ stored,
      (order.map Prod.fst).Nodup ∧
      (∀ i asked, (i, asked) ∈ order ↔ (s.calls i).asked = some asked) ∧
      s.statics.active = some stored ∧
      stored = (order.map Prod.snd).foldl (Asked.apply live) config ∧
      (∀ {α : Type} (field : HotField α) earlier i asked later value,
        order = earlier ++ (i, asked) :: later →
        field.override (asked.overrides live
          ((earlier.map Prod.snd).foldl (Asked.apply live) config)) = some value →
        (∀ e ∈ later, ¬ e.2.Touches live field) → field.get stored = value) ∧
      s.statics.modules = stored.installed ∧ s.statics.Agrees stored.logging := by
  obtain ⟨hserial, hforce⟩ := inForce_of_reachable hstart (Machine.reachable_of_run hg h)
  obtain ⟨order, hnodup, hmem, hstored⟩ := hserial.ordered
  have hagrees : ∀ x : Slot,
      x.Agrees ((order.map Prod.snd).foldl (Asked.apply live) config) s.statics := by
    intro x
    obtain hagrees | ⟨i, -, hahead⟩ := hforce.agrees x _ hstored
    · exact hagrees
    · exact absurd hahead ((hreturned i).not_ahead x)
  refine ⟨order, _, hnodup, hmem, hstored, rfl, ?_,
    Slot.modules_eq_of_agrees fun setter => hagrees (.policy setter), hagrees .logging⟩
  intro α field earlier i asked later value horder hvalue hlater
  have hlater' : ∀ other ∈ later.map Prod.snd, ¬ other.Touches live field := by
    intro other hother
    obtain ⟨e, he, rfl⟩ := List.mem_map.mp hother
    exact hlater e he
  rw [horder, List.map_append, List.map_cons, List.foldl_append, List.foldl_cons,
    field.get_foldl hlater', Asked.apply, field.get_apply, hvalue, Option.getD_some]

/-! ## Two calls -/

/-- Pushes of one call are on time if nobody stores in between and every owner is the call itself or
has its own push to come. -/
theorem guarded_pushes (xs : List Slot)
    (h : s.calls i = .running current next asked (xs.map .push ++ rest))
    (howner : ∀ x ∈ xs, ∃ j, s.owner x = some j ∧ (j = i ∨ (s.calls j).Ahead x)) :
    (calls ι live start).Guarded (OnTime live) s (List.replicate xs.length (.run i)) := by
  induction xs generalizing s with
  | nil => trivial
  | cons x xs ih =>
      rw [List.map_cons, List.cons_append] at h
      refine ⟨⟨?_, ?_⟩, fun s' hs' => ?_⟩
      · simp only [Kept, h]
      · simp only [h]
        obtain ⟨j, hj, hahead⟩ := howner x List.mem_cons_self
        refine .inl ⟨j, hj, ?_⟩
        obtain rfl | hahead := hahead
        · rw [h]
          exact List.mem_cons_self
        · exact hahead
      · simp only [calls, h] at hs'
        obtain rfl := Option.some.inj hs'
        refine ih (Function.update_self ..) fun y hy => ?_
        obtain ⟨j, hj, hahead⟩ := howner y (List.mem_cons_of_mem _ hy)
        refine ⟨j, hj, ?_⟩
        by_cases hji : j = i
        · exact .inl hji
        · right
          simp only [System.push, Function.update_of_ne hji]
          exact hahead.resolve_left hji

/-- A setup with the config of an empty environment. -/
def afterSetup : Statics := { active := some {}, modules := ({} : TelemetryConfig).installed }

/-- A reload reads, an update stores, the reload stores over it, and both push, the update first. -/
def reloadOverUpdate : List (Step Bool) :=
  [.reload false emptyEnv, .update true { strictSchema := some true }, .store false] ++
    (List.replicate 8 (.run true) ++ (List.replicate 9 (.run false) ++ [.run false]))

/-- No provider is live. -/
def noProviders : Signal → Bool := fun _ => false

theorem started_afterSetup : afterSetup.Started {} := ⟨rfl, rfl, .inl rfl⟩

/-- What the reload stores last is in force, and the update is in front of it. -/
theorem serial_reloadOverUpdate : ∃ s,
    (calls Bool noProviders afterSetup).run reloadOverUpdate = some s ∧
    ∃ order : List (Bool × Asked), ∃ stored,
      (order.map Prod.fst).Nodup ∧
      (∀ i asked, (i, asked) ∈ order ↔ (s.calls i).asked = some asked) ∧
      s.statics.active = some stored ∧
      stored = (order.map Prod.snd).foldl (Asked.apply noProviders) {} ∧
      (∀ {α : Type} (field : HotField α) earlier i asked later value,
        order = earlier ++ (i, asked) :: later →
        field.override (asked.overrides noProviders
          ((earlier.map Prod.snd).foldl (Asked.apply noProviders) {})) = some value →
        (∀ e ∈ later, ¬ e.2.Touches noProviders field) → field.get stored = value) ∧
      s.statics.modules = stored.installed ∧ s.statics.Agrees stored.logging := by
  have hkept : ∀ s l, Kept noProviders (s : System Bool) l := kept_of_not_live fun _ => rfl
  have hg : (calls Bool noProviders afterSetup).Guarded (OnTime noProviders)
      { statics := afterSetup } reloadOverUpdate := by
    refine .append ⟨⟨hkept _ _, trivial⟩, fun s₁ h₁ => ?_⟩ fun s₃ h₃ => ?_
    · obtain rfl := Option.some.inj h₁
      refine ⟨⟨hkept _ _, trivial⟩, fun s₂ h₂ => ?_⟩
      exact ⟨⟨hkept _ _, trivial⟩, fun _ _ => trivial⟩
    · obtain rfl := Option.some.inj h₃
      refine .append (guarded_pushes (setters.map .policy) rfl ?_) fun s₄ h₄ => ?_
      · intro x _
        exact ⟨false, if_pos (push_mem_reloadSections x), .inr (push_mem_reloadSections x)⟩
      · obtain rfl := Option.some.inj h₄
        refine .append (guarded_pushes (setters.map .policy ++ [.logging]) rfl ?_) fun s₅ h₅ => ?_
        · intro x _
          exact ⟨false, if_pos (push_mem_reloadSections x), .inl rfl⟩
        · obtain rfl := Option.some.inj h₅
          refine ⟨⟨hkept _ _, fun x => ?_⟩, fun _ _ => trivial⟩
          cases x with
          | logging => exact .inr rfl
          | policy setter => cases setter with
              | sampling signal => cases signal <;> rfl
              | queue => rfl
              | exporter signal => cases signal <;> rfl
              | strictSchema => rfl
  refine ⟨_, rfl, serial_and_in_force started_afterSetup hg rfl ?_⟩
  intro i
  cases i <;> exact rfl

/-- Two updates, of which the later one pushes first. -/
def olderPushedLast : List (Step Bool) :=
  [.update false { strictSchema := some true }, .update true { strictSchema := some false }] ++
    (List.replicate 8 (.run true) ++ List.replicate 8 (.run false))

/-- Only the traces have a provider. -/
def tracesLive : Signal → Bool
  | .traces => true
  | _ => false

/-- An update of the exporters, with twice the timeout. -/
def longerTimeouts : RuntimeOverrides :=
  { exporter := some { timeoutSeconds := fun _ => .ofRat 20 } }

/-- An update stores between the two halves of a reload. -/
def updateInReload : List (Step Bool) :=
  [.reload false emptyEnv, .update true longerTimeouts, .store false] ++
    (List.replicate 8 (.run true) ++ List.replicate 10 (.run false))

/-- Of two updates that have returned the earlier one is in force; and a reload has stored the
timeout that it had read, where each order of the two calls has the one of the update. -/
theorem older_in_force_and_timeout_lost :
    (∃ s, (calls Bool noProviders afterSetup).run olderPushedLast = some s ∧
      (∀ i, (s.calls i).Returned) ∧ ∃ stored, s.statics.active = some stored ∧
        stored.strict = false ∧ s.statics.modules.strictSchema = true) ∧
    ∃ s, (calls Bool tracesLive afterSetup).run updateInReload = some s ∧
      (∀ i, (s.calls i).Returned) ∧ ∃ stored, s.statics.active = some stored ∧
        stored.exporter.timeoutSeconds .traces = .ofRat 10 ∧
        ∀ order ∈ [[.update longerTimeouts, .reload {}], [.reload {}, .update longerTimeouts]],
          (order.foldl (Asked.apply tracesLive) {}).exporter.timeoutSeconds .traces =
            .ofRat 20 := by
  refine ⟨⟨_, rfl, fun i => ?_, _, rfl, rfl, rfl⟩, _, rfl, fun i => ?_, _, rfl, rfl, ?_⟩
  · cases i <;> exact rfl
  · cases i <;> exact rfl
  · simp only [List.forall_mem_cons, List.not_mem_nil, false_implies, implies_true, and_true]
    exact ⟨rfl, rfl⟩

end Telemetry.Runtime.Rust
