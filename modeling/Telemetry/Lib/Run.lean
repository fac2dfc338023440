import Mathlib.Data.List.Induction
import Mathlib.Data.Set.Basic

/-!
# Runs of a partial labelled machine

A `Machine` has an initial state and a partial step: all nondeterminism is in the
label, so a step that is not enabled is `none` and a run is a list of labels.
`Reachable G` is reachability through steps that all meet a guard `G`; the guard
reads the state before the step and the label, never the state after it.

## Main definitions

* `Machine.run` — execute a list of labels from the initial state.
* `Machine.Guarded` — every step of a run meets a guard.
* `Machine.Reachable` — reachability through guarded steps.
* `Machine.Reachable.invariant`, `Machine.runFrom_keeps` — the invariant rules.
* `Machine.Reachable.map`, `Machine.Reachable.map_stutter` — the simulation rules.
* `Machine.run_map` — the simulation rule for runs, label by label.
* `Machine.guarded_iff`, `Machine.guarded_iff_steps` — when a guard says exactly which runs keep a
  property of their states, or of their steps.
-/

namespace Telemetry.Lib

universe u v w x

/-- A partial labelled machine. -/
structure Machine (σ : Type u) (ℓ : Type v) where
  /-- The state every run starts from. -/
  init : σ
  /-- One step; `none` when the label is not enabled. -/
  step : σ → ℓ → Option σ

namespace Machine

variable {σ : Type u} {ℓ : Type v} {τ : Type w} {κ : Type x} (M : Machine σ ℓ)

/-- Execute the labels in order from a given state. -/
def runFrom : σ → List ℓ → Option σ
  | s, [] => some s
  | s, l :: ls => (M.step s l).bind fun s' => runFrom s' ls

/-- Execute the labels in order from the initial state. -/
def run (ls : List ℓ) : Option σ := M.runFrom M.init ls

@[simp] theorem runFrom_nil (s : σ) : M.runFrom s [] = some s := rfl

theorem runFrom_cons (s : σ) (l : ℓ) (ls : List ℓ) :
    M.runFrom s (l :: ls) = (M.step s l).bind fun s' => M.runFrom s' ls := rfl

/-- A run with one more label. -/
theorem runFrom_concat (s : σ) (ls : List ℓ) (l : ℓ) :
    M.runFrom s (ls ++ [l]) = (M.runFrom s ls).bind fun t => M.step t l := by
  induction ls generalizing s with
  | nil =>
      rw [List.nil_append, runFrom_cons, runFrom_nil, Option.bind_some]
      exact Option.bind_fun_some (M.step s l)
  | cons k ls ih =>
      rw [List.cons_append, runFrom_cons, runFrom_cons, Option.bind_assoc]
      exact Option.bind_congr fun t _ => ih t

/-- Reachability through steps that all meet the guard `G`. -/
inductive Reachable (G : σ → ℓ → Prop) : σ → Prop
  /-- The initial state is reachable. -/
  | init : Reachable G M.init
  /-- A guarded step from a reachable state leads to a reachable state. -/
  | step {s s' : σ} {l : ℓ} (hs : Reachable G s) (hg : G s l) (h : M.step s l = some s') :
      Reachable G s'

variable {M}

/-- **The invariant rule**: what holds initially and is kept by every guarded step
holds in every state reached. -/
theorem Reachable.invariant {G : σ → ℓ → Prop} {P : σ → Prop} (h0 : P M.init)
    (hstep : ∀ s l s', P s → G s l → M.step s l = some s' → P s') {s : σ}
    (hs : M.Reachable G s) : P s := by
  induction hs with
  | init => exact h0
  | step _ hg h ih => exact hstep _ _ _ ih hg h

/-- Every step of the run meets the guard. -/
def Guarded (M : Machine σ ℓ) (G : σ → ℓ → Prop) : σ → List ℓ → Prop
  | _, [] => True
  | s, l :: ls => G s l ∧ ∀ s' ∈ M.step s l, Guarded M G s' ls

instance Guarded.decidable (M : Machine σ ℓ) (G : σ → ℓ → Prop) [∀ s l, Decidable (G s l)] :
    ∀ s ls, Decidable (M.Guarded G s ls)
  | _, [] => inferInstanceAs (Decidable True)
  | s, l :: ls =>
      haveI := fun s' => Guarded.decidable M G s' ls
      inferInstanceAs (Decidable (G s l ∧ ∀ s' ∈ M.step s l, M.Guarded G s' ls))

/-- A guarded run stays inside the reachable states. -/
theorem Reachable.runFrom {G : σ → ℓ → Prop} {s s' : σ} {ls : List ℓ} (hs : M.Reachable G s)
    (hg : M.Guarded G s ls) (h : M.runFrom s ls = some s') : M.Reachable G s' := by
  induction ls generalizing s with
  | nil =>
      obtain rfl : s = s' := by simpa using h
      exact hs
  | cons l ls ih =>
      rw [runFrom_cons, Option.bind_eq_some_iff] at h
      obtain ⟨t, ht, hrest⟩ := h
      exact ih (hs.step hg.1 ht) (hg.2 t ht) hrest

/-- **The rule for runs**: what every step keeps, a run keeps, wherever it starts. -/
theorem runFrom_keeps {P : σ → Prop} (hstep : ∀ s l s', P s → M.step s l = some s' → P s')
    {s s' : σ} {ls : List ℓ} (hs : P s) (h : M.runFrom s ls = some s') : P s' := by
  induction ls generalizing s with
  | nil =>
      obtain rfl : s = s' := by simpa using h
      exact hs
  | cons l ls ih =>
      rw [runFrom_cons, Option.bind_eq_some_iff] at h
      obtain ⟨t, ht, hrest⟩ := h
      exact ih (hstep s l t hs ht) hrest

/-- The rule for runs that meet a guard. -/
theorem Guarded.keeps {G : σ → ℓ → Prop} {P : σ → Prop}
    (hstep : ∀ s l s', P s → G s l → M.step s l = some s' → P s') {s s' : σ} {ls : List ℓ}
    (hg : M.Guarded G s ls) (hs : P s) (h : M.runFrom s ls = some s') : P s' := by
  induction ls generalizing s with
  | nil =>
      obtain rfl : s = s' := by simpa using h
      exact hs
  | cons l ls ih =>
      rw [runFrom_cons, Option.bind_eq_some_iff] at h
      obtain ⟨t, ht, hrest⟩ := h
      exact ih (hg.2 t ht) (hstep s l t hs hg.1 ht) hrest

/-- Whatever a guarded run from the initial state reaches is reachable. -/
theorem reachable_of_run {G : σ → ℓ → Prop} {s : σ} {ls : List ℓ} (hg : M.Guarded G M.init ls)
    (h : M.run ls = some s) : M.Reachable G s :=
  Reachable.init.runFrom hg h

/-- Evaluating a run, for a decidable property of the state it ends in. -/
theorem exists_of_run_any {P : σ → Prop} [DecidablePred P] (ls : List ℓ)
    (h : (M.run ls).any (fun s => decide (P s)) = true) : ∃ s, M.run ls = some s ∧ P s := by
  obtain ⟨s, hs, hP⟩ := (Option.any_eq_true _ _).mp h
  exact ⟨s, hs, of_decide_eq_true hP⟩

/-- **The simulation rule**: an abstraction that maps every guarded step to some
guarded steps of another machine carries reachability over. -/
theorem Reachable.map {N : Machine τ κ} {G : σ → ℓ → Prop} {H : τ → κ → Prop} (f : σ → τ)
    (h0 : f M.init = N.init)
    (hstep : ∀ s l s', M.Reachable G s → G s l → M.step s l = some s' →
      N.Reachable H (f s) → N.Reachable H (f s'))
    {s : σ} (hs : M.Reachable G s) : N.Reachable H (f s) := by
  induction hs with
  | init => rw [h0]; exact .init
  | step hs hg h ih => exact hstep _ _ _ hs hg h ih

/-- The simulation rule for steps that are seen as one step or as none. -/
theorem Reachable.map_stutter {N : Machine τ κ} {G : σ → ℓ → Prop} {H : τ → κ → Prop} (f : σ → τ)
    (h0 : f M.init = N.init)
    (hstep : ∀ s l s', G s l → M.step s l = some s' →
      f s' = f s ∨ ∃ k, H (f s) k ∧ N.step (f s) k = some (f s'))
    {s : σ} (hs : M.Reachable G s) : N.Reachable H (f s) := by
  refine hs.map f h0 ?_
  intro s l s' _ hg h hN
  obtain hsame | ⟨k, hk, hN'⟩ := hstep s l s' hg h
  · rwa [hsame]
  · exact hN.step hk hN'

/-- Prefixes of a guarded run are guarded. -/
theorem Guarded.initial {G : σ → ℓ → Prop} {s : σ} {ls ks : List ℓ}
    (hg : M.Guarded G s (ls ++ ks)) : M.Guarded G s ls := by
  induction ls generalizing s with
  | nil => trivial
  | cons l ls ih => exact ⟨hg.1, fun t ht => ih (hg.2 t ht)⟩

/-- Two guarded runs, one behind the other. -/
theorem Guarded.append {G : σ → ℓ → Prop} {s : σ} {ls ks : List ℓ} (hg : M.Guarded G s ls)
    (h : ∀ t, M.runFrom s ls = some t → M.Guarded G t ks) : M.Guarded G s (ls ++ ks) := by
  induction ls generalizing s with
  | nil => exact h s (by simp)
  | cons l ls ih =>
      refine ⟨hg.1, fun r hr => ih (hg.2 r hr) fun t ht => h t ?_⟩
      rw [runFrom_cons, Option.bind_eq_some_iff]
      exact ⟨r, hr, ht⟩

/-- The last step of a guarded run meets the guard. -/
theorem Guarded.last {G : σ → ℓ → Prop} {s t : σ} {ls : List ℓ} {l : ℓ}
    (hg : M.Guarded G s (ls ++ [l])) (h : M.runFrom s ls = some t) : G t l := by
  induction ls generalizing s with
  | nil =>
      obtain rfl : s = t := by simpa using h
      exact hg.1
  | cons k ls ih =>
      rw [runFrom_cons, Option.bind_eq_some_iff] at h
      obtain ⟨r, hr, hrest⟩ := h
      exact ih (hg.2 r hr) hrest

/-- A run in two parts. -/
theorem runFrom_append {s s' : σ} {ls ks : List ℓ} :
    M.runFrom s (ls ++ ks) = some s' ↔ ∃ t, M.runFrom s ls = some t ∧ M.runFrom t ks = some s' := by
  induction ls generalizing s with
  | nil => simp
  | cons l ls ih =>
      rw [List.cons_append, runFrom_cons, runFrom_cons, Option.bind_eq_some_iff]
      simp only [ih, Option.bind_eq_some_iff]
      constructor
      · intro ⟨t, ht, r, hr, hrest⟩
        exact ⟨r, ⟨t, ht, hr⟩, hrest⟩
      · intro ⟨r, ⟨t, ht, hr⟩, hrest⟩
        exact ⟨t, ht, r, hr, hrest⟩

/-- A run with one more label, taken apart. -/
theorem run_concat {ls : List ℓ} {l : ℓ} {s : σ} :
    M.run (ls ++ [l]) = some s ↔ ∃ t, M.run ls = some t ∧ M.step t l = some s := by
  rw [run, runFrom_concat, Option.bind_eq_some_iff]
  rfl

/-- **The simulation rule for runs**: every guarded step is seen as the step with its own label. -/
theorem run_map {N : Machine τ κ} {G : σ → ℓ → Prop} (f : σ → τ) (g : ℓ → κ)
    (h0 : f M.init = N.init)
    (hstep : ∀ s l s', M.Reachable G s → G s l → M.step s l = some s' →
      N.step (f s) (g l) = some (f s'))
    {ls : List ℓ} {s : σ} (hg : M.Guarded G M.init ls) (h : M.run ls = some s) :
    N.run (ls.map g) = some (f s) := by
  induction ls using List.reverseRecOn generalizing s with
  | nil =>
      obtain rfl : M.init = s := by simpa [run] using h
      rw [List.map_nil, run, runFrom_nil, h0]
  | append_singleton ls l ih =>
      obtain ⟨t, ht, hlast⟩ := run_concat.mp h
      have hpre := Guarded.initial hg
      rw [List.map_append, List.map_singleton, run_concat]
      exact ⟨f t, ih hpre ht, hstep t l s (reachable_of_run hpre ht) (hg.last ht) hlast⟩

/-- Whatever a guarded run from the initial state reaches, with an invariant of guarded steps. -/
theorem Guarded.invariant {G : σ → ℓ → Prop} {J : σ → Prop} (h0 : J M.init)
    (hkeep : ∀ s l s', J s → G s l → M.step s l = some s' → J s') {ls : List ℓ} {s : σ}
    (hg : M.Guarded G M.init ls) (h : M.run ls = some s) : J s :=
  (reachable_of_run hg h).invariant h0 hkeep

/-- **The exact guard**: if guarded steps keep the property, by an invariant that implies it, and
no other step does, the runs that keep it throughout are the guarded ones. -/
theorem guarded_iff {G : σ → ℓ → Prop} {J P : σ → Prop} (h0 : J M.init) (hJ : ∀ s, J s → P s)
    (hkeep : ∀ s l s', J s → G s l → M.step s l = some s' → J s')
    (hneed : ∀ s l s', J s → M.step s l = some s' → P s' → G s l)
    {ls : List ℓ} {s : σ} (h : M.run ls = some s) :
    M.Guarded G M.init ls ↔ ∀ ks t, ks <+: ls → M.run ks = some t → P t := by
  constructor
  · intro hg ks t ⟨rest, hks⟩ ht
    rw [← hks] at hg
    exact hJ t (hg.initial.invariant h0 hkeep ht)
  · intro hP
    induction ls using List.reverseRecOn generalizing s with
    | nil => trivial
    | append_singleton ls l ih =>
        obtain ⟨t, ht, hlast⟩ := run_concat.mp h
        have hpre : M.Guarded G M.init ls :=
          ih ht fun ks u hks hu => hP ks u (hks.trans (List.prefix_append ls [l])) hu
        refine hpre.append fun u hu => ⟨?_, fun r _ => trivial⟩
        obtain rfl : t = u := Option.some.inj (ht.symm.trans hu)
        exact hneed t l s (hpre.invariant h0 hkeep ht) hlast (hP _ s List.prefix_rfl h)

/-- **The exact guard of a law for steps**: if the steps that obey the law are the guarded ones, the
runs that obey it throughout are the guarded ones. -/
theorem guarded_iff_steps {G : σ → ℓ → Prop} {J : σ → Prop} {L : σ → ℓ → σ → Prop} (h0 : J M.init)
    (hkeep : ∀ s l s', J s → G s l → M.step s l = some s' → J s')
    (hlaw : ∀ s l s', J s → M.step s l = some s' → (L s l s' ↔ G s l))
    {ls : List ℓ} {s : σ} (h : M.run ls = some s) :
    M.Guarded G M.init ls ↔
      ∀ ks l t u, ks ++ [l] <+: ls → M.run ks = some t → M.step t l = some u → L t l u := by
  constructor
  · intro hg ks l t u ⟨rest, hks⟩ ht hu
    rw [← hks] at hg
    have hJ : J t := hg.initial.initial.invariant h0 hkeep ht
    exact (hlaw t l u hJ hu).mpr (hg.initial.last ht)
  · intro hL
    induction ls using List.reverseRecOn generalizing s with
    | nil => trivial
    | append_singleton ls l ih =>
        obtain ⟨t, ht, hlast⟩ := run_concat.mp h
        have hpre : M.Guarded G M.init ls := ih ht fun ks k u v hks hu hv =>
          hL ks k u v (hks.trans (List.prefix_append ls [l])) hu hv
        refine hpre.append fun u hu => ⟨?_, fun r _ => trivial⟩
        obtain rfl : t = u := Option.some.inj (ht.symm.trans hu)
        exact (hlaw t l s (hpre.invariant h0 hkeep ht) hlast).mp
          (hL ls l t s List.prefix_rfl ht hlast)

end Machine
end Telemetry.Lib
