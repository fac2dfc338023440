import Telemetry.Lib.Run
import Mathlib.Data.Set.Insert
import Mathlib.Order.BooleanAlgebra.Set

/-!
# What is rebuilt after every change of its source

Parties change a source, and something is built from it in passes, one at a time. A pass reads the
source twice, when it starts and when it ends, and the source may change between the two. Whoever
changes it owes a pass of its own, which starts after the change: so once nobody owes anything and
no pass is under way, the last pass has read the source as it is, both times.

## Main definitions

* `Rebuilds` — the source, who owes a pass, and what the passes have read.
* `Event`, `machine` — changing the source, starting a pass, ending it.
* `UpToDate` — the invariant.

## Main results

* `built_eq_of_reachable` — **what is built is built from the source as it is**.
-/

namespace Telemetry.Lib

universe u v

/-- A source and what is built from it. -/
@[ext] structure Rebuilds (ι : Type u) (α : Type v) where
  source : α
  /-- The parties that have changed the source and not yet started their pass. -/
  owing : Set ι
  /-- What the pass under way has read at its start. -/
  pass : Option α
  /-- What the last pass has read, at its start and at its end. -/
  built : α × α

namespace Rebuilds

variable {ι : Type u} {α : Type v}

/-- What a party may do. -/
inductive Event (ι : Type u) (α : Type v)
  /-- Change the source, and owe a pass. -/
  | change (i : ι) (a : α)
  /-- Start a pass, owed or not. -/
  | start (i : ι)
  /-- End the pass under way. -/
  | finish

/-- The parties as a machine. A pass starts only while none is under way. -/
def machine (ι : Type u) (a : α) : Machine (Rebuilds ι α) (Event ι α) where
  init := ⟨a, ∅, none, (a, a)⟩
  step r
    | .change i a => some ⟨a, insert i r.owing, r.pass, r.built⟩
    | .start i =>
        match r.pass with
        | some _ => none
        | none => some ⟨r.source, r.owing \ {i}, some r.source, r.built⟩
    | .finish => r.pass.map fun first => ⟨r.source, r.owing, none, (first, r.source)⟩

/-- What one step can do. -/
theorem step_cases {a : α} {r r' : Rebuilds ι α} {e : Event ι α}
    (h : (machine ι a).step r e = some r') :
    (∃ i a', e = .change i a' ∧ r' = ⟨a', insert i r.owing, r.pass, r.built⟩) ∨
    (∃ i, e = .start i ∧ r.pass = none ∧
      r' = ⟨r.source, r.owing \ {i}, some r.source, r.built⟩) ∨
    (e = .finish ∧ ∃ first, r.pass = some first ∧
      r' = ⟨r.source, r.owing, none, (first, r.source)⟩) := by
  cases e with
  | change i a' => exact .inl ⟨i, a', rfl, by simpa [machine] using h.symm⟩
  | start i =>
      cases hp : r.pass with
      | some first => simp [machine, hp] at h
      | none => exact .inr (.inl ⟨i, rfl, rfl, by simpa [machine, hp] using h.symm⟩)
  | finish =>
      cases hp : r.pass with
      | none => simp [machine, hp] at h
      | some first => exact .inr (.inr ⟨rfl, first, rfl, by simpa [machine, hp] using h.symm⟩)

/-- Either somebody owes a pass, or all that has been read is the source as it is. -/
structure UpToDate (r : Rebuilds ι α) : Prop where
  pass : ∀ first, r.pass = some first → first = r.source ∨ r.owing.Nonempty
  built : r.pass = none → r.built = (r.source, r.source) ∨ r.owing.Nonempty

/-- **One step** keeps it. -/
theorem UpToDate.step {a : α} {r r' : Rebuilds ι α} {e : Event ι α} (hr : r.UpToDate)
    (h : (machine ι a).step r e = some r') : r'.UpToDate := by
  obtain ⟨i, a', rfl, rfl⟩ | ⟨i, rfl, -, rfl⟩ | ⟨rfl, first, hpass, rfl⟩ := step_cases h
  · exact ⟨fun _ _ => .inr (Set.insert_nonempty i _), fun _ => .inr (Set.insert_nonempty i _)⟩
  · constructor
    · intro first hfirst
      exact .inl (Option.some.inj hfirst).symm
    · intro hnone
      cases hnone
  · constructor
    · intro _ hnone
      cases hnone
    · intro _
      -- The second read is the source; the first is too, unless somebody has changed it since.
      obtain rfl | howing := hr.pass first hpass
      · exact .inl rfl
      · exact .inr howing

/-- In every run it holds throughout. -/
theorem upToDate_of_reachable {a : α} {G : Rebuilds ι α → Event ι α → Prop} {r : Rebuilds ι α}
    (hr : (machine ι a).Reachable G r) : r.UpToDate := by
  refine hr.invariant ⟨?_, fun _ => .inl rfl⟩ fun _ _ _ hr _ h => hr.step h
  intro _ hnone
  cases hnone

/-- **What is built is built from the source as it is** once no pass is owed or under way. -/
theorem built_eq_of_reachable {a : α} {G : Rebuilds ι α → Event ι α → Prop} {r : Rebuilds ι α}
    (hr : (machine ι a).Reachable G r) (hpass : r.pass = none) (howing : r.owing = ∅) :
    r.built = (r.source, r.source) := by
  obtain hbuilt | hne := (upToDate_of_reachable hr).built hpass
  · exact hbuilt
  · rw [howing] at hne
    exact absurd hne Set.not_nonempty_empty

end Rebuilds

end Telemetry.Lib
