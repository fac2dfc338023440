import Mathlib.Data.List.Basic

/-!
# Walks that look at a part of what was visited

A walk carries the list of what it has visited. If it only ever asks about members of a set, what
it does is the same in two states that agree on that set, and they agree on it afterwards.

## Main definitions

* `Agree` — two lists have the same members in a set.
* `Framed` — a walk that asks about members of a set only.
-/

namespace Telemetry.Lib

variable {ι β γ : Type}

/-- Two lists have the same members in a set. -/
def Agree (S : ι → Prop) (s s' : List ι) : Prop := ∀ id, S id → (id ∈ s ↔ id ∈ s')

/-- A walk that asks about members of a set only. -/
def Framed (S : ι → Prop) (act : StateM (List ι) β) : Prop :=
  ∀ s s', Agree S s s' →
    (act.run s).1 = (act.run s').1 ∧ Agree S (act.run s).2 (act.run s').2

variable {S : ι → Prop}

theorem Agree.cons {s s' : List ι} (h : Agree S s s') (id : ι) : Agree S (id :: s) (id :: s') := by
  intro id' hid'
  rw [List.mem_cons, List.mem_cons, h id' hid']

/-- Lists without members of the set agree on it. -/
theorem agree_nil {s : List ι} (h : ∀ id ∈ s, ¬ S id) : Agree S s [] :=
  fun id hid => ⟨fun hmem => absurd hid (h id hmem), fun hmem => absurd hmem List.not_mem_nil⟩

theorem framed_pure (b : β) : Framed S (pure b : StateM (List ι) β) := fun _ _ h => ⟨rfl, h⟩

theorem Framed.bind {act : StateM (List ι) β} {f : β → StateM (List ι) γ} (h : Framed S act)
    (hf : ∀ b, Framed S (f b)) : Framed S (act >>= f) := by
  intro s s' hagree
  rcases h s s' hagree with ⟨hresult, hstate⟩
  change ((f (act.run s).1).run (act.run s).2).1 = ((f (act.run s').1).run (act.run s').2).1 ∧
    Agree S ((f (act.run s).1).run (act.run s).2).2 ((f (act.run s').1).run (act.run s').2).2
  rw [hresult]
  exact hf _ _ _ hstate

theorem framed_mapM {α : Type} {f : α → StateM (List ι) β} {xs : List α}
    (h : ∀ x ∈ xs, Framed S (f x)) : Framed S (xs.mapM f) := by
  induction xs with
  | nil => exact framed_pure []
  | cons x xs ih =>
      rw [List.forall_mem_cons] at h
      rw [List.mapM_cons]
      exact h.1.bind fun b => (ih h.2).bind fun bs => framed_pure (b :: bs)

theorem framed_foldlM {α : Type} {f : β → α → StateM (List ι) β} {xs : List α}
    (h : ∀ x ∈ xs, ∀ b, Framed S (f b x)) (b : β) : Framed S (xs.foldlM f b) := by
  induction xs generalizing b with
  | nil => exact framed_pure b
  | cons x xs ih =>
      rw [List.forall_mem_cons] at h
      rw [List.foldlM_cons]
      exact (h.1 b).bind fun b' => ih h.2 b'

end Telemetry.Lib
