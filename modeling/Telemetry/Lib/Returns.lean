import Mathlib.Data.List.Basic

/-!
# Computations that return

A function that may raise is one into `Except`. `Returns` says that it did not, and the rules
below take the question apart along the way the function is written.

## Main definitions

* `Returns` — the computation returned.

## Main results

* `mapM_eq_ok_iff`, `mapM_bind_eq_ok_iff`, `returns_mapM_iff` — a computation for each element of
  a list.
* `foldlM_gathers` — a loop over a list.
-/

namespace Telemetry.Lib

universe u v

variable {ε : Type u} {α β : Type v}

/-- The computation returned something. -/
def Returns (x : Except ε α) : Prop := ∃ a, x = .ok a

@[simp] theorem returns_ok (a : α) : Returns (.ok a : Except ε α) := ⟨a, rfl⟩

@[simp] theorem returns_pure (a : α) : Returns (pure a : Except ε α) := ⟨a, rfl⟩

@[simp] theorem not_returns_error (e : ε) : ¬ Returns (.error e : Except ε α) := by
  rintro ⟨a, h⟩
  cases h

instance decidableReturns : (x : Except ε α) → Decidable (Returns x)
  | .ok a => .isTrue ⟨a, rfl⟩
  | .error e => .isFalse (not_returns_error e)

/-- A value that is bound to the rest. -/
theorem ok_bind (a : α) (f : α → Except ε β) : (.ok a : Except ε α) >>= f = f a := rfl

/-- A bind that returned. -/
theorem bind_eq_ok_iff {x : Except ε α} {f : α → Except ε β} {b : β} :
    x >>= f = .ok b ↔ ∃ a, x = .ok a ∧ f a = .ok b := by
  cases x with
  | error e =>
      constructor
      · intro h
        cases h
      · rintro ⟨a, h, -⟩
        cases h
  | ok a =>
      constructor
      · intro h
        exact ⟨a, rfl, h⟩
      · rintro ⟨a', h, hf⟩
        cases h
        exact hf

/-- What returned is bound to the rest. -/
theorem returns_bind_iff {x : Except ε α} {f : α → Except ε β} :
    Returns (x >>= f) ↔ ∃ a, x = .ok a ∧ Returns (f a) := by
  constructor
  · rintro ⟨b, h⟩
    obtain ⟨a, ha, hb⟩ := bind_eq_ok_iff.mp h
    exact ⟨a, ha, b, hb⟩
  · rintro ⟨a, ha, b, hb⟩
    exact ⟨b, bind_eq_ok_iff.mpr ⟨a, ha, hb⟩⟩

/-- What cannot raise on what is returned does not matter. -/
theorem returns_bind_iff_of_forall {x : Except ε α} {f : α → Except ε β}
    (h : ∀ a, x = .ok a → Returns (f a)) : Returns (x >>= f) ↔ Returns x := by
  rw [returns_bind_iff]
  constructor
  · rintro ⟨a, ha, -⟩
    exact ⟨a, ha⟩
  · rintro ⟨a, ha⟩
    exact ⟨a, ha, h a ha⟩

/-- Two computations, the second of which returns or not whatever the first has returned. -/
theorem returns_bind_and_iff {x : Except ε α} {f : α → Except ε β} {P Q : Prop}
    (hx : Returns x ↔ P) (hf : ∀ a, x = .ok a → (Returns (f a) ↔ Q)) :
    Returns (x >>= f) ↔ P ∧ Q := by
  rw [returns_bind_iff, ← hx]
  constructor
  · intro ⟨a, ha, hrest⟩
    exact ⟨⟨a, ha⟩, (hf a ha).mp hrest⟩
  · intro ⟨⟨a, ha⟩, hq⟩
    exact ⟨a, ha, (hf a ha).mpr hq⟩

/-- A list of computations returns the list of what they return. -/
theorem mapM_eq_ok_iff {f : α → Except ε β} {xs : List α} {ys : List β} :
    xs.mapM f = .ok ys ↔ xs.map f = ys.map .ok := by
  induction xs generalizing ys with
  | nil =>
      rw [List.mapM_nil, List.map_nil]
      constructor
      · intro h
        cases h
        rfl
      · intro h
        rw [List.map_eq_nil_iff.mp h.symm]
        rfl
  | cons x xs ih =>
      rw [List.mapM_cons, bind_eq_ok_iff]
      constructor
      · rintro ⟨y, hy, h⟩
        rcases bind_eq_ok_iff.mp h with ⟨zs, hzs, hpure⟩
        cases hpure
        rw [List.map_cons, List.map_cons, hy, ih.mp hzs]
      · intro h
        cases ys with
        | nil => cases h
        | cons y ys =>
            rw [List.map_cons, List.map_cons, List.cons.injEq] at h
            refine ⟨y, h.1, ?_⟩
            rw [ih.mpr h.2]
            rfl

/-- The elements with what was computed for each, where something is made of both. -/
theorem mapM_bind_eq_ok_iff {γ : Type v} {g : α → Except ε β} {h : α → β → γ} {xs : List α}
    {ys : List γ} :
    (xs.mapM fun x => g x >>= fun b => pure (h x b)) = .ok ys ↔
      ∃ written : List (α × β), written.map Prod.fst = xs ∧ (∀ p ∈ written, g p.1 = .ok p.2) ∧
        ys = written.map fun p => h p.1 p.2 := by
  induction xs generalizing ys with
  | nil =>
      rw [List.mapM_nil]
      constructor
      · intro hys
        cases hys
        exact ⟨[], rfl, by simp, rfl⟩
      · rintro ⟨written, hwritten, -, rfl⟩
        rw [List.map_eq_nil_iff.mp hwritten]
        rfl
  | cons x xs ih =>
      rw [List.mapM_cons, bind_eq_ok_iff]
      constructor
      · rintro ⟨y, hy, hrest⟩
        rcases bind_eq_ok_iff.mp hy with ⟨b, hb, hpure⟩
        cases hpure
        rcases bind_eq_ok_iff.mp hrest with ⟨zs, hzs, hpure⟩
        cases hpure
        rcases ih.mp hzs with ⟨written, rfl, hall, rfl⟩
        exact ⟨(x, b) :: written, rfl, List.forall_mem_cons.mpr ⟨hb, hall⟩, rfl⟩
      · rintro ⟨written, hwritten, hall, rfl⟩
        cases written with
        | nil => cases hwritten
        | cons p written =>
            rw [List.map_cons, List.cons.injEq] at hwritten
            rw [List.forall_mem_cons] at hall
            refine ⟨h p.1 p.2, ?_, ?_⟩
            · rw [← hwritten.1, hall.1]
              rfl
            · rw [ih.mpr ⟨written, hwritten.2, hall.2, rfl⟩]
              rfl

/-- A loop that gathers. What holds of the state and of what has been gathered so far holds of the
state at the end and of what all elements add. -/
theorem foldlM_gathers {σ : Type v} {γ : Type v} {P : List γ → σ → Prop}
    {f : σ → α → Except ε σ} {g : α → List γ}
    (hstep : ∀ done s x s', P done s → f s x = .ok s' → P (done ++ g x) s') {done : List γ}
    {s s' : σ} (h : P done s) {xs : List α} (hxs : xs.foldlM f s = .ok s') :
    P (done ++ xs.flatMap g) s' := by
  induction xs generalizing done s with
  | nil =>
      cases hxs
      rwa [List.flatMap_nil, List.append_nil]
  | cons x xs ih =>
      rw [List.foldlM_cons] at hxs
      obtain ⟨t, ht, hrest⟩ := bind_eq_ok_iff.mp hxs
      rw [List.flatMap_cons, ← List.append_assoc]
      exact ih (hstep done s x t h ht) hrest

/-- What every computation keeps of its element, the list of them keeps of the list. -/
theorem map_eq_of_mapM {γ : Type v} {f : α → Except ε β} {g : β → γ} {h : α → γ}
    (hf : ∀ x y, f x = .ok y → g y = h x) {xs : List α} {ys : List β}
    (hxs : xs.mapM f = .ok ys) : ys.map g = xs.map h := by
  have hmap := mapM_eq_ok_iff.mp hxs
  clear hxs
  induction ys generalizing xs with
  | nil => simpa using hmap
  | cons y ys ih =>
      cases xs with
      | nil => cases hmap
      | cons x xs =>
          rw [List.map_cons, List.map_cons, List.cons.injEq] at hmap
          rw [List.map_cons, List.map_cons, hf x y hmap.1, ih hmap.2]

/-- It returns if they all do. -/
theorem returns_mapM_iff {f : α → Except ε β} {xs : List α} :
    Returns (xs.mapM f) ↔ ∀ x ∈ xs, Returns (f x) := by
  induction xs with
  | nil => simp
  | cons x xs ih =>
      rw [List.mapM_cons, returns_bind_iff, List.forall_mem_cons, ← ih]
      constructor
      · rintro ⟨y, hy, h⟩
        rcases returns_bind_iff.mp h with ⟨ys, hys, -⟩
        exact ⟨⟨y, hy⟩, ⟨ys, hys⟩⟩
      · rintro ⟨⟨y, hy⟩, ⟨ys, hys⟩⟩
        refine ⟨y, hy, ?_⟩
        rw [hys]
        exact returns_pure _

end Telemetry.Lib
