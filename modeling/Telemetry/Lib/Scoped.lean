import Mathlib.Data.List.Basic
import Mathlib.Logic.Function.Basic

/-!
# Objects that flows refer to

Flows of control refer to objects, each to one at most. A flow enters a new object, changes the one
it refers to in place, or starts another flow, which then refers to the same object. So a change of
one flow's object is a change for another flow unless the object is the flow's alone, or stays as it
is.

## Main definitions

* `Scoped` — the objects, and which flow refers to which.
* `Scoped.enterWith`, `Scoped.ensure`, `Scoped.modify`, `Scoped.inherit` — what a flow may do.
* `Scoped.Keeps` — a change that no other flow sees.

## Main results

* `Scoped.get_modify_of_keeps` — **the other flows' objects stay as they are**.
-/

namespace Telemetry.Lib

universe u v

/-- Objects, and the references of the flows to them. -/
@[ext] structure Scoped (F : Type u) (A : Type v) where
  objects : List A
  ref : F → Option ℕ
  /-- A reference refers to an object. -/
  lt_length : ∀ {f i}, ref f = some i → i < objects.length

namespace Scoped

variable {F : Type u} {A : Type v} (S : Scoped F A)

/-- No flow refers to anything. -/
def empty : Scoped F A where
  objects := []
  ref _ := none
  lt_length h := nomatch h

/-- The object that the flow refers to. -/
def get (f : F) : Option A := (S.ref f).bind fun i => S.objects[i]?

/-- Change the flow's object in place. -/
def modify (f : F) (change : A → A) : Scoped F A where
  objects := (S.ref f).elim S.objects fun i => S.objects.modify i change
  ref := S.ref
  lt_length {g i} h := by
    cases S.ref f with
    | none => exact S.lt_length h
    | some j =>
        rw [Option.elim_some, List.length_modify]
        exact S.lt_length h

variable [DecidableEq F]

/-- Enter a new object. -/
def enterWith (f : F) (a : A) : Scoped F A where
  objects := S.objects ++ [a]
  ref := Function.update S.ref f (some S.objects.length)
  lt_length {g i} h := by
    rw [List.length_append, List.length_singleton]
    by_cases hg : g = f
    · rw [hg, Function.update_self] at h
      have hi := Option.some.inj h
      omega
    · rw [Function.update_of_ne hg] at h
      have hi := S.lt_length h
      omega

/-- Enter a new object if the flow refers to none. -/
def ensure (f : F) (a : A) : Scoped F A := if (S.get f).isSome then S else S.enterWith f a

/-- A flow starts another. -/
def inherit (f child : F) : Scoped F A where
  objects := S.objects
  ref := Function.update S.ref child (S.ref f)
  lt_length {g i} h := by
    by_cases hg : g = child
    · rw [hg, Function.update_self] at h
      exact S.lt_length h
    · rw [Function.update_of_ne hg] at h
      exact S.lt_length h

/-- None of the other flows refers to the flow's object. -/
def Alone (flows : List F) (f : F) : Prop :=
  ∀ g ∈ flows, g ≠ f → S.ref g = S.ref f → S.ref f = none

/-- No other flow sees the change: the object is the flow's alone, or stays as it is. -/
def Keeps (flows : List F) (f : F) (change : A → A) : Prop :=
  S.Alone flows f ∨ ∀ a ∈ S.get f, change a = a

instance (flows : List F) (f : F) : Decidable (S.Alone flows f) :=
  inferInstanceAs (Decidable (∀ g ∈ flows, g ≠ f → S.ref g = S.ref f → S.ref f = none))

instance [DecidableEq A] (flows : List F) (f : F) (change : A → A) :
    Decidable (S.Keeps flows f change) :=
  inferInstanceAs (Decidable (S.Alone flows f ∨ ∀ a ∈ S.get f, change a = a))

variable {S} {f g : F} {a : A} {change change' : A → A} {flows : List F}

omit [DecidableEq F] in
theorem get_of_ref {i : ℕ} (h : S.ref f = some i) : S.get f = S.objects[i]? := by
  rw [get, h, Option.bind_some]

omit [DecidableEq F] in
theorem get_eq_none_iff : S.get f = none ↔ S.ref f = none := by
  rw [get]
  cases h : S.ref f with
  | none => simp
  | some i => simpa using S.lt_length h

/-! ## What a flow does to its own object -/

omit [DecidableEq F] in
theorem objects_modify_of_ref {i : ℕ} (h : S.ref f = some i) :
    (S.modify f change).objects = S.objects.modify i change := by
  have hobjects : (S.modify f change).objects =
      (S.ref f).elim S.objects fun i => S.objects.modify i change := rfl
  rw [hobjects, h, Option.elim_some]

omit [DecidableEq F] in
theorem modify_of_ref_none (h : S.ref f = none) : S.modify f change = S := by
  have hobjects : (S.modify f change).objects =
      (S.ref f).elim S.objects fun i => S.objects.modify i change := rfl
  ext1
  · rw [hobjects, h, Option.elim_none]
  · rfl

omit [DecidableEq F] in
@[simp] theorem get_modify_self : (S.modify f change).get f = (S.get f).map change := by
  cases h : S.ref f with
  | none =>
      rw [modify_of_ref_none h, get_eq_none_iff.mpr h, Option.map_none]
  | some i =>
      have href : (S.modify f change).ref f = some i := h
      rw [get_of_ref href, get_of_ref h, objects_modify_of_ref h]
      exact List.getElem?_modify_eq change i S.objects

theorem get_enterWith : (S.enterWith f a).get g = if g = f then some a else S.get g := by
  by_cases hg : g = f
  · subst hg
    have href : (S.enterWith g a).ref g = some S.objects.length := Function.update_self ..
    rw [if_pos rfl, get_of_ref href]
    exact List.getElem?_concat_length
  · rw [if_neg hg]
    have href : (S.enterWith f a).ref g = S.ref g := Function.update_of_ne hg ..
    cases h : S.ref g with
    | none => rw [get_eq_none_iff.mpr h, get_eq_none_iff.mpr (href.trans h)]
    | some i =>
        rw [get_of_ref h, get_of_ref (href.trans h)]
        exact List.getElem?_append_left (S.lt_length h)

theorem get_ensure :
    (S.ensure f a).get g = if g = f then some ((S.get f).getD a) else S.get g := by
  rw [ensure]
  cases h : S.get f with
  | none => exact get_enterWith
  | some b =>
      rw [Option.isSome_some, if_pos rfl]
      split
      next hg => rw [hg, h, Option.getD_some]
      next => rfl

@[simp] theorem get_ensure_self : (S.ensure f a).get f = some ((S.get f).getD a) := by
  rw [get_ensure, if_pos rfl]

theorem get_ensure_of_ne (hne : g ≠ f) : (S.ensure f a).get g = S.get g := by
  rw [get_ensure, if_neg hne]

omit [DecidableEq F] in
/-- A change after a change is one change. -/
theorem modify_modify :
    (S.modify f change).modify f change' = S.modify f fun a => change' (change a) := by
  cases h : S.ref f with
  | none => rw [modify_of_ref_none h, modify_of_ref_none h, modify_of_ref_none h]
  | some i =>
      have href : (S.modify f change).ref f = some i := h
      ext1
      · rw [objects_modify_of_ref href, objects_modify_of_ref h, objects_modify_of_ref h]
        exact List.modify_modify_eq change change' i S.objects
      · rfl

theorem ensure_modify_ensure :
    ((S.ensure f a).modify f change).ensure f a = (S.ensure f a).modify f change := by
  rw [ensure, get_modify_self, get_ensure_self]
  rfl

/-! ## What it does to the others' -/

/-- A new object is the flow's alone. -/
theorem alone_enterWith : (S.enterWith f a).Alone flows f := by
  intro g _ hne hsame
  have hf : (S.enterWith f a).ref f = some S.objects.length := Function.update_self ..
  have hg : (S.enterWith f a).ref g = S.ref g := Function.update_of_ne hne ..
  rw [hf, hg] at hsame
  exact absurd (S.lt_length hsame) (Nat.lt_irrefl _)

theorem Alone.ensure (h : S.Alone flows f) : (S.ensure f a).Alone flows f := by
  rw [Scoped.ensure]
  split
  next => exact h
  next => exact alone_enterWith

theorem Keeps.ensure (h : S.Keeps flows f change) : (S.ensure f a).Keeps flows f change := by
  rw [Scoped.ensure]
  split
  next => exact h
  next => exact .inl alone_enterWith

omit [DecidableEq F] in
/-- **The other flows' objects stay as they are.** -/
theorem get_modify_of_keeps (h : S.Keeps flows f change) (hg : g ∈ flows) (hne : g ≠ f) :
    (S.modify f change).get g = S.get g := by
  cases hf : S.ref f with
  | none => rw [modify_of_ref_none hf]
  | some i =>
      have href : (S.modify f change).ref g = S.ref g := rfl
      rw [get, get, href, objects_modify_of_ref hf]
      cases hrefg : S.ref g with
      | none => rfl
      | some j =>
          rw [Option.bind_some, Option.bind_some]
          by_cases hj : i = j
          · subst hj
            rcases h with halone | hsame
            · have hnone := halone g hg hne (hrefg.trans hf.symm)
              rw [hf] at hnone
              cases hnone
            · rw [List.getElem?_modify_eq]
              cases hobject : S.objects[i]? with
              | none => rfl
              | some b =>
                  have hget : b ∈ S.get f := by
                    rw [get_of_ref hf, hobject]
                    rfl
                  exact congrArg some (hsame b hget)
          · exact List.getElem?_modify_ne change S.objects hj

theorem get_inherit {child : F} :
    (S.inherit f child).get g = if g = child then S.get f else S.get g := by
  have href : (S.inherit f child).ref g = if g = child then S.ref f else S.ref g :=
    Function.update_apply ..
  rw [get, href, get, get]
  split <;> rfl

end Scoped
end Telemetry.Lib
