import Mathlib.Data.Set.Basic

/-!
# Two machines in lockstep

Two partial step functions on the same labels, each answering with an output. They
agree on a run when at every label both step, with the same output, into states that
look the same. `agree_iff` gives the exact condition on the first machine's run under
which they do: it needs a coupling that matched steps keep, and that a label outside
the condition is told apart at once.

## Main definitions

* `Agree` — same outputs and same-looking states all along a run.
* `AllMeet` — every label of a run meets a condition in the state it is taken in.
-/

namespace Telemetry.Lib.Lockstep

universe u v w x

variable {σ : Type u} {τ : Type v} {ℓ : Type w} {ω : Type x}
variable (f : σ → ℓ → Option (ω × σ)) (g : τ → ℓ → Option (ω × τ))

/-- Both machines step with the same output into states that look the same. -/
def StepAgree (same : σ → τ → Prop) (s : σ) (t : τ) (l : ℓ) : Prop :=
  ∃ o s' t', f s l = some (o, s') ∧ g t l = some (o, t') ∧ same s' t'

/-- The machines agree at every label of the run. -/
def Agree (same : σ → τ → Prop) : σ → τ → List ℓ → Prop
  | _, _, [] => True
  | s, t, l :: ls =>
      ∃ o s' t', f s l = some (o, s') ∧ g t l = some (o, t') ∧ same s' t' ∧ Agree same s' t' ls

/-- Every label of the first machine's run meets the condition where it is taken. -/
def AllMeet (Meets : σ → ℓ → Prop) : σ → List ℓ → Prop
  | _, [] => True
  | s, l :: ls => Meets s l ∧ ∀ o s', f s l = some (o, s') → AllMeet Meets s' ls

instance AllMeet.decidable (Meets : σ → ℓ → Prop) [∀ s l, Decidable (Meets s l)] :
    ∀ s ls, Decidable (AllMeet f Meets s ls)
  | _, [] => inferInstanceAs (Decidable True)
  | s, l :: ls =>
      haveI : Decidable (∀ o s', f s l = some (o, s') → AllMeet f Meets s' ls) :=
        match h : f s l with
        | none => isTrue fun _ _ hf => by cases hf
        | some (o, s') =>
            haveI := AllMeet.decidable Meets s' ls
            decidable_of_iff (AllMeet f Meets s' ls)
              ⟨fun hm _ _ hf => by cases hf; exact hm, fun hm => hm o s' rfl⟩
      inferInstanceAs (Decidable (Meets s l ∧ ∀ o s', f s l = some (o, s') → AllMeet f Meets s' ls))

variable {f g}

/-- **The lockstep rule**: with a coupling that the condition preserves and whose failure
shows at once, agreement on a run is the condition on every label of it. -/
theorem agree_iff {same : σ → τ → Prop} {Meets : σ → ℓ → Prop} {R : σ → τ → Prop}
    (hmeet : ∀ s t l, R s t → Meets s l →
      ∃ o s' t', f s l = some (o, s') ∧ g t l = some (o, t') ∧ R s' t')
    (hsame : ∀ s t, R s t → same s t)
    (hnot : ∀ s t l, R s t → ¬ Meets s l → ¬ StepAgree f g same s t l)
    (ls : List ℓ) {s : σ} {t : τ} (hR : R s t) :
    Agree f g same s t ls ↔ AllMeet f Meets s ls := by
  induction ls generalizing s t with
  | nil => exact Iff.rfl
  | cons l ls ih =>
      constructor
      · rintro ⟨o, s', t', hf, hg, hs, hrest⟩
        have hm : Meets s l := by
          by_contra h
          exact hnot s t l hR h ⟨o, s', t', hf, hg, hs⟩
        refine ⟨hm, ?_⟩
        intro o' s'' hf'
        obtain ⟨o₁, s₁, t₁, hf₁, hg₁, hR₁⟩ := hmeet s t l hR hm
        obtain ⟨rfl, rfl⟩ := Prod.mk.inj (Option.some.inj (hf'.symm.trans hf))
        obtain ⟨rfl, rfl⟩ := Prod.mk.inj (Option.some.inj (hf₁.symm.trans hf))
        obtain ⟨-, rfl⟩ := Prod.mk.inj (Option.some.inj (hg₁.symm.trans hg))
        exact (ih hR₁).mp hrest
      · rintro ⟨hm, hrest⟩
        obtain ⟨o, s', t', hf, hg, hR'⟩ := hmeet s t l hR hm
        exact ⟨o, s', t', hf, hg, hsame s' t' hR', (ih hR').mpr (hrest o s' hf)⟩

end Telemetry.Lib.Lockstep
