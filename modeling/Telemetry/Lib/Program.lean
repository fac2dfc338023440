import Mathlib.Logic.Basic

/-!
# Programs that may raise

A program changes a state and may raise on the way; what it has changed by then stays changed, and
a handler sees it. A step may be interrupted before its change or after it.

## Main definitions

* `Program` — a program, and `Program.exec`, what it does to a state.
* `Program.step` — a change that may be interrupted.
* `Program.onRaise` — a program with a handler that raises again.
* `Program.ensuring` — a program with another one behind it, whatever happens.
* `Program.Keeps` — whatever happens, a part of the state stays.

## Main results

* `Program.exec_bind` — one program after another.
* `Program.exec_tryCatch` — a handler.
* `Program.Keeps.bind`, `Program.Keeps.step` — the rules of what is kept.
-/

namespace Telemetry.Lib

/-- A program on a state. -/
abbrev Program (ε σ α : Type) := ExceptT ε (StateM σ) α

/-- Whether a step is interrupted. -/
inductive Interruption
  | none
  | before
  | after
  deriving DecidableEq, Repr

namespace Program

variable {ε σ τ α β : Type}

/-- What a program returns or raises in a state, and the state that it leaves. -/
def exec (p : Program ε σ α) (s : σ) : Except ε α × σ := p s

/-- A change of the state, which may be interrupted. -/
def step (i : Interruption) (e : ε) (change : σ → σ) : Program ε σ Unit :=
  match i with
  | .none => modify change
  | .before => throw e
  | .after => do
      modify change
      throw e

/-- If the program raises, the handler runs, and the exception is raised again. -/
def onRaise (p : Program ε σ α) (handler : Program ε σ Unit) : Program ε σ α :=
  tryCatch p fun e => do
    handler
    throw e

/-- Whether the program returns or raises, the other one runs behind it. -/
def ensuring (p : Program ε σ α) (after : Program ε σ Unit) : Program ε σ α := do
  let a ← p.onRaise after
  after
  pure a

/-! ## Running -/

@[simp] theorem exec_pure (a : α) (s : σ) : (pure a : Program ε σ α).exec s = (.ok a, s) := rfl

@[simp] theorem exec_throw (e : ε) (s : σ) :
    (throw e : Program ε σ α).exec s = (.error e, s) := rfl

@[simp] theorem exec_get (s : σ) : (get : Program ε σ σ).exec s = (.ok s, s) := rfl

@[simp] theorem exec_modify (f : σ → σ) (s : σ) :
    (modify f : Program ε σ PUnit).exec s = (.ok ⟨⟩, f s) := rfl

@[simp] theorem exec_set (s' s : σ) : (set s' : Program ε σ PUnit).exec s = (.ok ⟨⟩, s') := rfl

@[simp] theorem exec_ofExcept (r : Except ε α) (s : σ) :
    (MonadExcept.ofExcept r : Program ε σ α).exec s = (r, s) := by
  cases r <;> rfl

/-- **One program after another.** -/
theorem exec_bind (p : Program ε σ α) (f : α → Program ε σ β) (s : σ) :
    (p >>= f).exec s =
      match p.exec s with
      | (.ok a, s') => (f a).exec s'
      | (.error e, s') => (.error e, s') := by
  have h : (p >>= f).exec s =
      (match p.exec s with
        | (r, s') => ExceptT.bindCont f r s' : Except ε β × σ) := rfl
  rw [h]
  cases p.exec s with
  | mk r s' => cases r <;> rfl

/-- **A handler** leaves what returns alone. -/
theorem exec_tryCatch (p : Program ε σ α) (handler : ε → Program ε σ α) (s : σ) :
    (tryCatch p handler).exec s =
      match p.exec s with
      | (.ok a, s') => (.ok a, s')
      | (.error e, s') => (handler e).exec s' := by
  have h : (tryCatch p handler).exec s =
      (match p.exec s with
        | (r, s') =>
            (match r with
              | .ok a => pure a
              | .error e => handler e : Program ε σ α).exec s') := rfl
  rw [h]
  cases p.exec s with
  | mk r s' => cases r <;> rfl

theorem exec_onRaise (p : Program ε σ α) (handler : Program ε σ Unit) (s : σ) :
    (p.onRaise handler).exec s =
      match p.exec s with
      | (.ok a, s') => (.ok a, s')
      | (.error e, s') =>
          match handler.exec s' with
          | (.ok _, s'') => (.error e, s'')
          | (.error e', s'') => (.error e', s'') := by
  rw [onRaise, exec_tryCatch]
  cases p.exec s with
  | mk r s' =>
      cases r with
      | ok a => rfl
      | error e =>
          simp only [exec_bind]
          cases handler.exec s' with
          | mk r' s'' => cases r' <;> rfl

/-- What runs behind a program, if it is a change of the state. -/
theorem exec_ensuring (p : Program ε σ α) (change : σ → σ) (s : σ) :
    (p.ensuring (modify change)).exec s = ((p.exec s).1, change (p.exec s).2) := by
  rw [ensuring, exec_bind, exec_onRaise]
  cases p.exec s with
  | mk r s' => cases r <;> rfl

/-- What a step leaves. -/
theorem exec_step (i : Interruption) (e : ε) (change : σ → σ) (s : σ) :
    (step i e change).exec s =
      match i with
      | .none => (.ok (), change s)
      | .before => (.error e, s)
      | .after => (.error e, change s) := by
  cases i <;> rfl

/-- **A program returns** if both of its parts do. -/
theorem exec_bind_eq_ok {p : Program ε σ α} {f : α → Program ε σ β} {s s'' : σ} {b : β} :
    (p >>= f).exec s = (.ok b, s'') ↔
      ∃ a s', p.exec s = (.ok a, s') ∧ (f a).exec s' = (.ok b, s'') := by
  rw [exec_bind]
  cases p.exec s with
  | mk r s' =>
      cases r with
      | error e => simp
      | ok a =>
          constructor
          · exact fun h => ⟨a, s', rfl, h⟩
          · intro ⟨a', t, hsame, h⟩
            cases hsame
            exact h

theorem exec_step_eq_ok {i : Interruption} {e : ε} {change : σ → σ} {s s' : σ} {u : Unit} :
    (step i e change).exec s = (.ok u, s') ↔ i = .none ∧ s' = change s := by
  rw [exec_step]
  cases i <;> simp [eq_comm]

/-! ## What is kept -/

/-- Whatever happens, a part of the state stays. -/
def Keeps (part : σ → τ) (p : Program ε σ α) : Prop := ∀ s, part (p.exec s).2 = part s

namespace Keeps

variable {part : σ → τ} {p : Program ε σ α} {f : α → Program ε σ β}

theorem bind (hp : Keeps part p) (hf : ∀ a, Keeps part (f a)) : Keeps part (p >>= f) := by
  intro s
  have hs := hp s
  rw [exec_bind]
  cases h : p.exec s with
  | mk r s' =>
      rw [h] at hs
      cases r with
      | ok a => exact (hf a s').trans hs
      | error e => exact hs

theorem of_pure (a : α) : Keeps part (pure a : Program ε σ α) := fun _ => rfl

theorem of_get : Keeps part (get : Program ε σ σ) := fun _ => rfl

theorem of_modify {change : σ → σ} (h : ∀ s, part (change s) = part s) :
    Keeps part (modify change : Program ε σ PUnit) := h

theorem of_except (r : Except ε α) : Keeps part (MonadExcept.ofExcept r : Program ε σ α) := by
  intro s
  rw [exec_ofExcept]

theorem step {change : σ → σ} (h : ∀ s, part (change s) = part s) (i : Interruption) (e : ε) :
    Keeps part (step i e change) := by
  intro s
  rw [exec_step]
  cases i with
  | none => exact h s
  | before => rfl
  | after => exact h s

end Keeps

end Program

end Telemetry.Lib
