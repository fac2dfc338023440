import Mathlib.Logic.Basic

/-!
# Functions that may return a promise

A function runs until it ends or has to wait. Then it comes back with a promise, and what is left of
it runs when the promise is awaited. In between its callers may come back themselves, and change
the state on their way out.

`Keeps E R` says of a function that the state in which it has ended is related by `R` to the one in
which it was called, if the way out of its callers relates states by `E`.

## Main definitions

* `Body` — a function on a state, and what it comes back with.
* `Body.andThen`, `Body.suspend`, `Body.async`, `Body.within` — how functions are put together.
* `Body.Keeps` — what a function does to the state from its call to its end.

## Main results

* `Body.keeps_andThen`, `Body.keeps_suspend`, `Body.keeps_async`, `Body.keeps_within` — the rules.
-/

namespace Telemetry.Lib

universe u

/-- How a function ends. -/
inductive Exit
  | value
  | error
  deriving DecidableEq, Repr

/-- What a call comes back with. -/
inductive Outcome (σ : Type u)
  | settled (how : Exit)
  | promise (rest : σ → σ × Exit)

/-- A function on a state. -/
abbrev Body (σ : Type u) := σ → σ × Outcome σ

namespace Body

variable {σ : Type u}

/-- A promise is awaited at once. -/
def settle : σ × Outcome σ → σ × Exit
  | (s, .settled how) => (s, how)
  | (s, .promise rest) => rest s

/-- A function that ends. -/
def exit (how : Exit) : Body σ := fun s => (s, .settled how)

/-- A change of the state, and then a function. -/
def after (change : σ → σ) (b : Body σ) : Body σ := fun s => b (change s)

/-- A function, and what follows it when it has ended. If it comes back with a promise, so does
the whole. -/
def andThen (b : Body σ) (next : Exit → Body σ) : Body σ := fun s =>
  match b s with
  | (s', .settled how) => next how s'
  | (s', .promise rest) => (s', .promise fun t => settle (next (rest t).2 (rest t).1))

/-- What follows an `await`. -/
def suspend (b : Body σ) : Body σ := fun s => (s, .promise fun t => settle (b t))

/-- A function that always comes back with a promise. -/
def async (b : Body σ) : Body σ := fun s =>
  match b s with
  | (s', .settled how) => (s', .promise fun t => (t, how))
  | (s', .promise rest) => (s', .promise rest)

/-- A function between two changes of the state, of which the second is made when it comes back. -/
def within (enter : σ → σ) (leave : σ → σ → σ) (b : Body σ) : Body σ := fun s =>
  (leave s (b (enter s)).1, (b (enter s)).2)

/-- From the call of the function to its end the state changes by `R`, if it changes by `E` at
most while a promise is on its way out. -/
structure Keeps (E R : σ → σ → Prop) (b : Body σ) : Prop where
  settled : ∀ {s s' how}, b s = (s', .settled how) → R s s'
  promise : ∀ {s s' rest}, b s = (s', .promise rest) → ∀ t, E s' t → R s (rest t).1

/-- What the rules ask of the two relations. -/
structure Frame (E R : σ → σ → Prop) : Prop where
  refl : ∀ s, E s s
  trans : ∀ {s t u}, E s t → E t u → E s u
  sub : ∀ {s t}, E s t → R s t
  comp : ∀ {s t u}, R s t → R t u → R s u

variable {E R : σ → σ → Prop} {b : Body σ}

/-- A call whose promise is awaited at once. -/
theorem Keeps.settle (hframe : Frame E R) (hb : Keeps E R b) (s : σ) :
    R s (Body.settle (b s)).1 := by
  cases h : b s with
  | mk s' outcome =>
      cases outcome with
      | settled how => exact hb.settled h
      | promise rest => exact hb.promise h s' (hframe.refl s')

theorem keeps_exit (hframe : Frame E R) (how : Exit) : Keeps E R (exit how) where
  settled := by
    intro s s' how' h
    cases h
    exact hframe.sub (hframe.refl s)
  promise := by
    intro s s' rest h
    cases h

theorem keeps_after (hframe : Frame E R) {change : σ → σ} (hchange : ∀ s, R s (change s))
    (hb : Keeps E R b) : Keeps E R (after change b) where
  settled h := hframe.comp (hchange _) (hb.settled h)
  promise h t ht := hframe.comp (hchange _) (hb.promise h t ht)

/-- **One function after the other.** -/
theorem keeps_andThen (hframe : Frame E R) {next : Exit → Body σ} (hb : Keeps E R b)
    (hnext : ∀ how, Keeps E R (next how)) : Keeps E R (andThen b next) where
  settled := by
    intro s s' how h
    rw [andThen] at h
    cases hcall : b s with
    | mk t outcome =>
        rw [hcall] at h
        cases outcome with
        | settled how' => exact hframe.comp (hb.settled hcall) ((hnext how').settled h)
        | promise rest => cases h
  promise := by
    intro s s' rest h t ht
    rw [andThen] at h
    cases hcall : b s with
    | mk u outcome =>
        rw [hcall] at h
        cases outcome with
        | settled how' => exact hframe.comp (hb.settled hcall) ((hnext how').promise h t ht)
        | promise rest' =>
            cases h
            exact hframe.comp (hb.promise hcall t ht) ((hnext _).settle hframe _)

/-- **What follows an `await`.** -/
theorem keeps_suspend (hframe : Frame E R) (hb : Keeps E R b) : Keeps E R (suspend b) where
  settled := by
    intro s s' how h
    cases h
  promise := by
    intro s s' rest h t ht
    cases h
    exact hframe.comp (hframe.sub ht) (hb.settle hframe t)

/-- **A function that always comes back with a promise.** -/
theorem keeps_async (hframe : Frame E R) (hb : Keeps E R b) : Keeps E R (async b) where
  settled := by
    intro s s' how h
    rw [async] at h
    split at h <;> cases h
  promise := by
    intro s s' rest h t ht
    rw [async] at h
    split at h
    · rename_i hcall
      cases h
      exact hframe.comp (hb.settled hcall) (hframe.sub ht)
    · rename_i hcall
      cases h
      exact hb.promise hcall t ht

/-- **A function between two changes** that are of the kind made on the way out. -/
theorem keeps_within (hframe : Frame E R) {enter : σ → σ} {leave : σ → σ → σ}
    (henter : ∀ s, R s (enter s)) (hleave : ∀ s s', E s' (leave s s')) (hb : Keeps E R b) :
    Keeps E R (within enter leave b) where
  settled := by
    intro s s' how h
    cases hcall : b (enter s) with
    | mk u outcome =>
        rw [within, hcall, Prod.mk.injEq] at h
        rcases h with ⟨rfl, rfl⟩
        exact hframe.comp (hframe.comp (henter s) (hb.settled hcall)) (hframe.sub (hleave s u))
  promise := by
    intro s s' rest h t ht
    cases hcall : b (enter s) with
    | mk u outcome =>
        rw [within, hcall, Prod.mk.injEq] at h
        rcases h with ⟨rfl, rfl⟩
        exact hframe.comp (henter s) (hb.promise hcall t (hframe.trans (hleave s u) ht))

end Body
end Telemetry.Lib
