import Mathlib.Data.List.Basic
import Mathlib.Data.List.Forall2

/-!
# Texts whose parts can be told apart

A text is read from its start. A part of it ends by itself, as a quoted string does, or where a
stop character comes next, as a number does in a list. `Splits` says of two parts that, where two
texts that start with them are equal, so are what follows them, and something holds of the parts;
the rules below put it together along the way a text is written.

## Main definitions

* `Ends` — what may follow a part.
* `Splits` — two parts can be told apart, or something holds of them.

## Main results

* `splits_of_free` — two words without stop characters.
* `Splits.joined` — two lists with separators and a closing bracket.
-/

namespace Telemetry.Lib

variable {χ : Type} {stop : χ → Prop}

/-- What follows a part of a text: nothing, or something that starts with a stop. -/
def Ends (stop : χ → Prop) (rest : List χ) : Prop := ∀ c ∈ rest.head?, stop c

@[simp] theorem ends_nil : Ends stop [] := by simp [Ends]

@[simp] theorem ends_cons {c : χ} {rest : List χ} : Ends stop (c :: rest) ↔ stop c := by
  simp [Ends]

@[simp] theorem ends_true (rest : List χ) : Ends (fun _ => True) rest := by simp [Ends]

/-- Where texts that start with these parts are equal, so is what follows the parts, and `Q`
holds. -/
def Splits (stop : χ → Prop) (s t : List χ) (Q : Prop) : Prop :=
  ∀ r r', Ends stop r → Ends stop r' → s ++ r = t ++ r' → Q ∧ r = r'

/-- Two parts that end by themselves. -/
abbrev SplitsAlways (s t : List χ) (Q : Prop) : Prop := Splits (fun _ => True) s t Q

variable {s t : List χ} {P Q : Prop}

theorem Splits.imp (h : Splits stop s t P) (hpq : P → Q) : Splits stop s t Q := by
  intro r r' hr hr' heq
  rcases h r r' hr hr' heq with ⟨hp, hrest⟩
  exact ⟨hpq hp, hrest⟩

/-- Two parts that are the same text. -/
theorem Splits.of_eq (h : Splits stop s t Q) (heq : s = t) : Q :=
  (h [] [] ends_nil ends_nil (by rw [heq])).1

/-- What ends by itself ends before a stop. -/
theorem SplitsAlways.splits (h : SplitsAlways s t Q) : Splits stop s t Q :=
  fun r r' _ _ heq => h r r' (ends_true r) (ends_true r') heq

/-- A text that must be another one. -/
theorem SplitsAlways.refl (s : List χ) : SplitsAlways s s True :=
  fun _ _ _ _ heq => ⟨trivial, List.append_cancel_left heq⟩

/-- Parts that start differently. -/
theorem splits_of_head_ne {a b : χ} (hne : a ≠ b) (s t : List χ) :
    Splits stop (a :: s) (b :: t) Q := by
  intro r r' _ _ heq
  exact absurd (List.cons.inj heq).1 hne

/-- **Two words without stop characters** are the same word. -/
theorem splits_of_free (hs : ∀ c ∈ s, ¬ stop c) (ht : ∀ c ∈ t, ¬ stop c) :
    Splits stop s t (s = t) := by
  intro r r' hr hr' heq
  induction s generalizing t with
  | nil =>
      cases t with
      | nil => exact ⟨rfl, heq⟩
      | cons b t =>
          rw [List.nil_append] at heq
          rw [heq, List.cons_append, ends_cons] at hr
          exact absurd hr (ht b List.mem_cons_self)
  | cons a s ih =>
      cases t with
      | nil =>
          rw [List.nil_append] at heq
          rw [← heq, List.cons_append, ends_cons] at hr'
          exact absurd hr' (hs a List.mem_cons_self)
      | cons b t =>
          rw [List.cons_append, List.cons_append, List.cons.injEq] at heq
          rcases ih (fun c hc => hs c (List.mem_cons_of_mem a hc))
            (fun c hc => ht c (List.mem_cons_of_mem b hc)) heq.2 with ⟨hst, hrest⟩
          exact ⟨by rw [heq.1, hst], hrest⟩

/-- A part that ends by itself, and what comes after it. -/
theorem SplitsAlways.append {a b : List χ} (ha : SplitsAlways a b P) (hs : Splits stop s t Q) :
    Splits stop (a ++ s) (b ++ t) (P ∧ Q) := by
  intro r r' hr hr' heq
  rw [List.append_assoc, List.append_assoc] at heq
  rcases ha _ _ (ends_true _) (ends_true _) heq with ⟨hp, heq'⟩
  rcases hs r r' hr hr' heq' with ⟨hq, hrest⟩
  exact ⟨⟨hp, hq⟩, hrest⟩

/-- A part that ends before a stop, and what comes after it and starts with one. -/
theorem Splits.append_stop {a b : List χ} (hs : Splits stop s t P) (ha : SplitsAlways a b Q)
    (hstop : ∀ r, Ends stop (a ++ r)) (hstop' : ∀ r, Ends stop (b ++ r)) :
    SplitsAlways (s ++ a) (t ++ b) (P ∧ Q) := by
  intro r r' _ _ heq
  rw [List.append_assoc, List.append_assoc] at heq
  rcases hs _ _ (hstop r) (hstop' r') heq with ⟨hp, heq'⟩
  rcases ha r r' (ends_true r) (ends_true r') heq' with ⟨hq, hrest⟩
  exact ⟨⟨hp, hq⟩, hrest⟩

/-- The same text before two parts. -/
theorem Splits.append_left (a : List χ) (hs : Splits stop s t Q) :
    Splits stop (a ++ s) (a ++ t) Q :=
  ((SplitsAlways.refl a).append hs).imp And.right

/-! ## Lists -/

variable {α β : Type} {f : α → List χ} {g : β → List χ} {R : α → β → Prop} {sep close : χ}

/-- Parts with separators between them, the first one set apart. -/
theorem intercalate_map_cons (sep : χ) (f : α → List χ) (x : α) (xs : List α) :
    [sep].intercalate ((x :: xs).map f) = f x ++ xs.flatMap fun y => sep :: f y := by
  induction xs generalizing x with
  | nil => simp [List.intercalate]
  | cons y ys ih =>
      rw [List.map_cons, List.map_cons, List.intercalate_cons_cons, ← List.map_cons, ih,
        List.flatMap_cons]
      simp

/-- Parts with a separator before each. -/
theorem flatMap_cons_eq (sep : χ) (f : α → List χ) {xs : List α} (h : xs ≠ []) :
    (xs.flatMap fun x => sep :: f x) = sep :: [sep].intercalate (xs.map f) := by
  obtain ⟨x, xs, rfl⟩ := List.exists_cons_of_ne_nil h
  rw [intercalate_map_cons]
  rfl

/-- Parts with separators between them, one of them set apart. -/
theorem intercalate_map_append_cons (sep : χ) (f : α → List χ) (before : List α) (x : α)
    (after : List α) : [sep].intercalate ((before ++ x :: after).map f) =
      (before.flatMap fun y => f y ++ [sep]) ++ (f x ++ after.flatMap fun y => sep :: f y) := by
  induction before with
  | nil => exact intercalate_map_cons sep f x after
  | cons y ys ih =>
      rw [List.cons_append, intercalate_map_cons, flatMap_cons_eq sep f (by simp), ih,
        List.flatMap_cons, List.append_assoc, List.append_assoc]
      rfl

/-- The rest of a list starts with a stop. -/
theorem ends_rest (hsep : stop sep) (hclose : stop close) (f : α → List χ) (xs : List α)
    (rest : List χ) : Ends stop ((xs.flatMap fun x => sep :: f x) ++ [close] ++ rest) := by
  cases xs with
  | nil => simpa using hclose
  | cons x xs => simpa using hsep

theorem splitsAlways_rest (hsep : stop sep) (hclose : stop close) (hne : sep ≠ close)
    {xs : List α} {ys : List β} (h : ∀ x ∈ xs, ∀ y ∈ ys, Splits stop (f x) (g y) (R x y)) :
    SplitsAlways ((xs.flatMap fun x => sep :: f x) ++ [close])
      ((ys.flatMap fun y => sep :: g y) ++ [close]) (List.Forall₂ R xs ys) := by
  induction xs generalizing ys with
  | nil =>
      cases ys with
      | nil => exact (SplitsAlways.refl _).imp fun _ => .nil
      | cons y ys => exact splits_of_head_ne hne.symm _ _
  | cons x xs ih =>
      cases ys with
      | nil => exact splits_of_head_ne hne _ _
      | cons y ys =>
          have htail := ih fun x' hx' y' hy' =>
            h x' (List.mem_cons_of_mem x hx') y' (List.mem_cons_of_mem y hy')
          have hboth := (h x List.mem_cons_self y List.mem_cons_self).append_stop htail
            (ends_rest hsep hclose f xs) (ends_rest hsep hclose g ys)
          have hsplit := (hboth.imp fun hxy => List.Forall₂.cons hxy.1 hxy.2).append_left [sep]
          simpa [List.flatMap_cons] using hsplit

/-- **Two lists with separators and a closing bracket** are alike item by item, if their items
can be told apart and none starts with the bracket. -/
theorem Splits.joined (hsep : stop sep) (hclose : stop close) (hne : sep ≠ close)
    {xs : List α} {ys : List β} (hx : ∀ x ∈ xs, ∃ c s, f x = c :: s ∧ c ≠ close)
    (hy : ∀ y ∈ ys, ∃ c s, g y = c :: s ∧ c ≠ close)
    (h : ∀ x ∈ xs, ∀ y ∈ ys, Splits stop (f x) (g y) (R x y)) :
    SplitsAlways ([sep].intercalate (xs.map f) ++ [close])
      ([sep].intercalate (ys.map g) ++ [close]) (List.Forall₂ R xs ys) := by
  cases xs with
  | nil =>
      cases ys with
      | nil => exact (SplitsAlways.refl _).imp fun _ => .nil
      | cons y ys =>
          rcases hy y List.mem_cons_self with ⟨c, s, hc, hclose'⟩
          rw [intercalate_map_cons, hc]
          exact splits_of_head_ne hclose'.symm _ _
  | cons x xs =>
      cases ys with
      | nil =>
          rcases hx x List.mem_cons_self with ⟨c, s, hc, hclose'⟩
          rw [intercalate_map_cons, hc]
          exact splits_of_head_ne hclose' _ _
      | cons y ys =>
          rw [intercalate_map_cons, intercalate_map_cons, List.append_assoc, List.append_assoc]
          have htail := splitsAlways_rest hsep hclose hne fun x' hx' y' hy' =>
            h x' (List.mem_cons_of_mem x hx') y' (List.mem_cons_of_mem y hy')
          have hboth := (h x List.mem_cons_self y List.mem_cons_self).append_stop htail
            (ends_rest hsep hclose f xs) (ends_rest hsep hclose g ys)
          exact hboth.imp fun hxy => .cons hxy.1 hxy.2

end Telemetry.Lib
