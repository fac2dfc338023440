import Mathlib.Data.List.Basic

/-!
# Reading back what was written

A reader takes something off the start of a text and leaves the rest. `Reads` says that it takes a
given thing off a given text, whatever follows. The readers below are those of line formats: a fixed
text, a text with escapes, a list in brackets, and the lines themselves.

## Main definitions

* `Reader`, `Reads` — readers, and what they take.
* `Escapes`, `escape`, `readEscaped` — characters that are written as two.
* `readMany` — a list with separators and a closing bracket.
* `unlines`, `lines?` — lines, each with its end.

## Main results

* `readEscaped_escape` — **what was escaped is read back**.
* `readMany_joined`, `readMany_eq_none` — a list, and a list with a part that is none.
* `lines?_unlines` — the lines of lines, and the pieces of those that are broken.
-/

namespace Telemetry.Lib

variable {χ α : Type}

/-- Takes something off the start of a text, and leaves the rest. -/
abbrev Reader (χ α : Type) := List χ → Option (α × List χ)

/-- The reader takes `a` off the text `s`, whatever follows it. -/
def Reads (p : Reader χ α) (s : List χ) (a : α) : Prop := ∀ rest, p (s ++ rest) = some (a, rest)

section Text

variable [DecidableEq χ]

/-- A fixed text. -/
def readText (t : List χ) : Reader χ Unit := fun s =>
  if t <+: s then some ((), s.drop t.length) else none

@[simp] theorem readText_append (t rest : List χ) :
    readText t (t ++ rest) = some ((), rest) := by
  simp [readText]

/-- The text does not start as the other one. -/
theorem readText_cons_eq_none {c : χ} {s : List χ} (h : s.head? ≠ some c) (t : List χ) :
    readText (c :: t) s = none := by
  rw [readText, if_neg]
  rintro ⟨rest, rfl⟩
  exact h rfl

/-- Another text of the same length. -/
theorem readText_eq_none_of_length_eq {s t : List χ} (hlength : t.length = s.length) (hne : t ≠ s)
    (rest : List χ) : readText t (s ++ rest) = none := by
  rw [readText, if_neg]
  rintro ⟨u, hu⟩
  exact hne (List.append_inj_left hu hlength)

end Text

/-! ## Escapes -/

/-- Some characters are written behind an escape character, as another one each. -/
structure Escapes (χ : Type) where
  /-- The escape character. -/
  sign : χ
  code : χ → Option χ
  decode : χ → Option χ
  decode_code : ∀ c d, code c = some d → decode d = some c
  code_sign : code sign ≠ none

variable {e : Escapes χ}

/-- There are no more things than characters. -/
theorem length_le_flatMap_cons (sep : χ) (f : α → List χ) (xs : List α) :
    xs.length ≤ (xs.flatMap fun x => sep :: f x).length := by
  induction xs with
  | nil => simp
  | cons x xs ih =>
      rw [List.flatMap_cons, List.length_append, List.length_cons, List.length_cons]
      omega

/-- The text with its escapes. -/
def escape (e : Escapes χ) (s : List χ) : List χ :=
  s.flatMap fun c => match e.code c with
    | some d => [e.sign, d]
    | none => [c]

/-- A character that is always escaped, and is no code of another, is not in the text. -/
theorem notMem_escape {c : χ} (hcode : e.code c ≠ none) (hsign : c ≠ e.sign)
    (hother : ∀ b, e.code b ≠ some c) (s : List χ) : c ∉ escape e s := by
  rw [escape, List.mem_flatMap]
  rintro ⟨b, -, hmem⟩
  cases hb : e.code b with
  | none =>
      simp only [hb, List.mem_singleton] at hmem
      exact hcode (hmem ▸ hb)
  | some d =>
      simp only [hb, List.mem_cons, List.not_mem_nil, or_false] at hmem
      obtain h | h := hmem
      · exact hsign h
      · exact hother b (h ▸ hb)

variable [DecidableEq χ]

/-- A text with escapes, up to a closing character, or to the end where there is none. The flag
says that the escape character was the last one. -/
def readEscapedFrom (e : Escapes χ) (close : Option χ) : Bool → Reader χ (List χ)
  | true, [] => none
  | false, [] => if close = none then some ([], []) else none
  | true, d :: s =>
      (e.decode d).bind fun c => (readEscapedFrom e close false s).map fun r => (c :: r.1, r.2)
  | false, c :: s =>
      if close = some c then some ([], s)
      else if c = e.sign then readEscapedFrom e close true s
      else (readEscapedFrom e close false s).map fun r => (c :: r.1, r.2)

/-- A text with escapes. -/
def readEscaped (e : Escapes χ) (close : Option χ) : Reader χ (List χ) :=
  readEscapedFrom e close false

/-- What was escaped comes before what is read next. -/
theorem readEscaped_escape_append {close : Option χ}
    (hclose : ∀ c, close = some c → e.code c ≠ none ∧ c ≠ e.sign) (s rest : List χ) :
    readEscaped e close (escape e s ++ rest) =
      (readEscaped e close rest).map fun r => (s ++ r.1, r.2) := by
  induction s with
  | nil => simp [escape]
  | cons c s ih =>
      rw [readEscaped] at ih
      rw [escape, List.flatMap_cons, ← escape, readEscaped]
      cases hcode : e.code c with
      | some d =>
          have hsign : close ≠ some e.sign := fun h => (hclose _ h).2 rfl
          simp only [List.cons_append, List.nil_append]
          rw [readEscapedFrom, if_neg hsign, if_pos rfl, readEscapedFrom, ih,
            e.decode_code c d hcode, Option.bind_some, Option.map_map]
          rfl
      | none =>
          have hplain : close ≠ some c := fun h => (hclose c h).1 hcode
          have hsign : c ≠ e.sign := by
            intro h
            exact e.code_sign (h ▸ hcode)
          simp only [List.cons_append, List.nil_append]
          rw [readEscapedFrom, if_neg hplain, if_neg hsign, ih, Option.map_map]
          rfl

/-- **What was escaped is read back**, up to the closing character. -/
theorem readEscaped_escape {c : χ} (hcode : e.code c ≠ none) (hsign : c ≠ e.sign) (s : List χ) :
    Reads (readEscaped e (some c)) (escape e s ++ [c]) s := by
  intro rest
  have hclose : ∀ d, some c = some d → e.code d ≠ none ∧ d ≠ e.sign := by
    intro d hd
    obtain rfl := Option.some.inj hd
    exact ⟨hcode, hsign⟩
  have hend : readEscaped e (some c) (c :: rest) = some ([], rest) := by
    rw [readEscaped, readEscapedFrom, if_pos rfl]
  rw [List.append_assoc, readEscaped_escape_append hclose, List.singleton_append, hend]
  simp

/-- The same up to the end. -/
theorem readEscaped_escape_end (s : List χ) :
    readEscaped e none (escape e s) = some (s, []) := by
  have happend : readEscaped e none (escape e s ++ []) =
      (readEscaped e none []).map fun r => (s ++ r.1, r.2) :=
    readEscaped_escape_append (by simp) s []
  have hend : readEscaped e none [] = some ([], []) := by
    rw [readEscaped, readEscapedFrom, if_pos rfl]
  rw [List.append_nil, hend] at happend
  simpa using happend

/-! ## Lists -/

/-- Up to so many things with separators between them, and a closing bracket. -/
def readMany (p : Reader χ α) (sep close : χ) : ℕ → Reader χ (List α)
  | 0, _ => none
  | n + 1, s => do
      let (a, s) ← p s
      match s with
      | [] => none
      | c :: s =>
          if c = sep then (readMany p sep close n s).map fun r => (a :: r.1, r.2)
          else if c = close then some ([a], s)
          else none

variable {p : Reader χ α} {f : α → List χ} {sep close : χ} {n : ℕ}

/-- One thing, and what comes after it. -/
theorem readMany_succ {s : List χ} {a : α} (h : Reads p s a) (c : χ) (rest : List χ) :
    readMany p sep close (n + 1) (s ++ c :: rest) =
      if c = sep then (readMany p sep close n rest).map fun r => (a :: r.1, r.2)
      else if c = close then some ([a], rest)
      else none := by
  rw [readMany, h]
  rfl

/-- **A list is read back**, if it may be as long. -/
theorem readMany_joined (hne : close ≠ sep) {x : α} {xs : List α}
    (h : ∀ y ∈ x :: xs, Reads p (f y) y) (hn : xs.length < n) (rest : List χ) :
    readMany p sep close n (f x ++ ((xs.flatMap fun y => sep :: f y) ++ close :: rest)) =
      some (x :: xs, rest) := by
  induction xs generalizing x n with
  | nil =>
      obtain ⟨n, rfl⟩ := Nat.exists_eq_add_one.mpr hn
      rw [List.flatMap_nil, List.nil_append, readMany_succ (h x List.mem_cons_self), if_neg hne,
        if_pos rfl]
  | cons y ys ih =>
      obtain ⟨n, rfl⟩ := Nat.exists_eq_add_one.mpr (Nat.zero_lt_of_lt hn)
      have hys := ih (x := y) (n := n) (fun z hz => h z (List.mem_cons_of_mem x hz))
        (Nat.lt_of_succ_lt_succ hn)
      rw [List.flatMap_cons, List.cons_append, List.cons_append,
        readMany_succ (h x List.mem_cons_self), if_pos rfl, List.append_assoc, hys]
      rfl

/-- **A list with a part that is none** is not read, whatever comes before it. -/
theorem readMany_eq_none {xs : List α} (h : ∀ x ∈ xs, Reads p (f x) x) {bad : List χ}
    (hbad : p bad = none) :
    readMany p sep close n ((xs.flatMap fun x => f x ++ [sep]) ++ bad) = none := by
  induction n generalizing xs with
  | zero => rfl
  | succ n ih =>
      cases xs with
      | nil =>
          rw [List.flatMap_nil, List.nil_append, readMany, hbad]
          rfl
      | cons x xs =>
          have hrest := ih fun y (hy : y ∈ xs) => h y (List.mem_cons_of_mem x hy)
          rw [List.flatMap_cons, List.append_assoc, List.append_assoc, List.singleton_append,
            readMany_succ (h x List.mem_cons_self), if_pos rfl, hrest]
          rfl

omit [DecidableEq χ] in
/-- What holds of a thing if it holds of all before it holds of all. -/
theorem forall_mem_of_before {P : α → Prop} {xs : List α}
    (h : ∀ before x after, xs = before ++ x :: after → (∀ y ∈ before, P y) → P x) :
    ∀ x ∈ xs, P x := by
  induction xs with
  | nil => simp
  | cons x xs ih =>
      have hx : P x := h [] x xs rfl (by simp)
      refine List.forall_mem_cons.mpr ⟨hx, ih fun before y after heq hbefore => ?_⟩
      exact h (x :: before) y after (by rw [heq]; rfl) (List.forall_mem_cons.mpr ⟨hx, hbefore⟩)

/-! ## Lines -/

/-- Lines, each with its end. -/
def unlines (sep : χ) (ls : List (List χ)) : List χ := ls.flatMap fun l => l ++ [sep]

omit [DecidableEq χ] in
/-- The ends stand between the lines, and after the last one. -/
theorem intercalate_append (sep : χ) {ls : List (List χ)} (h : ls ≠ []) :
    [sep].intercalate ls ++ [sep] = unlines sep ls := by
  obtain ⟨l, ls, rfl⟩ := List.exists_cons_of_ne_nil h
  induction ls generalizing l with
  | nil => simp [unlines, List.intercalate]
  | cons l' ls ih =>
      rw [List.intercalate_cons_cons, List.append_assoc, List.append_assoc,
        ih l' (List.cons_ne_nil l' ls)]
      simp [unlines]

/-- The lines of a text, of which the last has an end too. -/
def lines? (sep : χ) (text : List χ) : Option (List (List χ)) :=
  if (text.splitOn sep).getLast? = some [] then some (text.splitOn sep).dropLast else none

theorem splitOn_unlines (sep : χ) (ls : List (List χ)) :
    (unlines sep ls).splitOn sep = (ls.flatMap fun l => l.splitOn sep) ++ [[]] := by
  induction ls with
  | nil => simp [unlines]
  | cons l ls ih =>
      rw [unlines, List.flatMap_cons, List.append_assoc, List.singleton_append, ← unlines,
        List.splitOn_append_cons_self, ih, List.flatMap_cons, List.append_assoc]

/-- **The lines of lines**, of which each is in pieces if the end of a line is in it. -/
theorem lines?_unlines (sep : χ) (ls : List (List χ)) :
    lines? sep (unlines sep ls) = some (ls.flatMap fun l => l.splitOn sep) := by
  rw [lines?, splitOn_unlines]
  simp

/-- The lines of lines that are whole. -/
theorem lines?_unlines_of_notMem {sep : χ} {ls : List (List χ)} (h : ∀ l ∈ ls, sep ∉ l) :
    lines? sep (unlines sep ls) = some ls := by
  have hwhole : (ls.flatMap fun l => l.splitOn sep) = ls.flatMap fun l => [l] :=
    List.flatMap_congr fun l hl => List.splitOn_eq_singleton (h l hl)
  rw [lines?_unlines, hwhole, List.flatMap_singleton']

/-- What comes before the first end of a line is a piece. -/
theorem mem_splitOn {sep : χ} {piece : List χ} (h : sep ∉ piece) (rest : List χ) :
    piece ∈ (piece ++ sep :: rest).splitOn sep := by
  rw [List.splitOn_append_cons_self_of_not_mem h]
  exact List.mem_cons_self

end Telemetry.Lib
