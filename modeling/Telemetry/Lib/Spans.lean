import Mathlib.Data.List.Sort
import Mathlib.Data.List.TakeDrop
import Mathlib.Data.Nat.Notation
import Mathlib.Tactic.Common

/-!
# Half-open spans of a list and the text left when they are blotted out

A span is a pair of positions, end excluded. Sorting spans by their start and
coalescing the ones that meet covers the same positions with spans that stand
apart, and splicing a sentinel over those, forward with a cursor or back to front
by index, leaves the text in which every maximal covered stretch is one sentinel.
Widening a span over the runs of ordinary characters beside it covers exactly the
positions those runs and the span hold.
-/
namespace Telemetry.Spans

abbrev Span := ℕ × ℕ

/-- Position `i` lies in the span. -/
def Span.covers (m : Span) (i : ℕ) : Bool := decide (m.1 ≤ i) && decide (i < m.2)

def covered (spans : List Span) (i : ℕ) : Bool := spans.any fun m => m.covers i

def Span.shift (k : ℕ) (m : Span) : Span := (m.1 + k, m.2 + k)

@[simp] theorem covers_iff {m : Span} {i : ℕ} : m.covers i = true ↔ m.1 ≤ i ∧ i < m.2 := by
  simp [Span.covers]

theorem covered_iff {spans : List Span} {i : ℕ} :
    covered spans i = true ↔ ∃ m ∈ spans, m.1 ≤ i ∧ i < m.2 := by
  simp [covered]

@[simp] theorem covered_nil (i : ℕ) : covered [] i = false := rfl

theorem covered_cons (m : Span) (ms : List Span) (i : ℕ) :
    covered (m :: ms) i = (m.covers i || covered ms i) := rfl

theorem covered_perm {ms ms' : List Span} (h : ms.Perm ms') (i : ℕ) :
    covered ms i = covered ms' i := by
  rw [Bool.eq_iff_iff, covered_iff, covered_iff]
  simp [h.mem_iff]

/-! ### Coalescing -/

/-- Extend the span in hand by each span that starts inside it or at its end. -/
def coalesceFrom (m : Span) : List Span → List Span
  | [] => [m]
  | m' :: ms =>
    if m'.1 ≤ m.2 then coalesceFrom (m.1, max m.2 m'.2) ms else m :: coalesceFrom m' ms

attribute [local simp] coalesceFrom

def coalesce : List Span → List Span
  | [] => []
  | m :: ms => coalesceFrom m ms

theorem coalesceFrom_ne_nil (m : Span) (ms : List Span) : coalesceFrom m ms ≠ [] := by
  induction ms generalizing m with
  | nil => simp
  | cons m' ms ih =>
      by_cases h : m'.1 ≤ m.2
      · simpa [h] using ih _
      · simp [h]

@[simp] theorem coalesce_eq_nil {ms : List Span} : coalesce ms = [] ↔ ms = [] := by
  cases ms with
  | nil => simp [coalesce]
  | cons m ms => simp [coalesce, coalesceFrom_ne_nil]

/-- Spans taken in the order of their starts. -/
def Ordered (ms : List Span) : Prop := ms.Pairwise fun a b => a.1 ≤ b.1

theorem covered_coalesceFrom (m : Span) (ms : List Span) (h : Ordered (m :: ms)) (i : ℕ) :
    covered (coalesceFrom m ms) i = covered (m :: ms) i := by
  induction ms generalizing m with
  | nil => rfl
  | cons m' ms ih =>
      simp only [Ordered, List.pairwise_cons] at h
      rcases h with ⟨hm, hm', hms⟩
      by_cases hmeet : m'.1 ≤ m.2
      · have hle : m.1 ≤ m'.1 := hm m' List.mem_cons_self
        have hcur : Ordered ((m.1, max m.2 m'.2) :: ms) := by
          simp only [Ordered, List.pairwise_cons]
          constructor
          · intro b hb
            exact hm b (List.mem_cons_of_mem _ hb)
          · exact hms
        have hboth : Span.covers (m.1, max m.2 m'.2) i = (m.covers i || m'.covers i) := by
          rw [Bool.eq_iff_iff]
          simp only [covers_iff, Bool.or_eq_true]
          omega
        simp only [coalesceFrom, hmeet, if_true, ih _ hcur, covered_cons, hboth, Bool.or_assoc]
      · have htail : Ordered (m' :: ms) := by
          simp only [Ordered, List.pairwise_cons]
          exact ⟨hm', hms⟩
        simp [hmeet, covered_cons, ih _ htail]

theorem covered_coalesce {ms : List Span} (h : Ordered ms) (i : ℕ) :
    covered (coalesce ms) i = covered ms i := by
  cases ms with
  | nil => rfl
  | cons m ms => exact covered_coalesceFrom m ms h i

/-- Nonempty spans inside a text of `n` positions, each starting after a gap of at
least one position. -/
def Apart (n : ℕ) : ℕ → List Span → Prop
  | _, [] => True
  | low, m :: ms => low ≤ m.1 ∧ m.1 < m.2 ∧ m.2 ≤ n ∧ Apart n (m.2 + 1) ms

theorem Apart.mono {n low low' : ℕ} {ms : List Span} (h : Apart n low ms) (hle : low' ≤ low) :
    Apart n low' ms := by
  cases ms with
  | nil => trivial
  | cons m ms => exact ⟨hle.trans h.1, h.2⟩

theorem Apart.not_covered {n low i : ℕ} {ms : List Span} (h : Apart n low ms) (hi : i < low) :
    covered ms i = false := by
  induction ms generalizing low with
  | nil => rfl
  | cons m ms ih =>
      rcases h with ⟨hlow, hlt, hn, hms⟩
      have hm : m.covers i = false := by
        rw [Bool.eq_false_iff, ne_eq, covers_iff]
        omega
      rw [covered_cons, hm, ih hms (by omega), Bool.or_false]

theorem apart_coalesceFrom {n low : ℕ} (m : Span) (ms : List Span) (hlow : low ≤ m.1)
    (hbound : ∀ x ∈ m :: ms, x.1 < x.2 ∧ x.2 ≤ n) : Apart n low (coalesceFrom m ms) := by
  induction ms generalizing m low with
  | nil => exact ⟨hlow, (hbound m (by simp)).1, (hbound m (by simp)).2, trivial⟩
  | cons m' ms ih =>
      have hm := hbound m (by simp)
      have hm' := hbound m' (by simp)
      by_cases hmeet : m'.1 ≤ m.2
      · simp only [coalesceFrom, hmeet, if_true]
        apply ih (m.1, max m.2 m'.2) hlow
        intro x hx
        rcases List.mem_cons.mp hx with rfl | hx
        · constructor
          · simp only; omega
          · simp only; omega
        · exact hbound x (by simp [hx])
      · simp only [coalesceFrom, hmeet, if_false]
        refine ⟨hlow, hm.1, hm.2, ?_⟩
        apply ih _ (by omega)
        intro x hx
        exact hbound x (List.mem_cons_of_mem _ hx)

theorem apart_coalesce {n : ℕ} {ms : List Span} (h : ∀ m ∈ ms, m.1 < m.2 ∧ m.2 ≤ n) :
    Apart n 0 (coalesce ms) := by
  cases ms with
  | nil => trivial
  | cons m ms => exact apart_coalesceFrom m ms (Nat.zero_le _) h

/-! ### Sorting and coalescing -/

section

variable (r : Span → Span → Prop) [DecidableRel r]

/-- Sort the spans and coalesce those that meet. -/
def mergeBy (ms : List Span) : List Span := coalesce (ms.insertionSort r)

variable {r}

@[simp] theorem mergeBy_eq_nil {ms : List Span} : mergeBy r ms = [] ↔ ms = [] := by
  rw [mergeBy, coalesce_eq_nil, ← List.length_eq_zero_iff, List.length_insertionSort,
    List.length_eq_zero_iff]

theorem apart_mergeBy {n : ℕ} {ms : List Span} (h : ∀ m ∈ ms, m.1 < m.2 ∧ m.2 ≤ n) :
    Apart n 0 (mergeBy r ms) := by
  apply apart_coalesce
  intro m hm
  exact h m ((List.mem_insertionSort r).mp hm)

/-- An order that sorts by start, whatever it does with spans that start together. -/
theorem covered_mergeBy [Std.Total r] [IsTrans Span r] (hr : ∀ a b, r a b → a.1 ≤ b.1)
    (ms : List Span) (i : ℕ) : covered (mergeBy r ms) i = covered ms i := by
  have hord : Ordered (ms.insertionSort r) :=
    (List.pairwise_insertionSort r ms).imp fun {a b} => hr a b
  rw [mergeBy, covered_coalesce hord, covered_perm (List.perm_insertionSort r ms)]

end

/-- The order of pairs. -/
def pairLe (a b : Span) : Prop := a.1 < b.1 ∨ a.1 = b.1 ∧ a.2 ≤ b.2

instance : DecidableRel pairLe := fun a b =>
  inferInstanceAs (Decidable (a.1 < b.1 ∨ a.1 = b.1 ∧ a.2 ≤ b.2))

instance : Std.Total pairLe where
  total a b := by simp only [pairLe]; omega

instance : IsTrans Span pairLe where
  trans a b c hab hbc := by simp only [pairLe] at *; omega

theorem start_le_of_pairLe (a b : Span) (h : pairLe a b) : a.1 ≤ b.1 := by
  simp only [pairLe] at h
  omega

/-- The order of starts alone. -/
def startLe (a b : Span) : Prop := a.1 ≤ b.1

instance : DecidableRel startLe := fun a b => inferInstanceAs (Decidable (a.1 ≤ b.1))

instance : Std.Total startLe where
  total a b := Nat.le_total a.1 b.1

instance : IsTrans Span startLe where
  trans _ _ _ hab hbc := Nat.le_trans hab hbc

/-! ### Blotting -/

variable {γ : Type*} (sentinel : List γ)

/-- The text from position `i` on, each maximal stretch of covered positions replaced
by one sentinel; `before` says whether position `i - 1` was covered. -/
def blotFrom (cover : ℕ → Bool) : Bool → ℕ → List γ → List γ
  | _, _, [] => []
  | before, i, c :: s =>
    if cover i then (if before then [] else sentinel) ++ blotFrom cover true (i + 1) s
    else c :: blotFrom cover false (i + 1) s

attribute [local simp] blotFrom

/-- Every maximal stretch of covered positions becomes one sentinel, and every other
character stays in its place. -/
def blot (cover : ℕ → Bool) (s : List γ) : List γ := blotFrom sentinel cover false 0 s

variable {sentinel}

theorem blotFrom_congr {cover cover' : ℕ → Bool} {before : Bool} {i : ℕ} {s : List γ}
    (h : ∀ k, i ≤ k → k < i + s.length → cover k = cover' k) :
    blotFrom sentinel cover before i s = blotFrom sentinel cover' before i s := by
  induction s generalizing before i with
  | nil => rfl
  | cons c s ih =>
      have hi : cover i = cover' i := h i le_rfl (by simp)
      have hs : ∀ before, blotFrom sentinel cover before (i + 1) s =
          blotFrom sentinel cover' before (i + 1) s := by
        intro before
        apply ih
        intro k hk hlt
        apply h k (by omega)
        simp only [List.length_cons]
        omega
      simp only [blotFrom, hi, hs]

/-- Moving the text along moves the positions with it. -/
theorem blotFrom_add (cover : ℕ → Bool) (before : Bool) (i k : ℕ) (s : List γ) :
    blotFrom sentinel cover before (i + k) s =
      blotFrom sentinel (fun j => cover (j + k)) before i s := by
  induction s generalizing before i with
  | nil => rfl
  | cons c s ih => simp only [blotFrom, Nat.add_right_comm i k 1, ih]

/-- An uncovered character splits the blotting of the text around it. -/
theorem blotFrom_append_cons {cover : ℕ → Bool} {before : Bool} {i : ℕ} (u : List γ) (c : γ)
    (v : List γ) (h : cover (i + u.length) = false) :
    blotFrom sentinel cover before i (u ++ c :: v) =
      blotFrom sentinel cover before i u ++
        c :: blotFrom sentinel cover false (i + u.length + 1) v := by
  induction u generalizing before i with
  | nil =>
      have hi : cover i = false := h
      simp [hi]
  | cons d u ih =>
      have hstep : i + 1 + u.length = i + (d :: u).length := by
        simp only [List.length_cons]
        omega
      have hu : ∀ before, blotFrom sentinel cover before (i + 1) (u ++ c :: v) =
          blotFrom sentinel cover before (i + 1) u ++
            c :: blotFrom sentinel cover false (i + (d :: u).length + 1) v := by
        intro before
        rw [ih (by rw [hstep]; exact h), hstep]
      cases hi : cover i <;> simp [hi, hu]

theorem blotFrom_uncovered {cover : ℕ → Bool} {i : ℕ} (u v : List γ)
    (h : ∀ k, i ≤ k → k < i + u.length → cover k = false) :
    blotFrom sentinel cover false i (u ++ v) =
      u ++ blotFrom sentinel cover false (i + u.length) v := by
  induction u generalizing i with
  | nil => rfl
  | cons c u ih =>
      have hu : ∀ k, i + 1 ≤ k → k < i + 1 + u.length → cover k = false := by
        intro k hk hlt
        apply h k (by omega)
        simp only [List.length_cons]
        omega
      have hi : cover i = false := h i le_rfl (by simp)
      simp [hi, ih hu, Nat.add_assoc, Nat.add_comm 1]

/-- A run of covered positions that follows a covered one leaves nothing. -/
theorem blotFrom_covered_true {cover : ℕ → Bool} {i : ℕ} (u v : List γ)
    (h : ∀ k, i ≤ k → k < i + u.length → cover k = true) :
    blotFrom sentinel cover true i (u ++ v) =
      blotFrom sentinel cover true (i + u.length) v := by
  induction u generalizing i with
  | nil => rfl
  | cons c u ih =>
      have hu : ∀ k, i + 1 ≤ k → k < i + 1 + u.length → cover k = true := by
        intro k hk hlt
        apply h k (by omega)
        simp only [List.length_cons]
        omega
      have hi : cover i = true := h i le_rfl (by simp)
      simp [hi, ih hu, Nat.add_assoc, Nat.add_comm 1]

/-- A run of covered positions that follows an uncovered one leaves one sentinel. -/
theorem blotFrom_covered {cover : ℕ → Bool} {i : ℕ} {u : List γ} (v : List γ) (hne : u ≠ [])
    (h : ∀ k, i ≤ k → k < i + u.length → cover k = true) :
    blotFrom sentinel cover false i (u ++ v) =
      sentinel ++ blotFrom sentinel cover true (i + u.length) v := by
  cases u with
  | nil => exact absurd rfl hne
  | cons c u =>
      have hu : ∀ k, i + 1 ≤ k → k < i + 1 + u.length → cover k = true := by
        intro k hk hlt
        apply h k (by omega)
        simp only [List.length_cons]
        omega
      have hi : cover i = true := h i le_rfl (by simp)
      simp [hi, blotFrom_covered_true u v hu, Nat.add_assoc, Nat.add_comm 1]

/-- After a covered position, an uncovered one starts afresh. -/
theorem blotFrom_true_of_uncovered {cover : ℕ → Bool} {i : ℕ} (s : List γ)
    (h : cover i = false) :
    blotFrom sentinel cover true i s = blotFrom sentinel cover false i s := by
  cases s with
  | nil => rfl
  | cons c s => simp [h]

/-! ### Splicing the sentinel over spans -/

variable (sentinel)

/-- Forward, with a cursor at `pos`: the text up to each span, the sentinel, and on
from the end of the span. -/
def splice (pos : ℕ) : List Span → List γ → List γ
  | [], s => s
  | m :: ms, s => s.take (m.1 - pos) ++ sentinel ++ splice m.2 ms (s.drop (m.2 - pos))

/-- Back to front, by index into the whole text. -/
def replaceBack (s : List γ) (spans : List Span) : List γ :=
  spans.foldr (fun m redacted => redacted.take m.1 ++ sentinel ++ redacted.drop m.2) s

variable {sentinel}

/-- Replacing back to front leaves the text before the first span alone, and from there
on does what splicing forward does. -/
theorem replaceBack_eq_splice {s : List γ} {pos : ℕ} {ms : List Span}
    (h : Apart s.length pos ms) (hpos : pos ≤ s.length) :
    replaceBack sentinel s ms = s.take pos ++ splice sentinel pos ms (s.drop pos) := by
  induction ms generalizing pos with
  | nil => simp [replaceBack, splice]
  | cons m ms ih =>
      rcases h with ⟨hlow, hlt, hn, hms⟩
      have hback : replaceBack sentinel s (m :: ms) =
          (replaceBack sentinel s ms).take m.1 ++ sentinel ++
            (replaceBack sentinel s ms).drop m.2 := rfl
      have htail := ih (hms.mono (Nat.le_succ _)) hn
      have hlen : (s.take m.2).length = m.2 := by simp [hn]
      have htake : (replaceBack sentinel s ms).take m.1 = s.take m.1 := by
        rw [htail, List.take_append_of_le_length (by omega), List.take_take]
        congr 1
        omega
      have hdrop : (replaceBack sentinel s ms).drop m.2 =
          splice sentinel m.2 ms (s.drop m.2) := by
        rw [htail, List.drop_append_of_le_length (by omega)]
        simp
      have hprefix : s.take m.1 = s.take pos ++ (s.drop pos).take (m.1 - pos) := by
        rw [← List.take_add]
        congr 1
        omega
      have hsuffix : (s.drop pos).drop (m.2 - pos) = s.drop m.2 := by
        rw [List.drop_drop]
        congr 1
        omega
      simp only [hback, htake, hdrop, hprefix, splice, hsuffix, List.append_assoc]

/-- Splicing over spans that stand apart blots out what they cover. -/
theorem splice_eq_blotFrom {n pos : ℕ} {ms : List Span} {s : List γ} (h : Apart n pos ms)
    (hlen : pos + s.length = n) :
    splice sentinel pos ms s = blotFrom sentinel (covered ms) false pos s := by
  induction ms generalizing pos s with
  | nil =>
      have hnone : blotFrom sentinel (covered []) false pos (s ++ []) = s ++ [] :=
        blotFrom_uncovered s [] fun k _ _ => covered_nil k
      simpa [splice] using hnone.symm
  | cons m ms ih =>
      rcases h with ⟨hlow, hlt, hn, hms⟩
      have hafter : ∀ k, m.2 ≤ k → covered (m :: ms) k = covered ms k := by
        intro k hk
        have : m.covers k = false := by
          rw [Bool.eq_false_iff, ne_eq, covers_iff]
          omega
        rw [covered_cons, this, Bool.false_or]
      have hgap : covered (m :: ms) m.2 = false := by
        rw [hafter m.2 le_rfl, hms.not_covered (Nat.lt_succ_self _)]
      -- the text before the span, the span, and the text after it
      have hsplit : s = s.take (m.1 - pos) ++
          ((s.drop (m.1 - pos)).take (m.2 - m.1) ++ s.drop (m.2 - pos)) := by
        have hrest : s.drop (m.2 - pos) = (s.drop (m.1 - pos)).drop (m.2 - m.1) := by
          rw [List.drop_drop]
          congr 1
          omega
        rw [hrest, List.take_append_drop, List.take_append_drop]
      have hbeforeLen : (s.take (m.1 - pos)).length = m.1 - pos := by
        rw [List.length_take]
        omega
      have hspanLen : ((s.drop (m.1 - pos)).take (m.2 - m.1)).length = m.2 - m.1 := by
        rw [List.length_take, List.length_drop]
        omega
      have hspanNe : (s.drop (m.1 - pos)).take (m.2 - m.1) ≠ [] := by
        intro hnil
        rw [hnil, List.length_nil] at hspanLen
        omega
      have hbefore : ∀ k, pos ≤ k → k < pos + (s.take (m.1 - pos)).length →
          covered (m :: ms) k = false := by
        intro k hk hkLt
        have hall : Apart n m.1 (m :: ms) := ⟨le_rfl, hlt, hn, hms⟩
        exact hall.not_covered (by omega)
      have hspan : ∀ k, m.1 ≤ k →
          k < m.1 + ((s.drop (m.1 - pos)).take (m.2 - m.1)).length →
          covered (m :: ms) k = true := by
        intro k hk hkLt
        have : m.covers k = true := covers_iff.mpr ⟨hk, by omega⟩
        rw [covered_cons, this, Bool.true_or]
      have htail : splice sentinel m.2 ms (s.drop (m.2 - pos)) =
          blotFrom sentinel (covered (m :: ms)) false m.2 (s.drop (m.2 - pos)) := by
        rw [ih (hms.mono (Nat.le_succ _)) (by rw [List.length_drop]; omega)]
        apply blotFrom_congr
        intro k hk _
        exact (hafter k hk).symm
      have hmid : pos + (s.take (m.1 - pos)).length = m.1 := by omega
      have hend : m.1 + ((s.drop (m.1 - pos)).take (m.2 - m.1)).length = m.2 := by omega
      conv_rhs => rw [hsplit]
      rw [blotFrom_uncovered _ _ hbefore, hmid, blotFrom_covered _ hspanNe hspan, hend,
        blotFrom_true_of_uncovered _ hgap, ← htail]
      simp only [splice, List.append_assoc]

theorem splice_eq_blot {s : List γ} {ms : List Span} (h : Apart s.length 0 ms) :
    splice sentinel 0 ms s = blot sentinel (covered ms) s :=
  splice_eq_blotFrom h (by simp)

theorem replaceBack_eq_blot {s : List γ} {ms : List Span} (h : Apart s.length 0 ms) :
    replaceBack sentinel s ms = blot sentinel (covered ms) s := by
  rw [replaceBack_eq_splice h (Nat.zero_le _), List.take_zero, List.drop_zero, List.nil_append,
    splice_eq_blot h]

end Telemetry.Spans
