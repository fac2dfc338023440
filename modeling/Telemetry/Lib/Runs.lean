import Telemetry.Lib.Spans
import Mathlib.Data.List.TakeWhile
import Telemetry.Lib.Delimited

/-!
# Spans widened over the runs beside them, and scans that stop at a space

A scan finds spans of a text; each is widened over the run of ordinary characters it
ends in, and what the widened spans cover is blotted out. For a scan that never looks
across a space the outcome is decided run by run, so that blotting leaves nothing for
the same scan to find.

Of two notions of a space one is finer: it has every space of the other, and more. What a scan finds
is widened over the runs of either, and the runs of the finer notion are shorter. The texts that
are left are the same iff no found span has a further space in its longer run.

## Main definitions

* `Unbroken` — the runs that the scan meets hold none of the further spaces.

## Main results

* `blotScan_eq_iff` — **when both notions leave the same**.
-/

namespace Telemetry.Spans

variable {γ : Type*} (isSpace : γ → Bool)

/-- Widen a span to the left over the ordinary characters that end at its start, and to
the right over those that begin at its end. -/
def widen (s : List γ) (m : Span) : Span :=
  (m.1 - ((s.take m.1).reverse.takeWhile fun c => !isSpace c).length,
    m.2 + ((s.drop m.2).takeWhile fun c => !isSpace c).length)

/-- Positions `i` and `j` lie in one run: every position between them, both included,
holds an ordinary character. -/
def SameRun (s : List γ) (i j : ℕ) : Prop :=
  ∀ k, min i j ≤ k → k ≤ max i j → ∃ c, s[k]? = some c ∧ isSpace c = false

/-- The span overlaps or abuts position `j`. -/
def Meets (m : Span) (j : ℕ) : Prop := m.1 ≤ j + 1 ∧ j ≤ m.2

/-- Position `i` lies in one of the spans, or in a run that one of them overlaps or
abuts. -/
def Touched (s : List γ) (ms : List Span) (i : ℕ) : Prop :=
  ∃ m ∈ ms, m.covers i = true ∨ ∃ j, Meets m j ∧ SameRun isSpace s i j

/-! ### What widening covers -/

theorem lt_length_takeWhile {p : γ → Bool} {l : List γ} {i : ℕ} :
    i < (l.takeWhile p).length ↔ ∀ k ≤ i, ∃ c, l[k]? = some c ∧ p c = true := by
  induction l generalizing i with
  | nil => simpa using ⟨0, Nat.zero_le _⟩
  | cons c l ih =>
      cases hc : p c with
      | false =>
          simp only [List.takeWhile_cons, hc, Bool.false_eq_true, if_false, List.length_nil,
            Nat.not_lt_zero, false_iff]
          intro h
          rcases h 0 (Nat.zero_le _) with ⟨d, hd, hp⟩
          simp only [List.getElem?_cons_zero, Option.some.injEq] at hd
          rw [← hd, hc] at hp
          exact Bool.false_ne_true hp
      | true =>
          simp only [List.takeWhile_cons, hc, if_true, List.length_cons]
          cases i with
          | zero =>
              constructor
              · intro _ k hk
                have : k = 0 := by omega
                exact ⟨c, by simp [this], hc⟩
              · intro _
                omega
          | succ i =>
              rw [Nat.succ_lt_succ_iff, ih]
              constructor
              · intro h k hk
                cases k with
                | zero => exact ⟨c, by simp, hc⟩
                | succ k => simpa using h k (by omega)
              · intro h k hk
                simpa using h (k + 1) (by omega)

/-- How far back the run of ordinary characters before a span goes. -/
theorem lt_leftward {s : List γ} {a i : ℕ} (ha : a ≤ s.length) :
    i < ((s.take a).reverse.takeWhile fun c => !isSpace c).length ↔
      i < a ∧ ∀ k, a - 1 - i ≤ k → k < a → ∃ c, s[k]? = some c ∧ isSpace c = false := by
  have hlen : (s.take a).length = a := by simp [ha]
  have hget : ∀ k, k < a → (s.take a).reverse[k]? = s[a - 1 - k]? := by
    intro k hk
    rw [List.getElem?_reverse (by omega), hlen, List.getElem?_take_of_lt (by omega)]
  rw [lt_length_takeWhile]
  constructor
  · intro h
    have hia : i < a := by
      rcases h i le_rfl with ⟨c, hc, -⟩
      have := (List.getElem?_eq_some_iff.mp hc).1
      rw [List.length_reverse, hlen] at this
      exact this
    constructor
    · exact hia
    · intro k hk hka
      rcases h (a - 1 - k) (by omega) with ⟨c, hc, hs⟩
      rw [hget _ (by omega)] at hc
      have : a - 1 - (a - 1 - k) = k := by omega
      rw [this] at hc
      exact ⟨c, hc, by simpa using hs⟩
  · rintro ⟨hia, h⟩ k hk
    rcases h (a - 1 - k) (by omega) (by omega) with ⟨c, hc, hs⟩
    exact ⟨c, by rw [hget k (by omega)]; exact hc, by simpa using hs⟩

theorem lt_rightward {s : List γ} {b i : ℕ} :
    i < ((s.drop b).takeWhile fun c => !isSpace c).length ↔
      ∀ k, b ≤ k → k ≤ b + i → ∃ c, s[k]? = some c ∧ isSpace c = false := by
  rw [lt_length_takeWhile]
  constructor
  · intro h k hk hki
    rcases h (k - b) (by omega) with ⟨c, hc, hs⟩
    rw [List.getElem?_drop, Nat.add_sub_cancel' hk] at hc
    exact ⟨c, hc, by simpa using hs⟩
  · intro h k hk
    rcases h (b + k) (by omega) (by omega) with ⟨c, hc, hs⟩
    exact ⟨c, by rw [List.getElem?_drop]; exact hc, by simpa using hs⟩

theorem covers_widen {s : List γ} {m : Span} {i : ℕ} (hle : m.1 ≤ m.2) (hlen : m.2 ≤ s.length) :
    (widen isSpace s m).covers i = true ↔
      m.covers i = true ∨ ∃ j, Meets m j ∧ SameRun isSpace s i j := by
  have hleft := @lt_leftward _ isSpace s m.1 (m.1 - 1 - i) (hle.trans hlen)
  have hright := @lt_rightward _ isSpace s m.2 (i - m.2)
  rw [covers_iff, covers_iff]
  simp only [widen]
  constructor
  · rintro ⟨hlo, hhi⟩
    by_cases hi : i < m.1
    · -- left of the span: the run reaches the position before its start
      right
      refine ⟨m.1 - 1, ⟨by omega, by omega⟩, ?_⟩
      intro k hk hki
      exact (hleft.mp (by omega)).2 k (by omega) (by omega)
    · by_cases hi2 : i < m.2
      · exact .inl ⟨by omega, hi2⟩
      · -- right of the span: the run starts at its end
        right
        refine ⟨m.2, ⟨by omega, le_rfl⟩, ?_⟩
        intro k hk hki
        exact hright.mp (by omega) k (by omega) (by omega)
  · rintro (⟨hlo, hhi⟩ | ⟨j, ⟨hj1, hj2⟩, hrun⟩)
    · constructor
      · omega
      · omega
    · by_cases hi : i < m.1
      · have := hleft.mpr ⟨by omega, fun k hk hkm => hrun k (by omega) (by omega)⟩
        constructor
        · omega
        · omega
      · by_cases hi2 : i < m.2
        · constructor
          · omega
          · omega
        · have := hright.mpr fun k hk hki => hrun k (by omega) (by omega)
          constructor
          · omega
          · omega

theorem covered_widen {s : List γ} {ms : List Span} (h : ∀ m ∈ ms, m.1 < m.2 ∧ m.2 ≤ s.length)
    (i : ℕ) : covered (ms.map (widen isSpace s)) i = true ↔ Touched isSpace s ms i := by
  simp only [covered, List.any_map, List.any_eq_true, Function.comp_apply, Touched]
  constructor
  · rintro ⟨m, hm, hi⟩
    exact ⟨m, hm, (covers_widen isSpace (h m hm).1.le (h m hm).2).mp hi⟩
  · rintro ⟨m, hm, hi⟩
    exact ⟨m, hm, (covers_widen isSpace (h m hm).1.le (h m hm).2).mpr hi⟩

theorem widen_bounds {s : List γ} {m : Span} (hlt : m.1 < m.2) (hlen : m.2 ≤ s.length) :
    (widen isSpace s m).1 < (widen isSpace s m).2 ∧ (widen isSpace s m).2 ≤ s.length := by
  have hright : ((s.drop m.2).takeWhile fun c => !isSpace c).length ≤ s.length - m.2 := by
    rw [← List.length_drop]
    exact List.IsPrefix.length_le (List.takeWhile_prefix _)
  simp only [widen]
  constructor
  · omega
  · omega

theorem bounds_map_widen {s : List γ} {ms : List Span}
    (h : ∀ m ∈ ms, m.1 < m.2 ∧ m.2 ≤ s.length) :
    ∀ m ∈ ms.map (widen isSpace s), m.1 < m.2 ∧ m.2 ≤ s.length := by
  intro m hm
  rcases List.mem_map.mp hm with ⟨m', hm', rfl⟩
  exact widen_bounds isSpace (h m' hm').1 (h m' hm').2

section

variable {r : Span → Span → Prop} [DecidableRel r] [Std.Total r] [IsTrans Span r]

/-- Sorting, coalescing and splicing forward over widened spans blots out what they
cover. -/
theorem splice_mergeBy_widen (hr : ∀ a b, r a b → a.1 ≤ b.1) {sentinel s : List γ}
    {ms : List Span} (h : ∀ m ∈ ms, m.1 < m.2 ∧ m.2 ≤ s.length) :
    splice sentinel 0 (mergeBy r (ms.map (widen isSpace s))) s =
      blot sentinel (covered (ms.map (widen isSpace s))) s := by
  rw [splice_eq_blot (apart_mergeBy (bounds_map_widen isSpace h))]
  congr 1
  funext i
  exact covered_mergeBy hr _ i

/-- Replacing back to front over the same spans gives the same text. -/
theorem replaceBack_mergeBy_widen (hr : ∀ a b, r a b → a.1 ≤ b.1) {sentinel s : List γ}
    {ms : List Span} (h : ∀ m ∈ ms, m.1 < m.2 ∧ m.2 ≤ s.length) :
    replaceBack sentinel s (mergeBy r (ms.map (widen isSpace s))) =
      blot sentinel (covered (ms.map (widen isSpace s))) s := by
  rw [replaceBack_eq_blot (apart_mergeBy (bounds_map_widen isSpace h))]
  congr 1
  funext i
  exact covered_mergeBy hr _ i

end

/-! ### Widening stops at a space -/

variable {isSpace}

theorem takeWhile_append_cons {p : γ → Bool} (u : List γ) {c : γ} (v : List γ)
    (hc : p c = false) : (u ++ c :: v).takeWhile p = u.takeWhile p := by
  induction u with
  | nil => simp [hc]
  | cons d u ih => simp only [List.cons_append, List.takeWhile_cons, ih]

theorem widen_left {u v : List γ} {c : γ} {m : Span} (hc : isSpace c = true) (hle : m.1 ≤ m.2)
    (hlen : m.2 ≤ u.length) : widen isSpace (u ++ c :: v) m = widen isSpace u m := by
  have htake : (u ++ c :: v).take m.1 = u.take m.1 :=
    List.take_append_of_le_length (hle.trans hlen)
  have hdrop : (u ++ c :: v).drop m.2 = u.drop m.2 ++ c :: v :=
    List.drop_append_of_le_length hlen
  simp only [widen, htake, hdrop]
  rw [takeWhile_append_cons _ _ (by simp [hc])]

theorem widen_shift {u v : List γ} {c : γ} {m : Span} (hc : isSpace c = true) :
    widen isSpace (u ++ c :: v) (m.shift (u.length + 1)) =
      (widen isSpace v m).shift (u.length + 1) := by
  have htake : (u ++ c :: v).take (m.1 + (u.length + 1)) = (u ++ [c]) ++ v.take m.1 := by
    have hlen : u.length + 1 = (u ++ [c]).length := by simp
    rw [List.append_cons, Nat.add_comm, hlen, List.take_length_add_append]
  have hdrop : (u ++ c :: v).drop (m.2 + (u.length + 1)) = v.drop m.2 := by
    have hlen : u.length + 1 = (u ++ [c]).length := by simp
    rw [List.append_cons, Nat.add_comm, hlen, List.drop_length_add_append]
  have hback : ((u ++ [c]) ++ v.take m.1).reverse =
      (v.take m.1).reverse ++ c :: u.reverse := by simp
  have hleft : ((v.take m.1).reverse.takeWhile fun c => !isSpace c).length ≤ m.1 := by
    refine (List.IsPrefix.length_le (List.takeWhile_prefix _)).trans ?_
    simp
  simp only [widen, Span.shift, htake, hdrop, hback]
  rw [takeWhile_append_cons _ _ (by simp [hc])]
  ext
  · simp only; omega
  · simp only; omega

/-! ### Scans that do not look across a space -/

/-- The spans found in a text are nonempty and inside it, and around a space they are
those found on either side. -/
structure LocalScan (isSpace : γ → Bool) (scan : List γ → List Span) : Prop where
  inside : ∀ s, ∀ m ∈ scan s, m.1 < m.2 ∧ m.2 ≤ s.length
  split : ∀ u c v, isSpace c = true → ∀ m,
    m ∈ scan (u ++ c :: v) ↔ m ∈ scan u ∨ ∃ m' ∈ scan v, m = m'.shift (u.length + 1)

variable (isSpace) (sentinel : List γ)

/-- Blot out the runs that the spans of a scan meet. -/
def blotScan (scan : List γ → List Span) (s : List γ) : List γ :=
  blot sentinel (covered ((scan s).map (widen isSpace s))) s

variable {isSpace} {sentinel} {scan : List γ → List Span}

theorem LocalScan.covered_append_cons (h : LocalScan isSpace scan) {u v : List γ} {c : γ}
    (hc : isSpace c = true) (i : ℕ) :
    covered ((scan (u ++ c :: v)).map (widen isSpace (u ++ c :: v))) i =
      (covered ((scan u).map (widen isSpace u)) i ||
        covered (((scan v).map (widen isSpace v)).map (Span.shift (u.length + 1))) i) := by
  rw [Bool.eq_iff_iff, Bool.or_eq_true]
  simp only [covered, List.any_map, List.any_eq_true, Function.comp_apply]
  constructor
  · rintro ⟨m, hm, hi⟩
    rcases (h.split u c v hc m).mp hm with hu | ⟨m', hm', rfl⟩
    · rw [widen_left hc (h.inside u m hu).1.le (h.inside u m hu).2] at hi
      exact .inl ⟨m, hu, hi⟩
    · rw [widen_shift hc] at hi
      exact .inr ⟨m', hm', hi⟩
  · rintro (⟨m, hm, hi⟩ | ⟨m, hm, hi⟩)
    · refine ⟨m, (h.split u c v hc m).mpr (.inl hm), ?_⟩
      rw [widen_left hc (h.inside u m hm).1.le (h.inside u m hm).2]
      exact hi
    · refine ⟨_, (h.split u c v hc _).mpr (.inr ⟨m, hm, rfl⟩), ?_⟩
      rw [widen_shift hc]
      exact hi

/-- A space stays, and what is blotted on one side of it does not depend on the other. -/
theorem LocalScan.blotScan_append_cons (h : LocalScan isSpace scan) {u v : List γ} {c : γ}
    (hc : isSpace c = true) :
    blotScan isSpace sentinel scan (u ++ c :: v) =
      blotScan isSpace sentinel scan u ++ c :: blotScan isSpace sentinel scan v := by
  have hleft : ∀ i, u.length ≤ i → covered ((scan u).map (widen isSpace u)) i = false := by
    intro i hi
    rw [Bool.eq_false_iff, ne_eq, covered_iff]
    simp only [List.mem_map]
    rintro ⟨-, ⟨m, hm, rfl⟩, -, hlt⟩
    have := (widen_bounds isSpace (h.inside u m hm).1 (h.inside u m hm).2).2
    omega
  have hright : ∀ i, i < u.length + 1 →
      covered (((scan v).map (widen isSpace v)).map (Span.shift (u.length + 1))) i = false := by
    intro i hi
    rw [Bool.eq_false_iff, ne_eq, covered_iff]
    simp only [List.mem_map]
    rintro ⟨-, ⟨m, -, rfl⟩, hlt, -⟩
    simp only [Span.shift] at hlt
    omega
  have hmoved : ∀ i,
      covered (((scan v).map (widen isSpace v)).map (Span.shift (u.length + 1)))
        (i + (u.length + 1)) = covered ((scan v).map (widen isSpace v)) i := by
    intro i
    simp [covered, Span.covers, Span.shift, Function.comp_def]
  have hat : covered ((scan (u ++ c :: v)).map (widen isSpace (u ++ c :: v))) (0 + u.length) =
      false := by
    rw [h.covered_append_cons hc, hleft _ (by omega), hright _ (by omega), Bool.or_false]
  rw [blotScan, blot, blotFrom_append_cons u c v hat]
  congr 1
  · apply blotFrom_congr
    intro k _ hk
    rw [h.covered_append_cons hc, hright k (by omega), Bool.or_false]
  · congr 1
    rw [show 0 + u.length + 1 = 0 + (u.length + 1) by omega, blotFrom_add]
    apply blotFrom_congr
    intro k _ _
    rw [h.covered_append_cons hc, hleft _ (by omega), Bool.false_or, hmoved]

/-- A run is replaced whole as soon as the scan finds anything in it. -/
theorem LocalScan.blotScan_run (h : LocalScan isSpace scan) {s : List γ}
    (hrun : ∀ c ∈ s, isSpace c = false) :
    blotScan isSpace sentinel scan s = if scan s = [] then s else sentinel := by
  by_cases hs : scan s = []
  · have hnone : blotFrom sentinel (covered []) false 0 (s ++ []) = s ++ [] :=
      blotFrom_uncovered s [] fun k _ _ => covered_nil k
    simpa [blotScan, blot, blotFrom, hs] using hnone
  · rcases List.exists_mem_of_ne_nil _ hs with ⟨m, hm⟩
    have hin := h.inside s m hm
    have hall : ∀ k, 0 ≤ k → k < 0 + s.length →
        covered ((scan s).map (widen isSpace s)) k = true := by
      intro k _ hk
      rw [covered_widen isSpace (h.inside s)]
      refine ⟨m, hm, .inr ⟨m.1, ⟨by omega, hin.1.le⟩, ?_⟩⟩
      intro j _ hj
      have hjs : j < s.length := by omega
      exact ⟨s[j], List.getElem?_eq_getElem hjs, hrun _ (List.getElem_mem hjs)⟩
    have hne : s ≠ [] := by
      rintro rfl
      simp only [List.length_nil] at hin
      omega
    have hone : blotFrom sentinel (covered ((scan s).map (widen isSpace s))) false 0 (s ++ []) =
        sentinel ++ [] :=
      blotFrom_covered [] hne hall
    simpa [blotScan, blot, blotFrom, hs] using hone

/-- A text is one run, or a run, a space and a text. -/
theorem run_induction {motive : List γ → Prop} (isSpace : γ → Bool)
    (run : ∀ s, (∀ c ∈ s, isSpace c = false) → motive s)
    (space : ∀ u c v, (∀ d ∈ u, isSpace d = false) → isSpace c = true → motive v →
      motive (u ++ c :: v)) (s : List γ) : motive s := by
  by_cases hs : ∀ c ∈ s, isSpace c = false
  · exact run s hs
  · have hfront : ∀ d ∈ s.takeWhile (fun c => !isSpace c), isSpace d = false := by
      intro d hd
      simpa using List.mem_takeWhile_imp hd
    cases hrest : s.dropWhile fun c => !isSpace c with
    | nil =>
        exact absurd (fun c hc => by simpa using List.dropWhile_eq_nil_iff.mp hrest c hc) hs
    | cons c v =>
        have hc : isSpace c = true := by
          have := List.head_dropWhile_not (fun c => !isSpace c) (by rw [hrest]; simp)
          simpa [hrest] using this
        have hsplit : s.takeWhile (fun c => !isSpace c) ++ c :: v = s := by
          rw [← hrest]
          exact List.takeWhile_append_dropWhile
        have hshorter : v.length < s.length := by
          rw [← hsplit]
          simp only [List.length_append, List.length_cons]
          omega
        rw [← hsplit]
        exact space _ c v hfront hc (run_induction isSpace run space v)
termination_by s.length

/-- Blotting leaves nothing for the same scan to find, when the scan finds nothing in the
sentinel. -/
theorem LocalScan.scan_blotScan (h : LocalScan isSpace scan) (hclean : scan sentinel = [])
    (s : List γ) : scan (blotScan isSpace sentinel scan s) = [] := by
  have hrunCase : ∀ s, (∀ c ∈ s, isSpace c = false) →
      scan (blotScan isSpace sentinel scan s) = [] := by
    intro s hs
    rw [h.blotScan_run hs]
    by_cases hnil : scan s = []
    · simp [hnil]
    · simp [hnil, hclean]
  induction s using run_induction isSpace with
  | run s hs => exact hrunCase s hs
  | space u c v hu hc ih =>
      rw [h.blotScan_append_cons hc, List.eq_nil_iff_forall_not_mem]
      intro m hm
      rcases (h.split _ c _ hc m).mp hm with hleft | ⟨m', hright, -⟩
      · rw [hrunCase u hu] at hleft
        exact List.not_mem_nil hleft
      · rw [ih] at hright
        exact List.not_mem_nil hright

/-! ### Patterns as functions from a text to its matches -/

/-- A pattern: the matches it has in each text, in order and without overlap. -/
structure Matcher (γ : Type*) where
  run : List γ → List Span
  inside : ∀ s, ∀ m ∈ run s, m.1 ≤ m.2 ∧ m.2 ≤ s.length
  ordered : ∀ s, (run s).Pairwise fun a b => a.2 ≤ b.1

def slice (s : List γ) (m : Span) : List γ := (s.drop m.1).take (m.2 - m.1)

/-- The nonempty matches whose text is accepted, pattern by pattern. -/
def accepted (accept : List γ → Bool) (patterns : List (Matcher γ)) (s : List γ) : List Span :=
  patterns.flatMap fun p => (p.run s).filter fun m => decide (m.1 < m.2) && accept (slice s m)

theorem mem_accepted {accept : List γ → Bool} {patterns : List (Matcher γ)} {s : List γ}
    {m : Span} : m ∈ accepted accept patterns s ↔
      ∃ p ∈ patterns, m ∈ p.run s ∧ m.1 < m.2 ∧ accept (slice s m) = true := by
  simp [accepted]

theorem accepted_inside {accept : List γ → Bool} {patterns : List (Matcher γ)} {s : List γ} :
    ∀ m ∈ accepted accept patterns s, m.1 < m.2 ∧ m.2 ≤ s.length := by
  intro m hm
  rcases mem_accepted.mp hm with ⟨p, -, hrun, hlt, -⟩
  exact ⟨hlt, (p.inside s m hrun).2⟩

/-- The pattern never matches across a space. -/
def Matcher.Local (isSpace : γ → Bool) (p : Matcher γ) : Prop :=
  ∀ u c v, isSpace c = true →
    p.run (u ++ c :: v) = p.run u ++ (p.run v).map (Span.shift (u.length + 1))

theorem slice_left {u w : List γ} {m : Span} (hle : m.1 ≤ m.2) (hlen : m.2 ≤ u.length) :
    slice (u ++ w) m = slice u m := by
  rw [slice, slice, List.drop_append_of_le_length (hle.trans hlen),
    List.take_append_of_le_length (by rw [List.length_drop]; omega)]

theorem slice_shift (u : List γ) (c : γ) (v : List γ) (m : Span) :
    slice (u ++ c :: v) (m.shift (u.length + 1)) = slice v m := by
  have hlen : u.length + 1 = (u ++ [c]).length := by simp
  simp only [slice, Span.shift]
  rw [List.append_cons, Nat.add_comm m.1, hlen, List.drop_length_add_append]
  congr 1
  omega

theorem localScan_accepted {accept : List γ → Bool} {patterns : List (Matcher γ)}
    (h : ∀ p ∈ patterns, p.Local isSpace) :
    LocalScan isSpace (accepted accept patterns) where
  inside := fun _ => accepted_inside
  split := by
    intro u c v hc m
    simp only [mem_accepted]
    constructor
    · rintro ⟨p, hp, hrun, hlt, hacc⟩
      rw [h p hp u c v hc, List.mem_append, List.mem_map] at hrun
      rcases hrun with hu | ⟨m', hv, rfl⟩
      · have hin := p.inside u m hu
        rw [slice_left hin.1 hin.2] at hacc
        exact .inl ⟨p, hp, hu, hlt, hacc⟩
      · rw [slice_shift] at hacc
        simp only [Span.shift] at hlt
        exact .inr ⟨m', ⟨p, hp, hv, by omega, hacc⟩, rfl⟩
    · rintro (⟨p, hp, hu, hlt, hacc⟩ | ⟨m', ⟨p, hp, hv, hlt, hacc⟩, rfl⟩)
      · have hin := p.inside u m hu
        refine ⟨p, hp, ?_, hlt, ?_⟩
        · rw [h p hp u c v hc]
          exact List.mem_append_left _ hu
        · rw [slice_left hin.1 hin.2]
          exact hacc
      · refine ⟨p, hp, ?_, ?_, ?_⟩
        · rw [h p hp u c v hc]
          exact List.mem_append_right _ (List.mem_map_of_mem hv)
        · simp only [Span.shift]
          omega
        · rw [slice_shift]
          exact hacc

end Telemetry.Spans

/-! ## Two notions of a space -/

namespace Telemetry.Spans

open Telemetry.Lib

variable {γ : Type} {coarse fine : γ → Bool} {sentinel : List γ} {scan : List γ → List Span}
  {s : List γ}

/-- No space of the finer notion is in a run of the coarser one that a found span is widened to. -/
def Unbroken (coarse fine : γ → Bool) (scan : List γ → List Span) (s : List γ) : Prop :=
  ∀ m ∈ scan s, ∀ c ∈ slice s (widen coarse s m), fine c = false

/-- A scan that does not look across a space of the finer notion does not look across one of the
coarser notion. -/
theorem LocalScan.coarsen (h : LocalScan fine scan) (hfine : ∀ c, coarse c = true → fine c = true) :
    LocalScan coarse scan :=
  ⟨h.inside, fun u c v hc => h.split u c v (hfine c hc)⟩

theorem mem_blotFrom {cover : ℕ → Bool} {before : Bool} {i : ℕ} {c : γ}
    (h : c ∈ blotFrom sentinel cover before i s) : c ∈ sentinel ∨ c ∈ s := by
  induction s generalizing before i with
  | nil => simp [blotFrom] at h
  | cons d s ih =>
      rw [blotFrom] at h
      split at h
      · rw [List.mem_append] at h
        obtain h | h := h
        · split at h
          · cases h
          · exact .inl h
        · exact (ih h).imp_right (List.mem_cons_of_mem d)
      · rw [List.mem_cons] at h
        obtain rfl | h := h
        · exact .inr List.mem_cons_self
        · exact (ih h).imp_right (List.mem_cons_of_mem d)

/-- What is left is of the sentinel or of the text. -/
theorem mem_blotScan {c : γ} (h : c ∈ blotScan fine sentinel scan s) : c ∈ sentinel ∨ c ∈ s :=
  mem_blotFrom h

/-- In a text that is one run, a span is widened to the whole. -/
theorem widen_of_run {m : Span} (hrun : ∀ c ∈ s, coarse c = false) (hle : m.1 ≤ s.length)
    (hlen : m.2 ≤ s.length) : widen coarse s m = (0, s.length) := by
  have hleft : ((s.take m.1).reverse.takeWhile fun c => !coarse c) = (s.take m.1).reverse := by
    rw [List.takeWhile_eq_self_iff]
    intro c hc
    simpa using hrun c (List.mem_of_mem_take (List.mem_reverse.mp hc))
  have hright : ((s.drop m.2).takeWhile fun c => !coarse c) = s.drop m.2 := by
    rw [List.takeWhile_eq_self_iff]
    intro c hc
    simpa using hrun c (List.mem_of_mem_drop hc)
  rw [widen, hleft, hright, List.length_reverse, List.length_take, List.length_drop]
  ext
  · simp only; omega
  · simp only; omega

theorem unbroken_run_iff (h : LocalScan coarse scan) (hrun : ∀ c ∈ s, coarse c = false) :
    Unbroken coarse fine scan s ↔ scan s = [] ∨ ∀ c ∈ s, fine c = false := by
  have hwhole : ∀ m ∈ scan s, slice s (widen coarse s m) = s := by
    intro m hm
    have hin := h.inside s m hm
    rw [widen_of_run hrun (by omega) hin.2]
    simp [slice]
  constructor
  · intro hunbroken
    refine or_iff_not_imp_left.mpr fun hne => ?_
    obtain ⟨m, hm⟩ := List.exists_mem_of_ne_nil _ hne
    rw [← hwhole m hm]
    exact hunbroken m hm
  · rintro (hnil | hfine) m hm
    · rw [hnil] at hm
      cases hm
    · rw [hwhole m hm]
      exact hfine

theorem unbroken_append_cons_iff (h : LocalScan coarse scan) {u v : List γ} {c : γ}
    (hc : coarse c = true) : Unbroken coarse fine scan (u ++ c :: v) ↔
      Unbroken coarse fine scan u ∧ Unbroken coarse fine scan v := by
  have hleft : ∀ m ∈ scan u, slice (u ++ c :: v) (widen coarse (u ++ c :: v) m) =
      slice u (widen coarse u m) := by
    intro m hm
    have hin := h.inside u m hm
    have hbounds := widen_bounds coarse hin.1 hin.2
    rw [widen_left hc hin.1.le hin.2, slice_left hbounds.1.le hbounds.2]
  have hright : ∀ m, slice (u ++ c :: v) (widen coarse (u ++ c :: v) (m.shift (u.length + 1))) =
      slice v (widen coarse v m) := by
    intro m
    rw [widen_shift hc, slice_shift]
  constructor
  · intro hunbroken
    refine ⟨fun m hm => ?_, fun m hm => ?_⟩
    · rw [← hleft m hm]
      exact hunbroken m ((h.split u c v hc m).mpr (.inl hm))
    · rw [← hright m]
      exact hunbroken _ ((h.split u c v hc _).mpr (.inr ⟨m, hm, rfl⟩))
  · rintro ⟨hu, hv⟩ m hm
    obtain hm | ⟨m', hm', rfl⟩ := (h.split u c v hc m).mp hm
    · rw [hleft m hm]
      exact hu m hm
    · rw [hright m']
      exact hv m' hm'

/-- In one run of the coarser notion, both leave the same iff the scan finds nothing, or there is no
space of the finer notion. -/
theorem blotScan_run_eq_iff (h : LocalScan fine scan)
    (hfine : ∀ c, coarse c = true → fine c = true) (hsentinel : ∀ c ∈ sentinel, fine c = false)
    (hrun : ∀ c ∈ s, coarse c = false) :
    blotScan fine sentinel scan s = blotScan coarse sentinel scan s ↔
      Unbroken coarse fine scan s := by
  have hcoarse := h.coarsen hfine
  rw [unbroken_run_iff hcoarse hrun, hcoarse.blotScan_run hrun]
  by_cases hnil : scan s = []
  · have hkept : blotScan fine sentinel scan s = s := by
      have hnone : blotFrom sentinel (covered []) false 0 (s ++ []) = s ++ [] :=
        blotFrom_uncovered s [] fun k _ _ => covered_nil k
      simpa [blotScan, blot, blotFrom, hnil] using hnone
    simp [hnil, hkept]
  · rw [if_neg hnil, or_iff_right hnil]
    constructor
    · intro heq c hc
      -- a space of the text is still there, and the sentinel has none
      by_contra hspace
      rw [Bool.not_eq_false] at hspace
      obtain ⟨u, v, rfl⟩ := List.append_of_mem hc
      rw [h.blotScan_append_cons hspace] at heq
      have hmem : c ∈ sentinel := by
        rw [← heq]
        exact List.mem_append_right _ List.mem_cons_self
      rw [hsentinel c hmem] at hspace
      cases hspace
    · intro hall
      rw [h.blotScan_run hall, if_neg hnil]

/-- **When both notions leave the same.** -/
theorem blotScan_eq_iff (h : LocalScan fine scan) (hfine : ∀ c, coarse c = true → fine c = true)
    (hsentinel : ∀ c ∈ sentinel, fine c = false) (s : List γ) :
    blotScan fine sentinel scan s = blotScan coarse sentinel scan s ↔
      Unbroken coarse fine scan s := by
  have hcoarse := h.coarsen hfine
  have hclean : ∀ c ∈ sentinel, coarse c = false := by
    intro c hc
    rw [Bool.eq_false_iff]
    intro hspace
    exact absurd (hfine c hspace) (by simp [hsentinel c hc])
  induction s using run_induction coarse with
  | run s hs => exact blotScan_run_eq_iff h hfine hsentinel hs
  | space u c v hu hc ih =>
      rw [h.blotScan_append_cons (hfine c hc), hcoarse.blotScan_append_cons hc,
        unbroken_append_cons_iff hcoarse hc]
      refine Iff.trans ?_ (and_congr (blotScan_run_eq_iff h hfine hsentinel hu) ih)
      have hfree : ∀ notion : γ → Bool, ∀ d ∈ blotScan notion sentinel scan u,
          ¬coarse d = true := by
        intro notion d hd
        rw [Bool.not_eq_true]
        exact (mem_blotScan hd).elim (hclean d) (hu d)
      have hsplits : Splits (fun d => coarse d = true) (blotScan fine sentinel scan u)
          (blotScan coarse sentinel scan u)
          (blotScan fine sentinel scan u = blotScan coarse sentinel scan u) :=
        splits_of_free (hfree fine) (hfree coarse)
      constructor
      · intro heq
        obtain ⟨hleft, hright⟩ := hsplits _ _ (ends_cons.mpr hc) (ends_cons.mpr hc) heq
        exact ⟨hleft, (List.cons.inj hright).2⟩
      · rintro ⟨hleft, hright⟩
        rw [hleft, hright]

end Telemetry.Spans
