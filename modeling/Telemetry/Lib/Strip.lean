import Mathlib.Data.List.DropRight

/-!
# Texts without what stands at their edges

`strip p s` takes from both ends of a text the characters that satisfy `p`. What is left is bare:
its first and its last character do not satisfy `p`, and that determines it.

## Main definitions

* `strip` — a text without its edges.
* `edges` — what is taken away.

## Main results

* `strip_strip` — stripping by more leaves what stripping by less and then by more leaves.
* `filter_strip_eq_iff` — when a filter does not see the edges.
-/

namespace Telemetry.Lib

variable {γ δ : Type} (p q : γ → Bool)

/-- The text without the characters at its ends that satisfy `p`. -/
def strip (s : List γ) : List γ := (s.dropWhile p).rdropWhile p

/-- The characters that are taken away. -/
def edges (s : List γ) : List γ := s.takeWhile p ++ (s.dropWhile p).rtakeWhile p

/-- The first and the last character do not satisfy `p`. -/
structure Bare (s : List γ) : Prop where
  head : ∀ c ∈ s.head?, p c = false
  getLast : ∀ c ∈ s.getLast?, p c = false

variable {p q} {s t u v : List γ}

instance : Decidable (Bare p s) :=
  decidable_of_iff ((∀ c ∈ s.head?, p c = false) ∧ ∀ c ∈ s.getLast?, p c = false)
    ⟨fun h => ⟨h.1, h.2⟩, fun h => ⟨h.head, h.getLast⟩⟩

theorem takeWhile_append_strip (s : List γ) :
    s.takeWhile p ++ (strip p s ++ (s.dropWhile p).rtakeWhile p) = s := by
  rw [strip, List.rdropWhile_append_rtakeWhile, List.takeWhile_append_dropWhile]

theorem mem_edges {c : γ} (h : c ∈ edges p s) : p c = true := by
  rw [edges, List.mem_append] at h
  obtain h | h := h
  · exact List.mem_takeWhile_imp h
  · exact List.mem_rtakeWhile_imp h

theorem bare_strip (s : List γ) : Bare p (strip p s) where
  head := by
    intro c hc
    have hprefix : strip p s <+: s.dropWhile p := List.rdropWhile_prefix p _
    obtain ⟨v, hv⟩ := hprefix
    have hhead : c ∈ (s.dropWhile p).head? := by
      rw [← hv]
      exact List.mem_head?_append_of_mem_head? hc
    have hne : s.dropWhile p ≠ [] := List.ne_nil_of_mem (List.mem_of_mem_head? hhead)
    have hnot := List.head_dropWhile_not p hne
    rw [List.head?_eq_some_head hne, Option.mem_some] at hhead
    rw [← hhead]
    simpa using hnot
  getLast := by
    intro c hc
    have hne : strip p s ≠ [] := List.ne_nil_of_mem (List.mem_of_getLast? hc)
    have hnot := List.rdropWhile_last_not p (s.dropWhile p) hne
    rw [List.getLast?_eq_some_getLast hne, Option.mem_some] at hc
    rw [← hc]
    simpa [strip] using hnot

/-- **What is bare between characters that satisfy `p` is what is left.** -/
theorem strip_eq_of_bare (hu : ∀ c ∈ u, p c = true) (ht : Bare p t) (hv : ∀ c ∈ v, p c = true) :
    strip p (u ++ (t ++ v)) = t := by
  rw [strip, List.dropWhile_append_of_pos hu]
  cases t with
  | nil => simp [List.dropWhile_eq_nil_iff.mpr hv, List.rdropWhile_nil]
  | cons c t =>
      have hc : p c = false := ht.head c rfl
      have hlast := List.rdropWhile_eq_self_iff (p := p) (l := c :: t)
      rw [List.cons_append, List.dropWhile_cons_of_neg (by simp [hc]), ← List.cons_append]
      rw [List.rdropWhile, List.reverse_append,
        List.dropWhile_append_of_pos (by simpa using hv), ← List.rdropWhile, hlast]
      intro hne
      have hmem : (c :: t).getLast hne ∈ (c :: t).getLast? := by
        rw [List.getLast?_eq_some_getLast hne]
        exact rfl
      simpa using ht.getLast _ hmem

theorem strip_of_bare (ht : Bare p t) : strip p t = t := by
  have h := strip_eq_of_bare (u := []) (v := []) (by simp) ht (by simp)
  simpa using h

theorem strip_eq_nil_iff : strip p s = [] ↔ ∀ c ∈ s, p c = true := by
  constructor
  · intro h c hc
    have hs := takeWhile_append_strip (p := p) s
    rw [h, List.nil_append] at hs
    exact mem_edges (by rw [edges, hs]; exact hc)
  · intro h
    have hbare := strip_eq_of_bare (u := s) (t := []) (v := []) h ⟨by simp, by simp⟩ (by simp)
    simpa using hbare

/-- **Stripping by more** leaves what stripping by less and then by more leaves. -/
theorem strip_strip (hpq : ∀ c, p c = true → q c = true) (s : List γ) :
    strip q (strip p s) = strip q s := by
  have hu : ∀ c ∈ s.takeWhile p ++ (strip p s).takeWhile q, q c = true := by
    intro c hc
    obtain hc | hc := List.mem_append.mp hc
    · exact hpq c (List.mem_takeWhile_imp hc)
    · exact List.mem_takeWhile_imp hc
  have hv : ∀ c ∈ ((strip p s).dropWhile q).rtakeWhile q ++ (s.dropWhile p).rtakeWhile p,
      q c = true := by
    intro c hc
    obtain hc | hc := List.mem_append.mp hc
    · exact List.mem_rtakeWhile_imp hc
    · exact hpq c (List.mem_rtakeWhile_imp hc)
  have h := strip_eq_of_bare hu (bare_strip (strip p s)) hv
  rw [← h]
  congr 1
  conv_rhs =>
    rw [← takeWhile_append_strip (p := p) s, ← takeWhile_append_strip (p := q) (strip p s)]
  simp only [List.append_assoc]

/-- **A filter does not see the edges** exactly if it takes them away. -/
theorem filter_strip_eq_iff (g : γ → Bool) :
    s.filter g = (strip p s).filter g ↔ ∀ c ∈ edges p s, g c = false := by
  have hs : s.filter g = (s.takeWhile p).filter g ++
      ((strip p s).filter g ++ ((s.dropWhile p).rtakeWhile p).filter g) := by
    conv_lhs => rw [← takeWhile_append_strip (p := p) s]
    rw [List.filter_append, List.filter_append]
  have hnone : ∀ l : List γ, l.filter g = [] ↔ ∀ c ∈ l, g c = false := by
    intro l
    simp
  rw [edges, List.forall_mem_append, ← hnone, ← hnone]
  constructor
  · intro h
    have hlength := congrArg List.length (hs.symm.trans h)
    simp only [List.length_append] at hlength
    constructor <;> apply List.eq_nil_of_length_eq_zero <;> omega
  · intro ⟨hfirst, hlast⟩
    rw [hs, hfirst, hlast, List.nil_append, List.append_nil]

theorem mem_of_mem_strip {c : γ} (h : c ∈ strip p s) : c ∈ s := by
  rw [← takeWhile_append_strip (p := p) s]
  simp [h]

/-- What is stripped depends on the characters of the text only. -/
theorem strip_congr (h : ∀ c ∈ s, p c = q c) : strip p s = strip q s := by
  have hs := takeWhile_append_strip (p := p) s
  have hu : ∀ c ∈ s.takeWhile p, q c = true := by
    intro c hc
    rw [← h c ((List.takeWhile_sublist p).subset hc)]
    exact List.mem_takeWhile_imp hc
  have hv : ∀ c ∈ (s.dropWhile p).rtakeWhile p, q c = true := by
    intro c hc
    have hmem : c ∈ s := by
      rw [← hs]
      simp [hc]
    rw [← h c hmem]
    exact List.mem_rtakeWhile_imp hc
  have hbare : Bare q (strip p s) := by
    constructor
    · intro c hc
      rw [← h c (mem_of_mem_strip (List.mem_of_mem_head? hc))]
      exact (bare_strip s).head c hc
    · intro c hc
      rw [← h c (mem_of_mem_strip (List.mem_of_getLast? hc))]
      exact (bare_strip s).getLast c hc
  have hstrip := strip_eq_of_bare hu hbare hv
  rw [hs] at hstrip
  exact hstrip.symm

theorem strip_map (f : δ → γ) (s : List δ) : strip p (s.map f) = (strip (p ∘ f) s).map f := by
  rw [strip, strip, List.dropWhile_map, List.rdropWhile, List.rdropWhile, ← List.map_reverse,
    List.dropWhile_map, List.map_reverse]

end Telemetry.Lib
