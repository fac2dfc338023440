import Mathlib.Data.List.Infix
import Mathlib.Data.List.Sort

/-!
# The longest prefix that ends at a separator

A table of names, each of which covers itself and the names that go on with a separator; the empty
name covers everything. The entry for a name is the longest that covers it, and is found by going
through the table from its longest names on.

## Main definitions

* `Covers` — a name covers another.
* `IsLongest` — it is the longest in a table that does.
* `findLongest` — the search.

## Main results

* `findLongest_eq_some_iff` — **the search finds the longest**.
* `isLongest_self` — a name of the table is its own entry.
-/

namespace Telemetry.Lib

variable {γ : Type} (sep : γ)

/-- The key is empty, or the name itself, or the name goes on with a separator. -/
def Covers (key name : List γ) : Prop := key = [] ∨ name = key ∨ key ++ [sep] <+: name

instance [DecidableEq γ] (key name : List γ) : Decidable (Covers sep key name) :=
  inferInstanceAs (Decidable (_ ∨ _ ∨ _))

/-- The key is the longest of the table that covers the name. -/
structure IsLongest (keys : List (List γ)) (name key : List γ) : Prop where
  mem : key ∈ keys
  covers : Covers sep key name
  longest : ∀ k ∈ keys, Covers sep k name → k.length ≤ key.length

/-- The table with its longest keys first, and otherwise in its own order. -/
def longestFirst (keys : List (List γ)) : List (List γ) :=
  keys.mergeSort fun a b => b.length ≤ a.length

/-- The first of the keys that covers the name, from the longest on. -/
def findLongest [DecidableEq γ] (keys : List (List γ)) (name : List γ) : Option (List γ) :=
  (longestFirst keys).find? fun key => Covers sep key name

variable {sep} {keys : List (List γ)} {key key' name : List γ}

theorem Covers.isPrefix (h : Covers sep key name) : key <+: name := by
  obtain rfl | rfl | h := h
  · exact List.nil_prefix
  · exact List.prefix_rfl
  · exact (List.prefix_append key [sep]).trans h

/-- Of two that cover the name and are of one length there is only one. -/
theorem Covers.eq_of_length_eq (h : Covers sep key name) (h' : Covers sep key' name)
    (hlength : key.length = key'.length) : key = key' := by
  rw [List.prefix_iff_eq_take.mp h.isPrefix, List.prefix_iff_eq_take.mp h'.isPrefix, hlength]

theorem covers_self (name : List γ) : Covers sep name name := .inr (.inl rfl)

/-- **A name of the table is its own entry.** -/
theorem isLongest_self (sep : γ) (h : name ∈ keys) : IsLongest sep keys name name :=
  ⟨h, covers_self name, fun _ _ hcovers => hcovers.isPrefix.length_le⟩

theorem mem_longestFirst : key ∈ longestFirst keys ↔ key ∈ keys := List.mem_mergeSort

theorem pairwise_longestFirst (keys : List (List γ)) :
    (longestFirst keys).Pairwise fun a b => b.length ≤ a.length := by
  have htrans : ∀ a b c : List γ, decide (b.length ≤ a.length) = true →
      decide (c.length ≤ b.length) = true → decide (c.length ≤ a.length) = true := by
    intro a b c hab hbc
    rw [decide_eq_true_eq] at hab hbc ⊢
    omega
  have htotal : ∀ a b : List γ,
      (decide (b.length ≤ a.length) || decide (a.length ≤ b.length)) = true := by
    intro a b
    simp only [Bool.or_eq_true, decide_eq_true_eq]
    omega
  exact (List.pairwise_mergeSort htrans htotal keys).imp fun hab => of_decide_eq_true hab

/-- What is found first is in front of whatever else could have been found. -/
theorem rel_of_find? {α : Type} {r : α → α → Prop} {p : α → Bool} {l : List α} {a b : α}
    (hr : ∀ a, r a a) (hl : l.Pairwise r) (h : l.find? p = some a) (hb : b ∈ l)
    (hpb : p b = true) : r a b := by
  obtain ⟨-, before, after, rfl, hbefore⟩ := List.find?_eq_some_iff_append.mp h
  obtain hb | hb := List.mem_append.mp hb
  · have hnot := hbefore b hb
    rw [hpb] at hnot
    cases hnot
  · obtain rfl | hb := List.mem_cons.mp hb
    · exact hr b
    · exact (List.pairwise_cons.mp (List.pairwise_append.mp hl).2.1).1 b hb

variable [DecidableEq γ]

/-- **The search finds the longest.** -/
theorem findLongest_eq_some_iff :
    findLongest sep keys name = some key ↔ IsLongest sep keys name key := by
  have hfound : ∀ key, findLongest sep keys name = some key → IsLongest sep keys name key := by
    intro key h
    rw [findLongest] at h
    have hcovers := List.find?_some h
    refine ⟨mem_longestFirst.mp (List.mem_of_find?_eq_some h), of_decide_eq_true hcovers, ?_⟩
    intro k hk hcovers
    exact rel_of_find? (r := fun a b : List γ => b.length ≤ a.length) (fun _ => le_rfl)
      (pairwise_longestFirst keys) h (mem_longestFirst.mpr hk) (decide_eq_true hcovers)
  constructor
  · exact hfound key
  · intro h
    have hsome : (findLongest sep keys name).isSome = true := by
      rw [findLongest, List.find?_isSome]
      exact ⟨key, mem_longestFirst.mpr h.mem, decide_eq_true h.covers⟩
    obtain ⟨k, hk⟩ := Option.isSome_iff_exists.mp hsome
    have hlongest := hfound k hk
    have hlength : k.length = key.length :=
      le_antisymm (h.longest k hlongest.mem hlongest.covers)
        (hlongest.longest key h.mem h.covers)
    rw [hk, hlongest.covers.eq_of_length_eq h.covers hlength]

theorem findLongest_eq_none_iff :
    findLongest sep keys name = none ↔ ∀ k ∈ keys, ¬ Covers sep k name := by
  rw [findLongest, List.find?_eq_none]
  simp [mem_longestFirst]

end Telemetry.Lib
