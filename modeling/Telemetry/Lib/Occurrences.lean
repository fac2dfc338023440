import Telemetry.Lib.SortedMap
import Mathlib.Logic.Function.Basic

/-!
# Lists with repeated keys, in rounds

A list whose keys may repeat is split into rounds: the first entry of each key is in round
zero, the second in round one, and so on. No round has a key twice, so each fits into a map;
and since every entry knows its round, what the maps became can be put back in order.

## Main definitions

* `occurrences` — the round of each entry.
* `round` — the entries of a round, as a map.
* `rebuilt` — the list with every value taken from the map of its round.

## Main results

* `lookup_round` — a round holds the entry of its number under each key.
* `filter_rebuilt` — what the rebuilt list holds under a key, round by round.
-/

namespace Telemetry.Lib

section

variable {κ β : Type} [DecidableEq κ]

/-- How often each key has been seen before, going on from what has been seen. -/
def occurrences (seen : κ → ℕ) : List κ → List ℕ
  | [] => []
  | k :: ks => seen k :: occurrences (Function.update seen k (seen k + 1)) ks

/-- The entries of one key are in the rounds in order. -/
theorem filter_zip_occurrences (seen : κ → ℕ) (entries : List (κ × β)) (k : κ) :
    (entries.zip (occurrences seen (entries.map Prod.fst))).filter (fun e => e.1.1 = k) =
      (entries.filter fun e => e.1 = k).zipIdx (seen k) := by
  induction entries generalizing seen with
  | nil => rfl
  | cons e entries ih =>
      rw [List.map_cons, occurrences, List.zip_cons_cons, List.filter_cons, List.filter_cons, ih]
      by_cases hk : e.1 = k
      · subst hk
        simp [List.zipIdx_cons]
      · simp [hk, Function.update_of_ne (Ne.symm hk)]

end

variable {κ β γ : Type} [LinearOrder κ]

/-- The entries of a round. -/
def roundEntries (entries : List (κ × β)) (rounds : List ℕ) (i : ℕ) : List (κ × β) :=
  ((entries.zip rounds).filter fun e => e.2 = i).map Prod.fst

/-- The entries of a round as a map. -/
def round (entries : List (κ × β)) (rounds : List ℕ) (i : ℕ) : SortedMap κ β :=
  SortedMap.empty.extend (roundEntries entries rounds i)

/-- Each entry with the value that the map of its round holds, in order. -/
def rebuilt (entries : List (κ × β)) (rounds : List ℕ) (maps : ℕ → κ → Option γ) :
    List (κ × γ) :=
  (entries.zip rounds).filterMap fun e => (maps e.2 e.1.1).map fun v => (e.1.1, v)

/-- The entry of a given number in a numbered list. -/
theorem filter_zipIdx {α : Type} (xs : List α) (j i : ℕ) :
    ((xs.zipIdx j).filter fun e => e.2 = j + i).map Prod.fst = xs[i]?.toList := by
  induction xs generalizing j i with
  | nil => simp
  | cons x xs ih =>
      rw [List.zipIdx_cons, List.filter_cons]
      cases i with
      | zero =>
          have hrest : (xs.zipIdx (j + 1)).filter (fun e => e.2 = j + 0) = [] := by
            rw [List.filter_eq_nil_iff]
            intro e he
            have := List.le_snd_of_mem_zipIdx he
            simp
            omega
          simp only [Nat.add_zero] at hrest
          simp [hrest]
      | succ i =>
          have hnext := ih (j + 1) i
          rw [Nat.add_right_comm, Nat.add_assoc] at hnext
          simpa using hnext

section

variable (entries : List (κ × β)) (k : κ) (i : ℕ)

/-- The rounds of a list's entries. -/
abbrev roundsOf : List ℕ := occurrences (fun _ => 0) (entries.map Prod.fst)

theorem length_filter_key :
    (entries.filter fun e => e.1 = k).length = (entries.map Prod.fst).count k := by
  rw [List.count, List.countP_map, List.countP_eq_length_filter]
  congr 1

/-- Under a key a round has the entry of its number. -/
theorem filter_roundEntries :
    (roundEntries entries (roundsOf entries) i).filter (fun e => e.1 = k) =
      ((entries.filter fun e => e.1 = k)[i]?).toList := by
  rw [roundEntries, List.filter_map, List.filter_filter]
  have hcomm : (fun e : (κ × β) × ℕ => ((fun e : κ × β => decide (e.1 = k)) ∘ Prod.fst) e &&
      decide (e.2 = i)) = fun e => decide (e.2 = i) && decide (e.1.1 = k) := by
    funext e
    exact Bool.and_comm _ _
  rw [hcomm, ← List.filter_filter, filter_zip_occurrences]
  simpa using filter_zipIdx (entries.filter fun e => e.1 = k) 0 i

/-- A round has no key twice. -/
theorem nodup_roundEntries :
    ((roundEntries entries (roundsOf entries) i).map Prod.fst).Nodup := by
  rw [List.nodup_iff_count_le_one]
  intro k
  rw [← length_filter_key, filter_roundEntries]
  cases (entries.filter fun e => e.1 = k)[i]? <;> simp

/-- **A round holds the entry of its number** under each key. -/
theorem lookup_round :
    (round entries (roundsOf entries) i).lookup k =
      ((entries.filter fun e => e.1 = k)[i]?).map Prod.snd := by
  rw [round, SortedMap.lookup_extend (nodup_roundEntries entries i), SortedMap.lookup_empty,
    Option.or_none]
  have hfilter : ∀ es : List (κ × β),
      es.lookup k = ((es.filter fun e => e.1 = k).head?).map Prod.snd := by
    intro es
    induction es with
    | nil => rfl
    | cons e es ih =>
        rw [lookup_cons_eq, List.filter_cons]
        by_cases hk : k = e.1
        · simp [hk]
        · simpa [hk, Ne.symm hk] using ih
  rw [hfilter, filter_roundEntries]
  cases (entries.filter fun e => e.1 = k)[i]? <;> rfl

/-- A key is in a round exactly if it occurs often enough. -/
theorem mem_keys_round :
    k ∈ (round entries (roundsOf entries) i).keys ↔ i < (entries.map Prod.fst).count k := by
  rw [SortedMap.mem_keys, lookup_round, Option.isSome_map, ← length_filter_key]
  simp

variable (maps : ℕ → κ → Option γ)

/-- **What the rebuilt list holds under a key**: what the map of each round in which the key is
holds under it. -/
theorem filter_rebuilt :
    ((rebuilt entries (roundsOf entries) maps).filter fun e => e.1 = k).map Prod.snd =
      (List.range ((entries.map Prod.fst).count k)).filterMap fun i => maps i k := by
  have hfilter : (rebuilt entries (roundsOf entries) maps).filter (fun e => e.1 = k) =
      ((entries.zip (roundsOf entries)).filter fun e => e.1.1 = k).filterMap
        fun e => (maps e.2 k).map fun v => (k, v) := by
    rw [rebuilt]
    generalize entries.zip (roundsOf entries) = numbered
    induction numbered with
    | nil => rfl
    | cons e numbered ih =>
        rw [List.filterMap_cons, List.filter_cons]
        by_cases hk : e.1.1 = k
        · subst hk
          cases hm : maps e.2 e.1.1 <;> simp [hm, ih]
        · cases hm : maps e.2 e.1.1 <;> simp [hk, ih]
  rw [hfilter, filter_zip_occurrences, List.map_filterMap, ← length_filter_key]
  generalize entries.filter (fun e => e.1 = k) = own
  have hrange : List.range own.length = (own.zipIdx 0).map Prod.snd := by
    simp [List.zipIdx_map_snd, List.range_eq_range']
  rw [hrange, List.filterMap_map]
  apply List.filterMap_congr
  intro e _
  rw [Function.comp_apply]
  cases maps e.2 k <;> rfl

/-! ## Lengths -/

/-- An entry's round is below the number of times its key occurs. -/
theorem lt_count_of_mem_zip {e : (κ × β) × ℕ} (h : e ∈ entries.zip (roundsOf entries)) :
    e.2 < (entries.map Prod.fst).count e.1.1 := by
  have hmem : e ∈ (entries.filter fun d => d.1 = e.1.1).zipIdx 0 := by
    rw [← filter_zip_occurrences (fun _ => 0) entries e.1.1]
    exact List.mem_filter.mpr ⟨h, by simp⟩
  have hlt := List.snd_lt_of_mem_zipIdx hmem
  rwa [Nat.add_zero, length_filter_key] at hlt

theorem length_roundsOf : (roundsOf entries).length = entries.length := by
  have hlength : ∀ (seen : κ → ℕ) (ks : List κ), (occurrences seen ks).length = ks.length := by
    intro seen ks
    induction ks generalizing seen with
    | nil => rfl
    | cons k ks ih => rw [occurrences, List.length_cons, ih, List.length_cons]
  rw [hlength, List.length_map]

/-- Nothing is added. -/
theorem length_rebuilt_le : (rebuilt entries (roundsOf entries) maps).length ≤ entries.length := by
  refine (List.length_filterMap_le _ _).trans ?_
  rw [List.length_zip, length_roundsOf, Nat.min_self]

/-- Nothing is lost where every map holds what its round has. -/
theorem length_rebuilt_of_isSome
    (h : ∀ e ∈ entries.zip (roundsOf entries), (maps e.2 e.1.1).isSome = true) :
    (rebuilt entries (roundsOf entries) maps).length = entries.length := by
  have hzip : (entries.zip (roundsOf entries)).length = entries.length := by
    rw [List.length_zip, length_roundsOf, Nat.min_self]
  rw [rebuilt, ← hzip]
  generalize entries.zip (roundsOf entries) = numbered at h
  induction numbered with
  | nil => rfl
  | cons e numbered ih =>
      rw [List.forall_mem_cons] at h
      rcases Option.isSome_iff_exists.mp h.1 with ⟨v, hv⟩
      rw [List.filterMap_cons, hv, Option.map_some, List.length_cons, ih h.2, List.length_cons]

/-- What the rebuilt list takes from one round. -/
def rebuiltRound : List (κ × γ) :=
  (roundEntries entries (roundsOf entries) i).filterMap fun e => (maps i e.1).map fun v => (e.1, v)

/-- It takes one entry for each key that the round's map holds. -/
theorem length_rebuiltRound {keys : List κ} (hkeys : keys.Nodup)
    (h : ∀ k, k ∈ keys ↔ k ∈ (roundEntries entries (roundsOf entries) i).map Prod.fst ∧
      (maps i k).isSome = true) : (rebuiltRound entries i maps).length = keys.length := by
  have hmap : ∀ es : List (κ × β),
      (es.filterMap fun e => (maps i e.1).map fun v => (e.1, v)).map Prod.fst =
        (es.map Prod.fst).filter fun k => (maps i k).isSome := by
    intro es
    induction es with
    | nil => rfl
    | cons e es ih => cases hm : maps i e.1 <;> simp [hm, ih]
  have hperm : ((rebuiltRound entries i maps).map Prod.fst).Perm keys := by
    rw [rebuiltRound, hmap, List.perm_ext_iff_of_nodup
      ((nodup_roundEntries entries i).filter _) hkeys]
    intro k
    rw [List.mem_filter, h]
  rw [← hperm.length_eq, List.length_map]

/-- Two disjoint parts of a list give no more than the list. -/
theorem length_filterMap_filter_add_le {α δ : Type} (f : α → Option δ) {p q : α → Bool}
    (hpq : ∀ a, ¬ (p a = true ∧ q a = true)) (l : List α) :
    ((l.filter p).filterMap f).length + ((l.filter q).filterMap f).length ≤
      (l.filterMap f).length := by
  induction l with
  | nil => exact le_refl 0
  | cons a l ih =>
      rw [List.filter_cons, List.filter_cons, List.filterMap_cons]
      cases hp : p a with
      | true =>
          have hq : q a = false := by
            rw [← Bool.not_eq_true]
            exact fun hq => hpq a ⟨hp, hq⟩
          rw [if_pos rfl, hq, if_neg Bool.false_ne_true, List.filterMap_cons]
          cases f a with
          | none => exact ih
          | some d =>
              rw [List.length_cons, List.length_cons]
              omega
      | false =>
          rw [if_neg Bool.false_ne_true]
          cases hq : q a with
          | true =>
              rw [if_pos rfl, List.filterMap_cons]
              cases f a with
              | none => exact ih
              | some d =>
                  rw [List.length_cons, List.length_cons]
                  omega
          | false =>
              rw [if_neg Bool.false_ne_true]
              cases f a with
              | none => exact ih
              | some d => exact ih.trans (Nat.le_succ _)

/-- Two rounds take their parts of the whole. -/
theorem length_add_length_le {j : ℕ} (hne : i ≠ j) :
    (rebuiltRound entries i maps).length + (rebuiltRound entries j maps).length ≤
      (rebuilt entries (roundsOf entries) maps).length := by
  have hpart : ∀ n, rebuiltRound entries n maps = ((entries.zip (roundsOf entries)).filter
      fun e => e.2 = n).filterMap fun e => (maps e.2 e.1.1).map fun v => (e.1.1, v) := by
    intro n
    rw [rebuiltRound, roundEntries, List.filterMap_map]
    apply List.filterMap_congr
    intro e he
    rw [Function.comp_apply, of_decide_eq_true (List.mem_filter.mp he).2]
  rw [hpart, hpart, rebuilt]
  apply length_filterMap_filter_add_le
  intro e hboth
  exact hne ((of_decide_eq_true hboth.1).symm.trans (of_decide_eq_true hboth.2))

/-- Where the keys differ, the first round is the only one. -/
theorem eq_zero_of_mem_roundsOf (h : (entries.map Prod.fst).Nodup) :
    ∀ i ∈ roundsOf entries, i = 0 := by
  intro i hi
  have hsnd : (entries.zip (roundsOf entries)).map Prod.snd = roundsOf entries :=
    List.map_snd_zip (length_roundsOf entries).le
  rw [← hsnd] at hi
  rcases List.mem_map.mp hi with ⟨e, he, rfl⟩
  have hlt := lt_count_of_mem_zip entries he
  have hone := List.nodup_iff_count_le_one.mp h e.1.1
  omega

/-- A list whose keys differ is all in the first round. -/
theorem rebuilt_eq_rebuiltRound (h : (entries.map Prod.fst).Nodup) :
    rebuilt entries (roundsOf entries) maps = rebuiltRound entries 0 maps := by
  have hzero : ∀ e ∈ entries.zip (roundsOf entries), e.2 = 0 := fun e he =>
    eq_zero_of_mem_roundsOf entries h e.2 (List.of_mem_zip he).2
  rw [rebuiltRound, roundEntries, List.filterMap_map,
    List.filter_eq_self.mpr fun e he => by rw [hzero e he]; rfl, rebuilt]
  apply List.filterMap_congr
  intro e he
  rw [Function.comp_apply, hzero e he]

end

end Telemetry.Lib
