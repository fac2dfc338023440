import Mathlib.Data.Finset.Card
import Telemetry.Lib.Slots

/-!
# Dictionaries

A dictionary has its keys in the order in which they came. Two dictionaries with the same keys in
the same order and the same value under every key are the same.

What a series of changes has done to a dictionary can be undone key by key, in any order of the
keys: each is given the value that it had before, or is taken out.

## Main definitions

* `Dict` — a dictionary.
* `Dict.set`, `Dict.erase`, `Dict.put`, `Dict.update`, `Dict.drop`, `Dict.filter`,
  `Dict.mapValues` — how it is changed.
* `Dict.putBack` — the undoing.

## Main results

* `Dict.get?_update` — of several values for a key the last remains.
* `Dict.flatMap_values_set_perm` — what is made of the values when one gets longer.
* `Dict.putBack_eq` — **when the undoing leads back**.
-/

namespace Telemetry.Lib

/-- A dictionary: its entries, in the order of their insertion. -/
structure Dict (κ β : Type) where
  entries : List (κ × β)
  nodup : (entries.map Prod.fst).Nodup

namespace Dict

variable {κ β : Type} [DecidableEq κ]

instance [DecidableEq β] : DecidableEq (Dict κ β) := fun d d' =>
  decidable_of_iff (d.entries = d'.entries) <| by
    cases d
    cases d'
    simp

/-- `{}`. -/
def empty : Dict κ β := ⟨[], List.nodup_nil⟩

def keys (d : Dict κ β) : List κ := d.entries.map Prod.fst

/-- The value under a key. -/
def get? (d : Dict κ β) (k : κ) : Option β := (d.entries.find? fun e => e.1 = k).map Prod.snd

/-- `d[k] = v`. -/
def set (d : Dict κ β) (k : κ) (v : β) : Dict κ β := ⟨assign k v d.entries, nodup_assign d.nodup⟩

/-- `d.pop(k, None)`. -/
def erase (d : Dict κ β) (k : κ) : Dict κ β where
  entries := d.entries.filter fun e => e.1 ≠ k
  nodup := d.nodup.sublist (List.filter_sublist.map Prod.fst)

/-- `{k: v for k, v in d.items() if p(k, v)}` -/
def filter (d : Dict κ β) (p : κ × β → Bool) : Dict κ β where
  entries := d.entries.filter p
  nodup := d.nodup.sublist (List.filter_sublist.map Prod.fst)

/-- The dictionary without the oldest entries. -/
def drop (d : Dict κ β) (n : ℕ) : Dict κ β where
  entries := d.entries.drop n
  nodup := d.nodup.sublist ((List.drop_sublist n _).map Prod.fst)

/-- `{k: f(v) for k, v in d.items()}` -/
def mapValues {γ : Type} (d : Dict κ β) (f : β → γ) : Dict κ γ where
  entries := d.entries.map fun e => (e.1, f e.2)
  nodup := by
    rw [List.map_map]
    exact d.nodup

/-- `d.values()` -/
def values (d : Dict κ β) : List β := d.entries.map Prod.snd

/-- The key gets the value, or is taken out if there is none. -/
def put (d : Dict κ β) (k : κ) : Option β → Dict κ β
  | some v => d.set k v
  | none => d.erase k

/-- `d.setdefault(k, v)`: the value under the key, if there is none. -/
def setDefault (d : Dict κ β) (k : κ) (v : β) : Dict κ β :=
  if k ∈ d.keys then d else d.set k v

/-- `d.update(…)`. -/
def update (d : Dict κ β) (values : List (κ × β)) : Dict κ β :=
  values.foldl (fun d e => d.set e.1 e.2) d

/-- The keys get the values that they have in another dictionary, one after the other. -/
def putBack (prior : Dict κ β) (ks : List κ) (d : Dict κ β) : Dict κ β :=
  ks.foldl (fun d k => d.put k (prior.get? k)) d

variable {d prior : Dict κ β} {j k : κ} {v : β}

/-! ## Lookups -/

omit [DecidableEq κ] in
theorem ext_entries {d d' : Dict κ β} (h : d.entries = d'.entries) : d = d' := by
  cases d
  cases d'
  cases h
  rfl

@[simp] theorem get?_empty (k : κ) : (empty : Dict κ β).get? k = none := rfl

@[simp] theorem get?_set (d : Dict κ β) (k : κ) (v : β) (j : κ) :
    (d.set k v).get? j = if j = k then some v else d.get? j := by
  obtain ⟨entries, hnodup⟩ := d
  simp only [get?, set]
  clear hnodup
  induction entries with
  | nil => by_cases h : k = j <;> simp [assign, h, eq_comm]
  | cons e entries ih =>
      by_cases he : e.1 = k
      · by_cases hj : j = k
        · simp [assign, he, hj]
        · simp [assign, he, hj, Ne.symm hj]
      · by_cases hj : e.1 = j
        · have hne : j ≠ k := fun h => he (hj.trans h)
          simp [assign, hj, hne]
        · simpa [assign, he, hj] using ih

@[simp] theorem get?_erase (d : Dict κ β) (k j : κ) :
    (d.erase k).get? j = if j = k then none else d.get? j := by
  rw [get?, get?, erase, List.find?_filter]
  by_cases h : j = k
  · subst h
    rw [if_pos rfl, List.find?_eq_none.mpr fun e _ => by simp]
    rfl
  · rw [if_neg h]
    congr 2
    funext e
    by_cases he : e.1 = j
    · simp [he, h]
    · simp [he]

@[simp] theorem get?_put (d : Dict κ β) (k : κ) (o : Option β) (j : κ) :
    (d.put k o).get? j = if j = k then o else d.get? j := by
  cases o with
  | none => exact d.get?_erase k j
  | some v => exact d.get?_set k v j

/-- A value is set before or after all are changed. -/
theorem mapValues_set {γ : Type} (d : Dict κ β) (f : β → γ) (k : κ) (v : β) :
    (d.set k v).mapValues f = (d.mapValues f).set k (f v) :=
  ext_entries (assign_map f k v d.entries).symm

@[simp] theorem get?_mapValues {γ : Type} (d : Dict κ β) (f : β → γ) (k : κ) :
    (d.mapValues f).get? k = (d.get? k).map f := by
  rw [get?, get?, mapValues, List.find?_map, Option.map_map, Option.map_map]
  rfl

omit [DecidableEq κ] in
@[simp] theorem keys_mapValues {γ : Type} (d : Dict κ β) (f : β → γ) :
    (d.mapValues f).keys = d.keys := by
  rw [keys, keys, mapValues, List.map_map]
  rfl

/-- The entries are the values under the keys. -/
theorem mem_entries_iff : (k, v) ∈ d.entries ↔ d.get? k = some v := by
  obtain ⟨entries, hnodup⟩ := d
  simp only [get?]
  induction entries with
  | nil => simp
  | cons e entries ih =>
      rw [List.map_cons, List.nodup_cons] at hnodup
      by_cases hkey : e.1 = k
      · have hnot : (k, v) ∉ entries := fun h => hnodup.1 (hkey ▸ List.mem_map_of_mem h)
        subst hkey
        simp [hnot, Prod.ext_iff, eq_comm]
      · have hne : ¬ (k, v) = e := by
          rintro rfl
          exact hkey rfl
        simp [hne, hkey, ih hnodup.2]

@[simp] theorem get?_filter (d : Dict κ β) (p : κ × β → Bool) (k : κ) :
    (d.filter p).get? k = (d.get? k).filter fun v => p (k, v) := by
  apply Option.ext
  intro v
  rw [Option.filter_eq_some_iff, ← mem_entries_iff, ← mem_entries_iff, filter, List.mem_filter]

/-- The values are those under the keys. -/
theorem mem_values_iff : v ∈ d.values ↔ ∃ k, d.get? k = some v := by
  simp only [values, List.mem_map, Prod.exists, exists_eq_right, mem_entries_iff]

/-- **The last value remains.** -/
theorem get?_update (d : Dict κ β) (values : List (κ × β)) (j : κ) :
    (d.update values).get? j =
      ((values.reverse.find? fun e => e.1 = j).map Prod.snd).or (d.get? j) := by
  induction values generalizing d with
  | nil => rfl
  | cons e values ih =>
      have hstep : d.update (e :: values) = (d.set e.1 e.2).update values := rfl
      rw [hstep, ih, get?_set, List.reverse_cons, List.find?_append]
      cases values.reverse.find? fun e => e.1 = j with
      | some last => rfl
      | none =>
          by_cases h : e.1 = j
          · simp [h]
          · simp [h, Ne.symm h]

theorem get?_update_of_notMem {values : List (κ × β)} (h : j ∉ values.map Prod.fst) :
    (d.update values).get? j = d.get? j := by
  rw [get?_update, List.find?_eq_none.mpr]
  · rfl
  · intro e he heq
    rw [decide_eq_true_eq] at heq
    exact h (List.mem_map.mpr ⟨e, List.mem_reverse.mp he, heq⟩)

theorem isSome_get?_iff : (d.get? k).isSome = true ↔ k ∈ d.keys := by
  rw [get?, Option.isSome_map, List.find?_isSome, keys, List.mem_map]
  simp

theorem get?_eq_none_iff : d.get? k = none ↔ k ∉ d.keys := by
  rw [← isSome_get?_iff]
  simp

/-! ## The order of the keys -/

theorem keys_set : (d.set k v).keys = if k ∈ d.keys then d.keys else d.keys ++ [k] := keys_assign

/-- **A value with more to it.** What is made of the values has the addition in its place. -/
theorem flatMap_values_set_perm {γ : Type} {f : β → List γ} {more : List γ}
    (h : f v = (d.get? k).elim [] f ++ more) :
    ((d.set k v).values.flatMap f).Perm (d.values.flatMap f ++ more) := by
  obtain ⟨entries, hnodup⟩ := d
  simp only [get?, set, values] at h ⊢
  clear hnodup
  induction entries with
  | nil =>
      simp only [List.find?_nil, Option.map_none, Option.elim_none, List.nil_append] at h
      simp [assign, h]
  | cons e entries ih =>
      by_cases he : e.1 = k
      · rw [List.find?_cons_of_pos (by simpa using he)] at h
        simp only [assign, if_pos he, List.map_cons, List.flatMap_cons, h, Option.map_some,
          Option.elim_some, List.append_assoc]
        exact List.perm_append_comm.append_left _
      · rw [List.find?_cons_of_neg (by simpa using he)] at h
        simp only [assign, if_neg he, List.map_cons, List.flatMap_cons, List.append_assoc]
        exact (ih h).append_left _

theorem keys_erase : (d.erase k).keys = d.keys.filter fun j => j ≠ k := by
  rw [keys, keys, erase, List.filter_map]
  rfl

omit [DecidableEq κ] in
theorem keys_drop (d : Dict κ β) (n : ℕ) : (d.drop n).keys = d.keys.drop n := List.map_drop ..

/-- A new key comes last. -/
theorem entries_set_of_notMem (h : k ∉ d.keys) :
    (d.set k v).entries = d.entries ++ [(k, v)] := by
  obtain ⟨entries, hnodup⟩ := d
  simp only [keys, set] at h ⊢
  clear hnodup
  induction entries with
  | nil => rfl
  | cons e entries ih =>
      rw [List.map_cons, List.mem_cons, not_or] at h
      rw [assign, if_neg (Ne.symm h.1), ih h.2, List.cons_append]

/-- What was there stays in front. -/
theorem prefix_keys_set (h : prior.keys <+: d.keys) (k : κ) (v : β) :
    prior.keys <+: (d.set k v).keys := by
  rw [keys_set]
  split
  · exact h
  · exact h.trans (List.prefix_append _ _)

theorem prefix_keys_update (h : prior.keys <+: d.keys) (values : List (κ × β)) :
    prior.keys <+: (d.update values).keys := by
  induction values generalizing d with
  | nil => exact h
  | cons e values ih => exact ih (prefix_keys_set h e.1 e.2)

/-- A key that was not there can be taken out again. -/
theorem prefix_keys_erase (h : prior.keys <+: d.keys) (hk : k ∉ prior.keys) :
    prior.keys <+: (d.erase k).keys := by
  have hfilter := h.filter fun j => decide (j ≠ k)
  rw [List.filter_eq_self.mpr] at hfilter
  · rw [keys_erase]
    exact hfilter
  · intro j hj
    have hne : j ≠ k := fun heq => hk (heq ▸ hj)
    simpa using hne

omit [DecidableEq κ] in
theorem nodup_keys (d : Dict κ β) : d.keys.Nodup := d.nodup

/-- There are as many entries as there are keys with a value. -/
theorem length_eq_card {ks : Finset κ} (h : ∀ k, (d.get? k).isSome = true ↔ k ∈ ks) :
    d.entries.length = ks.card := by
  have hkeys : d.keys.toFinset = ks := by
    ext k
    rw [List.mem_toFinset, ← isSome_get?_iff, h]
  rw [← hkeys, List.toFinset_card_of_nodup d.nodup_keys, keys, List.length_map]

/-- **The keys and their values are all there is.** -/
theorem ext_of_keys {d d' : Dict κ β} (hkeys : d.keys = d'.keys)
    (hget : ∀ k, d.get? k = d'.get? k) : d = d' := by
  obtain ⟨entries, hnodup⟩ := d
  obtain ⟨entries', hnodup'⟩ := d'
  simp only [keys] at hkeys
  refine ext_entries ?_
  induction entries generalizing entries' with
  | nil =>
      rw [List.map_nil, eq_comm, List.map_eq_nil_iff] at hkeys
      exact hkeys.symm
  | cons e entries ih =>
      cases entries' with
      | nil => simp at hkeys
      | cons e' entries' =>
          rw [List.map_cons, List.map_cons, List.cons.injEq] at hkeys
          rw [List.map_cons, List.nodup_cons] at hnodup hnodup'
          have hhead := hget e.1
          simp only [get?, List.find?_cons_of_pos, decide_true, Option.map_some, hkeys.1,
            Option.some.injEq] at hhead
          have htail : entries = entries' := by
            refine ih hnodup.2 entries' hnodup'.2 hkeys.2 fun k => ?_
            by_cases hk : e.1 = k
            · have hnot : k ∉ entries.map Prod.fst := hk ▸ hnodup.1
              have hnot' : k ∉ entries'.map Prod.fst := hkeys.2 ▸ hnot
              rw [get?_eq_none_iff.mpr hnot, get?_eq_none_iff.mpr hnot']
            · have hsame := hget k
              have hk' : ¬ e'.1 = k := hkeys.1 ▸ hk
              simpa [get?, hk, hk'] using hsame
          exact congrArg₂ List.cons (Prod.ext hkeys.1 hhead) htail

/-- Of two dictionaries with the same values the keys of one stand in front in the other. Then they
are the same. -/
theorem eq_of_prefix_keys (hpre : prior.keys <+: d.keys) (hget : ∀ k, d.get? k = prior.get? k) :
    d = prior := by
  refine ext_of_keys ?_ hget
  have hsubset : d.keys ⊆ prior.keys := by
    intro k hk
    rw [← isSome_get?_iff] at hk ⊢
    rwa [← hget]
  exact (hpre.eq_of_length_le (d.nodup_keys.length_le_of_subset hsubset)).symm

/-! ## Undoing -/

theorem putBack_cons (k : κ) (ks : List κ) (d : Dict κ β) :
    putBack prior (k :: ks) d = putBack prior ks (d.put k (prior.get? k)) := rfl

theorem prefix_keys_putBack (h : prior.keys <+: d.keys) (ks : List κ) :
    prior.keys <+: (putBack prior ks d).keys := by
  induction ks generalizing d with
  | nil => exact h
  | cons k ks ih =>
      rw [putBack_cons]
      refine ih ?_
      cases hk : prior.get? k with
      | none => exact prefix_keys_erase h (get?_eq_none_iff.mp hk)
      | some v => exact prefix_keys_set h k v

/-- The keys that are put back have the old values, and no other is touched. -/
theorem get?_putBack (ks : List κ) (d : Dict κ β) (j : κ) :
    (putBack prior ks d).get? j = if j ∈ ks then prior.get? j else d.get? j := by
  induction ks generalizing d with
  | nil => rfl
  | cons k ks ih =>
      rw [putBack_cons, ih, get?_put]
      by_cases hk : j = k
      · simp [hk]
      · simp [hk]

/-- **When the undoing leads back**: if what was there is still in front, and nothing else than the
given keys has changed its value. -/
theorem putBack_eq {ks : List κ} (hpre : prior.keys <+: d.keys)
    (hget : ∀ j, j ∉ ks → d.get? j = prior.get? j) : putBack prior ks d = prior := by
  refine eq_of_prefix_keys (prefix_keys_putBack hpre ks) fun j => ?_
  rw [get?_putBack]
  by_cases hj : j ∈ ks
  · rw [if_pos hj]
  · rw [if_neg hj, hget j hj]

end Dict
end Telemetry.Lib
