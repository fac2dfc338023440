import Telemetry.Lib.Alike
import Telemetry.Receipts.PythonReturns
import Mathlib.Data.List.Perm.Basic

/-!
# What the canonical form of the Python SDK writes

The values that JSON has, and what their canonical form is made of: the parts of a list in order,
and the members of a dict in the order of their names.

## Main definitions

* `Plain` — trees of the values that JSON has, with strings as keys.
* `member` — a member of an object.

## Main results

* `written_of_list`, `written_of_dict` — what is written of a list and of a dict.
-/

namespace Telemetry.Receipts.Python

open Telemetry.Lib

/-- A scalar that JSON has: a float is one that is a finite double, and a string has no lone
surrogates. -/
def Scalar.Plain (finite : PyFloat → Prop) : Scalar → Prop
  | .float x => finite x
  | .str text => text.WellFormed
  | .other => False
  | _ => True

/-- Entries whose keys are strings. -/
def strKeys {α : Type} (named : List (CodePoints × α)) : List (Key × α) :=
  named.map fun e => (Key.str e.1, e.2)

/-- A tree of the values that JSON has. -/
inductive Plain (finite : PyFloat → Prop) : Value → Prop
  | scalar {a : Scalar} (h : a.Plain finite) : Plain finite (.scalar a)
  | list {ref : ℕ} {items : List Value} (h : ∀ x ∈ items, Plain finite x) :
      Plain finite (.list ref items)
  | dict {ref : ℕ} {named : List (CodePoints × Value)}
      (hnames : ∀ e ∈ named, e.1.WellFormed) (hnodup : (named.map Prod.fst).Nodup)
      (h : ∀ e ∈ named, Plain finite e.2) : Plain finite (.dict ref (strKeys named))

/-- A member of an object: a name, its value, and the text of the value. -/
def member (m : (CodePoints × Value) × CodePoints) : CodePoints :=
  jsonString m.1.1 ++ CodePoints.ofString ":" ++ m.2

variable {seen : List ℕ} {ref : ℕ} {items : List Value} {named : List (CodePoints × Value)}
  {text : CodePoints}

/-- **What is written of a list**: the texts of its items, in order. -/
theorem written_of_list (hnew : ref ∉ seen) (h : canonical seen (.list ref items) = .ok text) :
    ∃ written : List (Value × CodePoints), written.map Prod.fst = items ∧
      (∀ p ∈ written, canonical (ref :: seen) p.1 = .ok p.2) ∧
      text = CodePoints.ofString "[" ++ commaJoined (written.map Prod.snd) ++
        CodePoints.ofString "]" := by
  rw [canonical, if_neg hnew, canonicalSequence, canonicalItems_eq_map] at h
  rcases bind_eq_ok_iff.mp h with ⟨parts, hparts, hpure⟩
  cases hpure
  have hbind : (items.mapM fun item => canonical (ref :: seen) item >>= fun t => pure t) =
      .ok parts := by
    rw [← hparts, List.mapM_map]
    congr 1
    funext item
    exact bind_pure _
  rcases mapM_bind_eq_ok_iff.mp hbind with ⟨written, hwritten, hall, rfl⟩
  exact ⟨written, hwritten, hall, rfl⟩

/-- One name is not after another. -/
def NameLE (name name' : CodePoints) : Prop :=
  ∃ key key', sortKey name = .ok key ∧ sortKey name' = .ok key' ∧ key ≤ key'

/-- Sorting puts the names in order. -/
theorem pairwise_of_sortPairs {α : Type} {pairs sorted : List (CodePoints × α)}
    (h : sortPairs pairs = .ok sorted) : sorted.Pairwise fun p p' => NameLE p.1 p'.1 := by
  rcases bind_eq_ok_iff.mp h with ⟨keyed, hkeyed, hpure⟩
  cases hpure
  have hkeys : ∀ k ∈ keyed, sortKey k.2.1 = .ok k.1 := by
    rcases mapM_bind_eq_ok_iff.mp hkeyed with ⟨written, -, hall, rfl⟩
    intro k hk
    rcases List.mem_map.mp hk with ⟨p, hp, rfl⟩
    exact hall p hp
  have hsorted := List.pairwise_insertionSort (fun a b : List UInt8 × CodePoints × α => a.1 ≤ b.1)
    keyed
  rw [List.pairwise_map]
  apply List.Pairwise.imp_of_mem _ hsorted
  intro k k' hk hk' hle
  rw [(List.perm_insertionSort _ keyed).mem_iff] at hk hk'
  exact ⟨k.1, k'.1, hkeys k hk, hkeys k' hk', hle⟩

/-- Strings with no name twice name themselves. -/
theorem nameAll_strKeys {α : Type} (before pairs : List (CodePoints × α))
    (hnodup : ((before ++ pairs).map Prod.fst).Nodup) :
    nameAll before (strKeys pairs) = some (before ++ pairs) := by
  induction pairs generalizing before with
  | nil => rw [List.append_nil]; rfl
  | cons e pairs ih =>
      have hnew : e.1 ∉ before.map Prod.fst := by
        rw [List.map_append, List.nodup_append] at hnodup
        exact fun hmem => hnodup.2.2 e.1 hmem e.1 (by simp) rfl
      rw [List.append_cons] at hnodup ⊢
      change (if e.1 ∈ before.map Prod.fst then none
        else nameAll (before ++ [(e.1, e.2)]) (strKeys pairs)) = _
      rw [if_neg hnew]
      exact ih _ hnodup

theorem nodup_keys_strKeys {α : Type} {pairs : List (CodePoints × α)}
    (h : (pairs.map Prod.fst).Nodup) : ((strKeys pairs).map Prod.fst).Nodup := by
  have hinj : Function.Injective Key.str := fun _ _ => Key.str.inj
  have hmap := (List.nodup_map_iff hinj).mpr h
  rw [List.map_map] at hmap
  rwa [strKeys, List.map_map]

theorem canonicalEntries_strKeys (named : List (CodePoints × Value)) :
    canonicalEntries seen (strKeys named) =
      strKeys (named.map fun e => (e.1, canonical seen e.2)) := by
  rw [canonicalEntries_eq_map, strKeys, strKeys, List.map_map, List.map_map]
  rfl

/-- A dict of strings is written if its values are. -/
theorem returns_canonical_dict (hnodup : (named.map Prod.fst).Nodup)
    (hnames : ∀ e ∈ named, e.1.WellFormed) (hnew : ref ∉ seen)
    (h : ∀ e ∈ named, Returns (canonical (ref :: seen) e.2)) :
    Returns (canonical seen (.dict ref (strKeys named))) := by
  have hnamed : Named ((strKeys named).map Prod.fst) (named.map Prod.fst) := by
    refine ⟨?_, hnodup⟩
    rw [strKeys, List.map_map, List.map_map, List.map_map]
    rfl
  have hkeys : (canonicalEntries (ref :: seen) (strKeys named)).map Prod.fst =
      (strKeys named).map Prod.fst := by
    rw [canonicalEntries_eq_map, List.map_map]
    rfl
  rw [canonical, if_neg hnew, ← yields_true_iff, yields_canonicalMapping_iff fun _ => trivial,
    hkeys]
  intro names hnames'
  rw [hnamed.eq hnames']
  refine ⟨List.forall_mem_map.mpr hnames, ?_⟩
  rw [canonicalEntries_strKeys, strKeys, List.map_map, List.forall_mem_map]
  exact fun e he => yields_true_iff.mpr (h e he)

/-- **What is written of a dict**: its members, in the order of their names. -/
theorem written_of_dict (hnodup : (named.map Prod.fst).Nodup) (hnew : ref ∉ seen)
    (h : canonical seen (.dict ref (strKeys named)) = .ok text) :
    ∃ written : List ((CodePoints × Value) × CodePoints),
      (written.map Prod.fst).Perm named ∧
      (written.Pairwise fun m m' => NameLE m.1.1 m'.1.1) ∧
      (∀ m ∈ written, canonical (ref :: seen) m.1.2 = .ok m.2) ∧
      text = CodePoints.ofString "\x7b" ++ commaJoined (written.map member) ++
        CodePoints.ofString "\x7d" := by
  have hnames : ((named.map fun e => (e.1, canonical (ref :: seen) e.2)).map Prod.fst).Nodup := by
    rwa [List.map_map]
  rw [canonical, if_neg hnew, canonicalMapping, canonicalEntries_strKeys, namedPairs,
    nameAll_strKeys [] _ hnames, List.nil_append] at h
  simp only at h
  cases hsort : sortPairs (named.map fun e => (e.1, canonical (ref :: seen) e.2)) with
  | error e =>
      rw [hsort] at h
      cases h
  | ok sorted =>
      rw [hsort] at h
      change canonicalMembers sorted = .ok text at h
      -- the sorted pairs come from the entries in some order
      rcases List.perm_comp_forall₂ (perm_of_sortPairs hsort)
        (List.forall₂_map_left_iff.mpr (List.forall₂_same.mpr fun e _ => rfl) :
          List.Forall₂ (fun p e => p = (e.1, canonical (ref :: seen) e.2)) _ named) with
        ⟨es, hsorted, hperm⟩
      have hmap : sorted = es.map fun e => (e.1, canonical (ref :: seen) e.2) := by
        rw [← List.forall₂_eq_eq_eq, List.forall₂_map_right_iff]
        exact hsorted
      have horder := pairwise_of_sortPairs hsort
      subst hmap
      rcases bind_eq_ok_iff.mp h with ⟨parts, hparts, hpure⟩
      cases hpure
      rw [List.mapM_map] at hparts
      rcases mapM_bind_eq_ok_iff.mp hparts with ⟨written, rfl, hall, rfl⟩
      refine ⟨written, hperm, ?_, hall, rfl⟩
      rwa [List.map_map, List.pairwise_map] at horder

end Telemetry.Receipts.Python
