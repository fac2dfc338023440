import Telemetry.Lib.Dict
import Mathlib.Data.List.Basic

/-!
# Maps in which the last entry wins

Every member of a list may say that a key has a value, and what the last member says of a key is
what the list says. Two readers of the same members agree on the whole list if they agree wherever
a member is read by them in different ways.

## Main definitions

* `saidBy` — what one member says of a key.
* `lastSaid` — what the list says of it.

## Main results

* `get?_update_filterMap` — the dictionary that is filled with what is read.
* `lastSaid_eq_some_iff` — the member that decides.
* `lastSaid_eq_iff_of_agree` — **when two readers agree on every key**.
-/

namespace Telemetry.Lib

variable {μ κ κ' β β' : Type} [DecidableEq κ] [DecidableEq κ']

/-- What the entry that is read of a member says of the key. -/
def saidBy (read : μ → Option (κ × β)) (k : κ) (m : μ) : Option β :=
  (read m).bind fun e => if e.1 = k then some e.2 else none

/-- What the last member that says something of the key says. -/
def lastSaid (read : μ → Option (κ × β)) (members : List μ) (k : κ) : Option β :=
  members.reverse.findSome? (saidBy read k)

variable {read read' : μ → Option (κ × β)} {members : List μ} {m : μ} {k : κ} {v : β}

theorem saidBy_eq_some_iff : saidBy read k m = some v ↔ read m = some (k, v) := by
  rw [saidBy, Option.bind_eq_some_iff]
  constructor
  · intro ⟨e, he, hv⟩
    by_cases hkey : e.1 = k
    · rw [if_pos hkey, Option.some.injEq] at hv
      rw [he, ← hkey, ← hv]
    · rw [if_neg hkey] at hv
      cases hv
  · intro h
    exact ⟨(k, v), h, if_pos rfl⟩

theorem saidBy_eq_none_iff : saidBy read k m = none ↔ ∀ v, read m ≠ some (k, v) := by
  rw [Option.eq_none_iff_forall_ne_some]
  simp only [ne_eq, saidBy_eq_some_iff]

@[simp] theorem lastSaid_nil (read : μ → Option (κ × β)) (k : κ) : lastSaid read [] k = none := rfl

theorem lastSaid_cons (read : μ → Option (κ × β)) (m : μ) (members : List μ) (k : κ) :
    lastSaid read (m :: members) k = (lastSaid read members k).or (saidBy read k m) := by
  rw [lastSaid, List.reverse_cons, List.findSome?_append, List.findSome?_singleton]
  rfl

/-- **The dictionary that is filled** with what is read. -/
theorem get?_update_filterMap (read : μ → Option (κ × β)) (members : List μ) (d : Dict κ β)
    (k : κ) :
    (d.update (members.filterMap read)).get? k = (lastSaid read members k).or (d.get? k) := by
  induction members generalizing d with
  | nil => rfl
  | cons m members ih =>
      rw [lastSaid_cons]
      cases hread : read m with
      | none =>
          rw [List.filterMap_cons_none hread, ih, saidBy, hread, Option.bind_none, Option.or_none]
      | some e =>
          have hstep : d.update (e :: members.filterMap read) =
              (d.set e.1 e.2).update (members.filterMap read) := rfl
          rw [List.filterMap_cons_some hread, hstep, ih, Dict.get?_set, saidBy, hread,
            Option.bind_some, Option.or_assoc]
          by_cases hkey : e.1 = k
          · simp [hkey]
          · simp [hkey, Ne.symm hkey]

/-- Nobody says anything of the key. -/
theorem lastSaid_eq_none_iff :
    lastSaid read members k = none ↔ ∀ m ∈ members, ∀ v, read m ≠ some (k, v) := by
  rw [lastSaid, List.findSome?_eq_none_iff]
  simp only [List.mem_reverse, saidBy_eq_none_iff]

/-- **The member that decides**: nobody behind it says anything of the key. -/
theorem lastSaid_eq_some_iff : lastSaid read members k = some v ↔
    ∃ before m behind, members = before ++ m :: behind ∧ read m = some (k, v) ∧
      ∀ m' ∈ behind, ∀ v', read m' ≠ some (k, v') := by
  rw [lastSaid, List.findSome?_eq_some_iff]
  constructor
  · intro ⟨behind, m, before, hsplit, hsaid, hnone⟩
    refine ⟨before.reverse, m, behind.reverse, ?_, saidBy_eq_some_iff.mp hsaid, ?_⟩
    · rw [← List.reverse_reverse members, hsplit]
      simp
    · intro m' hm'
      exact saidBy_eq_none_iff.mp (hnone m' (List.mem_reverse.mp hm'))
  · intro ⟨before, m, behind, hsplit, hread, hnone⟩
    refine ⟨behind.reverse, m, before.reverse, ?_, saidBy_eq_some_iff.mpr hread, ?_⟩
    · rw [hsplit]
      simp
    · intro m' hm'
      exact saidBy_eq_none_iff.mpr (hnone m' (List.mem_reverse.mp hm'))

theorem exists_of_lastSaid (h : lastSaid read members k = some v) :
    ∃ m ∈ members, read m = some (k, v) := by
  obtain ⟨before, m, behind, rfl, hread, -⟩ := lastSaid_eq_some_iff.mp h
  exact ⟨m, by simp, hread⟩

/-- Somebody says something of the key, so the list does. -/
theorem exists_lastSaid (hm : m ∈ members) (hread : read m = some (k, v)) :
    ∃ v', lastSaid read members k = some v' := by
  rw [← Option.ne_none_iff_exists', ne_eq, lastSaid_eq_none_iff]
  intro hnone
  exact hnone m hm v hread

/-! ## Two readers -/

/-- Who reads the same of a key finds the same under it. -/
theorem lastSaid_congr (h : ∀ m ∈ members, saidBy read k m = saidBy read' k m) :
    lastSaid read members k = lastSaid read' members k := by
  induction members with
  | nil => rfl
  | cons m members ih =>
      rw [List.forall_mem_cons] at h
      rw [lastSaid_cons, lastSaid_cons, ih h.2, h.1]

/-- A reader that leaves some entries out, but not the one that decides. -/
theorem lastSaid_of_restrict (hle : ∀ m ∈ members, ∀ e, read' m = some e → read m = some e)
    (hkeep : ∀ m ∈ members, read m = some (k, v) → read' m = some (k, v))
    (h : lastSaid read members k = some v) : lastSaid read' members k = some v := by
  obtain ⟨before, m, behind, hsplit, hread, hnone⟩ := lastSaid_eq_some_iff.mp h
  have hmem : m ∈ members := by simp [hsplit]
  refine lastSaid_eq_some_iff.mpr ⟨before, m, behind, hsplit, hkeep m hmem hread, ?_⟩
  intro m' hm' v' hread'
  have hmem' : m' ∈ members := by simp [hsplit, hm']
  exact hnone m' hm' v' (hle m' hmem' _ hread')

/-- A reader that writes keys and values in another way, where no other key becomes the same. -/
theorem lastSaid_map {f : κ → κ'} {g : β → β'} {k' : κ'}
    (h : ∀ m ∈ members, ∀ e, read m = some e → (f e.1 = k' ↔ e.1 = k)) :
    lastSaid (fun m => (read m).map (Prod.map f g)) members k' =
      (lastSaid read members k).map g := by
  induction members with
  | nil => rfl
  | cons m members ih =>
      rw [List.forall_mem_cons] at h
      rw [lastSaid_cons, lastSaid_cons, ih h.2, Option.map_or]
      congr 1
      cases hread : read m with
      | none => simp [saidBy, hread]
      | some e =>
          have hkey := h.1 e hread
          by_cases he : e.1 = k
          · subst he
            simp [saidBy, hread, hkey.mpr rfl]
          · simp [saidBy, hread, hkey, he]

/-- What is found under a key that is written in another way. -/
theorem lastSaid_map_eq_some_iff {f : κ → κ'} (hf : Function.Injective f) {g : β → β'} {k' : κ'}
    {v' : β'} :
    lastSaid (fun m => (read m).map (Prod.map f g)) members k' = some v' ↔
      ∃ k v, lastSaid read members k = some v ∧ f k = k' ∧ g v = v' := by
  have hmap : ∀ k, lastSaid (fun m => (read m).map (Prod.map f g)) members (f k) =
      (lastSaid read members k).map g :=
    fun k => lastSaid_map fun m _ e _ => hf.eq_iff
  constructor
  · intro h
    obtain ⟨m, -, hread⟩ := exists_of_lastSaid h
    obtain ⟨e, -, he⟩ := Option.map_eq_some_iff.mp hread
    have hkey : f e.1 = k' := congrArg Prod.fst he
    rw [← hkey, hmap, Option.map_eq_some_iff] at h
    obtain ⟨v, hv, hg⟩ := h
    exact ⟨e.1, v, hv, hkey, hg⟩
  · intro ⟨k, v, h, hk, hv⟩
    rw [← hk, hmap, h, Option.map_some, hv]

/-- The members may be written in another way too. -/
theorem lastSaid_map_members {ν : Type} (f : ν → μ) (members : List ν) (k : κ) :
    lastSaid read (members.map f) k = lastSaid (fun n => read (f n)) members k := by
  rw [lastSaid, ← List.map_reverse, List.findSome?_map]
  rfl

/-- **Two readers agree on every key** iff they agree on those of the members that they read in
different ways. -/
theorem lastSaid_eq_iff_of_agree {Odd : μ → Prop}
    (h : ∀ m ∈ members, ¬ Odd m → read m = read' m) :
    (∀ k, lastSaid read members k = lastSaid read' members k) ↔
      ∀ m ∈ members, Odd m → ∀ e, read m = some e ∨ read' m = some e →
        lastSaid read members e.1 = lastSaid read' members e.1 := by
  constructor
  · intro hall m _ _ e _
    exact hall e.1
  · intro hodd k
    by_cases hkey : ∃ m ∈ members, Odd m ∧ ∃ v, read m = some (k, v) ∨ read' m = some (k, v)
    · obtain ⟨m, hm, hoddm, v, hread⟩ := hkey
      exact hodd m hm hoddm (k, v) hread
    · -- The members that are read in different ways say nothing of this key.
      refine lastSaid_congr fun m hm => ?_
      by_cases hoddm : Odd m
      · have hnone : ∀ v, read m ≠ some (k, v) ∧ read' m ≠ some (k, v) := by
          intro v
          rw [← not_or]
          exact fun hread => hkey ⟨m, hm, hoddm, v, hread⟩
        rw [saidBy_eq_none_iff.mpr fun v => (hnone v).1,
          saidBy_eq_none_iff.mpr fun v => (hnone v).2]
      · rw [saidBy, saidBy, h m hm hoddm]

end Telemetry.Lib
