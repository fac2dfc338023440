import Telemetry.Lib.SortedMap

/-!
# Renaming the keys of a map

A function on keys sends several keys to one. When a map is rebuilt under the new names, two
entries may claim one slot. The policy here: an entry whose key is its own new name holds
its slot against all others, and among the rest the first to come holds it.

## Main definitions

* `renamed` — the map rebuilt under the new names.
* `lookup_renamed` — **who holds a slot**.
-/

namespace Telemetry.Lib

variable {κ β : Type} [LinearOrder κ]

/-- A map being rebuilt, with the slots that are held under their own names. -/
structure Rebuilt (κ β : Type) [LinearOrder κ] where
  out : SortedMap κ β := SortedMap.empty
  verbatim : List κ := []

/-- One entry claims the slot of its new name: a free one, or one that is held under another
key than its name if the entry's own key is the name. -/
def Rebuilt.claim (f : κ → κ) (state : Rebuilt κ β) (e : κ × β) : Rebuilt κ β :=
  if !state.out.contains (f e.1) || (f e.1 = e.1 && !state.verbatim.contains (f e.1)) then
    { out := state.out.insert (f e.1) e.2
      verbatim := if f e.1 = e.1 then f e.1 :: state.verbatim else state.verbatim }
  else state

/-- The map rebuilt from entries under their new names. -/
def renamed (f : κ → κ) (entries : List (κ × β)) : SortedMap κ β :=
  (entries.foldl (Rebuilt.claim f) {}).out

/-- What the first entry with a new name holds. -/
def firstNamed (f : κ → κ) (entries : List (κ × β)) (k : κ) : Option β :=
  (entries.find? fun e => f e.1 = k).map Prod.snd

/-- The value under a key that is its own new name. -/
def verbatim? (f : κ → κ) (entries : List (κ × β)) (k : κ) : Option β :=
  if f k = k then entries.lookup k else none

variable {f : κ → κ} {state : Rebuilt κ β} {entries : List (κ × β)} {k : κ}

theorem firstNamed_cons (e : κ × β) (entries : List (κ × β)) (k : κ) :
    firstNamed f (e :: entries) k = if f e.1 = k then some e.2 else firstNamed f entries k := by
  rw [firstNamed, List.find?_cons]
  by_cases he : f e.1 = k
  · simp [he]
  · simp [he, firstNamed]

theorem verbatim?_cons (e : κ × β) (entries : List (κ × β)) (k : κ) :
    verbatim? f (e :: entries) k =
      if k = e.1 ∧ f k = k then some e.2 else verbatim? f entries k := by
  rw [verbatim?, verbatim?, lookup_cons_eq]
  by_cases hk : k = e.1
  · subst hk
    by_cases hf : f e.1 = e.1
    · simp [hf]
    · simp [hf]
  · simp [hk]

/-- The slots that are held under their own names are held. -/
def Rebuilt.Held (state : Rebuilt κ β) : Prop :=
  ∀ k ∈ state.verbatim, state.out.contains k = true

theorem Rebuilt.Held.claim (h : state.Held) (e : κ × β) : (state.claim f e).Held := by
  intro k hk
  rw [Rebuilt.claim] at hk ⊢
  split at hk
  next hclaim =>
    rw [if_pos hclaim, SortedMap.contains, SortedMap.lookup_insert]
    split
    next => rfl
    next hne =>
      split at hk
      next => exact h k ((List.mem_cons.mp hk).resolve_left hne)
      next => exact h k hk
  next hclaim =>
    rw [if_neg hclaim]
    exact h k hk

/-- A slot held under its own name stays as it is. -/
theorem Rebuilt.lookup_foldl_of_mem (h : state.Held) (hk : k ∈ state.verbatim) :
    (entries.foldl (Rebuilt.claim f) state).out.lookup k = state.out.lookup k := by
  induction entries generalizing state with
  | nil => rfl
  | cons e entries ih =>
      have hkeep : k ∈ (state.claim f e).verbatim ∧
          (state.claim f e).out.lookup k = state.out.lookup k := by
        rw [Rebuilt.claim]
        split
        next hclaim =>
          constructor
          · split
            · exact List.mem_cons_of_mem _ hk
            · exact hk
          · rw [SortedMap.lookup_insert]
            -- the slot is neither free nor open to a claim
            have hne : k ≠ f e.1 := by
              rintro rfl
              simp [h _ hk, hk] at hclaim
            rw [if_neg hne]
        next => exact ⟨hk, rfl⟩
      rw [List.foldl_cons, ih (h.claim e) hkeep.1, hkeep.2]

/-- A slot that is not held under its own name goes to the entry whose key it is, else stays
with its holder, else goes to the first entry of that name. -/
theorem Rebuilt.lookup_foldl (h : state.Held) (hk : k ∉ state.verbatim) :
    (entries.foldl (Rebuilt.claim f) state).out.lookup k =
      (verbatim? f entries k).or ((state.out.lookup k).or (firstNamed f entries k)) := by
  induction entries generalizing state with
  | nil => simp [verbatim?, firstNamed]
  | cons e entries ih =>
      rw [List.foldl_cons, verbatim?_cons, firstNamed_cons]
      by_cases hown : k = e.1 ∧ f k = k
      · -- the entry takes the slot for good
        rcases hown with ⟨rfl, hf⟩
        have hclaim : state.claim f e =
            { out := state.out.insert e.1 e.2, verbatim := e.1 :: state.verbatim } := by
          simp [Rebuilt.claim, hf, hk]
        rw [Rebuilt.lookup_foldl_of_mem (h.claim e), hclaim]
        · simp [hf]
        · rw [hclaim]
          exact List.mem_cons_self
      · have hkeep : k ∉ (state.claim f e).verbatim := by
          rw [Rebuilt.claim]
          split
          next =>
            split
            next heq =>
              rw [List.mem_cons, not_or]
              constructor
              · rintro rfl
                exact hown ⟨heq, by rw [heq, heq]⟩
              · exact hk
            next => exact hk
          next => exact hk
        have hafter : (state.claim f e).out.lookup k =
            (state.out.lookup k).or (if f e.1 = k then some e.2 else none) := by
          rw [Rebuilt.claim]
          by_cases hname : f e.1 = k
          · have hother : f e.1 ≠ e.1 := by
              intro heq
              exact hown ⟨by rw [← hname, heq], by rw [← hname, heq, heq]⟩
            subst hname
            cases hl : state.out.lookup (f e.1) with
            | none => simp [SortedMap.contains, hl]
            | some v => simp [SortedMap.contains, hl, hother]
          · rw [if_neg hname, Option.or_none]
            split
            next => rw [SortedMap.lookup_insert, if_neg (Ne.symm hname)]
            next => rfl
        rw [ih (h.claim e) hkeep, hafter, if_neg hown]
        by_cases hname : f e.1 = k
        · rw [if_pos hname, if_pos hname]
          cases state.out.lookup k with
          | none => simp
          | some v => simp
        · rw [if_neg hname, if_neg hname, Option.or_none]

/-- **Who holds a slot**: the entry whose key it is, if the key is its own new name, else the
first entry with that new name. -/
theorem lookup_renamed (entries : List (κ × β)) (k : κ) :
    (renamed f entries).lookup k = (verbatim? f entries k).or (firstNamed f entries k) := by
  have hheld : ({} : Rebuilt κ β).Held := by
    intro k hk
    cases hk
  rw [renamed, Rebuilt.lookup_foldl hheld List.not_mem_nil]
  rfl

/-- Who holds a slot does not depend on the values. -/
theorem lookup_renamed_map {γ : Type} (g : β → γ) (entries : List (κ × β)) (k : κ) :
    (renamed f (entries.map fun e => (e.1, g e.2))).lookup k =
      ((renamed f entries).lookup k).map g := by
  have hverbatim : verbatim? f (entries.map fun e => (e.1, g e.2)) k =
      (verbatim? f entries k).map g := by
    rw [verbatim?, verbatim?]
    split
    next => exact Tree.lookup_map (fun _ => g) entries k
    next => rfl
  have hfirst : firstNamed f (entries.map fun e => (e.1, g e.2)) k =
      (firstNamed f entries k).map g := by
    rw [firstNamed, firstNamed, List.find?_map, Option.map_map, Option.map_map]
    rfl
  rw [lookup_renamed, lookup_renamed, hverbatim, hfirst, Option.map_or]

/-- The entry whose key is its own new name holds its slot. -/
theorem lookup_renamed_of_verbatim {v : β} (hf : f k = k) (h : entries.lookup k = some v) :
    (renamed f entries).lookup k = some v := by
  rw [lookup_renamed, verbatim?, if_pos hf, h, Option.some_or]

/-- What is held was held before. -/
theorem exists_of_mem_renamed {e : κ × β} (h : e ∈ (renamed f entries).entries) :
    ∃ e' ∈ entries, e'.2 = e.2 := by
  have hlookup : (renamed f entries).lookup e.1 = some e.2 := SortedMap.lookup_eq_some.mpr h
  rw [lookup_renamed, Option.or_eq_some_iff] at hlookup
  rcases hlookup with hverbatim | ⟨-, hfirst⟩
  · rw [verbatim?] at hverbatim
    split at hverbatim
    next => exact ⟨(e.1, e.2), Tree.mem_of_lookup hverbatim, rfl⟩
    next => cases hverbatim
  · rcases Option.map_eq_some_iff.mp hfirst with ⟨e', he', hvalue⟩
    exact ⟨e', List.mem_of_find?_eq_some he', hvalue⟩

/-- A slot is held exactly if some key has its name. -/
theorem isSome_lookup_renamed :
    ((renamed f entries).lookup k).isSome = true ↔ ∃ e ∈ entries, f e.1 = k := by
  have hverbatim : (verbatim? f entries k).isSome = true → ∃ e ∈ entries, f e.1 = k := by
    rw [verbatim?]
    intro h
    split at h
    next hf =>
      rcases Option.isSome_iff_exists.mp h with ⟨v, hv⟩
      exact ⟨(k, v), Tree.mem_of_lookup hv, hf⟩
    next => cases h
  have hfirst : (firstNamed f entries k).isSome = true ↔ ∃ e ∈ entries, f e.1 = k := by
    rw [firstNamed, Option.isSome_map, List.find?_isSome]
    simp
  rw [lookup_renamed, Option.isSome_or, Bool.or_eq_true, hfirst]
  constructor
  · rintro (h | h)
    · exact hverbatim h
    · exact h
  · exact .inr

end Telemetry.Lib
