import Telemetry.Lib.Alike
import Mathlib.Data.List.Sort
import Mathlib.Data.List.Lex

/-!
# Writing trees

A canonical format writes a tree from the texts of its scalars: a list as the texts of its items,
a dict as its members in the order of their keys. Where lists and dicts have an identity, the
writer carries those that it is inside of and writes a fixed text for one that it meets again.

A script says how all this is done. Two scripts that do the same, each in its own words, write
trees that are alike in the same way.

## Main definitions

* `Script`, `Script.write` — a format, and what it makes of a tree.
* `Script.Translates` — a script that says in other words what another one says.

## Main results

* `Script.write_eq_of_alike` — **what is written of trees that are alike is the same text**.
* `Script.sorted_eq_of_perm` — the order in which a dict has its entries is not seen.
-/

namespace Telemetry.Lib

/-- How trees are written. The keys of a dict are in the order of their ranks. -/
structure Script (κ α γ : Type) where
  scalar : α → γ
  list : List γ → γ
  member : κ → γ → γ
  dict : List γ → γ
  /-- What is written of a list or a dict that is met within itself. -/
  cut : γ
  rank : κ → List ℕ
  /-- Lists and dicts with nothing in them are never cut. -/
  sparesEmpty : Bool

namespace Script

variable {κ κ' ι ι' α α' γ γ' : Type}

/-- The members of a dict in the order of their keys. -/
def sorted (rank : κ → List ℕ) (members : List (κ × γ)) : List (κ × γ) :=
  members.insertionSort fun e e' => rank e.1 ≤ rank e'.1

/-- The text of a dict, from those of its values. -/
def object (S : Script κ α γ) (members : List (κ × γ)) : γ :=
  S.dict ((sorted S.rank members).map fun e => S.member e.1 e.2)

section Write

variable [DecidableEq ι] (S : Script κ α γ)

/-- The writer is inside this list or dict. -/
def cuts (seen : List ι) (r : ι) (isEmpty : Bool) : Bool :=
  decide (r ∈ seen) && !(S.sparesEmpty && isEmpty)

mutual
/-- The text of a tree, within the lists and dicts that were entered. -/
def write (seen : List ι) : Tree κ ι α → γ
  | .scalar a => S.scalar a
  | .list r items =>
      if S.cuts seen r items.isEmpty then S.cut else S.list (writeItems (r :: seen) items)
  | .dict r entries =>
      if S.cuts seen r entries.isEmpty then S.cut else S.object (writeEntries (r :: seen) entries)
/-- The texts of items. -/
def writeItems (seen : List ι) : List (Tree κ ι α) → List γ
  | [] => []
  | x :: items => write seen x :: writeItems seen items
/-- The texts of values, under their keys. -/
def writeEntries (seen : List ι) : List (κ × Tree κ ι α) → List (κ × γ)
  | [] => []
  | (k, x) :: entries => (k, write seen x) :: writeEntries seen entries
end

theorem writeItems_eq_map (seen : List ι) (items : List (Tree κ ι α)) :
    S.writeItems seen items = items.map (S.write seen) := by
  induction items with
  | nil => rfl
  | cons x items ih => rw [writeItems, ih, List.map_cons]

theorem writeEntries_eq_map (seen : List ι) (entries : List (κ × Tree κ ι α)) :
    S.writeEntries seen entries = entries.map fun e => (e.1, S.write seen e.2) := by
  induction entries with
  | nil => rfl
  | cons e entries ih => rw [writeEntries, ih, List.map_cons]

variable {S} {seen : List ι} {r : ι}

theorem cuts_of_notMem (h : r ∉ seen) (isEmpty : Bool) : S.cuts seen r isEmpty = false := by
  rw [cuts, decide_eq_false h, Bool.false_and]

theorem write_list_of_notMem (h : r ∉ seen) (items : List (Tree κ ι α)) :
    S.write seen (.list r items) = S.list (items.map (S.write (r :: seen))) := by
  rw [write, cuts_of_notMem h, if_neg Bool.false_ne_true, writeItems_eq_map]

theorem write_dict_of_notMem (h : r ∉ seen) (entries : List (κ × Tree κ ι α)) :
    S.write seen (.dict r entries) =
      S.object (entries.map fun e => (e.1, S.write (r :: seen) e.2)) := by
  rw [write, cuts_of_notMem h, if_neg Bool.false_ne_true, writeEntries_eq_map]

/-- What holds of the texts of scalars and is kept by lists, members and dicts holds of the text of
a tree. -/
theorem write_satisfies {P : γ → Prop} {Q : α → Prop} {K : κ → Prop} (hcut : P S.cut)
    (hscalar : ∀ a, Q a → P (S.scalar a)) (hlist : ∀ parts, (∀ p ∈ parts, P p) → P (S.list parts))
    (hmember : ∀ k text, K k → P text → P (S.member k text))
    (hdict : ∀ parts, (∀ p ∈ parts, P p) → P (S.dict parts)) {t : Tree κ ι α}
    (hscalars : t.AllScalars Q) (hkeys : t.AllKeys K) : P (S.write seen t) := by
  induction t using Tree.induct generalizing seen with
  | scalar a =>
      obtain ⟨ha⟩ := hscalars
      exact hscalar a ha
  | list r items ih =>
      obtain - | ⟨hscalars⟩ := hscalars
      obtain - | ⟨hkeys⟩ := hkeys
      rw [write]
      split
      · exact hcut
      · apply hlist
        rw [writeItems_eq_map, List.forall_mem_map]
        exact fun x hx => ih x hx (hscalars x hx) (hkeys x hx)
  | dict r entries ih =>
      obtain - | - | ⟨hscalars⟩ := hscalars
      obtain - | - | ⟨hnames, hkeys⟩ := hkeys
      rw [write]
      split
      · exact hcut
      · apply hdict
        rw [List.forall_mem_map]
        intro e he
        rw [sorted, List.mem_insertionSort, writeEntries_eq_map] at he
        obtain ⟨d, hd, rfl⟩ := List.mem_map.mp he
        exact hmember _ _ (hnames d hd) (ih d hd (hscalars d hd) (hkeys d hd))

end Write

/-! ## Members in order -/

/-- Two lists of values under keys are the same up to order, if their keys are and no key has two
values. -/
theorem perm_of_keys {β : Type} {l l' : List (κ × β)}
    (hkeys : (l.map Prod.fst).Perm (l'.map Prod.fst))
    (hnodup : (l.map Prod.fst).Nodup) (h : ∀ e ∈ l, ∀ e' ∈ l', e.1 = e'.1 → e.2 = e'.2) :
    l.Perm l' := by
  rw [List.perm_ext_iff_of_nodup (List.Nodup.of_map _ hnodup)
    (List.Nodup.of_map _ (hkeys.nodup_iff.mp hnodup))]
  intro e
  constructor
  · intro he
    obtain ⟨e', he', hkey⟩ := List.mem_map.mp (hkeys.mem_iff.mp (List.mem_map_of_mem he))
    rwa [Prod.ext hkey.symm (h e he e' he' hkey.symm)]
  · intro he
    obtain ⟨e', he', hkey⟩ := List.mem_map.mp (hkeys.mem_iff.mpr (List.mem_map_of_mem he))
    rwa [← Prod.ext hkey (h e' he' e he hkey)]

/-- **The order of the members is not seen.** -/
theorem sorted_eq_of_perm {rank : κ → List ℕ} {l l' : List (κ × γ)} (h : l.Perm l')
    (hnodup : (l.map Prod.fst).Nodup)
    (hrank : ∀ e ∈ l, ∀ e' ∈ l, rank e.1 = rank e'.1 → e.1 = e'.1) :
    sorted rank l = sorted rank l' := by
  have hperm := List.perm_insertionSort (fun e e' : κ × γ => rank e.1 ≤ rank e'.1) l
  have hperm' := List.perm_insertionSort (fun e e' : κ × γ => rank e.1 ≤ rank e'.1) l'
  refine (hperm.trans (h.trans hperm'.symm)).eq_of_pairwise ?_
    (List.pairwise_insertionSort _ l) (List.pairwise_insertionSort _ l')
  intro e e' he he' hle hle'
  have hmem := hperm.mem_iff.mp he
  have hmem' := h.mem_iff.mpr (hperm'.mem_iff.mp he')
  exact List.inj_on_of_nodup_map hnodup hmem hmem' (hrank e hmem e' hmem' (le_antisymm hle hle'))

/-- Members are put in order before or after they are changed. -/
theorem sorted_map {γ₂ : Type} {rank : κ → List ℕ} {rank' : κ' → List ℕ} {f : κ' → κ}
    (hrank : ∀ k k', rank' k ≤ rank' k' ↔ rank (f k) ≤ rank (f k')) (g : κ' → γ → γ₂)
    (members : List (κ' × γ)) :
    sorted rank (members.map fun e => (f e.1, g e.1 e.2)) =
      (sorted rank' members).map fun e => (f e.1, g e.1 e.2) :=
  (List.map_insertionSort (fun e e' : κ' × γ => rank' e.1 ≤ rank' e'.1)
    (fun e e' : κ × γ₂ => rank e.1 ≤ rank e'.1) _ members
    fun e _ e' _ => hrank e.1 e'.1).symm

/-! ## A script in other words -/

/-- The second script says what the first one says: `f` takes its keys to those of the first, `R`
relates the scalars, and `τ` takes the texts of the first to its own. -/
structure Translates (S : Script κ α γ) (S' : Script κ' α' γ') (f : κ' → κ) (R : α → α' → Prop)
    (τ : γ → γ') : Prop where
  scalar : ∀ {a b}, R a b → S'.scalar b = τ (S.scalar a)
  list : ∀ parts, S'.list (parts.map τ) = τ (S.list parts)
  member : ∀ k text, S'.member k (τ text) = τ (S.member (f k) text)
  dict : ∀ parts, S'.dict (parts.map τ) = τ (S.dict parts)
  rank_le : ∀ k k', S'.rank k ≤ S'.rank k' ↔ S.rank (f k) ≤ S.rank (f k')
  rank_injective : ∀ k k', S.rank (f k) = S.rank (f k') → f k = f k'

variable {S : Script κ α γ} {S' : Script κ' α' γ'} {f : κ' → κ} {R : α → α' → Prop} {τ : γ → γ'}

/-- The members of a dict are written in the same order. -/
theorem Translates.object (hT : Translates S S' f R τ) {members : List (κ × γ)}
    {members' : List (κ' × γ')}
    (hkeys : (members.map Prod.fst).Perm (members'.map fun e => f e.1))
    (hnodup : (members.map Prod.fst).Nodup)
    (h : ∀ e ∈ members, ∀ e' ∈ members', e.1 = f e'.1 → e'.2 = τ e.2) :
    S'.object members' = τ (S.object members) := by
  -- both lists of members, with the keys of the first script and the texts of the second
  let A := members.map fun e => (id e.1, τ (S.member e.1 e.2))
  let B := members'.map fun e => (f e.1, S'.member e.1 e.2)
  have hA : A.map Prod.fst = members.map Prod.fst := by
    rw [List.map_map]
    rfl
  have hB : B.map Prod.fst = members'.map fun e => f e.1 := by
    rw [List.map_map]
    rfl
  have hperm : A.Perm B := by
    refine perm_of_keys (by rwa [hA, hB]) (by rwa [hA]) ?_
    intro e he e' he' hkey
    obtain ⟨d, hd, rfl⟩ := List.mem_map.mp he
    obtain ⟨d', hd', rfl⟩ := List.mem_map.mp he'
    have hsame : d.1 = f d'.1 := hkey
    simp only [h d hd d' hd' hsame, hT.member, hsame]
  have hrank : ∀ e ∈ A, ∀ e' ∈ A, S.rank e.1 = S.rank e'.1 → e.1 = e'.1 := by
    have hkey : ∀ e ∈ A, ∃ k, e.1 = f k := by
      intro e he
      obtain ⟨d, -, hd⟩ := List.mem_map.mp (hkeys.mem_iff.mp (hA ▸ List.mem_map_of_mem he))
      exact ⟨d.1, hd.symm⟩
    intro e he e' he' hr
    obtain ⟨k, hk⟩ := hkey e he
    obtain ⟨k', hk'⟩ := hkey e' he'
    rw [hk, hk'] at hr ⊢
    exact hT.rank_injective k k' hr
  have hsorted : sorted S.rank A = sorted S.rank B := sorted_eq_of_perm hperm (by rwa [hA]) hrank
  have hsortedA := sorted_map (f := id) (fun k k' => Iff.rfl (a := S.rank k ≤ S.rank k'))
    (fun k text => τ (S.member k text)) members
  have hsortedB := sorted_map hT.rank_le S'.member members'
  have htexts := congrArg (List.map Prod.snd) (hsortedA.symm.trans (hsorted.trans hsortedB))
  rw [List.map_map, List.map_map] at htexts
  rw [Script.object, Script.object, ← hT.dict, List.map_map]
  exact congrArg S'.dict htexts.symm

/-- **Trees that are alike are written alike**, by scripts that say the same. -/
theorem write_eq_of_alike [DecidableEq ι] [DecidableEq ι'] (hT : Translates S S' f R τ)
    {t : Tree κ ι α} {u : Tree κ' ι' α'} (h : Tree.Alike f R t u) {seen : List ι}
    {seen' : List ι'} (ht : t.Acyclic seen) (hu : u.Acyclic seen') (hnodup : t.NodupKeys) :
    S'.write seen' u = τ (S.write seen t) := by
  induction h generalizing seen seen' with
  | scalar h => exact hT.scalar h
  | @list r r' xs ys hlength h ih =>
      obtain - | ⟨hnew, hall⟩ := ht
      obtain - | ⟨hnew', hall'⟩ := hu
      rw [write_list_of_notMem hnew, write_list_of_notMem hnew', ← hT.list, List.map_map]
      congr 1
      apply List.ext_getElem (by simpa using hlength.symm)
      intro i hi hi'
      simp only [List.length_map] at hi hi'
      simp only [List.getElem_map, Function.comp]
      exact ih i hi' hi (hall _ (List.getElem_mem hi')) (hall' _ (List.getElem_mem hi))
        (hnodup.items _ (List.getElem_mem hi'))
  | @dict r r' entries entries' hkeys h ih =>
      obtain - | - | ⟨hnew, hall⟩ := ht
      obtain - | - | ⟨hnew', hall'⟩ := hu
      rw [write_dict_of_notMem hnew, write_dict_of_notMem hnew']
      apply hT.object
      · rw [List.map_map, List.map_map]
        exact hkeys
      · rw [List.map_map]
        exact hnodup.keys
      · intro e he e' he' hkey
        obtain ⟨d, hd, rfl⟩ := List.mem_map.mp he
        obtain ⟨d', hd', rfl⟩ := List.mem_map.mp he'
        exact ih d hd d' hd' hkey (hall d hd) (hall' d' hd') (hnodup.entries d hd)

end Script

end Telemetry.Lib
