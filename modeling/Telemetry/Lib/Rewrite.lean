import Telemetry.Lib.Tree

/-!
# Rewriting trees rule by rule

A pass over a tree that treats each child by itself: it rewrites or drops the entries of a
dict, and rewrites the items of a list. Passes of this kind compose, so a list of rules, run
one after another over the whole tree, does to each child what the rules do to that child
alone.

## Main definitions

* `Tree.Rewrites` — a function on trees is such a pass.
* `Tree.Rewrites.foldl` — **the rules of a list, one after another, are one pass**.
* `foldlM_of_walk`, `foldlM_of_mask` — what a list of rules does to one entry.
-/

namespace Telemetry.Lib

/-! ## One entry -/

section Entry

variable {β ρ : Type} {step : ρ → β → Option β} {rules : List ρ}

/-- If every rule walks into the value, so do all of them. -/
theorem foldlM_of_walk {walk : ρ → β → β}
    (h : ∀ rule ∈ rules, ∀ v, step rule v = some (walk rule v)) (v : β) :
    rules.foldlM (fun v rule => step rule v) v =
      some (rules.foldl (fun v rule => walk rule v) v) := by
  induction rules generalizing v with
  | nil => rfl
  | cons rule rules ih =>
      rw [List.foldlM_cons, h rule List.mem_cons_self]
      exact ih (fun rule' hrule' => h rule' (List.mem_cons_of_mem _ hrule')) _

/-- What the rules keep, they keep all together. -/
theorem foldlM_of_keep {P : β → Prop} (hkeep : ∀ rule v w, P v → step rule v = some w → P w)
    {v w : β} (hv : P v) (h : rules.foldlM (fun v rule => step rule v) v = some w) : P w := by
  induction rules generalizing v with
  | nil =>
      cases h
      exact hv
  | cons rule rules ih =>
      rw [List.foldlM_cons] at h
      obtain ⟨x, hx, hrest⟩ := Option.bind_eq_some_iff.mp h
      exact ih (hkeep rule v x hv hx) hrest

/-- If a rule masks the value, what is left is of the kind that masks leave. -/
theorem foldlM_of_mask {P : β → Prop} (hkeep : ∀ rule v w, P v → step rule v = some w → P w)
    {rule : ρ} (hrule : rule ∈ rules) (hmask : ∀ v w, step rule v = some w → P w) {v w : β}
    (h : rules.foldlM (fun v rule => step rule v) v = some w) : P w := by
  obtain ⟨before, after, rfl⟩ := List.append_of_mem hrule
  rw [List.foldlM_append] at h
  obtain ⟨x, -, hx⟩ := Option.bind_eq_some_iff.mp h
  rw [List.foldlM_cons] at hx
  obtain ⟨y, hy, hrest⟩ := Option.bind_eq_some_iff.mp hx
  exact foldlM_of_keep hkeep (hmask x y hy) hrest

end Entry

namespace Tree

variable {κ ι α : Type} {f g : Tree κ ι α → Tree κ ι α}
  {entry entry' : κ → Tree κ ι α → Option (Tree κ ι α)} {item item' : ℕ → Tree κ ι α → Tree κ ι α}

/-- Rewrite or drop each entry. -/
def rewriteEntries (entry : κ → Tree κ ι α → Option (Tree κ ι α))
    (entries : List (κ × Tree κ ι α)) : List (κ × Tree κ ι α) :=
  entries.filterMap fun e => (entry e.1 e.2).map fun v => (e.1, v)

/-- The function rewrites a node child by child: an entry by `entry`, an item by `item`. The
annotations may change. -/
structure Rewrites (f : Tree κ ι α → Tree κ ι α) (entry : κ → Tree κ ι α → Option (Tree κ ι α))
    (item : ℕ → Tree κ ι α → Tree κ ι α) : Prop where
  scalar : ∀ a, f (.scalar a) = .scalar a
  list : ∀ r items, ∃ r', f (.list r items) = .list r' (items.mapIdx item)
  dict : ∀ r entries, ∃ r', f (.dict r entries) = .dict r' (rewriteEntries entry entries)

/-- A function that does not look at the index. -/
theorem mapIdx_const {β γ : Type} (h : β → γ) (xs : List β) :
    xs.mapIdx (fun _ x => h x) = xs.map h := by
  apply List.ext_getElem?
  intro i
  rw [List.getElem?_mapIdx, List.getElem?_map]

theorem mapIdx_self {β : Type} (xs : List β) : xs.mapIdx (fun _ x => x) = xs := by
  rw [mapIdx_const, List.map_id']

theorem mem_rewriteEntries {entries : List (κ × Tree κ ι α)} {k : κ} {w : Tree κ ι α} :
    (k, w) ∈ rewriteEntries entry entries ↔ ∃ v, (k, v) ∈ entries ∧ entry k v = some w := by
  rw [rewriteEntries, List.mem_filterMap]
  constructor
  · rintro ⟨⟨k', v⟩, hmem, hsome⟩
    obtain ⟨w', hw, heq⟩ := Option.map_eq_some_iff.mp hsome
    obtain ⟨rfl, rfl⟩ := Prod.mk.inj heq
    exact ⟨v, hmem, hw⟩
  · rintro ⟨v, hmem, hw⟩
    exact ⟨(k, v), hmem, by rw [hw, Option.map_some]⟩

theorem rewriteEntries_some (entries : List (κ × Tree κ ι α)) :
    rewriteEntries (fun _ v => some v) entries = entries := by
  simp [rewriteEntries]

theorem rewriteEntries_rewriteEntries (entries : List (κ × Tree κ ι α)) :
    rewriteEntries entry' (rewriteEntries entry entries) =
      rewriteEntries (fun k v => (entry k v).bind (entry' k)) entries := by
  rw [rewriteEntries, rewriteEntries, rewriteEntries, List.filterMap_filterMap]
  congr 1
  ext e : 1
  cases entry e.1 e.2 <;> rfl

/-- Rewriting the entries of a dict in two ways gives the same exactly if every entry becomes
the same. -/
theorem rewriteEntries_eq_iff [DecidableEq κ] {entries : List (κ × Tree κ ι α)}
    (hkeys : (entries.map Prod.fst).Nodup) :
    rewriteEntries entry entries = rewriteEntries entry' entries ↔
      ∀ e ∈ entries, entry e.1 e.2 = entry' e.1 e.2 := by
  constructor
  · intro h e he
    have hlookup := congrArg (fun entries => entries.lookup e.1) h
    simp only [rewriteEntries, lookup_filterMap _ hkeys, lookup_of_mem hkeys he,
      Option.bind_some] at hlookup
    exact hlookup
  · intro h
    apply List.filterMap_congr
    intro e he
    rw [h e he]

/-- Rewriting what is left of a dict's entries. -/
theorem map_rewriteEntries (g : κ → Tree κ ι α → Tree κ ι α)
    (entries : List (κ × Tree κ ι α)) :
    (rewriteEntries entry entries).map (fun e => (e.1, g e.1 e.2)) =
      rewriteEntries (fun k v => (entry k v).map (g k)) entries := by
  rw [rewriteEntries, rewriteEntries, List.map_filterMap]
  congr 1
  ext1 e
  cases entry e.1 e.2 <;> rfl

/-- Doing nothing is a pass. -/
theorem Rewrites.id : Rewrites (fun v : Tree κ ι α => v) (fun _ v => some v) (fun _ v => v) where
  scalar _ := rfl
  list r items := ⟨r, by rw [mapIdx_self]⟩
  dict r entries := ⟨r, by rw [rewriteEntries_some]⟩

/-- Two passes are one. -/
theorem Rewrites.comp (hf : Rewrites f entry item) (hg : Rewrites g entry' item') :
    Rewrites (fun v => g (f v)) (fun k v => (entry k v).bind (entry' k))
      (fun i v => item' i (item i v)) where
  scalar a := by rw [hf.scalar, hg.scalar]
  list r items := by
    obtain ⟨r₁, h₁⟩ := hf.list r items
    obtain ⟨r₂, h₂⟩ := hg.list r₁ (items.mapIdx item)
    exact ⟨r₂, by rw [h₁, h₂, List.mapIdx_mapIdx]; rfl⟩
  dict r entries := by
    obtain ⟨r₁, h₁⟩ := hf.dict r entries
    obtain ⟨r₂, h₂⟩ := hg.dict r₁ (rewriteEntries entry entries)
    exact ⟨r₂, by rw [h₁, h₂, rewriteEntries_rewriteEntries]⟩

/-- **The rules of a list, one after another, are one pass**, which does to each child what the
rules do to that child. -/
theorem Rewrites.foldl {ρ : Type} {f : ρ → Tree κ ι α → Tree κ ι α}
    {entry : ρ → κ → Tree κ ι α → Option (Tree κ ι α)} {item : ρ → ℕ → Tree κ ι α → Tree κ ι α}
    (h : ∀ rule, Rewrites (f rule) (entry rule) (item rule)) (rules : List ρ) :
    Rewrites (fun v => rules.foldl (fun v rule => f rule v) v)
      (fun k v => rules.foldlM (fun v rule => entry rule k v) v)
      (fun i v => rules.foldl (fun v rule => item rule i v) v) := by
  induction rules with
  | nil => exact .id
  | cons rule rules ih => exact (h rule).comp ih

@[simp] theorem Rewrites.isContainer (h : Rewrites f entry item) (v : Tree κ ι α) :
    (f v).isContainer = v.isContainer := by
  cases v with
  | scalar a => rw [h.scalar]
  | list r items =>
      obtain ⟨r', h'⟩ := h.list r items
      rw [h', isContainer_list, isContainer_list]
  | dict r entries =>
      obtain ⟨r', h'⟩ := h.dict r entries
      rw [h', isContainer_dict, isContainer_dict]

variable [DecidableEq κ]

/-- What becomes of the entry under a key depends on that entry only. -/
theorem Rewrites.child?_key (h : Rewrites f entry item) {v : Tree κ ι α} (hkeys : v.NodupKeys)
    (k : κ) : (f v).child? (.key k) = (v.child? (.key k)).bind (entry k) := by
  cases v with
  | scalar a => rw [h.scalar, child?_scalar, Option.bind_none]
  | list r items =>
      obtain ⟨r', h'⟩ := h.list r items
      rw [h']
      rfl
  | dict r entries =>
      obtain ⟨r', h'⟩ := h.dict r entries
      rw [h']
      exact lookup_filterMap entry hkeys.keys k

/-- What becomes of an item depends on that item only. -/
theorem Rewrites.child?_index (h : Rewrites f entry item) (v : Tree κ ι α) (i : ℕ) :
    (f v).child? (.index i) = (v.child? (.index i)).map (item i) := by
  cases v with
  | scalar a => rw [h.scalar, child?_scalar, Option.map_none]
  | list r items =>
      obtain ⟨r', h'⟩ := h.list r items
      rw [h']
      exact List.getElem?_mapIdx
  | dict r entries =>
      obtain ⟨r', h'⟩ := h.dict r entries
      rw [h']
      rfl

/-- A pass keeps the keys apart if what it makes of the children does. -/
theorem Rewrites.nodupKeys (h : Rewrites f entry item) {v : Tree κ ι α} (hkeys : v.NodupKeys)
    (hentry : ∀ k c d, v.child? (.key k) = some c → entry k c = some d → d.NodupKeys)
    (hitem : ∀ i c, v.child? (.index i) = some c → (item i c).NodupKeys) : (f v).NodupKeys := by
  cases v with
  | scalar a =>
      rw [h.scalar]
      exact .scalar a
  | list r items =>
      obtain ⟨r', h'⟩ := h.list r items
      rw [h']
      apply NodupKeys.list
      intro x hx
      obtain ⟨i, hi, rfl⟩ := List.mem_mapIdx.mp hx
      exact hitem i items[i] (List.getElem?_eq_getElem hi)
  | dict r entries =>
      obtain ⟨r', h'⟩ := h.dict r entries
      rw [h']
      refine .dict (nodup_filterMap entry hkeys.keys) ?_
      intro x hx
      obtain ⟨e, he, hsome⟩ := List.mem_filterMap.mp hx
      obtain ⟨d, hd, rfl⟩ := Option.map_eq_some_iff.mp hsome
      exact hentry e.1 e.2 d (lookup_of_mem hkeys.keys he) hd

end Tree
end Telemetry.Lib
