import Telemetry.Lib.Dict

/-!
# What is gathered under keys

Things come one after the other, each with a key, a kind and some items. A dictionary has a bin
under every key that has come. The first thing under a key decides the kind of the bin; a later one
adds its items, unless it is of another kind: then it is passed over.

## Main definitions

* `Gathering` — what things and bins are asked for.
* `Gathering.kept` — the things that are not passed over.
* `Gathering.Gathers` — the bins hold what has come.
* `Gathering.under`, `Gathering.Bins` — the same, one key at a time.

## Main results

* `Gathers.adds`, `Gathers.passes` — **one more thing comes**.
* `Gathers.mem_keys_iff` — the keys are those of the things.
* `Bins.adds`, `Bins.passes` — one more thing comes, and the bins are looked at one by one.
-/

namespace Telemetry.Lib

/-- The key, the kind and the items of a thing, and the kind and the items of a bin. -/
structure Gathering (α β γ κ τ : Type) where
  key : α → κ
  kind : α → τ
  items : α → List γ
  kindOf : β → τ
  itemsOf : β → List γ

namespace Gathering

variable {α β γ κ τ : Type} [DecidableEq κ] [DecidableEq τ] (G : Gathering α β γ κ τ)

/-- The first thing under a key. -/
def first (all : List α) (k : κ) : Option α := all.find? fun x => G.key x = k

/-- The thing is of the kind that the first one under its key is of. -/
def Fits (all : List α) (x : α) : Prop := (G.first all (G.key x)).map G.kind = some (G.kind x)

instance (all : List α) : DecidablePred (G.Fits all) := fun x =>
  inferInstanceAs (Decidable ((G.first all (G.key x)).map G.kind = some (G.kind x)))

/-- The things that are not passed over. -/
def kept (all : List α) : List α := all.filter fun x => G.Fits all x

/-- The bins hold what has come: each is of the kind of the first thing under its key, and together
they have the items of the things that were kept. -/
structure Gathers (all : List α) (d : Dict κ β) : Prop where
  kind : ∀ k, (d.get? k).map G.kindOf = (G.first all k).map G.kind
  items : (d.values.flatMap G.itemsOf).Perm ((G.kept all).flatMap G.items)

variable {G} {all : List α} {d : Dict κ β} {x : α} {b : β}

omit [DecidableEq τ] in
theorem first_append_singleton (k : κ) :
    G.first (all ++ [x]) k = (G.first all k).or (if G.key x = k then some x else none) := by
  rw [first, List.find?_append, List.find?_singleton]
  simp only [decide_eq_true_eq]
  rfl

omit [DecidableEq τ] in
/-- A thing that has come is under its key. -/
theorem isSome_first (h : x ∈ all) : (G.first all (G.key x)).isSome = true := by
  rw [first, List.find?_isSome]
  exact ⟨x, h, by simp⟩

omit [DecidableEq τ] in
theorem isSome_first_iff {k : κ} : (G.first all k).isSome = true ↔ k ∈ all.map G.key := by
  simp [first, List.find?_isSome]

/-- Nothing that was kept is passed over later. -/
theorem kept_append_singleton :
    G.kept (all ++ [x]) = G.kept all ++ if G.Fits (all ++ [x]) x then [x] else [] := by
  have hbefore : ∀ y ∈ all, decide (G.Fits (all ++ [x]) y) = decide (G.Fits all y) := by
    intro y hy
    obtain ⟨z, hz⟩ := Option.isSome_iff_exists.mp (isSome_first (G := G) hy)
    rw [decide_eq_decide, Fits, Fits, first_append_singleton, hz, Option.some_or]
  rw [kept, List.filter_append, List.filter_congr hbefore, List.filter_singleton, kept,
    Bool.cond_decide]

/-! ## Steps -/

theorem gathers_empty : G.Gathers [] (.empty : Dict κ β) where
  kind := fun _ => rfl
  items := .nil

omit [DecidableEq τ] in
/-- A thing is kept if the bin under its key is of its kind, or if there is none. -/
theorem fits_iff_of_kind {get : κ → Option β}
    (hkind : ∀ k, (get k).map G.kindOf = (G.first all k).map G.kind) :
    G.Fits (all ++ [x]) x ↔ ∀ b ∈ get (G.key x), G.kindOf b = G.kind x := by
  have hkind := hkind (G.key x)
  rw [Fits, first_append_singleton, if_pos rfl]
  cases hfirst : G.first all (G.key x) with
  | none =>
      rw [hfirst, Option.map_none, Option.map_eq_none_iff] at hkind
      simp [hkind]
  | some y =>
      rw [hfirst] at hkind
      obtain ⟨c, hc, hcy⟩ := Option.map_eq_some_iff.mp hkind
      simp [hc, hcy]

omit [DecidableEq τ] in
/-- The kinds of the bins after a thing that was kept. -/
theorem map_kind_adds {get get' : κ → Option β}
    (hkind : ∀ k, (get k).map G.kindOf = (G.first all k).map G.kind)
    (hfits : ∀ c ∈ get (G.key x), G.kindOf c = G.kind x) (hb : G.kindOf b = G.kind x)
    (hself : get' (G.key x) = some b) (hother : ∀ k, k ≠ G.key x → get' k = get k) (k : κ) :
    (get' k).map G.kindOf = (G.first (all ++ [x]) k).map G.kind := by
  rw [first_append_singleton]
  by_cases hk : k = G.key x
  · subst hk
    rw [if_pos rfl, hself, Option.map_some, hb]
    have hfirst := (fits_iff_of_kind hkind).mpr hfits
    rw [Fits, first_append_singleton, if_pos rfl] at hfirst
    exact hfirst.symm
  · rw [if_neg (Ne.symm hk), Option.or_none, hother k hk, hkind k]

omit [DecidableEq τ] in
/-- The kinds of the bins after a thing under a key that has a bin. -/
theorem map_kind_passes {get : κ → Option β}
    (hkind : ∀ k, (get k).map G.kindOf = (G.first all k).map G.kind)
    (hb : get (G.key x) = some b) (k : κ) :
    (get k).map G.kindOf = (G.first (all ++ [x]) k).map G.kind := by
  rw [hkind, first_append_singleton]
  split
  · next hk =>
      subst hk
      have hsome := congrArg Option.isSome (hkind (G.key x))
      rw [hb, Option.map_some, Option.isSome_some, Option.isSome_map] at hsome
      obtain ⟨y, hy⟩ := Option.isSome_iff_exists.mp hsome.symm
      rw [hy, Option.some_or]
  · rw [Option.or_none]

/-- **A thing adds its items** to those under its key, if it is of their kind. -/
theorem Gathers.adds (h : G.Gathers all d) (hfits : ∀ c ∈ d.get? (G.key x), G.kindOf c = G.kind x)
    (hkind : G.kindOf b = G.kind x)
    (hitems : G.itemsOf b = (d.get? (G.key x)).elim [] G.itemsOf ++ G.items x) :
    G.Gathers (all ++ [x]) (d.set (G.key x) b) where
  kind := map_kind_adds h.kind hfits hkind (by simp) fun k hk => by simp [hk]
  items := by
    rw [kept_append_singleton, if_pos ((fits_iff_of_kind h.kind).mpr hfits), List.flatMap_append,
      List.flatMap_singleton]
    exact (Dict.flatMap_values_set_perm hitems).trans (h.items.append_right _)

/-- **A thing of another kind is passed over.** -/
theorem Gathers.passes (h : G.Gathers all d) (hb : d.get? (G.key x) = some b)
    (hkind : G.kindOf b ≠ G.kind x) : G.Gathers (all ++ [x]) d where
  kind := map_kind_passes h.kind hb
  items := by
    have hfits : ¬ G.Fits (all ++ [x]) x := fun hx =>
      hkind ((fits_iff_of_kind h.kind).mp hx b hb)
    rw [kept_append_singleton, if_neg hfits, List.append_nil]
    exact h.items

/-- The keys are those of the things. -/
theorem Gathers.mem_keys_iff (h : G.Gathers all d) {k : κ} : k ∈ d.keys ↔ k ∈ all.map G.key := by
  have hsome := congrArg Option.isSome (h.kind k)
  rw [Option.isSome_map, Option.isSome_map] at hsome
  rw [← Dict.isSome_get?_iff, hsome, isSome_first_iff]

/-- What every round of a loop adds to what has come, the loop adds. -/
theorem foldl_gathers {σ ρ : Type} {P : List α → σ → Prop} {f : σ → ρ → σ} {g : ρ → List α}
    (hstep : ∀ done s r, P done s → P (done ++ g r) (f s r)) {done : List α} {s : σ}
    (h : P done s) (rs : List ρ) : P (done ++ rs.flatMap g) (rs.foldl f s) := by
  induction rs generalizing done s with
  | nil => simpa using h
  | cons r rs ih =>
      rw [List.flatMap_cons, ← List.append_assoc]
      exact ih (hstep done s r h)

/-! ## One bin at a time -/

section

variable (G)

/-- The things under a key that are not passed over, in the order in which they came. -/
def under (all : List α) (k : κ) : List α := (G.kept all).filter fun x => G.key x = k

/-- Every bin holds what has come under its key: it is of the kind of the first of these things, and
has the items of those that were kept. -/
structure Bins (all : List α) (get : κ → Option β) : Prop where
  kind : ∀ k, (get k).map G.kindOf = (G.first all k).map G.kind
  items : ∀ k b, get k = some b → G.itemsOf b = (G.under all k).flatMap G.items

end

variable {get : κ → Option β}

/-- A thing that is passed over changes what is under no key. -/
theorem under_append_of_not_fits (hx : ¬ G.Fits (all ++ [x]) x) (k : κ) :
    G.under (all ++ [x]) k = G.under all k := by
  rw [under, kept_append_singleton, if_neg hx, List.append_nil, under]

/-- A thing that is kept comes last under its key. -/
theorem under_append_of_fits (hx : G.Fits (all ++ [x]) x) (k : κ) :
    G.under (all ++ [x]) k = G.under all k ++ if G.key x = k then [x] else [] := by
  rw [under, kept_append_singleton, if_pos hx, List.filter_append, List.filter_singleton,
    Bool.cond_decide, under]

theorem bins_empty : G.Bins [] (fun _ : κ => (none : Option β)) where
  kind := fun _ => rfl
  items := by
    rintro k b ⟨⟩

/-- A key has a bin if something has come under it. -/
theorem Bins.isSome_iff (h : G.Bins all get) {k : κ} :
    (get k).isSome = true ↔ k ∈ all.map G.key := by
  have hsome := congrArg Option.isSome (h.kind k)
  rw [Option.isSome_map, Option.isSome_map] at hsome
  rw [hsome, isSome_first_iff]

/-- Nothing is under a key without a bin. -/
theorem Bins.under_eq_nil (h : G.Bins all get) {k : κ} (hk : get k = none) :
    G.under all k = [] := by
  rw [under, List.filter_eq_nil_iff]
  intro y hy hkey
  have hmem : k ∈ all.map G.key :=
    List.mem_map.mpr ⟨y, List.mem_of_mem_filter hy, of_decide_eq_true hkey⟩
  rw [← h.isSome_iff, hk] at hmem
  cases hmem

/-- **A thing adds its items** to the bin under its key, if that is of its kind. -/
theorem Bins.adds {get' : κ → Option β} (h : G.Bins all get)
    (hfits : ∀ c ∈ get (G.key x), G.kindOf c = G.kind x) (hkind : G.kindOf b = G.kind x)
    (hitems : G.itemsOf b = (get (G.key x)).elim [] G.itemsOf ++ G.items x)
    (hself : get' (G.key x) = some b) (hother : ∀ k, k ≠ G.key x → get' k = get k) :
    G.Bins (all ++ [x]) get' where
  kind := map_kind_adds h.kind hfits hkind hself hother
  items := by
    intro k c hc
    rw [under_append_of_fits ((fits_iff_of_kind h.kind).mpr hfits), List.flatMap_append]
    by_cases hk : k = G.key x
    · subst hk
      rw [hself] at hc
      obtain rfl := Option.some.inj hc
      rw [if_pos rfl, List.flatMap_singleton, hitems]
      congr 1
      cases hget : get (G.key x) with
      | none => rw [h.under_eq_nil hget, Option.elim_none, List.flatMap_nil]
      | some b' => rw [Option.elim_some, h.items _ b' hget]
    · rw [if_neg (Ne.symm hk), List.flatMap_nil, List.append_nil]
      exact h.items k c (hother k hk ▸ hc)

/-- **A thing of another kind leaves every bin.** -/
theorem Bins.passes (h : G.Bins all get) (hb : get (G.key x) = some b)
    (hkind : G.kindOf b ≠ G.kind x) : G.Bins (all ++ [x]) get where
  kind := map_kind_passes h.kind hb
  items := by
    intro k c hc
    have hfits : ¬ G.Fits (all ++ [x]) x := fun hx =>
      hkind ((fits_iff_of_kind h.kind).mp hx b hb)
    rw [under_append_of_not_fits hfits]
    exact h.items k c hc

end Gathering

end Telemetry.Lib
