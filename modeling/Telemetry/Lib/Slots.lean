import Telemetry.Lib.Tree
import Mathlib.Data.List.Nodup

/-!
# Maps in the order of insertion

A map whose keys stay in the order in which they came: a new key goes to the end, and a key that
is there keeps its place. When such a map is rebuilt under new names, several entries may claim
one slot; an entry that came under its own name holds its slot for good, and among the others the
first to come holds it.

A loop that carries a state through a list is here too, since the values of such a map are often
made by one.

## Main definitions

* `assign` — set a key.
* `Slots.claim` — one entry claims the slot of its new name.
-/

namespace Telemetry.Lib

variable {κ β : Type} [DecidableEq κ]

/-- Set a key: in its place if it is there, else at the end. -/
def assign (name : κ) (value : β) : List (κ × β) → List (κ × β)
  | [] => [(name, value)]
  | e :: entries => if e.1 = name then (name, value) :: entries else e :: assign name value entries

attribute [local simp] assign

variable {name k : κ} {value v : β} {entries : List (κ × β)}

theorem keys_assign : (assign name value entries).map Prod.fst =
    if name ∈ entries.map Prod.fst then entries.map Prod.fst
    else entries.map Prod.fst ++ [name] := by
  induction entries with
  | nil => rfl
  | cons e entries ih =>
      rw [assign]
      by_cases he : e.1 = name
      · simp [he]
      · rw [if_neg he, List.map_cons, ih]
        by_cases hmem : name ∈ entries.map Prod.fst
        · rw [if_pos hmem, if_pos (by simp [hmem]), List.map_cons]
        · rw [if_neg hmem, if_neg (by simp [Ne.symm he, hmem]), List.map_cons, List.cons_append]

theorem nodup_assign (h : (entries.map Prod.fst).Nodup) :
    ((assign name value entries).map Prod.fst).Nodup := by
  rw [keys_assign]
  split
  · exact h
  · rename_i hnew
    exact List.nodup_append.mpr ⟨h, List.nodup_singleton name, fun a ha b hb => by
      rintro rfl
      rw [List.mem_singleton] at hb
      exact hnew (hb ▸ ha)⟩

theorem lookup_assign (name : κ) (value : β) (entries : List (κ × β)) (k : κ) :
    (assign name value entries).lookup k = if k = name then some value else entries.lookup k := by
  induction entries with
  | nil => simp [lookup_cons_eq]
  | cons e entries ih =>
      rw [assign]
      by_cases he : e.1 = name
      · rw [if_pos he, lookup_cons_eq, lookup_cons_eq, he]
        by_cases hk : k = name <;> simp [hk]
      · rw [if_neg he, lookup_cons_eq, lookup_cons_eq, ih]
        by_cases hk : k = e.1
        · subst hk
          simp [he]
        · simp [hk]

theorem isSome_lookup_iff : (entries.lookup k).isSome = true ↔ k ∈ entries.map Prod.fst := by
  rw [List.lookup_isSome_iff]
  simp

/-- Changing the values before or after a key is set. -/
theorem assign_map {γ : Type} (g : β → γ) (name : κ) (value : β) (entries : List (κ × β)) :
    assign name (g value) (entries.map fun e => (e.1, g e.2)) =
      (assign name value entries).map fun e => (e.1, g e.2) := by
  induction entries with
  | nil => rfl
  | cons e entries ih =>
      rw [assign, List.map_cons, assign]
      split
      · rfl
      · rw [List.map_cons, ih]

theorem length_assign_le : (assign name value entries).length ≤ entries.length + 1 := by
  have hkeys := congrArg List.length (keys_assign : (assign name value entries).map Prod.fst = _)
  rw [List.length_map] at hkeys
  rw [hkeys]
  split <;> simp

theorem eq_or_mem_of_mem_assign {e : κ × β} (h : e ∈ assign name value entries) :
    e = (name, value) ∨ e ∈ entries := by
  induction entries with
  | nil => exact .inl (List.mem_singleton.mp h)
  | cons d entries ih =>
      rw [assign] at h
      split at h
      · rcases List.mem_cons.mp h with rfl | h
        · exact .inl rfl
        · exact .inr (List.mem_cons_of_mem d h)
      · rcases List.mem_cons.mp h with rfl | h
        · exact .inr List.mem_cons_self
        · exact (ih h).imp id (List.mem_cons_of_mem d)

/-- Nothing else changes. -/
theorem mem_assign_of_ne {e : κ × β} (h : e.1 ≠ name) :
    e ∈ assign name value entries ↔ e ∈ entries := by
  induction entries with
  | nil =>
      rw [assign, List.mem_singleton]
      constructor
      · rintro rfl
        exact absurd rfl h
      · nofun
  | cons d entries ih =>
      rw [assign]
      split
      · rename_i hd
        rw [List.mem_cons, List.mem_cons]
        constructor
        · rintro (rfl | hmem)
          · exact absurd rfl h
          · exact .inr hmem
        · rintro (rfl | hmem)
          · exact absurd hd h
          · exact .inr hmem
      · rw [List.mem_cons, List.mem_cons, ih]

theorem filter_assign :
    (assign name value entries).filter (fun e => e.1 ≠ name) =
      entries.filter fun e => e.1 ≠ name := by
  induction entries with
  | nil => simp
  | cons d entries ih =>
      rw [assign]
      split
      · rename_i hd
        rw [List.filter_cons_of_neg (by simp), List.filter_cons_of_neg (by simpa using hd)]
      · rename_i hd
        rw [List.filter_cons_of_pos (by simpa using hd),
          List.filter_cons_of_pos (by simpa using hd),
          ih]

/-! ## Claims -/

/-- A map being rebuilt, with the slots that are held under their own names. -/
structure Slots (κ β : Type) where
  out : List (κ × β) := []
  verbatim : List κ := []

/-- What an entry claims: the slot of its name, and whether the name is its own. -/
structure Claim (κ β : Type) where
  name : κ
  untouched : Bool
  value : β

/-- One entry claims its slot: a free one, or one that is held under another key than its name if
the entry came under its own. -/
def Slots.claim (state : Slots κ β) (c : Claim κ β) : Slots κ β :=
  if c.name ∈ state.out.map Prod.fst ∧ ¬ (c.untouched = true ∧ c.name ∉ state.verbatim) then state
  else
    { out := assign c.name c.value state.out
      verbatim := if c.untouched then c.name :: state.verbatim else state.verbatim }

/-- The map that is rebuilt from the claims in order. -/
def claimed (claims : List (Claim κ β)) : List (κ × β) := (claims.foldl Slots.claim {}).out

variable {state : Slots κ β} {claims : List (Claim κ β)}

/-- What holds of the names and values that are claimed holds of those in the map. -/
theorem forall_mem_foldl_claim {P : κ × β → Prop} (hstate : ∀ e ∈ state.out, P e)
    (hclaims : ∀ c ∈ claims, P (c.name, c.value)) :
    ∀ e ∈ (claims.foldl Slots.claim state).out, P e := by
  induction claims generalizing state with
  | nil => exact hstate
  | cons c claims ih =>
      rw [List.forall_mem_cons] at hclaims
      apply ih _ hclaims.2
      rw [Slots.claim]
      split
      · exact hstate
      · intro e he
        rcases eq_or_mem_of_mem_assign he with rfl | he
        · exact hclaims.1
        · exact hstate e he

theorem forall_mem_claimed {P : κ × β → Prop} (h : ∀ c ∈ claims, P (c.name, c.value)) :
    ∀ e ∈ claimed claims, P e :=
  forall_mem_foldl_claim (by simp) h

theorem nodup_foldl_claim (h : (state.out.map Prod.fst).Nodup) :
    ((claims.foldl Slots.claim state).out.map Prod.fst).Nodup := by
  induction claims generalizing state with
  | nil => exact h
  | cons c claims ih =>
      apply ih
      rw [Slots.claim]
      split
      · exact h
      · exact nodup_assign h

theorem nodup_claimed (claims : List (Claim κ β)) : ((claimed claims).map Prod.fst).Nodup :=
  nodup_foldl_claim List.nodup_nil

theorem length_foldl_claim_le :
    (claims.foldl Slots.claim state).out.length ≤ state.out.length + claims.length := by
  induction claims generalizing state with
  | nil => exact Nat.le_add_right _ _
  | cons c claims ih =>
      have hround : (state.claim c).out.length ≤ state.out.length + 1 := by
        rw [Slots.claim]
        split
        · exact Nat.le_add_right _ 1
        · exact length_assign_le
      have hrest := @ih (state.claim c)
      rw [List.foldl_cons, List.length_cons]
      omega

/-- **No entry is added.** -/
theorem length_claimed_le (claims : List (Claim κ β)) :
    (claimed claims).length ≤ claims.length := by
  have hlength : (claims.foldl Slots.claim {}).out.length ≤ [].length + claims.length :=
    length_foldl_claim_le
  rwa [List.length_nil, Nat.zero_add] at hlength

/-- A slot that is held under its own name stays as it is. -/
theorem lookup_foldl_claim_of_verbatim (hk : k ∈ state.verbatim)
    (hheld : k ∈ state.out.map Prod.fst) :
    (claims.foldl Slots.claim state).out.lookup k = state.out.lookup k := by
  induction claims generalizing state with
  | nil => rfl
  | cons c claims ih =>
      have hround : k ∈ (state.claim c).verbatim ∧ k ∈ (state.claim c).out.map Prod.fst ∧
          (state.claim c).out.lookup k = state.out.lookup k := by
        rw [Slots.claim]
        split
        · exact ⟨hk, hheld, rfl⟩
        · rename_i hclaim
          have hne : k ≠ c.name := by
            rintro rfl
            exact hclaim ⟨hheld, fun hfree => hfree.2 hk⟩
          refine ⟨?_, ?_, ?_⟩
          · simp only
            split
            · exact List.mem_cons_of_mem _ hk
            · exact hk
          · rw [keys_assign]
            split
            · exact hheld
            · exact List.mem_append_left _ hheld
          · rw [lookup_assign, if_neg hne]
      rw [List.foldl_cons, ih hround.1 hround.2.1, hround.2.2]

/-- **An entry that comes under its own name holds its slot**, if it is the only one that does. -/
theorem lookup_foldl_claim_of_untouched {c : Claim κ β} (hc : c ∈ claims)
    (hown : c.untouched = true) (hfree : c.name ∉ state.verbatim)
    (honly : ∀ d ∈ claims, d.untouched = true → d.name = c.name → d.value = c.value) :
    (claims.foldl Slots.claim state).out.lookup c.name = some c.value := by
  induction claims generalizing state with
  | nil => cases hc
  | cons d claims ih =>
      rw [List.forall_mem_cons] at honly
      rw [List.foldl_cons]
      by_cases hd : d.untouched = true ∧ d.name = c.name
      · -- the slot is taken here, for good
        have hround : state.claim d =
            { out := assign c.name c.value state.out, verbatim := c.name :: state.verbatim } := by
          rw [Slots.claim, hd.2, honly.1 hd.1 hd.2, if_neg fun h => h.2 ⟨hd.1, hfree⟩, if_pos hd.1]
        rw [hround, lookup_foldl_claim_of_verbatim List.mem_cons_self, lookup_assign, if_pos rfl]
        rw [keys_assign]
        split
        · assumption
        · simp
      · have hc' : c ∈ claims := (List.mem_cons.mp hc).resolve_left fun heq =>
          hd ⟨heq ▸ hown, heq ▸ rfl⟩
        apply ih hc' _ honly.2
        rw [Slots.claim]
        split
        · exact hfree
        · simp only
          split
          · rename_i huntouched
            rw [List.mem_cons, not_or]
            exact ⟨fun heq => hd ⟨huntouched, heq.symm⟩, hfree⟩
          · exact hfree

theorem lookup_claimed_of_untouched {c : Claim κ β} (hc : c ∈ claims) (hown : c.untouched = true)
    (honly : ∀ d ∈ claims, d.untouched = true → d.name = c.name → d.value = c.value) :
    (claimed claims).lookup c.name = some c.value :=
  lookup_foldl_claim_of_untouched hc hown List.not_mem_nil honly

/-! ## Who holds a slot -/

/-- A rebuilding under new names of the keys that are kept: a slot is held by a key with its name,
every key's slot is held, and a key that is its own new name holds its slot. Some names have no
slot at all. -/
structure Holds (rename : κ → κ) (visible : κ → Prop) (kept : List κ) (holder : κ → Option κ) :
    Prop where
  named : ∀ k d, holder k = some d → d ∈ kept ∧ rename d = k ∧ visible k
  held : ∀ d ∈ kept, visible (rename d) → (holder (rename d)).isSome = true
  own : ∀ k ∈ kept, rename k = k → visible k → holder k = some k

/-- **A key that is its own new name keeps its slot from all others**, unless it is not kept while
a key that is renamed to it is. -/
theorem Holds.own_iff {rename : κ → κ} {visible : κ → Prop} {kept : List κ}
    {holder : κ → Option κ} (h : Holds rename visible kept holder) (hk : rename k = k) :
    (∀ d, holder k = some d → d = k) ↔ ¬ (visible k ∧ k ∉ kept ∧ ∃ d ∈ kept, rename d = k) := by
  constructor
  · rintro hown ⟨hvisible, hcut, d, hd, rfl⟩
    rcases Option.isSome_iff_exists.mp (h.held d hd hvisible) with ⟨d', hd'⟩
    have heq := hown d' hd'
    subst heq
    exact hcut (h.named _ _ hd').1
  · intro hnot d hd
    rcases h.named k d hd with ⟨hmem, hname, hvisible⟩
    by_cases hkept : k ∈ kept
    · rw [h.own k hkept hk hvisible, Option.some.injEq] at hd
      exact hd.symm
    · exact absurd ⟨hvisible, hkept, d, hmem, hname⟩ hnot

/-! ## A state through a list -/

variable {α σ : Type}

/-- What is done with a value, done with that of an entry. -/
def onValue {κ : Type} (f : α → StateM σ β) (e : κ × α) : StateM σ (κ × β) := do
  let value ← f e.2
  pure (e.1, value)

theorem run_onValue {κ : Type} (f : α → StateM σ β) (e : κ × α) (s : σ) :
    (onValue f e).run s = ((e.1, ((f e.2).run s).1), ((f e.2).run s).2) := rfl

theorem run_mapM_cons (f : α → StateM σ β) (x : α) (xs : List α) (s : σ) :
    ((x :: xs).mapM f).run s =
      (((f x).run s).1 :: ((xs.mapM f).run ((f x).run s).2).1,
        ((xs.mapM f).run ((f x).run s).2).2) := by
  rw [List.mapM_cons]
  rfl

theorem run_mapM_append (f : α → StateM σ β) (xs ys : List α) (s : σ) :
    ((xs ++ ys).mapM f).run s =
      (((xs.mapM f).run s).1 ++ ((ys.mapM f).run ((xs.mapM f).run s).2).1,
        ((ys.mapM f).run ((xs.mapM f).run s).2).2) := by
  rw [List.mapM_append]
  rfl

/-- Every result is made from an element, in some state. -/
theorem exists_of_mem_run_mapM {f : α → StateM σ β} {xs : List α} {s : σ} {b : β}
    (h : b ∈ ((xs.mapM f).run s).1) : ∃ x ∈ xs, ∃ s', b = ((f x).run s').1 := by
  induction xs generalizing s with
  | nil => exact absurd h List.not_mem_nil
  | cons x xs ih =>
      rw [run_mapM_cons] at h
      rcases List.mem_cons.mp h with rfl | h
      · exact ⟨x, List.mem_cons_self, s, rfl⟩
      · rcases ih h with ⟨x', hx', hb⟩
        exact ⟨x', List.mem_cons_of_mem x hx', hb⟩

/-- The keys stay. -/
theorem keys_run_mapM_onValue {κ : Type} (f : α → StateM σ β) (entries : List (κ × α)) (s : σ) :
    ((entries.mapM (onValue f)).run s).1.map Prod.fst = entries.map Prod.fst := by
  induction entries generalizing s with
  | nil => rfl
  | cons e entries ih => rw [run_mapM_cons, run_onValue, List.map_cons, List.map_cons, ih]

theorem lookup_append_of_not_mem {κ : Type} [DecidableEq κ] {before after : List (κ × β)} {k : κ}
    (h : k ∉ before.map Prod.fst) : (before ++ after).lookup k = after.lookup k := by
  induction before with
  | nil => rfl
  | cons e before ih =>
      rw [List.map_cons, List.mem_cons, not_or] at h
      rw [List.cons_append, lookup_cons_eq, if_neg h.1, ih h.2]

/-- What a key holds is made in the state that the entries before it leave. -/
theorem lookup_run_mapM_onValue {κ : Type} [DecidableEq κ] {f : α → StateM σ β}
    {before after : List (κ × α)} {k : κ} {x : α} (h : k ∉ before.map Prod.fst) (s : σ) :
    (((before ++ (k, x) :: after).mapM (onValue f)).run s).1.lookup k =
      some ((f x).run ((before.mapM (onValue f)).run s).2).1 := by
  rw [run_mapM_append, lookup_append_of_not_mem (by rwa [keys_run_mapM_onValue]), run_mapM_cons,
    run_onValue, lookup_cons_eq, if_pos rfl]

/-- Two functions that change the state alike. -/
theorem run_mapM_congr_state {γ : Type} {f : α → StateM σ β} {g : α → StateM σ γ}
    (hstate : ∀ x s, ((g x).run s).2 = ((f x).run s).2) (xs : List α) (s : σ) :
    ((xs.mapM g).run s).2 = ((xs.mapM f).run s).2 := by
  induction xs generalizing s with
  | nil => rfl
  | cons x xs ih => rw [run_mapM_cons, run_mapM_cons, hstate, ih]

/-- What the results of one say of the results of the other, in every state. -/
theorem forall_mem_run_mapM_iff {γ : Type} {f : α → StateM σ β} {g : α → StateM σ γ}
    {P : β → Prop} {Q : γ → Prop} (xs : List α)
    (hstate : ∀ x s, ((g x).run s).2 = ((f x).run s).2)
    (h : ∀ x ∈ xs, ∀ s, P ((f x).run s).1 ↔ Q ((g x).run s).1) (s : σ) :
    (∀ b ∈ ((xs.mapM f).run s).1, P b) ↔ ∀ c ∈ ((xs.mapM g).run s).1, Q c := by
  induction xs generalizing s with
  | nil =>
      exact ⟨fun _ _ hc => absurd hc List.not_mem_nil, fun _ _ hb => absurd hb List.not_mem_nil⟩
  | cons x xs ih =>
      rw [List.forall_mem_cons] at h
      rw [run_mapM_cons, run_mapM_cons, List.forall_mem_cons, List.forall_mem_cons, h.1, ih h.2,
        hstate]

end Telemetry.Lib
