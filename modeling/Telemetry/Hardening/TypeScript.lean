import Telemetry.Lib.Slots

/-!
# The hardening stage of the TypeScript SDK

`harden` of `harden.ts`: strings lose control characters and are cut, arrays and plain objects are
rebuilt down to a depth, each of them once, objects under cleaned keys and up to a number of keys.
Everything else that is no JSON collapses.

The values live on a heap. A string is a list of UTF-16 units, and an object lists its own keys in
the order of `Object.keys`.

## Main definitions

* `Heap`, `Value` — the values of a caller.
* `hardenObject` — the loop over the keys of an object, on the hardenings of the values.
* `harden` — the stage.
-/

namespace Telemetry.Hardening.TypeScript

open Telemetry.Lib

/-- A string. -/
abbrev JsString := List UInt16

-- strings are compared by the instance that the lemmas on lookups have
local instance (priority := 2000) : BEq JsString := instBEqOfDecidableEq

/-- A text of ASCII characters. -/
def js (text : String) : JsString := text.toList.map fun c => UInt16.ofNat c.toNat

/-- A value: a string, a value that is kept as it is (a number, a boolean, `null` or `undefined`),
any other primitive or function, or an object. -/
inductive Value
  | string (text : JsString)
  | kept (tag : ℕ)
  | other
  | ref (id : ℕ)

/-- An object: an array, a plain object, or one with another prototype. -/
inductive Obj
  | array (items : List Value)
  | plain (entries : List (JsString × Value))
  | exotic

/-- The objects by their identity. No object has a key twice. -/
structure Heap where
  get : ℕ → Obj
  nodup : ∀ id entries, get id = .plain entries → (entries.map Prod.fst).Nodup

/-- A hardened value. -/
abbrev Cleaned := Tree JsString Unit Value

/-- `HardenOptions`. -/
structure HardenOptions where
  maxValueLength : ℕ
  maxAttrCount : ℕ
  maxDepth : ℕ

/-- `REDACTED`. -/
def redacted : Cleaned := .scalar (.string (js "***"))

/-! ## Keys -/

/-- `_KEY_CONTROL_CHARS`. -/
def isKeyControl (u : UInt16) : Bool := u ≤ 0x1f || u == 0x7f

/-- `key.replace(_KEY_CONTROL_CHARS, '')`. -/
def cleanKey (key : JsString) : JsString := key.filter fun u => !isKeyControl u

/-- `result[name] = value` on an object literal. Under `__proto__` it sets the prototype, if
anything, and adds no key. -/
def setProperty {β : Type} (name : JsString) (value : β) (result : List (JsString × β)) :
    List (JsString × β) :=
  if name = js "__proto__" then result else assign name value result

section Loop

variable {σ β : Type}

/-- One round of the loop over the keys that are kept. -/
def hardenEntry (result : List (JsString × β)) (e : JsString × StateM σ β) :
    StateM σ (List (JsString × β)) :=
  let name := cleanKey e.1
  if name ∈ result.map Prod.fst ∧ name ≠ e.1 then pure result
  else do
    let value ← e.2
    pure (setProperty name value result)

/-- The keys that the cap keeps, which are the first ones. -/
def keptEntries {γ : Type} (maxAttrCount : ℕ) (entries : List (JsString × γ)) :
    List (JsString × γ) :=
  if 0 < maxAttrCount then entries.take maxAttrCount else entries

/-- The loop over the keys of an object, on the hardenings of the values. -/
def hardenObject (maxAttrCount : ℕ) (entries : List (JsString × StateM σ β)) :
    StateM σ (List (JsString × β)) :=
  (keptEntries maxAttrCount entries).foldlM hardenEntry []

end Loop

/-! ## Values -/

/-- `_CONTROL_CHARS`. -/
def isControl (u : UInt16) : Bool :=
  u ≤ 0x08 || u == 0x0b || u == 0x0c || (0x0e ≤ u && u ≤ 0x1f) || u == 0x7f

/-- `_hardenScalar`. -/
def hardenScalar (maxValueLength : ℕ) : Value → Cleaned
  | .string text =>
      let cleaned := text.filter fun u => !isControl u
      .scalar (.string
        (if maxValueLength < cleaned.length then cleaned.take maxValueLength ++ js "..."
          else cleaned))
  | .kept tag => .scalar (.kept tag)
  | .other | .ref _ => redacted

variable (heap : Heap) (options : HardenOptions)

/-- `_harden`. The room is what the ceiling leaves below the depth, and the state holds the
composites that were traversed. -/
def hardenAt : ℕ → Value → StateM (List ℕ) Cleaned
  | 0, .ref _ => pure redacted
  | room + 1, .ref id => do
      let seen ← get
      if id ∈ seen then pure redacted
      else
        set (id :: seen)
        match heap.get id with
        | .array items => do
            let hardened ← items.mapM (hardenAt room)
            pure (.list () hardened)
        | .exotic => pure redacted
        | .plain entries => do
            let hardened ← hardenObject options.maxAttrCount
              (entries.map fun e => (e.1, hardenAt room e.2))
            pure (.dict () hardened)
  | _, value => pure (hardenScalar options.maxValueLength value)

/-- `harden`. -/
def harden (value : Value) : Cleaned := ((hardenAt heap options options.maxDepth value).run []).1

/-! ## The loop -/

section Loop

variable {σ β : Type} {result : List (JsString × β)} {k : JsString}

theorem lookup_setProperty (name : JsString) (value : β) (result : List (JsString × β))
    (k : JsString) : (setProperty name value result).lookup k =
      if k = name ∧ name ≠ js "__proto__" then some value else result.lookup k := by
  rw [setProperty]
  split
  · rename_i hproto
    rw [if_neg fun h => h.2 hproto]
  · rename_i hproto
    rw [lookup_assign]
    simp [hproto]

/-- One round sets the slot of the key's name, or leaves it to its holder. -/
theorem lookup_hardenEntry (e : JsString × StateM σ β) (s : σ) :
    ((hardenEntry result e).run s).1.lookup k =
      if k = cleanKey e.1 ∧ k ≠ js "__proto__" ∧ ((result.lookup k).isSome = false ∨ k = e.1) then
        some (e.2.run s).1
      else result.lookup k := by
  have hheld : cleanKey e.1 ∈ result.map Prod.fst ↔
      (result.lookup (cleanKey e.1)).isSome = true := (isSome_lookup_iff).symm
  simp only [hardenEntry]
  split
  · rename_i hskip
    rw [if_neg]
    · rfl
    · rintro ⟨rfl, -, hfree | hown⟩
      · rw [hheld.mp hskip.1] at hfree
        cases hfree
      · exact hskip.2 hown
  · rename_i hclaim
    change (setProperty (cleanKey e.1) (e.2.run s).1 result).lookup k = _
    rw [lookup_setProperty]
    by_cases hk : k = cleanKey e.1
    · subst hk
      by_cases hproto : cleanKey e.1 = js "__proto__"
      · simp [hproto]
      · have hfree : (result.lookup (cleanKey e.1)).isSome = false ∨ cleanKey e.1 = e.1 := by
          by_cases hmem : cleanKey e.1 ∈ result.map Prod.fst
          · exact .inr (not_not.mp fun hne => hclaim ⟨hmem, hne⟩)
          · rw [hheld, Bool.not_eq_true] at hmem
            exact .inl hmem
        rw [if_pos ⟨rfl, hproto⟩, if_pos ⟨rfl, hproto, hfree⟩]
    · rw [if_neg fun h => hk h.1, if_neg fun h => hk h.1]

theorem run_foldlM_hardenEntry_cons (e : JsString × StateM σ β)
    (es : List (JsString × StateM σ β)) (s : σ) :
    ((e :: es).foldlM hardenEntry result).run s =
      (es.foldlM hardenEntry ((hardenEntry result e).run s).1).run
        ((hardenEntry result e).run s).2 := rfl

variable {es : List (JsString × StateM σ β)} {s : σ}

theorem lookup_foldlM_of_isSome (h : (result.lookup k).isSome = true) (hes : k ∉ es.map Prod.fst) :
    ((es.foldlM hardenEntry result).run s).1.lookup k = result.lookup k := by
  induction es generalizing result s with
  | nil => rfl
  | cons e es ih =>
      rw [List.map_cons, List.mem_cons, not_or] at hes
      have hround : ((hardenEntry result e).run s).1.lookup k = result.lookup k := by
        rw [lookup_hardenEntry, if_neg]
        rintro ⟨-, -, hfree | hown⟩
        · rw [h] at hfree
          cases hfree
        · exact hes.1 hown
      rw [run_foldlM_hardenEntry_cons, ih (by rwa [hround]) hes.2, hround]

/-- A slot that is held stays held. -/
theorem isSome_foldlM (h : (result.lookup k).isSome = true) :
    (((es.foldlM hardenEntry result).run s).1.lookup k).isSome = true := by
  induction es generalizing result s with
  | nil => exact h
  | cons e es ih =>
      rw [run_foldlM_hardenEntry_cons]
      apply ih
      rw [lookup_hardenEntry]
      split
      · rfl
      · exact h

/-- The keys as their own values. -/
def tagged {γ : Type} (entries : List (JsString × γ)) : List (JsString × StateM Unit JsString) :=
  entries.map fun e => (e.1, pure e.1)

/-- Whose value each slot of the rebuilt object holds: the loop, run on the keys themselves. -/
def holder {γ : Type} (maxAttrCount : ℕ) (entries : List (JsString × γ)) (k : JsString) :
    Option JsString :=
  ((hardenObject maxAttrCount (tagged entries)).run ()).1.lookup k

/-- The keys that the cap keeps. -/
def keptKeys {γ : Type} (maxAttrCount : ℕ) (entries : List (JsString × γ)) : List JsString :=
  (keptEntries maxAttrCount entries).map Prod.fst

theorem keptEntries_map {γ δ : Type} (maxAttrCount : ℕ) (f : JsString × γ → JsString × δ)
    (entries : List (JsString × γ)) :
    keptEntries maxAttrCount (entries.map f) = (keptEntries maxAttrCount entries).map f := by
  rw [keptEntries, keptEntries]
  split
  · rw [List.map_take]
  · rfl

theorem mem_of_mem_keptEntries {γ : Type} {maxAttrCount : ℕ} {entries : List (JsString × γ)}
    {e : JsString × γ} (h : e ∈ keptEntries maxAttrCount entries) : e ∈ entries := by
  rw [keptEntries] at h
  split at h
  · exact List.mem_of_mem_take h
  · exact h

/-- What the slots hold comes from keys with their names. -/
theorem named_foldlM_tagged {γ : Type} {all : List JsString} {entries : List (JsString × γ)}
    {tags : List (JsString × JsString)} (hall : ∀ e ∈ entries, e.1 ∈ all)
    (htags : ∀ k d, tags.lookup k = some d → d ∈ all ∧ cleanKey d = k ∧ k ≠ js "__proto__") :
    ∀ k d, (((tagged entries).foldlM hardenEntry tags).run ()).1.lookup k = some d →
      d ∈ all ∧ cleanKey d = k ∧ k ≠ js "__proto__" := by
  induction entries generalizing tags with
  | nil => exact htags
  | cons e entries ih =>
      rw [List.forall_mem_cons] at hall
      rw [tagged, List.map_cons, run_foldlM_hardenEntry_cons]
      apply ih hall.2
      intro k d hd
      rw [lookup_hardenEntry] at hd
      split at hd
      · rename_i hclaim
        cases hd
        exact ⟨hall.1, hclaim.1.symm, hclaim.2.1⟩
      · exact htags k d hd

theorem held_foldlM {e : JsString × StateM σ β} (he : e ∈ es)
    (hvisible : cleanKey e.1 ≠ js "__proto__") :
    (((es.foldlM hardenEntry result).run s).1.lookup (cleanKey e.1)).isSome = true := by
  induction es generalizing result s with
  | nil => cases he
  | cons e' es ih =>
      rw [run_foldlM_hardenEntry_cons]
      rcases List.mem_cons.mp he with rfl | he
      · apply isSome_foldlM
        rw [lookup_hardenEntry]
        split
        · rfl
        · rename_i hclaim
          by_contra hnone
          rw [Bool.not_eq_true] at hnone
          exact hclaim ⟨rfl, hvisible, .inl hnone⟩
      · exact ih he

/-- **A key that needs no cleaning takes its slot back.** -/
theorem own_foldlM {e : JsString × StateM σ β} (he : e ∈ es) (hnodup : (es.map Prod.fst).Nodup)
    (hclean : cleanKey e.1 = e.1) (hvisible : e.1 ≠ js "__proto__") :
    ∃ s', ((es.foldlM hardenEntry result).run s).1.lookup e.1 = some (e.2.run s').1 := by
  induction es generalizing result s with
  | nil => cases he
  | cons e' es ih =>
      rw [List.map_cons, List.nodup_cons] at hnodup
      rw [run_foldlM_hardenEntry_cons]
      rcases List.mem_cons.mp he with rfl | he
      · have hround : ((hardenEntry result e).run s).1.lookup e.1 = some (e.2.run s).1 := by
          rw [lookup_hardenEntry, if_pos ⟨hclean.symm, hvisible, .inr rfl⟩]
        refine ⟨s, ?_⟩
        rw [lookup_foldlM_of_isSome (by rw [hround]; rfl) hnodup.1, hround]
      · exact ih he hnodup.2

/-- **Who holds the slots of the rebuilt object.** -/
theorem holds_holder {γ : Type} (maxAttrCount : ℕ) {entries : List (JsString × γ)}
    (hnodup : (entries.map Prod.fst).Nodup) :
    Holds cleanKey (· ≠ js "__proto__") (keptKeys maxAttrCount entries)
      (holder maxAttrCount entries) := by
  have hkept : keptEntries maxAttrCount (tagged entries) =
      tagged (keptEntries maxAttrCount entries) := keptEntries_map _ _ _
  have hmem : ∀ d ∈ keptKeys maxAttrCount entries,
      (d, (pure d : StateM Unit JsString)) ∈ tagged (keptEntries maxAttrCount entries) := by
    intro d hd
    rcases List.mem_map.mp hd with ⟨e, he, rfl⟩
    exact List.mem_map_of_mem (f := fun e : JsString × γ =>
      (e.1, (pure e.1 : StateM Unit JsString))) he
  refine ⟨?_, ?_, ?_⟩
  · intro k d hd
    rw [holder, hardenObject, hkept] at hd
    exact named_foldlM_tagged (fun e he => List.mem_map_of_mem he) (by simp) k d hd
  · intro d hd hvisible
    rw [holder, hardenObject, hkept]
    exact held_foldlM (hmem d hd) hvisible
  · intro k hk hclean hvisible
    have hkeys : (tagged (keptEntries maxAttrCount entries)).map Prod.fst =
        keptKeys maxAttrCount entries := by
      rw [tagged, List.map_map]
      rfl
    have hnodup' : ((tagged (keptEntries maxAttrCount entries)).map Prod.fst).Nodup := by
      rw [hkeys, keptKeys, keptEntries]
      split
      · rw [List.map_take]
        exact hnodup.sublist (List.take_sublist _ _)
      · exact hnodup
    rw [holder, hardenObject, hkept]
    have hown := @own_foldlM Unit JsString [] _ () (k, pure k) (hmem k hk) hnodup' hclean hvisible
    rcases hown with ⟨s', hlookup⟩
    exact hlookup

/-- The slots are the same, whatever they hold. -/
theorem isSome_foldlM_tagged {tags : List (JsString × JsString)}
    (hsome : ∀ k, (result.lookup k).isSome = (tags.lookup k).isSome) :
    ∀ k, (((es.foldlM hardenEntry result).run s).1.lookup k).isSome =
      ((((tagged es).foldlM hardenEntry tags).run ()).1.lookup k).isSome := by
  induction es generalizing result tags s with
  | nil => exact hsome
  | cons e es ih =>
      rw [tagged, List.map_cons]
      intro k
      rw [run_foldlM_hardenEntry_cons, run_foldlM_hardenEntry_cons]
      apply ih
      intro k
      rw [lookup_hardenEntry, lookup_hardenEntry, hsome]
      split
      · rfl
      · exact hsome k

/-- A slot holds what the action of its holder made. -/
theorem lookup_foldlM_eq {all : List (JsString × StateM σ β)} {tags : List (JsString × JsString)}
    (hall : ∀ e ∈ es, e ∈ all)
    (hsome : ∀ k, (result.lookup k).isSome = (tags.lookup k).isSome)
    (hsame : ∀ k x, result.lookup k = some x → ∃ d act s', tags.lookup k = some d ∧
      (d, act) ∈ all ∧ x = (act.run s').1) :
    ∀ k x, ((es.foldlM hardenEntry result).run s).1.lookup k = some x → ∃ d act s',
      (((tagged es).foldlM hardenEntry tags).run ()).1.lookup k = some d ∧
        (d, act) ∈ all ∧ x = (act.run s').1 := by
  induction es generalizing result tags s with
  | nil => exact hsame
  | cons e es ih =>
      rw [List.forall_mem_cons] at hall
      rw [tagged, List.map_cons, run_foldlM_hardenEntry_cons, run_foldlM_hardenEntry_cons]
      apply ih hall.2
      · intro k
        rw [lookup_hardenEntry, lookup_hardenEntry, hsome]
        split
        · rfl
        · exact hsome k
      · intro k x hx
        rw [lookup_hardenEntry, hsome] at hx
        rw [lookup_hardenEntry]
        split at hx
        · rename_i hclaim
          rw [if_pos hclaim]
          exact ⟨e.1, e.2, s, rfl, hall.1, (Option.some.inj hx).symm⟩
        · rename_i hclaim
          rw [if_neg hclaim]
          exact hsame k x hx

/-- **The entry under a name is what the holder's value is hardened to.** -/
theorem lookup_hardenObject {maxAttrCount : ℕ} {entries : List (JsString × StateM σ β)} {x : β}
    (h : ((hardenObject maxAttrCount entries).run s).1.lookup k = some x) :
    ∃ d act s', holder maxAttrCount entries k = some d ∧ (d, act) ∈ entries ∧
      x = (act.run s').1 := by
  have hkept : keptEntries maxAttrCount (tagged entries) =
      tagged (keptEntries maxAttrCount entries) := keptEntries_map _ _ _
  have hloop := @lookup_foldlM_eq σ β [] (keptEntries maxAttrCount entries) s entries []
    (fun e he => mem_of_mem_keptEntries he) (fun _ => rfl) (by simp) k x h
  rwa [holder, hardenObject, hkept]

/-- What is in the rebuilt object came under a key that was cleaned, and is made by its action. -/
theorem exists_of_mem_foldlM {e : JsString × β}
    (h : e ∈ ((es.foldlM hardenEntry result).run s).1) :
    e ∈ result ∨ ∃ d ∈ es, e.1 = cleanKey d.1 ∧ ∃ s', e.2 = (d.2.run s').1 := by
  induction es generalizing result s with
  | nil => exact .inl h
  | cons d es ih =>
      rw [run_foldlM_hardenEntry_cons] at h
      rcases ih h with hround | ⟨d', hd', hmade⟩
      · simp only [hardenEntry] at hround
        split at hround
        · exact .inl hround
        · change e ∈ setProperty (cleanKey d.1) (d.2.run s).1 result at hround
          rw [setProperty] at hround
          split at hround
          · exact .inl hround
          · rcases eq_or_mem_of_mem_assign hround with rfl | hmem
            · exact .inr ⟨d, List.mem_cons_self, rfl, s, rfl⟩
            · exact .inl hmem
      · exact .inr ⟨d', List.mem_cons_of_mem d hd', hmade⟩

/-- Every entry of the rebuilt object is under a cleaned key, and made by its action. -/
theorem exists_entry_of_mem_hardenObject {maxAttrCount : ℕ}
    {entries : List (JsString × StateM σ β)} {e : JsString × β}
    (h : e ∈ ((hardenObject maxAttrCount entries).run s).1) :
    ∃ d ∈ entries, e.1 = cleanKey d.1 ∧ ∃ s', e.2 = (d.2.run s').1 := by
  rcases exists_of_mem_foldlM h with hnone | ⟨d, hd, hmade⟩
  · cases hnone
  · exact ⟨d, mem_of_mem_keptEntries hd, hmade⟩

/-- Every value of the rebuilt object is made by one of the actions. -/
theorem exists_of_mem_hardenObject {maxAttrCount : ℕ} {entries : List (JsString × StateM σ β)}
    {e : JsString × β} (h : e ∈ ((hardenObject maxAttrCount entries).run s).1) :
    ∃ d ∈ entries, ∃ s', e.2 = (d.2.run s').1 := by
  obtain ⟨d, hd, -, hvalue⟩ := exists_entry_of_mem_hardenObject h
  exact ⟨d, hd, hvalue⟩

theorem isSome_lookup_hardenObject (maxAttrCount : ℕ) (entries : List (JsString × StateM σ β))
    (s : σ) (k : JsString) : (((hardenObject maxAttrCount entries).run s).1.lookup k).isSome =
      (holder maxAttrCount entries k).isSome := by
  have hkept : keptEntries maxAttrCount (tagged entries) =
      tagged (keptEntries maxAttrCount entries) := keptEntries_map _ _ _
  have hloop := @isSome_foldlM_tagged σ β [] (keptEntries maxAttrCount entries) s []
    (fun _ => rfl) k
  rwa [holder, hardenObject, hardenObject, hkept]

end Loop

end Telemetry.Hardening.TypeScript
