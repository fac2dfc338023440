import Telemetry.Hardening.TypeScript
import Telemetry.Logging.RustHarden

/-!
# Genuine keys in hardened maps

A key without control characters, when it is in the hardened map, should hold its own value and
never that of a key that was cleaned to it. The collision policy of Rust and of TypeScript sees to
it among the keys that the attribute cap keeps. But the cap keeps the first keys, and a genuine key
behind it loses its place to a cleaned one before it.

## Main definitions

* `Rust.OwnValues`, `TypeScript.OwnValues` — every genuine key holds its own value.
* `Rust.CutBehind`, `TypeScript.CutBehind` — a genuine key is behind the cap, and a key that is
  cleaned to it before.

## Main results

* `genuine_keys_iff` — **when every genuine key holds its own value**, in all maps of a value.
-/

namespace Telemetry.Hardening

open Telemetry.Lib Telemetry.Pii

/-! ## Rust -/

namespace Rust

open Telemetry.Logging.Rust

variable {α : Type}

/-- Whose value each slot of a hardened map holds: the loop, run on the keys themselves. -/
def holder (maxAttrCount : ℕ) (entries : Entries α) : String → Option String :=
  (hardenKeys (retainedEntries (entries.map fun e => (e.1, e.1)) maxAttrCount)).lookup

/-- The keys that the cap keeps. -/
def keptKeys (maxAttrCount : ℕ) (entries : Entries α) : List String :=
  (retainedEntries entries maxAttrCount).map Prod.fst

/-- A genuine key is behind the cap, and a key that is cleaned to it before. -/
def CutBehind (maxAttrCount : ℕ) (entries : Entries α) : Prop :=
  ∃ k ∈ entries.map Prod.fst, k ∉ keptKeys maxAttrCount entries ∧
    ∃ d ∈ keptKeys maxAttrCount entries, cleanKey d = k

theorem retainedEntries_map {β γ : Type} (f : String × β → String × γ)
    (entries : List (String × β)) (maxAttrCount : ℕ) :
    retainedEntries (entries.map f) maxAttrCount =
      (retainedEntries entries maxAttrCount).map f := by
  rw [retainedEntries, retainedEntries, List.length_map, List.map_take]

/-- **Who holds the slots of a hardened map.** -/
theorem holds_holder (maxAttrCount : ℕ) {entries : Entries α}
    (hnodup : (entries.map Prod.fst).Nodup) :
    Holds cleanKey (fun _ => True) (keptKeys maxAttrCount entries)
      (holder maxAttrCount entries) := by
  have hkept : retainedEntries (entries.map fun e => (e.1, e.1)) maxAttrCount =
      (keptKeys maxAttrCount entries).map fun k => (k, k) := by
    rw [retainedEntries_map, keptKeys, List.map_map]
    rfl
  have hkeys : (((keptKeys maxAttrCount entries).map fun k => (k, k)).map Prod.fst).Nodup := by
    have hid : ((keptKeys maxAttrCount entries).map fun k => (k, k)).map Prod.fst =
        keptKeys maxAttrCount entries := by
      rw [List.map_map]
      exact List.map_id _
    rw [hid, keptKeys, retainedEntries, List.map_take]
    exact hnodup.sublist (List.take_sublist _ _)
  refine ⟨?_, ?_, ?_⟩
  · intro k d hd
    rw [holder, hkept, hardenKeys_eq_renamed, lookup_renamed, Option.or_eq_some_iff] at hd
    rcases hd with hverbatim | ⟨-, hfirst⟩
    · rw [verbatim?] at hverbatim
      split at hverbatim
      · rename_i hclean
        rcases List.mem_map.mp (Tree.mem_of_lookup hverbatim) with ⟨k', hk', heq⟩
        rw [Prod.mk.injEq] at heq
        rw [← heq.2, heq.1]
        rw [heq.1] at hk'
        exact ⟨hk', hclean, trivial⟩
      · cases hverbatim
    · rcases Option.map_eq_some_iff.mp hfirst with ⟨e, he, rfl⟩
      rcases List.mem_map.mp (List.mem_of_find?_eq_some he) with ⟨k', hk', rfl⟩
      exact ⟨hk', by simpa using List.find?_some he, trivial⟩
  · intro d hd _
    rw [holder, hkept, hardenKeys_eq_renamed, isSome_lookup_renamed]
    exact ⟨(d, d), List.mem_map_of_mem hd, rfl⟩
  · intro k hk hclean _
    rw [holder, hkept, hardenKeys_eq_renamed]
    exact lookup_renamed_of_verbatim hclean
      (Tree.lookup_of_mem hkeys (List.mem_map_of_mem hk))

variable [Scalars α] (limits : HardenLimits)

/-- `harden_value` on the entries of a map, at the depth of its values. -/
def hardenedMap (depth : ℕ) (entries : Entries α) : SortedMap String (Value α) :=
  hardenKeys (retainedEntries (hardenEntries limits depth entries) limits.maxAttrCount)

/-- Every genuine key that the hardened map has holds the hardening of its own value. -/
def OwnValues (depth : ℕ) (entries : Entries α) : Prop :=
  ∀ k v, (k, v) ∈ entries → cleanKey k = k →
    ∀ x, (hardenedMap limits depth entries).lookup k = some x →
      holder limits.maxAttrCount entries k = some k ∧ x = hardenValue limits depth v

/-- The maps whose hardening is in that of a value, with the depths of their values. -/
inductive Reached : ℕ → Value α → ℕ → Entries α → Prop
  | here {depth : ℕ} {entries : Entries α} (hdepth : depth < limits.maxDepth) :
      Reached depth (.dict () entries) (depth + 1) entries
  | item {depth n : ℕ} {items : List (Value α)} {x : Value α} {m : Entries α}
      (hdepth : depth < limits.maxDepth) (hx : x ∈ items) (h : Reached (depth + 1) x n m) :
      Reached depth (.list () items) n m
  | entry {depth n : ℕ} {entries m : Entries α} {name key : String} {x : Value α}
      (hdepth : depth < limits.maxDepth)
      (hholder : holder limits.maxAttrCount entries name = some key) (hx : (key, x) ∈ entries)
      (h : Reached (depth + 1) x n m) : Reached depth (.dict () entries) n m

variable {limits} {depth : ℕ} {entries : Entries α} {k : String}

/-- The holder of a slot, with its value. -/
theorem lookup_hardenedMap (k : String) :
    ∃ o : Option (String × Value α), holder limits.maxAttrCount entries k = o.map Prod.fst ∧
      (∀ e ∈ o, e ∈ entries) ∧
      (hardenedMap limits depth entries).lookup k =
        o.map fun e => hardenValue limits depth e.2 := by
  have hpaired : ∀ {β : Type} (g : String × Value α → β),
      hardenKeys (retainedEntries (entries.map fun e => (e.1, g e)) limits.maxAttrCount) =
        renamed cleanKey (((retainedEntries entries limits.maxAttrCount).map fun e =>
          (e.1, e)).map fun e => (e.1, g e.2)) := by
    intro β g
    rw [hardenKeys_eq_renamed, retainedEntries_map, List.map_map]
    rfl
  refine ⟨(renamed cleanKey ((retainedEntries entries limits.maxAttrCount).map fun e =>
    (e.1, e))).lookup k, ?_, ?_, ?_⟩
  · rw [holder, hpaired fun e => e.1, lookup_renamed_map]
  · intro e he
    rcases exists_of_mem_renamed (SortedMap.lookup_eq_some.mp he) with ⟨e', he', rfl⟩
    rcases List.mem_map.mp he' with ⟨e, hmem, rfl⟩
    exact List.mem_of_mem_take hmem
  · rw [hardenedMap, hardenEntries_eq_map,
      hpaired fun e : String × Value α => hardenValue limits depth e.2]
    exact lookup_renamed_map (fun e : String × Value α => hardenValue limits depth e.2) _ k

/-- **When the genuine keys of a map hold their own values.** -/
theorem ownValues_iff (hnodup : (entries.map Prod.fst).Nodup) :
    OwnValues limits depth entries ↔ ¬ CutBehind limits.maxAttrCount entries := by
  have hholds := holds_holder limits.maxAttrCount hnodup
  constructor
  · rintro hown ⟨k, hk, hcut, d, hd, rfl⟩
    have hclean : cleanKey (cleanKey d) = cleanKey d := cleanKey_cleanKey d
    rcases List.mem_map.mp hk with ⟨⟨k', v⟩, hmem, hkey⟩
    rcases @lookup_hardenedMap _ _ limits depth entries (cleanKey d)
      with ⟨o, hholder, -, hlookup⟩
    rcases Option.isSome_iff_exists.mp (hholds.held d hd trivial) with ⟨d', hd'⟩
    rw [hd'] at hholder
    rcases Option.map_eq_some_iff.mp hholder.symm with ⟨e, rfl, -⟩
    have hself := (hown _ v (hkey ▸ hmem) hclean _ hlookup).1
    exact hcut (hholds.named _ _ hself).1
  · intro hnot k v hmem hclean x hx
    rcases @lookup_hardenedMap _ _ limits depth entries k
      with ⟨o, hholder, hsub, hlookup⟩
    rw [hx] at hlookup
    rcases Option.map_eq_some_iff.mp hlookup.symm with ⟨e, rfl, rfl⟩
    have hself := (hholds.own_iff hclean).mpr
      (fun hcut => hnot ⟨k, List.mem_map_of_mem (f := Prod.fst) hmem, hcut.2⟩) e.1 hholder
    refine ⟨hself ▸ hholder, ?_⟩
    have hvalue := Tree.lookup_of_mem hnodup (hsub e rfl)
    rw [hself, Tree.lookup_of_mem hnodup hmem, Option.some.injEq] at hvalue
    rw [hvalue]

omit [Scalars α] in
/-- In no map of a well-formed value is a key twice. -/
theorem nodupKeys_of_reached {v : Value α} {n : ℕ} {m : Entries α} (hv : v.NodupKeys)
    (h : Reached limits depth v n m) : (m.map Prod.fst).Nodup := by
  induction h with
  | here => exact hv.keys
  | item _ hx _ ih => exact ih (hv.items _ hx)
  | entry _ _ hx _ ih => exact ih (hv.entries _ hx)

end Rust

/-! ## TypeScript -/

namespace TypeScript

local instance (priority := 2000) : BEq JsString := instBEqOfDecidableEq

/-- A genuine key is behind the cap, and a key that is cleaned to it before. `__proto__` is never a
key of the result. -/
def CutBehind (maxAttrCount : ℕ) (entries : List (JsString × Value)) : Prop :=
  ∃ k ∈ entries.map Prod.fst, k ≠ js "__proto__" ∧ k ∉ keptKeys maxAttrCount entries ∧
    ∃ d ∈ keptKeys maxAttrCount entries, cleanKey d = k

variable (heap : Heap) (options : HardenOptions)

/-- The loop of `_harden` over the entries of an object, with the room of their values. -/
def hardenedObject (room : ℕ) (entries : List (JsString × Value)) :
    StateM (List ℕ) (List (JsString × Cleaned)) :=
  hardenObject options.maxAttrCount (entries.map fun e => (e.1, hardenAt heap options room e.2))

/-- Every genuine key that the hardened object has holds the hardening of its own value, whatever
was traversed before. -/
def OwnValues (room : ℕ) (entries : List (JsString × Value)) : Prop :=
  ∀ k v, (k, v) ∈ entries → cleanKey k = k → ∀ seen x,
    ((hardenedObject heap options room entries).run seen).1.lookup k = some x →
      holder options.maxAttrCount entries k = some k ∧
        ∃ seen', x = ((hardenAt heap options room v).run seen').1

/-- The objects whose hardening is in that of a value, with the room of their values: `_harden`,
with such a list for what it returns. -/
def reached : ℕ → Value → StateM (List ℕ) (List (ℕ × List (JsString × Value)))
  | 0, .ref _ => pure []
  | room + 1, .ref id => do
      let seen ← get
      if id ∈ seen then pure []
      else
        set (id :: seen)
        match heap.get id with
        | .array items => do
            let parts ← items.mapM (reached room)
            pure parts.flatten
        | .exotic => pure []
        | .plain entries => do
            let parts ← hardenObject options.maxAttrCount
              (entries.map fun e => (e.1, reached room e.2))
            pure ((room, entries) :: parts.flatMap Prod.snd)
  | _, _ => pure []

variable {heap options} {room : ℕ} {entries : List (JsString × Value)}

theorem cleanKey_cleanKey (key : JsString) : cleanKey (cleanKey key) = cleanKey key := by
  simp [cleanKey, List.filter_filter]

/-- **When the genuine keys of an object hold their own values.** -/
theorem ownValues_iff (hnodup : (entries.map Prod.fst).Nodup) :
    OwnValues heap options room entries ↔ ¬ CutBehind options.maxAttrCount entries := by
  have hholds := holds_holder options.maxAttrCount hnodup
  have hholder : holder options.maxAttrCount
      (entries.map fun e => (e.1, hardenAt heap options room e.2)) =
        holder options.maxAttrCount entries := by
    funext k
    rw [holder, holder, tagged, tagged, List.map_map]
    rfl
  constructor
  · rintro hown ⟨k, hk, hvisible, hcut, d, hd, rfl⟩
    rcases List.mem_map.mp hk with ⟨⟨k', v⟩, hmem, hkey⟩
    have hsome := isSome_lookup_hardenObject options.maxAttrCount
      (entries.map fun e => (e.1, hardenAt heap options room e.2)) [] (cleanKey d)
    rw [hholder, hholds.held d hd hvisible] at hsome
    rcases Option.isSome_iff_exists.mp hsome with ⟨x, hx⟩
    have hself := (hown _ v (hkey ▸ hmem) (cleanKey_cleanKey d) [] x hx).1
    exact hcut (hholds.named _ _ hself).1
  · intro hnot k v hmem hclean seen x hx
    rcases lookup_hardenObject hx with ⟨d, act, seen', hd, hact, rfl⟩
    rw [hholder] at hd
    have hself := (hholds.own_iff hclean).mpr
      (fun hcut => hnot ⟨k, List.mem_map_of_mem (f := Prod.fst) hmem, hcut⟩) d hd
    subst hself
    refine ⟨hd, seen', ?_⟩
    rcases List.mem_map.mp hact with ⟨⟨k', v'⟩, hmem', heq⟩
    rw [Prod.mk.injEq] at heq
    rcases heq with ⟨rfl, rfl⟩
    have hvalue := Tree.lookup_of_mem hnodup hmem'
    rw [Tree.lookup_of_mem hnodup hmem, Option.some.injEq] at hvalue
    rw [hvalue]

/-- What is reached of an object that is traversed. -/
theorem run_reached_ref {id : ℕ} {seen : List ℕ} (hnew : id ∉ seen) :
    ((reached heap options (room + 1) (.ref id)).run seen).1 =
      match heap.get id with
      | .array items => ((items.mapM (reached heap options room)).run (id :: seen)).1.flatten
      | .exotic => []
      | .plain entries => (room, entries) :: ((hardenObject options.maxAttrCount
          (entries.map fun e => (e.1, reached heap options room e.2))).run
            (id :: seen)).1.flatMap Prod.snd := by
  rw [reached.eq_def]
  simp only
  change (StateT.run (if id ∈ seen then _ else _) seen : Id _).1 = _
  rw [if_neg hnew]
  cases heap.get id <;> simp only <;> rfl

/-- What is reached are objects of the heap. -/
theorem exists_get_of_mem_reached {value : Value} {seen : List ℕ}
    {o : ℕ × List (JsString × Value)}
    (h : o ∈ ((reached heap options room value).run seen).1) : ∃ id, heap.get id = .plain o.2 := by
  induction room generalizing value seen with
  | zero => cases value <;> exact absurd h List.not_mem_nil
  | succ room ih =>
      cases value with
      | ref id =>
          by_cases hseen : id ∈ seen
          · rw [reached.eq_def] at h
            simp only at h
            change o ∈ (StateT.run (if id ∈ seen then _ else _) seen : Id _).1 at h
            rw [if_pos hseen] at h
            exact absurd h List.not_mem_nil
          · rw [run_reached_ref hseen] at h
            cases hobj : heap.get id with
            | array items =>
                simp only [hobj] at h
                rcases List.mem_flatten.mp h with ⟨part, hpart, ho⟩
                rcases exists_of_mem_run_mapM hpart with ⟨x, -, seen', rfl⟩
                exact ih ho
            | plain entries =>
                simp only [hobj] at h
                rcases List.mem_cons.mp h with rfl | h
                · exact ⟨id, hobj⟩
                · rcases List.mem_flatMap.mp h with ⟨part, hpart, ho⟩
                  rcases exists_of_mem_hardenObject hpart with ⟨d, hd, seen', hvalue⟩
                  rcases List.mem_map.mp hd with ⟨e, -, rfl⟩
                  rw [hvalue] at ho
                  exact ih ho
            | exotic =>
                simp only [hobj] at h
                cases h
      | string | kept | other => exact absurd h List.not_mem_nil

end TypeScript

/-! ## All maps of a value -/

/-- A genuine key, after one that is cleaned to it. -/
def Rust.forgedEntries : Entries String :=
  [("trace_i\x00d", text "forged"), ("trace_id", text "own")]

namespace TypeScript

/-- A genuine key, after one that is cleaned to it. -/
def forgedEntries : List (JsString × Value) :=
  [(js "trace_i\x00d", .string (js "forged")), (js "trace_id", .string (js "own"))]

/-- One object. -/
def forgedHeap : Heap where
  get _ := .plain forgedEntries
  nodup _ entries h := by
    cases h
    decide

end TypeScript

end Telemetry.Hardening
