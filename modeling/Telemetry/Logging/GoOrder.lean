import Telemetry.Hardening.GoFrame
import Telemetry.Hardening.GoRecord
import Telemetry.Pii.GoEntry
import Mathlib.Data.List.Pairwise

/-!
# Order and repeated keys in the PII stage of the Go SDK

`applyPII` takes a record through maps in rounds and puts the attributes back in order. Every
attribute should come out at its place with what the engine leaves of it alone. It does, except in
two cases. A value that is or holds an empty map comes back as an empty group, and `slog` leaves out
empty groups. And an attribute may have the key under which the class of another is put.

## Main definitions

* `attrFromValue`, `applyPIIAttrs` — the stage, up to the values that `slog` gets.
* `alone` — what the engine leaves of an attribute alone.
* `OrderKept` — every attribute comes out at its place, as it does alone.

## Main results

* `orderKept_iff` — **when the stage keeps order and repeated keys**.
-/

namespace Telemetry.Logging.Go

open Telemetry.Lib Telemetry.Pii Telemetry.Hardening.Go
open Telemetry.Pii.Go (leftOf)

section Values

variable {α : Type} [Scalars α]

mutual
/-- `_attrFromValue`. -/
def attrFromValue : Value α → AttrValue (Value α)
  | .dict _ entries => groupValue (mapToAttrs entries)
  | .list r items => .any (.list r items)
  | .scalar a =>
      match Scalars.str? a with
      | some s => .str s
      | none => .any (.scalar a)
/-- `_mapToAttrs`. -/
def mapToAttrs : Entries α → Attrs (Value α)
  | [] => []
  | (key, value) :: entries => (key, attrFromValue value) :: mapToAttrs entries
end

mutual
/-- A value of `slog` with its groups as maps. -/
def asMap : AttrValue (Value α) → Value α
  | .str s => text s
  | .any v => v
  | .group attrs => .dict () (asEntries attrs)
/-- The attributes of a group as entries. -/
def asEntries : Attrs (Value α) → Entries α
  | [] => []
  | (key, value) :: attrs => (key, asMap value) :: asEntries attrs
end

mutual
/-- The value is no empty map, and none of its maps holds one. What is in lists does not matter. -/
def isFull : Value α → Bool
  | .dict _ entries => !entries.isEmpty && areFull entries
  | .list _ _ => true
  | .scalar _ => true
/-- All the values are. -/
def areFull : Entries α → Bool
  | [] => true
  | (_, value) :: entries => isFull value && areFull entries
end

theorem mapToAttrs_eq_map (entries : Entries α) :
    mapToAttrs entries = entries.map fun e => (e.1, attrFromValue e.2) := by
  induction entries with
  | nil => rw [mapToAttrs]; rfl
  | cons e entries ih => rw [mapToAttrs, ih]; rfl

theorem asEntries_eq_map (attrs : Attrs (Value α)) :
    asEntries attrs = attrs.map fun a => (a.1, asMap a.2) := by
  induction attrs with
  | nil => rw [asEntries]; rfl
  | cons a attrs ih => rw [asEntries, ih]; rfl

omit [Scalars α] in
theorem areFull_iff {entries : Entries α} :
    areFull entries = true ↔ ∀ e ∈ entries, isFull e.2 = true := by
  induction entries with
  | nil => simp [areFull]
  | cons e entries ih => rw [areFull, Bool.and_eq_true, ih, List.forall_mem_cons]

/-- What `AddAttrs` keeps of a value. -/
def keptValue (v : Value α) : Option (AttrValue (Value α)) :=
  if isEmptyGroup (attrFromValue v) then none else some (attrFromValue v)

theorem isEmptyGroup_group {γ : Type} (attrs : Attrs γ) :
    isEmptyGroup (.group attrs) = attrs.isEmpty := by
  cases attrs <;> rfl

theorem map_keptValue_eq_some {v w : Value α} : (keptValue v).map asMap = some w ↔
    isEmptyGroup (attrFromValue v) = false ∧ asMap (attrFromValue v) = w := by
  rw [keptValue]
  cases isEmptyGroup (attrFromValue v) <;> simp

theorem keptValue_text (s : String) :
    (keptValue (text s : Value α)).map asMap = some (text s) := by
  have hvalue : attrFromValue (text s : Value α) = .str s := by
    rw [text, attrFromValue, Scalars.str?_eq_some.mpr rfl]
  rw [keptValue, hvalue]
  rfl

/-- The group that is made of a value is empty if the value is hollow. -/
theorem isEmptyGroup_attrFromValue (v : Value α) : isEmptyGroup (attrFromValue v) = isHollow v := by
  induction v using Tree.induct with
  | scalar a =>
      rw [attrFromValue]
      cases Scalars.str? a <;> rfl
  | list r items =>
      rw [attrFromValue]
      rfl
  | dict r entries ih =>
      rw [attrFromValue, groupValue, isEmptyGroup_group, mapToAttrs_eq_map, isHollow]
      induction entries with
      | nil => rw [areHollow]; rfl
      | cons e entries ihs =>
          rw [List.forall_mem_cons] at ih
          rw [areHollow, ← ihs ih.2, ← ih.1, List.map_cons, List.filter_cons]
          cases isEmptyGroup (attrFromValue e.2) <;> rfl

/-- **A value comes back as it is exactly if it is full.** -/
theorem keptValue_eq_iff (v : Value α) : (keptValue v).map asMap = some v ↔ isFull v = true := by
  induction v using Tree.induct with
  | scalar a =>
      have hscalar : (keptValue (.scalar a : Value α)).map asMap = some (.scalar a) := by
        rw [keptValue, attrFromValue]
        cases hstr : Scalars.str? a with
        | none => rfl
        | some s =>
            rw [Scalars.str?_eq_some.mp hstr]
            rfl
      rw [hscalar, isFull]
      simp
  | list r items =>
      rw [keptValue, attrFromValue, isFull]
      simp [isEmptyGroup, asMap]
  | dict r entries ih =>
      have hgroup : attrFromValue (.dict r entries : Value α) =
          .group ((entries.map fun e => (e.1, attrFromValue e.2)).filter
            fun a => !isEmptyGroup a.2) := by
        rw [attrFromValue, groupValue, mapToAttrs_eq_map]
      rw [map_keptValue_eq_some, hgroup, isEmptyGroup_group, asMap, asEntries_eq_map, isFull,
        Bool.and_eq_true, areFull_iff]
      constructor
      · rintro ⟨hsome, hsame⟩
        have hentries := (Tree.dict.inj hsame).2
        -- nothing is filtered away
        have hall : ∀ a ∈ entries.map (fun e => (e.1, attrFromValue e.2)),
            (!isEmptyGroup a.2) = true := by
          rw [← List.length_filter_eq_length_iff, List.length_map]
          have hlength := congrArg List.length hentries
          rwa [List.length_map] at hlength
        rw [List.filter_eq_self.mpr hall, List.map_map] at hentries
        rw [List.filter_eq_self.mpr hall, List.isEmpty_map] at hsome
        refine ⟨by rw [hsome]; rfl, fun e he => (ih e he).mp ?_⟩
        refine map_keptValue_eq_some.mpr ⟨?_, ?_⟩
        · simpa using hall _ (List.mem_map_of_mem he)
        · have hvalue := List.map_inj_left.mp (hentries.trans (List.map_id entries).symm) e he
          exact congrArg Prod.snd hvalue
      · rintro ⟨hsome, hfull⟩
        have hback : ∀ e ∈ entries, isEmptyGroup (attrFromValue e.2) = false ∧
            asMap (attrFromValue e.2) = e.2 := fun e he =>
          map_keptValue_eq_some.mp ((ih e he).mpr (hfull e he))
        have hall : ∀ a ∈ entries.map (fun e => (e.1, attrFromValue e.2)),
            (!isEmptyGroup a.2) = true := by
          intro a ha
          rcases List.mem_map.mp ha with ⟨e, he, rfl⟩
          rw [(hback e he).1]
          rfl
        rw [List.filter_eq_self.mpr hall, List.isEmpty_map, List.map_map]
        refine ⟨by simpa using hsome, ?_⟩
        have hid : entries.map ((fun a : String × AttrValue (Value α) => (a.1, asMap a.2)) ∘
            fun e => (e.1, attrFromValue e.2)) = entries.map id :=
          List.map_congr_left fun e he => Prod.ext rfl (hback e he).2
        rw [hid, List.map_id]

end Values

/-! ## The stage -/

section Stage

variable {ι α : Type} [GoScalars α] (h : Handler (List ι) (GoValue ι α) α)
  (record : Attrs (GoValue ι α))

/-- The map that is classified in a round. -/
def classifiedRound (i : ℕ) : Entries α :=
  Pii.Go.classifiedMap h.env h.rules (toPayload (hardenedRound h (cleanedRecordAttrs record) i)) 0

/-- The maps that are classified give their keys in these orders. -/
def AreOrders (orders : ℕ → List String) : Prop :=
  ∀ i, (orders i).Perm ((classifiedRound h record i).map Prod.fst)

/-- They may be the orders of the entries. -/
def entryOrders (i : ℕ) : List String := (classifiedRound h record i).map Prod.fst

/-- `SanitizePayload` on the payload of a round, where the map gives its keys in an order. -/
def sanitizedRoundIn (order : List String) (i : ℕ) (key : String) : Option (Value α) :=
  (Pii.Go.sanitizePayloadIn h.env h.hooks h.rules
    (toPayload (hardenedRound h (cleanedRecordAttrs record) i)) h.cfg.sanitize 0 order).lookup key

/-- `applyPII` on the attributes. -/
def applyPIIAttrs (orders : ℕ → List String) : Attrs (Value α) :=
  addAttrs [] ((rebuilt (cleanedRecordAttrs record) (roundsOf (cleanedRecordAttrs record))
    fun i => sanitizedRoundIn h record (orders i) i).map fun a => (a.1, attrFromValue a.2))

/-- `SanitizePayload` of `Harden` of an attribute alone, under its cleaned key. -/
def alone (a : String × AttrValue (GoValue ι α)) : Option (Value α) :=
  (Pii.Go.sanitizePayload h.env h.hooks h.rules
    (toPayload (hardenAttrs h.reflection (SortedMap.empty.insert a.1 a.2)
      (limitsFromConfig h.cfg.security))) h.cfg.sanitize 0).val.lookup (cleanKey a.1)

/-- The attributes with their rounds. -/
def numbered : List ((String × AttrValue (GoValue ι α)) × ℕ) :=
  record.zip (roundsOf (cleanedRecordAttrs record))

/-- What comes out at the place of an attribute. -/
def resultAt (orders : ℕ → List String) (z : (String × AttrValue (GoValue ι α)) × ℕ) :
    Option (AttrValue (Value α)) :=
  (sanitizedRoundIn h record (orders z.2) z.2 (cleanKey z.1.1)).bind keptValue

/-- The attributes that come out are, in order, what the engine keeps of each alone, and each comes
out at its own place. -/
structure OrderKeptIn (orders : ℕ → List String) : Prop where
  attrs : (applyPIIAttrs h record orders).map (fun a => (a.1, asMap a.2)) =
    record.filterMap fun a => (alone h a).map fun v => (cleanKey a.1, v)
  places : ∀ z ∈ numbered record, (resultAt h record orders z).map asMap = alone h z.1

/-- In whatever orders the maps give their keys. -/
def OrderKept : Prop := ∀ orders, AreOrders h record orders → OrderKeptIn h record orders

/-- What hardening makes of a value alone. -/
def hardenedAlone (value : AttrValue (GoValue ι α)) : Json α :=
  ((hardenValue h.reflection (limitsFromConfig h.cfg.security) 1 value).run
    h.reflection.initial).1

/-- What the rules leave of an attribute alone, for classification. -/
def walkedAlone (key : String) (value : AttrValue (GoValue ι α)) : Option (Value α) :=
  Pii.Go.walkedEntry h.env h.rules [] [] Pii.Go.defaultMaxDepth key (hardenedAlone h value).val

/-- What they leave of the attributes of a round, each alone. -/
def walkedRound (i : ℕ) (key : String) : Option (Value α) :=
  ((roundPayload record i).lookup key).bind (walkedAlone h key)

/-- A class that may be put under the key of another attribute of its round is what the engine
leaves of that attribute alone, and stays as it is when it is classified itself. -/
def TagsHarmless : Prop :=
  h.cfg.sanitize = true → ∀ i,
    (Pii.Go.labels h.env h.hooks).Harmless (walkedRound h record i) (roundPayload record i).keys

/-- No two attributes share a reference. -/
def Unshared (heap : Heap ι α) : Prop :=
  record.Pairwise fun a b => ∀ id, AttrReaches heap a.2 id → ¬ AttrReaches heap b.2 id

variable {h record} {orders : ℕ → List String}

theorem zip_cleanedRecordAttrs (record : Attrs (GoValue ι α)) :
    (cleanedRecordAttrs record).zip (roundsOf (cleanedRecordAttrs record)) =
      (numbered record).map fun z => ((cleanKey z.1.1, z.1.2), z.2) := by
  rw [numbered, cleanedRecordAttrs, List.zip_map_left]
  rfl

theorem areOrders_entryOrders : AreOrders h record (entryOrders h record) :=
  fun _ => List.Perm.refl _

/-- The stage puts every attribute's result at its place. -/
theorem applyPIIAttrs_eq : applyPIIAttrs h record orders =
    (numbered record).filterMap fun z =>
      (resultAt h record orders z).map fun v => (cleanKey z.1.1, v) := by
  rw [applyPIIAttrs, addAttrs, List.nil_append, rebuilt, zip_cleanedRecordAttrs,
    List.filterMap_map, ← List.filterMap_eq_filter, List.map_filterMap, List.filterMap_filterMap]
  apply List.filterMap_congr
  intro z _
  rw [Function.comp_apply, resultAt]
  cases sanitizedRoundIn h record (orders z.2) z.2 (cleanKey z.1.1) with
  | none => rfl
  | some v =>
      rw [Option.map_some, Option.map_some, Option.bind_some, Option.bind_some, keptValue]
      cases hempty : isEmptyGroup (attrFromValue v) <;> simp [Option.guard, hempty]

theorem map_fst_numbered (record : Attrs (GoValue ι α)) :
    (numbered record).map Prod.fst = record := by
  apply List.map_fst_zip
  rw [length_roundsOf, cleanedRecordAttrs, List.length_map]

/-- What holds at every place holds of the list. -/
theorem orderKept_of_places
    (hplaces : ∀ z ∈ numbered record, (resultAt h record orders z).map asMap = alone h z.1) :
    OrderKeptIn h record orders := by
  refine ⟨?_, hplaces⟩
  rw [applyPIIAttrs_eq, List.map_filterMap]
  conv_rhs => rw [← map_fst_numbered record, List.filterMap_map]
  apply List.filterMap_congr
  intro z hz
  rw [Function.comp_apply, ← hplaces z hz, Option.map_map, Option.map_map]
  rfl

/-- An attribute is in its round, under its cleaned key. -/
theorem lookup_roundPayload_of_mem {z : (String × AttrValue (GoValue ι α)) × ℕ}
    (hz : z ∈ numbered record) :
    (roundPayload record z.2).lookup (cleanKey z.1.1) = some z.1.2 := by
  have hmem : ((cleanKey z.1.1, z.1.2), z.2) ∈
      (cleanedRecordAttrs record).zip (roundsOf (cleanedRecordAttrs record)) := by
    rw [zip_cleanedRecordAttrs]
    exact List.mem_map.mpr ⟨z, hz, rfl⟩
  have hindex : ((cleanKey z.1.1, z.1.2), z.2) ∈
      ((cleanedRecordAttrs record).filter fun e => e.1 = cleanKey z.1.1).zipIdx 0 := by
    rw [← filter_zip_occurrences (fun _ => 0) (cleanedRecordAttrs record) (cleanKey z.1.1)]
    exact List.mem_filter.mpr ⟨hmem, by simp⟩
  rw [roundPayload, lookup_round, List.mem_zipIdx_iff_getElem?.mp hindex]
  rfl

omit [GoScalars α] in
/-- The loop over a map finds a state at the value of a key which the other values leave as it
should be. -/
theorem lookup_foldlM_of_invariant {σ : Type} (limits : Limits) {P : σ → Prop} {key : String}
    {es : List (String × StateM σ (Json α))} {harden : StateM σ (Json α)}
    (hclean : ∀ e ∈ es, cleanKey e.1 = e.1) (hsorted : SortedKeys es)
    {state : Rebuilt String (Json α)} (hnew : ∀ e ∈ es, state.out.contains e.1 = false)
    (hothers : ∀ e ∈ es, e.1 ≠ key → ∀ s, P s → P (e.2.run s).2) {s : σ} (hs : P s)
    (hmem : (key, harden) ∈ es) :
    ((es.foldlM (hardenMapKey limits) state).run s).1.out.lookup key = none ∨
      ∃ s', P s' ∧ ((es.foldlM (hardenMapKey limits) state).run s).1.out.lookup key =
        some (harden.run s').1 := by
  induction es generalizing state s with
  | nil => cases hmem
  | cons e es ih =>
      rcases List.pairwise_cons.mp hsorted with ⟨hfirst, hrest⟩
      rw [List.forall_mem_cons] at hclean hnew hothers
      have hround : ∀ e' ∈ es,
          ((hardenMapKey limits state e).run s).1.out.contains e'.1 = false := by
        intro e' he'
        rcases hardenMapKey_of_clean limits hclean.1 hnew.1 s with ⟨-, hout⟩ | ⟨-, hsame⟩
        · rw [hout, SortedMap.contains, SortedMap.lookup_insert, if_neg (hfirst e' he').ne']
          exact hnew.2 e' he'
        · rw [hsame]
          exact hnew.2 e' he'
      rw [run_foldlM_cons]
      rcases List.mem_cons.mp hmem with rfl | htail
      · have hlast : key ∉ es.map Prod.fst := by
          intro hk
          rcases List.mem_map.mp hk with ⟨e', he', hkey⟩
          exact absurd hkey (hfirst e' he').ne'
        rw [lookup_foldlM_of_not_mem limits hclean.2 hrest hround hlast]
        rcases hardenMapKey_of_clean limits hclean.1 hnew.1 s with ⟨-, hout⟩ | ⟨-, hsame⟩
        · refine .inr ⟨s, hs, ?_⟩
          rw [hout, SortedMap.lookup_insert, if_pos rfl]
        · left
          rw [hsame]
          simpa [SortedMap.contains] using hnew.1
      · refine ih hclean.2 hrest hround hothers.2 ?_ htail
        rw [run_hardenMapKey]
        split
        · exact hothers.1 (hfirst _ htail).ne s hs
        · exact hs

variable [DecidableEq ι] [Fintype ι] {heap : Heap ι α}

omit [DecidableEq ι] [Fintype ι] in
theorem alone_eq (h : Handler (List ι) (GoValue ι α) α) (a : String × AttrValue (GoValue ι α)) :
    alone h a = leftOf h.env h.hooks h.rules h.cfg.sanitize 0 (cleanKey a.1)
      (hardenedAlone h a.2) := by
  have hsingle : hardenAttrs h.reflection (SortedMap.empty.insert a.1 a.2)
      (limitsFromConfig h.cfg.security) =
        SortedMap.empty.insert (cleanKey a.1) (hardenedAlone h a.2) := by
    have hclaims : claims (limitsFromConfig h.cfg.security) ({} : Rebuilt String (Json α)) a.1 =
        true := by
      rw [claims, contains_empty, if_neg Bool.false_ne_true, decide_eq_true_eq, hasRoom]
      exact Nat.eq_zero_or_pos _
    have hround := @run_hardenMapKey _ _ (limitsFromConfig h.cfg.security) {}
      h.reflection.initial (a.1, hardenValue h.reflection (limitsFromConfig h.cfg.security) 1 a.2)
    rw [if_pos hclaims] at hround
    exact congrArg (fun r : Rebuilt String (Json α) × List ι => r.1.out) hround
  rw [alone, hsingle]
  rfl

omit [DecidableEq ι] [Fintype ι] in
/-- A round has no more keys than the record has attributes. -/
theorem length_keys_roundPayload_le (record : Attrs (GoValue ι α)) (i : ℕ) :
    (roundPayload record i).keys.length ≤ record.length := by
  have hlength : (record.map fun a => cleanKey a.1).length = record.length := List.length_map _
  rw [← hlength]
  apply (SortedMap.nodup_keys _).length_le_of_subset
  intro k hk
  rcases List.mem_map.mp hk with ⟨e, he, rfl⟩
  rcases exists_of_mem_roundPayload he with ⟨a, ha, rfl⟩
  exact List.mem_map.mpr ⟨a, ha, rfl⟩

omit [DecidableEq ι] [Fintype ι] in
theorem not_reaches_of_ne (hshare : Unshared record heap)
    {a b : String × AttrValue (GoValue ι α)} (ha : a ∈ record) (hb : b ∈ record) (hne : a ≠ b)
    {id : ι} (hid : AttrReaches heap a.2 id) : ¬ AttrReaches heap b.2 id := by
  have hsymm : Std.Symm fun a b : String × AttrValue (GoValue ι α) =>
      ∀ id, AttrReaches heap a.2 id → ¬ AttrReaches heap b.2 id :=
    ⟨fun a b h id hb' ha' => h id ha' hb'⟩
  exact List.Pairwise.forall hshare ha hb hne id hid

/-- **An attribute is hardened in its round as it is alone.** -/
theorem lookup_hardenedRound (hheap : h.reflection = reflectionOf heap)
    (hcap : record.length ≤ (limitsFromConfig h.cfg.security).maxAttrCount)
    (hshare : Unshared record heap) {z : (String × AttrValue (GoValue ι α)) × ℕ}
    (hz : z ∈ numbered record) :
    (hardenedRound h (cleanedRecordAttrs record) z.2).lookup (cleanKey z.1.1) =
      some (hardenedAlone h z.1.2) := by
  have hpayload := lookup_roundPayload_of_mem hz
  -- there is room for every key
  have hkey : cleanKey z.1.1 ∈ (roundPayload record z.2).keys :=
    SortedMap.mem_keys.mpr (by rw [hpayload]; rfl)
  have hroom : survivesCap (limitsFromConfig h.cfg.security).maxAttrCount
      (roundPayload record z.2).keys (cleanKey z.1.1) := by
    have hbefore : ((roundPayload record z.2).keys.filter (· < cleanKey z.1.1)).length <
        (roundPayload record z.2).keys.length :=
      List.length_filter_lt_length_iff_exists.mpr ⟨cleanKey z.1.1, hkey, by simp⟩
    have hlength := length_keys_roundPayload_le record z.2
    rw [survivesCap, hasRoom]
    omega
  have hkept : ((hardenedRound h (cleanedRecordAttrs record) z.2).lookup
      (cleanKey z.1.1)).isSome = true := by
    rcases lookup_hardenAttrs (limitsFromConfig h.cfg.security) h.reflection
      cleanKey_of_mem_roundPayload hpayload with ⟨-, s, hlookup⟩ | ⟨hfull, -⟩
    · exact hlookup ▸ rfl
    · exact absurd hroom hfull
  -- what was crossed before cannot be reached from here
  let P : List ι → Prop := fun s => ∀ id ∈ s, ¬ AttrReaches heap z.1.2 id
  have hothers : ∀ e ∈ ((roundPayload record z.2).mapValues (hardenValue h.reflection
      (limitsFromConfig h.cfg.security) 1)).entries, e.1 ≠ cleanKey z.1.1 → ∀ s, P s →
        P (e.2.run s).2 := by
    intro e he hne s hs id hid
    rcases List.mem_map.mp he with ⟨d, hd, rfl⟩
    rcases exists_of_mem_roundPayload hd with ⟨a, ha, rfl⟩
    rw [hheap] at hid
    simp only at hid
    rw [run_hardenValue_snd] at hid
    rcases mem_crossAttr 1 a.2 hid with hold | hreach
    · exact hs id hold
    · have hdistinct : a ≠ z.1 := by
        intro heq
        apply hne
        rw [heq]
      exact not_reaches_of_ne hshare ha (List.of_mem_zip hz).1 hdistinct hreach
  have hmem : (cleanKey z.1.1, hardenValue h.reflection (limitsFromConfig h.cfg.security) 1 z.1.2) ∈
      ((roundPayload record z.2).mapValues (hardenValue h.reflection
        (limitsFromConfig h.cfg.security) 1)).entries := by
    rw [← SortedMap.lookup_eq_some, SortedMap.lookup_mapValues, hpayload, Option.map_some]
  have hinitial : P h.reflection.initial := by
    rw [hheap]
    exact fun id hid => absurd hid List.not_mem_nil
  rcases lookup_foldlM_of_invariant (limitsFromConfig h.cfg.security) (P := P)
    (cleanKey_of_mem_mapValues cleanKey_of_mem_roundPayload)
    ((roundPayload record z.2).mapValues _).sorted (fun e _ => contains_empty e.1) hothers hinitial
    hmem with hnone | ⟨s, hs, hlookup⟩
  · have hlost : (hardenedRound h (cleanedRecordAttrs record) z.2).lookup (cleanKey z.1.1) = none :=
      hnone
    rw [hlost] at hkept
    cases hkept
  · have hsame : ((hardenValue h.reflection (limitsFromConfig h.cfg.security) 1 z.1.2).run s).1 =
        hardenedAlone h z.1.2 := by
      rw [hardenedAlone, hheap]
      exact (framed_hardenValue 1 z.1.2 (fun id hid => hid) s [] (agree_nil hs)).1
    rw [← hsame]
    exact hlookup

omit [DecidableEq ι] [Fintype ι] in
/-- Every key of a round is an attribute's. -/
theorem exists_numbered_of_mem_keys {i : ℕ} {key : String}
    (hkey : key ∈ (roundPayload record i).keys) :
    ∃ z ∈ numbered record, z.2 = i ∧ cleanKey z.1.1 = key := by
  rcases List.mem_map.mp hkey with ⟨e, he, rfl⟩
  have hround := (SortedMap.mem_of_mem_extend he).resolve_left List.not_mem_nil
  rw [roundEntries, zip_cleanedRecordAttrs] at hround
  rcases List.mem_map.mp hround with ⟨y, hy, rfl⟩
  rcases List.mem_filter.mp hy with ⟨hmem, hi⟩
  rcases List.mem_map.mp hmem with ⟨z, hz, rfl⟩
  exact ⟨z, hz, by simpa using hi, rfl⟩

omit [DecidableEq ι] [Fintype ι] in
theorem cleanKey_mem_keys {z : (String × AttrValue (GoValue ι α)) × ℕ} (hz : z ∈ numbered record) :
    cleanKey z.1.1 ∈ (roundPayload record z.2).keys := by
  rw [SortedMap.mem_keys, lookup_roundPayload_of_mem hz]
  rfl

omit [DecidableEq ι] [Fintype ι] in
/-- What the rules leave of a round's keys is what they leave of the attributes. -/
theorem isSome_walkedRound {i : ℕ} {key : String}
    (h' : (walkedRound h record i key).isSome = true) : key ∈ (roundPayload record i).keys := by
  rw [SortedMap.mem_keys]
  cases hlookup : (roundPayload record i).lookup key with
  | none =>
      rw [walkedRound, hlookup] at h'
      cases h'
  | some value => rfl

omit [DecidableEq ι] [Fintype ι] in
theorem walkedRound_of_mem {z : (String × AttrValue (GoValue ι α)) × ℕ} (hz : z ∈ numbered record) :
    walkedRound h record z.2 (cleanKey z.1.1) = walkedAlone h (cleanKey z.1.1) z.1.2 := by
  rw [walkedRound, lookup_roundPayload_of_mem hz, Option.bind_some]

omit [DecidableEq ι] [Fintype ι] in
/-- An attribute alone is walked and classified. -/
theorem alone_eq_bind (hsanitize : h.cfg.sanitize = true)
    (a : String × AttrValue (GoValue ι α)) : alone h a =
      (walkedAlone h (cleanKey a.1) a.2).bind
        ((Pii.Go.labels h.env h.hooks).own (cleanKey a.1)) := by
  rw [alone_eq, Pii.Go.leftOf_eq, Pii.Go.entryLeft, if_pos hsanitize]
  rfl

/-- The map that is classified holds what the rules leave of each attribute alone. -/
theorem lookup_classifiedRound (hheap : h.reflection = reflectionOf heap)
    (hcap : record.length ≤ (limitsFromConfig h.cfg.security).maxAttrCount)
    (hshare : Unshared record heap) (i : ℕ) :
    (fun key => (classifiedRound h record i).lookup key) = walkedRound h record i := by
  funext key
  have hmap : (classifiedRound h record i).lookup key =
      ((hardenedRound h (cleanedRecordAttrs record) i).lookup key).bind fun value =>
        Pii.Go.walkedEntry h.env h.rules [] [] Pii.Go.defaultMaxDepth key value.val := by
    rw [classifiedRound, Pii.Go.lookup_classifiedMap, lookup_toPayload, if_pos (le_refl 0)]
    cases (hardenedRound h (cleanedRecordAttrs record) i).lookup key <;> rfl
  rw [hmap]
  by_cases hkey : key ∈ (roundPayload record i).keys
  · rcases exists_numbered_of_mem_keys hkey with ⟨z, hz, rfl, rfl⟩
    rw [lookup_hardenedRound hheap hcap hshare hz, walkedRound_of_mem hz]
    rfl
  · rw [SortedMap.mem_keys, Option.not_isSome_iff_eq_none] at hkey
    have hnone : (hardenedRound h (cleanedRecordAttrs record) i).lookup key = none :=
      lookup_hardenAttrs_of_absent _ _ cleanKey_of_mem_roundPayload hkey
    rw [hnone, walkedRound, hkey]
    rfl

/-- What comes out of a round is what the loop over the labels leaves. -/
theorem sanitizedRoundIn_eq (hheap : h.reflection = reflectionOf heap)
    (hcap : record.length ≤ (limitsFromConfig h.cfg.security).maxAttrCount)
    (hshare : Unshared record heap) (hsanitize : h.cfg.sanitize = true) (order : List String)
    (i : ℕ) (key : String) : sanitizedRoundIn h record order i key =
      order.foldl (Pii.Go.labels h.env h.hooks).round (walkedRound h record i) key := by
  have hloop := congrFun (@Pii.Go.lookup_applyClassificationIn _ _ h.env h.hooks order
    (classifiedRound h record i)) key
  rw [lookup_classifiedRound hheap hcap hshare] at hloop
  rw [sanitizedRoundIn, Pii.Go.sanitizePayloadIn, if_pos hsanitize]
  exact hloop

/-- Without sanitizing a round comes out as it is hardened. -/
theorem sanitizedRoundIn_of_disabled (hheap : h.reflection = reflectionOf heap)
    (hcap : record.length ≤ (limitsFromConfig h.cfg.security).maxAttrCount)
    (hshare : Unshared record heap) (hsanitize : ¬ h.cfg.sanitize = true) (order : List String)
    {z : (String × AttrValue (GoValue ι α)) × ℕ} (hz : z ∈ numbered record) :
    sanitizedRoundIn h record order z.2 (cleanKey z.1.1) = alone h z.1 := by
  rw [sanitizedRoundIn, Pii.Go.sanitizePayloadIn, if_neg hsanitize, lookup_toPayload,
    lookup_hardenedRound hheap hcap hshare hz, alone_eq, Pii.Go.leftOf_eq, Pii.Go.entryLeft,
    if_neg hsanitize]
  rfl

theorem isOrder_walkedRound (hheap : h.reflection = reflectionOf heap)
    (hcap : record.length ≤ (limitsFromConfig h.cfg.security).maxAttrCount)
    (hshare : Unshared record heap) (i : ℕ) {order : List String} :
    order.Perm ((classifiedRound h record i).map Prod.fst) ↔
      Labelling.IsOrder (walkedRound h record i) order := by
  rw [← lookup_classifiedRound hheap hcap hshare i]
  exact Pii.Go.perm_classifiedMap_iff

/-- **Harmless classes**: in whatever orders the maps give their keys, what the engine leaves of an
attribute in its round is what it leaves of it alone. -/
theorem sanitizedRoundIn_eq_alone (hheap : h.reflection = reflectionOf heap)
    (hcap : record.length ≤ (limitsFromConfig h.cfg.security).maxAttrCount)
    (hshare : Unshared record heap) (htags : TagsHarmless h record)
    (horders : AreOrders h record orders) {z : (String × AttrValue (GoValue ι α)) × ℕ}
    (hz : z ∈ numbered record) :
    sanitizedRoundIn h record (orders z.2) z.2 (cleanKey z.1.1) = alone h z.1 := by
  by_cases hsanitize : h.cfg.sanitize = true
  · rw [sanitizedRoundIn_eq hheap hcap hshare hsanitize,
      Labelling.foldl_round (htags hsanitize z.2)
        ((isOrder_walkedRound hheap hcap hshare z.2).mp (horders z.2))
        (fun k => isSome_walkedRound) (cleanKey_mem_keys hz),
      walkedRound_of_mem hz, alone_eq_bind hsanitize]
  · exact sanitizedRoundIn_of_disabled hheap hcap hshare hsanitize _ hz

/-- An order of one round is one of some orders of all. -/
theorem exists_orders (hheap : h.reflection = reflectionOf heap)
    (hcap : record.length ≤ (limitsFromConfig h.cfg.security).maxAttrCount)
    (hshare : Unshared record heap) {i : ℕ} {order : List String}
    (horder : Labelling.IsOrder (walkedRound h record i) order) :
    ∃ orders, AreOrders h record orders ∧ orders i = order := by
  refine ⟨fun j => if j = i then order else entryOrders h record j, fun j => ?_, if_pos rfl⟩
  by_cases hj : j = i
  · subst hj
    simp only [if_pos]
    exact (isOrder_walkedRound hheap hcap hshare j).mpr horder
  · simp only [if_neg hj]
    exact areOrders_entryOrders j

/-- Where every order comes out well, the classes are harmless: a class may come last, and it may be
what is classified. -/
theorem tagsHarmless_of_orderKept (hheap : h.reflection = reflectionOf heap)
    (hcap : record.length ≤ (limitsFromConfig h.cfg.security).maxAttrCount)
    (hshare : Unshared record heap) (hkept : OrderKept h record) : TagsHarmless h record := by
  intro hsanitize i k v l hseen hput hkey
  rcases exists_numbered_of_mem_keys hkey with ⟨z, hz, rfl, hclean⟩
  rcases Pii.Go.labelPut_text hput with ⟨t, rfl⟩
  have hkeys : Labelling.IsOrder (walkedRound h record z.2)
      (entryOrders h record z.2) :=
    (isOrder_walkedRound hheap hcap hshare z.2).mp (areOrders_entryOrders z.2)
  -- what comes out in any order is what the engine leaves of the attribute alone
  have hplace : ∀ order, Labelling.IsOrder (walkedRound h record z.2) order →
      ((order.foldl (Pii.Go.labels h.env h.hooks).round (walkedRound h record z.2)
        (cleanKey z.1.1)).bind keptValue).map asMap = alone h z.1 := by
    intro order horder
    rcases exists_orders hheap hcap hshare horder with ⟨orders, horders, rfl⟩
    have hresult := (hkept orders horders).places z hz
    rwa [resultAt, sanitizedRoundIn_eq hheap hcap hshare hsanitize] at hresult
  have halone : alone h z.1 = some (text t) := by
    rcases Labelling.exists_order_label hkeys hseen hput with ⟨order, horder, hlast⟩
    rw [← hplace order horder, hclean, hlast, Option.bind_some, keptValue_text]
  have hwalked : (walkedRound h record z.2 (cleanKey z.1.1)).bind
      ((Pii.Go.labels h.env h.hooks).own (cleanKey z.1.1)) = some (text t) := by
    rw [walkedRound_of_mem hz, ← alone_eq_bind hsanitize, halone]
  rw [← hclean]
  refine ⟨hwalked, ?_⟩
  have hsome : (walkedRound h record z.2 ((Pii.Go.labels h.env h.hooks).tag k)).isSome = true := by
    rw [← hclean]
    exact Option.isSome_of_isSome_bind (by rw [hwalked]; rfl)
  rcases Labelling.exists_order_own hkeys hseen hput hsome with ⟨order, horder, hlast⟩
  have hown := hplace order horder
  rw [hclean, hlast, halone] at hown
  rw [hclean]
  cases hclass : (Pii.Go.labels h.env h.hooks).own ((Pii.Go.labels h.env h.hooks).tag k)
      (text t) with
  | none =>
      rw [hclass] at hown
      cases hown
  | some w =>
      rcases Pii.Go.classified_text hclass with ⟨t', rfl⟩
      rw [hclass, Option.bind_some, keptValue_text] at hown
      exact hown

omit [DecidableEq ι] [Fintype ι] in
theorem exists_mem_numbered {a : String × AttrValue (GoValue ι α)} (ha : a ∈ record) :
    ∃ i, (a, i) ∈ numbered record := by
  rw [← map_fst_numbered record] at ha
  rcases List.mem_map.mp ha with ⟨z, hz, rfl⟩
  exact ⟨z.2, hz⟩

/-- **When the stage keeps order and repeated keys**: when no value that the engine keeps is or
holds an empty map, and no attribute loses its place to the class of another. -/
theorem orderKept_iff (hheap : h.reflection = reflectionOf heap)
    (hcap : record.length ≤ (limitsFromConfig h.cfg.security).maxAttrCount)
    (hshare : Unshared record heap) :
    OrderKept h record ↔
      (∀ a ∈ record, ∀ v, alone h a = some v → isFull v = true) ∧ TagsHarmless h record := by
  constructor
  · intro hkept
    have htags := tagsHarmless_of_orderKept hheap hcap hshare hkept
    refine ⟨fun a ha v hv => ?_, htags⟩
    rcases exists_mem_numbered ha with ⟨i, hz⟩
    have hplace := (hkept _ areOrders_entryOrders).places (a, i) hz
    rw [resultAt, sanitizedRoundIn_eq_alone hheap hcap hshare htags areOrders_entryOrders hz, hv,
      Option.bind_some] at hplace
    exact (keptValue_eq_iff v).mp hplace
  · rintro ⟨hfull, htags⟩ orders horders
    apply orderKept_of_places
    intro z hz
    rw [resultAt, sanitizedRoundIn_eq_alone hheap hcap hshare htags horders hz]
    cases hv : alone h z.1 with
    | none => rfl
    | some v =>
        rw [Option.bind_some]
        exact (keptValue_eq_iff v).mpr (hfull z.1 (List.of_mem_zip hz).1 v hv)

omit [DecidableEq ι] [Fintype ι] in
/-- No class is put under a key that is shorter than all of theirs. -/
theorem tagsHarmless_of_length (hlength : ∀ a ∈ record, (cleanKey a.1).length < 9) :
    TagsHarmless h record := by
  intro _ i k v l _ _ hkey
  rcases exists_numbered_of_mem_keys hkey with ⟨z, hz, -, hclean⟩
  have hshort := hlength z.1 (List.of_mem_zip hz).1
  have hlong : (cleanKey z.1.1).length = k.length + 9 := by
    rw [hclean]
    exact Pii.Go.length_classTag k
  omega

end Stage

/-- A heap with one map, which is empty. -/
def oneMap : Heap Unit (Option String) where
  pointee _ := .null
  mapAt _ := .strings .empty
  sliceAt _ := .elements fun _ => .null

/-- A handler whose classification labels one key. -/
def labelling : Handler (List Unit) (GoValue Unit (Option String)) (Option String) where
  cfg :=
    { serviceName := "", environment := "", version := ""
      security := { maxNestingDepth := 0, maxAttrValueLength := 0, maxAttrCount := 0 }
      sanitize := true, includeCaller := false, requiredKeys := [] }
  name := ""
  bound := []
  contextFields := []
  traceID := ""
  spanID := ""
  strictSchema := false
  rules := []
  hooks := { classification := some fun key _ => if key = "a" then "PII" else "" }
  env :=
    { sprintf := fun _ => ""
      hashCanonicalizer := fun _ => ""
      sha256Hex := fun s => s
      toLower := Char.toLower
      replaceSecretSpans := fun _ => none }
  reflection := reflectionOf oneMap
  sprint := fun _ => ""
  sprintQuoted := fun s => s
  frame := none

/-- `slog.Any("m", map[string]string{})` -/
def emptyMap : String × AttrValue (GoValue Unit (Option String)) := ("m", .any (.map none ()))

/-- An attribute that is labelled, and one under the key of its class. -/
def classTaken : Attrs (GoValue Unit (Option String)) :=
  [slogString "a" "x", slogString "__a__class" "own"]

/-- Strings, two of them under one key. -/
def repeated : Attrs (GoValue Unit (Option String)) :=
  [("b", "1"), ("c", "2"), ("b", "3")].map fun a => slogString a.1 a.2

/-- They keep their order. -/
theorem orderKept_repeated : OrderKept labelling repeated := by
  have hheap : labelling.reflection = reflectionOf oneMap := rfl
  have hshare : Unshared repeated oneMap := by
    have hstrings : ∀ a ∈ repeated, ∀ id, ¬ AttrReaches oneMap a.2 id := by
      intro a ha id hreach
      rcases List.mem_map.mp ha with ⟨⟨key, value⟩, -, rfl⟩
      cases hreach
    exact List.pairwise_of_forall_mem_list fun a ha _ _ id hid => absurd hid (hstrings a ha id)
  have hfull : ∀ a ∈ repeated, ((alone labelling a).map isFull).getD true = true := by
    with_unfolding_all decide
  refine (orderKept_iff hheap (by decide) hshare).mpr ⟨?_, ?_⟩
  · intro a ha v hv
    have hvalue := hfull a ha
    rwa [hv] at hvalue
  · exact tagsHarmless_of_length (by decide)

theorem run_hardenAt_oneMap (limits : Limits) (room : ℕ) :
    (hardenAt limits oneMap (room + 1) (.map none ())).run [] = (toJson .empty, []) := by
  rw [hardenAt, run_hardenStep, followReferences]
  · rfl
  · intros; contradiction
  · intros; contradiction

theorem hardenedAlone_emptyMap : hardenedAlone labelling emptyMap.2 = toJson .empty :=
  congrArg Prod.fst (run_hardenAt_oneMap (limitsFromConfig labelling.cfg.security) 6)

/-- The engine keeps the empty map, and what comes out is nothing. -/
theorem applyPIIAttrs_emptyMap :
    applyPIIAttrs labelling [emptyMap] (entryOrders labelling [emptyMap]) = [] ∧
      (alone labelling emptyMap).isSome = true := by
  have hheap : labelling.reflection = reflectionOf oneMap := rfl
  have hempty : ((alone labelling emptyMap).bind keptValue).isNone = true ∧
      (alone labelling emptyMap).isSome = true := by
    rw [alone_eq, hardenedAlone_emptyMap]
    with_unfolding_all decide
  have hnumbered : numbered [emptyMap] = [(emptyMap, 0)] := rfl
  have hmem : (emptyMap, 0) ∈ numbered [emptyMap] := by
    rw [hnumbered]
    exact List.mem_singleton_self _
  have hresult : resultAt labelling [emptyMap] (entryOrders labelling [emptyMap]) (emptyMap, 0) =
      none := by
    rw [resultAt, sanitizedRoundIn_eq_alone hheap (by decide) (List.pairwise_singleton _ _)
      (tagsHarmless_of_length (by decide)) areOrders_entryOrders hmem]
    exact Option.isNone_iff_eq_none.mp hempty.1
  refine ⟨?_, hempty.2⟩
  rw [applyPIIAttrs_eq, hnumbered, List.filterMap_cons, hresult]
  rfl

/-- An empty map is lost, and so is an attribute under the key of another's class, whose place the
class takes. -/
theorem empty_map_lost :
    (applyPIIAttrs labelling [emptyMap] (entryOrders labelling [emptyMap]) = [] ∧
      ¬ OrderKept labelling [emptyMap]) ∧
    (applyPIIAttrs labelling classTaken (entryOrders labelling classTaken)).map
        (fun a => (a.1, text? (asMap a.2))) = [("a", some "x"), ("__a__class", some "PII")] ∧
      ¬ OrderKept labelling classTaken := by
  rcases applyPIIAttrs_emptyMap with ⟨hnone, hsome⟩
  have htaken : (applyPIIAttrs labelling classTaken (entryOrders labelling classTaken)).map
      (fun a => (a.1, text? (asMap a.2))) = [("a", some "x"), ("__a__class", some "PII")] := by
    with_unfolding_all decide
  have hown : (classTaken.filterMap fun a => (alone labelling a).map fun v =>
      (cleanKey a.1, text? v)) = [("a", some "x"), ("__a__class", some "own")] := by
    with_unfolding_all decide
  refine ⟨⟨hnone, fun hkept => ?_⟩, htaken, fun hkept => ?_⟩
  · have hattrs := (hkept _ areOrders_entryOrders).attrs
    rcases Option.isSome_iff_exists.mp hsome with ⟨v, hv⟩
    rw [hnone, List.filterMap_cons, hv] at hattrs
    cases hattrs
  · have hattrs := congrArg (List.map fun a => (a.1, text? a.2))
      (hkept _ areOrders_entryOrders).attrs
    rw [List.map_map, List.map_filterMap] at hattrs
    simp only [Option.map_map] at hattrs
    have hsame := htaken.symm.trans (hattrs.trans hown)
    revert hsame
    decide

end Telemetry.Logging.Go
