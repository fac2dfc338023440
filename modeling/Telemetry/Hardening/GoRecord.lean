import Telemetry.Hardening.GoBounds

/-!
# Bounds of a hardened record in the Go SDK

`applyPII` hardens the attributes of a record in rounds, one for each time that a key is repeated.
Every round is bounded and crosses each reference once. But every round has a cap and a walk of its
own, so a record with repeated keys may keep more attributes than the cap, and may expand a
reference once in each round.

## Main definitions

* `hardenedRecord`, `expanded` — the hardening step on a record, and what it expands.
* `RecordBounded` — the bounds of a record.

## Main results

* `recordBounded_iff` — **when a hardened record is bounded**.
-/

namespace Telemetry.Hardening.Go

open Telemetry.Lib Telemetry.Pii Telemetry.Logging.Go

variable {ι α : Type} [GoScalars α] [DecidableEq ι] [Fintype ι] (limits : Limits)
  (heap : Heap ι α) (record : Attrs (GoValue ι α))

/-- `_roundCount`. -/
def roundCount (rounds : List ℕ) : ℕ :=
  rounds.foldl (fun highest round => if highest < round then round else highest) 0 + 1

/-- `_roundPayload`. -/
def roundPayload (i : ℕ) : SortedMap String (AttrValue (GoValue ι α)) :=
  round (cleanedRecordAttrs record) (roundsOf (cleanedRecordAttrs record)) i

/-- `_hardenAttrs` on the payload of a round. -/
def hardenedPayload (i : ℕ) : SortedMap String (Json α) :=
  hardenAttrs (reflectionOf heap) (roundPayload record i) limits

/-- The record that the hardening step gives: every attribute with what its round holds. -/
def hardenedRecord : List (String × Json α) :=
  rebuilt (cleanedRecordAttrs record) (roundsOf (cleanedRecordAttrs record))
    fun i key => (hardenedPayload limits heap record i).lookup key

/-- The references that a round expands: those that its walk has recorded. -/
def expanded (i : ℕ) : List ι :=
  ((hardenMap limits ((roundPayload record i).mapValues
    (hardenValue (reflectionOf heap) limits 1))).run (reflectionOf heap).initial).2

/-- The bounds of a record: not more attributes than the cap, no reference expanded twice, and
every attribute under a clean key, with a bounded value of the caller's. -/
structure RecordBounded : Prop where
  count : (hardenedRecord limits heap record).length ≤ limits.maxAttrCount
  once : ((List.range (roundCount (roundsOf (cleanedRecordAttrs record)))).flatMap
    (expanded limits heap record)).Nodup
  bounded : ∀ a ∈ hardenedRecord limits heap record, (∀ c ∈ a.1.toList, IsKeyChar c) ∧
    ∃ d ∈ record, cleanKey d.1 = a.1 ∧
      AttrBounded limits heap (limits.maxDepth - 1) d.2 a.2.val

/-- The references that a walk over the payload of a round crosses. -/
def crossings (i : ℕ) : List ι :=
  (visited limits {} (roundPayload record i).entries).foldl
    (fun seen a => crossAttr limits heap 1 a seen) []

variable {limits heap record}

/-! ## Every attribute -/

omit [DecidableEq ι] [Fintype ι] in
/-- What a round holds are attributes of the record. -/
theorem exists_of_mem_roundPayload {i : ℕ} {e : String × AttrValue (GoValue ι α)}
    (h : e ∈ (roundPayload record i).entries) : ∃ d ∈ record, (cleanKey d.1, d.2) = e := by
  have hround := (SortedMap.mem_of_mem_extend h).resolve_left List.not_mem_nil
  rw [roundEntries] at hround
  rcases List.mem_map.mp hround with ⟨z, hz, rfl⟩
  exact List.mem_map.mp (List.of_mem_zip (List.mem_of_mem_filter hz)).1

omit [DecidableEq ι] [Fintype ι] in
theorem cleanKey_of_mem_roundPayload {i : ℕ} : ∀ k ∈ (roundPayload record i).keys,
    cleanKey k = k := by
  intro k hk
  rcases List.mem_map.mp hk with ⟨e, he, rfl⟩
  rcases exists_of_mem_roundPayload he with ⟨d, -, rfl⟩
  exact cleanKey_cleanKey d.1

theorem bounded_hardenedRecord (hlength : 0 < limits.maxValueLength)
    (hcap : 0 < limits.maxAttrCount) : ∀ a ∈ hardenedRecord limits heap record,
      (∀ c ∈ a.1.toList, IsKeyChar c) ∧ ∃ d ∈ record, cleanKey d.1 = a.1 ∧
        AttrBounded limits heap (limits.maxDepth - 1) d.2 a.2.val := by
  intro a ha
  rcases List.mem_filterMap.mp ha with ⟨z, hz, hvalue⟩
  rcases Option.map_eq_some_iff.mp hvalue with ⟨v, hv, rfl⟩
  rcases exists_of_mem_hardenMap (SortedMap.lookup_eq_some.mp hv) with ⟨act, hact, hkey, s, hmade⟩
  rcases List.mem_map.mp hact with ⟨e, he, rfl⟩
  rcases exists_of_mem_roundPayload he with ⟨d, hd, rfl⟩
  have hclean : cleanKey d.1 = z.1.1 := by
    rw [← hkey]
    exact (cleanKey_cleanKey d.1).symm
  refine ⟨?_, d, hd, hclean, ?_⟩
  · rw [← hclean]
    exact isKeyChar_of_mem_cleanKey
  · rw [show v = _ from hmade]
    exact attrBounded_hardenValue hlength hcap 1 d.2 s

/-! ## References -/

/-- A round expands what its walk crosses. -/
theorem expanded_eq_crossings (i : ℕ) :
    expanded limits heap record i = crossings limits heap record i := by
  rw [expanded, run_hardenMap_snd, SortedMap.mapValues, visited_map, List.foldl_map, crossings]
  exact foldl_congr_of_mem (fun a _ s => run_hardenValue_snd 1 a s) []

theorem nodup_crossings (i : ℕ) : (crossings limits heap record i).Nodup :=
  nodup_foldl (fun a _ _ hseen => nodup_crossAttr 1 a hseen) List.nodup_nil

/-- **No reference is expanded twice exactly if no two rounds cross the same one.** -/
theorem once_iff (n : ℕ) : ((List.range n).flatMap (expanded limits heap record)).Nodup ↔
    ∀ i j, i < j → j < n →
      (crossings limits heap record i).Disjoint (crossings limits heap record j) := by
  rw [List.nodup_flatMap, List.pairwise_iff_getElem]
  constructor
  · rintro ⟨-, hpairwise⟩ i j hij hj
    have hdisjoint := hpairwise i j (by rw [List.length_range]; omega)
      (by rwa [List.length_range]) hij
    rw [Function.onFun_apply, List.getElem_range, List.getElem_range, expanded_eq_crossings,
      expanded_eq_crossings] at hdisjoint
    exact hdisjoint
  · intro hdisjoint
    refine ⟨fun i _ => ?_, fun i j _ hj hij => ?_⟩
    · rw [expanded_eq_crossings]
      exact nodup_crossings i
    · rw [Function.onFun_apply, List.getElem_range, List.getElem_range, expanded_eq_crossings,
        expanded_eq_crossings]
      exact hdisjoint i j hij (by rwa [List.length_range] at hj)

/-! ## The number of attributes -/

section Count

omit [GoScalars α] in
/-- The loop over clean keys in order keeps as many as there is room for. -/
theorem length_foldlM_of_clean {σ : Type} (limits : Limits) {es : List (String × StateM σ (Json α))}
    (hclean : ∀ e ∈ es, cleanKey e.1 = e.1) (hsorted : SortedKeys es)
    {state : Rebuilt String (Json α)} (hnew : ∀ e ∈ es, state.out.contains e.1 = false)
    (hcap : 0 < limits.maxAttrCount) (hheld : state.out.entries.length ≤ limits.maxAttrCount)
    (s : σ) : ((es.foldlM (hardenMapKey limits) state).run s).1.out.entries.length =
      min (state.out.entries.length + es.length) limits.maxAttrCount := by
  induction es generalizing state s with
  | nil => exact (min_eq_left hheld).symm
  | cons e es ih =>
      rcases List.pairwise_cons.mp hsorted with ⟨hfirst, hrest⟩
      rw [List.forall_mem_cons] at hclean hnew
      rw [run_foldlM_cons, List.length_cons]
      rcases hardenMapKey_of_clean limits hclean.1 hnew.1 s with ⟨hroom, hout⟩ | ⟨hfull, hsame⟩
      · have hlength := SortedMap.length_insert hnew.1 (e.2.run s).1
        rw [hasRoom] at hroom
        rw [ih hclean.2 hrest, hout, hlength]
        · congr 1
          omega
        · intro e' he'
          rw [hout, SortedMap.contains, SortedMap.lookup_insert, if_neg (hfirst e' he').ne']
          exact hnew.2 e' he'
        · rw [hout, hlength]
          omega
      · rw [hasRoom] at hfull
        rw [hsame]
        simp only
        rw [ih hclean.2 hrest hnew.2 hheld]
        omega

theorem length_hardenedPayload (hcap : 0 < limits.maxAttrCount) (i : ℕ) :
    (hardenedPayload limits heap record i).entries.length =
      min (roundPayload record i).keys.length limits.maxAttrCount := by
  have hclean : ∀ k ∈ (roundPayload record i).keys, cleanKey k = k := cleanKey_of_mem_roundPayload
  have hloop := length_foldlM_of_clean limits
    (cleanKey_of_mem_mapValues (f := hardenValue (reflectionOf heap) limits 1) hclean)
    ((roundPayload record i).mapValues _).sorted (fun e _ => contains_empty e.1) hcap
    (Nat.zero_le _) (reflectionOf heap).initial
  have hempty : ({} : Rebuilt String (Json α)).out.entries.length = 0 := rfl
  rw [hempty, Nat.zero_add, SortedMap.mapValues, List.length_map] at hloop
  rw [SortedMap.keys, List.length_map]
  exact hloop

/-- The record takes from a round what it holds. -/
theorem length_rebuiltRound_hardened (i : ℕ) :
    (rebuiltRound (cleanedRecordAttrs record) i fun i key =>
      (hardenedPayload limits heap record i).lookup key).length =
        (hardenedPayload limits heap record i).entries.length := by
  have hkeys : (hardenedPayload limits heap record i).keys.length =
      (hardenedPayload limits heap record i).entries.length := List.length_map _
  rw [← hkeys]
  apply length_rebuiltRound _ _ _ (SortedMap.nodup_keys _)
  intro k
  rw [SortedMap.mem_keys]
  refine ⟨fun hsome => ⟨?_, hsome⟩, And.right⟩
  by_contra hnot
  have habsent : (roundPayload record i).lookup k = none := by
    rw [← Option.not_isSome_iff_eq_none, ← SortedMap.mem_keys]
    intro hk
    rcases List.mem_map.mp hk with ⟨e, he, rfl⟩
    exact hnot (List.mem_map_of_mem
      ((SortedMap.mem_of_mem_extend he).resolve_left List.not_mem_nil))
  rw [hardenedPayload, lookup_hardenAttrs_of_absent limits (reflectionOf heap)
    cleanKey_of_mem_roundPayload habsent] at hsome
  cases hsome

omit [DecidableEq ι] [Fintype ι] in
/-- The later rounds have no more keys than the first. -/
theorem length_keys_le (i : ℕ) :
    (roundPayload record i).keys.length ≤ (roundPayload record 0).keys.length := by
  apply (SortedMap.nodup_keys _).length_le_of_subset
  intro k hk
  rw [roundPayload, mem_keys_round] at hk ⊢
  omega

/-- Where the first round keeps to the cap, nothing is lost. -/
theorem length_hardenedRecord_of_le
    (h : (roundPayload record 0).keys.length ≤ limits.maxAttrCount) :
    (hardenedRecord limits heap record).length = record.length := by
  have hlength : (cleanedRecordAttrs record).length = record.length := List.length_map _
  rw [hardenedRecord, length_rebuilt_of_isSome, hlength]
  intro z hz
  have hkey : z.1.1 ∈ (roundPayload record z.2).keys := by
    rw [roundPayload, mem_keys_round]
    exact lt_count_of_mem_zip _ hz
  rcases Option.isSome_iff_exists.mp (SortedMap.mem_keys.mp hkey) with ⟨value, hvalue⟩
  rcases lookup_hardenAttrs limits (reflectionOf heap) cleanKey_of_mem_roundPayload hvalue with
    ⟨-, s, hlookup⟩ | ⟨hfull, -⟩
  · rw [hardenedPayload, hlookup]
    rfl
  · -- the key itself is not among those before it
    have hbefore : ((roundPayload record z.2).keys.filter (· < z.1.1)).length <
        (roundPayload record z.2).keys.length :=
      List.length_filter_lt_length_iff_exists.mpr ⟨z.1.1, hkey, by simp⟩
    have hle : (roundPayload record z.2).keys.length ≤ (roundPayload record 0).keys.length :=
      length_keys_le z.2
    rw [survivesCap, hasRoom] at hfull
    omega

/-- **A hardened record keeps to the cap exactly if no key comes twice, or the record did.** -/
theorem length_hardenedRecord_le_iff (hcap : 0 < limits.maxAttrCount) :
    (hardenedRecord limits heap record).length ≤ limits.maxAttrCount ↔
      (record.map fun a => cleanKey a.1).Nodup ∨ record.length ≤ limits.maxAttrCount := by
  have hkeys : (cleanedRecordAttrs record).map Prod.fst = record.map fun a => cleanKey a.1 := by
    rw [cleanedRecordAttrs, List.map_map]
    rfl
  have hrecord : (cleanedRecordAttrs record).length = record.length := List.length_map _
  constructor
  · intro hlength
    by_contra hneither
    rw [not_or, not_le] at hneither
    rcases hneither with ⟨hrepeat, hmany⟩
    by_cases hfirst : (roundPayload record 0).keys.length ≤ limits.maxAttrCount
    · rw [length_hardenedRecord_of_le hfirst] at hlength
      omega
    · -- the first round fills the cap, and the second has something too
      have hsecond : 0 < (roundPayload record 1).keys.length := by
        rw [← hkeys, List.nodup_iff_count_le_one, not_forall] at hrepeat
        rcases hrepeat with ⟨k, hk⟩
        apply List.length_pos_of_mem (a := k)
        rw [roundPayload, mem_keys_round]
        omega
      have hparts := length_add_length_le (cleanedRecordAttrs record) 0
        (fun i key => (hardenedPayload limits heap record i).lookup key) (j := 1) (by decide)
      rw [length_rebuiltRound_hardened, length_rebuiltRound_hardened, length_hardenedPayload hcap,
        length_hardenedPayload hcap, ← hardenedRecord] at hparts
      omega
  · rintro (hnodup | hfew)
    · rw [hardenedRecord, rebuilt_eq_rebuiltRound _ _ (hkeys ▸ hnodup),
        length_rebuiltRound_hardened, length_hardenedPayload hcap]
      exact min_le_right _ _
    · exact (length_rebuilt_le _ _).trans (hrecord.trans_le hfew)

end Count

/-! ## The record -/

omit [DecidableEq ι] [Fintype ι] in
/-- A record whose keys differ has one round. -/
theorem roundCount_of_nodup (h : (record.map fun a => cleanKey a.1).Nodup) :
    roundCount (roundsOf (cleanedRecordAttrs record)) = 1 := by
  have hzero : ∀ rounds : List ℕ, (∀ i ∈ rounds, i = 0) → roundCount rounds = 1 := by
    intro rounds hrounds
    rw [roundCount]
    induction rounds with
    | nil => rfl
    | cons i rounds ih =>
        rw [List.forall_mem_cons] at hrounds
        rw [List.foldl_cons, hrounds.1]
        exact ih hrounds.2
  apply hzero
  apply eq_zero_of_mem_roundsOf
  rw [cleanedRecordAttrs, List.map_map]
  exact h

/-- **When a hardened record is bounded**: when no cleaned key comes twice, or there are no more
attributes than the cap and no two rounds cross the same reference. -/
theorem recordBounded_iff
    (hpositive : 0 < limits.maxDepth ∧ 0 < limits.maxValueLength ∧ 0 < limits.maxAttrCount) :
    RecordBounded limits heap record ↔
      (record.map fun a => cleanKey a.1).Nodup ∨
        record.length ≤ limits.maxAttrCount ∧
          ∀ i j, i < j → j < roundCount (roundsOf (cleanedRecordAttrs record)) →
            (crossings limits heap record i).Disjoint (crossings limits heap record j) := by
  rcases hpositive with ⟨-, hlength, hcap⟩
  constructor
  · intro h
    rcases (length_hardenedRecord_le_iff hcap).mp h.count with hnodup | hfew
    · exact .inl hnodup
    · exact .inr ⟨hfew, (once_iff _).mp h.once⟩
  · intro h
    refine ⟨(length_hardenedRecord_le_iff hcap).mpr (h.imp id And.left), (once_iff _).mpr ?_,
      bounded_hardenedRecord hlength hcap⟩
    rcases h with hnodup | ⟨-, hdisjoint⟩
    · rw [roundCount_of_nodup hnodup]
      omega
    · exact hdisjoint

/-! ## One slice twice -/

/-- Strings, and nothing else but `nil`. -/
instance : GoScalars (Option String) where
  str := some
  str? a := a
  str?_eq_some := Iff.rfl
  null := none
  null_not_str := rfl

/-- A heap with one slice of strings. -/
def oneSlice : Heap Unit (Option String) where
  pointee _ := .null
  mapAt _ := .others 0
  sliceAt _ := .elements fun _ => .str "x"

/-- Under one key it is bounded. -/
theorem recordBounded_oneSlice :
    RecordBounded ⟨8, 1024, 1⟩ oneSlice [("k", .any (.slice none () 1))] :=
  (recordBounded_iff (by decide)).mpr (.inl (by decide))

/-- Two attributes with one key and the same slice. -/
def sharedTwice : Attrs (GoValue Unit (Option String)) :=
  [("k", .any (.slice none () 1)), ("k", .any (.slice none () 1))]

theorem run_hardenAt_oneSlice (limits : Limits) (room : ℕ) :
    (hardenAt limits oneSlice (room + 1) (.slice none () 1)).run [] =
      (jsonList [jsonText (hardenString "x" limits)], [()]) := by
  have hitem : ∀ seen, (hardenAt limits oneSlice room (.str "x")).run seen =
      (jsonText (hardenString "x" limits), seen) := by
    intro seen
    cases room <;>
      (rw [hardenAt, run_hardenStep, followReferences] <;> first | rfl | (intros; contradiction))
  have hitems : (([.str "x"] : List (GoValue Unit (Option String))).mapM
      (hardenAt limits oneSlice room)).run [()] =
        ([jsonText (hardenString "x" limits)], [()]) := by
    rw [run_mapM_cons, hitem]
    rfl
  rw [hardenAt, run_hardenStep, followReferences]
  · exact congrArg (fun r : List (Json (Option String)) × List Unit => (jsonList r.1, r.2)) hitems
  · intros; contradiction
  · intros; contradiction

/-- With a cap of one attribute, the record keeps both, and each has the whole slice. -/
theorem slice_expanded_twice :
    ¬ RecordBounded ⟨8, 1024, 1⟩ oneSlice sharedTwice ∧
      (hardenedRecord ⟨8, 1024, 1⟩ oneSlice sharedTwice).length = 2 ∧
      ∀ i ∈ [0, 1], expanded ⟨8, 1024, 1⟩ oneSlice sharedTwice i = [()] ∧
        (hardenedPayload ⟨8, 1024, 1⟩ oneSlice sharedTwice i).entries =
          [("k", jsonList [jsonText "x"])] := by
  have hlength : (hardenedRecord ⟨8, 1024, 1⟩ oneSlice sharedTwice).length = 2 := rfl
  have hpayload : ∀ i ∈ [0, 1], roundPayload sharedTwice i =
      SortedMap.empty.insert "k" (.any (.slice none () 1)) := by
    rw [List.forall_mem_cons, List.forall_mem_singleton]
    exact ⟨rfl, rfl⟩
  refine ⟨fun h => ?_, hlength, fun i hi => ⟨?_, ?_⟩⟩
  · have hcount := h.count
    rw [hlength] at hcount
    exact absurd hcount (by decide)
  · rw [expanded, hpayload i hi]
    exact congrArg Prod.snd (run_hardenAt_oneSlice _ 6)
  · rw [hardenedPayload, hpayload i hi]
    exact congrArg (fun r => [("k", r.1)]) (run_hardenAt_oneSlice ⟨8, 1024, 1⟩ 6)

end Telemetry.Hardening.Go
