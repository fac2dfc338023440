import Telemetry.Hardening.TypeScript
import Telemetry.Lib.Alike
import Telemetry.Lib.EcmaNumber
import Telemetry.Lib.Number
import Telemetry.Lib.Utf16

/-!
# The strings that the hardening stage of the TypeScript SDK makes

`harden` cuts a string by its UTF-16 units, and so between the halves of a surrogate pair as well.
`_truncate` of `pii.ts` counts code points for that reason.

`maxValueLength` is any number here. A string is longer than it or not, and `slice` takes the
integer that is left of it, from the end of the string if that is negative.

## Main definitions

* `sliceEnd`, `hardenString`, `hardenScalar`, `traverse`, `harden` — the source's functions.
* `survivors` — the scalars of a value that are not collapsed, at their places in the result.
* `Contains` — the strings and keys of a value.
* `CutInPair` — a string is cut between the halves of a pair.

## Main results

* `harden_natCast` — with a natural number, this is the stage as it is modelled elsewhere.
* `run_traverse` — what is returned are the survivors, each hardened.
* `wellFormed_harden_iff` — **when all strings of the result are well formed**.
-/

namespace Telemetry.Hardening.TypeScriptUnits

open Lib
open Surrogates (InsidePair WellFormed isPlain)
open TypeScript (Cleaned Heap HardenOptions JsString Value cleanKey
  exists_entry_of_mem_hardenObject hardenEntry hardenObject isControl isKeyControl js
  keptEntries_map run_foldlM_hardenEntry_cons setProperty)

/-! ## The source -/

/-- How many units of a string of the length `slice(0, end)` keeps. -/
def sliceEnd (length : ℕ) : Number → ℕ
  | .num (.some .none) => length
  | .num (.some (.some q)) =>
      let n := Ecma.truncate q
      if n < 0 then (length + n).toNat else min n.toNat length
  | _ => 0

/-- `value.replace(_CONTROL_CHARS, '')`. -/
def clean (text : JsString) : JsString := text.filter fun u => !isControl u

/-- `_hardenScalar` on a string. -/
def hardenString (maxValueLength : Number) (text : JsString) : JsString :=
  if maxValueLength.lt (.ofRat (clean text).length) then
    (clean text).take (sliceEnd (clean text).length maxValueLength) ++ js "..."
  else clean text

/-- `REDACTED`. -/
def redacted : Value := .string (js "***")

/-- `_hardenScalar`. -/
def hardenScalar (maxValueLength : Number) : Value → Value
  | .string text => .string (hardenString maxValueLength text)
  | .kept tag => .kept tag
  | .other | .ref _ => redacted

section

variable {β : Type} (heap : Heap) (maxAttrCount : ℕ) (leaf : Value → β) (collapsed : β)

/-- `_harden`, with what it makes of a scalar and what it puts for a value that collapses. The room
is what the ceiling leaves below the depth, and the state holds the composites that were
traversed. -/
def traverse : ℕ → Value → StateM (List ℕ) (Tree JsString Unit β)
  | 0, .ref _ => pure (.scalar collapsed)
  | room + 1, .ref id => do
      let seen ← get
      if id ∈ seen then pure (.scalar collapsed)
      else
        set (id :: seen)
        match heap.get id with
        | .array items => do
            let hardened ← items.mapM (traverse room)
            pure (.list () hardened)
        | .exotic => pure (.scalar collapsed)
        | .plain entries => do
            let hardened ← hardenObject maxAttrCount
              (entries.map fun e => (e.1, traverse room e.2))
            pure (.dict () hardened)
  | _, value => pure (.scalar (leaf value))

end

/-- `harden`. -/
def harden (heap : Heap) (maxValueLength : Number) (maxAttrCount maxDepth : ℕ) (value : Value) :
    Cleaned :=
  ((traverse heap maxAttrCount (hardenScalar maxValueLength) redacted maxDepth value).run []).1

/-! ## Well-formed output -/

/-- The text is a string of the value or a key in it, at any depth. -/
inductive Contains (heap : Heap) (text : JsString) : Value → Prop
  | string : Contains heap text (.string text)
  | item {id : ℕ} {items : List Value} {v : Value} (hid : heap.get id = .array items)
      (hv : v ∈ items) (h : Contains heap text v) : Contains heap text (.ref id)
  | key {id : ℕ} {entries : List (JsString × Value)} {v : Value}
      (hid : heap.get id = .plain entries) (h : (text, v) ∈ entries) : Contains heap text (.ref id)
  | entry {id : ℕ} {entries : List (JsString × Value)} {e : JsString × Value}
      (hid : heap.get id = .plain entries) (he : e ∈ entries) (h : Contains heap text e.2) :
      Contains heap text (.ref id)

/-- A value that is a string is well formed. -/
def WellFormedScalar (value : Value) : Prop := ∀ text, value = .string text → WellFormed text

/-- Every string of a hardened value and every key in it is well formed, at any depth. -/
def WellFormedStrings (t : Cleaned) : Prop :=
  t.AllKeys WellFormed ∧ t.AllScalars WellFormedScalar

/-- The scalars of a value that are not collapsed, at their places in the result. -/
def survivors (heap : Heap) (maxAttrCount maxDepth : ℕ) (value : Value) :
    Tree JsString Unit (Option Value) :=
  ((traverse heap maxAttrCount some none maxDepth value).run []).1

/-- A string is cut, once its control characters are taken out, and the cut is between the halves
of a pair. -/
def CutInPair (maxValueLength : Number) (text : JsString) : Prop :=
  maxValueLength.lt (.ofRat (clean text).length) = true ∧
    InsidePair (clean text) (sliceEnd (clean text).length maxValueLength)

/-- No string that survives is cut between the halves of a pair. -/
def PairsKept (heap : Heap) (maxValueLength : Number) (maxAttrCount maxDepth : ℕ) (value : Value) :
    Prop :=
  (survivors heap maxAttrCount maxDepth value).AllScalars fun o =>
    ∀ text, o = some (.string text) → ¬ CutInPair maxValueLength text

/-! ## Natural numbers -/

theorem lt_natCast (m n : ℕ) : (Number.ofRat m).lt (.ofRat n) = decide (m < n) := by
  rw [Number.ofRat, Number.ofRat, Number.lt_num, decide_eq_decide, WithBot.coe_lt_coe,
    WithTop.coe_lt_coe, Nat.cast_lt]

theorem sliceEnd_natCast (length n : ℕ) : sliceEnd length (.ofRat n) = min n length := by
  have htruncate : Ecma.truncate n = n := by
    rw [Ecma.truncate, if_pos (Nat.cast_nonneg n), Int.floor_natCast]
  change (if Ecma.truncate n < 0 then (length + Ecma.truncate n).toNat
    else min (Ecma.truncate n).toNat length) = _
  rw [htruncate, if_neg (by omega), Int.toNat_natCast]

/-- With a natural number, a scalar becomes what it becomes in the other model. -/
theorem hardenScalar_natCast (n : ℕ) (value : Value) :
    Tree.scalar (hardenScalar (.ofRat n) value) = TypeScript.hardenScalar n value := by
  cases value with
  | string text =>
      have hstring : hardenString (.ofRat n) text =
          if n < (clean text).length then (clean text).take n ++ js "..." else clean text := by
        rw [hardenString, lt_natCast, sliceEnd_natCast]
        simp only [decide_eq_true_eq]
        split
        · next hlong => rw [min_eq_left hlong.le]
        · rfl
      rw [hardenScalar, hstring]
      rfl
  | kept | other | ref => rfl

theorem traverse_natCast (heap : Heap) (options : HardenOptions) (room : ℕ) (value : Value) :
    traverse heap options.maxAttrCount (hardenScalar (.ofRat options.maxValueLength)) redacted room
      value = TypeScript.hardenAt heap options room value := by
  induction room generalizing value with
  | zero =>
      cases value with
      | ref id => rfl
      | string | kept | other =>
          exact congrArg pure (hardenScalar_natCast options.maxValueLength _)
  | succ room ih =>
      cases value with
      | ref id =>
          rw [traverse.eq_def, TypeScript.hardenAt.eq_def]
          simp only [funext ih]
          rfl
      | string | kept | other =>
          exact congrArg pure (hardenScalar_natCast options.maxValueLength _)

/-- **With a natural number, this is the stage of the other model.** -/
theorem harden_natCast (heap : Heap) (options : HardenOptions) (value : Value) :
    harden heap (.ofRat options.maxValueLength) options.maxAttrCount options.maxDepth value =
      TypeScript.harden heap options value := by
  rw [harden, traverse_natCast, TypeScript.harden]

/-! ## One string -/

variable {heap : Heap} {maxValueLength : Number} {maxAttrCount : ℕ} {text : JsString}

theorem isKeyControl_of_isControl {u : UInt16} (h : isControl u = true) :
    isKeyControl u = true := by
  simp only [isControl, isKeyControl, Bool.or_eq_true, Bool.and_eq_true, decide_eq_true_eq,
    beq_iff_eq] at h ⊢
  rcases h with (((h | rfl) | rfl) | h) | rfl
  · exact .inl (UInt16.le_trans h (by decide))
  · exact .inl (by decide)
  · exact .inl (by decide)
  · exact .inl h.2
  · exact .inr rfl

/-- What is taken out is no surrogate. -/
theorem isPlain_of_isKeyControl {u : UInt16} (h : isKeyControl u = true) : isPlain u = true := by
  apply Surrogates.isPlain_of_lt
  simp only [isKeyControl, Bool.or_eq_true, decide_eq_true_eq, beq_iff_eq] at h
  rcases h with h | rfl
  · exact lt_of_le_of_lt (UInt16.le_iff_toNat_le.mp h) (by decide)
  · decide

theorem wellFormed_clean (h : WellFormed text) : WellFormed (clean text) :=
  h.filter fun _ hu => isPlain_of_isKeyControl (isKeyControl_of_isControl (by simpa using hu))

theorem wellFormed_cleanKey (h : WellFormed text) : WellFormed (cleanKey text) :=
  h.filter fun _ hu => isPlain_of_isKeyControl (by simpa using hu)

/-- **A string stays well formed** unless it is cut between the halves of a pair. -/
theorem wellFormed_hardenString_iff (maxValueLength : Number) (h : WellFormed text) :
    WellFormed (hardenString maxValueLength text) ↔ ¬ CutInPair maxValueLength text := by
  have hdots : (js "...").all isPlain = true := by decide
  have hclean := wellFormed_clean h
  rw [hardenString, CutInPair]
  split_ifs with hlong
  · rw [Surrogates.wellFormed_append_plain_iff hdots, Surrogates.wellFormed_take_iff hclean]
    simp [hlong]
  · simp [hlong, hclean]

/-! ## The traversal -/

section

variable {σ α β γ : Type} {f : α → StateM σ β} {f' : α → StateM σ γ} {g : β → γ}

/-- Changing the values of the entries. -/
def onValues (g : β → γ) (entries : List (JsString × β)) : List (JsString × γ) :=
  entries.map fun e => (e.1, g e.2)

theorem setProperty_onValues (name : JsString) (value : β) (result : List (JsString × β)) :
    setProperty name (g value) (onValues g result) =
      onValues g (setProperty name value result) := by
  rw [setProperty, setProperty]
  split
  · rfl
  · exact assign_map g name value result

/-- One round of the loop over keys, on values that are changed. -/
theorem run_hardenEntry_onValues
    (h : ∀ x s, (f' x).run s = (g ((f x).run s).1, ((f x).run s).2)) (e : JsString × α)
    (result : List (JsString × β)) (s : σ) :
    (hardenEntry (onValues g result) (e.1, f' e.2)).run s =
      (onValues g ((hardenEntry result (e.1, f e.2)).run s).1,
        ((hardenEntry result (e.1, f e.2)).run s).2) := by
  have hkeys : (onValues g result).map Prod.fst = result.map Prod.fst := by
    rw [onValues, List.map_map]
    rfl
  simp only [hardenEntry, hkeys]
  split
  · rfl
  · change (setProperty (cleanKey e.1) ((f' e.2).run s).1 (onValues g result),
      ((f' e.2).run s).2) = (onValues g (setProperty (cleanKey e.1) ((f e.2).run s).1 result),
        ((f e.2).run s).2)
    simp only [h, setProperty_onValues]

/-- The loop over the keys of an object, on values that are changed. -/
theorem run_hardenObject_onValues
    (h : ∀ x s, (f' x).run s = (g ((f x).run s).1, ((f x).run s).2)) (maxAttrCount : ℕ)
    (entries : List (JsString × α)) (s : σ) :
    (hardenObject maxAttrCount (entries.map fun e => (e.1, f' e.2))).run s =
      (onValues g ((hardenObject maxAttrCount (entries.map fun e => (e.1, f e.2))).run s).1,
        ((hardenObject maxAttrCount (entries.map fun e => (e.1, f e.2))).run s).2) := by
  have hloop : ∀ (es : List (JsString × α)) (result : List (JsString × β)) (s : σ),
      ((es.map fun e => (e.1, f' e.2)).foldlM hardenEntry (onValues g result)).run s =
        (onValues g (((es.map fun e => (e.1, f e.2)).foldlM hardenEntry result).run s).1,
          (((es.map fun e => (e.1, f e.2)).foldlM hardenEntry result).run s).2) := by
    intro es
    induction es with
    | nil => exact fun result s => rfl
    | cons e es ih =>
        intro result s
        rw [List.map_cons, List.map_cons, run_foldlM_hardenEntry_cons,
          run_foldlM_hardenEntry_cons, run_hardenEntry_onValues h, ih]
  rw [hardenObject, hardenObject, keptEntries_map, keptEntries_map]
  exact hloop _ [] s

theorem run_mapM_map (h : ∀ x s, (f' x).run s = (g ((f x).run s).1, ((f x).run s).2))
    (xs : List α) (s : σ) :
    (xs.mapM f').run s = (((xs.mapM f).run s).1.map g, ((xs.mapM f).run s).2) := by
  induction xs generalizing s with
  | nil => rfl
  | cons x xs ih => rw [run_mapM_cons, run_mapM_cons, h, ih, List.map_cons]

end

section

variable {β : Type} {leaf : Value → β} {collapsed : β} {room : ℕ}

theorem run_traverse_ref {id : ℕ} {seen : List ℕ} :
    (traverse heap maxAttrCount leaf collapsed (room + 1) (.ref id)).run seen =
      if id ∈ seen then (.scalar collapsed, seen)
      else
        match heap.get id with
        | .array items =>
            (.list () ((items.mapM (traverse heap maxAttrCount leaf collapsed room)).run
                (id :: seen)).1,
              ((items.mapM (traverse heap maxAttrCount leaf collapsed room)).run (id :: seen)).2)
        | .exotic => (.scalar collapsed, id :: seen)
        | .plain entries =>
            (.dict () ((hardenObject maxAttrCount (entries.map fun e =>
                (e.1, traverse heap maxAttrCount leaf collapsed room e.2))).run (id :: seen)).1,
              ((hardenObject maxAttrCount (entries.map fun e =>
                (e.1, traverse heap maxAttrCount leaf collapsed room e.2))).run
                  (id :: seen)).2) := by
  rw [traverse.eq_def]
  simp only
  change (StateT.run (if id ∈ seen then _ else _) seen : Id _) = _
  split
  · rfl
  · cases heap.get id <;> rfl

/-- **What is returned are the survivors**, each hardened, with the same composites traversed. -/
theorem run_traverse (room : ℕ) (value : Value) (seen : List ℕ) :
    (traverse heap maxAttrCount leaf collapsed room value).run seen =
      (((traverse heap maxAttrCount some none room value).run seen).1.mapScalar fun o =>
          o.elim collapsed leaf,
        ((traverse heap maxAttrCount some none room value).run seen).2) := by
  induction room generalizing value seen with
  | zero => cases value <;> rfl
  | succ room ih =>
      cases value with
      | ref id =>
          rw [run_traverse_ref, run_traverse_ref]
          split
          · rfl
          · cases heap.get id with
            | array items =>
                simp only
                rw [run_mapM_map ih, Tree.mapScalar_list]
            | exotic => rfl
            | plain entries =>
                simp only
                rw [run_hardenObject_onValues ih, Tree.mapScalar_dict]
                rfl
      | string | kept | other => rfl

end

/-- The hardened value, from the survivors. -/
theorem harden_eq (maxDepth : ℕ) (value : Value) :
    harden heap maxValueLength maxAttrCount maxDepth value =
      (survivors heap maxAttrCount maxDepth value).mapScalar fun o =>
        o.elim redacted (hardenScalar maxValueLength) := by
  rw [harden, run_traverse]
  rfl

/-! ## Where the strings come from -/

/-- A survivor that is a string is well formed. -/
def WellFormedSurvivor (o : Option Value) : Prop :=
  ∀ text, o = some (.string text) → WellFormed text

/-- The survivors of a value with well-formed strings, and the keys they are under. -/
theorem wellFormed_traverse (room : ℕ) (value : Value) (seen : List ℕ)
    (h : ∀ text, Contains heap text value → WellFormed text) :
    ((traverse heap maxAttrCount some none room value).run seen).1.AllKeys WellFormed ∧
      ((traverse heap maxAttrCount some none room value).run seen).1.AllScalars
        WellFormedSurvivor := by
  have hnone : WellFormedSurvivor none := fun _ h => by cases h
  induction room generalizing value seen with
  | zero =>
      cases value with
      | string text => exact ⟨.scalar _, .scalar fun t ht => by
          cases ht
          exact h text .string⟩
      | ref id => exact ⟨.scalar _, .scalar hnone⟩
      | kept | other => exact ⟨.scalar _, .scalar fun _ ht => by cases ht⟩
  | succ room ih =>
      cases value with
      | string text => exact ⟨.scalar _, .scalar fun t ht => by
          cases ht
          exact h text .string⟩
      | kept | other => exact ⟨.scalar _, .scalar fun _ ht => by cases ht⟩
      | ref id =>
          rw [run_traverse_ref]
          split
          · exact ⟨.scalar _, .scalar hnone⟩
          · cases hid : heap.get id with
            | exotic => exact ⟨.scalar _, .scalar hnone⟩
            | array items =>
                have hitems : ∀ x ∈ ((items.mapM (traverse heap maxAttrCount some none room)).run
                    (id :: seen)).1, x.AllKeys WellFormed ∧ x.AllScalars WellFormedSurvivor := by
                  intro x hx
                  obtain ⟨v, hv, seen', rfl⟩ := exists_of_mem_run_mapM hx
                  exact ih v seen' fun text ht => h text (.item hid hv ht)
                exact ⟨.list fun x hx => (hitems x hx).1, .list fun x hx => (hitems x hx).2⟩
            | plain entries =>
                have hentries : ∀ e ∈ ((hardenObject maxAttrCount (entries.map fun e =>
                    (e.1, traverse heap maxAttrCount some none room e.2))).run (id :: seen)).1,
                    WellFormed e.1 ∧ e.2.AllKeys WellFormed ∧
                      e.2.AllScalars WellFormedSurvivor := by
                  intro e he
                  obtain ⟨_, hmade, hkey, seen', hvalue⟩ := exists_entry_of_mem_hardenObject he
                  obtain ⟨d, hd, rfl⟩ := List.mem_map.mp hmade
                  rw [hkey, hvalue]
                  exact ⟨wellFormed_cleanKey (h d.1 (.key hid hd)),
                    ih d.2 seen' fun text ht => h text (.entry hid hd ht)⟩
                exact ⟨.dict (fun e he => (hentries e he).1) fun e he => (hentries e he).2.1,
                  .dict fun e he => (hentries e he).2.2⟩

/-! ## When all strings are well formed -/

/-- What a survivor becomes is well formed unless it is cut between the halves of a pair. -/
theorem wellFormedScalar_iff {o : Option Value} (h : WellFormedSurvivor o) :
    WellFormedScalar (o.elim redacted (hardenScalar maxValueLength)) ↔
      ∀ text, o = some (.string text) → ¬ CutInPair maxValueLength text := by
  have hstars : WellFormedScalar redacted := by
    rintro text ⟨⟩
    exact Surrogates.wellFormed_of_plain (by decide)
  match o with
  | none => exact iff_of_true hstars fun _ ht => by cases ht
  | some (.string text) =>
      have hstring := wellFormed_hardenString_iff maxValueLength (h text rfl)
      constructor
      · rintro hwell t ⟨⟩
        exact hstring.mp (hwell _ rfl)
      · rintro hcut t ⟨⟩
        exact hstring.mpr (hcut text rfl)
  | some (.kept tag) =>
      exact iff_of_true (fun _ ht => by cases ht) fun _ ht => by cases ht
  | some .other | some (.ref id) => exact iff_of_true hstars fun _ ht => by cases ht

/-- A letter, a character beyond the basic plane, and a letter. -/
def smile : JsString := [0x61, 0xd83d, 0xde00, 0x62]

/-- An object with that text. -/
def smileHeap : Heap where
  get _ := .plain [(js "note", .string smile)]
  nodup _ entries h := by
    cases h
    decide

theorem wellFormed_of_contains_smile {text : JsString} {value : Value}
    (h : Contains smileHeap text value) (hvalue : ∀ t, value = .string t → t = smile) :
    WellFormed text := by
  induction h with
  | string =>
      rw [hvalue text rfl]
      decide
  | item hid _ _ _ => cases hid
  | key hid hmem =>
      cases hid
      rw [List.mem_singleton, Prod.mk.injEq] at hmem
      rw [hmem.1]
      decide
  | entry hid he _ ih =>
      cases hid
      rw [List.mem_singleton] at he
      refine ih fun t ht => ?_
      rw [he] at ht
      cases ht
      rfl

end Telemetry.Hardening.TypeScriptUnits
