import Telemetry.Lib.Renamed
import Telemetry.Pii.Go
import Telemetry.Pii.Json

/-!
# The hardening stage of the Go SDK

`harden.go`, as far as a log record's attributes go through it: strings lose control
characters and are cut to a length, groups are rebuilt under cleaned keys in sorted order
and up to a number of keys, groups that lie too deep collapse.

What reflection finds in a value that is neither a string nor a group is a parameter. It
may depend on the references met before in the same walk, so hardening runs in a state.

## Main definitions

* `AttrValue` — the value of an attribute.
* `hardenString`, `hardenMap`, `hardenValue` — the stage.
-/

namespace Telemetry.Logging.Go

open Telemetry.Lib Telemetry.Pii

variable {α σ γ : Type} [Scalars α]

/-- `slog.Value`: a string, a group, or any other value. -/
inductive AttrValue (γ : Type)
  | str (s : String)
  | group (attrs : List (String × AttrValue γ))
  | any (v : γ)

/-- The attributes of a group are smaller than it. -/
theorem AttrValue.sizeOf_lt_group {γ : Type} [SizeOf γ] {entry : String × AttrValue γ}
    {attrs : List (String × AttrValue γ)} (h : entry ∈ attrs) :
    sizeOf entry.2 < sizeOf (AttrValue.group attrs) := by
  have hlt := List.sizeOf_lt_of_mem h
  obtain ⟨key, value⟩ := entry
  simp only [Prod.mk.sizeOf_spec, AttrValue.group.sizeOf_spec] at hlt ⊢
  omega

/-- `Limits`. A length or a count of zero is none. -/
structure Limits where
  maxDepth : ℕ
  maxValueLength : ℕ
  maxAttrCount : ℕ
  deriving DecidableEq, Repr

/-- The `Security` part of the configuration. -/
structure SecurityConfig where
  maxNestingDepth : ℤ
  maxAttrValueLength : ℤ
  maxAttrCount : ℤ
  deriving DecidableEq, Repr

/-- `DefaultLimits`. -/
def defaultLimits : Limits :=
  { maxDepth := Pii.Go.defaultMaxDepth, maxValueLength := 1024, maxAttrCount := 64 }

/-- `_limitsFromConfig`. -/
def limitsFromConfig (cfg : SecurityConfig) : Limits where
  maxDepth :=
    if 0 < cfg.maxNestingDepth then cfg.maxNestingDepth.toNat else defaultLimits.maxDepth
  maxValueLength :=
    if 0 < cfg.maxAttrValueLength then cfg.maxAttrValueLength.toNat
    else defaultLimits.maxValueLength
  maxAttrCount :=
    if 0 < cfg.maxAttrCount then cfg.maxAttrCount.toNat else defaultLimits.maxAttrCount

/-- `hardenString`. -/
def hardenString (s : String) (limits : Limits) : String :=
  let cleaned := s.toList.filter fun r =>
    r == '\t' || r == '\n' || r == '\r' || !(r < ' ' || r == '\x7f')
  if limits.maxValueLength = 0 ∨ cleaned.length ≤ limits.maxValueLength then
    String.ofList cleaned
  else String.ofList (cleaned.take limits.maxValueLength) ++ Pii.Go.truncationSuffix

/-- `_cleanKey`. -/
def cleanKey (key : String) : String :=
  String.ofList (key.toList.filter fun r => !(r < ' ' || r == '\x7f'))

/-- One round of the loop of `hardenMap`, on a key and the hardening of its value. -/
def hardenMapKey (limits : Limits) (state : Rebuilt String (Json α))
    (e : String × StateM σ (Json α)) : StateM σ (Rebuilt String (Json α)) :=
  let name := cleanKey e.1
  let untouched := name = e.1
  let claim : StateM σ (Rebuilt String (Json α)) := do
    let value ← e.2
    pure
      { out := state.out.insert name value
        verbatim := if untouched then name :: state.verbatim else state.verbatim }
  if state.out.contains name then
    if ¬ untouched ∨ state.verbatim.contains name then pure state else claim
  -- a key after the cap may still take back its name, so the loop goes on
  else if 0 < limits.maxAttrCount ∧ limits.maxAttrCount ≤ state.out.entries.length then pure state
  else claim

/-- `hardenMap`, on the hardenings of the values. -/
def hardenMap (limits : Limits) (m : SortedMap String (StateM σ (Json α))) :
    StateM σ (SortedMap String (Json α)) := do
  let state ← m.entries.foldlM (hardenMapKey limits) {}
  pure state.out

/-- What reflection does, from the references met so far. -/
structure Reflection (σ γ α : Type) where
  /-- Nothing has been met. -/
  initial : σ
  /-- `hardenValue` on a value that is neither a string nor a group. -/
  hardenOther : Limits → ℕ → γ → StateM σ (Json α)

mutual
/-- `hardenValue`. The map that `_attrValue` makes of a group is met for the first time, and
holds the last attribute of each key. -/
def hardenValue (R : Reflection σ γ α) (limits : Limits) (depth : ℕ) :
    AttrValue γ → StateM σ (Json α)
  | .str s => pure (jsonText (hardenString s limits))
  | .any v => R.hardenOther limits depth v
  | .group attrs =>
      if limits.maxDepth ≤ depth then pure (jsonText Pii.Go.redacted)
      else do
        let m ← hardenMap limits
          (SortedMap.empty.extend (hardenGroup R limits (depth + 1) attrs))
        pure (toJson m)
/-- The hardenings of the attributes of a group. -/
def hardenGroup (R : Reflection σ γ α) (limits : Limits) (depth : ℕ) :
    List (String × AttrValue γ) → List (String × StateM σ (Json α))
  | [] => []
  | (key, value) :: attrs => (key, hardenValue R limits depth value) ::
      hardenGroup R limits depth attrs
end

/-- `_hardenAttrs`. -/
def hardenAttrs (R : Reflection σ γ α) (attrs : SortedMap String (AttrValue γ))
    (limits : Limits) : SortedMap String (Json α) :=
  ((hardenMap limits (attrs.mapValues (hardenValue R limits 1))).run R.initial).1

/-! ## Keys -/

/-- Cleaning a cleaned key changes nothing. -/
theorem cleanKey_cleanKey (key : String) : cleanKey (cleanKey key) = cleanKey key := by
  simp [cleanKey, List.filter_filter]

/-! ## Maps whose keys are clean -/

/-- There is room for one more under a count, if there is one. -/
def hasRoom (maxAttrCount held : ℕ) : Prop := maxAttrCount = 0 ∨ held < maxAttrCount

instance (maxAttrCount held : ℕ) : Decidable (hasRoom maxAttrCount held) :=
  inferInstanceAs (Decidable (_ ∨ _))

variable (limits : Limits)

omit [Scalars α] in
/-- A clean key that is new is kept where there is room, and skipped elsewhere. -/
theorem hardenMapKey_of_clean {state : Rebuilt String (Json α)}
    {e : String × StateM σ (Json α)} (hclean : cleanKey e.1 = e.1)
    (hnew : state.out.contains e.1 = false) (s : σ) :
    (hasRoom limits.maxAttrCount state.out.entries.length ∧
        ((hardenMapKey limits state e).run s).1.out = state.out.insert e.1 (e.2.run s).1) ∨
      (¬ hasRoom limits.maxAttrCount state.out.entries.length ∧
        (hardenMapKey limits state e).run s = (state, s)) := by
  simp only [hardenMapKey, hclean, hnew, Bool.false_eq_true, if_false, if_true]
  by_cases hfull : 0 < limits.maxAttrCount ∧ limits.maxAttrCount ≤ state.out.entries.length
  · right
    constructor
    · rw [hasRoom]
      omega
    · rw [if_pos hfull]
      rfl
  · left
    constructor
    · rw [hasRoom]
      omega
    · rw [if_neg hfull]
      rfl

omit [Scalars α] in
theorem run_foldlM_cons (e : String × StateM σ (Json α)) (es : List (String × StateM σ (Json α)))
    (state : Rebuilt String (Json α)) (s : σ) :
    ((e :: es).foldlM (hardenMapKey limits) state).run s =
      (es.foldlM (hardenMapKey limits) ((hardenMapKey limits state e).run s).1).run
        ((hardenMapKey limits state e).run s).2 := rfl

omit [Scalars α] in
/-- The loop over clean keys in order leaves other keys alone. -/
theorem lookup_foldlM_of_not_mem {es : List (String × StateM σ (Json α))}
    (hclean : ∀ e ∈ es, cleanKey e.1 = e.1) (hsorted : SortedKeys es)
    {state : Rebuilt String (Json α)} (hnew : ∀ e ∈ es, state.out.contains e.1 = false)
    {s : σ} {key : String} (hkey : key ∉ es.map Prod.fst) :
    ((es.foldlM (hardenMapKey limits) state).run s).1.out.lookup key = state.out.lookup key := by
  induction es generalizing state s with
  | nil => rfl
  | cons e es ih =>
      rcases List.pairwise_cons.mp hsorted with ⟨hfirst, hrest⟩
      simp only [List.map_cons, List.mem_cons, not_or] at hkey
      rw [run_foldlM_cons]
      rcases hardenMapKey_of_clean limits (hclean e List.mem_cons_self)
        (hnew e List.mem_cons_self) s with ⟨-, hout⟩ | ⟨-, hsame⟩
      · rw [ih (fun e' he' => hclean e' (List.mem_cons_of_mem _ he')) hrest _ hkey.2, hout,
          SortedMap.lookup_insert, if_neg hkey.1]
        intro e' he'
        rw [hout, SortedMap.contains, SortedMap.lookup_insert, if_neg (hfirst e' he').ne']
        exact hnew e' (List.mem_cons_of_mem _ he')
      · rw [hsame]
        exact ih (fun e' he' => hclean e' (List.mem_cons_of_mem _ he')) hrest
          (fun e' he' => hnew e' (List.mem_cons_of_mem _ he')) hkey.2

omit [Scalars α] in
/-- The loop over clean keys in order: a key is kept exactly where there is room after those
before it, with what its value's hardening gave. -/
theorem lookup_foldlM_of_mem {es : List (String × StateM σ (Json α))}
    (hclean : ∀ e ∈ es, cleanKey e.1 = e.1) (hsorted : SortedKeys es)
    {state : Rebuilt String (Json α)} (hnew : ∀ e ∈ es, state.out.contains e.1 = false)
    (s : σ) {key : String} {harden : StateM σ (Json α)} (hmem : (key, harden) ∈ es) :
    (hasRoom limits.maxAttrCount
        (state.out.entries.length + ((es.map Prod.fst).filter (· < key)).length) ∧
      ∃ s', ((es.foldlM (hardenMapKey limits) state).run s).1.out.lookup key =
        some (harden.run s').1) ∨
    (¬ hasRoom limits.maxAttrCount
        (state.out.entries.length + ((es.map Prod.fst).filter (· < key)).length) ∧
      ((es.foldlM (hardenMapKey limits) state).run s).1.out.lookup key = none) := by
  induction es generalizing state s with
  | nil => cases hmem
  | cons e es ih =>
      rcases List.pairwise_cons.mp hsorted with ⟨hfirst, hrest⟩
      have hclean' : ∀ e' ∈ es, cleanKey e'.1 = e'.1 :=
        fun e' he' => hclean e' (List.mem_cons_of_mem _ he')
      have hnew' : ∀ e' ∈ es, (state.out.insert e.1 (e.2.run s).1).contains e'.1 = false := by
        intro e' he'
        rw [SortedMap.contains, SortedMap.lookup_insert, if_neg (hfirst e' he').ne']
        exact hnew e' (List.mem_cons_of_mem _ he')
      rw [run_foldlM_cons]
      rcases List.mem_cons.mp hmem with rfl | htail
      · -- the key comes first: nothing is before it, and the rest leaves it alone
        have hbefore : ((((key, harden) :: es).map Prod.fst).filter (· < key)) = [] := by
          rw [List.filter_eq_nil_iff]
          intro k hk
          rcases List.mem_map.mp hk with ⟨e', he', rfl⟩
          rcases List.mem_cons.mp he' with rfl | he'
          · simp
          · simp [not_lt.mpr (hfirst e' he').le]
        have hlast : key ∉ es.map Prod.fst := by
          intro hk
          rcases List.mem_map.mp hk with ⟨e', he', hkey⟩
          exact absurd hkey (hfirst e' he').ne'
        rw [hbefore, List.length_nil, Nat.add_zero]
        rcases hardenMapKey_of_clean limits (hclean _ List.mem_cons_self)
          (hnew _ List.mem_cons_self) s with ⟨hroom, hout⟩ | ⟨hfull, hsame⟩
        · left
          refine ⟨hroom, s, ?_⟩
          rw [lookup_foldlM_of_not_mem limits hclean' hrest (by rwa [hout]) hlast, hout,
            SortedMap.lookup_insert, if_pos rfl]
        · right
          refine ⟨hfull, ?_⟩
          rw [hsame, lookup_foldlM_of_not_mem limits hclean' hrest
            (fun e' he' => hnew e' (List.mem_cons_of_mem _ he')) hlast]
          simpa [SortedMap.contains] using hnew _ List.mem_cons_self
      · have hlt : e.1 < key := hfirst _ htail
        have hbefore : (((e :: es).map Prod.fst).filter (· < key)).length =
            ((es.map Prod.fst).filter (· < key)).length + 1 := by
          rw [List.map_cons, List.filter_cons_of_pos (by simpa using hlt), List.length_cons]
        rw [hbefore]
        rcases hardenMapKey_of_clean limits (hclean e List.mem_cons_self)
          (hnew e List.mem_cons_self) s with ⟨-, hout⟩ | ⟨hfull, hsame⟩
        · have hnewer : ∀ e' ∈ es,
              ((hardenMapKey limits state e).run s).1.out.contains e'.1 = false := by
            rwa [hout]
          have hnext := ih hclean' hrest hnewer ((hardenMapKey limits state e).run s).2 htail
          rw [hout, SortedMap.length_insert (hnew e List.mem_cons_self), Nat.add_right_comm,
            Nat.add_assoc] at hnext
          exact hnext
        · right
          have hstill : ¬ hasRoom limits.maxAttrCount
              (state.out.entries.length + ((es.map Prod.fst).filter (· < key)).length) := by
            rw [hasRoom] at hfull ⊢
            omega
          rcases ih hclean' hrest (fun e' he' => hnew e' (List.mem_cons_of_mem _ he')) s htail with
            ⟨hroom, -⟩ | ⟨-, hnone⟩
          · exact absurd hroom hstill
          · constructor
            · rw [hasRoom] at hfull ⊢
              omega
            · rw [hsame]
              exact hnone

/-! ## A record's attributes -/

variable {R : Reflection σ γ α} {attrs : SortedMap String (AttrValue γ)} {key : String}

/-- Which of a round's keys survive the attribute cap: those with few enough before them. -/
def survivesCap (maxAttrCount : ℕ) (keys : List String) (key : String) : Prop :=
  hasRoom maxAttrCount (keys.filter (· < key)).length

instance (maxAttrCount : ℕ) (keys : List String) (key : String) :
    Decidable (survivesCap maxAttrCount keys key) :=
  inferInstanceAs (Decidable (hasRoom _ _))

omit [Scalars α] in
/-- What is set beside the keys of the attributes changes none of them. -/
theorem cleanKey_of_mem_mapValues {β : Type} {f : AttrValue γ → β}
    (hclean : ∀ k ∈ attrs.keys, cleanKey k = k) :
    ∀ e ∈ (attrs.mapValues f).entries, cleanKey e.1 = e.1 := by
  intro e he
  apply hclean
  rw [← SortedMap.keys_mapValues f]
  exact List.mem_map_of_mem he

omit [Scalars α] in
/-- Nothing is there before the first key. -/
theorem contains_empty (key : String) :
    ({} : Rebuilt String (Json α)).out.contains key = false := rfl

variable (R)

/-- A key of the attributes is kept if it survives the cap, with what its value's hardening
gave. -/
theorem lookup_hardenAttrs (hclean : ∀ k ∈ attrs.keys, cleanKey k = k) {value : AttrValue γ}
    (hvalue : attrs.lookup key = some value) :
    (survivesCap limits.maxAttrCount attrs.keys key ∧
      ∃ s, (hardenAttrs R attrs limits).lookup key =
        some ((hardenValue R limits 1 value).run s).1) ∨
    (¬ survivesCap limits.maxAttrCount attrs.keys key ∧
      (hardenAttrs R attrs limits).lookup key = none) := by
  have hmem : (key, hardenValue R limits 1 value) ∈
      (attrs.mapValues (hardenValue R limits 1)).entries := by
    rw [← SortedMap.lookup_eq_some, SortedMap.lookup_mapValues, hvalue, Option.map_some]
  have hempty : ∀ n, ({} : Rebuilt String (Json α)).out.entries.length + n = n := Nat.zero_add
  have hloop := lookup_foldlM_of_mem limits (cleanKey_of_mem_mapValues hclean)
    (attrs.mapValues (hardenValue R limits 1)).sorted (fun e _ => contains_empty e.1) R.initial hmem
  rw [← SortedMap.keys, SortedMap.keys_mapValues, hempty] at hloop
  exact hloop

/-- Nothing is added to the attributes. -/
theorem lookup_hardenAttrs_of_absent (hclean : ∀ k ∈ attrs.keys, cleanKey k = k)
    (h : attrs.lookup key = none) : (hardenAttrs R attrs limits).lookup key = none := by
  have hnot : key ∉ (attrs.mapValues (hardenValue R limits 1)).entries.map Prod.fst := by
    rw [← SortedMap.keys, SortedMap.keys_mapValues, SortedMap.mem_keys, h]
    simp
  exact lookup_foldlM_of_not_mem limits (cleanKey_of_mem_mapValues hclean)
    (attrs.mapValues (hardenValue R limits 1)).sorted (fun e _ => contains_empty e.1) hnot

/-- A string is kept as a hardened string, whatever was met before. -/
theorem lookup_hardenAttrs_str (hclean : ∀ k ∈ attrs.keys, cleanKey k = k) {s : String}
    (hvalue : attrs.lookup key = some (.str s)) :
    (hardenAttrs R attrs limits).lookup key =
      if survivesCap limits.maxAttrCount attrs.keys key then some (jsonText (hardenString s limits))
      else none := by
  rcases lookup_hardenAttrs limits R hclean hvalue with
    ⟨hroom, s', hlookup⟩ | ⟨hfull, hlookup⟩
  · rw [hlookup, if_pos hroom, hardenValue]
    rfl
  · rw [hlookup, if_neg hfull]

end Telemetry.Logging.Go
