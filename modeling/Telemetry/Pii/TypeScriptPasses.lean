import Telemetry.Lib.Rewrite
import Telemetry.Pii.TypeScript

/-!
# What the two TypeScript passes compute

As in Python, what becomes of a child depends on the child alone: on its position, its value
and the rules. What is particular is identity. A rule rebuilds every object and array within
the depth limit, so after one rule none of them is the caller's any more, and beyond the limit
all of them still are.

## Main definitions

* `rulesEntry` — the rules on the entry at a position.
* `cleanAt`, `cleanEntry` — both passes on a value, and on an entry.
* `Callers` — a value all of whose references are the caller's.
-/

namespace Telemetry.Pii.TypeScript

open Telemetry.Lib

variable (E : Env) (maxDepth : Number)

/-- The limit, once reached, is reached further down. -/
theorem atLeast_mono {d d' : ℕ} (h : atLeast d maxDepth = true) (hle : d ≤ d') :
    atLeast d' maxDepth = true := by
  cases maxDepth with
  | finite q =>
      rw [atLeast, decide_eq_true_iff] at h ⊢
      exact h.trans (by exact_mod_cast hle)
  | negZero => rfl
  | negInf => rfl
  | inf => cases h
  | nan => cases h

/-! ## One rule -/

/-- Whether the rule masks the entry under a key of the object at a position. -/
def hit (rule : PIIRule) (pos : List (Step String)) (key : String) : Bool :=
  !atLeast pos.length maxDepth && ruleMatches rule (pos ++ [.key key])

/-- One rule on an object's entry. -/
def ruleEntry (rule : PIIRule) (pass : ℕ) (pos : List (Step String)) (key : String)
    (val : Value) : Option Value :=
  if hit maxDepth rule pos key then applyMode E val rule
  else some (applyRuleFull E rule maxDepth pass (pos ++ [.key key]) val)

/-- Beyond the limit a rule returns the node itself. -/
theorem applyRuleFull_deep (rule : PIIRule) (pass : ℕ) {pos : List (Step String)}
    (h : atLeast pos.length maxDepth = true) (v : Value) :
    applyRuleFull E rule maxDepth pass pos v = v := by
  cases v with
  | scalar a => rfl
  | list r items => rw [applyRuleFull, if_pos h]
  | dict r entries => rw [applyRuleFull, if_pos h]

/-- The same holds of what lies below. -/
theorem applyRuleFull_below (rule : PIIRule) (pass : ℕ) {pos : List (Step String)}
    (h : atLeast pos.length maxDepth = true) (s : Step String) (v : Value) :
    applyRuleFull E rule maxDepth pass (pos ++ [s]) v = v := by
  apply applyRuleFull_deep
  exact atLeast_mono maxDepth h (by simp)

/-- The reference of the object at a position after a rule. -/
def refAfter (pass : ℕ) (pos : List (Step String)) (r : Ref) : Ref :=
  if atLeast pos.length maxDepth then r else .allocated pass pos

theorem applyRuleEntries_eq (rule : PIIRule) (pass : ℕ) {pos : List (Step String)}
    (h : atLeast pos.length maxDepth = false) (entries : Entries) :
    applyRuleEntries E rule maxDepth pass pos entries =
      Tree.rewriteEntries (ruleEntry E maxDepth rule pass pos) entries := by
  induction entries with
  | nil => rfl
  | cons e entries ih =>
      obtain ⟨key, val⟩ := e
      rw [applyRuleEntries, Tree.rewriteEntries, List.filterMap_cons, ← Tree.rewriteEntries, ← ih]
      simp only [ruleEntry, hit, h, Bool.not_false, Bool.true_and]
      split
      · cases applyMode E val rule <;> rfl
      · rfl

theorem applyRuleItems_eq (rule : PIIRule) (pass : ℕ) (pos : List (Step String)) (i : ℕ)
    (items : List Value) :
    applyRuleItems E rule maxDepth pass pos i items = items.mapIdx fun j item =>
      applyRuleFull E rule maxDepth pass (pos ++ [.index (i + j)]) item := by
  induction items generalizing i with
  | nil => rfl
  | cons item items ih =>
      rw [applyRuleItems, ih, List.mapIdx_cons]
      simp only [Nat.add_zero, Nat.add_assoc, Nat.add_comm 1]

theorem applyRuleFull_dict (rule : PIIRule) (pass : ℕ) (pos : List (Step String)) (r : Ref)
    (entries : Entries) :
    applyRuleFull E rule maxDepth pass pos (.dict r entries) =
      .dict (refAfter maxDepth pass pos r)
        (Tree.rewriteEntries (ruleEntry E maxDepth rule pass pos) entries) := by
  rw [refAfter]
  cases h : atLeast pos.length maxDepth with
  | false => rw [applyRuleFull, h, applyRuleEntries_eq E maxDepth rule pass h]; rfl
  | true =>
      have hentry : ruleEntry E maxDepth rule pass pos = fun _ val => some val := by
        ext key val : 2
        rw [ruleEntry, applyRuleFull_below E maxDepth rule pass h]
        simp [hit, h]
      rw [applyRuleFull_deep E maxDepth rule pass h, hentry, Tree.rewriteEntries_some, if_pos rfl]

theorem applyRuleFull_list (rule : PIIRule) (pass : ℕ) (pos : List (Step String)) (r : Ref)
    (items : List Value) :
    applyRuleFull E rule maxDepth pass pos (.list r items) =
      .list (refAfter maxDepth pass pos r) (items.mapIdx fun i item =>
        applyRuleFull E rule maxDepth pass (pos ++ [.index i]) item) := by
  rw [refAfter]
  cases h : atLeast pos.length maxDepth with
  | false =>
      rw [applyRuleFull, h, applyRuleItems_eq]
      simp
  | true =>
      rw [applyRuleFull_deep E maxDepth rule pass h]
      simp [applyRuleFull_below E maxDepth rule pass h, Tree.mapIdx_self]

variable {E} in
/-- A mask leaves a string, if anything. -/
theorem applyMode_eq_some {value masked : Value} {rule : PIIRule}
    (h : applyMode E value rule = some masked) : ∃ s, masked = str s := by
  rw [applyMode] at h
  split at h
  · cases h
  · cases h
    exact ⟨_, rfl⟩
  · cases h
    exact ⟨_, rfl⟩
  · cases h
    exact ⟨_, rfl⟩

/-! ## All rules -/

/-- The rules, as the passes from this number on, on the entry under a key. -/
def rulesEntry (pos : List (Step String)) (key : String) : ℕ → List PIIRule → Value → Option Value
  | _, [], v => some v
  | pass, rule :: rules, v =>
      (ruleEntry E maxDepth rule pass pos key v).bind (rulesEntry pos key (pass + 1) rules)

/-- Some rule masks the entry. -/
def anyHit (rules : List PIIRule) (pos : List (Step String)) (key : String) : Bool :=
  rules.any fun rule => hit maxDepth rule pos key

/-- The reference of the object at a position after the rules. -/
def refAfterAll (pos : List (Step String)) : ℕ → List PIIRule → Ref → Ref
  | _, [], r => r
  | pass, _ :: rules, r => refAfterAll pos (pass + 1) rules (refAfter maxDepth pass pos r)

@[simp] theorem applyRules_scalar (pos : List (Step String)) (pass : ℕ) (rules : List PIIRule)
    (a : Scalar) : applyRules E maxDepth pos pass rules (.scalar a) = .scalar a := by
  induction rules generalizing pass with
  | nil => rfl
  | cons rule rules ih =>
      rw [applyRules, applyRuleFull]
      exact ih (pass + 1)

theorem applyRules_deep {pos : List (Step String)} (h : atLeast pos.length maxDepth = true)
    (pass : ℕ) (rules : List PIIRule) (v : Value) :
    applyRules E maxDepth pos pass rules v = v := by
  induction rules generalizing pass with
  | nil => rfl
  | cons rule rules ih =>
      rw [applyRules, applyRuleFull_deep E maxDepth rule pass h]
      exact ih (pass + 1)

/-- The rules act on each entry of an object by itself. -/
theorem applyRules_dict (pos : List (Step String)) (pass : ℕ) (rules : List PIIRule) (r : Ref)
    (entries : Entries) :
    applyRules E maxDepth pos pass rules (.dict r entries) =
      .dict (refAfterAll maxDepth pos pass rules r)
        (Tree.rewriteEntries (fun key => rulesEntry E maxDepth pos key pass rules) entries) := by
  induction rules generalizing pass r entries with
  | nil => simp [applyRules, refAfterAll, rulesEntry, Tree.rewriteEntries_some]
  | cons rule rules ih =>
      rw [applyRules, applyRuleFull_dict, ih, Tree.rewriteEntries_rewriteEntries, refAfterAll]
      rfl

/-- The rules act on each item of an array by itself. -/
theorem applyRules_list (pos : List (Step String)) (pass : ℕ) (rules : List PIIRule) (r : Ref)
    (items : List Value) :
    applyRules E maxDepth pos pass rules (.list r items) =
      .list (refAfterAll maxDepth pos pass rules r) (items.mapIdx fun i item =>
        applyRules E maxDepth (pos ++ [.index i]) pass rules item) := by
  induction rules generalizing pass r items with
  | nil => simp [applyRules, refAfterAll, Tree.mapIdx_self]
  | cons rule rules ih =>
      rw [applyRules, applyRuleFull_list, ih, List.mapIdx_mapIdx]
      rfl

/-- **The rules rewrite a node child by child**, each child by the rules on it alone. -/
theorem rewrites_applyRules (pos : List (Step String)) (pass : ℕ) (rules : List PIIRule) :
    Tree.Rewrites (applyRules E maxDepth pos pass rules)
      (fun key => rulesEntry E maxDepth pos key pass rules)
      (fun i => applyRules E maxDepth (pos ++ [.index i]) pass rules) where
  scalar := applyRules_scalar E maxDepth pos pass rules
  list r items := ⟨_, applyRules_list E maxDepth pos pass rules r items⟩
  dict r entries := ⟨_, applyRules_dict E maxDepth pos pass rules r entries⟩

/-- What becomes of the entry under a key depends on that entry only. -/
theorem child?_applyRules_key (pos : List (Step String)) (pass : ℕ) (rules : List PIIRule)
    {v : Value} (hkeys : v.NodupKeys) (key : String) :
    (applyRules E maxDepth pos pass rules v).child? (.key key) =
      (v.child? (.key key)).bind (rulesEntry E maxDepth pos key pass rules) :=
  (rewrites_applyRules E maxDepth pos pass rules).child?_key hkeys key

/-- What becomes of an item depends on that item only. -/
theorem child?_applyRules_index (pos : List (Step String)) (pass : ℕ) (rules : List PIIRule)
    (v : Value) (i : ℕ) :
    (applyRules E maxDepth pos pass rules v).child? (.index i) =
      (v.child? (.index i)).map (applyRules E maxDepth (pos ++ [.index i]) pass rules) :=
  (rewrites_applyRules E maxDepth pos pass rules).child?_index v i

@[simp] theorem isContainer_applyRules (pos : List (Step String)) (pass : ℕ)
    (rules : List PIIRule) (v : Value) :
    (applyRules E maxDepth pos pass rules v).isContainer = v.isContainer :=
  (rewrites_applyRules E maxDepth pos pass rules).isContainer v

variable {E maxDepth} {rules : List PIIRule} {pos : List (Step String)} {key : String} {pass : ℕ}

/-- An entry no rule masks is rewritten below its value. -/
theorem rulesEntry_of_not_anyHit (h : anyHit maxDepth rules pos key = false) (v : Value) :
    rulesEntry E maxDepth pos key pass rules v =
      some (applyRules E maxDepth (pos ++ [.key key]) pass rules v) := by
  induction rules generalizing pass v with
  | nil => rfl
  | cons rule rules ih =>
      rw [anyHit, List.any_cons, Bool.or_eq_false_iff] at h
      rw [rulesEntry, applyRules, ruleEntry, h.1, if_neg Bool.false_ne_true]
      exact ih h.2 _

/-- An entry that holds a string keeps one, unless it is dropped. -/
theorem rulesEntry_str_cases (s : String) :
    rulesEntry E maxDepth pos key pass rules (str s) = none ∨
      ∃ t, rulesEntry E maxDepth pos key pass rules (str s) = some (str t) := by
  induction rules generalizing pass s with
  | nil => exact .inr ⟨s, rfl⟩
  | cons rule rules ih =>
      rw [rulesEntry, ruleEntry]
      split
      · cases hmask : applyMode E (str s) rule with
        | none => exact .inl rfl
        | some w =>
            obtain ⟨t, rfl⟩ := applyMode_eq_some hmask
            exact ih t
      · exact ih s

/-- An entry that some rule masks is dropped or becomes a string. -/
theorem rulesEntry_of_anyHit (h : anyHit maxDepth rules pos key = true) (v : Value) :
    rulesEntry E maxDepth pos key pass rules v = none ∨
      ∃ s, rulesEntry E maxDepth pos key pass rules v = some (str s) := by
  induction rules generalizing pass v with
  | nil => cases h
  | cons rule rules ih =>
      rw [rulesEntry, ruleEntry]
      by_cases hm : hit maxDepth rule pos key = true
      · rw [if_pos hm]
        cases hmask : applyMode E v rule with
        | none => exact .inl rfl
        | some w =>
            obtain ⟨t, rfl⟩ := applyMode_eq_some hmask
            exact rulesEntry_str_cases t
      · rw [if_neg hm]
        rw [anyHit, List.any_cons, Bool.or_eq_true] at h
        exact ih (h.resolve_left hm) _

/-! ## Identity -/

/-- All references in the value are the caller's. -/
def Callers (v : Value) : Prop :=
  ∃ t : Tree String ℕ Scalar, v = t.mapRef Ref.caller

/-- What lies in a value of the caller's is the caller's. -/
theorem Callers.child {v c : Value} {s : Step String} (h : Callers v) (hc : v.child? s = some c) :
    Callers c := by
  obtain ⟨t, rfl⟩ := h
  rw [Tree.child?_mapRef] at hc
  obtain ⟨d, -, rfl⟩ := Option.map_eq_some_iff.mp hc
  exact ⟨d, rfl⟩

/-- No rule rebuilds an object as one of the caller's. -/
theorem refAfterAll_ne (h : atLeast pos.length maxDepth = false) (hrules : rules ≠ []) (r : Ref)
    (n : ℕ) : refAfterAll maxDepth pos pass rules r ≠ .caller n := by
  obtain ⟨rule, rules, rfl⟩ := List.exists_cons_of_ne_nil hrules
  have hallocated : ∀ pass' pos' rules pass,
      refAfterAll maxDepth pos pass rules (.allocated pass' pos') ≠ .caller n := by
    intro pass' pos' rules
    induction rules generalizing pass' pos' with
    | nil => intro pass; nofun
    | cons rule rules ih =>
        intro pass
        rw [refAfterAll, refAfter, h]
        exact ih pass pos (pass + 1)
  rw [refAfterAll, refAfter, h]
  exact hallocated _ _ rules (pass + 1)

theorem refAfterAll_deep (h : atLeast pos.length maxDepth = true) (rules : List PIIRule) (r : Ref) :
    refAfterAll maxDepth pos pass rules r = r := by
  induction rules generalizing pass with
  | nil => rfl
  | cons rule rules ih =>
      rw [refAfterAll, refAfter, if_pos h]
      exact ih

theorem refAfterAll_bne (n : ℕ) :
    (refAfterAll maxDepth pos pass rules (.caller n) != .caller n) =
      (!atLeast pos.length maxDepth && !rules.isEmpty) := by
  cases h : atLeast pos.length maxDepth with
  | true =>
      rw [refAfterAll_deep h]
      simp
  | false =>
      cases rules with
      | nil => simp [refAfterAll]
      | cons rule rules =>
          have hne : refAfterAll maxDepth pos pass (rule :: rules) (.caller n) ≠ .caller n :=
            refAfterAll_ne h (List.cons_ne_nil rule rules) (.caller n) n
          simp [hne]

/-- **What `!==` sees of the rules**: an object or an array of the caller's is another one
after any rule within the limit, whatever the rule is about. -/
theorem strictNe_applyRules {v : Value} (hv : Callers v) (hcont : v.isContainer = true) :
    strictNe (applyRules E maxDepth pos pass rules v) v =
      (!atLeast pos.length maxDepth && !rules.isEmpty) := by
  obtain ⟨t, rfl⟩ := hv
  cases t with
  | scalar a => cases hcont
  | list n items =>
      rw [Tree.mapRef, applyRules_list]
      exact refAfterAll_bne n
  | dict n entries =>
      rw [Tree.mapRef, applyRules_dict]
      exact refAfterAll_bne n

/-! ## The default pass -/

variable (E maxDepth) (extraFields : List String) (rules)

/-- The default pass on one entry of an object. -/
def defaultEntry (pos : List (Step String)) (key : String) (val origVal : Value) : Value :=
  if blocked E extraFields key then
    if strictNe val origVal || pathHasRule rules (pos ++ [.key key]) then val else redacted
  else match redactIfSecret E val with
    | some text => str text
    | none => applyDefault E extraFields rules maxDepth (pos ++ [.key key]) val origVal

@[simp] theorem applyDefault_scalar (pos : List (Step String)) (a : Scalar) (original : Value) :
    applyDefault E extraFields rules maxDepth pos (.scalar a) original = .scalar a := rfl

theorem applyDefault_deep {pos : List (Step String)} (h : atLeast pos.length maxDepth = true)
    (node original : Value) :
    applyDefault E extraFields rules maxDepth pos node original = node := by
  cases node with
  | scalar a => rfl
  | list r items => rw [applyDefault, if_pos h]
  | dict r entries => rw [applyDefault, if_pos h]

theorem applyDefaultEntries_eq (pos : List (Step String)) (orig entries : Entries) :
    applyDefaultEntries E extraFields rules maxDepth pos orig entries = entries.map fun e =>
      (e.1, defaultEntry E maxDepth rules extraFields pos e.1 e.2
        ((property orig e.1).getD (.scalar .undefined))) := by
  induction entries with
  | nil => rfl
  | cons e entries ih =>
      rw [applyDefaultEntries, ih, List.map_cons]
      rfl

theorem applyDefaultItems_eq (pos : List (Step String)) (origArr : List Value) (i : ℕ)
    (items : List Value) :
    applyDefaultItems E extraFields rules maxDepth pos origArr i items =
      items.mapIdx fun j item =>
        applyDefault E extraFields rules maxDepth (pos ++ [.index (i + j)]) item
          (origArr[i + j]?.getD (.scalar .undefined)) := by
  induction items generalizing i with
  | nil => rfl
  | cons item items ih =>
      rw [applyDefaultItems, ih, List.mapIdx_cons]
      simp only [Nat.add_zero, Nat.add_assoc, Nat.add_comm 1]

/-! ## Both passes -/

/-- The rules, then the default pass, on the value at a position. -/
def cleanAt (pos : List (Step String)) (original : Value) : Value :=
  applyDefault E extraFields rules maxDepth pos (applyRules E maxDepth pos 0 rules original)
    original

/-- What both passes leave of the entry under a key. -/
def cleanEntry (pos : List (Step String)) (key : String) (original : Value) : Option Value :=
  (rulesEntry E maxDepth pos key 0 rules original).map fun v =>
    defaultEntry E maxDepth rules extraFields pos key v original

@[simp] theorem cleanAt_scalar (pos : List (Step String)) (a : Scalar) :
    cleanAt E maxDepth rules extraFields pos (.scalar a) = .scalar a := by
  rw [cleanAt, applyRules_scalar, applyDefault_scalar]

/-- Beyond the limit both passes return the value itself. -/
theorem cleanAt_deep {pos : List (Step String)} (h : atLeast pos.length maxDepth = true)
    (v : Value) : cleanAt E maxDepth rules extraFields pos v = v := by
  rw [cleanAt, applyDefault_deep E maxDepth rules extraFields h, applyRules_deep E maxDepth h]

variable {E maxDepth rules extraFields}

/-- What becomes of the entry under a key depends on that entry only. -/
theorem child?_cleanAt_key (h : atLeast pos.length maxDepth = false) {v : Value}
    (hkeys : v.NodupKeys) (key : String) :
    (cleanAt E maxDepth rules extraFields pos v).child? (.key key) =
      (v.child? (.key key)).bind (cleanEntry E maxDepth rules extraFields pos key) := by
  cases v with
  | scalar a => rw [cleanAt_scalar, Tree.child?_scalar, Option.bind_none]
  | list r items =>
      rw [cleanAt, applyRules_list, applyDefault, h]
      rfl
  | dict r entries =>
      have hrules := child?_applyRules_key E maxDepth pos 0 rules hkeys key
      rw [cleanAt]
      rw [applyRules_dict, Tree.child?_dict, Tree.child?_dict] at hrules
      rw [applyRules_dict, applyDefault, h, if_neg Bool.false_ne_true, originalEntries,
        applyDefaultEntries_eq, Tree.child?_dict,
        Tree.lookup_map (fun key val => defaultEntry E maxDepth rules extraFields pos key val
          ((property entries key).getD (.scalar .undefined))), hrules, Tree.child?_dict]
      cases hc : entries.lookup key with
      | none => rfl
      | some c =>
          rw [property, hc]
          rfl

/-- What becomes of an item depends on that item only. -/
theorem child?_cleanAt_index (h : atLeast pos.length maxDepth = false) (v : Value) (i : ℕ) :
    (cleanAt E maxDepth rules extraFields pos v).child? (.index i) =
      (v.child? (.index i)).map (cleanAt E maxDepth rules extraFields (pos ++ [.index i])) := by
  cases v with
  | scalar a => rw [cleanAt_scalar, Tree.child?_scalar, Option.map_none]
  | list r items =>
      rw [cleanAt, applyRules_list, applyDefault, h, if_neg Bool.false_ne_true, originalItems,
        applyDefaultItems_eq, Tree.child?_list, List.getElem?_mapIdx, List.getElem?_mapIdx,
        Tree.child?_list, Nat.zero_add]
      cases items[i]? with
      | none => rfl
      | some c => rfl
  | dict r entries =>
      rw [cleanAt, applyRules_dict, applyDefault, h]
      rfl

/-- A blocked entry that no rule masks is kept as the rules left it, or redacted. -/
theorem cleanEntry_of_blocked (h : anyHit maxDepth rules pos key = false)
    (hb : blocked E extraFields key = true) (v : Value) :
    cleanEntry E maxDepth rules extraFields pos key v =
      some (if strictNe (applyRules E maxDepth (pos ++ [.key key]) 0 rules v) v ||
          pathHasRule rules (pos ++ [.key key]) then
        applyRules E maxDepth (pos ++ [.key key]) 0 rules v else redacted) := by
  rw [cleanEntry, rulesEntry_of_not_anyHit h, Option.map_some, defaultEntry, if_pos hb]

/-- Any other entry with something below it that no rule masks is walked into. -/
theorem cleanEntry_of_not_blocked (h : anyHit maxDepth rules pos key = false)
    (hb : blocked E extraFields key = false) {v : Value} (hcont : v.isContainer = true) :
    cleanEntry E maxDepth rules extraFields pos key v =
      some (cleanAt E maxDepth rules extraFields (pos ++ [.key key]) v) := by
  have hsecret : redactIfSecret E (applyRules E maxDepth (pos ++ [.key key]) 0 rules v) = none := by
    cases v with
    | scalar a => cases hcont
    | list r items =>
        rw [applyRules_list]
        rfl
    | dict r entries =>
        rw [applyRules_dict]
        rfl
  rw [cleanEntry, rulesEntry_of_not_anyHit h, Option.map_some, defaultEntry, if_neg (by simp [hb]),
    hsecret]
  rfl

/-- An entry that a rule masks is gone or a scalar. -/
theorem cleanEntry_of_anyHit (h : anyHit maxDepth rules pos key = true) (v : Value) :
    cleanEntry E maxDepth rules extraFields pos key v = none ∨
      ∃ a, cleanEntry E maxDepth rules extraFields pos key v = some (.scalar a) := by
  rw [cleanEntry]
  obtain hnone | ⟨s, hs⟩ := rulesEntry_of_anyHit h v
  · rw [hnone]
    exact .inl rfl
  · right
    rw [hs, Option.map_some, defaultEntry]
    split
    · split
      · exact ⟨_, rfl⟩
      · exact ⟨_, rfl⟩
    · split
      · exact ⟨_, rfl⟩
      · exact ⟨_, rfl⟩

/-- A rule masks only entries its path matches. -/
theorem anyHit_eq (rules : List PIIRule) (pos : List (Step String)) (key : String) :
    anyHit maxDepth rules pos key =
      (!atLeast pos.length maxDepth && pathHasRule rules (pos ++ [.key key])) := by
  induction rules with
  | nil => simp [anyHit, pathHasRule]
  | cons rule rules ih =>
      simp only [anyHit, pathHasRule, List.any_cons, hit] at ih ⊢
      rw [ih]
      cases atLeast pos.length maxDepth <;> simp

/-! ## Writing the result back -/

/-- A key of the caller's object takes the value it has in the result, inherited or own. -/
theorem lookup_update {obj c : Entries} (hkeys : (obj.map Prod.fst).Nodup) {k : String} {v : Value}
    (hk : obj.lookup k = some v) : (update obj c).lookup k = property c k := by
  have hkept : (obj.filterMap fun e => (property c e.1).map fun v => (e.1, v)).lookup k =
      property c k := by
    rw [Tree.lookup_filterMap (fun key _ => property c key) hkeys, hk, Option.bind_some]
  rw [update, List.lookup_append, hkept]
  cases hc : property c k with
  | some w => rfl
  | none =>
      have hnone : c.lookup k = none := by
        cases hl : c.lookup k with
        | none => rfl
        | some w =>
            rw [property, hl] at hc
            cases hc
      rw [Option.none_or, List.lookup_eq_none_iff]
      intro e he
      exact List.lookup_eq_none_iff.mp hnone e (List.mem_of_mem_filter he)

variable (E maxDepth rules extraFields) (payload : Payload)

theorem nodupKeys_value : payload.value.NodupKeys :=
  payload.nodupKeys.mapRef Ref.caller

theorem callers_value : Callers payload.value :=
  ⟨.dict payload.ref payload.properties, rfl⟩

/-- The output is what the two passes leave, written back. -/
theorem exists_sanitizePayload :
    ∃ r c, cleanAt E maxDepth rules extraFields [] payload.value = .dict r c ∧
      sanitizePayload E rules extraFields maxDepth payload =
        .dict (.caller payload.ref) (update payload.obj c) := by
  have hdict : ∃ r c, cleanAt E maxDepth rules extraFields [] payload.value = .dict r c := by
    rw [Payload.value]
    cases h : atLeast 0 maxDepth with
    | true =>
        have hdeep : atLeast ([] : List (Step String)).length maxDepth = true := h
        exact ⟨_, _, cleanAt_deep E maxDepth rules extraFields hdeep _⟩
    | false =>
        rw [cleanAt, applyRules_dict, applyDefault, List.length_nil, h, if_neg Bool.false_ne_true]
        exact ⟨_, _, rfl⟩
  obtain ⟨r, c, hclean⟩ := hdict
  refine ⟨r, c, hclean, ?_⟩
  rw [cleanAt] at hclean
  rw [sanitizePayload]
  rw [Payload.value, applyRules_dict] at hclean ⊢
  simp only
  rw [hclean]

variable {E maxDepth rules extraFields payload}

/-- What the two passes leave at a position of the payload is what the output has there. -/
theorem get?_sanitizePayload_of_some {k : String} {p : List (Step String)} {v w : Value}
    (hget : payload.value.get? (.key k :: p) = some v)
    (h : (cleanAt E maxDepth rules extraFields [] payload.value).get? (.key k :: p) = some w) :
    (sanitizePayload E rules extraFields maxDepth payload).get? (.key k :: p) = some w := by
  obtain ⟨r, c, hclean, hout⟩ := exists_sanitizePayload E maxDepth rules extraFields payload
  obtain ⟨d, hd, -⟩ := Tree.get?_cons_eq_some.mp hget
  rw [hclean] at h
  obtain ⟨x, hx, hp⟩ := Tree.get?_cons_eq_some.mp h
  rw [hout]
  refine Tree.get?_cons_eq_some.mpr ⟨x, ?_, hp⟩
  rw [Tree.child?_dict] at hx ⊢
  rw [lookup_update (nodupKeys_value payload).keys hd, property, hx]

/-- Where the two passes leave nothing, the output has at most an inherited property, below
which there is nothing. -/
theorem get?_sanitizePayload_of_none {k : String} {p : List (Step String)} {v : Value}
    (hget : payload.value.get? (.key k :: p) = some v)
    (h : (cleanAt E maxDepth rules extraFields [] payload.value).get? (.key k :: p) = none) :
    (sanitizePayload E rules extraFields maxDepth payload).get? (.key k :: p) = none ∨
      p = [] ∧ (sanitizePayload E rules extraFields maxDepth payload).get? (.key k :: p) =
        some (.scalar (.inherited k)) := by
  obtain ⟨r, c, hclean, hout⟩ := exists_sanitizePayload E maxDepth rules extraFields payload
  obtain ⟨d, hd, -⟩ := Tree.get?_cons_eq_some.mp hget
  rw [hclean, Tree.get?_cons, Tree.child?_dict] at h
  rw [hout, Tree.get?_cons, Tree.child?_dict, lookup_update (nodupKeys_value payload).keys hd,
    property]
  cases hl : c.lookup k with
  | some x =>
      rw [hl] at h
      exact .inl h
  | none =>
      dsimp only
      split
      · cases p with
        | nil => exact .inr ⟨rfl, rfl⟩
        | cons s p => exact .inl (Tree.get?_scalar_cons (.inherited k) s p)
      · exact .inl rfl

/-- A sentinel in the output is one that the two passes leave. -/
theorem get?_cleanAt_of_redacted {k : String} {p : List (Step String)} {v : Value}
    (hget : payload.value.get? (.key k :: p) = some v)
    (h : (sanitizePayload E rules extraFields maxDepth payload).get? (.key k :: p) =
      some redacted) :
    (cleanAt E maxDepth rules extraFields [] payload.value).get? (.key k :: p) = some redacted := by
  cases hc : (cleanAt E maxDepth rules extraFields [] payload.value).get? (.key k :: p) with
  | some w => rw [← h, get?_sanitizePayload_of_some hget hc]
  | none =>
      obtain hnone | ⟨-, hinherited⟩ := get?_sanitizePayload_of_none hget hc
      · cases hnone.symm.trans h
      · cases hinherited.symm.trans h

end Telemetry.Pii.TypeScript
