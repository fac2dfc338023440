import Telemetry.Lib.Rewrite
import Telemetry.Pii.Python

/-!
# What the rule pass computes

The rules run one after another, each over the whole tree. Their joint effect is local all
the same: what becomes of an entry depends on the entry's path, its value and the rules
only. The lemmas below say what the pass leaves at each child of a node; everything about
the rule pass is derived from them.

## Main definitions

* `rulesVal` — the rules on the value at a path.
* `rulesEntry` — the rules on the entry at a path: `none` where it is dropped.
* `targeted`, `anyHit` — some rule's path matches; some rule masks the entry.
-/

namespace Telemetry.Pii.Python

open Telemetry.Lib

variable (E : Env)

/-! ## Masks -/

variable {E} in
/-- A mask leaves a string, if anything. -/
theorem mask_eq_some {value masked : Value} {mode : MaskMode} {truncateTo : ℤ}
    (h : mask E value mode truncateTo = some masked) : ∃ s, masked = str s := by
  cases mode with
  | drop => cases h
  | redact =>
      cases h
      exact ⟨_, rfl⟩
  | hash =>
      cases h
      exact ⟨_, rfl⟩
  | truncate =>
      cases h
      exact ⟨_, rfl⟩

/-! ## One rule -/

/-- Whether the rule masks the entry at a path: the path matches, and the entry's dict is
within the safety limit. -/
def hit (rule : PIIRule) (depth : ℕ) (target : List String) : Bool :=
  decide (depth < ruleDepth) && match_ rule.path target

/-- One rule on a dict's entry. -/
def ruleEntry (rule : PIIRule) (path : List String) (depth : ℕ) (key : String) (value : Value) :
    Option Value :=
  if hit rule depth (path ++ [key]) then mask E value rule.mode rule.truncateTo
  else some (applyRule E rule (path ++ [key]) (depth + 1) value).val

/-- Beyond the safety limit a rule does nothing. -/
theorem applyRule_deep (rule : PIIRule) (path : List String) {depth : ℕ}
    (h : ruleDepth ≤ depth) (v : Value) : applyRule E rule path depth v = pure v := by
  cases v with
  | scalar a => rfl
  | list r items => rw [applyRule, if_pos h]
  | dict r entries => rw [applyRule, if_pos h]

theorem val_applyRuleEntries (rule : PIIRule) (path : List String) {depth : ℕ}
    (h : depth < ruleDepth) (entries : Entries) :
    (applyRuleEntries E rule path depth entries).val =
      Tree.rewriteEntries (ruleEntry E rule path depth) entries := by
  induction entries with
  | nil => rfl
  | cons e entries ih =>
      obtain ⟨key, value⟩ := e
      rw [applyRuleEntries, Tree.rewriteEntries, List.filterMap_cons, ← Tree.rewriteEntries, ← ih]
      simp only [ruleEntry, hit, h, decide_true, Bool.true_and]
      by_cases hm : match_ rule.path (path ++ [key]) = true
      · simp only [hm, if_true, Logged.val_bind]
        cases hmask : mask E value rule.mode rule.truncateTo <;> rfl
      · simp only [hm, Bool.false_eq_true, if_false]
        rfl

theorem val_applyRuleItems (rule : PIIRule) (path : List String) (depth : ℕ)
    (items : List Value) :
    (applyRuleItems E rule path depth items).val =
      items.map fun item => (applyRule E rule path depth item).val := by
  induction items with
  | nil => rfl
  | cons item items ih =>
      rw [applyRuleItems, List.map_cons, ← ih]
      rfl

/-- A rule rewrites a node child by child. -/
theorem rewrites_applyRule (rule : PIIRule) (path : List String) (depth : ℕ) :
    Tree.Rewrites (fun v => (applyRule E rule path depth v).val) (ruleEntry E rule path depth)
      (fun _ v => (applyRule E rule (path ++ [wild]) (depth + 1) v).val) := by
  by_cases h : depth < ruleDepth
  · constructor
    · intro a
      rfl
    · intro r items
      refine ⟨(), ?_⟩
      rw [applyRule, if_neg (by omega), Logged.val_bind, val_applyRuleItems, Tree.mapIdx_const]
      rfl
    · intro r entries
      refine ⟨(), ?_⟩
      rw [applyRule, if_neg (by omega), Logged.val_bind, val_applyRuleEntries E rule path h]
      rfl
  · have hentry : ruleEntry E rule path depth = fun _ v => some v := by
      ext key value : 2
      rw [ruleEntry, applyRule_deep E rule _ (by omega)]
      simp [hit, h]
    simp only [hentry, applyRule_deep E rule path (show ruleDepth ≤ depth by omega),
      applyRule_deep E rule (path ++ [wild]) (show ruleDepth ≤ depth + 1 by omega)]
    exact .id

theorem val_applyRule_dict (rule : PIIRule) (path : List String) (depth : ℕ)
    (entries : Entries) :
    (applyRule E rule path depth (.dict () entries)).val =
      .dict () (Tree.rewriteEntries (ruleEntry E rule path depth) entries) :=
  ((rewrites_applyRule E rule path depth).dict () entries).choose_spec

theorem val_applyRule_list (rule : PIIRule) (path : List String) (depth : ℕ)
    (items : List Value) :
    (applyRule E rule path depth (.list () items)).val = .list ()
      (items.map fun item => (applyRule E rule (path ++ [wild]) (depth + 1) item).val) := by
  obtain ⟨r, h⟩ := (rewrites_applyRule E rule path depth).list () items
  rw [h, Tree.mapIdx_const]

/-! ## All rules -/

/-- The rules on the value at a path. -/
def rulesVal (rules : List PIIRule) (path : List String) (depth : ℕ) (v : Value) : Value :=
  rules.foldl (fun v rule => (applyRule E rule path depth v).val) v

/-- The rules on the entry at a path. -/
def rulesEntry (rules : List PIIRule) (path : List String) (depth : ℕ) (key : String)
    (value : Value) : Option Value :=
  rules.foldlM (fun v rule => ruleEntry E rule path depth key v) value

/-- Some rule's path matches. -/
def targeted (rules : List PIIRule) (target : List String) : Bool :=
  rules.any fun rule => match_ rule.path target

/-- Some rule masks the entry at a path. -/
def anyHit (rules : List PIIRule) (depth : ℕ) (target : List String) : Bool :=
  rules.any fun rule => hit rule depth target

theorem val_applyRules (rules : List PIIRule) (v : Value) :
    (applyRules E rules v).val = rulesVal E rules [] 0 v :=
  Logged.val_foldlM _ _ _

/-- **The rules rewrite a node child by child**, each child by the rules on it alone. -/
theorem rewrites_rulesVal (rules : List PIIRule) (path : List String) (depth : ℕ) :
    Tree.Rewrites (rulesVal E rules path depth) (rulesEntry E rules path depth)
      (fun _ => rulesVal E rules (path ++ [wild]) (depth + 1)) :=
  .foldl (fun rule => rewrites_applyRule E rule path depth) rules

@[simp] theorem rulesVal_scalar (rules : List PIIRule) (path : List String) (depth : ℕ)
    (a : Scalar) : rulesVal E rules path depth (.scalar a) = .scalar a :=
  (rewrites_rulesVal E rules path depth).scalar a

theorem rulesVal_dict (rules : List PIIRule) (path : List String) (depth : ℕ)
    (entries : Entries) :
    rulesVal E rules path depth (.dict () entries) =
      .dict () (Tree.rewriteEntries (rulesEntry E rules path depth) entries) :=
  ((rewrites_rulesVal E rules path depth).dict () entries).choose_spec

theorem rulesVal_list (rules : List PIIRule) (path : List String) (depth : ℕ)
    (items : List Value) :
    rulesVal E rules path depth (.list () items) = .list ()
      (items.map (rulesVal E rules (path ++ [wild]) (depth + 1))) := by
  obtain ⟨r, h⟩ := (rewrites_rulesVal E rules path depth).list () items
  rw [h, Tree.mapIdx_const]

/-- What becomes of the entry under a key depends on that entry only. -/
theorem child?_rulesVal_key (rules : List PIIRule) (path : List String) (depth : ℕ) {v : Value}
    (hkeys : v.NodupKeys) (key : String) :
    (rulesVal E rules path depth v).child? (.key key) =
      (v.child? (.key key)).bind (rulesEntry E rules path depth key) :=
  (rewrites_rulesVal E rules path depth).child?_key hkeys key

/-- What becomes of an item depends on that item only. -/
theorem child?_rulesVal_index (rules : List PIIRule) (path : List String) (depth : ℕ)
    (v : Value) (i : ℕ) :
    (rulesVal E rules path depth v).child? (.index i) =
      (v.child? (.index i)).map (rulesVal E rules (path ++ [wild]) (depth + 1)) :=
  (rewrites_rulesVal E rules path depth).child?_index v i

/-! ## One entry -/

variable {rules : List PIIRule} {path : List String} {depth : ℕ} {key : String}

/-- An entry no rule masks is rewritten below its value. -/
theorem rulesEntry_of_not_anyHit (h : anyHit rules depth (path ++ [key]) = false) (v : Value) :
    rulesEntry E rules path depth key v =
      some (rulesVal E rules (path ++ [key]) (depth + 1) v) := by
  apply foldlM_of_walk
  intro rule hrule w
  rw [ruleEntry, if_neg (List.any_eq_false.mp h rule hrule)]

variable {E} in
/-- A rule leaves a string where there is one. -/
theorem ruleEntry_str (rule : PIIRule) (v w : Value) (hv : ∃ s, v = str s)
    (h : ruleEntry E rule path depth key v = some w) : ∃ s, w = str s := by
  rw [ruleEntry] at h
  split at h
  · exact mask_eq_some h
  · obtain ⟨s, rfl⟩ := hv
    cases h
    exact ⟨s, rfl⟩

/-- An entry that some rule masks is dropped or becomes a string. -/
theorem rulesEntry_of_anyHit (h : anyHit rules depth (path ++ [key]) = true) (v : Value) :
    rulesEntry E rules path depth key v = none ∨
      ∃ s, rulesEntry E rules path depth key v = some (str s) := by
  obtain ⟨rule, hrule, hhit⟩ := List.any_eq_true.mp h
  cases hentry : rulesEntry E rules path depth key v with
  | none => exact .inl rfl
  | some w =>
      have hmask : ∀ x y, ruleEntry E rule path depth key x = some y → ∃ s, y = str s := by
        intro x y hxy
        rw [ruleEntry, if_pos hhit] at hxy
        exact mask_eq_some hxy
      obtain ⟨s, rfl⟩ := foldlM_of_mask ruleEntry_str hrule hmask hentry
      exact .inr ⟨s, rfl⟩

/-- The masks of the rules that hit, in order. -/
def maskAll (rules : List PIIRule) (depth : ℕ) (target : List String) (v : Value) :
    Option Value :=
  (rules.filter fun rule => hit rule depth target).foldlM
    (fun v rule => mask E v rule.mode rule.truncateTo) v

/-- An entry that holds a string goes through the masks of the rules that hit it. -/
theorem rulesEntry_str (rules : List PIIRule) (s : String) :
    rulesEntry E rules path depth key (str s) =
      maskAll E rules depth (path ++ [key]) (str s) := by
  induction rules generalizing s with
  | nil => rfl
  | cons rule rules ih =>
      rw [rulesEntry, maskAll, List.foldlM_cons, ruleEntry, List.filter_cons]
      by_cases hm : hit rule depth (path ++ [key]) = true
      · rw [if_pos hm, if_pos hm, List.foldlM_cons]
        cases hmask : mask E (str s) rule.mode rule.truncateTo with
        | none => rfl
        | some w =>
            obtain ⟨t, rfl⟩ := mask_eq_some hmask
            exact ih t
      · rw [if_neg hm, if_neg hm]
        exact ih s

/-- A rule masks only entries its path matches. -/
theorem anyHit_eq (rules : List PIIRule) (depth : ℕ) (target : List String) :
    anyHit rules depth target = (decide (depth < ruleDepth) && targeted rules target) := by
  induction rules with
  | nil => simp [anyHit, targeted]
  | cons rule rules ih =>
      simp only [anyHit, targeted, List.any_cons, hit] at ih ⊢
      rw [ih]
      cases decide (depth < ruleDepth) <;> simp

theorem anyHit_of_not_targeted {target : List String} (h : targeted rules target = false)
    (depth : ℕ) : anyHit rules depth target = false := by
  rw [anyHit_eq, h, Bool.and_false]

/-- The default pass is told of the paths of the rules that match something. -/
theorem pathHasRule_collectRulePaths (rules : List PIIRule) (path : List String) (key : String) :
    pathHasRule (collectRulePaths rules) (path ++ [key]) = targeted rules (path ++ [key]) := by
  rw [pathHasRule, collectRulePaths, targeted, List.any_map, List.any_filter]
  congr 1
  funext rule
  by_cases hpath : rule.path = []
  · simp [hpath, match_, wildcardMatch]
  · simp [hpath]

/-- The rules keep the keys apart. -/
theorem nodupKeys_rulesVal {v : Value} (hkeys : v.NodupKeys) :
    (rulesVal E rules path depth v).NodupKeys := by
  induction v using Tree.induct generalizing path depth with
  | scalar a =>
      rw [rulesVal_scalar]
      exact .scalar a
  | list r items ih =>
      refine (rewrites_rulesVal E rules path depth).nodupKeys hkeys nofun ?_
      intro i c hc
      exact ih c (List.mem_of_getElem? hc) (hkeys.child hc)
  | dict r entries ih =>
      refine (rewrites_rulesVal E rules path depth).nodupKeys hkeys ?_ nofun
      intro k c d hc hd
      cases hhit : anyHit rules depth (path ++ [k]) with
      | true =>
          obtain hgone | ⟨t, ht⟩ := rulesEntry_of_anyHit E hhit c
          · cases hgone.symm.trans hd
          · cases ht.symm.trans hd
            exact .scalar _
      | false =>
          rw [rulesEntry_of_not_anyHit E hhit] at hd
          cases hd
          exact ih (k, c) (Tree.mem_of_lookup hc) (hkeys.child hc)

end Telemetry.Pii.Python
