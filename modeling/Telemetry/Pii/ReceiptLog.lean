import Telemetry.Pii.DefaultPass

/-!
# What the receipt hook is called with

The log of each pass, child by child. A call for a child of a node is a call for the node;
an entry that a rule masks is reported by the first rule that does, with what the rules
before it left of the value.

## Main definitions

* `rulesLog`, `cleanLog` — the calls of the rules, and of the default pass after them.
* `earlierRules` — the rules before the first one that masks an entry.
-/

namespace Telemetry.Pii.Python

open Telemetry.Lib

variable (E : Env)

/-! ## One rule -/

/-- The calls of one rule for an entry. -/
def ruleEntryLog (rule : PIIRule) (path : List String) (depth : ℕ) (key : String)
    (value : Value) : List Receipt :=
  if hit rule depth (path ++ [key]) then [⟨joined (path ++ [key]), rule.mode, value⟩]
  else (applyRule E rule (path ++ [key]) (depth + 1) value).log

theorem log_applyRuleEntries (rule : PIIRule) (path : List String) {depth : ℕ}
    (h : depth < ruleDepth) (entries : Entries) :
    (applyRuleEntries E rule path depth entries).log =
      entries.flatMap fun e => ruleEntryLog E rule path depth e.1 e.2 := by
  induction entries with
  | nil => rfl
  | cons e entries ih =>
      obtain ⟨key, value⟩ := e
      rw [applyRuleEntries, List.flatMap_cons, ← ih, ruleEntryLog]
      simp only [hit, h, decide_true, Bool.true_and]
      split
      · rw [Logged.log_bind, Logged.log_bind, Logged.log_tell]
        cases mask E value rule.mode rule.truncateTo <;> simp
      · simp

theorem log_applyRuleItems (rule : PIIRule) (path : List String) (depth : ℕ)
    (items : List Value) :
    (applyRuleItems E rule path depth items).log =
      items.flatMap fun item => (applyRule E rule path depth item).log := by
  induction items with
  | nil => rfl
  | cons item items ih =>
      rw [applyRuleItems, List.flatMap_cons, ← ih]
      simp

theorem log_applyRule_dict (rule : PIIRule) (path : List String) (depth : ℕ)
    (entries : Entries) :
    (applyRule E rule path depth (.dict () entries)).log =
      entries.flatMap fun e => ruleEntryLog E rule path depth e.1 e.2 := by
  by_cases h : depth < ruleDepth
  · rw [applyRule, if_neg (by omega), Logged.log_bind, log_applyRuleEntries E rule path h]
    exact List.append_nil _
  · have hentry : ∀ key value, ruleEntryLog E rule path depth key value = [] := by
      intro key value
      rw [ruleEntryLog, applyRule_deep E rule _ (by omega)]
      simp [hit, h]
    rw [applyRule_deep E rule path (by omega)]
    simp [hentry]

theorem log_applyRule_list (rule : PIIRule) (path : List String) (depth : ℕ)
    (items : List Value) :
    (applyRule E rule path depth (.list () items)).log =
      items.flatMap fun item => (applyRule E rule (path ++ [wild]) (depth + 1) item).log := by
  by_cases h : depth < ruleDepth
  · rw [applyRule, if_neg (by omega), Logged.log_bind, log_applyRuleItems]
    exact List.append_nil _
  · rw [applyRule_deep E rule path (by omega)]
    simp [applyRule_deep E rule (path ++ [wild]) (show ruleDepth ≤ depth + 1 by omega)]

/-! ## All rules -/

/-- The calls of the rules for the value at a path. -/
def rulesLog (rules : List PIIRule) (path : List String) (depth : ℕ) (v : Value) :
    List Receipt :=
  (rules.foldlM (fun v rule => applyRule E rule path depth v) v).log

theorem rulesLog_cons (rule : PIIRule) (rules : List PIIRule) (path : List String) (depth : ℕ)
    (v : Value) :
    rulesLog E (rule :: rules) path depth v =
      (applyRule E rule path depth v).log ++
        rulesLog E rules path depth (applyRule E rule path depth v).val := rfl

variable {E} {path : List String} {depth : ℕ} {key : String} {c : Value} {entries : Entries}
  {items : List Value} {w : Receipt}

/-- What one rule makes of an entry it does not mask is an entry of what it makes of the
dict. -/
theorem mem_rewriteEntries_ruleEntry {rule : PIIRule} (hc : (key, c) ∈ entries)
    (h : hit rule depth (path ++ [key]) = false) :
    (key, (applyRule E rule (path ++ [key]) (depth + 1) c).val) ∈
      Tree.rewriteEntries (ruleEntry E rule path depth) entries := by
  refine Tree.mem_rewriteEntries.mpr ⟨c, hc, ?_⟩
  rw [ruleEntry, h]
  rfl

/-- A call for an entry that no rule masks is a call for the dict. -/
theorem mem_rulesLog_dict {rules : List PIIRule} (hc : (key, c) ∈ entries)
    (h : anyHit rules depth (path ++ [key]) = false)
    (hw : w ∈ rulesLog E rules (path ++ [key]) (depth + 1) c) :
    w ∈ rulesLog E rules path depth (.dict () entries) := by
  induction rules generalizing c entries with
  | nil => cases hw
  | cons rule rules ih =>
      rw [anyHit, List.any_cons, Bool.or_eq_false_iff] at h
      rw [rulesLog_cons, List.mem_append] at hw ⊢
      obtain hw | hw := hw
      · left
        rw [log_applyRule_dict]
        refine List.mem_flatMap.mpr ⟨(key, c), hc, ?_⟩
        rw [ruleEntryLog, h.1]
        exact hw
      · right
        rw [val_applyRule_dict]
        exact ih (mem_rewriteEntries_ruleEntry hc h.1) h.2 hw

/-- A call for an item is a call for the list. -/
theorem mem_rulesLog_list {rules : List PIIRule} (hc : c ∈ items)
    (hw : w ∈ rulesLog E rules (path ++ [wild]) (depth + 1) c) :
    w ∈ rulesLog E rules path depth (.list () items) := by
  induction rules generalizing c items with
  | nil => cases hw
  | cons rule rules ih =>
      rw [rulesLog_cons, List.mem_append] at hw ⊢
      obtain hw | hw := hw
      · left
        rw [log_applyRule_list]
        exact List.mem_flatMap.mpr ⟨c, hc, hw⟩
      · right
        rw [val_applyRule_list]
        exact ih (List.mem_map.mpr ⟨c, hc, rfl⟩) hw

/-- The rules before the first one that masks the entry at a path; none if no rule does. -/
def earlierRules (rules : List PIIRule) (depth : ℕ) (target : List String) : List PIIRule :=
  if anyHit rules depth target then rules.takeWhile fun rule => !hit rule depth target else []

theorem earlierRules_of_hit {rule : PIIRule} {rules : List PIIRule} {target : List String}
    (h : hit rule depth target = true) : earlierRules (rule :: rules) depth target = [] := by
  simp [earlierRules, h]

theorem earlierRules_of_not_hit {rule : PIIRule} {rules : List PIIRule} {target : List String}
    (h : hit rule depth target = false) (hrules : anyHit rules depth target = true) :
    earlierRules (rule :: rules) depth target = rule :: earlierRules rules depth target := by
  have hcons : anyHit (rule :: rules) depth target = true := by
    rw [anyHit, List.any_cons, h, Bool.false_or]
    exact hrules
  rw [earlierRules, earlierRules, if_pos hcons, if_pos hrules,
    List.takeWhile_cons_of_pos (by simp [h])]

/-- **A masked entry is reported**, with what the earlier rules left of its value. -/
theorem exists_mem_rulesLog_of_anyHit {rules : List PIIRule} (hc : (key, c) ∈ entries)
    (h : anyHit rules depth (path ++ [key]) = true) :
    ∃ action, ⟨joined (path ++ [key]), action,
        rulesVal E (earlierRules rules depth (path ++ [key])) (path ++ [key]) (depth + 1) c⟩ ∈
      rulesLog E rules path depth (.dict () entries) := by
  induction rules generalizing c entries with
  | nil => cases h
  | cons rule rules ih =>
      cases hrule : hit rule depth (path ++ [key]) with
      | true =>
          refine ⟨rule.mode, ?_⟩
          rw [rulesLog_cons, log_applyRule_dict, earlierRules_of_hit hrule]
          refine List.mem_append_left _ (List.mem_flatMap.mpr ⟨(key, c), hc, ?_⟩)
          rw [ruleEntryLog, hrule]
          exact List.mem_cons_self
      | false =>
          rw [anyHit, List.any_cons, hrule, Bool.false_or] at h
          obtain ⟨action, hmem⟩ := ih (mem_rewriteEntries_ruleEntry hc hrule) h
          refine ⟨action, ?_⟩
          rw [rulesLog_cons, val_applyRule_dict, earlierRules_of_not_hit hrule h]
          exact List.mem_append_right _ hmem

/-! ## The default pass -/

variable (E) (maxDepth : ℤ) (rulePaths : List (List String))

theorem log_applyDefaultEntries (path : List String) (depth : ℕ) (originals entries : Entries) :
    (applyDefaultEntries E maxDepth rulePaths path depth originals entries).log =
      entries.flatMap fun e => (defaultEntry E maxDepth rulePaths path depth e.1 e.2
        ((originals.lookup e.1).getD e.2)).log := by
  induction entries with
  | nil => rfl
  | cons e entries ih =>
      rw [applyDefaultEntries_cons, List.flatMap_cons, ← ih]
      simp

theorem log_applyDefaultItems (path : List String) (depth : ℕ) (items originals : List Value) :
    (applyDefaultItems E maxDepth rulePaths path depth items originals).log =
      (items.zip originals).flatMap fun e =>
        (defaultItem E maxDepth rulePaths path depth e.1 e.2).log := by
  induction items generalizing originals with
  | nil => rfl
  | cons item items ih =>
      cases originals with
      | nil => rfl
      | cons original originals =>
          rw [applyDefaultItems_cons, List.zip_cons_cons, List.flatMap_cons, ← ih]
          simp

variable (rules : List PIIRule)

/-- The calls of the default pass, after the rules, for the value at a path. -/
def cleanLog (path : List String) (depth : ℕ) (original : Value) : List Receipt :=
  (applyDefault E maxDepth (collectRulePaths rules) path depth
    (rulesVal E rules path depth original) original).log

theorem log_clean (payload : Value) :
    (clean E rules maxDepth payload).log =
      rulesLog E rules [] 0 payload ++ cleanLog E maxDepth rules [] 0 payload := by
  rw [clean, Logged.log_bind, val_applyRules]
  rfl

theorem cleanLog_deep (path : List String) {depth : ℕ} (h : maxDepth ≤ depth) (v : Value) :
    cleanLog E maxDepth rules path depth v = [] := by
  rw [cleanLog, applyDefault_deep E maxDepth _ path h]
  rfl

@[simp] theorem cleanLog_scalar (path : List String) (depth : ℕ) (a : Scalar) :
    cleanLog E maxDepth rules path depth (.scalar a) = [] := by
  rw [cleanLog, rulesVal_scalar, applyDefault_scalar]
  rfl

/-- A call for a dict is a call for one of its entries. -/
theorem mem_cleanLog_dict (path : List String) {depth : ℕ} (h : depth < maxDepth)
    {entries : Entries} (hkeys : (entries.map Prod.fst).Nodup) (w : Receipt) :
    w ∈ cleanLog E maxDepth rules path depth (.dict () entries) ↔
      ∃ e ∈ entries, ∃ v, rulesEntry E rules path depth e.1 e.2 = some v ∧
        w ∈ (defaultEntry E maxDepth (collectRulePaths rules) path depth e.1 v e.2).log := by
  rw [cleanLog, rulesVal_dict, applyDefault, if_neg (by omega), Logged.log_bind,
    log_applyDefaultEntries, Logged.log_pure, List.append_nil, List.mem_flatMap]
  constructor
  · rintro ⟨⟨key, v⟩, he', hw⟩
    obtain ⟨c, hc, hv⟩ := Tree.mem_rewriteEntries.mp he'
    rw [Tree.lookup_of_mem hkeys hc] at hw
    exact ⟨(key, c), hc, v, hv, hw⟩
  · rintro ⟨e, he, v, hv, hw⟩
    refine ⟨(e.1, v), Tree.mem_rewriteEntries.mpr ⟨e.2, he, hv⟩, ?_⟩
    rw [Tree.lookup_of_mem hkeys (v := e.2) he]
    exact hw

/-- A call for a list is a call for one of its items. -/
theorem mem_cleanLog_list (path : List String) {depth : ℕ} (h : depth < maxDepth)
    (items : List Value) (w : Receipt) :
    w ∈ cleanLog E maxDepth rules path depth (.list () items) ↔
      ∃ c ∈ items, w ∈ (defaultItem E maxDepth (collectRulePaths rules) (path ++ [wild])
        (depth + 1) (rulesVal E rules (path ++ [wild]) (depth + 1) c) c).log := by
  rw [cleanLog, rulesVal_list, applyDefault, if_neg (by omega), Logged.log_bind,
    log_applyDefaultItems, Logged.log_pure, List.append_nil, List.mem_flatMap, List.zip_map_left]
  have hzip : items.zip items = items.map fun c => (c, c) := by
    induction items with
    | nil => rfl
    | cons c items ih => rw [List.zip_cons_cons, ih, List.map_cons]
  simp [hzip]

end Telemetry.Pii.Python
