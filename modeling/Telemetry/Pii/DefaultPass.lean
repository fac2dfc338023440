import Telemetry.Pii.RulePass
import Telemetry.Pii.Scalars

/-!
# What the default pass computes

The default pass walks the rewritten tree beside the original one. At each child of a node
it takes one of four turns: a sensitive key is kept or redacted, a secret-looking string is
redacted, anything else is walked into. The lemmas below say what the two passes together
leave at a child, again from the original child alone.

## Main definitions

* `defaultEntry`, `defaultItem` — the default pass on one entry and on one item.
* `cleanAt` — both passes on the value at a path.
-/

namespace Telemetry.Pii.Python

open Telemetry.Lib

variable (E : Env) (maxDepth : ℤ) (rulePaths : List (List String))

/-! ## One child -/

/-- The default pass on one entry of a dict. -/
def defaultEntry (path : List String) (depth : ℕ) (key : String) (value original : Value) :
    Logged Receipt Value :=
  if sensitive E key then
    if pathHasRule rulePaths (path ++ [key]) || !valueEq value original then pure value
    else do
      Logged.tell ⟨joined (path ++ [key]), .redact, original⟩
      pure redacted
  else match redactIfSecret E value with
    | some text => do
        Logged.tell ⟨joined (path ++ [key]), .redact, value⟩
        pure (str text)
    | none => applyDefault E maxDepth rulePaths (path ++ [key]) (depth + 1) value original

/-- The default pass on one item of a list. -/
def defaultItem (path : List String) (depth : ℕ) (item original : Value) :
    Logged Receipt Value :=
  match redactIfSecret E item with
  | some text => do
      Logged.tell ⟨"(list_item)", .redact, item⟩
      pure (str text)
  | none => applyDefault E maxDepth rulePaths path depth item original

theorem applyDefaultEntries_cons (path : List String) (depth : ℕ) (originals : Entries)
    (key : String) (value : Value) (entries : Entries) :
    applyDefaultEntries E maxDepth rulePaths path depth originals ((key, value) :: entries) =
      (do
        let child ← defaultEntry E maxDepth rulePaths path depth key value
          ((originals.lookup key).getD value)
        let output ← applyDefaultEntries E maxDepth rulePaths path depth originals entries
        pure ((key, child) :: output)) := by
  rw [applyDefaultEntries, defaultEntry]
  split
  · split <;> rfl
  · cases redactIfSecret E value <;> rfl

theorem applyDefaultItems_cons (path : List String) (depth : ℕ) (item original : Value)
    (items originals : List Value) :
    applyDefaultItems E maxDepth rulePaths path depth (item :: items) (original :: originals) =
      (do
        let child ← defaultItem E maxDepth rulePaths path depth item original
        let output ← applyDefaultItems E maxDepth rulePaths path depth items originals
        pure (child :: output)) := by
  rw [applyDefaultItems, defaultItem]
  cases redactIfSecret E item <;> rfl

theorem val_applyDefaultEntries (path : List String) (depth : ℕ) (originals entries : Entries) :
    (applyDefaultEntries E maxDepth rulePaths path depth originals entries).val =
      entries.map fun e => (e.1, (defaultEntry E maxDepth rulePaths path depth e.1 e.2
        ((originals.lookup e.1).getD e.2)).val) := by
  induction entries with
  | nil => rfl
  | cons e entries ih =>
      rw [applyDefaultEntries_cons, List.map_cons, ← ih]
      rfl

theorem val_applyDefaultItems (path : List String) (depth : ℕ) (items originals : List Value) :
    (applyDefaultItems E maxDepth rulePaths path depth items originals).val =
      List.zipWith (fun item original =>
        (defaultItem E maxDepth rulePaths path depth item original).val) items originals := by
  induction items generalizing originals with
  | nil => rfl
  | cons item items ih =>
      cases originals with
      | nil => rfl
      | cons original originals =>
          rw [applyDefaultItems_cons, List.zipWith_cons_cons, ← ih]
          rfl

/-- From the configured depth on, the default pass does nothing. -/
theorem applyDefault_deep (path : List String) {depth : ℕ} (h : maxDepth ≤ depth)
    (node original : Value) :
    applyDefault E maxDepth rulePaths path depth node original = pure node := by
  cases node <;> cases original <;> first | rfl | rw [applyDefault, if_pos h]

theorem val_applyDefault_dict (path : List String) {depth : ℕ} (h : depth < maxDepth)
    (entries originals : Entries) :
    (applyDefault E maxDepth rulePaths path depth (.dict () entries) (.dict () originals)).val =
      .dict () (entries.map fun e => (e.1, (defaultEntry E maxDepth rulePaths path depth e.1 e.2
        ((originals.lookup e.1).getD e.2)).val)) := by
  rw [applyDefault, if_neg (by omega), Logged.val_bind, val_applyDefaultEntries]
  rfl

theorem val_applyDefault_list (path : List String) {depth : ℕ} (h : depth < maxDepth)
    (items originals : List Value) :
    (applyDefault E maxDepth rulePaths path depth (.list () items) (.list () originals)).val =
      .list () (List.zipWith (fun item original =>
        (defaultItem E maxDepth rulePaths (path ++ [wild]) (depth + 1) item original).val)
        items originals) := by
  rw [applyDefault, if_neg (by omega), Logged.val_bind, val_applyDefaultItems]
  rfl

@[simp] theorem applyDefault_scalar (path : List String) (depth : ℕ) (a : Scalar)
    (original : Value) :
    applyDefault E maxDepth rulePaths path depth (.scalar a) original = pure (.scalar a) := by
  cases original <;> rfl

/-! ## Both passes -/

variable (rules : List PIIRule)

/-- The rules, then the default pass, on the value at a path. -/
def cleanAt (path : List String) (depth : ℕ) (original : Value) : Value :=
  (applyDefault E maxDepth (collectRulePaths rules) path depth
    (rulesVal E rules path depth original) original).val

theorem val_clean (payload : Value) :
    (clean E rules maxDepth payload).val = cleanAt E maxDepth rules [] 0 payload := by
  rw [clean, Logged.val_bind, val_applyRules]
  rfl

/-- Beyond the configured depth only the rules act. -/
theorem cleanAt_deep (path : List String) {depth : ℕ} (h : maxDepth ≤ depth) (v : Value) :
    cleanAt E maxDepth rules path depth v = rulesVal E rules path depth v := by
  rw [cleanAt, applyDefault_deep E maxDepth _ path h]
  rfl

@[simp] theorem cleanAt_scalar (path : List String) (depth : ℕ) (a : Scalar) :
    cleanAt E maxDepth rules path depth (.scalar a) = .scalar a := by
  rw [cleanAt, rulesVal_scalar, applyDefault_scalar]
  rfl

/-- What both passes leave of the entry under a key. -/
def cleanEntry (path : List String) (depth : ℕ) (key : String) (original : Value) :
    Option Value :=
  (rulesEntry E rules path depth key original).map fun v =>
    (defaultEntry E maxDepth (collectRulePaths rules) path depth key v original).val

/-- What both passes leave of an item. -/
def cleanItem (path : List String) (depth : ℕ) (original : Value) : Value :=
  (defaultItem E maxDepth (collectRulePaths rules) path depth
    (rulesVal E rules path depth original) original).val

/-- What becomes of the entry under a key depends on that entry only. -/
theorem child?_cleanAt_key (path : List String) {depth : ℕ} (h : depth < maxDepth) {v : Value}
    (hkeys : v.NodupKeys) (key : String) :
    (cleanAt E maxDepth rules path depth v).child? (.key key) =
      (v.child? (.key key)).bind (cleanEntry E maxDepth rules path depth key) := by
  cases v with
  | scalar a => rw [cleanAt_scalar, Tree.child?_scalar, Option.bind_none]
  | list r items =>
      rw [cleanAt, rulesVal_list, val_applyDefault_list E maxDepth _ path h]
      rfl
  | dict r entries =>
      have hrules := child?_rulesVal_key E rules path depth hkeys key
      rw [cleanAt]
      rw [rulesVal_dict] at hrules ⊢
      rw [Tree.child?_dict] at hrules
      rw [val_applyDefault_dict E maxDepth _ path h, Tree.child?_dict,
        Tree.lookup_map (fun key value =>
          (defaultEntry E maxDepth (collectRulePaths rules) path depth key value
            ((entries.lookup key).getD value)).val), hrules, Tree.child?_dict]
      cases entries.lookup key with
      | none => rfl
      | some c => rfl

/-- What becomes of an item depends on that item only. -/
theorem child?_cleanAt_index (path : List String) {depth : ℕ} (h : depth < maxDepth) (v : Value)
    (i : ℕ) :
    (cleanAt E maxDepth rules path depth v).child? (.index i) =
      (v.child? (.index i)).map (cleanItem E maxDepth rules (path ++ [wild]) (depth + 1)) := by
  cases v with
  | scalar a => rw [cleanAt_scalar, Tree.child?_scalar, Option.map_none]
  | list r items =>
      rw [cleanAt, rulesVal_list, val_applyDefault_list E maxDepth _ path h, Tree.child?_list,
        List.getElem?_zipWith, List.getElem?_map, Tree.child?_list]
      cases items[i]? with
      | none => rfl
      | some c => rfl
  | dict r entries =>
      rw [cleanAt, rulesVal_dict, val_applyDefault_dict E maxDepth _ path h]
      rfl

@[simp] theorem isContainer_rulesVal (path : List String) (depth : ℕ) (v : Value) :
    (rulesVal E rules path depth v).isContainer = v.isContainer :=
  (rewrites_rulesVal E rules path depth).isContainer v

/-- Dicts and lists stay what they are. -/
@[simp] theorem isContainer_cleanAt (path : List String) (depth : ℕ) (v : Value) :
    (cleanAt E maxDepth rules path depth v).isContainer = v.isContainer := by
  by_cases h : depth < maxDepth
  · cases v with
    | scalar a => rw [cleanAt_scalar]
    | list r items =>
        rw [cleanAt, rulesVal_list, val_applyDefault_list E maxDepth _ path h]
        rfl
    | dict r entries =>
        rw [cleanAt, rulesVal_dict, val_applyDefault_dict E maxDepth _ path h]
        rfl
  · rw [cleanAt_deep E maxDepth rules path (by omega), isContainer_rulesVal]

/-- A dict stays one. -/
theorem exists_cleanAt_dict (path : List String) (depth : ℕ) (entries : Entries) :
    ∃ output, cleanAt E maxDepth rules path depth (.dict () entries) = .dict () output := by
  rw [cleanAt, rulesVal_dict]
  by_cases h : depth < maxDepth
  · exact ⟨_, val_applyDefault_dict E maxDepth _ path h _ _⟩
  · rw [applyDefault_deep E maxDepth _ path (by omega)]
    exact ⟨_, rfl⟩

/-- The sanitizer's output is what the two passes leave, classified. -/
theorem exists_val_sanitizePayload (hooks : Hooks) (payload : Payload) :
    ∃ cleaned, cleanAt E maxDepth rules [] 0 payload.value = .dict () cleaned ∧
      (sanitizePayload E hooks rules payload true maxDepth).val =
        .dict () (classify E hooks cleaned) := by
  obtain ⟨cleaned, h⟩ := exists_cleanAt_dict E maxDepth rules [] 0 payload.entries
  refine ⟨cleaned, h, ?_⟩
  rw [sanitizePayload, if_pos rfl, Logged.val_bind, val_clean, Payload.value, h]
  rfl

/-- The hook is called by the two passes only. -/
theorem log_sanitizePayload (hooks : Hooks) (payload : Payload) :
    (sanitizePayload E hooks rules payload true maxDepth).log =
      (clean E rules maxDepth payload.value).log := by
  obtain ⟨cleaned, h⟩ := exists_cleanAt_dict E maxDepth rules [] 0 payload.entries
  rw [sanitizePayload, if_pos rfl, Logged.log_bind, val_clean, Payload.value, h]
  exact List.append_nil _

/-! ## The turns an entry takes -/

variable {E maxDepth rules} {path : List String} {depth : ℕ} {key : String}

/-- The default pass turns a string into a scalar. -/
theorem val_defaultEntry_str (s : String) (original : Value) :
    ∃ a, (defaultEntry E maxDepth rulePaths path depth key (str s) original).val = .scalar a := by
  rw [defaultEntry]
  split
  · split
    · exact ⟨.str s, rfl⟩
    · exact ⟨.str "***", rfl⟩
  · split
    · exact ⟨.str _, rfl⟩
    · rw [applyDefault_scalar]
      exact ⟨.str s, rfl⟩

/-- An entry that a rule masks is gone or a scalar. -/
theorem cleanEntry_of_anyHit (h : anyHit rules depth (path ++ [key]) = true) (v : Value) :
    cleanEntry E maxDepth rules path depth key v = none ∨
      ∃ a, cleanEntry E maxDepth rules path depth key v = some (.scalar a) := by
  rw [cleanEntry]
  obtain hnone | ⟨s, hs⟩ := rulesEntry_of_anyHit E h v
  · rw [hnone]
    exact .inl rfl
  · rw [hs]
    have hstr : ∃ a, (defaultEntry E maxDepth (collectRulePaths rules) path depth key (str s)
        v).val = .scalar a := val_defaultEntry_str _ s v
    obtain ⟨a, ha⟩ := hstr
    exact .inr ⟨a, congrArg some ha⟩

/-- A sensitive entry that no rule masks is kept as the rules left it, or redacted. -/
theorem cleanEntry_of_sensitive (h : anyHit rules depth (path ++ [key]) = false)
    (hs : sensitive E key = true) (v : Value) :
    cleanEntry E maxDepth rules path depth key v =
      some (if targeted rules (path ++ [key]) ||
          !valueEq (rulesVal E rules (path ++ [key]) (depth + 1) v) v then
        rulesVal E rules (path ++ [key]) (depth + 1) v else redacted) := by
  rw [cleanEntry, rulesEntry_of_not_anyHit E h, Option.map_some, defaultEntry, if_pos hs,
    pathHasRule_collectRulePaths]
  split <;> rfl

/-- Any other entry that no rule masks is walked into, unless it holds a secret. -/
theorem cleanEntry_of_not_sensitive (h : anyHit rules depth (path ++ [key]) = false)
    (hs : sensitive E key = false) {v : Value}
    (hsecret : redactIfSecret E (rulesVal E rules (path ++ [key]) (depth + 1) v) = none) :
    cleanEntry E maxDepth rules path depth key v =
      some (cleanAt E maxDepth rules (path ++ [key]) (depth + 1) v) := by
  rw [cleanEntry, rulesEntry_of_not_anyHit E h, Option.map_some, defaultEntry,
    if_neg (by simp [hs]), hsecret]
  rfl

/-- An item is walked into, unless it holds a secret. -/
theorem cleanItem_of_not_secret {v : Value}
    (hsecret : redactIfSecret E (rulesVal E rules path depth v) = none) :
    cleanItem E maxDepth rules path depth v = cleanAt E maxDepth rules path depth v := by
  rw [cleanItem, defaultItem, hsecret]
  rfl

/-- A value that has a child is no string, before the rules and after. -/
theorem redactIfSecret_rulesVal {v c : Value} {s : Step String} (h : v.child? s = some c) :
    redactIfSecret E (rulesVal E rules path depth v) = none := by
  cases v with
  | scalar a => simp at h
  | list r items =>
      rw [rulesVal_list]
      rfl
  | dict r entries =>
      rw [rulesVal_dict]
      rfl

/-! ## The output is well formed -/

theorem nodupKeys_defaultItem {item original : Value}
    (h : (applyDefault E maxDepth rulePaths path depth item original).val.NodupKeys) :
    (defaultItem E maxDepth rulePaths path depth item original).val.NodupKeys := by
  rw [defaultItem]
  split
  · exact .scalar _
  · exact h

theorem nodupKeys_defaultEntry {value original : Value} (hvalue : value.NodupKeys)
    (h : (applyDefault E maxDepth rulePaths (path ++ [key]) (depth + 1) value
      original).val.NodupKeys) :
    (defaultEntry E maxDepth rulePaths path depth key value original).val.NodupKeys := by
  rw [defaultEntry]
  split
  · split
    · exact hvalue
    · exact .scalar _
  · split
    · exact .scalar _
    · exact h

/-- The default pass keeps the keys apart. -/
theorem nodupKeys_applyDefault {node : Value} (original : Value) (hkeys : node.NodupKeys) :
    (applyDefault E maxDepth rulePaths path depth node original).val.NodupKeys := by
  induction node using Tree.induct generalizing original path depth with
  | scalar a =>
      rw [applyDefault_scalar]
      exact .scalar a
  | list r items ih =>
      cases original with
      | scalar a => exact hkeys
      | dict r' originals => exact hkeys
      | list r' originals =>
          by_cases h : depth < maxDepth
          · rw [val_applyDefault_list E maxDepth rulePaths path h,
              ← List.map_uncurry_zip_eq_zipWith]
            apply Tree.NodupKeys.list
            intro x hx
            obtain ⟨⟨item, o⟩, hzip, rfl⟩ := List.mem_map.mp hx
            have hitem := (List.of_mem_zip hzip).1
            exact nodupKeys_defaultItem rulePaths (ih item hitem o (hkeys.items item hitem))
          · rw [applyDefault_deep E maxDepth rulePaths path (by omega)]
            exact hkeys
  | dict r entries ih =>
      cases original with
      | scalar a => exact hkeys
      | list r' originals => exact hkeys
      | dict r' originals =>
          by_cases h : depth < maxDepth
          · rw [val_applyDefault_dict E maxDepth rulePaths path h]
            refine .dict ?_ ?_
            · rw [List.map_map]
              exact hkeys.keys
            · intro x hx
              obtain ⟨e, he, rfl⟩ := List.mem_map.mp hx
              have hvalue := hkeys.entries e he
              exact nodupKeys_defaultEntry rulePaths hvalue (ih e he _ hvalue)
          · rw [applyDefault_deep E maxDepth rulePaths path (by omega)]
            exact hkeys

theorem setItem_eq (k : String) (v : Value) (entries : Entries) :
    setItem k v entries = Pii.setItem k v entries := by
  induction entries with
  | nil => rfl
  | cons e entries ih => rw [setItem, Pii.setItem, ih]

/-- Setting an item keeps the keys apart. -/
theorem nodupKeys_setItem {k : String} {v : Value} {entries : Entries} (hv : v.NodupKeys)
    (h : (Tree.dict () entries : Value).NodupKeys) :
    (Tree.dict () (setItem k v entries) : Value).NodupKeys := by
  rw [setItem_eq]
  exact Pii.nodupKeys_setItem hv h

/-- Deleting an item keeps the keys apart. -/
theorem nodupKeys_delItem {k : String} {entries : Entries}
    (h : (Tree.dict () entries : Value).NodupKeys) :
    (Tree.dict () (delItem k entries) : Value).NodupKeys :=
  Pii.nodupKeys_delItem h

/-- A round of the classification loop keeps the keys apart. -/
theorem nodupKeys_classifyItem (classification : String → Value → Option String)
    (policy : Option (String → String)) (item : String × Value) {cleaned : Entries}
    (h : (Tree.dict () cleaned : Value).NodupKeys) :
    (Tree.dict () (classifyItem E classification policy cleaned item) : Value).NodupKeys := by
  rw [classifyItem]
  cases classification item.1 item.2 with
  | none => exact h
  | some label =>
      have htagged : (Tree.dict () (setItem ("__" ++ item.1 ++ "__class") (str label) cleaned) :
          Value).NodupKeys := nodupKeys_setItem (.scalar _) h
      dsimp only
      split
      · exact nodupKeys_delItem h
      · split
        · rename_i mode hmode
          split
          · exact htagged
          · refine nodupKeys_setItem ?_ htagged
            cases hmask : mask E item.2 mode 8 with
            | none => exact .scalar _
            | some masked =>
                obtain ⟨s, rfl⟩ := mask_eq_some hmask
                exact .scalar _
        · exact htagged

theorem nodupKeys_classify (hooks : Hooks) {cleaned : Entries}
    (h : (Tree.dict () cleaned : Value).NodupKeys) :
    (Tree.dict () (classify E hooks cleaned) : Value).NodupKeys := by
  have hloop : ∀ classification (items entries : Entries),
      (Tree.dict () entries : Value).NodupKeys →
      (Tree.dict () (items.foldl (classifyItem E classification hooks.policy) entries) :
        Value).NodupKeys := by
    intro classification items
    induction items with
    | nil => exact fun _ h => h
    | cons item items ih =>
        intro entries hentries
        exact ih _ (nodupKeys_classifyItem classification hooks.policy item hentries)
  rw [classify]
  cases hooks.classification with
  | none => exact h
  | some classification => exact hloop classification cleaned cleaned h

/-- **The output is well formed**: whatever the hooks, no dict in it has a key twice. -/
theorem nodupKeys_sanitizePayload (hooks : Hooks) (rules : List PIIRule) (payload : Payload) :
    (sanitizePayload E hooks rules payload true maxDepth).val.NodupKeys := by
  obtain ⟨cleaned, hcleaned, hval⟩ := exists_val_sanitizePayload E maxDepth rules hooks payload
  rw [hval]
  apply nodupKeys_classify
  rw [← hcleaned]
  exact nodupKeys_applyDefault _ _ (nodupKeys_rulesVal E payload.nodupKeys)

end Telemetry.Pii.Python
