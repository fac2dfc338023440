import Telemetry.Pii.RulePaths

/-!
# The rules that Go and Rust apply

With a depth limit of at least the payload's height both walks reach every entry that is
not cut off above, and the rules in their logs are the ones that `Walk.selected` says. So
the two SDKs apply the same rules exactly to the payloads of `selectedAlike`.

## Main definitions

* `Go.applied`, `Rust.applied` — the rules in a log, each with the entry it was applied to.
* `Rust.PIIRule.toGo` — a rule as Go writes it.
* `applied_alike_iff` — **when Go and Rust apply the same rules**.
-/

namespace Telemetry.Pii

open Telemetry.Lib

variable {α : Type} [Scalars α]

/-! ## Go -/

namespace Go

variable (E : Env α) (rules : List PIIRule)

/-- The rules in a log, each with the position it was applied to. -/
def applied (log : List (Receipt α)) : List (Found PIIRule) :=
  log.filterMap fun r => r.rule.map fun rule => (r.position, rule)

omit [Scalars α] in
@[simp] theorem applied_nil : applied ([] : List (Receipt α)) = [] := rfl

omit [Scalars α] in
@[simp] theorem applied_append (xs ys : List (Receipt α)) :
    applied (xs ++ ys) = applied xs ++ applied ys := List.filterMap_append

/-- Go's walk: a list adds nothing to the path. -/
def walk : Walk where
  blanks := isDefaultSensitiveKey E
  itemPath path := path

variable {E rules} {position : List (Step String)} {key : String} {path : List String}
  {value : Value α}

/-- A value that is intercepted. -/
theorem applied_of_intercept {result : Logged (Receipt α) (Option (Value α))}
    (h : intercept E rules position key value path = some result) :
    applied result.log =
      ((walk E).selectedEntry (findRule rules) path key value).map (under position) := by
  rw [intercept] at h
  cases hrule : findRule rules path with
  | some rule =>
      rw [hrule] at h
      cases h
      simp [Walk.selectedEntry, hrule, applied, under]
  | none =>
      simp only [hrule, Option.map_eq_some_iff] at h
      rcases h with ⟨replacement, hreplacement, rfl⟩
      rw [Walk.selectedEntry_of_replaced hrule hreplacement]
      rfl

/-- A value that is not intercepted is walked into. -/
theorem selectedEntry_of_not_intercept (h : intercept E rules position key value path = none) :
    (walk E).selectedEntry (findRule rules) path key value =
      (walk E).selected (findRule rules) path value := by
  rw [intercept] at h
  cases hrule : findRule rules path with
  | some rule =>
      rw [hrule] at h
      cases h
  | none =>
      simp only [hrule, Option.map_eq_none_iff] at h
      exact Walk.selectedEntry_of_kept hrule h

omit [Scalars α] in
/-- No default-sensitive key is empty. -/
theorem isDefaultSensitiveKey_empty : isDefaultSensitiveKey E "" = false := by
  have hempty : "".map E.toLower = "" := String.map_eq_empty.mpr rfl
  rw [isDefaultSensitiveKey, hempty]
  decide

variable (E rules) in
/-- What is to be shown of a map or a list: within the depth limit its walk applies the rules
that are selected. -/
def Selects : Value α → Prop
  | .scalar _ => True
  | .list _ items => ∀ position path depth i, heightItems items ≤ depth - 1 →
      findRule rules path = none →
      applied (sanitizeSlice E rules position path depth i items).log =
        ((walk E).selectedItems (findRule rules) path i items).map (under position)
  | .dict _ entries => ∀ position path depth, heightEntries entries ≤ depth - 1 →
      applied (sanitizeEntries E rules position path depth entries).log =
        ((walk E).selectedEntries (findRule rules) path entries).map (under position)

/-- One value, with the key it lies under. -/
theorem Selects.at_key {v : Value α} (h : Selects E rules v) (position : List (Step String))
    (key : String) (path : List String) {depth : ℕ} (hdepth : height v ≤ depth - 1) :
    applied (sanitizeValue E rules position key path depth v).log =
      ((walk E).selectedEntry (findRule rules) path key v).map (under position) := by
  cases hint : intercept E rules position key v path with
  | some result =>
      have hresult : sanitizeValue E rules position key path depth v = result := by
        cases v <;> rw [sanitizeValue, hint]
      rw [hresult]
      exact applied_of_intercept hint
  | none =>
      have hselected := selectedEntry_of_not_intercept hint
      have hnone : findRule rules path = none := by
        rw [intercept] at hint
        cases hrule : findRule rules path with
        | none => rfl
        | some rule =>
            rw [hrule] at hint
            cases hint
      rw [hselected]
      cases v with
      | scalar a =>
          rw [sanitizeValue, hint]
          rfl
      | list r items =>
          rw [height] at hdepth
          have hdeep : ¬ depth ≤ 1 := by omega
          simp only [sanitizeValue, hint, if_neg hdeep, Logged.log_bind, Logged.log_pure,
            List.append_nil]
          exact h position path (depth - 1) 0 (by omega) hnone
      | dict r entries =>
          rw [height] at hdepth
          have hdeep : ¬ depth ≤ 1 := by omega
          simp only [sanitizeValue, hint, if_neg hdeep, Logged.log_bind, Logged.log_pure,
            List.append_nil]
          exact h position path (depth - 1) (by omega)

/-- An item is walked into at its list's path, whether it is a map or not. -/
theorem applied_sanitizeSlice_cons {item : Value α} {items : List (Value α)}
    (hitem : Selects E rules item) {depth i : ℕ} (hdepth : height item ≤ depth - 1)
    (hnone : findRule rules path = none) :
    applied (sanitizeSlice E rules position path depth i (item :: items)).log =
      ((walk E).selected (findRule rules) path item).map (under (position ++ [.index i])) ++
        applied (sanitizeSlice E rules position path depth (i + 1) items).log := by
  have hentry : (walk E).selectedEntry (findRule rules) path "" item =
      (walk E).selected (findRule rules) path item := by
    simp [Walk.selectedEntry, hnone, walk, isDefaultSensitiveKey_empty]
  cases item with
  | scalar a =>
      have hvalue := Selects.at_key hitem (position ++ [.index i]) "" path hdepth
      rw [hentry] at hvalue
      simp only [sanitizeSlice, Logged.log_bind, Logged.log_pure, applied_append, hvalue,
        List.append_nil]
  | list r inner =>
      have hvalue := Selects.at_key hitem (position ++ [.index i]) "" path hdepth
      rw [hentry] at hvalue
      simp only [sanitizeSlice, Logged.log_bind, Logged.log_pure, applied_append, hvalue,
        List.append_nil]
  | dict r inner =>
      rw [height] at hdepth
      have hinner := hitem (position ++ [.index i]) path depth (by omega)
      simp only [sanitizeSlice, Logged.log_bind, Logged.log_pure, applied_append, hinner,
        List.append_nil, Walk.selected]

theorem selects (v : Value α) : Selects E rules v := by
  induction v using Tree.induct with
  | scalar a => trivial
  | list r items ih =>
      intro position path depth i hdepth hnone
      induction items generalizing i with
      | nil => rfl
      | cons item items ihtail =>
          rw [heightItems] at hdepth
          have htail := ihtail (fun x hx => ih x (List.mem_cons_of_mem _ hx)) (i + 1) (by omega)
          rw [applied_sanitizeSlice_cons (ih item List.mem_cons_self) (by omega) hnone, htail,
            Walk.selectedItems, List.map_append, map_under_under]
  | dict r entries ih =>
      intro position path depth hdepth
      induction entries with
      | nil => rfl
      | cons e entries ihtail =>
          rcases e with ⟨k, v⟩
          rw [heightEntries] at hdepth
          have htail := ihtail (fun x hx => ih x (List.mem_cons_of_mem _ hx)) (by omega)
          have hheight : height v ≤ depth - 1 := by omega
          have hvalue := Selects.at_key (ih (k, v) List.mem_cons_self)
            (position ++ [.key k]) k (path ++ [k]) hheight
          rw [sanitizeEntries]
          simp only [Logged.log_bind, Logged.log_pure, applied_append, List.append_nil,
            hvalue, htail]
          rw [Walk.selectedEntries_cons, List.map_append, map_under_under]

/-- **`SanitizeMap` applies the rules that are selected.** -/
theorem applied_sanitizeMap (payload : Payload α) {depth : ℕ}
    (hdepth : height (.dict () payload.entries : Value α) ≤ depth) :
    applied (sanitizeMap E payload.entries [] rules depth).log =
      (walk E).selected (findRule rules) [] (.dict () payload.entries) := by
  rw [height] at hdepth
  have h : Selects E rules (.dict () payload.entries : Value α) := selects _
  rw [sanitizeMap, h [] [] depth (by omega), under_nil, List.map_id, Walk.selected]

end Go

/-! ## Rust -/

namespace Rust

variable (E : Env α) (rules : List PIIRule)

/-- The rules in a log, each with the position it was applied to. -/
def applied (log : List (Receipt α)) : List (Found PIIRule) :=
  log.filterMap fun r => r.rule.map fun rule => (r.position, rule)

omit [Scalars α] in
@[simp] theorem applied_nil : applied ([] : List (Receipt α)) = [] := rfl

omit [Scalars α] in
@[simp] theorem applied_append (xs ys : List (Receipt α)) :
    applied (xs ++ ys) = applied xs ++ applied ys := List.filterMap_append

/-- Rust's walk: a list adds a segment to the path. -/
def walk : Walk where
  blanks := sensitiveKey
  itemPath path := path ++ [wild]

variable {E rules} {position : List (Step String)} {key : String} {path : List String}
  {value : Value α}

/-- An entry that is intercepted. -/
theorem applied_of_intercept {result : Logged (Receipt α) (Option (Value α))}
    (h : intercept E rules position path key value = some result) :
    applied result.log =
      (walk.selectedEntry (findRule rules) path key value).map (under position) := by
  rw [intercept] at h
  cases hrule : findRule rules path with
  | some rule =>
      rw [hrule] at h
      cases h
      simp [Walk.selectedEntry, hrule, applied, under]
  | none =>
      simp only [hrule, Option.map_eq_some_iff] at h
      rcases h with ⟨replacement, hreplacement, rfl⟩
      rw [Walk.selectedEntry_of_replaced hrule hreplacement]
      rfl

/-- An entry that is not intercepted is walked into. -/
theorem selectedEntry_of_not_intercept (h : intercept E rules position path key value = none) :
    walk.selectedEntry (findRule rules) path key value =
      walk.selected (findRule rules) path value := by
  rw [intercept] at h
  cases hrule : findRule rules path with
  | some rule =>
      rw [hrule] at h
      cases h
  | none =>
      simp only [hrule, Option.map_eq_none_iff] at h
      exact Walk.selectedEntry_of_kept hrule h

/-- Within the depth limit the walk applies the rules that are selected. -/
theorem applied_applyRules_at (v : Value α) (position : List (Step String)) (path : List String)
    {maxDepth : ℕ} (hdepth : height v ≤ maxDepth) :
    applied (applyRules E rules position path maxDepth v).log =
      (walk.selected (findRule rules) path v).map (under position) := by
  induction v using Tree.induct generalizing position path maxDepth with
  | scalar a => rfl
  | list r items ih =>
      rw [height] at hdepth
      have hdeep : ¬ maxDepth = 0 := by omega
      simp only [applyRules, if_neg hdeep, Logged.log_bind, Logged.log_pure, List.append_nil,
        Walk.selected]
      have hitems : heightItems items ≤ maxDepth - 1 := by omega
      clear hdepth hdeep
      have hloop : ∀ i, applied (applyRulesItems E rules position (path ++ [wild])
          (maxDepth - 1) i items).log =
          (walk.selectedItems (findRule rules) (path ++ [wild]) i items).map (under position) := by
        induction items with
        | nil => exact fun _ => rfl
        | cons item items ihtail =>
            intro i
            rw [heightItems] at hitems
            have htail := ihtail (fun x hx => ih x (List.mem_cons_of_mem _ hx)) (by omega) (i + 1)
            have hheight : height item ≤ maxDepth - 1 := by omega
            have hitem := ih item List.mem_cons_self (position ++ [.index i]) (path ++ [wild])
              hheight
            rw [applyRulesItems]
            simp only [Logged.log_bind, Logged.log_pure, applied_append, List.append_nil,
              hitem, htail]
            rw [Walk.selectedItems, List.map_append, map_under_under]
      exact hloop 0
  | dict r entries ih =>
      rw [height] at hdepth
      have hdeep : ¬ maxDepth = 0 := by omega
      simp only [applyRules, if_neg hdeep, Logged.log_bind, Logged.log_pure, List.append_nil,
        Walk.selected]
      have hentries : heightEntries entries ≤ maxDepth - 1 := by omega
      clear hdepth hdeep
      induction entries with
      | nil => rfl
      | cons e entries ihtail =>
          rcases e with ⟨k, v⟩
          rw [heightEntries] at hentries
          have htail := ihtail (fun x hx => ih x (List.mem_cons_of_mem _ hx)) (by omega)
          have hheight : height v ≤ maxDepth - 1 := by omega
          have hvalue := ih (k, v) List.mem_cons_self (position ++ [.key k]) (path ++ [k]) hheight
          rw [applyRulesEntries_cons, Walk.selectedEntries_cons, List.map_append, map_under_under]
          simp only [Logged.log_bind, Logged.log_pure, List.append_nil, applied_append, htail]
          congr 1
          rw [applyRulesEntry]
          cases hint : intercept E rules (position ++ [.key k]) (path ++ [k]) k v with
          | some result => exact applied_of_intercept hint
          | none =>
              rw [selectedEntry_of_not_intercept hint, ← hvalue]
              simp

/-- **`apply_rules` applies the rules that are selected.** -/
theorem applied_applyRules (v : Value α) {maxDepth : ℕ} (hdepth : height v ≤ maxDepth) :
    applied (applyRules E rules [] [] maxDepth v).log =
      walk.selected (findRule rules) [] v := by
  rw [applied_applyRules_at v [] [] hdepth, under_nil, List.map_id]

/-! ## Both -/

/-- A mode as Go writes it. -/
def PIIMode.toGo : PIIMode → String
  | .drop => "drop"
  | .redact => "redact"
  | .hash => "hash"
  | .truncate => "truncate"

/-- A rule as Go writes it. -/
def PIIRule.toGo (rule : PIIRule) : Go.PIIRule := ⟨rule.path, rule.mode.toGo, rule.truncateTo⟩

theorem PIIRule.toGo_injective : Function.Injective PIIRule.toGo := by
  rintro ⟨path, mode, n⟩ ⟨path', mode', n'⟩ h
  simp only [PIIRule.toGo, Go.PIIRule.mk.injEq, Int.natCast_inj] at h
  rcases h with ⟨rfl, hmode, rfl⟩
  cases mode <;> cases mode' <;> first | rfl | simp [PIIMode.toGo] at hmode

/-- Go finds the rule that Rust finds at the same path. -/
theorem findRule_toGo (path : List String) :
    Go.findRule (rules.map PIIRule.toGo) path = (findRule rules path).map PIIRule.toGo := by
  rw [Go.findRule, List.find?_map]
  rfl

/-- A rule matches paths of one length only. -/
theorem length_eq_of_findRule {p q : List String} {rule : PIIRule}
    (hp : findRule rules p = some rule) (hq : findRule rules q = some rule) :
    p.length = q.length := by
  have hp' := List.find?_some hp
  have hq' := List.find?_some hq
  simp only [matchRulePath, wildcardMatch, Bool.and_eq_true, beq_iff_eq] at hp' hq'
  rw [← hp'.1, ← hq'.1]

end Rust

/-- **Go and Rust apply the same rules** exactly to the payloads of `selectedAlike`: below
a list no rule matches an entry that both walks come to, with a segment for each list or
without; and below a key that only one of them takes for a sensitive one, no rule matches an
entry that the other comes to. -/
theorem applied_alike_iff (E : Go.Env α) (E' : Rust.Env α) (rules : List Rust.PIIRule)
    (payload : Payload α) (depth : ℕ)
    (hdepth : height (.dict () payload.entries : Value α) ≤ depth) :
    (∀ position rule,
      (position, rule.toGo) ∈ Go.applied (Go.sanitizeMap E payload.entries []
        (rules.map Rust.PIIRule.toGo) depth).log ↔
      (position, rule) ∈ Rust.applied (Rust.applyRules E' rules [] [] depth
        (.dict () payload.entries)).log) ↔
    selectedAlike (Go.walk E) Rust.walk (Rust.findRule rules) false [] []
      (.dict () payload.entries) = true := by
  have hfind : Go.findRule (rules.map Rust.PIIRule.toGo) =
      fun path => (Rust.findRule rules path).map Rust.PIIRule.toGo := by
    ext1 path
    exact Rust.findRule_toGo path
  have hmem : ∀ position (rule : Rust.PIIRule),
      (position, rule.toGo) ∈ Go.applied (Go.sanitizeMap E payload.entries []
        (rules.map Rust.PIIRule.toGo) depth).log ↔
      (position, rule) ∈ (Go.walk E).selected (Rust.findRule rules) []
        (.dict () payload.entries : Value α) := by
    intro position rule
    rw [Go.applied_sanitizeMap payload hdepth, hfind, Walk.selected_map, List.mem_map]
    constructor
    · rintro ⟨x, hx, heq⟩
      rcases Prod.mk.inj heq with ⟨hposition, hrule⟩
      rwa [← hposition, ← Rust.PIIRule.toGo_injective hrule]
    · intro hx
      exact ⟨(position, rule), hx, rfl⟩
  rw [← selected_alike_iff (G := Go.walk E) (R := Rust.walk)
    (fun _ _ _ => Rust.length_eq_of_findRule) (fun _ => rfl) (fun q => by simp [Rust.walk])
    payload.nodupKeys false [] [] rfl]
  simp only [hmem, Rust.applied_applyRules _ hdepth]

/-! ## Lists of users -/

/-- Engines for payloads of strings with no secret in them, and no mode that needs more. -/
def Go.asciiEnv : Go.Env String where
  sprintf _ := ""
  hashCanonicalizer _ := ""
  sha256Hex _ := ""
  toLower := Char.toLower
  replaceSecretSpans _ := none

/-- The same for Rust. -/
def Rust.asciiEnv : Rust.Env String where
  toString _ := ""
  canonicalJson _ := ""
  sha256Hex _ := ""
  redactIfSecret _ := none
  classifyKey _ := none
  lookupAction _ := "pass"

/-- `{"users": [{"email": "a@b"}], "plan": "free"}`. -/
def users : Payload String where
  entries :=
    [("users", .list () [.dict () [("email", text "a@b")]]), ("plan", text "free")]
  nodupKeys := by
    refine .dict (by decide) ?_
    simp only [List.forall_mem_cons, List.not_mem_nil, false_implies, implies_true, and_true]
    refine ⟨.list ?_, .scalar _⟩
    simp only [List.forall_mem_cons, List.not_mem_nil, false_implies, implies_true, and_true]
    exact .dict (by decide) (by simp [text, Tree.NodupKeys.scalar])

/-- A rule outside lists. -/
def planRule : Rust.PIIRule := { path := ["plan"] }

/-- A rule for an entry of a list's items. -/
def emailRule : Rust.PIIRule := { path := ["users", "*", "email"] }

/-- Outside lists both apply the same rule. -/
theorem applied_alike_iff_plan :
    Rust.applied (Rust.applyRules Rust.asciiEnv [planRule] [] [] 3 (.dict () users.entries)).log =
      [([.key "plan"], planRule)] ∧
    ∀ position rule,
      (position, rule.toGo) ∈ Go.applied (Go.sanitizeMap Go.asciiEnv users.entries []
        ([planRule].map Rust.PIIRule.toGo) 3).log ↔
      (position, rule) ∈ Rust.applied (Rust.applyRules Rust.asciiEnv [planRule] [] [] 3
        (.dict () users.entries)).log :=
  ⟨by with_unfolding_all decide,
    (applied_alike_iff Go.asciiEnv Rust.asciiEnv [planRule] users 3 (by decide)).mpr
      (by with_unfolding_all decide)⟩

/-- Rust masks the users' addresses, Go does not. -/
theorem email_rule_selects_apart :
    Rust.applied (Rust.applyRules Rust.asciiEnv [emailRule] [] [] 3
        (.dict () users.entries)).log =
      [([.key "users", .index 0, .key "email"], emailRule)] ∧
    Go.applied (Go.sanitizeMap Go.asciiEnv users.entries []
      ([emailRule].map Rust.PIIRule.toGo) 3).log = [] :=
  ⟨by with_unfolding_all decide, by with_unfolding_all decide⟩

end Telemetry.Pii
