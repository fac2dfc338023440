import Telemetry.Pii.RustWalk
import Telemetry.Pii.SensitiveKeys

/-!
# When Python and Rust sanitize a payload alike

Python runs every rule over the whole tree, down to its own safety limit, and then the
default pass beside the original; Rust walks once, gives an entry the first rule that
matches and goes no deeper than the configured depth. On a JSON payload without secrets the
two leave the same exactly if

* where several rules match an entry, the later masks give back what the first one left,
  and the default pass finds no secret in it;
* no rule changes anything inside a default-sensitive entry, nor at the configured depth
  or below;
* a key is default-sensitive for both or for neither, but for corner cases.

## Main definitions

* `Shared`, `Plain`, `OverStrings` — what the two runs have in common, and the payloads.
* `alike` — the payloads on which the two agree.
* `sanitize_alike_iff` — **when the two agree**.
-/

namespace Telemetry.Pii

open Telemetry.Lib Python

instance : Scalars Python.Scalar where
  str := .str
  str? a := match a with
    | .str s => some s
    | _ => Option.none
  str?_eq_some := by
    intro a s
    cases a <;> simp

/-- A mode as Python writes it. -/
def Rust.PIIMode.toPython : Rust.PIIMode → MaskMode
  | .drop => .drop
  | .redact => .redact
  | .hash => .hash
  | .truncate => .truncate

/-- A rule as Python writes it. -/
def Rust.PIIRule.toPython (rule : Rust.PIIRule) : Python.PIIRule :=
  ⟨rule.path, rule.mode.toPython, rule.truncateTo⟩

/-- What the two runs have in common. -/
structure Shared (E : Python.Env) (E' : Rust.Env Python.Scalar) : Prop where
  /-- `str` of a string is the string. -/
  str : ∀ s, E.str (Python.str s) = s
  sha256Hex : E'.sha256Hex = E.sha256Hex

/-- The scalars of JSON. -/
def jsonScalar : Python.Scalar → Bool
  | .float .nan => false
  | .float .inf => false
  | .float .negInf => false
  | _ => true

/-- A JSON value whose strings hold no secret. -/
def Plain (E : Python.Env) (E' : Rust.Env Python.Scalar) (v : Python.Value) : Prop :=
  ∀ p a, v.get? p = some (.scalar a) → jsonScalar a = true ∧
    ∀ s, a = .str s → E.redactIfSecret s = none ∧ E'.redactIfSecret s = none

/-- Hash and truncate rules match strings only. -/
def OverStrings (rules : List Rust.PIIRule) (path : List String) (v : Python.Value) : Prop :=
  ∀ p k c, v.get? (p ++ [.key k]) = some c → ∀ rule ∈ rules,
    rule.mode = .hash ∨ rule.mode = .truncate →
    Rust.matchRulePath rule.path (path ++ segments wild (p ++ [.key k])) = true →
    ∃ s, c = text s

section Domain

variable {E : Python.Env} {E' : Rust.Env Python.Scalar} {rules : List Rust.PIIRule}
  {path : List String} {v c : Python.Value}

theorem Plain.child {s : Step String} (h : Plain E E' v) (hc : v.child? s = some c) :
    Plain E E' c := by
  intro p a ha
  apply h (s :: p)
  rw [Tree.get?_cons, hc]
  exact ha

theorem Plain.not_isNaN (h : Plain E E' v) : isNaN v = false := by
  cases v with
  | scalar a =>
      have ha := (h [] a rfl).1
      cases a with
      | float x => cases x <;> simp_all [isNaN, jsonScalar]
      | _ => rfl
  | list r items => rfl
  | dict r entries => rfl

theorem Plain.redactIfSecret (h : Plain E E' v) : Python.redactIfSecret E v = none := by
  cases v with
  | scalar a =>
      cases a with
      | str s => exact ((h [] (.str s) rfl).2 s rfl).1
      | _ => rfl
  | list r items => rfl
  | dict r entries => rfl

theorem Plain.replacement (h : Plain E E' v) (key : String) :
    Rust.replacement E' key v = if Rust.sensitiveKey key then some Rust.redacted else none := by
  rw [Rust.replacement]
  split
  · rfl
  · cases hv : text? v with
    | none => rfl
    | some s =>
        rcases text?_eq_some.mp hv with rfl
        exact ((h [] (.str s) rfl).2 s rfl).2

theorem OverStrings.child {k : String} (h : OverStrings rules path v)
    (hc : v.child? (.key k) = some c) : OverStrings rules (path ++ [k]) c := by
  intro p k' c' hc' rule hrule hmode hmatch
  apply h (.key k :: p) k' c' _ rule hrule hmode
  · simpa [List.append_assoc] using hmatch
  · rw [List.cons_append, Tree.get?_cons, hc]
    exact hc'

theorem OverStrings.item {i : ℕ} (h : OverStrings rules path v)
    (hc : v.child? (.index i) = some c) : OverStrings rules (path ++ [wild]) c := by
  intro p k' c' hc' rule hrule hmode hmatch
  apply h (.index i :: p) k' c' _ rule hrule hmode
  · simpa [List.append_assoc] using hmatch
  · rw [List.cons_append, Tree.get?_cons, hc]
    exact hc'

end Domain

/-! ## The payloads -/

section Alike

variable (E : Python.Env) (rules : List Rust.PIIRule) (n : ℕ)

/-- The rules as Python has them. -/
abbrev pyRules : List Python.PIIRule := rules.map Rust.PIIRule.toPython

/-- What the default pass makes of a masked string, if it scans it. -/
def scanned (scan : Bool) (v : Python.Value) : Option String :=
  (text? v).map fun s => if scan then (E.redactIfSecret s).getD s else s

/-- All masks together leave what the first one leaves. -/
def maskedAlike (scan : Bool) (depth : ℕ) (target : List String) (v : Python.Value) : Bool :=
  (maskAll E (pyRules rules) depth target v).map (scanned E scan) ==
    ((Rust.findRule rules target).bind fun rule =>
      mask E v rule.toPython.mode rule.toPython.truncateTo).map text?

/-- Whether a value is the redaction sentinel. -/
def isRedacted (v : Python.Value) : Bool := text? v == some Rust.redacted

/-- An entry that no rule matches. Python keeps it as the rules left it, or redacts it, or
walks into it; Rust redacts it or walks into it. -/
def unmatchedAlike (kept : Bool) (key : String) (value : Python.Value) (stableBelow : Bool)
    (alikeBelow : Bool → Bool) : Bool :=
  match kept, sensitive E key, Rust.sensitiveKey key with
  | true, _, true => isRedacted value
  | true, _, false => alikeBelow true
  | false, true, true => stableBelow
  | false, true, false => if stableBelow then isRedacted value else alikeBelow true
  | false, false, true => isRedacted value
  | false, false, false => alikeBelow false

mutual
/-- The two leave the same of a value. Where `kept` holds, Python's default pass does not come
here: an entry around the value is sensitive and was changed by a rule. -/
def alike (kept : Bool) (path : List String) (depth : ℕ) : Python.Value → Bool
  | .scalar _ => true
  | .list _ items =>
      if n ≤ depth then stable E (pyRules rules) path depth (.list () items)
      else alikeItems kept (path ++ [wild]) (depth + 1) items
  | .dict _ entries =>
      if n ≤ depth then stable E (pyRules rules) path depth (.dict () entries)
      else alikeEntries kept path depth entries
/-- On the items of a list, each at the given path. -/
def alikeItems (kept : Bool) (path : List String) (depth : ℕ) : List Python.Value → Bool
  | [] => true
  | item :: items => alike kept path depth item && alikeItems kept path depth items
/-- On the entries of a dict. -/
def alikeEntries (kept : Bool) (path : List String) (depth : ℕ) : Python.Entries → Bool
  | [] => true
  | (key, value) :: entries =>
      (if (Rust.findRule rules (path ++ [key])).isSome then
        maskedAlike E rules (!kept && !sensitive E key) depth (path ++ [key]) value
      else
        unmatchedAlike E kept key value
          (stable E (pyRules rules) (path ++ [key]) (depth + 1) value)
          fun kept => alike kept (path ++ [key]) (depth + 1) value) &&
        alikeEntries kept path depth entries
end

/-- On one entry. -/
def alikeEntry (kept : Bool) (path : List String) (depth : ℕ) (key : String)
    (value : Python.Value) : Bool :=
  if (Rust.findRule rules (path ++ [key])).isSome then
    maskedAlike E rules (!kept && !sensitive E key) depth (path ++ [key]) value
  else
    unmatchedAlike E kept key value
      (stable E (pyRules rules) (path ++ [key]) (depth + 1) value)
      fun kept => alike E rules n kept (path ++ [key]) (depth + 1) value

theorem alikeItems_eq_all (kept : Bool) (path : List String) (depth : ℕ)
    (items : List Python.Value) :
    alikeItems E rules n kept path depth items =
      items.all (alike E rules n kept path depth) := by
  induction items with
  | nil => rfl
  | cons item items ih => rw [alikeItems, ih, List.all_cons]

theorem alikeEntries_eq_all (kept : Bool) (path : List String) (depth : ℕ)
    (entries : Python.Entries) :
    alikeEntries E rules n kept path depth entries =
      entries.all fun e => alikeEntry E rules n kept path depth e.1 e.2 := by
  induction entries with
  | nil => rfl
  | cons e entries ih =>
      rcases e with ⟨key, value⟩
      rw [alikeEntries, ih, List.all_cons]
      rfl

end Alike

/-! ## The rules on one entry -/

section Entry

variable {E : Python.Env} {E' : Rust.Env Python.Scalar} {rules : List Rust.PIIRule}
  {path : List String} {depth : ℕ} {key : String} {v w : Python.Value}

/-- The two masks agree where the value is a string or does not matter. -/
theorem mask_toPython (hE : Shared E E') (rule : Rust.PIIRule)
    (h : rule.mode = .hash ∨ rule.mode = .truncate → ∃ s, v = text s) :
    mask E v rule.toPython.mode rule.toPython.truncateTo =
      Rust.maskValue E' v rule.mode rule.truncateTo := by
  rcases rule with ⟨rulePath, mode, limit⟩
  cases mode with
  | drop => rfl
  | redact => rfl
  | hash =>
      rcases h (.inl rfl) with ⟨s, rfl⟩
      simp only [Rust.PIIRule.toPython, Rust.PIIMode.toPython, mask, Rust.maskValue,
        Rust.hashValue, text?_text, Option.getD_some, hE.sha256Hex]
      rfl
  | truncate =>
      rcases h (.inr rfl) with ⟨s, rfl⟩
      have hstr : E.str (text s) = s := hE.str s
      have hlimit : (max 0 (limit : ℤ)).toNat = limit := by omega
      simp only [Rust.PIIRule.toPython, Rust.PIIMode.toPython, mask, Rust.maskValue,
        text?_text, Option.getD_some, hstr, Python.truncate, Rust.truncate, hlimit]
      rfl

/-- A mask that does not look at the value. -/
def Blind (rule : Python.PIIRule) : Prop := rule.mode = .drop ∨ rule.mode = .redact

theorem mask_of_blind {rule : Python.PIIRule} (h : Blind rule) (v w : Python.Value) :
    mask E v rule.mode rule.truncateTo = mask E w rule.mode rule.truncateTo := by
  rcases h with h | h <;> rw [h] <;> rfl

/-- If the first rule that hits is blind, the masks do not look at the value. -/
theorem maskAll_of_blind {rs : List Python.PIIRule} {target : List String}
    (hblind : ∀ rule ∈ rs, hit rule depth target = true → Blind rule)
    (h : anyHit rs depth target = true) (v w : Python.Value) :
    maskAll E rs depth target v = maskAll E rs depth target w := by
  rcases List.any_eq_true.mp h with ⟨rule, hrule, hhit⟩
  have hfilter : (rs.filter fun rule => hit rule depth target) ≠ [] := by
    rw [ne_eq, List.filter_eq_nil_iff]
    intro hnone
    exact hnone rule hrule hhit
  rcases List.exists_cons_of_ne_nil hfilter with ⟨first, rest, hrest⟩
  have hfirst := List.mem_filter.mp (hrest ▸ List.mem_cons_self : first ∈ _)
  rw [maskAll, maskAll, hrest, List.foldlM_cons, List.foldlM_cons,
    mask_of_blind (hblind first hfirst.1 hfirst.2) v w]

/-- An entry that blind rules hit goes through their masks, whatever it holds. -/
theorem rulesEntry_of_blind {rs : List Python.PIIRule}
    (hblind : ∀ rule ∈ rs, hit rule depth (path ++ [key]) = true → Blind rule)
    (h : anyHit rs depth (path ++ [key]) = true) (v : Python.Value) :
    rulesEntry E rs path depth key v = maskAll E rs depth (path ++ [key]) v := by
  induction rs generalizing v with
  | nil => cases h
  | cons rule rs ih =>
      have hrest := fun rule hrule => hblind rule (List.mem_cons_of_mem _ hrule)
      rw [rulesEntry, List.foldlM_cons, ruleEntry]
      cases hhit : hit rule depth (path ++ [key]) with
      | true =>
          rw [if_pos rfl, maskAll, List.filter_cons, if_pos hhit, List.foldlM_cons]
          cases hmask : mask E v rule.mode rule.truncateTo with
          | none => rfl
          | some masked =>
              rcases mask_eq_some hmask with ⟨t, rfl⟩
              exact rulesEntry_str E rs t
      | false =>
          have hany : anyHit rs depth (path ++ [key]) = true := by
            simpa [anyHit, hhit] using h
          rw [if_neg Bool.false_ne_true, maskAll, List.filter_cons, hhit,
            if_neg Bool.false_ne_true, ← maskAll, maskAll_of_blind hrest hany v]
          exact ih hrest hany _

/-- The path of a rule is the same for both. -/
theorem hit_toPython (rule : Rust.PIIRule) (target : List String) :
    hit rule.toPython depth target =
      (decide (depth < ruleDepth) && Rust.matchRulePath rule.path target) := rfl

theorem targeted_pyRules (rules : List Rust.PIIRule) (target : List String) :
    targeted (pyRules rules) target = (Rust.findRule rules target).isSome := by
  rw [targeted, pyRules, List.any_map, Rust.findRule, Bool.eq_iff_iff, List.any_eq_true,
    List.find?_isSome]
  rfl

theorem anyHit_pyRules (h : depth < ruleDepth) (target : List String) :
    anyHit (pyRules rules) depth target = (Rust.findRule rules target).isSome := by
  rw [anyHit_eq, targeted_pyRules, decide_eq_true h, Bool.true_and]

/-- The rules on an entry that one of them matches. -/
theorem rulesEntry_eq_maskAll (h : depth < ruleDepth)
    (hfound : (Rust.findRule rules (path ++ [key])).isSome = true)
    (hover : ∀ rule ∈ rules, rule.mode = .hash ∨ rule.mode = .truncate →
      Rust.matchRulePath rule.path (path ++ [key]) = true → ∃ s, v = text s) :
    rulesEntry E (pyRules rules) path depth key v =
      maskAll E (pyRules rules) depth (path ++ [key]) v := by
  by_cases hv : ∃ s, v = text s
  · rcases hv with ⟨s, rfl⟩
    exact rulesEntry_str E (pyRules rules) s
  · apply rulesEntry_of_blind
    · intro rule hrule hhit
      rcases List.mem_map.mp hrule with ⟨rule, hmem, rfl⟩
      rw [hit_toPython, Bool.and_eq_true] at hhit
      by_contra hblind
      apply hv
      apply hover rule hmem _ hhit.2
      cases hmode : rule.mode <;> simp_all [Blind, Rust.PIIRule.toPython, Rust.PIIMode.toPython]
    · rw [anyHit_pyRules h]
      exact hfound

/-- Masks leave strings, so comparing the strings compares the values. -/
theorem maskAll_eq_some {rs : List Python.PIIRule} {target : List String}
    (h : anyHit rs depth target = true) (hw : maskAll E rs depth target v = some w) :
    ∃ s, w = text s := by
  rcases List.any_eq_true.mp h with ⟨rule, hrule, hhit⟩
  have hmem : rule ∈ rs.filter fun rule => hit rule depth target :=
    List.mem_filter.mpr ⟨hrule, hhit⟩
  exact foldlM_of_mask (P := fun w => ∃ s, w = text s) (fun _ _ _ _ hm => mask_eq_some hm) hmem
    (fun _ _ hm => mask_eq_some hm) hw

/-- Values that are strings, if there are any, are equal if their strings are. -/
theorem map_text?_inj {x y : Option Python.Value} (hx : ∀ w ∈ x, ∃ s, w = text s)
    (hy : ∀ w ∈ y, ∃ s, w = text s) : x.map text? = y.map text? ↔ x = y := by
  constructor
  · intro h
    cases x with
    | none => cases y with
      | none => rfl
      | some w => cases h
    | some v => cases y with
      | none => cases h
      | some w =>
          rcases hx v rfl with ⟨s, rfl⟩
          rcases hy w rfl with ⟨t, rfl⟩
          simpa using h
  · intro h
    rw [h]

end Entry

/-! ## What Python leaves -/

section PyAt

variable (E : Python.Env) (rs : List Python.PIIRule) (n : ℕ)

/-- What Python leaves of a value: where `kept` holds, the rules only. -/
def pyAt (kept : Bool) (path : List String) (depth : ℕ) (v : Python.Value) : Python.Value :=
  if kept then rulesVal E rs path depth v else cleanAt E n rs path depth v

/-- What Python leaves of an entry. -/
def pyEntry (kept : Bool) (path : List String) (depth : ℕ) (key : String) (v : Python.Value) :
    Option Python.Value :=
  if kept then rulesEntry E rs path depth key v else cleanEntry E n rs path depth key v

variable {E rs n} {kept : Bool} {path : List String} {depth : ℕ}

@[simp] theorem pyAt_scalar (a : Python.Scalar) :
    pyAt E rs n kept path depth (.scalar a) = .scalar a := by
  cases kept <;> simp [pyAt]

theorem pyAt_deep (h : n ≤ depth) (v : Python.Value) :
    pyAt E rs n kept path depth v = rulesVal E rs path depth v := by
  cases kept with
  | true => rfl
  | false => exact cleanAt_deep E n rs path (by exact_mod_cast h) v

theorem pyAt_dict (h : depth < n) {entries : Python.Entries}
    (hkeys : (entries.map Prod.fst).Nodup) :
    pyAt E rs n kept path depth (.dict () entries) =
      .dict () (Tree.rewriteEntries (pyEntry E rs n kept path depth) entries) := by
  cases kept with
  | true => exact rulesVal_dict E rs path depth entries
  | false =>
      have h' : (depth : ℤ) < n := by exact_mod_cast h
      simp only [pyAt, Bool.false_eq_true, if_false, cleanAt]
      rw [rulesVal_dict, val_applyDefault_dict E n _ path h', Tree.map_rewriteEntries
        fun key value => (defaultEntry E n (collectRulePaths rs) path depth key value
          ((entries.lookup key).getD value)).val]
      congr 1
      rw [Tree.rewriteEntries_eq_iff hkeys]
      intro e he
      simp only [pyEntry, Bool.false_eq_true, if_false, cleanEntry]
      rw [Tree.lookup_of_mem hkeys he]
      rfl

theorem pyAt_list (h : depth < n) {items : List Python.Value}
    (hplain : ∀ x ∈ items, Python.redactIfSecret E (rulesVal E rs (path ++ [wild]) (depth + 1) x)
      = none) :
    pyAt E rs n kept path depth (.list () items) =
      .list () (items.map (pyAt E rs n kept (path ++ [wild]) (depth + 1))) := by
  cases kept with
  | true => exact rulesVal_list E rs path depth items
  | false =>
      have h' : (depth : ℤ) < n := by exact_mod_cast h
      simp only [pyAt, Bool.false_eq_true, if_false]
      rw [cleanAt, rulesVal_list, val_applyDefault_list E n _ path h', List.zipWith_map_left,
        List.zipWith_self]
      congr 1
      apply List.map_congr_left
      intro x hx
      exact cleanItem_of_not_secret (hplain x hx)

/-- Every value is stable under no rules. -/
theorem stable_nil (v : Python.Value) : stable E [] path depth v = true := by
  induction v using Tree.induct generalizing path depth with
  | scalar a => rfl
  | list r items ih =>
      rw [stable, stableItems_eq_all, List.all_eq_true]
      intro x hx
      exact ih x hx
  | dict r entries ih =>
      rw [stable]
      induction entries with
      | nil => rfl
      | cons e entries ihtail =>
          rcases e with ⟨key, value⟩
          have hvalue : stable E [] (path ++ [key]) (depth + 1) value = true :=
            ih (key, value) List.mem_cons_self
          rw [stableEntries, ihtail fun e he => ih e (List.mem_cons_of_mem _ he)]
          simpa [anyHit] using hvalue

theorem stableEntries_eq_all (entries : Python.Entries) :
    stableEntries E rs path depth entries = entries.all fun e =>
      if anyHit rs depth (path ++ [e.1]) then restored E rs depth (path ++ [e.1]) e.2
      else stable E rs (path ++ [e.1]) (depth + 1) e.2 := by
  induction entries with
  | nil => rfl
  | cons e entries ih =>
      rcases e with ⟨key, value⟩
      rw [stableEntries, ih, List.all_cons]

/-- An entry that the masks give back comes out as it was. -/
theorem rulesEntry_of_restored {key : String} {v : Python.Value}
    (hhit : anyHit rs depth (path ++ [key]) = true)
    (h : restored E rs depth (path ++ [key]) v = true) :
    rulesEntry E rs path depth key v = some v := by
  rw [restored.eq_def] at h
  split at h
  · rename_i s
    rcases (Option.any_eq_true _ _).mp h with ⟨w, hw, heq⟩
    rcases maskAll_eq_some hhit hw with ⟨t, rfl⟩
    have hsame : (Python.str s : Python.Value) = Python.str t := elemEq_str_eq_true.mp heq
    rw [rulesEntry_str, hw]
    exact congrArg some hsame.symm
  · cases h

/-- **`stable` on the nose**: the rules leave the very same value. -/
theorem rulesVal_eq_self_iff {v : Python.Value} (hkeys : v.NodupKeys) :
    rulesVal E rs path depth v = v ↔ stable E rs path depth v = true := by
  constructor
  · intro h
    have hself := elemEq_rulesVal E [] v [] 0 hkeys
    rw [stable_nil] at hself
    rw [← elemEq_rulesVal E rs v path depth hkeys, h]
    exact hself
  · intro h
    induction v using Tree.induct generalizing path depth with
    | scalar a => rw [rulesVal_scalar]
    | list r items ih =>
        rw [stable, stableItems_eq_all, List.all_eq_true] at h
        rw [rulesVal_list, List.map_congr_left fun x hx =>
          ih x hx (hkeys.items x hx) (h x hx), List.map_id']
    | dict r entries ih =>
        rw [stable, stableEntries_eq_all, List.all_eq_true] at h
        rw [rulesVal_dict, ← Tree.rewriteEntries_some entries, Tree.rewriteEntries_some]
        congr 1
        conv_rhs => rw [← Tree.rewriteEntries_some entries]
        rw [Tree.rewriteEntries_eq_iff hkeys.keys]
        intro e he
        have hentry := h e he
        split at hentry
        · rename_i hhit
          exact rulesEntry_of_restored hhit hentry
        · rename_i hhit
          rw [rulesEntry_of_not_anyHit E (by simpa using hhit),
            ih e he (hkeys.entries e he) hentry]

/-- The rules leave no secret where there is none. -/
theorem redactIfSecret_rulesVal_of_none {v : Python.Value}
    (h : Python.redactIfSecret E v = none) :
    Python.redactIfSecret E (rulesVal E rs path depth v) = none := by
  cases v with
  | scalar a => rwa [rulesVal_scalar]
  | list r items =>
      rw [rulesVal_list]
      rfl
  | dict r entries =>
      rw [rulesVal_dict]
      rfl

end PyAt

/-! ## One entry -/

section AlikeEntry

variable {E : Python.Env} {E' : Rust.Env Python.Scalar} {rules : List Rust.PIIRule} {n : ℕ}
  {kept : Bool} {path : List String} {depth : ℕ} {key : String} {v : Python.Value}

/-- What Python leaves of an entry that a rule matches: the masks, scanned. -/
theorem pyEntry_of_found (hdepth : depth < ruleDepth)
    (hfound : (Rust.findRule rules (path ++ [key])).isSome = true)
    (hover : ∀ rule ∈ rules, rule.mode = .hash ∨ rule.mode = .truncate →
      Rust.matchRulePath rule.path (path ++ [key]) = true → ∃ s, v = text s) :
    pyEntry E (pyRules rules) n kept path depth key v =
      (maskAll E (pyRules rules) depth (path ++ [key]) v).bind fun w =>
        (scanned E (!kept && !sensitive E key) w).map text := by
  have hrules := rulesEntry_eq_maskAll (E := E) (v := v) hdepth hfound hover
  have hany : anyHit (pyRules rules) depth (path ++ [key]) = true := by
    rw [anyHit_pyRules hdepth]
    exact hfound
  have htargeted : targeted (pyRules rules) (path ++ [key]) = true := by
    rw [targeted_pyRules]
    exact hfound
  rw [pyEntry, cleanEntry, hrules]
  cases hmasked : maskAll E (pyRules rules) depth (path ++ [key]) v with
  | none => cases kept <;> rfl
  | some w =>
      rcases maskAll_eq_some hany hmasked with ⟨s, rfl⟩
      cases kept with
      | true => simp [scanned]
      | false =>
          simp only [Bool.false_eq_true, if_false, Option.map_some, Option.bind_some, scanned,
            text?_text, Bool.not_false, Bool.true_and, defaultEntry,
            pathHasRule_collectRulePaths, htargeted, Bool.true_or, if_true]
          cases sensitive E key with
          | true => rfl
          | false =>
              have hscan : Python.redactIfSecret E (text s) = E.redactIfSecret s := rfl
              simp only [Bool.false_eq_true, if_false, Bool.not_false, if_true, hscan]
              cases E.redactIfSecret s with
              | none =>
                  have hscalar := applyDefault_scalar E n (collectRulePaths (pyRules rules))
                    (path ++ [key]) (depth + 1) (.str s) v
                  exact congrArg (fun x => some x.val) hscalar
              | some t => rfl

/-- An entry that a rule matches. -/
theorem pyEntry_eq_ruledEntry_of_found (hE : Shared E E') (hdepth : depth < ruleDepth)
    (hfound : (Rust.findRule rules (path ++ [key])).isSome = true) {m : ℕ}
    (hover : ∀ rule ∈ rules, rule.mode = .hash ∨ rule.mode = .truncate →
      Rust.matchRulePath rule.path (path ++ [key]) = true → ∃ s, v = text s) :
    pyEntry E (pyRules rules) n kept path depth key v = Rust.ruledEntry E' rules path m key v ↔
      maskedAlike E rules (!kept && !sensitive E key) depth (path ++ [key]) v = true := by
  rcases Option.isSome_iff_exists.mp hfound with ⟨rule, hrule⟩
  have hmem := List.mem_of_find?_eq_some hrule
  have hmatch := List.find?_some hrule
  have hfirst := mask_toPython hE rule fun hmode => hover rule hmem hmode hmatch
  have hany : anyHit (pyRules rules) depth (path ++ [key]) = true := by
    rw [anyHit_pyRules hdepth]
    exact hfound
  have hruled : Rust.ruledEntry E' rules path m key v =
      mask E v rule.toPython.mode rule.toPython.truncateTo := by
    rw [hfirst, Rust.ruledEntry, hrule]
  rw [pyEntry_of_found hdepth hfound hover, hruled, maskedAlike, hrule, Option.bind_some,
    beq_iff_eq, ← map_text?_inj]
  · cases hmasked : maskAll E (pyRules rules) depth (path ++ [key]) v with
    | none => rfl
    | some w =>
        rcases maskAll_eq_some hany hmasked with ⟨s, rfl⟩
        simp [scanned]
  · intro w hw
    rcases Option.bind_eq_some_iff.mp hw with ⟨x, -, hx⟩
    rcases Option.map_eq_some_iff.mp hx with ⟨s, -, rfl⟩
    exact ⟨s, rfl⟩
  · intro w hw
    exact mask_eq_some hw

/-- Whether a walked value is the sentinel: only if it was. -/
theorem eq_redacted_iff {f : Python.Value → Python.Value} (hscalar : ∀ a, f (.scalar a) = .scalar a)
    (hcontainer : ∀ v, (f v).isContainer = v.isContainer) :
    f v = text Rust.redacted ↔ isRedacted v = true := by
  rw [isRedacted, beq_iff_eq, text?_eq_some]
  constructor
  · intro h
    have hv := hcontainer v
    rw [h, text, Tree.isContainer_scalar] at hv
    rcases Tree.exists_scalar_of_not_isContainer hv.symm with ⟨a, rfl⟩
    rwa [hscalar] at h
  · rintro rfl
    exact hscalar _

/-- What Python leaves of an entry that no rule matches. -/
theorem pyEntry_of_not_found (hdepth : depth < ruleDepth)
    (hfound : (Rust.findRule rules (path ++ [key])).isSome = false) (hkeys : v.NodupKeys)
    (hplain : Plain E E' v) :
    pyEntry E (pyRules rules) n kept path depth key v = some (
      if !kept && sensitive E key && stable E (pyRules rules) (path ++ [key]) (depth + 1) v then
        text Rust.redacted
      else pyAt E (pyRules rules) n (kept || sensitive E key) (path ++ [key]) (depth + 1) v) := by
  have hany : anyHit (pyRules rules) depth (path ++ [key]) = false := by
    rw [anyHit_pyRules hdepth]
    exact hfound
  have htargeted : targeted (pyRules rules) (path ++ [key]) = false := by
    rw [targeted_pyRules]
    exact hfound
  cases kept with
  | true =>
      rw [pyEntry, if_pos rfl, rulesEntry_of_not_anyHit E hany]
      rfl
  | false =>
      rw [pyEntry, if_neg Bool.false_ne_true]
      cases hsensitive : sensitive E key with
      | true =>
          rw [cleanEntry_of_sensitive hany hsensitive, htargeted, valueEq_rulesVal _ _ _ _ _ hkeys,
            hplain.not_isNaN]
          cases stable E (pyRules rules) (path ++ [key]) (depth + 1) v <;> rfl
      | false =>
          rw [cleanEntry_of_not_sensitive hany hsensitive
            (redactIfSecret_rulesVal_of_none hplain.redactIfSecret)]
          rfl

/-- What Rust leaves of an entry that no rule matches. -/
theorem ruledEntry_of_not_found
    (hfound : (Rust.findRule rules (path ++ [key])).isSome = false) (hplain : Plain E E' v)
    (m : ℕ) :
    Rust.ruledEntry E' rules path m key v = some (
      if Rust.sensitiveKey key then text Rust.redacted
      else Rust.ruled E' rules (path ++ [key]) m v) := by
  rw [Option.isSome_eq_false_iff, Option.isNone_iff_eq_none] at hfound
  rw [Rust.ruledEntry, hfound, hplain.replacement]
  cases Rust.sensitiveKey key <;> rfl

/-- An entry that no rule matches. -/
theorem pyEntry_eq_ruledEntry_of_not_found (hdepth : depth < ruleDepth)
    (hfound : (Rust.findRule rules (path ++ [key])).isSome = false) (hkeys : v.NodupKeys)
    (hplain : Plain E E' v) {m : ℕ} {alikeBelow : Bool → Bool}
    (ih : ∀ kept, pyAt E (pyRules rules) n kept (path ++ [key]) (depth + 1) v =
      Rust.ruled E' rules (path ++ [key]) m v ↔ alikeBelow kept = true) :
    pyEntry E (pyRules rules) n kept path depth key v = Rust.ruledEntry E' rules path m key v ↔
      unmatchedAlike E kept key v
        (stable E (pyRules rules) (path ++ [key]) (depth + 1) v) alikeBelow = true := by
  have hpy : ∀ kept, pyAt E (pyRules rules) n kept (path ++ [key]) (depth + 1) v =
      text Rust.redacted ↔ isRedacted v = true := by
    intro kept
    apply eq_redacted_iff (f := pyAt E (pyRules rules) n kept (path ++ [key]) (depth + 1))
    · intro a
      exact pyAt_scalar a
    · intro v
      cases kept with
      | true => exact (rewrites_rulesVal E _ _ _).isContainer v
      | false => exact isContainer_cleanAt E _ _ _ _ v
  have hrust : text Rust.redacted = Rust.ruled E' rules (path ++ [key]) m v ↔
      isRedacted v = true := by
    rw [eq_comm]
    apply eq_redacted_iff (f := Rust.ruled E' rules (path ++ [key]) m)
    · intro a
      exact Rust.ruled_scalar a
    · intro v
      exact Rust.isContainer_ruled v
  rw [pyEntry_of_not_found hdepth hfound hkeys hplain, ruledEntry_of_not_found hfound hplain,
    Option.some_inj, unmatchedAlike.eq_def]
  cases kept with
  | true =>
      cases Rust.sensitiveKey key with
      | true => simpa using hpy true
      | false => simpa using ih true
  | false =>
      cases hsensitive : sensitive E key with
      | false =>
          cases Rust.sensitiveKey key with
          | true => simpa using hpy false
          | false => simpa using ih false
      | true =>
          cases hstable : stable E (pyRules rules) (path ++ [key]) (depth + 1) v with
          | true =>
              cases Rust.sensitiveKey key with
              | true => simp
              | false => simpa using hrust
          | false =>
              cases Rust.sensitiveKey key with
              | false => simpa using ih true
              | true =>
                  -- A string is stable, so the value is a dict or a list, and no sentinel.
                  have hnot : isRedacted v ≠ true := by
                    intro hred
                    rw [isRedacted, beq_iff_eq, text?_eq_some] at hred
                    subst hred
                    cases hstable
                  simpa using fun h => hnot ((hpy true).mp h)

end AlikeEntry

/-! ## Whole payloads -/

section Payloads

variable {E : Python.Env} {E' : Rust.Env Python.Scalar} {rules : List Rust.PIIRule} {n : ℕ}

/-- The items of a list are children of it. -/
theorem exists_child_of_mem_items {r : Unit} {items : List Python.Value} {x : Python.Value}
    (hx : x ∈ items) : ∃ i, (Tree.list r items : Python.Value).child? (.index i) = some x := by
  rcases List.mem_iff_getElem?.mp hx with ⟨i, hi⟩
  exact ⟨i, hi⟩

/-- The two leave the same of a value exactly if `alike` holds of it. -/
theorem pyAt_eq_ruled_iff (hE : Shared E E') (hn : n ≤ ruleDepth) (v : Python.Value)
    (kept : Bool) (path : List String) {depth : ℕ} (hdepth : depth ≤ n) (hkeys : v.NodupKeys)
    (hplain : Plain E E' v) (hover : OverStrings rules path v) :
    pyAt E (pyRules rules) n kept path depth v = Rust.ruled E' rules path (n - depth) v ↔
      alike E rules n kept path depth v = true := by
  induction v using Tree.induct generalizing kept path depth with
  | scalar a => simp [alike]
  | list r items ih =>
      rw [alike]
      by_cases hlast : n ≤ depth
      · rw [if_pos hlast, pyAt_deep hlast, Nat.sub_eq_zero_of_le hlast, Rust.ruled_zero]
        exact rulesVal_eq_self_iff hkeys
      · have hlt : depth < n := not_le.mp hlast
        have hitem : ∀ x ∈ items, _ := fun x hx =>
          have ⟨i, hi⟩ := exists_child_of_mem_items (r := r) hx
          ih x hx kept (path ++ [wild]) hlt (hkeys.items x hx) (hplain.child hi)
            (hover.item hi)
        have hsecret : ∀ x ∈ items, Python.redactIfSecret E
            (rulesVal E (pyRules rules) (path ++ [wild]) (depth + 1) x) = none := by
          intro x hx
          rcases exists_child_of_mem_items (r := r) hx with ⟨i, hi⟩
          exact redactIfSecret_rulesVal_of_none (hplain.child hi).redactIfSecret
        rw [if_neg hlast, pyAt_list hlt hsecret, Rust.ruled_list (by omega), alikeItems_eq_all,
          List.all_eq_true, Tree.list.injEq, List.map_inj_left]
        simp only [true_and]
        apply forall₂_congr
        intro x hx
        exact hitem x hx
  | dict r entries ih =>
      rw [alike]
      by_cases hlast : n ≤ depth
      · rw [if_pos hlast, pyAt_deep hlast, Nat.sub_eq_zero_of_le hlast, Rust.ruled_zero]
        exact rulesVal_eq_self_iff hkeys
      · have hlt : depth < n := not_le.mp hlast
        have hchild : ∀ e ∈ entries,
            (Tree.dict r entries : Python.Value).child? (.key e.1) = some e.2 :=
          fun e he => Tree.lookup_of_mem hkeys.keys he
        rw [if_neg hlast, pyAt_dict hlt hkeys.keys, Rust.ruled_dict (by omega),
          alikeEntries_eq_all, List.all_eq_true, Tree.dict.injEq,
          Tree.rewriteEntries_eq_iff hkeys.keys]
        simp only [true_and]
        apply forall₂_congr
        intro e he
        rw [alikeEntry]
        split
        · rename_i hfound
          apply pyEntry_eq_ruledEntry_of_found hE (by omega) hfound
          intro rule hrule hmode hmatch
          have hget : (Tree.dict r entries : Python.Value).get? ([] ++ [.key e.1]) =
              some e.2 := by
            rw [List.nil_append, Tree.get?_singleton]
            exact hchild e he
          exact hover [] e.1 e.2 hget rule hrule hmode hmatch
        · rename_i hfound
          apply pyEntry_eq_ruledEntry_of_not_found (by omega) (by simpa using hfound)
            (hkeys.entries e he) (hplain.child (hchild e he))
          intro kept'
          exact ih e he kept' (path ++ [e.1]) hlt (hkeys.entries e he)
            (hplain.child (hchild e he)) (hover.child (hchild e he))

/-- A payload as Rust has it. -/
def rustPayload (payload : Python.Payload) : Pii.Payload Python.Scalar :=
  ⟨payload.entries, payload.nodupKeys⟩

/-- Without classification rules there is nothing to annotate. -/
theorem annotateGovernanceClasses_of_none (h : ∀ key, E'.classifyKey key = none)
    (cleaned : Entries Python.Scalar) :
    Rust.annotateGovernanceClasses E' cleaned = cleaned := by
  rw [Rust.annotateGovernanceClasses]
  generalize cleaned.map Prod.fst = keys
  induction keys with
  | nil => rfl
  | cons key keys ih => rw [List.foldl_cons, Rust.annotateKey, h, ih]

/-- **Python and Rust sanitize a JSON payload alike** exactly if `alike` holds of it. -/
theorem sanitize_alike_iff (hE : Shared E E') (hclassify : ∀ key, E'.classifyKey key = none)
    (hpos : 1 ≤ n) (hn : n ≤ 32) (payload : Python.Payload) (hplain : Plain E E' payload.value)
    (hover : OverStrings rules [] payload.value) :
    (Python.sanitizePayload E {} (pyRules rules) payload true n).val =
        (Rust.sanitizePayload E' rules (rustPayload payload) true n).val ↔
      alike E rules n false [] 0 payload.value = true := by
  rw [← pyAt_eq_ruled_iff hE hn payload.value false [] (Nat.zero_le n) payload.nodupKeys hplain
    hover]
  have hpython : (Python.sanitizePayload E {} (pyRules rules) payload true n).val =
      pyAt E (pyRules rules) n false [] 0 payload.value := by
    rcases exists_val_sanitizePayload E n (pyRules rules) {} payload with ⟨cleaned, hcleaned, hval⟩
    rw [hval, pyAt, if_neg Bool.false_ne_true, hcleaned]
    rfl
  have hrust : (Rust.sanitizePayload E' rules (rustPayload payload) true n).val =
      Rust.ruled E' rules [] (n - 0) payload.value := by
    have hmax : max n 1 = n := Nat.max_eq_left hpos
    rw [Rust.sanitizePayload, if_pos rfl, Logged.val_bind, hmax, Rust.val_applyRules,
      Nat.sub_zero, Python.Payload.value]
    simp only [rustPayload, Rust.ruled_dict hpos, Logged.val_pure,
      annotateGovernanceClasses_of_none hclassify]
  rw [hpython, hrust]

end Payloads

/-! ## Credentials with a rule of their own -/

section Examples

theorem Plain.scalar {E : Python.Env} {E' : Rust.Env Python.Scalar} {a : Python.Scalar}
    (ha : jsonScalar a = true)
    (hs : ∀ s, a = .str s → E.redactIfSecret s = none ∧ E'.redactIfSecret s = none) :
    Plain E E' (.scalar a) := by
  intro p b hb
  cases p with
  | nil =>
      cases hb
      exact ⟨ha, hs⟩
  | cons s p => simp [Tree.get?_cons] at hb

theorem Plain.dict {E : Python.Env} {E' : Rust.Env Python.Scalar} {entries : Python.Entries}
    (h : ∀ e ∈ entries, Plain E E' e.2) : Plain E E' (.dict () entries) := by
  intro p a ha
  cases p with
  | nil => cases ha
  | cons s p =>
      rw [Tree.get?_cons, Option.bind_eq_some_iff] at ha
      rcases ha with ⟨c, hc, hp⟩
      cases s with
      | key k => exact h (k, c) (Tree.mem_of_lookup hc) p a hp
      | index i => cases hc

/-- Python's engine on ASCII payloads with no secret in them, and no mode that needs more. -/
def asciiPython : Python.Env where
  str v := (text? v).getD ""
  lower := Rust.toAsciiLowercase
  sha256Hex _ := ""
  canonicalJson _ := ""
  redactIfSecret _ := none

/-- Rust's engine on the same payloads. -/
def asciiRust : Rust.Env Python.Scalar where
  toString _ := ""
  canonicalJson _ := ""
  sha256Hex _ := ""
  redactIfSecret _ := none
  classifyKey _ := none
  lookupAction _ := "pass"

theorem shared_ascii : Shared asciiPython asciiRust where
  str s := by
    have htext : text? (Python.str s) = some s := text?_text s
    rw [asciiPython]
    simp only [htext, Option.getD_some]
  sha256Hex := rfl

/-- `{"auth": {"user": "al", "pass": "pw"}, "plan": "free"}`. -/
def credentials : Python.Payload where
  entries :=
    [("auth", .dict () [("user", Python.str "al"), ("pass", Python.str "pw")]),
      ("plan", Python.str "free")]
  nodupKeys := by
    refine .dict (by decide) ?_
    simp only [List.forall_mem_cons, List.not_mem_nil, false_implies, implies_true, and_true]
    refine ⟨.dict (by decide) ?_, .scalar _⟩
    simp only [List.forall_mem_cons, List.not_mem_nil, false_implies, implies_true, and_true]
    exact ⟨.scalar _, .scalar _⟩

theorem plain_credentials : Plain asciiPython asciiRust credentials.value := by
  have hstr : ∀ s, Plain asciiPython asciiRust (Python.str s) := by
    intro s
    exact .scalar rfl fun _ _ => ⟨rfl, rfl⟩
  apply Plain.dict
  simp only [credentials, List.forall_mem_cons, List.not_mem_nil, false_implies, implies_true,
    and_true]
  refine ⟨Plain.dict ?_, hstr "free"⟩
  simp only [List.forall_mem_cons, List.not_mem_nil, false_implies, implies_true, and_true]
  exact ⟨hstr "al", hstr "pw"⟩

/-- A rule that does not look at the value may match anything. -/
theorem overStrings_of_redact {rule : Rust.PIIRule} (h : rule.mode = .redact ∨ rule.mode = .drop)
    (v : Python.Value) : OverStrings [rule] [] v := by
  intro p k c _ rule' hrule hmode
  rw [List.mem_singleton] at hrule
  subst hrule
  rcases h with h | h <;> simp [h] at hmode

/-- With a rule outside the credentials the two agree. -/
theorem sanitize_alike_iff_plan :
    (Python.sanitizePayload asciiPython {} (pyRules [{ path := ["plan"] }]) credentials true
        (8 : ℕ)).val =
      (Rust.sanitizePayload asciiRust [{ path := ["plan"] }] (rustPayload credentials) true
        8).val :=
  (sanitize_alike_iff shared_ascii (fun _ => rfl) (by decide) (by decide) credentials
    plain_credentials (overStrings_of_redact (.inl rfl) _)).mpr (by with_unfolding_all decide)

/-- A rule that drops the user from the credentials. -/
def dropUser : Rust.PIIRule := { path := ["auth", "user"], mode := .drop }

/-- Python then leaves the password, Rust redacts the credentials. -/
theorem dropped_user_differs :
    ((Python.sanitizePayload asciiPython {} (pyRules [dropUser]) credentials true
        (8 : ℕ)).val.get? [.key "auth", .key "pass"]).bind text? = some "pw" ∧
      ((Rust.sanitizePayload asciiRust [dropUser] (rustPayload credentials) true
        8).val.get? [.key "auth"]).bind text? = some "***" ∧
      (Python.sanitizePayload asciiPython {} (pyRules [dropUser]) credentials true
          (8 : ℕ)).val ≠
        (Rust.sanitizePayload asciiRust [dropUser] (rustPayload credentials) true 8).val := by
  refine ⟨by with_unfolding_all decide, by with_unfolding_all decide, ?_⟩
  intro h
  have hpass := congrArg (fun v => (v.get? [.key "auth", .key "pass"]).bind text?) h
  revert hpass
  with_unfolding_all decide

end Examples

end Telemetry.Pii
