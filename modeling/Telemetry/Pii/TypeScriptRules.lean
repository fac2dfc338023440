import Telemetry.Pii.TypeScriptPasses

/-!
# Registering a rule can un-redact a key

The default pass redacts a blocked entry if its value is `===` the original. As long as no rule
is registered that is so. The first rule, whatever it is about, makes every object within the
depth limit a new one, and a blocked entry that holds an object or an array then comes out with
its content. Beyond that first rule, registering rules is harmless. The theorem of this module
says exactly when an entry that is redacted under some rules stays so under more, and exactly when
an object or an array under a blocked key comes out as one.

## Main definitions

* `Adds` — a rule list with further rules, none of which matches a position.
* `Alike` — what two runs leave of one value, as far as the masks can tell.
* `Leaks` — the case in which more rules un-redact an entry.
* `Exposes` — the case in which a blocked entry comes out with its contents.

## Main results

* `added_rules_keep_redaction_iff` — **when registering rules is harmless**.
-/

namespace Telemetry.Pii.TypeScript

open Telemetry.Lib

variable {E : Env} {maxDepth : Number} {extraFields : List String} {R R' : List PIIRule}
  {pos : List (Step String)} {key : String}

/-! ## More rules -/

/-- `R'` is `R` with further rules, none of which matches the position. -/
inductive Adds (pos : List (Step String)) : List PIIRule → List PIIRule → Prop
  | nil : Adds pos [] []
  | keep {R R' : List PIIRule} (rule : PIIRule) (h : Adds pos R R') :
      Adds pos (rule :: R) (rule :: R')
  | add {R R' : List PIIRule} (rule : PIIRule) (hrule : ruleMatches rule pos = false)
      (h : Adds pos R R') : Adds pos R (rule :: R')

theorem Adds.subset (h : Adds pos R R') : R ⊆ R' := by
  induction h with
  | nil => exact List.Subset.refl _
  | keep rule h ih => exact List.cons_subset_cons rule ih
  | add rule hrule h ih => exact List.subset_cons_of_subset rule ih

theorem Adds.isEmpty_eq_false (h : Adds pos R R') (hR : R.isEmpty = false) :
    R'.isEmpty = false := by
  rw [List.isEmpty_eq_false_iff] at hR ⊢
  rintro rfl
  exact hR (List.subset_nil.mp h.subset)

/-- The added rules match nothing at the position. -/
theorem Adds.pathHasRule_eq (h : Adds pos R R') : pathHasRule R' pos = pathHasRule R pos := by
  induction h with
  | nil => rfl
  | keep rule h ih => simpa [pathHasRule] using congrArg (ruleMatches rule pos || ·) ih
  | add rule hrule h ih => simpa [pathHasRule, hrule] using ih

theorem anyHit_mono (h : R ⊆ R') (hhit : anyHit maxDepth R' pos key = false) :
    anyHit maxDepth R pos key = false := by
  rw [anyHit, List.any_eq_false] at hhit ⊢
  exact fun rule hrule => hhit rule (h hrule)

/-! ## What the masks can tell apart -/

theorem length_padStart8 (s : List Char) : 8 ≤ (padStart8 s).length := by
  rw [padStart8, List.length_append, List.length_replicate]
  omega

/-- A short hash has twelve digits. -/
theorem length_shortHash12 (input : String) : (shortHash12 E input).length = 12 := by
  have hwords : ∀ words : List UInt32, 8 * words.length ≤
      (words.flatMap fun word => padStart8 (Nat.toDigits 16 word.toNat)).length := by
    intro words
    induction words with
    | nil => simp
    | cons word words ih =>
        have hpad := length_padStart8 (Nat.toDigits 16 word.toNat)
        rw [List.flatMap_cons, List.length_append, List.length_cons]
        omega
  have hlength := hwords (List.ofFn (E.sha256Words input))
  rw [List.length_ofFn] at hlength
  rw [shortHash12, String.length_ofList, List.length_take, wordsToHex]
  omega

/-- A hash is not the sentinel. -/
theorem hashAny_ne (v : Value) : hashAny E v ≠ "***" := by
  have hlength : (hashAny E v).length = 12 := by
    rw [hashAny.eq_def]
    split <;> exact length_shortHash12 _
  intro h
  rw [h] at hlength
  exact absurd hlength (by decide)

/-- Truncating makes only the sentinel into the sentinel. -/
theorem truncate_ne {s : String} (h : s ≠ "***") (limit : Number) : truncate s limit ≠ "***" := by
  have hdots : ∀ t : String, t ++ truncationSuffix ≠ "***" := by
    intro t ht
    have hlast := congrArg (fun u : String => u.toList.getLast?) ht
    simp [truncationSuffix] at hlast
  have hat : ∀ n, truncateAt s n ≠ "***" := by
    intro n
    rw [truncateAt]
    split
    · exact h
    · exact hdots _
  cases limit with
  | finite q => exact hat _
  | negZero => exact hat 0
  | negInf => exact hat 0
  | inf => exact h
  | nan =>
      rw [truncate]
      decide

theorem stringItems_eq_map (items : List Value) :
    stringItems E items = items.map fun item => joinItem (stringOf E item) item := by
  induction items with
  | nil => rfl
  | cons item items ih => rw [stringItems, ih, List.map_cons]

theorem joinItem_applyRuleFull (rule : PIIRule) (pass : ℕ) (s : String) (v : Value) :
    joinItem s (applyRuleFull E rule maxDepth pass pos v) = joinItem s v := by
  cases v with
  | scalar a => rfl
  | list r items =>
      rw [applyRuleFull_list]
      rfl
  | dict r entries =>
      rw [applyRuleFull_dict]
      rfl

/-- A rule does not change what a value is as a string: it changes objects only, and of those
`String` shows nothing. -/
theorem stringOf_applyRuleFull (rule : PIIRule) (pass : ℕ) (v : Value) (pos : List (Step String)) :
    stringOf E (applyRuleFull E rule maxDepth pass pos v) = stringOf E v := by
  induction v using Tree.induct generalizing pos with
  | scalar a => rfl
  | dict r entries ih =>
      rw [applyRuleFull_dict]
      rfl
  | list r items ih =>
      have hitems : stringItems E (items.mapIdx fun i item =>
          applyRuleFull E rule maxDepth pass (pos ++ [.index i]) item) = stringItems E items := by
        rw [stringItems_eq_map, stringItems_eq_map]
        apply List.ext_getElem?
        intro i
        rw [List.getElem?_map, List.getElem?_mapIdx, List.getElem?_map]
        cases hi : items[i]? with
        | none => rfl
        | some item =>
            rw [Option.map_some, Option.map_some, Option.map_some, joinItem_applyRuleFull,
              ih item (List.mem_of_getElem? hi)]
      rw [applyRuleFull_list, stringOf, stringOf, hitems]

/-- Two values that come out of the same value under two lists of rules, as far as the masks
can tell: the same scalar, containers that are the same string, or two strings neither of which
is the sentinel. -/
inductive Alike (E : Env) : Value → Value → Prop
  | same (a : Scalar) : Alike E (.scalar a) (.scalar a)
  | containers {x y : Value} (hx : x.isContainer = true) (hy : y.isContainer = true)
      (hstring : stringOf E x = stringOf E y) : Alike E x y
  | strings {s t : String} (hs : s ≠ "***") (ht : t ≠ "***") : Alike E (str s) (str t)

theorem Alike.refl (x : Value) : Alike E x x := by
  cases x with
  | scalar a => exact .same a
  | list r items => exact .containers rfl rfl rfl
  | dict r entries => exact .containers rfl rfl rfl

@[simp] theorem isContainer_applyRuleFull (rule : PIIRule) (pass : ℕ) (v : Value) :
    (applyRuleFull E rule maxDepth pass pos v).isContainer = v.isContainer := by
  cases v with
  | scalar a => rfl
  | list r items => rw [applyRuleFull_list, Tree.isContainer_list, Tree.isContainer_list]
  | dict r entries => rw [applyRuleFull_dict, Tree.isContainer_dict, Tree.isContainer_dict]

/-- Running a rule on the second value does not tell the two apart. -/
theorem Alike.applyRuleFull_right {x y : Value} (h : Alike E x y) (rule : PIIRule) (pass : ℕ)
    (pos : List (Step String)) : Alike E x (applyRuleFull E rule maxDepth pass pos y) := by
  cases h with
  | same a => exact .same a
  | containers hx hy hstring =>
      refine .containers hx (by rw [isContainer_applyRuleFull, hy]) ?_
      rw [hstring, stringOf_applyRuleFull]
  | strings hs ht => exact .strings hs ht

theorem Alike.symm {x y : Value} (h : Alike E x y) : Alike E y x := by
  cases h with
  | same a => exact .same a
  | containers hx hy hstring => exact .containers hy hx hstring.symm
  | strings hs ht => exact .strings ht hs

/-- A mask keeps or drops both values, and does not tell them apart. -/
theorem Alike.applyMode {x y : Value} (h : Alike E x y) (rule : PIIRule) :
    (applyMode E x rule = none ∧ applyMode E y rule = none) ∨
      ∃ x' y', applyMode E x rule = some x' ∧ applyMode E y rule = some y' ∧ Alike E x' y' := by
  rw [TypeScript.applyMode, TypeScript.applyMode]
  cases rule.mode with
  | drop => exact .inl ⟨rfl, rfl⟩
  | redact => exact .inr ⟨_, _, rfl, rfl, .same _⟩
  | hash => exact .inr ⟨_, _, rfl, rfl, .strings (hashAny_ne x) (hashAny_ne y)⟩
  | truncate =>
      refine .inr ⟨_, _, rfl, rfl, ?_⟩
      cases h with
      | same a => exact .same _
      | containers hx hy hstring =>
          rw [hstring]
          exact .same _
      | strings hs ht => exact .strings (truncate_ne hs _) (truncate_ne ht _)

/-- The sentinel has no double. -/
theorem Alike.eq_redacted {y : Value} (h : Alike E redacted y) : y = redacted := by
  cases h with
  | same a => rfl
  | containers hx hy hstring => cases hx
  | strings hs ht => exact absurd rfl hs

/-- **More rules do not tell two values apart**: rules that do not match the entry drop it in
both runs or in neither, and leave values alike. -/
theorem Adds.rulesEntry_alike (h : Adds (pos ++ [.key key]) R R') {x y : Value}
    (hxy : Alike E x y) (pass pass' : ℕ) :
    (rulesEntry E maxDepth pos key pass R x = none ∧
        rulesEntry E maxDepth pos key pass' R' y = none) ∨
      ∃ x' y', rulesEntry E maxDepth pos key pass R x = some x' ∧
        rulesEntry E maxDepth pos key pass' R' y = some y' ∧ Alike E x' y' := by
  induction h generalizing x y pass pass' with
  | nil => exact .inr ⟨x, y, rfl, rfl, hxy⟩
  | keep rule h ih =>
      rw [rulesEntry, rulesEntry, ruleEntry, ruleEntry]
      cases hhit : hit maxDepth rule pos key with
      | true =>
          rw [if_pos rfl, if_pos rfl]
          obtain ⟨hx, hy⟩ | ⟨x', y', hx, hy, halike⟩ := hxy.applyMode rule
          · rw [hx, hy]
            exact .inl ⟨rfl, rfl⟩
          · rw [hx, hy]
            exact ih halike (pass + 1) (pass' + 1)
      | false =>
          rw [if_neg Bool.false_ne_true, if_neg Bool.false_ne_true]
          apply ih
          exact ((hxy.applyRuleFull_right rule pass' _).symm.applyRuleFull_right rule pass _).symm
  | @add R R' rule hrule h ih =>
      have hmiss : hit maxDepth rule pos key = false := by rw [hit, hrule, Bool.and_false]
      have hstep : rulesEntry E maxDepth pos key pass' (rule :: R') y =
          rulesEntry E maxDepth pos key (pass' + 1) R'
            (applyRuleFull E rule maxDepth pass' (pos ++ [.key key]) y) := by
        rw [rulesEntry, ruleEntry, hmiss, if_neg Bool.false_ne_true, Option.bind_some]
      rw [hstep]
      exact ih (hxy.applyRuleFull_right rule pass' _) pass (pass' + 1)

/-- More rules keep a sentinel that the rules leave. -/
theorem Adds.rulesEntry_redacted (h : Adds (pos ++ [.key key]) R R') {c : Value} {pass : ℕ}
    (hentry : rulesEntry E maxDepth pos key pass R c = some redacted) (pass' : ℕ) :
    rulesEntry E maxDepth pos key pass' R' c = some redacted := by
  have hboth : (rulesEntry E maxDepth pos key pass R c = none ∧
      rulesEntry E maxDepth pos key pass' R' c = none) ∨ _ :=
    h.rulesEntry_alike (.refl c) pass pass'
  rw [hentry] at hboth
  obtain ⟨hx, -⟩ | ⟨x, y, hx, hy, halike⟩ := hboth
  · cases hx
  · cases hx
    rw [hy, halike.eq_redacted]

/-! ## Positions -/

/-- A rule masks an entry on the way. -/
def enclosingHit (maxDepth : Number) (rules : List PIIRule) (pos : List (Step String)) :
    List (Step String) → Bool
  | [] => false
  | .key k :: q =>
      anyHit maxDepth rules pos k || enclosingHit maxDepth rules (pos ++ [.key k]) q
  | .index i :: q => enclosingHit maxDepth rules (pos ++ [.index i]) q

/-- The step is a blocked key. -/
def blockedStep (E : Env) (extraFields : List String) : Step String → Bool
  | .key k => blocked E extraFields k
  | .index _ => false

@[simp] theorem blockedStep_key (k : String) :
    blockedStep E extraFields (.key k) = blocked E extraFields k := rfl

@[simp] theorem blockedStep_index (i : ℕ) : blockedStep E extraFields (.index i) = false := rfl

/-- A blocked key is on the way. -/
def enclosingBlocked (E : Env) (extraFields : List String) (q : List (Step String)) : Bool :=
  q.any (blockedStep E extraFields)

/-- The case in which an entry's value is redacted without rules and comes out with rules that
do not match it: an object or an array within the depth limit, under no blocked key and no
entry that a rule masks. -/
def Leaks (E : Env) (maxDepth : Number) (extraFields : List String) (R R' : List PIIRule)
    (pos q : List (Step String)) (v : Value) : Prop :=
  v.isContainer = true ∧ R = [] ∧ R' ≠ [] ∧ atLeast (pos.length + q.length + 1) maxDepth = false ∧
    enclosingHit maxDepth R' pos q = false ∧ enclosingBlocked E extraFields q = false

/-- The case in which an object or an array comes out as one, from a position with a blocked key on
the way or at its end: no rule masks it or an entry around it, and the outermost of these keys is
beyond the limit, where no pass looks, or a rule rebuilds what is under it. -/
def Exposes (E : Env) (maxDepth : Number) (extraFields : List String) (R : List PIIRule)
    (pos p : List (Step String)) : Prop :=
  let depth := pos.length + p.findIdx (blockedStep E extraFields)
  enclosingHit maxDepth R pos p = false ∧
    (atLeast depth maxDepth = true ∨ R ≠ [] ∧ atLeast (depth + 1) maxDepth = false)

/-- An object or an array is at the position. -/
def containerAt (v : Value) (p : List (Step String)) : Bool := (v.get? p).any Tree.isContainer

variable {q : List (Step String)} {v v₀ : Value} {pass pass' : ℕ} {s : Step String}

theorem scalar_of_anyHit (h : anyHit maxDepth R pos key = true) (v : Value) :
    rulesEntry E maxDepth pos key pass R v = none ∨
      ∃ a, rulesEntry E maxDepth pos key pass R v = some (.scalar a) :=
  (rulesEntry_of_anyHit h v).imp_right fun ⟨t, ht⟩ => ⟨.str t, ht⟩

/-- What lies below an entry that the rules mask is gone after them. -/
theorem get?_applyRules_of_enclosingHit (hkeys : v.NodupKeys)
    (h : enclosingHit maxDepth R pos q = true) :
    (applyRules E maxDepth pos pass R v).get? (q ++ [s]) = none := by
  induction q generalizing v pos with
  | nil => cases h
  | cons s' q ih =>
      rw [List.cons_append, Tree.get?_cons]
      cases hc : v.child? s' with
      | none =>
          cases s' with
          | key k => rw [child?_applyRules_key E maxDepth pos pass R hkeys, hc]; rfl
          | index i => rw [child?_applyRules_index, hc]; rfl
      | some c =>
          cases s' with
          | key k =>
              rw [child?_applyRules_key E maxDepth pos pass R hkeys, hc, Option.bind_some]
              cases hhit : anyHit maxDepth R pos k with
              | true =>
                  apply Tree.bind_get?_eq_none _ (by simp)
                  exact scalar_of_anyHit hhit c
              | false =>
                  rw [enclosingHit, hhit, Bool.false_or] at h
                  rw [rulesEntry_of_not_anyHit hhit, Option.bind_some]
                  exact ih (hkeys.child hc) h
          | index i =>
              rw [child?_applyRules_index, hc, Option.map_some, Option.bind_some]
              exact ih (hkeys.child hc) h

/-- More rules keep a sentinel that the rules leave at an entry they add nothing for. -/
theorem get?_applyRules_mono (hadds : Adds (pos ++ (q ++ [.key key])) R R') (hkeys : v.NodupKeys)
    (h : (applyRules E maxDepth pos pass R v).get? (q ++ [.key key]) = some redacted) :
    (applyRules E maxDepth pos pass' R' v).get? (q ++ [.key key]) = some redacted ∨
      enclosingHit maxDepth R' pos q = true := by
  induction q generalizing v pos with
  | nil =>
      left
      rw [List.nil_append, Tree.get?_singleton, child?_applyRules_key E maxDepth pos _ _ hkeys]
        at h ⊢
      obtain ⟨c, hc, hentry⟩ := Option.bind_eq_some_iff.mp h
      rw [hc, Option.bind_some]
      exact hadds.rulesEntry_redacted hentry pass'
  | cons s' q ih =>
      have hrest : Adds (pos ++ [s'] ++ (q ++ [.key key])) R R' := by simpa using hadds
      obtain ⟨d, hd, hget⟩ := Tree.get?_cons_eq_some.mp h
      rw [List.cons_append, Tree.get?_cons]
      cases s' with
      | key k =>
          rw [child?_applyRules_key E maxDepth pos _ _ hkeys] at hd ⊢
          obtain ⟨c, hc, hentry⟩ := Option.bind_eq_some_iff.mp hd
          rw [enclosingHit, hc, Option.bind_some]
          cases hhit : anyHit maxDepth R' pos k with
          | true => exact .inr rfl
          | false =>
              rw [rulesEntry_of_not_anyHit (anyHit_mono hadds.subset hhit)] at hentry
              cases hentry
              rw [rulesEntry_of_not_anyHit hhit, Option.bind_some, Bool.false_or]
              exact ih hrest (hkeys.child hc) hget
      | index i =>
          rw [child?_applyRules_index] at hd ⊢
          obtain ⟨c, hc, rfl⟩ := Option.map_eq_some_iff.mp hd
          rw [enclosingHit, hc, Option.map_some, Option.bind_some]
          exact ih hrest (hkeys.child hc) hget

/-! ## Both passes, under fewer and under more rules -/

/-- Beyond the limit no rule masks anything. -/
theorem enclosingHit_deep (h : atLeast pos.length maxDepth = true) (q : List (Step String)) :
    enclosingHit maxDepth R pos q = false := by
  induction q generalizing pos with
  | nil => rfl
  | cons s q ih =>
      have hbelow : atLeast (pos ++ [s]).length maxDepth = true :=
        atLeast_mono maxDepth h (by simp)
      cases s with
      | key k => rw [enclosingHit, anyHit_eq, h, ih hbelow]; rfl
      | index i => exact ih hbelow

/-- What lies below an entry that the rules mask is gone. -/
theorem get?_cleanAt_of_enclosingHit (hkeys : v.NodupKeys) (hget : v.get? (q ++ [s]) = some v₀)
    (h : enclosingHit maxDepth R pos q = true) :
    (cleanAt E maxDepth R extraFields pos v).get? (q ++ [s]) = none := by
  induction q generalizing v pos with
  | nil => cases h
  | cons s' q ih =>
      obtain ⟨c, hc, hrest⟩ := Tree.get?_cons_eq_some.mp hget
      have hnil : q ++ [s] ≠ [] := by simp
      have hdepth : atLeast pos.length maxDepth = false := by
        rw [← Bool.not_eq_true]
        intro hdeep
        rw [enclosingHit_deep hdeep] at h
        cases h
      rw [List.cons_append, Tree.get?_cons]
      cases s' with
      | key k =>
          rw [child?_cleanAt_key hdepth hkeys, hc, Option.bind_some]
          cases hhit : anyHit maxDepth R pos k with
          | true => exact Tree.bind_get?_eq_none (cleanEntry_of_anyHit hhit c) hnil
          | false =>
              rw [enclosingHit, hhit, Bool.false_or] at h
              cases hb : blocked E extraFields k with
              | true =>
                  rw [cleanEntry_of_blocked hhit hb, Option.bind_some]
                  split
                  · exact get?_applyRules_of_enclosingHit (hkeys.child hc) h
                  · exact Tree.bind_get?_eq_none (o := some redacted) (.inr ⟨_, rfl⟩) hnil
              | false =>
                  rw [cleanEntry_of_not_blocked hhit hb (Tree.isContainer_of_ne_nil hrest hnil),
                    Option.bind_some]
                  exact ih (hkeys.child hc) hrest h
      | index i =>
          rw [child?_cleanAt_index hdepth, hc, Option.map_some, Option.bind_some]
          exact ih (hkeys.child hc) hrest h

theorem leaks_key {k : String} (hhit : anyHit maxDepth R' pos k = false)
    (hb : blocked E extraFields k = false) :
    Leaks E maxDepth extraFields R R' pos (.key k :: q) v ↔
      Leaks E maxDepth extraFields R R' (pos ++ [.key k]) q v := by
  have hlength : pos.length + (q.length + 1) + 1 = pos.length + 1 + q.length + 1 := by omega
  simp [Leaks, enclosingHit, enclosingBlocked, hhit, hb, hlength]

theorem leaks_index {i : ℕ} :
    Leaks E maxDepth extraFields R R' pos (.index i :: q) v ↔
      Leaks E maxDepth extraFields R R' (pos ++ [.index i]) q v := by
  have hlength : pos.length + (q.length + 1) + 1 = pos.length + 1 + q.length + 1 := by omega
  simp [Leaks, enclosingHit, enclosingBlocked, hlength]

/-- An entry that rules match and that is blocked is what the rules leave. -/
theorem cleanEntry_of_pathHasRule (hb : blocked E extraFields key = true)
    (h : pathHasRule R (pos ++ [.key key]) = true) (v : Value) :
    cleanEntry E maxDepth R extraFields pos key v = rulesEntry E maxDepth pos key 0 R v := by
  have hentry : ∀ w, defaultEntry E maxDepth R extraFields pos key w v = w := by
    intro w
    rw [defaultEntry, if_pos hb, h, Bool.or_true, if_pos rfl]
  rw [cleanEntry, funext hentry, Option.map_id']

/-- A blocked container that no rule matches is kept if any rule is registered and the limit
allows it to be rebuilt, and redacted otherwise. -/
theorem cleanEntry_of_container (hdepth : atLeast pos.length maxDepth = false)
    (hhit : anyHit maxDepth R pos key = false) (hb : blocked E extraFields key = true)
    (hcallers : Callers v) (hcont : v.isContainer = true) :
    cleanEntry E maxDepth R extraFields pos key v =
      some (if !atLeast (pos ++ [Step.key key]).length maxDepth && !R.isEmpty then
        applyRules E maxDepth (pos ++ [.key key]) 0 R v else redacted) := by
  have hrule : pathHasRule R (pos ++ [.key key]) = false := by
    rw [anyHit_eq, hdepth] at hhit
    simpa using hhit
  rw [cleanEntry_of_blocked hhit hb, strictNe_applyRules hcallers hcont, hrule, Bool.or_false]

/-- **More rules keep an entry redacted**, unless they leak it: the step at the entry. -/
theorem cleanEntry_mono (hadds : Adds (pos ++ [.key key]) R R')
    (hdepth : atLeast pos.length maxDepth = false) (hcallers : Callers v)
    (hb : blocked E extraFields key = true)
    (hleaks : ¬ Leaks E maxDepth extraFields R R' pos [] v)
    (h : cleanEntry E maxDepth R extraFields pos key v = some redacted) :
    cleanEntry E maxDepth R' extraFields pos key v = some redacted := by
  cases hrule : pathHasRule R (pos ++ [.key key]) with
  | true =>
      have hrule' := hadds.pathHasRule_eq.trans hrule
      rw [cleanEntry_of_pathHasRule hb hrule] at h
      rw [cleanEntry_of_pathHasRule hb hrule']
      exact hadds.rulesEntry_redacted h 0
  | false =>
      have hrule' := hadds.pathHasRule_eq.trans hrule
      have hhit : anyHit maxDepth R pos key = false := by rw [anyHit_eq, hrule, Bool.and_false]
      have hhit' : anyHit maxDepth R' pos key = false := by rw [anyHit_eq, hrule', Bool.and_false]
      cases hcont : v.isContainer with
      | false =>
          obtain ⟨a, rfl⟩ := Tree.exists_scalar_of_not_isContainer hcont
          rw [cleanEntry_of_blocked hhit hb, applyRules_scalar, hrule] at h
          rw [cleanEntry_of_blocked hhit' hb, applyRules_scalar, hrule']
          exact h
      | true =>
          rw [cleanEntry_of_container hdepth hhit hb hcallers hcont] at h
          rw [cleanEntry_of_container hdepth hhit' hb hcallers hcont]
          cases hdeep : atLeast (pos ++ [Step.key key]).length maxDepth with
          | true => rfl
          | false =>
              rw [hdeep, Bool.not_false, Bool.true_and] at h
              cases R with
              | nil =>
                  have hnil : R' = [] := by
                    by_contra hne
                    exact hleaks ⟨hcont, rfl, hne, by simpa using hdeep, rfl, rfl⟩
                  rw [hnil]
                  rfl
              | cons rule R =>
                  have hkept := congrArg Tree.isContainer (Option.some.inj h)
                  rw [List.isEmpty_cons, Bool.not_false, if_pos rfl, isContainer_applyRules,
                    hcont] at hkept
                  cases hkept

/-- **More rules keep an entry redacted**, unless they leak it or mask an entry around it. -/
theorem get?_cleanAt_mono (hadds : Adds (pos ++ (q ++ [.key key])) R R') (hkeys : v.NodupKeys)
    (hcallers : Callers v) (hb : blocked E extraFields key = true)
    (hget : v.get? (q ++ [.key key]) = some v₀)
    (hleaks : ¬ Leaks E maxDepth extraFields R R' pos q v₀)
    (h : (cleanAt E maxDepth R extraFields pos v).get? (q ++ [.key key]) = some redacted) :
    (cleanAt E maxDepth R' extraFields pos v).get? (q ++ [.key key]) = some redacted ∨
      enclosingHit maxDepth R' pos q = true := by
  induction q generalizing v pos with
  | nil =>
      left
      cases hdepth : atLeast pos.length maxDepth with
      | true =>
          rw [cleanAt_deep E maxDepth R extraFields hdepth] at h
          rw [cleanAt_deep E maxDepth R' extraFields hdepth]
          exact h
      | false =>
          rw [List.nil_append, Tree.get?_singleton] at hget h ⊢
          rw [child?_cleanAt_key hdepth hkeys, hget, Option.bind_some] at h ⊢
          exact cleanEntry_mono hadds hdepth (hcallers.child hget) hb hleaks h
  | cons s' q ih =>
      obtain ⟨c, hc, hrest⟩ := Tree.get?_cons_eq_some.mp hget
      have hadds' : Adds (pos ++ [s'] ++ (q ++ [.key key])) R R' := by simpa using hadds
      have hnil : q ++ [Step.key key] ≠ [] := by simp
      have hcont := Tree.isContainer_of_ne_nil hrest hnil
      cases hdepth : atLeast pos.length maxDepth with
      | true =>
          rw [cleanAt_deep E maxDepth R extraFields hdepth] at h
          rw [cleanAt_deep E maxDepth R' extraFields hdepth]
          exact .inl h
      | false =>
          rw [List.cons_append, Tree.get?_cons] at h ⊢
          cases s' with
          | key k =>
              rw [child?_cleanAt_key hdepth hkeys, hc, Option.bind_some] at h ⊢
              cases hhit' : anyHit maxDepth R' pos k with
              | true =>
                  rw [enclosingHit, hhit']
                  exact .inr rfl
              | false =>
                  have hhit := anyHit_mono hadds.subset hhit'
                  rw [enclosingHit, hhit', Bool.false_or]
                  cases hbk : blocked E extraFields k with
                  | true =>
                      rw [cleanEntry_of_container hdepth hhit hbk (hcallers.child hc) hcont,
                        Option.bind_some] at h
                      rw [cleanEntry_of_container hdepth hhit' hbk (hcallers.child hc) hcont,
                        Option.bind_some]
                      cases hkept :
                          !atLeast (pos ++ [Step.key k]).length maxDepth && !R.isEmpty with
                      | false =>
                          have hgone : redacted.get? (q ++ [Step.key key]) = none :=
                            Tree.bind_get?_eq_none (o := some redacted) (.inr ⟨_, rfl⟩) hnil
                          rw [hkept, if_neg Bool.false_ne_true, hgone] at h
                          cases h
                      | true =>
                          rw [hkept, if_pos rfl] at h
                          rw [Bool.and_eq_true, Bool.not_eq_true'] at hkept
                          rw [hkept.1, hadds.isEmpty_eq_false (by simpa using hkept.2)]
                          exact get?_applyRules_mono hadds' (hkeys.child hc) h
                  | false =>
                      rw [cleanEntry_of_not_blocked hhit hbk hcont, Option.bind_some] at h
                      rw [cleanEntry_of_not_blocked hhit' hbk hcont, Option.bind_some]
                      exact ih hadds' (hkeys.child hc) (hcallers.child hc) hrest
                        ((leaks_key hhit' hbk).not.mp hleaks) h
          | index i =>
              rw [child?_cleanAt_index hdepth, hc, Option.map_some, Option.bind_some] at h ⊢
              exact ih hadds' (hkeys.child hc) (hcallers.child hc) hrest
                (leaks_index.not.mp hleaks) h

/-- **The leak**: the entry is redacted under the first rules and comes out as an object or an
array under the others. -/
theorem get?_cleanAt_of_leaks (hkeys : v.NodupKeys) (hcallers : Callers v)
    (hb : blocked E extraFields key = true)
    (hrule : pathHasRule R' (pos ++ (q ++ [.key key])) = false)
    (hget : v.get? (q ++ [.key key]) = some v₀)
    (hleaks : Leaks E maxDepth extraFields R R' pos q v₀) :
    (cleanAt E maxDepth R extraFields pos v).get? (q ++ [.key key]) = some redacted ∧
      ∃ w, (cleanAt E maxDepth R' extraFields pos v).get? (q ++ [.key key]) = some w ∧
        w.isContainer = true := by
  obtain ⟨hcont, rfl, hne, hdeep, hhit, hbq⟩ := hleaks
  have hisEmpty : R'.isEmpty = false := List.isEmpty_eq_false_iff.mpr hne
  induction q generalizing v pos with
  | nil =>
      have hdepth : atLeast pos.length maxDepth = false := by
        rw [← Bool.not_eq_true] at hdeep ⊢
        exact fun h => hdeep (atLeast_mono maxDepth h (by omega))
      have hhit' : anyHit maxDepth R' pos key = false := by
        rw [List.nil_append] at hrule
        rw [anyHit_eq, hrule, Bool.and_false]
      have hlast : atLeast (pos ++ [Step.key key]).length maxDepth = false := by simpa using hdeep
      rw [List.nil_append, Tree.get?_singleton] at hget ⊢
      rw [Tree.get?_singleton, child?_cleanAt_key hdepth hkeys, child?_cleanAt_key hdepth hkeys,
        hget, Option.bind_some, Option.bind_some,
        cleanEntry_of_container hdepth rfl hb (hcallers.child hget) hcont,
        cleanEntry_of_container hdepth hhit' hb (hcallers.child hget) hcont, hlast, hisEmpty]
      refine ⟨rfl, _, rfl, ?_⟩
      rw [Bool.not_false, Bool.and_self, if_pos rfl, isContainer_applyRules, hcont]
  | cons s' q ih =>
      obtain ⟨c, hc, hrest⟩ := Tree.get?_cons_eq_some.mp hget
      have hcont' := Tree.isContainer_of_ne_nil hrest (by simp)
      have hdepth : atLeast pos.length maxDepth = false := by
        rw [← Bool.not_eq_true] at hdeep ⊢
        exact fun h => hdeep (atLeast_mono maxDepth h (by omega))
      have hrule' : pathHasRule R' (pos ++ [s'] ++ (q ++ [.key key])) = false := by
        simpa using hrule
      have hdeep' : atLeast ((pos ++ [s']).length + q.length + 1) maxDepth = false := by
        rw [← hdeep]
        congr 1
        simp only [List.length_append, List.length_cons, List.length_nil]
        omega
      rw [List.cons_append, Tree.get?_cons, Tree.get?_cons]
      cases s' with
      | key k =>
          rw [enclosingHit, Bool.or_eq_false_iff] at hhit
          rw [enclosingBlocked, List.any_cons, Bool.or_eq_false_iff] at hbq
          rw [child?_cleanAt_key hdepth hkeys, child?_cleanAt_key hdepth hkeys, hc,
            Option.bind_some, Option.bind_some, cleanEntry_of_not_blocked rfl hbq.1 hcont',
            cleanEntry_of_not_blocked hhit.1 hbq.1 hcont', Option.bind_some, Option.bind_some]
          exact ih (hkeys.child hc) (hcallers.child hc) hrule' hrest hdeep' hhit.2 hbq.2
      | index i =>
          rw [child?_cleanAt_index hdepth, child?_cleanAt_index hdepth, hc, Option.map_some,
            Option.map_some, Option.bind_some, Option.bind_some]
          exact ih (hkeys.child hc) (hcallers.child hc) hrule' hrest hdeep' hhit hbq

/-! ## What comes out with its contents -/

variable {p : List (Step String)} {o : Option Value}

theorem containerAt_cons (v : Value) (s : Step String) (p : List (Step String)) :
    containerAt v (s :: p) = (v.child? s).any fun c => containerAt c p := by
  rw [containerAt, Tree.get?_cons]
  cases v.child? s <;> rfl

theorem containerAt_scalar (a : Scalar) (p : List (Step String)) :
    containerAt (.scalar a) p = false := by
  cases p with
  | nil => rfl
  | cons s p => rw [containerAt_cons, Tree.child?_scalar, Option.any_none]

/-- There is nothing below an entry that is gone or a scalar. -/
theorem any_containerAt_of_masked (h : o = none ∨ ∃ a, o = some (.scalar a)) :
    (o.any fun c => containerAt c p) = false := by
  obtain rfl | ⟨a, rfl⟩ := h
  · rfl
  · exact containerAt_scalar a p

/-- **The rules keep objects and arrays**, unless they mask them or an entry around them. -/
theorem containerAt_applyRules (hkeys : v.NodupKeys) (pass : ℕ) :
    containerAt (applyRules E maxDepth pos pass R v) p =
      (containerAt v p && !enclosingHit maxDepth R pos p) := by
  induction p generalizing v pos with
  | nil => simp [containerAt, enclosingHit]
  | cons s p ih =>
      rw [containerAt_cons, containerAt_cons]
      cases s with
      | key k =>
          rw [child?_applyRules_key E maxDepth pos pass R hkeys]
          cases hc : v.child? (.key k) with
          | none => rfl
          | some c =>
              rw [Option.bind_some, Option.any_some, enclosingHit]
              cases hhit : anyHit maxDepth R pos k with
              | true =>
                  rw [any_containerAt_of_masked (scalar_of_anyHit hhit c), Bool.true_or,
                    Bool.not_true, Bool.and_false]
              | false =>
                  rw [rulesEntry_of_not_anyHit hhit, Option.any_some, ih (hkeys.child hc),
                    Bool.false_or]
      | index i =>
          rw [child?_applyRules_index]
          cases hc : v.child? (.index i) with
          | none => rfl
          | some c => exact ih (hkeys.child hc)

theorem exposes_key {k : String} (hhit : anyHit maxDepth R pos k = false)
    (hb : blocked E extraFields k = false) :
    Exposes E maxDepth extraFields R pos (.key k :: p) ↔
      Exposes E maxDepth extraFields R (pos ++ [.key k]) p := by
  have hdepth : pos.length + (p.findIdx (blockedStep E extraFields) + 1) =
      pos.length + 1 + p.findIdx (blockedStep E extraFields) := by omega
  simp [Exposes, enclosingHit, hhit, List.findIdx_cons, hb, hdepth]

theorem exposes_index {i : ℕ} :
    Exposes E maxDepth extraFields R pos (.index i :: p) ↔
      Exposes E maxDepth extraFields R (pos ++ [.index i]) p := by
  have hdepth : pos.length + (p.findIdx (blockedStep E extraFields) + 1) =
      pos.length + 1 + p.findIdx (blockedStep E extraFields) := by omega
  simp [Exposes, enclosingHit, List.findIdx_cons, hdepth]

/-- Beyond the limit everything comes out. -/
theorem exposes_deep (h : atLeast pos.length maxDepth = true) :
    Exposes E maxDepth extraFields R pos p :=
  ⟨enclosingHit_deep h p, .inl (atLeast_mono maxDepth h (Nat.le_add_right ..))⟩

/-- At the outermost blocked key, which the default pass looks at, the rules decide. -/
theorem exposes_blocked {k : String} (hdepth : atLeast pos.length maxDepth = false)
    (hhit : anyHit maxDepth R pos k = false) (hb : blocked E extraFields k = true) :
    Exposes E maxDepth extraFields R pos (.key k :: p) ↔
      enclosingHit maxDepth R (pos ++ [.key k]) p = false ∧ R ≠ [] ∧
        atLeast (pos ++ [Step.key k]).length maxDepth = false := by
  simp [Exposes, enclosingHit, hhit, List.findIdx_cons, hb, hdepth]

/-- **What comes out of both passes with its contents**, of an object or an array at a position
with a blocked key. -/
theorem containerAt_cleanAt_iff (hkeys : v.NodupKeys) (hcallers : Callers v)
    (hblocked : p.any (blockedStep E extraFields) = true) (hv : containerAt v p = true) :
    containerAt (cleanAt E maxDepth R extraFields pos v) p = true ↔
      Exposes E maxDepth extraFields R pos p := by
  induction p generalizing v pos with
  | nil => cases hblocked
  | cons s p ih =>
      cases hdepth : atLeast pos.length maxDepth with
      | true =>
          rw [cleanAt_deep E maxDepth R extraFields hdepth]
          exact iff_of_true hv (exposes_deep hdepth)
      | false =>
          rw [containerAt_cons] at hv ⊢
          obtain ⟨c, hc, hcp⟩ := (Option.any_eq_true _ _).mp hv
          have hcont : c.isContainer = true := by
            cases c with
            | scalar a => rw [containerAt_scalar] at hcp; cases hcp
            | list r items => rfl
            | dict r entries => rfl
          cases s with
          | key k =>
              rw [child?_cleanAt_key hdepth hkeys, hc, Option.bind_some]
              cases hhit : anyHit maxDepth R pos k with
              | true =>
                  rw [any_containerAt_of_masked (cleanEntry_of_anyHit hhit c)]
                  refine iff_of_false Bool.false_ne_true fun hexposes => ?_
                  have hnot := hexposes.1
                  rw [enclosingHit, hhit] at hnot
                  cases hnot
              | false =>
                  cases hb : blocked E extraFields k with
                  | true =>
                      rw [cleanEntry_of_container hdepth hhit hb (hcallers.child hc) hcont,
                        Option.any_some, exposes_blocked hdepth hhit hb]
                      split
                      · next hkept =>
                          rw [containerAt_applyRules (hkeys.child hc), hcp]
                          simp only [Bool.and_eq_true, Bool.not_eq_true', List.isEmpty_eq_false_iff]
                            at hkept
                          simp only [hkept.1, hkept.2, Bool.true_and, Bool.not_eq_true', ne_eq,
                            not_false_eq_true, and_self, and_true]
                      · next hkept =>
                          refine iff_of_false ?_ fun hexposes => hkept ?_
                          · rw [redacted, containerAt_scalar]
                            exact Bool.false_ne_true
                          · rw [hexposes.2.2, List.isEmpty_eq_false_iff.mpr hexposes.2.1]
                            rfl
                  | false =>
                      rw [cleanEntry_of_not_blocked hhit hb hcont, Option.any_some,
                        exposes_key hhit hb]
                      rw [List.any_cons, blockedStep, hb, Bool.false_or] at hblocked
                      exact ih (hkeys.child hc) (hcallers.child hc) hblocked hcp
          | index i =>
              rw [child?_cleanAt_index hdepth, hc, exposes_index]
              exact ih (hkeys.child hc) (hcallers.child hc) hblocked hcp

/-! ## The sanitizer -/

theorem exists_key_of_get? {payload : Payload} {p : List (Step String)}
    (hget : payload.value.get? p = some v₀) (hp : p ≠ []) : ∃ k p', p = .key k :: p' := by
  obtain ⟨s, p', rfl⟩ := List.exists_cons_of_ne_nil hp
  cases s with
  | key k => exact ⟨k, p', rfl⟩
  | index i => cases hget

/-- The output has an object or an array where the two passes leave one. -/
theorem containerAt_sanitizePayload {payload : Payload} {k : String}
    (hget : payload.value.get? (.key k :: p) = some v) :
    containerAt (sanitizePayload E R extraFields maxDepth payload) (.key k :: p) =
      containerAt (cleanAt E maxDepth R extraFields [] payload.value) (.key k :: p) := by
  rw [containerAt, containerAt]
  cases hclean : (cleanAt E maxDepth R extraFields [] payload.value).get? (.key k :: p) with
  | some w => rw [get?_sanitizePayload_of_some hget hclean]
  | none =>
      obtain hnone | ⟨-, hinherited⟩ := get?_sanitizePayload_of_none hget hclean
      · rw [hnone]
      · rw [hinherited]
        rfl

/-- **When registering rules is harmless.** Take an entry of the payload under a blocked key, and
rules to which others are added that do not match the entry. If the entry comes out redacted under
the first rules, it comes out redacted or not at all under more, unless it leaks: that is, exactly
if it is no object or array within the depth limit, or there were rules to begin with, or none are
added, or an added rule masks an entry around it, or a key around it is blocked. And whatever it
comes out as under the first rules, an object or an array comes out as one under the others exactly
if these expose it. -/
theorem added_rules_keep_redaction_iff (E : Env) (extraFields : List String) (maxDepth : Number)
    (R R' : List PIIRule) (payload : Payload) (q : List (Step String)) (key : String) (v₀ : Value)
    (hget : payload.value.get? (q ++ [.key key]) = some v₀)
    (hb : blocked E extraFields key = true) (hadds : Adds (q ++ [.key key]) R R') :
    (((sanitizePayload E R extraFields maxDepth payload).get? (q ++ [.key key]) = some redacted →
      (sanitizePayload E R' extraFields maxDepth payload).get? (q ++ [.key key]) = some redacted ∨
      (sanitizePayload E R' extraFields maxDepth payload).get? (q ++ [.key key]) = none) ↔
    ¬ Leaks E maxDepth extraFields R R' [] q v₀) ∧
    (v₀.isContainer = true →
      (containerAt (sanitizePayload E R' extraFields maxDepth payload) (q ++ [.key key]) = true ↔
        Exposes E maxDepth extraFields R' [] (q ++ [.key key]))) := by
  have hkeys := nodupKeys_value payload
  have hcallers := callers_value payload
  obtain ⟨k, p, hp⟩ := exists_key_of_get? hget (by simp)
  refine ⟨⟨?_, ?_⟩, fun hcont => ?_⟩
  · intro h hleaks
    have hrule : pathHasRule R' ([] ++ (q ++ [.key key])) = false := by
      rw [List.nil_append, hadds.pathHasRule_eq, hleaks.2.1]
      rfl
    obtain ⟨hR, w, hw, hcont⟩ := get?_cleanAt_of_leaks hkeys hcallers hb hrule hget hleaks
    rw [hp] at hget h hR hw
    rw [get?_sanitizePayload_of_some hget hw] at h
    obtain h | h := h (get?_sanitizePayload_of_some hget hR)
    · cases h
      cases hcont
    · cases h
  · intro hleaks h
    have hR : (cleanAt E maxDepth R extraFields [] payload.value).get? (q ++ [.key key]) =
        some redacted := by
      rw [hp] at hget h ⊢
      exact get?_cleanAt_of_redacted hget h
    obtain hR' | hhit := get?_cleanAt_mono hadds hkeys hcallers hb hget hleaks hR
    · left
      rw [hp] at hget hR' ⊢
      exact get?_sanitizePayload_of_some hget hR'
    · right
      have hgone : (cleanAt E maxDepth R' extraFields [] payload.value).get? (q ++ [.key key]) =
          none := get?_cleanAt_of_enclosingHit hkeys hget hhit
      rw [hp] at hget hgone ⊢
      obtain hnone | ⟨rfl, -⟩ := get?_sanitizePayload_of_none hget hgone
      · exact hnone
      · cases q with
        | nil => cases hhit
        | cons s q => simp at hp
  · have hblocked : (q ++ [Step.key key]).any (blockedStep E extraFields) = true := by simp [hb]
    have hv : containerAt payload.value (q ++ [.key key]) = true := by
      rw [containerAt, hget, Option.any_some, hcont]
    rw [hp] at hget hblocked hv ⊢
    rw [containerAt_sanitizePayload hget]
    exact containerAt_cleanAt_iff hkeys hcallers hblocked hv

/-- Builtins for runs on small payloads without secrets, under rules that redact. -/
def plainEnv : Env where
  primitiveString := fun _ => ""
  toLowerCase := String.toLower
  sha256Words := fun _ _ => 0
  canonicalJson := fun _ => ""
  redactIfSecret := fun _ => none

/-- `{auth: {user: 'alice'}, x: 'y'}`. -/
def authPayload : Payload where
  ref := 0
  properties := [("auth", .dict 1 [("user", .scalar (.str "alice"))]), ("x", .scalar (.str "y"))]
  nodupKeys := by
    refine .dict (by decide) ?_
    intro e he
    obtain rfl | rfl : e = ("auth", .dict 1 [("user", .scalar (.str "alice"))]) ∨
        e = ("x", .scalar (.str "y")) := by simpa using he
    · refine .dict (by decide) ?_
      intro e he
      obtain rfl := List.mem_singleton.mp he
      exact .scalar _
    · exact .scalar _

/-- A rule for `x`. -/
def xRule : PIIRule where
  path := "x"
  mode := .redact

theorem adds_xRule : Adds ([] ++ [.key "auth"]) [] [xRule] :=
  .add xRule (by decide) .nil

theorem added_rules_keep_redaction_iff_at_auth :
    (((sanitizePayload plainEnv [] [] (.finite 8) authPayload).get? ([] ++ [.key "auth"]) =
        some redacted →
      (sanitizePayload plainEnv [xRule] [] (.finite 8) authPayload).get? ([] ++ [.key "auth"]) =
        some redacted ∨
      (sanitizePayload plainEnv [xRule] [] (.finite 8) authPayload).get? ([] ++ [.key "auth"]) =
        none) ↔
    ¬ Leaks plainEnv (.finite 8) [] [] [xRule] [] []
      (.dict (.caller 1) [("user", str "alice")])) ∧
    (containerAt (sanitizePayload plainEnv [xRule] [] (.finite 8) authPayload)
        ([] ++ [.key "auth"]) = true ↔
      Exposes plainEnv (.finite 8) [] [xRule] [] ([] ++ [.key "auth"])) := by
  have hiff := added_rules_keep_redaction_iff plainEnv [] (.finite 8) [] [xRule] authPayload []
    "auth" _ rfl (by decide +kernel) adds_xRule
  exact ⟨hiff.1, hiff.2 rfl⟩

/-- A rule for `x` un-redacts `auth`, and with it `auth` comes out as an object. -/
theorem not_added_rules_keep_redaction :
    (¬ ∀ (E : Env) (extraFields : List String) (maxDepth : Number) (R R' : List PIIRule)
        (payload : Payload) (q : List (Step String)) (key : String) (v₀ : Value),
      payload.value.get? (q ++ [.key key]) = some v₀ →
      blocked E extraFields key = true → Adds (q ++ [.key key]) R R' →
      (sanitizePayload E R extraFields maxDepth payload).get? (q ++ [.key key]) = some redacted →
      (sanitizePayload E R' extraFields maxDepth payload).get? (q ++ [.key key]) = some redacted ∨
      (sanitizePayload E R' extraFields maxDepth payload).get? (q ++ [.key key]) = none) ∧
    containerAt (sanitizePayload plainEnv [xRule] [] (.finite 8) authPayload) [.key "auth"] =
      true := by
  have hexposed : containerAt (sanitizePayload plainEnv [xRule] [] (.finite 8) authPayload)
      [.key "auth"] = true := by decide +kernel
  refine ⟨fun h => ?_, hexposed⟩
  have hblocked : blocked plainEnv [] "auth" = true := by decide +kernel
  have hredacted : (sanitizePayload plainEnv [] [] (.finite 8) authPayload).get?
      ([] ++ [.key "auth"]) = some redacted := by
    have hleaks : Leaks plainEnv (.finite 8) [] [] [xRule] [] []
        (.dict (.caller 1) [("user", str "alice")]) :=
      ⟨rfl, rfl, by simp, by decide, rfl, rfl⟩
    have hrule : pathHasRule [xRule] ([] ++ ([] ++ [.key "auth"])) = false := by decide
    have hclean := (get?_cleanAt_of_leaks (nodupKeys_value authPayload)
      (callers_value authPayload) hblocked hrule rfl hleaks).1
    exact get?_sanitizePayload_of_some (p := []) rfl hclean
  rw [containerAt] at hexposed
  obtain h | h := h plainEnv [] (.finite 8) [] [xRule] authPayload [] "auth" _ rfl
    hblocked adds_xRule hredacted
  · rw [List.nil_append] at h
    rw [h] at hexposed
    cases hexposed
  · rw [List.nil_append] at h
    rw [h] at hexposed
    cases hexposed

end Telemetry.Pii.TypeScript
