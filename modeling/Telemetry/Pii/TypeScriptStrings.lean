import Telemetry.Lib.Labels
import Telemetry.Pii.Scalars
import Telemetry.Pii.SecretScans
import Telemetry.Pii.TypeScriptRules

/-!
# Which strings the TypeScript passes scan for secrets

The default pass hands an object's string to the secret scan, and never an array's. It also
keeps what the rules left of an entry under a blocked key, and after any rule within the depth
limit an object or an array there counts as changed, so that nothing in it is scanned. A
string that comes out above the limit, and that no rule made, may hold a secret exactly in
these two places.

## Main definitions

* `classifyFields` — the classification stage of `sanitizePayload`.
* `Unscanned` — a string that the two passes leave unscanned.
* `StringsScanned` — what every string of the output is to satisfy.
* `UnscannedSecret` — a secret in such a string of the payload.

## Main results

* `stringsScanned_iff` — every string is clean if and only if there is no such secret.
-/

namespace Telemetry.Pii.TypeScript

open Telemetry.Lib

/-! ## Classification -/

/-- The classification hook, which looks at the key only, and the policy hook. -/
structure Hooks where
  classHook : String → Option String
  policyHook : String → String

def classTag (key : String) : String := "__" ++ key ++ "__class"

/-- The actions that mask a value. -/
def masks (action : String) : Bool := ["redact", "hash", "truncate"].contains action

/-- What an action that masks puts in a value's place. -/
def maskAction (E : Env) (action : String) (val : Value) : Value :=
  if action = "redact" then redacted
  else if action = "hash" then str (hashAny E val)
  else str (truncate (stringOf E val) defaultTruncateTo)

/-- One round of the loop over the object's keys. -/
def classifyField (E : Env) (hooks : Hooks) (obj : Entries) (key : String) : Entries :=
  match hooks.classHook key with
  | none => obj
  | some label =>
      let action := hooks.policyHook label
      if action = "drop" then delItem key obj
      else
        let tagged := setItem (classTag key) (str label) obj
        match tagged.lookup key with
        | some val =>
            if masks action && strictNe val redacted then
              setItem key (maskAction E action val) tagged
            else tagged
        | none => tagged

/-- The loop over the keys the object has when it starts. -/
def classifyFields (E : Env) (hooks : Hooks) (obj : Entries) : Entries :=
  (obj.map Prod.fst).foldl (classifyField E hooks) obj

/-- `sanitizePayload` with the classification hooks. -/
def sanitizeClassified (E : Env) (hooks : Hooks) (rules : List PIIRule)
    (extraFields : List String) (maxDepth : Number) (payload : Payload) : Value :=
  match sanitizePayload E rules extraFields maxDepth payload with
  | .dict r obj => .dict r (classifyFields E hooks obj)
  | v => v

/-- The environment with the scan for the built-in patterns. -/
def scanning (E : Env) : Env := { E with redactIfSecret := scanIfSecret }

/-! ## Strings in the two passes -/

section

variable {E : Env} {maxDepth : Number} {rules : List PIIRule} {extraFields : List String}
  {pos q p : List (Step String)} {step : Step String} {v c : Value} {s : String} {pass : ℕ}
  {key : String}

/-- Above a depth within the limit the limit is not reached. -/
theorem not_atLeast_mono {d d' : ℕ} (h : atLeast d' maxDepth = false) (hle : d ≤ d') :
    atLeast d maxDepth = false := by
  by_contra hdeep
  rw [Bool.not_eq_false] at hdeep
  rw [atLeast_mono maxDepth hdeep hle] at h
  cases h

/-- One step on, a way within the ceiling is still within it. -/
theorem not_atLeast_cons {pos q : List (Step String)} {first : Step String}
    (h : atLeast (pos.length + (first :: q).length) maxDepth = false) :
    atLeast ((pos ++ [first]).length + q.length) maxDepth = false ∧
      atLeast (pos.length + 1) maxDepth = false := by
  constructor
  · rw [List.length_append, List.length_singleton, Nat.add_assoc, Nat.add_comm 1]
    exact h
  · apply not_atLeast_mono h
    rw [List.length_cons]
    omega

/-- The rules make no string of a value by themselves. -/
theorem applyRules_eq_str :
    applyRules E maxDepth pos pass rules v = str s ↔ v = str s := by
  constructor
  · intro h
    cases v with
    | scalar a => rwa [applyRules_scalar] at h
    | list r items =>
        rw [applyRules_list] at h
        cases h
    | dict r entries =>
        rw [applyRules_dict] at h
        cases h
  · rintro rfl
    exact applyRules_scalar E maxDepth pos pass rules _

/-- Where no rule masks an entry on the way, the rules leave the strings. -/
theorem get?_applyRules_str (hkeys : v.NodupKeys) (h : enclosingHit maxDepth rules pos p = false) :
    (applyRules E maxDepth pos pass rules v).get? p = some (str s) ↔ v.get? p = some (str s) := by
  induction p generalizing v pos with
  | nil => simpa using applyRules_eq_str
  | cons first p ih =>
      rw [Tree.get?_cons, Tree.get?_cons]
      cases first with
      | key k =>
          rw [enclosingHit, Bool.or_eq_false_iff] at h
          rw [child?_applyRules_key E maxDepth pos pass rules hkeys]
          cases hc : v.child? (.key k) with
          | none => simp
          | some c =>
              rw [Option.bind_some, Option.bind_some, rulesEntry_of_not_anyHit h.1,
                Option.bind_some]
              exact ih (hkeys.child hc) h.2
      | index i =>
          rw [child?_applyRules_index]
          cases hc : v.child? (.index i) with
          | none => simp
          | some c =>
              rw [Option.map_some, Option.bind_some, Option.bind_some]
              exact ih (hkeys.child hc) h

theorem enclosingHit_append (maxDepth : Number) (rules : List PIIRule) (pos q : List (Step String))
    (step : Step String) :
    enclosingHit maxDepth rules pos (q ++ [step]) =
      (enclosingHit maxDepth rules pos q || enclosingHit maxDepth rules (pos ++ q) [step]) := by
  induction q generalizing pos with
  | nil => simp [enclosingHit]
  | cons first q ih =>
      cases first with
      | key k => simp [enclosingHit, ih, Bool.or_assoc]
      | index i => simp [enclosingHit, ih]

/-- The passes keep strings and make none of a container. -/
theorem cleanAt_eq_str : cleanAt E maxDepth rules extraFields pos v = str s ↔ v = str s := by
  constructor
  · intro h
    cases v with
    | scalar a => rwa [cleanAt_scalar] at h
    | list r items =>
        rw [cleanAt, applyRules_list, applyDefault] at h
        split at h <;> cases h
    | dict r entries =>
        rw [cleanAt, applyRules_dict, applyDefault] at h
        split at h <;> cases h
  · rintro rfl
    exact cleanAt_scalar E maxDepth rules extraFields pos _

/-- A string under a key that no rule masks is the sentinel or has been scanned. -/
theorem cleanEntry_str
    (hscan : ∀ t r, E.redactIfSecret t = some r → E.redactIfSecret r = none)
    (hstars : E.redactIfSecret "***" = none) (hdepth : atLeast pos.length maxDepth = false)
    (hhit : anyHit maxDepth rules pos key = false)
    (h : cleanEntry E maxDepth rules extraFields pos key c = some (str s)) :
    E.redactIfSecret s = none := by
  cases hb : blocked E extraFields key with
  | true =>
      have hrule : pathHasRule rules (pos ++ [.key key]) = false := by
        simpa [anyHit_eq, hdepth] using hhit
      rw [cleanEntry_of_blocked hhit hb, hrule, Bool.or_false, Option.some.injEq] at h
      split at h
      next hne =>
        rw [applyRules_eq_str] at h
        subst h
        rw [applyRules_scalar] at hne
        simp [strictNe, Scalar.strictEq] at hne
      next =>
        simp only [redacted, Tree.scalar.injEq, Scalar.str.injEq] at h
        rwa [← h]
  | false =>
      rw [cleanEntry, rulesEntry_of_not_anyHit hhit, Option.map_some, Option.some.injEq,
        defaultEntry, hb, if_neg Bool.false_ne_true] at h
      cases hr : redactIfSecret E (applyRules E maxDepth (pos ++ [.key key]) 0 rules c) with
      | some r =>
          rw [hr] at h
          simp only [Tree.scalar.injEq, Scalar.str.injEq] at h
          rw [← h]
          cases hv : applyRules E maxDepth (pos ++ [.key key]) 0 rules c with
          | scalar a =>
              rw [hv] at hr
              cases a with
              | str t => exact hscan t r hr
              | _ => cases hr
          | list r items => rw [hv] at hr; cases hr
          | dict r entries => rw [hv] at hr; cases hr
      | none =>
          rw [hr] at h
          have hc : c = str s := cleanAt_eq_str.mp h
          rw [hc, applyRules_scalar] at hr
          exact hr

/-- An entry that holds a scalar holds one afterwards. -/
theorem cleanEntry_scalar (hhit : anyHit maxDepth rules pos key = false) (a : Scalar) :
    ∃ b, cleanEntry E maxDepth rules extraFields pos key (.scalar a) = some (.scalar b) := by
  cases hb : blocked E extraFields key with
  | true =>
      rw [cleanEntry_of_blocked hhit hb, applyRules_scalar]
      split
      · exact ⟨_, rfl⟩
      · exact ⟨_, rfl⟩
  | false =>
      rw [cleanEntry, rulesEntry_of_not_anyHit hhit, applyRules_scalar, Option.map_some,
        defaultEntry, hb, if_neg Bool.false_ne_true]
      split
      · exact ⟨_, rfl⟩
      · exact ⟨_, rfl⟩

/-- What the passes leave below an entry. -/
theorem bind_get?_cleanEntry (hcallers : Callers c) (hp : p ≠ [])
    (hdepth : atLeast (pos.length + 1) maxDepth = false) :
    ((cleanEntry E maxDepth rules extraFields pos key c).bind fun w => w.get? p) =
      if anyHit maxDepth rules pos key then none
      else if blocked E extraFields key then
        if rules.isEmpty then none
        else (applyRules E maxDepth (pos ++ [.key key]) 0 rules c).get? p
      else (cleanAt E maxDepth rules extraFields (pos ++ [.key key]) c).get? p := by
  have hpos : atLeast pos.length maxDepth = false := not_atLeast_mono hdepth (Nat.le_succ _)
  have hdepth' : atLeast (pos ++ [Step.key key]).length maxDepth = false := by simpa using hdepth
  cases hhit : anyHit maxDepth rules pos key with
  | true =>
      rw [if_pos rfl]
      exact Tree.bind_get?_eq_none (cleanEntry_of_anyHit hhit c) hp
  | false =>
      rw [if_neg Bool.false_ne_true]
      rcases List.exists_cons_of_ne_nil hp with ⟨first, p, rfl⟩
      cases hcont : c.isContainer with
      | false =>
          rcases Tree.exists_scalar_of_not_isContainer hcont with ⟨a, rfl⟩
          have hscalar : ∃ b, cleanEntry E maxDepth rules extraFields pos key (.scalar a) =
              some (.scalar b) := cleanEntry_scalar hhit a
          rcases hscalar with ⟨b, hentry⟩
          rw [hentry, Option.bind_some, Tree.get?_scalar_cons, applyRules_scalar, cleanAt_scalar,
            Tree.get?_scalar_cons]
          split
          · split <;> rfl
          · rfl
      | true =>
          cases hb : blocked E extraFields key with
          | true =>
              have hrule : pathHasRule rules (pos ++ [.key key]) = false := by
                simpa [anyHit_eq, hpos] using hhit
              rw [cleanEntry_of_blocked hhit hb, strictNe_applyRules hcallers hcont, hrule,
                hdepth', Bool.or_false, Option.bind_some, if_pos rfl]
              cases hrules : rules.isEmpty with
              | true => exact Tree.get?_scalar_cons _ first p
              | false => rfl
          | false =>
              rw [cleanEntry_of_not_blocked hhit hb hcont, Option.bind_some,
                if_neg Bool.false_ne_true]

variable (E maxDepth rules extraFields)

/-- The two passes come to the string without scanning it: no rule masks an entry on the way,
and it is an array's, or the rules have rebuilt something under a blocked key around it. -/
def Unscanned (pos q : List (Step String)) (step : Step String) (s : String) (v : Value) : Prop :=
  v.get? (q ++ [step]) = some (str s) ∧ enclosingHit maxDepth rules pos (q ++ [step]) = false ∧
    (enclosingBlocked E extraFields q = true → rules ≠ []) ∧
    (enclosingBlocked E extraFields q = false → ∃ i, step = .index i)

variable {E maxDepth rules extraFields}

theorem unscanned_key {k : String} (hc : v.child? (.key k) = some c)
    (hhit : anyHit maxDepth rules pos k = false) (hb : blocked E extraFields k = false) :
    Unscanned E maxDepth rules extraFields pos (.key k :: q) step s v ↔
      Unscanned E maxDepth rules extraFields (pos ++ [.key k]) q step s c := by
  simp [Unscanned, Tree.get?_cons, hc, enclosingHit, hhit, enclosingBlocked, hb]

theorem unscanned_index {i : ℕ} (hc : v.child? (.index i) = some c) :
    Unscanned E maxDepth rules extraFields pos (.index i :: q) step s v ↔
      Unscanned E maxDepth rules extraFields (pos ++ [.index i]) q step s c := by
  simp [Unscanned, Tree.get?_cons, hc, enclosingHit, enclosingBlocked]

/-- A string that the passes leave, and that no rule made, has been scanned or is one that they
do not scan. -/
theorem get?_cleanAt_str
    (hscan : ∀ t r, E.redactIfSecret t = some r → E.redactIfSecret r = none)
    (hstars : E.redactIfSecret "***" = none) (hkeys : v.NodupKeys) (hcallers : Callers v)
    (hdepth : atLeast (pos.length + q.length) maxDepth = false)
    (hlast : ∀ k, step = .key k → anyHit maxDepth rules (pos ++ q) k = false)
    (h : (cleanAt E maxDepth rules extraFields pos v).get? (q ++ [step]) = some (str s)) :
    E.redactIfSecret s = none ∨ Unscanned E maxDepth rules extraFields pos q step s v := by
  have hpos : atLeast pos.length maxDepth = false :=
    not_atLeast_mono hdepth (Nat.le_add_right _ _)
  induction q generalizing v pos with
  | nil =>
      rw [List.nil_append, Tree.get?_singleton] at h
      cases step with
      | key k =>
          left
          rw [child?_cleanAt_key hpos hkeys] at h
          rcases Option.bind_eq_some_iff.mp h with ⟨c, -, hentry⟩
          exact cleanEntry_str hscan hstars hpos (by simpa using hlast k rfl) hentry
      | index i =>
          right
          rw [child?_cleanAt_index hpos] at h
          rcases Option.map_eq_some_iff.mp h with ⟨c, hc, hclean⟩
          rw [cleanAt_eq_str] at hclean
          subst hclean
          simp [Unscanned, Tree.get?_singleton, hc, enclosingHit, enclosingBlocked]
  | cons first q ih =>
      obtain ⟨hrest, hnext⟩ := not_atLeast_cons hdepth
      have hnextpos : atLeast (pos ++ [first]).length maxDepth = false := by simpa using hnext
      have hlast' : ∀ k, step = .key k → anyHit maxDepth rules (pos ++ [first] ++ q) k = false := by
        simpa using hlast
      rw [List.cons_append, Tree.get?_cons] at h
      cases first with
      | key k =>
          rw [child?_cleanAt_key hpos hkeys] at h
          cases hc : v.child? (.key k) with
          | none => simp [hc] at h
          | some c =>
              rw [hc, Option.bind_some, bind_get?_cleanEntry (hcallers.child hc) (by simp) hnext]
                at h
              cases hhit : anyHit maxDepth rules pos k with
              | true => simp [hhit] at h
              | false =>
                  cases hb : blocked E extraFields k with
                  | false =>
                      rw [hhit, hb, if_neg Bool.false_ne_true, if_neg Bool.false_ne_true] at h
                      rw [unscanned_key hc hhit hb]
                      exact ih (hkeys.child hc) (hcallers.child hc) hrest hlast' h hnextpos
                  | true =>
                      -- the rules' result is kept, and nothing in it is scanned
                      right
                      rw [hhit, hb, if_neg Bool.false_ne_true, if_pos rfl] at h
                      cases hrules : rules.isEmpty with
                      | true => simp [hrules] at h
                      | false =>
                          rw [hrules, if_neg Bool.false_ne_true] at h
                          have hway : enclosingHit maxDepth rules (pos ++ [.key k]) (q ++ [step]) =
                              false := by
                            rw [enclosingHit_append, Bool.or_eq_false_iff]
                            constructor
                            · by_contra hencl
                              rw [Bool.not_eq_false] at hencl
                              rw [get?_applyRules_of_enclosingHit (hkeys.child hc) hencl] at h
                              cases h
                            · cases step with
                              | key j => simpa [enclosingHit] using hlast' j rfl
                              | index i => rfl
                          rw [get?_applyRules_str (hkeys.child hc) hway] at h
                          refine ⟨?_, ?_, ?_, ?_⟩
                          · rw [List.cons_append, Tree.get?_cons, hc]
                            exact h
                          · rw [List.cons_append, enclosingHit, hhit, hway]
                            rfl
                          · intro _ hnil
                            rw [hnil] at hrules
                            cases hrules
                          · intro hnone
                            simp [enclosingBlocked, hb] at hnone
      | index i =>
          rw [child?_cleanAt_index hpos] at h
          cases hc : v.child? (.index i) with
          | none => simp [hc] at h
          | some c =>
              rw [hc, Option.map_some, Option.bind_some] at h
              rw [unscanned_index hc]
              exact ih (hkeys.child hc) (hcallers.child hc) hrest hlast' h hnextpos

/-- A string that the passes do not scan comes out as it is. -/
theorem get?_cleanAt_of_unscanned (hkeys : v.NodupKeys) (hcallers : Callers v)
    (hdepth : atLeast (pos.length + q.length) maxDepth = false)
    (h : Unscanned E maxDepth rules extraFields pos q step s v) :
    (cleanAt E maxDepth rules extraFields pos v).get? (q ++ [step]) = some (str s) := by
  have hpos : atLeast pos.length maxDepth = false :=
    not_atLeast_mono hdepth (Nat.le_add_right _ _)
  induction q generalizing v pos with
  | nil =>
      rcases h with ⟨hget, -, -, hindex⟩
      rcases hindex rfl with ⟨i, rfl⟩
      rw [List.nil_append, Tree.get?_singleton] at hget ⊢
      rw [child?_cleanAt_index hpos, hget, Option.map_some, cleanAt_scalar]
  | cons first q ih =>
      obtain ⟨hrest, hnext⟩ := not_atLeast_cons hdepth
      have hnextpos : atLeast (pos ++ [first]).length maxDepth = false := by simpa using hnext
      rcases Tree.get?_cons_eq_some.mp h.1 with ⟨c, hc, hget⟩
      rw [List.cons_append, Tree.get?_cons]
      cases first with
      | key k =>
          have hway := h.2.1
          rw [List.cons_append, enclosingHit, Bool.or_eq_false_iff] at hway
          rw [child?_cleanAt_key hpos hkeys, hc, Option.bind_some,
            bind_get?_cleanEntry (hcallers.child hc) (by simp) hnext, hway.1,
            if_neg Bool.false_ne_true]
          cases hb : blocked E extraFields k with
          | false =>
              rw [if_neg Bool.false_ne_true]
              exact ih (hkeys.child hc) (hcallers.child hc) hrest
                ((unscanned_key hc hway.1 hb).mp h) hnextpos
          | true =>
              have hrules : rules ≠ [] := h.2.2.1 (by simp [enclosingBlocked, hb])
              rw [if_pos rfl, if_neg (by simpa using hrules)]
              exact (get?_applyRules_str (hkeys.child hc) hway.2).mpr hget
      | index i =>
          rw [child?_cleanAt_index hpos, hc, Option.map_some, Option.bind_some]
          exact ih (hkeys.child hc) (hcallers.child hc) hrest ((unscanned_index hc).mp h) hnextpos

end

/-! ## What classification leaves -/

section

variable (E : Env) (hooks : Hooks)

/-- The action of a key's class. -/
def classAction (key : String) : Option String := (hooks.classHook key).map hooks.policyHook

/-- The class of a key drops or masks its value. -/
def blanks (key : String) : Bool :=
  (classAction hooks key).any fun action => action == "drop" || masks action

/-- The label that the class of a key puts under its tag. -/
def classLabel (key : String) : Option String :=
  if classAction hooks key = some "drop" then none else hooks.classHook key

/-- What the class of a key leaves of its value. -/
def classified (key : String) (current : Option Value) : Option Value :=
  match classAction hooks key with
  | none => current
  | some action =>
      if action = "drop" then none
      else current.map fun val =>
        if masks action && strictNe val redacted then maskAction E action val else val

theorem classTag_ne (key : String) : classTag key ≠ key := by
  intro h
  have hlen := congrArg String.length h
  simp only [classTag, String.length_append] at hlen
  have hclass : "__class".length = 7 := by decide
  omega

/-- A round of the loop labels its key. -/
theorem labels_classifyField :
    Labels (classifyField E hooks) classTag (classified E hooks)
      fun key => (classLabel hooks key).map str where
  tag_ne := classTag_ne
  lookup := by
    intro entries j k
    rw [classifyField, classified, classLabel, classAction]
    cases hclass : hooks.classHook j with
    | none =>
        by_cases hk : k = j
        · simp [hk]
        · simp [hk]
    | some label =>
        simp only [Option.map_some, Option.some.injEq]
        by_cases hdrop : hooks.policyHook label = "drop"
        · rw [if_pos hdrop, if_pos hdrop, lookup_delItem]
          by_cases hk : k = j
          · simp [hk]
          · simp [hk, hdrop]
        · have hown : (setItem (classTag j) (str label) entries).lookup j = entries.lookup j := by
            rw [lookup_setItem, if_neg (classTag_ne j).symm]
          rw [if_neg hdrop, if_neg hdrop, if_neg hdrop, hown]
          by_cases hk : k = j
          · subst hk
            cases hcur : entries.lookup k with
            | none => simp [hown, hcur]
            | some val =>
                simp only [Option.map_some]
                split
                · simp [lookup_setItem]
                · simp [hown, hcur]
          · cases hcur : entries.lookup j with
            | none => simp [hk, lookup_setItem]
            | some val =>
                simp only
                split
                · simp [hk, lookup_setItem]
                · simp [lookup_setItem]

variable {E hooks} {key : String} {current : Option Value}

/-- A class that does not blank a value leaves it. -/
theorem classified_of_not_blanks (h : blanks hooks key = false) :
    classified E hooks key current = current := by
  rw [classified]
  rw [blanks] at h
  cases haction : classAction hooks key with
  | none => rfl
  | some action =>
      simp only [haction, Option.any_some, Bool.or_eq_false_iff, beq_eq_false_iff_ne] at h
      simp [h.1, h.2]

theorem exists_maskAction (action : String) (val : Value) :
    ∃ s, maskAction E action val = str s ∧ s.length < 20 := by
  rw [maskAction]
  by_cases hredact : action = "redact"
  · exact ⟨"***", by rw [if_pos hredact]; rfl, by decide⟩
  · rw [if_neg hredact]
    by_cases hhash : action = "hash"
    · refine ⟨hashAny E val, by rw [if_pos hhash], ?_⟩
      have hlen : ∀ input, (shortHash12 E input).length < 20 := by
        intro input
        rw [length_shortHash12]
        decide
      unfold hashAny
      split
      · exact hlen _
      · exact hlen _
    · refine ⟨truncate (stringOf E val) defaultTruncateTo, by rw [if_neg hhash], ?_⟩
      have hlimit : ⌊max 0 (8 : ℚ)⌋.toNat = 8 := by
        norm_num
        rfl
      rw [defaultTruncateTo, truncate, hlimit, truncateAt]
      split
      · omega
      · have hsuffix : truncationSuffix.length = 3 := by decide
        rw [String.length_append, String.length_ofList, List.length_take, hsuffix]
        omega

/-- What a class leaves of a value is the value or a short string. -/
theorem classified_cases {w : Value} (h : classified E hooks key current = some w) :
    current = some w ∨ ∃ s, w = str s ∧ s.length < 20 := by
  rw [classified] at h
  cases haction : classAction hooks key with
  | none =>
      rw [haction] at h
      exact .inl h
  | some action =>
      rw [haction] at h
      simp only at h
      split at h
      · cases h
      · rcases Option.map_eq_some_iff.mp h with ⟨val, hval, hmask⟩
        split at hmask
        · right
          rcases exists_maskAction (E := E) action val with ⟨s, hs, hlen⟩
          exact ⟨s, by rw [← hmask, hs], hlen⟩
        · left
          rw [hval, hmask]

/-- A class that blanks values leaves no object or array. -/
theorem isContainer_classified_of_blanks (h : blanks hooks key = true) {w : Value}
    (hw : classified E hooks key current = some w) : w.isContainer = false := by
  rw [blanks] at h
  rw [classified] at hw
  cases haction : classAction hooks key with
  | none => simp [haction] at h
  | some action =>
      simp only [haction, Option.any_some, Bool.or_eq_true, beq_iff_eq] at h
      simp only [haction] at hw
      by_cases hdrop : action = "drop"
      · simp [hdrop] at hw
      · rw [if_neg hdrop, h.resolve_left hdrop] at hw
        simp only [Bool.true_and] at hw
        rcases Option.map_eq_some_iff.mp hw with ⟨val, -, hmask⟩
        rcases exists_maskAction (E := E) action val with ⟨s, hs, -⟩
        split at hmask
        next =>
          rw [← hmask, hs]
          rfl
        next hne =>
          subst hmask
          cases val with
          | scalar a => rfl
          | list r items => simp [strictNe, redacted] at hne
          | dict r entries => simp [strictNe, redacted] at hne

end

/-! ## The sanitizer -/

section

variable (E : Env) (hooks : Hooks) (rules : List PIIRule) (extraFields : List String)
  (maxDepth : Number) (payload : Payload)

/-- What `sanitizePayload` makes of the payload. -/
def sanitized : Value := sanitizeClassified (scanning E) hooks rules extraFields maxDepth payload

/-- No string of the output above the depth limit that neither a rule nor the class of a key
made has a match of a built-in pattern that is not shaped like a path. -/
def StringsScanned : Prop :=
  ∀ (q : List (Step String)) (step : Step String) (s : String),
    atLeast q.length maxDepth = false →
    (sanitized E hooks rules extraFields maxDepth payload).get? (q ++ [step]) = some (str s) →
    (∀ k, step = .key k → anyHit maxDepth rules q k = false) →
    (∀ j, q ++ [step] = [.key (classTag j)] → hooks.classHook j ≠ some s) →
    secretMatches looksLikePath s.toList = []

/-- A rule drops the property under a key of the payload, and none is inherited in its place. -/
def dropped (key : String) : Bool :=
  (rules.any fun rule => hit maxDepth rule [] key && rule.mode == .drop) &&
    !objectPrototype.contains key

/-- Classification leaves the value of a key of the payload alone: the key's own class does not
blank it, and no other key's label goes in its place. -/
def keepsValue (key : String) : Prop :=
  blanks hooks key = false ∧
    ∀ j, (payload.obj.lookup j).isSome = true → dropped rules maxDepth j = false →
      classTag j = key → classLabel hooks j = none

/-- A string with a secret above the depth limit that the passes do not scan, under a key whose
value reaches the output. -/
def UnscannedSecret : Prop :=
  ∃ k q step s, atLeast (Step.key k :: q).length maxDepth = false ∧
    Unscanned E maxDepth rules extraFields [] (.key k :: q) step s payload.value ∧
    keepsValue hooks rules maxDepth payload k ∧ secretMatches looksLikePath s.toList ≠ []

variable {E hooks rules extraFields maxDepth payload} {k : String}

theorem rulesEntry_eq_none_iff {pos : List (Step String)} {key : String} {pass : ℕ} {v : Value} :
    rulesEntry E maxDepth pos key pass rules v = none ↔
      (rules.any fun rule => hit maxDepth rule pos key && rule.mode == .drop) = true := by
  induction rules generalizing pass v with
  | nil => simp [rulesEntry]
  | cons rule rules ih =>
      rw [rulesEntry, ruleEntry, List.any_cons]
      cases hhit : hit maxDepth rule pos key with
      | false => simp [ih]
      | true =>
          cases hmode : rule.mode with
          | drop => simp [applyMode, hmode]
          | redact => simp [applyMode, hmode, ih]
          | hash => simp [applyMode, hmode, ih]
          | truncate => simp [applyMode, hmode, ih]

/-- A key the caller's object does not have is not added. -/
theorem lookup_update_of_none {obj c : Entries} (hobj : obj.lookup k = none)
    (hc : c.lookup k = none) : (update obj c).lookup k = none := by
  rw [update, List.lookup_append, Option.or_eq_none_iff]
  constructor
  · rw [List.lookup_eq_none_iff] at hobj ⊢
    intro e he
    rcases List.mem_filterMap.mp he with ⟨e', he', heq⟩
    rcases Option.map_eq_some_iff.mp heq with ⟨v, -, rfl⟩
    exact hobj e' he'
  · rw [List.lookup_eq_none_iff] at hc ⊢
    intro e he
    exact hc e (List.mem_of_mem_filter he)

variable (E rules extraFields) in
/-- What the passes leave under a key of the payload itself. -/
theorem child?_cleanAt_root (h : atLeast 0 maxDepth = false) {v : Value} (hkeys : v.NodupKeys)
    (key : String) :
    (cleanAt E maxDepth rules extraFields [] v).child? (.key key) =
      (v.child? (.key key)).bind (cleanEntry E maxDepth rules extraFields [] key) := by
  have hroot : atLeast ([] : List (Step String)).length maxDepth = false := h
  exact child?_cleanAt_key hroot hkeys key

/-- Before classification, a key of the payload holds what the passes leave of its value, or
what is inherited under its name. -/
theorem child?_sanitizePayload (hdepth : atLeast 0 maxDepth = false) (k : String) :
    (sanitizePayload E rules extraFields maxDepth payload).child? (.key k) =
      (payload.value.child? (.key k)).bind fun v =>
        (cleanEntry E maxDepth rules extraFields [] k v).or
          (if objectPrototype.contains k then some (.scalar (.inherited k)) else none) := by
  rcases exists_sanitizePayload E maxDepth rules extraFields payload with ⟨r, c, hclean, hout⟩
  have hchild := child?_cleanAt_root E rules extraFields hdepth (nodupKeys_value payload) k
  rw [hclean, Tree.child?_dict] at hchild
  rw [hout, Tree.child?_dict]
  cases hv : payload.value.child? (.key k) with
  | none =>
      rw [hv, Option.bind_none] at hchild
      rw [Option.bind_none]
      exact lookup_update_of_none hv hchild
  | some v =>
      rw [hv, Option.bind_some] at hchild
      rw [lookup_update (nodupKeys_value payload).keys hv, property, hchild, Option.bind_some]
      cases cleanEntry E maxDepth rules extraFields [] k v <;> rfl

/-- What the object holds when the loop over its keys starts. -/
def fields (E : Env) (rules : List PIIRule) (extraFields : List String) (maxDepth : Number)
    (payload : Payload) : Entries :=
  match sanitizePayload E rules extraFields maxDepth payload with
  | .dict _ obj => obj
  | _ => []

theorem child?_eq_lookup_fields (k : String) :
    (sanitizePayload E rules extraFields maxDepth payload).child? (.key k) =
      (fields E rules extraFields maxDepth payload).lookup k := by
  rcases exists_sanitizePayload E maxDepth rules extraFields payload with ⟨r, c, -, hout⟩
  rw [fields, hout, Tree.child?_dict]

variable (E hooks rules extraFields maxDepth payload) in
theorem exists_sanitized :
    ∃ r, sanitized E hooks rules extraFields maxDepth payload =
      .dict r (classifyFields (scanning E) hooks
        (fields (scanning E) rules extraFields maxDepth payload)) := by
  rcases exists_sanitizePayload (scanning E) maxDepth rules extraFields payload with ⟨r, c, -, hout⟩
  refine ⟨.caller payload.ref, ?_⟩
  rw [sanitized, sanitizeClassified, fields, hout]

/-- A key is still there when the loop starts unless a rule drops it. -/
theorem mem_keys_fields (hdepth : atLeast 0 maxDepth = false) :
    k ∈ (fields E rules extraFields maxDepth payload).map Prod.fst ↔
      (payload.obj.lookup k).isSome = true ∧ dropped rules maxDepth k = false := by
  have hmem : k ∈ (fields E rules extraFields maxDepth payload).map Prod.fst ↔
      ((fields E rules extraFields maxDepth payload).lookup k).isSome = true := by
    rw [List.lookup_isSome_iff]
    simp
  have hchild : payload.value.child? (.key k) = payload.obj.lookup k := rfl
  rw [hmem, ← child?_eq_lookup_fields, child?_sanitizePayload hdepth, hchild]
  cases payload.obj.lookup k with
  | none => simp
  | some v =>
      have hnone : cleanEntry E maxDepth rules extraFields [] k v = none ↔
          (rules.any fun rule => hit maxDepth rule [] k && rule.mode == .drop) = true := by
        rw [cleanEntry, Option.map_eq_none_iff, rulesEntry_eq_none_iff]
      rw [Option.bind_some, dropped]
      cases hc : cleanEntry E maxDepth rules extraFields [] k v with
      | none =>
          rw [hnone.mp hc]
          cases objectPrototype.contains k <;> simp
      | some w =>
          have hany : (rules.any fun rule => hit maxDepth rule [] k && rule.mode == .drop) =
              false := by
            rw [Bool.eq_false_iff]
            intro htrue
            rw [hnone.mpr htrue] at hc
            cases hc
          simp [hany]

/-- Objects and arrays in the output are what the passes left. -/
theorem lookup_fields_of_container (hdepth : atLeast 0 maxDepth = false) {c : Value}
    (h : (sanitized E hooks rules extraFields maxDepth payload).child? (.key k) = some c)
    (hcont : c.isContainer = true) :
    (fields (scanning E) rules extraFields maxDepth payload).lookup k = some c ∧
      keepsValue hooks rules maxDepth payload k := by
  rcases exists_sanitized E hooks rules extraFields maxDepth payload with ⟨r, hout⟩
  rw [hout, Tree.child?_dict] at h
  -- no round puts an object or an array in, and none comes back once it is blanked
  have hkept : ∀ (key : String) (o : Option Value) (w : Value),
      classified (scanning E) hooks key o = some w → w.isContainer = true → o = some w := by
    intro key o w hw hwcont
    rcases classified_cases hw with hsame | ⟨s, rfl, -⟩
    · exact hsame
    · cases hwcont
  have hlabel : ∀ j (b : Value), (classLabel hooks j).map str = some b →
      ¬ b.isContainer = true := by
    intro j b hb hc
    rcases Option.map_eq_some_iff.mp hb with ⟨label, -, rfl⟩
    cases hc
  rcases (labels_classifyField (scanning E) hooks).lookup_of_foldl hkept hlabel h hcont with
    ⟨hfields, hreach⟩
  constructor
  · exact hfields
  · by_contra hnot
    apply hreach
    simp only [keepsValue, not_and_or, Bool.not_eq_false, not_forall] at hnot
    rcases hnot with hblanks | ⟨j, hj, hdrop, htag, hlabelled⟩
    · left
      constructor
      · exact List.mem_map_of_mem (f := Prod.fst) (Tree.mem_of_lookup hfields)
      · intro o c hc
        simpa using isContainer_classified_of_blanks hblanks hc
    · right
      refine ⟨j, (mem_keys_fields hdepth).mpr ⟨hj, hdrop⟩, htag, ?_⟩
      intro hnone
      rw [Option.map_eq_none_iff] at hnone
      exact hlabelled hnone

/-- A value that classification leaves alone is in the output as the passes left it. -/
theorem child?_sanitized_of_keepsValue (hdepth : atLeast 0 maxDepth = false)
    (h : keepsValue hooks rules maxDepth payload k) :
    (sanitized E hooks rules extraFields maxDepth payload).child? (.key k) =
      (fields (scanning E) rules extraFields maxDepth payload).lookup k := by
  rcases exists_sanitized E hooks rules extraFields maxDepth payload with ⟨r, hout⟩
  rw [hout, Tree.child?_dict]
  apply (labels_classifyField (scanning E) hooks).foldl_kept
  · intro _ o
    exact classified_of_not_blanks h.1
  · intro j hj htag
    rcases (mem_keys_fields hdepth).mp hj with ⟨hsome, hdrop⟩
    rw [h.2 j hsome hdrop htag, Option.map_none]

/-- A string under a key of the output is what the passes left, too short for a secret, or a
label. -/
theorem str_of_sanitized {s : String}
    (h : (sanitized E hooks rules extraFields maxDepth payload).child? (.key k) = some (str s)) :
    (fields (scanning E) rules extraFields maxDepth payload).lookup k = some (str s) ∨
      s.length < 20 ∨ ∃ j, k = classTag j ∧ hooks.classHook j = some s := by
  rcases exists_sanitized E hooks rules extraFields maxDepth payload with ⟨r, hout⟩
  rw [hout, Tree.child?_dict] at h
  refine (labels_classifyField (scanning E) hooks).foldl_preserved (P := fun k o => ∀ s,
    o = some (str s) →
      (fields (scanning E) rules extraFields maxDepth payload).lookup k = some (str s) ∨
      s.length < 20 ∨ ∃ j, k = classTag j ∧ hooks.classHook j = some s) ?_ ?_
    (fun s hs => .inl hs) _ s h
  · intro k o ho s hs
    rcases classified_cases hs with hsame | ⟨t, ht, hlen⟩
    · exact ho s hsame
    · simp only [Tree.scalar.injEq, Scalar.str.injEq] at ht
      rw [ht]
      exact .inr (.inl hlen)
  · intro j b hb s hs
    rcases Option.map_eq_some_iff.mp hb with ⟨label, hlabel, rfl⟩
    simp only [Option.some.injEq, Tree.scalar.injEq, Scalar.str.injEq] at hs
    subst hs
    rw [classLabel] at hlabel
    split at hlabel
    · cases hlabel
    · exact .inr (.inr ⟨j, rfl, hlabel⟩)

/-- What the output had before classification, below a key or at a string under it, is what the
passes leave of the payload. -/
theorem get?_cleanAt_of_fields (hdepth : atLeast 0 maxDepth = false) {p : List (Step String)}
    {w : Value} {s : String} (h : (fields E rules extraFields maxDepth payload).lookup k = some w)
    (hp : w.get? p = some (str s)) :
    (cleanAt E maxDepth rules extraFields [] payload.value).get? (.key k :: p) = some (str s) := by
  rw [← child?_eq_lookup_fields, child?_sanitizePayload hdepth] at h
  rcases Option.bind_eq_some_iff.mp h with ⟨v, hv, hentry⟩
  have hchild := child?_cleanAt_root E rules extraFields hdepth (nodupKeys_value payload) k
  rw [Tree.get?_cons, hchild, hv, Option.bind_some]
  cases hc : cleanEntry E maxDepth rules extraFields [] k v with
  | some w' =>
      rw [hc, Option.some_or, Option.some.injEq] at hentry
      rw [Option.bind_some, hentry]
      exact hp
  | none =>
      -- what is inherited is no string and has none below it
      rw [hc, Option.none_or] at hentry
      split at hentry
      · cases hentry
        cases p with
        | nil => cases hp
        | cons first p => rw [Tree.get?_scalar_cons] at hp; cases hp
      · cases hentry

/-- An unscanned string is in the output before classification. -/
theorem get?_fields_of_unscanned {q : List (Step String)} {step : Step String} {s : String}
    (hdepth : atLeast (Step.key k :: q).length maxDepth = false)
    (h : Unscanned E maxDepth rules extraFields [] (.key k :: q) step s payload.value) :
    ((fields E rules extraFields maxDepth payload).lookup k).bind
      (fun c => c.get? (q ++ [step])) = some (str s) := by
  have hzero : atLeast 0 maxDepth = false := not_atLeast_mono hdepth (Nat.zero_le _)
  have hclean := get?_cleanAt_of_unscanned (nodupKeys_value payload) (callers_value payload)
    (by simpa using hdepth) h
  have hchild := child?_cleanAt_root E rules extraFields hzero (nodupKeys_value payload) k
  rw [List.cons_append, Tree.get?_cons, hchild] at hclean
  rcases Option.bind_eq_some_iff.mp hclean with ⟨c, hc, hbelow⟩
  rcases Option.bind_eq_some_iff.mp hc with ⟨v, hv, hentry⟩
  rw [← child?_eq_lookup_fields, child?_sanitizePayload hzero, hv, Option.bind_some, hentry,
    Option.some_or, Option.bind_some]
  exact hbelow

/-- **Which strings escape the scan**: every string above the depth limit that no rule made is
clean if and only if no string that the passes leave unscanned, and that reaches the output,
holds a secret there. -/
theorem stringsScanned_iff (E : Env) (hooks : Hooks) (rules : List PIIRule)
    (extraFields : List String) (maxDepth : Number) (payload : Payload) :
    StringsScanned E hooks rules extraFields maxDepth payload ↔
      ¬ UnscannedSecret E hooks rules extraFields maxDepth payload := by
  have hscan : ∀ t r, (scanning E).redactIfSecret t = some r →
      (scanning E).redactIfSecret r = none := fun t r => scanned_scanIfSecret
  have hstars : (scanning E).redactIfSecret "***" = none := scanIfSecret_stars
  constructor
  · rintro hall ⟨k, q, step, s, hdepth, hun, hkept, hsecret⟩
    have hzero : atLeast 0 maxDepth = false := not_atLeast_mono hdepth (Nat.zero_le _)
    have hbelow := get?_fields_of_unscanned (E := scanning E) hdepth hun
    apply hsecret
    apply hall (.key k :: q) step s hdepth
    · rw [List.cons_append, Tree.get?_cons, child?_sanitized_of_keepsValue hzero hkept]
      exact hbelow
    · rintro j rfl
      have hway := hun.2.1
      rw [enclosingHit_append, Bool.or_eq_false_iff] at hway
      simpa [enclosingHit] using hway.2
    · intro j hj
      simp at hj
  · intro hnone q step s hdepth hget hrule htag
    have hzero : atLeast 0 maxDepth = false := not_atLeast_mono hdepth (Nat.zero_le _)
    have hlast : ∀ k, step = .key k → anyHit maxDepth rules ([] ++ q) k = false := hrule
    have hdepth' : atLeast (([] : List (Step String)).length + q.length) maxDepth = false := by
      simpa using hdepth
    rcases exists_sanitized E hooks rules extraFields maxDepth payload with ⟨r, hout⟩
    cases q with
    | nil =>
        -- a property of the payload itself
        cases step with
        | index i =>
            rw [hout] at hget
            cases hget
        | key k =>
            rw [List.nil_append, Tree.get?_singleton] at hget
            rcases str_of_sanitized hget with hfields | hshort | ⟨j, rfl, hlabel⟩
            · have hclean := get?_cleanAt_of_fields hzero (p := []) hfields rfl
              obtain hclear | ⟨-, -, -, hindex⟩ := get?_cleanAt_str (q := [])
                hscan hstars (nodupKeys_value payload) (callers_value payload) hdepth' hlast hclean
              · exact scanIfSecret_eq_none_iff.mp hclear
              · rcases hindex rfl with ⟨i, hi⟩
                cases hi
            · apply secretMatches_of_short
              rw [String.length_toList]
              exact hshort
            · exact absurd hlabel (htag j rfl)
    | cons first q =>
        rw [List.cons_append, Tree.get?_cons] at hget
        rcases Option.bind_eq_some_iff.mp hget with ⟨c, hc, hbelow⟩
        cases first with
        | index i =>
            rw [hout] at hc
            cases hc
        | key k =>
            obtain ⟨hfields, hkept⟩ := lookup_fields_of_container hzero hc
              (Tree.isContainer_of_ne_nil hbelow (by simp))
            have hclean := get?_cleanAt_of_fields hzero hfields hbelow
            obtain hclear | hun := get?_cleanAt_str (q := .key k :: q)
              hscan hstars (nodupKeys_value payload) (callers_value payload) hdepth' hlast hclean
            · exact scanIfSecret_eq_none_iff.mp hclear
            · by_contra hsecret
              exact hnone ⟨k, q, step, s, hdepth, hun, hkept, hsecret⟩

end

end Telemetry.Pii.TypeScript
