import Telemetry.Lib.Labels
import Telemetry.Pii.RustWalk
import Telemetry.Pii.SecretScans

/-!
# Which strings the Rust walk scans for secrets

`apply_rules` hands an entry's string to the secret scan, and never an array's. So a string
that comes out above the depth limit, and that no rule made, may hold a secret exactly where
it is an element of an array that the walk comes to.

## Main definitions

* `walkedTo` — no entry on the way is masked or cut off at a sensitive key.
* `StringsScanned` — what every string of the output is to satisfy.
* `ArraySecret` — a secret in an array that reaches the output.

## Main results

* `stringsScanned_iff` — every string is clean if and only if there is no such secret.
-/

namespace Telemetry.Pii.Rust

open Telemetry.Lib

variable {α : Type} [Scalars α]

/-- The environment with the scan for the built-in patterns. -/
def scanning (E : Env α) : Env α := { E with redactIfSecret := redactIfSecret }

/-- No entry on the way from a path is matched by a rule or has a sensitive key. -/
def walkedTo (rules : List PIIRule) (path : List String) : List (Step String) → Bool
  | [] => true
  | .key k :: q =>
      (findRule rules (path ++ [k])).isNone && !sensitiveKey k && walkedTo rules (path ++ [k]) q
  | .index _ :: q => walkedTo rules (path ++ [wild]) q

/-! ## Strings in the walk -/

section

variable {E : Env α} {rules : List PIIRule} {path : List String} {maxDepth : ℕ}
  {q : List (Step String)} {s : String}

/-- The walk makes no string of a value by itself. -/
theorem ruled_eq_text {v : Value α} : ruled E rules path maxDepth v = text s ↔ v = text s := by
  constructor
  · intro h
    cases v with
    | scalar a => rwa [ruled_scalar] at h
    | list r items =>
        have hcont : (ruled E rules path maxDepth (.list r items)).isContainer = true :=
          isContainer_ruled _
        rw [h] at hcont
        cases hcont
    | dict r entries =>
        have hcont : (ruled E rules path maxDepth (.dict r entries)).isContainer = true :=
          isContainer_ruled _
        rw [h] at hcont
        cases hcont
  · rintro rfl
    exact ruled_scalar _

theorem maskValue_cases (value : Value α) (mode : PIIMode) (truncateTo : ℕ) :
    maskValue E value mode truncateTo = none ∨
      ∃ t, maskValue E value mode truncateTo = some (text t) := by
  cases mode with
  | drop => exact .inl rfl
  | redact => exact .inr ⟨_, rfl⟩
  | hash => exact .inr ⟨_, rfl⟩
  | truncate => exact .inr ⟨_, rfl⟩

theorem bind_get?_maskValue (value : Value α) (mode : PIIMode) (truncateTo : ℕ)
    {p : List (Step String)} (hp : p ≠ []) :
    ((maskValue E value mode truncateTo).bind fun c => c.get? p) = none := by
  apply Tree.bind_get?_eq_none _ hp
  exact (maskValue_cases value mode truncateTo).imp_right fun ⟨t, ht⟩ => ⟨Scalars.str t, ht⟩

/-- What the walk leaves below an entry that is not a string: nothing where the entry is masked
or its key sensitive, and elsewhere what the walk leaves of it. -/
theorem bind_get?_ruledEntry {key : String} {v : Value α} {p : List (Step String)}
    (hp : p ≠ []) :
    ((ruledEntry E rules path maxDepth key v).bind fun c => c.get? p) =
      if (findRule rules (path ++ [key])).isNone && !sensitiveKey key then
        (ruled E rules (path ++ [key]) maxDepth v).get? p
      else none := by
  rcases List.exists_cons_of_ne_nil hp with ⟨step, p, rfl⟩
  rw [ruledEntry]
  cases findRule rules (path ++ [key]) with
  | some rule => simpa using bind_get?_maskValue v rule.mode rule.truncateTo hp
  | none =>
      rw [replacement]
      cases hsens : sensitiveKey key with
      | true => exact Tree.get?_scalar_cons (Scalars.str redacted) step p
      | false =>
          simp only [Bool.false_eq_true, if_false, Option.isNone_none, Bool.not_false,
            Bool.and_self, if_true]
          cases hscan : (text? v).bind E.redactIfSecret with
          | none => rfl
          | some r =>
              -- below a string there is nothing, whether it is replaced or not
              rcases Option.bind_eq_some_iff.mp hscan with ⟨t, ht, -⟩
              rw [text?_eq_some] at ht
              rw [ht, ruled_eq_text.mpr rfl]
              simp [text, Tree.get?_scalar_cons]

/-- An array's string comes out exactly if it was there and the walk came to the array. -/
theorem get?_ruled_index {v : Value α} {i : ℕ} (hkeys : v.NodupKeys)
    (hdepth : q.length < maxDepth) :
    (ruled E rules path maxDepth v).get? (q ++ [.index i]) = some (text s) ↔
      walkedTo rules path q = true ∧ v.get? (q ++ [.index i]) = some (text s) := by
  induction q generalizing v path maxDepth with
  | nil =>
      rw [List.nil_append, Tree.get?_singleton, Tree.get?_singleton, child?_ruled_index hdepth]
      cases v.child? (.index i) with
      | none => simp
      | some c => simp [walkedTo, ruled_eq_text]
  | cons step q ih =>
      have hpos : 0 < maxDepth := Nat.zero_lt_of_lt hdepth
      have hrest : q.length < maxDepth - 1 := by
        rw [List.length_cons] at hdepth
        omega
      rw [List.cons_append, Tree.get?_cons, Tree.get?_cons]
      cases step with
      | key k =>
          rw [child?_ruled_key hpos hkeys]
          cases hc : v.child? (.key k) with
          | none => simp
          | some c =>
              rw [Option.bind_some, Option.bind_some, bind_get?_ruledEntry (by simp), walkedTo]
              cases hway : (findRule rules (path ++ [k])).isNone && !sensitiveKey k with
              | true => simpa using ih (hkeys.child hc) hrest
              | false => simp
      | index j =>
          rw [child?_ruled_index hpos]
          cases hc : v.child? (.index j) with
          | none => simp
          | some c => simpa [walkedTo] using ih (hkeys.child hc) hrest

/-- An entry's string that no rule made has been scanned. -/
theorem get?_ruled_key {v : Value α} {k : String}
    (hscan : ∀ t r, E.redactIfSecret t = some r → E.redactIfSecret r = none)
    (hstars : E.redactIfSecret redacted = none) (hkeys : v.NodupKeys)
    (hdepth : q.length < maxDepth)
    (hrule : findRule rules (path ++ segments wild q ++ [k]) = none)
    (h : (ruled E rules path maxDepth v).get? (q ++ [.key k]) = some (text s)) :
    E.redactIfSecret s = none := by
  induction q generalizing v path maxDepth with
  | nil =>
      rw [List.nil_append, Tree.get?_singleton, child?_ruled_key hdepth hkeys] at h
      rcases Option.bind_eq_some_iff.mp h with ⟨c, -, hentry⟩
      rw [segments_nil, List.append_nil] at hrule
      rw [ruledEntry, hrule, replacement] at hentry
      cases hsens : sensitiveKey k with
      | true =>
          rw [hsens, if_pos rfl, Option.some.injEq, text_inj] at hentry
          rwa [← hentry]
      | false =>
          rw [hsens, if_neg Bool.false_ne_true] at hentry
          cases hr : (text? c).bind E.redactIfSecret with
          | some r =>
              rcases Option.bind_eq_some_iff.mp hr with ⟨t, -, hred⟩
              rw [hr] at hentry
              simp only [Option.some.injEq, text_inj] at hentry
              rw [← hentry]
              exact hscan t r hred
          | none =>
              rw [hr] at hentry
              simp only [Option.some.injEq, ruled_eq_text] at hentry
              rw [hentry, text?_text, Option.bind_some] at hr
              exact hr
  | cons step q ih =>
      have hpos : 0 < maxDepth := Nat.zero_lt_of_lt hdepth
      have hrest : q.length < maxDepth - 1 := by
        rw [List.length_cons] at hdepth
        omega
      rw [List.cons_append, Tree.get?_cons] at h
      cases step with
      | key j =>
          rw [child?_ruled_key hpos hkeys] at h
          cases hc : v.child? (.key j) with
          | none => simp [hc] at h
          | some c =>
              rw [hc, Option.bind_some, bind_get?_ruledEntry (by simp)] at h
              split at h
              next => exact ih (hkeys.child hc) hrest (by simpa using hrule) h
              next => cases h
      | index j =>
          rw [child?_ruled_index hpos] at h
          cases hc : v.child? (.index j) with
          | none => simp [hc] at h
          | some c =>
              rw [hc] at h
              exact ih (hkeys.child hc) hrest (by simpa using hrule) h

end

/-! ## Classification -/

section

variable (E : Env α)

/-- The key under which the label of a key is put. -/
def classTag (key : String) : String := "__" ++ key ++ "__class"

/-- The action of a key's class. -/
def classAction (key : String) : Option String := (E.classifyKey key).map E.lookupAction

/-- The class of a key drops or masks its value. -/
def blanks (key : String) : Bool :=
  (classAction E key).any fun action => action == "drop" || (actionMode action).isSome

/-- The label that the class of a key puts under its tag. -/
def classLabel (key : String) : Option String :=
  if classAction E key = some "drop" then none else E.classifyKey key

/-- What the class of a key leaves of its value. -/
def classified (key : String) (current : Option (Value α)) : Option (Value α) :=
  match classAction E key with
  | none => current
  | some action =>
      if action = "drop" then none
      else
        match actionMode action, current with
        | some mode, some value =>
            if text? value = some redacted then some value
            else (maskValue E value mode defaultTruncateTo).or (some value)
        | _, _ => current

theorem classTag_ne (key : String) : classTag key ≠ key := by
  intro h
  have hlen := congrArg String.length h
  simp only [classTag, String.length_append] at hlen
  have hclass : "__class".length = 7 := by decide
  omega

/-- A round of the loop labels its key. -/
theorem labels_annotateKey :
    Labels (annotateKey E) classTag (classified E) fun key => (classLabel E key).map text where
  tag_ne := classTag_ne
  lookup := by
    intro entries j k
    rw [annotateKey, classified, classLabel, classAction]
    cases hclass : E.classifyKey j with
    | none =>
        by_cases hk : k = j
        · simp [hk]
        · simp [hk]
    | some label =>
        simp only [Option.map_some, Option.some.injEq, ← classTag.eq_1]
        by_cases hdrop : E.lookupAction label = "drop"
        · rw [if_pos hdrop, if_pos hdrop, lookup_delItem]
          by_cases hk : k = j
          · simp [hk]
          · simp [hk, hdrop]
        · rw [if_neg hdrop, if_neg hdrop, lookup_setItem, if_neg hdrop]
          by_cases htag : k = classTag j
          · have hne : k ≠ j := by
              rw [htag]
              exact classTag_ne j
            simp [htag, classTag_ne j]
          · rw [if_neg htag, if_neg htag]
            cases hmode : actionMode (E.lookupAction label) with
            | none =>
                by_cases hk : k = j
                · simp [hk]
                · simp [hk]
            | some mode =>
                cases hcur : entries.lookup j with
                | none =>
                    by_cases hk : k = j
                    · simp [hk, hcur]
                    · simp [hk]
                | some value =>
                    simp only
                    by_cases hstars : text? value = some redacted
                    · by_cases hk : k = j
                      · simp [hk, hcur, hstars]
                      · simp [hk, hstars]
                    · cases hmask : maskValue E value mode defaultTruncateTo with
                      | none =>
                          by_cases hk : k = j
                          · simp [hk, hcur, hstars]
                          · simp [hk, hstars]
                      | some masked =>
                          by_cases hk : k = j
                          · simp [hk, hstars, lookup_setItem]
                          · simp [hk, hstars, lookup_setItem]

variable {E} {key : String} {current : Option (Value α)}

/-- A class that does not blank a value leaves it. -/
theorem classified_of_not_blanks (h : blanks E key = false) :
    classified E key current = current := by
  rw [classified]
  rw [blanks] at h
  cases haction : classAction E key with
  | none => rfl
  | some action =>
      simp only [haction, Option.any_some, Bool.or_eq_false_iff, beq_eq_false_iff_ne] at h
      rw [Option.isSome_eq_false_iff, Option.isNone_iff_eq_none] at h
      simp only [if_neg h.1, h.2]

/-- What a class leaves of a value is the value or a short text. -/
theorem classified_cases (key : String) (current : Option (Value α)) :
    classified E key current = current ∨ classified E key current = none ∨
      ∃ mode value, classified E key current = maskValue E value mode defaultTruncateTo := by
  rw [classified]
  cases classAction E key with
  | none => exact .inl rfl
  | some action =>
      by_cases hdrop : action = "drop"
      · simp [hdrop]
      · simp only [if_neg hdrop]
        cases actionMode action with
        | none => exact .inl rfl
        | some mode =>
            cases current with
            | none => exact .inl rfl
            | some value =>
                by_cases hstars : text? value = some redacted
                · simp [hstars]
                · simp only [if_neg hstars]
                  cases hmask : maskValue E value mode defaultTruncateTo with
                  | none => exact .inl rfl
                  | some masked => exact .inr (.inr ⟨mode, value, hmask.symm⟩)

/-- A container under a key was there before its class was looked up. -/
theorem eq_some_of_classified {c : Value α} (h : classified E key current = some c)
    (hcont : c.isContainer = true) : current = some c := by
  rcases classified_cases (E := E) key current with hsame | hnone | ⟨mode, value, hmask⟩
  · rw [← hsame, h]
  · rw [hnone] at h
    cases h
  · rcases maskValue_cases (E := E) value mode defaultTruncateTo with hnone | ⟨t, ht⟩
    · rw [hmask, hnone] at h
      cases h
    · rw [hmask, ht, Option.some.injEq] at h
      subst h
      cases hcont

/-- No action masks by dropping. -/
theorem actionMode_ne_drop (action : String) : actionMode action ≠ some .drop := by
  unfold actionMode
  split <;> simp

/-- A class that blanks values leaves no container. -/
theorem isContainer_classified_of_blanks (h : blanks E key = true) {c : Value α}
    (hc : classified E key current = some c) : c.isContainer = false := by
  rw [blanks] at h
  rw [classified] at hc
  cases haction : classAction E key with
  | none => simp [haction] at h
  | some action =>
      simp only [haction, Option.any_some, Bool.or_eq_true, beq_iff_eq] at h
      simp only [haction] at hc
      by_cases hdrop : action = "drop"
      · simp [hdrop] at hc
      · rw [if_neg hdrop] at hc
        rcases Option.isSome_iff_exists.mp (h.resolve_left hdrop) with ⟨mode, hmode⟩
        rw [hmode] at hc
        cases current with
        | none => cases hc
        | some value =>
            simp only at hc
            split at hc
            next hstars =>
              rw [text?_eq_some] at hstars
              rw [Option.some.injEq, hstars] at hc
              rw [← hc]
              rfl
            next =>
              rcases maskValue_cases (E := E) value mode defaultTruncateTo with hnone | ⟨t, ht⟩
              · cases mode with
                | drop => exact absurd hmode (actionMode_ne_drop action)
                | redact => cases hnone
                | hash => cases hnone
                | truncate => cases hnone
              · rw [ht, Option.some_or, Option.some.injEq] at hc
                rw [← hc]
                rfl

/-- A class's mask is too short for a secret. -/
theorem length_maskValue {value : Value α} {mode : PIIMode} {s : String}
    (h : maskValue E value mode defaultTruncateTo = some (text s)) : s.length < 20 := by
  cases mode with
  | drop => cases h
  | redact =>
      rw [maskValue, Option.some.injEq, text_inj] at h
      subst h
      decide
  | hash =>
      rw [maskValue, Option.some.injEq, text_inj] at h
      subst h
      rw [hashValue, String.length_ofList, List.length_take]
      omega
  | truncate =>
      rw [maskValue, Option.some.injEq, text_inj] at h
      subst h
      rw [truncate]
      split
      next hle =>
        rw [defaultTruncateTo] at hle
        omega
      next =>
        have hsuffix : truncSuffix.length = 3 := by decide
        rw [String.length_append, String.length_ofList, List.length_take, hsuffix,
          defaultTruncateTo]
        omega

theorem redactIfSecret_of_short {s : String} (h : s.length < 20) : redactIfSecret s = none := by
  rw [redactIfSecret_eq_none_iff]
  apply secretMatches_of_short
  rw [String.length_toList]
  exact h

end

/-! ## The sanitizer -/

section

variable (E : Env α) (rules : List PIIRule) (maxDepth : ℕ) (payload : Payload α)

/-- The payload as a value. -/
def payloadValue : Value α := .dict () payload.entries

/-- What `sanitize_payload` makes of the payload when it is enabled. -/
def sanitized : Value α := (sanitizePayload (scanning E) rules payload true maxDepth).val

/-- Every string of the output above the depth limit that neither a rule nor the class of a key
made holds no secret. -/
def StringsScanned : Prop :=
  ∀ (q : List (Step String)) (step : Step String) (s : String), q.length < maxDepth →
    (sanitized E rules maxDepth payload).get? (q ++ [step]) = some (text s) →
    (∀ k, step = .key k → findRule rules (segments wild q ++ [k]) = none) →
    (∀ j, q ++ [step] = [.key (classTag j)] → E.classifyKey j ≠ some s) →
    redactIfSecret s = none

/-- A rule drops the entry under a key of the payload. -/
def dropped (key : String) : Bool := (findRule rules [key]).any fun rule => rule.mode == .drop

/-- Classification leaves the value of a key of the payload alone: the key's own class does not
blank it, and no other key's label goes in its place. -/
def keepsValue (key : String) : Prop :=
  blanks E key = false ∧ ∀ j, (payload.entries.lookup j).isSome = true → dropped rules j = false →
    classTag j = key → classLabel E j = none

/-- An array that reaches the output has a string with a secret above the depth limit. -/
def ArraySecret : Prop :=
  ∃ k q i s, (Step.key k :: q).length < maxDepth ∧
    (payloadValue payload).get? (.key k :: (q ++ [.index i])) = some (text s) ∧
    walkedTo rules [] (.key k :: q) = true ∧ keepsValue E rules payload k ∧
    redactIfSecret s ≠ none

/-- What the walk leaves of the payload's entries. -/
def walked : Entries α :=
  Tree.rewriteEntries (ruledEntry (scanning E) rules [] (max maxDepth 1 - 1)) payload.entries

theorem ruled_payload :
    ruled (scanning E) rules [] (max maxDepth 1) (payloadValue payload) =
      .dict () (walked E rules maxDepth payload) :=
  ruled_dict (by omega) () payload.entries

theorem sanitized_eq :
    sanitized E rules maxDepth payload =
      .dict () (((walked E rules maxDepth payload).map Prod.fst).foldl (annotateKey (scanning E))
        (walked E rules maxDepth payload)) := by
  have hruled : (applyRules (scanning E) rules [] [] (max maxDepth 1)
      (.dict () payload.entries)).val = .dict () (walked E rules maxDepth payload) :=
    ruled_payload E rules maxDepth payload
  rw [sanitized, sanitizePayload, if_pos rfl, Logged.val_bind, hruled]
  rfl

theorem lookup_walked (key : String) :
    (walked E rules maxDepth payload).lookup key =
      (payload.entries.lookup key).bind
        (ruledEntry (scanning E) rules [] (max maxDepth 1 - 1) key) :=
  Tree.lookup_filterMap _ payload.nodupKeys.keys key

variable {E rules maxDepth payload} {k : String}

/-- A key is still there after the walk unless a rule drops it. -/
theorem mem_keys_walked :
    k ∈ (walked E rules maxDepth payload).map Prod.fst ↔
      (payload.entries.lookup k).isSome = true ∧ dropped rules k = false := by
  have hmem : k ∈ (walked E rules maxDepth payload).map Prod.fst ↔
      ((walked E rules maxDepth payload).lookup k).isSome = true := by
    rw [List.lookup_isSome_iff]
    simp
  rw [hmem, lookup_walked]
  cases payload.entries.lookup k with
  | none => simp
  | some v =>
      simp only [Option.bind_some, Option.isSome_some, true_and]
      rw [ruledEntry, dropped, List.nil_append]
      cases findRule rules [k] with
      | none => cases replacement (scanning E) k v <;> simp
      | some rule => cases hmode : rule.mode <;> simp [maskValue, hmode]

/-- Containers in the output are the walk's. -/
theorem lookup_walked_of_container {c : Value α}
    (h : (sanitized E rules maxDepth payload).child? (.key k) = some c)
    (hcont : c.isContainer = true) :
    (walked E rules maxDepth payload).lookup k = some c ∧ keepsValue E rules payload k := by
  rw [sanitized_eq, Tree.child?_dict] at h
  -- no round puts a container in, and none comes back once a class or a label has blanked it
  have hlabel : ∀ j (b : Value α), (classLabel (scanning E) j).map text = some b →
      ¬ b.isContainer = true := by
    intro j b hb hc
    rcases Option.map_eq_some_iff.mp hb with ⟨label, -, rfl⟩
    cases hc
  rcases (labels_annotateKey (scanning E)).lookup_of_foldl
    (fun k o b hb => eq_some_of_classified hb) hlabel h hcont with ⟨hwalked, hnot⟩
  constructor
  · exact hwalked
  · by_contra hkept
    apply hnot
    simp only [keepsValue, not_and_or, Bool.not_eq_false, not_forall] at hkept
    rcases hkept with hblanks | ⟨j, hj, hdrop, htag, hlabelled⟩
    · left
      constructor
      · exact List.mem_map_of_mem (f := Prod.fst) (Tree.mem_of_lookup hwalked)
      · intro o c hc
        simpa using isContainer_classified_of_blanks (E := scanning E) hblanks hc
    · right
      refine ⟨j, mem_keys_walked.mpr ⟨hj, hdrop⟩, htag, ?_⟩
      intro hnone
      rw [Option.map_eq_none_iff] at hnone
      exact hlabelled hnone

/-- A container that classification leaves alone is in the output as the walk left it. -/
theorem child?_sanitized_of_keepsValue (h : keepsValue E rules payload k) :
    (sanitized E rules maxDepth payload).child? (.key k) =
      (walked E rules maxDepth payload).lookup k := by
  rw [sanitized_eq, Tree.child?_dict]
  apply (labels_annotateKey (scanning E)).foldl_kept
  · intro _ o
    exact classified_of_not_blanks (E := scanning E) h.1
  · intro j hj htag
    rcases mem_keys_walked.mp hj with ⟨hsome, hdrop⟩
    have hnone : classLabel (scanning E) j = none := h.2 j hsome hdrop htag
    rw [hnone, Option.map_none]

/-- A string under a key of the output is the walk's, too short for a secret, or a label. -/
theorem text_of_sanitized {s : String}
    (h : (sanitized E rules maxDepth payload).child? (.key k) = some (text s)) :
    (walked E rules maxDepth payload).lookup k = some (text s) ∨ s.length < 20 ∨
      ∃ j, k = classTag j ∧ E.classifyKey j = some s := by
  rw [sanitized_eq, Tree.child?_dict] at h
  refine (labels_annotateKey (scanning E)).foldl_preserved (P := fun k o => ∀ s,
    o = some (text s) → (walked E rules maxDepth payload).lookup k = some (text s) ∨
      s.length < 20 ∨ ∃ j, k = classTag j ∧ E.classifyKey j = some s) ?_ ?_
    (fun s hs => .inl hs) _ s h
  · intro k o ho s hs
    rcases classified_cases (E := scanning E) k o with hsame | hnone | ⟨mode, value, hmask⟩
    · exact ho s (by rw [← hsame, hs])
    · rw [hnone] at hs
      cases hs
    · rw [hmask] at hs
      exact .inr (.inl (length_maskValue hs))
  · intro j b hb s hs
    rcases Option.map_eq_some_iff.mp hb with ⟨label, hlabel, rfl⟩
    rw [Option.some.injEq, text_inj] at hs
    subst hs
    rw [classLabel] at hlabel
    split at hlabel
    · cases hlabel
    · exact .inr (.inr ⟨j, rfl, hlabel⟩)

omit [Scalars α] in
theorem nodupKeys_payloadValue : (payloadValue payload).NodupKeys := payload.nodupKeys

omit [Scalars α] in
/-- A map holds nothing under an index. -/
theorem exists_key_of_get?_dict {entries : Entries α} {v : Value α} {p : List (Step String)}
    (h : (Tree.dict () entries : Value α).get? p = some v) (hp : p ≠ []) :
    ∃ k p', p = .key k :: p' := by
  rcases List.exists_cons_of_ne_nil hp with ⟨step, p', rfl⟩
  cases step with
  | key k => exact ⟨k, p', rfl⟩
  | index i => cases h

/-- **Which strings escape the scan**: every string above the depth limit that no rule made is
clean if and only if no array that reaches the output holds a string with a secret there. -/
theorem stringsScanned_iff (E : Env α) (rules : List PIIRule) (maxDepth : ℕ)
    (payload : Payload α) :
    StringsScanned E rules maxDepth payload ↔ ¬ ArraySecret E rules maxDepth payload := by
  have hmap : ∀ q : List (Step String), q.length < maxDepth → q.length < max maxDepth 1 := by
    intro q hq
    omega
  have hkeys : (payloadValue payload).NodupKeys := nodupKeys_payloadValue
  constructor
  · rintro hall ⟨k, q, i, s, hdepth, hget, hway, hkept, hsecret⟩
    have hwalk := (get?_ruled_index (E := scanning E) hkeys (hmap _ hdepth)).mpr ⟨hway, hget⟩
    rw [ruled_payload, List.cons_append, Tree.get?_cons, Tree.child?_dict] at hwalk
    apply hsecret
    apply hall (.key k :: q) (.index i) s hdepth
    · rw [List.cons_append, Tree.get?_cons, child?_sanitized_of_keepsValue hkept]
      exact hwalk
    · intro j hj
      cases hj
    · intro j hj
      simp at hj
  · intro hnone q step s hdepth hget hrule htag
    have hdict := hget
    rw [sanitized_eq] at hdict
    rcases exists_key_of_get?_dict hdict (by simp) with ⟨k, p, hp⟩
    cases q with
    | nil =>
        -- an entry of the payload itself
        obtain rfl : step = .key k := by simpa using (List.cons.inj hp).1
        rw [List.nil_append, Tree.get?_singleton] at hget
        rcases text_of_sanitized hget with hwalked | hshort | ⟨j, rfl, hlabel⟩
        · have hstring : (ruled (scanning E) rules [] (max maxDepth 1) (payloadValue payload)).get?
              ([] ++ [.key k]) = some (text s) := by
            rw [ruled_payload, List.nil_append, Tree.get?_singleton]
            exact hwalked
          exact get?_ruled_key (E := scanning E) (fun t r => scanned_redactIfSecret)
            redactIfSecret_stars nodupKeys_payloadValue (hmap _ hdepth) (hrule k rfl) hstring
        · exact redactIfSecret_of_short hshort
        · exact absurd hlabel (htag j rfl)
    | cons first q =>
        obtain ⟨rfl, -⟩ : first = .key k ∧ q ++ [step] = p := by simpa using hp
        rw [List.cons_append, Tree.get?_cons] at hget
        rcases Option.bind_eq_some_iff.mp hget with ⟨c, hc, hbelow⟩
        obtain ⟨hwalked, hkept⟩ := lookup_walked_of_container hc
          (Tree.isContainer_of_ne_nil hbelow (by simp))
        have hstring : (ruled (scanning E) rules [] (max maxDepth 1) (payloadValue payload)).get?
            ((.key k :: q) ++ [step]) = some (text s) := by
          rw [ruled_payload, List.cons_append, Tree.get?_cons, Tree.child?_dict, hwalked]
          exact hbelow
        cases step with
        | key j =>
            exact get?_ruled_key (E := scanning E) (fun t r => scanned_redactIfSecret)
              redactIfSecret_stars nodupKeys_payloadValue (hmap _ hdepth) (hrule j rfl) hstring
        | index i =>
            by_contra hsecret
            obtain ⟨hway, hinput⟩ :=
              (get?_ruled_index (E := scanning E) hkeys (hmap _ hdepth)).mp hstring
            exact hnone ⟨k, q, i, s, hdepth, hinput, hway, hkept, hsecret⟩

end

end Telemetry.Pii.Rust
