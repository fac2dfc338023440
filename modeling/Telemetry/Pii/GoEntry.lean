import Telemetry.Lib.Labels
import Telemetry.Lib.Rewrite
import Telemetry.Pii.Go
import Telemetry.Pii.Json

/-!
# What the Go sanitizer leaves of one entry

An entry at the top of a payload is walked and then classified, whatever its neighbours
are: what is left under its key is what the sanitizer leaves of the entry alone. The one
exception, a key that is the tag of another, is left out.

## Main definitions

* `leftOf` — what the sanitizer leaves of an entry alone.

## Main results

* `lookup_sanitizePayload` — **the neighbours do not matter**.
* `leftOf_text` — of a string the sanitizer leaves a string, or nothing.
-/

namespace Telemetry.Pii.Go

open Telemetry.Lib

variable {α : Type} [Scalars α] {E : Env α} {hooks : Hooks α} {rules : List PIIRule}

/-- The key under which the label of a key is put. -/
def classTag (key : String) : String := "__" ++ key ++ "__class"

/-- What `_applyMaskAction` leaves under the key. -/
def maskedBy (E : Env α) (v : Value α) (action : String) : Value α :=
  if action ≠ "redact" ∧ action ≠ "hash" ∧ action ≠ "truncate" then v
  else if text? v = some redacted then v
  else (applyMode E v action defaultTruncateTo).getD v

/-- What classification leaves of a value under a key. -/
def classified (E : Env α) (hooks : Hooks α) (key : String) (v : Value α) : Option (Value α) :=
  match hooks.classification with
  | none => some v
  | some classHook =>
      if classHook key v = "" then some v
      else
        let action := (hooks.policy.map fun policy => policy (classHook key v)).getD "pass"
        if action = "drop" then none else some (maskedBy E v action)

/-- What the walk leaves of an entry. -/
def walkedEntry (E : Env α) (rules : List PIIRule) (position : List (Step String))
    (path : List String) (depth : ℕ) (key : String) (v : Value α) : Option (Value α) :=
  (sanitizeValue E rules (position ++ [.key key]) key (path ++ [key]) depth v).val

/-- What the sanitizer makes of an entry. -/
def entryLeft (E : Env α) (hooks : Hooks α) (rules : List PIIRule) (enabled : Bool)
    (maxDepth : ℤ) (key : String) (v : Value α) : Option (Value α) :=
  if enabled then
    let depth := if maxDepth ≤ 0 then defaultMaxDepth else maxDepth.toNat
    (walkedEntry E rules [] [] depth key v).bind (classified E hooks key)
  else some v

variable {key : String} {enabled : Bool} {maxDepth : ℤ}

theorem lookup_applyMaskAction (result : Entries α) (j k : String) (v : Value α)
    (action : String) (hv : result.lookup j = some v) :
    (applyMaskAction E result j v action).lookup k =
      if k = j then some (maskedBy E v action) else result.lookup k := by
  rw [applyMaskAction, maskedBy]
  by_cases hmask : action ≠ "redact" ∧ action ≠ "hash" ∧ action ≠ "truncate"
  · rw [if_pos hmask, if_pos hmask]
    by_cases hk : k = j
    · rw [hk, if_pos rfl, hv]
    · rw [if_neg hk]
  · rw [if_neg hmask, if_neg hmask]
    by_cases hstars : text? v = some redacted
    · rw [if_pos hstars, if_pos hstars]
      by_cases hk : k = j
      · rw [hk, if_pos rfl, hv]
      · rw [if_neg hk]
    · rw [if_neg hstars, if_neg hstars]
      cases applyMode E v action defaultTruncateTo with
      | none =>
          by_cases hk : k = j
          · rw [hk, if_pos rfl, Option.getD_none, hv]
          · rw [if_neg hk]
      | some masked => rw [lookup_setItem, Option.getD_some]

theorem length_classTag (key : String) : (classTag key).length = key.length + 9 := by
  have hbefore : "__".length = 2 := by decide
  have hafter : "__class".length = 7 := by decide
  rw [classTag, String.length_append, String.length_append, hbefore, hafter]
  omega

theorem classTag_injective : Function.Injective classTag := by
  intro j k h
  have hlists := congrArg String.toList h
  rw [classTag, classTag] at hlists
  simp only [String.toList_append] at hlists
  exact String.toList_inj.mp (List.append_cancel_left (List.append_cancel_right hlists))

/-- What classification puts under the tag of a key. -/
def labelPut (hooks : Hooks α) (key : String) (v : Value α) : Option (Value α) :=
  match hooks.classification with
  | none => none
  | some classHook =>
      if classHook key v = "" then none
      else if (hooks.policy.map fun policy => policy (classHook key v)).getD "pass" = "drop" then
        none
      else some (text (classHook key v))

/-- The rounds of classification. -/
def labels (E : Env α) (hooks : Hooks α) : Labelling String (Value α) where
  own := classified E hooks
  put := labelPut hooks
  tag := classTag
  tag_injective := classTag_injective
  rank := String.length
  rank_lt key := by
    rw [length_classTag]
    omega

theorem classTag_ne (key : String) : classTag key ≠ key := by
  intro h
  have hlength := length_classTag key
  rw [h] at hlength
  omega

theorem labelPut_text {v l : Value α} (h : labelPut hooks key v = some l) : ∃ t, l = text t := by
  rw [labelPut] at h
  split at h
  next => cases h
  next =>
    split at h
    next => cases h
    next =>
      split at h
      next => cases h
      next => exact ⟨_, (Option.some.inj h).symm⟩

omit [Scalars α] in
/-- Setting the tag of a key leaves the key alone. -/
theorem lookup_setTag {result : Entries α} {j : String} {v : Value α}
    (hv : result.lookup j = some v) (label : Value α) :
    (setItem ("__" ++ j ++ "__class") label result).lookup j = some v := by
  have hne : j ≠ "__" ++ j ++ "__class" := (classTag_ne j).symm
  rw [lookup_setItem, if_neg hne, hv]

/-- A round of the loop. -/
theorem lookup_classifyKey_eq_round {classHook : String → Value α → String}
    (hhook : hooks.classification = some classHook) (result : Entries α) (j : String) :
    (fun k => (classifyKey E classHook hooks.policy result j).lookup k) =
      (labels E hooks).round (fun k => result.lookup k) j := by
  funext k
  rw [classifyKey, Labelling.round]
  cases hv : result.lookup j with
  | none => rfl
  | some v =>
      simp only [labels, classified, labelPut, hhook]
      by_cases hlabel : classHook j v = ""
      · simp only [if_pos hlabel, Option.none_or, ite_self]
        by_cases hk : k = j
        · rw [if_pos hk, hk, hv]
        · rw [if_neg hk]
      · simp only [if_neg hlabel]
        by_cases hdrop :
            (hooks.policy.map fun policy => policy (classHook j v)).getD "pass" = "drop"
        · simp only [if_pos hdrop, lookup_delItem, Option.none_or, ite_self]
        · simp only [if_neg hdrop, Option.some_or]
          rw [lookup_applyMaskAction _ _ _ _ _ (lookup_setTag hv _), lookup_setItem]
          rfl

/-- A round of classification touches its key and its tag only. -/
theorem lookup_classifyKey {classHook : String → Value α → String}
    (hhook : hooks.classification = some classHook) (result : Entries α) {j : String}
    (htag : classTag j ≠ key) :
    (classifyKey E classHook hooks.policy result j).lookup key =
      if key = j then (result.lookup key).bind (classified E hooks key)
      else result.lookup key := by
  have hround := congrFun (@lookup_classifyKey_eq_round _ _ E hooks _ hhook result j) key
  rw [hround]
  by_cases hk : key = j
  · subst hk
    rw [if_pos rfl]
    cases hv : result.lookup key with
    | none =>
        rw [Labelling.round_of_none (m := fun k => result.lookup k) hv]
        exact hv
    | some v => exact Labelling.round_self (m := fun k => result.lookup k) hv
  · rw [if_neg hk, Labelling.round_of_ne hk htag.symm]

theorem val_sanitizeEntries (position : List (Step String)) (path : List String) (depth : ℕ)
    (entries : Entries α) :
    (sanitizeEntries E rules position path depth entries).val =
      Tree.rewriteEntries (walkedEntry E rules position path depth) entries := by
  induction entries with
  | nil => rw [sanitizeEntries]; rfl
  | cons e entries ih =>
      rw [sanitizeEntries, Tree.rewriteEntries, List.filterMap_cons, ← Tree.rewriteEntries, ← ih,
        walkedEntry]
      simp only [Logged.val_bind, Logged.val_pure]
      cases (sanitizeValue E rules (position ++ [.key e.1]) e.1 (path ++ [e.1]) depth e.2).val <;>
        rfl

omit [Scalars α] in
theorem mem_keys_of_mem_rewriteEntries {f : String → Value α → Option (Value α)}
    {entries : Entries α} {j : String}
    (h : j ∈ (Tree.rewriteEntries f entries).map Prod.fst) : j ∈ entries.map Prod.fst := by
  rcases List.mem_map.mp h with ⟨e, he, rfl⟩
  rcases List.mem_filterMap.mp he with ⟨d, hd, hvalue⟩
  rcases Option.map_eq_some_iff.mp hvalue with ⟨v, -, rfl⟩
  exact List.mem_map.mpr ⟨d, hd, rfl⟩

/-- Under a key that is no entry's tag there is what is left of the key's own entry. -/
theorem lookup_sanitizePayload_eq (payload : Payload α)
    (htag : ∀ j ∈ payload.entries.map Prod.fst, classTag j ≠ key) :
    (sanitizePayload E hooks rules payload enabled maxDepth).val.lookup key =
      (payload.entries.lookup key).bind (entryLeft E hooks rules enabled maxDepth key) := by
  cases enabled with
  | false =>
      rw [sanitizePayload, if_neg Bool.false_ne_true, Logged.val_pure]
      have hsame : entryLeft E hooks rules false maxDepth key = some := rfl
      rw [hsame, Option.bind_fun_some]
  | true =>
      rw [sanitizePayload, if_pos rfl]
      simp only [Logged.val_bind, Logged.val_pure, sanitizeMap, val_sanitizeEntries]
      have hentry : entryLeft E hooks rules true maxDepth key = fun v =>
          (walkedEntry E rules [] [] (if maxDepth ≤ 0 then defaultMaxDepth else maxDepth.toNat)
            key v).bind (classified E hooks key) := rfl
      rw [hentry, ← Option.bind_assoc]
      generalize (if maxDepth ≤ 0 then defaultMaxDepth else maxDepth.toNat) = depth
      have hwalk : (Tree.rewriteEntries (walkedEntry E rules [] [] depth) payload.entries).lookup
          key = (payload.entries.lookup key).bind (walkedEntry E rules [] [] depth key) :=
        Tree.lookup_filterMap _ payload.nodupKeys.keys key
      have hkeys : ((Tree.rewriteEntries (walkedEntry E rules [] [] depth) payload.entries).map
          Prod.fst).Nodup :=
        Tree.nodup_filterMap _ payload.nodupKeys.keys
      rw [applyClassificationPolicy, ← hwalk]
      cases hhook : hooks.classification with
      | none =>
          have hsame : classified E hooks key = some := by
            funext v
            rw [classified, hhook]
          rw [hsame, Option.bind_fun_some]
      | some classHook =>
          simp only
          rw [lookup_foldl_of_frame_of_mem (fun o => o.bind (classified E hooks key)) _ _ hkeys]
          · split
            next => rfl
            next hmem =>
              rw [mem_keys_iff_isSome_lookup, Option.not_isSome_iff_eq_none] at hmem
              rw [hmem, Option.bind_none]
          · intro entries
            rw [lookup_classifyKey hhook entries (classTag_ne key), if_pos rfl]
          · intro entries j hj hne
            rw [lookup_classifyKey hhook entries (htag j (mem_keys_of_mem_rewriteEntries hj)),
              if_neg hne.symm]

/-- What the sanitizer leaves of an entry alone. -/
def leftOf (E : Env α) (hooks : Hooks α) (rules : List PIIRule) (enabled : Bool) (maxDepth : ℤ)
    (key : String) (value : Json α) : Option (Value α) :=
  let payload : Payload α :=
    ⟨[(key, value.val)], nodupKeys_single key value⟩
  (sanitizePayload E hooks rules payload enabled maxDepth).val.lookup key

/-- An entry alone is tagged beside itself. -/
theorem leftOf_eq (value : Json α) :
    leftOf E hooks rules enabled maxDepth key value =
      entryLeft E hooks rules enabled maxDepth key value.val := by
  rw [leftOf, lookup_sanitizePayload_eq]
  · simp
  · exact List.forall_mem_singleton.mpr (classTag_ne key)

/-- **The neighbours do not matter**: under a key that is no neighbour's tag the sanitizer leaves
what it leaves of the key's entry alone. -/
theorem lookup_sanitizePayload_of_keys (m : SortedMap String (Json α))
    (htag : ∀ j ∈ m.keys, classTag j ≠ key) :
    (sanitizePayload E hooks rules (toPayload m) enabled maxDepth).val.lookup key =
      (m.lookup key).bind (leftOf E hooks rules enabled maxDepth key) := by
  have hkeys : (toPayload m).entries.map Prod.fst = m.keys := by
    rw [toPayload, List.map_map]
    rfl
  rw [lookup_sanitizePayload_eq _ (hkeys ▸ htag), lookup_toPayload]
  cases m.lookup key with
  | none => rfl
  | some value => rw [Option.map_some, Option.bind_some, Option.bind_some, leftOf_eq]

/-- The same under a key that is no tag at all. -/
theorem lookup_sanitizePayload (htag : ∀ j, classTag j ≠ key) (m : SortedMap String (Json α)) :
    (sanitizePayload E hooks rules (toPayload m) enabled maxDepth).val.lookup key =
      (m.lookup key).bind (leftOf E hooks rules enabled maxDepth key) :=
  lookup_sanitizePayload_of_keys m fun j _ => htag j

theorem applyMode_text {value masked : Value α} {mode : String} {truncateTo : ℤ}
    (h : applyMode E value mode truncateTo = some masked) : ∃ t, masked = text t := by
  rw [applyMode] at h
  split at h
  next => cases h
  next =>
    split at h
    next => exact ⟨_, (Option.some.inj h).symm⟩
    next =>
      split at h
      next => exact ⟨_, (Option.some.inj h).symm⟩
      next => exact ⟨_, (Option.some.inj h).symm⟩

/-- Of a string classification leaves a string, or nothing. -/
theorem classified_text {t : String} {w : Value α} (h : classified E hooks key (text t) = some w) :
    ∃ t', w = text t' := by
  rw [classified] at h
  split at h
  next => exact ⟨t, (Option.some.inj h).symm⟩
  next =>
    split at h
    next => exact ⟨t, (Option.some.inj h).symm⟩
    next =>
      simp only at h
      split at h
      next => cases h
      next =>
        rw [← Option.some.inj h, maskedBy]
        split
        next => exact ⟨t, rfl⟩
        next =>
          split
          next => exact ⟨t, rfl⟩
          next action _ _ _ =>
            cases hmask : applyMode E (text t) _ defaultTruncateTo with
            | none => exact ⟨t, rfl⟩
            | some masked => exact applyMode_text hmask

/-- **Of a string the sanitizer leaves a string**, or nothing. -/
theorem leftOf_text {s : String} {w : Value α}
    (h : leftOf E hooks rules enabled maxDepth key (jsonText s) = some w) : ∃ t, w = text t := by
  rw [leftOf_eq, entryLeft] at h
  split at h
  next =>
    rcases Option.bind_eq_some_iff.mp h with ⟨v, hv, hclass⟩
    have htext : ∃ t, v = text t := by
      rw [val_jsonText, walkedEntry, text, sanitizeValue] at hv
      split at hv
      next result hresult =>
        rw [intercept] at hresult
        split at hresult
        next rule _ =>
          cases hresult
          exact applyMode_text hv
        next =>
          rcases Option.map_eq_some_iff.mp hresult with ⟨t, -, rfl⟩
          exact ⟨t, (Option.some.inj hv).symm⟩
      next => exact ⟨s, (Option.some.inj hv).symm⟩
    rcases htext with ⟨t, rfl⟩
    exact classified_text hclass
  next => exact ⟨s, (Option.some.inj h).symm⟩

/-! ## Classification in any order -/

/-- `_applyClassificationPolicy`, with the keys in the order in which the map gives them. -/
def applyClassificationIn (E : Env α) (hooks : Hooks α) (order : List String)
    (result : Entries α) : Entries α :=
  match hooks.classification with
  | some classHook => order.foldl (classifyKey E classHook hooks.policy) result
  | none => result

/-- The map that `SanitizePayload` classifies. -/
def classifiedMap (E : Env α) (rules : List PIIRule) (payload : Payload α) (maxDepth : ℤ) :
    Entries α :=
  let depth := if maxDepth ≤ 0 then defaultMaxDepth else maxDepth.toNat
  (sanitizeMap E payload.entries [] rules depth).val

/-- `SanitizePayload`, where the map gives its keys in an order. -/
def sanitizePayloadIn (E : Env α) (hooks : Hooks α) (rules : List PIIRule) (payload : Payload α)
    (enabled : Bool) (maxDepth : ℤ) (order : List String) : Entries α :=
  if enabled then applyClassificationIn E hooks order (classifiedMap E rules payload maxDepth)
  else payload.entries

/-- With the keys in the order of the entries it is `sanitizePayload`. -/
theorem val_sanitizePayload (payload : Payload α) :
    (sanitizePayload E hooks rules payload enabled maxDepth).val =
      sanitizePayloadIn E hooks rules payload enabled maxDepth
        ((classifiedMap E rules payload maxDepth).map Prod.fst) := by
  rw [sanitizePayload, sanitizePayloadIn]
  split
  next => rfl
  next => rfl

/-- What the loop leaves under a key. -/
theorem lookup_applyClassificationIn (order : List String) (result : Entries α) :
    (fun k => (applyClassificationIn E hooks order result).lookup k) =
      order.foldl (labels E hooks).round fun k => result.lookup k := by
  rw [applyClassificationIn]
  cases hhook : hooks.classification with
  | none =>
      have hround : ∀ m j, (labels E hooks).round m j = m := by
        intro m j
        cases hv : m j with
        | none => exact Labelling.round_of_none hv
        | some v =>
            funext k
            rw [Labelling.round, hv]
            simp only [labels, classified, labelPut, hhook, Option.none_or, ite_self]
            split
            next hk => rw [hk, hv]
            next => rfl
      generalize (fun k => result.lookup k) = m
      induction order with
      | nil => rfl
      | cons j order ih => rw [List.foldl_cons, hround, ← ih]
  | some classHook =>
      simp only
      induction order generalizing result with
      | nil => rfl
      | cons j order ih =>
          rw [List.foldl_cons, List.foldl_cons, ih, lookup_classifyKey_eq_round hhook]

/-- The keys of the map, with what the walk leaves of the entries. -/
theorem lookup_classifiedMap (payload : Payload α) (key : String) :
    (classifiedMap E rules payload maxDepth).lookup key = (payload.entries.lookup key).bind
      (walkedEntry E rules [] []
        (if maxDepth ≤ 0 then defaultMaxDepth else maxDepth.toNat) key) := by
  rw [classifiedMap]
  simp only [sanitizeMap, val_sanitizeEntries]
  exact Tree.lookup_filterMap _ payload.nodupKeys.keys key

theorem nodup_classifiedMap (payload : Payload α) :
    ((classifiedMap E rules payload maxDepth).map Prod.fst).Nodup := by
  rw [classifiedMap]
  simp only [sanitizeMap, val_sanitizeEntries]
  exact Tree.nodup_filterMap _ payload.nodupKeys.keys

/-- The orders in which the map may give its keys. -/
theorem perm_classifiedMap_iff {payload : Payload α} {order : List String} :
    order.Perm ((classifiedMap E rules payload maxDepth).map Prod.fst) ↔
      Labelling.IsOrder (fun k => (classifiedMap E rules payload maxDepth).lookup k) order := by
  constructor
  · intro h
    exact ⟨h.nodup_iff.mpr (nodup_classifiedMap payload), fun k => by
      rw [h.mem_iff, mem_keys_iff_isSome_lookup]⟩
  · intro h
    rw [List.perm_ext_iff_of_nodup h.nodup (nodup_classifiedMap payload)]
    intro k
    rw [h.mem_iff, mem_keys_iff_isSome_lookup]

end Telemetry.Pii.Go
