import Telemetry.Logging.Rust
import Mathlib.Data.Finset.Card

/-!
# The live trace context in a Rust log record

`build_event` takes a caller's `trace_id` out of the context when a live one exists, by its
exact name. Hardening then rebuilds the context under cleaned keys, and a key that only
cleans to `trace_id` takes the slot that the removal left free.

## Main definitions

* `recordKeys` — the keys of a record before it is hardened.
* `survivesCap` — a key is among those that the attribute cap keeps.
* `Forged` — a key of the call takes the slot of a live id.
* `Genuine` — what a record says of its trace and its service is the SDK's.

## Main results

* `genuine_logged_iff` — **a record is genuine if and only if no live id's slot is taken**.
-/

namespace Telemetry.Logging.Rust

open Telemetry.Lib Telemetry.Pii
open Telemetry.Pii.Rust (leftOf dropsKey classTag)

variable {α : Type} [Scalars α]

/-! ## The attribute cap -/

/-- A key is among those that the attribute cap keeps: the cap is off, the key has priority, or
there is room after the keys that have and those that come before it. -/
def survivesCap (maxAttrCount : ℕ) (keys : Finset String) (key : String) : Prop :=
  maxAttrCount = 0 ∨ isPriorityKey key = true ∨
    (keys.filter fun j => isPriorityKey j = true ∨ j < key).card < maxAttrCount

/-- Keys without priority are kept while those that come before them leave room. -/
theorem mem_keepCandidates {maxAttrCount : ℕ} {keep keys : List String} {key : String}
    (h : keys.Pairwise (· < ·)) :
    key ∈ keepCandidates maxAttrCount keep keys ↔ key ∈ keep ∨
      isPriorityKey key = false ∧ key ∈ keys ∧ keep.length +
        (keys.filter fun j => !isPriorityKey j && decide (j < key)).length < maxAttrCount := by
  induction keys generalizing keep with
  | nil => simp [keepCandidates]
  | cons j keys ih =>
      rcases List.pairwise_cons.mp h with ⟨hfirst, hrest⟩
      have hnone : (keys.filter fun i => !isPriorityKey i && decide (i < j)) = [] := by
        rw [List.filter_eq_nil_iff]
        intro i hi
        simp [not_lt.mpr (hfirst i hi).le]
      rw [keepCandidates]
      split
      next hfull =>
        constructor
        · exact .inl
        · rintro (hkeep | ⟨-, -, hroom⟩)
          · exact hkeep
          · omega
      next hroom =>
        split
        next hprio =>
          rw [ih hrest, List.filter_cons_of_neg (by simp [hprio])]
          by_cases hj : key = j
          · subst hj
            simp [hprio]
          · simp [hj]
        next hprio =>
          rw [ih hrest]
          by_cases hj : key = j
          · subst hj
            rw [List.filter_cons_of_neg (by simp), hnone]
            simp [hprio]
            omega
          · by_cases hmem : key ∈ keys
            · rw [List.filter_cons_of_pos (by simp [hprio, hfirst key hmem])]
              simp only [List.mem_cons, hj, hmem, false_or, List.length_cons, true_and]
              rw [Nat.add_right_comm, Nat.add_assoc]
            · simp [hj, hmem]

/-- Counting the entries with either of two properties. -/
theorem length_filter_or {β : Type} (p q : β → Bool) (l : List β) :
    (l.filter p).length + (l.filter fun x => !p x && q x).length =
      (l.filter fun x => p x || q x).length := by
  induction l with
  | nil => rfl
  | cons x l ih =>
      simp only [List.filter_cons]
      cases p x with
      | true => simp; omega
      | false => cases q x <;> simp <;> omega

omit [Scalars α] in
theorem card_filter_keys (context : Context α) (p : String → Bool) :
    (context.keys.toFinset.filter fun j => p j = true).card = (context.keys.filter p).length := by
  rw [← List.toFinset_filter, List.toFinset_card_of_nodup (context.nodup_keys.filter p)]

omit [Scalars α] in
/-- What the cap keeps. -/
theorem lookup_capAttrCount {context : Context α} {maxAttrCount : ℕ} {key : String} {v : Json α} :
    (capAttrCount context maxAttrCount).lookup key = some v ↔
      context.lookup key = some v ∧ survivesCap maxAttrCount context.keys.toFinset key := by
  have hcount : (context.keys.toFinset.filter fun j => isPriorityKey j = true ∨ j < key).card =
      (context.keys.filter fun j => isPriorityKey j || decide (j < key)).length := by
    rw [← card_filter_keys]
    simp
  rw [survivesCap, hcount, capAttrCount]
  split
  next hoff => simp [hoff]
  next hon =>
    split
    next hfits =>
      constructor
      · intro hv
        constructor
        · exact hv
        · by_cases hprio : isPriorityKey key = true
          · exact .inr (.inl hprio)
          · right
            right
            have hmem : key ∈ context.keys := by
              rw [SortedMap.mem_keys, hv]
              rfl
            -- the key itself is not among those counted
            have hlt : (context.keys.filter fun j => isPriorityKey j || decide (j < key)).length <
                context.keys.length := by
              rw [List.length_filter_lt_length_iff_exists]
              exact ⟨key, hmem, by simpa using hprio⟩
            have hlen : context.keys.length = context.entries.length := List.length_map _
            omega
      · exact And.left
    next hlong =>
      rw [SortedMap.lookup_restrict]
      have hsorted : context.keys.Pairwise (· < ·) := by
        rw [SortedMap.keys, List.pairwise_map]
        exact context.sorted
      have hkept : key ∈ context.keys → (key ∈ keepCandidates maxAttrCount
          (context.keys.filter isPriorityKey) context.keys ↔ isPriorityKey key = true ∨
            (context.keys.filter fun j => isPriorityKey j || decide (j < key)).length <
              maxAttrCount) := by
        intro hmem
        rw [mem_keepCandidates hsorted, List.mem_filter, length_filter_or]
        cases isPriorityKey key <;> simp [hmem]
      constructor
      · intro hv
        split at hv
        next hkeep =>
          rw [List.contains_iff_mem] at hkeep
          refine ⟨hv, .inr ((hkept ?_).mp hkeep)⟩
          rw [SortedMap.mem_keys, hv]
          rfl
        next => cases hv
      · rintro ⟨hv, hsurvives⟩
        have hmem : key ∈ context.keys := by
          rw [SortedMap.mem_keys, hv]
          rfl
        rw [if_pos]
        · exact hv
        · rw [List.contains_iff_mem]
          exact (hkept hmem).mpr (hsurvives.resolve_left hon)

/-! ## The record before it is hardened -/

/-- The caller's fields of a call. -/
def Call.extra : Call α → Context α
  | .fields _ _ _ extra => extra
  | _ => .empty

/-- The target of a call. -/
def Call.target : Call α → String
  | .message _ target _ => target
  | .fields _ target _ _ => target
  | .event _ target _ => target

/-- The DARS fields of a call. -/
def Call.dars : Call α → List (String × String)
  | .event _ _ ev =>
      [("domain", ev.domain), ("action", ev.action)] ++
        (ev.resource.map fun resource => ("resource", resource)).toList ++ [("status", ev.status)]
  | _ => []

section

variable (P : Process α) (call : Call α)

/-- The live id that belongs under a key. -/
def liveId (name : String) : Option String :=
  if name = "trace_id" then P.traceId else if name = "span_id" then P.spanId else none

/-- The identity fields that are configured. -/
def configured : List (String × String) :=
  (((runtimeConfigOrEnv P).map identityFields).getD []).filter fun field => field.2 ≠ ""

/-- The keys of a record before it is hardened: the caller's and the SDK's, without those that
the live ids displace. -/
def recordKeys : Finset String :=
  (P.boundContext.keys ++ call.extra.keys ++ (configured P).map Prod.fst ++
      call.dars.map Prod.fst ++ if call.target = "" then [] else ["logger_name"]).toFinset.filter
    fun key => liveId P key = none

/-- A key of the call takes the slot of a live id: it cleans to the id's name, the cap keeps it,
and the PII engine does not drop what is under the name. -/
def Forged (name : String) : Prop :=
  (∃ key ∈ recordKeys P call, cleanKey key = name ∧
      survivesCap (hardenLimits P).maxAttrCount (recordKeys P call) key) ∧
    dropsKey P.env P.rules name = false

/-- What a record says of its trace and its service is the SDK's: no context key stands beside a
live id, and the configured identity is there as hardening and the PII engine leave it. -/
structure Genuine (event : LogEvent α) : Prop where
  trace : ∀ id, P.traceId = some id →
    event.context.lookup "trace_id" = none ∧ event.traceId = some id
  span : ∀ id, P.spanId = some id →
    event.context.lookup "span_id" = none ∧ event.spanId = some id
  identity : ∀ cfg, runtimeConfigOrEnv P = some cfg → ∀ field ∈ identityFields cfg,
    field.2 ≠ "" → (event.context.lookup field.1).map Subtype.val =
      leftOf P.env P.rules (piiMaxDepth P) field.1
        (hardenJson (hardenLimits P) 1 (jsonText field.2))

/-- The record that a call builds, before it is hardened. -/
def assembled : LogEvent α := injectLoggerName (extractDarsFields (built P call))

end

/-- Text fields as the entries of a context. -/
def textEntries (fields : List (String × String)) : List (String × Json α) :=
  fields.map fun field => (field.1, jsonText field.2)

theorem lookup_textEntries (fields : List (String × String)) (key : String) :
    (textEntries fields : List (String × Json α)).lookup key =
      (fields.lookup key).map jsonText :=
  Tree.lookup_map (fun _ => jsonText) fields key

theorem keys_textEntries (fields : List (String × String)) :
    (textEntries fields : List (String × Json α)).map Prod.fst = fields.map Prod.fst := by
  simp [textEntries]

variable {P : Process α} {call : Call α} {key : String}

omit [Scalars α] in
theorem nodup_configured (P : Process α) : ((configured P).map Prod.fst).Nodup := by
  have hfields : ∀ cfg : TelemetryConfig, ((identityFields cfg).map Prod.fst).Nodup := by
    intro cfg
    simp [identityFields]
  rw [configured]
  apply List.Nodup.sublist (List.filter_sublist.map Prod.fst)
  cases runtimeConfigOrEnv P with
  | none => exact List.nodup_nil
  | some cfg => exact hfields cfg

theorem injectRuntimeIdentityFields_eq (context : Context α) :
    injectRuntimeIdentityFields P context = context.extend (textEntries (configured P)) := by
  rw [injectRuntimeIdentityFields, configured]
  cases runtimeConfigOrEnv P with
  | none => rfl
  | some cfg =>
      simp only [injectIdentityFields, SortedMap.extend, textEntries, List.foldl_map,
        Option.map_some, Option.getD_some, List.foldl_filter, decide_eq_true_eq]

theorem extractDarsFields_built (P : Process α) (call : Call α) :
    (extractDarsFields (built P call)).context =
      (built P call).context.extend (textEntries call.dars) := by
  cases call with
  | message level target message => rfl
  | fields level target message extra => rfl
  | event level target ev =>
      cases hresource : ev.resource <;>
        simp [extractDarsFields, built, newEvent, buildEvent, Call.dars, textEntries, hresource,
          SortedMap.extend]

omit [Scalars α] in
theorem nodup_dars (call : Call α) : (call.dars.map Prod.fst).Nodup := by
  cases call with
  | message level target message => exact List.nodup_nil
  | fields level target message extra => exact List.nodup_nil
  | event level target ev => cases hresource : ev.resource <;> simp [Call.dars, hresource]

theorem lookup_built (P : Process α) (call : Call α) (key : String) :
    (built P call).context.lookup key = if liveId P key = none then
      (((configured P).lookup key).map jsonText).or
        ((call.extra.lookup key).or (P.boundContext.lookup key)) else none := by
  have hbuild : ∀ level target message extra,
      (buildEvent P target level message extra).context.lookup key = if liveId P key = none then
        (((configured P).lookup key).map jsonText).or
          ((extra.lookup key).or (P.boundContext.lookup key)) else none := by
    intro level target message extra
    have hfields : (injectRuntimeIdentityFields P
        (P.boundContext.extend extra.entries)).lookup key =
          (((configured P).lookup key).map jsonText).or
            ((extra.lookup key).or (P.boundContext.lookup key)) := by
      rw [injectRuntimeIdentityFields_eq, SortedMap.lookup_extend, lookup_textEntries,
        SortedMap.lookup_extend extra.nodup_keys]
      · rfl
      · rw [keys_textEntries]
        exact nodup_configured P
    simp only [buildEvent]
    by_cases htrace : key = "trace_id"
    · subst htrace
      cases ht : P.traceId <;> cases hs : P.spanId <;> simp [liveId, ht, hfields]
    · by_cases hspan : key = "span_id"
      · subst hspan
        cases ht : P.traceId <;> cases hs : P.spanId <;> simp [liveId, hs, hfields]
      · cases ht : P.traceId <;> cases hs : P.spanId <;>
          simp [liveId, htrace, hspan, hfields]
  cases call with
  | message level target message => exact hbuild level target message .empty
  | fields level target message extra => exact hbuild level target message extra
  | event level target ev => exact hbuild level target ev.event .empty

theorem lookup_assembled (P : Process α) (call : Call α) (key : String) :
    (assembled P call).context.lookup key =
      ((call.dars.lookup key).map jsonText).or (((built P call).context.lookup key).or
        (if key = "logger_name" ∧ call.target ≠ "" then some (jsonText call.target)
        else none)) := by
  have hdars : (extractDarsFields (built P call)).context.lookup key =
      ((call.dars.lookup key).map jsonText).or ((built P call).context.lookup key) := by
    rw [extractDarsFields_built, SortedMap.lookup_extend, lookup_textEntries]
    rw [keys_textEntries]
    exact nodup_dars call
  have htarget : (extractDarsFields (built P call)).target = call.target := by
    cases call <;> rfl
  rw [assembled, injectLoggerName, htarget, ← Option.or_assoc, ← hdars]
  by_cases hempty : call.target = ""
  · simp [hempty]
  · rw [if_neg hempty]
    by_cases hkey : key = "logger_name"
    · subst hkey
      cases hl : (extractDarsFields (built P call)).context.lookup "logger_name" with
      | none => simp [SortedMap.contains, hl, hempty]
      | some v => simp [SortedMap.contains, hl]
    · split
      next => simp [hkey]
      next => simp [hkey]

omit [Scalars α] in
theorem mem_dars_keys (h : key ∈ call.dars.map Prod.fst) :
    key = "domain" ∨ key = "action" ∨ key = "resource" ∨ key = "status" := by
  cases call with
  | message level target message => cases h
  | fields level target message extra => cases h
  | event level target ev =>
      cases hresource : ev.resource with
      | none =>
          have hkey : key = "domain" ∨ key = "action" ∨ key = "status" := by
            simpa [Call.dars, hresource] using h
          rcases hkey with hdomain | haction | hstatus
          · exact .inl hdomain
          · exact .inr (.inl haction)
          · exact .inr (.inr (.inr hstatus))
      | some resource => simpa [Call.dars, hresource] using h

omit [Scalars α] in
/-- No DARS field stands in a live id's place. -/
theorem liveId_of_mem_dars (h : key ∈ call.dars.map Prod.fst) : liveId P key = none := by
  rcases mem_dars_keys h with rfl | rfl | rfl | rfl <;> rfl

theorem mem_identityFields {cfg : TelemetryConfig} {field : String × String}
    (h : field ∈ identityFields cfg) :
    field.1 = "service" ∨ field.1 = "env" ∨ field.1 = "version" := by
  simp only [identityFields, List.mem_cons, List.not_mem_nil, or_false] at h
  rcases h with rfl | rfl | rfl <;> simp

/-- The keys of the record are the keys of the call and the SDK, without the live ids'. -/
theorem toFinset_keys_assembled (P : Process α) (call : Call α) :
    (assembled P call).context.keys.toFinset = recordKeys P call := by
  ext key
  have hlogger : key ∈ (if call.target = "" then [] else ["logger_name"]) ↔
      key = "logger_name" ∧ call.target ≠ "" := by
    split <;> simp_all
  have hassembled : ((assembled P call).context.lookup key).isSome = true ↔
      key ∈ call.dars.map Prod.fst ∨ (liveId P key = none ∧ (key ∈ (configured P).map Prod.fst ∨
        key ∈ call.extra.keys ∨ key ∈ P.boundContext.keys)) ∨
          (key = "logger_name" ∧ call.target ≠ "") := by
    simp only [lookup_assembled, lookup_built, Option.isSome_or, Bool.or_eq_true,
      Option.isSome_map, mem_keys_iff_isSome_lookup, SortedMap.mem_keys, Option.isSome_ite]
    by_cases hlive : liveId P key = none
    · simp only [hlive, if_true, true_and, Option.isSome_or, Option.isSome_map, Bool.or_eq_true]
    · simp only [hlive, if_false, false_and, Option.isSome_none, Bool.false_eq_true]
  rw [List.mem_toFinset, SortedMap.mem_keys, hassembled, recordKeys, Finset.mem_filter,
    List.mem_toFinset, List.mem_append, List.mem_append, List.mem_append, List.mem_append, hlogger]
  constructor
  · rintro (hdars | ⟨hlive, hkey⟩ | ⟨rfl, htarget⟩)
    · exact ⟨.inl (.inr hdars), liveId_of_mem_dars hdars⟩
    · refine ⟨.inl (.inl ?_), hlive⟩
      rcases hkey with hconfigured | hextra | hbound
      · exact .inr hconfigured
      · exact .inl (.inr hextra)
      · exact .inl (.inl hbound)
    · exact ⟨.inr ⟨rfl, htarget⟩, rfl⟩
  · rintro ⟨(((hbound | hextra) | hconfigured) | hdars) | hlogger, hlive⟩
    · exact .inr (.inl ⟨hlive, .inr (.inr hbound)⟩)
    · exact .inr (.inl ⟨hlive, .inr (.inl hextra)⟩)
    · exact .inr (.inl ⟨hlive, .inl hconfigured⟩)
    · exact .inl hdars
    · exact .inr (.inr hlogger)

/-! ## The processors -/

/-- The record after hardening. -/
def hardened (P : Process α) (call : Call α) : LogEvent α :=
  hardenInput (assembled P call) (hardenLimits P)

/-- What the cap keeps of the record, each value hardened. -/
theorem lookup_capped (P : Process α) (call : Call α) {v : Json α} :
    (capAttrCount ((assembled P call).context.mapValues (hardenJson (hardenLimits P) 1))
        (hardenLimits P).maxAttrCount).lookup key = some v ↔
      ((assembled P call).context.lookup key).map (hardenJson (hardenLimits P) 1) = some v ∧
        survivesCap (hardenLimits P).maxAttrCount (recordKeys P call) key := by
  rw [lookup_capAttrCount, SortedMap.keys_mapValues, toFinset_keys_assembled,
    SortedMap.lookup_mapValues]

/-- After hardening a key stands there exactly if some key cleaned to it and survived. -/
theorem isSome_lookup_hardened (P : Process α) (call : Call α) (key : String) :
    ((hardened P call).context.lookup key).isSome = true ↔
      ∃ k ∈ recordKeys P call, cleanKey k = key ∧
        survivesCap (hardenLimits P).maxAttrCount (recordKeys P call) k := by
  simp only [hardened, hardenInput, hardenKeys_eq_renamed, isSome_lookup_renamed]
  constructor
  · rintro ⟨⟨k, v⟩, hmem, rfl⟩
    rcases (lookup_capped P call).mp (SortedMap.lookup_eq_some.mpr hmem) with ⟨hlookup, hsurvives⟩
    refine ⟨k, ?_, rfl, hsurvives⟩
    rcases Option.map_eq_some_iff.mp hlookup with ⟨w, hw, -⟩
    rw [← toFinset_keys_assembled, List.mem_toFinset, SortedMap.mem_keys, hw]
    rfl
  · rintro ⟨k, hmem, rfl, hsurvives⟩
    rw [← toFinset_keys_assembled, List.mem_toFinset, SortedMap.mem_keys,
      Option.isSome_iff_exists] at hmem
    rcases hmem with ⟨w, hw⟩
    refine ⟨(k, hardenJson (hardenLimits P) 1 w), ?_, rfl⟩
    rw [← SortedMap.lookup_eq_some, lookup_capped, hw]
    exact ⟨rfl, hsurvives⟩

/-- A clean key with priority keeps its own value. -/
theorem lookup_hardened_of_priority {v : Json α} (hclean : cleanKey key = key)
    (hpriority : isPriorityKey key = true) (h : (assembled P call).context.lookup key = some v) :
    (hardened P call).context.lookup key = some (hardenJson (hardenLimits P) 1 v) := by
  simp only [hardened, hardenInput, hardenKeys_eq_renamed]
  apply lookup_renamed_of_verbatim hclean
  apply (lookup_capped P call).mpr
  rw [h]
  exact ⟨rfl, .inr (.inl hpriority)⟩

theorem lookup_addErrorFingerprint (event : LogEvent α) (h : key ≠ "error_fingerprint") :
    (addErrorFingerprint P event).context.lookup key = event.context.lookup key := by
  rw [addErrorFingerprint]
  split
  next => rfl
  next =>
    split
    next => rfl
    next => rw [SortedMap.lookup_insert, if_neg h]

theorem lookup_enforceSchema (event : LogEvent α) (h : key ≠ "_schema_error") :
    (enforceSchema P event).context.lookup key = event.context.lookup key := by
  simp only [enforceSchema]
  split
  next => rw [SortedMap.lookup_insert, if_neg h]
  next =>
    split
    next =>
      split
      next => rfl
      next => rw [SortedMap.lookup_insert, if_neg h]
    next => rfl

/-- Under a key that is no tag the PII stage leaves what the sanitizer leaves of the key's
entry. -/
theorem lookup_sanitizeContext (event : LogEvent α) (maxDepth : ℕ)
    (htag : ∀ j, classTag j ≠ key) :
    ((sanitizeContext P event maxDepth).context.lookup key).map Subtype.val =
      (event.context.lookup key).bind (leftOf P.env P.rules maxDepth key) := by
  simp only [sanitizeContext]
  split
  next hempty =>
    have hnone : event.context.lookup key = none := by
      rw [SortedMap.lookup, List.isEmpty_iff.mp hempty]
      rfl
    simp [hnone]
  next =>
    rw [lookup_ofMap]
    have hpayload := lookup_toPayload event.context key
    cases hl : event.context.lookup key with
    | none =>
        rw [hl] at hpayload
        exact Pii.Rust.child?_sanitizePayload_of_absent htag hpayload
    | some v =>
        rw [hl] at hpayload
        exact Pii.Rust.child?_sanitizePayload_of_lookup htag hpayload

/-! ## Which records are genuine -/

/-- The keys of the live ids and of the service identity. -/
def stampedKeys : List String := ["trace_id", "span_id", "service", "env", "version"]

/-- No class tag is a stamped key. -/
theorem classTag_ne_of_stamped (h : key ∈ stampedKeys) (j : String) : classTag j ≠ key := by
  intro htag
  have hstart : (classTag j).toList.take 2 = ['_', '_'] := by
    simp [classTag]
  rw [htag] at hstart
  simp only [stampedKeys, List.mem_cons, List.not_mem_nil, or_false] at h
  rcases h with rfl | rfl | rfl | rfl | rfl <;> revert hstart <;> decide

/-- What the record holds under a stamped key is what the sanitizer leaves of what hardening
left there. -/
theorem lookup_logged (P : Process α) (call : Call α) (h : key ∈ stampedKeys) :
    ((logged P call).context.lookup key).map Subtype.val =
      ((hardened P call).context.lookup key).bind (leftOf P.env P.rules (piiMaxDepth P) key) := by
  have hfingerprint : key ≠ "error_fingerprint" := by
    rintro rfl
    revert h
    decide
  have hschema : key ≠ "_schema_error" := by
    rintro rfl
    revert h
    decide
  rw [logged, processEvent, lookup_enforceSchema _ hschema,
    lookup_sanitizeContext _ _ (classTag_ne_of_stamped h),
    lookup_addErrorFingerprint _ hfingerprint]
  rfl

/-- A stamped key stands in the record exactly if some key cleaned to it and survived, and the
PII engine does not drop it. -/
theorem lookup_logged_eq_none_iff (P : Process α) (call : Call α) (h : key ∈ stampedKeys) :
    (logged P call).context.lookup key = none ↔ ¬ Forged P call key := by
  rw [← Option.map_eq_none_iff (f := Subtype.val), lookup_logged P call h, Option.bind_eq_none_iff,
    Forged, ← isSome_lookup_hardened, not_and, Bool.not_eq_false]
  constructor
  · intro hnone hsome
    rcases Option.isSome_iff_exists.mp hsome with ⟨v, hv⟩
    exact (Pii.Rust.leftOf_eq_none_iff (classTag_ne_of_stamped h) v).mp (hnone v hv)
  · intro hdrops v hv
    apply (Pii.Rust.leftOf_eq_none_iff (classTag_ne_of_stamped h) v).mpr
    apply hdrops
    rw [hv]
    rfl

/-! The ids beside the context go through the processors as they are. -/

/-- The ids beside the context. -/
def LogEvent.ids (event : LogEvent α) : Option String × Option String :=
  (event.traceId, event.spanId)

@[simp] theorem ids_extractDarsFields (event : LogEvent α) :
    (extractDarsFields event).ids = event.ids := by
  rw [extractDarsFields]
  split <;> rfl

@[simp] theorem ids_injectLoggerName (event : LogEvent α) :
    (injectLoggerName event).ids = event.ids := by
  rw [injectLoggerName]
  split
  next => rfl
  next => split <;> rfl

@[simp] theorem ids_hardenInput (event : LogEvent α) (limits : HardenLimits) :
    (hardenInput event limits).ids = event.ids := rfl

@[simp] theorem ids_addErrorFingerprint (event : LogEvent α) :
    (addErrorFingerprint P event).ids = event.ids := by
  rw [addErrorFingerprint]
  split
  next => rfl
  next => split <;> rfl

@[simp] theorem ids_sanitizeContext (event : LogEvent α) (maxDepth : ℕ) :
    (sanitizeContext P event maxDepth).ids = event.ids := by
  simp only [sanitizeContext]
  split <;> rfl

@[simp] theorem ids_enforceSchema (event : LogEvent α) :
    (enforceSchema P event).ids = event.ids := by
  simp only [enforceSchema]
  split
  next => rfl
  next =>
    split
    next => split <;> rfl
    next => rfl

theorem ids_logged (P : Process α) (call : Call α) :
    (logged P call).ids = (P.traceId, P.spanId) := by
  rw [logged, processEvent]
  simp only [ids_enforceSchema, ids_sanitizeContext, ids_addErrorFingerprint, ids_hardenInput,
    ids_injectLoggerName, ids_extractDarsFields]
  cases call <;> rfl

/-- The configured identity is in the record before it is hardened. -/
theorem lookup_assembled_of_configured {cfg : TelemetryConfig}
    (hcfg : runtimeConfigOrEnv P = some cfg) {field : String × String}
    (hfield : field ∈ identityFields cfg) (hvalue : field.2 ≠ "") :
    (assembled P call).context.lookup field.1 = some (jsonText field.2) := by
  have hconfigured : (configured P).lookup field.1 = some field.2 := by
    apply Tree.lookup_of_mem (nodup_configured P)
    rw [configured, hcfg, Option.map_some, Option.getD_some, List.mem_filter]
    exact ⟨hfield, by simpa using hvalue⟩
  have hkey := mem_identityFields hfield
  have hlive : liveId P field.1 = none := by
    rcases hkey with h | h | h <;> rw [h] <;> rfl
  have hdars : call.dars.lookup field.1 = none := by
    rw [← Option.not_isSome_iff_eq_none, ← mem_keys_iff_isSome_lookup]
    intro hmem
    have hother := mem_dars_keys hmem
    rcases hkey with h | h | h <;> simp [h] at hother
  rw [lookup_assembled, lookup_built, hdars, if_pos hlive, hconfigured]
  rfl

/-- **A record is genuine if and only if no live id's slot is taken**: by a key of the call or
of the bound context that is not the id's name but cleans to it, that the attribute cap keeps,
and that the PII engine does not drop. -/
theorem genuine_logged_iff (P : Process α) (call : Call α) :
    Genuine P (logged P call) ↔ ∀ name, liveId P name ≠ none → ¬ Forged P call name := by
  have hids := ids_logged P call
  constructor
  · intro h name hlive
    rw [liveId] at hlive
    split at hlive
    next htrace =>
      rcases Option.ne_none_iff_exists'.mp hlive with ⟨id, hid⟩
      rw [htrace, ← lookup_logged_eq_none_iff P call (by decide)]
      exact (h.trace id hid).1
    next =>
      split at hlive
      next hspan =>
        rcases Option.ne_none_iff_exists'.mp hlive with ⟨id, hid⟩
        rw [hspan, ← lookup_logged_eq_none_iff P call (by decide)]
        exact (h.span id hid).1
      next => exact absurd rfl hlive
  · intro h
    constructor
    case trace =>
      intro id hid
      constructor
      · apply (lookup_logged_eq_none_iff P call (by decide)).mpr
        apply h
        simp [liveId, hid]
      · rw [← hid]
        exact congrArg Prod.fst hids
    case span =>
      intro id hid
      constructor
      · apply (lookup_logged_eq_none_iff P call (by decide)).mpr
        apply h
        simp [liveId, hid]
      · rw [← hid]
        exact congrArg Prod.snd hids
    case identity =>
      intro cfg hcfg field hfield hvalue
      have hkey : field.1 ∈ stampedKeys ∧ cleanKey field.1 = field.1 ∧
          isPriorityKey field.1 = true := by
        rcases mem_identityFields hfield with h | h | h <;> rw [h] <;> decide
      rw [lookup_logged P call hkey.1, lookup_hardened_of_priority hkey.2.1 hkey.2.2
        (lookup_assembled_of_configured hcfg hfield hvalue), Option.bind_some]

/-- A process with a live trace and nothing else set. -/
def tracing : Process String where
  runtimeConfig := none
  envConfig := none
  boundContext := .empty
  traceId := some "0af7651916cd43dd8448eb211c80319c"
  spanId := none
  strictSchema := false
  rules := []
  env := Pii.Rust.scanning
    { toString := fun _ => ""
      canonicalJson := fun _ => ""
      sha256Hex := fun s => s
      redactIfSecret := fun _ => none
      classifyKey := fun _ => none
      lookupAction := fun _ => "pass" }
  formatDebug := fun s => s

/-- `info_fields("m", {"trace_i\x00d": "attacker"})` -/
def forging : Call String :=
  .fields "INFO" "app" "m" (SortedMap.empty.insert "trace_i\x00d" (jsonText "attacker"))

/-- The attacker's id stands in the context beside the live one. -/
theorem not_genuine_logged_forging : ¬ Genuine tracing (logged tracing forging) := by
  intro h
  have hcontext := (h.trace _ rfl).1
  have hforged : ((logged tracing forging).context.lookup "trace_id").bind
      (fun v => text? v.val) = some "attacker" := by
    decide +kernel
  rw [hcontext] at hforged
  cases hforged

end Telemetry.Logging.Rust
