import Telemetry.Pii.Json
import Telemetry.Pii.RustStrings

/-!
# What the Rust sanitizer leaves of one entry

An entry at the top of a payload is walked and then classified, whatever its neighbours
are: what is left under its key is what the sanitizer leaves of the entry alone. The one
exception, a key that is the tag of another, is left out.

## Main definitions

* `leftOf` — what the sanitizer leaves of an entry alone.

## Main results

* `nodupKeys_sanitizePayload` — the sanitizer leaves no key twice.
* `child?_sanitizePayload_of_lookup` — **the neighbours do not matter**.
-/

namespace Telemetry.Pii.Rust

open Telemetry.Lib

variable {α : Type} [Scalars α] {E : Env α} {rules : List PIIRule} {maxDepth : ℕ}

/-! ## Keys of the output -/

theorem nodupKeys_maskValue {value masked : Value α} {mode : PIIMode} {truncateTo : ℕ}
    (h : maskValue E value mode truncateTo = some masked) : masked.NodupKeys := by
  rcases maskValue_cases (E := E) value mode truncateTo with hnone | ⟨t, ht⟩
  · rw [hnone] at h
    cases h
  · rw [ht] at h
    cases h
    exact .scalar _

/-- The walk leaves no key twice. -/
theorem nodupKeys_ruled {v : Value α} (h : v.NodupKeys) (path : List String) :
    (ruled E rules path maxDepth v).NodupKeys := by
  induction v using Tree.induct generalizing path maxDepth with
  | scalar a =>
      rw [ruled_scalar]
      exact h
  | list r items ih =>
      cases maxDepth with
      | zero =>
          rw [ruled_zero]
          exact h
      | succ n =>
          rw [ruled_list (Nat.succ_pos n)]
          apply Tree.NodupKeys.list
          intro x hx
          rcases List.mem_map.mp hx with ⟨item, hitem, rfl⟩
          exact ih item hitem (h.items item hitem) _
  | dict r entries ih =>
      cases maxDepth with
      | zero =>
          rw [ruled_zero]
          exact h
      | succ n =>
          rw [ruled_dict (Nat.succ_pos n)]
          constructor
          · exact Tree.nodup_filterMap _ h.keys
          · intro e he
            rcases Tree.mem_rewriteEntries.mp he with ⟨v, hv, hentry⟩
            rw [ruledEntry] at hentry
            split at hentry
            next => exact nodupKeys_maskValue hentry
            next =>
              split at hentry
              next =>
                rw [← Option.some.inj hentry]
                exact .scalar _
              next =>
                rw [← Option.some.inj hentry]
                exact ih (e.1, v) hv (h.entries _ hv) _

/-- A round of classification leaves no key twice. -/
theorem nodupKeys_annotateKey {entries : Entries α} (key : String)
    (h : (Tree.dict () entries : Value α).NodupKeys) :
    (Tree.dict () (annotateKey E entries key) : Value α).NodupKeys := by
  rw [annotateKey]
  split
  next => exact h
  next label _ =>
    simp only
    split
    next => exact nodupKeys_delItem h
    next =>
      apply nodupKeys_setItem (.scalar _)
      split
      next =>
        split
        next => exact h
        next =>
          split
          next hmask => exact nodupKeys_setItem (nodupKeys_maskValue hmask) h
          next => exact h
      next => exact h

theorem nodupKeys_annotateGovernanceClasses {entries : Entries α}
    (h : (Tree.dict () entries : Value α).NodupKeys) :
    (Tree.dict () (annotateGovernanceClasses E entries) : Value α).NodupKeys := by
  rw [annotateGovernanceClasses]
  generalize entries.map Prod.fst = keys
  induction keys generalizing entries with
  | nil => exact h
  | cons key keys ih => exact ih (nodupKeys_annotateKey key h)

/-! ## One entry -/

/-- What the walk leaves of a payload's entries. -/
def ruledEntries (E : Env α) (rules : List PIIRule) (maxDepth : ℕ) (payload : Payload α) :
    Entries α :=
  Tree.rewriteEntries (ruledEntry E rules [] (max maxDepth 1 - 1)) payload.entries

variable (payload : Payload α)

theorem val_sanitizePayload :
    (sanitizePayload E rules payload true maxDepth).val =
      .dict () (annotateGovernanceClasses E (ruledEntries E rules maxDepth payload)) := by
  have hruled : (applyRules E rules [] [] (max maxDepth 1) (.dict () payload.entries)).val =
      .dict () (ruledEntries E rules maxDepth payload) :=
    ruled_dict (by omega) () payload.entries
  rw [sanitizePayload, if_pos rfl, Logged.val_bind, hruled]
  rfl

/-- **The sanitizer leaves no key twice.** -/
theorem nodupKeys_sanitizePayload :
    (sanitizePayload E rules payload true maxDepth).val.NodupKeys := by
  rw [val_sanitizePayload]
  apply nodupKeys_annotateGovernanceClasses
  have hruled : (ruled E rules [] (max maxDepth 1) (.dict () payload.entries)).NodupKeys :=
    nodupKeys_ruled payload.nodupKeys []
  rwa [ruled_dict (by omega)] at hruled

/-- What the sanitizer leaves of an entry alone. -/
def leftOf (E : Env α) (rules : List PIIRule) (maxDepth : ℕ) (key : String) (value : Json α) :
    Option (Value α) :=
  let payload : Payload α :=
    ⟨[(key, value.val)], nodupKeys_single key value⟩
  (sanitizePayload E rules payload true maxDepth).val.child? (.key key)

/-- The entry under a key is dropped, by a rule or by the class of the key. -/
def dropsKey (E : Env α) (rules : List PIIRule) (key : String) : Bool :=
  dropped rules key || classAction E key == some "drop"

/-- Of an entry that is gone no class leaves anything. -/
theorem classified_none (key : String) : classified E key none = none := by
  rw [classified]
  cases classAction E key with
  | none => rfl
  | some action =>
      simp only [ite_eq_left_iff]
      intro _
      cases actionMode action <;> rfl

variable {payload} {key : String}

theorem child?_sanitizePayload (htag : ∀ j, classTag j ≠ key) :
    (sanitizePayload E rules payload true maxDepth).val.child? (.key key) =
      classified E key ((payload.entries.lookup key).bind
        (ruledEntry E rules [] (max maxDepth 1 - 1) key)) := by
  have hwalk : (ruledEntries E rules maxDepth payload).lookup key =
      (payload.entries.lookup key).bind (ruledEntry E rules [] (max maxDepth 1 - 1) key) :=
    Tree.lookup_filterMap _ payload.nodupKeys.keys key
  have hlabels := labels_annotateKey E
  rw [val_sanitizePayload, Tree.child?_dict, annotateGovernanceClasses, ← hwalk,
    lookup_foldl_of_frame (classified E key)]
  · split
    next => rfl
    next hmem =>
      rw [mem_keys_iff_isSome_lookup, Option.not_isSome_iff_eq_none] at hmem
      rw [hmem, classified_none]
  · intro entries
    rw [hlabels.lookup, if_pos rfl]
  · intro entries j hj
    exact hlabels.lookup_of_ne (Ne.symm hj) fun h => absurd h (htag j)
  · exact Tree.nodup_filterMap _ payload.nodupKeys.keys

theorem leftOf_eq (htag : ∀ j, classTag j ≠ key) (value : Json α) :
    leftOf E rules maxDepth key value =
      classified E key (ruledEntry E rules [] (max maxDepth 1 - 1) key value.val) := by
  rw [leftOf, child?_sanitizePayload htag]
  simp

/-- **The neighbours do not matter**: under a key that is no tag the sanitizer leaves what it
leaves of the key's entry alone. -/
theorem child?_sanitizePayload_of_lookup (htag : ∀ j, classTag j ≠ key) {value : Json α}
    (h : payload.entries.lookup key = some value.val) :
    (sanitizePayload E rules payload true maxDepth).val.child? (.key key) =
      leftOf E rules maxDepth key value := by
  rw [child?_sanitizePayload htag, leftOf_eq htag, h, Option.bind_some]

/-- Under a key that is no tag the sanitizer puts nothing. -/
theorem child?_sanitizePayload_of_absent (htag : ∀ j, classTag j ≠ key)
    (h : payload.entries.lookup key = none) :
    (sanitizePayload E rules payload true maxDepth).val.child? (.key key) = none := by
  rw [child?_sanitizePayload htag, h, Option.bind_none, classified_none]

theorem ruledEntry_eq_none_iff {d : ℕ} (value : Value α) :
    ruledEntry E rules [] d key value = none ↔ dropped rules key = true := by
  rw [ruledEntry, dropped, List.nil_append]
  cases findRule rules [key] with
  | none => cases replacement E key value <;> simp
  | some rule => cases hmode : rule.mode <;> simp [maskValue, hmode]

theorem classified_eq_none_iff {value : Value α} :
    classified E key (some value) = none ↔ classAction E key = some "drop" := by
  rw [classified]
  cases classAction E key with
  | none => simp
  | some action =>
      by_cases hdrop : action = "drop"
      · simp [hdrop]
      · simp only [if_neg hdrop, Option.some.injEq, iff_false_right hdrop]
        cases actionMode action with
        | none => simp
        | some mode =>
            simp only
            split
            next => simp
            next => simp

/-- Nothing is left of an entry exactly if a rule or its class drops it. -/
theorem leftOf_eq_none_iff (htag : ∀ j, classTag j ≠ key) (value : Json α) :
    leftOf E rules maxDepth key value = none ↔ dropsKey E rules key = true := by
  rw [leftOf_eq htag, dropsKey, Bool.or_eq_true, beq_iff_eq]
  cases hruled : ruledEntry E rules [] (max maxDepth 1 - 1) key value.val with
  | none =>
      have hdropped := (ruledEntry_eq_none_iff value.val).mp hruled
      simp [classified_none, hdropped]
  | some v =>
      have hkept : dropped rules key ≠ true := by
        rw [ne_eq, ← ruledEntry_eq_none_iff (E := E) (d := max maxDepth 1 - 1) value.val, hruled]
        simp
      rw [classified_eq_none_iff]
      simp [hkept]

end Telemetry.Pii.Rust
