import Telemetry.Logging.Go
import Telemetry.Pii.GoEntry
import Mathlib.Data.List.Perm.Subperm

/-!
# The reserved root fields of a Go log record

`_stampRootFields` takes out the caller's attributes that bear a stamped key or its wire
name, by their raw keys, and appends its own. The PII stage then cleans every key, so an
attribute whose key only cleans to such a name comes before the stamped one; and it caps the
keys of each round in sorted order, the stamped ones like any other.

## Main definitions

* `Genuine` — each stamped field stands at the root once, and nothing under its wire name.
* `Squatted` — an attribute reaches the root under a name that is not its key.
* `Fits` — the attribute cap keeps a stamped field.

## Main results

* `genuine_handle_iff` — **which records have genuine root fields**.
-/

namespace Telemetry.Logging.Go

open Telemetry.Lib Telemetry.Pii
open Telemetry.Pii.Go (leftOf classTag lookup_sanitizePayload leftOf_text)

variable {α σ γ : Type} [Scalars α]

/-! ## What is asked of a record -/

section

variable (h : Handler σ γ α)

/-- The fields that the handler stamps. -/
def stampedFields : List (String × String) := standardFields h ++ traceFields h

/-- The limits of the hardening stage. -/
def limits : Limits := limitsFromConfig h.cfg.security

/-- What the PII stage leaves of a stamped field alone. -/
def leftBehind (field : String × String) : Option (Value α) :=
  leftOf h.env h.hooks h.rules h.cfg.sanitize 0 field.1
    (jsonText (hardenString field.2 (limits h)))

/-- At the root each stamped field stands once, with its value as the PII stage leaves it, and
not at all where that is nothing; and no attribute bears its wire name. -/
structure Genuine (out : Forwarded α) : Prop where
  stamped : ∀ field ∈ stampedFields h,
    (out.attrs.filter fun a => a.1 = field.1).map Prod.snd = (leftBehind h field).toList
  unshadowed : ∀ field ∈ stampedFields h, ∀ a ∈ out.attrs, a.1 ≠ reservedWireNames field.1

/-- How many attributes clean to a name that is not their key. -/
def squatters (record : Attrs γ) (name : String) : ℕ :=
  (record.filter fun a => a.1 ≠ name ∧ cleanKey a.1 = name).length

/-- The names of a round: those that more attributes than its number clean to. -/
def roundKeys (record : Attrs γ) (i : ℕ) : List String :=
  (round (cleanedRecordAttrs record) (roundsOf (cleanedRecordAttrs record)) i).keys

/-- One of the attributes that squat on a name reaches the root: the cap keeps it in its round,
and the sanitizer leaves something of it that is no empty group. -/
def Squatted (record : Attrs γ) (name : String) : Prop :=
  ∃ i < squatters record name, ∃ v w,
    (hardenedRound h (cleanedRecordAttrs record) i).lookup name = some v ∧
      leftOf h.env h.hooks h.rules h.cfg.sanitize 0 name v = some w ∧ isHollow w = false

/-- The cap keeps the attribute that comes after those that squat on its name. -/
def Fits (record : Attrs γ) (name : String) : Prop :=
  survivesCap (limits h).maxAttrCount (roundKeys record (squatters record name)) name

instance (record : Attrs γ) (name : String) : Decidable (Fits h record name) :=
  inferInstanceAs (Decidable (survivesCap _ _ _))

end

/-! ## The record before the PII stage -/

/-- The stamped field is in the record: no attribute before it has its key, and none after it
cleans to its key. -/
def Stamped (record : Attrs γ) (key value : String) : Prop :=
  ∃ before after, record = before ++ (key, .str value) :: after ∧
    (∀ a ∈ before, a.1 ≠ key) ∧ ∀ a ∈ after, cleanKey a.1 ≠ key

variable {record extra : Attrs γ} {key value : String}

theorem Stamped.filter (hs : Stamped record key value) {p : String × AttrValue γ → Bool}
    (hp : p (key, .str value) = true) : Stamped (record.filter p) key value := by
  rcases hs with ⟨before, after, rfl, hbefore, hafter⟩
  refine ⟨before.filter p, after.filter p, ?_, ?_, ?_⟩
  · rw [List.filter_append, List.filter_cons_of_pos hp]
  · intro a ha
    exact hbefore a (List.mem_of_mem_filter ha)
  · intro a ha
    exact hafter a (List.mem_of_mem_filter ha)

theorem Stamped.append (hs : Stamped record key value) (h : ∀ a ∈ extra, cleanKey a.1 ≠ key) :
    Stamped (record ++ extra) key value := by
  rcases hs with ⟨before, after, rfl, hbefore, hafter⟩
  refine ⟨before, after ++ extra, by simp, hbefore, ?_⟩
  intro a ha
  rcases List.mem_append.mp ha with ha | ha
  · exact hafter a ha
  · exact h a ha

/-- No attribute has the key. -/
def Absent (record : Attrs γ) (key : String) : Prop := ∀ a ∈ record, a.1 ≠ key

theorem Absent.filter (ha : Absent record key) (p : String × AttrValue γ → Bool) :
    Absent (record.filter p) key := fun a hmem => ha a (List.mem_of_mem_filter hmem)

theorem Absent.append (ha : Absent record key) (h : Absent extra key) :
    Absent (record ++ extra) key := by
  intro a hmem
  rcases List.mem_append.mp hmem with hmem | hmem
  · exact ha a hmem
  · exact h a hmem

theorem Stamped.addAttrs (hs : Stamped record key value)
    (h : ∀ a ∈ extra, cleanKey a.1 ≠ key) : Stamped (addAttrs record extra) key value :=
  hs.append fun a ha => h a (List.mem_of_mem_filter ha)

theorem Stamped.addAttrs_nil (hs : Stamped record key value) :
    Stamped (Go.addAttrs [] record) key value :=
  hs.filter rfl

theorem Absent.addAttrs (ha : Absent record key) (h : Absent extra key) :
    Absent (addAttrs record extra) key :=
  ha.append (h.filter _)

theorem Absent.addAttrs_nil (ha : Absent record key) : Absent (Go.addAttrs [] record) key :=
  ha.filter _

/-- What is stamped takes the place of the attributes that bear its keys and wire names. -/
theorem stampRootFields_eq {fields : List (String × String)} (h : fields ≠ []) :
    stampRootFields record fields =
      addAttrs [] (record.filter fun a =>
        !fields.any fun s => s.1 == a.1 || reservedWireNames s.1 == a.1) ++
      fields.map fun s => slogString s.1 s.2 := by
  have hstrings : (fields.map fun s => (slogString s.1 s.2 : String × AttrValue γ)).filter
      (fun a => !isEmptyGroup a.2) = fields.map fun s => slogString s.1 s.2 := by
    rw [List.filter_eq_self]
    intro a ha
    rcases List.mem_map.mp ha with ⟨s, -, rfl⟩
    rfl
  rw [stampRootFields, if_neg (by simpa using h), addAttrs, hstrings]

/-- A stamped field is in the record. -/
theorem stamped_stampRootFields {fields : List (String × String)} (hmem : (key, value) ∈ fields)
    (hnodup : (fields.map Prod.fst).Nodup) (hclean : ∀ s ∈ fields, cleanKey s.1 = s.1) :
    Stamped (stampRootFields record fields) key value := by
  rw [stampRootFields_eq (List.ne_nil_of_mem hmem)]
  generalize hothers : addAttrs [] (record.filter fun a =>
    !fields.any fun s => s.1 == a.1 || reservedWireNames s.1 == a.1) = others
  have hothers' : ∀ a ∈ others, a.1 ≠ key := by
    intro a ha
    rw [← hothers] at ha
    have hkept := List.of_mem_filter (List.mem_of_mem_filter ha)
    rintro rfl
    simp only [Bool.not_eq_true', List.any_eq_false] at hkept
    simpa using hkept (a.1, value) hmem
  rcases List.append_of_mem hmem with ⟨before, after, rfl⟩
  rw [List.map_append, List.map_cons, List.nodup_append] at hnodup
  rcases hnodup with ⟨-, hafter, hbefore⟩
  rw [List.nodup_cons] at hafter
  refine ⟨others ++ before.map fun s => slogString s.1 s.2,
    after.map fun s => slogString s.1 s.2, by simp [slogString], ?_, ?_⟩
  · intro a ha
    rcases List.mem_append.mp ha with ha | ha
    · exact hothers' a ha
    · rcases List.mem_map.mp ha with ⟨s, hs, rfl⟩
      exact hbefore s.1 (List.mem_map_of_mem hs) key List.mem_cons_self
  · intro a ha
    rcases List.mem_map.mp ha with ⟨s, hs, rfl⟩
    have hkey : s.1 ≠ key := by
      rintro rfl
      exact hafter.1 (List.mem_map.mpr ⟨s, hs, rfl⟩)
    rwa [slogString, hclean s (List.mem_append_right _ (List.mem_cons_of_mem _ hs))]

/-- Stamping other fields leaves a stamped field in the record. -/
theorem Stamped.stampRootFields {fields : List (String × String)} (hs : Stamped record key value)
    (h : ∀ s ∈ fields, s.1 ≠ key ∧ reservedWireNames s.1 ≠ key ∧ cleanKey s.1 ≠ key) :
    Stamped (stampRootFields record fields) key value := by
  by_cases hnil : fields = []
  · subst hnil
    exact hs
  · rw [stampRootFields_eq hnil]
    apply Stamped.append
    · apply Stamped.addAttrs_nil
      apply hs.filter
      simp only [Bool.not_eq_true', List.any_eq_false, Bool.or_eq_true, beq_iff_eq, not_or]
      intro s hmem
      exact ⟨(h s hmem).1, (h s hmem).2.1⟩
    · intro a ha
      rcases List.mem_map.mp ha with ⟨s, hmem, rfl⟩
      exact (h s hmem).2.2

/-- Stamping takes out the wire names of what it stamps. -/
theorem absent_stampRootFields {fields : List (String × String)} {field : String × String}
    (hmem : field ∈ fields) (h : ∀ s ∈ fields, s.1 ≠ reservedWireNames field.1) :
    Absent (stampRootFields record fields) (reservedWireNames field.1) := by
  rw [stampRootFields_eq (List.ne_nil_of_mem hmem)]
  apply Absent.append
  · intro a ha hkey
    have hkept := List.of_mem_filter (List.mem_of_mem_filter ha)
    simp only [Bool.not_eq_true', List.any_eq_false] at hkept
    simpa [hkey] using hkept field hmem
  · intro a ha
    rcases List.mem_map.mp ha with ⟨s, hs, rfl⟩
    exact h s hs

/-- Stamping other fields brings no key back. -/
theorem Absent.stampRootFields {fields : List (String × String)} (ha : Absent record key)
    (h : ∀ s ∈ fields, s.1 ≠ key) : Absent (stampRootFields record fields) key := by
  by_cases hnil : fields = []
  · subst hnil
    exact ha
  · rw [stampRootFields_eq hnil]
    apply Absent.append
    · exact (ha.filter _).addAttrs_nil
    · intro a hmem
      rcases List.mem_map.mp hmem with ⟨s, hs, rfl⟩
      exact h s hs

variable {h : Handler σ γ α} {field : String × String}

omit [Scalars α] in
theorem mem_standardFields (hf : field ∈ standardFields h) :
    field.1 = "service.name" ∨ field.1 = "service.env" ∨ field.1 = "service.version" := by
  have hmem := List.mem_of_mem_filter hf
  simp only [List.mem_cons, List.not_mem_nil, or_false] at hmem
  rcases hmem with rfl | rfl | rfl <;> simp

omit [Scalars α] in
theorem mem_traceFields (hf : field ∈ traceFields h) :
    field.1 = "trace.id" ∨ field.1 = "span.id" := by
  have hmem := List.mem_of_mem_filter hf
  simp only [List.mem_cons, List.not_mem_nil, or_false] at hmem
  rcases hmem with rfl | rfl <;> simp

/-- The keys of the stamped fields. -/
def stampedKeys : List String :=
  ["service.name", "service.env", "service.version", "trace.id", "span.id"]

omit [Scalars α] in
theorem mem_stampedFields (hf : field ∈ stampedFields h) : field.1 ∈ stampedKeys := by
  rcases List.mem_append.mp hf with hf | hf
  · rcases mem_standardFields hf with hk | hk | hk <;> rw [hk] <;> decide
  · rcases mem_traceFields hf with hk | hk <;> rw [hk] <;> decide

theorem cleanKey_of_stamped (hkey : key ∈ stampedKeys) :
    cleanKey key = key ∧ cleanKey (reservedWireNames key) = reservedWireNames key := by
  simp only [stampedKeys, List.mem_cons, List.not_mem_nil, or_false] at hkey
  rcases hkey with rfl | rfl | rfl | rfl | rfl <;> decide

omit [Scalars α] in
/-- The fields that the handler stamps are in the record before the PII stage. -/
theorem stamped_prepared (r : Record γ) (hf : field ∈ stampedFields h) :
    Stamped (prepared h r) field.1 field.2 := by
  have hkey := mem_stampedFields hf
  have hstamped : Stamped (stampedRecord h r) field.1 field.2 := by
    rw [stampedRecord]
    rcases List.mem_append.mp hf with hf | hf
    · apply Stamped.stampRootFields
      · apply stamped_stampRootFields hf
        · apply List.Nodup.sublist (List.filter_sublist.map Prod.fst)
          simp
        · intro s hs
          exact (cleanKey_of_stamped (mem_stampedFields (List.mem_append_left _ hs))).1
      · intro s hs
        rcases mem_standardFields hf with hk | hk | hk <;>
          rcases mem_traceFields hs with hk' | hk' <;> rw [hk, hk'] <;> decide
    · apply stamped_stampRootFields hf
      · apply List.Nodup.sublist (List.filter_sublist.map Prod.fst)
        simp
      · intro s hs
        exact (cleanKey_of_stamped (mem_stampedFields (List.mem_append_right _ hs))).1
  have hother : cleanKey "_schema_error" ≠ field.1 ∧ cleanKey "error_fingerprint" ≠ field.1 := by
    simp only [stampedKeys, List.mem_cons, List.not_mem_nil, or_false] at hkey
    rcases hkey with hk | hk | hk | hk | hk <;> rw [hk] <;> decide
  have hschema : Stamped (annotateSchema h r.message (stampedRecord h r)) field.1 field.2 := by
    rw [annotateSchema]
    split
    next => exact hstamped.addAttrs (by simpa [slogString] using hother.1)
    next => exact hstamped
  rw [prepared, applyErrorFingerprint]
  split
  next => exact hschema
  next => exact hschema.addAttrs_nil.addAttrs (by simpa [slogString] using hother.2)

omit [Scalars α] in
/-- Their wire names are not. -/
theorem absent_prepared (r : Record γ) (hf : field ∈ stampedFields h) :
    Absent (prepared h r) (reservedWireNames field.1) := by
  have hkey := mem_stampedFields hf
  have habsent : Absent (stampedRecord h r) (reservedWireNames field.1) := by
    rw [stampedRecord]
    rcases List.mem_append.mp hf with hf | hf
    · apply Absent.stampRootFields
      · apply absent_stampRootFields hf
        intro s hs
        rcases mem_standardFields hf with hk | hk | hk <;>
          rcases mem_standardFields hs with hk' | hk' | hk' <;> rw [hk, hk'] <;> decide
      · intro s hs
        rcases mem_standardFields hf with hk | hk | hk <;>
          rcases mem_traceFields hs with hk' | hk' <;> rw [hk, hk'] <;> decide
    · apply absent_stampRootFields hf
      intro s hs
      rcases mem_traceFields hf with hk | hk <;>
        rcases mem_traceFields hs with hk' | hk' <;> rw [hk, hk'] <;> decide
  have hother : "_schema_error" ≠ reservedWireNames field.1 ∧
      "error_fingerprint" ≠ reservedWireNames field.1 := by
    simp only [stampedKeys, List.mem_cons, List.not_mem_nil, or_false] at hkey
    rcases hkey with hk | hk | hk | hk | hk <;> rw [hk] <;> decide
  have hschema : Absent (annotateSchema h r.message (stampedRecord h r))
      (reservedWireNames field.1) := by
    rw [annotateSchema]
    split
    next => exact habsent.addAttrs (by simpa [Absent, slogString] using hother.1)
    next => exact habsent
  rw [prepared, applyErrorFingerprint]
  split
  next => exact hschema
  next => exact hschema.addAttrs_nil.addAttrs (by simpa [Absent, slogString] using hother.2)

/-! ## The rounds of a name -/

variable {name : String}

theorem filter_cleanedRecordAttrs (record : Attrs γ) (name : String) :
    (cleanedRecordAttrs record).filter (fun a => a.1 = name) =
      (record.filter fun a => cleanKey a.1 = name).map fun a => (cleanKey a.1, a.2) := by
  rw [cleanedRecordAttrs, List.filter_map]
  rfl

/-- A stamped field comes in the round after those of the attributes that squat on its key. -/
theorem getElem?_of_stamped (hs : Stamped record key value) (hclean : cleanKey key = key) :
    ((cleanedRecordAttrs record).filter fun a => a.1 = key)[squatters record key]? =
        some (key, .str value) ∧
      ((cleanedRecordAttrs record).map Prod.fst).count key = squatters record key + 1 := by
  rcases hs with ⟨before, after, rfl, hbefore, hafter⟩
  have hnone : (after.filter fun a => cleanKey a.1 = key) = [] := by
    rw [List.filter_eq_nil_iff]
    intro a ha
    simpa using hafter a ha
  have hsquat : squatters (before ++ (key, .str value) :: after) key =
      (before.filter fun a => cleanKey a.1 = key).length := by
    have hrest : (after.filter fun a => a.1 ≠ key ∧ cleanKey a.1 = key) = [] := by
      rw [List.filter_eq_nil_iff]
      intro a ha
      simp [hafter a ha]
    have hfirst : (before.filter fun a => a.1 ≠ key ∧ cleanKey a.1 = key) =
        before.filter fun a => cleanKey a.1 = key := by
      apply List.filter_congr
      intro a ha
      simp [hbefore a ha]
    rw [squatters, List.filter_append, hfirst, List.filter_cons_of_neg (by simp), hrest,
      List.append_nil]
  have hall : ((before ++ (key, .str value) :: after).filter fun a => cleanKey a.1 = key) =
      (before.filter fun a => cleanKey a.1 = key) ++ [(key, .str value)] := by
    rw [List.filter_append, List.filter_cons_of_pos (by simpa using hclean), hnone]
  rw [← length_filter_key, filter_cleanedRecordAttrs, hall, hsquat]
  constructor
  · simp [hclean]
  · simp

/-- Where no attribute has the name, all that clean to it squat on it. -/
theorem count_of_absent (ha : Absent record name) :
    ((cleanedRecordAttrs record).map Prod.fst).count name = squatters record name := by
  rw [← length_filter_key, filter_cleanedRecordAttrs, List.length_map, squatters]
  congr 1
  apply List.filter_congr
  intro a hmem
  simp [ha a hmem]

/-- The names of a round are clean. -/
theorem cleanKey_of_mem_roundKeys {i : ℕ} (hk : key ∈ roundKeys record i) :
    cleanKey key = key := by
  rw [roundKeys, mem_keys_round] at hk
  have hmem : key ∈ (cleanedRecordAttrs record).map Prod.fst :=
    List.count_pos_iff.mp (Nat.zero_lt_of_lt hk)
  rcases List.mem_map.mp hmem with ⟨a, ha, rfl⟩
  rcases List.mem_map.mp ha with ⟨a', -, rfl⟩
  exact cleanKey_cleanKey a'.1

/-- A later round has fewer names, so what the cap keeps in a round it keeps in the later
ones. -/
theorem survivesCap_of_le {i j maxAttrCount : ℕ} (hij : i ≤ j)
    (hs : survivesCap maxAttrCount (roundKeys record i) key) :
    survivesCap maxAttrCount (roundKeys record j) key := by
  have hsub : (roundKeys record j).filter (· < key) ⊆ (roundKeys record i).filter (· < key) := by
    intro k hk
    rw [List.mem_filter, roundKeys, mem_keys_round] at hk ⊢
    exact ⟨by omega, hk.2⟩
  have hnodup : ((roundKeys record j).filter (· < key)).Nodup :=
    (SortedMap.nodup_keys _).filter _
  have hlen := (hnodup.subperm hsub).length_le
  rw [survivesCap, hasRoom] at hs ⊢
  omega

/-- No class tag is a stamped key or a wire name. -/
theorem classTag_ne_of_stamped (hkey : key ∈ stampedKeys) (j : String) :
    classTag j ≠ key ∧ classTag j ≠ reservedWireNames key := by
  have hstart : (classTag j).toList.take 2 = ['_', '_'] := by
    simp [classTag]
  simp only [stampedKeys, List.mem_cons, List.not_mem_nil, or_false] at hkey
  constructor
  · intro htag
    rw [htag] at hstart
    rcases hkey with rfl | rfl | rfl | rfl | rfl <;> revert hstart <;> decide
  · intro htag
    rw [htag] at hstart
    rcases hkey with rfl | rfl | rfl | rfl | rfl <;> revert hstart <;> decide

variable (h) in
/-- What reaches the root of the attribute of a name in a round. -/
def leaves (record : Attrs γ) (name : String) (i : ℕ) : Option (Value α) :=
  (sanitizedRound h (cleanedRecordAttrs record) i name).filter fun v => !isHollow v

theorem leaves_eq (htag : ∀ j, classTag j ≠ name) (record : Attrs γ) (i : ℕ) :
    leaves h record name i =
      ((hardenedRound h (cleanedRecordAttrs record) i).lookup name).bind fun v =>
        (leftOf h.env h.hooks h.rules h.cfg.sanitize 0 name v).filter fun w => !isHollow w := by
  rw [leaves, sanitizedRound, lookup_sanitizePayload htag]
  cases (hardenedRound h (cleanedRecordAttrs record) i).lookup name <;> rfl

/-- A name is squatted on exactly if one of the attributes that do so reaches the root. -/
theorem squatted_iff (htag : ∀ j, classTag j ≠ name) (record : Attrs γ) :
    Squatted h record name ↔ ∃ i < squatters record name, leaves h record name i ≠ none := by
  simp only [Squatted, leaves_eq htag, Option.ne_none_iff_exists', Option.bind_eq_some_iff,
    Option.filter_eq_some_iff, Bool.not_eq_true']
  constructor
  · rintro ⟨i, hi, v, w, hv, hw, hhollow⟩
    exact ⟨i, hi, w, v, hv, hw, hhollow⟩
  · rintro ⟨i, hi, w, v, hv, hw, hhollow⟩
    exact ⟨i, hi, v, w, hv, hw, hhollow⟩

/-- What stands at the root under a name, round by round. -/
theorem filter_handle (r : Record γ) (hname : name ∉ ["filename", "lineno"]) :
    ((handle h r).attrs.filter fun a => a.1 = name).map Prod.snd =
      (List.range (((cleanedRecordAttrs (prepared h r)).map Prod.fst).count name)).filterMap
        (leaves h (prepared h r) name) := by
  have hcallsite : ∀ out : List (String × Value α),
      (applyCallsite h out).filter (fun a => a.1 = name) = out.filter fun a => a.1 = name := by
    intro out
    rw [applyCallsite]
    split
    next => rfl
    next =>
      split
      next => rfl
      next file line _ =>
        simp only [List.mem_cons, List.not_mem_nil, or_false, not_or] at hname
        rw [List.filter_append, List.filter_filter]
        have hown : [("filename", text (callsiteBaseName file)), ("lineno", line)].filter
            (fun a => a.1 = name) = [] := by
          simp [Ne.symm hname.1, Ne.symm hname.2]
        rw [hown, List.append_nil]
        apply List.filter_congr
        intro a _
        by_cases ha : a.1 = name
        · simp [ha, hname]
        · simp [ha]
  rw [handle, hcallsite, applyPII, List.filter_filter]
  have hcomm : (fun a : String × Value α => decide (a.1 = name) && !isHollow a.2) =
      fun a => !isHollow a.2 && decide (a.1 = name) := by
    funext a
    exact Bool.and_comm _ _
  rw [hcomm, ← List.filter_filter]
  have hsnd : ∀ out : List (String × Value α), (out.filter fun a => !isHollow a.2).map Prod.snd =
      (out.map Prod.snd).filter fun v => !isHollow v := by
    intro out
    rw [List.filter_map]
    rfl
  rw [hsnd, rebuildInOrder, filter_rebuilt, List.filter_filterMap]
  rfl

/-! ## Which records are genuine -/

/-- The stamped field reaches the root, as the PII stage leaves it, exactly if the cap keeps
it. -/
theorem leaves_of_stamped (hkey : key ∈ stampedKeys) (hs : Stamped record key value) :
    leaves h record key (squatters record key) =
      if survivesCap (limits h).maxAttrCount (roundKeys record (squatters record key)) key then
        leftBehind h (key, value) else none := by
  have htag := fun j => (classTag_ne_of_stamped hkey j).1
  have hround : (round (cleanedRecordAttrs record) (roundsOf (cleanedRecordAttrs record))
      (squatters record key)).lookup key = some (.str value) := by
    rw [lookup_round, (getElem?_of_stamped hs (cleanKey_of_stamped hkey).1).1]
    rfl
  rw [leaves_eq htag, hardenedRound,
    lookup_hardenAttrs_str _ _ (fun k hk => cleanKey_of_mem_roundKeys hk) hround, ← limits,
    roundKeys]
  split
  next =>
    rw [Option.bind_some, leftBehind]
    cases hleft : leftOf h.env h.hooks h.rules h.cfg.sanitize 0 key
        (jsonText (hardenString value (limits h))) with
    | none => rfl
    | some w =>
        -- of a string a string is left, which is no group
        rcases leftOf_text hleft with ⟨t, rfl⟩
        rfl
  next => rfl

/-- The attribute of a squatter that reaches the root has survived the cap. -/
theorem survivesCap_of_leaves {i : ℕ} (htag : ∀ j, classTag j ≠ name)
    (hi : leaves h record name i ≠ none) :
    survivesCap (limits h).maxAttrCount (roundKeys record i) name := by
  rw [leaves_eq htag] at hi
  have hclean : ∀ k ∈ roundKeys record i, cleanKey k = k :=
    fun k hk => cleanKey_of_mem_roundKeys hk
  cases hround : (round (cleanedRecordAttrs record) (roundsOf (cleanedRecordAttrs record)) i).lookup
      name with
  | none =>
      rw [hardenedRound, lookup_hardenAttrs_of_absent _ _ hclean hround] at hi
      exact absurd rfl hi
  | some v =>
      rcases lookup_hardenAttrs (limits h) h.reflection hclean hround with
        ⟨hroom, -⟩ | ⟨-, hnone⟩
      · exact hroom
      · rw [hardenedRound, ← limits, hnone] at hi
        exact absurd rfl hi

/-- Nothing of a list of rounds reaches the root exactly if nothing of each does. -/
theorem filterMap_range_eq_nil {β : Type} {f : ℕ → Option β} {n : ℕ} :
    (List.range n).filterMap f = [] ↔ ¬ ∃ i < n, f i ≠ none := by
  simp [List.filterMap_eq_nil_iff]

/-- No stamped key and no wire name is a callsite field. -/
theorem not_callsite_of_stamped (hkey : key ∈ stampedKeys) :
    key ∉ ["filename", "lineno"] ∧ reservedWireNames key ∉ ["filename", "lineno"] := by
  simp only [stampedKeys, List.mem_cons, List.not_mem_nil, or_false] at hkey
  rcases hkey with rfl | rfl | rfl | rfl | rfl <;> decide

/-- What stands at the root under a stamped key: what the squatters on it leave, and then the
field if the cap keeps it. -/
theorem filter_handle_of_stamped (r : Record γ) (hf : field ∈ stampedFields h) :
    ((handle h r).attrs.filter fun a => a.1 = field.1).map Prod.snd =
      (List.range (squatters (prepared h r) field.1)).filterMap
          (leaves h (prepared h r) field.1) ++
        (if Fits h (prepared h r) field.1 then leftBehind h field else none).toList := by
  have hkey := mem_stampedFields hf
  have hs := stamped_prepared r hf
  rw [filter_handle r (not_callsite_of_stamped hkey).1,
    (getElem?_of_stamped hs (cleanKey_of_stamped hkey).1).2, List.range_succ,
    List.filterMap_append, List.filterMap_cons, leaves_of_stamped hkey hs]
  congr 1

/-- Nothing stands at the root under a wire name exactly if no squatter on it gets there. -/
theorem absent_handle_iff (r : Record γ) (hf : field ∈ stampedFields h) :
    (∀ a ∈ (handle h r).attrs, a.1 ≠ reservedWireNames field.1) ↔
      ¬ Squatted h (prepared h r) (reservedWireNames field.1) := by
  have hkey := mem_stampedFields hf
  rw [squatted_iff fun j => (classTag_ne_of_stamped hkey j).2, ← filterMap_range_eq_nil,
    ← count_of_absent (absent_prepared r hf), ← filter_handle r (not_callsite_of_stamped hkey).2,
    List.map_eq_nil_iff, List.filter_eq_nil_iff]
  simp only [decide_eq_true_eq]

/-- A field that comes after a squatter that reaches the root fits as well. -/
theorem fits_of_squatted (hkey : key ∈ stampedKeys) (hsquat : Squatted h record key) :
    Fits h record key := by
  have htag := fun j => (classTag_ne_of_stamped hkey j).1
  rcases (squatted_iff htag record).mp hsquat with ⟨i, hi, hleaves⟩
  exact survivesCap_of_le hi.le (survivesCap_of_leaves htag hleaves)

/-- **Which records have genuine root fields**: those in which no attribute that squats on a
stamped key or its wire name reaches the root, and in which the cap keeps every stamped field
of which the PII stage leaves anything. -/
theorem genuine_handle_iff (h : Handler σ γ α) (r : Record γ) :
    Genuine h (handle h r) ↔ ∀ field ∈ stampedFields h,
      ¬ Squatted h (prepared h r) field.1 ∧
        ¬ Squatted h (prepared h r) (reservedWireNames field.1) ∧
        (Fits h (prepared h r) field.1 ∨ leftBehind h field = none) := by
  have hsquat : ∀ field ∈ stampedFields h, ¬ Squatted h (prepared h r) field.1 ↔
      (List.range (squatters (prepared h r) field.1)).filterMap
        (leaves h (prepared h r) field.1) = [] := by
    intro field hf
    rw [filterMap_range_eq_nil,
      squatted_iff fun j => (classTag_ne_of_stamped (mem_stampedFields hf) j).1]
  constructor
  · intro hgenuine field hf
    have hroot := hgenuine.stamped field hf
    rw [filter_handle_of_stamped r hf] at hroot
    have hfree : ¬ Squatted h (prepared h r) field.1 := by
      intro hsquatted
      -- the field fits too, so there is one value too many
      rw [if_pos (fits_of_squatted (mem_stampedFields hf) hsquatted)] at hroot
      exact (hsquat field hf).mpr (List.append_left_eq_self.mp hroot) hsquatted
    refine ⟨hfree, (absent_handle_iff r hf).mp (hgenuine.unshadowed field hf), ?_⟩
    rw [(hsquat field hf).mp hfree, List.nil_append] at hroot
    by_cases hfits : Fits h (prepared h r) field.1
    · exact .inl hfits
    · rw [if_neg hfits] at hroot
      right
      cases hleft : leftBehind h field with
      | none => rfl
      | some w => simp [hleft] at hroot
  · intro hcond
    constructor
    case stamped =>
      intro field hf
      rcases hcond field hf with ⟨hfree, -, hfits⟩
      rw [filter_handle_of_stamped r hf, (hsquat field hf).mp hfree, List.nil_append]
      rcases hfits with hfits | hnone
      · rw [if_pos hfits]
      · rw [hnone, ite_self]
    case unshadowed =>
      intro field hf
      exact (absent_handle_iff r hf).mpr (hcond field hf).2.1

/-- A handler in a live trace, with a cap on the attributes of a record. -/
def tracing (maxAttrCount : ℤ) : Handler Unit Empty String where
  cfg :=
    { serviceName := "", environment := "", version := ""
      security := { maxNestingDepth := 0, maxAttrValueLength := 0, maxAttrCount }
      sanitize := true, includeCaller := false, requiredKeys := [] }
  name := ""
  bound := []
  contextFields := []
  traceID := "0af7651916cd43dd8448eb211c80319c"
  spanID := ""
  strictSchema := false
  rules := []
  hooks := {}
  env :=
    { sprintf := fun _ => ""
      hashCanonicalizer := fun _ => ""
      sha256Hex := fun s => s
      toLower := Char.toLower
      replaceSecretSpans := fun _ => none }
  reflection := { initial := (), hardenOther := fun _ _ v => v.elim }
  sprint := fun _ => ""
  sprintQuoted := fun s => s
  frame := none

/-- `slog.Info("m", "trace.i\x00d", "attacker")` -/
def forging : Record Empty where
  message := "m"
  attrs := [slogString "trace.i\x00d" "attacker"]

/-- The attacker's trace stands at the root before the live one. -/
theorem not_genuine_handle_forging : ¬ Genuine (tracing 0) (handle (tracing 0) forging) := by
  intro hgenuine
  have hroot := hgenuine.stamped ("trace.id", "0af7651916cd43dd8448eb211c80319c") (by decide)
  have htwo : (((handle (tracing 0) forging).attrs.filter fun a => a.1 = "trace.id").map
      Prod.snd).length = 2 := by
    with_unfolding_all decide
  rw [hroot] at htwo
  cases hleft : leftBehind (tracing 0) ("trace.id", "0af7651916cd43dd8448eb211c80319c") with
  | none => simp [hleft] at htwo
  | some w => simp [hleft] at htwo

/-- With a cap of one any attribute whose key sorts first takes the place of the trace. -/
example : (handle (tracing 1) { message := "m", attrs := [slogString "a" "b"] }).attrs.map
    Prod.fst = ["a"] := by
  with_unfolding_all decide

end Telemetry.Logging.Go
