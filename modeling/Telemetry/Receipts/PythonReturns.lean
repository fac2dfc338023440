import Telemetry.Receipts.Python

/-!
# What raises in the canonicalization of the Python SDK

The canonical form itself raises at an integer with too many digits and at a name with a
surrogate, which cannot be sorted; what encodes it raises at a surrogate in any string that it
reads. Both are one question asked of different code points, and one induction answers them.

## Main definitions

* `Yields` — the computation returned, and every code point of the text is allowed.
* `Throughout` — the same of everything that the canonical form reads.

## Main results

* `returns_canonicalJson_iff`, `returns_signReceipt_iff`, `returns_mask_iff` — what each returns
  on.
* `returns_iff` — **what all three return on**.
-/

namespace Telemetry.Receipts.Python

open Telemetry.Lib

/-- The keys have these names, no two of which are the same. -/
def Named (keys : List Key) (names : List CodePoints) : Prop :=
  keys.map Key.toStr = names.map .ok ∧ names.Nodup

/-- Whether a scalar is rendered, and its code points are allowed. -/
def Scalar.Allowed (q : CodePoint → Prop) : Scalar → Prop
  | .int n => (Nat.toDigits 10 n.natAbs).length ≤ intMaxStrDigits
  | .str text => ∀ c ∈ text, q c
  | _ => True

mutual
/-- Everything that the canonical form reads is allowed: no integer has too many digits, every
string is made of allowed code points, and the names of a dict, where it has names, can be
sorted. -/
def Throughout (q : CodePoint → Prop) (seen : List ℕ) : Value → Prop
  | .scalar a => a.Allowed q
  | .list id items => id ∈ seen ∨ ThroughoutItems q (id :: seen) items
  | .dict id entries => id ∈ seen ∨ ∀ names, Named (entries.map Prod.fst) names →
      (∀ name ∈ names, name.WellFormed) ∧ ThroughoutEntries q (id :: seen) entries
/-- The items of a list. -/
def ThroughoutItems (q : CodePoint → Prop) (seen : List ℕ) : List Value → Prop
  | [] => True
  | item :: items => Throughout q seen item ∧ ThroughoutItems q seen items
/-- The values of a dict. -/
def ThroughoutEntries (q : CodePoint → Prop) (seen : List ℕ) : List (Key × Value) → Prop
  | [] => True
  | (_, item) :: entries => Throughout q seen item ∧ ThroughoutEntries q seen entries
end

/-- The canonical form exists. -/
def Representable (value : Value) : Prop := Throughout (fun _ => True) [] value

/-- The canonical form exists and can be encoded. -/
def Encodable (value : Value) : Prop := Throughout (fun c => c.char?.isSome = true) [] value

/-- The arguments that are signed can be encoded. -/
def Identity.Encodable (args : Identity) : Prop :=
  ∀ text ∈ [args.receiptId, args.timestamp, args.fieldPath, args.action], text.WellFormed

/-- The computation returned a text of allowed code points. -/
def Yields (q : CodePoint → Prop) (x : Except PyError CodePoints) : Prop :=
  ∃ text, x = .ok text ∧ ∀ c ∈ text, q c

variable {q : CodePoint → Prop} {α : Type}

/-! ## Texts -/

@[simp] theorem yields_ok {text : CodePoints} :
    Yields q (.ok text) ↔ ∀ c ∈ text, q c := by
  simp [Yields]

@[simp] theorem not_yields_error {e : PyError} : ¬ Yields q (.error e) := by
  simp [Yields]

/-- With every code point allowed, to yield is to return. -/
theorem yields_true_iff {x : Except PyError CodePoints} :
    Yields (fun _ => True) x ↔ Returns x := by
  simp [Yields, Returns]

/-- With the surrogates forbidden, it is to return something that can be encoded. -/
theorem returns_encoded_iff {text : CodePoints} :
    Returns (encoded text.encodeUtf8) ↔ text.WellFormed := by
  rw [← CodePoints.isSome_encodeUtf8_iff]
  cases text.encodeUtf8 <;> simp [encoded]

theorem returns_sortKey_iff {key : CodePoints} : Returns (sortKey key) ↔ key.WellFormed := by
  rw [← CodePoints.isSome_encodeUtf16Be_iff, sortKey]
  cases key.encodeUtf16Be <;> simp [encoded]

/-- An escape allows what the code point it is for does. -/
theorem forall_mem_escape (hq : ∀ c, q (.scalar c)) (c : CodePoint) :
    (∀ d ∈ escape c, q d) ↔ q c := by
  cases c with
  | surrogate offset => simp [escape.eq_def]
  | scalar c =>
      rw [iff_true_right (hq c), escape.eq_def]
      split
      any_goals exact CodePoints.forall_mem_ofString hq _
      · rename_i h
        cases h
      · split
        · exact CodePoints.forall_mem_ofChars hq _
        · simpa using hq _

theorem forall_mem_jsonString (hq : ∀ c, q (.scalar c)) (text : CodePoints) :
    (∀ c ∈ jsonString text, q c) ↔ ∀ c ∈ text, q c := by
  have hquote : ∀ c ∈ CodePoints.ofString "\"", q c := CodePoints.forall_mem_ofString hq _
  rw [jsonString, List.forall_mem_append, List.forall_mem_append, and_iff_left hquote,
    and_iff_right hquote, List.forall_mem_flatMap]
  simp only [forall_mem_escape hq]

/-- `str` of an integer is a text of scalar values. -/
theorem yields_strInt_iff (hq : ∀ c, q (.scalar c)) (n : ℤ) :
    Yields q (strInt n) ↔ (Nat.toDigits 10 n.natAbs).length ≤ intMaxStrDigits := by
  rw [strInt]
  split
  · rename_i hlong
    simp [Nat.not_le.mpr hlong]
  · rename_i hshort
    simp only [yields_ok, Nat.not_lt.mp hshort, iff_true]
    exact CodePoints.forall_mem_ofChars hq _

/-- What `_canonical` does on a scalar. -/
theorem yields_canonicalScalar_iff (hq : ∀ c, q (.scalar c)) (a : Scalar) :
    Yields q (canonicalScalar a) ↔ a.Allowed q := by
  have hstring := CodePoints.forall_mem_ofString hq
  cases a with
  | none => simpa only [canonicalScalar, null, Scalar.Allowed, iff_true, yields_ok] using hstring _
  | bool b => simpa only [canonicalScalar, Scalar.Allowed, iff_true, yields_ok] using hstring _
  | other => simpa only [canonicalScalar, null, Scalar.Allowed, iff_true, yields_ok] using hstring _
  | int n => exact yields_strInt_iff hq n
  | str text => simp only [canonicalScalar, yields_ok, forall_mem_jsonString hq, Scalar.Allowed]
  | float x =>
      simp only [canonicalScalar, Scalar.Allowed, iff_true]
      split
      · rename_i hfinite
        rcases returns_formatNumber hfinite with ⟨text, htext⟩
        rw [htext]
        exact ⟨_, rfl, CodePoints.forall_mem_ofChars hq text⟩
      · exact yields_ok.mpr (hstring _)

/-! ## Lists -/

/-- The parts of a list or a dict, between brackets. -/
theorem yields_joined_iff (hq : ∀ c, q (.scalar c)) (f : α → Except PyError CodePoints)
    (items : List α) (opening closing : String) :
    Yields q (do
      let parts ← items.mapM f
      pure (CodePoints.ofString opening ++ commaJoined parts ++ CodePoints.ofString closing)) ↔
      ∀ item ∈ items, Yields q (f item) := by
  have hstring := CodePoints.forall_mem_ofString hq
  constructor
  · rintro ⟨text, htext, hallowed⟩
    rcases bind_eq_ok_iff.mp htext with ⟨parts, hparts, hpure⟩
    cases hpure
    rw [List.forall_mem_append, List.forall_mem_append, and_iff_left (hstring _),
      and_iff_right (hstring _), commaJoined, CodePoints.forall_mem_intercalate (hstring _)]
      at hallowed
    intro item hitem
    have hmem : f item ∈ parts.map Except.ok := by
      rw [← mapM_eq_ok_iff.mp hparts]
      exact List.mem_map_of_mem hitem
    rcases List.mem_map.mp hmem with ⟨part, hpart, heq⟩
    exact ⟨part, heq.symm, hallowed part hpart⟩
  · intro h
    have hreturns : Returns (items.mapM f) := by
      rw [returns_mapM_iff]
      intro item hitem
      rcases h item hitem with ⟨part, hpart, -⟩
      exact ⟨part, hpart⟩
    rcases hreturns with ⟨parts, hparts⟩
    rw [hparts]
    refine ⟨_, rfl, ?_⟩
    rw [List.forall_mem_append, List.forall_mem_append, and_iff_left (hstring _),
      and_iff_right (hstring _), commaJoined, CodePoints.forall_mem_intercalate (hstring _)]
    intro part hpart
    have hmem : .ok part ∈ items.map f := by
      rw [mapM_eq_ok_iff.mp hparts]
      exact List.mem_map_of_mem hpart
    rcases List.mem_map.mp hmem with ⟨item, hitem, heq⟩
    have hitem' := h item hitem
    rw [heq] at hitem'
    exact yields_ok.mp hitem'

theorem yields_canonicalSequence_iff (hq : ∀ c, q (.scalar c))
    (items : List (Except PyError CodePoints)) :
    Yields q (canonicalSequence items) ↔ ∀ item ∈ items, Yields q item :=
  yields_joined_iff hq id items "[" "]"

/-! ## Dicts -/

/-- The loop over the keys ends with the names of all of them, or with nothing. -/
theorem nameAll_eq_some_iff {named pairs : List (CodePoints × α)} {items : List (Key × α)}
    (hnodup : (named.map Prod.fst).Nodup) :
    nameAll named items = some pairs ↔
      ∃ names, items.map (fun item => item.1.toStr) = names.map .ok ∧
        (named.map Prod.fst ++ names).Nodup ∧
        pairs = named ++ names.zip (items.map Prod.snd) := by
  induction items generalizing named with
  | nil =>
      rw [nameAll, Option.some.injEq]
      constructor
      · rintro rfl
        exact ⟨[], rfl, by simpa using hnodup, by simp⟩
      · rintro ⟨names, hnames, -, rfl⟩
        rw [List.map_eq_nil_iff.mp hnames.symm]
        simp
  | cons entry items ih =>
      rcases entry with ⟨key, item⟩
      rw [nameAll]
      cases hkey : key.toStr with
      | error e =>
          simp only [reduceCtorEq, false_iff]
          rintro ⟨names, hnames, -⟩
          cases names <;> simp [hkey] at hnames
      | ok name =>
          have hnames_iff : ∀ names, (((key, item) :: items).map fun item => item.1.toStr) =
              names.map Except.ok ↔ ∃ rest, names = name :: rest ∧
                (items.map fun item => item.1.toStr) = rest.map Except.ok := by
            intro names
            cases names with
            | nil => simp
            | cons name' rest => simp [hkey, eq_comm]
          simp only [hnames_iff]
          split
          · rename_i hmem
            simp only [reduceCtorEq, false_iff]
            rintro ⟨names, ⟨rest, rfl, -⟩, hdup, -⟩
            exact (List.nodup_append.mp hdup).2.2 name hmem name List.mem_cons_self rfl
          · rename_i hmem
            have hnodup' : ((named ++ [(name, item)]).map Prod.fst).Nodup := by
              rw [List.map_append, List.map_singleton, ← List.concat_eq_append]
              exact hnodup.concat hmem
            rw [ih hnodup']
            constructor
            · rintro ⟨rest, hrest, hdup, rfl⟩
              refine ⟨name :: rest, ⟨rest, rfl, hrest⟩, ?_, ?_⟩
              · simpa using hdup
              · simp
            · rintro ⟨names, ⟨rest, rfl, hrest⟩, hdup, rfl⟩
              refine ⟨rest, hrest, ?_, ?_⟩
              · simpa using hdup
              · simp

/-- Sorting needs the encoding of every name. -/
theorem returns_sortPairs_iff {pairs : List (CodePoints × α)} :
    Returns (sortPairs pairs) ↔ ∀ pair ∈ pairs, pair.1.WellFormed := by
  have hkey : ∀ pair : CodePoints × α,
      Returns (do
        let key ← sortKey pair.1
        pure (key, pair)) ↔ pair.1.WellFormed := by
    intro pair
    rw [← returns_sortKey_iff, returns_bind_iff_of_forall fun key _ => returns_pure (key, pair)]
  rw [sortPairs, returns_bind_iff_of_forall fun keyed _ => returns_pure _, returns_mapM_iff]
  simp only [hkey]

/-- It keeps the pairs. -/
theorem perm_of_sortPairs {pairs sorted : List (CodePoints × α)}
    (h : sortPairs pairs = .ok sorted) : sorted.Perm pairs := by
  rcases bind_eq_ok_iff.mp h with ⟨keyed, hkeyed, hpure⟩
  cases hpure
  have hsnd : keyed.map Prod.snd = pairs.map id := by
    apply map_eq_of_mapM _ hkeyed
    intro pair keyed hpair
    rcases bind_eq_ok_iff.mp hpair with ⟨key, -, hpure⟩
    cases hpure
    rfl
  have hperm := (List.perm_insertionSort (fun a b => a.1 ≤ b.1) keyed).map Prod.snd
  rwa [hsnd, List.map_id] at hperm

/-- A dict has at most one list of names. -/
theorem Named.eq {keys : List Key} {names names' : List CodePoints} (h : Named keys names)
    (h' : Named keys names') : names' = names := by
  have hmap := h'.1.symm.trans h.1
  exact List.map_injective_iff.mpr (fun _ _ => Except.ok.inj) hmap

/-- Under names that can be sorted, the values decide. -/
theorem yields_canonicalMembers_iff (hq : ∀ c, q (.scalar c))
    {pairs : List (CodePoints × Except PyError CodePoints)}
    (hnames : ∀ pair ∈ pairs, pair.1.WellFormed) :
    Yields q (canonicalMembers pairs) ↔ ∀ pair ∈ pairs, Yields q pair.2 := by
  rw [canonicalMembers, yields_joined_iff hq]
  apply forall₂_congr
  rintro ⟨name, item⟩ hpair
  have hname : ∀ c ∈ jsonString name, q c := by
    rw [forall_mem_jsonString hq]
    intro c hc
    cases c with
    | scalar c => exact hq c
    | surrogate offset => cases hnames _ hpair _ hc
  cases item with
  | error e => exact iff_of_false not_yields_error not_yields_error
  | ok text =>
      have hcolon : ∀ c ∈ CodePoints.ofString ":", q c := CodePoints.forall_mem_ofString hq _
      simp only [bind, Except.bind, pure, Except.pure, yields_ok]
      rw [List.forall_mem_append, List.forall_mem_append, and_iff_left hcolon,
        and_iff_right hname]

/-- What a dict yields: nothing is read of one without names, and one with names needs all of
them sorted and all of its values. -/
theorem yields_canonicalMapping_iff (hq : ∀ c, q (.scalar c))
    (items : List (Key × Except PyError CodePoints)) :
    Yields q (canonicalMapping items) ↔ ∀ names, Named (items.map Prod.fst) names →
      (∀ name ∈ names, name.WellFormed) ∧ ∀ item ∈ items, Yields q item.2 := by
  have hnames : ∀ pairs, nameAll [] items = some pairs ↔
      ∃ names, Named (items.map Prod.fst) names ∧ pairs = names.zip (items.map Prod.snd) := by
    intro pairs
    rw [nameAll_eq_some_iff (by simp)]
    simp [Named, Function.comp_def, and_assoc]
  rw [canonicalMapping, namedPairs]
  cases hall : nameAll [] items with
  | none =>
      have hstring : ∀ c ∈ null, q c := CodePoints.forall_mem_ofString hq _
      refine iff_of_true ⟨null, rfl, hstring⟩ ?_
      intro names hnamed
      have hsome := (hnames _).mpr ⟨names, hnamed, rfl⟩
      rw [hall] at hsome
      cases hsome
  | some pairs =>
      rcases (hnames pairs).mp hall with ⟨names, hnamed, rfl⟩
      have hlength : names.length = items.length := by
        simpa using (congrArg List.length hnamed.1).symm
      have hone : (∀ names', Named (items.map Prod.fst) names' →
          (∀ name ∈ names', name.WellFormed) ∧ ∀ item ∈ items, Yields q item.2) ↔
          (∀ name ∈ names, name.WellFormed) ∧ ∀ item ∈ items, Yields q item.2 := by
        constructor
        · intro h
          exact h names hnamed
        · intro h names' hnamed'
          rw [hnamed.eq hnamed']
          exact h
      have hwf : (∀ name ∈ names, name.WellFormed) ↔
          ∀ pair ∈ names.zip (items.map Prod.snd), pair.1.WellFormed := by
        rw [← List.forall_mem_map (f := Prod.fst), List.map_fst_zip (by simp [hlength])]
      have hitems : (∀ item ∈ items, Yields q item.2) ↔
          ∀ pair ∈ names.zip (items.map Prod.snd), Yields q pair.2 := by
        rw [← List.forall_mem_map (f := Prod.snd),
          ← List.forall_mem_map (f := Prod.snd) (P := Yields q),
          List.map_snd_zip (by simp [hlength])]
      rw [hone, hwf, hitems, ← returns_sortPairs_iff]
      cases hsorted : sortPairs (names.zip (items.map Prod.snd)) with
      | error e =>
          rw [iff_false_right fun h => not_returns_error e h.1]
          simp only [hsorted, Except.map, bind, Except.bind]
          exact not_yields_error
      | ok sorted =>
          have hperm := perm_of_sortPairs hsorted
          have hmem := returns_sortPairs_iff.mp ⟨sorted, hsorted⟩
          rw [and_iff_right (returns_ok _)]
          simp only [← hperm.mem_iff] at hmem ⊢
          simp only [hsorted, Except.map, bind, Except.bind]
          exact yields_canonicalMembers_iff hq hmem

/-! ## The canonical form -/

theorem canonicalItems_eq_map (seen : List ℕ) (items : List Value) :
    canonicalItems seen items = items.map (canonical seen) := by
  induction items with
  | nil => rfl
  | cons item items ih => rw [canonicalItems, ih, List.map_cons]

theorem canonicalEntries_eq_map (seen : List ℕ) (entries : List (Key × Value)) :
    canonicalEntries seen entries = entries.map fun e => (e.1, canonical seen e.2) := by
  induction entries with
  | nil => rfl
  | cons e entries ih => rw [canonicalEntries, ih, List.map_cons]

theorem throughoutItems_iff (seen : List ℕ) (items : List Value) :
    ThroughoutItems q seen items ↔ ∀ item ∈ items, Throughout q seen item := by
  induction items with
  | nil => simp [ThroughoutItems]
  | cons item items ih => rw [ThroughoutItems, ih, List.forall_mem_cons]

theorem throughoutEntries_iff (seen : List ℕ) (entries : List (Key × Value)) :
    ThroughoutEntries q seen entries ↔ ∀ e ∈ entries, Throughout q seen e.2 := by
  induction entries with
  | nil => simp [ThroughoutEntries]
  | cons e entries ih => rw [ThroughoutEntries, ih, List.forall_mem_cons]

/-- The canonical form yields what everything that it reads yields. -/
theorem yields_canonical_iff (hq : ∀ c, q (.scalar c)) (seen : List ℕ) (value : Value) :
    Yields q (canonical seen value) ↔ Throughout q seen value := by
  have hnull : Yields q (.ok null) := yields_ok.mpr (CodePoints.forall_mem_ofString hq _)
  induction value using Tree.induct generalizing seen with
  | scalar a => exact yields_canonicalScalar_iff hq a
  | list id items ih =>
      rw [canonical, Throughout]
      by_cases hseen : id ∈ seen
      · rw [if_pos hseen]
        exact iff_of_true hnull (Or.inl hseen)
      · rw [if_neg hseen, yields_canonicalSequence_iff hq, or_iff_right hseen,
          canonicalItems_eq_map, List.forall_mem_map, throughoutItems_iff]
        exact forall₂_congr fun item hitem => ih item hitem _
  | dict id entries ih =>
      rw [canonical, Throughout]
      by_cases hseen : id ∈ seen
      · rw [if_pos hseen]
        exact iff_of_true hnull (Or.inl hseen)
      · have hentries : (∀ e ∈ canonicalEntries (id :: seen) entries, Yields q e.2) ↔
            ThroughoutEntries q (id :: seen) entries := by
          rw [canonicalEntries_eq_map, List.forall_mem_map, throughoutEntries_iff]
          exact forall₂_congr fun e he => ih e he _
        have hkeys : (canonicalEntries (id :: seen) entries).map Prod.fst =
            entries.map Prod.fst := by
          simp [canonicalEntries_eq_map, Function.comp_def]
        rw [if_neg hseen, yields_canonicalMapping_iff hq, or_iff_right hseen, hentries, hkeys]

/-- What the canonical form exists of. -/
theorem returns_canonicalJson_iff (value : Value) :
    Returns (canonicalJson value) ↔ Representable value := by
  rw [← yields_true_iff]
  exact yields_canonical_iff (fun _ => trivial) [] value

/-- What it exists and can be encoded of. -/
theorem encodable_iff (value : Value) :
    Encodable value ↔ ∃ text, canonicalJson value = .ok text ∧ text.WellFormed :=
  (yields_canonical_iff (fun _ => rfl) [] value).symm

/-! ## Receipts and masks -/

/-- The payload can be encoded if what the caller put into it can. -/
theorem wellFormed_receiptPayload_iff (args : Identity) (hash : String) :
    (receiptPayload args.receiptId args.timestamp args.fieldPath args.action
      (CodePoints.ofString hash)).WellFormed ↔ args.Encodable := by
  have hbar : (CodePoints.ofString "|").WellFormed := CodePoints.wellFormed_ofString "|"
  have hhash : (CodePoints.ofString hash).WellFormed := CodePoints.wellFormed_ofString hash
  rw [receiptPayload, CodePoints.WellFormed, CodePoints.forall_mem_intercalate hbar,
    Identity.Encodable]
  rw [CodePoints.WellFormed] at hhash
  simp [CodePoints.WellFormed, iff_true_intro hhash]

/-- What is encoded has to be well formed, and the rest has to return whatever the bytes are. -/
theorem returns_bind_encoded_iff {β : Type} {P : Prop} {x : Except PyError CodePoints}
    {f : List UInt8 → Except PyError β} (hf : ∀ bytes, Returns (f bytes) ↔ P) :
    Returns (do
      let text ← x
      let bytes ← encoded text.encodeUtf8
      f bytes) ↔ (∃ text, x = .ok text ∧ text.WellFormed) ∧ P := by
  simp only [returns_bind_iff, hf, ← returns_encoded_iff]
  constructor
  · rintro ⟨text, htext, bytes, hbytes, h⟩
    exact ⟨⟨text, htext, bytes, hbytes⟩, h⟩
  · rintro ⟨⟨text, htext, bytes, hbytes⟩, h⟩
    exact ⟨text, htext, bytes, hbytes, h⟩

/-- What a receipt can be signed of. -/
theorem returns_signReceipt_iff (E : Env) (value : Value) (args : Identity) :
    Returns (signReceipt E value args) ↔
      Encodable value ∧ (args.key ≠ [] → args.Encodable) := by
  rw [encodable_iff, signReceipt]
  apply returns_bind_encoded_iff
  intro canonical
  simp only
  rw [returns_bind_iff_of_forall fun hmac _ => returns_pure _, signature]
  by_cases hkey : args.key = []
  · simp [hkey]
  · rw [if_neg hkey, returns_bind_iff_of_forall fun bytes _ => returns_pure _,
      returns_encoded_iff, wellFormed_receiptPayload_iff]
    simp [hkey]

/-- The text that is hashed of a value can be encoded exactly if the canonical form can. -/
theorem encodable_iff_hashedText (value : Value) :
    Encodable value ↔ ∃ text, hashedText value = .ok text ∧ text.WellFormed := by
  rw [hashedText.eq_def]
  split
  · simp [Encodable, Throughout, Scalar.Allowed, CodePoints.WellFormed]
  · exact encodable_iff value

/-- What can be hashed. -/
theorem returns_mask_iff (E : Env) (value : Value) (truncateTo : ℤ) :
    Returns (mask E value .hash truncateTo) ↔ Encodable value := by
  rw [encodable_iff_hashedText, ← and_true (∃ text, hashedText value = .ok text ∧ _)]
  exact returns_bind_encoded_iff fun bytes => iff_true_intro (returns_pure _)

/-- **What all three return on.** -/
theorem returns_iff (E : Env) (value : Value) (args : Identity) (truncateTo : ℤ) :
    Returns (canonicalJson value) ∧ Returns (signReceipt E value args) ∧
        Returns (mask E value .hash truncateTo) ↔
      Encodable value ∧ (args.key ≠ [] → args.Encodable) := by
  rw [returns_signReceipt_iff, returns_mask_iff]
  constructor
  · rintro ⟨-, hsigned, -⟩
    exact hsigned
  · intro h
    rcases (encodable_iff value).mp h.1 with ⟨text, htext, -⟩
    exact ⟨⟨text, htext⟩, h, h.1⟩

/-- The one name of the dict cannot be sorted. -/
theorem not_returns_loneSurrogate :
    ¬ Returns (canonicalJson (.dict 1 [(.str [.surrogate 0], .scalar (.int 1))])) := by
  have herror : canonicalJson (.dict 1 [(.str [.surrogate 0], .scalar (.int 1))]) =
      .error .unicodeEncodeError := rfl
  rw [herror]
  exact not_returns_error _

end Telemetry.Receipts.Python
