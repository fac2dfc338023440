import Telemetry.Propagation.Traceparent

/-!
# Parsing `traceparent` in Go, TypeScript and Rust

Three parsers of the same header, on ASCII strings, where bytes, UTF-16 units and characters are
the same. Each splits the header at its dashes and asks for four fields. Rust checks all of them;
TypeScript never looks at the flags, and Go neither at the flags nor at the digits of the version.

## Main definitions

* `Go.parseTraceparent`, `TypeScript.parseTraceparent`, `Rust.parseTraceparent` — the parsers.
* `HasIds` — a header whose ids are those of a `traceparent`, and whose version is not `ff`.

## Main results

* `Go.parseTraceparent_eq_some_iff` and its siblings — what each parser accepts.
* `portsAgree_iff` — **when they all accept the `traceparent` headers**.
-/

namespace Telemetry.Propagation

open Telemetry.Lib

/-! ## Rust -/

namespace Rust

/-- `parse_traceparent`, where nothing is the three `None`. The header itself is returned beside
the ids. -/
def parseTraceparent (raw : List Char) : Option (List Char × Ids Char) :=
  match Fields.ofText '-' raw with
  | none => none
  | some ⟨version, traceId, spanId, flags⟩ =>
      let valid := version.length = 2 ∧ traceId.length = 32 ∧ spanId.length = 16 ∧
        flags.length = 2 ∧ version.map Char.toLower ≠ "ff".toList ∧
        traceId ≠ List.replicate 32 '0' ∧ spanId ≠ List.replicate 16 '0' ∧
        [version, traceId, spanId, flags].all (·.all isHexDigit)
      if valid then some (raw, ⟨traceId.map Char.toLower, spanId.map Char.toLower⟩) else none

end Rust

/-! ## TypeScript -/

namespace TypeScript

/-- `/^[0-9a-fA-F]+$/`. -/
def hexOnly (field : List Char) : Bool := !field.isEmpty && field.all isHexDigit

/-- `_parseTraceparent`, where nothing is the object without ids. -/
def parseTraceparent (value : List Char) : Option (Ids Char) :=
  match Fields.ofText '-' value with
  | none => none
  | some ⟨version, traceId, spanId, _⟩ =>
      if version.length ≠ 2 ∨ traceId.length ≠ 32 ∨ spanId.length ≠ 16 then none
      else if version.map Char.toLower = "ff".toList then none
      else if traceId = List.replicate 32 '0' ∨ spanId = List.replicate 16 '0' then none
      else if !hexOnly version || !hexOnly traceId || !hexOnly spanId then none
      else some ⟨traceId.map Char.toLower, spanId.map Char.toLower⟩

end TypeScript

/-! ## Go -/

namespace Go

/-- `_isHex`: every character is a hexadecimal digit in lower case. -/
def isHex (s : List Char) : Bool :=
  s.all fun c => !((c < '0' || '9' < c) && (c < 'a' || 'f' < c))

/-- `_isValidTraceID`. -/
def isValidTraceId (s : List Char) : Bool :=
  if s.length ≠ 32 then false else isHex s && s != List.replicate 32 '0'

/-- `_isValidSpanID`. -/
def isValidSpanId (s : List Char) : Bool :=
  if s.length ≠ 16 then false else isHex s && s != List.replicate 16 '0'

/-- `_parseTraceparent`, where nothing is the pair of empty strings. -/
def parseTraceparent (tp : List Char) : Option (Ids Char) :=
  if tp = [] then none
  else
    match Fields.ofText '-' tp with
    | none => none
    | some ⟨version, traceId, spanId, _⟩ =>
        if version.length ≠ 2 ∨ version.map Char.toLower = "ff".toList then none
        else
          let tid := traceId.map Char.toLower
          let sid := spanId.map Char.toLower
          if !isValidTraceId tid then none
          else if !isValidSpanId sid then none
          else some ⟨tid, sid⟩

end Go

/-! ## What they accept -/

variable {s : List Char} {h : Fields Char} {ids : Ids Char}

/-- The ids are those of a `traceparent`, and the version is none that is forbidden. -/
structure HasIds (h : Fields Char) : Prop where
  version : h.version.length = 2
  version_ne : h.version.map Char.toLower ≠ "ff".toList
  traceId : h.traceId.length = 32
  traceId_hex : ∀ c ∈ h.traceId, isHexDigit c = true
  traceId_ne : h.traceId ≠ List.replicate 32 '0'
  spanId : h.spanId.length = 16
  spanId_hex : ∀ c ∈ h.spanId, isHexDigit c = true
  spanId_ne : h.spanId ≠ List.replicate 16 '0'

theorem forall_mem_parts_iff {P : Char → Prop} : (∀ part ∈ h.parts, ∀ c ∈ part, P c) ↔
    (∀ c ∈ h.version, P c) ∧ (∀ c ∈ h.traceId, P c) ∧ (∀ c ∈ h.spanId, P c) ∧
      ∀ c ∈ h.flags, P c := by
  simp only [Fields.parts, List.forall_mem_cons, List.not_mem_nil, false_implies, implies_true,
    and_true]

/-- The fields of a `traceparent` are its ids, and a version and flags that are hexadecimal. -/
theorem valid_iff : h.Valid ↔ HasIds h ∧ (∀ c ∈ h.version, isHexDigit c = true) ∧
    h.flags.length = 2 ∧ ∀ c ∈ h.flags, isHexDigit c = true := by
  constructor
  · intro hvalid
    rcases forall_mem_parts_iff.mp hvalid.hex with ⟨hversion, htrace, hspan, hflags⟩
    exact ⟨⟨hvalid.version, hvalid.version_ne, hvalid.traceId, htrace, hvalid.traceId_ne,
      hvalid.spanId, hspan, hvalid.spanId_ne⟩, hversion, hvalid.flags, hflags⟩
  · rintro ⟨hids, hversion, hlength, hflags⟩
    exact ⟨⟨hids.version, hids.traceId, hids.spanId, hlength⟩,
      forall_mem_parts_iff.mpr ⟨hversion, hids.traceId_hex, hids.spanId_hex, hflags⟩,
      hids.version_ne, hids.traceId_ne, hids.spanId_ne⟩

/-- The fields that a header is split into. -/
def IsSplit (s : List Char) (h : Fields Char) : Prop :=
  s = h.text '-' ∧ ∀ part ∈ h.parts, '-' ∉ part

theorem isSplit_iff : IsSplit s h ↔ Fields.ofText '-' s = some h :=
  Fields.ofText_eq_some_iff.symm

theorem IsSplit.unique {h' : Fields Char} (hsplit : IsSplit s h) (hsplit' : IsSplit s h') :
    h = h' :=
  Option.some.inj ((isSplit_iff.mp hsplit).symm.trans (isSplit_iff.mp hsplit'))

theorem isSplit_of_valid (hvalid : h.Valid) : IsSplit (h.text '-') h :=
  isSplit_iff.mpr hvalid.ofText_text

/-- **What Rust accepts**: the grammar. -/
theorem Rust.parseTraceparent_eq_some_iff {raw : List Char} :
    Rust.parseTraceparent s = some (raw, ids) ↔
      raw = s ∧ ∃ h, IsSplit s h ∧ h.Valid ∧ h.ids = ids := by
  rw [Rust.parseTraceparent]
  simp only [isSplit_iff]
  cases Fields.ofText '-' s with
  | none => simp
  | some h =>
      obtain ⟨version, traceId, spanId, flags⟩ := h
      have hall : [version, traceId, spanId, flags].all (·.all isHexDigit) = true ↔
          ∀ part ∈ (⟨version, traceId, spanId, flags⟩ : Fields Char).parts, ∀ c ∈ part,
            isHexDigit c = true := by
        simp only [List.all_eq_true, Fields.parts]
      simp only [hall, Option.some.injEq, exists_eq_left', Option.ite_none_right_eq_some,
        Prod.mk.injEq]
      constructor
      · intro haccepted
        obtain ⟨⟨hversion, htrace, hspan, hflags, hne, htrace', hspan', hhex⟩, hraw, hids⟩ :=
          haccepted
        exact ⟨hraw.symm, ⟨⟨hversion, htrace, hspan, hflags⟩, hhex, hne, htrace', hspan'⟩, hids⟩
      · intro haccepted
        obtain ⟨hraw, hvalid, hids⟩ := haccepted
        exact ⟨⟨hvalid.version, hvalid.traceId, hvalid.spanId, hvalid.flags, hvalid.version_ne,
          hvalid.traceId_ne, hvalid.spanId_ne, hvalid.hex⟩, hraw.symm, hids⟩

theorem TypeScript.hexOnly_iff {field : List Char} (hne : 0 < field.length) :
    TypeScript.hexOnly field = true ↔ ∀ c ∈ field, isHexDigit c = true := by
  have hcons : field.isEmpty = false := by
    rw [List.isEmpty_eq_false_iff]
    exact List.length_pos_iff.mp hne
  rw [TypeScript.hexOnly, hcons, Bool.not_false, Bool.true_and, List.all_eq_true]

/-- **What TypeScript accepts**: any flags. -/
theorem TypeScript.parseTraceparent_eq_some_iff :
    TypeScript.parseTraceparent s = some ids ↔
      ∃ h, IsSplit s h ∧ (HasIds h ∧ ∀ c ∈ h.version, isHexDigit c = true) ∧ h.ids = ids := by
  rw [TypeScript.parseTraceparent]
  simp only [isSplit_iff]
  cases Fields.ofText '-' s with
  | none => simp
  | some h =>
      obtain ⟨version, traceId, spanId, flags⟩ := h
      simp only [Option.some.injEq, exists_eq_left', Option.ite_none_left_eq_some, not_or, not_not,
        Bool.or_eq_true, Bool.not_eq_true', Bool.not_eq_false]
      constructor
      · intro haccepted
        obtain ⟨⟨hlength, hlength', hlength''⟩, hne, ⟨htrace, hspan⟩, ⟨⟨hhex, hhex'⟩, hhex''⟩,
          hids⟩ := haccepted
        have hversion := (TypeScript.hexOnly_iff (by omega)).mp hhex
        have htraceHex := (TypeScript.hexOnly_iff (by omega)).mp hhex'
        have hspanHex := (TypeScript.hexOnly_iff (by omega)).mp hhex''
        exact ⟨⟨⟨hlength, hne, hlength', htraceHex, htrace, hlength'', hspanHex, hspan⟩, hversion⟩,
          hids⟩
      · intro haccepted
        obtain ⟨⟨hasIds, hversion⟩, hids⟩ := haccepted
        have hhex := (TypeScript.hexOnly_iff (by simp [hasIds.version])).mpr hversion
        have hhex' := (TypeScript.hexOnly_iff (by simp [hasIds.traceId])).mpr hasIds.traceId_hex
        have hhex'' := (TypeScript.hexOnly_iff (by simp [hasIds.spanId])).mpr hasIds.spanId_hex
        exact ⟨⟨hasIds.version, hasIds.traceId, hasIds.spanId⟩, hasIds.version_ne,
          ⟨hasIds.traceId_ne, hasIds.spanId_ne⟩, ⟨⟨hhex, hhex'⟩, hhex''⟩, hids⟩

/-- A digit is one in lower case once it is put into lower case. -/
theorem Go.isHex_toLower (c : Char) :
    (!((c.toLower < '0' || '9' < c.toLower) && (c.toLower < 'a' || 'f' < c.toLower))) =
      isHexDigit c := by
  by_cases hc : c.toNat < 128
  · have hall : ∀ n, n < 128 →
        (!(((Char.ofNat n).toLower < '0' || '9' < (Char.ofNat n).toLower) &&
          ((Char.ofNat n).toLower < 'a' || 'f' < (Char.ofNat n).toLower))) =
            isHexDigit (Char.ofNat n) := by decide
    have hchar := hall c.toNat hc
    rwa [Char.ofNat_toNat] at hchar
  · have hlarge : ∀ d : Char, d.toNat < 128 → d < c := fun d hd => by
      rw [Char.lt_def, UInt32.lt_iff_toNat_lt]
      exact lt_of_lt_of_le hd (not_lt.mp hc)
    have hlower : c.toLower = c := by
      delta Char.toLower
      have hZ := hlarge 'Z' (by decide)
      simp only [Char.lt_def, UInt32.lt_iff_toNat_lt] at hZ
      split
      · rename_i h
        have hle := h.2
        rw [UInt32.le_iff_toNat_le] at hle
        exact absurd hZ (not_lt.mpr hle)
      · rfl
    have h9 := hlarge '9' (by decide)
    have hf := hlarge 'f' (by decide)
    have hF := hlarge 'F' (by decide)
    simp [hlower, isHexDigit, h9, hf, hF, Char.not_le.mpr]

theorem Go.isHex_map_toLower {field : List Char} :
    Go.isHex (field.map Char.toLower) = true ↔ ∀ c ∈ field, isHexDigit c = true := by
  rw [Go.isHex, List.all_map, List.all_eq_true]
  simp only [Function.comp_apply, Go.isHex_toLower]

/-- Zeros have one case. -/
theorem map_toLower_eq_zeros_iff {field : List Char} {n : ℕ}
    (h : ∀ c ∈ field, isHexDigit c = true) :
    field.map Char.toLower = List.replicate n '0' ↔ field = List.replicate n '0' := by
  rw [List.eq_replicate_iff, List.eq_replicate_iff, List.length_map, List.forall_mem_map]
  have hzero : ∀ c ∈ field, c.toLower = '0' ↔ c = '0' := fun c hc =>
    Hex.forall_isHexDigit (P := fun c => c.toLower = '0' ↔ c = '0') (by decide) (h c hc)
  rw [forall₂_congr hzero]

/-- A field of an id, in lower case. -/
theorem Go.isValidId_iff {field : List Char} {n : ℕ} :
    (if (field.map Char.toLower).length ≠ n then false
      else Go.isHex (field.map Char.toLower) &&
        field.map Char.toLower != List.replicate n '0') = true ↔
      field.length = n ∧ (∀ c ∈ field, isHexDigit c = true) ∧ field ≠ List.replicate n '0' := by
  rw [List.length_map]
  by_cases hlength : field.length = n
  · rw [if_neg (not_not.mpr hlength), Bool.and_eq_true, Go.isHex_map_toLower, bne_iff_ne]
    constructor
    · rintro ⟨hhex, hne⟩
      exact ⟨hlength, hhex, fun heq => hne ((map_toLower_eq_zeros_iff hhex).mpr heq)⟩
    · rintro ⟨-, hhex, hne⟩
      exact ⟨hhex, fun heq => hne ((map_toLower_eq_zeros_iff hhex).mp heq)⟩
  · rw [if_pos hlength]
    exact ⟨nofun, fun h => absurd h.1 hlength⟩

/-- **What Go accepts**: any flags, and any version of two characters but `ff`. -/
theorem Go.parseTraceparent_eq_some_iff :
    Go.parseTraceparent s = some ids ↔ ∃ h, IsSplit s h ∧ HasIds h ∧ h.ids = ids := by
  have htrace : ∀ t : List Char, Go.isValidTraceId (t.map Char.toLower) = true ↔
      t.length = 32 ∧ (∀ c ∈ t, isHexDigit c = true) ∧ t ≠ List.replicate 32 '0' :=
    fun _ => Go.isValidId_iff
  have hspan : ∀ t : List Char, Go.isValidSpanId (t.map Char.toLower) = true ↔
      t.length = 16 ∧ (∀ c ∈ t, isHexDigit c = true) ∧ t ≠ List.replicate 16 '0' :=
    fun _ => Go.isValidId_iff
  rw [Go.parseTraceparent]
  by_cases hempty : s = []
  · subst hempty
    rw [if_pos rfl]
    constructor
    · nofun
    · rintro ⟨h, hsplit, -⟩
      have hnil := hsplit.1
      simp [Fields.text, Fields.parts, List.intercalate] at hnil
  · rw [if_neg hempty]
    simp only [isSplit_iff]
    cases Fields.ofText '-' s with
    | none => simp
    | some h =>
        obtain ⟨version, traceId, spanId, flags⟩ := h
        simp only [Option.some.injEq, exists_eq_left', Option.ite_none_left_eq_some, not_or,
          not_not, Bool.not_eq_true', Bool.not_eq_false, htrace, hspan]
        constructor
        · intro haccepted
          obtain ⟨⟨hversion, hne⟩, ht, hp, hids⟩ := haccepted
          exact ⟨⟨hversion, hne, ht.1, ht.2.1, ht.2.2, hp.1, hp.2.1, hp.2.2⟩, hids⟩
        · intro haccepted
          obtain ⟨hasIds, hids⟩ := haccepted
          exact ⟨⟨hasIds.version, hasIds.version_ne⟩,
            ⟨hasIds.traceId, hasIds.traceId_hex, hasIds.traceId_ne⟩,
            ⟨hasIds.spanId, hasIds.spanId_hex, hasIds.spanId_ne⟩, hids⟩

/-! ## When they agree -/

/-- The three parsers return the same, and it is ids exactly at the `traceparent` headers. -/
structure PortsAgree (s : List Char) : Prop where
  go_eq : Go.parseTraceparent s = TypeScript.parseTraceparent s
  typeScript_eq : TypeScript.parseTraceparent s = (Rust.parseTraceparent s).map Prod.snd
  accepts_iff : (Go.parseTraceparent s).isSome ↔ ∃ h : Fields Char, h.Valid ∧ s = h.text '-'

/-- A header with ids and a version of two characters, in which the version or the flags are not
two hexadecimal digits. -/
structure Loose (h : Fields Char) : Prop extends HasIds h where
  dash_notMem : ∀ part ∈ h.parts, '-' ∉ part
  not_hex : ¬ ((∀ c ∈ h.version, isHexDigit c = true) ∧ h.flags.length = 2 ∧
    ∀ c ∈ h.flags, isHexDigit c = true)

theorem Rust.map_snd_eq_some_iff : (Rust.parseTraceparent s).map Prod.snd = some ids ↔
    ∃ h, IsSplit s h ∧ h.Valid ∧ h.ids = ids := by
  rw [Option.map_eq_some_iff]
  constructor
  · rintro ⟨⟨raw, ids'⟩, hsome, rfl⟩
    exact (Rust.parseTraceparent_eq_some_iff.mp hsome).2
  · intro h
    exact ⟨(s, ids), Rust.parseTraceparent_eq_some_iff.mpr ⟨rfl, h⟩, rfl⟩

/-- **The three parsers accept the `traceparent` headers** and nothing else, at every header that
is not loose. -/
theorem portsAgree_iff : PortsAgree s ↔ ¬ ∃ h, Loose h ∧ s = h.text '-' := by
  constructor
  · rintro hagree ⟨h, hloose, rfl⟩
    have hsplit : IsSplit (h.text '-') h := ⟨rfl, hloose.dash_notMem⟩
    have hgo := Go.parseTraceparent_eq_some_iff.mpr ⟨h, hsplit, hloose.toHasIds, rfl⟩
    rw [hagree.go_eq, hagree.typeScript_eq] at hgo
    rcases Rust.map_snd_eq_some_iff.mp hgo with ⟨h', hsplit', hvalid, -⟩
    rw [hsplit'.unique hsplit] at hvalid
    exact hloose.not_hex (valid_iff.mp hvalid).2
  · intro hstrict
    have hvalid : ∀ h, IsSplit s h → HasIds h → h.Valid := by
      intro h hsplit hids
      by_contra hnot
      refine hstrict ⟨h, ⟨hids, hsplit.2, fun hhex => hnot ?_⟩, hsplit.1⟩
      exact valid_iff.mpr ⟨hids, hhex⟩
    have hgo : ∀ ids, Go.parseTraceparent s = some ids ↔
        ∃ h, IsSplit s h ∧ h.Valid ∧ h.ids = ids := by
      intro ids
      rw [Go.parseTraceparent_eq_some_iff]
      refine exists_congr fun h => and_congr_right fun hsplit => and_congr_left' ?_
      exact ⟨hvalid h hsplit, fun h => (valid_iff.mp h).1⟩
    have htypeScript : ∀ ids, TypeScript.parseTraceparent s = some ids ↔
        ∃ h, IsSplit s h ∧ h.Valid ∧ h.ids = ids := by
      intro ids
      rw [TypeScript.parseTraceparent_eq_some_iff]
      refine exists_congr fun h => and_congr_right fun hsplit => and_congr_left' ?_
      exact ⟨fun hids => hvalid h hsplit hids.1,
        fun h => ⟨(valid_iff.mp h).1, (valid_iff.mp h).2.1⟩⟩
    refine ⟨?_, ?_, ?_⟩
    · exact Option.ext fun ids => (hgo ids).trans (htypeScript ids).symm
    · exact Option.ext fun ids => (htypeScript ids).trans Rust.map_snd_eq_some_iff.symm
    · rw [Option.isSome_iff_exists]
      constructor
      · rintro ⟨ids, hids⟩
        rcases (hgo ids).mp hids with ⟨h, hsplit, hh, -⟩
        exact ⟨h, hh, hsplit.1⟩
      · rintro ⟨h, hh, rfl⟩
        exact ⟨h.ids, (hgo _).mpr ⟨h, isSplit_of_valid hh, hh, rfl⟩⟩

/-- A version and flags that are no digits are taken by Go, and flags that are none by
TypeScript. -/
theorem loose_headers_taken :
    let ids : Ids Char := ⟨"0af7651916cd43dd8448eb211c80319c".toList, "b7ad6b7169203331".toList⟩
    let looseFlags := "00-0af7651916cd43dd8448eb211c80319c-b7ad6b7169203331-zz".toList
    let looseVersion := "zz-0af7651916cd43dd8448eb211c80319c-b7ad6b7169203331-01".toList
    (Go.parseTraceparent looseFlags = some ids ∧ TypeScript.parseTraceparent looseFlags = some ids ∧
      Rust.parseTraceparent looseFlags = none) ∧
    (Go.parseTraceparent looseVersion = some ids ∧
      TypeScript.parseTraceparent looseVersion = none ∧ Rust.parseTraceparent looseVersion = none) ∧
    ¬ PortsAgree looseFlags ∧ ¬ PortsAgree looseVersion := by
  have hflags : Go.parseTraceparent
      "00-0af7651916cd43dd8448eb211c80319c-b7ad6b7169203331-zz".toList = some
        ⟨"0af7651916cd43dd8448eb211c80319c".toList, "b7ad6b7169203331".toList⟩ := by decide
  have hflags' : TypeScript.parseTraceparent
      "00-0af7651916cd43dd8448eb211c80319c-b7ad6b7169203331-zz".toList = some
        ⟨"0af7651916cd43dd8448eb211c80319c".toList, "b7ad6b7169203331".toList⟩ := by decide
  have hflags'' : Rust.parseTraceparent
      "00-0af7651916cd43dd8448eb211c80319c-b7ad6b7169203331-zz".toList = none := by decide
  have hversion : Go.parseTraceparent
      "zz-0af7651916cd43dd8448eb211c80319c-b7ad6b7169203331-01".toList = some
        ⟨"0af7651916cd43dd8448eb211c80319c".toList, "b7ad6b7169203331".toList⟩ := by decide
  have hversion' : TypeScript.parseTraceparent
      "zz-0af7651916cd43dd8448eb211c80319c-b7ad6b7169203331-01".toList = none := by decide
  have hversion'' : Rust.parseTraceparent
      "zz-0af7651916cd43dd8448eb211c80319c-b7ad6b7169203331-01".toList = none := by decide
  refine ⟨⟨hflags, hflags', hflags''⟩, ⟨hversion, hversion', hversion''⟩, ?_, ?_⟩
  · intro hagree
    have heq := hagree.typeScript_eq
    rw [hflags', hflags''] at heq
    cases heq
  · intro hagree
    have heq := hagree.go_eq
    rw [hversion, hversion'] at heq
    cases heq

end Telemetry.Propagation
