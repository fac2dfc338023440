import Telemetry.Config.OtlpHeaders
import Telemetry.Config.PythonHeaders
import Telemetry.Lib.LastWins
import Telemetry.Lib.Parts
import Mathlib.Data.Finset.Dedup

/-!
# When the OTLP headers of four SDKs are the same

The parsers of Python, Rust, Go and TypeScript put what they read of the members into a map, where
the last entry wins. Go reads every member as it is documented. Rust and TypeScript differ from that
where bytes are not UTF-8, TypeScript has no place for the key `__proto__`, and Python reads members
with malformed escapes, and members with separators U+001C to U+001F at the edge of a part, in its
own way. A member that is read in two ways does no harm where a later one settles its key.

## Main definitions

* `documentedHeaders` and the headers of the four parsers, all as pairs of byte strings.
* `SameHeaders` — all four parsers return what is documented.
* `Odd` — a member that Python reads in its own way.
* `Plain` — the lists for which nothing of this matters.

## Main results

* `headers_go` — **Go returns what is documented**.
* `sameHeaders_iff` — **when the four are the same**.
-/

namespace Telemetry.Config.OtlpHeaders

open Telemetry.Lib Telemetry.Propagation

/-! ## Headers as bytes -/

/-- The entries of a map, where its strings are written as bytes. -/
def headers {κ : Type} (write : κ → Option Bytes) (d : Dict κ κ) : Finset (Bytes × Bytes) :=
  (d.entries.filterMap fun e =>
    (write e.1).bind fun key => (write e.2).map fun value => (key, value)).toFinset

/-- The members of a list. -/
def members (raw : List Char) : List (List Char) := raw.splitOn ','

/-- **What a list says**: of several members with a key the last. -/
def documentedHeaders (raw : List Char) : Finset (Bytes × Bytes) :=
  headers some (Dict.empty.update ((members raw).filterMap documented))

def pythonHeaders (raw : List Char) : Finset (Bytes × Bytes) :=
  headers CodePoints.encodeUtf8 (Python.parseOtlpHeaders (some (CodePoints.ofChars raw)))

/-- `None` is the empty map. -/
def rustHeaders (raw : List Char) : Finset (Bytes × Bytes) :=
  headers (fun s => some (Utf8.encode s)) ((Rust.parseOtlpHeaders (some raw)).getD .empty)

def goHeaders (raw : List Char) : Finset (Bytes × Bytes) :=
  headers some (Go.parseOTLPHeaders raw)

def typeScriptHeaders (raw : List Char) : Finset (Bytes × Bytes) :=
  headers (fun s => some (Utf8.encode s)) (TypeScript.parseOtlpHeaders raw)

/-- **All four parsers return what is documented.** -/
structure SameHeaders (raw : List Char) : Prop where
  python : pythonHeaders raw = documentedHeaders raw
  rust : rustHeaders raw = documentedHeaders raw
  go : goHeaders raw = documentedHeaders raw
  typeScript : typeScriptHeaders raw = documentedHeaders raw

instance (raw : List Char) : Decidable (SameHeaders raw) :=
  decidable_of_iff (pythonHeaders raw = documentedHeaders raw ∧
      rustHeaders raw = documentedHeaders raw ∧ goHeaders raw = documentedHeaders raw ∧
      typeScriptHeaders raw = documentedHeaders raw)
    ⟨fun h => ⟨h.1, h.2.1, h.2.2.1, h.2.2.2⟩, fun h => ⟨h.python, h.rust, h.go, h.typeScript⟩⟩

/-! ## What is read of a member, as bytes -/

/-- An entry of texts as bytes. -/
def inBytes (read : List Char → Option (List Char × List Char)) (member : List Char) :
    Option (Bytes × Bytes) :=
  (read member).map (Prod.map Utf8.encode Utf8.encode)

/-- What Python reads of a member of ASCII. -/
def pythonRead (member : List Char) : Option (List Char × List Char) :=
  if '=' ∉ member then none
  else
    let key := Utf8.decodeLossy
      (Percent.unescape (strip Propagation.Python.isSpaceChar (partition '=' member).1))
    if key = [] then none
    else some (key, Utf8.decodeLossy
      (Percent.unescape (strip Propagation.Python.isSpaceChar (partition '=' member).2)))

/-- What TypeScript reads of a member and has a place for. -/
def typeScriptRead (member : List Char) : Option (List Char × List Char) :=
  (TypeScript.readHeader member).filter fun e => e.1 ≠ TypeScript.proto

/-! ## The lists -/

/-- A part of a member that Python reads in its own way: an escape in it is malformed, or without
white space it starts or ends with a separator U+001C to U+001F. -/
def OddPart (part : List Char) : Prop :=
  Percent.malformed (strip isWhiteSpace part) = true ∨
    ¬ Bare Propagation.Python.isSpaceChar (strip isWhiteSpace part)

/-- A member of which one part is such. -/
def Odd (member : List Char) : Prop :=
  OddPart (partition '=' member).1 ∨ OddPart (partition '=' member).2

instance (member : List Char) : Decidable (Odd member) :=
  inferInstanceAs (Decidable ((_ ∨ ¬ _) ∨ _ ∨ ¬ _))

/-- **The lists that all four read alike**: the keys that are documented are UTF-8 and not
`__proto__`, what is said last of a key is UTF-8, and what the odd members are about is settled by
the last members with their keys. -/
structure Plain (raw : List Char) : Prop where
  keys : ∀ member ∈ members raw, ∀ e, documented member = some e →
    Utf8.Valid e.1 ∧ e.1 ≠ Utf8.encode TypeScript.proto
  values : ∀ k v, lastSaid documented (members raw) k = some v → Utf8.Valid v
  odd : ∀ member ∈ members raw, Odd member →
    ∀ e, inBytes pythonRead member = some e ∨ documented member = some e →
      lastSaid (inBytes pythonRead) (members raw) e.1 = lastSaid documented (members raw) e.1

/-! ## The maps of the parsers -/

variable {κ : Type} [DecidableEq κ] {raw member : List Char} {e : Bytes × Bytes}

theorem mem_headers_iff {write : κ → Option Bytes} {d : Dict κ κ} :
    e ∈ headers write d ↔ ∃ k v, d.get? k = some v ∧ write k = some e.1 ∧ write v = some e.2 := by
  rw [headers, List.mem_toFinset, List.mem_filterMap]
  constructor
  · intro hmem
    obtain ⟨entry, hentry, hwrite⟩ := hmem
    obtain ⟨key, hkey, hwrite⟩ := Option.bind_eq_some_iff.mp hwrite
    obtain ⟨value, hvalue, rfl⟩ := Option.map_eq_some_iff.mp hwrite
    exact ⟨entry.1, entry.2, Dict.mem_entries_iff.mp hentry, hkey, hvalue⟩
  · intro hmem
    obtain ⟨k, v, hget, hk, hv⟩ := hmem
    exact ⟨(k, v), Dict.mem_entries_iff.mpr hget, by simp [hk, hv]⟩

/-- The headers of a parser that fills its map with what it reads. -/
theorem mem_headers_update_iff {read : List Char → Option (Bytes × Bytes)}
    {members : List (List Char)} :
    e ∈ headers some (Dict.empty.update (members.filterMap read)) ↔
      lastSaid read members e.1 = some e.2 := by
  rw [mem_headers_iff]
  simp only [get?_update_filterMap, Dict.get?_empty, Option.or_none, Option.some.injEq]
  constructor
  · intro hmem
    obtain ⟨k, v, hlast, hk, hv⟩ := hmem
    rw [← hk, ← hv, hlast]
  · intro h
    exact ⟨e.1, e.2, h, rfl, rfl⟩

/-- The same, where strings are texts. -/
theorem mem_headers_encode_iff {read : List Char → Option (List Char × List Char)}
    {members : List (List Char)} :
    e ∈ headers (fun s => some (Utf8.encode s)) (Dict.empty.update (members.filterMap read)) ↔
      lastSaid (inBytes read) members e.1 = some e.2 := by
  have hbytes : inBytes read = fun m => (read m).map (Prod.map Utf8.encode Utf8.encode) := rfl
  rw [mem_headers_iff, hbytes, lastSaid_map_eq_some_iff Utf8.encode_injective]
  simp only [get?_update_filterMap, Dict.get?_empty, Option.or_none, Option.some.injEq]

theorem mem_documentedHeaders_iff :
    e ∈ documentedHeaders raw ↔ lastSaid documented (members raw) e.1 = some e.2 :=
  mem_headers_update_iff

/-- **Go returns what is documented**, whatever the list. -/
theorem headers_go (raw : List Char) : goHeaders raw = documentedHeaders raw := by
  have hread : Go.readHeader = documented := funext Go.readHeader_eq
  rw [goHeaders, documentedHeaders, Go.parseOTLPHeaders, hread]
  split
  · rename_i hnil
    subst hnil
    rfl
  · rfl

/-- A list that is all white space has no equals sign. -/
theorem readHeader_of_trim (h : Rust.trim raw = []) :
    (members raw).filterMap Rust.readHeader = [] := by
  have hspace : ∀ part ∈ members raw, ∀ c ∈ part, isWhiteSpace c = true ∨ c = ',' := by
    rw [members, forall_mem_splitOn (.inr rfl)]
    exact fun c hc => .inl (strip_eq_nil_iff.mp h c hc)
  rw [List.filterMap_eq_nil_iff]
  intro part hpart
  have hequals : '=' ∉ part := by
    intro hmem
    obtain hspace | hcomma := hspace part hpart '=' hmem
    · exact absurd hspace (by decide)
    · exact absurd hcomma (by decide)
  rw [Rust.readHeader_eq, documented, if_pos hequals, Option.map_none]

theorem mem_rustHeaders_iff :
    e ∈ rustHeaders raw ↔ lastSaid (inBytes Rust.readHeader) (members raw) e.1 = some e.2 := by
  have hparse : (Rust.parseOtlpHeaders (some raw)).getD .empty =
      Dict.empty.update ((members raw).filterMap Rust.readHeader) := by
    rw [Rust.parseOtlpHeaders]
    split
    · rename_i hblank
      rw [readHeader_of_trim hblank]
      rfl
    · rfl
  rw [rustHeaders, hparse, mem_headers_encode_iff]

/-- The assignments of TypeScript fill the map with the entries it has a place for. -/
theorem TypeScript.foldl_assign (parts : List (List Char)) (d : Dict (List Char) (List Char)) :
    (parts.filterMap readHeader).foldl assign d = d.update (parts.filterMap typeScriptRead) := by
  induction parts generalizing d with
  | nil => rfl
  | cons part parts ih =>
      cases hread : readHeader part with
      | none =>
          have hnone : typeScriptRead part = none := by
            rw [typeScriptRead, hread, Option.filter_none]
          rw [List.filterMap_cons_none hread, List.filterMap_cons_none hnone, ih]
      | some entry =>
          rw [List.filterMap_cons_some hread, List.foldl_cons, ih, assign]
          by_cases hproto : entry.1 = proto
          · have hnone : typeScriptRead part = none := by simp [typeScriptRead, hread, hproto]
            rw [if_pos hproto, List.filterMap_cons_none hnone]
          · have hsome : typeScriptRead part = some entry := by
              simp [typeScriptRead, hread, hproto]
            rw [if_neg hproto, List.filterMap_cons_some hsome]
            rfl

theorem mem_typeScriptHeaders_iff : e ∈ typeScriptHeaders raw ↔
    lastSaid (inBytes typeScriptRead) (members raw) e.1 = some e.2 := by
  have hparse : TypeScript.parseOtlpHeaders raw =
      Dict.empty.update ((members raw).filterMap typeScriptRead) := by
    rw [TypeScript.parseOtlpHeaders, TypeScript.foldl_assign]
    split
    · rename_i hnil
      subst hnil
      rfl
    · rfl
  rw [typeScriptHeaders, hparse, mem_headers_encode_iff]

/-! ## Python -/

theorem ofChars_injective : Function.Injective CodePoints.ofChars :=
  List.map_injective_iff.mpr fun _ _ h => by cases h; rfl

theorem scalar_injective : Function.Injective CodePoint.scalar := fun _ _ h => by cases h; rfl

/-- A part of a member, stripped and unquoted. -/
theorem python_unquote {part : List Char} (h : ∀ c ∈ part, c.toNat < 128) :
    Python.unquote (strip Propagation.Python.isSpace (CodePoints.ofChars part)) =
      CodePoints.ofChars (Utf8.decodeLossy
        (Percent.unescape (strip Propagation.Python.isSpaceChar part))) := by
  have hstrip : strip Propagation.Python.isSpace (CodePoints.ofChars part) =
      CodePoints.ofChars (strip Propagation.Python.isSpaceChar part) := strip_map _ _
  rw [hstrip, Python.unquote_ofChars fun c hc => h c (mem_of_mem_strip hc)]

/-- **What Python reads of a member of ASCII.** -/
theorem python_readHeader (h : ∀ c ∈ member, c.toNat < 128) :
    Python.readHeader (CodePoints.ofChars member) =
      (pythonRead member).map (Prod.map CodePoints.ofChars CodePoints.ofChars) := by
  have hequals : CodePoint.scalar '=' ∈ CodePoints.ofChars member ↔ '=' ∈ member :=
    List.mem_map_of_injective scalar_injective
  have hkey := python_unquote fun c hc => h c (mem_of_mem_partition (.inl hc))
  have hvalue := python_unquote fun c hc => h c (mem_of_mem_partition (.inr hc))
  have hsplit : partition (CodePoint.scalar '=') (CodePoints.ofChars member) =
      Prod.map CodePoints.ofChars CodePoints.ofChars (partition '=' member) :=
    Alphabet.partition_map scalar_injective '=' member
  have hnil : ∀ s, CodePoints.ofChars s = [] ↔ s = [] := fun _ => List.map_eq_nil_iff
  rw [Python.readHeader, pythonRead]
  by_cases hmem : '=' ∈ member
  · rw [if_neg (not_not_intro (hequals.mpr hmem)), if_neg (not_not_intro hmem), hsplit]
    simp only [Prod.map, hkey, hvalue, hnil]
    split <;> rfl
  · rw [if_pos (mt hequals.mp hmem), if_pos hmem]
    rfl

theorem ascii_members (h : ∀ c ∈ raw, c.toNat < 128) :
    ∀ member ∈ members raw, ∀ c ∈ member, c.toNat < 128 :=
  (forall_mem_splitOn (by decide) raw).mpr h

theorem mem_pythonHeaders_iff (h : ∀ c ∈ raw, c.toNat < 128) : e ∈ pythonHeaders raw ↔
    lastSaid (inBytes pythonRead) (members raw) e.1 = some e.2 := by
  have hmembers : (CodePoints.ofChars raw).splitOn (.scalar ',') =
      (members raw).map CodePoints.ofChars := splitOn_map scalar_injective ',' raw
  have hparse : Python.parseOtlpHeaders (some (CodePoints.ofChars raw)) =
      Dict.empty.update (((members raw).map CodePoints.ofChars).filterMap Python.readHeader) := by
    rw [Python.parseOtlpHeaders, hmembers]
    split
    · rename_i hnil
      obtain rfl : raw = [] := List.map_eq_nil_iff.mp hnil
      rfl
    · rfl
  have hread : ∀ k, lastSaid Python.readHeader ((members raw).map CodePoints.ofChars) k =
      lastSaid (fun member => (pythonRead member).map
        (Prod.map CodePoints.ofChars CodePoints.ofChars)) (members raw) k := by
    intro k
    rw [lastSaid_map_members]
    refine lastSaid_congr fun member hmember => ?_
    rw [saidBy, saidBy, python_readHeader (ascii_members h member hmember)]
  have hbytes : inBytes pythonRead =
      fun member => (pythonRead member).map (Prod.map Utf8.encode Utf8.encode) := rfl
  rw [pythonHeaders, hparse, mem_headers_iff, hbytes,
    lastSaid_map_eq_some_iff Utf8.encode_injective]
  simp only [get?_update_filterMap, Dict.get?_empty, Option.or_none, hread,
    lastSaid_map_eq_some_iff ofChars_injective]
  constructor
  · intro hmem
    obtain ⟨k, v, ⟨key, value, hlast, hk, hv⟩, hkey, hvalue⟩ := hmem
    rw [← hk, CodePoints.encodeUtf8_ofChars, Option.some.injEq] at hkey
    rw [← hv, CodePoints.encodeUtf8_ofChars, Option.some.injEq] at hvalue
    exact ⟨key, value, hlast, hkey, hvalue⟩
  · intro hmem
    obtain ⟨key, value, hlast, hkey, hvalue⟩ := hmem
    refine ⟨_, _, ⟨key, value, hlast, rfl, rfl⟩, ?_, ?_⟩
    · rw [CodePoints.encodeUtf8_ofChars, hkey]
    · rw [CodePoints.encodeUtf8_ofChars, hvalue]

/-! ## Where the readings differ -/

/-- Bytes, with replacement characters for those that are not UTF-8. -/
def replaced (bytes : Bytes) : Bytes := Utf8.encode (Utf8.decodeLossy bytes)

theorem valid_replaced (bytes : Bytes) : Utf8.Valid (replaced bytes) := ⟨_, rfl⟩

/-- Rust replaces. -/
theorem rust_inBytes (member : List Char) :
    inBytes Rust.readHeader member = (documented member).map (Prod.map replaced replaced) := by
  rw [inBytes, Rust.readHeader_eq, Option.map_map]
  rfl

/-- TypeScript reads nothing where it would have to replace. -/
theorem typeScript_inBytes_eq_some_iff (h : ∀ c ∈ member, c.toNat < 128) :
    inBytes typeScriptRead member = some e ↔ documented member = some e ∧
      (Utf8.Valid e.1 ∧ Utf8.Valid e.2) ∧ e.1 ≠ Utf8.encode TypeScript.proto := by
  rw [inBytes, typeScriptRead, TypeScript.readHeader_eq h, Option.map_eq_some_iff]
  constructor
  · intro hmem
    obtain ⟨entry, hentry, he⟩ := hmem
    obtain ⟨hread, hproto⟩ := Option.filter_eq_some_iff.mp hentry
    obtain ⟨d, hd, hvalid⟩ := Option.bind_eq_some_iff.mp hread
    rw [validText] at hvalid
    split at hvalid
    · rename_i hboth
      obtain rfl := Option.some.inj hvalid
      have hsame : d = e := by
        rw [← he]
        exact Prod.ext (Utf8.valid_iff.mp hboth.1).symm (Utf8.valid_iff.mp hboth.2).symm
      subst hsame
      refine ⟨hd, hboth, fun hkey => ?_⟩
      rw [decide_eq_true_eq] at hproto
      exact hproto (by simp [hkey])
    · cases hvalid
  · intro hmem
    obtain ⟨hdocumented, hboth, hproto⟩ := hmem
    have hkey := Utf8.valid_iff.mp hboth.1
    refine ⟨(Utf8.decodeLossy e.1, Utf8.decodeLossy e.2), ?_, ?_⟩
    · rw [Option.filter_eq_some_iff, hdocumented, Option.bind_some, validText, if_pos hboth]
      refine ⟨rfl, decide_eq_true fun hname => hproto ?_⟩
      rw [← hkey, ← hname]
    · exact Prod.ext hkey (Utf8.valid_iff.mp hboth.2)

/-- A part that is not odd is stripped to the same by Python, and is well-formed. -/
theorem decode_of_not_oddPart {part : List Char} (h : ∀ c ∈ part, c.toNat < 128)
    (hodd : ¬ OddPart part) :
    decode part =
      some (Percent.unescape (strip Propagation.Python.isSpaceChar part)) := by
  rw [OddPart, not_or, not_not, Bool.not_eq_true] at hodd
  have hle : ∀ c, isWhiteSpace c = true → Propagation.Python.isSpaceChar c = true := by
    intro c hc
    rw [Propagation.Python.isSpaceChar, hc, Bool.true_or]
  rw [decode, Utf8.byteChars_ascii fun c hc => h c (mem_of_mem_strip hc),
    Percent.unescape?_of_not_malformed hodd.1, ← strip_strip hle, strip_of_bare hodd.2]

/-- **A member that is not odd** is read by Python as by Rust. -/
theorem python_inBytes_of_not_odd (h : ∀ c ∈ member, c.toNat < 128) (hodd : ¬ Odd member) :
    inBytes pythonRead member = inBytes Rust.readHeader member := by
  rw [Odd, not_or] at hodd
  have hkey := decode_of_not_oddPart (fun c hc => h c (mem_of_mem_partition (.inl hc))) hodd.1
  have hvalue := decode_of_not_oddPart (fun c hc => h c (mem_of_mem_partition (.inr hc))) hodd.2
  rw [rust_inBytes, inBytes, pythonRead, documented, hkey, hvalue, Option.bind_some]
  by_cases hequals : '=' ∈ member
  · rw [if_neg (not_not_intro hequals), if_neg (not_not_intro hequals)]
    simp only [Utf8.decodeLossy_eq_nil_iff]
    split <;> rfl
  · rw [if_pos hequals, if_pos hequals]
    rfl

/-! ## When the four are the same -/

/-- The keys that are documented are UTF-8, and so is what is said last of each. -/
structure Utf8List (raw : List Char) : Prop where
  keys : ∀ member ∈ members raw, ∀ e, documented member = some e → Utf8.Valid e.1
  values : ∀ k v, lastSaid documented (members raw) k = some v → Utf8.Valid v

/-- **Rust returns what is documented** iff that is UTF-8. -/
theorem rust_iff : (∀ k, lastSaid (inBytes Rust.readHeader) (members raw) k =
    lastSaid documented (members raw) k) ↔ Utf8List raw := by
  have hbytes : inBytes Rust.readHeader =
      fun member => (documented member).map (Prod.map replaced replaced) := funext rust_inBytes
  rw [hbytes]
  constructor
  · intro hsame
    have hvalid : ∀ k v, lastSaid documented (members raw) k = some v →
        Utf8.Valid k ∧ Utf8.Valid v := by
      intro k v hlast
      rw [← hsame] at hlast
      obtain ⟨member, -, hread⟩ := exists_of_lastSaid hlast
      obtain ⟨d, -, hd⟩ := Option.map_eq_some_iff.mp hread
      cases hd
      exact ⟨valid_replaced d.1, valid_replaced d.2⟩
    refine ⟨fun member hmember e he => ?_, fun k v hlast => (hvalid k v hlast).2⟩
    obtain ⟨v, hlast⟩ := exists_lastSaid hmember (v := e.2) (k := e.1) he
    exact (hvalid e.1 v hlast).1
  · intro hutf8 k
    -- No key is replaced, so none becomes the same as another.
    have hkey : ∀ member ∈ members raw, ∀ e, documented member = some e →
        (replaced e.1 = k ↔ e.1 = k) := by
      intro member hmember e he
      rw [replaced, Utf8.valid_iff.mp (hutf8.keys member hmember e he)]
    rw [lastSaid_map hkey]
    cases hlast : lastSaid documented (members raw) k with
    | none => rfl
    | some v =>
        rw [Option.map_some, replaced, Utf8.valid_iff.mp (hutf8.values k v hlast)]

/-- **TypeScript returns what is documented** iff that is UTF-8 and no key is `__proto__`. -/
theorem typeScript_iff (h : ∀ c ∈ raw, c.toNat < 128) :
    (∀ k, lastSaid (inBytes typeScriptRead) (members raw) k =
      lastSaid documented (members raw) k) ↔
    Utf8List raw ∧ ∀ member ∈ members raw, ∀ e, documented member = some e →
      e.1 ≠ Utf8.encode TypeScript.proto := by
  have hread : ∀ member ∈ members raw, ∀ e, inBytes typeScriptRead member = some e ↔
      documented member = some e ∧ (Utf8.Valid e.1 ∧ Utf8.Valid e.2) ∧
        e.1 ≠ Utf8.encode TypeScript.proto :=
    fun member hmember e => typeScript_inBytes_eq_some_iff (ascii_members h member hmember)
  constructor
  · intro hsame
    have hkept : ∀ k v, lastSaid documented (members raw) k = some v →
        (Utf8.Valid k ∧ Utf8.Valid v) ∧ k ≠ Utf8.encode TypeScript.proto := by
      intro k v hlast
      rw [← hsame] at hlast
      obtain ⟨member, hmember, he⟩ := exists_of_lastSaid hlast
      exact ((hread member hmember (k, v)).mp he).2
    have hkey : ∀ member ∈ members raw, ∀ e, documented member = some e →
        Utf8.Valid e.1 ∧ e.1 ≠ Utf8.encode TypeScript.proto := by
      intro member hmember e he
      obtain ⟨v, hlast⟩ := exists_lastSaid hmember (v := e.2) (k := e.1) he
      exact ⟨(hkept e.1 v hlast).1.1, (hkept e.1 v hlast).2⟩
    exact ⟨⟨fun member hmember e he => (hkey member hmember e he).1,
      fun k v hlast => (hkept k v hlast).1.2⟩, fun member hmember e he =>
        (hkey member hmember e he).2⟩
  · intro hplain k
    obtain ⟨hutf8, hproto⟩ := hplain
    cases hlast : lastSaid documented (members raw) k with
    | none =>
        rw [lastSaid_eq_none_iff] at hlast ⊢
        intro member hmember v he
        exact hlast member hmember v ((hread member hmember (k, v)).mp he).1
    | some v =>
        -- The member that decides is read by TypeScript too.
        refine lastSaid_of_restrict (fun member hmember e he => ((hread member hmember e).mp he).1)
          (fun member hmember he => ?_) hlast
        have hvalid := hutf8.keys member hmember (k, v) he
        exact (hread member hmember (k, v)).mpr
          ⟨he, ⟨hvalid, hutf8.values k v hlast⟩, hproto member hmember (k, v) he⟩

/-- **Python returns what is documented** of a list that is UTF-8 iff the odd members are settled.
-/
theorem python_iff (h : ∀ c ∈ raw, c.toNat < 128) (hutf8 : Utf8List raw) :
    (∀ k, lastSaid (inBytes pythonRead) (members raw) k = lastSaid documented (members raw) k) ↔
      ∀ member ∈ members raw, Odd member →
        ∀ e, inBytes pythonRead member = some e ∨ documented member = some e →
          lastSaid (inBytes pythonRead) (members raw) e.1 =
            lastSaid documented (members raw) e.1 := by
  have hrust := rust_iff.mpr hutf8
  constructor
  · intro hsame member _ _ e _
    exact hsame e.1
  · intro hodd k
    rw [← hrust]
    have hagree : ∀ member ∈ members raw, ¬ Odd member →
        inBytes pythonRead member = inBytes Rust.readHeader member :=
      fun member hmember hnot => python_inBytes_of_not_odd (ascii_members h member hmember) hnot
    refine (lastSaid_eq_iff_of_agree hagree).mpr ?_ k
    intro member hmember hoddm e hread
    rw [hrust]
    obtain hpython | hread := hread
    · exact hodd member hmember hoddm e (.inl hpython)
    · rw [rust_inBytes] at hread
      obtain ⟨d, hd, rfl⟩ := Option.map_eq_some_iff.mp hread
      have hkey : replaced d.1 = d.1 := Utf8.valid_iff.mp (hutf8.keys member hmember d hd)
      rw [Prod.map_fst, hkey]
      exact hodd member hmember hoddm d (.inr hd)

/-- A parser returns what is documented iff it does so under every key. -/
theorem headers_eq_iff {s : Finset (Bytes × Bytes)} {found : Bytes → Option Bytes}
    (hs : ∀ e, e ∈ s ↔ found e.1 = some e.2) :
    s = documentedHeaders raw ↔ ∀ k, found k = lastSaid documented (members raw) k := by
  constructor
  · intro hsame k
    apply Option.ext
    intro v
    rw [← hs (k, v), hsame, mem_documentedHeaders_iff]
  · intro hsame
    ext e
    rw [hs, mem_documentedHeaders_iff, hsame]

/-- **When the four are the same**: for every list of ASCII. -/
theorem sameHeaders_iff (h : ∀ c ∈ raw, c.toNat < 128) : SameHeaders raw ↔ Plain raw := by
  have hrust : rustHeaders raw = documentedHeaders raw ↔ Utf8List raw :=
    (headers_eq_iff fun _ => mem_rustHeaders_iff).trans rust_iff
  have htypeScript : typeScriptHeaders raw = documentedHeaders raw ↔ _ :=
    (headers_eq_iff fun _ => mem_typeScriptHeaders_iff).trans (typeScript_iff h)
  have hpython : Utf8List raw → (pythonHeaders raw = documentedHeaders raw ↔ _) := fun hutf8 =>
    (headers_eq_iff fun _ => mem_pythonHeaders_iff h).trans (python_iff h hutf8)
  constructor
  · intro hsame
    obtain ⟨hutf8, hproto⟩ := htypeScript.mp hsame.typeScript
    exact ⟨fun member hmember e he => ⟨hutf8.keys member hmember e he, hproto member hmember e he⟩,
      hutf8.values, (hpython hutf8).mp hsame.python⟩
  · intro hplain
    have hutf8 : Utf8List raw :=
      ⟨fun member hmember e he => (hplain.keys member hmember e he).1, hplain.values⟩
    exact ⟨(hpython hutf8).mpr hplain.odd, hrust.mpr hutf8, headers_go raw,
      htypeScript.mpr ⟨hutf8, fun member hmember e he => (hplain.keys member hmember e he).2⟩⟩

-- Checks the characters of the text, not all characters.
local instance (priority := 2000) decidableForallChars {p : Char → Prop} [DecidablePred p]
    (s : List Char) : Decidable (∀ c ∈ s, p c) := List.decidableBAll p s

/-- A malformed member, and a later one that settles its key. -/
def settled : List Char := "k=%zz,k=a%20b".toList

theorem plain_settled : Plain settled :=
  (sameHeaders_iff (by decide)).mp (by decide +kernel)

/-- **A malformed member alone**: Python keeps it, and nobody else does. -/
theorem not_sameHeaders_malformed : ¬ SameHeaders "k=%zz".toList := by decide +kernel

end Telemetry.Config.OtlpHeaders
