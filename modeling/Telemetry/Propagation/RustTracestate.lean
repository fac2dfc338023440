import Telemetry.Propagation.Ports
import Telemetry.Propagation.PythonHeaders
import Telemetry.Propagation.RustContext

/-!
# `tracestate` in the Rust SDK and in the Python SDK

`propagation.rs` checks a list member by hand: what is left of it without the spaces and tabs at its
ends is split at the first equals sign, and both sides are held against an alphabet. The pattern of
`propagation.py` leaves it open which of the spaces behind an equals sign are the value's. The two
accept the same members; and what is longer in bytes than in characters is accepted by neither.

## Main definitions

* `Rust.isTracestateMember`, `Rust.isForwardableTracestate` — the checker.
* `Rust.extractW3cContext` — the reader of the three headers.

## Main results

* `Rust.isTracestateMember_iff` — **the checker accepts the list members**.
* `tracestate_alike` — the two SDKs forward and keep the same headers.
-/

namespace Telemetry.Propagation

open Telemetry.Lib

namespace Rust

/-- `str::len`. -/
def len (s : List Char) : ℕ := (Utf8.encode s).length

/-- `first.is_ascii_lowercase() || first.is_ascii_digit()` -/
def isKeyFirst (c : Char) : Bool := ('a' ≤ c && c ≤ 'z') || ('0' ≤ c && c ≤ '9')

/-- The characters of a key behind its first one. -/
def isKeyOther (c : Char) : Bool :=
  isKeyFirst c || c = '_' || c = '-' || c = '*' || c = '/' || c = '@'

/-- `'\x20'..='\x2b' | '\x2d'..='\x3c' | '\x3e'..='\x7e'` -/
def isValueChar (c : Char) : Bool :=
  ('\x20' ≤ c && c ≤ '\x2b') || ('\x2d' ≤ c && c ≤ '\x3c') || ('\x3e' ≤ c && c ≤ '\x7e')

/-- `[' ', '\t']` -/
def isBlank (c : Char) : Bool := c = ' ' || c = '\t'

/-- `is_tracestate_member`. -/
def isTracestateMember (member : List Char) : Bool :=
  let trimmed := strip isBlank member
  if '=' ∉ trimmed then false
  else
    let (key, val) := partition '=' trimmed
    match key with
    | [] => false
    | first :: chars =>
        if 256 < len key then false
        else isKeyFirst first && chars.all isKeyOther && val.all isValueChar

/-- `is_forwardable_tracestate`. -/
def isForwardableTracestate (value : List Char) : Bool :=
  (value.splitOn ',').all isTracestateMember

def maxHeaderLength : ℕ := 512

def maxTracestatePairs : ℕ := 32

def maxBaggageLength : ℕ := 8192

/-- `extract_w3c_context`. -/
def extractW3cContext (traceparent tracestate baggage : Option String) : PropagationContext :=
  let traceparent := traceparent.filter fun value => len value.toList ≤ maxHeaderLength
  let tracestate := tracestate.filter fun value =>
    !(maxHeaderLength < len value.toList ||
      maxTracestatePairs < (value.toList.splitOn ',').length ||
      !isForwardableTracestate value.toList)
  let baggage := baggage.filter fun value => len value.toList ≤ maxBaggageLength
  match traceparent.bind fun value => parseTraceparent value.toList with
  | none => { tracestate, baggage }
  | some (raw, ids) =>
      { traceparent := some (String.ofList raw), tracestate, baggage
        traceId := some (String.ofList ids.traceId), spanId := some (String.ofList ids.spanId) }

/-! ## The checker -/

section Classes

variable (c : Char)

theorem isKeyFirst_eq : isKeyFirst c = Tracestate.isKeyStart c.toNat := rfl

theorem eq_iff_toNat (d : Char) : decide (c = d) = decide (c.toNat = d.toNat) :=
  decide_eq_decide.mpr Char.toNat_inj.symm

theorem isKeyOther_eq : isKeyOther c = Tracestate.isKeyChar c.toNat := by
  simp only [isKeyOther, eq_iff_toNat]
  rfl

theorem isBlank_eq : isBlank c = Tracestate.isOws c.toNat := by
  simp only [isBlank, eq_iff_toNat]
  rfl

end Classes

/-- What the checker asks of a key. -/
theorem isKey_iff {key : List Char} : Tracestate.IsKey (key.map Char.toNat) ↔
    ∃ first chars, key = first :: chars ∧ len key ≤ 256 ∧ isKeyFirst first = true ∧
      chars.all isKeyOther = true := by
  have hascii {first : Char} {chars : List Char} (hfirst : isKeyFirst first = true)
      (hchars : chars.all isKeyOther = true) : len (first :: chars) = chars.length + 1 := by
    have hlt : ∀ c ∈ first :: chars, c.toNat < 128 := by
      intro c hc
      have hc : isKeyOther c = true := by
        obtain rfl | hc := List.mem_cons.mp hc
        · simp [isKeyOther, hfirst]
        · exact List.all_eq_true.mp hchars c hc
      rw [isKeyOther_eq] at hc
      simp only [Tracestate.isKeyChar, Tracestate.isKeyStart, Bool.or_eq_true, Bool.and_eq_true,
        decide_eq_true_eq] at hc
      omega
    rw [len, Utf8.encode_ascii hlt, List.length_map, List.length_cons]
  constructor
  · rintro ⟨first, others, hkey, hfirst, hothers, hlength⟩
    obtain ⟨c, chars, rfl, rfl, rfl⟩ := List.map_eq_cons_iff.mp hkey
    have hchars : chars.all isKeyOther = true := by
      rw [List.all_eq_true]
      intro d hd
      rw [isKeyOther_eq]
      exact hothers _ (List.mem_map_of_mem hd)
    rw [List.length_map] at hlength
    refine ⟨c, chars, rfl, ?_, hfirst, hchars⟩
    rw [hascii hfirst hchars]
    omega
  · rintro ⟨first, chars, rfl, hlength, hfirst, hchars⟩
    rw [hascii hfirst hchars] at hlength
    refine ⟨first.toNat, chars.map Char.toNat, rfl, hfirst, ?_, by rw [List.length_map]; omega⟩
    intro n hn
    obtain ⟨c, hc, rfl⟩ := List.mem_map.mp hn
    rw [← isKeyOther_eq]
    exact List.all_eq_true.mp hchars c hc

theorem equals_not_mem_key {key : List Char} (h : Tracestate.IsKey (key.map Char.toNat)) :
    '=' ∉ key := by
  obtain ⟨first, chars, rfl, -, hfirst, hchars⟩ := isKey_iff.mp h
  intro hmem
  obtain rfl | hmem := List.mem_cons.mp hmem
  · exact absurd hfirst (by decide)
  · exact absurd (List.all_eq_true.mp hchars _ hmem) (by decide)

/-- What the checker accepts: a key, an equals sign and a value between blanks. -/
theorem isTracestateMember_iff_strip {member : List Char} : isTracestateMember member = true ↔
    ∃ key val, strip isBlank member = key ++ '=' :: val ∧ Tracestate.IsKey (key.map Char.toNat) ∧
      val.all isValueChar = true := by
  rw [isTracestateMember]
  by_cases hequals : '=' ∈ strip isBlank member
  · obtain ⟨key, val, htrimmed, hkey⟩ := List.eq_append_cons_of_mem hequals
    rw [htrimmed] at hequals ⊢
    rw [if_neg (not_not.mpr hequals), partition_append hkey val]
    constructor
    · intro h
      cases key with
      | nil => cases h
      | cons first chars =>
          simp only at h
          split at h
          · cases h
          · rename_i hlength
            rw [Bool.and_eq_true, Bool.and_eq_true] at h
            exact ⟨first :: chars, val, rfl,
              isKey_iff.mpr ⟨first, chars, rfl, Nat.not_lt.mp hlength, h.1.1, h.1.2⟩, h.2⟩
    · rintro ⟨key', val', hsame, hiskey, hval⟩
      have hparts := partition_append (equals_not_mem_key hiskey) val'
      rw [← hsame, partition_append hkey val] at hparts
      obtain ⟨rfl, rfl⟩ := Prod.mk.inj hparts
      obtain ⟨first, chars, rfl, hlength, hfirst, hchars⟩ := isKey_iff.mp hiskey
      simp only [if_neg (Nat.not_lt.mpr hlength), hfirst, hchars, hval, Bool.and_self]
  · rw [if_pos hequals]
    refine iff_of_false (by simp) ?_
    rintro ⟨key, val, htrimmed, -⟩
    exact hequals (by rw [htrimmed]; simp)

/-- **The checker accepts the list members.** -/
theorem isTracestateMember_iff {member : List Char} :
    isTracestateMember member = true ↔ Tracestate.IsMember (member.map Char.toNat) := by
  rw [isTracestateMember_iff_strip]
  have hows {s : List Char} : (∀ n ∈ s.map Char.toNat, Tracestate.isOws n = true) ↔
      ∀ c ∈ s, isBlank c = true := by
    simp only [List.forall_mem_map, isBlank_eq]
  have hvalues {s : List Char} : (∀ n ∈ s.map Char.toNat, Tracestate.isValueChar n = true) ↔
      ∀ c ∈ s, isValueChar c = true := List.forall_mem_map
  constructor
  · rintro ⟨key, val, htrimmed, hkey, hval⟩
    have hmember := takeWhile_append_strip (p := isBlank) member
    rw [htrimmed] at hmember
    refine ⟨(member.takeWhile isBlank).map Char.toNat, key.map Char.toNat, val.map Char.toNat,
      ((member.dropWhile isBlank).rtakeWhile isBlank).map Char.toNat, ?_,
      hows.mpr fun c hc => List.mem_takeWhile_imp hc, hkey,
      hvalues.mpr (List.all_eq_true.mp hval), hows.mpr fun c hc => List.mem_rtakeWhile_imp hc⟩
    conv_lhs => rw [← hmember]
    simp
  · rintro ⟨before, key, value, behind, hmember, hbefore, hkey, hvalue, hbehind⟩
    obtain ⟨b, _, rfl, rfl, h₁⟩ := List.map_eq_append_iff.mp hmember
    obtain ⟨k, _, rfl, rfl, h₂⟩ := List.map_eq_append_iff.mp h₁
    obtain ⟨e, _, rfl, he, h₃⟩ := List.map_eq_cons_iff.mp h₂
    obtain ⟨v, t, rfl, rfl, rfl⟩ := List.map_eq_append_iff.mp h₃
    obtain rfl : e = '=' := Char.toNat_inj.mp he
    -- the blanks at the end of the value belong to the edge
    have hbare : Bare isBlank (k ++ '=' :: v.rdropWhile isBlank) := by
      obtain ⟨first, chars, rfl, -, hfirst, -⟩ := isKey_iff.mp hkey
      constructor
      · intro c hc
        obtain rfl : first = c := Option.some.inj hc
        rw [isBlank_eq, Bool.eq_false_iff]
        intro hblank
        rw [isKeyFirst_eq] at hfirst
        simp only [Tracestate.isKeyStart, Tracestate.isOws, Bool.or_eq_true, Bool.and_eq_true,
          decide_eq_true_eq] at hfirst hblank
        omega
      · intro c hc
        rw [List.getLast?_append_cons, List.getLast?_cons, Option.mem_some] at hc
        subst hc
        by_cases hnil : v.rdropWhile isBlank = []
        · rw [hnil]
          decide
        · rw [List.getLast?_eq_some_getLast hnil, Option.getD_some]
          exact Bool.eq_false_iff.mpr (List.rdropWhile_last_not isBlank v hnil)
    have hedge : ∀ c ∈ v.rtakeWhile isBlank ++ t, isBlank c = true := by
      intro c hc
      obtain hc | hc := List.mem_append.mp hc
      · exact List.mem_rtakeWhile_imp hc
      · exact hows.mp hbehind c hc
    have hstrip := strip_eq_of_bare (hows.mp hbefore) hbare hedge
    have hwhole : b ++ (k ++ '=' :: v.rdropWhile isBlank ++ (v.rtakeWhile isBlank ++ t)) =
        b ++ (k ++ '=' :: (v ++ t)) := by
      have hv : v.rdropWhile isBlank ++ (v.rtakeWhile isBlank ++ t) = v ++ t := by
        rw [← List.append_assoc, List.rdropWhile_append_rtakeWhile]
      rw [← hv]
      simp
    rw [hwhole] at hstrip
    refine ⟨k, v.rdropWhile isBlank, hstrip, hkey, List.all_eq_true.mpr fun c hc => ?_⟩
    exact hvalues.mp hvalue c ((List.rdropWhile_prefix isBlank v).subset hc)

/-- What is forwarded. -/
theorem isForwardableTracestate_iff {value : List Char} :
    isForwardableTracestate value = true ↔
      ∀ member ∈ value.splitOn ',', Tracestate.IsMember (member.map Char.toNat) := by
  simp only [isForwardableTracestate, List.all_eq_true, isTracestateMember_iff]

/-- What is forwarded has as many bytes as characters. -/
theorem len_of_isForwardable {value : List Char} (h : isForwardableTracestate value = true) :
    len value = value.length := by
  have hprintable : ∀ c ∈ value, c.toNat < 128 := by
    have hcomma : (',' : Char).toNat < 128 := by decide
    refine (forall_mem_splitOn (q := fun c => c.toNat < 128) hcomma value).mp ?_
    intro member hmember c hc
    have hlist := isForwardableTracestate_iff.mp h member hmember
    have hrange := hlist.printable _ (List.mem_map_of_mem hc)
    change c.toNat < 128
    omega
  rw [len, Utf8.encode_ascii hprintable, List.length_map]

end Rust

/-! ## The two SDKs -/

theorem Python.isForwardableTracestate_ofChars (value : List Char) :
    Python.isForwardableTracestate (CodePoints.ofChars value) =
      Rust.isForwardableTracestate value := by
  have hinjective : Function.Injective CodePoint.scalar := fun _ _ => CodePoint.scalar.inj
  rw [Bool.eq_iff_iff, Rust.isForwardableTracestate_iff, Python.isForwardableTracestate,
    CodePoints.ofChars, splitOn_map hinjective, List.all_map, List.all_eq_true]
  refine forall₂_congr fun member _ => ?_
  have hord : (member.map CodePoint.scalar).map Python.ord = member.map Char.toNat := by
    rw [List.map_map]
    rfl
  rw [Function.comp_apply, Python.matchesMember, hord, Regex.accepts_iff]
  simp only [Tracestate.fits_memberRe_iff, List.isEmpty_iff]
  constructor
  · rintro ⟨_, ⟨t, ht, hmember⟩, rfl⟩
    rwa [ht, List.append_nil]
  · intro h
    exact ⟨[], ⟨_, (List.append_nil _).symm, h⟩, rfl⟩

/-- What the Python reader keeps of a header. -/
theorem Python.tracestate_extract_of_header {U : Python.Unicode} {headers : Python.Headers}
    {text : CodePoints} (hne : text ≠ [])
    (h : Python.getHeader U headers Python.tracestateBytes = some text) :
    (Python.extractW3cContext U headers).tracestate =
      if text.length ≤ Python.maxHeaderLength ∧
        text.count (.scalar ',') + 1 ≤ Python.maxTracestatePairs ∧
        Python.isForwardableTracestate text = true then some text else none := by
  rw [Python.tracestate_extract, h, Python.dropIf_some hne]
  by_cases hlength : text.length ≤ Python.maxHeaderLength
  swap
  · rw [if_pos (decide_eq_true (Nat.lt_of_not_le hlength)), if_neg fun h => hlength h.1]
    rfl
  rw [if_neg (by simpa using hlength), Python.dropIf_some hne]
  by_cases hcount : text.count (.scalar ',') + 1 ≤ Python.maxTracestatePairs
  swap
  · rw [if_pos (decide_eq_true (Nat.lt_of_not_le hcount)), if_neg fun h => hcount h.2.1]
    rfl
  rw [if_neg (by simpa using hcount), Python.dropIf_some hne]
  cases Python.isForwardableTracestate text <;> simp [hlength, hcount]

/-- **The two SDKs have one grammar**: a string is forwarded by both or by neither, and by both iff
its parts between commas are list members; and a header that is not empty is kept by both readers or
by neither. -/
theorem tracestate_alike :
    (∀ value : List Char,
      Rust.isForwardableTracestate value =
        Python.isForwardableTracestate (CodePoints.ofChars value) ∧
      (Rust.isForwardableTracestate value = true ↔
        ∀ member ∈ value.splitOn ',', Tracestate.IsMember (member.map Char.toNat))) ∧
    ∀ (U : Python.Unicode) (headers : Python.Headers) (text : String), text ≠ "" →
      Python.getHeader U headers Python.tracestateBytes = some (CodePoints.ofString text) →
      ∀ traceparent baggage, (Python.extractW3cContext U headers).tracestate =
        (Rust.extractW3cContext traceparent (some text) baggage).tracestate.map
          CodePoints.ofString := by
  refine ⟨fun value => ⟨(Python.isForwardableTracestate_ofChars value).symm,
    Rust.isForwardableTracestate_iff⟩, fun U headers text hne hheader traceparent baggage => ?_⟩
  have hnil : CodePoints.ofString text ≠ [] := by
    rw [CodePoints.ofString, CodePoints.ofChars, ne_eq, List.map_eq_nil_iff]
    exact fun h => hne (String.toList_eq_nil_iff.mp h)
  have hrust : (Rust.extractW3cContext traceparent (some text) baggage).tracestate =
      (some text).filter fun value => !(Rust.maxHeaderLength < Rust.len value.toList ||
        Rust.maxTracestatePairs < (value.toList.splitOn ',').length ||
        !Rust.isForwardableTracestate value.toList) := by
    rw [Rust.extractW3cContext]
    split <;> rfl
  have hcount : (CodePoints.ofString text).count (.scalar ',') = text.toList.count ',' :=
    List.count_map_of_injective _ _ (fun _ _ => CodePoint.scalar.inj) _
  rw [Python.tracestate_extract_of_header hnil hheader, hrust, Option.filter_some,
    CodePoints.ofString, Python.isForwardableTracestate_ofChars, ← CodePoints.ofString, hcount,
    length_splitOn]
  rw [show Python.maxHeaderLength = Rust.maxHeaderLength from rfl,
    show Python.maxTracestatePairs = Rust.maxTracestatePairs from rfl]
  cases hforwardable : Rust.isForwardableTracestate text.toList with
  | false => simp
  | true =>
      rw [Rust.len_of_isForwardable hforwardable,
        show (CodePoints.ofString text).length = text.toList.length from List.length_map _]
      by_cases hlength : text.toList.length ≤ Rust.maxHeaderLength
      swap
      · rw [if_neg fun h => hlength h.1, decide_eq_true (Nat.lt_of_not_le hlength)]
        rfl
      rw [decide_eq_false (Nat.not_lt.mpr hlength)]
      by_cases hpairs : text.toList.count ',' + 1 ≤ Rust.maxTracestatePairs
      · rw [if_pos ⟨hlength, hpairs, rfl⟩, decide_eq_false (Nat.not_lt.mpr hpairs)]
        rfl
      · rw [if_neg fun h => hpairs h.2.1, decide_eq_true (Nat.lt_of_not_le hpairs)]
        rfl

/-- A header with one list member. -/
theorem tracestate_alike_vendor :
    (Python.extractW3cContext Python.asciiOnly
      [(.bytes Python.tracestateBytes, .str (CodePoints.ofString "vendor=value"))]).tracestate =
    (Rust.extractW3cContext none (some "vendor=value") none).tracestate.map
      CodePoints.ofString :=
  tracestate_alike.2 Python.asciiOnly _ "vendor=value" (by decide) rfl none none

end Telemetry.Propagation
