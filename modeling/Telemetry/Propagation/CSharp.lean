import Telemetry.Lib.Parts
import Telemetry.Propagation.Traceparent
import Telemetry.Propagation.Tracestate

/-!
# Extracting headers in the C# SDK

`ExtractW3CContext` keeps a `traceparent` and a `tracestate` that match their patterns. A pattern of
.NET that ends with `$` also matches before a line feed at the end of the text, and the members of a
`tracestate` are matched one by one. So a line feed may stand behind any member of a `tracestate`
that is kept, and behind a `traceparent`.

The headers are looked up under their names in lower case. Names are compared without regard to case
only by a map that does so, or where the map has no `traceparent`.

## Main definitions

* `extractW3CContext` — the extraction.
* `IsTraceparent`, `IsTracestate` — the grammars.
* `KeepsExactly` — what is kept is what is in its grammar.

## Main results

* `keepsExactly_iff` — **when it is**.
-/

namespace Telemetry.Propagation.CSharp

open Telemetry.Lib Telemetry.Regex

/-- A string: its UTF-16 code units. -/
abbrev Text := List ℕ

/-- A string of ASCII characters. -/
def text (s : String) : Text := s.toList.map Char.toNat

/-- `Encoding.UTF8.GetByteCount`. A surrogate without its other half counts as U+FFFD. -/
def byteCount : Text → ℕ
  | [] => 0
  | [u] => if u < 0x80 then 1 else if u < 0x800 then 2 else 3
  | u :: v :: s =>
      if u < 0x80 then 1 + byteCount (v :: s)
      else if u < 0x800 then 2 + byteCount (v :: s)
      else if (0xd800 ≤ u ∧ u ≤ 0xdbff) ∧ 0xdc00 ≤ v ∧ v ≤ 0xdfff then 4 + byteCount s
      else 3 + byteCount (v :: s)

/-- `$` at the end of a pattern. -/
def dollar (rest : Text) : Bool := rest = [] || rest = [0x0a]

/-- `[0-9a-f]`, without regard to case. -/
def isHex (c : ℕ) : Bool :=
  (0x30 ≤ c && c ≤ 0x39) || (0x61 ≤ c && c ≤ 0x66) || (0x41 ≤ c && c ≤ 0x46)

/-- `TraceparentRe`, up to the anchors. -/
def traceparentRe : List (Piece ℕ) :=
  [⟨isHex, 2, some 2⟩, ⟨fun c => c = 0x2d, 1, some 1⟩, ⟨isHex, 32, some 32⟩,
    ⟨fun c => c = 0x2d, 1, some 1⟩, ⟨isHex, 16, some 16⟩, ⟨fun c => c = 0x2d, 1, some 1⟩,
    ⟨isHex, 2, some 2⟩]

/-- `TracestateMemberRe.IsMatch`. -/
def isMatchMember (member : Text) : Bool := accepts dollar Tracestate.memberRe member

/-! ## The headers -/

/-- How a dictionary compares its keys. -/
inductive Comparer
  | ordinal
  | ordinalIgnoreCase
  deriving DecidableEq, Repr

/-- The headers. The other overload of `ExtractW3CContext` puts its headers into a map that
ignores case. -/
structure HeaderMap where
  comparer : Comparer
  entries : List (Text × Text)

/-- How case is folded, character by character. -/
structure Casing where
  upper : ℕ → ℕ

variable (C : Casing)

/-- `Equals(…, StringComparison.OrdinalIgnoreCase)`. -/
def equalsIgnoreCase (a b : Text) : Bool := a.map C.upper = b.map C.upper

/-- `TryGetValue`. -/
def HeaderMap.tryGetValue (headers : HeaderMap) (key : Text) : Option Text :=
  (headers.entries.find? fun kv =>
    match headers.comparer with
    | .ordinal => kv.1 = key
    | .ordinalIgnoreCase => equalsIgnoreCase C kv.1 key).map Prod.snd

/-- `tpRaw`, `tsRaw` and `bgRaw`. -/
structure Raw where
  tpRaw : Option Text
  tsRaw : Option Text
  bgRaw : Option Text

/-- The headers that `ExtractW3CContext` looks up. -/
def HeaderMap.raw (headers : HeaderMap) : Raw :=
  let found : Raw := {
    tpRaw := headers.tryGetValue C (text "traceparent")
    tsRaw := headers.tryGetValue C (text "tracestate")
    bgRaw := headers.tryGetValue C (text "baggage") }
  match found.tpRaw with
  | some _ => found
  | none =>
      headers.entries.foldl (fun found kv => {
        tpRaw := if equalsIgnoreCase C kv.1 (text "traceparent") then some kv.2 else found.tpRaw
        tsRaw := if equalsIgnoreCase C kv.1 (text "tracestate") then some kv.2 else found.tsRaw
        bgRaw := if equalsIgnoreCase C kv.1 (text "baggage") then some kv.2 else found.bgRaw })
        found

/-! ## The extraction -/

/-- `PropagationContext`. -/
structure PropagationContext where
  traceparent : Text
  tracestate : Text
  baggage : Text
  traceId : Text
  spanId : Text
  deriving DecidableEq, Repr

/-- `GuardSize`. -/
def guardSize (s : Text) (maxBytes : ℕ) : Text :=
  if s = [] then [] else if byteCount s > maxBytes then [] else s

/-- `GuardTracestate`. -/
def guardTracestate (s : Text) : Text :=
  if s = [] then []
  else if byteCount s > 512 then []
  else
    let pairs := s.splitOn 0x2c
    if pairs.length > 32 then []
    else if pairs.all isMatchMember then s
    else []

/-- `ToLowerInvariant` of a hexadecimal digit. -/
def toLower (c : ℕ) : ℕ := if 0x41 ≤ c ∧ c ≤ 0x5a then c + 0x20 else c

/-- The groups of `TraceparentRe.Match`. They have fixed places, since their widths are fixed. -/
def matchTraceparent (tp : Text) : Option (Text × Text × Text) :=
  if accepts dollar traceparentRe tp then
    some (tp.take 2, (tp.drop 3).take 32, (tp.drop 36).take 16)
  else none

/-- `ParseTraceparent`. -/
def parseTraceparent (tp : Text) : Text × Text :=
  if tp = [] then ([], [])
  else
    match matchTraceparent tp with
    | none => ([], [])
    | some (version, traceId, spanId) =>
        if version.map toLower = text "ff" then ([], [])
        else
          let traceId := traceId.map toLower
          let spanId := spanId.map toLower
          if traceId.all (· = 0x30) || spanId.all (· = 0x30) then ([], []) else (traceId, spanId)

/-- `ExtractW3CContext`. -/
def extractW3CContext (headers : HeaderMap) : PropagationContext :=
  let raw := headers.raw C
  let tp := guardSize (raw.tpRaw.getD []) 512
  let ts := guardTracestate (raw.tsRaw.getD [])
  let bg := guardSize (raw.bgRaw.getD []) 8192
  let (traceId, spanId) := parseTraceparent tp
  let tp := if traceId.length = 0 ∧ spanId.length = 0 then [] else tp
  { traceparent := tp, tracestate := ts, baggage := bg, traceId, spanId }

/-! ## The grammars -/

/-- A header that is no longer than 512 bytes and has 32 list members at most. -/
def IsTracestate (s : Text) : Prop :=
  byteCount s ≤ 512 ∧ (s.splitOn 0x2c).length ≤ 32 ∧
    ∀ member ∈ s.splitOn 0x2c, Tracestate.IsMember member

/-- Four hexadecimal fields. The version is not `ff`, and no id has zeros only. -/
structure HexFields (h : Fields ℕ) : Prop extends h.Sized where
  hex : ∀ part ∈ h.parts, ∀ c ∈ part, isHex c = true
  version_ne : h.version.map toLower ≠ text "ff"
  traceId_ne : h.traceId ≠ List.replicate 32 0x30
  spanId_ne : h.spanId ≠ List.replicate 16 0x30

/-- The fields with dashes between them. -/
def IsTraceparent (s : Text) : Prop := ∃ h : Fields ℕ, HexFields h ∧ s = h.text 0x2d

/-- The header of a name: the last one, without regard to case. -/
def HeaderMap.header (headers : HeaderMap) (name : Text) : Option Text :=
  (headers.entries.reverse.find? fun kv => equalsIgnoreCase C kv.1 name).map Prod.snd

/-- What is kept of the headers is what is in its grammar, and it breaks no line. -/
structure KeepsExactly (headers : HeaderMap) : Prop where
  tracestate : (extractW3CContext C headers).tracestate ≠ [] ↔
    ∃ s, headers.header C (text "tracestate") = some s ∧ IsTracestate s
  traceparent : (extractW3CContext C headers).traceparent ≠ [] ↔
    ∃ s, headers.header C (text "traceparent") = some s ∧ IsTraceparent s
  lines : ∀ c ∈ (extractW3CContext C headers).tracestate ++
    (extractW3CContext C headers).traceparent, c ≠ 0x0d ∧ c ≠ 0x0a

/-- A `tracestate` with a line feed behind one of its members or more. -/
structure FeedsTracestate (s : Text) : Prop where
  bytes : byteCount s ≤ 512
  members : (s.splitOn 0x2c).length ≤ 32
  feeds : ∀ member ∈ s.splitOn 0x2c, Tracestate.IsMember member ∨
    ∃ t, Tracestate.IsMember t ∧ member = t ++ [0x0a]
  mem : 0x0a ∈ s

/-- A `traceparent` with a line feed behind it. -/
def FeedsTraceparent (s : Text) : Prop := ∃ t, IsTraceparent t ∧ s = t ++ [0x0a]

/-- No header that is looked up is in its grammar but for line feeds; and it is in its grammar if
and only if the header of its name is. -/
structure Regular (headers : HeaderMap) : Prop where
  tracestate : ∀ s, (headers.raw C).tsRaw = some s → ¬ FeedsTracestate s
  traceparent : ∀ s, (headers.raw C).tpRaw = some s → ¬ FeedsTraceparent s
  tracestate_found : (∃ s, (headers.raw C).tsRaw = some s ∧ IsTracestate s) ↔
    ∃ s, headers.header C (text "tracestate") = some s ∧ IsTracestate s
  traceparent_found : (∃ s, (headers.raw C).tpRaw = some s ∧ IsTraceparent s) ↔
    ∃ s, headers.header C (text "traceparent") = some s ∧ IsTraceparent s

/-! ## One header -/

/-- What is kept of a header: the header, if it is taken, and else nothing. -/
def Kept (raw : Option Text) (Taken : Text → Prop) (kept : Text) : Prop :=
  (∃ s, raw = some s ∧ Taken s ∧ kept = s) ∨ (∀ s, raw = some s → ¬ Taken s) ∧ kept = []

/-- A header is kept exactly as its grammar says, if it is not taken for its line feeds. -/
theorem kept_iff (header : Option Text) {raw : Option Text} {Taken Grammar Feeds : Text → Prop}
    {kept : Text}
    (hkept : Kept raw Taken kept) (htaken : ∀ s, Taken s ↔ Grammar s ∨ Feeds s)
    (hgrammar : ∀ s, Grammar s → s ≠ [] ∧ ∀ c ∈ s, c ≠ 0x0d ∧ c ≠ 0x0a)
    (hfeeds : ∀ s, Feeds s → 0x0a ∈ s) :
    ((kept ≠ [] ↔ ∃ s, header = some s ∧ Grammar s) ∧ ∀ c ∈ kept, c ≠ 0x0d ∧ c ≠ 0x0a) ↔
      (∀ s, raw = some s → ¬ Feeds s) ∧
        ((∃ s, raw = some s ∧ Grammar s) ↔ ∃ s, header = some s ∧ Grammar s) := by
  obtain ⟨s, hraw, hs, heq⟩ | ⟨hnot, heq⟩ := hkept
  · subst heq
    simp only [hraw, Option.some.injEq, forall_eq', exists_eq_left']
    obtain hs | hs := (htaken kept).mp hs
    · have hfree : ¬ Feeds kept := fun h => ((hgrammar kept hs).2 _ (hfeeds kept h)).2 rfl
      simp only [(hgrammar kept hs).1, hs, hfree, ne_eq, not_false_eq_true, true_iff, true_and]
      exact and_iff_left (hgrammar kept hs).2
    · refine iff_of_false (fun h => (h.2 _ (hfeeds kept hs)).2 rfl) fun h => h.1 hs
  · subst heq
    have hfree : ∀ s, raw = some s → ¬ Feeds s :=
      fun s hs h => hnot s hs ((htaken s).mpr (.inr h))
    have hnone : ¬ ∃ s, raw = some s ∧ Grammar s := by
      intro ⟨s, hs, h⟩
      exact hnot s hs ((htaken s).mpr (.inl h))
    simp only [hnone, ne_eq, not_true_eq_false, false_iff]
    exact ⟨fun h => ⟨hfree, h.1⟩, fun h => ⟨h.2, by simp⟩⟩

/-! ## `tracestate` -/

/-- A header that `GuardTracestate` lets through. -/
def TakesTracestate (s : Text) : Prop :=
  byteCount s ≤ 512 ∧ (s.splitOn 0x2c).length ≤ 32 ∧
    ∀ member ∈ s.splitOn 0x2c, Tracestate.IsMember member ∨
      ∃ t, Tracestate.IsMember t ∧ member = t ++ [0x0a]

theorem dollar_iff {rest : Text} : dollar rest = true ↔ rest = [] ∨ rest = [0x0a] := by
  simp [dollar]

/-- **What is matched** is a list member, or one with a line feed behind it. -/
theorem isMatchMember_iff {member : Text} : isMatchMember member = true ↔
    Tracestate.IsMember member ∨ ∃ t, Tracestate.IsMember t ∧ member = t ++ [0x0a] := by
  simp only [isMatchMember, accepts_iff, Tracestate.fits_memberRe_iff, dollar_iff]
  constructor
  · rintro ⟨rest, ⟨t, ht, hmember⟩, rfl | rfl⟩
    · rw [List.append_nil] at ht
      exact .inl (ht ▸ hmember)
    · exact .inr ⟨t, hmember, ht⟩
  · rintro (h | ⟨t, hmember, ht⟩)
    · exact ⟨[], ⟨member, by simp, h⟩, .inl rfl⟩
    · exact ⟨[0x0a], ⟨t, ht, hmember⟩, .inr rfl⟩

theorem not_isMember_nil : ¬ Tracestate.IsMember [] := by
  intro ⟨before, key, value, behind, h, _⟩
  have hlength := congrArg List.length h
  simp at hlength

theorem guardTracestate_of_takes {s : Text} (h : TakesTracestate s) : guardTracestate s = s := by
  obtain ⟨hbytes, hlength, hmembers⟩ := h
  have hall : (s.splitOn 0x2c).all isMatchMember = true :=
    List.all_eq_true.mpr fun member hmember => isMatchMember_iff.mpr (hmembers member hmember)
  rw [guardTracestate]
  by_cases hnil : s = []
  · rw [if_pos hnil, hnil]
  · rw [if_neg hnil, if_neg (by omega)]
    simp only
    rw [if_neg (by omega), if_pos hall]

theorem guardTracestate_of_not {s : Text} (h : ¬ TakesTracestate s) : guardTracestate s = [] := by
  rw [guardTracestate]
  split
  · rfl
  · split
    · rfl
    · rename_i hbytes
      simp only
      split
      · rfl
      · rename_i hlength
        rw [if_neg]
        intro hall
        rw [List.all_eq_true] at hall
        exact h ⟨by omega, by omega,
          fun member hmember => isMatchMember_iff.mp (hall member hmember)⟩

theorem kept_tracestate (raw : Option Text) :
    Kept raw TakesTracestate (guardTracestate (raw.getD [])) := by
  cases raw with
  | none => exact .inr ⟨by simp, rfl⟩
  | some s =>
      by_cases h : TakesTracestate s
      · exact .inl ⟨s, rfl, h, guardTracestate_of_takes h⟩
      · refine .inr ⟨fun t ht => ?_, guardTracestate_of_not h⟩
        rw [Option.some.injEq] at ht
        rwa [← ht]

/-- A text in the grammar breaks no line. -/
theorem IsTracestate.printable {s : Text} (h : IsTracestate s) :
    ∀ c ∈ s, c = 0x09 ∨ 0x20 ≤ c ∧ c ≤ 0x7e := by
  exact (forall_mem_splitOn (.inr (by decide)) s).mp fun member hmember =>
    (h.2.2 member hmember).printable

theorem takesTracestate_iff (s : Text) :
    TakesTracestate s ↔ IsTracestate s ∨ FeedsTracestate s := by
  constructor
  · intro ⟨hbytes, hlength, hmembers⟩
    by_cases hmem : 0x0a ∈ s
    · exact .inr ⟨hbytes, hlength, hmembers, hmem⟩
    · refine .inl ⟨hbytes, hlength, fun member hmember => ?_⟩
      obtain h | ⟨t, -, ht⟩ := hmembers member hmember
      · exact h
      · have hfree : ∀ c ∈ s, c ≠ 0x0a := by
          intro c hc heq
          exact hmem (heq ▸ hc)
        have hnot := (forall_mem_splitOn (by decide) s).mpr hfree member hmember 0x0a
        simp [ht] at hnot
  · rintro (⟨hbytes, hlength, hmembers⟩ | h)
    · exact ⟨hbytes, hlength, fun member hmember => .inl (hmembers member hmember)⟩
    · exact ⟨h.bytes, h.members, h.feeds⟩

/-! ## `traceparent` -/

/-- A header that `TraceparentRe` takes, with the rest that `$` takes, and that passes the checks of
its version and its ids. -/
def TakesTraceparent (s : Text) : Prop :=
  ∃ t rest, IsTraceparent t ∧ s = t ++ rest ∧ dollar rest = true

theorem takes_width_iff {f : ℕ → Bool} {n : ℕ} {part : Text} :
    (⟨f, n, some n⟩ : Piece ℕ).Takes part ↔ part.length = n ∧ ∀ c ∈ part, f c = true :=
  ⟨fun h => ⟨Nat.le_antisymm (h.most n rfl) h.least, h.mem⟩,
    fun h => ⟨h.2, h.1.ge, fun most hmost => by cases hmost; exact h.1.le⟩⟩

/-- **What the pattern takes** are four hexadecimal fields, and what `$` takes. -/
theorem accepts_traceparentRe_iff {s : Text} : accepts dollar traceparentRe s = true ↔
    ∃ (h : Fields ℕ) (rest : Text), h.Sized ∧ (∀ part ∈ h.parts, ∀ c ∈ part, isHex c = true) ∧
      s = h.text 0x2d ++ rest ∧ dollar rest = true := by
  simp only [accepts_iff, traceparentRe, Fits, takes_width_iff, decide_eq_true_eq,
    ← List.eq_replicate_iff, List.replicate_one]
  constructor
  · intro h
    obtain ⟨rest, ⟨v, _, hs, hv, d, _, hs₁, hd, t, _, hs₂, ht, d', _, hs₃, hd', p, _, hs₄, hp,
      d'', _, hs₅, hd'', f, _, hs₆, hf, hrest⟩, hdollar⟩ := h
    subst hs hs₁ hs₂ hs₃ hs₄ hs₅ hs₆ hd hd' hd'' hrest
    refine ⟨⟨v, t, p, f⟩, _, ⟨hv.1, ht.1, hp.1, hf.1⟩, ?_, ?_, hdollar⟩
    · simp only [Fields.parts, List.forall_mem_cons, List.not_mem_nil, false_implies, implies_true,
        and_true]
      exact ⟨hv.2, ht.2, hp.2, hf.2⟩
    · simp [Fields.text, Fields.parts, List.intercalate]
  · intro hexists
    obtain ⟨h, rest, hsized, hhex, hs, hdollar⟩ := hexists
    simp only [Fields.parts, List.forall_mem_cons, List.not_mem_nil, false_implies, implies_true,
      and_true] at hhex
    subst hs
    refine ⟨rest, ⟨h.version, _, ?_, ⟨hsized.version, hhex.1⟩, [0x2d], _, rfl, rfl,
      h.traceId, _, rfl, ⟨hsized.traceId, hhex.2.1⟩, [0x2d], _, rfl, rfl,
      h.spanId, _, rfl, ⟨hsized.spanId, hhex.2.2.1⟩, [0x2d], _, rfl, rfl,
      h.flags, rest, rfl, ⟨hsized.flags, hhex.2.2.2⟩, rfl⟩, hdollar⟩
    simp [Fields.text, Fields.parts, List.intercalate]

/-- The groups of a match are its fields. -/
theorem matchTraceparent_of_fields {h : Fields ℕ} (hsized : h.Sized)
    (hhex : ∀ part ∈ h.parts, ∀ c ∈ part, isHex c = true) {rest : Text}
    (hdollar : dollar rest = true) :
    matchTraceparent (h.text 0x2d ++ rest) = some (h.version, h.traceId, h.spanId) := by
  have htext : h.text 0x2d ++ rest = h.version ++ 0x2d :: (h.traceId ++ 0x2d :: (h.spanId ++
      0x2d :: (h.flags ++ rest))) := by
    simp [Fields.text, Fields.parts, List.intercalate]
  have haccepts := accepts_traceparentRe_iff.mpr ⟨h, rest, hsized, hhex, rfl, hdollar⟩
  have hversion : h.version.drop 36 = [] :=
    List.drop_eq_nil_of_le (by rw [hsized.version]; omega)
  have htrace : h.traceId.drop 33 = [] := List.drop_eq_nil_of_le (by rw [hsized.traceId]; omega)
  rw [matchTraceparent, if_pos haccepts, htext]
  simp [List.take_append, List.drop_append, hsized.version, hsized.traceId, hsized.spanId, hversion,
    htrace]

theorem all_zero_iff {n : ℕ} {id : Text} (hlength : id.length = n)
    (hhex : ∀ c ∈ id, isHex c = true) :
    (id.map toLower).all (· = 0x30) = true ↔ id = List.replicate n 0x30 := by
  have hzero : ∀ c, isHex c = true → (toLower c = 0x30 ↔ c = 0x30) := by
    intro c hc
    simp only [isHex, Bool.or_eq_true, Bool.and_eq_true, decide_eq_true_eq] at hc
    rw [toLower]
    split <;> omega
  rw [List.all_map, List.all_eq_true, List.eq_replicate_iff]
  simp only [Function.comp_apply, decide_eq_true_eq]
  constructor
  · exact fun h => ⟨hlength, fun c hc => (hzero c (hhex c hc)).mp (h c hc)⟩
  · exact fun h c hc => (hzero c (hhex c hc)).mpr (h.2 c hc)

/-- The ids of a header that is taken. -/
theorem parseTraceparent_of_fields {h : Fields ℕ} (hfields : HexFields h) {rest : Text}
    (hdollar : dollar rest = true) : parseTraceparent (h.text 0x2d ++ rest) =
      (h.traceId.map toLower, h.spanId.map toLower) := by
  have htrace : ∀ c ∈ h.traceId, isHex c = true := hfields.hex h.traceId (by simp [Fields.parts])
  have hspan : ∀ c ∈ h.spanId, isHex c = true := hfields.hex h.spanId (by simp [Fields.parts])
  have hne : h.text 0x2d ++ rest ≠ [] := by simp [Fields.text, Fields.parts, List.intercalate]
  rw [parseTraceparent, if_neg hne, matchTraceparent_of_fields hfields.toSized hfields.hex hdollar]
  simp only
  rw [if_neg hfields.version_ne, if_neg]
  rw [Bool.or_eq_true, all_zero_iff hfields.traceId htrace, all_zero_iff hfields.spanId hspan]
  exact not_or.mpr ⟨hfields.traceId_ne, hfields.spanId_ne⟩

/-- There are no ids in a header that is not taken. -/
theorem parseTraceparent_of_not {s : Text} (h : ¬ TakesTraceparent s) :
    parseTraceparent s = ([], []) := by
  rw [parseTraceparent]
  by_cases hnil : s = []
  · rw [if_pos hnil]
  · rw [if_neg hnil]
    by_cases haccepts : accepts dollar traceparentRe s = true
    · obtain ⟨fields, rest, hsized, hhex, rfl, hdollar⟩ := accepts_traceparentRe_iff.mp haccepts
      have htrace : ∀ c ∈ fields.traceId, isHex c = true :=
        hhex fields.traceId (by simp [Fields.parts])
      have hspan : ∀ c ∈ fields.spanId, isHex c = true :=
        hhex fields.spanId (by simp [Fields.parts])
      rw [matchTraceparent_of_fields hsized hhex hdollar]
      simp only
      by_cases hversion : fields.version.map toLower = text "ff"
      · rw [if_pos hversion]
      · rw [if_neg hversion, if_pos]
        rw [Bool.or_eq_true, all_zero_iff hsized.traceId htrace, all_zero_iff hsized.spanId hspan]
        by_contra hzeros
        rw [not_or] at hzeros
        exact h ⟨_, rest, ⟨fields, ⟨hsized, hhex, hversion, hzeros.1, hzeros.2⟩, rfl⟩, rfl, hdollar⟩
    · rw [matchTraceparent, if_neg haccepts]

theorem byteCount_le (s : Text) : byteCount s ≤ 3 * s.length := by
  induction s using byteCount.induct with
  | case1 => exact Nat.zero_le _
  | case2 u hu => simp [byteCount, hu]
  | case3 u hu hu' => simp [byteCount, hu, hu']
  | case4 u hu hu' => simp [byteCount, hu, hu']
  | case5 u v s hu ih =>
      rw [byteCount, if_pos hu, List.length_cons]
      omega
  | case6 u v s hu hu' ih =>
      rw [byteCount, if_neg hu, if_pos hu', List.length_cons]
      omega
  | case7 u v s hu hu' hpair ih =>
      rw [byteCount, if_neg hu, if_neg hu', if_pos hpair, List.length_cons, List.length_cons]
      omega
  | case8 u v s hu hu' hpair ih =>
      rw [byteCount, if_neg hu, if_neg hu', if_neg hpair, List.length_cons]
      omega

theorem takesTraceparent_iff (s : Text) :
    TakesTraceparent s ↔ IsTraceparent s ∨ FeedsTraceparent s := by
  constructor
  · intro ⟨t, rest, ht, hs, hdollar⟩
    obtain rfl | rfl := dollar_iff.mp hdollar
    · rw [List.append_nil] at hs
      exact .inl (hs ▸ ht)
    · exact .inr ⟨t, ht, hs⟩
  · rintro (h | ⟨t, ht, hs⟩)
    · exact ⟨s, [], h, by simp, rfl⟩
    · exact ⟨t, [0x0a], ht, hs, rfl⟩

/-- A text in the grammar breaks no line. -/
theorem IsTraceparent.printable {s : Text} (h : IsTraceparent s) :
    s ≠ [] ∧ ∀ c ∈ s, c ≠ 0x0d ∧ c ≠ 0x0a := by
  obtain ⟨h, hfields, rfl⟩ := h
  have hex : ∀ c, isHex c = true → c ≠ 0x0d ∧ c ≠ 0x0a := by
    intro c hc
    simp only [isHex, Bool.or_eq_true, Bool.and_eq_true, decide_eq_true_eq] at hc
    omega
  have htext : h.text 0x2d = h.version ++ 0x2d :: (h.traceId ++ 0x2d :: (h.spanId ++
      0x2d :: h.flags)) := by
    simp [Fields.text, Fields.parts, List.intercalate]
  have hparts := hfields.hex
  simp only [Fields.parts, List.forall_mem_cons, List.not_mem_nil, false_implies, implies_true,
    and_true] at hparts
  refine ⟨by simp [htext], fun c hc => ?_⟩
  simp only [htext, List.mem_append, List.mem_cons] at hc
  obtain hc | rfl | hc | rfl | hc | rfl | hc := hc
  · exact hex c (hparts.1 c hc)
  · decide
  · exact hex c (hparts.2.1 c hc)
  · decide
  · exact hex c (hparts.2.2.1 c hc)
  · decide
  · exact hex c (hparts.2.2.2 c hc)

variable {C} {headers : HeaderMap}

theorem kept_traceparent : Kept (headers.raw C).tpRaw TakesTraceparent
    (extractW3CContext C headers).traceparent := by
  have hkept : (extractW3CContext C headers).traceparent =
      let tp := guardSize ((headers.raw C).tpRaw.getD []) 512
      if (parseTraceparent tp).1.length = 0 ∧ (parseTraceparent tp).2.length = 0 then [] else tp :=
    rfl
  rw [hkept]
  cases (headers.raw C).tpRaw with
  | none => exact .inr ⟨by simp, rfl⟩
  | some s =>
      by_cases h : TakesTraceparent s
      · obtain ⟨t, rest, ⟨fields, hfields, rfl⟩, rfl, hdollar⟩ := id h
        have hlength : (fields.text 0x2d ++ rest).length ≤ 56 := by
          obtain rfl | rfl := dollar_iff.mp hdollar <;>
            simp [Fields.text, Fields.parts, List.intercalate, hfields.version, hfields.traceId,
              hfields.spanId, hfields.flags]
        have hbytes := byteCount_le (fields.text 0x2d ++ rest)
        have hguard : guardSize (fields.text 0x2d ++ rest) 512 = fields.text 0x2d ++ rest := by
          rw [guardSize, if_neg (by simp [Fields.text, Fields.parts, List.intercalate]),
            if_neg (by omega)]
        refine .inl ⟨_, rfl, h, ?_⟩
        simp only [Option.getD_some, hguard, parseTraceparent_of_fields hfields hdollar,
          List.length_map, hfields.traceId]
        exact if_neg (by simp)
      · refine .inr ⟨fun t ht => ?_, ?_⟩
        · rw [Option.some.injEq] at ht
          rwa [← ht]
        · have hguard : ¬ TakesTraceparent (guardSize s 512) := by
            rw [guardSize]
            split
            · rename_i hnil
              rwa [hnil] at h
            · split
              · intro htakes
                obtain ⟨t, rest, ht, hs, -⟩ := htakes
                exact ht.printable.1 (List.append_eq_nil_iff.mp hs.symm).1
              · exact h
          simp only [Option.getD_some, parseTraceparent_of_not hguard]
          exact if_pos ⟨rfl, rfl⟩

/-- **When what is kept is what is in its grammar.** -/
theorem keepsExactly_iff (C : Casing) (headers : HeaderMap) :
    KeepsExactly C headers ↔ Regular C headers := by
  have hstate := kept_iff (headers.header C (text "tracestate"))
    (kept_tracestate (headers.raw C).tsRaw) takesTracestate_iff (fun s h => ⟨?_, ?_⟩)
    fun s h => h.mem
  · have hkept : Kept (headers.raw C).tpRaw TakesTraceparent
        (extractW3CContext C headers).traceparent := kept_traceparent
    have hparent := kept_iff (headers.header C (text "traceparent")) hkept takesTraceparent_iff
      (fun s h => h.printable) fun s ⟨t, _, hs⟩ => by simp [hs]
    have hsame : (extractW3CContext C headers).tracestate =
        guardTracestate ((headers.raw C).tsRaw.getD []) := rfl
    rw [← hsame] at hstate
    constructor
    · intro h
      have hlines := List.forall_mem_append.mp h.lines
      have hs := hstate.mp ⟨h.tracestate, hlines.1⟩
      have hp := hparent.mp ⟨h.traceparent, hlines.2⟩
      exact ⟨hs.1, hp.1, hs.2, hp.2⟩
    · intro h
      have hs := hstate.mpr ⟨h.tracestate, h.tracestate_found⟩
      have hp := hparent.mpr ⟨h.traceparent, h.traceparent_found⟩
      exact ⟨hs.1, hp.1, List.forall_mem_append.mpr ⟨hs.2, hp.2⟩⟩
  · rintro rfl
    exact not_isMember_nil (h.2.2 [] (by simp))
  · intro c hc
    have hprintable := h.printable c hc
    omega

/-- ASCII letters have two cases. -/
def asciiCasing : Casing where
  upper c := if 0x61 ≤ c ∧ c ≤ 0x7a then c - 0x20 else c

/-- A `tracestate` with a line feed behind its last member is kept. -/
theorem line_feed_kept :
    let headers : HeaderMap := ⟨.ordinalIgnoreCase, [(text "tracestate", text "a=1,b=2\n")]⟩
    (extractW3CContext asciiCasing headers).tracestate = text "a=1,b=2\n" ∧
      ¬ KeepsExactly asciiCasing headers := by
  have hkept : (extractW3CContext asciiCasing
      ⟨.ordinalIgnoreCase, [(text "tracestate", text "a=1,b=2\n")]⟩).tracestate =
        text "a=1,b=2\n" := by decide
  refine ⟨hkept, fun h => ?_⟩
  have hline := h.lines 0x0a (List.mem_append_left _ (by rw [hkept]; decide))
  exact hline.2 rfl

end Telemetry.Propagation.CSharp
