import Telemetry.Metrics.PythonNames
import Telemetry.Metrics.RustNames

/-!
# When Python and Rust translate names alike

The two translate every name and every label key alike, but for one thing: they do not agree on
what stands around a unit. Python strips what `str.isspace` holds of, and that includes the
separators U+001C to U+001F; Rust trims White_Space, which leaves them.

## Main definitions

* `NamesAlike`, `LabelsAlike` — what the two make of a name, and of a key, is the same.
* `suffixesBy` — the suffixes of a unit, by the characters that are stripped.
* `PlainUnit` — no separator is at an end of either part of a unit.

## Main results

* `namesAlike_of_suffixes` — the rest of the two functions is the same.
* `separators_withSuffixes` — a suffixed name has the separators of its suffixes.
* `alike_iff_plainUnit` — **the units with which all names are translated alike**.
-/

namespace Telemetry.Metrics.Naming

open Lib
open Lib.CodePoints (ofChars)
open Propagation (isWhiteSpace partition)
open Propagation.Python (isSeparator isSpaceChar)
open RustNames (unitWord perUnitWord perMark withSuffixes)

/-! ## What both are asked -/

/-- The kind, as Rust knows it. -/
def kindOf : PythonNames.TranslationKind → RustNames.Kind
  | .monotonicCounter => .monotonicCounter
  | .nonMonotonicCounter => .nonMonotonicCounter
  | .gauge => .gauge
  | .histogram => .histogram

/-- The name of a strategy. -/
def strategyName : PythonNames.Strategy → String
  | .underscoreEscapingWithSuffixes => "UnderscoreEscapingWithSuffixes"
  | .underscoreEscapingWithoutSuffixes => "UnderscoreEscapingWithoutSuffixes"
  | .noUTF8EscapingWithSuffixes => "NoUTF8EscapingWithSuffixes"
  | .noTranslation => "NoTranslation"

/-- The strategy, as Rust reads its name. -/
def strategyOf (strategy : PythonNames.Strategy) : RustNames.Strategy :=
  .named (strategyName strategy)

/-- Both reject the name, or both return the same one. -/
def NamesAlike (name unit : List Char) (kind : PythonNames.TranslationKind)
    (strategy : PythonNames.Strategy) : Prop :=
  PythonNames.metricName (ofChars name) (ofChars unit) kind strategy =
    (RustNames.metricName name unit (kindOf kind) (strategyOf strategy)).map ofChars

/-- Both reject the key, or both return the same label. -/
def LabelsAlike (key : List Char) (strategy : PythonNames.Strategy) : Prop :=
  PythonNames.labelName (ofChars key) strategy =
    (RustNames.labelName key (strategyOf strategy)).map ofChars

theorem strategyOf_eq (strategy : PythonNames.Strategy) :
    strategyOf strategy = ⟨strategy.escapes, strategy.addsSuffixes⟩ := by
  cases strategy <;> decide

/-! ## Characters and texts -/

theorem scalar_injective : Function.Injective CodePoint.scalar := fun _ _ => CodePoint.scalar.inj

theorem ofChars_injective : Function.Injective ofChars :=
  List.map_injective_iff.mpr scalar_injective

theorem isAlnum_scalar (c : Char) :
    PythonNames.isAlnum (.scalar c) = RustNames.isAsciiAlphanumeric c := by
  rw [PythonNames.isAlnum, RustNames.isAsciiAlphanumeric, Bool.or_assoc, Bool.or_comm,
    Bool.or_comm ('A' ≤ c && c ≤ 'Z')]

theorem isTokenChar_scalar (c : Char) :
    PythonNames.isTokenChar (.scalar c) = RustNames.isLegacyNameChar c := by
  rw [PythonNames.isTokenChar, RustNames.isLegacyNameChar, isAlnum_scalar]
  simp only [CodePoint.scalar.injEq]

theorem isNameChar_scalar (c : Char) :
    PythonRender.isNameChar (.scalar c) = (RustNames.isLegacyNameChar c || c = '_') := by
  rw [PythonRender.isNameChar, RustNames.isLegacyNameChar, RustNames.isAsciiAlphanumeric,
    Bool.eq_iff_iff]
  simp only [Bool.or_eq_true, decide_eq_true_eq]
  tauto

theorem tokens_ofChars {isToken : CodePoint → Bool} {keep : Char → Bool}
    (h : ∀ c, isToken (.scalar c) = keep c) (name : List Char) :
    PythonNames.tokens isToken (ofChars name) = (RustNames.tokens name keep).map ofChars := by
  have hkeep : (fun c => !isToken c) ∘ CodePoint.scalar = fun c => !keep c := by
    funext c
    rw [Function.comp_apply, h]
  have hne : (fun t : CodePoints => decide (t ≠ [])) ∘ List.map CodePoint.scalar =
      fun t => decide (t ≠ []) := by
    funext t
    simp
  rw [PythonNames.tokens, RustNames.tokens, ofChars, splitOnP_map, hkeep, List.filter_map, hne]
  rfl

/-- The loop of Rust, from any state on. -/
theorem replaceRuns_ofChars {isValid : CodePoint → Bool} {keep : Char → Bool}
    (h : ∀ c, isValid (.scalar c) = keep c) (text : List Char) :
    PythonNames.replaceRuns isValid false (ofChars text) =
      ofChars (RustNames.collapseInvalid text keep) := by
  have hrun : ∀ (text out : List Char) (inRun : Bool),
      ofChars out ++ PythonNames.replaceRuns isValid inRun (ofChars text) =
        ofChars (text.foldl (RustNames.collapseStep keep) (out, inRun)).1 := by
    intro text
    induction text with
    | nil =>
        intro out inRun
        exact List.append_nil _
    | cons c text ih =>
        intro out inRun
        have hcons : ofChars (c :: text) = .scalar c :: ofChars text := rfl
        have hsnoc : ∀ (d : Char) (rest : CodePoints),
            ofChars out ++ .scalar d :: rest = ofChars (out ++ [d]) ++ rest := by
          intro d rest
          simp [ofChars]
        rw [hcons, PythonNames.replaceRuns, h, List.foldl_cons, RustNames.collapseStep]
        split
        · rw [hsnoc, ih]
        · cases inRun
          · exact (hsnoc '_' _).trans (ih _ _)
          · exact ih _ _
  exact hrun text [] false

theorem removePrefix_ofChars (mark s : List Char) :
    PythonNames.removePrefix (ofChars mark) (ofChars s) =
      ofChars ((RustNames.stripPrefix mark s).getD s) := by
  have hiff : ofChars mark <+: ofChars s ↔ mark <+: s :=
    List.prefix_map_iff_of_injective scalar_injective
  rw [PythonNames.removePrefix, RustNames.stripPrefix]
  by_cases h : mark <+: s
  · rw [if_pos (hiff.mpr h), if_pos h, Option.getD_some, ofChars, ofChars, ofChars,
      List.length_map, List.map_drop]
  · rw [if_neg (hiff.not.mpr h), if_neg h, Option.getD_none]

theorem suffix_ofChars_iff (mark s : List Char) : ofChars mark <:+ ofChars s ↔ mark <:+ s :=
  List.suffix_map_iff_of_injective scalar_injective

theorem removeSuffix_ofChars (mark s : List Char) :
    PythonRender.removeSuffix (ofChars mark) (ofChars s) =
      ofChars ((RustNames.stripSuffix mark s).getD s) := by
  have hiff := suffix_ofChars_iff mark s
  rw [PythonRender.removeSuffix, RustNames.stripSuffix]
  by_cases h : mark <:+ s
  · rw [if_pos (hiff.mpr h), if_pos h, Option.getD_some, ofChars, ofChars, ofChars,
      List.length_map, List.length_map, List.map_take]
  · rw [if_neg (hiff.not.mpr h), if_neg h, Option.getD_none]

theorem intercalate_ofChars (ts : List (List Char)) :
    [PythonNames.underscore].intercalate (ts.map ofChars) = ofChars (['_'].intercalate ts) := by
  induction ts with
  | nil => rfl
  | cons t ts ih =>
      cases ts with
      | nil => simp [List.intercalate]
      | cons t' ts =>
          rw [List.map_cons, List.map_cons, List.intercalate_cons_cons, ← List.map_cons, ih,
            List.intercalate_cons_cons]
          simp [ofChars, PythonNames.underscore]

theorem prefixLeadingDigit_ofChars (name : List Char) :
    PythonNames.prefixLeadingDigit (ofChars name) =
      ofChars (RustNames.prefixLeadingDigit name) := by
  cases name with
  | nil => rfl
  | cons c name =>
      have hdigit : (ofChars (c :: name)).head?.any PythonNames.isDigit =
          (c :: name).head?.any RustNames.isAsciiDigit := rfl
      rw [PythonNames.prefixLeadingDigit, RustNames.prefixLeadingDigit, hdigit]
      split <;> rfl

theorem strip_ofChars (s : List Char) :
    strip (· = PythonNames.underscore) (ofChars s) = ofChars (strip (· = '_') s) := by
  rw [ofChars, strip_map]
  congr 2
  funext c
  simp [PythonNames.underscore]

/-! ## Units -/

/-- `unit_suffix`, by the characters that are taken from the ends of a unit. -/
def suffixBy (space : Char → Bool) (unit : List Char) : List Char :=
  let unit := strip space unit
  if '{' ∈ unit ∨ '}' ∈ unit then [] else unit

/-- `unit_suffixes`, likewise. -/
def suffixesBy (space : Char → Bool) (unit : List Char) : List Char × List Char :=
  let main := suffixBy space (partition '/' unit).1
  let per := suffixBy space (partition '/' unit).2
  (unitWord main, if per = [] then [] else perMark ++ perUnitWord per)

theorem unitSuffixes_rust (unit : List Char) :
    RustNames.unitSuffixes unit = suffixesBy isWhiteSpace unit := by
  have hsuffix : ∀ part, RustNames.unitSuffix part = suffixBy isWhiteSpace part := fun _ => rfl
  rw [RustNames.unitSuffixes, suffixesBy]
  simp only [hsuffix]
  split <;> rfl

theorem lookup_map {κ κ' υ υ' : Type} [BEq κ] [LawfulBEq κ] [BEq κ'] [LawfulBEq κ'] {f : κ → κ'}
    (hf : Function.Injective f) (g : υ → υ') (entries : List (κ × υ)) (key : κ) :
    (entries.map (Prod.map f g)).lookup (f key) = (entries.lookup key).map g := by
  induction entries with
  | nil => rfl
  | cons e entries ih =>
      obtain ⟨k, v⟩ := e
      rw [List.map_cons, Prod.map_apply, List.lookup_cons, List.lookup_cons, ih]
      have hkey : (f key == f k) = (key == k) := by
        rw [Bool.eq_iff_iff, beq_iff_eq, beq_iff_eq, hf.eq_iff]
      rw [hkey]
      cases key == k <;> rfl

theorem unitMap_eq : PythonNames.unitMap = RustNames.unitWords.map (Prod.map ofChars ofChars) :=
  rfl

theorem perUnitMap_eq :
    PythonNames.perUnitMap = RustNames.perUnitWords.map (Prod.map ofChars ofChars) :=
  rfl

theorem getD_lookup_ofChars (entries : List (List Char × List Char)) (key : List Char) :
    ((entries.map (Prod.map ofChars ofChars)).lookup (ofChars key)).getD (ofChars key) =
      ofChars ((entries.lookup key).getD key) := by
  rw [lookup_map ofChars_injective]
  cases entries.lookup key <;> rfl

theorem unitSuffix_python (part : List Char) :
    PythonNames.unitSuffix (ofChars part) = ofChars (suffixBy isSpaceChar part) := by
  have hstrip : strip Propagation.Python.isSpace (ofChars part) =
      ofChars (strip isSpaceChar part) := strip_map _ _
  have hmem : ∀ (c : Char) (s : List Char), CodePoint.scalar c ∈ ofChars s ↔ c ∈ s :=
    fun c s => List.mem_map_of_injective scalar_injective
  rw [PythonNames.unitSuffix, suffixBy, hstrip]
  simp only [PythonRender.openBrace, PythonRender.closeBrace, hmem]
  split <;> rfl

theorem unitSuffixes_python (unit : List Char) :
    PythonNames.unitSuffixes (ofChars unit) =
      (ofChars (suffixesBy isSpaceChar unit).1, ofChars (suffixesBy isSpaceChar unit).2) := by
  have hparts : partition PythonNames.slash (ofChars unit) =
      (ofChars (partition '/' unit).1, ofChars (partition '/' unit).2) :=
    Propagation.Alphabet.partition_map scalar_injective '/' unit
  have hnil : ∀ s : List Char, ofChars s = [] ↔ s = [] := fun s => List.map_eq_nil_iff
  rw [PythonNames.unitSuffixes, suffixesBy, hparts]
  simp only [unitSuffix_python, unitMap_eq, perUnitMap_eq, getD_lookup_ofChars, hnil]
  split
  · rfl
  · simp only [perMark, PythonNames.perMark, CodePoints.ofString, ofChars, List.map_append]
    rfl

/-- If the two read the same suffixes, these are the ones that Rust reads. -/
theorem unitSuffixes_of_eq {unit : List Char}
    (h : suffixesBy isSpaceChar unit = suffixesBy isWhiteSpace unit) :
    PythonNames.unitSuffixes (ofChars unit) =
      (ofChars (RustNames.unitSuffixes unit).1, ofChars (RustNames.unitSuffixes unit).2) := by
  rw [unitSuffixes_python, h, unitSuffixes_rust]

/-! ## The same tokens -/

theorem cleanUpUnit_ofChars (unit : List Char) :
    PythonNames.cleanUpUnit (ofChars unit) = ofChars (RustNames.cleanUpUnit unit) := by
  rw [PythonNames.cleanUpUnit, RustNames.cleanUpUnit, replaceRuns_ofChars isTokenChar_scalar]
  exact removePrefix_ofChars ['_'] _

theorem addUnitTokens_ofChars (tokens : List (List Char)) (main per : List Char) :
    PythonNames.addUnitTokens (tokens.map ofChars) (ofChars main) (ofChars per) =
      (RustNames.addUnitTokens tokens main per).map ofChars := by
  have hmem : ofChars main ∈ tokens.map ofChars ↔ main ∈ tokens :=
    List.mem_map_of_injective ofChars_injective
  have hmark : ofChars per = PythonNames.perMark ↔ per = perMark :=
    ofChars_injective.eq_iff (b := perMark)
  have hcut : ∀ s, PythonRender.removeSuffix [PythonNames.underscore] (ofChars s) =
      ofChars ((RustNames.stripSuffix ['_'] s).getD s) := removeSuffix_ofChars ['_']
  have hmain : (if ofChars main ∈ tokens.map ofChars then [] else ofChars main) =
      ofChars (if main ∈ tokens then [] else main) := by
    simp only [hmem]
    split <;> rfl
  have hper : (if ofChars per = PythonNames.perMark then [] else
        PythonRender.removeSuffix [PythonNames.underscore] (ofChars per)) =
      ofChars (if per = perMark then [] else (RustNames.stripSuffix ['_'] per).getD per) := by
    simp only [hmark, hcut]
    split <;> rfl
  have hboth : ∀ m p : List Char, (if ofChars p = [] then ofChars m else
        PythonRender.removeSuffix [PythonNames.underscore] (ofChars m)) =
      ofChars (if p ≠ [] then (RustNames.stripSuffix ['_'] m).getD m else m) := by
    intro m p
    rw [hcut]
    cases p <;> rfl
  have hfilter : ∀ ts : List (List Char), (ts.map ofChars).filter (fun t => t ≠ []) =
      (ts.filter fun t => t ≠ []).map ofChars := by
    intro ts
    rw [List.filter_map]
    congr 2
    funext t
    simp [ofChars]
  rw [PythonNames.addUnitTokens, RustNames.addUnitTokens, hmain, hper, hboth, List.map_append,
    ← hfilter]
  rfl

theorem moveToEnd_ofChars (word : List Char) (tokens : List (List Char)) :
    PythonNames.moveToEnd (ofChars word) (tokens.map ofChars) =
      (RustNames.lastToken tokens word).map ofChars := by
  have hne : (fun t => decide (t ≠ ofChars word)) ∘ ofChars = fun t => decide (t ≠ word) := by
    funext t
    simp [ofChars_injective.eq_iff]
  rw [PythonNames.moveToEnd, RustNames.lastToken, List.filter_map, hne, List.map_append]
  rfl

theorem kindOf_monotonicCounter_iff {kind : PythonNames.TranslationKind} :
    kindOf kind = .monotonicCounter ↔ kind = .monotonicCounter := by
  cases kind <;> decide

theorem kindOf_gauge_iff {kind : PythonNames.TranslationKind} :
    kindOf kind = .gauge ↔ kind = .gauge := by
  cases kind <;> decide

theorem ofChars_eq_one_iff {unit : List Char} : ofChars unit = PythonNames.one ↔ unit = ['1'] :=
  ofChars_injective.eq_iff (b := ['1'])

theorem normalize_ofChars {unit : List Char} (kind : PythonNames.TranslationKind)
    (hunit : PythonNames.unitSuffixes (ofChars unit) =
      (ofChars (RustNames.unitSuffixes unit).1, ofChars (RustNames.unitSuffixes unit).2))
    (name : List Char) :
    PythonNames.normalize (ofChars name) (ofChars unit) kind =
      ofChars (RustNames.normalize name unit (kindOf kind)) := by
  have htokens : PythonNames.normalTokens (ofChars name) (ofChars unit) kind =
      (RustNames.normalParts name unit (kindOf kind)).map ofChars := by
    rw [PythonNames.normalTokens, RustNames.normalParts, hunit]
    simp only [cleanUpUnit_ofChars, tokens_ofChars isTokenChar_scalar, addUnitTokens_ofChars,
      kindOf_monotonicCounter_iff, kindOf_gauge_iff, ofChars_eq_one_iff]
    have htotal := moveToEnd_ofChars RustNames.total
    have hratio := moveToEnd_ofChars RustNames.ratio
    split_ifs <;> simp only [← htotal, ← hratio] <;> rfl
  rw [PythonNames.normalize, RustNames.normalize, htokens, intercalate_ofChars,
    prefixLeadingDigit_ofChars]

/-! ## The same suffixes -/

theorem trimSuffix_ofChars (name suffix : List Char) :
    PythonNames.trimSuffix (ofChars name) (ofChars suffix) =
      ofChars (RustNames.trimSuffix name suffix) := by
  have hlength : ∀ s : List Char, (ofChars s).length = s.length := fun s => List.length_map _
  rw [PythonNames.trimSuffix, RustNames.trimSuffix, RustNames.stripSuffix]
  simp only [suffix_ofChars_iff, hlength]
  by_cases h : suffix <:+ name
  · have hle := h.length_le
    simp only [h, true_and, if_true, List.length_take]
    by_cases hlong : suffix.length + 1 < name.length
    · rw [if_pos hlong, if_pos (by omega), List.dropLast_eq_take, List.length_take, List.take_take,
        ofChars, ofChars, List.map_take]
      congr 1
      omega
    · rw [if_neg hlong, if_neg (by omega)]
  · simp only [h, false_and, if_false]

/-- The suffixed name, whatever the suffixes of the unit. -/
theorem utf8WithSuffixes_ofChars {unit main per : List Char} (kind : PythonNames.TranslationKind)
    (hunit : PythonNames.unitSuffixes (ofChars unit) = (ofChars main, ofChars per))
    (name : List Char) :
    PythonNames.utf8WithSuffixes (ofChars name) (ofChars unit) kind =
      ofChars (withSuffixes name (unit = ['1'] ∧ kind = .gauge) (kind = .monotonicCounter) main
        per) := by
  have hnil : ∀ s : List Char, ofChars s = [] ↔ s = [] := fun s => List.map_eq_nil_iff
  have happend : ∀ s t : List Char, ofChars s ++ ofChars t = ofChars (s ++ t) :=
    fun s t => List.map_append.symm
  have hcons : ∀ s : List Char, PythonNames.underscore :: ofChars s = ofChars ('_' :: s) :=
    fun _ => rfl
  have hite : ∀ (p : Prop) [Decidable p] (s t : List Char),
      (if p then ofChars s else ofChars t) = ofChars (if p then s else t) := by
    intro p _ s t
    split <;> rfl
  have houter : ∀ (p q : Prop) [Decidable p] [Decidable q] (s t : List Char),
      (if p then ofChars s else if q then ofChars t else []) =
        ofChars (if p then s else if q then t else []) := by
    intro p q _ _ s t
    split_ifs <;> rfl
  have hper : ∀ (p : Prop) [Decidable p] (s : List Char),
      (if p then [] else ofChars s) = ofChars (if p then [] else s) := by
    intro p _ s
    split <;> rfl
  have hmain : ∀ s : List Char, (if main = [] ∨ main <:+ s then s else s ++ '_' :: main) =
      if main ≠ [] ∧ ¬ main <:+ s then s ++ '_' :: main else s := by
    intro s
    by_cases h : main = [] ∨ main <:+ s
    · rw [if_pos h, if_neg (by tauto)]
    · rw [if_neg h, if_pos (by tauto)]
  have htotal : PythonNames.total = ofChars RustNames.total := rfl
  have hratio : PythonNames.ratio = ofChars RustNames.ratio := rfl
  rw [PythonNames.utf8WithSuffixes, withSuffixes, hunit]
  simp only [htotal, hratio, ofChars_eq_one_iff, hnil, trimSuffix_ofChars, hite,
    suffix_ofChars_iff, hcons, houter, hper, happend, hmain]

/-! ## The same names -/

theorem escapedName_ofChars {unit : List Char} (kind : PythonNames.TranslationKind)
    (hunit : PythonNames.unitSuffixes (ofChars unit) =
      (ofChars (RustNames.unitSuffixes unit).1, ofChars (RustNames.unitSuffixes unit).2))
    (name : List Char) (strategy : PythonNames.Strategy) :
    PythonNames.escapedName (ofChars name) (ofChars unit) kind strategy =
      ofChars (if strategy.addsSuffixes then RustNames.normalize name unit (kindOf kind)
        else RustNames.prefixLeadingDigit (['_'].intercalate
          (RustNames.tokens name fun c => RustNames.isLegacyNameChar c || c = '_'))) := by
  rw [PythonNames.escapedName, normalize_ofChars kind hunit, tokens_ofChars isNameChar_scalar,
    intercalate_ofChars, prefixLeadingDigit_ofChars]
  split <;> rfl

/-- **All but the suffixes of the unit is the same.** -/
theorem namesAlike_of_suffixes {unit : List Char}
    (hunit : suffixesBy isSpaceChar unit = suffixesBy isWhiteSpace unit) (name : List Char)
    (kind : PythonNames.TranslationKind) (strategy : PythonNames.Strategy) :
    NamesAlike name unit kind strategy := by
  have hsuffixes := unitSuffixes_of_eq hunit
  have hnil : ∀ s : List Char, ofChars s = [] ↔ s = [] := fun s => List.map_eq_nil_iff
  rw [NamesAlike, strategyOf_eq, PythonNames.metricName, RustNames.metricName]
  simp only [escapedName_ofChars kind hsuffixes, utf8WithSuffixes_ofChars kind hsuffixes, hnil,
    strip_ofChars, ne_eq, ofChars_injective.eq_iff]
  cases strategy.escapes
  · simp only [Bool.not_false, if_true, Bool.false_eq_true, if_false]
    cases strategy.addsSuffixes
    · rfl
    · simp only [if_true, RustNames.utf8WithSuffixes, kindOf_monotonicCounter_iff,
        kindOf_gauge_iff, Option.map_some]
  · simp only [Bool.not_true, Bool.false_eq_true, if_false, if_true]
    split_ifs <;> rfl

theorem sanitizedLabel_ofChars (key : List Char) :
    PythonNames.escapedLabel (ofChars key) = ofChars (RustNames.sanitized key) := by
  have hmarks : PythonNames.reservedMark = ofChars RustNames.reservedMark := rfl
  have hfront : ofChars RustNames.reservedMark <+: ofChars key ↔
      RustNames.reservedMark <+: key :=
    List.prefix_map_iff_of_injective scalar_injective
  have hslice : ((ofChars key).drop 2).take ((ofChars key).length - 4) =
      ofChars ((key.drop 2).take (key.length - 4)) := by
    rw [ofChars, ofChars, List.length_map, List.map_take, List.map_drop]
  have happend : ∀ s t : List Char, ofChars s ++ ofChars t = ofChars (s ++ t) :=
    fun s t => List.map_append.symm
  have hdigit : ∀ s : List Char, (ofChars s).head?.any PythonNames.isDigit =
      s.head?.any RustNames.isAsciiDigit := by
    intro s
    cases s <;> rfl
  have hkey : PythonNames.keyMark = ofChars "key_".toList := rfl
  rw [PythonNames.escapedLabel, RustNames.sanitized, PythonNames.sanitizedLabel]
  simp only [hmarks, hfront, suffix_ofChars_iff, hslice, replaceRuns_ofChars isAlnum_scalar,
    decide_eq_true_eq]
  split
  · rw [happend, happend, hdigit, hkey, happend]
    split <;> rfl
  · rw [hdigit, hkey, happend]
    split <;> rfl

/-- **The labels are the same.** -/
theorem labelsAlike (key : List Char) (strategy : PythonNames.Strategy) :
    LabelsAlike key strategy := by
  have hnil : ∀ s : List Char, ofChars s = [] ↔ s = [] := fun s => List.map_eq_nil_iff
  rw [LabelsAlike, strategyOf_eq, PythonNames.labelName, RustNames.labelName]
  simp only [strip_ofChars, sanitizedLabel_ofChars, hnil]
  cases strategy.escapes
  · simp only [Bool.not_false, if_true, Bool.false_eq_true, if_false]
    split <;> rfl
  · simp only [Bool.not_true, Bool.false_eq_true, if_false, if_true]
    split_ifs <;> rfl

/-! ## Where the suffixes differ -/

/-- A part of a unit that both read alike: it is an annotation, or without white space it neither
starts nor ends with a separator. -/
def PlainPart (part : List Char) : Prop :=
  '{' ∈ part ∨ '}' ∈ part ∨ Bare isSpaceChar (strip isWhiteSpace part)

/-- Both parts of the unit are such. -/
structure PlainUnit (unit : List Char) : Prop where
  main : PlainPart (partition '/' unit).1
  per : PlainPart (partition '/' unit).2

/-- How many separators a text has. -/
def separators (s : List Char) : ℕ := s.countP isSeparator

theorem separators_append (s t : List Char) : separators (s ++ t) = separators s + separators t :=
  List.countP_append

theorem isSpaceChar_of_isWhiteSpace {c : Char} (h : isWhiteSpace c = true) :
    isSpaceChar c = true := by
  rw [isSpaceChar, h, Bool.true_or]

/-- A brace is no edge of a text. -/
theorem mem_strip_iff {space : Char → Bool} {c : Char} (hc : space c = false) (s : List Char) :
    c ∈ strip space s ↔ c ∈ s := by
  refine ⟨mem_of_mem_strip, fun h => ?_⟩
  rw [← takeWhile_append_strip (p := space) s, List.mem_append, List.mem_append] at h
  obtain h | h | h := h
  · exact absurd (List.mem_takeWhile_imp h) (by simp [hc])
  · exact h
  · exact absurd (List.mem_rtakeWhile_imp h) (by simp [hc])

theorem suffixBy_eq {space : Char → Bool} (hopen : space '{' = false) (hclose : space '}' = false)
    (part : List Char) :
    suffixBy space part = if '{' ∈ part ∨ '}' ∈ part then [] else strip space part := by
  rw [suffixBy]
  simp only [mem_strip_iff hopen, mem_strip_iff hclose]

/-- A character that only Python strips is a separator. -/
theorem separators_pos {c : Char} {s : List Char} (hc : c ∈ s) (hspace : isSpaceChar c = true)
    (hwhite : isWhiteSpace c = false) : 0 < separators s := by
  rw [isSpaceChar, hwhite, Bool.false_or] at hspace
  exact List.countP_pos_iff.mpr ⟨c, hc, hspace⟩

/-- **What Python strips of a trimmed text has a separator.** -/
theorem separators_strip {s : List Char} (hbare : Bare isWhiteSpace s)
    (hnot : ¬ Bare isSpaceChar s) : separators (strip isSpaceChar s) < separators s := by
  have hsplit := takeWhile_append_strip (p := isSpaceChar) s
  have hcount := congrArg separators hsplit
  rw [separators_append, separators_append] at hcount
  by_contra hle
  have hfirst : s.takeWhile isSpaceChar = [] := by
    cases hu : s.takeWhile isSpaceChar with
    | nil => rfl
    | cons c u =>
        have hmem : c ∈ s.takeWhile isSpaceChar := by
          rw [hu]
          exact List.mem_cons_self
        have hhead : c ∈ s.head? := by
          rw [← hsplit, hu]
          rfl
        have hpos := separators_pos hmem (List.mem_takeWhile_imp hmem) (hbare.head c hhead)
        omega
  have hlast : (s.dropWhile isSpaceChar).rtakeWhile isSpaceChar = [] := by
    obtain hv | ⟨v, c, hv⟩ := List.eq_nil_or_concat ((s.dropWhile isSpaceChar).rtakeWhile
      isSpaceChar)
    · exact hv
    · have hmem : c ∈ (s.dropWhile isSpaceChar).rtakeWhile isSpaceChar := by
        rw [hv]
        simp
      have hend : c ∈ s.getLast? := by
        rw [← hsplit, hv]
        simp
      have hpos := separators_pos hmem (List.mem_rtakeWhile_imp hmem) (hbare.getLast c hend)
      omega
  rw [hfirst, hlast, List.nil_append, List.append_nil] at hsplit
  exact hnot (hsplit ▸ bare_strip s)

theorem suffixBy_python (part : List Char) : suffixBy isSpaceChar part =
    if '{' ∈ part ∨ '}' ∈ part then [] else strip isSpaceChar (strip isWhiteSpace part) := by
  rw [suffixBy_eq (by decide) (by decide),
    strip_strip (fun _ => isSpaceChar_of_isWhiteSpace)]

theorem suffixBy_of_plain {part : List Char} (h : PlainPart part) :
    suffixBy isSpaceChar part = suffixBy isWhiteSpace part := by
  rw [suffixBy_python, suffixBy_eq (by decide) (by decide)]
  split
  · rfl
  · next hbrace =>
      obtain hopen | hclose | hbare := h
      · exact absurd (.inl hopen) hbrace
      · exact absurd (.inr hclose) hbrace
      · exact strip_of_bare hbare

/-- The suffix that Python reads has fewer separators, unless both read the same. -/
theorem separators_suffixBy (part : List Char) :
    (PlainPart part → separators (suffixBy isSpaceChar part) =
      separators (suffixBy isWhiteSpace part)) ∧
    (¬ PlainPart part → separators (suffixBy isSpaceChar part) <
      separators (suffixBy isWhiteSpace part)) := by
  refine ⟨fun h => by rw [suffixBy_of_plain h], fun h => ?_⟩
  rw [PlainPart, not_or, not_or] at h
  rw [suffixBy_python, suffixBy_eq (by decide) (by decide), if_neg (by tauto), if_neg (by tauto)]
  exact separators_strip (bare_strip part) h.2.2

/-- A table in which nothing has a separator does not change how many there are. -/
theorem separators_getD_lookup {entries : List (List Char × List Char)}
    (h : ∀ e ∈ entries, separators e.1 = 0 ∧ separators e.2 = 0) (word : List Char) :
    separators ((entries.lookup word).getD word) = separators word := by
  cases hlookup : entries.lookup word with
  | none => rfl
  | some found =>
      obtain ⟨before, behind, hentries, -⟩ := List.lookup_eq_some_iff.mp hlookup
      obtain ⟨hword, hfound⟩ := h (word, found) (by simp [hentries])
      exact hfound.trans hword.symm

theorem separators_suffixesBy (space : Char → Bool) (unit : List Char) :
    separators (suffixesBy space unit).1 + separators (suffixesBy space unit).2 =
      separators (suffixBy space (partition '/' unit).1) +
        separators (suffixBy space (partition '/' unit).2) := by
  have hmain : ∀ word, separators (unitWord word) = separators word :=
    separators_getD_lookup (by decide)
  have hper : ∀ word, separators (perUnitWord word) = separators word :=
    separators_getD_lookup (by decide)
  rw [suffixesBy, hmain]
  congr 1
  split
  · next hnil => rw [hnil]
  · rw [separators_append, hper, show separators perMark = 0 by decide, zero_add]

/-! ## What a suffixed name shows of them -/

theorem separators_trimSuffix {name : List Char} (h : separators name = 0) (suffix : List Char) :
    separators (RustNames.trimSuffix name suffix) = 0 := by
  have hsub : ∀ s : List Char, s.Sublist name → separators s = 0 := by
    intro s hs
    have hle : separators s ≤ separators name := hs.countP_le
    omega
  rw [RustNames.trimSuffix, RustNames.stripSuffix]
  split
  · next rest hrest =>
      split at hrest
      · obtain rfl := Option.some.inj hrest
        split
        · exact hsub _ ((List.dropLast_sublist _).trans (List.take_sublist _ _))
        · exact h
      · exact absurd hrest (by simp)
  · exact h

/-- **A suffixed name has the separators of its suffixes**, if it has none of its own. -/
theorem separators_withSuffixes {name : List Char} (h : separators name = 0)
    (isRatio isTotal : Bool) (main per : List Char) :
    separators (withSuffixes name isRatio isTotal main per) =
      separators main + separators per := by
  have hcons : ∀ s, separators ('_' :: s) = separators s :=
    fun _ => List.countP_cons_of_neg (by decide)
  have houter : separators (if isTotal then '_' :: RustNames.total else
      if isRatio then '_' :: RustNames.ratio else []) = 0 := by
    cases isTotal <;> cases isRatio <;> decide
  have hper : separators (if per = [] then [] else '_' :: per) = separators per := by
    split
    · next hnil => rw [hnil]
    · exact hcons per
  have htrim : ∀ (b : Bool) (suffix : List Char) {s : List Char}, separators s = 0 →
      separators (if b then RustNames.trimSuffix s suffix else s) = 0 := by
    intro b suffix s hs
    cases b
    · exact hs
    · exact separators_trimSuffix hs suffix
  have hkeep : ∀ (p : Prop) [Decidable p] {s : List Char}, separators s = 0 →
      separators (if p then s else RustNames.trimSuffix s per) = 0 := by
    intro p _ s hs
    split
    · exact hs
    · exact separators_trimSuffix hs per
  have hname : ∀ s, separators s = 0 →
      separators (if main ≠ [] ∧ ¬ main <:+ s then s ++ '_' :: main else s) =
        separators main := by
    intro s hs
    split
    · rw [separators_append, hs, hcons, zero_add]
    · next hnot =>
        have hle : separators main ≤ separators s := by
          obtain rfl | hsuffix : main = [] ∨ main <:+ s := by tauto
          · exact Nat.zero_le _
          · exact hsuffix.sublist.countP_le
        omega
  rw [withSuffixes, separators_append, separators_append, houter, hper, hname, add_zero]
  exact hkeep _ (htrim _ _ (htrim _ _ h))

/-- With the suffixes of UTF-8 names, no name without separators is translated alike. -/
theorem plainUnit_of_namesAlike {name unit : List Char} {kind : PythonNames.TranslationKind}
    (hname : separators name = 0) (h : NamesAlike name unit kind .noUTF8EscapingWithSuffixes) :
    PlainUnit unit := by
  have hpython := utf8WithSuffixes_ofChars kind (unitSuffixes_python unit) name
  rw [NamesAlike, strategyOf_eq] at h
  simp only [PythonNames.metricName, RustNames.metricName, PythonNames.Strategy.escapes,
    PythonNames.Strategy.addsSuffixes, Bool.not_false, if_true, Bool.false_eq_true, if_false,
    Option.map_some, Option.some.injEq, hpython, RustNames.utf8WithSuffixes,
    kindOf_monotonicCounter_iff, kindOf_gauge_iff, unitSuffixes_rust] at h
  have hcount := congrArg separators (ofChars_injective h)
  rw [separators_withSuffixes hname, separators_withSuffixes hname, separators_suffixesBy,
    separators_suffixesBy] at hcount
  obtain ⟨hmain, hmainless⟩ := separators_suffixBy (partition '/' unit).1
  obtain ⟨hper, hperless⟩ := separators_suffixBy (partition '/' unit).2
  by_cases hplain : PlainPart (partition '/' unit).1
  · by_cases hplain' : PlainPart (partition '/' unit).2
    · exact ⟨hplain, hplain'⟩
    · have heq := hmain hplain
      have hlt := hperless hplain'
      omega
  · have hlt := hmainless hplain
    by_cases hplain' : PlainPart (partition '/' unit).2
    · have heq := hper hplain'
      omega
    · have hlt' := hperless hplain'
      omega

theorem suffixesBy_of_plainUnit {unit : List Char} (h : PlainUnit unit) :
    suffixesBy isSpaceChar unit = suffixesBy isWhiteSpace unit := by
  rw [suffixesBy, suffixesBy, suffixBy_of_plain h.main, suffixBy_of_plain h.per]

/-- Without suffixes the unit is not looked at. -/
theorem namesAlike_of_not_addsSuffixes {strategy : PythonNames.Strategy}
    (h : strategy.addsSuffixes = false) (name unit : List Char)
    (kind : PythonNames.TranslationKind) : NamesAlike name unit kind strategy := by
  have hblank := namesAlike_of_suffixes
    (show suffixesBy isSpaceChar [] = suffixesBy isWhiteSpace [] by decide) name kind strategy
  rw [NamesAlike, strategyOf_eq, PythonNames.metricName, RustNames.metricName] at hblank ⊢
  simp only [h, PythonNames.escapedName, Bool.false_eq_true, if_false] at hblank ⊢
  exact hblank

/-- **Names are translated alike with exactly the plain units**, and labels always. Without
suffixes every unit will do; with the suffixes of UTF-8 names, a unit that is not plain makes a
difference to every name without separators. -/
theorem alike_iff_plainUnit (unit : List Char) :
    (((∀ name kind strategy, NamesAlike name unit kind strategy) ∧
      ∀ key strategy, LabelsAlike key strategy) ↔ PlainUnit unit) ∧
    (∀ name kind strategy, strategy.addsSuffixes = false →
      NamesAlike name unit kind strategy) ∧
    ∀ name kind, separators name = 0 →
      (NamesAlike name unit kind .noUTF8EscapingWithSuffixes ↔ PlainUnit unit) := by
  have halike : PlainUnit unit → ∀ name kind strategy, NamesAlike name unit kind strategy :=
    fun h => namesAlike_of_suffixes (suffixesBy_of_plainUnit h)
  refine ⟨⟨?_, ?_⟩, fun name kind strategy h => namesAlike_of_not_addsSuffixes h name unit kind, ?_⟩
  · intro h
    have hgauge := h.1 [] .gauge .noUTF8EscapingWithSuffixes
    exact plainUnit_of_namesAlike rfl hgauge
  · intro h
    exact ⟨halike h, labelsAlike⟩
  · intro name kind hname
    exact ⟨plainUnit_of_namesAlike hname, fun h => halike h name kind _⟩

/-- Bytes per second are plain. -/
theorem alike_iff_plainUnit_bytesPerSecond :
    NamesAlike "x".toList "By/s".toList .monotonicCounter .noUTF8EscapingWithSuffixes :=
  ((alike_iff_plainUnit "By/s".toList).2.2 "x".toList .monotonicCounter (by decide)).mpr
    ⟨.inr (.inr (by decide)), .inr (.inr (by decide))⟩

/-- Seconds with a separator behind them: a name with a short unit, and one with a long. -/
theorem seconds_apart :
    ¬ ∀ name unit kind strategy, NamesAlike name unit kind strategy := by
  intro h
  have hx := h ['x'] ['s', '\u001f'] .gauge .underscoreEscapingWithSuffixes
  have hpython : PythonNames.metricName (ofChars ['x']) (ofChars ['s', '\u001f']) .gauge
      .underscoreEscapingWithSuffixes = some (.ofString "x_seconds") := by decide
  have hrust : RustNames.metricName ['x'] ['s', '\u001f'] (kindOf .gauge)
      (strategyOf .underscoreEscapingWithSuffixes) = some "x_s_".toList := by decide
  rw [NamesAlike, hpython, hrust] at hx
  exact absurd hx (by decide)

end Telemetry.Metrics.Naming
