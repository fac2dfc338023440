import Telemetry.Lib.Parts
import Telemetry.Metrics.PythonRender
import Telemetry.Propagation.PythonBaggage

/-!
# The names of metrics and labels in the Python SDK

`_prom_names.py` translates the name of an instrument into the name of a metric, and the key of an
attribute into the name of a label. A strategy says whether the name is brought into the older
format, and whether it gets the suffixes that tell its unit and its kind.

## Main definitions

* `Strategy`, `TranslationKind` — what a translation depends on.
* `metricName`, `labelName` — the translations.

## Main results

* `isWord_metricName`, `isWord_labelName` — a name that is escaped is one of the older format.
-/

namespace Telemetry.Metrics.PythonNames

open Lib
open PythonRender (closeBrace isLabelChar isLabelStart isNameChar isNameStart openBrace
  removeSuffix)
open Propagation (partition)
open Propagation.Python (isSpace)

/-! ## Strategies and kinds -/

/-- `TRANSLATION_STRATEGIES` -/
inductive Strategy
  | underscoreEscapingWithSuffixes
  | underscoreEscapingWithoutSuffixes
  | noUTF8EscapingWithSuffixes
  | noTranslation
  deriving DecidableEq, Repr

/-- `escapes` -/
def Strategy.escapes : Strategy → Bool
  | underscoreEscapingWithSuffixes | underscoreEscapingWithoutSuffixes => true
  | noUTF8EscapingWithSuffixes | noTranslation => false

/-- `adds_suffixes` -/
def Strategy.addsSuffixes : Strategy → Bool
  | underscoreEscapingWithSuffixes | noUTF8EscapingWithSuffixes => true
  | underscoreEscapingWithoutSuffixes | noTranslation => false

/-- The kinds that the translation tells apart. -/
inductive TranslationKind
  | monotonicCounter
  | nonMonotonicCounter
  | gauge
  | histogram
  deriving DecidableEq, Repr

/-! ## Units -/

/-- `_UNIT_MAP` -/
def unitMap : List (CodePoints × CodePoints) :=
  [("d", "days"), ("h", "hours"), ("min", "minutes"), ("s", "seconds"), ("ms", "milliseconds"),
    ("us", "microseconds"), ("ns", "nanoseconds"), ("By", "bytes"), ("KiBy", "kibibytes"),
    ("MiBy", "mebibytes"), ("GiBy", "gibibytes"), ("TiBy", "tibibytes"), ("KBy", "kilobytes"),
    ("MBy", "megabytes"), ("GBy", "gigabytes"), ("TBy", "terabytes"), ("m", "meters"),
    ("V", "volts"), ("A", "amperes"), ("J", "joules"), ("W", "watts"), ("g", "grams"),
    ("Cel", "celsius"), ("Hz", "hertz"), ("1", ""), ("%", "percent")].map
    fun e => (.ofString e.1, .ofString e.2)

/-- `_PER_UNIT_MAP` -/
def perUnitMap : List (CodePoints × CodePoints) :=
  [("s", "second"), ("m", "minute"), ("h", "hour"), ("d", "day"), ("w", "week"), ("mo", "month"),
    ("y", "year")].map fun e => (.ofString e.1, .ofString e.2)

def underscore : CodePoint := .scalar '_'

def slash : CodePoint := .scalar '/'

/-- `per_` -/
def perMark : CodePoints := .ofString "per_"

/-- `[a-zA-Z0-9]` -/
def isAlnum : CodePoint → Bool
  | .scalar c => ('a' ≤ c && c ≤ 'z') || ('A' ≤ c && c ≤ 'Z') || ('0' ≤ c && c ≤ '9')
  | .surrogate _ => false

/-- `[a-zA-Z0-9:]` -/
def isTokenChar (c : CodePoint) : Bool := isAlnum c || c = .scalar ':'

/-- `str.isdigit`, of a character of the older format. -/
def isDigit : CodePoint → Bool
  | .scalar c => '0' ≤ c && c ≤ '9'
  | .surrogate _ => false

/-- `_tokens`, by the characters that are no separators. -/
def tokens (isToken : CodePoint → Bool) (name : CodePoints) : List CodePoints :=
  (name.splitOnP fun c => !isToken c).filter fun t => t ≠ []

/-- Every run of other characters becomes one underscore. The flag says that a run has begun. -/
def replaceRuns (isValid : CodePoint → Bool) : Bool → CodePoints → CodePoints
  | _, [] => []
  | inRun, c :: s =>
      if isValid c then c :: replaceRuns isValid false s
      else if inRun then replaceRuns isValid true s
      else underscore :: replaceRuns isValid true s

/-- `str.removeprefix` -/
def removePrefix (mark s : CodePoints) : CodePoints :=
  if mark <+: s then s.drop mark.length else s

/-- `_clean_up_unit` -/
def cleanUpUnit (unit : CodePoints) : CodePoints :=
  removePrefix [underscore] (replaceRuns isTokenChar false unit)

/-- `_unit_suffix` -/
def unitSuffix (unit : CodePoints) : CodePoints :=
  let unit := strip isSpace unit
  if openBrace ∈ unit ∨ closeBrace ∈ unit then [] else unit

/-- `_unit_suffixes` -/
def unitSuffixes (unit : CodePoints) : CodePoints × CodePoints :=
  let parts := partition slash unit
  let main := unitSuffix parts.1
  let per := unitSuffix parts.2
  ((unitMap.lookup main).getD main,
    if per = [] then [] else perMark ++ (perUnitMap.lookup per).getD per)

/-- `_add_unit_tokens` -/
def addUnitTokens (tokens : List CodePoints) (main per : CodePoints) : List CodePoints :=
  let main := if main ∈ tokens then [] else main
  let per := if per = perMark then [] else removeSuffix [underscore] per
  let main := if per = [] then main else removeSuffix [underscore] main
  tokens ++ [main, per].filter fun t => t ≠ []

/-! ## Names -/

def total : CodePoints := .ofString "total"

def ratio : CodePoints := .ofString "ratio"

/-- The unit of what has none. -/
def one : CodePoints := .ofString "1"

/-- `_prefix_leading_digit` -/
def prefixLeadingDigit (name : CodePoints) : CodePoints :=
  if name.head?.any isDigit then underscore :: name else name

/-- The token at the end, and nowhere else. -/
def moveToEnd (token : CodePoints) (tokens : List CodePoints) : List CodePoints :=
  (tokens.filter fun t => t ≠ token) ++ [token]

/-- The tokens of `_normalize`. -/
def normalTokens (name unit : CodePoints) (kind : TranslationKind) : List CodePoints :=
  let suffixes := unitSuffixes unit
  let tokens :=
    addUnitTokens (tokens isTokenChar name) (cleanUpUnit suffixes.1) (cleanUpUnit suffixes.2)
  let tokens := if kind = .monotonicCounter then moveToEnd total tokens else tokens
  if unit = one ∧ kind = .gauge then moveToEnd ratio tokens else tokens

/-- `_normalize` -/
def normalize (name unit : CodePoints) (kind : TranslationKind) : CodePoints :=
  prefixLeadingDigit ([underscore].intercalate (normalTokens name unit kind))

/-- `_trim_suffix` -/
def trimSuffix (name suffix : CodePoints) : CodePoints :=
  if suffix <:+ name ∧ suffix.length + 1 < name.length then
    name.take (name.length - suffix.length - 1)
  else name

/-- `_utf8_with_suffixes` -/
def utf8WithSuffixes (name unit : CodePoints) (kind : TranslationKind) : CodePoints :=
  let isRatio : Bool := unit = one ∧ kind = .gauge
  let isTotal : Bool := kind = .monotonicCounter
  let outer := if isTotal then underscore :: total else if isRatio then underscore :: ratio else []
  let name := if isRatio then trimSuffix name ratio else name
  let name := if isTotal then trimSuffix name total else name
  let suffixes := unitSuffixes unit
  let perSuffix := if suffixes.2 = [] then [] else underscore :: suffixes.2
  let name := if suffixes.2 = [] then name else trimSuffix name suffixes.2
  let name :=
    if suffixes.1 = [] ∨ suffixes.1 <:+ name then name else name ++ underscore :: suffixes.1
  name ++ perSuffix ++ outer

/-- The name in the older format, before it is asked whether something is left of it. -/
def escapedName (name unit : CodePoints) (kind : TranslationKind) (strategy : Strategy) :
    CodePoints :=
  if strategy.addsSuffixes then normalize name unit kind
  else prefixLeadingDigit ([underscore].intercalate (tokens isNameChar name))

/-- `metric_name`. It raises, where the result is `none`. -/
def metricName (name unit : CodePoints) (kind : TranslationKind) (strategy : Strategy) :
    Option CodePoints :=
  if strategy.escapes then
    let result := escapedName name unit kind strategy
    if result = [] ∨ (result ≠ name ∧ strip (· = underscore) result = []) then none else some result
  else some (if strategy.addsSuffixes then utf8WithSuffixes name unit kind else name)

/-- The underscores at both ends of a reserved key. -/
def reservedMark : CodePoints := [underscore, underscore]

/-- `key_` -/
def keyMark : CodePoints := .ofString "key_"

/-- The key without other characters. The marks of a reserved key stay. -/
def sanitizedLabel (key : CodePoints) : CodePoints :=
  if reservedMark <+: key ∧ reservedMark <:+ key then
    reservedMark ++ replaceRuns isAlnum false ((key.drop 2).take (key.length - 4)) ++ reservedMark
  else replaceRuns isAlnum false key

/-- The key in the older format. -/
def escapedLabel (key : CodePoints) : CodePoints :=
  let sanitized := sanitizedLabel key
  if sanitized.head?.any isDigit then keyMark ++ sanitized else sanitized

/-- `label_name`. It raises, where the result is `none`. -/
def labelName (key : CodePoints) (strategy : Strategy) : Option CodePoints :=
  if strip (· = underscore) key = [] then none
  else if strategy.escapes then
    if strip (· = underscore) (escapedLabel key) = [] then none
    else some (escapedLabel key)
  else some key

/-! ## The older format -/

theorem isNameChar_of_isTokenChar {c : CodePoint} (h : isTokenChar c = true) :
    isNameChar c = true := by
  cases c with
  | surrogate offset => simp [isTokenChar, isAlnum] at h
  | scalar c =>
      simp only [isTokenChar, isAlnum, CodePoint.scalar.injEq, Bool.or_eq_true,
        decide_eq_true_eq] at h
      simp only [isNameChar, Bool.or_eq_true, decide_eq_true_eq]
      tauto

theorem isLabelChar_of_isAlnum {c : CodePoint} (h : isAlnum c = true) : isLabelChar c = true := by
  cases c with
  | surrogate offset => simp [isAlnum] at h
  | scalar c =>
      simp only [isAlnum, Bool.or_eq_true] at h
      simp only [isLabelChar, Bool.or_eq_true]
      tauto

/-- A character of a name that is no digit may start one. -/
theorem isNameStart_of_not_isDigit {c : CodePoint} (h : isNameChar c = true)
    (hdigit : isDigit c = false) : isNameStart c = true := by
  cases c with
  | surrogate offset => simp [isNameChar] at h
  | scalar c =>
      simp only [isNameChar, Bool.or_eq_true] at h
      simp only [isDigit] at hdigit
      simp only [isNameStart, Bool.or_eq_true]
      rw [hdigit] at h
      tauto

theorem isLabelStart_of_not_isDigit {c : CodePoint} (h : isLabelChar c = true)
    (hdigit : isDigit c = false) : isLabelStart c = true := by
  cases c with
  | surrogate offset => simp [isLabelChar] at h
  | scalar c =>
      simp only [isLabelChar, Bool.or_eq_true] at h
      simp only [isDigit] at hdigit
      simp only [isLabelStart, Bool.or_eq_true]
      rw [hdigit] at h
      tauto

theorem forall_mem_tokens (isToken : CodePoint → Bool) (name : CodePoints) :
    ∀ t ∈ tokens isToken name, ∀ c ∈ t, isToken c = true := by
  intro t ht c hc
  have h := eq_false_of_mem_splitOnP name t (List.mem_of_mem_filter ht) c hc
  simpa using h

/-- Nothing but valid characters and underscores is left. -/
theorem forall_mem_replaceRuns {isValid q : CodePoint → Bool}
    (hvalid : ∀ c, isValid c = true → q c = true) (hunder : q underscore = true) (inRun : Bool)
    (s : CodePoints) : ∀ c ∈ replaceRuns isValid inRun s, q c = true := by
  induction s generalizing inRun with
  | nil => simp [replaceRuns]
  | cons c s ih =>
      rw [replaceRuns]
      split_ifs with hc
      · exact List.forall_mem_cons.mpr ⟨hvalid c hc, ih false⟩
      · exact ih true
      · exact List.forall_mem_cons.mpr ⟨hunder, ih true⟩

theorem mem_of_mem_removePrefix {mark s : CodePoints} {c : CodePoint}
    (h : c ∈ removePrefix mark s) : c ∈ s := by
  rw [removePrefix] at h
  split at h
  · exact List.mem_of_mem_drop h
  · exact h

theorem forall_mem_cleanUpUnit (unit : CodePoints) :
    ∀ c ∈ cleanUpUnit unit, isNameChar c = true := by
  have hruns : ∀ c ∈ replaceRuns isTokenChar false unit, isNameChar c = true :=
    forall_mem_replaceRuns (fun _ => isNameChar_of_isTokenChar) (by decide) false unit
  exact fun c hc => hruns c (mem_of_mem_removePrefix hc)

/-- What is added to the tokens is made of the same characters. -/
theorem forall_mem_addUnitTokens {q : CodePoint → Prop} {tokens : List CodePoints}
    {main per : CodePoints} (htokens : ∀ t ∈ tokens, ∀ c ∈ t, q c) (hmain : ∀ c ∈ main, q c)
    (hper : ∀ c ∈ per, q c) : ∀ t ∈ addUnitTokens tokens main per, ∀ c ∈ t, q c := by
  have hcut : ∀ {s : CodePoints}, (∀ c ∈ s, q c) → ∀ c ∈ removeSuffix [underscore] s, q c :=
    fun hs c hc => hs c (PythonRender.mem_of_mem_removeSuffix hc)
  have hempty : ∀ c ∈ ([] : CodePoints), q c := by simp
  intro t ht
  rw [addUnitTokens, List.mem_append] at ht
  obtain ht | ht := ht
  · exact htokens t ht
  · obtain rfl | ht := List.mem_cons.mp (List.mem_of_mem_filter ht)
    · split_ifs
      all_goals first | exact hempty | exact hmain | exact hcut hempty | exact hcut hmain
    · obtain rfl := List.mem_singleton.mp ht
      split_ifs
      · exact hempty
      · exact hcut hper

theorem forall_mem_moveToEnd {q : CodePoint → Prop} {token : CodePoints} {tokens : List CodePoints}
    (htoken : ∀ c ∈ token, q c) (htokens : ∀ t ∈ tokens, ∀ c ∈ t, q c) :
    ∀ t ∈ moveToEnd token tokens, ∀ c ∈ t, q c := by
  intro t ht
  rw [moveToEnd, List.mem_append] at ht
  obtain ht | ht := ht
  · exact htokens t (List.mem_of_mem_filter ht)
  · rw [List.mem_singleton.mp ht]
    exact htoken

theorem forall_mem_normalTokens (name unit : CodePoints) (kind : TranslationKind) :
    ∀ t ∈ normalTokens name unit kind, ∀ c ∈ t, isNameChar c = true := by
  have htokens : ∀ t ∈ tokens isTokenChar name, ∀ c ∈ t, isNameChar c = true :=
    fun t ht c hc => isNameChar_of_isTokenChar (forall_mem_tokens _ _ t ht c hc)
  have hadded := forall_mem_addUnitTokens htokens (forall_mem_cleanUpUnit (unitSuffixes unit).1)
    (forall_mem_cleanUpUnit (unitSuffixes unit).2)
  have htotal : ∀ c ∈ total, isNameChar c = true := by decide
  have hratio : ∀ c ∈ ratio, isNameChar c = true := by decide
  rw [normalTokens]
  split_ifs
  · exact forall_mem_moveToEnd hratio (forall_mem_moveToEnd htotal hadded)
  · exact forall_mem_moveToEnd hratio hadded
  · exact forall_mem_moveToEnd htotal hadded
  · exact hadded

/-- A text of such characters is a word, with an underscore before a digit. -/
theorem isWord_prefixLeadingDigit {name : CodePoints} (hne : prefixLeadingDigit name ≠ [])
    (h : ∀ c ∈ name, isNameChar c = true) :
    IsWord isNameStart isNameChar (prefixLeadingDigit name) := by
  cases name with
  | nil => exact absurd rfl hne
  | cons c t =>
      rw [prefixLeadingDigit]
      split
      · exact ⟨underscore, c :: t, rfl, by decide, h⟩
      · next hc =>
          refine ⟨c, t, rfl, isNameStart_of_not_isDigit (h c List.mem_cons_self) ?_,
            fun d hd => h d (List.mem_cons_of_mem c hd)⟩
          simpa using hc

/-- **A name that is escaped is one of the older format.** -/
theorem isWord_metricName {name unit result : CodePoints} {kind : TranslationKind}
    {strategy : Strategy} (hescapes : strategy.escapes = true)
    (h : metricName name unit kind strategy = some result) :
    IsWord isNameStart isNameChar result := by
  have hunder : ∀ c ∈ [underscore], isNameChar c = true := by decide
  simp only [metricName, if_pos hescapes] at h
  split_ifs at h with hleft
  obtain rfl := Option.some.inj h
  have hne : escapedName name unit kind strategy ≠ [] := fun hnil => hleft (.inl hnil)
  rw [escapedName] at hne ⊢
  split_ifs at hne ⊢
  · exact isWord_prefixLeadingDigit hne
      ((CodePoints.forall_mem_intercalate hunder _).mpr (forall_mem_normalTokens name unit kind))
  · exact isWord_prefixLeadingDigit hne
      ((CodePoints.forall_mem_intercalate hunder _).mpr (forall_mem_tokens isNameChar name))

theorem forall_mem_sanitizedLabel (key : CodePoints) :
    ∀ c ∈ sanitizedLabel key, isLabelChar c = true := by
  have hruns : ∀ s, ∀ c ∈ replaceRuns isAlnum false s, isLabelChar c = true :=
    forall_mem_replaceRuns (fun _ => isLabelChar_of_isAlnum) (by decide) false
  have hreserved : ∀ c ∈ reservedMark, isLabelChar c = true := by decide
  rw [sanitizedLabel]
  split
  · rw [List.forall_mem_append, List.forall_mem_append]
    exact ⟨⟨hreserved, hruns _⟩, hreserved⟩
  · exact hruns key

theorem forall_mem_escapedLabel (key : CodePoints) :
    ∀ c ∈ escapedLabel key, isLabelChar c = true := by
  have hmark : ∀ c ∈ keyMark, isLabelChar c = true := by decide
  simp only [escapedLabel]
  split
  · exact List.forall_mem_append.mpr ⟨hmark, forall_mem_sanitizedLabel key⟩
  · exact forall_mem_sanitizedLabel key

/-- A digit does not come first. -/
theorem any_isDigit_head_escapedLabel (key : CodePoints) :
    (escapedLabel key).head?.any isDigit = false := by
  simp only [escapedLabel]
  split
  · rfl
  · next h => exact eq_false_of_ne_true h

/-- **A label that is escaped is one of the older format.** -/
theorem isWord_labelName {key result : CodePoints} {strategy : Strategy}
    (hescapes : strategy.escapes = true) (h : labelName key strategy = some result) :
    IsWord isLabelStart isLabelChar result := by
  rw [labelName, if_pos hescapes] at h
  split_ifs at h with hkey hleft
  have hchars := forall_mem_escapedLabel key
  have hdigit := any_isDigit_head_escapedLabel key
  rw [Option.some.inj h] at hchars hdigit hleft
  cases result with
  | nil => exact absurd rfl hleft
  | cons c t =>
      rw [List.forall_mem_cons] at hchars
      exact ⟨c, t, rfl, isLabelStart_of_not_isDigit hchars.1 hdigit, hchars.2⟩

end Telemetry.Metrics.PythonNames
