import Telemetry.Propagation.BaggagePorts

/-!
# The names of metrics and labels in the Rust SDK

`prometheus/names.rs` translates the name of an instrument and the key of an attribute, as
`_prom_names.py` does, with scanners of its own in the place of regular expressions.

## Main definitions

* `Strategy`, `Kind` — what a translation depends on.
* `metricName`, `labelName` — the translations, `none` where the name is rejected.

## Main results

-/

namespace Telemetry.Metrics.RustNames

open Lib
open Propagation (partition)
open Propagation.Rust (trim)

/-- `Kind` -/
inductive Kind
  | monotonicCounter
  | nonMonotonicCounter
  | gauge
  | histogram
  deriving DecidableEq, Repr

/-- `Strategy` -/
structure Strategy where
  escapes : Bool
  suffixes : Bool
  deriving DecidableEq, Repr

/-- `Strategy::named` -/
def Strategy.named (name : String) : Strategy where
  escapes := "UnderscoreEscaping".toList.isPrefixOf name.toList
  suffixes := "WithSuffixes".toList.isSuffixOf name.toList

/-! ## Texts -/

/-- `str::strip_prefix` -/
def stripPrefix (mark s : List Char) : Option (List Char) :=
  if mark <+: s then some (s.drop mark.length) else none

/-- `str::strip_suffix` -/
def stripSuffix (mark s : List Char) : Option (List Char) :=
  if mark <:+ s then some (s.take (s.length - mark.length)) else none

/-- `char::is_ascii_digit` -/
def isAsciiDigit (c : Char) : Bool := '0' ≤ c && c ≤ '9'

/-- `char::is_ascii_alphanumeric` -/
def isAsciiAlphanumeric (c : Char) : Bool :=
  ('0' ≤ c && c ≤ '9') || ('A' ≤ c && c ≤ 'Z') || ('a' ≤ c && c ≤ 'z')

/-! ## Units -/

/-- The arms of `unit_word`. -/
def unitWords : List (List Char × List Char) :=
  [("d", "days"), ("h", "hours"), ("min", "minutes"), ("s", "seconds"), ("ms", "milliseconds"),
    ("us", "microseconds"), ("ns", "nanoseconds"), ("By", "bytes"), ("KiBy", "kibibytes"),
    ("MiBy", "mebibytes"), ("GiBy", "gibibytes"), ("TiBy", "tibibytes"), ("KBy", "kilobytes"),
    ("MBy", "megabytes"), ("GBy", "gigabytes"), ("TBy", "terabytes"), ("m", "meters"),
    ("V", "volts"), ("A", "amperes"), ("J", "joules"), ("W", "watts"), ("g", "grams"),
    ("Cel", "celsius"), ("Hz", "hertz"), ("1", ""), ("%", "percent")].map
    fun e => (e.1.toList, e.2.toList)

/-- `unit_word` -/
def unitWord (unit : List Char) : List Char := (unitWords.lookup unit).getD unit

/-- The arms of `per_unit_word`. -/
def perUnitWords : List (List Char × List Char) :=
  [("s", "second"), ("m", "minute"), ("h", "hour"), ("d", "day"), ("w", "week"), ("mo", "month"),
    ("y", "year")].map fun e => (e.1.toList, e.2.toList)

/-- `per_unit_word` -/
def perUnitWord (unit : List Char) : List Char := (perUnitWords.lookup unit).getD unit

/-- `is_legacy_name_char` -/
def isLegacyNameChar (c : Char) : Bool := isAsciiAlphanumeric c || c = ':'

/-- `tokens` -/
def tokens (name : List Char) (keep : Char → Bool) : List (List Char) :=
  (name.splitOnP fun c => !keep c).filter fun token => token ≠ []

/-- The body of the loop in `collapse_invalid`, on `out` and `in_run`. -/
def collapseStep (keep : Char → Bool) (state : List Char × Bool) (c : Char) : List Char × Bool :=
  if keep c then (state.1 ++ [c], false)
  else if !state.2 then (state.1 ++ ['_'], true)
  else state

/-- `collapse_invalid` -/
def collapseInvalid (text : List Char) (keep : Char → Bool) : List Char :=
  (text.foldl (collapseStep keep) ([], false)).1

/-- `clean_up_unit` -/
def cleanUpUnit (unit : List Char) : List Char :=
  let collapsed := collapseInvalid unit isLegacyNameChar
  (stripPrefix ['_'] collapsed).getD collapsed

/-- `unit_suffix` -/
def unitSuffix (unit : List Char) : List Char :=
  let unit := trim unit
  if '{' ∈ unit ∨ '}' ∈ unit then [] else unit

/-- `per_` -/
def perMark : List Char := "per_".toList

/-- `unit_suffixes`. Without a slash there is nothing behind it. -/
def unitSuffixes (unit : List Char) : List Char × List Char :=
  let parts := partition '/' unit
  let main := unitWord (unitSuffix parts.1)
  let per := unitSuffix parts.2
  if per = [] then (main, []) else (main, perMark ++ perUnitWord per)

/-- `add_unit_tokens` -/
def addUnitTokens (tokens : List (List Char)) (main per : List Char) : List (List Char) :=
  let main := if main ∈ tokens then [] else main
  let per := if per = perMark then [] else (stripSuffix ['_'] per).getD per
  let main := if per ≠ [] then (stripSuffix ['_'] main).getD main else main
  tokens ++ [main, per].filter fun token => token ≠ []

/-! ## Names -/

def total : List Char := "total".toList

def ratio : List Char := "ratio".toList

/-- `prefix_leading_digit` -/
def prefixLeadingDigit (name : List Char) : List Char :=
  if name.head?.any isAsciiDigit then '_' :: name else name

/-- `last_token` -/
def lastToken (tokens : List (List Char)) (word : List Char) : List (List Char) :=
  (tokens.filter fun t => t ≠ word) ++ [word]

/-- The parts of `normalize`. -/
def normalParts (name unit : List Char) (kind : Kind) : List (List Char) :=
  let suffixes := unitSuffixes unit
  let parts := addUnitTokens (tokens name isLegacyNameChar) (cleanUpUnit suffixes.1)
    (cleanUpUnit suffixes.2)
  let parts := if kind = .monotonicCounter then lastToken parts total else parts
  if unit = ['1'] ∧ kind = .gauge then lastToken parts ratio else parts

/-- `normalize` -/
def normalize (name unit : List Char) (kind : Kind) : List Char :=
  prefixLeadingDigit (['_'].intercalate (normalParts name unit kind))

/-- `trim_suffix` -/
def trimSuffix (name suffix : List Char) : List Char :=
  match stripSuffix suffix name with
  | some rest => if rest.length > 1 then rest.dropLast else name
  | none => name

/-- The name with the suffixes of `utf8_with_suffixes`, given those of the unit. -/
def withSuffixes (name : List Char) (isRatio isTotal : Bool) (main per : List Char) :
    List Char :=
  let outer := if isTotal then '_' :: total else if isRatio then '_' :: ratio else []
  let name := if isRatio then trimSuffix name ratio else name
  let name := if isTotal then trimSuffix name total else name
  let perSuffix := if per = [] then [] else '_' :: per
  let name := if per = [] then name else trimSuffix name per
  let name := if main ≠ [] ∧ ¬ main <:+ name then name ++ '_' :: main else name
  name ++ perSuffix ++ outer

/-- `utf8_with_suffixes` -/
def utf8WithSuffixes (name unit : List Char) (kind : Kind) : List Char :=
  let suffixes := unitSuffixes unit
  withSuffixes name (unit = ['1'] ∧ kind = .gauge) (kind = .monotonicCounter) suffixes.1 suffixes.2

/-- `metric_name` -/
def metricName (name unit : List Char) (kind : Kind) (strategy : Strategy) : Option (List Char) :=
  if !strategy.escapes then
    if strategy.suffixes then some (utf8WithSuffixes name unit kind) else some name
  else
    let result :=
      if strategy.suffixes then normalize name unit kind
      else prefixLeadingDigit
        (['_'].intercalate (tokens name fun c => isLegacyNameChar c || c = '_'))
    if result = [] ∨ (result ≠ name ∧ strip (· = '_') result = []) then none else some result

/-- The underscores at both ends of a reserved key. -/
def reservedMark : List Char := ['_', '_']

/-- The key that `label_name` looks at last. The slice of a reserved key is counted in bytes, and
what it cuts off are four of them. -/
def sanitized (key : List Char) : List Char :=
  let reserved : Bool := reservedMark <+: key ∧ reservedMark <:+ key
  let body := if reserved then (key.drop 2).take (key.length - 4) else key
  let sanitized := collapseInvalid body isAsciiAlphanumeric
  let sanitized := if reserved then reservedMark ++ sanitized ++ reservedMark else sanitized
  if sanitized.head?.any isAsciiDigit then "key_".toList ++ sanitized else sanitized

/-- `label_name` -/
def labelName (key : List Char) (strategy : Strategy) : Option (List Char) :=
  if strip (· = '_') key = [] then none
  else if !strategy.escapes then some key
  else if strip (· = '_') (sanitized key) = [] then none
  else some (sanitized key)

end Telemetry.Metrics.RustNames
