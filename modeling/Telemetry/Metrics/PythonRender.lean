import Telemetry.Lib.CodePoints
import Telemetry.Lib.Delimited
import Telemetry.Lib.Dict
import Telemetry.Lib.Words
import Telemetry.Receipts.Numbers

/-!
# The text that a Prometheus scrape gets from the Python SDK

`render` of `_prom_render.py` writes metric families line by line: their help, their type and their
samples. Names and labels that the older format knows are written bare, and others in quotes, with
escapes. Which of the two it is a pattern says that ends in `$`, so that a name with a line feed
behind it passes for an old one, and is written bare as it is.

## Main definitions

* `Family`, `Sample`, `formatValue`, `sampleLine`, `render` — the source's functions.
* `read` — a reader of the format.
* `Family.Framed` — no name or label of the family is an old one with a line feed.

## Main results

* `readLine_line` — every line of a framed family is read back.
* `read_render_iff` — **the text is read back as the families** iff they are framed.
-/

namespace Telemetry.Metrics.PythonRender

open Lib Regex
open Receipts.Python (Digit PyFloat ReprParts Shortest digitChar minus signed twoDigits)

/-! ## The characters of the format -/

def lineFeed : CodePoint := .scalar '\n'

def backslash : CodePoint := .scalar '\\'

def quote : CodePoint := .scalar '"'

def letterN : CodePoint := .scalar 'n'

def space : CodePoint := .scalar ' '

def comma : CodePoint := .scalar ','

def equals : CodePoint := .scalar '='

def openBrace : CodePoint := .scalar '{'

def closeBrace : CodePoint := .scalar '}'

/-- `[a-zA-Z_:]` -/
def isNameStart : CodePoint → Bool
  | .scalar c => ('a' ≤ c && c ≤ 'z') || ('A' ≤ c && c ≤ 'Z') || c = '_' || c = ':'
  | .surrogate _ => false

/-- `[a-zA-Z0-9_:]` -/
def isNameChar : CodePoint → Bool
  | .scalar c =>
      ('a' ≤ c && c ≤ 'z') || ('A' ≤ c && c ≤ 'Z') || ('0' ≤ c && c ≤ '9') || c = '_' || c = ':'
  | .surrogate _ => false

/-- `[a-zA-Z_]` -/
def isLabelStart : CodePoint → Bool
  | .scalar c => ('a' ≤ c && c ≤ 'z') || ('A' ≤ c && c ≤ 'Z') || c = '_'
  | .surrogate _ => false

/-- `[a-zA-Z0-9_]` -/
def isLabelChar : CodePoint → Bool
  | .scalar c => ('a' ≤ c && c ≤ 'z') || ('A' ≤ c && c ≤ 'Z') || ('0' ≤ c && c ≤ '9') || c = '_'
  | .surrogate _ => false

/-! ## Rendering -/

/-- `_LEGACY_NAME.match` -/
def isLegacyName (name : CodePoints) : Bool :=
  accepts (atEnd lineFeed) (wordRe isNameStart isNameChar) name

/-- `_LEGACY_LABEL.match` -/
def isLegacyLabel (key : CodePoints) : Bool :=
  accepts (atEnd lineFeed) (wordRe isLabelStart isLabelChar) key

/-- The type of a family. -/
inductive Kind
  | counter
  | gauge
  | histogram
  deriving DecidableEq, Repr

def Kind.text : Kind → CodePoints
  | .counter => .ofString "counter"
  | .gauge => .ofString "gauge"
  | .histogram => .ofString "histogram"

/-- A sample of a family. -/
structure Sample where
  suffix : CodePoints
  labels : Dict CodePoints CodePoints
  value : PyFloat

/-- `Family` -/
structure Family where
  name : CodePoints
  kind : Kind
  help : CodePoints := []
  samples : List Sample := []

/-- `str.removesuffix` -/
def removeSuffix {γ : Type} [DecidableEq γ] (suffix s : List γ) : List γ :=
  if suffix <:+ s then s.take (s.length - suffix.length) else s

/-- `format_value` -/
def formatValue : PyFloat → CodePoints
  | .nan => .ofString "NaN"
  | .inf negative => .ofString (if negative then "-Inf" else "+Inf")
  | value => .ofChars (removeSuffix ['.', '0'] value.repr)

/-- `str.replace` of one character. -/
def replace (c : CodePoint) (new s : CodePoints) : CodePoints :=
  s.flatMap fun d => if d = c then new else [d]

/-- `_escape_help` -/
def escapeHelp (text : CodePoints) : CodePoints :=
  replace lineFeed [backslash, letterN] (replace backslash [backslash, backslash] text)

/-- `_escape_quoted` -/
def escapeQuoted (text : CodePoints) : CodePoints :=
  replace quote [backslash, quote] (escapeHelp text)

/-- A text in quotes. -/
def quoted (text : CodePoints) : CodePoints := quote :: (escapeQuoted text ++ [quote])

/-- A label of `_label_pairs`. -/
def labelPair (label : CodePoints × CodePoints) : CodePoints :=
  (if isLegacyLabel label.1 then label.1 else quoted label.1) ++ equals :: quoted label.2

/-- `_label_pairs` -/
def labelPairs (labels : Dict CodePoints CodePoints) : List CodePoints :=
  labels.entries.map labelPair

/-- `_sample_line` -/
def sampleLine (name : CodePoints) (labels : Dict CodePoints CodePoints) (value : PyFloat) :
    CodePoints :=
  let pairs := labelPairs labels
  if isLegacyName name then
    if pairs = [] then name ++ space :: formatValue value
    else
      name ++ openBrace ::
        ([comma].intercalate pairs ++ closeBrace :: space :: formatValue value)
  else
    openBrace :: (quoted name ++ pairs.flatMap (comma :: ·) ++
      closeBrace :: space :: formatValue value)

/-- `# HELP ` -/
def helpMark : CodePoints := .ofString "# HELP "

/-- `# TYPE ` -/
def typeMark : CodePoints := .ofString "# TYPE "

/-- The name in the lines before the samples. -/
def header (name : CodePoints) : CodePoints := if isLegacyName name then name else quoted name

def helpLine (f : Family) : CodePoints := helpMark ++ (header f.name ++ space :: escapeHelp f.help)

def typeLine (f : Family) : CodePoints := typeMark ++ (header f.name ++ space :: f.kind.text)

/-- The lines of one family. -/
def familyLines (f : Family) : List CodePoints :=
  (if f.help = [] then [] else [helpLine f]) ++
    typeLine f :: f.samples.map fun s => sampleLine (f.name ++ s.suffix) s.labels s.value

/-- `render` -/
def render (families : List Family) : CodePoints :=
  let lines := families.flatMap familyLines
  if lines = [] then [] else [lineFeed].intercalate lines ++ [lineFeed]

/-! ## Reading -/

/-- The escapes of a help text. -/
def helpEscapes : Escapes CodePoint where
  sign := backslash
  code c := if c = backslash then some backslash else if c = lineFeed then some letterN else none
  decode d := if d = backslash then some backslash else if d = letterN then some lineFeed else none
  decode_code := by
    intro c d h
    split_ifs at h with hc hc'
    · obtain rfl := Option.some.inj h
      rw [hc]
      rfl
    · obtain rfl := Option.some.inj h
      rw [hc']
      rfl
  code_sign := by simp

/-- The escapes of a text in quotes. -/
def quotedEscapes : Escapes CodePoint where
  sign := backslash
  code c := if c = quote then some quote else helpEscapes.code c
  decode d := if d = quote then some quote else helpEscapes.decode d
  decode_code := by
    intro c d h
    split_ifs at h with hc
    · obtain rfl := Option.some.inj h
      rw [hc]
      rfl
    · have hne : d ≠ quote := by
        rintro rfl
        have hdecode := helpEscapes.decode_code c quote h
        cases hdecode
      rw [if_neg hne]
      exact helpEscapes.decode_code c d h
  code_sign := by decide

/-- A text in quotes. -/
def readQuoted : Reader CodePoint CodePoints := fun s => do
  let ((), s) ← readText [quote] s
  readEscaped quotedEscapes (some quote) s

/-- A bare word, or a text in quotes. -/
def readName (first others : CodePoint → Bool) : Reader CodePoint CodePoints := fun s =>
  if s.head? = some quote then readQuoted s else readWord first others s

/-- A label. -/
def readPair : Reader CodePoint (CodePoints × CodePoints) := fun s => do
  let (key, s) ← readName isLabelStart isLabelChar s
  let ((), s) ← readText [equals] s
  let (value, s) ← readQuoted s
  some ((key, value), s)

/-- Labels, and the closing brace. -/
def readPairs : Reader CodePoint (List (CodePoints × CodePoints)) := fun s =>
  readMany readPair comma closeBrace s.length s

/-- Labels in braces, or none. -/
def readLabels : Reader CodePoint (List (CodePoints × CodePoints))
  | [] => some ([], [])
  | c :: s =>
      if c = openBrace then
        if s.head? = some closeBrace then some ([], s.tail) else readPairs s
      else some ([], c :: s)

/-- The name and the labels of a sample: a bare name with or without braces, or braces in which a
name in quotes comes first. -/
def readSeries : Reader CodePoint (CodePoints × List (CodePoints × CodePoints)) := fun s =>
  if s.head? = some openBrace then do
    let (name, s) ← readQuoted s.tail
    match s with
    | [] => none
    | c :: s =>
        if c = comma then (readPairs s).map fun r => ((name, r.1), r.2)
        else if c = closeBrace then some ((name, []), s)
        else none
  else do
    let (name, s) ← readWord isNameStart isNameChar s
    (readLabels s).map fun r => ((name, r.1), r.2)

/-- What a line says; the value of a sample is a text. -/
inductive Line
  | help (name text : CodePoints)
  | type (name : CodePoints) (kind : Kind)
  | sample (name : CodePoints) (labels : List (CodePoints × CodePoints)) (value : CodePoints)
  deriving DecidableEq

def readHelp (s : CodePoints) : Option Line := do
  let ((), s) ← readText helpMark s
  let (name, s) ← readName isNameStart isNameChar s
  let ((), s) ← readText [space] s
  let (text, _) ← readEscaped helpEscapes none s
  some (.help name text)

def readType (s : CodePoints) : Option Line := do
  let ((), s) ← readText typeMark s
  let (name, s) ← readName isNameStart isNameChar s
  let ((), s) ← readText [space] s
  let kind ← [Kind.counter, .gauge, .histogram].find? fun kind => kind.text = s
  some (.type name kind)

/-- A sample; the value is a text without spaces. -/
def readSample (s : CodePoints) : Option Line := do
  let ((name, labels), s) ← readSeries s
  let ((), s) ← readText [space] s
  if s = [] ∨ space ∈ s then none else some (.sample name labels s)

def readLine (s : CodePoints) : Option Line := readHelp s <|> readType s <|> readSample s

/-- A family as it is read. -/
structure ReadFamily where
  name : CodePoints
  kind : Kind
  help : CodePoints := []
  /-- The suffix, the labels and the value of each sample. -/
  samples : List (CodePoints × List (CodePoints × CodePoints) × CodePoints) := []
  deriving DecidableEq

/-- What was read so far: the families, the last one first, and a help whose type is to come. -/
structure ReadState where
  families : List ReadFamily := []
  pending : Option (CodePoints × CodePoints) := none

/-- One more line. A type starts a family, and every sample belongs to the last one. -/
def addLine (st : ReadState) (line : Line) : Option ReadState :=
  match line, st.pending, st.families with
  | .help name text, none, fs => some ⟨fs, some (name, text)⟩
  | .type name kind, none, fs => some ⟨⟨name, kind, [], []⟩ :: fs, none⟩
  | .type name kind, some (helped, text), fs =>
      if helped = name then some ⟨⟨name, kind, text, []⟩ :: fs, none⟩ else none
  | .sample name labels value, none, f :: fs =>
      if f.name <+: name then
        let sample := (name.drop f.name.length, labels, value)
        some ⟨{ f with samples := f.samples ++ [sample] } :: fs, none⟩
      else none
  | _, _, _ => none

/-- The families that a text is about. -/
def read (text : CodePoints) : Option (List ReadFamily) := do
  let ls ← lines? lineFeed text
  let items ← ls.mapM readLine
  let st ← items.foldlM addLine {}
  if st.pending = none then some st.families.reverse else none

/-! ## Escapes -/

variable {s t rest : CodePoints} {c : CodePoint}

/-- The replacements, one after another, are escapes of single characters. -/
theorem escapeHelp_eq (text : CodePoints) : escapeHelp text = escape helpEscapes text := by
  rw [escapeHelp, replace, replace, List.flatMap_assoc, escape]
  refine List.flatMap_congr fun c _ => ?_
  by_cases hb : c = backslash
  · rw [hb]
    rfl
  · by_cases hl : c = lineFeed
    · rw [hl]
      rfl
    · simp [helpEscapes, hb, hl]

theorem escapeQuoted_eq (text : CodePoints) : escapeQuoted text = escape quotedEscapes text := by
  rw [escapeQuoted, escapeHelp_eq, replace, escape, List.flatMap_assoc, escape]
  refine List.flatMap_congr fun c _ => ?_
  by_cases hq : c = quote
  · rw [hq]
    rfl
  · by_cases hb : c = backslash
    · rw [hb]
      rfl
    · by_cases hl : c = lineFeed
      · rw [hl]
        rfl
      · simp [quotedEscapes, helpEscapes, hb, hl, hq]

theorem code_lineFeed_ne (b : CodePoint) : helpEscapes.code b ≠ some lineFeed := by
  simp only [helpEscapes]
  split_ifs <;> decide

theorem notMem_escapeHelp (text : CodePoints) : lineFeed ∉ escapeHelp text := by
  rw [escapeHelp_eq]
  exact notMem_escape (by decide) (by decide) code_lineFeed_ne text

theorem notMem_quoted (text : CodePoints) : lineFeed ∉ quoted text := by
  have hcode (b : CodePoint) : quotedEscapes.code b ≠ some lineFeed := by
    simp only [quotedEscapes]
    split_ifs
    · decide
    · exact code_lineFeed_ne b
  have hescaped := notMem_escape (e := quotedEscapes) (by decide) (by decide) hcode text
  rw [quoted, escapeQuoted_eq]
  simp only [List.mem_cons, List.mem_append, List.not_mem_nil, or_false, not_or]
  exact ⟨by decide, hescaped, by decide⟩

/-- **A text in quotes is read back.** -/
theorem reads_quoted (text : CodePoints) : Reads readQuoted (quoted text) text := by
  intro rest
  have hescaped := readEscaped_escape (e := quotedEscapes) (c := quote) (by decide) (by decide)
    text rest
  rw [quoted, escapeQuoted_eq, readQuoted]
  have hquote := readText_append [quote] ((escape quotedEscapes text ++ [quote]) ++ rest)
  rw [List.singleton_append] at hquote
  rw [List.cons_append, hquote]
  exact hescaped

/-! ## Names -/

theorem isLegacyName_iff : isLegacyName s = true ↔
    IsWord isNameStart isNameChar s ∨ IsFedWord lineFeed isNameStart isNameChar s :=
  accepts_wordRe_iff

theorem isLegacyLabel_iff : isLegacyLabel s = true ↔
    IsWord isLabelStart isLabelChar s ∨ IsFedWord lineFeed isLabelStart isLabelChar s :=
  accepts_wordRe_iff

/-- An old name with a line feed behind it. -/
abbrev IsFedName (name : CodePoints) : Prop := IsFedWord lineFeed isNameStart isNameChar name

/-- An old label with a line feed behind it. -/
abbrev IsFedLabel (key : CodePoints) : Prop := IsFedWord lineFeed isLabelStart isLabelChar key

/-- A word is read as a name. -/
theorem readName_word {first others : CodePoint → Bool} (rest : CodePoints)
    (hquote : first quote = false) (h : IsWord first others s)
    (hrest : ∀ c, rest.head? = some c → others c = false) :
    readName first others (s ++ rest) = some (s, rest) := by
  rw [readName, if_neg (h.head?_ne hquote rest)]
  exact readWord_append rest h hrest

/-- A text in quotes is read as a name. -/
theorem readName_quoted (first others : CodePoint → Bool) (s rest : CodePoints) :
    readName first others (quoted s ++ rest) = some (s, rest) := by
  have hhead : (quoted s ++ rest).head? = some quote := rfl
  rw [readName, if_pos hhead]
  exact reads_quoted s rest

/-- **The name of a header is read back**, if it is not an old one with a line feed. -/
theorem readName_header (rest : CodePoints) (h : ¬ IsFedName s)
    (hrest : ∀ c, rest.head? = some c → isNameChar c = false) :
    readName isNameStart isNameChar (header s ++ rest) = some (s, rest) := by
  rw [header]
  split
  · next hlegacy =>
      exact readName_word rest rfl ((isLegacyName_iff.mp hlegacy).resolve_right h) hrest
  · exact readName_quoted _ _ s rest

theorem notMem_header (h : ¬ IsFedName s) : lineFeed ∉ header s := by
  rw [header]
  split
  · next hlegacy => exact ((isLegacyName_iff.mp hlegacy).resolve_right h).notMem rfl rfl
  · exact notMem_quoted s

/-! ## Labels -/

/-- The name of a label. -/
theorem readName_label {key : CodePoints} (h : ¬ IsFedLabel key) (rest : CodePoints) :
    readName isLabelStart isLabelChar
      ((if isLegacyLabel key then key else quoted key) ++ equals :: rest) =
        some (key, equals :: rest) := by
  split
  · next hlegacy =>
      refine readName_word _ rfl ((isLegacyLabel_iff.mp hlegacy).resolve_right h) ?_
      intro c hc
      obtain rfl := Option.some.inj hc
      rfl
  · exact readName_quoted _ _ key _

/-- **A label is read back.** -/
theorem reads_labelPair {label : CodePoints × CodePoints} (h : ¬ IsFedLabel label.1) :
    Reads readPair (labelPair label) label := by
  intro rest
  have hname := readName_label h (quoted label.2 ++ rest)
  have hequals := readText_append [equals] (quoted label.2 ++ rest)
  have hvalue := reads_quoted label.2 rest
  rw [List.singleton_append] at hequals
  rw [labelPair, List.append_assoc, List.cons_append, readPair, hname]
  simp only [Option.bind_eq_bind, Option.bind_some, hequals, hvalue]

theorem notMem_labelPair {label : CodePoints × CodePoints} (h : ¬ IsFedLabel label.1) :
    lineFeed ∉ labelPair label := by
  rw [labelPair]
  simp only [List.mem_append, List.mem_cons, not_or]
  refine ⟨?_, by decide, notMem_quoted _⟩
  split
  · next hlegacy => exact ((isLegacyLabel_iff.mp hlegacy).resolve_right h).notMem rfl rfl
  · exact notMem_quoted _

/-- A label does not start with the brace that ends the labels. -/
theorem head?_labelPair_ne {label : CodePoints × CodePoints} (h : ¬ IsFedLabel label.1)
    (rest : CodePoints) : (labelPair label ++ rest).head? ≠ some closeBrace := by
  rw [labelPair, List.append_assoc]
  split
  · next hlegacy => exact ((isLegacyLabel_iff.mp hlegacy).resolve_right h).head?_ne rfl _
  · intro hhead
    cases Option.some.inj hhead

/-- **Labels are read back**, with the brace behind them. -/
theorem readPairs_joined {x : CodePoints × CodePoints} {xs : List (CodePoints × CodePoints)}
    (h : ∀ y ∈ x :: xs, ¬ IsFedLabel y.1) (rest : CodePoints) :
    readPairs ([comma].intercalate ((x :: xs).map labelPair) ++ closeBrace :: rest) =
      some (x :: xs, rest) := by
  have hreads : ∀ y ∈ x :: xs, Reads readPair (labelPair y) y := fun y hy =>
    reads_labelPair (h y hy)
  rw [intercalate_map_cons, List.append_assoc, readPairs]
  refine readMany_joined (by decide) hreads ?_ rest
  have hlength := length_le_flatMap_cons comma labelPair xs
  rw [List.length_append, List.length_append, List.length_cons]
  omega

/-! ## Samples -/

/-- What a sample's line has before its value. -/
def series (name : CodePoints) (labels : List (CodePoints × CodePoints)) : CodePoints :=
  if isLegacyName name then
    if labels = [] then name
    else name ++ openBrace :: ([comma].intercalate (labels.map labelPair) ++ [closeBrace])
  else openBrace :: (quoted name ++ (labels.flatMap fun e => comma :: labelPair e) ++ [closeBrace])

theorem sampleLine_eq (name : CodePoints) (labels : Dict CodePoints CodePoints) (value : PyFloat) :
    sampleLine name labels value = series name labels.entries ++ space :: formatValue value := by
  simp only [sampleLine, series, labelPairs, List.map_eq_nil_iff, List.flatMap_map]
  split_ifs <;> simp

/-- **The name and the labels of a sample are read back.** -/
theorem readSeries_series {name : CodePoints} {labels : List (CodePoints × CodePoints)}
    (hname : ¬ IsFedName name) (hlabels : ∀ e ∈ labels, ¬ IsFedLabel e.1) (rest : CodePoints) :
    readSeries (series name labels ++ space :: rest) = some ((name, labels), space :: rest) := by
  rw [series]
  split_ifs with hlegacy hempty
  · have hword := (isLegacyName_iff.mp hlegacy).resolve_right hname
    have hread := readWord_append (space :: rest) hword (by simp [isNameChar, space])
    rw [hempty, readSeries, if_neg (hword.head?_ne rfl _), hread]
    rfl
  · have hword := (isLegacyName_iff.mp hlegacy).resolve_right hname
    obtain ⟨x, xs, rfl⟩ := List.exists_cons_of_ne_nil hempty
    have hlist := readPairs_joined hlabels (space :: rest)
    have hread := readWord_append (openBrace ::
      ([comma].intercalate ((x :: xs).map labelPair) ++ closeBrace :: space :: rest)) hword
      (by simp [isNameChar, openBrace])
    have hhead : ([comma].intercalate ((x :: xs).map labelPair) ++
        closeBrace :: space :: rest).head? ≠ some closeBrace := by
      rw [intercalate_map_cons, List.append_assoc]
      exact head?_labelPair_ne (hlabels x List.mem_cons_self) _
    rw [List.append_assoc, List.cons_append, List.append_assoc, List.singleton_append, readSeries,
      if_neg (hword.head?_ne rfl _), hread]
    simp only [Option.bind_eq_bind, Option.bind_some, readLabels]
    rw [if_pos trivial, if_neg hhead, hlist]
    rfl
  · have hquoted (rest : CodePoints) := reads_quoted name rest
    rw [List.cons_append, List.append_assoc, List.append_assoc, List.singleton_append, readSeries,
      List.head?_cons, if_pos rfl, List.tail_cons, hquoted]
    cases labels with
    | nil => rfl
    | cons x xs =>
        have hlist := readPairs_joined hlabels (space :: rest)
        rw [flatMap_cons_eq comma labelPair (List.cons_ne_nil x xs)]
        simp only [Option.bind_eq_bind, Option.bind_some, List.cons_append]
        rw [if_pos trivial, hlist]
        rfl

/-! ## Values -/

/-- A character that may be in a value. -/
def IsValueChar (c : Char) : Prop := c ≠ ' ' ∧ c ≠ '\n'

theorem isValueChar_of_isDigit {c : Char} (h : c.isDigit = true) : IsValueChar c := by
  constructor <;> rintro rfl <;> cases h

/-- What a test of a given text says of its characters. -/
theorem isValueChar_of_all {s : List Char} (hs : s.all (fun c => c ≠ ' ' ∧ c ≠ '\n') = true)
    {c : Char} (h : c ∈ s) : IsValueChar c := by
  have hc : c ≠ ' ' ∧ c ≠ '\n' := of_decide_eq_true (List.all_eq_true.mp hs c h)
  exact hc

theorem isValueChar_of_mem_digits {digits : List Digit} :
    ∀ c ∈ digits.map digitChar, IsValueChar c := by
  rw [List.forall_mem_map]
  intro d _
  have hall : ∀ d : Fin 10, (digitChar d).isDigit = true := by decide
  exact isValueChar_of_isDigit (hall d)

theorem isValueChar_of_mem_twoDigits {n : ℕ} {c : Char}
    (h : c ∈ twoDigits n) : IsValueChar c := by
  have hdigits : ∀ c ∈ Nat.toDigits 10 n, IsValueChar c := fun c hc =>
    isValueChar_of_isDigit (Nat.isDigit_of_mem_toDigits (by decide) (by decide) hc)
  rw [twoDigits] at h
  split at h
  · obtain rfl | h := List.mem_cons.mp h
    · exact ⟨by decide, by decide⟩
    · exact hdigits c h
  · exact hdigits c h

theorem isValueChar_of_mem_text {parts : ReprParts} {c : Char}
    (h : c ∈ parts.text) : IsValueChar c := by
  rw [ReprParts.text, List.mem_append, List.mem_append] at h
  obtain (h | h) | h := h
  · exact isValueChar_of_mem_digits c h
  · split at h
    · cases h
    · obtain rfl | h := List.mem_cons.mp h
      · exact ⟨by decide, by decide⟩
      · exact isValueChar_of_mem_digits c h
  · split at h
    · cases h
    · obtain rfl | h := List.mem_cons.mp h
      · exact ⟨by decide, by decide⟩
      · rw [signed] at h
        obtain rfl | h := List.mem_cons.mp h
        · split <;> exact ⟨by decide, by decide⟩
        · exact isValueChar_of_mem_twoDigits h

theorem isValueChar_of_mem_minus {negative : Bool} {c : Char}
    (h : c ∈ minus negative) : IsValueChar c := by
  cases negative with
  | false => cases h
  | true =>
      obtain rfl := List.mem_singleton.mp h
      exact ⟨by decide, by decide⟩

theorem isValueChar_of_mem_repr {value : PyFloat} {c : Char} (h : c ∈ value.repr) :
    IsValueChar c := by
  cases value with
  | zero negative =>
      obtain h | h := List.mem_append.mp h
      · exact isValueChar_of_mem_minus h
      · exact isValueChar_of_all (by decide) h
  | nonzero negative x =>
      obtain h | h := List.mem_append.mp h
      · exact isValueChar_of_mem_minus h
      · exact isValueChar_of_mem_text h
  | inf negative =>
      obtain h | h := List.mem_append.mp h
      · exact isValueChar_of_mem_minus h
      · exact isValueChar_of_all (by decide) h
  | nan => exact isValueChar_of_all (by decide) h

theorem whole_ne_nil (x : Shortest) : x.parts.whole ≠ [] := by
  rw [Shortest.parts]
  split_ifs with hexponent hsmall hlength
  · simpa using x.ne_nil
  · simp
  · simpa using fun h => absurd h x.ne_nil
  · have hpoint : x.point.toNat ≠ 0 := by omega
    simpa [List.take_eq_nil_iff, hpoint] using x.ne_nil

/-- What `repr` writes starts with a sign or a digit or a letter. -/
theorem exists_repr_eq_cons (value : PyFloat) : ∃ c t, value.repr = c :: t ∧ c ≠ '.' := by
  cases value with
  | zero negative => cases negative <;> exact ⟨_, _, rfl, by decide⟩
  | nonzero negative x =>
      cases negative with
      | true => exact ⟨_, _, rfl, by decide⟩
      | false =>
          obtain ⟨d, digits, hwhole⟩ := List.exists_cons_of_ne_nil (whole_ne_nil x)
          have hall : ∀ d : Fin 10, digitChar d ≠ '.' := by decide
          rw [PyFloat.repr, ReprParts.text, hwhole]
          exact ⟨_, _, rfl, hall d⟩
  | inf negative => cases negative <;> exact ⟨_, _, rfl, by decide⟩
  | nan => exact ⟨_, _, rfl, by decide⟩

theorem removeSuffix_ne_nil {γ : Type} [DecidableEq γ] {suffix s : List γ} (hne : s ≠ [])
    (hsuffix : s ≠ suffix) : removeSuffix suffix s ≠ [] := by
  rw [removeSuffix]
  split
  · next h =>
      obtain ⟨t, rfl⟩ := h
      intro hnil
      have ht : t = [] := by simpa using hnil
      exact hsuffix (by rw [ht, List.nil_append])
  · exact hne

theorem mem_of_mem_removeSuffix {γ : Type} [DecidableEq γ] {suffix s : List γ} {c : γ}
    (h : c ∈ removeSuffix suffix s) : c ∈ s := by
  rw [removeSuffix] at h
  split at h
  · exact List.mem_of_mem_take h
  · exact h

/-- A value is a text of characters that may be in one. -/
theorem exists_formatValue (value : PyFloat) :
    ∃ cs, formatValue value = .ofChars cs ∧ cs ≠ [] ∧ ∀ c ∈ cs, IsValueChar c := by
  have hrepr : ∃ cs, CodePoints.ofChars (removeSuffix ['.', '0'] value.repr) = .ofChars cs ∧
      cs ≠ [] ∧ ∀ c ∈ cs, IsValueChar c := by
    obtain ⟨c, t, heq, hc⟩ := exists_repr_eq_cons value
    refine ⟨_, rfl, removeSuffix_ne_nil (by simp [heq]) ?_, fun d hd =>
      isValueChar_of_mem_repr (mem_of_mem_removeSuffix hd)⟩
    rw [heq]
    exact fun h => hc (List.cons.inj h).1
  cases value with
  | nan => exact ⟨_, rfl, by decide, by simp [IsValueChar]⟩
  | inf negative =>
      cases negative with
      | false => exact ⟨_, rfl, by decide, by simp [IsValueChar]⟩
      | true => exact ⟨_, rfl, by decide, by simp [IsValueChar]⟩
  | zero negative => exact hrepr
  | nonzero negative x => exact hrepr

theorem formatValue_ne_nil (value : PyFloat) : formatValue value ≠ [] := by
  obtain ⟨cs, heq, hne, -⟩ := exists_formatValue value
  rw [heq]
  simpa [CodePoints.ofChars] using hne

theorem space_notMem_formatValue (value : PyFloat) : space ∉ formatValue value := by
  obtain ⟨cs, heq, -, hcs⟩ := exists_formatValue value
  rw [heq, CodePoints.ofChars, List.mem_map]
  rintro ⟨c, hc, h⟩
  exact (hcs c hc).1 (CodePoint.scalar.inj h)

theorem lineFeed_notMem_formatValue (value : PyFloat) : lineFeed ∉ formatValue value := by
  obtain ⟨cs, heq, -, hcs⟩ := exists_formatValue value
  rw [heq, CodePoints.ofChars, List.mem_map]
  rintro ⟨c, hc, h⟩
  exact (hcs c hc).2 (CodePoint.scalar.inj h)

/-! ## Lines -/

/-- What one line is written for. -/
inductive Entry
  | help (f : Family)
  | type (f : Family)
  | sample (f : Family) (s : Sample)

/-- The line that is written. -/
def Entry.text : Entry → CodePoints
  | .help f => helpLine f
  | .type f => typeLine f
  | .sample f s => sampleLine (f.name ++ s.suffix) s.labels s.value

/-- What the line is to say. -/
def Entry.line : Entry → Line
  | .help f => .help f.name f.help
  | .type f => .type f.name f.kind
  | .sample f s => .sample (f.name ++ s.suffix) s.labels.entries (formatValue s.value)

/-- No name or label that the line has is an old one with a line feed. -/
def Entry.Framed : Entry → Prop
  | .help f => ¬ IsFedName f.name
  | .type f => ¬ IsFedName f.name
  | .sample f s => ¬ IsFedName (f.name ++ s.suffix) ∧ ∀ e ∈ s.labels.entries, ¬ IsFedLabel e.1

/-- No name or label of the family is an old one with a line feed. -/
structure Family.Framed (f : Family) : Prop where
  name : ¬ IsFedName f.name
  samples : ∀ s ∈ f.samples, ¬ IsFedName (f.name ++ s.suffix)
  labels : ∀ s ∈ f.samples, ∀ key ∈ s.labels.keys, ¬ IsFedLabel key

/-- The entries of a family. -/
def Family.entries (f : Family) : List Entry :=
  (if f.help = [] then [] else [.help f]) ++ .type f :: f.samples.map (.sample f)

theorem mem_entries_type (f : Family) : .type f ∈ f.entries :=
  List.mem_append_right _ List.mem_cons_self

theorem mem_entries_sample {f : Family} {s : Sample} (hs : s ∈ f.samples) :
    .sample f s ∈ f.entries :=
  List.mem_append_right _ (List.mem_cons_of_mem _ (List.mem_map_of_mem hs))

theorem familyLines_eq (f : Family) : familyLines f = f.entries.map Entry.text := by
  rw [familyLines, Family.entries, List.map_append, List.map_cons, List.map_map]
  split <;> rfl

theorem render_eq (families : List Family) :
    render families = unlines lineFeed ((families.flatMap Family.entries).map Entry.text) := by
  have hlines : families.flatMap familyLines =
      (families.flatMap Family.entries).map Entry.text := by
    rw [List.map_flatMap]
    exact List.flatMap_congr fun f _ => familyLines_eq f
  rw [render, hlines]
  split
  · next h => rw [h]; rfl
  · next h => exact intercalate_append lineFeed h

variable {e : Entry} {f : Family}

theorem Family.Framed.entry (h : f.Framed) (he : e ∈ f.entries) : e.Framed := by
  rw [Family.entries, List.mem_append, List.mem_cons, List.mem_map] at he
  obtain he | rfl | ⟨s, hs, rfl⟩ := he
  · split at he
    · cases he
    · obtain rfl := List.mem_singleton.mp he
      exact h.name
  · exact h.name
  · exact ⟨h.samples s hs, fun e he => h.labels s hs e.1 (List.mem_map_of_mem he)⟩

/-- A sample's line does not start as the lines before the samples do. -/
theorem head?_series_ne {name : CodePoints} {labels : List (CodePoints × CodePoints)}
    (hname : ¬ IsFedName name) (rest : CodePoints) :
    (series name labels ++ rest).head? ≠ some (.scalar '#') := by
  rw [series]
  split_ifs with hlegacy hempty
  · exact ((isLegacyName_iff.mp hlegacy).resolve_right hname).head?_ne rfl rest
  · rw [List.append_assoc]
    exact ((isLegacyName_iff.mp hlegacy).resolve_right hname).head?_ne rfl _
  · intro h
    cases Option.some.inj h

/-- What does not start as the lines before the samples do is read as a sample. -/
theorem readLine_of_head?_ne (h : s.head? ≠ some (.scalar '#')) : readLine s = readSample s := by
  have hhelp : readText helpMark s = none := readText_cons_eq_none h _
  have htype : readText typeMark s = none := readText_cons_eq_none h _
  rw [readLine, readHelp, readType, hhelp, htype]
  rfl

/-- A type is no help. -/
theorem readHelp_typeMark (s : CodePoints) : readHelp (typeMark ++ s) = none := by
  have hmark : readText helpMark (typeMark ++ s) = none :=
    readText_eq_none_of_length_eq (by decide) (by decide) s
  rw [readHelp, hmark]
  rfl

/-- What starts as a type does is no sample. -/
theorem readSample_typeMark (s : CodePoints) : readSample (typeMark ++ s) = none := rfl

/-- **Every line of a framed family is read back.** -/
theorem readLine_text (h : e.Framed) : readLine e.text = some e.line := by
  cases e with
  | help f =>
      have hname := readName_header (space :: escapeHelp f.help) h
        (by simp [isNameChar, space])
      have hspace := readText_append [space] (escapeHelp f.help)
      have htext := readEscaped_escape_end (e := helpEscapes) f.help
      rw [← escapeHelp_eq] at htext
      rw [List.singleton_append] at hspace
      rw [Entry.text, helpLine, readLine, readHelp, readText_append]
      simp only [Option.bind_eq_bind, Option.bind_some, hname, hspace, htext]
      rfl
  | type f =>
      have hname := readName_header (space :: f.kind.text) h (by simp [isNameChar, space])
      have hspace := readText_append [space] f.kind.text
      have hkind : [Kind.counter, .gauge, .histogram].find? (fun k => k.text = f.kind.text) =
          some f.kind := by cases f.kind <;> decide
      rw [List.singleton_append] at hspace
      rw [Entry.text, typeLine, readLine, readHelp_typeMark, readType, readText_append]
      simp only [Option.bind_eq_bind, Option.bind_some, hname, hspace, hkind]
      rfl
  | sample f s =>
      have hseries := readSeries_series h.1 h.2 (formatValue s.value)
      have hspace := readText_append [space] (formatValue s.value)
      rw [List.singleton_append] at hspace
      rw [Entry.text, sampleLine_eq, readLine_of_head?_ne (head?_series_ne h.1 _), readSample,
        hseries]
      simp only [Option.bind_eq_bind, Option.bind_some, hspace]
      rw [if_neg (not_or.mpr ⟨formatValue_ne_nil s.value, space_notMem_formatValue s.value⟩)]
      rfl

theorem lineFeed_notMem_series {name : CodePoints} {labels : List (CodePoints × CodePoints)}
    (hname : ¬ IsFedName name) (hlabels : ∀ e ∈ labels, ¬ IsFedLabel e.1) :
    lineFeed ∉ series name labels := by
  have hrest : lineFeed ∉ labels.flatMap fun e => comma :: labelPair e := by
    rw [List.mem_flatMap]
    rintro ⟨e, he, hmem⟩
    obtain h | h := List.mem_cons.mp hmem
    · cases h
    · exact notMem_labelPair (hlabels e he) h
  rw [series]
  split_ifs with hlegacy hempty
  · exact ((isLegacyName_iff.mp hlegacy).resolve_right hname).notMem rfl rfl
  · have hword := ((isLegacyName_iff.mp hlegacy).resolve_right hname).notMem (c := lineFeed) rfl rfl
    rw [flatMap_cons_eq comma labelPair hempty, List.mem_cons, not_or] at hrest
    simp only [List.mem_append, List.mem_cons, List.not_mem_nil, or_false, not_or]
    exact ⟨hword, by decide, hrest.2, by decide⟩
  · simp only [List.mem_append, List.mem_cons, List.not_mem_nil, or_false, not_or]
    exact ⟨by decide, ⟨notMem_quoted name, hrest⟩, by decide⟩

/-- A line of a framed family is one line. -/
theorem lineFeed_notMem_text (h : e.Framed) : lineFeed ∉ e.text := by
  cases e with
  | help f =>
      rw [Entry.text, helpLine]
      simp only [List.mem_append, List.mem_cons, not_or]
      exact ⟨by decide, notMem_header h, by decide, notMem_escapeHelp f.help⟩
  | type f =>
      have hkind : lineFeed ∉ f.kind.text := by cases f.kind <;> decide
      rw [Entry.text, typeLine]
      simp only [List.mem_append, List.mem_cons, not_or]
      exact ⟨by decide, notMem_header h, by decide, hkind⟩
  | sample f s =>
      rw [Entry.text, sampleLine_eq]
      simp only [List.mem_append, List.mem_cons, not_or]
      exact ⟨lineFeed_notMem_series h.1 h.2, by decide, lineFeed_notMem_formatValue s.value⟩

/-! ## Lines that are broken -/

/-- A word on its own is no sample. -/
theorem readLine_word (h : IsWord isNameStart isNameChar t) : readLine t = none := by
  have hhash := h.head?_ne (c := .scalar '#') rfl []
  have hbrace := h.head?_ne (c := openBrace) rfl []
  rw [List.append_nil] at hhash hbrace
  rw [readLine_of_head?_ne hhash, readSample, readSeries, if_neg hbrace, readWord_self h]
  rfl

/-- A type without its kind is none. -/
theorem readLine_typeMark_word (h : IsWord isNameStart isNameChar t) :
    readLine (typeMark ++ t) = none := by
  have hname := readName_word [] rfl h (by simp)
  rw [List.append_nil] at hname
  rw [readLine, readHelp_typeMark, readSample_typeMark, readType, readText_append]
  simp only [Option.bind_eq_bind, Option.bind_some, hname]
  rfl

/-- The line of a type breaks where the name has a line feed. -/
theorem exists_broken_type (h : IsFedName f.name) :
    ∃ piece ∈ (typeLine f).splitOn lineFeed, readLine piece = none := by
  have hlegacy : isLegacyName f.name = true := isLegacyName_iff.mpr (.inr h)
  obtain ⟨t, ht, heq⟩ := h
  have hline : typeLine f = (typeMark ++ t) ++ lineFeed :: space :: f.kind.text := by
    rw [typeLine, header, if_pos hlegacy, heq]
    simp
  have hwhole : lineFeed ∉ typeMark ++ t := by
    rw [List.mem_append, not_or]
    exact ⟨by decide, ht.notMem rfl rfl⟩
  rw [hline]
  exact ⟨_, mem_splitOn hwhole _, readLine_typeMark_word ht⟩

/-- A bare name comes first in its line. -/
theorem exists_series_eq_append {name : CodePoints} (h : isLegacyName name = true)
    (labels : List (CodePoints × CodePoints)) : ∃ rest, series name labels = name ++ rest := by
  rw [series, if_pos h]
  split
  · exact ⟨[], (List.append_nil name).symm⟩
  · exact ⟨_, rfl⟩

/-- The line of a sample breaks where its name has a line feed. -/
theorem exists_broken_name {name : CodePoints} (h : IsFedName name)
    (labels : List (CodePoints × CodePoints)) (value : CodePoints) :
    ∃ piece ∈ (series name labels ++ value).splitOn lineFeed, readLine piece = none := by
  obtain ⟨rest, hrest⟩ := exists_series_eq_append (isLegacyName_iff.mpr (.inr h)) labels
  obtain ⟨t, ht, rfl⟩ := h
  have hline : series (t ++ [lineFeed]) labels ++ value = t ++ lineFeed :: (rest ++ value) := by
    rw [hrest]
    simp
  rw [hline]
  exact ⟨t, mem_splitOn (ht.notMem rfl rfl) _, readLine_word ht⟩

/-- A label without its value is none. -/
theorem readPair_word (h : IsWord isLabelStart isLabelChar t) : readPair t = none := by
  have hname := readName_word [] rfl h (by simp)
  rw [List.append_nil] at hname
  rw [readPair, hname]
  rfl

/-- What a sample's line has before one of its labels. -/
def beforeLabel (name : CodePoints) (before : List (CodePoints × CodePoints)) : CodePoints :=
  (if isLegacyName name then name ++ [openBrace] else openBrace :: (quoted name ++ [comma])) ++
    before.flatMap fun e => labelPair e ++ [comma]

theorem exists_series_append_cons (name : CodePoints) (before : List (CodePoints × CodePoints))
    (label : CodePoints × CodePoints) (after : List (CodePoints × CodePoints)) :
    ∃ rest, series name (before ++ label :: after) =
      beforeLabel name before ++ (labelPair label ++ rest) := by
  have hne : before ++ label :: after ≠ [] := by simp
  rw [series, beforeLabel]
  split_ifs
  · rw [intercalate_map_append_cons]
    exact ⟨(after.flatMap fun e => comma :: labelPair e) ++ [closeBrace], by simp⟩
  · rw [flatMap_cons_eq comma labelPair hne, intercalate_map_append_cons]
    exact ⟨(after.flatMap fun e => comma :: labelPair e) ++ [closeBrace], by simp⟩

theorem lineFeed_notMem_beforeLabel {name : CodePoints} (hname : ¬ IsFedName name)
    {before : List (CodePoints × CodePoints)} (hbefore : ∀ e ∈ before, ¬ IsFedLabel e.1) :
    lineFeed ∉ beforeLabel name before := by
  rw [beforeLabel, List.mem_append, List.mem_flatMap, not_or]
  constructor
  · split_ifs with hlegacy
    · have hword := ((isLegacyName_iff.mp hlegacy).resolve_right hname).notMem (c := lineFeed)
        rfl rfl
      simpa [hword] using show lineFeed ≠ openBrace by decide
    · simp only [List.mem_cons, List.mem_append, List.not_mem_nil, or_false, not_or]
      exact ⟨by decide, notMem_quoted name, by decide⟩
  · rintro ⟨e, he, hmem⟩
    obtain h | h := List.mem_append.mp hmem
    · exact notMem_labelPair (hbefore e he) h
    · cases List.mem_singleton.mp h

/-- What a line has before a label, and a bare label, is no sample. -/
theorem readLine_beforeLabel {name : CodePoints} (hname : ¬ IsFedName name)
    {before : List (CodePoints × CodePoints)} (hbefore : ∀ e ∈ before, ¬ IsFedLabel e.1)
    (h : IsWord isLabelStart isLabelChar t) : readLine (beforeLabel name before ++ t) = none := by
  have hreads : ∀ e ∈ before, Reads readPair (labelPair e) e := fun e he =>
    reads_labelPair (hbefore e he)
  have hpairs : readPairs ((before.flatMap fun e => labelPair e ++ [comma]) ++ t) = none :=
    readMany_eq_none hreads (readPair_word h)
  rw [beforeLabel]
  split_ifs with hlegacy
  · have hword := (isLegacyName_iff.mp hlegacy).resolve_right hname
    have hread := readWord_append (openBrace ::
      ((before.flatMap fun e => labelPair e ++ [comma]) ++ t)) hword
      (by simp [isNameChar, openBrace])
    have hhead : ((before.flatMap fun e => labelPair e ++ [comma]) ++ t).head? ≠
        some closeBrace := by
      cases before with
      | nil =>
          have hne := h.head?_ne (c := closeBrace) rfl []
          rwa [List.append_nil] at hne
      | cons e before =>
          rw [List.flatMap_cons, List.append_assoc, List.append_assoc]
          exact head?_labelPair_ne (hbefore e List.mem_cons_self) _
    rw [List.append_assoc, List.append_assoc, List.singleton_append,
      readLine_of_head?_ne (hword.head?_ne rfl _), readSample, readSeries,
      if_neg (hword.head?_ne rfl _), hread]
    simp only [Option.bind_eq_bind, Option.bind_some, readLabels]
    rw [if_pos trivial, if_neg hhead, hpairs]
    rfl
  · have hquoted := reads_quoted name
      (comma :: ((before.flatMap fun e => labelPair e ++ [comma]) ++ t))
    have hhash (u : CodePoints) : (openBrace :: u).head? ≠ some (.scalar '#') := by
      intro h
      cases Option.some.inj h
    rw [List.cons_append, List.cons_append, List.append_assoc, List.append_assoc,
      List.singleton_append, readLine_of_head?_ne (hhash _), readSample, readSeries,
      List.head?_cons, if_pos rfl, List.tail_cons, hquoted]
    simp only [Option.bind_eq_bind, Option.bind_some]
    rw [if_pos trivial, hpairs]
    rfl

/-- The line of a sample breaks where one of its labels has a line feed. -/
theorem exists_broken_label {name : CodePoints} (hname : ¬ IsFedName name)
    {before : List (CodePoints × CodePoints)} {label : CodePoints × CodePoints}
    (after : List (CodePoints × CodePoints))
    (hbefore : ∀ e ∈ before, ¬ IsFedLabel e.1) (h : IsFedLabel label.1) (value : CodePoints) :
    ∃ piece ∈ (series name (before ++ label :: after) ++ value).splitOn lineFeed,
      readLine piece = none := by
  have hlegacy : isLegacyLabel label.1 = true := isLegacyLabel_iff.mpr (.inr h)
  obtain ⟨rest, hrest⟩ := exists_series_append_cons name before label after
  obtain ⟨t, ht, heq⟩ := h
  have hline : series name (before ++ label :: after) ++ value = (beforeLabel name before ++ t) ++
      lineFeed :: (equals :: (quoted label.2 ++ (rest ++ value))) := by
    rw [hrest, labelPair, if_pos hlegacy, heq]
    simp
  have hwhole : lineFeed ∉ beforeLabel name before ++ t := by
    rw [List.mem_append, not_or]
    exact ⟨lineFeed_notMem_beforeLabel hname hbefore, ht.notMem rfl rfl⟩
  rw [hline]
  exact ⟨_, mem_splitOn hwhole _, readLine_beforeLabel hname hbefore ht⟩

/-! ## The whole text -/

/-- A line that cannot be read spoils the text. -/
theorem mapM_eq_none {α β : Type} {g : α → Option β} {xs : List α} {x : α} (hx : x ∈ xs)
    (h : g x = none) : xs.mapM g = none := by
  induction xs with
  | nil => cases hx
  | cons y ys ih =>
      rw [List.mapM_cons]
      obtain rfl | hx := List.mem_cons.mp hx
      · rw [h]
        rfl
      · rw [ih hx]
        cases g y <;> rfl

theorem mapM_map_eq_some {α β γ : Type} {g : α → Option β} {f : γ → α} {h : γ → β} {xs : List γ}
    (hall : ∀ x ∈ xs, g (f x) = some (h x)) : (xs.map f).mapM g = some (xs.map h) := by
  induction xs with
  | nil => rfl
  | cons x xs ih =>
      rw [List.map_cons, List.mapM_cons, hall x List.mem_cons_self,
        ih fun y hy => hall y (List.mem_cons_of_mem x hy)]
      rfl

/-- A broken line spoils the text. -/
theorem read_render_eq_none {families : List Family} {e : Entry}
    (he : e ∈ families.flatMap Family.entries)
    (h : ∃ piece ∈ e.text.splitOn lineFeed, readLine piece = none) :
    read (render families) = none := by
  obtain ⟨piece, hpiece, hnone⟩ := h
  have hmem : piece ∈ ((families.flatMap Family.entries).map Entry.text).flatMap
      fun l => l.splitOn lineFeed :=
    List.mem_flatMap.mpr ⟨e.text, List.mem_map_of_mem he, hpiece⟩
  rw [read, render_eq, lines?_unlines]
  simp only [Option.bind_eq_bind, Option.bind_some, mapM_eq_none hmem hnone]
  rfl

/-- A sample as it is to be read. -/
def Sample.shown (s : Sample) : CodePoints × List (CodePoints × CodePoints) × CodePoints :=
  (s.suffix, s.labels.entries, formatValue s.value)

/-- The family as it is to be read. -/
def Family.shown (f : Family) : ReadFamily := ⟨f.name, f.kind, f.help, f.samples.map Sample.shown⟩

/-- The samples of a family come behind its type. -/
theorem foldlM_samples (f : Family) (samples : List Sample) {g : ReadFamily}
    (hg : g.name = f.name) (done : List ReadFamily) :
    ((samples.map (Entry.sample f)).map Entry.line).foldlM addLine ⟨g :: done, none⟩ =
      some ⟨{ g with samples := g.samples ++ samples.map Sample.shown } :: done, none⟩ := by
  induction samples generalizing g with
  | nil => simp
  | cons s samples ih =>
      have hadd : addLine ⟨g :: done, none⟩ (Entry.sample f s).line =
          some ⟨{ g with samples := g.samples ++ [s.shown] } :: done, none⟩ := by
        simp [addLine, Entry.line, hg, Sample.shown]
      rw [List.map_cons, List.map_cons, List.foldlM_cons, hadd]
      simp only [Option.bind_eq_bind, Option.bind_some]
      rw [ih (g := { g with samples := g.samples ++ [s.shown] }) hg]
      simp

/-- The lines of a family add it. -/
theorem foldlM_entries (f : Family) (done : List ReadFamily) :
    (f.entries.map Entry.line).foldlM addLine ⟨done, none⟩ = some ⟨f.shown :: done, none⟩ := by
  have hsamples := foldlM_samples f f.samples (g := ⟨f.name, f.kind, f.help, []⟩) rfl done
  rw [Family.entries]
  split
  · next hhelp =>
      rw [hhelp] at hsamples
      simp only [List.nil_append, List.map_cons, List.foldlM_cons, Family.shown, hhelp]
      exact hsamples
  · simp only [List.singleton_append, List.map_cons, List.foldlM_cons]
    simpa [addLine, Entry.line, Family.shown] using hsamples

theorem foldlM_families (families : List Family) (done : List ReadFamily) :
    ((families.flatMap Family.entries).map Entry.line).foldlM addLine ⟨done, none⟩ =
      some ⟨(families.map Family.shown).reverse ++ done, none⟩ := by
  induction families generalizing done with
  | nil => rfl
  | cons f families ih =>
      rw [List.flatMap_cons, List.map_append, List.foldlM_append, foldlM_entries]
      simp only [Option.bind_eq_bind, Option.bind_some, ih]
      simp

/-- **Framed families are read back.** -/
theorem read_render_of_framed {families : List Family} (h : ∀ f ∈ families, f.Framed) :
    read (render families) = some (families.map Family.shown) := by
  have hentries : ∀ e ∈ families.flatMap Family.entries, e.Framed := by
    intro e he
    obtain ⟨f, hf, he⟩ := List.mem_flatMap.mp he
    exact (h f hf).entry he
  have hwhole : ∀ l ∈ (families.flatMap Family.entries).map Entry.text, lineFeed ∉ l :=
    List.forall_mem_map.mpr fun e he => lineFeed_notMem_text (hentries e he)
  have hitems := mapM_map_eq_some (g := readLine) (f := Entry.text) fun e he =>
    readLine_text (hentries e he)
  have hfold := foldlM_families families []
  rw [List.append_nil] at hfold
  rw [read, render_eq, lines?_unlines_of_notMem hwhole]
  simp only [Option.bind_eq_bind, Option.bind_some, hitems, hfold]
  simp

/-- **When the text is read back as the families**: when no name of a family or a sample, and no
label, is one of the older format with a line feed behind it. -/
theorem read_render_iff (families : List Family) :
    read (render families) = some (families.map Family.shown) ↔ ∀ f ∈ families, f.Framed := by
  constructor
  · intro h
    have hreads : ∀ e ∈ families.flatMap Family.entries,
        ¬ ∃ piece ∈ e.text.splitOn lineFeed, readLine piece = none := by
      intro e he hbroken
      rw [read_render_eq_none he hbroken] at h
      cases h
    intro f hf
    have hentries (e : Entry) (he : e ∈ f.entries) := hreads e (List.mem_flatMap.mpr ⟨f, hf, he⟩)
    have hname : ∀ s ∈ f.samples, ¬ IsFedName (f.name ++ s.suffix) := by
      intro s hs hfed
      have hbroken := exists_broken_name hfed s.labels.entries (space :: formatValue s.value)
      rw [← sampleLine_eq] at hbroken
      exact hentries (.sample f s) (mem_entries_sample hs) hbroken
    have htype := hentries (.type f) (mem_entries_type f)
    refine ⟨fun hfed => htype (exists_broken_type hfed), hname, ?_⟩
    intro s hs
    -- the first label with a line feed breaks the line: those before it are read
    have hlabels : ∀ e ∈ s.labels.entries, ¬ IsFedLabel e.1 := by
      refine forall_mem_of_before fun before label after heq hbefore hfed => ?_
      have hbroken := exists_broken_label (hname s hs) after hbefore hfed
        (space :: formatValue s.value)
      rw [← heq, ← sampleLine_eq] at hbroken
      exact hentries (.sample f s) (mem_entries_sample hs) hbroken
    exact List.forall_mem_map.mpr hlabels
  · exact read_render_of_framed

/-- A gauge with one sample, which has a label. -/
def labelled (key : CodePoints) : Family where
  name := .ofString "queue_size"
  kind := .gauge
  samples := [⟨[], Dict.empty.set key (.ofString "mail"), .zero false⟩]

/-- A label with a line feed makes two lines of one. -/
theorem not_read_render_of_fedLabel :
    ¬ ∀ families : List Family, read (render families) = some (families.map Family.shown) := by
  intro h
  have hread := h [labelled (.ofString "queue\n")]
  have hnone : read (render [labelled (.ofString "queue\n")]) = none := by decide
  rw [hnone] at hread
  cases hread

end Telemetry.Metrics.PythonRender
