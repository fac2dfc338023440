import Telemetry.Lib.Authority
import Telemetry.Config.PythonText

/-!
# Masked configs of the Python SDK

`_masking.py`. The password of an endpoint is masked where `urlsplit` finds the authority. Where it
raises, or finds none, the authority is looked for by hand, behind the first `://` of the whole
text.

## Main definitions

* `Env` — what `urlsplit` asks of an authority.
* `urlsplit`, `urlunsplit` — URLs and their parts.
* `maskNetlocPassword`, `maskEndpointUrl`, `redactConfig` — the masks.
* `Found` — the authority is where it is looked for.

## Main results

* `shownPassword_maskEndpointUrl` — **what a masked endpoint shows**.
-/

namespace Telemetry.Config.PythonMasking

open Lib
open Lib.CodePoints (ofString)
open Propagation (partition partition_append)

/-! ## URLs -/

/-- The characters at which a URL is taken apart. -/
def delimiters : Delimiters CodePoint where
  colon := .scalar ':'
  slash := .scalar '/'
  question := .scalar '?'
  hash := .scalar '#'
  commat := .scalar '@'
  nodup := by decide

/-- White space, or a control character. -/
def isBlank : CodePoint → Bool
  | .scalar c => Propagation.isWhiteSpace c || c ≤ '\u001f' || ('\u007f' ≤ c && c ≤ '\u009f')
  | .surrogate _ => false

/-- What `urlsplit` asks of an authority, and raises where it is not so. -/
structure Env where
  /-- The host in brackets is one. -/
  acceptsBrackets : CodePoints → Bool
  /-- No delimiter comes of the normal form of the authority. -/
  acceptsNormalForm : CodePoints → Bool

/-- `SplitResult`. -/
structure SplitResult where
  scheme : CodePoints
  netloc : CodePoints
  path : CodePoints
  query : CodePoints
  fragment : CodePoints

/-- `_WHATWG_C0_CONTROL_OR_SPACE`. -/
def isC0ControlOrSpace : CodePoint → Bool
  | .scalar c => c ≤ ' '
  | .surrogate _ => false

/-- `_UNSAFE_URL_BYTES_TO_REMOVE`. -/
def isUnsafe (c : CodePoint) : Bool := c ∈ ofString "\t\r\n"

def isAsciiAlpha : CodePoint → Bool
  | .scalar c => ('a' ≤ c && c ≤ 'z') || ('A' ≤ c && c ≤ 'Z')
  | .surrogate _ => false

/-- `scheme_chars`. -/
def isSchemeChar : CodePoint → Bool
  | .scalar c =>
      ('a' ≤ c && c ≤ 'z') || ('A' ≤ c && c ≤ 'Z') || ('0' ≤ c && c ≤ '9') || c = '+' || c = '-' ||
        c = '.'
  | .surrogate _ => false

/-- `str.lower` of a character of a scheme. -/
def toLower : CodePoint → CodePoint
  | .scalar c => .scalar c.toLower
  | .surrogate i => .surrogate i

/-- The scheme, and what is behind it. -/
def splitScheme (url : CodePoints) : CodePoints × CodePoints :=
  match url.idxOf? (.scalar ':') with
  | some i =>
      if 0 < i ∧ url.head?.any isAsciiAlpha = true ∧ (url.take i).all isSchemeChar = true then
        ((url.take i).map toLower, url.drop (i + 1))
      else ([], url)
  | none => ([], url)

/-- `_splitnetloc`, where there is an authority. -/
def splitNetloc (url : CodePoints) : CodePoints × CodePoints :=
  if url.take 2 = ofString "//" then
    ((url.drop 2).takeWhile fun c => !delimiters.ends c,
      (url.drop 2).dropWhile fun c => !delimiters.ends c)
  else ([], url)

/-- A bracket without the other one. -/
def oddBrackets (netloc : CodePoints) : Prop :=
  (.scalar '[' ∈ netloc ∧ .scalar ']' ∉ netloc) ∨ (.scalar ']' ∈ netloc ∧ .scalar '[' ∉ netloc)

instance (netloc : CodePoints) : Decidable (oddBrackets netloc) :=
  inferInstanceAs (Decidable ((_ ∧ _) ∨ (_ ∧ _)))

variable (env : Env)

/-- `urlsplit`, or nothing where it raises a `ValueError`. -/
def urlsplit (url : CodePoints) : Option SplitResult :=
  let url := (url.dropWhile isC0ControlOrSpace).filter fun c => !isUnsafe c
  let (scheme, url) := splitScheme url
  let (netloc, url) := splitNetloc url
  if oddBrackets netloc then none
  else if .scalar '[' ∈ netloc ∧ env.acceptsBrackets netloc = false then none
  else
    let (url, fragment) := partition (.scalar '#') url
    let (path, query) := partition (.scalar '?') url
    if netloc ≠ [] ∧ env.acceptsNormalForm netloc = false then none
    else some ⟨scheme, netloc, path, query, fragment⟩

/-- `urlunsplit`, where there is an authority. -/
def urlunsplit (parts : SplitResult) : CodePoints :=
  let path := if parts.path ≠ [] ∧ parts.path.head? ≠ some (.scalar '/') then
    .scalar '/' :: parts.path else parts.path
  let url := ofString "//" ++ parts.netloc ++ path
  let url := if parts.scheme ≠ [] then parts.scheme ++ .scalar ':' :: url else url
  let url := if parts.query ≠ [] then url ++ .scalar '?' :: parts.query else url
  if parts.fragment ≠ [] then url ++ .scalar '#' :: parts.fragment else url

/-! ## Masks -/

/-- The mask of a password. -/
def mask : CodePoints := ofString "****"

/-- `_mask_header_value`. -/
def maskHeaderValue (value : CodePoints) : CodePoints :=
  if value.length < 8 then mask else value.take 4 ++ mask

/-- `_mask_headers`. -/
def maskHeaders (headers : Dict CodePoints CodePoints) : Dict CodePoints CodePoints :=
  headers.mapValues maskHeaderValue

/-- `_mask_netloc_password`. -/
def maskNetlocPassword (netloc : CodePoints) : CodePoints :=
  let (userinfo, host) := Delimiters.rpartition (.scalar '@') netloc
  let (username, password) := partition (.scalar ':') userinfo
  if password = [] then netloc
  else username ++ .scalar ':' :: (mask ++ .scalar '@' :: host)

/-- The authority is located by hand. -/
def maskByHand (url : CodePoints) : CodePoints :=
  let start := match find? (ofString "://") url with
    | some schemeEnd => schemeEnd + 3
    | none => 0
  let rest := url.drop start
  let stop := delimiters.firstEnd rest
  url.take start ++ (maskNetlocPassword (rest.take stop) ++ rest.drop stop)

/-- `_mask_endpoint_url`. -/
def maskEndpointUrl (url : CodePoints) : CodePoints :=
  match (urlsplit env url).filter fun parsed => parsed.netloc ≠ [] with
  | some parsed =>
      let masked := maskNetlocPassword parsed.netloc
      if masked = parsed.netloc then url else urlunsplit { parsed with netloc := masked }
  | none => maskByHand url

/-! ## Configs -/

/-- The entries of a part of a config that are masked, if it has them. -/
structure Section where
  otlpHeaders : Option (Dict CodePoints CodePoints)
  otlpEndpoint : Option (Option CodePoints)

/-- A field of a config, as `dataclasses.asdict` has it. -/
inductive Field (α : Type)
  | dict (entries : Section)
  | other (value : α)

/-- A config. -/
structure TelemetryConfig (α σ : Type) where
  fields : Dict String (Field α)
  receiptSink : Option σ

/-- A config that is shown. The sink is shown by the name of its type. -/
structure Redacted (α : Type) where
  fields : Dict String (Field α)
  receiptSink : Option String

/-- The body of the loop. -/
def redactField {α : Type} : Field α → Field α
  | .dict entries =>
      .dict ⟨entries.otlpHeaders.map maskHeaders,
        entries.otlpEndpoint.map fun endpoint => endpoint.map (maskEndpointUrl env)⟩
  | .other value => .other value

/-- `redact_config`. -/
def redactConfig {α σ : Type} (typeName : σ → String) (config : TelemetryConfig α σ) :
    Redacted α where
  fields := config.fields.mapValues (redactField env)
  receiptSink := config.receiptSink.map typeName

/-- The endpoint of a field, if it has one. -/
def Field.endpoint {α : Type} : Field α → Option CodePoints
  | .dict entries => entries.otlpEndpoint.join
  | .other _ => none

/-- The endpoints in the fields of a config. -/
def endpoints {α : Type} (fields : Dict String (Field α)) : List CodePoints :=
  fields.values.filterMap Field.endpoint

/-- The authority is where it is looked for: behind a scheme, or at the start of a text that has no
`://` at all. -/
def Found (url : CodePoints) : Prop :=
  delimiters.HasScheme url ∨ ¬ ofString "://" <:+: url

instance (url : CodePoints) : Decidable (Found url) := inferInstanceAs (Decidable (_ ∨ ¬ _))

/-! ## Splitting -/

variable {env} {url name rest user password host tail : CodePoints}

theorem isBlank_eq_false_of_mem : ∀ c ∈ delimiters.all, isBlank c = false := by decide

theorem isBlank_of_isC0ControlOrSpace {c : CodePoint} (h : isC0ControlOrSpace c = true) :
    isBlank c = true := by
  cases c with
  | surrogate i => exact absurd h (by simp [isC0ControlOrSpace])
  | scalar c =>
      have hc : c.toNat < 128 := by
        have hle : c ≤ ' ' := of_decide_eq_true h
        exact Nat.lt_of_le_of_lt (Char.le_def.mp hle) (by decide)
      have hor := Python.CaseTables.of_ascii
        (P := fun c => !isC0ControlOrSpace (.scalar c) || isBlank (.scalar c))
        (by decide) hc
      simpa [h] using hor

theorem isBlank_of_isUnsafe {c : CodePoint} (h : isUnsafe c = true) : isBlank c = true := by
  have hc : c ∈ ofString "\t\r\n" := by simpa [isUnsafe] using h
  have hall : ∀ c ∈ ofString "\t\r\n", isBlank c = true := by decide
  exact hall c hc

/-- Nothing is stripped off what has no blanks. -/
theorem cleaned_eq (h : ∀ c ∈ url, isBlank c = false) :
    ((url.dropWhile isC0ControlOrSpace).filter fun c => !isUnsafe c) = url := by
  have hstrip : url.dropWhile isC0ControlOrSpace = url := by
    cases url with
    | nil => rfl
    | cons c url =>
        refine List.dropWhile_cons_of_neg fun hc => ?_
        exact absurd (isBlank_of_isC0ControlOrSpace hc) (by simp [h c])
  rw [hstrip, List.filter_eq_self]
  intro c hc
  rw [Bool.not_eq_true']
  exact Bool.eq_false_iff.mpr fun hunsafe =>
    absurd (isBlank_of_isUnsafe hunsafe) (by simp [h c hc])

/-- The characters before the colon are those of a scheme. -/
def IsSchemeName (name : CodePoints) : Prop :=
  0 < name.length ∧ name.head?.any isAsciiAlpha = true ∧ name.all isSchemeChar = true

instance (name : CodePoints) : Decidable (IsSchemeName name) :=
  inferInstanceAs (Decidable (_ ∧ _ ∧ _))

theorem splitScheme_append (h : delimiters.colon ∉ name) (rest : CodePoints) :
    splitScheme (name ++ delimiters.colon :: rest) =
      if IsSchemeName name then (name.map toLower, rest)
      else ([], name ++ delimiters.colon :: rest) := by
  have hfound : (name ++ delimiters.colon :: rest).idxOf? (.scalar ':') = some name.length := by
    have hcolon : CodePoint.scalar ':' = delimiters.colon := rfl
    rw [hcolon, Delimiters.idxOf?_append h]
    simp [List.idxOf?, List.findIdx?_cons]
  rw [splitScheme, hfound]
  simp only [List.take_left, IsSchemeName]
  cases name with
  | nil => rfl
  | cons c name => simp

/-- A text that starts otherwise has no authority. -/
theorem splitNetloc_of_head? (h : delimiters.slash ∉ url.head?) : splitNetloc url = ([], url) := by
  rw [splitNetloc, if_neg]
  intro hslashes
  cases url with
  | nil => exact absurd hslashes (by decide)
  | cons c url =>
      rw [List.take_succ_cons] at hslashes
      exact h (congrArg some (List.cons.inj hslashes).1)

theorem splitNetloc_append (hname : ∀ c ∈ name, delimiters.ends c = false)
    (htail : ∀ c ∈ tail.head?, delimiters.ends c = true) :
    splitNetloc (delimiters.slash :: delimiters.slash :: (name ++ tail)) = (name, tail) := by
  have htake := Delimiters.takeWhile_authority hname htail
  have hdrop : (name ++ tail).dropWhile (fun c => !delimiters.ends c) = tail := by
    have hsplit := List.takeWhile_append_dropWhile (p := fun c => !delimiters.ends c)
      (l := name ++ tail)
    rw [htake] at hsplit
    exact List.append_cancel_left hsplit
  have hslashes : List.take 2 (delimiters.slash :: delimiters.slash :: (name ++ tail)) =
      ofString "//" := by
    rw [List.take_succ_cons, List.take_succ_cons, List.take_zero]
    rfl
  rw [splitNetloc, if_pos hslashes]
  exact Prod.ext htake hdrop

/-- What `urlsplit` returns, if it returns. -/
theorem eq_of_urlsplit {parsed : SplitResult} (hplain : ∀ c ∈ url, isBlank c = false)
    (h : urlsplit env url = some parsed) :
    parsed.scheme = (splitScheme url).1 ∧
      parsed.netloc = (splitNetloc (splitScheme url).2).1 ∧
      parsed.path = (partition (.scalar '?')
        (partition (.scalar '#') (splitNetloc (splitScheme url).2).2).1).1 := by
  rw [urlsplit, cleaned_eq hplain] at h
  simp only at h
  split at h
  · exact absurd h (by simp)
  split at h
  · exact absurd h (by simp)
  split at h
  · exact absurd h (by simp)
  obtain rfl := Option.some.inj h
  exact ⟨rfl, rfl, rfl⟩

/-- No scheme name becomes a delimiter in lower case. -/
theorem toLower_notMem {c : CodePoint} (h : isSchemeChar c = true) :
    toLower c ∉ delimiters.all := by
  cases c with
  | surrogate i => exact absurd h (by simp [isSchemeChar])
  | scalar c =>
      have hc : c.toNat < 128 := by
        simp only [isSchemeChar, Bool.or_eq_true, Bool.and_eq_true, decide_eq_true_eq] at h
        have hle {bound : Char} (hb : bound.toNat < 128) (h : c ≤ bound) : c.toNat < 128 :=
          Nat.lt_of_le_of_lt (Char.le_def.mp h) hb
        obtain ((((h | h) | h) | rfl) | rfl) | rfl := h
        · exact hle (by decide) h.2
        · exact hle (by decide) h.2
        · exact hle (by decide) h.2
        all_goals decide
      have hor := Python.CaseTables.of_ascii
        (P := fun c => !isSchemeChar (.scalar c) || toLower (.scalar c) ∉ delimiters.all)
        (by decide) hc
      simpa [h] using hor

/-! ## Masking -/

/-- A password is masked where the authority is known. -/
theorem maskNetlocPassword_append (huser : delimiters.colon ∉ user) (hpassword : password ≠ [])
    (hhost : ∀ c ∈ host, c ≠ delimiters.commat) :
    maskNetlocPassword (user ++ delimiters.colon :: (password ++ delimiters.commat :: host)) =
      user ++ delimiters.colon :: (mask ++ delimiters.commat :: host) := by
  have hjoin : user ++ delimiters.colon :: (password ++ delimiters.commat :: host) =
      (user ++ delimiters.colon :: password) ++ delimiters.commat :: host := by simp
  have hcolon : CodePoint.scalar ':' = delimiters.colon := rfl
  have hcommat : CodePoint.scalar '@' = delimiters.commat := rfl
  rw [hjoin, maskNetlocPassword, hcolon, hcommat, Delimiters.rpartition_append hhost]
  simp only [partition_append huser, if_neg hpassword]

/-- The parts of a URL with a scheme are put together again. -/
theorem urlunsplit_eq (parts : SplitResult) (hscheme : parts.scheme ≠ [])
    (hpath : ∀ c ∈ parts.path.head?, c = delimiters.slash) :
    ∃ tail, (∀ c ∈ tail.head?, delimiters.ends c = true) ∧
      urlunsplit parts = parts.scheme ++ delimiters.schemeMark ++ (parts.netloc ++ tail) := by
  have hslash : ¬ (parts.path ≠ [] ∧ parts.path.head? ≠ some (.scalar '/')) := by
    rintro ⟨hne, hhead⟩
    cases h : parts.path with
    | nil => exact hne h
    | cons c path =>
        rw [h] at hhead hpath
        exact hhead (congrArg some (hpath c rfl))
  have hquery : ∃ q, (∀ c ∈ q.head?, delimiters.ends c = true) ∧ ∀ url : CodePoints,
      (if parts.query ≠ [] then url ++ .scalar '?' :: parts.query else url) = url ++ q := by
    by_cases h : parts.query = []
    · exact ⟨[], by simp, fun url => by simp [h]⟩
    · exact ⟨.scalar '?' :: parts.query, fun c hc => Option.some.inj hc ▸ by decide,
        fun url => by simp [h]⟩
  have hfragment : ∃ f, (∀ c ∈ f.head?, delimiters.ends c = true) ∧ ∀ url : CodePoints,
      (if parts.fragment ≠ [] then url ++ .scalar '#' :: parts.fragment else url) = url ++ f := by
    by_cases h : parts.fragment = []
    · exact ⟨[], by simp, fun url => by simp [h]⟩
    · exact ⟨.scalar '#' :: parts.fragment, fun c hc => Option.some.inj hc ▸ by decide,
        fun url => by simp [h]⟩
  obtain ⟨q, hq, hqeq⟩ := hquery
  obtain ⟨f, hf, hfeq⟩ := hfragment
  refine ⟨parts.path ++ (q ++ f), ?_, ?_⟩
  · intro c hc
    cases h : parts.path with
    | cons d path =>
        rw [h, List.cons_append, List.head?_cons, Option.mem_some_iff] at hc
        rw [← hc, hpath d (by rw [h]; rfl)]
        exact delimiters.ends_slash
    | nil =>
        rw [h, List.nil_append] at hc
        cases q with
        | nil => exact hf c hc
        | cons d q => exact hq c hc
  · have hmark : delimiters.schemeMark = .scalar ':' :: ofString "//" := by decide
    rw [urlunsplit]
    simp only [if_neg hslash, if_pos hscheme, hqeq, hfeq, hmark]
    simp

/-- The hand finds the authority behind the scheme, or at the start. -/
theorem maskByHand_append (before : CodePoints)
    (hbefore : (before = [] ∧ ¬ ofString "://" <:+: name ++ tail) ∨
      ∃ scheme, (∀ c ∈ scheme, c ∉ delimiters.all) ∧ before = scheme ++ delimiters.schemeMark)
    (hname : ∀ c ∈ name, delimiters.ends c = false)
    (htail : ∀ c ∈ tail.head?, delimiters.ends c = true) :
    maskByHand (before ++ (name ++ tail)) = before ++ (maskNetlocPassword name ++ tail) := by
  have hstart : (match find? (ofString "://") (before ++ (name ++ tail)) with
      | some schemeEnd => schemeEnd + 3
      | none => 0) = before.length := by
    obtain ⟨rfl, hnone⟩ | ⟨scheme, hscheme, rfl⟩ := hbefore
    · cases h : find? (ofString "://") (name ++ tail) with
      | none => rw [List.nil_append, h]; rfl
      | some i => exact absurd (isInfix_iff_find?.mpr ⟨i, h⟩) hnone
    · have hfound : find? (ofString "://") (scheme ++ delimiters.schemeMark ++ (name ++ tail)) =
          some scheme.length := by
        rw [List.append_assoc]
        exact find?_append (Delimiters.slash_notMem hscheme) (by decide)
      rw [hfound]
      simp [Delimiters.schemeMark]
  rw [maskByHand, hstart]
  simp only [List.drop_left, List.take_left, Delimiters.firstEnd_append hname htail]

/-- What is a path behind an authority starts with a slash. -/
theorem head?_path (htail : ∀ c ∈ tail.head?, delimiters.ends c = true) :
    ∀ c ∈ (partition (.scalar '?') (partition (.scalar '#') tail).1).1.head?,
      c = delimiters.slash := by
  intro d hd
  cases tail with
  | nil => exact absurd hd (by simp [partition])
  | cons c tail =>
      have hends := htail c rfl
      simp only [Delimiters.ends, Bool.or_eq_true, decide_eq_true_eq] at hends
      obtain (rfl | rfl) | rfl := hends
      · exact (Option.some.inj hd).symm
      · exact absurd hd (by simp [partition, delimiters])
      · exact absurd hd (by simp [partition, delimiters])

variable (env) in
/-- A URL with a scheme shows the mask. -/
theorem shownPassword_maskEndpointUrl_of_scheme (hname : ∀ c ∈ name, c ∉ delimiters.all)
    (huser : ∀ c ∈ user, c ∉ delimiters.all) (hne : password ≠ [])
    (hpassword : ∀ c ∈ password, delimiters.ends c = false)
    (hhost : ∀ c ∈ host, delimiters.ends c = false ∧ c ≠ delimiters.commat)
    (htail : ∀ c ∈ tail.head?, delimiters.ends c = true)
    (hurl : url = name ++ delimiters.schemeMark ++ ((user ++ delimiters.colon ::
      (password ++ delimiters.commat :: host)) ++ tail))
    (hplain : ∀ c ∈ url, isBlank c = false) :
    delimiters.shownPassword (maskEndpointUrl env url) = mask := by
  have hmask : ∀ c ∈ mask, delimiters.ends c = false := by decide
  have hmasked := maskNetlocPassword_append (Delimiters.colon_notMem huser) hne
    fun c hc => (hhost c hc).2
  have hauthority := Delimiters.ends_of_mem_authority huser hpassword fun c hc => (hhost c hc).1
  rw [maskEndpointUrl]
  cases h : (urlsplit env url).filter fun parsed => parsed.netloc ≠ [] with
  | none =>
      simp only
      rw [hurl, maskByHand_append _ (.inr ⟨name, hname, rfl⟩) hauthority htail, hmasked]
      exact Delimiters.shownPassword_of_parts (.inr ⟨name, hname, rfl⟩) huser hmask hhost htail
  | some parsed =>
      rw [Option.filter_eq_some_iff] at h
      obtain ⟨hscheme, hnetloc, hpath⟩ := eq_of_urlsplit hplain h.1
      have hfound : parsed.netloc ≠ [] := by simpa using h.2
      rw [hurl, Delimiters.schemeMark_append,
        splitScheme_append (Delimiters.colon_notMem hname)] at hscheme hnetloc hpath
      by_cases hlegal : IsSchemeName name
      · rw [if_pos hlegal] at hscheme hnetloc hpath
        rw [splitNetloc_append hauthority htail] at hnetloc hpath
        simp only [hnetloc, hmasked]
        split
        · next hsame =>
            -- the password is the mask already
            have hpass : mask = password :=
              List.append_cancel_right (List.cons.inj (List.append_cancel_left hsame)).2
            rw [hurl, Delimiters.shownPassword_of_parts (.inr ⟨name, hname, rfl⟩) huser hpassword
              hhost htail, hpass]
        · have hscheme_ne : parsed.scheme ≠ [] := by
            rw [hscheme]
            exact fun hnil => absurd (List.map_eq_nil_iff.mp hnil)
              (List.ne_nil_of_length_pos hlegal.1)
          have hlower : ∀ c ∈ parsed.scheme, c ∉ delimiters.all := by
            intro c hc
            rw [hscheme] at hc
            obtain ⟨d, hd, rfl⟩ := List.mem_map.mp hc
            exact toLower_notMem (List.all_eq_true.mp hlegal.2.2 d hd)
          obtain ⟨tail', htail', hunsplit⟩ := urlunsplit_eq { parsed with
            netloc := user ++ delimiters.colon :: (mask ++ delimiters.commat :: host) }
            hscheme_ne (hpath ▸ head?_path htail)
          rw [hunsplit]
          exact Delimiters.shownPassword_of_parts (.inr ⟨_, hlower, rfl⟩) huser hmask hhost htail'
      · rw [if_neg hlegal] at hnetloc
        refine absurd ?_ hfound
        rw [hnetloc, splitNetloc_of_head? (Delimiters.slash_notMem_head?_append hname _)]

/-- Without a scheme `urlsplit` finds no authority. -/
theorem urlsplit_filter_of_noScheme (huser : ∀ c ∈ user, c ∉ delimiters.all)
    (hrest : delimiters.slash ∉ rest.head?)
    (hplain : ∀ c ∈ user ++ delimiters.colon :: rest, isBlank c = false) :
    (urlsplit env (user ++ delimiters.colon :: rest)).filter
      (fun parsed => parsed.netloc ≠ []) = none := by
  rw [Option.filter_eq_none_iff]
  intro parsed hparsed
  obtain ⟨-, hnetloc, -⟩ := eq_of_urlsplit hplain hparsed
  rw [splitScheme_append (Delimiters.colon_notMem huser)] at hnetloc
  have hnil : parsed.netloc = [] := by
    rw [hnetloc]
    split
    · rw [splitNetloc_of_head? hrest]
    · rw [splitNetloc_of_head? (Delimiters.slash_notMem_head?_append huser _)]
  simp [hnil]

/-- The hand that starts behind a `://` leaves the authority before it as it is. -/
theorem shownPassword_maskByHand_of_mark (huser : ∀ c ∈ user, c ∉ delimiters.all)
    (hpassword : ∀ c ∈ password, delimiters.ends c = false)
    (hhost : ∀ c ∈ host, delimiters.ends c = false ∧ c ≠ delimiters.commat)
    (htail : ∀ c ∈ tail.head?, delimiters.ends c = true)
    (hurl : url = (user ++ delimiters.colon :: (password ++ delimiters.commat :: host)) ++ tail)
    (hmark : ofString "://" <:+: url) :
    delimiters.shownPassword (maskByHand url) = password := by
  obtain ⟨i, hi⟩ := isInfix_iff_find?.mp hmark
  have hauthority := Delimiters.ends_of_mem_authority huser hpassword fun c hc => (hhost c hc).1
  have hfind := hi
  rw [hurl] at hfind
  have hlen := length_lt_of_find?_schemeMark (D := delimiters) hauthority hfind
  rw [maskByHand, hi]
  simp only
  obtain ⟨name, hname⟩ :
      ∃ name, name = user ++ delimiters.colon :: (password ++ delimiters.commat :: host) :=
    ⟨_, rfl⟩
  rw [← hname] at hurl hlen
  have htake : url.take (i + 3) = name ++ tail.take (i + 3 - name.length) := by
    rw [hurl, List.take_append, List.take_of_length_le (by omega)]
  rw [htake, List.append_assoc, hname]
  refine Delimiters.shownPassword_of_authority huser hpassword hhost ?_
  -- what is kept of the tail is not empty, so it ends the authority as the tail did
  intro c hc
  cases tail with
  | nil => exact absurd hlen.2 (by simpa using hlen.1)
  | cons d tail =>
      have hpos : i + 3 - name.length = (i + 2 - name.length) + 1 := by omega
      rw [← hname, hpos, List.take_succ_cons, List.cons_append, List.head?_cons,
        Option.mem_some_iff] at hc
      exact hc ▸ htail d rfl

/-- **The endpoints that are masked.** -/
theorem shownPassword_maskEndpointUrl_iff (h : delimiters.OfForm isBlank url) :
    delimiters.shownPassword (maskEndpointUrl env url) = mask ↔
      Found url ∨ delimiters.shownPassword url = mask := by
  obtain ⟨e, rfl⟩ := h
  obtain ⟨password, host, tail, hne, hpassword, hhost, htail, htext⟩ := e.exists_parts
  have huser : ∀ c ∈ e.user, c ∉ delimiters.all := fun c hc => (e.user_plain c hc).2
  have hplain := e.blank_eq_false isBlank_eq_false_of_mem
  cases hscheme : e.scheme with
  | some name =>
      have hname : ∀ c ∈ name, c ∉ delimiters.all := fun c hc =>
        (e.scheme_plain name hscheme c hc).2
      have hpart : e.schemePart = name ++ delimiters.schemeMark := by
        rw [Endpoint.schemePart, hscheme]
      rw [hpart] at htext
      have hmasked := shownPassword_maskEndpointUrl_of_scheme env hname huser hne hpassword hhost
        htail htext hplain
      have hfound : Found e.text := .inl (htext ▸ Delimiters.hasScheme_append hname _)
      exact iff_of_true hmasked (.inl hfound)
  | none =>
      have hpart : e.schemePart = [] := by rw [Endpoint.schemePart, hscheme]
      rw [hpart, List.nil_append] at htext
      have hslash := Delimiters.slash_notMem_head? hpassword host tail
      have hassoc : e.user ++ delimiters.colon :: (password ++ delimiters.commat :: host) ++ tail =
          e.user ++ delimiters.colon :: (password ++ delimiters.commat :: host ++ tail) := by simp
      have hhand : maskEndpointUrl env e.text = maskByHand e.text := by
        rw [htext, hassoc] at hplain ⊢
        rw [maskEndpointUrl, urlsplit_filter_of_noScheme huser hslash hplain]
      have hshown : delimiters.shownPassword e.text = password :=
        htext ▸ Delimiters.shownPassword_of_authority huser hpassword hhost htail
      rw [hhand, hshown]
      by_cases hmark : ofString "://" <:+: e.text
      · have hnot : ¬ Found e.text := by
          rintro (hscheme | hnone)
          · rw [htext, hassoc] at hscheme
            exact Delimiters.not_hasScheme huser hslash hscheme
          · exact hnone hmark
        rw [shownPassword_maskByHand_of_mark huser hpassword hhost htail htext hmark]
        exact (or_iff_right hnot).symm
      · refine iff_of_true ?_ (.inl (.inr hmark))
        have hauthority :=
          Delimiters.ends_of_mem_authority huser hpassword fun c hc => (hhost c hc).1
        have hhand := maskByHand_append [] (.inl ⟨rfl, htext ▸ hmark⟩) hauthority htail
        rw [List.nil_append, List.nil_append] at hhand
        rw [htext, hhand, maskNetlocPassword_append (Delimiters.colon_notMem huser) hne
          fun c hc => (hhost c hc).2]
        exact Delimiters.shownPassword_of_authority huser (by decide) hhost htail

end Telemetry.Config.PythonMasking
