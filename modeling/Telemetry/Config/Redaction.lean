import Telemetry.Config.PythonMasking
import Telemetry.Hardening.TypeScript
import Mathlib.Data.Bool.AllAny

/-!
# What redacted configs show of an endpoint

The redacted configs of Rust and TypeScript, beside that of Python. Rust masks headers only.
TypeScript masks the password that `new URL` finds, and keeps an endpoint in which it finds none.

## Main definitions

* `Rust.redactConfig` — `redact_config` of `redact.rs`.
* `TypeScript.URL` — what `new URL` returns.
* `TypeScript.redactConfig` — `redactConfig` of `config-redact.ts`.
* `Masked` — every endpoint shows the mask.

## Main results

* `TypeScript.shownPassword_href` — a URL shows its password.
* `masked_iff` — **the configs whose endpoints are masked**.
-/

namespace Telemetry.Config.Redaction

open Lib

/-- Every endpoint shows the mask in the place of its password. -/
def Masked {γ : Type} [DecidableEq γ] (D : Delimiters γ) (mask : List γ)
    (endpoints : List (List γ)) : Prop :=
  ∀ t ∈ endpoints, D.shownPassword t = mask

instance {γ : Type} [DecidableEq γ] (D : Delimiters γ) (mask : List γ)
    (endpoints : List (List γ)) : Decidable (Masked D mask endpoints) :=
  inferInstanceAs (Decidable (∀ t ∈ endpoints, _))

/-! ## Rust -/

namespace Rust

/-- The characters at which a URL is taken apart. -/
def delimiters : Delimiters Char where
  colon := ':'
  slash := '/'
  question := '?'
  hash := '#'
  commat := '@'
  nodup := by decide

/-- White space, or a control character. -/
def isBlank (c : Char) : Bool := PythonMasking.isBlank (.scalar c)

/-- What the configs of the signals have of OTLP. -/
structure SignalConfig where
  otlpHeaders : Dict (List Char) (List Char)
  otlpEndpoint : Option (List Char)

/-- A config. -/
structure TelemetryConfig (α : Type) where
  logging : SignalConfig
  tracing : SignalConfig
  metrics : SignalConfig
  others : α

/-- `mask`. -/
def mask (headers : Dict (List Char) (List Char)) : Dict (List Char) (List Char) :=
  headers.mapValues fun _ => "***REDACTED***".toList

/-- What is done to the headers of a signal. -/
def redactSignal (signal : SignalConfig) : SignalConfig :=
  if signal.otlpHeaders.entries ≠ [] then
    { signal with otlpHeaders := mask signal.otlpHeaders }
  else signal

variable {α : Type}

/-- `redact_config`. -/
def redactConfig (cfg : TelemetryConfig α) : TelemetryConfig α where
  logging := redactSignal cfg.logging
  tracing := redactSignal cfg.tracing
  metrics := redactSignal cfg.metrics
  others := cfg.others

/-- The endpoints of a config. -/
def endpoints (cfg : TelemetryConfig α) : List (List Char) :=
  [cfg.logging, cfg.tracing, cfg.metrics].filterMap SignalConfig.otlpEndpoint

/-- No endpoint is masked. -/
theorem endpoints_redactConfig (cfg : TelemetryConfig α) :
    endpoints (redactConfig cfg) = endpoints cfg := by
  have hsignal (signal : SignalConfig) :
      (redactSignal signal).otlpEndpoint = signal.otlpEndpoint := by
    rw [redactSignal]
    split <;> rfl
  simp only [endpoints, redactConfig, List.filterMap_cons, hsignal]

end Rust

/-! ## TypeScript -/

namespace TypeScript

open Hardening.TypeScript (JsString js)

/-- The code units at which a URL is taken apart. -/
def delimiters : Delimiters UInt16 where
  colon := 0x3a
  slash := 0x2f
  question := 0x3f
  hash := 0x23
  commat := 0x40
  nodup := by decide

/-- White space, or a control character. No surrogate is one. -/
def isBlank (u : UInt16) : Bool :=
  !(0xd800 ≤ u && u ≤ 0xdfff) && PythonMasking.isBlank (.scalar (Char.ofNat u.toNat))

/-- A URL, as its parser leaves it. The parser escapes the delimiters in a user, a host has none,
and only a URL with a host has a password. The scheme is without its colon, and the host has the
port. -/
structure URL where
  scheme : JsString
  username : JsString
  password : JsString
  host : Option JsString
  pathname : JsString
  query : Option JsString
  fragment : Option JsString
  scheme_plain : ∀ c ∈ scheme, c ∉ delimiters.all
  username_plain : ∀ c ∈ username, c ∉ delimiters.all
  host_plain : ∀ h ∈ host, ∀ c ∈ h, delimiters.ends c = false ∧ c ≠ delimiters.commat
  credentials : password ≠ [] → host.getD [] ≠ [] ∧ scheme ≠ js "file"
  pathname_head : host.isSome = true → ∀ c ∈ pathname.head?, c = delimiters.slash

namespace URL

/-- The setter of `password`, for a value in which nothing is escaped. -/
def setPassword (u : URL) (value : JsString) : URL :=
  if h : u.host.getD [] ≠ [] ∧ u.scheme ≠ js "file" then
    { u with password := value, credentials := fun _ => h }
  else u

/-- The user and the password, if there are any. -/
def credentialsText (u : URL) : JsString :=
  if u.username ≠ [] ∨ u.password ≠ [] then
    u.username ++ (if u.password ≠ [] then delimiters.colon :: u.password else []) ++
      [delimiters.commat]
  else []

/-- `toString`. -/
def href (u : URL) : JsString :=
  u.scheme ++ delimiters.colon ::
    ((match u.host with
      | some host => js "//" ++ u.credentialsText ++ host
      | none => if u.pathname.take 2 = js "//" then js "/." else []) ++
      (u.pathname ++ ((u.query.elim [] fun query => delimiters.question :: query) ++
        u.fragment.elim [] fun fragment => delimiters.hash :: fragment)))

end URL

/-- The mask of a password. -/
def mask : JsString := js "****"

/-- `maskHeaderValue`. -/
def maskHeaderValue (v : JsString) : JsString := if v.length < 8 then mask else v.take 4 ++ mask

/-- `maskHeaders`. -/
def maskHeaders (headers : Dict JsString JsString) : Dict JsString JsString :=
  headers.mapValues maskHeaderValue

-- what `new URL` returns of a text, or nothing if it throws
variable (newURL : JsString → Option URL)

/-- `maskEndpointUrl`. -/
def maskEndpointUrl (raw : JsString) : JsString :=
  match newURL raw with
  | some u => if u.password ≠ [] then (u.setPassword mask).href else raw
  | none => raw

/-- The signals of `_HEADER_FIELDS` and `_ENDPOINT_FIELDS`. -/
inductive Signal
  | logs
  | traces
  | metrics

/-- A config. -/
structure TelemetryConfig (α : Type) where
  otlpHeaders : Option (Dict JsString JsString)
  signalHeaders : Signal → Option (Dict JsString JsString)
  otlpEndpoint : Option JsString
  signalEndpoint : Signal → Option JsString
  others : α

/-- An endpoint is masked if it is there and not empty. -/
def redactEndpoint (endpoint : Option JsString) : Option JsString :=
  endpoint.map fun raw => if raw ≠ [] then maskEndpointUrl newURL raw else raw

variable {α : Type}

/-- `redactConfig`. -/
def redactConfig (config : TelemetryConfig α) : TelemetryConfig α where
  otlpHeaders := config.otlpHeaders.map maskHeaders
  signalHeaders := fun signal => (config.signalHeaders signal).map maskHeaders
  otlpEndpoint := redactEndpoint newURL config.otlpEndpoint
  signalEndpoint := fun signal => redactEndpoint newURL (config.signalEndpoint signal)
  others := config.others

/-- The fields of a config that may have an endpoint. -/
def endpointFields (config : TelemetryConfig α) : List (Option JsString) :=
  config.otlpEndpoint :: [Signal.logs, .traces, .metrics].map config.signalEndpoint

/-- The endpoints of a config. -/
def endpoints (config : TelemetryConfig α) : List JsString := (endpointFields config).filterMap id

/-- `new URL` finds a password. -/
def HasPassword (raw : JsString) : Prop := ∃ u, newURL raw = some u ∧ u.password ≠ []

variable {newURL} {raw : JsString}

/-- **A URL shows its password.** -/
theorem shownPassword_href {u : URL} (hne : u.password ≠ [])
    (hpassword : ∀ c ∈ u.password, delimiters.ends c = false) :
    delimiters.shownPassword u.href = u.password := by
  have hhost : ∃ host, u.host = some host := by
    cases h : u.host with
    | none => exact absurd (by simp [h]) (u.credentials hne).1
    | some host => exact ⟨host, rfl⟩
  obtain ⟨host, hhost⟩ := hhost
  have hquery : ∀ q : JsString, (∀ c ∈ q.head?, delimiters.ends c = true) →
      ∀ c ∈ ((u.query.elim [] fun query => delimiters.question :: query) ++ q).head?,
        delimiters.ends c = true := by
    intro q hq c hc
    cases h : u.query with
    | none => exact hq c (by simpa [h] using hc)
    | some query =>
        rw [h] at hc
        exact Option.some.inj hc ▸ by decide
  have hfragment : ∀ c ∈ (u.fragment.elim [] fun fragment => delimiters.hash :: fragment).head?,
      delimiters.ends c = true := by
    intro c hc
    cases h : u.fragment with
    | none => exact absurd hc (by simp [h])
    | some fragment =>
        rw [h] at hc
        exact Option.some.inj hc ▸ by decide
  obtain ⟨tail, htail⟩ : ∃ tail, tail = u.pathname ++
      ((u.query.elim [] fun query => delimiters.question :: query) ++
        u.fragment.elim [] fun fragment => delimiters.hash :: fragment) := ⟨_, rfl⟩
  have hends : ∀ c ∈ tail.head?, delimiters.ends c = true := by
    intro c hc
    rw [htail] at hc
    cases h : u.pathname with
    | nil => exact hquery _ hfragment c (by simpa [h] using hc)
    | cons d pathname =>
        rw [h] at hc
        rw [← Option.some.inj hc, u.pathname_head (by rw [hhost]; rfl) d (by rw [h]; rfl)]
        exact delimiters.ends_slash
  have hmark : delimiters.schemeMark = delimiters.colon :: js "//" := by decide
  have hhref : u.href = (u.scheme ++ delimiters.schemeMark) ++ ((u.username ++ delimiters.colon ::
      (u.password ++ delimiters.commat :: host)) ++ tail) := by
    rw [URL.href, hhost, ← htail, URL.credentialsText, if_pos (.inr hne), if_pos hne, hmark]
    simp
  rw [hhref]
  exact Delimiters.shownPassword_of_parts (.inr ⟨u.scheme, u.scheme_plain, rfl⟩) u.username_plain
    hpassword (u.host_plain host hhost) hends

theorem password_setPassword {u : URL} (hne : u.password ≠ []) (value : JsString) :
    (u.setPassword value).password = value := by
  rw [URL.setPassword, dif_pos (u.credentials hne)]

theorem shownPassword_maskEndpointUrl_iff :
    delimiters.shownPassword (maskEndpointUrl newURL raw) = mask ↔
      HasPassword newURL raw ∨ delimiters.shownPassword raw = mask := by
  rw [maskEndpointUrl, HasPassword]
  cases h : newURL raw with
  | none => simp
  | some u =>
      by_cases hne : u.password = []
      · simp [hne]
      · have hpassword := password_setPassword hne mask
        have hshown := shownPassword_href (u := u.setPassword mask) (by rw [hpassword]; decide)
          (by rw [hpassword]; exact List.all_iff_forall_prop.mp (by decide))
        rw [hpassword] at hshown
        simp only [ne_eq, hne, not_false_eq_true, if_true]
        exact iff_of_true hshown (.inl ⟨u, rfl, hne⟩)

/-- The endpoints of a redacted config are those of the config, masked. -/
theorem endpoints_redactConfig {config : TelemetryConfig α}
    (h : ∀ t ∈ endpoints config, t ≠ []) :
    endpoints (redactConfig newURL config) = (endpoints config).map (maskEndpointUrl newURL) := by
  have hfields : endpointFields (redactConfig newURL config) =
      (endpointFields config).map (redactEndpoint newURL) := rfl
  rw [endpoints, endpoints, hfields, List.filterMap_map, List.map_filterMap]
  refine List.filterMap_congr fun endpoint hmem => ?_
  cases endpoint with
  | none => rfl
  | some raw =>
      have hne : raw ≠ [] := h raw (List.mem_filterMap.mpr ⟨some raw, hmem, rfl⟩)
      simp [redactEndpoint, hne]

end TypeScript

/-! ## The three together -/

theorem ne_nil_of_ofForm {γ : Type} [DecidableEq γ] {D : Delimiters γ} {blank : γ → Bool}
    {t : List γ} (h : D.OfForm blank t) : t ≠ [] := by
  obtain ⟨e, rfl⟩ := h
  simp [Endpoint.text]

/-- The endpoints of a redacted config of Python are those of the config, masked. -/
theorem endpoints_python {α σ : Type} (env : PythonMasking.Env) (typeName : σ → String)
    (config : PythonMasking.TelemetryConfig α σ) :
    PythonMasking.endpoints (PythonMasking.redactConfig env typeName config).fields =
      (PythonMasking.endpoints config.fields).map (PythonMasking.maskEndpointUrl env) := by
  rw [PythonMasking.endpoints, PythonMasking.endpoints, PythonMasking.redactConfig, Dict.values,
    Dict.mapValues, List.map_map, Dict.values, List.filterMap_map, List.filterMap_map,
    List.map_filterMap]
  refine List.filterMap_congr fun entry _ => ?_
  cases hfield : entry.2 with
  | other value => simp [hfield, PythonMasking.redactField, PythonMasking.Field.endpoint]
  | dict entries =>
      rcases hendpoint : entries.otlpEndpoint with _ | _ | endpoint <;>
        simp [hfield, hendpoint, PythonMasking.redactField, PythonMasking.Field.endpoint]

/-- **The configs whose endpoints are masked.** Rust masks none of them, whatever the mask. -/
theorem masked_iff {α σ : Type} (env : PythonMasking.Env) (typeName : σ → String)
    (newURL : Hardening.TypeScript.JsString → Option TypeScript.URL) (mask : List Char)
    (python : PythonMasking.TelemetryConfig α σ) (typeScript : TypeScript.TelemetryConfig α)
    (rust : Rust.TelemetryConfig α)
    (hpython : ∀ t ∈ PythonMasking.endpoints python.fields,
      PythonMasking.delimiters.OfForm PythonMasking.isBlank t)
    (htypeScript : ∀ t ∈ TypeScript.endpoints typeScript,
      TypeScript.delimiters.OfForm TypeScript.isBlank t) :
    (Masked PythonMasking.delimiters PythonMasking.mask
        (PythonMasking.endpoints (PythonMasking.redactConfig env typeName python).fields) ↔
      ∀ t ∈ PythonMasking.endpoints python.fields, PythonMasking.Found t ∨
        PythonMasking.delimiters.shownPassword t = PythonMasking.mask) ∧
    (Masked TypeScript.delimiters TypeScript.mask
        (TypeScript.endpoints (TypeScript.redactConfig newURL typeScript)) ↔
      ∀ t ∈ TypeScript.endpoints typeScript, TypeScript.HasPassword newURL t ∨
        TypeScript.delimiters.shownPassword t = TypeScript.mask) ∧
    (Masked Rust.delimiters mask (Rust.endpoints (Rust.redactConfig rust)) ↔
      ∀ t ∈ Rust.endpoints rust, Rust.delimiters.shownPassword t = mask) := by
  refine ⟨?_, ?_, ?_⟩
  · rw [endpoints_python, Masked, List.forall_mem_map]
    exact forall₂_congr fun t ht =>
      PythonMasking.shownPassword_maskEndpointUrl_iff (hpython t ht)
  · rw [TypeScript.endpoints_redactConfig fun t ht => ne_nil_of_ofForm (htypeScript t ht), Masked,
      List.forall_mem_map]
    exact forall₂_congr fun t _ => TypeScript.shownPassword_maskEndpointUrl_iff
  · rw [Rust.endpoints_redactConfig]
    rfl

section Examples

open Lib.CodePoints (ofString)
open Hardening.TypeScript (JsString js)

/-- An `urlsplit` that accepts every authority, as it does for ASCII without brackets. -/
def asciiEnv : PythonMasking.Env := ⟨fun _ => true, fun _ => true⟩

/-- A config of Python with an endpoint. -/
def pythonConfig (endpoint : CodePoints) : PythonMasking.TelemetryConfig Unit Empty :=
  ⟨Dict.empty.set "logging" (.dict ⟨none, some (some endpoint)⟩), none⟩

/-- A config of TypeScript with an endpoint. -/
def typeScriptConfig (endpoint : JsString) : TypeScript.TelemetryConfig Unit :=
  ⟨none, fun _ => none, some endpoint, fun _ => none, ()⟩

/-- A config of Rust with an endpoint. -/
def rustConfig (endpoint : List Char) : Rust.TelemetryConfig Unit :=
  ⟨⟨.empty, some endpoint⟩, ⟨.empty, none⟩, ⟨.empty, none⟩, ()⟩

/-- `http://u:secret@h`, as a URL. -/
def httpUrl : TypeScript.URL where
  scheme := js "http"
  username := js "u"
  password := js "secret"
  host := some (js "h")
  pathname := js "/"
  query := none
  fragment := none
  scheme_plain := List.all_iff_forall_prop.mp (by decide)
  username_plain := List.all_iff_forall_prop.mp (by decide)
  host_plain := fun h hh => Option.some.inj hh ▸ List.all_iff_forall_prop.mp (by decide)
  credentials := by decide
  pathname_head := fun _ c hc => (Option.some.inj hc).symm

/-- `u:secret@h`, as a URL: the user is its scheme. -/
def opaqueUrl : TypeScript.URL where
  scheme := js "u"
  username := []
  password := []
  host := none
  pathname := js "secret@h"
  query := none
  fragment := none
  scheme_plain := List.all_iff_forall_prop.mp (by decide)
  username_plain := List.all_iff_forall_prop.mp (by decide)
  host_plain := by simp
  credentials := by decide
  pathname_head := fun hhost => absurd hhost (by decide)

/-- What `new URL` returns of the two. -/
def newURL (raw : JsString) : Option TypeScript.URL :=
  if raw = js "http://u:secret@h" then some httpUrl
  else if raw = js "u:secret@h" then some opaqueUrl
  else none

/-- Where the password is masked. -/
theorem masked_iff_http :
    Masked PythonMasking.delimiters PythonMasking.mask (PythonMasking.endpoints
      (PythonMasking.redactConfig asciiEnv (fun x : Empty => x.elim)
        (pythonConfig (ofString "u:secret@h"))).fields) ∧
    Masked TypeScript.delimiters TypeScript.mask (TypeScript.endpoints
      (TypeScript.redactConfig newURL (typeScriptConfig (js "http://u:secret@h")))) ∧
    ¬ Masked Rust.delimiters "****".toList (Rust.endpoints
      (Rust.redactConfig (rustConfig "http://u:secret@h".toList))) := by
  have hpython : PythonMasking.delimiters.OfForm PythonMasking.isBlank (ofString "u:secret@h") :=
    ⟨⟨none, ofString "u", ofString "secret", ofString "h", by decide, by decide, by decide,
      by decide, by decide⟩, by decide⟩
  have htypeScript : TypeScript.delimiters.OfForm TypeScript.isBlank (js "http://u:secret@h") :=
    ⟨⟨some (js "http"), js "u", js "secret", js "h",
      fun s hs => Option.some.inj hs ▸ List.all_iff_forall_prop.mp (by decide),
      List.all_iff_forall_prop.mp (by decide), by decide,
      List.all_iff_forall_prop.mp (by decide), List.all_iff_forall_prop.mp (by decide)⟩, by decide⟩
  have hiff := masked_iff asciiEnv (fun x : Empty => x.elim) newURL "****".toList
    (pythonConfig (ofString "u:secret@h")) (typeScriptConfig (js "http://u:secret@h"))
    (rustConfig "http://u:secret@h".toList) (List.forall_mem_singleton.mpr hpython)
    (List.forall_mem_singleton.mpr htypeScript)
  refine ⟨hiff.1.mpr (List.forall_mem_singleton.mpr (.inl (by decide))), hiff.2.1.mpr ?_, ?_⟩
  · exact List.forall_mem_singleton.mpr (.inl ⟨httpUrl, if_pos rfl, by decide⟩)
  · intro hmasked
    have hmask := List.forall_mem_singleton.mp (hiff.2.2.mp hmasked)
    exact absurd hmask (by decide)

/-- **All three show a password.** -/
theorem secret_shown :
    (PythonMasking.delimiters.OfForm PythonMasking.isBlank (ofString "u:secret@h/a?to=http://b") ∧
      (PythonMasking.endpoints (PythonMasking.redactConfig asciiEnv (fun x : Empty => x.elim)
        (pythonConfig (ofString "u:secret@h/a?to=http://b"))).fields).map
          PythonMasking.delimiters.shownPassword = [ofString "secret"]) ∧
    (TypeScript.delimiters.OfForm TypeScript.isBlank (js "u:secret@h") ∧
      (TypeScript.endpoints (TypeScript.redactConfig newURL
        (typeScriptConfig (js "u:secret@h")))).map TypeScript.delimiters.shownPassword =
          [js "secret"]) ∧
    (Rust.delimiters.OfForm Rust.isBlank "http://u:secret@h".toList ∧
      (Rust.endpoints (Rust.redactConfig (rustConfig "http://u:secret@h".toList))).map
        Rust.delimiters.shownPassword = ["secret".toList]) := by
  have hpython : PythonMasking.delimiters.OfForm PythonMasking.isBlank
      (ofString "u:secret@h/a?to=http://b") :=
    ⟨⟨none, ofString "u", ofString "secret", ofString "h/a?to=http://b", by simp, by decide,
      by decide, by decide, by decide⟩, by decide⟩
  have htypeScript : TypeScript.delimiters.OfForm TypeScript.isBlank (js "u:secret@h") :=
    ⟨⟨none, js "u", js "secret", js "h", by simp, List.all_iff_forall_prop.mp (by decide),
      by decide, List.all_iff_forall_prop.mp (by decide),
      List.all_iff_forall_prop.mp (by decide)⟩, by decide⟩
  have hrust : Rust.delimiters.OfForm Rust.isBlank "http://u:secret@h".toList :=
    ⟨⟨some "http".toList, "u".toList, "secret".toList, "h".toList,
      fun s hs => Option.some.inj hs ▸ List.all_iff_forall_prop.mp (by decide),
      List.all_iff_forall_prop.mp (by decide), by decide,
      List.all_iff_forall_prop.mp (by decide), List.all_iff_forall_prop.mp (by decide)⟩, by decide⟩
  exact ⟨⟨hpython, by decide⟩, ⟨htypeScript, by decide⟩, ⟨hrust, by decide⟩⟩

end Examples

end Telemetry.Config.Redaction
