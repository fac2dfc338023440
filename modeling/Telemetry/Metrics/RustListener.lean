import Telemetry.Lib.Authority
import Telemetry.Lib.Utf8
import Telemetry.Propagation.Baggage
import Mathlib.Data.Bool.AllAny

/-!
# The Prometheus listener of the Rust SDK

`listener.rs`: the head of a request is parsed, and the path of its target is compared with the one
that is served. The scheme of a target is looked for in the whole target, and the path behind an
authority in all that comes behind it.

## Main definitions

* `parseRequest`, `requestPath`, `respond` — the functions of the source.
* `metricsHandler` — the handler of the metrics.
* `pathOf` — the path of a target in origin form: what comes before the query.
* `Target` — a target in origin form or in absolute form.
* `Right` — the path of the target is found, and the metrics are served exactly under it.
* `Plain` — no part of the target is taken for another one.

## Main results

* `pathOf_longest` — `pathOf` is the longest beginning without `?` and `#`.
* `exists_target_of_parseRequest` — the path of a request is that of its target.
* `right_iff_plain` — **the targets whose path is found**.
-/

namespace Telemetry.Metrics.RustListener

open Lib

/-! ## Responses -/

/-- A response. -/
structure Response where
  status : ℕ
  headers : List (String × List Char)
  body : List UInt8
  deriving DecidableEq

/-- `PLAIN_TEXT`. -/
def plainText : List Char := "text/plain; charset=utf-8".toList

/-- A response that is a line of text. -/
def Response.text (status : ℕ) (headers : List (String × List Char)) (line : List Char) :
    Response :=
  ⟨status, headers ++ [("content-type", plainText)], Utf8.encode (line ++ ['\n'])⟩

/-- What `render_prometheus` returns for an `Accept` header: a message, or a body and its type. -/
abbrev Render := Option (List Char) → Except (List Char) (List UInt8 × List Char)

/-- `metrics_handler`. -/
def metricsHandler (render : Render) (method : List Char) (accept : Option (List Char)) :
    Response :=
  if method ≠ "GET".toList ∧ method ≠ "HEAD".toList then
    .text 405 [("allow", "GET, HEAD".toList)] "method not allowed".toList
  else
    match render accept with
    | .error message => .text 503 [] message
    | .ok (body, contentType) =>
        ⟨200, [("content-type", contentType)], if method = "GET".toList then body else []⟩

/-! ## Requests -/

/-- The parts of a request that the listener looks at. -/
structure Request where
  method : List Char
  path : List Char
  authorization : Option (List Char)
  accept : Option (List Char)

/-- What comes before and behind the first mark. -/
def splitOnce (mark s : List Char) : Option (List Char × List Char) :=
  (find? mark s).map fun i => (s.take i, s.drop (i + mark.length))

/-- The end of a path. -/
def stops (c : Char) : Bool := c = '?' || c = '#'

/-- `request_path`. -/
def requestPath (target : List Char) : List Char :=
  let withoutScheme := match splitOnce "://".toList target with
    | some (_, rest) => rest.dropWhile fun c => c ≠ '/'
    | none => target
  withoutScheme.takeWhile fun c => !stops c

/-- `text.split("\r\n")`. -/
def lines : List Char → List (List Char)
  | [] => [[]]
  | '\r' :: '\n' :: s => [] :: lines s
  | c :: s =>
      match lines s with
      | [] => [[c]]
      | line :: rest => (c :: line) :: rest

/-- `eq_ignore_ascii_case`. -/
def eqIgnoreAsciiCase (s t : List Char) : Bool := s.map Char.toLower = t.map Char.toLower

/-- The body of the loop over the header lines. The first value of a header counts. -/
def readHeader (request : Request) (line : List Char) : Request :=
  match splitOnce [':'] line with
  | none => request
  | some (name, value) =>
      let trimmed := strip Propagation.isWhiteSpace value
      if eqIgnoreAsciiCase name "authorization".toList then
        { request with authorization := some (request.authorization.getD trimmed) }
      else if eqIgnoreAsciiCase name "accept".toList then
        { request with accept := some (request.accept.getD trimmed) }
      else request

/-- `parse_request`. -/
def parseRequest (head : List UInt8) : Option Request :=
  match lines (Utf8.decodeLossy head) with
  | [] => none
  | first :: rest =>
      match first.splitOn ' ' with
      | [method, target, version] =>
          if method = [] ∨ ¬ "HTTP/".toList <+: version then none
          else some (rest.foldl readHeader ⟨method, requestPath target, none, none⟩)
      | _ => none

/-- `respond`. The security is whether it lets an `Authorization` header pass. -/
def respond (render : Render) (request : Request) (path : List Char)
    (authorized : Option (List Char) → Bool) : Response :=
  if request.path ≠ path then .text 404 [] "not found".toList
  else if authorized request.authorization = false then
    .text 401 [("www-authenticate", "Basic".toList)] "unauthorized".toList
  else metricsHandler render request.method request.accept

/-- The response to the head of a request. -/
def respondTo (render : Render) (head : List UInt8) (path : List Char)
    (authorized : Option (List Char) → Bool) : Response :=
  match parseRequest head with
  | some request => respond render request path authorized
  | none => .text 400 [] "bad request".toList

/-! ## Paths and targets -/

/-- **The path of a target in origin form**: what comes before the query and the fragment. -/
def pathOf (t : List Char) : List Char := t.takeWhile fun c => !stops c

/-- A character of a scheme or an authority. -/
def isPart (c : Char) : Bool := !stops c && c ≠ '/'

/-- A target: in origin form, or in absolute form with what comes behind the authority. -/
inductive Target
  | origin (t : List Char) (h : t.head? = some '/')
  | absolute (scheme authority rest : List Char) (hscheme : ∀ c ∈ scheme, isPart c = true)
      (hauthority : ∀ c ∈ authority, isPart c = true) (hrest : ∀ c ∈ rest.head?, isPart c = false)

namespace Target

/-- The text of a target. -/
def text : Target → List Char
  | .origin t _ => t
  | .absolute scheme authority rest _ _ _ => scheme ++ ("://".toList ++ (authority ++ rest))

/-- What comes behind the authority, if there is one. -/
def rest : Target → List Char
  | .origin t _ => t
  | .absolute _ _ rest _ _ _ => rest

/-- The path of a target. -/
def path (target : Target) : List Char := pathOf target.rest

end Target

/-- The metrics are served to whoever asks for the target and is authorized, where the path is the
one that is served. -/
def Serves (target path : List Char) : Prop :=
  ∀ (render : Render) (authorized : Option (List Char) → Bool) (request : Request),
    request.path = requestPath target → authorized request.authorization = true →
      respond render request path authorized =
        metricsHandler render request.method request.accept

/-- **The path of the target is found**, and the metrics are served exactly under it. In absolute
form the path is that of what comes behind the authority. -/
structure Right (target : Target) : Prop where
  path_eq : requestPath target.text = match target with
    | .origin t _ => pathOf t
    | .absolute _ _ rest _ _ _ => requestPath rest
  serves_iff : ∀ path, Serves target.text path ↔ target.path = path

/-- Behind the first `://` and a host the text goes on with the path, and then ends or has a query
or a fragment. -/
def Repeats (path t : List Char) : Prop :=
  ∃ before host tail, t = before ++ ("://".toList ++ (host ++ (path ++ tail))) ∧
    find? "://".toList t = some before.length ∧ '/' ∉ host ∧ ∀ c ∈ tail.head?, stops c = true

/-- **No part of the text is taken for another one.** What starts with a slash has no `://`, or it
is in a query or a fragment and has the same path behind it. What does not has no slash. -/
def Plain (t : List Char) : Prop :=
  if t.head? = some '/' then ¬ "://".toList <:+: t ∨ Repeats (pathOf t) t else '/' ∉ t

/-! ## The path of a text -/

section Paths

variable {t scheme authority : List Char}

/-- **The path is the longest beginning without `?` and `#`.** -/
theorem pathOf_longest (t : List Char) :
    pathOf t <+: t ∧ (∀ c ∈ pathOf t, stops c = false) ∧
      ∀ s, s <+: t → (∀ c ∈ s, stops c = false) → s <+: pathOf t := by
  refine ⟨List.takeWhile_prefix _, fun c hc => ?_, fun s hs hfree => ?_⟩
  · simpa using List.mem_takeWhile_imp hc
  · obtain ⟨tail, rfl⟩ := hs
    rw [pathOf, List.takeWhile_append_of_pos (by simpa using hfree)]
    exact List.prefix_append _ _

theorem pathOf_append {path tail : List Char} (hpath : ∀ c ∈ path, stops c = false)
    (htail : ∀ c ∈ tail.head?, stops c = true) : pathOf (path ++ tail) = path := by
  rw [pathOf, List.takeWhile_append_of_pos (by simpa using hpath)]
  cases tail with
  | nil => simp
  | cons c tail => simp [htail c rfl]

theorem requestPath_of_noMark (h : ¬ "://".toList <:+: t) : requestPath t = pathOf t := by
  have hnone : find? "://".toList t = none := by
    rw [Option.eq_none_iff_forall_ne_some]
    exact fun i hi => h (isInfix_iff_find?.mpr ⟨i, hi⟩)
  rw [requestPath, splitOnce, hnone]
  rfl

theorem requestPath_of_find? {i : ℕ} (h : find? "://".toList t = some i) :
    requestPath t = pathOf ((t.drop (i + 3)).dropWhile fun c => c ≠ '/') := by
  rw [requestPath, splitOnce, h]
  rfl

/-- In absolute form the path is looked for in all that comes behind the authority. -/
theorem requestPath_absolute (hscheme : ∀ c ∈ scheme, isPart c = true)
    (hauthority : ∀ c ∈ authority, isPart c = true) (rest : List Char) :
    requestPath (scheme ++ ("://".toList ++ (authority ++ rest))) =
      pathOf (rest.dropWhile fun c => c ≠ '/') := by
  have hslash : ∀ {s : List Char}, (∀ c ∈ s, isPart c = true) → ∀ c ∈ s, c ≠ '/' := by
    intro s hs c hc heq
    have hpart := hs c hc
    rw [heq] at hpart
    exact absurd hpart (by decide)
  have hfound : find? "://".toList (scheme ++ ("://".toList ++ (authority ++ rest))) =
      some scheme.length :=
    find?_append (fun hmem => hslash hscheme _ hmem rfl) (by decide)
  have hdrop : (scheme ++ ("://".toList ++ (authority ++ rest))).drop (scheme.length + 3) =
      authority ++ rest := by
    rw [← List.drop_drop, List.drop_left]
    rfl
  rw [requestPath_of_find? hfound, hdrop,
    List.dropWhile_append_of_pos (by simpa using hslash hauthority)]

/-- The path of what starts with a slash. -/
theorem slash_mem_pathOf (h : t.head? = some '/') : ∃ path, pathOf t = '/' :: path := by
  cases t with
  | nil => exact absurd h (by simp)
  | cons c t =>
      obtain rfl := Option.some.inj h
      exact ⟨_, rfl⟩

/-- What starts with neither a slash nor another character of a path has no path. -/
theorem pathOf_eq_nil (h : ∀ c ∈ t.head?, isPart c = false) (hslash : t.head? ≠ some '/') :
    pathOf t = [] := by
  cases t with
  | nil => rfl
  | cons c t =>
      have hpart := h c rfl
      have hne : c ≠ '/' := fun heq => hslash (congrArg some heq)
      have hstops : stops c = true := by simpa [isPart, hne] using hpart
      simp [pathOf, hstops]

/-- **What starts with a slash and has a `://`**: its path is found where it is repeated. -/
theorem requestPath_eq_iff_repeats (hstart : t.head? = some '/') (hmark : "://".toList <:+: t) :
    requestPath t = pathOf t ↔ Repeats (pathOf t) t := by
  obtain ⟨i, hi⟩ := isInfix_iff_find?.mp hmark
  obtain ⟨path, hpath⟩ := slash_mem_pathOf hstart
  rw [requestPath_of_find? hi]
  constructor
  · intro heq
    obtain ⟨rest, hrest⟩ := isPrefix_of_find? hi
    have hdrop : t.drop (i + 3) = rest := by
      rw [← List.drop_drop, ← hrest]
      rfl
    have hle : i ≤ t.length := by
      by_contra hlt
      rw [List.drop_eq_nil_of_le (by omega)] at hrest
      exact absurd hrest (by simp)
    rw [hdrop] at heq
    refine ⟨t.take i, rest.takeWhile fun c => c ≠ '/',
      (rest.dropWhile fun c => c ≠ '/').dropWhile fun c => !stops c, ?_, ?_, ?_, ?_⟩
    · rw [← heq, pathOf, List.takeWhile_append_dropWhile, List.takeWhile_append_dropWhile, hrest,
        List.take_append_drop]
    · rw [hi, List.length_take, Nat.min_eq_left hle]
    · intro hmem
      simpa using List.mem_takeWhile_imp hmem
    · intro c hc
      have hnot := List.head?_dropWhile_not (fun c => !stops c) (rest.dropWhile fun c => c ≠ '/')
      rw [Option.mem_def.mp hc] at hnot
      simpa using hnot
  · rintro ⟨before, host, tail, ht, hfirst, hhost, htail⟩
    obtain rfl := Option.some.inj (hi.symm.trans hfirst)
    have hdrop : t.drop (before.length + 3) = host ++ (pathOf t ++ tail) := by
      rw [← List.drop_drop]
      conv_lhs => rw [ht, List.drop_left]
      rfl
    have hhost' : ∀ c ∈ host, decide (c ≠ '/') = true :=
      fun c hc => decide_eq_true fun heq => hhost (heq ▸ hc)
    have hstop : (pathOf t ++ tail).dropWhile (fun c => c ≠ '/') = pathOf t ++ tail := by
      rw [hpath]
      rfl
    rw [hdrop, List.dropWhile_append_of_pos hhost', hstop]
    exact pathOf_append (pathOf_longest t).2.1 htail

/-- The path of what starts with a slash is found where it has no `://`, or repeats its path. -/
theorem requestPath_eq_iff (hstart : t.head? = some '/') :
    requestPath t = pathOf t ↔ ¬ "://".toList <:+: t ∨ Repeats (pathOf t) t := by
  by_cases hmark : "://".toList <:+: t
  · rw [requestPath_eq_iff_repeats hstart hmark, or_iff_right (not_not.mpr hmark)]
  · exact iff_of_true (requestPath_of_noMark hmark) (.inl hmark)

/-- What is found behind the first slash is empty only where there is no slash. -/
theorem pathOf_dropWhile_eq_nil_iff :
    pathOf (t.dropWhile fun c => c ≠ '/') = [] ↔ '/' ∉ t := by
  constructor
  · intro hnil hmem
    cases hdrop : t.dropWhile fun c => c ≠ '/' with
    | nil =>
        rw [List.dropWhile_eq_nil_iff] at hdrop
        simpa using hdrop '/' hmem
    | cons c rest =>
        have hnot := List.head?_dropWhile_not (fun c => decide (c ≠ '/')) t
        rw [hdrop, List.head?_cons] at hnot
        obtain rfl : c = '/' := by simpa using hnot
        rw [hdrop] at hnil
        exact absurd hnil (by simp [pathOf, stops])
  · intro hslash
    have hdrop : t.dropWhile (fun c => c ≠ '/') = [] := by
      rw [List.dropWhile_eq_nil_iff]
      exact fun c hc => decide_eq_true fun heq => hslash (heq ▸ hc)
    rw [hdrop]
    rfl

end Paths

/-! ## Requests -/

/-- **The path of a request is that of its target**, the second of three words of the first line. -/
theorem exists_target_of_parseRequest {head : List UInt8} {request : Request}
    (h : parseRequest head = some request) :
    ∃ target version, request.path = requestPath target ∧
      ((lines (Utf8.decodeLossy head)).head?.map fun line => line.splitOn ' ') =
        some [request.method, target, version] := by
  have hkeeps : ∀ (rest : List (List Char)) (request : Request),
      (rest.foldl readHeader request).method = request.method ∧
        (rest.foldl readHeader request).path = request.path := by
    intro rest
    induction rest with
    | nil => exact fun _ => ⟨rfl, rfl⟩
    | cons line rest ih =>
        intro request
        have hstep : (readHeader request line).method = request.method ∧
            (readHeader request line).path = request.path := by
          rw [readHeader]
          split
          · exact ⟨rfl, rfl⟩
          · dsimp only
            split_ifs <;> exact ⟨rfl, rfl⟩
        exact ⟨(ih _).1.trans hstep.1, (ih _).2.trans hstep.2⟩
  rw [parseRequest] at h
  split at h
  · exact absurd h (by simp)
  · next first rest hlines =>
      split at h
      · next method target version hwords =>
          split at h
          · exact absurd h (by simp)
          · obtain rfl := Option.some.inj h
            refine ⟨target, version, (hkeeps _ _).2, ?_⟩
            rw [hlines, List.head?_cons, Option.map_some, hwords, (hkeeps _ _).1]
      · exact absurd h (by simp)

/-- The handler never says that there is nothing. -/
theorem status_metricsHandler (render : Render) (method : List Char)
    (accept : Option (List Char)) : (metricsHandler render method accept).status ≠ 404 := by
  rw [metricsHandler]
  split
  · exact (by decide : (405 : ℕ) ≠ 404)
  · cases render accept with
    | error message => exact (by decide : (503 : ℕ) ≠ 404)
    | ok result => exact (by decide : (200 : ℕ) ≠ 404)

theorem serves_iff {target path : List Char} : Serves target path ↔ requestPath target = path := by
  constructor
  · intro h
    by_contra hne
    have hserved := h (fun _ => .ok ([], [])) (fun _ => true)
      ⟨"GET".toList, requestPath target, none, none⟩ rfl rfl
    rw [respond, if_pos hne] at hserved
    exact status_metricsHandler _ _ _ (congrArg Response.status hserved).symm
  · intro heq render authorized request hpath hauthorized
    rw [respond, if_neg (not_not.mpr (hpath.trans heq)), if_neg (by simp [hauthorized])]

/-! ## Targets -/

theorem right_iff {target : Target} : Right target ↔
    requestPath target.text = target.path ∧ requestPath target.text = match target with
      | .origin t _ => pathOf t
      | .absolute _ _ rest _ _ _ => requestPath rest := by
  constructor
  · intro h
    exact ⟨serves_iff.mp ((h.serves_iff _).mpr rfl), h.path_eq⟩
  · rintro ⟨hpath, heq⟩
    exact ⟨heq, fun path => by rw [serves_iff, hpath]⟩

theorem plain_of_slash {t : List Char} (h : t.head? = some '/') :
    Plain t ↔ requestPath t = pathOf t := by
  rw [Plain, if_pos h, requestPath_eq_iff h]

/-- **The targets whose path is found.** -/
theorem right_iff_plain (target : Target) : Right target ↔ Plain target.rest := by
  rw [right_iff]
  cases target with
  | origin t h =>
      change requestPath t = pathOf t ∧ requestPath t = pathOf t ↔ Plain t
      rw [plain_of_slash h, and_self]
  | absolute scheme authority rest hscheme hauthority hrest =>
      have hfound := requestPath_absolute hscheme hauthority rest
      change requestPath (scheme ++ ("://".toList ++ (authority ++ rest))) = pathOf rest ∧
        requestPath (scheme ++ ("://".toList ++ (authority ++ rest))) = requestPath rest ↔
          Plain rest
      rw [hfound]
      by_cases hstart : rest.head? = some '/'
      · have hstay : (rest.dropWhile fun c => c ≠ '/') = rest := by
          cases rest with
          | nil => rfl
          | cons c rest =>
              obtain rfl := Option.some.inj hstart
              rfl
        rw [hstay, plain_of_slash hstart]
        exact ⟨fun h => h.2.symm, fun h => ⟨rfl, h.symm⟩⟩
      · rw [Plain, if_neg hstart, pathOf_eq_nil hrest hstart, pathOf_dropWhile_eq_nil_iff]
        refine ⟨fun h => h.1, fun hslash => ⟨hslash, ?_⟩⟩
        have hmark : ¬ "://".toList <:+: rest := fun h => hslash (h.subset (by decide))
        rw [pathOf_dropWhile_eq_nil_iff.mpr hslash, requestPath_of_noMark hmark,
          pathOf_eq_nil hrest hstart]

section Examples

/-- A target with a `://` in its query. -/
def nextTarget : Target := .origin "/metrics?next=http://host/x".toList rfl

/-- A target without a path, with a slash in its query. -/
def queryTarget : Target :=
  .absolute "http".toList "host".toList "?x=/metrics".toList
    (List.all_iff_forall_prop.mp (by decide)) (List.all_iff_forall_prop.mp (by decide))
    fun _ hc => Option.some.inj hc ▸ by decide

/-- **The path is looked for in the query**: the metrics are not served under the one target, and
are served under the other. -/
theorem next_not_served :
    (¬ Right nextTarget ∧ requestPath nextTarget.text = "/x".toList ∧
      respondTo (fun _ => .ok ([], plainText))
        (Utf8.encode "GET /metrics?next=http://host/x HTTP/1.1\r\n\r\n".toList)
        "/metrics".toList (fun _ => true) = .text 404 [] "not found".toList) ∧
    ¬ Right queryTarget ∧ requestPath queryTarget.text = "/metrics".toList := by
  refine ⟨⟨fun h => absurd h.path_eq (by decide), by decide, by decide⟩,
    fun h => absurd h.path_eq (by decide), by decide⟩

end Examples

end Telemetry.Metrics.RustListener
