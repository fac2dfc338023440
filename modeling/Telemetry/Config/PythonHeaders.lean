import Telemetry.Lib.Dict
import Telemetry.Lib.Percent
import Telemetry.Propagation.PythonBaggage

/-!
# OTLP headers in the Python SDK

`_parse_otlp_headers` of `config.py`: the members of a list, split at the first equals sign, are
stripped and unquoted. `unquote` leaves an escape alone that it does not understand, and puts
replacement characters for bytes that are not UTF-8.

## Main definitions

* `unquote` — `urllib.parse.unquote`.
* `readHeader` — what one member says.
* `parseOtlpHeaders` — the parser.

## Main results

* `unquote_ofChars` — what is made of a text of ASCII.
-/

namespace Telemetry.Config.Python

open Telemetry.Lib
open Telemetry.Propagation (partition)

/-- The character, if it is one of ASCII. -/
def ascii? (c : CodePoint) : Option Char := c.char?.filter fun d => d.toNat < 128

/-- `unquote_to_bytes(…).decode("utf-8", "replace")` -/
def decodeRun (run : List Char) : CodePoints :=
  CodePoints.ofChars (Utf8.decodeLossy (Percent.unescape run))

/-- The parts that `_asciire` tells apart, the runs of ASCII decoded. -/
def unquoteParts : List Char → CodePoints → CodePoints
  | run, [] => decodeRun run
  | run, c :: s =>
      match ascii? c with
      | some d => unquoteParts (run ++ [d]) s
      | none => decodeRun run ++ c :: unquoteParts [] s

/-- `urllib.parse.unquote`. -/
def unquote (s : CodePoints) : CodePoints := if .scalar '%' ∈ s then unquoteParts [] s else s

/-- What one member says, if it says something. -/
def readHeader (pair : CodePoints) : Option (CodePoints × CodePoints) :=
  if .scalar '=' ∉ pair then none
  else
    let (key, raw) := partition (.scalar '=') pair
    let key := unquote (strip Propagation.Python.isSpace key)
    if key = [] then none
    else some (key, unquote (strip Propagation.Python.isSpace raw))

/-- `_parse_otlp_headers`. -/
def parseOtlpHeaders : Option CodePoints → Dict CodePoints CodePoints
  | none => .empty
  | some value =>
      if value = [] then .empty
      else Dict.empty.update ((value.splitOn (.scalar ',')).filterMap readHeader)

/-! ## Texts of ASCII -/

variable {s : List Char}

theorem ascii?_scalar {c : Char} (h : c.toNat < 128) : ascii? (.scalar c) = some c := by
  simp [ascii?, CodePoint.char?, Option.filter, h]

theorem unquoteParts_ofChars (h : ∀ c ∈ s, c.toNat < 128) (run : List Char) :
    unquoteParts run (CodePoints.ofChars s) = decodeRun (run ++ s) := by
  induction s generalizing run with
  | nil => simp [CodePoints.ofChars, unquoteParts]
  | cons c s ih =>
      rw [List.forall_mem_cons] at h
      have htail := ih h.2 (run ++ [c])
      rw [CodePoints.ofChars] at htail ⊢
      rw [List.map_cons, unquoteParts, ascii?_scalar h.1]
      simp only
      rw [htail, List.append_assoc, List.singleton_append]

/-- **What is made of a text of ASCII.** -/
theorem unquote_ofChars (h : ∀ c ∈ s, c.toNat < 128) :
    unquote (CodePoints.ofChars s) =
      CodePoints.ofChars (Utf8.decodeLossy (Percent.unescape s)) := by
  rw [unquote]
  split
  · rw [unquoteParts_ofChars h, List.nil_append, decodeRun]
  · rename_i hnone
    have hnot : '%' ∉ s := fun hs => hnone (List.mem_map_of_mem hs)
    rw [Percent.unescape_of_notMem hnot, ← Utf8.encode_ascii h, Utf8.decodeLossy_encode]

end Telemetry.Config.Python
