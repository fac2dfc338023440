import Telemetry.Pii.SecretPatterns

/-!
# The secret scans of the Rust and TypeScript engines

Both scan a string for the built-in patterns, widen what they find to whole tokens, merge,
and splice `***` over the merged spans. They differ in what separates tokens, in the unit a
string's length is taken in, and in the order spans are sorted by. Strings are Unicode
scalars here; the code counts positions in bytes or in UTF-16 units, of which every
character of a pattern and every separator is one. No custom pattern is registered.

## Main results

* `Rust.scanned_redactIfSecret`, `TypeScript.scanned_scanIfSecret` — what a scan leaves
  holds no secret.
* `Rust.redactIfSecret_eq_none_iff`, `TypeScript.scanIfSecret_eq_none_iff` — a scan gives
  nothing exactly where the string holds no secret.
-/
namespace Telemetry.Pii

open Telemetry.Spans Telemetry.Regex

/-! ### What the two have in common -/

/-- The built-in matches that do not look like a path to the engine. -/
def secretMatches (pathLike : List Char → Bool) (text : List Char) : List Span :=
  accepted (fun span => !pathLike span) (builtinPatterns Char.toNat) text

/-- The sentinel. -/
def stars : List Char := ['*', '*', '*']

section

variable {space : Char → Bool} {pathLike : List Char → Bool} {text : List Char}

theorem secretMatches_inside :
    ∀ m ∈ secretMatches pathLike text, m.1 < m.2 ∧ m.2 ≤ text.length :=
  accepted_inside

theorem localScan_secretMatches
    (h : ∀ c, space c = true → inRanges Char.toNat alphabet c = false) :
    LocalScan space (secretMatches pathLike) := by
  change LocalScan space (accepted (fun span => !pathLike span) (builtinPatterns Char.toNat))
  exact localScan_accepted (builtinPatterns_local h)

/-- A text shorter than the shortest match holds no secret. -/
theorem secretMatches_of_short (h : text.length < minSecretLength) :
    secretMatches pathLike text = [] := by
  rw [List.eq_nil_iff_forall_not_mem]
  intro m hm
  rcases mem_accepted.mp hm with ⟨p, hp, hrun, -⟩
  have hlen := twenty_le_of_mem_run hp hrun
  have hin := (secretMatches_inside m hm).2
  rw [minSecretLength] at h
  omega

/-- Splicing the sentinel over the merged tokens leaves no secret. -/
theorem secretMatches_splice {r : Span → Span → Prop} [DecidableRel r] [Std.Total r]
    [IsTrans Span r] (hr : ∀ a b, r a b → a.1 ≤ b.1)
    (h : ∀ c, space c = true → inRanges Char.toNat alphabet c = false) :
    secretMatches pathLike (splice stars 0
      (mergeBy r ((secretMatches pathLike text).map (widen space text))) text) = [] := by
  rw [splice_mergeBy_widen space hr secretMatches_inside]
  apply (localScan_secretMatches h).scan_blotScan
  exact secretMatches_of_short (by decide)

end

/-! ### Rust -/

namespace Rust

/-- `char::is_ascii_whitespace`. -/
def isAsciiWhitespace (c : Char) : Bool := [9, 10, 12, 13, 32].contains c.toNat

/-- `char::is_ascii_lowercase`. -/
def isAsciiLowercase (c : Char) : Bool := inRanges Char.toNat [('a', 'z')] c

def looksLikePath (span : List Char) : Bool :=
  pathShaped (fun c => c == '/') (fun segment => segment.all isAsciiLowercase) span

def expandToToken (text : List Char) (m : Span) : Span := widen isAsciiWhitespace text m

def mergeSpans (spans : List Span) : List Span := mergeBy pairLe spans

/-- `str::len`, in bytes. -/
def byteLen (text : List Char) : ℕ := (text.map Char.utf8Size).sum

def secretSpans (text : List Char) : List Span :=
  if byteLen text < minSecretLength then []
  else mergeSpans ((secretMatches looksLikePath text).map (expandToToken text))

/-- `redact_if_secret`. -/
def redactIfSecret (text : String) : Option String :=
  let spans := secretSpans text.toList
  if spans.isEmpty then none else some (String.ofList (splice stars 0 spans text.toList))

theorem length_le_byteLen (text : List Char) : text.length ≤ byteLen text := by
  induction text with
  | nil => exact Nat.zero_le _
  | cons c text ih =>
      have hpos := Char.utf8Size_pos c
      simp only [byteLen, List.map_cons, List.sum_cons, List.length_cons] at ih ⊢
      omega

theorem not_inRanges_of_isAsciiWhitespace (c : Char) (h : isAsciiWhitespace c = true) :
    inRanges Char.toNat alphabet c = false := by
  simp only [isAsciiWhitespace, List.contains_eq_mem, List.mem_cons, List.not_mem_nil, or_false,
    decide_eq_true_eq] at h
  simp only [inRanges, alphabet, List.any_cons, List.any_nil, Bool.or_eq_false_iff,
    Bool.and_eq_false_iff, decide_eq_false_iff_not, Char.reduceToNat, and_true]
  omega

theorem secretSpans_eq_nil {text : List Char} :
    secretSpans text = [] ↔ secretMatches looksLikePath text = [] := by
  rw [secretSpans]
  split
  next hshort =>
    have hlen := length_le_byteLen text
    exact iff_of_true rfl (secretMatches_of_short (by omega))
  next => rw [mergeSpans, mergeBy_eq_nil, List.map_eq_nil_iff]

theorem redactIfSecret_eq_none_iff {text : String} :
    redactIfSecret text = none ↔ secretMatches looksLikePath text.toList = [] := by
  rw [← secretSpans_eq_nil, redactIfSecret]
  simp

theorem scanned_redactIfSecret {text redacted : String} (h : redactIfSecret text = some redacted) :
    redactIfSecret redacted = none := by
  rw [redactIfSecret_eq_none_iff]
  rw [redactIfSecret, secretSpans] at h
  split at h
  next => simp at h
  next =>
    simp only [Option.ite_none_left_eq_some, Option.some.injEq] at h
    rw [← h.2, String.toList_ofList]
    exact secretMatches_splice start_le_of_pairLe not_inRanges_of_isAsciiWhitespace

/-- The sentinel itself holds none. -/
theorem redactIfSecret_stars : redactIfSecret "***" = none := by
  rw [redactIfSecret_eq_none_iff]
  exact secretMatches_of_short (by decide)

end Rust

/-! ### TypeScript -/

namespace TypeScript

/-- What `\s` matches. -/
def whitespace : List (ℕ × ℕ) :=
  [(0x09, 0x0D), (0x20, 0x20), (0xA0, 0xA0), (0x1680, 0x1680), (0x2000, 0x200A),
    (0x2028, 0x2029), (0x202F, 0x202F), (0x205F, 0x205F), (0x3000, 0x3000), (0xFEFF, 0xFEFF)]

def isSpace (c : Char) : Bool :=
  whitespace.any fun r => decide (r.1 ≤ c.toNat) && decide (c.toNat ≤ r.2)

/-- A segment is a word if it matches `/^[a-z]+$/`. -/
def looksLikePath (span : List Char) : Bool :=
  pathShaped (fun c => c == '/')
    (fun segment => !segment.isEmpty && segment.all (inRanges Char.toNat [('a', 'z')])) span

def expandToToken (value : List Char) (m : Span) : Span := widen isSpace value m

/-- Sorted by start only, and left alone if there are fewer than two. -/
def mergeSpans (spans : List Span) : List Span :=
  if spans.length < 2 then spans else mergeBy startLe spans

/-- `value.length`, in UTF-16 units. -/
def unitLen (value : List Char) : ℕ :=
  (value.map fun c => if c.toNat < 0x10000 then 1 else 2).sum

def secretSpans (value : List Char) : List Span :=
  if unitLen value < minSecretLength then []
  else mergeSpans ((secretMatches looksLikePath value).map (expandToToken value))

/-- `_redactIfSecret`. -/
def scanIfSecret (value : String) : Option String :=
  let spans := secretSpans value.toList
  if spans.isEmpty then none else some (String.ofList (splice stars 0 spans value.toList))

theorem mergeSpans_eq (spans : List Span) : mergeSpans spans = mergeBy startLe spans := by
  rw [mergeSpans]
  split
  next hshort =>
    cases spans with
    | nil => rfl
    | cons m ms =>
        have hms : ms = [] := by
          rw [List.length_cons] at hshort
          exact List.length_eq_zero_iff.mp (by omega)
        subst hms
        rfl
  next => rfl

theorem length_le_unitLen (value : List Char) : value.length ≤ unitLen value := by
  induction value with
  | nil => exact Nat.zero_le _
  | cons c value ih =>
      simp only [unitLen, List.map_cons, List.sum_cons, List.length_cons] at ih ⊢
      split <;> omega

theorem not_inRanges_of_isSpace (c : Char) (h : isSpace c = true) :
    inRanges Char.toNat alphabet c = false := by
  simp only [isSpace, whitespace, List.any_cons, List.any_nil, Bool.or_eq_true,
    Bool.and_eq_true, decide_eq_true_eq, Bool.or_false] at h
  simp only [inRanges, alphabet, List.any_cons, List.any_nil, Bool.or_eq_false_iff,
    Bool.and_eq_false_iff, decide_eq_false_iff_not, Char.reduceToNat, and_true]
  omega

theorem secretSpans_eq_nil {value : List Char} :
    secretSpans value = [] ↔ secretMatches looksLikePath value = [] := by
  rw [secretSpans]
  split
  next hshort =>
    have hlen := length_le_unitLen value
    exact iff_of_true rfl (secretMatches_of_short (by omega))
  next => rw [mergeSpans_eq, mergeBy_eq_nil, List.map_eq_nil_iff]

theorem scanIfSecret_eq_none_iff {value : String} :
    scanIfSecret value = none ↔ secretMatches looksLikePath value.toList = [] := by
  rw [← secretSpans_eq_nil, scanIfSecret]
  simp

theorem scanned_scanIfSecret {value redacted : String} (h : scanIfSecret value = some redacted) :
    scanIfSecret redacted = none := by
  rw [scanIfSecret_eq_none_iff]
  rw [scanIfSecret, secretSpans] at h
  split at h
  next => simp at h
  next =>
    simp only [Option.ite_none_left_eq_some, Option.some.injEq, mergeSpans_eq] at h
    rw [← h.2, String.toList_ofList]
    exact secretMatches_splice (fun _ _ hle => hle) not_inRanges_of_isSpace

theorem scanIfSecret_stars : scanIfSecret "***" = none := by
  rw [scanIfSecret_eq_none_iff]
  exact secretMatches_of_short (by decide)

end TypeScript

end Telemetry.Pii
