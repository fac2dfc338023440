import Telemetry.Lib.Hex
import Telemetry.Lib.CodePoints

/-!
# The grammar of `traceparent`

The header of an inbound request that carries a trace id and a span id: a version, the ids and
the flags, four hexadecimal fields of fixed widths with dashes between them. No version is `ff`,
and no id has zeros only.

## Main definitions

* `Fields` — the four fields of a header.
* `Fields.Valid` — the fields are those of a `traceparent`.
* `Fields.ids` — the ids, in lower case.
-/

namespace Telemetry.Propagation

open Telemetry.Lib

/-- The four fields of a header. -/
structure Fields (α : Type) where
  version : List α
  traceId : List α
  spanId : List α
  flags : List α

/-- A trace id and a span id. -/
structure Ids (α : Type) where
  traceId : List α
  spanId : List α
  deriving DecidableEq

namespace Fields

variable {α β : Type}

/-- The fields in order. -/
def parts (h : Fields α) : List (List α) := [h.version, h.traceId, h.spanId, h.flags]

/-- The header: the fields with dashes between them. -/
def text (dash : α) (h : Fields α) : List α := [dash].intercalate h.parts

def map (f : α → β) (h : Fields α) : Fields β where
  version := h.version.map f
  traceId := h.traceId.map f
  spanId := h.spanId.map f
  flags := h.flags.map f

theorem parts_injective : Function.Injective (parts (α := α)) := by
  rintro ⟨v, t, p, f⟩ ⟨v', t', p', f'⟩ h
  simpa [parts] using h

theorem parts_map (f : α → β) (h : Fields α) : (h.map f).parts = h.parts.map (List.map f) := rfl

theorem map_text (f : α → β) (dash : α) (h : Fields α) :
    (h.text dash).map f = (h.map f).text (f dash) := by
  simp [text, parts, map, List.intercalate]

/-- The fields have their widths. -/
structure Sized (h : Fields α) : Prop where
  version : h.version.length = 2
  traceId : h.traceId.length = 32
  spanId : h.spanId.length = 16
  flags : h.flags.length = 2

/-- The fields are those of a `traceparent`. -/
structure Valid (h : Fields Char) : Prop extends h.Sized where
  hex : ∀ part ∈ h.parts, ∀ c ∈ part, isHexDigit c = true
  version_ne : h.version.map Char.toLower ≠ "ff".toList
  traceId_ne : h.traceId ≠ List.replicate 32 '0'
  spanId_ne : h.spanId ≠ List.replicate 16 '0'

/-- The ids, in lower case. -/
def ids (h : Fields Char) : Ids Char where
  traceId := h.traceId.map Char.toLower
  spanId := h.spanId.map Char.toLower

/-- The ids of a `traceparent` have lower-case digits only. -/
theorem Valid.mem_lowerHexDigits {h : Fields Char} (hvalid : h.Valid) :
    ∀ c ∈ h.ids.traceId ++ h.ids.spanId, c ∈ lowerHexDigits := by
  intro c hc
  rcases List.mem_append.mp hc with hc | hc
  · rcases List.mem_map.mp hc with ⟨d, hd, rfl⟩
    exact Hex.toLower_mem (hvalid.hex h.traceId (by simp [parts]) d hd)
  · rcases List.mem_map.mp hc with ⟨d, hd, rfl⟩
    exact Hex.toLower_mem (hvalid.hex h.spanId (by simp [parts]) d hd)

/-! ## Splitting -/

/-- What is between two separators has none. -/
theorem not_mem_of_mem_splitOn [DecidableEq α] {dash : α} {s part : List α}
    (h : part ∈ s.splitOn dash) : dash ∉ part := by
  induction s generalizing part with
  | nil =>
      rw [List.splitOn_nil, List.mem_singleton] at h
      simp [h]
  | cons c s ih =>
      rw [List.splitOn_cons_eq_if_modifyHead] at h
      split at h
      · rcases List.mem_cons.mp h with rfl | h
        · simp
        · exact ih h
      · rename_i hc
        rw [beq_iff_eq] at hc
        cases hsplit : s.splitOn dash with
        | nil => exact absurd hsplit (List.splitOn_ne_nil dash s)
        | cons first others =>
            rw [hsplit, List.modifyHead_cons] at h
            rcases List.mem_cons.mp h with rfl | h
            · have hfirst : dash ∉ first := ih (by rw [hsplit]; exact List.mem_cons_self)
              exact List.not_mem_cons_of_ne_of_not_mem (Ne.symm hc) hfirst
            · exact ih (by rw [hsplit]; exact List.mem_cons_of_mem first h)

/-- The fields of a header that is split at its dashes, if there are four. -/
def ofText [DecidableEq α] (dash : α) (s : List α) : Option (Fields α) :=
  match s.splitOn dash with
  | [version, traceId, spanId, flags] => some ⟨version, traceId, spanId, flags⟩
  | _ => none

variable [DecidableEq α] {dash : α} {s : List α} {h : Fields α}

/-- **A header is split into its fields**, if no field has a dash. -/
theorem ofText_eq_some_iff :
    ofText dash s = some h ↔ s = h.text dash ∧ ∀ part ∈ h.parts, dash ∉ part := by
  have hsplit : ofText dash s = some h ↔ s.splitOn dash = h.parts := by
    rw [ofText]
    split
    · rename_i heq
      rw [heq, Option.some.injEq]
      exact (parts_injective.eq_iff (a := ⟨_, _, _, _⟩)).symm
    · rename_i hne
      exact ⟨nofun, fun heq => absurd heq (hne _ _ _ _)⟩
  rw [hsplit]
  constructor
  · intro hparts
    have hs : s = h.text dash := by rw [text, ← hparts, List.intercalate_splitOn]
    refine ⟨hs, ?_⟩
    intro part hpart
    rw [← hparts] at hpart
    exact not_mem_of_mem_splitOn hpart
  · rintro ⟨rfl, hfree⟩
    exact List.splitOn_intercalate dash hfree (by simp [parts])

/-- A `traceparent` is split into its fields. -/
theorem Valid.ofText_text {h : Fields Char} (hvalid : h.Valid) :
    ofText '-' (h.text '-') = some h := by
  refine ofText_eq_some_iff.mpr ⟨rfl, ?_⟩
  intro part hpart hmem
  exact absurd (hvalid.hex part hpart _ hmem) (by decide)

end Fields

end Telemetry.Propagation
