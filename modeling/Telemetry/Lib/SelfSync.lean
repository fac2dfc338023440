import Telemetry.Lib.Utf16
import Telemetry.Lib.Utf8

/-!
# Codes that show where a character starts

The first unit of a character is none of the units that follow it, in UTF-8 as in UTF-16: a run of
units that ends within a text ends behind whole characters and perhaps a part of one more.

## Main definitions

* `SelfSync` — a code whose units show where a character starts.

## Main results

* `SelfSync.split_run` — where a run of units ends within a text.
* `selfSync_utf8`, `selfSync_utf16` — the two codes.
-/

namespace Telemetry.Lib

variable {α β : Type*} {enc : α → List β} {isFirst : β → Bool}

/-- The first unit of a character is none of the others, and tells characters apart together with
what follows it. -/
structure SelfSync (enc : α → List β) (isFirst : β → Bool) : Prop where
  first : ∀ c, ∃ b tail, enc c = b :: tail ∧ isFirst b = true ∧ ∀ x ∈ tail, isFirst x = false
  unique : ∀ {c d s t}, enc c ++ s = enc d ++ t → c = d

/-- Where a run of units ends within a text: behind whole characters and perhaps the first unit of
one more. -/
theorem SelfSync.split_run (hcode : SelfSync enc isFirst) {run t junk : List β} {s : List α}
    (h : run ++ t = junk ++ s.flatMap enc) (hjunk : ∀ x ∈ junk, isFirst x = false) :
    ∃ s₁ s₂ junk', s = s₁ ++ s₂ ∧ t = junk' ++ s₂.flatMap enc ∧
      (∀ x ∈ junk', isFirst x = false) ∧ ∀ c ∈ s₁, ∃ b ∈ run, ∃ tail, enc c = b :: tail := by
  induction run generalizing junk s with
  | nil => exact ⟨[], s, junk, rfl, h, hjunk, by simp⟩
  | cons x run ih =>
      cases junk with
      | cons y junk =>
          rw [List.cons_append, List.cons_append, List.cons_eq_cons] at h
          obtain ⟨s₁, s₂, junk', hs, ht, hjunk', hmem⟩ :=
            ih h.2 fun z hz => hjunk z (List.mem_cons_of_mem _ hz)
          refine ⟨s₁, s₂, junk', hs, ht, hjunk', fun c hc => ?_⟩
          obtain ⟨b, hb, htail⟩ := hmem c hc
          exact ⟨b, List.mem_cons_of_mem _ hb, htail⟩
      | nil =>
          cases s with
          | nil => cases h
          | cons c s =>
              obtain ⟨b, tail, hc, -, htail⟩ := hcode.first c
              rw [List.nil_append, List.flatMap_cons, hc, List.cons_append, List.cons_append,
                List.cons_eq_cons] at h
              obtain ⟨s₁, s₂, junk', hs, ht, hjunk', hmem⟩ := ih h.2 htail
              refine ⟨c :: s₁, s₂, junk', by rw [hs]; rfl, ht, hjunk', fun d hd => ?_⟩
              obtain rfl | hd := List.mem_cons.mp hd
              · exact ⟨b, by rw [h.1]; exact List.mem_cons_self, tail, hc⟩
              · obtain ⟨b, hb, htail⟩ := hmem d hd
                exact ⟨b, List.mem_cons_of_mem _ hb, htail⟩

/-! ## UTF-8 -/

/-- Whether a byte starts a character. -/
def isFirstByte (b : UInt8) : Bool := decide b.IsUTF8FirstByte

theorem selfSync_utf8 : SelfSync String.utf8EncodeChar isFirstByte where
  first c := by
    obtain ⟨b, tail, h⟩ := List.exists_cons_of_ne_nil (String.utf8EncodeChar_ne_nil (c := c))
    have hat (i : ℕ) (hi : i < (b :: tail).length) : (b :: tail)[i].IsUTF8FirstByte ↔ i = 0 := by
      simp only [← h]
      exact UInt8.isUTF8FirstByte_getElem_utf8EncodeChar
    refine ⟨b, tail, h, decide_eq_true ((hat 0 (by simp)).mpr rfl), fun x hx => ?_⟩
    obtain ⟨i, hi, rfl⟩ := List.getElem_of_mem hx
    exact decide_eq_false fun hfirst => by
      have := (hat (i + 1) (by simpa using hi)).mp hfirst
      omega
  unique {c d s t} h := by
    have hc := Utf8.decodeChar?_append c s
    rw [h, Utf8.decodeChar?_append] at hc
    exact (Option.some.inj hc).symm

/-- A byte below 128 is a character of its own. -/
theorem eq_of_mem_utf8EncodeChar {c : Char} {b : UInt8} (hb : b ∈ String.utf8EncodeChar c)
    (hlt : b.toNat < 128) : String.utf8EncodeChar c = [b] ∧ c.toNat = b.toNat := by
  have hval : c.val.toNat = c.toNat := rfl
  rw [String.utf8EncodeChar] at hb ⊢
  simp only [hval] at hb ⊢
  by_cases hsmall : c.toNat ≤ 0x7f
  · rw [if_pos hsmall, List.mem_singleton] at hb
    rw [if_pos hsmall, hb]
    exact ⟨rfl, by rw [UInt8.toNat_ofNat']; omega⟩
  · rw [if_neg hsmall] at hb
    refine absurd hlt ?_
    split_ifs at hb <;> simp only [List.mem_cons, List.not_mem_nil, or_false] at hb <;>
      rcases hb with rfl | rfl | rfl | rfl <;> rw [UInt8.toNat_ofNat'] <;> omega

/-! ## UTF-16 -/

/-- Whether a code unit starts a character. -/
def isFirstUnit (u : ℕ) : Bool := decide (u < 0xDC00 ∨ 0xE000 ≤ u)

theorem selfSync_utf16 : SelfSync CodePoints.utf16Units isFirstUnit where
  first c := by
    have hc := CodePoints.toNat_char c
    rw [CodePoints.utf16Units]
    split
    · exact ⟨_, _, rfl, decide_eq_true (by omega), by simp⟩
    · refine ⟨_, _, rfl, decide_eq_true (by omega), fun x hx => decide_eq_false ?_⟩
      rw [List.mem_singleton.mp hx]
      omega
  unique {c d s t} h := by
    have hc := CodePoints.toNat_char c
    have hd := CodePoints.toNat_char d
    refine Char.toNat_inj.mp ?_
    simp only [CodePoints.utf16Units] at h
    split at h <;> split at h <;> simp only [List.cons_append, List.cons.injEq] at h <;> omega

/-- A unit before the surrogates is a character of its own. -/
theorem eq_of_mem_utf16Units {c : Char} {u : ℕ} (hu : u ∈ CodePoints.utf16Units c)
    (hlt : u < 0xD800) : CodePoints.utf16Units c = [u] ∧ c.toNat = u := by
  have hc := CodePoints.toNat_char c
  rw [CodePoints.utf16Units] at hu ⊢
  split at hu
  · rw [List.mem_singleton] at hu
    rw [if_pos ‹_›, hu]
    exact ⟨rfl, rfl⟩
  · simp only [List.mem_cons, List.not_mem_nil, or_false] at hu
    omega

end Telemetry.Lib
