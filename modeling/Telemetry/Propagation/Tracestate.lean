import Telemetry.Lib.Regex

/-!
# The grammar of `tracestate`

The header of an inbound request that carries what the tracing systems on its way have to say: list
members with commas between them, each of them a key, an equals sign and a value, with spaces and
tabs around it. The SDKs ask a pattern about each member. It is written on the numbers of the
characters, whatever a language has for a character.

## Main definitions

* `Tracestate.IsMember` — a list member.
* `Tracestate.memberRe` — the pattern.

## Main results

* `Tracestate.fits_memberRe_iff` — **the pattern takes the list members**.
-/

namespace Telemetry.Propagation.Tracestate

open Telemetry.Regex

/-- `[ \t]` -/
def isOws (c : ℕ) : Bool := c = 0x20 || c = 0x09

/-- `[a-z0-9]` -/
def isKeyStart (c : ℕ) : Bool := (0x61 ≤ c && c ≤ 0x7a) || (0x30 ≤ c && c ≤ 0x39)

/-- `[a-z0-9_\-*/@]` -/
def isKeyChar (c : ℕ) : Bool :=
  isKeyStart c || c = 0x5f || c = 0x2d || c = 0x2a || c = 0x2f || c = 0x40

/-- `[\x20-\x2b\x2d-\x3c\x3e-\x7e]` -/
def isValueChar (c : ℕ) : Bool :=
  (0x20 ≤ c && c ≤ 0x2b) || (0x2d ≤ c && c ≤ 0x3c) || (0x3e ≤ c && c ≤ 0x7e)

/-- `[ \t]*[a-z0-9][a-z0-9_\-*/@]{0,255}=[\x20-\x2b\x2d-\x3c\x3e-\x7e]*[ \t]*` -/
def memberRe : List (Piece ℕ) :=
  [⟨isOws, 0, none⟩, ⟨isKeyStart, 1, some 1⟩, ⟨isKeyChar, 0, some 255⟩,
    ⟨fun c => c = 0x3d, 1, some 1⟩, ⟨isValueChar, 0, none⟩, ⟨isOws, 0, none⟩]

/-- A key: a lower-case letter or a digit, and up to 255 characters of keys. -/
def IsKey (key : List ℕ) : Prop :=
  ∃ first others, key = first :: others ∧ isKeyStart first = true ∧
    (∀ c ∈ others, isKeyChar c = true) ∧ others.length ≤ 255

/-- A list member: a key, an equals sign and a value, with spaces and tabs around it. -/
def IsMember (s : List ℕ) : Prop :=
  ∃ before key value behind, s = before ++ (key ++ 0x3d :: (value ++ behind)) ∧
    (∀ c ∈ before, isOws c = true) ∧ IsKey key ∧ (∀ c ∈ value, isValueChar c = true) ∧
    ∀ c ∈ behind, isOws c = true

variable {s t rest : List ℕ}

/-- **The pattern takes the list members.** -/
theorem fits_memberRe_iff : Fits memberRe s rest ↔ ∃ t, s = t ++ rest ∧ IsMember t := by
  simp only [memberRe, Fits, takes_one_iff, takes_any_iff]
  constructor
  · intro h
    obtain ⟨before, _, hs, hbefore, _, _, hs₁, ⟨first, hfirst, hstart⟩, others, _, hs₂, hothers, _,
      _, hs₃, ⟨c, hc, hequals⟩, value, _, hs₄, hvalue, behind, _, hs₅, hbehind, hrest⟩ := h
    rw [decide_eq_true_eq] at hequals
    subst hs hs₁ hfirst hs₂ hs₃ hc hequals hs₄ hs₅ hrest
    refine ⟨before ++ ((first :: others) ++ 0x3d :: (value ++ behind)), by simp, before,
      first :: others, value, behind, rfl, hbefore, ?_, hvalue, hbehind⟩
    exact ⟨first, others, rfl, hstart, hothers.mem, hothers.most 255 rfl⟩
  · intro h
    obtain ⟨t, hs, before, key, value, behind, ht, hbefore, ⟨first, others, hkey, hstart, hothers,
      hlength⟩, hvalue, hbehind⟩ := h
    subst hs ht hkey
    refine ⟨before, [first] ++ (others ++ ([0x3d] ++ (value ++ (behind ++ rest)))), by simp,
      hbefore, [first], _, rfl, ⟨first, rfl, hstart⟩, others, _, rfl, ⟨hothers, Nat.zero_le _, ?_⟩,
      [0x3d], _, rfl, ⟨0x3d, rfl, by simp⟩, value, _, rfl, hvalue, behind, rest, rfl, hbehind, rfl⟩
    simpa using hlength

/-- A list member has printable ASCII characters and tabs only. -/
theorem IsMember.printable (h : IsMember s) : ∀ c ∈ s, c = 0x09 ∨ 0x20 ≤ c ∧ c ≤ 0x7e := by
  obtain ⟨before, key, value, behind, hs, hbefore, ⟨first, others, hkey, hstart, hothers, -⟩,
    hvalue, hbehind⟩ := h
  subst hs hkey
  have hows : ∀ c, isOws c = true → c = 0x09 ∨ 0x20 ≤ c ∧ c ≤ 0x7e := by
    intro c hc
    simp only [isOws, Bool.or_eq_true, decide_eq_true_eq] at hc
    omega
  have hkey : ∀ c, isKeyChar c = true → 0x20 ≤ c ∧ c ≤ 0x7e := by
    intro c hc
    simp only [isKeyChar, isKeyStart, Bool.or_eq_true, Bool.and_eq_true, decide_eq_true_eq] at hc
    omega
  have hval : ∀ c, isValueChar c = true → 0x20 ≤ c ∧ c ≤ 0x7e := by
    intro c hc
    simp only [isValueChar, Bool.or_eq_true, Bool.and_eq_true, decide_eq_true_eq] at hc
    omega
  intro c hc
  simp only [List.mem_append, List.mem_cons] at hc
  obtain hc | (rfl | hc) | rfl | hc | hc := hc
  · exact hows c (hbefore c hc)
  · exact .inr (hkey _ (by simp [isKeyChar, hstart]))
  · exact .inr (hkey c (hothers c hc))
  · omega
  · exact .inr (hval c (hvalue c hc))
  · exact hows c (hbehind c hc)

end Telemetry.Propagation.Tracestate
