import Telemetry.Lib.CodePoints
import Mathlib.Data.List.Lex
import Mathlib.Data.List.Induction

/-!
# UTF-16

Strings in the order of their UTF-16 code units, which is not that of their code points: a
character beyond the basic plane is written with surrogates. The big-endian bytes of the units are
in the order of the units.

A string of UTF-16 units is well formed if it is the UTF-16 of some characters: every high surrogate
has a low one behind it, and no low one stands without. A reader finds that out unit by unit, and
only has to remember whether it is between the halves of a pair.

What is left of a well-formed string when it is cut is well formed, unless it was cut between the
halves of a pair.

## Main definitions

* `utf16Units` — the code units of a character.
* `WellFormed` — the string is the UTF-16 of some characters.
* `read` — the reader of units.
* `InsidePair` — between the halves of a pair.

## Main results

* `flatMap_bigEndian_le_iff` — bytes are ordered as units are.
* `utf16_injective` — units determine the characters.
* `wellFormed_iff_read` — the reader tells what is well formed.
* `wellFormed_take_iff` — **where a string can be cut**.
-/

namespace Telemetry.Lib.CodePoints

/-- The UTF-16 code units of a character. -/
def utf16Units (c : Char) : List ℕ :=
  if c.toNat < 0x10000 then [c.toNat]
  else [0xD800 + (c.toNat - 0x10000) / 1024, 0xDC00 + (c.toNat - 0x10000) % 1024]

/-- The two bytes of a code unit. -/
def bigEndian (u : ℕ) : List UInt8 := [(u / 256).toUInt8, (u % 256).toUInt8]

theorem utf16BeEncodeChar_eq (c : Char) :
    utf16BeEncodeChar c = (utf16Units c).flatMap bigEndian := by
  rw [utf16BeEncodeChar, utf16Units]
  split <;> rfl

theorem encodeUtf16Be_ofChars (cs : List Char) :
    (ofChars cs).encodeUtf16Be = some ((cs.flatMap utf16Units).flatMap bigEndian) := by
  have hunits : utf16BeEncodeChar = fun c => (utf16Units c).flatMap bigEndian :=
    funext utf16BeEncodeChar_eq
  rw [encodeUtf16Be, chars?_ofChars, List.flatMap_assoc, hunits]
  rfl

/-- A scalar value is no surrogate and not too large. -/
theorem toNat_char (c : Char) : c.toNat < 0xD800 ∨ 0xDFFF < c.toNat ∧ c.toNat < 0x110000 := by
  have h := c.valid
  rw [UInt32.isValidChar, Nat.isValidChar] at h
  exact h

theorem utf16Units_lt (c : Char) : ∀ u ∈ utf16Units c, u < 65536 := by
  have h := toNat_char c
  rw [utf16Units]
  split
  · simpa
  · intro u hu
    simp only [List.mem_cons, List.not_mem_nil, or_false] at hu
    omega

/-- The bytes of two units are ordered as they are. -/
theorem bigEndian_append_lt_iff {u v : ℕ} (hu : u < 65536) (hv : v < 65536) (s t : List UInt8) :
    bigEndian u ++ s < bigEndian v ++ t ↔ u < v ∨ u = v ∧ s < t := by
  have hnat : ∀ {n : ℕ}, n < 256 → n.toUInt8.toNat = n := by
    intro n hn
    change (UInt8.ofNat n).toNat = n
    rw [UInt8.toNat_ofNat', Nat.mod_eq_of_lt hn]
  have hbyte : ∀ {m n : ℕ}, m < 256 → n < 256 → (m.toUInt8 < n.toUInt8 ↔ m < n) := by
    intro m n hm hn
    rw [UInt8.lt_iff_toNat_lt, hnat hm, hnat hn]
  have heq : ∀ {m n : ℕ}, m < 256 → n < 256 → (m.toUInt8 = n.toUInt8 ↔ m = n) := by
    intro m n hm hn
    rw [← UInt8.toNat_inj, hnat hm, hnat hn]
  rw [bigEndian, bigEndian, List.cons_append, List.cons_append, List.cons_append, List.cons_append,
    List.cons_lt_cons_iff, List.cons_lt_cons_iff, hbyte (by omega) (by omega),
    hbyte (by omega) (by omega), heq (by omega) (by omega), heq (by omega) (by omega),
    List.nil_append, List.nil_append]
  constructor
  · rintro (h | ⟨h, h' | ⟨h', hst⟩⟩)
    · left; omega
    · left; omega
    · right; exact ⟨by omega, hst⟩
  · rintro (h | ⟨rfl, hst⟩)
    · by_cases hhigh : u / 256 = v / 256
      · right; exact ⟨hhigh, .inl (by omega)⟩
      · left; omega
    · right; exact ⟨rfl, .inr ⟨rfl, hst⟩⟩

/-- **Bytes are ordered as units are.** -/
theorem flatMap_bigEndian_lt_iff {s t : List ℕ} (hs : ∀ u ∈ s, u < 65536)
    (ht : ∀ u ∈ t, u < 65536) : s.flatMap bigEndian < t.flatMap bigEndian ↔ s < t := by
  induction s generalizing t with
  | nil =>
      cases t with
      | nil => simp
      | cons v t =>
          rw [List.flatMap_nil, List.flatMap_cons, bigEndian]
          simp
  | cons u s ih =>
      cases t with
      | nil => simp
      | cons v t =>
          rw [List.forall_mem_cons] at hs ht
          rw [List.flatMap_cons, List.flatMap_cons, bigEndian_append_lt_iff hs.1 ht.1,
            ih hs.2 ht.2, List.cons_lt_cons_iff]

theorem flatMap_bigEndian_le_iff {s t : List ℕ} (hs : ∀ u ∈ s, u < 65536)
    (ht : ∀ u ∈ t, u < 65536) : s.flatMap bigEndian ≤ t.flatMap bigEndian ↔ s ≤ t := by
  rw [← List.not_lt, ← not_lt, flatMap_bigEndian_lt_iff ht hs]

/-- **Units determine the characters**: a unit that starts a character is no second half. -/
theorem utf16_injective {cs ds : List Char} (h : cs.flatMap utf16Units = ds.flatMap utf16Units) :
    cs = ds := by
  induction cs generalizing ds with
  | nil =>
      cases ds with
      | nil => rfl
      | cons d ds =>
          rw [List.flatMap_cons, utf16Units] at h
          split at h <;> cases h
  | cons c cs ih =>
      cases ds with
      | nil =>
          rw [List.flatMap_cons, utf16Units] at h
          split at h <;> cases h
      | cons d ds =>
          have hc := toNat_char c
          have hd := toNat_char d
          rw [List.flatMap_cons, List.flatMap_cons, utf16Units, utf16Units] at h
          have hfirst : c.toNat = d.toNat ∧ cs.flatMap utf16Units = ds.flatMap utf16Units := by
            split at h <;> split at h <;>
              simp only [List.cons_append, List.nil_append, List.cons.injEq] at h
            · exact h
            · omega
            · omega
            · exact ⟨by omega, h.2.2⟩
          rw [Char.toNat_inj.mp hfirst.1, ih hfirst.2]

end Telemetry.Lib.CodePoints

/-! ## Units in pairs -/

namespace Telemetry.Lib.Surrogates

open CodePoints (utf16Units toNat_char)

/-- A first half of a pair. -/
def isHigh (u : UInt16) : Bool := 0xd800 ≤ u.toNat && u.toNat < 0xdc00

/-- A second half of a pair. -/
def isLow (u : UInt16) : Bool := 0xdc00 ≤ u.toNat && u.toNat < 0xe000

/-- A character of its own. -/
def isPlain (u : UInt16) : Bool := !isHigh u && !isLow u

/-- The string is the UTF-16 of some characters. -/
def WellFormed (s : List UInt16) : Prop :=
  ∃ cs : List Char, s.map UInt16.toNat = cs.flatMap utf16Units

/-! ## Reading -/

/-- Whether a second half is due, after one more unit. There is no way on if it is not there, or if
it is there and not due. -/
def readUnit (due : Option Bool) (u : UInt16) : Option Bool :=
  match due with
  | none => none
  | some true => if isLow u then some false else none
  | some false => if isHigh u then some true else if isLow u then none else some false

/-- Whether a second half is due behind a string. -/
def read (due : Option Bool) (s : List UInt16) : Option Bool := s.foldl readUnit due

variable {s t : List UInt16} {u v : UInt16} {due : Option Bool}

@[simp] theorem read_nil (due : Option Bool) : read due [] = due := rfl

@[simp] theorem read_cons (due : Option Bool) (u : UInt16) (s : List UInt16) :
    read due (u :: s) = read (readUnit due u) s := rfl

@[simp] theorem read_append (due : Option Bool) (s t : List UInt16) :
    read due (s ++ t) = read (read due s) t := List.foldl_append

@[simp] theorem read_none (s : List UInt16) : read none s = none := by
  induction s with
  | nil => rfl
  | cons u s ih => exact ih

theorem not_isLow_of_isHigh (h : isHigh u = true) : isLow u = false := by
  simp only [isHigh, isLow, Bool.and_eq_true, decide_eq_true_eq, Bool.and_eq_false_iff,
    decide_eq_false_iff_not] at h ⊢
  omega

theorem isPlain_of_lt (h : u.toNat < 0xd800) : isPlain u = true := by
  simp only [isPlain, isHigh, isLow, Bool.and_eq_true, Bool.not_eq_true', Bool.and_eq_false_iff,
    decide_eq_false_iff_not]
  omega

theorem readUnit_plain (h : isPlain u = true) (due : Option Bool) :
    readUnit due u = if due = some false then some false else none := by
  simp only [isPlain, Bool.and_eq_true, Bool.not_eq_true'] at h
  rcases due with - | - | - <;> simp [readUnit, h]

/-! ## What is read -/

/-- The units of a character are read from where no second half is due to there. -/
theorem read_of_utf16Units {c : Char} (h : s.map UInt16.toNat = utf16Units c) :
    read (some false) s = some false := by
  have hc := toNat_char c
  rw [utf16Units] at h
  split at h
  · obtain ⟨u, rfl, hu⟩ := List.map_eq_singleton_iff.mp h
    have hhigh : isHigh u = false := by
      simp only [isHigh, hu, Bool.and_eq_false_iff, decide_eq_false_iff_not]
      omega
    have hlow : isLow u = false := by
      simp only [isLow, hu, Bool.and_eq_false_iff, decide_eq_false_iff_not]
      omega
    simp [readUnit, hhigh, hlow]
  · obtain ⟨u, rest, rfl, hu, hrest⟩ := List.map_eq_cons_iff.mp h
    obtain ⟨v, rfl, hv⟩ := List.map_eq_singleton_iff.mp hrest
    have hhigh : isHigh u = true := by
      simp only [isHigh, hu, Bool.and_eq_true, decide_eq_true_eq]
      omega
    have hlow : isLow v = true := by
      simp only [isLow, hv, Bool.and_eq_true, decide_eq_true_eq]
      omega
    simp [readUnit, hhigh, hlow]

theorem exists_char {n : ℕ} (h : n.isValidChar) : ∃ c : Char, c.toNat = n :=
  ⟨Char.ofNatAux n h, rfl⟩

/-- A unit that is no surrogate is a character. -/
theorem exists_char_of_plain (h : isPlain u = true) : ∃ c : Char, utf16Units c = [u.toNat] := by
  have hlt := u.toNat_lt
  simp only [isPlain, isHigh, isLow, Bool.and_eq_true, Bool.not_eq_true', Bool.and_eq_false_iff,
    decide_eq_false_iff_not] at h
  have hvalid : u.toNat.isValidChar := by
    rw [Nat.isValidChar]
    omega
  obtain ⟨c, hc⟩ := exists_char hvalid
  exact ⟨c, by rw [utf16Units, hc, if_pos hlt]⟩

/-- Two halves are a character. -/
theorem exists_char_of_pair (hu : isHigh u = true) (hv : isLow v = true) :
    ∃ c : Char, utf16Units c = [u.toNat, v.toNat] := by
  simp only [isHigh, isLow, Bool.and_eq_true, decide_eq_true_eq] at hu hv
  have hvalid : (0x10000 + (u.toNat - 0xd800) * 1024 + (v.toNat - 0xdc00)).isValidChar := by
    rw [Nat.isValidChar]
    omega
  obtain ⟨c, hc⟩ := exists_char hvalid
  have hbeyond : ¬ c.toNat < 0x10000 := by omega
  have hfirst : 0xd800 + (c.toNat - 0x10000) / 1024 = u.toNat := by omega
  have hsecond : 0xdc00 + (c.toNat - 0x10000) % 1024 = v.toNat := by omega
  exact ⟨c, by rw [utf16Units, if_neg hbeyond, hfirst, hsecond]⟩

theorem WellFormed.append (hs : WellFormed s) (ht : WellFormed t) : WellFormed (s ++ t) := by
  obtain ⟨cs, hs⟩ := hs
  obtain ⟨ds, ht⟩ := ht
  exact ⟨cs ++ ds, by rw [List.map_append, hs, ht, List.flatMap_append]⟩

theorem wellFormed_of_char {c : Char} (h : s.map UInt16.toNat = utf16Units c) : WellFormed s :=
  ⟨[c], by rw [h, List.flatMap_singleton]⟩

/-- **The reader tells what is well formed.** -/
theorem wellFormed_iff_read : WellFormed s ↔ read (some false) s = some false := by
  constructor
  · rintro ⟨cs, hcs⟩
    induction cs generalizing s with
    | nil =>
        obtain rfl := List.map_eq_nil_iff.mp hcs
        rfl
    | cons c cs ih =>
        rw [List.flatMap_cons] at hcs
        obtain ⟨first, rest, rfl, hfirst, hrest⟩ := List.map_eq_append_iff.mp hcs
        rw [read_append, read_of_utf16Units hfirst, ih hrest]
  · -- a first half waits for its second one, so both states are looked at together
    have hboth : (read (some false) s = some false → WellFormed s) ∧
        ∀ u, isHigh u = true → read (some true) s = some false → WellFormed (u :: s) := by
      induction s with
      | nil => exact ⟨fun _ => ⟨[], rfl⟩, fun u _ h => by cases h⟩
      | cons v s ih =>
          constructor
          · intro h
            rw [read_cons, readUnit] at h
            split_ifs at h with hhigh hlow
            · exact ih.2 v hhigh h
            · simp at h
            · obtain ⟨c, hc⟩ := exists_char_of_plain (u := v) (by simp [isPlain, hhigh, hlow])
              exact (wellFormed_of_char (s := [v]) hc.symm).append (ih.1 h)
          · intro u hu h
            rw [read_cons, readUnit] at h
            split_ifs at h with hlow
            · obtain ⟨c, hc⟩ := exists_char_of_pair hu hlow
              exact (wellFormed_of_char (s := [u, v]) hc.symm).append (ih.1 h)
            · simp at h
    exact hboth.1

instance : DecidablePred WellFormed := fun _ => decidable_of_iff _ wellFormed_iff_read.symm

/-! ## Units that are no surrogates -/

/-- Characters of their own are read where no second half is due. -/
theorem read_plain (h : s.all isPlain = true) (hne : s ≠ []) (due : Option Bool) :
    read due s = if due = some false then some false else none := by
  induction s generalizing due with
  | nil => exact absurd rfl hne
  | cons u s ih =>
      rw [List.all_cons, Bool.and_eq_true] at h
      rw [read_cons, readUnit_plain h.1]
      cases s with
      | nil => rfl
      | cons v s =>
          rw [ih h.2 (List.cons_ne_nil v s)]
          split <;> rfl

theorem wellFormed_of_plain (h : s.all isPlain = true) : WellFormed s := by
  rw [wellFormed_iff_read]
  cases s with
  | nil => rfl
  | cons u s => rw [read_plain h (List.cons_ne_nil u s), if_pos rfl]

/-- What stands before such characters does not hide behind them. -/
theorem wellFormed_append_plain_iff (h : t.all isPlain = true) :
    WellFormed (s ++ t) ↔ WellFormed s := by
  rw [wellFormed_iff_read, wellFormed_iff_read, read_append]
  cases t with
  | nil => rfl
  | cons u t =>
      rw [read_plain h (List.cons_ne_nil u t)]
      simp

/-- **Taking out units that are no surrogates** leaves the pairs. -/
theorem WellFormed.filter (h : WellFormed s) {p : UInt16 → Bool}
    (hp : ∀ u, p u = false → isPlain u = true) : WellFormed (s.filter p) := by
  rw [wellFormed_iff_read] at h ⊢
  have hfrom : ∀ due, read due s = some false → read due (s.filter p) = some false := by
    clear h
    induction s with
    | nil => exact fun _ h => h
    | cons u s ih =>
        intro due hdue
        rw [read_cons] at hdue
        cases hu : p u with
        | true =>
            rw [List.filter_cons_of_pos hu, read_cons]
            exact ih _ hdue
        | false =>
            rw [List.filter_cons_of_neg (by simp [hu])]
            rw [readUnit_plain (hp u hu)] at hdue
            split_ifs at hdue with hfalse
            · rw [hfalse]
              exact ih _ hdue
            · simp at hdue
  exact hfrom _ h

/-! ## Cutting -/

/-- The position is between the halves of a pair. -/
def InsidePair (s : List UInt16) (n : ℕ) : Prop :=
  ∃ before high low after, s = before ++ high :: low :: after ∧ isHigh high = true ∧
    isLow low = true ∧ n = before.length + 1

/-- A second half is due behind a first one only. -/
theorem exists_high_of_read (h : read (some false) s = some true) :
    ∃ before high, s = before ++ [high] ∧ isHigh high = true := by
  induction s using List.reverseRecOn with
  | nil => cases h
  | append_singleton before u _ =>
      refine ⟨before, u, rfl, ?_⟩
      rw [read_append, read_cons, read_nil] at h
      rcases hdue : read (some false) before with - | - | -
      · rw [hdue] at h
        cases h
      · rw [hdue, readUnit] at h
        split_ifs at h with hhigh
        · exact hhigh
        · simp at h
      · rw [hdue, readUnit] at h
        split_ifs at h
        simp at h

/-- Behind a first half a second one is due, if anything. -/
theorem readUnit_high (h : isHigh u = true) (due : Option Bool) : readUnit due u ≠ some false := by
  rcases due with - | - | - <;> simp [readUnit, h, not_isLow_of_isHigh h]

/-- **Where a string can be cut**: anywhere but between the halves of a pair. -/
theorem wellFormed_take_iff (h : WellFormed s) (n : ℕ) :
    WellFormed (s.take n) ↔ ¬ InsidePair s n := by
  rw [wellFormed_iff_read] at h ⊢
  constructor
  · rintro htake ⟨before, high, low, after, rfl, hhigh, -, rfl⟩
    have hcut : (before ++ high :: low :: after).take (before.length + 1) = before ++ [high] :=
      List.take_length_add_append 1
    rw [hcut, read_append, read_cons, read_nil] at htake
    exact readUnit_high hhigh _ htake
  · intro hinside
    have hwhole := h
    rw [← List.take_append_drop n s, read_append] at hwhole
    rcases hdue : read (some false) (s.take n) with - | - | -
    · rw [hdue, read_none] at hwhole
      cases hwhole
    · rfl
    · -- a second half is due at the cut, and it is there
      exfalso
      obtain ⟨before, high, hbefore, hhigh⟩ := exists_high_of_read hdue
      rw [hdue] at hwhole
      cases hrest : s.drop n with
      | nil =>
          rw [hrest] at hwhole
          cases hwhole
      | cons low after =>
          rw [hrest, read_cons, readUnit] at hwhole
          split_ifs at hwhole with hlow
          · refine hinside ⟨before, high, low, after, ?_, hhigh, hlow, ?_⟩
            · rw [← List.take_append_drop n s, hbefore, hrest, List.append_assoc,
                List.singleton_append]
            · have hshort : n < s.length := by
                by_contra hlong
                rw [List.drop_eq_nil_of_le (not_lt.mp hlong)] at hrest
                cases hrest
              have hlength := congrArg List.length hbefore
              rw [List.length_take, List.length_append, List.length_singleton] at hlength
              omega
          · simp at hwhole

end Telemetry.Lib.Surrogates
