import Mathlib.Data.List.Basic

/-!
# UTF-8 with replacement characters

A byte string that is UTF-8 is decoded to the characters that it encodes. In any other, each
maximal subpart that starts a character without finishing it, and each byte that starts none, is
replaced by U+FFFD.

## Main definitions

* `Utf8.encode` — the encoding.
* `Utf8.decodeLossy` — decoding with replacement.
* `Utf8.Valid` — what needs none.

## Main results

* `Utf8.decodeLossy_encode` — **what was encoded is decoded**.
* `Utf8.valid_iff` — a byte string is UTF-8 iff encoding what is decoded leads back to it.
-/

namespace Telemetry.Lib.Utf8

/-- The bytes of a text. -/
def encode (cs : List Char) : List UInt8 := cs.flatMap String.utf8EncodeChar

/-- The character that the bytes start with. -/
def decodeChar? (bytes : List UInt8) : Option Char := bytes.toByteArray.utf8DecodeChar? 0

/-- The bytes that may follow a first byte, as ranges. -/
def followers (b : UInt8) : List (UInt8 × UInt8) :=
  if 0xC2 ≤ b ∧ b ≤ 0xDF then [(0x80, 0xBF)]
  else if b = 0xE0 then [(0xA0, 0xBF), (0x80, 0xBF)]
  else if b = 0xED then [(0x80, 0x9F), (0x80, 0xBF)]
  else if 0xE1 ≤ b ∧ b ≤ 0xEF then [(0x80, 0xBF), (0x80, 0xBF)]
  else if b = 0xF0 then [(0x90, 0xBF), (0x80, 0xBF), (0x80, 0xBF)]
  else if 0xF1 ≤ b ∧ b ≤ 0xF3 then [(0x80, 0xBF), (0x80, 0xBF), (0x80, 0xBF)]
  else if b = 0xF4 then [(0x80, 0x8F), (0x80, 0xBF), (0x80, 0xBF)]
  else []

/-- How many bytes are in their ranges, up to the first that is not. -/
def countInside : List (UInt8 × UInt8) → List UInt8 → ℕ
  | range :: ranges, b :: bytes =>
      if range.1 ≤ b ∧ b ≤ range.2 then countInside ranges bytes + 1 else 0
  | _, _ => 0

/-- The bytes behind the maximal subpart that a byte and its followers are. -/
def skipSubpart (b : UInt8) (bytes : List UInt8) : List UInt8 :=
  bytes.drop (countInside (followers b) bytes)

/-- U+FFFD. -/
def replacement : Char := '\uFFFD'

/-- Decode at most so many characters. -/
def decodeUpTo : ℕ → List UInt8 → List Char
  | 0, _ => []
  | _ + 1, [] => []
  | n + 1, b :: bytes =>
      match decodeChar? (b :: bytes) with
      | some c => c :: decodeUpTo n ((b :: bytes).drop c.utf8Size)
      | none => replacement :: decodeUpTo n (skipSubpart b bytes)

/-- Decode; there are no more characters than bytes. -/
def decodeLossy (bytes : List UInt8) : List Char := decodeUpTo bytes.length bytes

/-- The bytes of a text, each as the character of its number. -/
def byteChars (cs : List Char) : List Char := (encode cs).map fun b => Char.ofNat b.toNat

/-- A byte string that encodes a text. -/
def Valid (bytes : List UInt8) : Prop := ∃ cs, encode cs = bytes

theorem encode_cons (c : Char) (cs : List Char) :
    encode (c :: cs) = String.utf8EncodeChar c ++ encode cs := rfl

theorem decodeChar?_append (c : Char) (bytes : List UInt8) :
    decodeChar? (String.utf8EncodeChar c ++ bytes) = some c := by
  rw [decodeChar?, List.toByteArray_append]
  exact ByteArray.utf8DecodeChar?_utf8EncodeChar_append

theorem decodeUpTo_encode {n : ℕ} {cs : List Char} (h : cs.length ≤ n) :
    decodeUpTo n (encode cs) = cs := by
  induction cs generalizing n with
  | nil => cases n <;> rfl
  | cons c cs ih =>
      rw [List.length_cons] at h
      obtain ⟨m, rfl⟩ : ∃ m, n = m + 1 := ⟨n - 1, by omega⟩
      have hne : String.utf8EncodeChar c ++ encode cs ≠ [] := by
        simp [String.utf8EncodeChar_ne_nil]
      obtain ⟨b, bytes, hbytes⟩ := List.exists_cons_of_ne_nil hne
      have hchar := decodeChar?_append c (encode cs)
      have hdrop : (b :: bytes).drop c.utf8Size = encode cs := by
        rw [← hbytes, ← String.length_utf8EncodeChar c, List.drop_left]
      rw [encode_cons, hbytes, decodeUpTo, ← hbytes, hchar]
      simp only [hbytes, hdrop]
      rw [ih (by omega)]

theorem length_le_encode (cs : List Char) : cs.length ≤ (encode cs).length := by
  induction cs with
  | nil => simp
  | cons c cs ih =>
      have hpos := c.utf8Size_pos
      rw [encode_cons, List.length_append, String.length_utf8EncodeChar, List.length_cons]
      omega

/-- **What was encoded is decoded.** -/
@[simp] theorem decodeLossy_encode (cs : List Char) : decodeLossy (encode cs) = cs :=
  decodeUpTo_encode (length_le_encode cs)

/-- **A byte string is UTF-8** iff encoding what is decoded leads back to it. -/
theorem valid_iff {bytes : List UInt8} : Valid bytes ↔ encode (decodeLossy bytes) = bytes := by
  constructor
  · intro ⟨cs, hcs⟩
    rw [← hcs, decodeLossy_encode]
  · intro h
    exact ⟨_, h⟩

instance (bytes : List UInt8) : Decidable (Valid bytes) := decidable_of_iff _ valid_iff.symm

theorem encode_injective : Function.Injective encode := by
  intro cs ds h
  rw [← decodeLossy_encode cs, h, decodeLossy_encode]

/-- What ASCII encodes. -/
theorem encode_ascii {cs : List Char} (h : ∀ c ∈ cs, c.toNat < 128) :
    encode cs = cs.map fun c => UInt8.ofNat c.toNat := by
  induction cs with
  | nil => rfl
  | cons c cs ih =>
      rw [List.forall_mem_cons] at h
      have hsize : c.utf8Size = 1 := by
        rw [Char.utf8Size_eq_one_iff, UInt32.le_iff_toNat_le]
        exact Nat.lt_succ_iff.mp h.1
      rw [encode_cons, ih h.2, String.utf8EncodeChar_eq_singleton hsize]
      rfl

@[simp] theorem toNat_byteChar (b : UInt8) : (Char.ofNat b.toNat).toNat = b.toNat := by
  have hvalid : b.toNat.isValidChar := .inl (Nat.lt_of_lt_of_le b.toNat_lt (by decide))
  delta Char.ofNat
  rw [dif_pos hvalid]
  rfl

/-- The bytes of ASCII are its characters. -/
theorem byteChars_ascii {cs : List Char} (h : ∀ c ∈ cs, c.toNat < 128) : byteChars cs = cs := by
  rw [byteChars, encode_ascii h, List.map_map]
  conv_rhs => rw [← List.map_id cs]
  refine List.map_congr_left fun c hc => ?_
  have hmod : c.toNat % 2 ^ 8 = c.toNat := Nat.mod_eq_of_lt (by have hlt := h c hc; omega)
  rw [Function.comp_apply, UInt8.toNat_ofNat', hmod, Char.ofNat_toNat]
  rfl

/-- Only nothing is decoded to nothing. -/
@[simp] theorem decodeLossy_eq_nil_iff {bytes : List UInt8} :
    decodeLossy bytes = [] ↔ bytes = [] := by
  cases bytes with
  | nil => simp [decodeLossy, decodeUpTo]
  | cons b bytes =>
      rw [decodeLossy, List.length_cons, decodeUpTo]
      split <;> simp

end Telemetry.Lib.Utf8
