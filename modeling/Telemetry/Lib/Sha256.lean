import Mathlib.Data.BitVec
import Mathlib.Data.Nat.Bitwise
import Mathlib.Data.Nat.NthRoot.Defs
import Mathlib.Data.Nat.Prime.Basic
import Mathlib.Tactic.Linarith
import Mathlib.Tactic.Ring

/-!
# SHA-256 and HMAC

The digest of FIPS 180-4 over bit strings, and the keyed digest of RFC 2104 over octet strings.
The constants are what the standard says they are, fractions of the roots of the first primes,
and the padding has the least number of zeros. What stands beside the definitions is what an
implementation over octets needs: how bits, octets and 32-bit words read each other.

## Main definitions

* `digest` — the digest of a message, bit by bit.
* `sha256` — the same of octets.
* `hmac` — RFC 2104, over any digest of octets.
-/

namespace Telemetry.Lib.Sha256

/-! ## Bits, octets and words -/

/-- The last `width` binary digits of a number, the most significant first. -/
def natBits (width n : ℕ) : List Bool := (List.range width).map fun i => n.testBit (width - 1 - i)

/-- The number that binary digits spell. -/
def ofBits (bits : List Bool) : ℕ := bits.foldl (fun n bit => 2 * n + bit.toNat) 0

/-- The bits of octets. -/
def bitsOf (bytes : List UInt8) : List Bool := bytes.flatMap fun byte => natBits 8 byte.toNat

/-- The octets of bits, without an incomplete one at the end. -/
def octets : List Bool → List UInt8
  | b7 :: b6 :: b5 :: b4 :: b3 :: b2 :: b1 :: b0 :: rest =>
      UInt8.ofNat (ofBits [b7, b6, b5, b4, b3, b2, b1, b0]) :: octets rest
  | _ => []

/-- The number that octets spell, the most significant first. -/
def bigEndian (bytes : List UInt8) : ℕ := bytes.foldl (fun n byte => 256 * n + byte.toNat) 0

/-- The four octets of a word. -/
def wordBytes (w : BitVec 32) : List UInt8 :=
  [24, 16, 8, 0].map fun shift => UInt8.ofNat (w.toNat >>> shift)

/-! ## The functions and constants of the standard -/

/-- The first thirty-two bits of the fractional part of a root. -/
def rootFraction (degree n : ℕ) : BitVec 32 :=
  BitVec.ofNat 32 (Nat.nthRoot degree (n * 2 ^ (32 * degree)))

/-- The primes below 312, which are the first sixty-four. A number that is no prime has a divisor
whose square is not larger. -/
def primes : List ℕ :=
  (List.range 312).filter fun p =>
    2 ≤ p ∧ ∀ m ∈ List.range 18, 2 ≤ m → m < p → ¬ m ∣ p

theorem mem_primes_iff {p : ℕ} : p ∈ primes ↔ p < 312 ∧ p.Prime := by
  rw [primes, List.mem_filter, List.mem_range, decide_eq_true_eq]
  constructor
  · rintro ⟨hlt, htwo, hnone⟩
    refine ⟨hlt, by_contra fun hnot => ?_⟩
    have hsq := Nat.minFac_sq_le_self (by omega) hnot
    have hmin := (Nat.minFac_prime (by omega : p ≠ 1)).two_le
    have hsmall : p.minFac < 18 := by nlinarith
    have hless : p.minFac < p := by nlinarith
    exact hnone _ (List.mem_range.mpr hsmall) hmin hless (Nat.minFac_dvd p)
  · rintro ⟨hlt, hprime⟩
    refine ⟨hlt, hprime.two_le, fun m _ htwo hless hdvd => ?_⟩
    obtain rfl | rfl := (Nat.dvd_prime hprime).mp hdvd <;> omega

/-- The round constants. -/
def K : List (BitVec 32) := primes.map (rootFraction 3)

def Ch (x y z : BitVec 32) : BitVec 32 := (x &&& y) ^^^ (~~~x &&& z)

def Maj (x y z : BitVec 32) : BitVec 32 := (x &&& y) ^^^ (x &&& z) ^^^ (y &&& z)

/-- The function that the standard writes with a capital sigma and the index zero. -/
def bigSigma0 (x : BitVec 32) : BitVec 32 :=
  x.rotateRight 2 ^^^ x.rotateRight 13 ^^^ x.rotateRight 22

def bigSigma1 (x : BitVec 32) : BitVec 32 :=
  x.rotateRight 6 ^^^ x.rotateRight 11 ^^^ x.rotateRight 25

/-- The function that the standard writes with a small sigma and the index zero. -/
def sigma0 (x : BitVec 32) : BitVec 32 := x.rotateRight 7 ^^^ x.rotateRight 18 ^^^ x >>> 3

def sigma1 (x : BitVec 32) : BitVec 32 := x.rotateRight 17 ^^^ x.rotateRight 19 ^^^ x >>> 10

/-! ## Preprocessing -/

/-- The number of zeros in the padding of `length` bits. -/
def zeroCount (length : ℕ) : ℕ := (959 - length % 512) % 512

/-- The zeros fill up to sixty-four bits before the end of a block. -/
theorem zeroCount_spec (length : ℕ) : (length + 1 + zeroCount length) % 512 = 448 := by
  rw [zeroCount]
  omega

/-- **The number of zeros is the least one.** -/
theorem zeroCount_le {length k : ℕ} (h : (length + 1 + k) % 512 = 448) : zeroCount length ≤ k := by
  rw [zeroCount]
  omega

/-- The padded message. -/
def pad (message : List Bool) : List Bool :=
  message ++ [true] ++ List.replicate (zeroCount message.length) false ++
    natBits 64 message.length

/-- The `t`-th 32-bit word. -/
def word (bits : List Bool) (t : ℕ) : BitVec 32 :=
  BitVec.ofNat 32 (ofBits ((bits.drop (32 * t)).take 32))

/-- The blocks of sixteen words. -/
def blocks (bits : List Bool) : List (List (BitVec 32)) :=
  (List.range (bits.length / 512)).map fun j => (List.range 16).map fun t => word bits (16 * j + t)

/-! ## The digest -/

/-- Eight words: a hash value, or the working variables. -/
@[ext]
structure Registers (α : Type) where
  a : α
  b : α
  c : α
  d : α
  e : α
  f : α
  g : α
  h : α
  deriving DecidableEq

namespace Registers

def map {α β : Type} (f : α → β) (r : Registers α) : Registers β :=
  ⟨f r.a, f r.b, f r.c, f r.d, f r.e, f r.f, f r.g, f r.h⟩

def zipWith {α β γ : Type} (f : α → β → γ) (r : Registers α) (s : Registers β) : Registers γ :=
  ⟨f r.a s.a, f r.b s.b, f r.c s.c, f r.d s.d, f r.e s.e, f r.f s.f, f r.g s.g, f r.h s.h⟩

def toList {α : Type} (r : Registers α) : List α := [r.a, r.b, r.c, r.d, r.e, r.f, r.g, r.h]

theorem toList_map {α β : Type} (f : α → β) (r : Registers α) :
    (r.map f).toList = r.toList.map f := rfl

end Registers

/-- The initial hash value, from the square roots of the first eight primes. -/
def initial : Registers (BitVec 32) :=
  ⟨rootFraction 2 2, rootFraction 2 3, rootFraction 2 5, rootFraction 2 7, rootFraction 2 11,
    rootFraction 2 13, rootFraction 2 17, rootFraction 2 19⟩

/-- One more word of the message schedule. -/
def extend (W : List (BitVec 32)) : List (BitVec 32) :=
  W ++ [sigma1 (W.getD (W.length - 2) 0) + W.getD (W.length - 7) 0 +
    sigma0 (W.getD (W.length - 15) 0) + W.getD (W.length - 16) 0]

/-- The message schedule. -/
def schedule (block : List (BitVec 32)) : List (BitVec 32) := extend^[48] block

/-- One round. -/
def round (r : Registers (BitVec 32)) (k w : BitVec 32) : Registers (BitVec 32) :=
  let T1 := r.h + bigSigma1 r.e + Ch r.e r.f r.g + k + w
  let T2 := bigSigma0 r.a + Maj r.a r.b r.c
  ⟨T1 + T2, r.a, r.b, r.c, r.d + T1, r.e, r.f, r.g⟩

/-- The hash value after one more block. -/
def compress (H : Registers (BitVec 32)) (block : List (BitVec 32)) : Registers (BitVec 32) :=
  let W := schedule block
  let r := (List.range 64).foldl (fun r t => round r (K.getD t 0) (W.getD t 0)) H
  r.zipWith (· + ·) H

/-- The hash value of a message. -/
def hashValue (message : List Bool) : Registers (BitVec 32) :=
  (blocks (pad message)).foldl compress initial

/-- The message digest. -/
def digest (message : List Bool) : List Bool :=
  (hashValue message).toList.flatMap fun w => natBits 32 w.toNat

/-- The digest of octets. -/
def sha256 (message : List UInt8) : List UInt8 := octets (digest (bitsOf message))

/-- RFC 2104 over a digest of octets that works on blocks of `B` of them. -/
def hmac (H : List UInt8 → List UInt8) (B : ℕ) (key text : List UInt8) : List UInt8 :=
  let hashed := if B < key.length then H key else key
  let padded := hashed ++ List.replicate (B - hashed.length) 0
  H (padded.map (· ^^^ 0x5c) ++ H (padded.map (· ^^^ 0x36) ++ text))

/-! ## Reading bits as octets -/

theorem length_natBits (width n : ℕ) : (natBits width n).length = width := by simp [natBits]

/-- Digits in two parts. -/
theorem natBits_add (width width' n : ℕ) :
    natBits (width + width') n = natBits width (n >>> width') ++ natBits width' n := by
  apply List.ext_getElem
  · simp [length_natBits]
  intro i hi hi'
  rw [List.getElem_append]
  split <;> rename_i h
  · have hbound : i < width := by simpa [length_natBits] using h
    simp only [natBits, List.getElem_map, List.getElem_range, Nat.testBit_shiftRight]
    congr 1
    omega
  · have hbound : width ≤ i := by simpa [length_natBits] using h
    simp only [natBits, List.getElem_map, List.getElem_range, List.length_map, List.length_range]
    congr 1
    omega

/-- The digits further up do not matter. -/
theorem natBits_mod (width n : ℕ) : natBits width (n % 2 ^ width) = natBits width n := by
  apply List.map_congr_left
  intro i hi
  have hbound := List.mem_range.mp hi
  rw [Nat.testBit_mod_two_pow]
  simp only [show width - 1 - i < width by omega, decide_true, Bool.true_and]

theorem ofBits_append (bits bits' : List Bool) :
    ofBits (bits ++ bits') = ofBits bits * 2 ^ bits'.length + ofBits bits' := by
  have hfrom : ∀ (bits : List Bool) (n : ℕ),
      bits.foldl (fun n bit => 2 * n + bit.toNat) n = n * 2 ^ bits.length + ofBits bits := by
    intro bits
    induction bits with
    | nil => simp [ofBits]
    | cons bit bits ih =>
        intro n
        rw [ofBits, List.foldl_cons, List.foldl_cons, ih, ih, List.length_cons, pow_succ]
        ring
  rw [ofBits, List.foldl_append, hfrom]
  rfl

/-- The number is read back from its digits. -/
theorem ofBits_natBits (width n : ℕ) : ofBits (natBits width n) = n % 2 ^ width := by
  induction width generalizing n with
  | zero => simp [natBits, ofBits, Nat.mod_one]
  | succ width ih =>
      rw [natBits_add, ofBits_append, ih, length_natBits, Nat.shiftRight_eq_div_pow, pow_one]
      have hlast : ofBits (natBits 1 n) = n % 2 := by
        rcases Nat.mod_two_eq_zero_or_one n with h | h <;>
          simp [natBits, ofBits, Nat.testBit_zero, h]
      rw [hlast, pow_succ, mul_comm (2 ^ width) 2, Nat.mod_mul]
      ring

theorem bitsOf_cons (byte : UInt8) (bytes : List UInt8) :
    bitsOf (byte :: bytes) = natBits 8 byte.toNat ++ bitsOf bytes := rfl

theorem bitsOf_append (bytes bytes' : List UInt8) :
    bitsOf (bytes ++ bytes') = bitsOf bytes ++ bitsOf bytes' := List.flatMap_append

theorem length_bitsOf (bytes : List UInt8) : (bitsOf bytes).length = 8 * bytes.length := by
  induction bytes with
  | nil => rfl
  | cons byte bytes ih =>
      rw [bitsOf_cons, List.length_append, length_natBits, ih, List.length_cons]
      ring

/-- The bits of an octet, and those behind it. -/
theorem eight_mul_succ (byte : UInt8) (n : ℕ) :
    8 * (n + 1) = (natBits 8 byte.toNat).length + 8 * n := by
  rw [length_natBits]
  ring

theorem bitsOf_drop (bytes : List UInt8) (n : ℕ) :
    (bitsOf bytes).drop (8 * n) = bitsOf (bytes.drop n) := by
  induction n generalizing bytes with
  | zero => rfl
  | succ n ih =>
      cases bytes with
      | nil => simp [bitsOf]
      | cons byte bytes =>
          rw [bitsOf_cons, eight_mul_succ byte n, List.drop_length_add_append, ih,
            List.drop_succ_cons]

theorem bitsOf_take (bytes : List UInt8) (n : ℕ) :
    (bitsOf bytes).take (8 * n) = bitsOf (bytes.take n) := by
  induction n generalizing bytes with
  | zero => rfl
  | succ n ih =>
      cases bytes with
      | nil => simp [bitsOf]
      | cons byte bytes =>
          rw [bitsOf_cons, eight_mul_succ byte n, List.take_length_add_append, ih,
            List.take_succ_cons, bitsOf_cons]

/-- **Octets are read back from their bits.** -/
theorem octets_bitsOf (bytes : List UInt8) : octets (bitsOf bytes) = bytes := by
  induction bytes with
  | nil => rfl
  | cons byte bytes ih =>
      have hbyte : UInt8.ofNat (ofBits (natBits 8 byte.toNat)) = byte := by
        rw [ofBits_natBits, Nat.mod_eq_of_lt (UInt8.toNat_lt byte), UInt8.ofNat_toNat]
      calc octets (natBits 8 byte.toNat ++ bitsOf bytes)
          = UInt8.ofNat (ofBits (natBits 8 byte.toNat)) :: octets (bitsOf bytes) := rfl
        _ = byte :: bytes := by rw [hbyte, ih]

theorem ofBits_bitsOf (bytes : List UInt8) : ofBits (bitsOf bytes) = bigEndian bytes := by
  induction bytes using List.reverseRecOn with
  | nil => rfl
  | append_singleton bytes byte ih =>
      have hbits : bitsOf [byte] = natBits 8 byte.toNat := by simp [bitsOf]
      rw [bitsOf_append, ofBits_append, ih, hbits, length_natBits, ofBits_natBits,
        Nat.mod_eq_of_lt (UInt8.toNat_lt byte), bigEndian, bigEndian, List.foldl_append]
      simp only [List.foldl_cons, List.foldl_nil]
      ring

/-- The octets of a word have its bits. -/
theorem bitsOf_wordBytes (w : BitVec 32) : bitsOf (wordBytes w) = natBits 32 w.toNat := by
  have hbyte : ∀ n : ℕ, natBits 8 (UInt8.ofNat n).toNat = natBits 8 n := by
    intro n
    rw [UInt8.toNat_ofNat', natBits_mod]
  rw [natBits_add 8 24, natBits_add 8 16, natBits_add 8 8]
  simp only [bitsOf, wordBytes, List.map_cons, List.map_nil, List.flatMap_cons, List.flatMap_nil,
    hbyte, List.append_nil, Nat.shiftRight_zero]

/-! ## The digest of octets -/

/-- A word is spelled by four octets. -/
theorem word_bitsOf (bytes : List UInt8) (t : ℕ) :
    word (bitsOf bytes) t = BitVec.ofNat 32 (bigEndian ((bytes.drop (4 * t)).take 4)) := by
  rw [word, show 32 * t = 8 * (4 * t) by ring, bitsOf_drop, show 32 = 8 * 4 by rfl, bitsOf_take,
    ofBits_bitsOf]

/-- **The padding of octets.** -/
theorem pad_bitsOf {message : List UInt8} {zeros : ℕ} {high low : BitVec 32}
    (hzeros : zeros < 64) (hblock : (message.length + 9 + zeros) % 64 = 0)
    (hlength : high.toNat * 2 ^ 32 + low.toNat = 8 * message.length) :
    pad (bitsOf message) = bitsOf
      (message ++ [0x80] ++ List.replicate zeros 0 ++ (wordBytes high ++ wordBytes low)) := by
  have hcount : zeroCount (8 * message.length) = 7 + 8 * zeros := by
    rw [zeroCount]
    omega
  have hnone : ∀ n, bitsOf (List.replicate n 0) = List.replicate (8 * n) false := by
    intro n
    induction n with
    | zero => rfl
    | succ n ih =>
        rw [List.replicate_succ, bitsOf_cons, ih, show natBits 8 (0 : UInt8).toNat =
          List.replicate 8 false by decide, ← List.replicate_add]
        congr 1
        ring
  have hmark : bitsOf [0x80] = [true] ++ List.replicate 7 false := by decide
  have hfield : natBits 64 (8 * message.length) =
      natBits 32 high.toNat ++ natBits 32 low.toNat := by
    have hlt := low.isLt
    have hhigh : (high.toNat * 2 ^ 32 + low.toNat) >>> 32 = high.toNat := by
      rw [Nat.shiftRight_eq_div_pow]
      omega
    have hlow : natBits 32 (high.toNat * 2 ^ 32 + low.toNat) = natBits 32 low.toNat := by
      rw [← natBits_mod 32 (high.toNat * 2 ^ 32 + low.toNat)]
      congr 1
      omega
    rw [← hlength, natBits_add 32 32, hhigh, hlow]
  rw [pad, length_bitsOf, hcount, List.replicate_add, hfield]
  simp only [bitsOf_append, hnone, hmark, bitsOf_wordBytes, List.append_assoc]

/-- The digest of octets, word by word. -/
theorem sha256_eq (message : List UInt8) :
    sha256 message = (hashValue (bitsOf message)).toList.flatMap wordBytes := by
  have hbits : ∀ words : List (BitVec 32),
      (words.flatMap fun w => natBits 32 w.toNat) = bitsOf (words.flatMap wordBytes) := by
    intro words
    induction words with
    | nil => rfl
    | cons w words ih =>
        rw [List.flatMap_cons, List.flatMap_cons, bitsOf_append, ih, bitsOf_wordBytes]
  rw [sha256, digest, hbits, octets_bitsOf]

end Telemetry.Lib.Sha256
