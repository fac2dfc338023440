import Telemetry.Lib.EcmaNumber
import Telemetry.Lib.FixedDigits
import Telemetry.Lib.Sha256

/-!
# The SHA-256 and HMAC of the TypeScript SDK

`hash.ts` computes the digest with the numbers of the language: sums are doubles that `>>> 0`
brings back to 32 bits, and the other operators leave a signed integer behind. Every working
variable is nevertheless an unsigned word between two rounds, and all that a round does to it is
what the standard does to the word.

The 64-bit length is split by a division and `>>> 0`, and the padded length comes from a rounded
quotient. No rounding happens, up to the longest array that the language can hold.

## Main definitions

* `sha256Words`, `sha256Bytes`, `hmacSha256Hex` — the functions of `hash.ts`.
* `hexOctets` — octets as a text, two digits each.

## Main results

* `hashBlocks_eq` — the loop over the blocks is the standard's.
* `padded_eq` — **the padding, at every length**.
* `digests_correct` — **the digest is SHA-256, and the keyed one is HMAC-SHA256**.
-/

namespace Telemetry.Receipts.TypeScript

open Telemetry.Lib Telemetry.Lib.Ecma
open Telemetry.Lib.Sha256 (Registers bigEndian wordBytes bitsOf)

/-! ## Arrays -/

/-- The element that a number names. -/
def index (x : ℚ) : ℕ := ⌊x⌋₊

/-- `new Uint8Array(length)`. -/
def newUint8Array (length : ℚ) : List UInt8 := List.replicate (index length) 0

/-- `target.set(source, offset)`. -/
def setAll (target source : List UInt8) (offset : ℚ) : List UInt8 :=
  target.take (index offset) ++ source ++ target.drop (index offset + source.length)

/-- `view.setUint32(offset, value, false)`. -/
def setUint32 (view : List UInt8) (offset value : ℚ) : List UInt8 :=
  setAll view (wordBytes (toWord value)) offset

/-- `view.getUint32(offset, false)`. -/
def getUint32 (view : List UInt8) (offset : ℕ) : ℚ := bigEndian ((view.drop offset).take 4)

/-- What an element of a `Uint8Array` becomes when a number is stored in it. -/
def toUint8 (x : ℚ) : UInt8 := UInt8.ofBitVec (BitVec.ofInt 8 (truncate x))

/-! ## The digest -/

/-- `INITIAL_HASH`. -/
def initialHash : Registers ℚ :=
  ⟨0x6a09e667, 0xbb67ae85, 0x3c6ef372, 0xa54ff53a, 0x510e527f, 0x9b05688c, 0x1f83d9ab, 0x5be0cd19⟩

/-- `ROUND_CONSTANTS`. -/
def roundConstants : List ℚ := [
  0x428a2f98, 0x71374491, 0xb5c0fbcf, 0xe9b5dba5, 0x3956c25b, 0x59f111f1, 0x923f82a4, 0xab1c5ed5,
  0xd807aa98, 0x12835b01, 0x243185be, 0x550c7dc3, 0x72be5d74, 0x80deb1fe, 0x9bdc06a7, 0xc19bf174,
  0xe49b69c1, 0xefbe4786, 0x0fc19dc6, 0x240ca1cc, 0x2de92c6f, 0x4a7484aa, 0x5cb0a9dc, 0x76f988da,
  0x983e5152, 0xa831c66d, 0xb00327c8, 0xbf597fc7, 0xc6e00bf3, 0xd5a79147, 0x06ca6351, 0x14292967,
  0x27b70a85, 0x2e1b2138, 0x4d2c6dfc, 0x53380d13, 0x650a7354, 0x766a0abb, 0x81c2c92e, 0x92722c85,
  0xa2bfe8a1, 0xa81a664b, 0xc24b8b70, 0xc76c51a3, 0xd192e819, 0xd6990624, 0xf40e3585, 0x106aa070,
  0x19a4c116, 0x1e376c08, 0x2748774c, 0x34b0bcb5, 0x391c0cb3, 0x4ed8aa4a, 0x5b9cca4f, 0x682e6ff3,
  0x748f82ee, 0x78a5636f, 0x84c87814, 0x8cc70208, 0x90befffa, 0xa4506ceb, 0xbef9a3f7, 0xc67178f2]

/-- `add32`. -/
def add32 (values : List ℚ) : ℚ :=
  values.foldl (fun sum value => shiftRight (add sum (shiftRight value 0)) 0) 0

/-- `rotateRight`. -/
def rotateRight (value bits : ℚ) : ℚ :=
  bitOr (shiftRight value bits) (shiftLeft value (sub 32 bits))

/-- `words[i]` of a `Uint32Array`. -/
def wordAt (words : List (BitVec 32)) (i : ℕ) : ℚ := unsigned (words.getD i 0)

/-- The loop that reads a block. -/
def readBlock (view : List UInt8) (offset : ℕ) (words : List (BitVec 32)) : List (BitVec 32) :=
  (List.range 16).foldl (fun words i => words.set i (toWord (getUint32 view (offset + i * 4))))
    words

/-- What the loop over the message schedule stores at `i`. -/
def scheduled (words : List (BitVec 32)) (i : ℕ) : ℚ :=
  let w15 := wordAt words (i - 15)
  let w2 := wordAt words (i - 2)
  let sigma0 := bitXor (bitXor (rotateRight w15 7) (rotateRight w15 18)) (shiftRight w15 3)
  let sigma1 := bitXor (bitXor (rotateRight w2 17) (rotateRight w2 19)) (shiftRight w2 10)
  add32 [wordAt words (i - 16), sigma0, wordAt words (i - 7), sigma1]

/-- The loop over the message schedule. -/
def extendWords (words : List (BitVec 32)) : List (BitVec 32) :=
  (List.range 48).foldl
    (fun words idx => words.set (idx + 16) (toWord (scheduled words (idx + 16)))) words

/-- The body of the loop over the rounds. -/
def round (r : Registers ℚ) (constant word : ℚ) : Registers ℚ :=
  let sum1 := bitXor (bitXor (rotateRight r.e 6) (rotateRight r.e 11)) (rotateRight r.e 25)
  let choose := bitXor (bitAnd r.e r.f) (bitAnd (bitNot r.e) r.g)
  let temp1 := add32 [r.h, sum1, choose, constant, word]
  let sum0 := bitXor (bitXor (rotateRight r.a 2) (rotateRight r.a 13)) (rotateRight r.a 22)
  let majority := bitXor (bitXor (bitAnd r.a r.b) (bitAnd r.a r.c)) (bitAnd r.b r.c)
  let temp2 := add32 [sum0, majority]
  { h := r.g, g := r.f, f := r.e, e := add32 [r.d, temp1], d := r.c, c := r.b, b := r.a,
    a := add32 [temp1, temp2] }

/-- The loop over the rounds. -/
def rounds (words : List (BitVec 32)) (r : Registers ℚ) : Registers ℚ :=
  (List.range 64).foldl (fun r i => round r (roundConstants.getD i 0) (wordAt words i)) r

/-- The loop over the blocks, from `offset` on. The words keep what the block before has left. -/
def hashBlocks (view : List UInt8) (offset : ℕ) (words : List (BitVec 32)) (h : Registers ℚ) :
    Registers ℚ :=
  if offset < view.length then
    let words := extendWords (readBlock view offset words)
    hashBlocks view (offset + 64) words
      (h.zipWith (fun h x => add32 [h, x]) (rounds words h))
  else h
termination_by view.length - offset

/-- `paddedLength`. -/
def paddedLength (length : ℕ) : ℚ := mul (ceil (div (add length 9) 64)) 64

/-- The padded message. -/
def padded (bytes : List UInt8) : List UInt8 :=
  let bitLength := mul bytes.length 8
  let view := newUint8Array (paddedLength bytes.length)
  let view := setAll view bytes 0
  let view := view.set bytes.length 0x80
  let highBits := floor (div bitLength 0x100000000)
  let lowBits := shiftRight bitLength 0
  let view := setUint32 view (sub (paddedLength bytes.length) 8) highBits
  setUint32 view (sub (paddedLength bytes.length) 4) lowBits

/-- `sha256Words`. -/
def sha256Words (bytes : List UInt8) : List ℚ :=
  (hashBlocks (padded bytes) 0 (List.replicate 64 0) initialHash).toList

/-- `wordsToBytes`. -/
def wordsToBytes (words : List ℚ) : List UInt8 :=
  words.zipIdx.foldl (fun view p => setUint32 view (mul p.2 4) p.1)
    (newUint8Array (mul words.length 4))

/-- `sha256Bytes`. -/
def sha256Bytes (bytes : List UInt8) : List UInt8 := wordsToBytes (sha256Words bytes)

/-! ## The keyed digest -/

/-- `x.toString(16)` of an integer. -/
def toString16 (x : ℚ) : List Char :=
  if x < 0 then '-' :: Nat.toDigits 16 ⌊-x⌋₊ else Nat.toDigits 16 ⌊x⌋₊

/-- `s.padStart(8, '0')`. -/
def padStart8 (s : List Char) : List Char := List.replicate (8 - s.length) '0' ++ s

/-- `wordsToHex`. -/
def wordsToHex (words : List ℚ) : String :=
  String.ofList (words.flatMap fun word => padStart8 (toString16 word))

/-- `HMAC_BLOCK_SIZE`. -/
def hmacBlockSize : ℕ := 64

/-- `HMAC_INNER_PAD`. -/
def hmacInnerPad : ℚ := 0x36

/-- `HMAC_OUTER_PAD`. -/
def hmacOuterPad : ℚ := 0x5c

/-- The body of the loop over the block of the key, on `inner` and `outer`. -/
def padKey (arrays : List UInt8 × List UInt8) (p : UInt8 × ℕ) : List UInt8 × List UInt8 :=
  (arrays.1.set p.2 (toUint8 (bitXor p.1.toNat hmacInnerPad)),
    arrays.2.set p.2 (toUint8 (bitXor p.1.toNat hmacOuterPad)))

/-- `hmacSha256Hex`. -/
def hmacSha256Hex (key message : List UInt8) : String :=
  let block := setAll (newUint8Array hmacBlockSize)
    (if key.length > hmacBlockSize then sha256Bytes key else key) 0
  let arrays := block.zipIdx.foldl padKey
    (newUint8Array (add hmacBlockSize message.length), newUint8Array (add hmacBlockSize 32))
  let inner := setAll arrays.1 message hmacBlockSize
  let outer := setAll arrays.2 (sha256Bytes inner) hmacBlockSize
  wordsToHex (sha256Words outer)

/-! ## The operators on words -/

theorem add32_eq (values : List ℚ) : add32 values = unsigned (values.map toWord).sum := by
  have hfrom : ∀ (values : List ℚ) (w : BitVec 32),
      values.foldl (fun sum value => shiftRight (add sum (shiftRight value 0)) 0) (unsigned w) =
        unsigned (w + (values.map toWord).sum) := by
    intro values
    induction values with
    | nil => simp
    | cons value values ih =>
        intro w
        rw [List.foldl_cons, shiftRight_zero value, shiftRight_zero, toWord_add_unsigned, ih,
          List.map_cons, List.sum_cons, add_assoc]
  have hzero : unsigned 0 = 0 := by simp [unsigned]
  have hsum := hfrom values 0
  rwa [hzero, zero_add] at hsum

theorem toWord_ofNat (n : ℕ) : toWord (OfNat.ofNat n) = BitVec.ofNat 32 n := toWord_natCast n

theorem toWord_shiftRight (x : ℚ) {n : ℕ} (h : n < 32) :
    toWord (shiftRight x (OfNat.ofNat n)) = toWord x >>> n := by
  rw [shiftRight, toWord_unsigned, toWord_ofNat, BitVec.toNat_ofNat]
  congr 1
  omega

/-- **A rotation is a rotation of the word**, though its two halves have different signs. -/
theorem toWord_rotateRight (x : ℚ) {n : ℕ} (hpos : 0 < n) (h : n < 32) :
    toWord (rotateRight x (OfNat.ofNat n)) = (toWord x).rotateRight n := by
  have hsub : sub 32 (OfNat.ofNat n) = OfNat.ofNat (32 - n) :=
    sub_natCast (m := 32) (n := n) (by omega) (by omega)
  have hshift : (BitVec.ofNat 32 (32 - n)).toNat % 32 = 32 - n := by
    rw [BitVec.toNat_ofNat]
    omega
  rw [rotateRight, bitOr, toWord_signed, toWord_shiftRight x h, hsub, shiftLeft, toWord_signed,
    toWord_ofNat, hshift, BitVec.rotateRight_eq_rotateRightAux_of_lt h, BitVec.rotateRightAux]

@[simp] theorem toWord_bitXor (x y : ℚ) : toWord (bitXor x y) = toWord x ^^^ toWord y := by
  rw [bitXor, toWord_signed]

@[simp] theorem toWord_bitAnd (x y : ℚ) : toWord (bitAnd x y) = toWord x &&& toWord y := by
  rw [bitAnd, toWord_signed]

@[simp] theorem toWord_bitNot (x : ℚ) : toWord (bitNot x) = ~~~toWord x := by
  rw [bitNot, toWord_signed]

/-! ## One block -/

theorem toWord_wordAt (words : List (BitVec 32)) (i : ℕ) :
    toWord (wordAt words i) = words.getD i 0 := toWord_unsigned _

theorem roundConstants_eq : roundConstants = Sha256.K.map unsigned := by decide +kernel

theorem initialHash_eq : initialHash = Sha256.initial.map unsigned := by decide +kernel

/-- **One round on words is the standard's.** -/
theorem round_map (r : Registers (BitVec 32)) (k w : BitVec 32) :
    round (r.map unsigned) (unsigned k) (unsigned w) = (Sha256.round r k w).map unsigned := by
  simp only [round, Sha256.round, Registers.map, add32_eq, List.map_cons, List.map_nil,
    List.sum_cons, List.sum_nil, add_zero, toWord_unsigned, toWord_bitXor, toWord_bitAnd,
    toWord_bitNot, toWord_rotateRight _ (show 0 < 6 by decide) (by decide),
    toWord_rotateRight _ (show 0 < 11 by decide) (by decide),
    toWord_rotateRight _ (show 0 < 25 by decide) (by decide),
    toWord_rotateRight _ (show 0 < 2 by decide) (by decide),
    toWord_rotateRight _ (show 0 < 13 by decide) (by decide),
    toWord_rotateRight _ (show 0 < 22 by decide) (by decide),
    Sha256.Ch, Sha256.Maj, Sha256.bigSigma0, Sha256.bigSigma1, add_assoc]

theorem rounds_map (words : List (BitVec 32)) (r : Registers (BitVec 32)) :
    rounds words (r.map unsigned) = ((List.range 64).foldl
      (fun r t => Sha256.round r (Sha256.K.getD t 0) (words.getD t 0)) r).map unsigned := by
  have hconstant : ∀ i, roundConstants.getD i 0 = unsigned (Sha256.K.getD i 0) := by
    intro i
    have hzero : (0 : ℚ) = unsigned 0 := by simp [unsigned]
    rw [roundConstants_eq, hzero, List.getD_map]
  have hfold : ∀ (is : List ℕ) (r : Registers (BitVec 32)),
      is.foldl (fun r i => round r (roundConstants.getD i 0) (wordAt words i)) (r.map unsigned) =
        (is.foldl (fun r t => Sha256.round r (Sha256.K.getD t 0) (words.getD t 0)) r).map
          unsigned := by
    intro is
    induction is with
    | nil => exact fun _ => rfl
    | cons i is ih =>
        intro r
        rw [List.foldl_cons, List.foldl_cons, hconstant, wordAt, round_map, ih]
  exact hfold _ r

/-- What is stored at `i` is the next word of the schedule, whatever stands behind. -/
theorem toWord_scheduled {words : List (BitVec 32)} {i : ℕ} (hi : 16 ≤ i)
    (hlength : i ≤ words.length) :
    Sha256.extend (words.take i) = words.take i ++ [toWord (scheduled words i)] := by
  have hat : ∀ j < i, (words.take i).getD j 0 = words.getD j 0 := by
    intro j hj
    rw [List.getD_eq_getElem?_getD, List.getD_eq_getElem?_getD, List.getElem?_take_of_lt hj]
  have hlen : (words.take i).length = i := by
    rw [List.length_take]
    omega
  rw [Sha256.extend, hlen, hat _ (by omega), hat _ (by omega), hat _ (by omega),
    hat _ (by omega)]
  simp only [scheduled, add32_eq, List.map_cons, List.map_nil, List.sum_cons, List.sum_nil,
    add_zero, toWord_unsigned, toWord_bitXor, toWord_wordAt,
    toWord_rotateRight _ (show 0 < 7 by decide) (by decide),
    toWord_rotateRight _ (show 0 < 18 by decide) (by decide),
    toWord_rotateRight _ (show 0 < 17 by decide) (by decide),
    toWord_rotateRight _ (show 0 < 19 by decide) (by decide),
    toWord_shiftRight _ (show 3 < 32 by decide), toWord_shiftRight _ (show 10 < 32 by decide),
    Sha256.sigma0, Sha256.sigma1]
  congr 2
  ring

/-- What a loop that writes one element after another leaves at the start of a list. -/
theorem take_set_succ {α : Type} {l : List α} {n : ℕ} (h : n < l.length) (x : α) :
    (l.set n x).take (n + 1) = l.take n ++ [x] := by
  rw [List.take_succ_eq_append_getElem (by simpa using h), List.take_set_of_le le_rfl,
    List.getElem_set_self]

/-- What every round of a counted loop keeps, the loop keeps. -/
theorem foldl_range_keeps {β : Type} {P : ℕ → β → Prop} {f : β → ℕ → β} {b : β} (hzero : P 0 b)
    {n : ℕ} (hstep : ∀ i < n, ∀ b, P i b → P (i + 1) (f b i)) :
    P n ((List.range n).foldl f b) := by
  induction n with
  | zero => exact hzero
  | succ n ih =>
      rw [List.range_succ, List.foldl_append, List.foldl_cons, List.foldl_nil]
      exact hstep n (Nat.lt_succ_self n) _ (ih fun i hi => hstep i (Nat.lt_succ_of_lt hi))

/-- The loop over the schedule. -/
theorem extendWords_eq {words : List (BitVec 32)} (hlength : words.length = 64) :
    extendWords words = Sha256.schedule (words.take 16) := by
  let P (n : ℕ) (result : List (BitVec 32)) : Prop :=
    result.length = 64 ∧ result.take (n + 16) = Sha256.extend^[n] (words.take 16)
  have hstep : ∀ n < 48, ∀ result, P n result →
      P (n + 1) (result.set (n + 16) (toWord (scheduled result (n + 16)))) := by
    intro n hn result ⟨hlen, htake⟩
    refine ⟨by rw [List.length_set, hlen], ?_⟩
    rw [show n + 1 + 16 = n + 16 + 1 by ring, take_set_succ (by omega),
      ← toWord_scheduled (by omega) (by omega), htake, Function.iterate_succ_apply']
  obtain ⟨hlen, htake⟩ := foldl_range_keeps (P := P) ⟨hlength, rfl⟩ hstep
  rw [extendWords, Sha256.schedule, ← htake]
  exact (List.take_of_length_le hlen.le).symm

/-- The loop that reads a block. -/
theorem readBlock_eq (bytes : List UInt8) (j : ℕ) {words : List (BitVec 32)}
    (hlength : words.length = 64) :
    (readBlock bytes (64 * j) words).length = 64 ∧
      (readBlock bytes (64 * j) words).take 16 =
        (List.range 16).map fun t => Sha256.word (bitsOf bytes) (16 * j + t) := by
  have hread : ∀ i, toWord (getUint32 bytes (64 * j + i * 4)) =
      Sha256.word (bitsOf bytes) (16 * j + i) := by
    intro i
    rw [getUint32, toWord_natCast, Sha256.word_bitsOf]
    congr 5
    ring
  let P (n : ℕ) (result : List (BitVec 32)) : Prop := result.length = 64 ∧
    result.take n = (List.range n).map fun t => Sha256.word (bitsOf bytes) (16 * j + t)
  have hstep : ∀ i < 16, ∀ result, P i result →
      P (i + 1) (result.set i (toWord (getUint32 bytes (64 * j + i * 4)))) := by
    intro i hi result ⟨hlen, htake⟩
    refine ⟨by rw [List.length_set, hlen], ?_⟩
    rw [take_set_succ (by omega), htake, hread, List.range_succ, List.map_append,
      List.map_singleton]
  exact foldl_range_keeps (P := P) ⟨hlength, rfl⟩ hstep

/-! ## The loop over the blocks -/

theorem length_extend (W : List (BitVec 32)) : (Sha256.extend W).length = W.length + 1 := by
  simp [Sha256.extend]

theorem length_schedule (block : List (BitVec 32)) :
    (Sha256.schedule block).length = block.length + 48 := by
  have hrun : ∀ n, (Sha256.extend^[n] block).length = block.length + n := by
    intro n
    induction n with
    | zero => rfl
    | succ n ih =>
        rw [Function.iterate_succ_apply', length_extend, ih]
        ring
  exact hrun 48

/-- The sums at the end of a block. -/
theorem update_map (H r : Registers (BitVec 32)) :
    (H.map unsigned).zipWith (fun h x => add32 [h, x]) (r.map unsigned) =
      (r.zipWith (· + ·) H).map unsigned := by
  have hpair : ∀ v w, add32 [unsigned v, unsigned w] = unsigned (w + v) := by
    intro v w
    rw [add32_eq]
    simp [add_comm]
  simp only [Registers.zipWith, Registers.map, hpair]

/-- **The loop, from any block on.** -/
theorem hashBlocks_eq {bytes : List UInt8} {n : ℕ} (hbytes : bytes.length = 64 * n) (j : ℕ)
    {words : List (BitVec 32)} (hlength : words.length = 64) (H : Registers (BitVec 32)) :
    hashBlocks bytes (64 * j) words (H.map unsigned) =
      ((((List.range n).drop j).map fun j => (List.range 16).map fun t =>
        Sha256.word (bitsOf bytes) (16 * j + t)).foldl Sha256.compress H).map unsigned := by
  rw [hashBlocks]
  by_cases hj : j < n
  · rw [if_pos (by omega)]
    obtain ⟨hread, hblock⟩ := readBlock_eq bytes j hlength
    have hextend : extendWords (readBlock bytes (64 * j) words) =
        Sha256.schedule ((List.range 16).map fun t => Sha256.word (bitsOf bytes) (16 * j + t)) := by
      rw [extendWords_eq hread, hblock]
    have hlong : (extendWords (readBlock bytes (64 * j) words)).length = 64 := by
      rw [hextend, length_schedule, List.length_map, List.length_range]
    have hcompress : (H.map unsigned).zipWith (fun h x => add32 [h, x])
        (rounds (extendWords (readBlock bytes (64 * j) words)) (H.map unsigned)) =
        (Sha256.compress H ((List.range 16).map fun t =>
          Sha256.word (bitsOf bytes) (16 * j + t))).map unsigned := by
      rw [rounds_map, hextend, update_map]
      rfl
    have hdrop : (List.range n).drop j = j :: (List.range n).drop (j + 1) := by
      rw [List.drop_eq_getElem_cons (by simpa using hj), List.getElem_range]
    dsimp only
    rw [hdrop, List.map_cons, List.foldl_cons, hcompress,
      show 64 * j + 64 = 64 * (j + 1) by ring]
    exact hashBlocks_eq hbytes (j + 1) hlong _
  · rw [if_neg (by omega), List.drop_eq_nil_of_le (by simpa using hj)]
    rfl
termination_by n - j

/-! ## The padding -/

theorem index_natCast (n : ℕ) : index n = n := Nat.floor_natCast n

/-- Storing what is as long as what it replaces. -/
theorem setAll_eq {before old source after : List UInt8} {offset : ℚ}
    (hoffset : index offset = before.length) (hlength : old.length = source.length) :
    setAll (before ++ (old ++ after)) source offset = before ++ (source ++ after) := by
  rw [setAll, hoffset, ← hlength, List.take_left, ← List.drop_drop, List.drop_left, List.drop_left,
    List.append_assoc]

theorem length_wordBytes (w : BitVec 32) : (wordBytes w).length = 4 := rfl

theorem setUint32_eq {before after : List UInt8} {offset : ℚ}
    (hoffset : index offset = before.length) (value : ℚ) :
    setUint32 (before ++ (List.replicate 4 0 ++ after)) offset value =
      before ++ (wordBytes (toWord value) ++ after) := by
  have hlength : (List.replicate 4 (0 : UInt8)).length = (wordBytes (toWord value)).length := by
    rw [List.length_replicate, length_wordBytes]
  exact setAll_eq hoffset hlength

/-- The padded length is the next multiple of 64. -/
theorem paddedLength_eq {n : ℕ} (h : n + 72 < 2 ^ 53) :
    paddedLength n = (64 * ((n + 72) / 64) : ℕ) := by
  have hceil : ceil (((n + 9 : ℕ) : ℚ) / (2 ^ 6 : ℕ)) = ((n + 72) / 64 : ℕ) := by
    have hfloor : ⌈((n + 9 : ℕ) : ℚ) / (2 ^ 6 : ℕ)⌉ = (((n + 72) / 64 : ℕ) : ℤ) := by
      rw [Int.ceil_eq_iff, lt_div_iff₀ (by positivity), div_le_iff₀ (by positivity)]
      have hlow : (((n + 72) / 64 : ℕ) : ℤ) * 64 < n + 9 + 64 := by omega
      have hhigh : n + 9 ≤ (n + 72) / 64 * 64 := by omega
      constructor
      · have hlow' : ((((n + 72) / 64 : ℕ) : ℤ) : ℚ) * 64 < n + 9 + 64 := by exact_mod_cast hlow
        push_cast at hlow' ⊢
        linarith
      · exact_mod_cast hhigh
    rw [ceil, hfloor, Int.cast_natCast]
  have hnine : add n 9 = (n + 9 : ℕ) := add_natCast (m := n) (n := 9) (by omega)
  calc paddedLength n = mul (ceil (div (n + 9 : ℕ) (2 ^ 6 : ℕ))) (2 ^ 6 : ℕ) := by
        rw [paddedLength, hnine]
        norm_num
    _ = ((n + 72) / 64 * 2 ^ 6 : ℕ) := by
        rw [div_two_pow (by omega) (by omega), hceil, mul_two_pow 6 (by omega)]
    _ = _ := by
        congr 1
        ring

/-- **The padding, at every length.** -/
theorem padded_eq {bytes : List UInt8} (h : bytes.length + 72 < 2 ^ 53) :
    ∃ (zeros : ℕ) (high low : BitVec 32), zeros < 64 ∧ (bytes.length + 9 + zeros) % 64 = 0 ∧
      high.toNat * 2 ^ 32 + low.toNat = 8 * bytes.length ∧
      padded bytes =
        bytes ++ [0x80] ++ List.replicate zeros 0 ++ (wordBytes high ++ wordBytes low) := by
  obtain ⟨n, hn⟩ : ∃ n, n = bytes.length := ⟨_, rfl⟩
  rw [← hn] at h ⊢
  obtain ⟨zeros, hzeros⟩ : ∃ zeros, zeros = 64 * ((n + 72) / 64) - (n + 9) := ⟨_, rfl⟩
  have htotal : 64 * ((n + 72) / 64) = n + 9 + zeros := by omega
  have hlength : paddedLength n = (n + 9 + zeros : ℕ) := by rw [paddedLength_eq h, htotal]
  have hbits : mul n 8 = (n * 8 : ℕ) := mul_two_pow 3 (by omega)
  have hhigh : floor (div (n * 8 : ℕ) 0x100000000) = (n / 2 ^ 29 : ℕ) := by
    have hdiv : div (n * 8 : ℕ) 0x100000000 = (n : ℚ) / (2 ^ 29 : ℕ) := by
      rw [← div_two_pow (by omega) (by omega), div, div]
      congr 1
      push_cast
      ring
    rw [hdiv, floor, Rat.floor_natCast_div_natCast]
    norm_cast
  have hlow : toWord (shiftRight (n * 8 : ℕ) 0) = BitVec.ofNat 32 (n * 8) := by
    rw [shiftRight_zero, toWord_unsigned, toWord_natCast]
  refine ⟨zeros, BitVec.ofNat 32 (n / 2 ^ 29), BitVec.ofNat 32 (n * 8), by omega, by omega, ?_, ?_⟩
  · rw [BitVec.toNat_ofNat, BitVec.toNat_ofNat]
    omega
  · have hnew : newUint8Array (n + 9 + zeros : ℕ) = [] ++ (List.replicate n 0 ++ ([0] ++
        (List.replicate zeros 0 ++ (List.replicate 4 0 ++ (List.replicate 4 0 ++ []))))) := by
      have hcount : n + 9 + zeros = n + (1 + (zeros + (4 + 4))) := by ring
      rw [newUint8Array, index_natCast, hcount]
      simp only [List.replicate_add, List.append_nil, List.nil_append, List.replicate_one]
    have hmessage : (List.replicate n (0 : UInt8)).length = bytes.length := by
      rw [List.length_replicate, hn]
    have height : sub (n + 9 + zeros : ℕ) 8 = (n + 1 + zeros : ℕ) := by
      have hsub := sub_natCast (m := n + 9 + zeros) (n := 8) (by omega) (by omega)
      rwa [show n + 9 + zeros - 8 = n + 1 + zeros by omega] at hsub
    have hfour : sub (n + 9 + zeros : ℕ) 4 = (n + 5 + zeros : ℕ) := by
      have hsub := sub_natCast (m := n + 9 + zeros) (n := 4) (by omega) (by omega)
      rwa [show n + 9 + zeros - 4 = n + 5 + zeros by omega] at hsub
    have hset : ∀ rest : List UInt8,
        (bytes ++ ([0] ++ rest)).set n 0x80 = bytes ++ ([0x80] ++ rest) := by
      intro rest
      rw [List.set_append_right _ _ hn.ge, hn, Nat.sub_self]
      rfl
    -- the three stores: the message, its end mark, and the two halves of the length
    rw [padded, ← hn, hlength, hbits, height, hfour, hhigh, hnew,
      setAll_eq (by simp [index]) hmessage, List.nil_append, hset]
    have hassoc : ∀ w : List UInt8, bytes ++ ([0x80] ++ (List.replicate zeros 0 ++ w)) =
        (bytes ++ [0x80] ++ List.replicate zeros 0) ++ w := by
      intro w
      simp only [List.append_assoc]
    have hmarked : (bytes ++ [0x80] ++ List.replicate zeros (0 : UInt8)).length =
        n + 1 + zeros := by
      rw [List.length_append, List.length_append, List.length_replicate, List.length_singleton, hn]
    rw [hassoc, setUint32_eq (by rw [index_natCast, hmarked]), toWord_natCast,
      ← List.append_assoc, setUint32_eq, hlow, List.append_nil, List.append_assoc]
    rw [index_natCast, List.length_append, hmarked, length_wordBytes]
    ring

/-- The words of the digest are the standard's. -/
theorem sha256Words_eq {bytes : List UInt8} (h : bytes.length + 72 < 2 ^ 53) :
    sha256Words bytes = (Sha256.hashValue (bitsOf bytes)).toList.map unsigned := by
  obtain ⟨zeros, high, low, hzeros, hblock, hlength, hpadded⟩ := padded_eq h
  have hpad := Sha256.pad_bitsOf hzeros hblock hlength
  rw [← hpadded] at hpad
  have htotal : (padded bytes).length = bytes.length + 9 + zeros := by
    rw [hpadded]
    simp only [List.length_append, List.length_replicate, List.length_singleton, length_wordBytes]
    omega
  have hbytes : (padded bytes).length = 64 * ((padded bytes).length / 64) := by omega
  have hloop := hashBlocks_eq hbytes 0
    (show (List.replicate 64 (0 : BitVec 32)).length = 64 by simp) Sha256.initial
  rw [mul_zero] at hloop
  have hcount : 8 * (padded bytes).length / 512 = (padded bytes).length / 64 := by omega
  rw [sha256Words, initialHash_eq, hloop, Registers.toList_map, List.drop_zero, Sha256.hashValue,
    hpad, Sha256.blocks, Sha256.length_bitsOf, hcount]

/-! ## Octets and digits -/

/-- The words of a digest, stored one after another. -/
theorem wordsToBytes_eq {words : List (BitVec 32)} (h : words.length < 2 ^ 50) :
    wordsToBytes (words.map unsigned) = words.flatMap wordBytes := by
  have hrun : ∀ (rest stored : List (BitVec 32)), stored.length + rest.length < 2 ^ 50 →
      ((rest.map unsigned).zipIdx stored.length).foldl
        (fun view p => setUint32 view (mul p.2 4) p.1)
        (stored.flatMap wordBytes ++ List.replicate (4 * rest.length) 0) =
      (stored ++ rest).flatMap wordBytes := by
    intro rest
    induction rest with
    | nil => simp
    | cons w rest ih =>
        intro stored hlength
        rw [List.length_cons] at hlength
        have hoffset : mul stored.length 4 = (stored.length * 4 : ℕ) := mul_two_pow 2 (by omega)
        have hstored : (stored.flatMap wordBytes).length = stored.length * 4 := by
          rw [List.length_flatMap]
          simp [length_wordBytes]
        have hzeros : List.replicate (4 * (w :: rest).length) (0 : UInt8) =
            List.replicate 4 0 ++ List.replicate (4 * rest.length) 0 := by
          rw [← List.replicate_add, List.length_cons]
          congr 1
          ring
        have hstep := ih (stored ++ [w]) (by rw [List.length_append, List.length_singleton]; omega)
        rw [List.length_append, List.length_singleton, List.flatMap_append, List.flatMap_singleton,
          List.append_assoc, List.append_assoc, List.singleton_append] at hstep
        rw [List.map_cons, List.zipIdx_cons, List.foldl_cons, hoffset, hzeros,
          setUint32_eq (by rw [index_natCast, hstored]), toWord_unsigned, hstep]
  have hcount : mul (words.map unsigned).length 4 = (words.length * 4 : ℕ) := by
    rw [List.length_map]
    exact mul_two_pow 2 (by omega)
  have hall := hrun words [] (by simpa using h)
  rw [List.flatMap_nil, List.nil_append, List.length_nil, List.nil_append] at hall
  rw [wordsToBytes, hcount, newUint8Array, index_natCast, mul_comm, hall]

/-- **The octets of the digest are SHA-256's.** -/
theorem sha256Bytes_eq {bytes : List UInt8} (h : bytes.length + 72 < 2 ^ 53) :
    sha256Bytes bytes = Sha256.sha256 bytes := by
  have hlength : (Sha256.hashValue (bitsOf bytes)).toList.length < 2 ^ 50 := by
    simp [Registers.toList]
  rw [sha256Bytes, sha256Words_eq h, wordsToBytes_eq hlength, Sha256.sha256_eq]

/-- The last `width` hexadecimal digits of a number. -/
def hexDigits : ℕ → ℕ → List Char
  | 0, _ => []
  | width + 1, n => hexDigits width (n / 16) ++ [Nat.digitChar (n % 16)]

/-- Octets as a text, two digits each. -/
def hexOctets (bytes : List UInt8) : String :=
  String.ofList (bytes.flatMap fun byte => hexDigits 2 byte.toNat)

theorem hexDigits_eq (width n : ℕ) : hexDigits width n = fixedDigits 16 width n := by
  induction width generalizing n with
  | zero => rfl
  | succ width ih => rw [hexDigits, fixedDigits, ih]

theorem hexDigits_add (width width' n : ℕ) :
    hexDigits (width + width') n = hexDigits width (n / 16 ^ width') ++ hexDigits width' n := by
  induction width' generalizing n with
  | zero => simp [hexDigits]
  | succ width' ih =>
      rw [← add_assoc, hexDigits, hexDigits, ih, Nat.div_div_eq_div_mul, ← pow_succ',
        List.append_assoc]

/-- A word's digits are its octets'. -/
theorem hexDigits_word (w : BitVec 32) :
    hexDigits 8 w.toNat = (wordBytes w).flatMap fun byte => hexDigits 2 byte.toNat := by
  have hbyte : ∀ n : ℕ, hexDigits 2 (UInt8.ofNat n).toNat = hexDigits 2 n := by
    intro n
    simp only [UInt8.toNat_ofNat', hexDigits]
    rw [show n % 2 ^ 8 / 16 % 16 = n / 16 % 16 by omega, show n % 2 ^ 8 % 16 = n % 16 by omega]
  rw [hexDigits_add 2 6, hexDigits_add 2 4, hexDigits_add 2 2]
  simp only [wordBytes, List.map_cons, List.map_nil, List.flatMap_cons, List.flatMap_nil, hbyte,
    List.append_nil, Nat.shiftRight_eq_div_pow]
  norm_num

/-- **The text of a digest has the digits of its octets.** -/
theorem wordsToHex_eq (words : List (BitVec 32)) :
    wordsToHex (words.map unsigned) = hexOctets (words.flatMap wordBytes) := by
  have hword : ∀ w : BitVec 32, padStart8 (toString16 (unsigned w)) = hexDigits 8 w.toNat := by
    intro w
    have hlt : w.toNat < 16 ^ (7 + 1) := w.isLt
    rw [toString16, if_neg (by simp [unsigned]), padStart8, unsigned, Nat.floor_natCast,
      hexDigits_eq]
    exact replicate_append_toDigits (by decide) hlt
  rw [wordsToHex, hexOctets, List.flatMap_map, List.flatMap_assoc]
  simp only [hword, hexDigits_word]

/-! ## The keyed digest is HMAC -/

/-- `^` of two octets. -/
theorem toUint8_bitXor (b c : UInt8) : toUint8 (bitXor b.toNat c.toNat) = b ^^^ c := by
  have htruncate : ∀ n : ℤ, truncate n = n := by
    intro n
    rw [truncate, Int.floor_intCast, Int.ceil_intCast, ite_self]
  have hwidth : ∀ b : UInt8, (BitVec.ofNat 32 b.toNat).setWidth 8 = b.toBitVec := by
    intro b
    have hlt := b.toNat_lt
    apply BitVec.eq_of_toNat_eq
    rw [BitVec.toNat_setWidth, BitVec.toNat_ofNat, UInt8.toNat_toBitVec]
    omega
  apply UInt8.toBitVec_inj.mp
  rw [toUint8, bitXor, signed, htruncate, toWord_natCast, toWord_natCast, UInt8.toBitVec_xor,
    ← BitVec.signExtend.eq_1, BitVec.signExtend_eq_setWidth_of_le _ (by decide),
    BitVec.setWidth_xor, hwidth, hwidth]

/-- A loop that stores at one index after another. -/
theorem foldl_set_zipIdx (f : UInt8 → UInt8) (block before rest : List UInt8)
    (h : block.length ≤ rest.length) :
    (block.zipIdx before.length).foldl (fun view p => view.set p.2 (f p.1)) (before ++ rest) =
      before ++ (block.map f ++ rest.drop block.length) := by
  induction block generalizing before rest with
  | nil => rfl
  | cons byte block ih =>
      cases rest with
      | nil => simp at h
      | cons old rest =>
          have hstep := ih (before ++ [f byte]) rest (by simpa using h)
          rw [List.length_append, List.length_singleton] at hstep
          rw [List.zipIdx_cons, List.foldl_cons, List.set_append_right _ _ le_rfl, Nat.sub_self,
            List.set_cons_zero, ← List.singleton_append, ← List.append_assoc, hstep]
          simp

/-- The loop over the block of the key. -/
theorem foldl_padKey (block : List UInt8) {m n : ℕ} (hm : block.length ≤ m)
    (hn : block.length ≤ n) :
    block.zipIdx.foldl padKey (List.replicate m 0, List.replicate n 0) =
      (block.map (· ^^^ 0x36) ++ List.replicate (m - block.length) 0,
        block.map (· ^^^ 0x5c) ++ List.replicate (n - block.length) 0) := by
  have hinner : ∀ b : UInt8, toUint8 (bitXor b.toNat hmacInnerPad) = b ^^^ 0x36 :=
    fun b => toUint8_bitXor b 0x36
  have houter : ∀ b : UInt8, toUint8 (bitXor b.toNat hmacOuterPad) = b ^^^ 0x5c :=
    fun b => toUint8_bitXor b 0x5c
  have hpair : ∀ (ps : List (UInt8 × ℕ)) (inner outer : List UInt8),
      ps.foldl padKey (inner, outer) =
        (ps.foldl (fun view p => view.set p.2 (p.1 ^^^ 0x36)) inner,
          ps.foldl (fun view p => view.set p.2 (p.1 ^^^ 0x5c)) outer) := by
    intro ps
    induction ps with
    | nil => exact fun _ _ => rfl
    | cons p ps ih =>
        intro inner outer
        rw [List.foldl_cons, List.foldl_cons, List.foldl_cons, padKey, hinner, houter, ih]
  have hone := foldl_set_zipIdx (· ^^^ 0x36) block [] (List.replicate m 0) (by simpa using hm)
  have htwo := foldl_set_zipIdx (· ^^^ 0x5c) block [] (List.replicate n 0) (by simpa using hn)
  rw [List.length_nil, List.nil_append, List.nil_append, List.drop_replicate] at hone htwo
  rw [hpair, hone, htwo]

theorem length_sha256 (bytes : List UInt8) : (Sha256.sha256 bytes).length = 32 := by
  rw [Sha256.sha256_eq]
  rfl

/-- The block of the key: hashed if it is too long, and filled up with zeros. -/
theorem setAll_newUint8Array {source : List UInt8} {n : ℕ} (h : source.length ≤ n) :
    setAll (newUint8Array n) source 0 = source ++ List.replicate (n - source.length) 0 := by
  have hnew : newUint8Array n =
      [] ++ (List.replicate source.length 0 ++ List.replicate (n - source.length) 0) := by
    rw [newUint8Array, index_natCast, List.nil_append, ← List.replicate_add,
      Nat.add_sub_cancel' h]
  rw [hnew, setAll_eq (by simp [index]) (by simp), List.nil_append]

/-- **The keyed digest is HMAC-SHA256.** -/
theorem hmacSha256Hex_eq {key message : List UInt8} (hkey : key.length + 72 < 2 ^ 53)
    (hmessage : message.length + 136 < 2 ^ 53) :
    hmacSha256Hex key message = hexOctets (Sha256.hmac Sha256.sha256 64 key message) := by
  obtain ⟨hashed, hhashed⟩ : ∃ hashed,
      hashed = if 64 < key.length then Sha256.sha256 key else key := ⟨_, rfl⟩
  have hshort : hashed.length ≤ 64 := by
    rw [hhashed]
    split
    · rw [length_sha256]
      decide
    · omega
  obtain ⟨block, hblock⟩ : ∃ block, block = hashed ++ List.replicate (64 - hashed.length) 0 :=
    ⟨_, rfl⟩
  have hlength : block.length = 64 := by
    rw [hblock, List.length_append, List.length_replicate]
    omega
  have hset : setAll (newUint8Array hmacBlockSize)
      (if key.length > hmacBlockSize then sha256Bytes key else key) 0 = block := by
    rw [sha256Bytes_eq hkey, hblock, hhashed]
    exact setAll_newUint8Array (n := 64) (hhashed ▸ hshort)
  have hinner : newUint8Array (add hmacBlockSize message.length) =
      List.replicate (64 + message.length) 0 := by
    rw [newUint8Array, add_natCast (by rw [hmacBlockSize]; omega), index_natCast, hmacBlockSize]
  have houter : newUint8Array (add hmacBlockSize 32) = List.replicate (64 + 32) 0 := by
    rw [newUint8Array, show (32 : ℚ) = (32 : ℕ) by rfl,
      add_natCast (by rw [hmacBlockSize]; omega), index_natCast, hmacBlockSize]
  have hstore : ∀ padded source : List UInt8, padded.length = 64 →
      setAll (padded ++ List.replicate source.length 0) source hmacBlockSize =
        padded ++ source := by
    intro padded source hpadded
    have hfits : setAll (padded ++ (List.replicate source.length 0 ++ [])) source hmacBlockSize =
        padded ++ (source ++ []) :=
      setAll_eq (by rw [index_natCast, hpadded, hmacBlockSize]) (by simp)
    rwa [List.append_nil, List.append_nil] at hfits
  rw [hmacSha256Hex, hset, hinner, houter,
    foldl_padKey block (by omega) (by omega), hlength, Nat.add_sub_cancel_left,
    Nat.add_sub_cancel_left]
  dsimp only
  rw [hstore _ _ (by rw [List.length_map, hlength]), sha256Bytes_eq (by
    rw [List.length_append, List.length_map, hlength]
    omega)]
  have hdigest := hstore (block.map (· ^^^ 0x5c))
    (Sha256.sha256 (block.map (· ^^^ 0x36) ++ message)) (by rw [List.length_map, hlength])
  rw [length_sha256] at hdigest
  rw [hdigest, sha256Words_eq (by
    rw [List.length_append, List.length_map, length_sha256, hlength]
    omega), wordsToHex_eq, ← Sha256.sha256_eq, Sha256.hmac, ← hhashed, ← hblock]

/-- **The digest is SHA-256, and the keyed one is HMAC-SHA256**, of whatever is short enough for
the arrays of the language, which hold fewer than `2 ^ 53` octets, to hold it with its padding. -/
theorem digests_correct :
    (∀ bytes : List UInt8, bytes.length + 72 < 2 ^ 53 →
      sha256Bytes bytes = Sha256.sha256 bytes) ∧
    ∀ key message : List UInt8, key.length + 72 < 2 ^ 53 → message.length + 136 < 2 ^ 53 →
      hmacSha256Hex key message = hexOctets (Sha256.hmac Sha256.sha256 64 key message) :=
  ⟨fun _ h => sha256Bytes_eq h, fun _ _ hkey hmessage => hmacSha256Hex_eq hkey hmessage⟩

/-- The digest of `abc`, and a keyed digest with a key that is longer than a block. -/
theorem digests_abc :
    sha256Bytes [0x61, 0x62, 0x63] = Sha256.sha256 [0x61, 0x62, 0x63] ∧
      hmacSha256Hex (List.replicate 65 0x6b) [0x61] =
        hexOctets (Sha256.hmac Sha256.sha256 64 (List.replicate 65 0x6b) [0x61]) :=
  ⟨digests_correct.1 _ (by decide), digests_correct.2 _ _ (by decide) (by decide)⟩

end Telemetry.Receipts.TypeScript
