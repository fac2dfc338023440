import Mathlib.Data.Int.Order.Basic
import Mathlib.Data.Nat.Cast.Order.Ring
import Mathlib.Algebra.Order.Ring.Rat
import Mathlib.Tactic.NormNum

/-!
# The Go breaker and its 64-bit cooldown

`resilience.go` for one signal. `int` and `time.Duration` are 64-bit two's complement
words, so the product `_cbBaseCooldown*(1<<openCount)` wraps before `min` caps it.
Clock readings are integers, in nanoseconds; `time.Since` saturates.

## Main definitions

* `cooldown`, `checkCircuitBreaker`, `recordAttemptSuccess`, `recordAttemptFailure`.
* `runWithResilience`, `runCalls`.
* `CooldownSound` — the cooldown keeps its bounds and grows with `openCount`.
* `cooldownSound_iff` — this is so exactly up to `openCount` 28.
-/

namespace Telemetry.Breaker.Go

/-- `int` and `time.Duration`. -/
abbrev Int64 := BitVec 64

/-- `_cbThreshold`. -/
def cbThreshold : Int64 := 3

/-- `_cbBaseCooldown`, 30 seconds. -/
def cbBaseCooldown : Int64 := 30000000000

/-- `_cbMaxCooldown`, 1024 seconds. -/
def cbMaxCooldown : Int64 := 1024000000000

/-- `_maxExportAttempts`. -/
def maxExportAttempts : Int64 := 101

/-- `x << n`; a negative count panics. -/
def shl (x n : Int64) : Option Int64 :=
  if n.toInt < 0 then none
  else if 64 ≤ n.toNat then some 0
  else some (x <<< n.toNat)

/-- `min`, of signed words. -/
def goMin (x y : Int64) : Int64 := if y.toInt < x.toInt then y else x

/-- `max`, of signed words. -/
def goMax (x y : Int64) : Int64 := if x.toInt < y.toInt then y else x

/-- `_reachedThreshold`. -/
def reachedThreshold (count threshold : Int64) : Bool := decide (threshold.toInt ≤ count.toInt)

/-- `_elapsedLessThan`. -/
def elapsedLessThan (elapsed threshold : Int64) : Bool := decide (elapsed.toInt < threshold.toInt)

/-- `min(_cbBaseCooldown*(1<<openCount), _cbMaxCooldown)`; `none` is a panic. -/
def cooldown (openCount : Int64) : Option Int64 :=
  (shl 1 openCount).map fun factor => goMin (cbBaseCooldown * factor) cbMaxCooldown

/-- The breaker variables of one signal. -/
structure Circuit where
  /-- `_consecutiveTimeouts[signal]`. -/
  consecutiveTimeouts : Int64 := 0
  /-- `_circuitTrippedAt[signal]`; `none` is the zero `time.Time`. -/
  circuitTrippedAt : Option ℤ := none
  /-- `_openCount[signal]`. -/
  openCount : Int64 := 0
  /-- `_halfOpenProbing[signal]`. -/
  halfOpenProbing : Bool := false
  deriving DecidableEq, Repr

/-- `time.Since`: the difference, saturated; the zero time is further back than that. -/
def since (now : ℤ) : Option ℤ → Int64
  | none => BitVec.intMax 64
  | some t => BitVec.ofInt 64 (max (-2 ^ 63) (min (now - t) (2 ^ 63 - 1)))

/-- `_checkCircuitBreaker`: whether to reject the call; `none` is a panic. -/
def checkCircuitBreaker (now : ℤ) (c : Circuit) : Option (Bool × Circuit) :=
  if !reachedThreshold c.consecutiveTimeouts cbThreshold then
    some (false, c)
  else if c.halfOpenProbing then
    some (true, c)
  else
    (cooldown c.openCount).map fun limit =>
      if elapsedLessThan (since now c.circuitTrippedAt) limit then (true, c)
      else (false, { c with halfOpenProbing := true })

/-- `_recordAttemptSuccess`. -/
def recordAttemptSuccess (c : Circuit) : Circuit :=
  if c.halfOpenProbing then
    { c with halfOpenProbing := false, consecutiveTimeouts := 0
             openCount := goMax 0 (c.openCount - 1) }
  else
    { c with consecutiveTimeouts := 0 }

/-- `_recordAttemptFailure`, reading the clock at `now`. -/
def recordAttemptFailure (now : ℤ) (isTimeout : Bool) (c : Circuit) : Circuit :=
  if c.halfOpenProbing then
    { c with halfOpenProbing := false, openCount := c.openCount + 1, circuitTrippedAt := some now }
  else if isTimeout then
    let consecutive := c.consecutiveTimeouts + 1
    if reachedThreshold consecutive cbThreshold then
      { c with consecutiveTimeouts := consecutive, openCount := c.openCount + 1
               circuitTrippedAt := some now }
    else
      { c with consecutiveTimeouts := consecutive }
  else
    { c with consecutiveTimeouts := 0 }

/-! ## Calls -/

/-- The `ExporterPolicy` fields `RunWithResilience` reads. -/
structure ExporterPolicy where
  retries : Int64 := 0
  timeoutSeconds : ℚ := 10
  failOpen : Bool := true
  deriving DecidableEq, Repr

/-- How an attempt ends. -/
inductive Ending
  | ok
  /-- An error that is `context.DeadlineExceeded`. -/
  | deadlineExceeded
  | error
  /-- The function panics, and so does the call. -/
  | panics
  deriving DecidableEq, Repr

/-- One attempt and the clock when its outcome is recorded. -/
structure Attempt where
  ending : Ending
  recordedAt : ℤ := 0
  deriving DecidableEq, Repr

/-- How a call ends. -/
inductive CallExit
  | ok
  | circuitOpen
  | lastErr
  | panicked
  deriving DecidableEq, Repr

/-- The attempts left to make, and `i` made. -/
def retryLoop (failOpen : Bool) (ops : ℕ → Attempt) : ℕ → ℕ → Circuit → Circuit × CallExit
  | 0, _, c => (c, if failOpen then .ok else .lastErr)
  | remaining + 1, i, c =>
      match (ops i).ending with
      | .ok => (recordAttemptSuccess c, .ok)
      | .deadlineExceeded =>
          retryLoop failOpen ops remaining (i + 1) (recordAttemptFailure (ops i).recordedAt true c)
      | .error =>
          retryLoop failOpen ops remaining (i + 1) (recordAttemptFailure (ops i).recordedAt false c)
      | .panics => (c, .panicked)

/-- `attempts := min(max(1, policy.Retries+1), _maxExportAttempts)`. -/
def policyAttempts (policy : ExporterPolicy) : ℕ :=
  (goMin (goMax 1 (policy.retries + 1)) maxExportAttempts).toInt.toNat

/-- One call: the clock at its breaker check, and its attempts. -/
structure Call where
  policy : ExporterPolicy := {}
  startedAt : ℤ
  ops : ℕ → Attempt

/-- `RunWithResilience`. -/
def runWithResilience (call : Call) (c : Circuit) : Circuit × CallExit :=
  if 0 < call.policy.timeoutSeconds then
    match checkCircuitBreaker call.startedAt c with
    | none => (c, .panicked)
    | some (true, c) => (c, if call.policy.failOpen then .ok else .circuitOpen)
    | some (false, c) => retryLoop call.policy.failOpen call.ops (policyAttempts call.policy) 0 c
  else
    retryLoop call.policy.failOpen call.ops (policyAttempts call.policy) 0 c

/-- Calls made one after the other. -/
def runCalls (c : Circuit) : List Call → Circuit
  | [] => c
  | call :: calls => runCalls (runWithResilience call c).1 calls

/-! ## The cooldown, count by count -/

/-- Up to 28 the product fits, and the cooldown is the documented one. -/
theorem cooldown_ofNat : ∀ n < 29, cooldown (BitVec.ofNat 64 n) =
    some (BitVec.ofNat 64 (min (30000000000 * 2 ^ n) 1024000000000)) := by
  decide

/-- At 29 the product wraps to a negative duration. -/
theorem cooldown_wraps : ∃ v, cooldown 29 = some v ∧ v.toInt < 0 := ⟨_, rfl, by decide⟩

/-- A word that is not negative reads the same signed and unsigned. -/
theorem toInt_of_nonneg {n : Int64} (h : 0 ≤ n.toInt) : n.toInt = n.toNat := by
  rw [BitVec.toInt_eq_toNat_cond] at h ⊢
  split_ifs at h ⊢ <;> omega

/-- A count between 0 and 28, with its cooldown in nanoseconds. -/
theorem cooldown_of_le {n : Int64} (h0 : 0 ≤ n.toInt) (h28 : n.toInt ≤ 28) :
    ∃ v, cooldown n = some v ∧ v.toInt = min (30000000000 * 2 ^ n.toNat) 1024000000000 := by
  have hnat := toInt_of_nonneg h0
  have hlt : n.toNat < 29 := by omega
  have hn : BitVec.ofNat 64 n.toNat = n := by simp
  refine ⟨_, hn ▸ cooldown_ofNat n.toNat hlt, ?_⟩
  have hsmall : min (30000000000 * 2 ^ n.toNat) 1024000000000 ≤ 1024000000000 :=
    Nat.min_le_right _ _
  rw [BitVec.toInt_eq_toNat_cond, BitVec.toNat_ofNat, Nat.mod_eq_of_lt (by omega),
    if_pos (by omega)]
  push_cast
  rfl

/-! ## Where the cooldown is sound -/

/-- The bounds the cooldown is meant to keep, and what callers get from them. -/
structure CooldownSound (c : Circuit) : Prop where
  in_bounds : ∃ v, cooldown c.openCount = some v ∧
    cbBaseCooldown.toInt ≤ v.toInt ∧ v.toInt ≤ cbMaxCooldown.toInt
  mono : ∀ m n : Int64, 0 ≤ m.toInt → m.toInt ≤ n.toInt → n.toInt ≤ c.openCount.toInt →
    ∃ v w, cooldown m = some v ∧ cooldown n = some w ∧ v.toInt ≤ w.toInt
  early_rejected : ∀ now, reachedThreshold c.consecutiveTimeouts cbThreshold = true →
    elapsedLessThan (since now c.circuitTrippedAt) cbBaseCooldown = true →
      checkCircuitBreaker now c = some (true, c)

theorem cooldownSound_of_le {c : Circuit} (h0 : 0 ≤ c.openCount.toInt)
    (h28 : c.openCount.toInt ≤ 28) : CooldownSound c := by
  obtain ⟨v, hv, hval⟩ := cooldown_of_le h0 h28
  have hbase : cbBaseCooldown.toInt = 30000000000 := by decide
  have hmax : cbMaxCooldown.toInt = 1024000000000 := by decide
  have hlow : cbBaseCooldown.toInt ≤ v.toInt := by
    have hone : (1 : ℤ) ≤ 2 ^ c.openCount.toNat := one_le_pow₀ (by norm_num)
    omega
  refine ⟨⟨v, hv, hlow, by omega⟩, ?_, ?_⟩
  · intro m n hm hmn hn
    obtain ⟨x, hx, hxval⟩ := cooldown_of_le hm (by omega)
    obtain ⟨y, hy, hyval⟩ := cooldown_of_le (hm.trans hmn) (by omega)
    refine ⟨x, y, hx, hy, ?_⟩
    have hnat : m.toNat ≤ n.toNat := by
      have hm' := toInt_of_nonneg hm
      have hn' := toInt_of_nonneg (hm.trans hmn)
      omega
    have hpow : (2 : ℤ) ^ m.toNat ≤ 2 ^ n.toNat := pow_le_pow_right₀ (by norm_num) hnat
    omega
  · intro now hopen hearly
    simp only [elapsedLessThan, decide_eq_true_eq] at hearly
    simp only [checkCircuitBreaker, hopen, hv, Bool.not_true, Bool.false_eq_true, if_false]
    split_ifs
    · rfl
    · have hlimit : elapsedLessThan (since now c.circuitTrippedAt) v = true := by
        simp only [elapsedLessThan, decide_eq_true_eq]
        omega
      simp only [Option.map_some, hlimit, if_true]

/-- In that range a call earlier than the base cooldown after the last trip is rejected
exactly while the circuit is still open. -/
theorem early_rejected_iff {c : Circuit} (h0 : 0 ≤ c.openCount.toInt)
    (h28 : c.openCount.toInt ≤ 28) {now : ℤ}
    (hearly : elapsedLessThan (since now c.circuitTrippedAt) cbBaseCooldown = true) :
    checkCircuitBreaker now c = some (true, c) ↔
      reachedThreshold c.consecutiveTimeouts cbThreshold = true := by
  constructor
  · intro h
    by_contra hclosed
    rw [Bool.not_eq_true] at hclosed
    simp [checkCircuitBreaker, hclosed] at h
  · intro hopen
    exact (cooldownSound_of_le h0 h28).early_rejected now hopen hearly

/-- **The cooldown of a reachable state is sound** exactly if `openCount` is at most 28
(and has not wrapped below 0). -/
theorem cooldownSound_iff (calls : List Call) :
    CooldownSound (runCalls {} calls) ↔
      0 ≤ (runCalls {} calls).openCount.toInt ∧ (runCalls {} calls).openCount.toInt ≤ 28 := by
  constructor
  · intro h
    obtain ⟨v, hv, -⟩ := h.in_bounds
    have h0 : 0 ≤ (runCalls {} calls).openCount.toInt := by
      by_contra hneg
      simp only [cooldown, shl, if_pos (not_le.mp hneg), Option.map_none] at hv
      cases hv
    refine ⟨h0, ?_⟩
    -- Past 28 the step from 28 to 29 goes down.
    by_contra hbig
    have h29 : (29 : Int64).toInt ≤ (runCalls {} calls).openCount.toInt := by
      rw [show (29 : Int64).toInt = 29 by decide]
      omega
    obtain ⟨x, y, hx, hy, hle⟩ := h.mono 28 29 (by decide) (by decide) h29
    have hx' : x = cbMaxCooldown := by
      rw [show cooldown 28 = some cbMaxCooldown from rfl] at hx
      exact (Option.some.inj hx).symm
    obtain ⟨w, hw, hneg⟩ := cooldown_wraps
    have hy' : y = w := Option.some.inj (hy.symm.trans hw)
    have hmax : cbMaxCooldown.toInt = 1024000000000 := by decide
    rw [hx', hy', hmax] at hle
    omega
  · rintro ⟨h0, h28⟩
    exact cooldownSound_of_le h0 h28

/-! ## How far `openCount` can have come -/

theorem toInt_add_one {n : Int64} (h0 : 0 ≤ n.toInt) (h : n.toInt < 2 ^ 62) :
    (n + 1).toInt = n.toInt + 1 := by
  have hnat := toInt_of_nonneg h0
  rw [BitVec.toInt_eq_toNat_cond, BitVec.toNat_add, show (1 : Int64).toNat = 1 from rfl,
    Nat.mod_eq_of_lt (by omega), if_pos (by omega)]
  omega

theorem goMax_sub_one {n : Int64} (h0 : 0 ≤ n.toInt) :
    0 ≤ (goMax 0 (n - 1)).toInt ∧ (goMax 0 (n - 1)).toInt ≤ n.toInt := by
  have hnat := toInt_of_nonneg h0
  have hlt : n.toNat < 2 ^ 64 := n.isLt
  have hzero : (0 : Int64).toInt = 0 := by decide
  by_cases hn : n.toNat = 0
  · obtain rfl : n = 0 := BitVec.eq_of_toNat_eq (by simpa using hn)
    decide
  · have hhalf : 2 * n.toNat < 2 ^ 64 := by
      rw [BitVec.toInt_eq_toNat_cond] at h0
      split_ifs at h0 <;> omega
    have hsub : (n - 1).toInt = n.toInt - 1 := by
      rw [BitVec.toInt_eq_toNat_cond, BitVec.toNat_sub, show (1 : Int64).toNat = 1 from rfl]
      split_ifs <;> omega
    simp only [goMax]
    split_ifs <;> omega

/-- What recording an outcome may do to `openCount`: it stays in range and grows by at
most one. -/
def GrowsByAtMost (k : ℕ) (c c' : Circuit) : Prop :=
  0 ≤ c.openCount.toInt → c.openCount.toInt + k < 2 ^ 62 →
    0 ≤ c'.openCount.toInt ∧ c'.openCount.toInt ≤ c.openCount.toInt + k

theorem GrowsByAtMost.of_eq {k : ℕ} {c c' : Circuit} (h : c'.openCount = c.openCount) :
    GrowsByAtMost k c c' := by
  intro h0 _
  rw [h]
  omega

theorem GrowsByAtMost.trans {j k : ℕ} {c c' c'' : Circuit} (h : GrowsByAtMost j c c')
    (h' : GrowsByAtMost k c' c'') : GrowsByAtMost (k + j) c c'' := by
  intro h0 hsmall
  obtain ⟨h1, h2⟩ := h h0 (by omega)
  obtain ⟨h3, h4⟩ := h' h1 (by omega)
  omega

theorem recordAttemptSuccess_grows (k : ℕ) (c : Circuit) :
    GrowsByAtMost k c (recordAttemptSuccess c) := by
  intro h0 _
  have hdec := goMax_sub_one h0
  simp only [recordAttemptSuccess]
  split_ifs <;> simp only <;> omega

theorem recordAttemptFailure_grows (now : ℤ) (isTimeout : Bool) (c : Circuit) :
    GrowsByAtMost 1 c (recordAttemptFailure now isTimeout c) := by
  intro h0 hsmall
  have hinc := toInt_add_one h0 (by omega)
  simp only [recordAttemptFailure]
  split_ifs <;> simp only <;> omega

theorem retryLoop_grows (failOpen : Bool) (ops : ℕ → Attempt) (remaining i : ℕ) (c : Circuit) :
    GrowsByAtMost remaining c (retryLoop failOpen ops remaining i c).1 := by
  induction remaining generalizing i c with
  | zero => exact .of_eq rfl
  | succ remaining ih =>
      cases hend : (ops i).ending with
      | ok =>
          simp only [retryLoop, hend]
          exact recordAttemptSuccess_grows _ c
      | panics =>
          simp only [retryLoop, hend]
          exact .of_eq rfl
      | deadlineExceeded =>
          simp only [retryLoop, hend]
          exact (recordAttemptFailure_grows _ _ c).trans (ih _ _)
      | error =>
          simp only [retryLoop, hend]
          exact (recordAttemptFailure_grows _ _ c).trans (ih _ _)

/-- The check leaves `openCount` alone. -/
theorem checkCircuitBreaker_openCount {now : ℤ} {c c' : Circuit} {reject : Bool}
    (h : checkCircuitBreaker now c = some (reject, c')) : c'.openCount = c.openCount := by
  simp only [checkCircuitBreaker] at h
  split_ifs at h
  · obtain ⟨-, rfl⟩ := Prod.mk.inj (Option.some.inj h)
    rfl
  · obtain ⟨-, rfl⟩ := Prod.mk.inj (Option.some.inj h)
    rfl
  · obtain ⟨limit, -, hlimit⟩ := Option.map_eq_some_iff.mp h
    split_ifs at hlimit
    all_goals
      obtain ⟨-, rfl⟩ := Prod.mk.inj hlimit
      rfl

theorem runWithResilience_grows (call : Call) (c : Circuit) :
    GrowsByAtMost (policyAttempts call.policy) c (runWithResilience call c).1 := by
  simp only [runWithResilience]
  split
  case isFalse => exact retryLoop_grows _ _ _ _ _
  case isTrue =>
    split
    · exact .of_eq rfl
    · rename_i hcheck
      exact .of_eq (checkCircuitBreaker_openCount hcheck)
    · rename_i c' hcheck
      have hsame : GrowsByAtMost 0 c c' := .of_eq (checkCircuitBreaker_openCount hcheck)
      simpa using hsame.trans (retryLoop_grows _ _ _ _ c')

/-- The attempts the calls' policies allow. -/
def attemptsOf (calls : List Call) : ℕ := (calls.map fun call => policyAttempts call.policy).sum

theorem runCalls_grows (calls : List Call) (c : Circuit) :
    GrowsByAtMost (attemptsOf calls) c (runCalls c calls) := by
  induction calls generalizing c with
  | nil => exact .of_eq rfl
  | cons call calls ih =>
      simp only [attemptsOf, List.map_cons, List.sum_cons, runCalls]
      rw [Nat.add_comm]
      exact (runWithResilience_grows call c).trans (ih _)

/-- **Twenty-eight attempts are safe**: no run of calls with at most that many in all
leaves the range in which the cooldown is sound. -/
theorem cooldownSound_of_attempts_le {calls : List Call} (h : attemptsOf calls ≤ 28) :
    CooldownSound (runCalls {} calls) := by
  have hzero : ({} : Circuit).openCount.toInt = 0 := by decide
  obtain ⟨h0, hle⟩ := runCalls_grows calls {} (by omega) (by omega)
  exact cooldownSound_of_le h0 (by omega)

/-! ## An outage that gets there -/

/-- A call at time 0 with thirty retries, which all time out. -/
def outageCall : Call where
  policy := { retries := 30 }
  startedAt := 0
  ops _ := { ending := .deadlineExceeded, recordedAt := 0 }

/-- One such call from the initial state trips the circuit 29 times; the cooldown is then
negative, and a call one second later is let through. -/
theorem outageCall_unsound :
    (runCalls {} [outageCall]).openCount = 29 ∧
      (cooldown (runCalls {} [outageCall]).openCount).map BitVec.toInt
        = some (-2340616713709551616 : ℤ) ∧
      (checkCircuitBreaker 1000000000 (runCalls {} [outageCall])).map Prod.fst = some false ∧
      ¬ CooldownSound (runCalls {} [outageCall]) := by
  have hcount : (runCalls {} [outageCall]).openCount = 29 := by decide
  refine ⟨hcount, ?_, by decide, ?_⟩
  · rw [hcount]
    decide
  · intro h
    have h28 := ((cooldownSound_iff [outageCall]).mp h).2
    rw [hcount] at h28
    exact absurd h28 (by decide)

end Telemetry.Breaker.Go
