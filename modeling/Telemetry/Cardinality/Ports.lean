import Telemetry.Lib.Admissions
import Telemetry.Cardinality.Python
import Mathlib.Data.Rat.Floor

/-!
# How many values pass

A cardinality limit is there to keep the number of different values of an attribute small that the
exporters see at a time. The four SDKs that sweep their tables themselves are held to that here:
Python, Rust and TypeScript give a value a new time to live whenever it is used, and so no more
values than the limit pass in less than it. C# lets a value go a fixed time after it came, and so
it may be twice as many.

Every section of a guarded call is a step of its own, at a time that its call may have read long
before. Nothing is asked of the order of these times.

## Main definitions

* `Rust.guardAttribute`, `TypeScript.guardAttribute`, `CSharp.guardAttribute` — one attribute.
* `Rust.limiter`, `TypeScript.limiter`, `CSharp.limiter` — the ports whose calls are series of uses.
* `Python.guard` — the interleavings of Python's calls.

## Main results

* `python_passed_le`, `rust_passed_le`, `typeScript_passed_le` — **no more values than the limit**
  pass.
* `cSharp_passed_le`, `cSharp_twice` — **no more than twice as many** do, and as many can.
-/

namespace Telemetry.Cardinality

open Telemetry.Lib
open Telemetry.Lib.Admission (Guard Limiter Op Step)

/-! ## Rust -/

namespace Rust

/-- `OVERFLOW_VALUE`. -/
def overflowValue : String := "__overflow__"

/-- `PRUNE_INTERVAL`. -/
def pruneInterval : ℚ := 5

structure CardinalityLimit where
  maxValues : ℕ
  ttlSeconds : ℚ
  deriving DecidableEq

/-- The state behind the mutex. An instant is a number of seconds. -/
structure CardinalityState where
  limits : Dict String CardinalityLimit := .empty
  seen : Dict String (Dict String ℚ) := .empty
  lastPrune : Dict String ℚ := .empty

/-- `register_cardinality_limit`. -/
def registerCardinalityLimit (key : String) (limit : CardinalityLimit) (s : CardinalityState) :
    CardinalityState :=
  { s with limits := s.limits.set key ⟨max limit.maxValues 1, max limit.ttlSeconds 1⟩
           seen := s.seen.setDefault key .empty }

/-- `clear_cardinality_limits`. -/
def clearCardinalityLimits (_ : CardinalityState) : CardinalityState := {}

/-- `duration_since`, which is zero for an instant that is later. -/
def durationSince (now earlier : ℚ) : ℚ := max 0 (now - earlier)

/-- `should_prune`. -/
def shouldPrune (lastPrune : Option ℚ) (now : ℚ) : Bool :=
  lastPrune.all fun last => pruneInterval ≤ durationSince now last

/-- `prune_expired_values`. -/
def pruneExpiredValues (seen : Dict String ℚ) (ttlSeconds now : ℚ) : Dict String ℚ :=
  seen.filter fun e => durationSince now e.2 < max ttlSeconds 1

/-- `guard.seen.entry(key).or_default()`. -/
def CardinalityState.seenFor (s : CardinalityState) (key : String) : Dict String ℚ :=
  (s.seen.get? key).getD .empty

/-- The sweep of `guard_attributes`. -/
def prune (key : String) (limit : CardinalityLimit) (now : ℚ) (s : CardinalityState) :
    CardinalityState :=
  if shouldPrune (s.lastPrune.get? key) now then
    { s with seen := s.seen.set key (pruneExpiredValues (s.seenFor key) limit.ttlSeconds now)
             lastPrune := s.lastPrune.set key now }
  else s

/-- The body of the loop of `guard_attributes`: the state, and the value for `out`. -/
def guardAttribute (key value : String) (now : ℚ) (s : CardinalityState) :
    CardinalityState × String :=
  match s.limits.get? key with
  | none => (s, value)
  | some limit =>
      let s := prune key limit now s
      let seen := s.seenFor key
      if (seen.get? value).isSome then
        ({ s with seen := s.seen.set key (seen.set value now) }, value)
      else if limit.maxValues ≤ seen.entries.length then
        ({ s with seen := s.seen.set key seen }, overflowValue)
      else ({ s with seen := s.seen.set key (seen.set value now) }, value)

/-- The limiter. A map of attributes is iterated in some order, and the lock is given up between
two of them: a call is a series of uses, which those of other calls come between. -/
def limiter : Limiter CardinalityState CardinalityLimit ℚ String String where
  limit s key := s.limits.get? key
  rule limit := ⟨limit.maxValues, limit.ttlSeconds, true⟩
  table := CardinalityState.seenFor
  register := registerCardinalityLimit
  clear := clearCardinalityLimits
  use := guardAttribute
  now := id
  later := id

theorem seenFor_set (s : CardinalityState) (key k : String) (seen : Dict String ℚ)
    (limits : Dict String CardinalityLimit) (lastPrune : Dict String ℚ) :
    (CardinalityState.mk limits (s.seen.set key seen) lastPrune).seenFor k =
      if k = key then seen else s.seenFor k := by
  by_cases hk : k = key <;> simp [CardinalityState.seenFor, hk]

theorem seenFor_register (s : CardinalityState) (key k : String) (limit : CardinalityLimit) :
    (registerCardinalityLimit key limit s).seenFor k = s.seenFor k := by
  simp only [registerCardinalityLimit, CardinalityState.seenFor, Dict.setDefault]
  split_ifs with hmem
  · rfl
  · rw [Dict.get?_set]
    split_ifs with hk
    · rw [hk, Dict.get?_eq_none_iff.mpr hmem]
      rfl
    · rfl

/-- The sweep lets nothing go that is younger than the time to live. -/
theorem step_prune (key : String) (limit : CardinalityLimit) (now : ℚ) (s : CardinalityState) :
    Step ⟨limit.maxValues, limit.ttlSeconds, true⟩ (s.seenFor key) (.sweep now)
      ((prune key limit now s).seenFor key) := by
  rw [prune]
  split_ifs
  · rw [seenFor_set, if_pos rfl]
    refine Step.filter fun v t hold => ?_
    have hlong := not_lt.mp (of_decide_eq_false hold)
    have hlive : limit.ttlSeconds ≤ max limit.ttlSeconds 1 := le_max_left _ _
    have hone : (1 : ℚ) ≤ max limit.ttlSeconds 1 := le_max_right _ _
    obtain hzero | hsince := le_max_iff.mp hlong
    · linarith
    · simp only at hsince ⊢
      linarith
  · exact .unswept _ _ _

theorem seenFor_prune_of_ne {key k : String} (hk : k ≠ key) (limit : CardinalityLimit) (now : ℚ)
    (s : CardinalityState) : (prune key limit now s).seenFor k = s.seenFor k := by
  rw [prune]
  split_ifs
  · rw [seenFor_set, if_neg hk]
  · rfl

@[simp] theorem limits_prune (key : String) (limit : CardinalityLimit) (now : ℚ)
    (s : CardinalityState) : (prune key limit now s).limits = s.limits := by
  rw [prune]
  split_ifs <;> rfl

/-- Behind the sweep, a table under one key is set. -/
theorem seenFor_set_prune (key : String) (limit : CardinalityLimit) (now : ℚ)
    (s : CardinalityState) (seen : Dict String ℚ) (k : String) :
    (CardinalityState.mk (prune key limit now s).limits
      ((prune key limit now s).seen.set key seen) (prune key limit now s).lastPrune).seenFor k =
      if k = key then seen else s.seenFor k := by
  rw [seenFor_set]
  split_ifs with hk
  · rfl
  · exact seenFor_prune_of_ne hk limit now s

/-- The body of the loop is a sweep and a look. -/
theorem guardAttribute_eq_look {key : String} {s : CardinalityState} {limit : CardinalityLimit}
    (hlimit : s.limits.get? key = some limit) (value : String) (now : ℚ) :
    let looked := Admission.look (limiter.rule limit) value now
      ((prune key limit now s).seenFor key)
    (guardAttribute key value now s).1.limits = s.limits ∧
      (∀ k, (guardAttribute key value now s).1.seenFor k =
        if k = key then looked.1 else s.seenFor k) ∧
      (guardAttribute key value now s).2 = if looked.2 then value else overflowValue := by
  have hset := seenFor_set_prune key limit now s
  have hlimits := limits_prune key limit now s
  simp only [guardAttribute, hlimit, Admission.look, limiter, if_true]
  by_cases hstored : (((prune key limit now s).seenFor key).get? value).isSome = true
  · simp only [if_pos hstored]
    exact ⟨hlimits, hset _, rfl⟩
  · simp only [if_neg hstored]
    by_cases hfull : limit.maxValues ≤ ((prune key limit now s).seenFor key).entries.length
    · simp only [hfull, if_true]
      exact ⟨hlimits, hset _, rfl⟩
    · simp only [hfull, if_false]
      exact ⟨hlimits, hset _, rfl⟩

theorem limiter_sound : limiter.Sound (fun _ => True) overflowValue where
  inv_register _ _ _ _ := trivial
  inv_use _ _ _ _ _ := trivial
  limit_register key k limit s hk := by simp [limiter, registerCardinalityLimit, hk]
  table_register key k limit s _ := seenFor_register s key k limit
  use_none key value now s hnone := by
    simp only [limiter] at hnone
    simp only [limiter, guardAttribute, hnone]
  limit_use key value now s k _ := by
    cases hlimit : s.limits.get? key with
    | none => simp only [limiter, guardAttribute, hlimit]
    | some limit => exact congrArg (Dict.get? · k) (guardAttribute_eq_look hlimit value now).1
  table_use key value now s k _ hk := by
    cases hlimit : s.limits.get? key with
    | none => simp only [limiter, guardAttribute, hlimit]
    | some limit => exact ((guardAttribute_eq_look hlimit value now).2.1 k).trans (if_neg hk)
  use_some key value now s limit _ hlimit :=
    ⟨_, step_prune key limit now s,
      ((guardAttribute_eq_look hlimit value now).2.1 key).trans (if_pos rfl),
      (guardAttribute_eq_look hlimit value now).2.2⟩

end Rust

/-! ## TypeScript -/

namespace TypeScript

/-- `OVERFLOW_VALUE`. -/
def overflowValue : String := "__overflow__"

/-- `PRUNE_INTERVAL_MS`. -/
def pruneIntervalMs : ℚ := 5000

structure CardinalityLimit where
  maxValues : ℚ
  ttlSeconds : ℚ
  deriving DecidableEq

/-- The module's maps. Times are milliseconds. -/
structure Maps where
  limits : Dict String CardinalityLimit := .empty
  seen : Dict String (Dict String ℚ) := .empty
  lastPrune : Dict String ℚ := .empty

/-- `registerCardinalityLimit`. -/
def registerCardinalityLimit (key : String) (limit : CardinalityLimit) (s : Maps) : Maps :=
  { s with limits := s.limits.set key ⟨max 1 limit.maxValues, max 1 limit.ttlSeconds⟩
           seen := s.seen.setDefault key .empty }

/-- `clearCardinalityLimits`. -/
def clearCardinalityLimits (_ : Maps) : Maps := {}

/-- `_pruneExpired`. -/
def pruneExpired (key : String) (now : ℚ) (s : Maps) : Maps :=
  match s.limits.get? key, s.seen.get? key with
  | some limit, some seen =>
      { s with seen := s.seen.set key
                 (seen.filter fun e => !decide (e.2 < now - limit.ttlSeconds * 1000)) }
  | _, _ => s

/-- `_seen.get(key) ?? new Map()`. -/
def Maps.seenFor (s : Maps) (key : String) : Dict String ℚ := (s.seen.get? key).getD .empty

/-- The sweep of `guardAttributes`. -/
def prune (key : String) (now : ℚ) (s : Maps) : Maps :=
  if pruneIntervalMs ≤ now - (s.lastPrune.get? key).getD 0 then
    { pruneExpired key now s with lastPrune := s.lastPrune.set key now }
  else s

/-- The body of the loop of `guardAttributes`: the maps, and the value in `result`. -/
def guardAttribute (key value : String) (now : ℚ) (s : Maps) : Maps × String :=
  match s.limits.get? key with
  | none => (s, value)
  | some limit =>
      let s := prune key now s
      let seen := s.seenFor key
      if (seen.get? value).isSome then
        ({ s with seen := s.seen.set key (seen.set value now) }, value)
      else if limit.maxValues ≤ seen.entries.length then (s, overflowValue)
      else ({ s with seen := s.seen.set key (seen.set value now) }, value)

/-- The limiter: fewer values than `maxValues` are fewer than the next whole number. A call is a
series of uses at one time. -/
def limiter : Limiter Maps CardinalityLimit ℚ String String where
  limit s key := s.limits.get? key
  rule limit := ⟨⌈limit.maxValues⌉₊, limit.ttlSeconds * 1000, true⟩
  table := Maps.seenFor
  register := registerCardinalityLimit
  clear := clearCardinalityLimits
  use := guardAttribute
  now := id
  later := id

theorem seenFor_set (s : Maps) (key k : String) (seen : Dict String ℚ)
    (limits : Dict String CardinalityLimit) (lastPrune : Dict String ℚ) :
    (Maps.mk limits (s.seen.set key seen) lastPrune).seenFor k =
      if k = key then seen else s.seenFor k := by
  by_cases hk : k = key <;> simp [Maps.seenFor, hk]

theorem seenFor_register (s : Maps) (key k : String) (limit : CardinalityLimit) :
    (registerCardinalityLimit key limit s).seenFor k = s.seenFor k := by
  simp only [registerCardinalityLimit, Maps.seenFor, Dict.setDefault]
  split_ifs with hmem
  · rfl
  · rw [Dict.get?_set]
    split_ifs with hk
    · rw [hk, Dict.get?_eq_none_iff.mpr hmem]
      rfl
    · rfl

/-- A sweep keeps the limits and the other keys, and what is younger than the time to live. -/
theorem prune_cases {key : String} {limit : CardinalityLimit} (now : ℚ) {s : Maps}
    (hlimit : s.limits.get? key = some limit) :
    (prune key now s).limits = s.limits ∧
      (∀ k, k ≠ key → (prune key now s).seenFor k = s.seenFor k) ∧
      Step (limiter.rule limit) (s.seenFor key) (.sweep now) ((prune key now s).seenFor key) := by
  rw [prune]
  split_ifs
  · rw [pruneExpired, hlimit]
    cases hseen : s.seen.get? key with
    | none => exact ⟨rfl, fun _ _ => rfl, .unswept _ _ _⟩
    | some seen =>
        have hown : s.seenFor key = seen := by rw [Maps.seenFor, hseen, Option.getD_some]
        refine ⟨rfl, fun k hk => ?_, ?_⟩
        · simp only
          rw [seenFor_set, if_neg hk]
        · simp only
          rw [seenFor_set, if_pos rfl, hown]
          refine Step.filter fun v t hold => ?_
          simp only [Bool.not_eq_false', decide_eq_true_eq] at hold
          simp only [limiter]
          linarith
  · exact ⟨rfl, fun _ _ => rfl, .unswept _ _ _⟩

/-- The body of the loop is a sweep and a look. -/
theorem guardAttribute_eq_look {key : String} {s : Maps} {limit : CardinalityLimit}
    (hlimit : s.limits.get? key = some limit) (value : String) (now : ℚ) :
    let looked := Admission.look (limiter.rule limit) value now ((prune key now s).seenFor key)
    (guardAttribute key value now s).1.limits = s.limits ∧
      (∀ k, (guardAttribute key value now s).1.seenFor k =
        if k = key then looked.1 else s.seenFor k) ∧
      (guardAttribute key value now s).2 = if looked.2 then value else overflowValue := by
  obtain ⟨hlimits, hothers, -⟩ := prune_cases now hlimit
  have hset : ∀ seen : Dict String ℚ, ∀ k,
      (Maps.mk (prune key now s).limits ((prune key now s).seen.set key seen)
        (prune key now s).lastPrune).seenFor k = if k = key then seen else s.seenFor k := by
    intro seen k
    rw [seenFor_set]
    split_ifs with hk
    · rfl
    · exact hothers k hk
  have hceil : ∀ n : ℕ, ⌈limit.maxValues⌉₊ ≤ n ↔ limit.maxValues ≤ n := fun n => Nat.ceil_le
  simp only [guardAttribute, hlimit, Admission.look, limiter, if_true, hceil]
  by_cases hstored : (((prune key now s).seenFor key).get? value).isSome = true
  · simp only [if_pos hstored]
    exact ⟨hlimits, hset _, rfl⟩
  · simp only [if_neg hstored]
    by_cases hfull : limit.maxValues ≤ ((prune key now s).seenFor key).entries.length
    · simp only [if_pos hfull]
      refine ⟨hlimits, fun k => ?_, rfl⟩
      split_ifs with hk
      · rw [hk]
      · exact hothers k hk
    · simp only [if_neg hfull]
      exact ⟨hlimits, hset _, rfl⟩

theorem limiter_sound : limiter.Sound (fun _ => True) overflowValue where
  inv_register _ _ _ _ := trivial
  inv_use _ _ _ _ _ := trivial
  limit_register key k limit s hk := by simp [limiter, registerCardinalityLimit, hk]
  table_register key k limit s _ := seenFor_register s key k limit
  use_none key value now s hnone := by
    simp only [limiter] at hnone
    simp only [limiter, guardAttribute, hnone]
  limit_use key value now s k _ := by
    cases hlimit : s.limits.get? key with
    | none => simp only [limiter, guardAttribute, hlimit]
    | some limit => exact congrArg (Dict.get? · k) (guardAttribute_eq_look hlimit value now).1
  table_use key value now s k _ hk := by
    cases hlimit : s.limits.get? key with
    | none => simp only [limiter, guardAttribute, hlimit]
    | some limit => exact ((guardAttribute_eq_look hlimit value now).2.1 k).trans (if_neg hk)
  use_some key value now s limit _ hlimit :=
    ⟨_, (prune_cases now hlimit).2.2,
      ((guardAttribute_eq_look hlimit value now).2.1 key).trans (if_pos rfl),
      (guardAttribute_eq_look hlimit value now).2.2⟩

end TypeScript

/-! ## C# -/

namespace CSharp

/-- `Overflow`. -/
def overflowValue : String := "__overflow__"

structure CardinalityLimit where
  maxValues : ℤ
  ttlSeconds : ℚ
  deriving DecidableEq

/-- The three dictionaries. Times are seconds. -/
structure Tables where
  limits : Dict String CardinalityLimit := .empty
  caches : Dict String (Finset String) := .empty
  expiry : Dict String (Dict String ℚ) := .empty

namespace Tables

/-- `RegisterCardinalityLimit`. -/
def registerCardinalityLimit (key : String) (limit : CardinalityLimit) (s : Tables) : Tables where
  limits := s.limits.set key ⟨max 1 limit.maxValues, max 1 limit.ttlSeconds⟩
  caches := s.caches.erase key
  expiry := s.expiry.erase key

/-- `ClearCardinalityLimits`. -/
def clearCardinalityLimits (_ : Tables) : Tables := {}

def expiryFor (s : Tables) (key : String) : Dict String ℚ := (s.expiry.get? key).getD .empty

/-- A cache is made where there is none. -/
def openCache (key : String) (s : Tables) : Tables :=
  if (s.caches.get? key).isSome then s
  else { s with caches := s.caches.set key ∅, expiry := s.expiry.set key .empty }

/-- `PurgeExpired`. -/
def purgeExpired (key : String) (cache : Finset String) (now : ℚ) (s : Tables) : Tables :=
  match s.expiry.get? key with
  | none => s
  | some exp =>
      let stale := (exp.entries.filter fun e => e.2 ≤ now).map Prod.fst
      { s with caches := s.caches.set key (cache \ stale.toFinset)
               expiry := s.expiry.set key (exp.filter fun e => !decide (e.2 ≤ now)) }

/-- The cache of a key, made if need be and purged. -/
def swept (key : String) (now : ℚ) (s : Tables) : Tables :=
  let s := s.openCache key
  s.purgeExpired key ((s.caches.get? key).getD ∅) now

/-- The body of the loop of `GuardAttributes`, which reads the clock to purge and again for the
stamp: the tables, and the value in `result`. -/
def guardAttribute (key value : String) (t : ℚ × ℚ) (s : Tables) : Tables × String :=
  match s.limits.get? key with
  | none => (s, value)
  | some limit =>
      let s := s.swept key t.1
      let cache := (s.caches.get? key).getD ∅
      if value ∈ cache then (s, value)
      else if limit.maxValues ≤ cache.card then (s, overflowValue)
      else
        ({ s with caches := s.caches.set key (insert value cache)
                  expiry := s.expiry.set key
                    ((s.expiryFor key).set value (t.2 + limit.ttlSeconds)) }, value)

/-- The time to live of a key's values. -/
def ttl (s : Tables) (key : String) : ℚ := ((s.limits.get? key).map (·.ttlSeconds)).getD 0

/-- The cache of a key is made of the values that have an expiry, and holds no more than the limit
in force. -/
structure Kept (s : Tables) : Prop where
  synced : ∀ k, s.caches.get? k = (s.expiry.get? k).map fun exp => exp.keys.toFinset
  bounded : ∀ k limit, s.limits.get? k = some limit →
    (s.expiryFor k).entries.length ≤ limit.maxValues.toNat

end Tables

open Tables

/-- The limiter. A value's stamp is the time at which it came. -/
def limiter : Limiter Tables CardinalityLimit (ℚ × ℚ) String String where
  limit s key := s.limits.get? key
  rule limit := ⟨limit.maxValues.toNat, limit.ttlSeconds, false⟩
  table s key := (s.expiryFor key).mapValues (· - s.ttl key)
  register := registerCardinalityLimit
  clear := clearCardinalityLimits
  use := guardAttribute
  now := Prod.fst
  later := Prod.snd

/-- What a sweep leaves. -/
structure Swept (key : String) (now : ℚ) (s s' : Tables) : Prop where
  limits : s'.limits = s.limits
  synced : ∀ k, s'.caches.get? k = (s'.expiry.get? k).map fun exp => exp.keys.toFinset
  own : s'.expiry.get? key = some ((s.expiryFor key).filter fun e => !decide (e.2 ≤ now))
  other : ∀ k, k ≠ key → s'.expiry.get? k = s.expiry.get? k

theorem openCache_expiry {s : Tables} (hs : s.Kept) (key : String) :
    (s.openCache key).limits = s.limits ∧
      (∀ k, (s.openCache key).caches.get? k =
        ((s.openCache key).expiry.get? k).map fun exp => exp.keys.toFinset) ∧
      (s.openCache key).expiry.get? key = some (s.expiryFor key) ∧
      ∀ k, k ≠ key → (s.openCache key).expiry.get? k = s.expiry.get? k := by
  have hkey := hs.synced key
  rw [Tables.openCache]
  split_ifs with hcache
  · refine ⟨rfl, hs.synced, ?_, fun _ _ => rfl⟩
    rw [hkey, Option.isSome_map] at hcache
    obtain ⟨exp, hexp⟩ := Option.isSome_iff_exists.mp hcache
    rw [Tables.expiryFor, hexp]
    rfl
  · rw [hkey, Option.isSome_map, Option.not_isSome_iff_eq_none] at hcache
    refine ⟨rfl, fun k => ?_, ?_, fun k hk => ?_⟩
    · simp only [Dict.get?_set]
      split_ifs
      · rfl
      · exact hs.synced k
    · simp [Tables.expiryFor, hcache]
    · simp [hk]

theorem swept_spec {s : Tables} (hs : s.Kept) (key : String) (now : ℚ) :
    Swept key now s (s.swept key now) := by
  obtain ⟨hlimits, hsynced, hown, hother⟩ := openCache_expiry hs key
  have hcache : ((s.openCache key).caches.get? key).getD ∅ = (s.expiryFor key).keys.toFinset := by
    rw [hsynced, hown]
    rfl
  simp only [Tables.swept, Tables.purgeExpired, hown, hcache]
  refine ⟨hlimits, fun k => ?_, by simp, fun k hk => by simp [hk, hother]⟩
  simp only [Dict.get?_set]
  split_ifs with hk
  · rw [Option.map_some, Option.some.injEq]
    ext v
    simp only [Finset.mem_sdiff, List.mem_toFinset, ← Dict.isSome_get?_iff, Dict.get?_filter,
      List.mem_map, List.mem_filter, Prod.exists, decide_eq_true_eq, Dict.mem_entries_iff]
    cases hv : (s.expiryFor key).get? v <;> simp [hv]
  · exact hsynced k

/-- What the body of the loop leaves of the expiries. -/
theorem guardAttribute_spec {key : String} {s : Tables} {limit : CardinalityLimit} (hs : s.Kept)
    (hlimit : s.limits.get? key = some limit) (value : String) (t : ℚ × ℚ) :
    let exp := (s.expiryFor key).filter fun e => !decide (e.2 ≤ t.1)
    let stored := (exp.get? value).isSome = true
    let full := limit.maxValues.toNat ≤ exp.entries.length
    let s' := (guardAttribute key value t s).1
    s'.limits = s.limits ∧
      (∀ k, s'.caches.get? k = (s'.expiry.get? k).map fun exp => exp.keys.toFinset) ∧
      (∀ k, s'.expiryFor k = if k = key then
          (if stored then exp else if full then exp
            else exp.set value (t.2 + limit.ttlSeconds)) else s.expiryFor k) ∧
      (guardAttribute key value t s).2 =
        if stored then value else if full then overflowValue else value := by
  obtain ⟨hlimits, hsynced, hown, hother⟩ := swept_spec hs key t.1
  have hcache : ((s.swept key t.1).caches.get? key).getD ∅ =
      ((s.expiryFor key).filter fun e => !decide (e.2 ≤ t.1)).keys.toFinset := by
    rw [hsynced, hown]
    rfl
  have hexpiry : (s.swept key t.1).expiryFor key =
      (s.expiryFor key).filter fun e => !decide (e.2 ≤ t.1) := by
    rw [Tables.expiryFor, hown, Option.getD_some]
  generalize (s.expiryFor key).filter (fun e => !decide (e.2 ≤ t.1)) = exp at *
  have hothers : ∀ k, k ≠ key → (s.swept key t.1).expiryFor k = s.expiryFor k := fun k hk => by
    rw [Tables.expiryFor, hother k hk, ← Tables.expiryFor]
  have hunset : ∀ k, (s.swept key t.1).expiryFor k = if k = key then exp else s.expiryFor k := by
    intro k
    split_ifs with hk
    · rw [hk, hexpiry]
    · exact hothers k hk
  have hmem : value ∈ exp.keys.toFinset ↔ (exp.get? value).isSome = true := by
    rw [List.mem_toFinset, Dict.isSome_get?_iff]
  have hcard : limit.maxValues ≤ (exp.keys.toFinset.card : ℤ) ↔
      limit.maxValues.toNat ≤ exp.entries.length := by
    rw [List.toFinset_card_of_nodup exp.nodup_keys, Dict.keys, List.length_map]
    omega
  simp only [guardAttribute, hlimit, hcache, hmem, hcard]
  by_cases hstored : (exp.get? value).isSome = true
  · simp only [hstored, if_true]
    exact ⟨hlimits, hsynced, hunset, trivial⟩
  · by_cases hfull : limit.maxValues.toNat ≤ exp.entries.length
    · simp only [hstored, hfull, if_true, Bool.false_eq_true, if_false]
      exact ⟨hlimits, hsynced, hunset, trivial⟩
    · simp only [hstored, hfull, Bool.false_eq_true, if_false, hexpiry]
      refine ⟨hlimits, fun k => ?_, fun k => ?_, trivial⟩
      · simp only [Dict.get?_set]
        split_ifs with hk
        · rw [Option.map_some, Dict.keys_set, if_neg fun h => hstored (Dict.isSome_get?_iff.mpr h),
            Option.some.injEq]
          ext v
          simp
        · exact hsynced k
      · simp only [Tables.expiryFor, Dict.get?_set]
        split_ifs with hk
        · rfl
        · exact hothers k hk

theorem kept_empty : ({} : Tables).Kept := ⟨fun _ => rfl, fun _ _ h => by cases h⟩

theorem kept_register {s : Tables} (hs : s.Kept) (key : String) (limit : CardinalityLimit) :
    (s.registerCardinalityLimit key limit).Kept := by
  refine ⟨fun k => ?_, fun k l hl => ?_⟩
  · simp only [registerCardinalityLimit, Dict.get?_erase]
    split_ifs
    · rfl
    · exact hs.synced k
  · simp only [registerCardinalityLimit, Dict.get?_set, Tables.expiryFor, Dict.get?_erase] at hl ⊢
    split_ifs at hl ⊢ with hk
    · exact Nat.zero_le _
    · exact hs.bounded k l hl

theorem kept_use {s : Tables} (hs : s.Kept) (key value : String) (t : ℚ × ℚ) :
    (guardAttribute key value t s).1.Kept := by
  cases hlimit : s.limits.get? key with
  | none =>
      simp only [guardAttribute, hlimit]
      exact hs
  | some limit =>
      obtain ⟨hlimits, hsynced, hexpiry, -⟩ := guardAttribute_spec hs hlimit value t
      refine ⟨hsynced, fun k l hl => ?_⟩
      rw [hlimits] at hl
      rw [hexpiry]
      split_ifs with hk hstored hfull
      all_goals first | subst hk | exact hs.bounded k l hl
      all_goals obtain rfl : limit = l := Option.some.inj (hlimit.symm.trans hl)
      · exact (List.length_filter_le _ _).trans (hs.bounded k limit hl)
      · exact (List.length_filter_le _ _).trans (hs.bounded k limit hl)
      · rw [Dict.entries_set_of_notMem fun h => hstored (Dict.isSome_get?_iff.mpr h),
          List.length_append]
        exact not_le.mp hfull

/-- What has not expired is younger than the time to live. -/
theorem step_purge (exp : Dict String ℚ) (limit : CardinalityLimit) (now : ℚ) :
    Step (limiter.rule limit) (exp.mapValues (· - limit.ttlSeconds)) (.sweep now)
      ((exp.filter fun e => !decide (e.2 ≤ now)).mapValues (· - limit.ttlSeconds)) := by
  refine .sweep (fun v t ht => ?_) fun v t ht hnone => ?_
  · simp only [Dict.get?_mapValues, Dict.get?_filter, Option.map_eq_some_iff,
      Option.filter_eq_some_iff] at ht ⊢
    obtain ⟨u, ⟨hu, -⟩, rfl⟩ := ht
    exact ⟨u, hu, rfl⟩
  · simp only [Dict.get?_mapValues, Option.map_eq_some_iff] at ht
    obtain ⟨u, hu, rfl⟩ := ht
    have hold : u ≤ now := by simpa [hu] using hnone
    simp only [limiter]
    linarith

theorem limiter_sound : limiter.Sound Tables.Kept overflowValue where
  inv_register key limit s hs := kept_register hs key limit
  inv_use key value t s hs := kept_use hs key value t
  limit_register key k limit s hk := by simp [limiter, registerCardinalityLimit, hk]
  table_register key k limit s hk := by
    simp [limiter, registerCardinalityLimit, Tables.expiryFor, Tables.ttl, hk]
  use_none key value t s hnone := by
    simp only [limiter] at hnone
    simp only [limiter, guardAttribute, hnone]
  limit_use key value t s k hs := by
    cases hlimit : s.limits.get? key with
    | none => simp only [limiter, guardAttribute, hlimit]
    | some limit => exact congrArg (Dict.get? · k) (guardAttribute_spec hs hlimit value t).1
  table_use key value t s k hs hk := by
    cases hlimit : s.limits.get? key with
    | none => simp only [limiter, guardAttribute, hlimit]
    | some limit =>
        obtain ⟨hlimits, -, hexpiry, -⟩ := guardAttribute_spec hs hlimit value t
        simp only [limiter, Tables.ttl, hlimits, hexpiry, if_neg hk]
  use_some key value t s limit hs hlimit := by
    obtain ⟨hlimits, -, hexpiry, hout⟩ := guardAttribute_spec hs hlimit value t
    have httl : s.ttl key = limit.ttlSeconds := by
      simp only [limiter] at hlimit
      simp only [Tables.ttl, hlimit, Option.map_some, Option.getD_some]
    have httl' : (guardAttribute key value t s).1.ttl key = limit.ttlSeconds := by
      rw [Tables.ttl, hlimits, ← Tables.ttl, httl]
    refine ⟨_, by simpa only [limiter, httl] using step_purge (s.expiryFor key) limit t.1, ?_⟩
    simp only [limiter, httl', hexpiry, hout, if_true, Admission.look, Dict.get?_mapValues,
      Option.isSome_map, Bool.false_eq_true, if_false]
    have hlength : ∀ exp : Dict String ℚ,
        (exp.mapValues (· - limit.ttlSeconds)).entries.length = exp.entries.length :=
      fun exp => List.length_map _
    generalize (s.expiryFor key).filter (fun e => !decide (e.2 ≤ t.1)) = exp
    simp only [hlength]
    by_cases hstored : (exp.get? value).isSome = true
    · simp only [hstored, if_true, and_self]
    · by_cases hfull : limit.maxValues.toNat ≤ exp.entries.length
      · simp only [hstored, hfull, Bool.false_eq_true, if_false, if_true, and_self]
      · simp only [hstored, hfull, Bool.false_eq_true, if_false, if_true, and_true,
          Dict.mapValues_set, add_sub_cancel_right]

/-- Whatever was done before, the caches are in step with the expiries. -/
theorem kept_run (ops : List (Op String String CardinalityLimit (ℚ × ℚ))) :
    (limiter.guard.run ops {}).Kept := by
  have hrun : ∀ s : Tables, s.Kept → (limiter.guard.run ops s).Kept := by
    induction ops with
    | nil => exact fun s hs => hs
    | cons o ops ih =>
        intro s hs
        refine ih _ ?_
        cases o with
        | register key limit => exact kept_register hs key limit
        | clear => exact kept_empty
        | use key value t => exact kept_use hs key value t
  exact hrun {} kept_empty

/-! ### How many may pass -/

/-- Values used one after the other at one time. -/
def uses (key : String) (vs : List String) (t : ℚ) :
    List (Op String String CardinalityLimit (ℚ × ℚ)) :=
  vs.map fun v => .use key v (t, t)

/-- What a key's values are stored with, as far as they have not expired. -/
def live (s : Tables) (key : String) (t : ℚ) (v : String) : Option ℚ :=
  ((s.expiryFor key).get? v).filter fun e => !decide (e ≤ t)

theorem get?_filter_live (s : Tables) (key : String) (t : ℚ) (v : String) :
    ((s.expiryFor key).filter fun e => !decide (e.2 ≤ t)).get? v = live s key t v :=
  Dict.get?_filter _ _ v

/-- What has expired stays so. -/
theorem filter_live {s : Tables} {key v : String} {t u : ℚ} (h : t ≤ u) :
    ((live s key t v).filter fun e => !decide (e ≤ u)) = live s key u v := by
  rw [live, live]
  cases (s.expiryFor key).get? v with
  | none => rfl
  | some e =>
      by_cases hu : e ≤ u
      · by_cases ht : e ≤ t <;> simp [Option.filter, hu, ht]
      · have ht : ¬ e ≤ t := not_le.mpr (h.trans_lt (not_le.mp hu))
        simp [Option.filter, hu, ht]

section Fits

variable {s : Tables} {key : String} {limit : CardinalityLimit} {t : ℚ} {fits : Finset String}

/-- **A value that fits** passes, and lives from now on if it did not before. -/
theorem use_of_fits (hs : s.Kept) (hlimit : s.limits.get? key = some limit)
    (httl : 0 < limit.ttlSeconds) (hcard : fits.card ≤ limit.maxValues.toNat)
    (hfits : ∀ v, (live s key t v).isSome = true → v ∈ fits) {value : String}
    (hvalue : value ∈ fits) :
    (guardAttribute key value (t, t) s).2 = value ∧
      ∀ v, live (guardAttribute key value (t, t) s).1 key t v =
        if v = value then (live s key t v).or (some (t + limit.ttlSeconds))
        else live s key t v := by
  obtain ⟨-, -, hexpiry, hout⟩ := guardAttribute_spec hs hlimit value (t, t)
  have hlive := get?_filter_live s key t
  simp only at hexpiry hout
  generalize (s.expiryFor key).filter (fun e => !decide (e.2 ≤ t)) = exp at *
  have hkept : ∀ v, ((exp.get? v).filter fun e => !decide (e ≤ t)) = exp.get? v := by
    intro v
    rw [hlive, filter_live le_rfl]
  by_cases hstored : (exp.get? value).isSome = true
  · refine ⟨by rw [hout, if_pos hstored], fun v => ?_⟩
    obtain ⟨e, he⟩ := Option.isSome_iff_exists.mp hstored
    rw [live, hexpiry, if_pos rfl, if_pos hstored, hkept, ← hlive]
    split_ifs with hv
    · rw [hv, he]
      rfl
    · rfl
  · -- Together with the new value, those that live are still among those that fit.
    have hroom : exp.entries.length < limit.maxValues.toNat := by
      have hnew : value ∉ exp.keys.toFinset := by
        rw [List.mem_toFinset, ← Dict.isSome_get?_iff]
        exact hstored
      have hsub : insert value exp.keys.toFinset ⊆ fits := by
        refine Finset.insert_subset hvalue fun v hv => hfits v ?_
        rw [List.mem_toFinset, ← Dict.isSome_get?_iff, hlive] at hv
        exact hv
      have hlength : exp.keys.toFinset.card = exp.entries.length := by
        rw [List.toFinset_card_of_nodup exp.nodup_keys, Dict.keys, List.length_map]
      have hle := Finset.card_le_card hsub
      rw [Finset.card_insert_of_notMem hnew, hlength] at hle
      exact hle.trans hcard
    refine ⟨by rw [hout, if_neg hstored, if_neg (not_le.mpr hroom)], fun v => ?_⟩
    rw [live, hexpiry, if_pos rfl, if_neg hstored, if_neg (not_le.mpr hroom), Dict.get?_set,
      ← hlive]
    split_ifs with hv
    · rw [hv, Option.not_isSome_iff_eq_none.mp hstored]
      simp [httl]
    · exact hkept v

/-- **Values that fit** all pass. -/
theorem uses_of_fits (hs : s.Kept) (hlimit : s.limits.get? key = some limit)
    (httl : 0 < limit.ttlSeconds) (hcard : fits.card ≤ limit.maxValues.toNat)
    (hfits : ∀ v, (live s key t v).isSome = true → v ∈ fits) {vs : List String}
    (hvs : ∀ v ∈ vs, v ∈ fits ∧ v ≠ overflowValue) :
    limiter.guard.passed key overflowValue (uses key vs t) s = vs ∧
      (limiter.guard.run (uses key vs t) s).Kept ∧
      (limiter.guard.run (uses key vs t) s).limits.get? key = some limit ∧
      ∀ v, live (limiter.guard.run (uses key vs t) s) key t v =
        if v ∈ vs then (live s key t v).or (some (t + limit.ttlSeconds)) else live s key t v := by
  induction vs generalizing s with
  | nil => exact ⟨rfl, hs, hlimit, fun v => (if_neg List.not_mem_nil).symm⟩
  | cons value vs ih =>
      obtain ⟨⟨hvalue, hne⟩, hrest⟩ := List.forall_mem_cons.mp hvs
      obtain ⟨hout, hlive⟩ := use_of_fits hs hlimit httl hcard hfits hvalue
      have hlimits : (guardAttribute key value (t, t) s).1.limits.get? key = some limit := by
        rw [(guardAttribute_spec hs hlimit value (t, t)).1, hlimit]
      have hfits' : ∀ v, (live (guardAttribute key value (t, t) s).1 key t v).isSome = true →
          v ∈ fits := by
        intro v hv
        rw [hlive] at hv
        split_ifs at hv with hsame
        · rw [hsame]
          exact hvalue
        · exact hfits v hv
      obtain ⟨hpassed, hkept, hlimit', hlive'⟩ :=
        ih (kept_use hs key value (t, t)) hlimits hfits' hrest
      refine ⟨?_, hkept, hlimit', fun v => ?_⟩
      · have hfirst : limiter.guard.output (.use key value (t, t)) s = [(key, value)] :=
          congrArg (fun v => [(key, v)]) hout
        have hlater : limiter.guard.passed key overflowValue (uses key vs t)
            (limiter.guard.step (.use key value (t, t)) s) = vs := hpassed
        rw [uses, List.map_cons, Guard.passed, hfirst, ← uses, hlater]
        simp [hne]
      · refine (hlive' v).trans ?_
        rw [hlive]
        by_cases hv : v = value
        · subst hv
          cases live s key t v <;> simp
        · simp [hv]

end Fits

end CSharp

/-! ## Python -/

namespace Python

/-- The thread that runs a section. -/
def Op.thread : Op → Option ℕ
  | .call thread _ _ | .enter thread | .snapshot thread | .delete thread | .record thread
  | .finish thread => some thread
  | .register _ _ _ | .clear => none

/-- A section that cannot run is left out. -/
def step (op : Op) (s : State) : State := (machine.step s op).getD s

/-- What a thread has put in the result of its call. -/
def State.results (s : State) (thread : ℕ) : List (String × String) :=
  ((s.calls thread).map (·.done)).getD []

/-- What a section adds to the result of its call. -/
def added (op : Op) (s : State) : List (String × String) :=
  match op.thread with
  | some thread => ((step op s).results thread).drop (s.results thread).length
  | none => []

/-- The guard, in the window from `a` to `b`. -/
def guard (a b : ℚ) : Guard State Op String String where
  step := step
  output := added
  rule s key := (s.tables.limits.get? key).map fun limit => ⟨limit.maxValues.toNat, b - a, true⟩
  table s := s.tables.seenFor

/-- The section leaves a key's limit alone, and a call that starts reads a time of a window. -/
def Spares (key : String) (a b : ℚ) : Op → Prop
  | .call _ _ now => a ≤ now ∧ now < b
  | .register key' _ _ => key' ≠ key
  | .clear => False
  | _ => True

instance (key : String) (a b : ℚ) : DecidablePred (Spares key a b)
  | .call _ _ _ => inferInstanceAs (Decidable (_ ∧ _))
  | .register _ _ _ => inferInstanceAs (Decidable (_ ≠ _))
  | .clear => isFalse id
  | .enter _ | .snapshot _ | .delete _ | .record _ | .finish _ => isTrue trivial

/-- The window is no longer than the time to live of a key's values, and the calls that are under
way have read a time of it. -/
structure InWindow (key : String) (a b : ℚ) (s : State) : Prop where
  ttl : ∀ limit, s.tables.limits.get? key = some limit → ∀ ttl ∈ limit.ttlSeconds, b ≤ a + ttl
  calls : ∀ thread call, s.calls thread = some call → a ≤ call.now ∧ call.now < b

section Sections

variable {s s' : State} {op : Op} {thread : ℕ} {call : Call} {key : String} {a b : ℚ}

theorem seenFor_setSeen (t : Tables) (key' k : String) (seen : Dict String ℚ) :
    (t.setSeen key' seen).seenFor k = if k = key' then seen else t.seenFor k := by
  by_cases hk : k = key' <;> simp [Tables.seenFor, Tables.setSeen, hk]

/-- What a section of a thread's call does to the call and to the tables, and what it adds to the
result. -/
inductive Effect (s : State) (op : Op) (thread : ℕ) :
    Option Call → Tables → List (String × String) → Prop
  | starts {call : Call} {attributes : Dict String String}
      (hop : op = .call thread attributes call.now) :
      Effect s op thread (some call) s.tables []
  | ends : Effect s op thread none s.tables []
  | goes {call call' : Call} {t : Tables} (hcall : s.calls thread = some call)
      (hnow : call'.now = call.now) (hlimits : t.limits = s.tables.limits)
      (hseen : t.seen = s.tables.seen) : Effect s op thread (some call') t []
  /-- Attributes without a limit are the result. -/
  | frees {call call' : Call} {more : List (String × String)} (hcall : s.calls thread = some call)
      (hnow : call'.now = call.now) (hfree : ∀ e ∈ more, s.tables.limits.get? e.1 = none) :
      Effect s op thread (some call') s.tables more
  | sweeps {call call' : Call} (hcall : s.calls thread = some call) (hnow : call'.now = call.now)
      (key : String) (candidates : List String) :
      Effect s op thread (some call') (s.tables.deleteExpired key candidates call.now) []
  | looks {call call' : Call} (hcall : s.calls thread = some call) (hnow : call'.now = call.now)
      (key value : String) :
      Effect s op thread (some call') (s.tables.record key value call.now).1
        [(key, (s.tables.record key value call.now).2)]

/-- **A section of a call** has an effect. -/
theorem effect_of_step (h : machine.step s op = some s') (hthread : op.thread = some thread) :
    ∃ next, s'.calls = (s.withCall thread next).calls ∧
      Effect s op thread next s'.tables (added op s) := by
  -- What a section adds are the attributes that it appends to those that are done.
  have heffect : ∀ next more, s'.calls = (s.withCall thread next).calls →
      (s.results thread ++ more = (next.map (·.done)).getD [] ∨ next = none ∧ more = []) →
      Effect s op thread next s'.tables more →
      ∃ next, s'.calls = (s.withCall thread next).calls ∧
        Effect s op thread next s'.tables (added op s) := by
    intro next more hcalls hdone heffect
    have hstep : step op s = s' := by rw [step, h, Option.getD_some]
    have hresults : s'.results thread = (next.map (·.done)).getD [] := by
      simp [State.results, hcalls, State.withCall]
    have hadded : added op s = more := by
      simp only [added, hthread, hstep, hresults]
      obtain hdone | ⟨rfl, rfl⟩ := hdone
      · rw [← hdone, List.drop_left]
      · exact List.drop_nil
    rw [hadded]
    exact ⟨next, hcalls, heffect⟩
  have hresults : ∀ call, s.calls thread = some call → s.results thread = call.done := by
    intro call hcall
    rw [State.results, hcall]
    rfl
  cases op with
  | call thread' attributes now =>
      obtain rfl : thread' = thread := Option.some.inj hthread
      simp only [machine] at h
      split_ifs at h with hidle
      cases h
      exact heffect _ [] rfl (.inl (by simp [State.results, hidle.1])) (.starts rfl)
  | enter thread' =>
      obtain rfl : thread' = thread := Option.some.inj hthread
      obtain ⟨call, hcall, hrest⟩ := Option.bind_eq_some_iff.mp h
      simp only [State.enter] at hrest
      split_ifs at hrest with hphase hfree <;> cases hrest
      · refine heffect _ call.todo rfl (.inl ?_) (.frees hcall rfl fun e _ => ?_)
        · rw [hresults call hcall]
          rfl
        · rw [Dict.get?, hfree]
          rfl
      · exact heffect _ [] rfl (.inl (by simp [hresults call hcall])) (.goes hcall rfl rfl rfl)
  | snapshot thread' =>
      obtain rfl : thread' = thread := Option.some.inj hthread
      obtain ⟨call, hcall, hrest⟩ := Option.bind_eq_some_iff.mp h
      rw [State.snapshot] at hrest
      split at hrest
      · rename_i key value rest _ _
        split_ifs at hrest with hfree
        · cases hrest
          refine heffect _ [(key, value)] rfl (.inl ?_) (.frees hcall rfl fun e he => ?_)
          · rw [hresults call hcall]
            rfl
          · rw [List.mem_singleton.mp he]
            exact Option.isNone_iff_eq_none.mp hfree
        · have hsame : (s.tables.snapshot key call.now).1.limits = s.tables.limits ∧
              (s.tables.snapshot key call.now).1.seen = s.tables.seen := by
            rw [Tables.snapshot]
            split_ifs <;> exact ⟨rfl, rfl⟩
          cases hrest
          exact heffect _ [] rfl (.inl (by simp [hresults call hcall]))
            (.goes hcall rfl hsame.1 hsame.2)
      · cases hrest
  | delete thread' =>
      obtain rfl : thread' = thread := Option.some.inj hthread
      obtain ⟨call, hcall, hrest⟩ := Option.bind_eq_some_iff.mp h
      obtain ⟨key, candidates, htables, -, hcalls⟩ := delete_eq_some hrest
      refine heffect _ [] hcalls (.inl (by simp [hresults call hcall])) ?_
      rw [htables]
      exact .sweeps hcall (by rfl) key candidates
  | record thread' =>
      obtain rfl : thread' = thread := Option.some.inj hthread
      obtain ⟨call, hcall, hrest⟩ := Option.bind_eq_some_iff.mp h
      obtain ⟨key, value, rest, -, -, htables, -, hcalls⟩ := record_eq_some hrest
      refine heffect _ [(key, (s.tables.record key value call.now).2)] hcalls
        (.inl (by simp [hresults call hcall])) ?_
      rw [htables]
      exact .looks hcall (by rfl) key value
  | finish thread' =>
      obtain rfl : thread' = thread := Option.some.inj hthread
      obtain ⟨call, hcall, hrest⟩ := Option.bind_eq_some_iff.mp h
      split_ifs at hrest with hdone
      cases hrest
      exact heffect none [] rfl (.inr ⟨rfl, rfl⟩) .ends
  | register _ _ _ => cases hthread
  | clear => cases hthread

/-- An effect leaves the limits alone. -/
theorem Effect.limits {next : Option Call} {t : Tables} {more : List (String × String)}
    (h : Effect s op thread next t more) : t.limits = s.tables.limits := by
  cases h with
  | goes _ _ hlimits _ => exact hlimits
  | sweeps hcall hnow key candidates =>
      rw [Tables.deleteExpired]
      split <;> rfl
  | looks hcall hnow key value => rw [record_fst, Tables.setSeen]
  | _ => rfl

/-- A call keeps the time that it has read. -/
theorem Effect.now {next : Option Call} {t : Tables} {more : List (String × String)}
    (h : Effect s op thread next t more) {call' : Call} (hnext : next = some call') :
    (∃ attributes, op = .call thread attributes call'.now) ∨
      ∃ call, s.calls thread = some call ∧ call'.now = call.now := by
  cases h with
  | starts hop =>
      obtain rfl := Option.some.inj hnext
      exact .inl ⟨_, hop⟩
  | ends => cases hnext
  | goes hcall hnow _ _ | frees hcall hnow _ | sweeps hcall hnow _ _ | looks hcall hnow _ _ =>
      obtain rfl := Option.some.inj hnext
      exact .inr ⟨_, hcall, hnow⟩

/-- Phase 2 is a sweep. -/
theorem step_deleteExpired {t : Tables} {limit : CardinalityLimit} {now : ℚ}
    (hlimit : t.limits.get? key = some limit) (hlive : ∀ ttl ∈ limit.ttlSeconds, b ≤ a + ttl)
    (key' : String) (candidates : List String) :
    Step ⟨limit.maxValues.toNat, b - a, true⟩ (t.seenFor key) (.sweep now)
      ((t.deleteExpired key' candidates now).seenFor key) := by
  refine .sweep (fun v seenAt hv => ?_) fun v seenAt hv hnone => ?_
  · obtain hsame | ⟨hgone, -⟩ := stored_deleteExpired t key' now candidates key v
    · exact hsame.symm.trans hv
    · exact absurd (hgone.symm.trans hv) (Option.some_ne_none _).symm
  · obtain hsame | ⟨-, limit', seenAt', hlimit', hseen, hexpired⟩ :=
      stored_deleteExpired t key' now candidates key v
    · exact absurd (hv.symm.trans (hsame.symm.trans hnone)) (Option.some_ne_none _)
    · obtain rfl : limit = limit' := Option.some.inj (hlimit.symm.trans hlimit')
      obtain rfl : seenAt = seenAt' := Option.some.inj (hv.symm.trans hseen)
      obtain ⟨ttl, httl, hlate⟩ := CardinalityLimit.outlived_of_expired hexpired le_rfl
      have hend := hlive ttl httl
      simp only
      linarith

/-- Phase 3 is a look. -/
theorem record_eq_look {t : Tables} {limit : CardinalityLimit}
    (hlimit : t.limits.get? key = some limit) (value : String) (now ttl : ℚ) :
    let looked := Admission.look ⟨limit.maxValues.toNat, ttl, true⟩ value now (t.seenFor key)
    (t.record key value now).1.seenFor key = looked.1 ∧
      (t.record key value now).2 = if looked.2 then value else overflowValue := by
  have hroom : limit.maxValues.toNat ≤ (t.seenFor key).entries.length ↔
      limit.maxValues ≤ (t.seenFor key).entries.length := Int.toNat_le
  have hset := fun seen => (seenFor_setSeen t key key seen).trans (if_pos rfl)
  simp only [Tables.record, hlimit, Admission.look, hroom, if_true]
  by_cases hstored : ((t.seenFor key).get? value).isSome = true
  · simp only [hstored, if_true, hset, and_self]
  · by_cases hfull : limit.maxValues ≤ (t.seenFor key).entries.length
    · simp only [hstored, hfull, Bool.false_eq_true, if_true, if_false, hset, and_self]
    · simp only [hstored, hfull, Bool.false_eq_true, if_true, if_false, hset, and_self]

theorem inWindow_step (hwin : InWindow key a b s) (hok : Spares key a b op) :
    InWindow key a b (step op s) ∧
      (step op s).tables.limits.get? key = s.tables.limits.get? key := by
  rw [step]
  cases h : machine.step s op with
  | none => exact ⟨hwin, rfl⟩
  | some s' =>
      rw [Option.getD_some]
      cases hthread : op.thread with
      | none =>
          cases op with
          | register key' maxValues ttlSeconds =>
              cases h
              have hsame : (s.withTables (s.tables.registerCardinalityLimit key' maxValues
                  ttlSeconds)).tables.limits.get? key = s.tables.limits.get? key := by
                simp [State.withTables, Tables.registerCardinalityLimit, Tables.setSeen,
                  Ne.symm hok]
              refine ⟨⟨fun limit hlimit => hwin.ttl limit (hsame ▸ hlimit), hwin.calls⟩, hsame⟩
          | clear => exact hok.elim
          | _ => cases hthread
      | some thread =>
          obtain ⟨next, hcalls, heffect⟩ := effect_of_step h hthread
          have hlimits := heffect.limits
          refine ⟨⟨fun limit hlimit => hwin.ttl limit (hlimits ▸ hlimit), ?_⟩, by rw [hlimits]⟩
          intro other call' hcall'
          rw [hcalls, State.withCall] at hcall'
          simp only at hcall'
          split_ifs at hcall' with hother
          · obtain ⟨attributes, rfl⟩ | ⟨call, hcall, hnow⟩ := heffect.now hcall'
            · exact hok
            · rw [hnow]
              exact hwin.calls thread call hcall
          · exact hwin.calls other call' hcall'

theorem guard_lawful (key : String) (a b : ℚ) :
    (guard a b).Lawful (InWindow key a b) (Spares key a b) key overflowValue a b where
  inv_step op s hok hwin := (inWindow_step hwin hok).1
  step op s r hok hwin hr := by
    refine ⟨by simpa only [guard, (inWindow_step hwin hok).2] using hr, ?_⟩
    simp only [guard, Option.map_eq_some_iff] at hr
    obtain ⟨limit, hlimit, rfl⟩ := hr
    simp only [guard]
    cases h : machine.step s op with
    | none =>
        have hstep : step op s = s := by rw [step, h, Option.getD_none]
        refine Admission.run_nothing (by rw [hstep]) fun w hw => ?_
        rw [added, hstep] at hw
        split at hw <;> simp at hw
    | some s' =>
        have hstep : step op s = s' := by rw [step, h, Option.getD_some]
        rw [hstep]
        cases hthread : op.thread with
        | none =>
            refine Admission.run_nothing ?_ (by simp [added, hthread])
            cases op with
            | register key' maxValues ttlSeconds =>
                cases h
                simp only [State.withTables, Tables.registerCardinalityLimit, seenFor_setSeen]
                rw [if_neg (Ne.symm hok)]
                rfl
            | clear => exact hok.elim
            | _ => cases hthread
        | some thread =>
            obtain ⟨next, -, heffect⟩ := effect_of_step h hthread
            generalize added op s = more at heffect ⊢
            generalize s'.tables = t at heffect ⊢
            cases heffect with
            | starts _ => exact Admission.run_nothing rfl (by simp)
            | ends => exact Admission.run_nothing rfl (by simp)
            | goes _ _ _ hseen =>
                refine Admission.run_nothing ?_ (by simp)
                rw [Tables.seenFor, hseen, Tables.seenFor]
            | frees _ _ hfree =>
                refine Admission.run_nothing rfl fun w hw => ?_
                have hnone := hfree _ hw
                rw [hlimit] at hnone
                cases hnone
            | sweeps hcall hnow key' candidates =>
                rename_i call call'
                refine ⟨[.sweep call.now], .single (step_deleteExpired hlimit
                  (hwin.ttl limit hlimit) key' candidates), ?_, by simp⟩
                rintro e he t ht
                obtain rfl := List.mem_singleton.mp he
                obtain rfl := Option.some.inj ht
                exact hwin.calls thread call hcall
            | looks hcall hnow key' value =>
                rename_i call call'
                by_cases hk : key' = key
                · subst hk
                  obtain ⟨htable, hout⟩ := record_eq_look hlimit value call.now (b - a)
                  have hin := hwin.calls thread call hcall
                  exact Admission.run_look (.unswept _ _ call.now) hin hin htable hout
                · refine Admission.run_nothing ?_ (by simp [Ne.symm hk])
                  rw [record_fst, seenFor_setSeen, if_neg (Ne.symm hk)]

end Sections

end Python

/-! ## What passes -/

/-- **Python lets no more values pass than the limit** in a window no longer than the time to live,
in whatever order the threads run the sections of their calls. -/
theorem python_passed_le {s : Python.State} {key : String} {limit : Python.CardinalityLimit}
    {a b : ℚ} {ops : List Python.Op} (hlimit : s.tables.limits.get? key = some limit)
    (hwin : Python.InWindow key a b s) (hops : ∀ op ∈ ops, Python.Spares key a b op) :
    ((Python.guard a b).passed key Python.overflowValue ops s).toFinset.card ≤
      max (s.tables.count key) limit.maxValues.toNat := by
  have hrule : (Python.guard a b).rule s key = some ⟨limit.maxValues.toNat, b - a, true⟩ :=
    (congrArg (Option.map _) hlimit).trans rfl
  have hlawful : (Python.guard a b).Lawful (Python.InWindow key a b) (Python.Spares key a b) key
      Python.overflowValue a (a + (b - a)) := by
    rw [add_sub_cancel]
    exact Python.guard_lawful key a b
  exact hlawful.card_passed_le hwin hrule rfl hops

/-- One limit of two users, for a minute. -/
def pythonLimited : Python.State :=
  ({} : Python.State).withTables (Python.Tables.registerCardinalityLimit "user" 2 (.ofRat 60) {})

/-- A call that has read the clock early comes last. -/
def pythonUses : List Python.Op :=
  [.call 1 (Python.user "ada") 10, .enter 1, .call 2 (Python.user "bob") 30, .enter 2, .snapshot 2,
    .record 2, .call 3 (Python.user "eve") 60, .enter 3, .snapshot 3, .snapshot 1, .record 3,
    .record 1]

theorem pythonUses_passed_le :
    ((Python.guard 10 70).passed "user" Python.overflowValue pythonUses pythonLimited).toFinset.card
      ≤ 2 := by
  have hlimit : pythonLimited.tables.limits.get? "user" = some ⟨2, some 60⟩ := by decide
  have hwin : Python.InWindow "user" 10 70 pythonLimited := by
    refine ⟨fun limit hsome ttl httl => ?_, fun _ _ hcall => by cases hcall⟩
    obtain rfl := Option.some.inj (hlimit.symm.trans hsome)
    obtain rfl := Option.some.inj httl
    norm_num
  exact (python_passed_le hlimit hwin (by decide)).trans (by decide)

/-- Three users within a minute, one of them a second time. -/
def fewUses {lim τ : Type} (time : ℚ → τ) : List (Op String String lim τ) :=
  [.use "user" "ada" (time 10), .use "user" "bob" (time 20), .use "user" "eve" (time 30),
    .use "user" "ada" (time 69)]

/-- **C# lets no more than twice the limit pass** in less than the time to live, from any state that
was reached: what it stored when the time began, and what came then. -/
theorem cSharp_passed_le {before ops : List (Op String String CSharp.CardinalityLimit (ℚ × ℚ))}
    {key : String} {limit : CSharp.CardinalityLimit} {a : ℚ}
    (hlimit : (CSharp.limiter.guard.run before {}).limits.get? key = some limit)
    (hops : ∀ o ∈ ops, CSharp.limiter.Spares key a (a + limit.ttlSeconds) o) :
    (CSharp.limiter.guard.passed key CSharp.overflowValue ops
      (CSharp.limiter.guard.run before {})).toFinset.card ≤ 2 * limit.maxValues.toNat := by
  have hs := CSharp.kept_run before
  have hrule : CSharp.limiter.guard.rule (CSharp.limiter.guard.run before {}) key =
      some (CSharp.limiter.rule limit) := congrArg (Option.map CSharp.limiter.rule) hlimit
  have hbound : (CSharp.limiter.guard.table (CSharp.limiter.guard.run before {}) key).entries.length
      ≤ limit.maxValues.toNat := (List.length_map _).trans_le (hs.bounded key limit hlimit)
  have hpassed := (CSharp.limiter_sound.lawful key a (a + limit.ttlSeconds)).card_passed_le_add hs
    hrule hops
  have hcapacity : (CSharp.limiter.rule limit).capacity = limit.maxValues.toNat := rfl
  omega

theorem fewUses_cSharp_passed_le :
    (CSharp.limiter.guard.passed "user" CSharp.overflowValue (fewUses fun t => (t, t))
      (CSharp.limiter.guard.run [.register "user" ⟨2, 60⟩] {})).toFinset.card ≤ 2 * 2 := by
  have hlimit : (CSharp.limiter.guard.run [.register "user" ⟨2, 60⟩] {}).limits.get? "user" =
      some ⟨2, 60⟩ := by decide
  have hops : ∀ o ∈ fewUses fun t => (t, t), CSharp.limiter.Spares "user" 10 (10 + 60) o := by
    with_unfolding_all decide
  exact cSharp_passed_le hlimit hops

/-- Different values. -/
def row (c : Char) (n : ℕ) : List String :=
  (List.range (n + 1)).map fun i => String.ofList (List.replicate (i + 1) c)

theorem nodup_row (c : Char) (n : ℕ) : (row c n).Nodup := by
  refine List.nodup_range.map fun i j hij => ?_
  have hlength := congrArg (fun s => s.toList.length) hij
  simpa using hlength

theorem head_of_mem_row {c : Char} {n : ℕ} {v : String} (h : v ∈ row c n) :
    v.toList.head? = some c := by
  obtain ⟨i, -, rfl⟩ := List.mem_map.mp h
  simp [List.replicate_succ]

theorem card_row (c : Char) (n : ℕ) : (row c n).toFinset.card = n + 1 := by
  rw [List.toFinset_card_of_nodup (nodup_row c n), row, List.length_map, List.length_range]

/-- A limit with nothing stored under it. -/
def unused (n : ℕ) : CSharp.Tables := CSharp.Tables.registerCardinalityLimit "user" ⟨n + 1, 10⟩ {}

theorem limit_unused (n : ℕ) : (unused n).limits.get? "user" = some ⟨n + 1, 10⟩ := by
  have hone : max 1 ((n : ℤ) + 1) = n + 1 := max_eq_right (by omega)
  have hten : max (1 : ℚ) 10 = 10 := by norm_num
  simp only [unused, CSharp.Tables.registerCardinalityLimit, Dict.get?_set, if_true, hone, hten]

/-- **As many values as the limit allows** pass where no others live. -/
theorem row_passes {n : ℕ} {s : CSharp.Tables} {t : ℚ} {c : Char} (hs : s.Kept)
    (hlimit : s.limits.get? "user" = some ⟨n + 1, 10⟩) (hc : c ≠ '_')
    (hlive : ∀ v, (CSharp.live s "user" t v).isSome = true → v ∈ row c n) :
    CSharp.limiter.guard.passed "user" CSharp.overflowValue (CSharp.uses "user" (row c n) t) s =
      row c n ∧
      (CSharp.limiter.guard.run (CSharp.uses "user" (row c n) t) s).Kept ∧
      (CSharp.limiter.guard.run (CSharp.uses "user" (row c n) t) s).limits.get? "user" =
        some ⟨n + 1, 10⟩ ∧
      ∀ v, CSharp.live (CSharp.limiter.guard.run (CSharp.uses "user" (row c n) t) s) "user" t v =
        if v ∈ row c n then (CSharp.live s "user" t v).or (some (t + 10))
        else CSharp.live s "user" t v := by
  refine CSharp.uses_of_fits hs hlimit (by norm_num) ((card_row c n).trans_le ?_)
    (fun v hv => List.mem_toFinset.mpr (hlive v hv)) fun v hv => ?_
  · exact (Int.toNat_natCast _).ge
  · refine ⟨List.mem_toFinset.mpr hv, fun hover => hc ?_⟩
    have hhead := head_of_mem_row hv
    rw [hover] at hhead
    exact (Option.some.inj hhead).symm

/-- **C# lets twice the limit pass**: for every limit there is a run in which as many values pass in
less than the time to live. -/
theorem cSharp_twice (n : ℕ) :
    ∃ before ops : List (Op String String CSharp.CardinalityLimit (ℚ × ℚ)),
      (CSharp.limiter.guard.run before {}).limits.get? "user" = some ⟨n + 1, 10⟩ ∧
      (∀ o ∈ ops, CSharp.limiter.Spares "user" 9 11 o) ∧
      (CSharp.limiter.guard.passed "user" CSharp.overflowValue ops
        (CSharp.limiter.guard.run before {})).toFinset.card = 2 * (n + 1) := by
  -- Values come at 0, and live until 10.
  have hkept : (unused n).Kept := CSharp.kept_register CSharp.kept_empty "user" ⟨n + 1, 10⟩
  have hunused : ∀ v, CSharp.live (unused n) "user" 0 v = none := fun v => rfl
  obtain ⟨-, hs₁, hlimit₁, hlive₁⟩ := row_passes (t := 0) (c := 'a') hkept (limit_unused n)
    (by decide) (fun v hv => by rw [hunused] at hv; cases hv)
  refine ⟨.register "user" ⟨n + 1, 10⟩ :: CSharp.uses "user" (row 'a' n) 0,
    CSharp.uses "user" (row 'a' n) 9 ++ CSharp.uses "user" (row 'b' n) 10, hlimit₁, ?_, ?_⟩
  · rintro o ho
    obtain ho | ho := List.mem_append.mp ho
    all_goals
      obtain ⟨v, -, rfl⟩ := List.mem_map.mp ho
      refine ⟨⟨?_, ?_⟩, ?_, ?_⟩ <;> norm_num [CSharp.limiter]
  have hrun : CSharp.limiter.guard.run
      (.register "user" ⟨n + 1, 10⟩ :: CSharp.uses "user" (row 'a' n) 0) {} =
      CSharp.limiter.guard.run (CSharp.uses "user" (row 'a' n) 0) (unused n) := rfl
  rw [hrun, Guard.passed_append]
  generalize CSharp.limiter.guard.run (CSharp.uses "user" (row 'a' n) 0) (unused n) = s₁ at *
  have hnine : ∀ v, CSharp.live s₁ "user" 9 v = if v ∈ row 'a' n then some 10 else none := by
    intro v
    rw [← CSharp.filter_live (show (0 : ℚ) ≤ 9 by norm_num), hlive₁, hunused]
    split_ifs <;> norm_num
  -- They pass once more while they live.
  obtain ⟨hpassed₂, hs₂, hlimit₂, hlive₂⟩ := row_passes (t := 9) (c := 'a') hs₁ hlimit₁ (by decide)
    (fun v hv => by
      rw [hnine] at hv
      split_ifs at hv with hmem
      · exact hmem
      · cases hv)
  generalize CSharp.limiter.guard.run (CSharp.uses "user" (row 'a' n) 9) s₁ = s₂ at *
  have hten : ∀ v, CSharp.live s₂ "user" 10 v = none := by
    intro v
    rw [← CSharp.filter_live (show (9 : ℚ) ≤ 10 by norm_num), hlive₂, hnine]
    split_ifs <;> simp
  -- At 10 they are gone, and others come.
  obtain ⟨hpassed₃, -⟩ := row_passes (t := 10) (c := 'b') hs₂ hlimit₂ (by decide)
    (fun v hv => by rw [hten] at hv; cases hv)
  rw [hpassed₂, hpassed₃, List.toFinset_append, Finset.card_union_of_disjoint, card_row, card_row,
    two_mul]
  rw [Finset.disjoint_left]
  intro v hv hv'
  rw [List.mem_toFinset] at hv hv'
  have hhead := (head_of_mem_row hv).symm.trans (head_of_mem_row hv')
  exact absurd hhead (by decide)

end Telemetry.Cardinality
