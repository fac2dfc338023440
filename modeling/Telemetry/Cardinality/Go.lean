import Mathlib.Data.String.Basic
import Mathlib.Logic.Function.Basic
import Telemetry.Lib.Number
import Telemetry.Lib.Run

/-!
# Cardinality limits of the Go SDK

`cardinality.go`: a limit for an attribute key, and for each limited key a cache of the values seen
with it, which is made when it is first needed. `GuardAttributes` copies a limit under the read
lock, releases it, and then looks the value up under the write lock; `SetCardinalityLimit` drops
the cache so that the next call makes one with the new limit.

A call that copied the limit before the change and comes for the cache after it makes one from its
copy, and that cache stays. The caches are those of the limits in force as long as whoever makes a
cache has a copy that asks for the same one.

## Main definitions

* `Lru` — the expiring cache, with the capacity and the time to live it was made with.
* `setCardinalityLimit`, `lruForKey`, `guardValue` — the locked sections.
* `State`, `Op`, `machine` — the interleavings of calls.
* `InForce` — every cache was made for the limit in force.
* `MakesFreshCache` — the sections that make no other cache.

## Main results

* `inForce_iff_guarded` — **limits are in force throughout a run** iff no cache is made from an
  outdated copy.
-/

namespace Telemetry.Cardinality.Go

open Telemetry.Lib

/-- `_overflowValue`. -/
def overflowValue : String := "__overflow__"

/-- `CardinalityLimit`. -/
structure CardinalityLimit where
  maxValues : ℤ
  ttlSeconds : Number
  deriving DecidableEq

/-! ## The expiring cache -/

/-- `expirable.LRU`, the most recently used entry first. Times are in nanoseconds. -/
structure Lru where
  cap : ℤ
  ttl : ℤ
  /-- The keys, and when they expire. -/
  entries : List (String × ℤ) := []
  deriving DecidableEq, Repr

namespace Lru

/-- `NewLRU`. -/
def new (cap ttl : ℤ) : Lru := ⟨cap, ttl, []⟩

/-- An entry has not expired. -/
def isLive (now : ℤ) (e : String × ℤ) : Bool := now ≤ e.2

/-- `Get`: a key that is there and has not expired becomes the most recently used. -/
def get (now : ℤ) (key : String) (cache : Lru) : Lru × Bool :=
  match cache.entries.find? fun e => e.1 = key with
  | some e =>
      if isLive now e then
        ({ cache with entries := e :: cache.entries.filter fun e => e.1 ≠ key }, true)
      else (cache, false)
  | none => (cache, false)

/-- `Add`: beyond the capacity the least recently used entry goes. -/
def add (now : ℤ) (key : String) (cache : Lru) : Lru :=
  let rest := cache.entries.filter fun e => e.1 ≠ key
  let entries := (key, now + cache.ttl) :: rest
  if key ∉ cache.entries.map Prod.fst ∧ 0 < cache.cap ∧ cache.cap < entries.length then
    { cache with entries := entries.dropLast }
  else { cache with entries := entries }

/-- `_countLive`: it gets every key, from the least recently used on, and counts those there. -/
def countLive (now : ℤ) (cache : Lru) : Lru × ℕ :=
  (cache.entries.map Prod.fst).foldr
    (fun key acc => ((acc.1.get now key).1, acc.2 + (acc.1.get now key).2.toNat)) (cache, 0)

/-- Expired entries are removed in the background. -/
def purge (now : ℤ) (cache : Lru) : Lru :=
  { cache with entries := cache.entries.filter (isLive now) }

/-- The cache was made with this capacity and this time to live. -/
def MadeWith (cache : Lru) (shape : ℤ × ℤ) : Prop := cache.cap = shape.1 ∧ cache.ttl = shape.2

instance (cache : Lru) (shape : ℤ × ℤ) : Decidable (cache.MadeWith shape) :=
  inferInstanceAs (Decidable (_ ∧ _))

variable {cache : Lru} {shape : ℤ × ℤ} {now : ℤ} {key : String}

theorem madeWith_get : (cache.get now key).1.MadeWith shape ↔ cache.MadeWith shape := by
  rw [get]
  split
  · split <;> rfl
  · rfl

theorem madeWith_add : (cache.add now key).MadeWith shape ↔ cache.MadeWith shape := by
  simp only [add]
  split <;> rfl

theorem madeWith_countLive : (cache.countLive now).1.MadeWith shape ↔ cache.MadeWith shape := by
  rw [countLive]
  induction cache.entries.map Prod.fst with
  | nil => rfl
  | cons key keys ih =>
      rw [List.foldr_cons, ← ih]
      exact madeWith_get

end Lru

/-! ## Limits and caches -/

section Limits

-- `time.Duration(float64(time.Second) * seconds)`.
variable (toDuration : Number → ℤ)

/-- `max(1.0, seconds)`, which is not a number if `seconds` is not. -/
def clampSeconds : Number → Number
  | .nan => .nan
  | .num x => if x < 1 then .one else .num x

/-- The limit that `SetCardinalityLimit` stores. -/
def clamp (limit : CardinalityLimit) : CardinalityLimit :=
  ⟨max 1 limit.maxValues, clampSeconds limit.ttlSeconds⟩

/-- The capacity and the time to live that a cache for a limit is made with. Machine integers
wrap. -/
def shape (limit : CardinalityLimit) : ℤ × ℤ :=
  (max ((limit.maxValues * 10).bmod (2 ^ 64)) 1000, toDuration limit.ttlSeconds)

/-- The package's state. -/
structure Tables where
  limits : String → Option CardinalityLimit := fun _ => none
  caches : String → Option Lru := fun _ => none

namespace Tables

/-- `SetCardinalityLimit`. -/
def setCardinalityLimit (key : String) (limit : CardinalityLimit) (s : Tables) : Tables where
  limits := Function.update s.limits key (some (clamp limit))
  caches := Function.update s.caches key none

/-- A cache takes the place of the one for its key. -/
def store (key : String) (cache : Lru) (s : Tables) : Tables :=
  { s with caches := Function.update s.caches key (some cache) }

/-- `_lruForKey`: the cache that is there, or a new one for the limit at hand. -/
def lruForKey (key : String) (limit : CardinalityLimit) (s : Tables) : Lru :=
  (s.caches key).getD (.new (shape toDuration limit).1 (shape toDuration limit).2)

/-- `_guardValue`, and the value for the result. -/
def guardValue (now : ℤ) (key value : String) (limit : CardinalityLimit) (s : Tables) :
    Tables × String :=
  let got := (s.lruForKey toDuration key limit).get now value
  if got.2 then (s.store key got.1, value)
  else
    let counted := got.1.countLive now
    if limit.maxValues ≤ counted.2 then (s.store key counted.1, overflowValue)
    else (s.store key (counted.1.add now value), value)

end Tables

/-! ## Interleavings -/

/-- A call of `GuardAttributes`: the attributes that it has not seen yet, in the order in which the
map is ranged over, what it has copied for the next of them, and its result by now. -/
structure Call where
  attrs : List (String × String)
  copied : Option CardinalityLimit := none
  result : List (String × String) := []
  deriving DecidableEq

/-- The package's state, and the calls by their threads. -/
structure State where
  tables : Tables := {}
  calls : ℕ → Option Call := fun _ => none

/-- The sections that threads run. -/
inductive Op
  /-- `GuardAttributes` is called. -/
  | call (thread : ℕ) (attrs : List (String × String))
  /-- The limit for the next key is read under the read lock. -/
  | read (thread : ℕ)
  /-- `_guardValue` runs under the write lock. -/
  | guard (thread : ℕ) (now : ℤ)
  /-- `GuardAttributes` returns. -/
  | finish (thread : ℕ)
  | setCardinalityLimit (key : String) (limit : CardinalityLimit)
  /-- A cache removes what has expired. -/
  | purge (key : String) (now : ℤ)
  deriving DecidableEq

namespace State

/-- What a thread is doing changes. -/
def withCall (thread : ℕ) (call : Option Call) (s : State) : State :=
  { s with calls := Function.update s.calls thread call }

/-- The locked read: a key without a limit keeps its value. -/
def read (thread : ℕ) (call : Call) (s : State) : Option State :=
  match call.attrs, call.copied with
  | (key, value) :: rest, none =>
      some <| s.withCall thread <| some <|
        match s.tables.limits key with
        | none => { call with attrs := rest, result := call.result ++ [(key, value)] }
        | some limit => { call with copied := some limit }
  | _, _ => none

/-- The locked check, with the limit that was copied. -/
def guard (thread : ℕ) (now : ℤ) (call : Call) (s : State) : Option State :=
  match call.attrs, call.copied with
  | (key, value) :: rest, some limit =>
      let checked := s.tables.guardValue toDuration now key value limit
      some <| withCall thread (some ⟨rest, none, call.result ++ [(key, checked.2)]⟩)
        { s with tables := checked.1 }
  | _, _ => none

/-- A cache removes what has expired. -/
def purge (key : String) (now : ℤ) (s : State) : Option State :=
  (s.tables.caches key).map fun cache => { s with tables := s.tables.store key (cache.purge now) }

end State

/-- The interleavings. -/
def machine : Machine State Op where
  init := {}
  step s
    | .call thread attrs =>
        match s.calls thread with
        | none => some (s.withCall thread (some { attrs := attrs }))
        | some _ => none
    | .read thread => (s.calls thread).bind fun call => s.read thread call
    | .guard thread now => (s.calls thread).bind fun call => s.guard toDuration thread now call
    | .finish thread =>
        (s.calls thread).bind fun call =>
          if call.attrs = [] then some (s.withCall thread none) else none
    | .setCardinalityLimit key limit =>
        some { s with tables := s.tables.setCardinalityLimit key limit }
    | .purge key now => s.purge key now

/-- **The law of the limits**: every cache was made with the capacity and the time to live of the
limit that is stored for its key. -/
def InForce (s : Tables) : Prop :=
  ∀ key cache, s.caches key = some cache →
    ∃ limit, s.limits key = some limit ∧ cache.MadeWith (shape toDuration limit)

/-- The next check of a thread finds a cache, or the limit that it copied asks for the same one as
the limit that is stored. -/
def MakesFreshCache (s : State) : Op → Prop
  | .guard thread _ =>
      ∀ call ∈ s.calls thread, ∀ attr ∈ call.attrs.head?, ∀ copied ∈ call.copied,
        s.tables.caches attr.1 = none →
          ∀ limit ∈ s.tables.limits attr.1, shape toDuration copied = shape toDuration limit
  | _ => True

instance : ∀ s op, Decidable (MakesFreshCache toDuration s op)
  | s, .guard thread _ =>
      inferInstanceAs (Decidable (∀ call ∈ s.calls thread, ∀ attr ∈ call.attrs.head?,
        ∀ copied ∈ call.copied, s.tables.caches attr.1 = none →
          ∀ limit ∈ s.tables.limits attr.1, shape toDuration copied = shape toDuration limit))
  | _, .call _ _ => inferInstanceAs (Decidable True)
  | _, .read _ => inferInstanceAs (Decidable True)
  | _, .finish _ => inferInstanceAs (Decidable True)
  | _, .setCardinalityLimit _ _ => inferInstanceAs (Decidable True)
  | _, .purge _ _ => inferInstanceAs (Decidable True)

/-! ## One step -/

variable {toDuration} {s s' : State} {t : Tables} {op : Op} {key value : String} {thread : ℕ}
  {now : ℤ} {limit : CardinalityLimit} {cache : Lru} {call : Call}

/-- What is stored for a key is made for its limit, and nothing else changes. -/
theorem inForce_store_iff (h : InForce toDuration t) :
    InForce toDuration (t.store key cache) ↔
      ∃ limit, t.limits key = some limit ∧ cache.MadeWith (shape toDuration limit) := by
  constructor
  · intro hafter
    exact hafter key cache (Function.update_self ..)
  · intro hmade k c hc
    by_cases hk : k = key
    · subst hk
      obtain rfl : cache = c := by simpa [Tables.store] using hc
      exact hmade
    · exact h k c (by simpa [Tables.store, hk] using hc)

theorem inForce_setCardinalityLimit (h : InForce toDuration t) (key : String)
    (limit : CardinalityLimit) : InForce toDuration (t.setCardinalityLimit key limit) := by
  intro k c hc
  by_cases hk : k = key
  · simp [Tables.setCardinalityLimit, hk] at hc
  · simp only [Tables.setCardinalityLimit, Function.update_of_ne hk] at hc ⊢
    exact h k c hc

/-- `_guardValue` stores the cache that it found or made, used but with the same shape. -/
theorem guardValue_store (toDuration : Number → ℤ) (t : Tables) (now : ℤ) (key value : String)
    (limit : CardinalityLimit) : ∃ cache,
    (t.guardValue toDuration now key value limit).1 = t.store key cache ∧
    ∀ shape, cache.MadeWith shape ↔ (t.lruForKey toDuration key limit).MadeWith shape := by
  simp only [Tables.guardValue]
  split
  · exact ⟨_, rfl, fun _ => Lru.madeWith_get⟩
  · split
    · exact ⟨_, rfl, fun _ => Lru.madeWith_countLive.trans Lru.madeWith_get⟩
    · exact ⟨_, rfl, fun _ =>
        Lru.madeWith_add.trans (Lru.madeWith_countLive.trans Lru.madeWith_get)⟩

/-- **One check** leaves caches of the limits in force exactly if it finds one, or makes one for
the limit that is stored. -/
theorem inForce_guardValue_iff (h : InForce toDuration t) (hlimit : t.limits key ≠ none)
    (copied : CardinalityLimit) :
    InForce toDuration (t.guardValue toDuration now key value copied).1 ↔
      (t.caches key = none →
        ∀ limit ∈ t.limits key, shape toDuration copied = shape toDuration limit) := by
  obtain ⟨stored, hstored⟩ := Option.ne_none_iff_exists'.mp hlimit
  obtain ⟨cache, hcache, hmade⟩ := guardValue_store toDuration t now key value copied
  rw [hcache, inForce_store_iff h]
  simp only [hmade, hstored, Option.some.injEq, exists_eq_left', Option.mem_def]
  cases hfound : t.caches key with
  | some found =>
      obtain ⟨limit, hlim, hfor⟩ := h key found hfound
      obtain rfl : stored = limit := Option.some.inj (hstored.symm.trans hlim)
      simpa [Tables.lruForKey, hfound] using hfor
  | none =>
      simp [Tables.lruForKey, hfound, Lru.MadeWith, Lru.new, Prod.ext_iff]

/-- A thread that has copied a limit did so for a key that has one. -/
def Known (s : State) : Prop :=
  ∀ thread call, s.calls thread = some call → ∀ attr ∈ call.attrs.head?, call.copied ≠ none →
    s.tables.limits attr.1 ≠ none

/-- The invariant of the runs. -/
structure Inv (toDuration : Number → ℤ) (s : State) : Prop where
  inForce : InForce toDuration s.tables
  known : Known s

/-- A key that has a limit keeps having one. -/
theorem Known.of_limits (h : Known s) (hcalls : s'.calls = s.calls)
    (hlimits : ∀ key, s.tables.limits key ≠ none → s'.tables.limits key ≠ none) : Known s' := by
  intro thread call hcall attr hattr hcopied
  rw [hcalls] at hcall
  exact hlimits _ (h thread call hcall attr hattr hcopied)

/-- A call that has copied nothing, or for a key with a limit, may take the place of another. -/
theorem Known.withCall (h : Known s) {next : Option Call}
    (hnext : ∀ call ∈ next, ∀ attr ∈ call.attrs.head?, call.copied ≠ none →
      s.tables.limits attr.1 ≠ none) : Known (s.withCall thread next) := by
  intro other call hcall
  by_cases hother : other = thread
  · subst hother
    have hsame : next = some call := by simpa [State.withCall] using hcall
    exact hnext call hsame
  · exact h other call (by simpa [State.withCall, hother] using hcall)

/-- The limits are those from before the check. -/
theorem limits_guardValue :
    (t.guardValue toDuration now key value limit).1.limits = t.limits := by
  obtain ⟨cache, hcache, -⟩ := guardValue_store toDuration t now key value limit
  rw [hcache]
  rfl

/-- **One locked read** copies the limit that is stored. -/
theorem Inv.read (h : Inv toDuration s) (hread : s.read thread call = some s') :
    Inv toDuration s' := by
  rw [State.read] at hread
  split at hread
  · next key value rest hattrs hcopied =>
      cases hread
      refine ⟨h.inForce, h.known.withCall ?_⟩
      intro next hnext attr hattr hsome
      obtain rfl := Option.some.inj hnext
      cases hlimit : s.tables.limits key with
      | none => simp [hlimit, hcopied] at hsome
      | some limit =>
          simp only [hlimit, hattrs, List.head?_cons, Option.mem_some_iff] at hattr
          rw [← hattr, hlimit]
          simp
  · cases hread

/-- What a locked check does. -/
theorem guard_eq_some (h : s.guard toDuration thread now call = some s') :
    ∃ key value rest copied, call.attrs = (key, value) :: rest ∧ call.copied = some copied ∧
      s'.tables = (s.tables.guardValue toDuration now key value copied).1 ∧
      ∃ result, s'.calls = Function.update s.calls thread (some ⟨rest, none, result⟩) := by
  rw [State.guard] at h
  split at h
  · next key value rest copied hattrs hcopied =>
      cases h
      exact ⟨key, value, rest, copied, hattrs, hcopied, rfl, _, rfl⟩
  · cases h

/-- **One locked check** keeps the law exactly if it makes no cache from an outdated copy. -/
theorem inForce_guard_iff (h : Inv toDuration s) (hcall : s.calls thread = some call)
    (hguard : s.guard toDuration thread now call = some s') :
    InForce toDuration s'.tables ↔ MakesFreshCache toDuration s (.guard thread now) := by
  obtain ⟨key, value, rest, copied, hattrs, hcopied, htables, -⟩ := guard_eq_some hguard
  have hlimit : s.tables.limits key ≠ none :=
    h.known thread call hcall (key, value) (by simp [hattrs]) (by simp [hcopied])
  rw [htables, inForce_guardValue_iff h.inForce hlimit]
  simp [MakesFreshCache, hcall, hattrs, hcopied]

theorem Known.guard (h : Known s) (hguard : s.guard toDuration thread now call = some s') :
    Known s' := by
  obtain ⟨key, value, rest, copied, -, -, htables, result, hcalls⟩ := guard_eq_some hguard
  have hnext : Known (s.withCall thread (some ⟨rest, none, result⟩)) := by
    apply h.withCall
    intro next hnext attr hattr hsome
    obtain rfl := Option.some.inj hnext
    exact absurd rfl hsome
  refine hnext.of_limits (by rw [hcalls]; rfl) ?_
  intro k hk
  rw [htables, limits_guardValue]
  exact hk

theorem Inv.purge (h : Inv toDuration s) (hpurge : s.purge key now = some s') :
    Inv toDuration s' := by
  obtain ⟨cache, hcache, rfl⟩ := Option.map_eq_some_iff.mp hpurge
  exact ⟨(inForce_store_iff h.inForce).mpr (h.inForce key cache hcache), h.known⟩

theorem Inv.setCardinalityLimit (h : Inv toDuration s) (key : String)
    (limit : CardinalityLimit) :
    Inv toDuration { s with tables := s.tables.setCardinalityLimit key limit } := by
  refine ⟨inForce_setCardinalityLimit h.inForce key limit, h.known.of_limits rfl ?_⟩
  intro k hk
  by_cases hkey : k = key <;> simp [Tables.setCardinalityLimit, hkey, hk]

/-- **One section** keeps the invariant if it makes no cache from an outdated copy. -/
theorem Inv.step (h : Inv toDuration s) (hg : MakesFreshCache toDuration s op)
    (hstep : (machine toDuration).step s op = some s') : Inv toDuration s' := by
  cases op with
  | call thread attrs =>
      simp only [machine] at hstep
      split at hstep
      · cases hstep
        refine ⟨h.inForce, h.known.withCall ?_⟩
        intro next hnext attr hattr hsome
        obtain rfl := Option.some.inj hnext
        exact absurd rfl hsome
      · cases hstep
  | read thread =>
      obtain ⟨call, hcall, hread⟩ := Option.bind_eq_some_iff.mp hstep
      exact h.read hread
  | guard thread now =>
      obtain ⟨call, hcall, hguard⟩ := Option.bind_eq_some_iff.mp hstep
      exact ⟨(inForce_guard_iff h hcall hguard).mpr hg, h.known.guard hguard⟩
  | finish thread =>
      obtain ⟨call, hcall, hrest⟩ := Option.bind_eq_some_iff.mp hstep
      split at hrest
      · cases hrest
        exact ⟨h.inForce, h.known.withCall fun next hnext => by cases hnext⟩
      · cases hrest
  | setCardinalityLimit key limit =>
      cases hstep
      exact h.setCardinalityLimit key limit
  | purge key now => exact h.purge hstep

theorem inv_init : Inv toDuration {} where
  inForce := by
    intro key cache h
    cases h
  known := by
    intro thread call h
    cases h

/-! ## Runs -/

/-- **Limits are in force throughout a run** iff no check in it makes a cache from a copy that asks
for another one than the limit that is stored. -/
theorem inForce_iff_guarded {ops : List Op} (h : (machine toDuration).run ops = some s) :
    (machine toDuration).Guarded (MakesFreshCache toDuration) {} ops ↔
      ∀ ks u, ks <+: ops → (machine toDuration).run ks = some u →
        InForce toDuration u.tables := by
  refine Machine.guarded_iff (M := machine toDuration) (J := Inv toDuration) inv_init
    (fun u hu => hu.inForce) (fun u op u' hu hg hstep => hu.step hg hstep) ?_ h
  intro u op u' hu hstep hafter
  cases op with
  | guard thread now =>
      obtain ⟨call, hcall, hguard⟩ := Option.bind_eq_some_iff.mp hstep
      exact (inForce_guard_iff hu hcall hguard).mp hafter
  | _ => trivial

end Limits

/-- Seconds to nanoseconds, where there is a whole number of seconds. -/
def wholeSeconds : Number → ℤ
  | .num (.some (.some q)) => (1000000000 * q).floor
  | _ => 0

/-- A call finds the cache that was made for the limit in force. -/
theorem inForce_of_later_call :
    (∃ s, (machine wholeSeconds).run
      [.setCardinalityLimit "user" ⟨2, .ofRat 60⟩, .call 1 [("user", "ada")], .read 1, .guard 1 0,
        .finish 1] = some s) ∧
    ∀ ks u, ks <+: [.setCardinalityLimit "user" ⟨2, .ofRat 60⟩, .call 1 [("user", "ada")], .read 1,
        .guard 1 0, .finish 1] → (machine wholeSeconds).run ks = some u →
      InForce wholeSeconds u.tables :=
  ⟨⟨_, rfl⟩, (inForce_iff_guarded rfl).mp (by decide +kernel)⟩

/-- The limit changes after a call has copied it: the cache that the call makes keeps values for
the minute of the limit that was, not for the second of the limit that is. -/
theorem not_inForce_of_stale_copy :
    ¬ ∀ (toDuration : Number → ℤ) (ops : List Op) (s : State),
      (machine toDuration).run ops = some s → InForce toDuration s.tables := by
  intro h
  have hinForce := h wholeSeconds
    [.setCardinalityLimit "user" ⟨2, .ofRat 60⟩, .call 1 [("user", "ada")], .read 1,
      .setCardinalityLimit "user" ⟨2, .ofRat 1⟩, .guard 1 0] _ rfl
  obtain ⟨limit, hlimit, -, httl⟩ := hinForce "user" ⟨1000, 60000000000, [("ada", 60000000000)]⟩
    (by decide +kernel)
  obtain rfl : (⟨2, .ofRat 1⟩ : CardinalityLimit) = limit := by
    apply Option.some.inj
    rw [← hlimit]
    decide
  revert httl
  decide +kernel

end Telemetry.Cardinality.Go
