import Mathlib.Data.String.Basic
import Mathlib.Tactic.Linarith
import Telemetry.Lib.Dict
import Telemetry.Lib.Number
import Telemetry.Lib.Run

/-!
# Cardinality limits of the Python SDK

`cardinality.py`: for each limited attribute key the values seen with it, with the time of their
last use. `guard_attributes` reads the clock, and then takes the lock several times: to see whether
there are limits at all, and for each key to collect what has expired, to delete what is still
expired, and to record its own value.

A call that has read the clock early may record late. Then the time that it stores is before one
that was stored earlier, and a sweep takes the value for expired too soon. As long as the uses of a
value are recorded in the order in which their calls read the clock, the stored times never go
back, and a value is kept for its time to live after its last use.

## Main definitions

* `Tables` — the module's state; `registerCardinalityLimit`, `clearCardinalityLimits`.
* `collectExpired`, `deleteExpired`, `record` — what the locked sections do.
* `State`, `Op`, `machine` — the interleavings of calls.
* `Lawful` — one section keeps to the limits, or drops what has expired and nothing else.
* `RecordsInOrder` — no use is recorded after a later one of the same value.

## Main results

* `lawful_iff_guarded` — **every section of a run is lawful** iff uses are recorded in order.
-/

namespace Telemetry.Cardinality.Python

open Telemetry.Lib

/-- `OVERFLOW_VALUE`. -/
def overflowValue : String := "__overflow__"

/-- `_PRUNE_INTERVAL`. -/
def pruneInterval : ℚ := 5

/-- `CardinalityLimit`: a limit without a time to live is one of infinitely many seconds. -/
structure CardinalityLimit where
  maxValues : ℤ
  ttlSeconds : Option ℚ
  deriving DecidableEq

/-- `max(1.0, ttl_seconds)`: not a number is not greater than one. -/
def clampTtl : Number → Option ℚ
  | .num (.some .none) => none
  | .num (.some (.some q)) => some (if 1 < q then q else 1)
  | _ => some 1

/-- `seen_at < now - ttl_seconds`. -/
def CardinalityLimit.expired (limit : CardinalityLimit) (now seenAt : ℚ) : Bool :=
  match limit.ttlSeconds with
  | some ttl => seenAt < now - ttl
  | none => false

/-- The module's state. -/
structure Tables where
  limits : Dict String CardinalityLimit := .empty
  seen : Dict String (Dict String ℚ) := .empty
  lastPrune : Dict String ℚ := .empty

namespace Tables

/-- `_seen.setdefault(key, {})`. -/
def seenFor (s : Tables) (key : String) : Dict String ℚ := (s.seen.get? key).getD .empty

/-- `_seen[key] = seen`. -/
def setSeen (key : String) (seen : Dict String ℚ) (s : Tables) : Tables :=
  { s with seen := s.seen.set key seen }

/-- `register_cardinality_limit`. -/
def registerCardinalityLimit (key : String) (maxValues : ℤ) (ttlSeconds : Number) (s : Tables) :
    Tables :=
  setSeen key (s.seenFor key)
    { s with limits := s.limits.set key ⟨max 1 maxValues, clampTtl ttlSeconds⟩ }

/-- `clear_cardinality_limits`. -/
def clearCardinalityLimits (_ : Tables) : Tables := {}

/-- The time under which a value is stored. -/
def stored (s : Tables) (key value : String) : Option ℚ := (s.seenFor key).get? value

/-- How many values are stored for a key. -/
def count (s : Tables) (key : String) : ℕ := (s.seenFor key).entries.length

/-- `_collect_expired`. -/
def collectExpired (key : String) (now : ℚ) (s : Tables) : List String :=
  match s.limits.get? key, s.seen.get? key with
  | some limit, some seen => (seen.entries.filter fun e => limit.expired now e.2).map Prod.fst
  | _, _ => []

/-- Phase 1: what has expired, unless it was looked at a short while ago. -/
def snapshot (key : String) (now : ℚ) (s : Tables) : Tables × List String :=
  if pruneInterval ≤ now - (s.lastPrune.get? key).getD 0 then
    ({ s with lastPrune := s.lastPrune.set key now }, s.collectExpired key now)
  else (s, [])

/-- One candidate goes if it is there and has expired by now. -/
def deleteOne (limit : CardinalityLimit) (now : ℚ) (seen : Dict String ℚ) (value : String) :
    Dict String ℚ :=
  match seen.get? value with
  | some seenAt => if limit.expired now seenAt then seen.erase value else seen
  | none => seen

/-- Phase 2, `_delete_expired`. -/
def deleteExpired (key : String) (candidates : List String) (now : ℚ) (s : Tables) : Tables :=
  match s.limits.get? key, s.seen.get? key with
  | some limit, some seen => s.setSeen key (candidates.foldl (deleteOne limit now) seen)
  | _, _ => s

/-- Phase 3 stores the value: there is a limit, and the value is there or there is room. -/
def stores (s : Tables) (key value : String) : Bool :=
  match s.limits.get? key with
  | some limit => (s.stored key value).isSome || (s.count key : ℤ) < limit.maxValues
  | none => false

/-- Phase 3, and the value for the result. -/
def record (key value : String) (now : ℚ) (s : Tables) : Tables × String :=
  let seen := s.seenFor key
  match s.limits.get? key with
  | none => (s.setSeen key seen, value)
  | some limit =>
      if (seen.get? value).isSome then (s.setSeen key (seen.set value now), value)
      else if limit.maxValues ≤ seen.entries.length then (s.setSeen key seen, overflowValue)
      else (s.setSeen key (seen.set value now), value)

end Tables

/-! ## Interleavings -/

/-- Where a call of `guard_attributes` is. -/
inductive Phase
  | enter
  /-- Between two attributes, before phase 1. -/
  | next
  /-- Before phase 2, with what phase 1 has collected. -/
  | delete (expired : List String)
  /-- Before phase 3. -/
  | record
  deriving DecidableEq, Repr

/-- A call of `guard_attributes`: when it read the clock, the attributes of the result that it is
through with, and those that are still to come. -/
structure Call where
  now : ℚ
  phase : Phase
  done : List (String × String) := []
  todo : List (String × String)
  deriving DecidableEq

/-- `guarded`. -/
def Call.guarded (call : Call) : List (String × String) := call.done ++ call.todo

/-- A use of a value that was recorded, and when its call started. -/
structure Use where
  key : String
  value : String
  start : ℚ
  deriving DecidableEq

/-- The module's state, the clock, the calls by their threads, and the uses recorded by now. -/
structure State where
  tables : Tables := {}
  /-- What the clock said last. -/
  clock : Option ℚ := none
  calls : ℕ → Option Call := fun _ => none
  uses : List Use := []

/-- The sections that threads run. -/
inductive Op
  /-- `guard_attributes` reads the clock. -/
  | call (thread : ℕ) (attributes : Dict String String) (now : ℚ)
  /-- Phase 0. -/
  | enter (thread : ℕ)
  | snapshot (thread : ℕ)
  | delete (thread : ℕ)
  | record (thread : ℕ)
  | finish (thread : ℕ)
  | register (key : String) (maxValues : ℤ) (ttlSeconds : Number)
  | clear
  deriving DecidableEq

namespace State

/-- What a thread is doing changes. -/
def withCall (thread : ℕ) (call : Option Call) (s : State) : State :=
  { s with calls := fun other => if other = thread then call else s.calls other }

/-- Other tables. -/
def withTables (tables : Tables) (s : State) : State := { s with tables := tables }

/-- Phase 0: without any limit the attributes are the result. -/
def enter (thread : ℕ) (call : Call) (s : State) : State :=
  if s.tables.limits.entries = [] then
    s.withCall thread (some { call with phase := .next, done := call.guarded, todo := [] })
  else s.withCall thread (some { call with phase := .next })

/-- Phase 1: a key without a limit is left alone. -/
def snapshot (thread : ℕ) (call : Call) (s : State) : Option State :=
  match call.phase, call.todo with
  | .next, (key, value) :: rest =>
      if (s.tables.limits.get? key).isNone then
        some (s.withCall thread
          (some { call with done := call.done ++ [(key, value)], todo := rest }))
      else
        match s.tables.snapshot key call.now with
        | (tables, expired) =>
            some ((s.withTables tables).withCall thread
              (some { call with phase := if expired = [] then .record else .delete expired }))
  | _, _ => none

/-- Phase 2. -/
def delete (thread : ℕ) (call : Call) (s : State) : Option State :=
  match call.phase, call.todo with
  | .delete expired, (key, _) :: _ =>
      some ((s.withTables (s.tables.deleteExpired key expired call.now)).withCall thread
        (some { call with phase := .record }))
  | _, _ => none

/-- A use is recorded. -/
def use (key value : String) (start : ℚ) (s : State) : State :=
  { s with uses := if s.tables.stores key value then s.uses ++ [⟨key, value, start⟩] else s.uses }

/-- Phase 3. -/
def record (thread : ℕ) (call : Call) (s : State) : Option State :=
  match call.phase, call.todo with
  | .record, (key, value) :: rest =>
      match s.tables.record key value call.now with
      | (tables, result) =>
          some (((s.use key value call.now).withTables tables).withCall thread
            (some { call with phase := .next, done := call.done ++ [(key, result)], todo := rest }))
  | _, _ => none

end State

/-- The interleavings. The clock does not go back. -/
def machine : Machine State Op where
  init := {}
  step s
    | .call thread attributes now =>
        if s.calls thread = none ∧ ∀ before ∈ s.clock, before ≤ now then
          some (withClock now (s.withCall thread
            (some { now := now, phase := .enter, todo := attributes.entries })))
        else none
    | .enter thread =>
        (s.calls thread).bind fun call =>
          if call.phase = .enter then some (s.enter thread call) else none
    | .snapshot thread => (s.calls thread).bind fun call => s.snapshot thread call
    | .delete thread => (s.calls thread).bind fun call => s.delete thread call
    | .record thread => (s.calls thread).bind fun call => s.record thread call
    | .finish thread =>
        (s.calls thread).bind fun call =>
          if call.phase = .next ∧ call.todo = [] then some (s.withCall thread none) else none
    | .register key maxValues ttlSeconds =>
        some (s.withTables (s.tables.registerCardinalityLimit key maxValues ttlSeconds))
    | .clear => some (s.withTables s.tables.clearCardinalityLimits)
where
  /-- The clock has moved. -/
  withClock (now : ℚ) (s : State) : State := { s with clock := some now }

/-! ## The law -/

/-- A time to live after `start` is over before `now`. -/
def CardinalityLimit.Outlived (limit : CardinalityLimit) (start now : ℚ) : Prop :=
  ∃ ttl, limit.ttlSeconds = some ttl ∧ start + ttl < now

/-- **The law of one section.** -/
structure Lawful (s : State) (op : Op) (s' : State) : Prop where
  /-- A value is inserted only while fewer are stored than the limit in force allows. -/
  inserted : ∀ key value t, s.tables.stored key value = none →
    s'.tables.stored key value = some t →
    ∃ limit, s.tables.limits.get? key = some limit ∧ (s.tables.count key : ℤ) < limit.maxValues
  /-- A value that is replaced is not stored. -/
  replaced : ∀ thread call call', s.calls thread = some call → s'.calls thread = some call' →
    ∀ key value, (key, value) ∈ call.guarded → (key, value) ∉ call'.guarded →
      s.tables.stored key value = none
  /-- The time stored for a value is not before any that was stored for it earlier. -/
  monotone : ∀ key value t, s'.tables.stored key value = some t →
    ∀ use ∈ s.uses, use.key = key → use.value = value → use.start ≤ t
  /-- A value goes when all limits do, or in a sweep that started after its time to live. -/
  kept : ∀ key value, s.tables.stored key value ≠ none → s'.tables.stored key value = none →
    op = .clear ∨ ∃ thread call limit, op = .delete thread ∧ s.calls thread = some call ∧
      s.tables.limits.get? key = some limit ∧
      ∀ use ∈ s.uses, use.key = key → use.value = value → limit.Outlived use.start call.now

/-- Where a use is recorded, no use of the same value with a later start was recorded before. -/
def RecordsInOrder (s : State) : Op → Prop
  | .record thread => ∀ call ∈ s.calls thread, call.phase = .record → ∀ attr ∈ call.todo.head?,
      s.tables.stores attr.1 attr.2 = true →
      ∀ use ∈ s.uses, use.key = attr.1 → use.value = attr.2 → use.start ≤ call.now
  | _ => True

instance : ∀ s op, Decidable (RecordsInOrder s op)
  | s, .record thread =>
      inferInstanceAs (Decidable (∀ call ∈ s.calls thread, call.phase = .record →
        ∀ attr ∈ call.todo.head?, s.tables.stores attr.1 attr.2 = true →
          ∀ use ∈ s.uses, use.key = attr.1 → use.value = attr.2 → use.start ≤ call.now))
  | _, .call _ _ _ => inferInstanceAs (Decidable True)
  | _, .enter _ => inferInstanceAs (Decidable True)
  | _, .snapshot _ => inferInstanceAs (Decidable True)
  | _, .delete _ => inferInstanceAs (Decidable True)
  | _, .finish _ => inferInstanceAs (Decidable True)
  | _, .register _ _ _ => inferInstanceAs (Decidable True)
  | _, .clear => inferInstanceAs (Decidable True)

/-! ## What the sections do to the tables -/

section Tables

variable (s : Tables) (key value : String) (now : ℚ)

@[simp] theorem stored_snapshot (k v : String) :
    (s.snapshot key now).1.stored k v = s.stored k v := by
  rw [Tables.snapshot]
  split <;> rfl

@[simp] theorem stored_setSeen (seen : Dict String ℚ) (k v : String) :
    (s.setSeen key seen).stored k v = if k = key then seen.get? v else s.stored k v := by
  by_cases hk : k = key <;> simp [Tables.stored, Tables.seenFor, Tables.setSeen, hk]

@[simp] theorem stored_register (maxValues : ℤ) (ttlSeconds : Number) (k v : String) :
    (s.registerCardinalityLimit key maxValues ttlSeconds).stored k v = s.stored k v := by
  rw [Tables.registerCardinalityLimit, stored_setSeen]
  split
  · next hk => rw [hk, Tables.stored]
  · rfl

/-- Phase 3 stores its own value with the time of the call, or nothing. -/
theorem record_fst : (s.record key value now).1 =
    s.setSeen key (if s.stores key value = true then (s.seenFor key).set value now
      else s.seenFor key) := by
  simp only [Tables.record]
  cases hlimit : s.limits.get? key with
  | none => simp [Tables.stores, hlimit]
  | some limit =>
      have hstores : s.stores key value = true ↔
          (s.stored key value).isSome = true ∨ (s.count key : ℤ) < limit.maxValues := by
        simp [Tables.stores, hlimit]
      dsimp only
      split
      · next hin => rw [if_pos (hstores.mpr (.inl hin))]
      · next hin =>
          split
          · next hfull =>
              have hnot : ¬ s.stores key value = true := by
                rw [hstores, not_or]
                exact ⟨hin, not_lt.mpr hfull⟩
              rw [if_neg hnot]
          · next hroom => rw [if_pos (hstores.mpr (.inr (not_le.mp hroom)))]

/-- **Phase 3**: what is stored afterwards. -/
theorem stored_record (k v : String) :
    (s.record key value now).1.stored k v =
      if k = key ∧ v = value ∧ s.stores key value = true then some now else s.stored k v := by
  rw [record_fst, stored_setSeen]
  by_cases hk : k = key
  · subst hk
    by_cases hstores : s.stores k value = true
    · by_cases hv : v = value <;> simp [hstores, hv, Tables.stored]
    · simp [hstores, Tables.stored]
  · simp [hk]

/-- A value that phase 3 replaces is not stored. -/
theorem stored_eq_none_of_record (h : (s.record key value now).2 ≠ value) :
    s.stored key value = none := by
  simp only [Tables.record] at h
  split at h
  · exact absurd rfl h
  · split at h
    · exact absurd rfl h
    · next hin => simpa [Tables.stored] using hin

/-- A value is stored for the first time only if there is room. -/
theorem lt_of_stores (h : s.stores key value = true) (hnone : s.stored key value = none) :
    ∃ limit, s.limits.get? key = some limit ∧ (s.count key : ℤ) < limit.maxValues := by
  rw [Tables.stores] at h
  split at h
  · next limit hlimit => exact ⟨limit, hlimit, by simpa [hnone] using h⟩
  · cases h

/-- Deleting candidates leaves a value, or takes it because it has expired. -/
theorem get?_deleteOne (limit : CardinalityLimit) (candidates : List String)
    (seen : Dict String ℚ) (v : String) :
    (candidates.foldl (Tables.deleteOne limit now) seen).get? v = seen.get? v ∨
      (candidates.foldl (Tables.deleteOne limit now) seen).get? v = none ∧
        ∃ seenAt, seen.get? v = some seenAt ∧ limit.expired now seenAt = true := by
  induction candidates generalizing seen with
  | nil => exact .inl rfl
  | cons c candidates ih =>
      rw [List.foldl_cons]
      have hone : (Tables.deleteOne limit now seen c).get? v = seen.get? v ∨
          (Tables.deleteOne limit now seen c).get? v = none ∧
            ∃ seenAt, seen.get? v = some seenAt ∧ limit.expired now seenAt = true := by
        rw [Tables.deleteOne]
        split
        · next seenAt hseen =>
            split
            · next hexpired =>
                by_cases hv : v = c
                · subst hv
                  exact .inr ⟨by simp, seenAt, hseen, hexpired⟩
                · exact .inl (by simp [hv])
            · exact .inl rfl
        · exact .inl rfl
      obtain hsame | ⟨hgone, hexpired⟩ := hone
      · rw [← hsame]
        exact ih _
      · obtain hrest | ⟨hrest, -⟩ := ih (Tables.deleteOne limit now seen c)
        · exact .inr ⟨hrest.trans hgone, hexpired⟩
        · exact .inr ⟨hrest, hexpired⟩

/-- **Phase 2**: a value stays, or it has expired under the limit in force. -/
theorem stored_deleteExpired (candidates : List String) (k v : String) :
    (s.deleteExpired key candidates now).stored k v = s.stored k v ∨
      (s.deleteExpired key candidates now).stored k v = none ∧
        ∃ limit seenAt, s.limits.get? k = some limit ∧ s.stored k v = some seenAt ∧
          limit.expired now seenAt = true := by
  rw [Tables.deleteExpired]
  split
  · next limit seen hlimit hseen =>
      rw [stored_setSeen]
      by_cases hk : k = key
      · subst hk
        have hstored : s.stored k v = seen.get? v := by
          rw [Tables.stored, Tables.seenFor, hseen]
          rfl
        rw [if_pos rfl, hstored]
        obtain hsame | ⟨hgone, seenAt, hseenAt, hexpired⟩ :=
          get?_deleteOne now limit candidates seen v
        · exact .inl hsame
        · exact .inr ⟨hgone, limit, seenAt, hlimit, hseenAt, hexpired⟩
      · exact .inl (if_neg hk)
  · exact .inl rfl

end Tables

/-! ## One section -/

/-- Every time that is stored is not before any that was stored for the value earlier. -/
def Latest (s : State) : Prop :=
  ∀ key value t, s.tables.stored key value = some t →
    ∀ use ∈ s.uses, use.key = key → use.value = value → use.start ≤ t

variable {s s' : State} {op : Op} {thread : ℕ} {call : Call} {limit : CardinalityLimit}

/-- What has expired is past its time to live, after any use that is not later. -/
theorem CardinalityLimit.outlived_of_expired {now seenAt start : ℚ}
    (h : limit.expired now seenAt = true) (hle : start ≤ seenAt) : limit.Outlived start now := by
  rw [expired] at h
  split at h
  · next ttl httl =>
      have hlt : seenAt < now - ttl := of_decide_eq_true h
      exact ⟨ttl, httl, by linarith⟩
  · cases h

/-- No attribute of a call is replaced. -/
def KeepsResults (s s' : State) : Prop :=
  ∀ thread call call', s.calls thread = some call → s'.calls thread = some call' →
    ∀ attr ∈ call.guarded, attr ∈ call'.guarded

theorem KeepsResults.of_eq (h : s'.calls = s.calls) : KeepsResults s s' := by
  intro thread call call' hcall hcall' attr hattr
  rw [h, hcall] at hcall'
  cases hcall'
  exact hattr

/-- One call goes on with the same attributes, or ends, or begins. -/
theorem KeepsResults.withCall {next : Option Call} (h : s'.calls = (s.withCall thread next).calls)
    (hnext : ∀ call call', s.calls thread = some call → next = some call' →
      ∀ attr ∈ call.guarded, attr ∈ call'.guarded) : KeepsResults s s' := by
  intro other call call' hcall hcall' attr hattr
  rw [h] at hcall'
  by_cases hother : other = thread
  · subst hother
    have hsame : next = some call' := by simpa [State.withCall] using hcall'
    exact hnext call call' hcall hsame attr hattr
  · have hsame : call = call' := by simpa [State.withCall, hother, hcall] using hcall'
    rwa [← hsame]

/-- A section that stores nothing, takes nothing and replaces nothing is lawful. -/
theorem lawful_of_stored_eq (h : Latest s)
    (hstored : ∀ key value, s'.tables.stored key value = s.tables.stored key value)
    (hkeeps : KeepsResults s s') : Lawful s op s' where
  inserted key value t hnone hsome := by
    rw [hstored, hnone] at hsome
    cases hsome
  replaced thread call call' hcall hcall' key value hin hout :=
    absurd (hkeeps thread call call' hcall hcall' _ hin) hout
  monotone key value t ht := h key value t (by rw [← hstored, ht])
  kept key value hsome hnone := by
    rw [hstored] at hnone
    exact absurd hnone hsome

theorem latest_of_stored_eq (h : Latest s) (huses : s'.uses = s.uses)
    (hstored : ∀ key value, s'.tables.stored key value = s.tables.stored key value) :
    Latest s' := by
  intro key value t ht
  rw [hstored] at ht
  rw [huses]
  exact h key value t ht

/-- The sections that neither store a value nor take one away. -/
def Op.isQuiet : Op → Bool
  | .delete _ | .record _ | .clear => false
  | _ => true

/-- **A quiet section** leaves the values, the uses and the results alone. -/
theorem quiet_step (hquiet : op.isQuiet = true) (h : machine.step s op = some s') :
    (∀ key value, s'.tables.stored key value = s.tables.stored key value) ∧
      s'.uses = s.uses ∧ KeepsResults s s' := by
  cases op with
  | call thread attributes now =>
      simp only [machine] at h
      split at h
      · next hidle =>
          cases h
          refine ⟨fun _ _ => rfl, rfl, .withCall rfl ?_⟩
          intro call call' hcall
          rw [hidle.1] at hcall
          cases hcall
      · cases h
  | enter thread =>
      obtain ⟨call, hcall, hrest⟩ := Option.bind_eq_some_iff.mp h
      split at hrest
      · cases hrest
        rw [State.enter]
        split
        · refine ⟨fun _ _ => rfl, rfl, .withCall rfl ?_⟩
          intro other next hother hnext attr hattr
          obtain rfl : call = other := Option.some.inj (hcall.symm.trans hother)
          cases hnext
          simpa [Call.guarded] using hattr
        · refine ⟨fun _ _ => rfl, rfl, .withCall rfl ?_⟩
          intro other next hother hnext attr hattr
          obtain rfl : call = other := Option.some.inj (hcall.symm.trans hother)
          cases hnext
          exact hattr
      · cases hrest
  | snapshot thread =>
      obtain ⟨call, hcall, hrest⟩ := Option.bind_eq_some_iff.mp h
      rw [State.snapshot] at hrest
      split at hrest
      · next key value rest _ htodo =>
          split at hrest
          · cases hrest
            refine ⟨fun _ _ => rfl, rfl, .withCall rfl ?_⟩
            intro other next hother hnext attr hattr
            obtain rfl : call = other := Option.some.inj (hcall.symm.trans hother)
            cases hnext
            simpa [Call.guarded, htodo] using hattr
          · cases hrest
            refine ⟨stored_snapshot _ _ _, rfl, .withCall rfl ?_⟩
            intro other next hother hnext attr hattr
            obtain rfl : call = other := Option.some.inj (hcall.symm.trans hother)
            cases hnext
            exact hattr
      · cases hrest
  | finish thread =>
      obtain ⟨call, hcall, hrest⟩ := Option.bind_eq_some_iff.mp h
      split at hrest
      · cases hrest
        refine ⟨fun _ _ => rfl, rfl, .withCall rfl ?_⟩
        intro other next hother hnext
        cases hnext
      · cases hrest
  | register key maxValues ttlSeconds =>
      cases h
      exact ⟨stored_register _ _ _ _, rfl, .of_eq rfl⟩
  | _ => cases hquiet

/-- What phase 2 of a call does. -/
theorem delete_eq_some (h : s.delete thread call = some s') :
    ∃ key candidates, s'.tables = s.tables.deleteExpired key candidates call.now ∧
      s'.uses = s.uses ∧
      s'.calls = (s.withCall thread (some { call with phase := .record })).calls := by
  rw [State.delete] at h
  split at h
  · next candidates key value rest hphase htodo =>
      cases h
      exact ⟨key, candidates, rfl, rfl, rfl⟩
  · cases h

/-- **Phase 2 of a call** is lawful, and what it leaves has the latest times. -/
theorem lawful_delete (hs : Latest s) (hcall : s.calls thread = some call)
    (h : s.delete thread call = some s') : Lawful s (.delete thread) s' ∧ Latest s' := by
  obtain ⟨key, candidates, htables, huses, hcalls⟩ := delete_eq_some h
  have hstored : ∀ k v, s'.tables.stored k v = s.tables.stored k v ∨
      s'.tables.stored k v = none ∧ ∃ limit seenAt, s.tables.limits.get? k = some limit ∧
        s.tables.stored k v = some seenAt ∧ limit.expired call.now seenAt = true := by
    intro k v
    rw [htables]
    exact stored_deleteExpired s.tables key call.now candidates k v
  have hlatest : ∀ k v t, s'.tables.stored k v = some t → s.tables.stored k v = some t := by
    intro k v t ht
    obtain hsame | ⟨hgone, -⟩ := hstored k v
    · rwa [← hsame]
    · rw [hgone] at ht
      cases ht
  refine ⟨⟨?_, ?_, ?_, ?_⟩, ?_⟩
  · intro k v t hnone hsome
    rw [hlatest k v t hsome] at hnone
    cases hnone
  · intro other c c' hc hc' k v hin hout
    refine absurd (KeepsResults.withCall hcalls ?_ other c c' hc hc' _ hin) hout
    intro c next hc hnext attr hattr
    obtain rfl : call = c := Option.some.inj (hcall.symm.trans hc)
    cases hnext
    exact hattr
  · intro k v t ht
    exact hs k v t (hlatest k v t ht)
  · intro k v hsome hnone
    obtain hsame | ⟨-, limit, seenAt, hlimit, hseenAt, hexpired⟩ := hstored k v
    · exact absurd (hsame ▸ hnone) hsome
    · refine .inr ⟨thread, call, limit, rfl, hcall, hlimit, ?_⟩
      intro use huse hkey hvalue
      exact CardinalityLimit.outlived_of_expired hexpired
        (hs k v seenAt hseenAt use huse hkey hvalue)
  · intro k v t ht
    rw [huses]
    exact hs k v t (hlatest k v t ht)

/-- What phase 3 of a call does. -/
theorem record_eq_some (h : s.record thread call = some s') :
    ∃ key value rest, call.phase = .record ∧ call.todo = (key, value) :: rest ∧
      s'.tables = (s.tables.record key value call.now).1 ∧
      s'.uses = (if s.tables.stores key value = true then s.uses ++ [⟨key, value, call.now⟩]
        else s.uses) ∧
      s'.calls = (s.withCall thread (some
        { call with
          phase := .next
          done := call.done ++ [(key, (s.tables.record key value call.now).2)]
          todo := rest })).calls := by
  rw [State.record] at h
  split at h
  · next key value rest hphase htodo =>
      cases h
      exact ⟨key, value, rest, hphase, htodo, rfl, rfl, rfl⟩
  · cases h

/-- **Phase 3 of a call** is lawful exactly if no use of its value with a later start was recorded
before. -/
theorem lawful_record_iff (hs : Latest s) (hcall : s.calls thread = some call)
    (h : s.record thread call = some s') :
    Lawful s (.record thread) s' ↔ RecordsInOrder s (.record thread) := by
  obtain ⟨key, value, rest, hphase, htodo, htables, -, hcalls⟩ := record_eq_some h
  have hstored : ∀ k v, s'.tables.stored k v =
      if k = key ∧ v = value ∧ s.tables.stores key value = true then some call.now
      else s.tables.stored k v := by
    intro k v
    rw [htables]
    exact stored_record s.tables key value call.now k v
  have horder : RecordsInOrder s (.record thread) ↔ (s.tables.stores key value = true →
      ∀ use ∈ s.uses, use.key = key → use.value = value → use.start ≤ call.now) := by
    simp [RecordsInOrder, hcall, hphase, htodo]
  rw [horder]
  constructor
  · intro hlaw hstores
    exact hlaw.monotone key value call.now (by rw [hstored, if_pos ⟨rfl, rfl, hstores⟩])
  · intro hinorder
    constructor
    · intro k v t hnone hsome
      rw [hstored] at hsome
      split at hsome
      · next heq =>
          obtain ⟨rfl, rfl, hstores⟩ := heq
          exact lt_of_stores s.tables k v hstores hnone
      · rw [hnone] at hsome
        cases hsome
    · intro other c c' hc hc' k v hin hout
      by_cases hresult : (s.tables.record key value call.now).2 = value
      · refine absurd (KeepsResults.withCall hcalls ?_ other c c' hc hc' _ hin) hout
        intro c next hc hnext attr hattr
        obtain rfl : call = c := Option.some.inj (hcall.symm.trans hc)
        cases hnext
        simpa [Call.guarded, htodo, hresult] using hattr
      · have hnone := stored_eq_none_of_record s.tables key value call.now hresult
        rw [hcalls] at hc'
        by_cases hother : other = thread
        · subst hother
          obtain rfl : call = c := Option.some.inj (hcall.symm.trans hc)
          obtain rfl : _ = c' := by simpa [State.withCall] using hc'
          -- Only the attribute at hand is not in the result any more.
          have hsame : k = key ∧ v = value := by
            by_contra hne
            apply hout
            simp only [Call.guarded, htodo, List.mem_append, List.mem_cons, Prod.mk.injEq] at hin ⊢
            tauto
          rw [hsame.1, hsame.2, hnone]
        · have hsame : c = c' := by simpa [State.withCall, hother, hc] using hc'
          exact absurd (hsame ▸ hin) hout
    · intro k v t ht use huse hkey hvalue
      rw [hstored] at ht
      split at ht
      · next heq =>
          obtain ⟨rfl, rfl, hstores⟩ := heq
          cases ht
          exact hinorder hstores use huse hkey hvalue
      · exact hs k v t ht use huse hkey hvalue
    · intro k v hsome hnone
      rw [hstored] at hnone
      split at hnone
      · cases hnone
      · exact absurd hnone hsome

theorem latest_record (hs : Latest s) (hcall : s.calls thread = some call)
    (hinorder : RecordsInOrder s (.record thread)) (h : s.record thread call = some s') :
    Latest s' := by
  have hlaw := (lawful_record_iff hs hcall h).mpr hinorder
  obtain ⟨key, value, rest, -, -, htables, huses, -⟩ := record_eq_some h
  intro k v t ht use huse hkey hvalue
  rw [huses] at huse
  split at huse
  · next hstores =>
      obtain huse | huse := List.mem_append.mp huse
      · exact hlaw.monotone k v t ht use huse hkey hvalue
      · -- The use that was recorded just now has the time that is stored.
        obtain rfl := List.mem_singleton.mp huse
        obtain rfl : key = k := hkey
        obtain rfl : value = v := hvalue
        rw [htables, stored_record, if_pos ⟨rfl, rfl, hstores⟩] at ht
        cases ht
        exact le_rfl
  · exact hlaw.monotone k v t ht use huse hkey hvalue

/-- Forgetting all limits is lawful. -/
theorem lawful_clear : Lawful s .clear (s.withTables s.tables.clearCardinalityLimits) where
  inserted key value t _ hsome := by cases hsome
  replaced thread call call' hcall hcall' key value hin hout :=
    absurd (KeepsResults.of_eq rfl thread call call' hcall hcall' _ hin) hout
  monotone key value t ht := by cases ht
  kept key value _ _ := .inl rfl

/-- **One section** is lawful exactly if it records in order. -/
theorem lawful_iff (hs : Latest s) (h : machine.step s op = some s') :
    Lawful s op s' ↔ RecordsInOrder s op := by
  by_cases hquiet : op.isQuiet = true
  · obtain ⟨hstored, -, hkeeps⟩ := quiet_step hquiet h
    have hlaw : Lawful s op s' := lawful_of_stored_eq hs hstored hkeeps
    cases op <;> first | exact iff_of_true hlaw trivial | cases hquiet
  · cases op with
    | delete thread =>
        obtain ⟨call, hcall, hdelete⟩ := Option.bind_eq_some_iff.mp h
        exact iff_of_true (lawful_delete hs hcall hdelete).1 trivial
    | record thread =>
        obtain ⟨call, hcall, hrecord⟩ := Option.bind_eq_some_iff.mp h
        exact lawful_record_iff hs hcall hrecord
    | clear =>
        cases h
        exact iff_of_true lawful_clear trivial
    | _ => exact absurd rfl hquiet

/-- **One section** that records in order keeps the times the latest. -/
theorem latest_step (hs : Latest s) (hg : RecordsInOrder s op)
    (h : machine.step s op = some s') : Latest s' := by
  by_cases hquiet : op.isQuiet = true
  · obtain ⟨hstored, huses, -⟩ := quiet_step hquiet h
    exact latest_of_stored_eq hs huses hstored
  · cases op with
    | delete thread =>
        obtain ⟨call, hcall, hdelete⟩ := Option.bind_eq_some_iff.mp h
        exact (lawful_delete hs hcall hdelete).2
    | record thread =>
        obtain ⟨call, hcall, hrecord⟩ := Option.bind_eq_some_iff.mp h
        exact latest_record hs hcall hg hrecord
    | clear =>
        cases h
        intro key value t ht
        cases ht
    | _ => exact absurd rfl hquiet

/-! ## Runs -/

/-- **Every section of a run is lawful** iff the uses of each value are recorded in the order in
which their calls read the clock. -/
theorem lawful_iff_guarded {ops : List Op} (h : machine.run ops = some s) :
    machine.Guarded RecordsInOrder machine.init ops ↔
      ∀ ks op t u, ks ++ [op] <+: ops → machine.run ks = some t → machine.step t op = some u →
        Lawful t op u := by
  refine Machine.guarded_iff_steps (J := Latest) ?_ (fun t op u ht hg hu => latest_step ht hg hu)
    (fun t op u ht hu => lawful_iff ht hu) h
  intro key value t ht
  cases ht

/-- One attribute. -/
def user (value : String) : Dict String String := Dict.empty.set "user" value

/-- Two calls with the same value, one after the other. -/
def inOrder : List Op :=
  [.register "user" 2 (.ofRat 60), .call 1 (user "ada") 10, .enter 1, .snapshot 1, .record 1,
    .call 2 (user "ada") 20, .enter 2, .snapshot 2, .record 2]

/-- The call that read the clock first is about to record last. -/
def outOfOrder : List Op :=
  [.register "user" 2 (.ofRat 60), .call 1 (user "ada") 10, .enter 1, .snapshot 1,
    .call 2 (user "ada") 20, .enter 2, .snapshot 2, .record 2]

theorem lawful_inOrder :
    (∃ s, machine.run inOrder = some s) ∧
    ∀ ks op t u, ks ++ [op] <+: inOrder → machine.run ks = some t → machine.step t op = some u →
      Lawful t op u := by
  obtain ⟨s, hs⟩ : ∃ s, machine.run inOrder = some s :=
    Option.isSome_iff_exists.mp (by decide +kernel)
  exact ⟨⟨s, hs⟩, (lawful_iff_guarded hs).mp (by decide +kernel)⟩

/-- The time that is stored goes from 20 back to 10. -/
theorem timestamp_goes_back :
    ¬ ∀ ops op t u, machine.run ops = some t → machine.step t op = some u → Lawful t op u := by
  intro h
  obtain ⟨t, ht, hstep⟩ := Machine.exists_of_run_any (M := machine)
    (P := fun t => (machine.step t (.record 1)).any (fun u =>
      decide (u.tables.stored "user" "ada" = some 10 ∧ (⟨"user", "ada", 20⟩ : Use) ∈ t.uses)) =
        true) outOfOrder (by decide +kernel)
  obtain ⟨u, hu, hfacts⟩ := (Option.any_eq_true _ _).mp hstep
  obtain ⟨hstored, huse⟩ := of_decide_eq_true hfacts
  have hle := (h outOfOrder _ t u ht hu).monotone "user" "ada" 10 hstored _ huse rfl rfl
  exact absurd hle (by decide)

end Telemetry.Cardinality.Python
