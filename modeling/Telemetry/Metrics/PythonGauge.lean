import Mathlib.Data.String.Basic
import Telemetry.Lib.Dict
import Telemetry.Lib.Postings
import Telemetry.Lib.Run
import Telemetry.Lib.SortedMap

/-!
# The gauge of the Python SDK

`metrics/fallback.py`, the locked sections of `Gauge.add` and `Gauge.set`: a gauge keeps what each
attribute set has, so that it can report absolute values and have the sum over all of them as its
own value. Of more than a thousand attribute sets the older half is forgotten.

An attribute set that was forgotten starts from zero again when it comes back, and the sum keeps
what it had. The ledger is right as long as no attribute set that had something is forgotten and
comes back.

## Main definitions

* `Gauge`, `Gauge.add`, `Gauge.set`, `Gauge.storeAttrValue`.
* `Ledger`, `Call`, `machine` — runs, with the history of calls.
* `Lawful` — the value is the total of the attribute sets, and what is reported is what one has.
* `StoresCurrent` — the gauge has what the attribute set at hand has.

## Main results

* `lawful_calls_iff_guarded` — **the ledger is right throughout a run** iff no forgotten amount is
  needed.
* `lawful_of_few_sets` — with at most a thousand attribute sets none is.
-/

namespace Telemetry.Metrics.Python

open Telemetry.Lib

/-- A dict of attributes. Its order does not matter. -/
abbrev Attributes := SortedMap String String

/-- `_ATTR_VALUES_MAX`. -/
def attrValuesMax : ℕ := 1000

/-- `tuple(sorted(attrs.items()))`. -/
def attrsKey (attrs : Attributes) : List (String × String) := attrs.entries

variable {A : Type} [AddCommGroup A]

/-- `Gauge`, what it keeps under its lock. -/
structure Gauge (A : Type) [AddCommGroup A] where
  value : A := 0
  attrValues : Dict (List (String × String)) A := .empty

namespace Gauge

/-- `_attr_values.get(attrs_key, 0)`. -/
def attrValue (key : List (String × String)) (g : Gauge A) : A := (g.attrValues.get? key).getD 0

/-- `_store_attr_value`. -/
def storeAttrValue (key : List (String × String)) (value : A) (g : Gauge A) : Gauge A :=
  let attrValues := g.attrValues.set key value
  if attrValuesMax < attrValues.entries.length then
    { g with attrValues := attrValues.drop (attrValuesMax / 2) }
  else { g with attrValues := attrValues }

/-- The locked section of `add`, and what is reported. -/
def add (key : List (String × String)) (amount : A) (g : Gauge A) : Gauge A × A :=
  let current := g.attrValue key + amount
  let stored := g.storeAttrValue key current
  ({ stored with value := stored.value + amount }, current)

/-- The locked section of `set`, and what is reported. -/
def set (key : List (String × String)) (value : A) (g : Gauge A) : Gauge A × A :=
  let prev := g.attrValue key
  let stored := g.storeAttrValue key value
  ({ stored with value := stored.value + (value - prev) }, value)

@[simp] theorem value_storeAttrValue (key : List (String × String)) (value : A) (g : Gauge A) :
    (g.storeAttrValue key value).value = g.value := by
  rw [storeAttrValue]
  split <;> rfl

/-- While there is room, the value is stored and nothing is forgotten. -/
theorem attrValues_storeAttrValue_of_le {key : List (String × String)} {value : A} {g : Gauge A}
    (h : (g.attrValues.set key value).entries.length ≤ attrValuesMax) :
    (g.storeAttrValue key value).attrValues = g.attrValues.set key value := by
  rw [storeAttrValue, if_neg (not_lt.mpr h)]

/-- Beyond that the older half is forgotten. -/
theorem attrValues_storeAttrValue_of_lt {key : List (String × String)} {value : A} {g : Gauge A}
    (h : attrValuesMax < (g.attrValues.set key value).entries.length) :
    (g.storeAttrValue key value).attrValues =
      (g.attrValues.set key value).drop (attrValuesMax / 2) := by
  rw [storeAttrValue, if_pos h]

@[simp] theorem value_add (key : List (String × String)) (amount : A) (g : Gauge A) :
    (g.add key amount).1.value = g.value + amount := by simp [add]

@[simp] theorem value_set (key : List (String × String)) (value : A) (g : Gauge A) :
    (g.set key value).1.value = g.value + (value - g.attrValue key) := by simp [set]

end Gauge

/-! ## Runs -/

/-- A call of `add` or `set` that is admitted. -/
structure Call (A : Type) where
  posting : Posting A
  attributes : Attributes
  /-- There is an OTel gauge. -/
  otel : Bool
  deriving DecidableEq

/-- The gauge, what was done to each attribute set, and what the last call has reported. -/
structure Ledger (A : Type) [AddCommGroup A] where
  gauge : Gauge A := {}
  history : List (List (String × String) × Posting A) := []
  reported : Option A := none

/-- What a call does to the gauge, and what it reports to an OTel gauge. -/
def Call.run (c : Call A) (g : Gauge A) : Gauge A × A :=
  match c.posting with
  | .add amount => g.add (attrsKey c.attributes) amount
  | .set value => g.set (attrsKey c.attributes) value

/-- One call. -/
def Ledger.call (c : Call A) (s : Ledger A) : Ledger A where
  gauge := (c.run s.gauge).1
  history := s.history ++ [(attrsKey c.attributes, c.posting)]
  reported := if c.otel then some (c.run s.gauge).2 else none

/-- The runs. -/
def machine (A : Type) [AddCommGroup A] : Machine (Ledger A) (Call A) where
  init := {}
  step s c := some (s.call c)

/-- **The law of the ledger** after a call: the value is the sum over all attribute sets that were
ever used, and what the call has reported is what its attribute set has. -/
structure Lawful (c : Call A) (s : Ledger A) : Prop where
  value_eq : s.gauge.value = total s.history
  reported_eq : ∀ v ∈ s.reported, v = balance s.history (attrsKey c.attributes)

/-- A call that reads what its attribute set has finds in the gauge what it has. Only an `add`
without an OTel gauge does not care. -/
def StoresCurrent (s : Ledger A) (c : Call A) : Prop :=
  (∀ amount, c.posting = .add amount → c.otel = true) →
    s.gauge.attrValue (attrsKey c.attributes) = balance s.history (attrsKey c.attributes)

variable {s s' : Ledger A} {c : Call A}

/-- What a call stores for its attribute set. -/
theorem Call.attrValues_run (c : Call A) (g : Gauge A) :
    (c.run g).1.attrValues = (g.storeAttrValue (attrsKey c.attributes)
      (c.posting.apply (g.attrValue (attrsKey c.attributes)))).attrValues := by
  obtain ⟨posting, attributes, otel⟩ := c
  cases posting <;> rfl

/-- What a call reports follows from what it finds. -/
theorem Call.run_snd (c : Call A) (g : Gauge A) :
    (c.run g).2 = c.posting.apply (g.attrValue (attrsKey c.attributes)) := by
  obtain ⟨posting, attributes, otel⟩ := c
  cases posting <;> rfl

@[simp] theorem balance_call (s : Ledger A) (c : Call A) :
    balance (s.call c).history (attrsKey c.attributes) =
      c.posting.apply (balance s.history (attrsKey c.attributes)) := by
  simp [Ledger.call, balance_append]

@[simp] theorem total_call (s : Ledger A) (c : Call A) :
    total (s.call c).history = total s.history +
      (c.posting.apply (balance s.history (attrsKey c.attributes)) -
        balance s.history (attrsKey c.attributes)) := total_append ..

@[simp] theorem reported_call (s : Ledger A) (c : Call A) :
    (s.call c).reported = if c.otel = true then
      some (c.posting.apply (s.gauge.attrValue (attrsKey c.attributes))) else none := by
  rw [Ledger.call, Call.run_snd]

/-- The value is right after every `add`, and after a `set` that finds what its attribute set
has. -/
theorem value_call_iff (hs : s.gauge.value = total s.history) :
    (s.call c).gauge.value = total (s.call c).history ↔
      (∀ amount, c.posting ≠ .add amount) →
        s.gauge.attrValue (attrsKey c.attributes) = balance s.history (attrsKey c.attributes) := by
  rw [total_call]
  obtain ⟨posting, attributes, otel⟩ := c
  cases posting with
  | add amount => simp [Ledger.call, Call.run, Posting.apply, hs]
  | set value => simp [Ledger.call, Call.run, Posting.apply, hs]

/-- The report is right if nothing is reported, or after a `set`, or after an `add` that finds what
its attribute set has. -/
theorem reported_call_iff :
    (∀ v ∈ (s.call c).reported, v = balance (s.call c).history (attrsKey c.attributes)) ↔
      (c.otel = true → ∀ amount, c.posting = .add amount →
        s.gauge.attrValue (attrsKey c.attributes) =
          balance s.history (attrsKey c.attributes)) := by
  rw [reported_call, balance_call]
  obtain ⟨posting, attributes, otel⟩ := c
  cases posting with
  | add amount => cases otel <;> simp [Posting.apply]
  | set value => cases otel <;> simp [Posting.apply]

/-- **One call** is lawful exactly if it finds what its attribute set has. -/
theorem lawful_iff (hs : s.gauge.value = total s.history) :
    Lawful c (s.call c) ↔ StoresCurrent s c := by
  have hsplit : Lawful c (s.call c) ↔ (s.call c).gauge.value = total (s.call c).history ∧
      ∀ v ∈ (s.call c).reported, v = balance (s.call c).history (attrsKey c.attributes) :=
    ⟨fun h => ⟨h.value_eq, h.reported_eq⟩, fun h => ⟨h.1, h.2⟩⟩
  rw [hsplit, value_call_iff hs, reported_call_iff, StoresCurrent]
  obtain ⟨posting, attributes, otel⟩ := c
  cases posting with
  | add amount => simp
  | set value => simp

/-- **The ledger is right throughout a run** iff every call that reads what its attribute set has
finds it. -/
theorem lawful_calls_iff_guarded {calls : List (Call A)} (h : (machine A).run calls = some s) :
    (machine A).Guarded StoresCurrent (machine A).init calls ↔
      ∀ before c t u, before ++ [c] <+: calls → (machine A).run before = some t →
        (machine A).step t c = some u → Lawful c u := by
  refine Machine.guarded_iff_steps (L := fun _ c u => Lawful c u)
    (J := fun s => s.gauge.value = total s.history) rfl ?_ ?_ h
  · intro s c s' hs hg hstep
    cases hstep
    exact ((lawful_iff hs).mpr hg).value_eq
  · intro s c s' hs hstep
    cases hstep
    exact lawful_iff hs

/-! ## Gauges with few attribute sets -/

/-- Nothing is forgotten: the gauge has what every attribute set has. -/
def Complete (s : Ledger A) : Prop :=
  ∀ k, s.gauge.attrValues.get? k =
    if k ∈ accounts s.history then some (balance s.history k) else none

theorem Complete.attrValue_eq (h : Complete s) (k : List (String × String)) :
    s.gauge.attrValue k = balance s.history k := by
  rw [Gauge.attrValue, h]
  split
  · rfl
  · next hk => rw [balance_eq_zero hk, Option.getD_none]

/-- **One call** that leaves no more attribute sets than the gauge may have forgets nothing. -/
theorem Complete.step (h : Complete s) (hstep : (machine A).step s c = some s')
    (hfew : (accounts s'.history).card ≤ attrValuesMax) : Complete s' := by
  cases hstep
  have hget : ∀ k, (s.gauge.attrValues.set (attrsKey c.attributes)
      (c.posting.apply (s.gauge.attrValue (attrsKey c.attributes)))).get? k =
      if k ∈ accounts (s.history ++ [(attrsKey c.attributes, c.posting)]) then
        some (balance (s.history ++ [(attrsKey c.attributes, c.posting)]) k) else none := by
    intro k
    rw [Dict.get?_set, balance_append, h, h.attrValue_eq]
    by_cases hk : k = attrsKey c.attributes
    · simp [hk, accounts]
    · have haccounts : k ∈ accounts (s.history ++ [(attrsKey c.attributes, c.posting)]) ↔
          k ∈ accounts s.history := by
        simp [accounts, hk]
      simp [hk, haccounts]
  have hlength : (s.gauge.attrValues.set (attrsKey c.attributes)
      (c.posting.apply (s.gauge.attrValue (attrsKey c.attributes)))).entries.length =
      (accounts (s.history ++ [(attrsKey c.attributes, c.posting)])).card := by
    apply Dict.length_eq_card
    intro k
    rw [hget]
    split <;> simp [*]
  intro k
  rw [Ledger.call, Call.attrValues_run,
    Gauge.attrValues_storeAttrValue_of_le (hlength.trans_le hfew)]
  exact hget k

/-- **With few attribute sets** the ledger is right throughout. -/
theorem lawful_of_few_sets {calls : List (Call A)} (h : (machine A).run calls = some s)
    (hfew : (accounts s.history).card ≤ attrValuesMax) :
    Complete s ∧ (machine A).Guarded StoresCurrent (machine A).init calls := by
  induction calls using List.reverseRecOn generalizing s with
  | nil =>
      obtain rfl : (machine A).init = s := by simpa [Machine.run] using h
      exact ⟨fun k => rfl, trivial⟩
  | append_singleton calls c ih =>
      obtain ⟨t, ht, hlast⟩ := Machine.run_concat.mp h
      have hsubset : accounts t.history ⊆ accounts s.history := by
        cases hlast
        intro k hk
        have happend : accounts (t.call c).history =
            accounts t.history ∪ {attrsKey c.attributes} := by
          simp [accounts, Ledger.call]
        rw [happend]
        exact Finset.mem_union_left _ hk
      obtain ⟨hcomplete, hguarded⟩ := ih ht ((Finset.card_le_card hsubset).trans hfew)
      refine ⟨hcomplete.step hlast hfew, hguarded.append fun u hu => ⟨?_, fun r _ => trivial⟩⟩
      obtain rfl : t = u := Option.some.inj (ht.symm.trans hu)
      exact fun _ => hcomplete.attrValue_eq _

/-! ## A gauge with a thousand and one attribute sets -/

/-- One user more for each number. -/
def userAttributes (n : ℕ) : Attributes :=
  SortedMap.empty.insert "user" (String.ofList (List.replicate n 'a'))

theorem attrsKey_userAttributes (n : ℕ) :
    attrsKey (userAttributes n) = [("user", String.ofList (List.replicate n 'a'))] := rfl

theorem attrsKey_userAttributes_inj {m n : ℕ}
    (h : attrsKey (userAttributes m) = attrsKey (userAttributes n)) : m = n := by
  simpa [attrsKey_userAttributes, String.ofList_inj, List.replicate_inj] using h

/-- A user's value is set to one. -/
def setOne (n : ℕ) : Call ℤ := ⟨.set 1, userAttributes n, true⟩

/-- The gauge has one for each of so many users, in their order. -/
structure Filled (m : ℕ) (s : Ledger ℤ) : Prop where
  entries_eq : s.gauge.attrValues.entries =
    (List.range m).map fun n => (attrsKey (userAttributes n), 1)
  balance_eq : ∀ n < m, balance s.history (attrsKey (userAttributes n)) = 1

namespace Filled

variable {m : ℕ} {s : Ledger ℤ}

/-- The next user comes last. -/
theorem entries_set (h : Filled m s) :
    (s.gauge.attrValues.set (attrsKey (userAttributes m)) 1).entries =
      (List.range (m + 1)).map fun n => (attrsKey (userAttributes n), 1) := by
  have hnew : attrsKey (userAttributes m) ∉ s.gauge.attrValues.keys := by
    rw [Dict.keys, h.entries_eq]
    intro hmem
    simp only [List.map_map, List.mem_map, List.mem_range, Function.comp_apply] at hmem
    obtain ⟨n, hn, heq⟩ := hmem
    have hsame := attrsKey_userAttributes_inj heq
    omega
  rw [Dict.entries_set_of_notMem hnew, h.entries_eq, List.range_succ, List.map_append,
    List.map_singleton]

theorem balance_call (h : Filled m s) {n : ℕ} (hn : n < m + 1) :
    balance (s.call (setOne m)).history (attrsKey (userAttributes n)) = 1 := by
  simp only [Ledger.call, setOne, balance_append]
  by_cases hm : n = m
  · simp [hm, Posting.apply]
  · rw [Function.update_of_ne (fun heq => hm (attrsKey_userAttributes_inj heq))]
    exact h.balance_eq n (by omega)

/-- While there is room, nothing is forgotten. -/
theorem call (h : Filled m s) (hm : m < attrValuesMax) : Filled (m + 1) (s.call (setOne m)) := by
  refine ⟨?_, fun n hn => h.balance_call hn⟩
  have hroom : (s.gauge.attrValues.set (attrsKey (userAttributes m)) 1).entries.length ≤
      attrValuesMax := by
    rw [h.entries_set]
    simp
    omega
  rw [Ledger.call, Call.attrValues_run]
  exact (congrArg Dict.entries (Gauge.attrValues_storeAttrValue_of_le hroom)).trans h.entries_set

theorem run (hm : m ≤ attrValuesMax) :
    ∃ s, (machine ℤ).run ((List.range m).map setOne) = some s ∧ Filled m s := by
  induction m with
  | zero => exact ⟨_, rfl, rfl, by simp⟩
  | succ m ih =>
      obtain ⟨s, hs, hfilled⟩ := ih (by omega)
      refine ⟨s.call (setOne m), ?_, hfilled.call (by omega)⟩
      rw [List.range_succ, List.map_append, List.map_singleton]
      exact Machine.run_concat.mpr ⟨s, hs, rfl⟩

/-- One user more, and the first of them is forgotten. -/
theorem attrValue_call (h : Filled attrValuesMax s) :
    (s.call (setOne attrValuesMax)).gauge.attrValue (attrsKey (userAttributes 0)) = 0 := by
  have hfull : attrValuesMax <
      (s.gauge.attrValues.set (attrsKey (userAttributes attrValuesMax)) 1).entries.length := by
    rw [h.entries_set]
    simp
  have hforgotten : attrsKey (userAttributes 0) ∉ ((s.gauge.attrValues.set
      (attrsKey (userAttributes attrValuesMax)) 1).drop (attrValuesMax / 2)).keys := by
    rw [Dict.keys_drop, Dict.keys, h.entries_set]
    intro hmem
    rw [List.map_map] at hmem
    obtain ⟨i, hi⟩ := List.mem_iff_getElem?.mp hmem
    rw [List.getElem?_drop, List.getElem?_map, Option.map_eq_some_iff] at hi
    obtain ⟨n, hn, hkey⟩ := hi
    have hsame := attrsKey_userAttributes_inj hkey
    obtain ⟨_, hindex⟩ := List.getElem?_eq_some_iff.mp hn
    simp [attrValuesMax] at hindex
    omega
  have hdropped := Gauge.attrValues_storeAttrValue_of_lt hfull
  rw [Gauge.attrValue, Ledger.call, Call.attrValues_run]
  simp only [setOne, Posting.apply]
  rw [hdropped, Dict.get?_eq_none_iff.mpr hforgotten, Option.getD_none]

end Filled

/-- The value of a user that was forgotten is set again: it counts twice. -/
theorem value_counts_forgotten_set_twice :
    ¬ ∀ (before : List (Call ℤ)) (c : Call ℤ) (t u : Ledger ℤ),
      (machine ℤ).run before = some t → (machine ℤ).step t c = some u → Lawful c u := by
  intro h
  obtain ⟨s, hs, hfilled⟩ := Filled.run le_rfl
  have hfull := h _ (setOne attrValuesMax) s _ hs rfl
  have hagain := h _ (setOne 0) (s.call (setOne attrValuesMax)) _
    (Machine.run_concat (l := setOne attrValuesMax).mpr ⟨s, hs, rfl⟩) rfl
  have hfound := (value_call_iff hfull.value_eq).mp hagain.value_eq (by
    intro amount hadd
    cases hadd)
  have hone : balance (s.call (setOne attrValuesMax)).history (attrsKey (userAttributes 0)) = 1 :=
    hfilled.balance_call (by omega)
  rw [setOne, hone, hfilled.attrValue_call] at hfound
  exact absurd hfound (by decide)

/-- Two attribute sets. -/
theorem lawful_of_two_sets :
    (∃ s, (machine ℤ).run [setOne 0, setOne 1, ⟨.add 2, userAttributes 0, true⟩] = some s) ∧
    ∀ before c t u, before ++ [c] <+: [setOne 0, setOne 1, ⟨.add 2, userAttributes 0, true⟩] →
      (machine ℤ).run before = some t → (machine ℤ).step t c = some u → Lawful c u :=
  ⟨⟨_, rfl⟩, (lawful_calls_iff_guarded rfl).mp (lawful_of_few_sets rfl (by decide)).2⟩

end Telemetry.Metrics.Python
