import Telemetry.Hardening.Python
import Mathlib.Order.Lattice

/-!
# The hardened record of the Python SDK

What the stage promises of a record: clean keys, clean and short strings, no container too deep,
no more keys than the cap, and the priority keys and the ticket untouched. The stage keeps all of
it but in one place: it hands tuples and sets back as they are, with all that is in them.

## Main definitions

* `Bounded` — what a value of the record may be, at every depth.
* `Hardened` — what the stage promises of a record.
* `handedBack` — the tuples and sets that the walk hands back.

## Main results

* `bounded_cleanValue_iff` — a cleaned value is bounded if what was handed back is.
* `hardened_iff` — **when the record is as promised**.
-/

namespace Telemetry.Hardening.Python

open Telemetry.Lib

local instance (priority := 2000) : BEq CodePoints := instBEqOfDecidableEq

/-! ## Bounds -/

/-- A key without control characters. -/
def CleanKey (text : CodePoints) : Prop := ∀ c ∈ text, isKeyControl c = false

/-- A string without control characters but TAB, LF and CR. -/
def CleanText (text : CodePoints) : Prop := ∀ c ∈ text, isControl c = false

/-- The values in a container. -/
def Container.children : Container → List Value
  | .dict entries => entries.map Prod.snd
  | .list items | .tuple items | .set items => items

/-- The keys of a container. -/
def Container.keys : Container → List Key
  | .dict entries => entries.map Prod.fst
  | .list _ | .tuple _ | .set _ => []

/-- A value lies a number of levels within another. -/
inductive Reaches (heap : Heap) : ℕ → Value → Value → Prop
  | refl (v : Value) : Reaches heap 0 v v
  | step {n id : ℕ} {child v : Value} (hchild : child ∈ (heap id).children)
      (h : Reaches heap n child v) : Reaches heap (n + 1) (.ref id) v

variable (heap : Heap) (limits : Limits)

/-- What may lie at a depth, as such. -/
def Fits (depth : ℕ) : Value → Prop
  | .str text => CleanText text ∧ text.length ≤ limits.maxValueLength + 3
  | .ref id => depth ≤ limits.maxDepth ∧
      ∀ key ∈ (heap id).keys, ∀ text, key.text = some text → CleanKey text
  | .none | .other _ => True

/-- All that lies within a value may lie there. -/
def Within (depth : ℕ) (value : Value) : Prop :=
  ∀ n v, Reaches heap n value v → Fits heap limits (depth + n) v

/-- A cleaned value at a depth is as it should be, down to what it holds of the caller's. -/
inductive Bounded : ℕ → Cleaned → Prop
  | scalar {depth : ℕ} {v : Value} (h : Within heap limits depth v) : Bounded depth (.scalar v)
  | list {depth : ℕ} {items : List Cleaned} (hdepth : depth ≤ limits.maxDepth)
      (h : ∀ x ∈ items, Bounded (depth + 1) x) : Bounded depth (.list () items)
  | dict {depth : ℕ} {entries : List (CodePoints × Cleaned)} (hdepth : depth ≤ limits.maxDepth)
      (hkeys : ∀ e ∈ entries, CleanKey e.1) (h : ∀ e ∈ entries, Bounded (depth + 1) e.2) :
      Bounded depth (.dict () entries)

/-! ## What is handed back -/

/-- The tuples and sets that `cleanValue` hands back, with their depths. -/
def handedBack (room depth : ℕ) (value : Value) : StateM (List ℕ) (List (ℕ × ℕ)) :=
  match value with
  | .str _ => pure []
  | .ref id =>
      match heap id, room with
      | .dict _, 0 | .list _, 0 => pure []
      | .dict entries, room + 1 => do
          let seen ← get
          if id ∈ seen then pure []
          else
            set (id :: seen)
            let parts ← (hardenKeys entries).mapM (onValue (handedBack room (depth + 1)))
            pure (parts.flatMap Prod.snd)
      | .list items, room + 1 => do
          let seen ← get
          if id ∈ seen then pure []
          else
            set (id :: seen)
            let parts ← items.mapM (handedBack room (depth + 1))
            pure parts.flatten
      | .tuple _, _ | .set _, _ => pure [(id, depth)]
  | .none | .other _ => pure []

attribute [local simp] cleanValue handedBack

/-- The tuples and sets that are handed back under each key of the record. -/
def handedBackFields (E : Env) (event : EventDict) : List (CodePoints × List (ℕ × ℕ)) :=
  (((namedFields E limits event).mapM (onValue (handedBack E.heap limits.maxDepth 1))).run []).1

/-! ## Strings -/

variable {heap limits}

theorem cleanText_cleanText (text : CodePoints) :
    CleanText (cleanText limits.maxValueLength text) := by
  have hfilter : CleanText (text.filter fun c => !isControl c) := by
    intro c hc
    simpa using (List.mem_filter.mp hc).2
  rw [cleanText]
  split
  · intro c hc
    rcases List.mem_append.mp hc with hc | hc
    · exact hfilter c (List.mem_of_mem_take hc)
    · exact (by decide : ∀ d ∈ truncationSuffix, isControl d = false) c hc
  · exact hfilter

theorem length_cleanText_le (text : CodePoints) :
    (cleanText limits.maxValueLength text).length ≤ limits.maxValueLength + 3 := by
  rw [cleanText]
  split
  · rw [List.length_append, List.length_take]
    have hsuffix : truncationSuffix.length = 3 := rfl
    omega
  · omega

/-- A string of its own reaches itself. -/
theorem within_str {depth : ℕ} {text : CodePoints} (hclean : CleanText text)
    (hlength : text.length ≤ limits.maxValueLength + 3) :
    Within heap limits depth (.str text) := by
  intro n v h
  cases h
  exact ⟨hclean, hlength⟩

theorem within_scalar {depth : ℕ} {v : Value} (h : v = .none ∨ ∃ tag, v = .other tag) :
    Within heap limits depth v := by
  rcases h with rfl | ⟨tag, rfl⟩
  · rintro n v ⟨⟩
    trivial
  · rintro n v ⟨⟩
    trivial

theorem cleanKey_cleanKey (text : Option CodePoints) : CleanKey (cleanKey text) := by
  cases text with
  | none =>
      rw [cleanKey, CleanKey]
      decide
  | some text =>
      intro c hc
      simpa using (List.mem_filter.mp hc).2

/-- **Every key of a rebuilt dict is clean.** -/
theorem cleanKey_hardenKeys (entries : List (Key × Value)) :
    ∀ e ∈ hardenKeys entries, CleanKey e.1 := by
  apply forall_mem_claimed
  rw [List.forall_mem_map]
  exact fun e _ => cleanKey_cleanKey e.1.text

/-! ## Values -/

variable {id room depth : ℕ} {seen : List ℕ} {entries : List (Key × Value)} {items : List Value}

/-- A dict or list that is entered for the first time. -/
theorem run_dict (h : heap id = .dict entries) (hnew : id ∉ seen) (maxValueLength : ℕ) :
    (cleanValue heap maxValueLength (room + 1) (.ref id)).run seen =
      let r := ((hardenKeys entries).mapM (onValue (cleanValue heap maxValueLength room))).run
        (id :: seen)
      (.dict () r.1, r.2) := by
  rw [cleanValue.eq_def]
  simp only [h]
  change StateT.run (if id ∈ seen then _ else _) seen = _
  rw [if_neg hnew]
  rfl

theorem run_list (h : heap id = .list items) (hnew : id ∉ seen) (maxValueLength : ℕ) :
    (cleanValue heap maxValueLength (room + 1) (.ref id)).run seen =
      let r := (items.mapM (cleanValue heap maxValueLength room)).run (id :: seen)
      (.list () r.1, r.2) := by
  rw [cleanValue.eq_def]
  simp only [h]
  change StateT.run (if id ∈ seen then _ else _) seen = _
  rw [if_neg hnew]
  rfl

theorem run_handedBack_dict (h : heap id = .dict entries) (hnew : id ∉ seen) :
    (handedBack heap (room + 1) depth (.ref id)).run seen =
      let r := ((hardenKeys entries).mapM (onValue (handedBack heap room (depth + 1)))).run
        (id :: seen)
      (r.1.flatMap Prod.snd, r.2) := by
  rw [handedBack.eq_def]
  simp only [h]
  change StateT.run (if id ∈ seen then _ else _) seen = _
  rw [if_neg hnew]
  rfl

theorem run_handedBack_list (h : heap id = .list items) (hnew : id ∉ seen) :
    (handedBack heap (room + 1) depth (.ref id)).run seen =
      let r := (items.mapM (handedBack heap room (depth + 1))).run (id :: seen)
      (r.1.flatten, r.2) := by
  rw [handedBack.eq_def]
  simp only [h]
  change StateT.run (if id ∈ seen then _ else _) seen = _
  rw [if_neg hnew]
  rfl

/-- A dict or a list that is not entered: the ceiling is reached, or it was entered before. -/
theorem run_closed
    (hcontainer : (∃ entries, heap id = .dict entries) ∨ ∃ items, heap id = .list items)
    (hclosed : room = 0 ∨ id ∈ seen) (maxValueLength : ℕ) :
    (cleanValue heap maxValueLength room (.ref id)).run seen = (collapsed, seen) ∧
      (handedBack heap room depth (.ref id)).run seen = ([], seen) := by
  rw [cleanValue.eq_def, handedBack.eq_def]
  rcases hcontainer with ⟨entries, h⟩ | ⟨items, h⟩
  · cases room with
    | zero => simp only [h]; exact ⟨rfl, rfl⟩
    | succ room =>
        have hseen : id ∈ seen := hclosed.resolve_left nofun
        simp only [h]
        constructor
        · change StateT.run (if id ∈ seen then _ else _) seen = _
          rw [if_pos hseen]
          rfl
        · change StateT.run (if id ∈ seen then _ else _) seen = _
          rw [if_pos hseen]
          rfl
  · cases room with
    | zero => simp only [h]; exact ⟨rfl, rfl⟩
    | succ room =>
        have hseen : id ∈ seen := hclosed.resolve_left nofun
        simp only [h]
        constructor
        · change StateT.run (if id ∈ seen then _ else _) seen = _
          rw [if_pos hseen]
          rfl
        · change StateT.run (if id ∈ seen then _ else _) seen = _
          rw [if_pos hseen]
          rfl

/-- A tuple or a set. -/
theorem run_kept (hcontainer : (∃ items, heap id = .tuple items) ∨ ∃ items, heap id = .set items)
    (maxValueLength : ℕ) :
    (cleanValue heap maxValueLength room (.ref id)).run seen = (.scalar (.ref id), seen) ∧
      (handedBack heap room depth (.ref id)).run seen = ([(id, depth)], seen) := by
  rcases hcontainer with ⟨items, h⟩ | ⟨items, h⟩
  · cases room <;> simp [h] <;> exact ⟨rfl, rfl⟩
  · cases room <;> simp [h] <;> exact ⟨rfl, rfl⟩

/-- What both walks do with a value: it is a leaf, or handed back, or its parts are walked. -/
inductive Walked (heap : Heap) (limits : Limits) :
    ℕ → ℕ → List ℕ → Cleaned × List ℕ → List (ℕ × ℕ) × List ℕ → Prop
  | leaf {room depth : ℕ} {seen : List ℕ} {v : Value} (h : Within heap limits depth v) :
      Walked heap limits room depth seen (.scalar v, seen) ([], seen)
  | kept {room depth id : ℕ} {seen : List ℕ} :
      Walked heap limits room depth seen (.scalar (.ref id), seen) ([(id, depth)], seen)
  | dict {room depth id : ℕ} {seen : List ℕ} {entries : List (Key × Value)}
      {r : List (CodePoints × Cleaned) × List ℕ} {r' : List (CodePoints × List (ℕ × ℕ)) × List ℕ}
      (hr : r = ((hardenKeys entries).mapM
        (onValue (cleanValue heap limits.maxValueLength room))).run (id :: seen))
      (hr' : r' = ((hardenKeys entries).mapM (onValue (handedBack heap room (depth + 1)))).run
        (id :: seen)) :
      Walked heap limits (room + 1) depth seen (.dict () r.1, r.2) (r'.1.flatMap Prod.snd, r'.2)
  | list {room depth id : ℕ} {seen : List ℕ} {items : List Value}
      {r : List Cleaned × List ℕ} {r' : List (List (ℕ × ℕ)) × List ℕ}
      (hr : r = (items.mapM (cleanValue heap limits.maxValueLength room)).run (id :: seen))
      (hr' : r' = (items.mapM (handedBack heap room (depth + 1))).run (id :: seen)) :
      Walked heap limits (room + 1) depth seen (.list () r.1, r.2) (r'.1.flatten, r'.2)

theorem within_collapsed (depth : ℕ) : Within heap limits depth (.str placeholder) :=
  within_str (by unfold CleanText; decide) (Nat.le_add_left 3 limits.maxValueLength)

theorem walked_closed {room depth id : ℕ} {seen : List ℕ}
    (hcontainer : (∃ entries, heap id = .dict entries) ∨ ∃ items, heap id = .list items)
    (hclosed : room = 0 ∨ id ∈ seen) :
    Walked heap limits room depth seen
      ((cleanValue heap limits.maxValueLength room (.ref id)).run seen)
      ((handedBack heap room depth (.ref id)).run seen) := by
  rcases run_closed hcontainer hclosed limits.maxValueLength with ⟨hcleaned, hhanded⟩
  rw [hcleaned, hhanded]
  exact .leaf (within_collapsed depth)

theorem walked_kept {room depth id : ℕ} {seen : List ℕ}
    (hcontainer : (∃ items, heap id = .tuple items) ∨ ∃ items, heap id = .set items) :
    Walked heap limits room depth seen
      ((cleanValue heap limits.maxValueLength room (.ref id)).run seen)
      ((handedBack heap room depth (.ref id)).run seen) := by
  rcases run_kept hcontainer limits.maxValueLength with ⟨hcleaned, hhanded⟩
  rw [hcleaned, hhanded]
  exact .kept

theorem walked (room depth : ℕ) (v : Value) (seen : List ℕ) :
    Walked heap limits room depth seen ((cleanValue heap limits.maxValueLength room v).run seen)
      ((handedBack heap room depth v).run seen) := by
  cases v with
  | none =>
      rw [cleanValue.eq_def, handedBack.eq_def]
      exact .leaf (within_scalar (.inl rfl))
  | str text =>
      rw [cleanValue.eq_def, handedBack.eq_def]
      exact .leaf (within_str (cleanText_cleanText text) (length_cleanText_le text))
  | other tag =>
      rw [cleanValue.eq_def, handedBack.eq_def]
      exact .leaf (within_scalar (.inr ⟨tag, rfl⟩))
  | ref id =>
      by_cases hclosed : room = 0 ∨ id ∈ seen
      · cases h : heap id with
        | dict entries =>
            exact walked_closed (.inl ⟨_, h⟩) hclosed
        | list items =>
            exact walked_closed (.inr ⟨_, h⟩) hclosed
        | tuple items =>
            exact walked_kept (.inl ⟨_, h⟩)
        | set items =>
            exact walked_kept (.inr ⟨_, h⟩)
      · rw [not_or] at hclosed
        rcases Nat.exists_eq_succ_of_ne_zero hclosed.1 with ⟨room, rfl⟩
        cases h : heap id with
        | dict entries =>
            rw [run_dict h hclosed.2, run_handedBack_dict h hclosed.2]
            exact .dict rfl rfl
        | list items =>
            rw [run_list h hclosed.2, run_handedBack_list h hclosed.2]
            exact .list rfl rfl
        | tuple items =>
            exact walked_kept (.inl ⟨_, h⟩)
        | set items =>
            exact walked_kept (.inr ⟨_, h⟩)

/-- Both walks meet the same composites. -/
theorem state_handedBack (room depth : ℕ) (v : Value) (seen : List ℕ) :
    ((handedBack heap room depth v).run seen).2 =
      ((cleanValue heap limits.maxValueLength room v).run seen).2 := by
  induction room generalizing depth v seen with
  | zero =>
      have hwalked := @walked heap limits 0 depth v seen
      generalize (cleanValue heap limits.maxValueLength 0 v).run seen = cleaned at hwalked ⊢
      generalize (handedBack heap 0 depth v).run seen = parts at hwalked ⊢
      cases hwalked with
      | leaf h => rfl
      | kept => rfl
  | succ room ih =>
      have hwalked := @walked heap limits (room + 1) depth v seen
      generalize (cleanValue heap limits.maxValueLength (room + 1) v).run seen = cleaned
        at hwalked ⊢
      generalize (handedBack heap (room + 1) depth v).run seen = parts at hwalked ⊢
      cases hwalked with
      | leaf h => rfl
      | kept => rfl
      | dict hr hr' =>
          rw [hr, hr']
          exact run_mapM_congr_state (f := onValue (cleanValue heap limits.maxValueLength room))
            (g := onValue (handedBack heap room (depth + 1)))
            (fun e s => ih (depth + 1) e.2 s) _ _
      | list hr hr' =>
          rw [hr, hr']
          exact run_mapM_congr_state (fun x s => ih (depth + 1) x s) _ _

/-- **A cleaned value is bounded exactly if what was handed back is**, where it lies. -/
theorem bounded_cleanValue_iff {room depth : ℕ} (h : room + depth = limits.maxDepth + 1)
    (v : Value) (seen : List ℕ) :
    Bounded heap limits depth ((cleanValue heap limits.maxValueLength room v).run seen).1 ↔
      ∀ t ∈ ((handedBack heap room depth v).run seen).1, Within heap limits t.2 (.ref t.1) := by
  induction room generalizing depth v seen with
  | zero =>
      have hwalked := @walked heap limits 0 depth v seen
      generalize (cleanValue heap limits.maxValueLength 0 v).run seen = cleaned at hwalked ⊢
      generalize (handedBack heap 0 depth v).run seen = parts at hwalked ⊢
      cases hwalked with
      | leaf hwithin => simpa using Bounded.scalar hwithin
      | kept =>
          rw [List.forall_mem_singleton]
          exact ⟨fun hbounded => by cases hbounded; assumption, .scalar⟩
  | succ room ih =>
      have hnext : room + (depth + 1) = limits.maxDepth + 1 := by omega
      have hdepth : depth ≤ limits.maxDepth := by omega
      have hwalked := @walked heap limits (room + 1) depth v seen
      generalize (cleanValue heap limits.maxValueLength (room + 1) v).run seen = cleaned
        at hwalked ⊢
      generalize (handedBack heap (room + 1) depth v).run seen = parts at hwalked ⊢
      cases hwalked with
      | leaf hwithin => simpa using Bounded.scalar hwithin
      | kept =>
          rw [List.forall_mem_singleton]
          exact ⟨fun hbounded => by cases hbounded; assumption, .scalar⟩
      | @dict _ _ id _ entries r r' hr hr' =>
          have hparts := forall_mem_run_mapM_iff
            (P := fun e : CodePoints × Cleaned => Bounded heap limits (depth + 1) e.2)
            (Q := fun e : CodePoints × List (ℕ × ℕ) =>
              ∀ t ∈ e.2, Within heap limits t.2 (.ref t.1))
            (f := onValue (cleanValue heap limits.maxValueLength room))
            (g := onValue (handedBack heap room (depth + 1)))
            (hardenKeys entries) (fun e s => state_handedBack room (depth + 1) e.2 s)
            (fun e _ s => ih hnext e.2 s) (id :: seen)
          rw [← hr, ← hr'] at hparts
          have hkeys : ∀ e ∈ r.1, CleanKey e.1 := by
            intro e he
            have hmem : e.1 ∈ r.1.map Prod.fst := List.mem_map_of_mem he
            rw [hr, keys_run_mapM_onValue] at hmem
            rcases List.mem_map.mp hmem with ⟨e', he', hkey⟩
            rw [← hkey]
            exact cleanKey_hardenKeys entries e' he'
          have hflat : (∀ t ∈ r'.1.flatMap Prod.snd, Within heap limits t.2 (.ref t.1)) ↔
              ∀ e ∈ r'.1, ∀ t ∈ e.2, Within heap limits t.2 (.ref t.1) := by
            rw [List.forall_mem_flatMap]
          rw [hflat, ← hparts]
          exact ⟨fun hbounded => by cases hbounded; assumption, .dict hdepth hkeys⟩
      | @list _ _ id _ items r r' hr hr' =>
          have hparts := forall_mem_run_mapM_iff
            (P := Bounded heap limits (depth + 1))
            (Q := fun part : List (ℕ × ℕ) => ∀ t ∈ part, Within heap limits t.2 (.ref t.1))
            (f := cleanValue heap limits.maxValueLength room)
            (g := handedBack heap room (depth + 1))
            items (fun x s => state_handedBack room (depth + 1) x s)
            (fun x _ s => ih hnext x s) (id :: seen)
          rw [← hr, ← hr'] at hparts
          have hflat : (∀ t ∈ r'.1.flatten, Within heap limits t.2 (.ref t.1)) ↔
              ∀ part ∈ r'.1, ∀ t ∈ part, Within heap limits t.2 (.ref t.1) := by
            rw [List.forall_mem_flatten]
          rw [hflat, ← hparts]
          exact ⟨fun hbounded => by cases hbounded; assumption, .list hdepth⟩

/-! ## The record -/

variable (E : Env) (limits : Limits) (event : EventDict)

/-- The place of the ticket, if there is one. -/
def IsTicket (key : CodePoints) : Prop := event.ticket ≠ .none ∧ key = backpressureTicketKey

instance (key : CodePoints) : Decidable (IsTicket event key) :=
  inferInstanceAs (Decidable (_ ∧ _))

/-- The composites that were traversed before a field is cleaned. -/
def seenAfter (before : List (CodePoints × Value)) : List ℕ :=
  ((before.mapM (onValue (cleanValue E.heap limits.maxValueLength limits.maxDepth))).run []).2

/-- The priority keys that the event has. -/
def priorityKeysPresent : List CodePoints :=
  hardenPriorityKeys.filter fun k => (event.entries.lookup k).isSome

/-- What the stage promises of a record. -/
structure Hardened (record : List (CodePoints × Cleaned)) : Prop where
  /-- Keys, strings and containers, at every depth. The record itself lies at depth 0. -/
  bounded : ∀ e ∈ record, ¬ IsTicket event e.1 → CleanKey e.1 ∧ Bounded E.heap limits 1 e.2
  count : 0 < limits.maxAttrCount → (record.filter fun e => ¬ IsTicket event e.1).length ≤
    max limits.maxAttrCount (priorityKeysPresent event).length
  /-- The value of a priority key is its own, cleaned when its turn came. -/
  priority : ∀ k ∈ hardenPriorityKeys, ∀ v, event.entries.lookup k = some v →
    ∃ before after, namedFields E limits event = before ++ (k, v) :: after ∧
      record.lookup k = some ((cleanValue E.heap limits.maxValueLength limits.maxDepth v).run
        (seenAfter E limits before)).1
  ticket : event.ticket ≠ .none →
    record.lookup backpressureTicketKey = some (.scalar event.ticket)

variable {event E limits}

theorem ne_ticketKey {k : CodePoints} (hk : k ∈ hardenPriorityKeys) : k ≠ backpressureTicketKey :=
  (by decide : ∀ k ∈ hardenPriorityKeys, k ≠ backpressureTicketKey) k hk

theorem cleanKey_of_priority {k : CodePoints} (hk : k ∈ hardenPriorityKeys) :
    cleanKey (some k) = k :=
  (by decide : ∀ k ∈ hardenPriorityKeys, cleanKey (some k) = k) k hk

theorem mem_keptFields_subset {e : CodePoints × Value} (h : e ∈ keptFields E limits event) :
    e ∈ event.entries := by
  have hfields : ∀ e ∈ event.fields, e ∈ event.entries := fun e he => (List.mem_filter.mp he).1
  rw [keptFields] at h
  split at h
  · rcases List.mem_append.mp h with h | h
    · rcases List.mem_filterMap.mp h with ⟨k, -, hk⟩
      rcases Option.map_eq_some_iff.mp hk with ⟨v, hv, rfl⟩
      exact hfields _ (Tree.mem_of_lookup hv)
    · exact hfields e (List.mem_filter.mp (List.mem_of_mem_take h)).1
  · exact hfields e h

/-- The ticket is not among the fields, and nothing else is left out. -/
theorem lookup_fields {k : CodePoints} (hk : k ≠ backpressureTicketKey) :
    event.fields.lookup k = event.entries.lookup k := by
  rw [EventDict.fields]
  induction event.entries with
  | nil => rfl
  | cons e entries ih =>
      by_cases he : e.1 = backpressureTicketKey
      · rw [List.filter_cons_of_neg (by simpa using he), ih, lookup_cons_eq, if_neg]
        exact fun heq => hk (heq.trans he)
      · rw [List.filter_cons_of_pos (by simpa using he), lookup_cons_eq, lookup_cons_eq, ih]

theorem mem_keptFields_of_priority {k : CodePoints} {v : Value} (hk : k ∈ hardenPriorityKeys)
    (hv : event.entries.lookup k = some v) : (k, v) ∈ keptFields E limits event := by
  rw [← lookup_fields (ne_ticketKey hk)] at hv
  rw [keptFields]
  split
  · apply List.mem_append_left
    refine List.mem_filterMap.mpr ⟨k, E.perm_priorityOrder.mem_iff.mpr hk, ?_⟩
    rw [hv]
    rfl
  · exact Tree.mem_of_lookup hv

/-- **A priority key holds its own value.** -/
theorem lookup_namedFields {k : CodePoints} {v : Value} (hk : k ∈ hardenPriorityKeys)
    (hv : event.entries.lookup k = some v) : (namedFields E limits event).lookup k = some v := by
  have hname := cleanKey_of_priority hk
  have hclaim : claimOf (.str k, v) = { name := k, untouched := true, value := v } := by
    simp [claimOf, Key.text, hname]
  have hmem : claimOf (.str k, v) ∈
      ((keptFields E limits event).map fun e => (Key.str e.1, e.2)).map claimOf := by
    rw [List.map_map]
    exact List.mem_map_of_mem (f := claimOf ∘ fun e => (Key.str e.1, e.2))
      (mem_keptFields_of_priority hk hv)
  have hlookup := lookup_claimed_of_untouched hmem (by rw [hclaim]) ?_
  · rw [hclaim] at hlookup
    exact hlookup
  · intro d hd huntouched hsame
    rw [List.map_map] at hd
    rcases List.mem_map.mp hd with ⟨⟨k', v'⟩, he, rfl⟩
    -- an entry under the same clean key is the same entry
    simp only [claimOf, Key.text, Function.comp_apply, decide_eq_true_eq, Option.some.injEq,
      hname] at huntouched hsame
    rw [huntouched] at hsame
    subst hsame
    have hother := Tree.lookup_of_mem event.nodup (mem_keptFields_subset he)
    rw [hv, Option.some.injEq] at hother
    simp [claimOf, Key.text, hother]

/-- Setting the ticket changes nothing else. -/
theorem mem_hardenInput_iff {e : CodePoints × Cleaned} (h : ¬ IsTicket event e.1) :
    e ∈ hardenInput E limits event ↔ e ∈ hardenedFields E limits event := by
  rw [hardenInput]
  split
  · rename_i hticket
    exact mem_assign_of_ne fun hkey => h ⟨hticket, hkey⟩
  · rfl

theorem lookup_hardenInput {k : CodePoints} (hk : k ≠ backpressureTicketKey) :
    (hardenInput E limits event).lookup k = (hardenedFields E limits event).lookup k := by
  rw [hardenInput]
  split
  · rw [lookup_assign, if_neg hk]
  · rfl

theorem length_hardenedFields_le :
    (hardenedFields E limits event).length ≤ (keptFields E limits event).length := by
  have hkeys := congrArg List.length (keys_run_mapM_onValue
    (cleanValue E.heap limits.maxValueLength limits.maxDepth) (namedFields E limits event) [])
  rw [List.length_map, List.length_map] at hkeys
  have hnamed := length_claimed_le
    (((keptFields E limits event).map fun e => (Key.str e.1, e.2)).map claimOf)
  rw [List.length_map, List.length_map] at hnamed
  rw [hardenedFields, hkeys]
  exact hnamed

/-- As many priority fields as there are priority keys. -/
theorem length_priorityFields :
    (priorityFields E event).length = (priorityKeysPresent event).length := by
  have hpresent : priorityKeysPresent event =
      hardenPriorityKeys.filter fun k => (event.fields.lookup k).isSome := by
    apply List.filter_congr
    intro k hk
    rw [lookup_fields (ne_ticketKey hk)]
  have hperm := E.perm_priorityOrder.filter fun k => (event.fields.lookup k).isSome
  rw [hpresent, ← hperm.length_eq, priorityFields, List.length_filterMap_eq_countP,
    List.countP_eq_length_filter]
  simp only [Option.isSome_map]

/-- **The cap, or the priority keys if they are more.** -/
theorem length_keptFields_le (hcap : 0 < limits.maxAttrCount) :
    (keptFields E limits event).length ≤
      max limits.maxAttrCount (priorityKeysPresent event).length := by
  rw [keptFields]
  split
  · rw [List.length_append, List.length_take, length_priorityFields]
    omega
  · rename_i hsmall
    exact le_trans (by omega) (le_max_left _ _)

/-- **When the record is as promised**: exactly if every tuple and every set that is handed back
holds nothing that the record may not hold there. -/
theorem hardened_iff : Hardened E limits event (hardenInput E limits event) ↔
    ∀ e ∈ handedBackFields limits E event, ¬ IsTicket event e.1 →
      ∀ t ∈ e.2, Within E.heap limits t.2 (.ref t.1) := by
  have hbounded := forall_mem_run_mapM_iff
    (P := fun e : CodePoints × Cleaned =>
      ¬ IsTicket event e.1 → CleanKey e.1 ∧ Bounded E.heap limits 1 e.2)
    (Q := fun e : CodePoints × List (ℕ × ℕ) =>
      ¬ IsTicket event e.1 → ∀ t ∈ e.2, Within E.heap limits t.2 (.ref t.1))
    (f := onValue (cleanValue E.heap limits.maxValueLength limits.maxDepth))
    (g := onValue (handedBack E.heap limits.maxDepth 1)) (namedFields E limits event)
    (fun e s => state_handedBack limits.maxDepth 1 e.2 s)
    (fun e he s => by
      have hkey : CleanKey e.1 := cleanKey_hardenKeys _ e he
      have hvalue := @bounded_cleanValue_iff E.heap limits limits.maxDepth 1 rfl e.2 s
      exact imp_congr_right fun _ => (and_iff_right hkey).trans hvalue) []
  constructor
  · intro hhardened
    rw [handedBackFields, ← hbounded]
    exact fun e he hticket => hhardened.bounded e ((mem_hardenInput_iff hticket).mpr he) hticket
  · intro hhanded
    rw [handedBackFields, ← hbounded] at hhanded
    refine ⟨?_, ?_, ?_, ?_⟩
    · exact fun e he hticket => hhanded e ((mem_hardenInput_iff hticket).mp he) hticket
    · intro hcap
      have hfields : (hardenedFields E limits event).length ≤
          max limits.maxAttrCount (priorityKeysPresent event).length :=
        le_trans length_hardenedFields_le (length_keptFields_le hcap)
      refine le_trans ?_ hfields
      rw [hardenInput]
      split
      · rename_i hticket
        have hfilter : ∀ es : List (CodePoints × Cleaned),
            (es.filter fun e => ¬ IsTicket event e.1) =
              es.filter fun e => e.1 ≠ backpressureTicketKey := by
          intro es
          apply List.filter_congr
          intro e _
          simp [IsTicket, hticket]
        rw [hfilter, filter_assign]
        exact List.length_filter_le _ _
      · exact List.length_filter_le _ _
    · intro k hk v hv
      have hnamed : (namedFields E limits event).lookup k = some v := lookup_namedFields hk hv
      rcases List.append_of_mem (Tree.mem_of_lookup hnamed) with ⟨before, after, hsplit⟩
      have hnodup : ((namedFields E limits event).map Prod.fst).Nodup := nodup_claimed _
      have hnew : k ∉ before.map Prod.fst := by
        rw [hsplit, List.map_append, List.nodup_append] at hnodup
        exact fun hmem => hnodup.2.2 k hmem k (by simp) rfl
      refine ⟨before, after, hsplit, ?_⟩
      rw [lookup_hardenInput (ne_ticketKey hk), hardenedFields, hsplit,
        lookup_run_mapM_onValue hnew]
      rfl
    · intro hticket
      rw [hardenInput, if_pos hticket, lookup_assign, if_pos rfl]

/-- A heap with a tuple of one string that holds an escape character. -/
def escapeTuple : Env where
  heap := fun _ => .tuple [.str (CodePoints.ofString "\x1b[31m")]
  priorityOrder := hardenPriorityKeys
  perm_priorityOrder := .refl _

/-- The limits of the default configuration. -/
def defaultLimits : Limits where
  maxValueLength := 1024
  maxAttrCount := 64
  maxDepth := 8

/-- `{"event": "login", "tags": ("\x1b[31m",)}`. -/
def escapeEvent : EventDict where
  entries := [(CodePoints.ofString "event", .str (CodePoints.ofString "login")),
    (CodePoints.ofString "tags", .ref 0)]
  nodup := by decide

/-- The tuple is handed back with its escape character, where a list loses it. -/
theorem escape_in_tuple :
    hardenInput escapeTuple defaultLimits escapeEvent =
        [(CodePoints.ofString "event", .scalar (.str (CodePoints.ofString "login"))),
          (CodePoints.ofString "tags", .scalar (.ref 0))] ∧
      ¬ Hardened escapeTuple defaultLimits escapeEvent
        (hardenInput escapeTuple defaultLimits escapeEvent) := by
  have hrecord : hardenInput escapeTuple defaultLimits escapeEvent =
      [(CodePoints.ofString "event", .scalar (.str (CodePoints.ofString "login"))),
        (CodePoints.ofString "tags", .scalar (.ref 0))] := rfl
  refine ⟨hrecord, fun hhardened => ?_⟩
  have hmem : (CodePoints.ofString "tags", .scalar (.ref 0)) ∈
      hardenInput escapeTuple defaultLimits escapeEvent := by
    rw [hrecord]
    exact List.mem_cons_of_mem _ List.mem_cons_self
  have hnone : ¬ IsTicket escapeEvent (CodePoints.ofString "tags") := by decide
  have hstring : Reaches escapeTuple.heap 1 (.ref 0) (.str (CodePoints.ofString "\x1b[31m")) :=
    .step List.mem_cons_self (.refl _)
  cases (hhardened.bounded _ hmem hnone).2 with
  | scalar hwithin =>
      have hclean := (hwithin 1 _ hstring).1
      exact absurd (hclean (.scalar '\x1b') List.mem_cons_self) (by decide)

end Telemetry.Hardening.Python
