import Telemetry.Hardening.Go

/-!
# Bounds of a hardened value in the Go SDK

One walk of `hardenValue` gives a value that is bounded in depth, width and the length of its
strings, and crosses every reference at most once.

## Main definitions

* `Bounded`, `AttrBounded` — what a hardened value is made of, next to the caller's value.
* `crossAt`, `crossAttr` — the references that a walk crosses, found without building anything.

## Main results

* `bounded_hardenAt`, `attrBounded_hardenValue` — **hardened values are bounded**.
* `run_hardenAt_snd`, `run_hardenValue_snd` — the walk's references are those.
* `nodup_crossAt`, `nodup_crossAttr` — **none of them is crossed twice**.
-/

namespace Telemetry.Hardening.Go

open Telemetry.Lib Telemetry.Pii Telemetry.Logging.Go

/-! ## The loop over a map -/

section Loop

variable {α σ β : Type} (limits : Limits)

/-- The loop of `hardenMap` hardens the value of a key: its name is free and there is room, or it
is its own name and takes it back. -/
def claims (state : Rebuilt String β) (key : String) : Bool :=
  if state.out.contains (cleanKey key) then
    decide (cleanKey key = key) && !state.verbatim.contains (cleanKey key)
  else decide (hasRoom limits.maxAttrCount state.out.entries.length)

/-- A value under the name of a key. -/
def put (state : Rebuilt String β) (key : String) (value : β) : Rebuilt String β where
  out := state.out.insert (cleanKey key) value
  verbatim := if cleanKey key = key then cleanKey key :: state.verbatim else state.verbatim

/-- The values that the loop hardens, in order. -/
def visited (state : Rebuilt String Unit) : List (String × β) → List β
  | [] => []
  | e :: es =>
      if claims limits state e.1 then e.2 :: visited (put state e.1 ()) es
      else visited state es

variable {limits} {state : Rebuilt String (Json α)} {s : σ}

/-- **One round of the loop.** -/
theorem run_hardenMapKey (e : String × StateM σ (Json α)) :
    (hardenMapKey limits state e).run s =
      if claims limits state e.1 then (put state e.1 (e.2.run s).1, (e.2.run s).2)
      else (state, s) := by
  rw [claims]
  simp only [hardenMapKey]
  by_cases htaken : state.out.contains (cleanKey e.1) = true
  · rw [if_pos htaken, if_pos htaken]
    by_cases hskip : ¬ cleanKey e.1 = e.1 ∨ state.verbatim.contains (cleanKey e.1) = true
    · have hno : ¬ (decide (cleanKey e.1 = e.1) &&
          !state.verbatim.contains (cleanKey e.1)) = true := by
        rw [Bool.and_eq_true, decide_eq_true_eq, Bool.not_eq_true']
        rintro ⟨hown, hfree⟩
        rcases hskip with hdirty | hheld
        · exact hdirty hown
        · rw [hfree] at hheld
          cases hheld
      rw [if_pos hskip, if_neg hno]
      rfl
    · have hyes : (decide (cleanKey e.1 = e.1) &&
          !state.verbatim.contains (cleanKey e.1)) = true := by
        rw [not_or, not_not, Bool.not_eq_true] at hskip
        rw [Bool.and_eq_true, decide_eq_true_eq, Bool.not_eq_true']
        exact hskip
      rw [if_neg hskip, if_pos hyes]
      rfl
  · rw [if_neg htaken, if_neg htaken]
    by_cases hroom : hasRoom limits.maxAttrCount state.out.entries.length
    · have hfits : ¬ (0 < limits.maxAttrCount ∧
          limits.maxAttrCount ≤ state.out.entries.length) := by
        rw [hasRoom] at hroom
        omega
      rw [if_pos (decide_eq_true hroom), if_neg hfits]
      rfl
    · have hfull : 0 < limits.maxAttrCount ∧
          limits.maxAttrCount ≤ state.out.entries.length := by
        rw [hasRoom] at hroom
        omega
      rw [if_pos hfull, if_neg (by rwa [decide_eq_true_eq])]
      rfl

/-- The names alone. -/
def names (state : Rebuilt String β) : Rebuilt String Unit where
  out := state.out.mapValues fun _ => ()
  verbatim := state.verbatim

theorem claims_names (state : Rebuilt String β) (key : String) :
    claims limits (names state) key = claims limits state key := by
  have hcontains : (names state).out.contains (cleanKey key) =
      state.out.contains (cleanKey key) := by
    rw [names, SortedMap.contains, SortedMap.lookup_mapValues, Option.isSome_map]
    rfl
  have hlength : (names state).out.entries.length = state.out.entries.length := List.length_map _
  rw [claims, claims, hcontains, hlength]
  rfl

theorem names_put (state : Rebuilt String β) (key : String) (value : β) :
    names (put state key value) = put (names state) key () := by
  rw [names, put, put, names, SortedMap.mapValues_insert]

theorem visited_map {γ : Type} (f : β → γ) (state : Rebuilt String Unit)
    (es : List (String × β)) :
    visited limits state (es.map fun e => (e.1, f e.2)) = (visited limits state es).map f := by
  induction es generalizing state with
  | nil => rfl
  | cons e es ih =>
      rw [List.map_cons, visited, visited]
      split
      · rw [List.map_cons, ih]
      · exact ih state

theorem exists_of_mem_visited {state : Rebuilt String Unit} {es : List (String × β)} {x : β}
    (h : x ∈ visited limits state es) : ∃ e ∈ es, e.2 = x := by
  induction es generalizing state with
  | nil => cases h
  | cons e es ih =>
      have hrest : ∀ {state : Rebuilt String Unit}, x ∈ visited limits state es →
          ∃ e' ∈ e :: es, e'.2 = x := fun hmem =>
        (ih hmem).imp fun e' he' => ⟨List.mem_cons_of_mem e he'.1, he'.2⟩
      rw [visited] at h
      split at h
      · rcases List.mem_cons.mp h with rfl | h
        · exact ⟨e, List.mem_cons_self, rfl⟩
        · exact hrest h
      · exact hrest h

variable {es : List (String × StateM σ (Json α))}

/-- **What the loop does to the state**: what the hardenings of the visited values do. -/
theorem run_foldlM_snd : ((es.foldlM (hardenMapKey limits) state).run s).2 =
    (visited limits (names state) es).foldl (fun s harden => (harden.run s).2) s := by
  induction es generalizing state s with
  | nil => rfl
  | cons e es ih =>
      rw [run_foldlM_cons, ih, visited, claims_names, run_hardenMapKey]
      split
      · rw [List.foldl_cons, ← names_put state e.1 (e.2.run s).1]
      · rfl

/-- Every entry of the result is made from one of the loop, under its cleaned key. -/
theorem exists_of_mem_foldlM {e : String × Json α}
    (h : e ∈ ((es.foldlM (hardenMapKey limits) state).run s).1.out.entries) :
    e ∈ state.out.entries ∨
      ∃ d ∈ es, cleanKey d.1 = e.1 ∧ ∃ s', e.2 = (d.2.run s').1 := by
  induction es generalizing state s with
  | nil => exact .inl h
  | cons d es ih =>
      rw [run_foldlM_cons] at h
      rcases ih h with hround | ⟨d', hd', hmade⟩
      · rw [run_hardenMapKey] at hround
        split at hround
        · rcases mem_insertKey hround with rfl | hmem
          · exact .inr ⟨d, List.mem_cons_self, rfl, s, rfl⟩
          · exact .inl hmem
        · exact .inl hround
      · exact .inr ⟨d', List.mem_cons_of_mem d hd', hmade⟩

/-- The loop keeps to the cap. -/
theorem length_foldlM_le (hcap : 0 < limits.maxAttrCount)
    (h : state.out.entries.length ≤ limits.maxAttrCount) :
    ((es.foldlM (hardenMapKey limits) state).run s).1.out.entries.length ≤
      limits.maxAttrCount := by
  induction es generalizing state s with
  | nil => exact h
  | cons e es ih =>
      rw [run_foldlM_cons]
      apply ih
      rw [run_hardenMapKey]
      split
      · rename_i hclaims
        rw [claims] at hclaims
        split at hclaims
        · rename_i htaken
          exact (SortedMap.length_insert_of_contains htaken _).le.trans h
        · rename_i hfree
          have hroom : hasRoom limits.maxAttrCount state.out.entries.length :=
            of_decide_eq_true hclaims
          rw [Bool.not_eq_true] at hfree
          rw [put, SortedMap.length_insert hfree]
          rw [hasRoom] at hroom
          omega
      · exact h

end Loop

/-! ## Whole maps -/

section Maps

variable {α σ : Type} {limits : Limits} {m : SortedMap String (StateM σ (Json α))} {s : σ}

theorem run_hardenMap_snd : ((hardenMap limits m).run s).2 =
    (visited limits {} m.entries).foldl (fun s harden => (harden.run s).2) s :=
  run_foldlM_snd

theorem exists_of_mem_hardenMap {e : String × Json α}
    (h : e ∈ ((hardenMap limits m).run s).1.entries) :
    ∃ d ∈ m.entries, cleanKey d.1 = e.1 ∧ ∃ s', e.2 = (d.2.run s').1 := by
  rcases exists_of_mem_foldlM h with hnone | hmade
  · cases hnone
  · exact hmade

theorem length_hardenMap_le (hcap : 0 < limits.maxAttrCount) :
    ((hardenMap limits m).run s).1.entries.length ≤ limits.maxAttrCount :=
  length_foldlM_le hcap (Nat.zero_le _)

end Maps

/-! ## The loop over a struct -/

section Fields

variable {ι α σ β : Type} [GoScalars α]

/-- The values of the fields that are hardened, in order. -/
def fieldValues (limits : Limits) (held : SortedMap String Unit) :
    List (StructField × β) → List β
  | [] => []
  | (field, v) :: fields =>
      match fieldKey field with
      | none => fieldValues limits held fields
      | some name =>
          if 0 < limits.maxAttrCount ∧ limits.maxAttrCount ≤ held.entries.length then []
          else v :: fieldValues limits (held.insert name ()) fields

variable {limits : Limits} {harden : GoValue ι α → StateM σ (Json α)}
  {out : SortedMap String (Json α)} {fields : List (StructField × GoValue ι α)} {s : σ}

theorem run_hardenFields_snd : ((hardenFields limits harden out fields).run s).2 =
    (fieldValues limits (out.mapValues fun _ => ()) fields).foldl
      (fun s v => ((harden v).run s).2) s := by
  induction fields generalizing out s with
  | nil => rfl
  | cons d fields ih =>
      rcases d with ⟨field, v⟩
      rw [hardenFields, fieldValues]
      cases fieldKey field with
      | none => exact ih
      | some name =>
          have hlength : (out.mapValues fun _ => ()).entries.length = out.entries.length :=
            List.length_map _
          simp only [hlength]
          split
          · rfl
          · rw [List.foldl_cons,
              ← SortedMap.mapValues_insert (fun _ => ()) name ((harden v).run s).1]
            exact ih

omit [GoScalars α] in
theorem exists_of_mem_fieldValues {held : SortedMap String Unit}
    {fields : List (StructField × β)} {x : β} (h : x ∈ fieldValues limits held fields) :
    ∃ d ∈ fields, d.2 = x := by
  induction fields generalizing held with
  | nil => cases h
  | cons d fields ih =>
      have hrest : ∀ {held : SortedMap String Unit}, x ∈ fieldValues limits held fields →
          ∃ d' ∈ d :: fields, d'.2 = x := fun hmem =>
        (ih hmem).imp fun d' hd' => ⟨List.mem_cons_of_mem d hd'.1, hd'.2⟩
      rcases d with ⟨field, v⟩
      rw [fieldValues] at h
      cases hname : fieldKey field with
      | none =>
          simp only [hname] at h
          exact hrest h
      | some name =>
          simp only [hname] at h
          split at h
          · cases h
          · rcases List.mem_cons.mp h with rfl | h
            · exact ⟨(field, x), List.mem_cons_self, rfl⟩
            · exact hrest h

theorem exists_of_mem_hardenFields {e : String × Json α}
    (h : e ∈ ((hardenFields limits harden out fields).run s).1.entries) :
    e ∈ out.entries ∨
      ∃ d ∈ fields, fieldKey d.1 = some e.1 ∧ ∃ s', e.2 = ((harden d.2).run s').1 := by
  induction fields generalizing out s with
  | nil => exact .inl h
  | cons d fields ih =>
      rcases d with ⟨field, v⟩
      rw [hardenFields] at h
      cases hname : fieldKey field with
      | none =>
          simp only [hname] at h
          rcases ih h with hout | ⟨d, hd, hmade⟩
          · exact .inl hout
          · exact .inr ⟨d, List.mem_cons_of_mem _ hd, hmade⟩
      | some name =>
          simp only [hname] at h
          split at h
          · exact .inl h
          · rcases @ih (out.insert name ((harden v).run s).1) _ h with hout | ⟨d, hd, hmade⟩
            · rcases mem_insertKey hout with rfl | hmem
              · exact .inr ⟨(field, v), List.mem_cons_self, hname, s, rfl⟩
              · exact .inl hmem
            · exact .inr ⟨d, List.mem_cons_of_mem _ hd, hmade⟩

theorem length_hardenFields_le (hcap : 0 < limits.maxAttrCount)
    (h : out.entries.length ≤ limits.maxAttrCount) :
    ((hardenFields limits harden out fields).run s).1.entries.length ≤ limits.maxAttrCount := by
  induction fields generalizing out s with
  | nil => exact h
  | cons d fields ih =>
      rcases d with ⟨field, v⟩
      rw [hardenFields]
      cases fieldKey field with
      | none => exact ih h
      | some name =>
          simp only
          split
          · exact h
          · rename_i hroom
            refine @ih (out.insert name ((harden v).run s).1) _ ?_
            cases hheld : out.contains name with
            | true => exact (SortedMap.length_insert_of_contains hheld _).le.trans h
            | false =>
                rw [SortedMap.length_insert hheld]
                omega

end Fields

/-! ## Bounds -/

section Bounds

variable {ι α : Type} [GoScalars α]

/-- A character that a key may have: neither of the controls below the blank, nor DEL. -/
def IsKeyChar (c : Char) : Prop := ' ' ≤ c ∧ c ≠ '\x7f'

/-- What holds of every string: it is not longer than the cap with its suffix, and its characters
are no controls but tabs and ends of lines. -/
structure TextBounded (limits : Limits) (s : String) : Prop where
  length : s.length ≤ limits.maxValueLength + 3
  chars : ∀ c ∈ s.toList, c = '\t' ∨ c = '\n' ∨ c = '\r' ∨ IsKeyChar c

instance : Inhabited (GoValue ι α) := ⟨.null⟩

/-- What a value of so much room may be hardened to. A list or a map takes room, and a map keeps to
the cap. Its keys are those of a map of the caller, cleaned, or the names of fields. Everything in
it has its source in the caller's value. -/
inductive Bounded (limits : Limits) (heap : Heap ι α) : ℕ → GoValue ι α → Value α → Prop
  | scalar {room : ℕ} {v : GoValue ι α} {a : α} (h : Scalars.str? a = none) :
      Bounded limits heap room v (.scalar a)
  | text {room : ℕ} {v : GoValue ι α} {s : String} (h : TextBounded limits s) :
      Bounded limits heap room v (text s)
  | pointer {room : ℕ} {id : ι} {out : Value α}
      (h : Bounded limits heap room (heap.pointee id) out) :
      Bounded limits heap room (.pointer none id) out
  | array {room : ℕ} {items : List (GoValue ι α)} {out : List (Value α)}
      (source : Value α → GoValue ι α) (hsource : ∀ x ∈ out, source x ∈ items)
      (h : ∀ x ∈ out, Bounded limits heap room (source x) x) :
      Bounded limits heap (room + 1) (.array items) (.list () out)
  | slice {room : ℕ} {self? : Option Rendering} {id : ι} {len : ℕ} {element : ℕ → GoValue ι α}
      {out : List (Value α)} (hid : heap.sliceAt id = .elements element)
      (source : Value α → GoValue ι α) (hsource : ∀ x ∈ out, source x ∈ elements element len)
      (h : ∀ x ∈ out, Bounded limits heap room (source x) x) :
      Bounded limits heap (room + 1) (.slice self? id len) (.list () out)
  | map {room : ℕ} {self? : Option Rendering} {id : ι} {m : SortedMap String (GoValue ι α)}
      {out : Entries α} (hid : heap.mapAt id = .strings m)
      (hlength : out.length ≤ limits.maxAttrCount)
      (hkeys : ∀ e ∈ out, ∀ c ∈ e.1.toList, IsKeyChar c)
      (source : String × Value α → String × GoValue ι α)
      (hsource : ∀ e ∈ out, source e ∈ m.entries ∧ cleanKey (source e).1 = e.1)
      (h : ∀ e ∈ out, Bounded limits heap room (source e).2 e.2) :
      Bounded limits heap (room + 1) (.map self? id) (.dict () out)
  | struct {room : ℕ} {fields : List (StructField × GoValue ι α)} {out : Entries α}
      (hlength : out.length ≤ limits.maxAttrCount)
      (source : String × Value α → StructField × GoValue ι α)
      (hsource : ∀ e ∈ out, source e ∈ fields ∧ fieldKey (source e).1 = some e.1)
      (h : ∀ e ∈ out, Bounded limits heap room (source e).2 e.2) :
      Bounded limits heap (room + 1) (.struct fields) (.dict () out)

variable {limits : Limits} {heap : Heap ι α}

theorem isKeyChar_of_not_control {c : Char} (h : (!(c < ' ' || c == '\x7f')) = true) :
    IsKeyChar c := by
  rw [Bool.not_eq_true', Bool.or_eq_false_iff, decide_eq_false_iff_not, beq_eq_false_iff_ne] at h
  exact ⟨not_lt.mp h.1, h.2⟩

theorem isKeyChar_of_mem_cleanKey {key : String} : ∀ c ∈ (cleanKey key).toList, IsKeyChar c := by
  intro c hc
  rw [cleanKey, String.toList_ofList] at hc
  exact isKeyChar_of_not_control (List.mem_filter.mp hc).2

theorem textBounded_redacted : TextBounded limits Pii.Go.redacted where
  length := Nat.le_add_left _ _
  chars c hc := by
    have hstar : c = '*' := by simpa [Pii.Go.redacted] using hc
    rw [hstar]
    exact .inr (.inr (.inr ⟨by decide, by decide⟩))

/-- A hardened string is bounded. -/
theorem textBounded_hardenString (hlength : 0 < limits.maxValueLength) (s : String) :
    TextBounded limits (hardenString s limits) := by
  have hchars : ∀ c ∈ s.toList.filter (fun r =>
      r == '\t' || r == '\n' || r == '\r' || !(r < ' ' || r == '\x7f')),
      c = '\t' ∨ c = '\n' ∨ c = '\r' ∨ IsKeyChar c := by
    intro c hc
    have hkept := (List.mem_filter.mp hc).2
    rw [Bool.or_eq_true, Bool.or_eq_true, Bool.or_eq_true, beq_iff_eq, beq_iff_eq,
      beq_iff_eq] at hkept
    rcases hkept with ((htab | hlf) | hcr) | hplain
    · exact .inl htab
    · exact .inr (.inl hlf)
    · exact .inr (.inr (.inl hcr))
    · exact .inr (.inr (.inr (isKeyChar_of_not_control hplain)))
  rw [hardenString]
  split
  · rename_i hshort
    constructor
    · rw [String.length_ofList]
      omega
    · rw [String.toList_ofList]
      exact hchars
  · constructor
    · rw [String.length_append, String.length_ofList, List.length_take]
      have hsuffix : Pii.Go.truncationSuffix.length = 3 := rfl
      omega
    · intro c hc
      rw [String.toList_append, String.toList_ofList] at hc
      rcases List.mem_append.mp hc with hc | hc
      · exact hchars c (List.mem_of_mem_take hc)
      · have hdot : c = '.' := by simpa [Pii.Go.truncationSuffix] using hc
        rw [hdot]
        exact .inr (.inr (.inr ⟨by decide, by decide⟩))

theorem bounded_guardedText (hlength : 0 < limits.maxValueLength) {room : ℕ} {v : GoValue ι α}
    (r : Rendering) : Bounded limits heap room v (guardedText limits r : Json α).val := by
  cases r with
  | none => exact .text textBounded_redacted
  | some text => exact .text (textBounded_hardenString hlength text)

/-- What a value's own text is hardened to is bounded. -/
theorem bounded_of_hardenAsText (hlength : 0 < limits.maxValueLength) {room : ℕ}
    {v w : GoValue ι α} {out : Json α} (h : hardenAsText limits v = some out) :
    Bounded limits heap room w out.val := by
  have hmap : ∀ self? : Option Rendering, self?.map (guardedText limits) = some out →
      Bounded limits heap room w out.val := by
    intro self? hself
    rcases Option.map_eq_some_iff.mp hself with ⟨r, -, rfl⟩
    exact bounded_guardedText hlength r
  cases v with
  | self r =>
      cases h
      exact bounded_guardedText hlength r
  | map self? id => exact hmap self? h
  | slice self? id len => exact hmap self? h
  | null | scalar | str | shapeless | array | struct | pointer => cases h

theorem bounded_of_hardenScalar (hlength : 0 < limits.maxValueLength) {room : ℕ}
    {v w : GoValue ι α} {out : Json α} (h : hardenScalar limits heap v = some out) :
    Bounded limits heap room w out.val := by
  cases v with
  | str s =>
      cases h
      exact .text (textBounded_hardenString hlength s)
  | scalar a =>
      cases h
      exact .scalar a.property
  | null =>
      cases h
      exact .scalar GoScalars.null_not_str
  | slice self? id len =>
      rw [hardenScalar] at h
      cases hid : heap.sliceAt id with
      | bytes text =>
          simp only [hid] at h
          cases h
          exact .text (textBounded_hardenString hlength (text len))
      | elements element =>
          simp only [hid] at h
          cases h
  | self | map | shapeless | array | struct | pointer => cases h

/-- What is hardened one level deeper is bounded by one less. -/
def DeeperBounded (limits : Limits) (heap : Heap ι α) (room : ℕ)
    (deeper : Option (GoValue ι α → StateM (List ι) (Json α))) : Prop :=
  ∀ harden, deeper = some harden →
    ∃ n, room = n + 1 ∧ ∀ x s, Bounded limits heap n x ((harden x).run s).1.val

variable {room : ℕ} {deeper : Option (GoValue ι α → StateM (List ι) (Json α))}

theorem bounded_hardenKind [DecidableEq ι] (hlength : 0 < limits.maxValueLength)
    (hcap : 0 < limits.maxAttrCount) (hdeeper : DeeperBounded limits heap room deeper)
    (v : GoValue ι α) (s : List ι) :
    Bounded limits heap room v ((hardenKind limits heap deeper v).run s).1.val := by
  have hredacted : ∀ w : GoValue ι α, Bounded limits heap room w (redacted : Json α).val :=
    fun w => .text textBounded_redacted
  rw [hardenKind.eq_def]
  cases hscalar : hardenScalar limits heap v with
  | some scalar => exact bounded_of_hardenScalar hlength hscalar
  | none =>
      cases hd : deeper with
      | none => exact hredacted v
      | some harden =>
          rcases hdeeper harden hd with ⟨n, rfl, hharden⟩
          have hlist : ∀ items : List (GoValue ι α), ∃ source : Value α → GoValue ι α,
              ∀ x ∈ ((items.mapM harden).run s).1.map Subtype.val,
                source x ∈ items ∧ Bounded limits heap n (source x) x := by
            intro items
            have hmade : ∀ x ∈ ((items.mapM harden).run s).1.map Subtype.val,
                ∃ item, item ∈ items ∧ Bounded limits heap n item x := by
              intro x hx
              rcases List.mem_map.mp hx with ⟨out, hout, rfl⟩
              rcases exists_of_mem_run_mapM hout with ⟨item, hitem, s', rfl⟩
              exact ⟨item, hitem, hharden item s'⟩
            choose! source hsource using hmade
            exact ⟨source, hsource⟩
          cases v with
          | map self? id =>
              cases hid : heap.mapAt id with
              | others len =>
                  simp only [hid]
                  exact hredacted _
              | strings m =>
                  simp only [hid]
                  have hmade : ∀ e ∈ (toPayload ((hardenMap limits
                      (m.mapValues harden)).run s).1).entries,
                      ∃ d, (d ∈ m.entries ∧ cleanKey d.1 = e.1) ∧
                        Bounded limits heap n d.2 e.2 := by
                    intro e he
                    rcases List.mem_map.mp he with ⟨out, hout, rfl⟩
                    rcases exists_of_mem_hardenMap hout with ⟨act, hact, hkey, s', hvalue⟩
                    rcases List.mem_map.mp hact with ⟨d, hd', rfl⟩
                    refine ⟨d, ⟨hd', hkey⟩, ?_⟩
                    simp only [hvalue]
                    exact hharden d.2 s'
                  choose! source hsource using hmade
                  refine .map hid ?_ ?_ source (fun e he => (hsource e he).1)
                    fun e he => (hsource e he).2
                  · rw [toPayload, List.length_map]
                    exact length_hardenMap_le hcap
                  · intro e he
                    rw [← (hsource e he).1.2]
                    exact isKeyChar_of_mem_cleanKey
          | slice self? id len =>
              cases hid : heap.sliceAt id with
              | bytes text =>
                  simp only [hid]
                  exact hredacted _
              | elements element =>
                  simp only [hid]
                  rcases hlist (elements element len) with ⟨source, hsource⟩
                  exact .slice hid source (fun x hx => (hsource x hx).1)
                    fun x hx => (hsource x hx).2
          | array items =>
              rcases hlist items with ⟨source, hsource⟩
              exact .array source (fun x hx => (hsource x hx).1) fun x hx => (hsource x hx).2
          | struct fields =>
              have hmade : ∀ e ∈ (toPayload ((hardenFields limits harden .empty
                  fields).run s).1).entries,
                  ∃ d, (d ∈ fields ∧ fieldKey d.1 = some e.1) ∧
                    Bounded limits heap n d.2 e.2 := by
                intro e he
                rcases List.mem_map.mp he with ⟨out, hout, rfl⟩
                rcases exists_of_mem_hardenFields hout with hnone | ⟨d, hd', hkey, s', hvalue⟩
                · cases hnone
                · refine ⟨d, ⟨hd', hkey⟩, ?_⟩
                  simp only [hvalue]
                  exact hharden d.2 s'
              choose! source hsource using hmade
              refine .struct ?_ source (fun e he => (hsource e he).1) fun e he => (hsource e he).2
              rw [toPayload, List.length_map]
              exact length_hardenFields_le hcap (Nat.zero_le _)
          | null | scalar | str | self | shapeless | pointer => exact hredacted _

theorem bounded_hardenReached [DecidableEq ι] (hlength : 0 < limits.maxValueLength)
    (hcap : 0 < limits.maxAttrCount) (hdeeper : DeeperBounded limits heap room deeper)
    (v : GoValue ι α) (s : List ι) :
    Bounded limits heap room v ((hardenReached limits heap deeper v).run s).1.val := by
  have hcontent : ∀ s', Bounded limits heap room v
      ((hardenContent limits heap deeper v).run s').1.val := by
    intro s'
    rw [hardenContent]
    cases htext : hardenAsText limits v with
    | some text => exact bounded_of_hardenAsText hlength htext
    | none => exact bounded_hardenKind hlength hcap hdeeper v s'
  rw [run_hardenReached]
  cases containerIdentity heap v with
  | none => exact hcontent s
  | some id =>
      by_cases hseen : id ∈ s
      · simp only [if_pos hseen]
        exact .text textBounded_redacted
      · simp only [if_neg hseen]
        exact hcontent (id :: s)

/-- Following pointers changes neither the room nor what is allowed. -/
theorem bounded_of_followReferences [DecidableEq ι] [Fintype ι]
    (hlength : 0 < limits.maxValueLength) (seen : List ι) (v : GoValue ι α) :
    (∀ early seen', followReferences limits heap seen v = (.inl early, seen') →
      Bounded limits heap room v early.val) ∧
    ∀ w seen' out, followReferences limits heap seen v = (.inr w, seen') →
      Bounded limits heap room w out → Bounded limits heap room v out := by
  fun_induction followReferences limits heap seen v with
  | case1 seen =>
      constructor
      · rintro early seen' ⟨⟩
        exact .scalar GoScalars.null_not_str
      · rintro w seen' out ⟨⟩
  | case2 seen self? id hseen =>
      constructor
      · rintro early seen' ⟨⟩
        exact .text textBounded_redacted
      · rintro w seen' out ⟨⟩
  | case3 seen id hnew r =>
      constructor
      · rintro early seen' ⟨⟩
        exact bounded_guardedText hlength r
      · rintro w seen' out ⟨⟩
  | case4 seen id hnew ih =>
      constructor
      · intro early seen' h
        exact .pointer (ih.1 early seen' h)
      · intro w seen' out h hout
        exact .pointer (ih.2 w seen' out h hout)
  | case5 seen v =>
      constructor
      · rintro early seen' ⟨⟩
      · rintro w seen' out ⟨⟩ hout
        exact hout

variable [DecidableEq ι] [Fintype ι]

theorem bounded_hardenStep (hlength : 0 < limits.maxValueLength)
    (hcap : 0 < limits.maxAttrCount) (hdeeper : DeeperBounded limits heap room deeper)
    (v : GoValue ι α) (s : List ι) :
    Bounded limits heap room v ((hardenStep limits heap deeper v).run s).1.val := by
  have hfollow := @bounded_of_followReferences _ _ _ limits heap room _ _ hlength s v
  rw [run_hardenStep]
  rcases hend : followReferences limits heap s v with ⟨early | w, seen'⟩
  · exact hfollow.1 early seen' hend
  · exact hfollow.2 w seen' _ hend (bounded_hardenReached hlength hcap hdeeper w seen')

/-- **A hardened value is bounded.** -/
theorem bounded_hardenAt (hlength : 0 < limits.maxValueLength) (hcap : 0 < limits.maxAttrCount)
    (room : ℕ) (v : GoValue ι α) (s : List ι) :
    Bounded limits heap room v ((hardenAt limits heap room v).run s).1.val := by
  induction room generalizing v s with
  | zero =>
      apply bounded_hardenStep hlength hcap
      rintro harden ⟨⟩
  | succ room ih =>
      apply bounded_hardenStep hlength hcap
      rintro harden ⟨⟩
      exact ⟨room, rfl, ih⟩

/-! ## Attributes -/

instance {γ : Type} : Inhabited (AttrValue γ) := ⟨.str ""⟩

/-- What the value of an attribute with so much room may be hardened to. A group is a map of the
caller. -/
inductive AttrBounded (limits : Limits) (heap : Heap ι α) :
    ℕ → AttrValue (GoValue ι α) → Value α → Prop
  | text {room : ℕ} {a : AttrValue (GoValue ι α)} {s : String} (h : TextBounded limits s) :
      AttrBounded limits heap room a (text s)
  | any {room : ℕ} {v : GoValue ι α} {out : Value α} (h : Bounded limits heap room v out) :
      AttrBounded limits heap room (.any v) out
  | group {room : ℕ} {attrs : Attrs (GoValue ι α)} {out : Entries α}
      (hlength : out.length ≤ limits.maxAttrCount)
      (hkeys : ∀ e ∈ out, ∀ c ∈ e.1.toList, IsKeyChar c)
      (source : String × Value α → String × AttrValue (GoValue ι α))
      (hsource : ∀ e ∈ out, source e ∈ attrs ∧ cleanKey (source e).1 = e.1)
      (h : ∀ e ∈ out, AttrBounded limits heap room (source e).2 e.2) :
      AttrBounded limits heap (room + 1) (.group attrs) (.dict () out)

theorem hardenGroup_eq_map {σ γ : Type} (R : Reflection σ γ α) (depth : ℕ)
    (attrs : Attrs γ) : hardenGroup R limits depth attrs =
      attrs.map fun d => (d.1, hardenValue R limits depth d.2) := by
  induction attrs with
  | nil => rw [hardenGroup]; rfl
  | cons d attrs ih => rw [hardenGroup, ih]; rfl

/-- **A hardened attribute is bounded.** -/
theorem attrBounded_hardenValue (hlength : 0 < limits.maxValueLength)
    (hcap : 0 < limits.maxAttrCount) (depth : ℕ) (a : AttrValue (GoValue ι α)) (s : List ι) :
    AttrBounded limits heap (limits.maxDepth - depth) a
      ((hardenValue (reflectionOf heap) limits depth a).run s).1.val := by
  match a with
  | .str t =>
      rw [hardenValue]
      exact .text (textBounded_hardenString hlength t)
  | .any v =>
      rw [hardenValue]
      exact .any (bounded_hardenAt hlength hcap _ v s)
  | .group attrs =>
      rw [hardenValue]
      split
      · exact .text textBounded_redacted
      · rename_i hdepth
        have hroom : limits.maxDepth - depth = limits.maxDepth - (depth + 1) + 1 := by omega
        have hmade : ∀ e ∈ (toPayload ((hardenMap limits (SortedMap.empty.extend
            (hardenGroup (reflectionOf heap) limits (depth + 1) attrs))).run s).1).entries,
            ∃ d, (d ∈ attrs ∧ cleanKey d.1 = e.1) ∧
              AttrBounded limits heap (limits.maxDepth - (depth + 1)) d.2 e.2 := by
          intro e he
          rcases List.mem_map.mp he with ⟨out, hout, rfl⟩
          rcases exists_of_mem_hardenMap hout with ⟨act, hact, hkey, s', hvalue⟩
          rw [hardenGroup_eq_map] at hact
          have hact' := (SortedMap.mem_of_mem_extend hact).resolve_left List.not_mem_nil
          rcases List.mem_map.mp hact' with ⟨d, hd, rfl⟩
          refine ⟨d, ⟨hd, hkey⟩, ?_⟩
          simp only [hvalue]
          exact attrBounded_hardenValue hlength hcap (depth + 1) d.2 s'
        choose! source hsource using hmade
        rw [hroom]
        refine .group ?_ ?_ source (fun e he => (hsource e he).1) fun e he => (hsource e he).2
        · rw [toPayload, List.length_map]
          exact length_hardenMap_le hcap
        · intro e he
          rw [← (hsource e he).1.2]
          exact isKeyChar_of_mem_cleanKey
termination_by sizeOf a
decreasing_by exact AttrValue.sizeOf_lt_group hd

end Bounds

/-! ## Crossings -/

section Crossings

variable {ι α : Type} [GoScalars α] [DecidableEq ι] [Fintype ι] (limits : Limits)
  (heap : Heap ι α)

/-- The values in a container that are hardened with it. -/
def contents : GoValue ι α → List (GoValue ι α)
  | .map _ id =>
      match heap.mapAt id with
      | .strings m => visited limits {} m.entries
      | .others _ => []
  | .slice _ id len =>
      match heap.sliceAt id with
      | .elements element => elements element len
      | .bytes _ => []
  | .array items => items
  | .struct fields => fieldValues limits .empty fields
  | _ => []

/-- The references crossed after a walk over a value, and those one level deeper, if the ceiling
allows any. A value that renders itself is not walked into. -/
def crossContent (deeper : Option (GoValue ι α → List ι → List ι)) (v : GoValue ι α)
    (seen : List ι) : List ι :=
  match hardenAsText limits v with
  | some _ => seen
  | none =>
      match deeper with
      | none => seen
      | some cross => (contents limits heap v).foldl (fun seen x => cross x seen) seen

/-- The references crossed after a walk over a value at the end of its pointers. -/
def crossReached (deeper : Option (GoValue ι α → List ι → List ι)) (v : GoValue ι α)
    (seen : List ι) : List ι :=
  match containerIdentity heap v with
  | some id => if id ∈ seen then seen else crossContent limits heap deeper v (id :: seen)
  | none => crossContent limits heap deeper v seen

/-- The references crossed after a walk over a value. -/
def crossStep (deeper : Option (GoValue ι α → List ι → List ι)) (v : GoValue ι α)
    (seen : List ι) : List ι :=
  match followReferences limits heap seen v with
  | (.inl _, seen) => seen
  | (.inr v, seen) => crossReached limits heap deeper v seen

/-- The references crossed after a walk over a value with so much room. -/
def crossAt : ℕ → GoValue ι α → List ι → List ι
  | 0 => crossStep limits heap none
  | room + 1 => crossStep limits heap (some (crossAt room))

mutual
/-- The references crossed after a walk over an attribute. -/
def crossAttr (depth : ℕ) : AttrValue (GoValue ι α) → List ι → List ι
  | .str _, seen => seen
  | .any v, seen => crossAt limits heap (limits.maxDepth - depth) v seen
  | .group attrs, seen =>
      if limits.maxDepth ≤ depth then seen
      else (visited limits {} (SortedMap.empty.extend (crossGroup (depth + 1) attrs)).entries).foldl
        (fun seen cross => cross seen) seen
/-- The same for the attributes of a group. -/
def crossGroup (depth : ℕ) : Attrs (GoValue ι α) → List (String × (List ι → List ι))
  | [] => []
  | (key, value) :: attrs => (key, crossAttr depth value) :: crossGroup depth attrs
end

variable {limits heap}

omit [DecidableEq ι] [Fintype ι] in
theorem contents_of_hardenScalar {v : GoValue ι α} {out : Json α}
    (h : hardenScalar limits heap v = some out) : contents limits heap v = [] := by
  cases v with
  | slice self? id len =>
      rw [hardenScalar] at h
      rw [contents]
      cases hid : heap.sliceAt id with
      | bytes text => rfl
      | elements element =>
          simp only [hid] at h
          cases h
  | null | scalar | str => rfl
  | self | map | shapeless | array | struct | pointer => cases h

/-- What is done one level deeper crosses as much. -/
def SameCrossings (deeper : Option (GoValue ι α → StateM (List ι) (Json α)))
    (cross : Option (GoValue ι α → List ι → List ι)) : Prop :=
  (deeper = none ∧ cross = none) ∨
    ∃ f g, deeper = some f ∧ cross = some g ∧ ∀ x s, ((f x).run s).2 = g x s

theorem run_mapM_snd {β γ σ : Type} {f : β → StateM σ γ} {g : β → σ → σ}
    (h : ∀ x s, ((f x).run s).2 = g x s) (xs : List β) (s : σ) :
    ((xs.mapM f).run s).2 = xs.foldl (fun s x => g x s) s := by
  induction xs generalizing s with
  | nil => rfl
  | cons x xs ih => rw [run_mapM_cons, List.foldl_cons, ih, h]

variable {deeper : Option (GoValue ι α → StateM (List ι) (Json α))}
  {cross : Option (GoValue ι α → List ι → List ι)} {v : GoValue ι α} {s : List ι}

omit [DecidableEq ι] [Fintype ι] in
theorem run_hardenContent_snd (h : SameCrossings deeper cross) :
    ((hardenContent limits heap deeper v).run s).2 = crossContent limits heap cross v s := by
  rw [hardenContent, crossContent.eq_def]
  cases htext : hardenAsText limits v with
  | some text => rfl
  | none =>
      simp only
      rw [hardenKind.eq_def]
      rcases h with ⟨rfl, rfl⟩ | ⟨f, g, rfl, rfl, hsame⟩
      · cases hardenScalar limits heap v <;> rfl
      · cases hscalar : hardenScalar limits heap v with
        | some scalar =>
            simp only [contents_of_hardenScalar hscalar]
            rfl
        | none =>
            cases v with
            | map self? id =>
                simp only [contents]
                cases hid : heap.mapAt id with
                | others len =>
                    simp only
                    rfl
                | strings m =>
                    simp only
                    have hmap := @run_hardenMap_snd _ _ limits (m.mapValues f) s
                    rw [SortedMap.mapValues, visited_map, List.foldl_map] at hmap
                    simp only [hsame] at hmap
                    exact hmap
            | slice self? id len =>
                simp only [contents]
                cases hid : heap.sliceAt id with
                | bytes text =>
                    simp only
                    rfl
                | elements element =>
                    simp only
                    exact run_mapM_snd hsame _ s
            | array items => exact run_mapM_snd hsame _ s
            | struct fields =>
                have hfields := @run_hardenFields_snd _ _ _ _ limits f .empty fields s
                simp only [hsame] at hfields
                exact hfields
            | null | scalar | str | self | shapeless | pointer => rfl

omit [Fintype ι] in
theorem run_hardenReached_snd (h : SameCrossings deeper cross) :
    ((hardenReached limits heap deeper v).run s).2 = crossReached limits heap cross v s := by
  rw [run_hardenReached, crossReached]
  cases containerIdentity heap v with
  | none => exact run_hardenContent_snd h
  | some id =>
      by_cases hseen : id ∈ s
      · simp only [if_pos hseen]
      · simp only [if_neg hseen]
        exact run_hardenContent_snd h

theorem run_hardenStep_snd (h : SameCrossings deeper cross) :
    ((hardenStep limits heap deeper v).run s).2 = crossStep limits heap cross v s := by
  rw [run_hardenStep, crossStep]
  rcases followReferences limits heap s v with ⟨early | w, seen'⟩
  · rfl
  · exact run_hardenReached_snd h

/-- **The references that a walk has crossed** are those that the crossings tell. -/
theorem run_hardenAt_snd (room : ℕ) (v : GoValue ι α) (s : List ι) :
    ((hardenAt limits heap room v).run s).2 = crossAt limits heap room v s := by
  induction room generalizing v s with
  | zero => exact run_hardenStep_snd (.inl ⟨rfl, rfl⟩)
  | succ room ih => exact run_hardenStep_snd (.inr ⟨_, _, rfl, rfl, ih⟩)

theorem crossGroup_eq_map (depth : ℕ) (attrs : Attrs (GoValue ι α)) :
    crossGroup limits heap depth attrs =
      attrs.map fun d => (d.1, crossAttr limits heap depth d.2) := by
  induction attrs with
  | nil => rw [crossGroup]; rfl
  | cons d attrs ih => rw [crossGroup, ih]; rfl

/-- What is visited of a group, before or after its values are hardened. -/
theorem visited_extend_map {β γ : Type} (f : β → γ) (attrs : List (String × β)) :
    visited limits {} (SortedMap.empty.extend (attrs.map fun d => (d.1, f d.2))).entries =
      (visited limits {} (SortedMap.empty.extend attrs).entries).map f := by
  have hextend := SortedMap.mapValues_extend (m := SortedMap.empty) f attrs
  rw [← visited_map]
  exact congrArg (fun m : SortedMap String γ => visited limits {} m.entries) hextend.symm

theorem foldl_congr_of_mem {β σ : Type} {f g : σ → β → σ} {xs : List β}
    (h : ∀ x ∈ xs, ∀ s, f s x = g s x) (s : σ) : xs.foldl f s = xs.foldl g s := by
  induction xs generalizing s with
  | nil => rfl
  | cons x xs ih =>
      rw [List.forall_mem_cons] at h
      rw [List.foldl_cons, List.foldl_cons, h.1, ih h.2]

/-- **The references that hardening an attribute has crossed.** -/
theorem run_hardenValue_snd (depth : ℕ) (a : AttrValue (GoValue ι α)) (s : List ι) :
    ((hardenValue (reflectionOf heap) limits depth a).run s).2 =
      crossAttr limits heap depth a s := by
  match a with
  | .str t =>
      rw [hardenValue, crossAttr]
      rfl
  | .any v =>
      rw [hardenValue, crossAttr]
      exact run_hardenAt_snd _ v s
  | .group attrs =>
      rw [hardenValue, crossAttr]
      split
      · rfl
      · rw [hardenGroup_eq_map, crossGroup_eq_map, visited_extend_map, List.foldl_map]
        have hmap := @run_hardenMap_snd _ _ limits (SortedMap.empty.extend (attrs.map fun d =>
          (d.1, hardenValue (reflectionOf heap) limits (depth + 1) d.2))) s
        rw [visited_extend_map, List.foldl_map] at hmap
        refine hmap.trans (foldl_congr_of_mem ?_ s)
        intro x hx s'
        rcases exists_of_mem_visited hx with ⟨e, he, rfl⟩
        have hmem : e ∈ attrs := (SortedMap.mem_of_mem_extend he).resolve_left List.not_mem_nil
        exact run_hardenValue_snd (depth + 1) e.2 s'
termination_by sizeOf a
decreasing_by exact AttrValue.sizeOf_lt_group hmem

/-! ## None twice -/

/-- A walk crosses no reference twice. -/
def CrossesOnce (cross : GoValue ι α → List ι → List ι) : Prop :=
  ∀ v seen, seen.Nodup → (cross v seen).Nodup

omit [DecidableEq ι] [Fintype ι] in
theorem nodup_foldl {β : Type} {f : List ι → β → List ι} {xs : List β}
    (h : ∀ x ∈ xs, ∀ seen, seen.Nodup → (f seen x).Nodup) {seen : List ι} (hseen : seen.Nodup) :
    (xs.foldl f seen).Nodup := by
  induction xs generalizing seen with
  | nil => exact hseen
  | cons x xs ih =>
      rw [List.forall_mem_cons] at h
      exact ih h.2 (h.1 seen hseen)

theorem nodup_followReferences {seen : List ι} (hseen : seen.Nodup) (v : GoValue ι α) :
    (followReferences limits heap seen v).2.Nodup := by
  fun_induction followReferences limits heap seen v with
  | case1 seen => exact hseen
  | case2 seen self? id h => exact hseen
  | case3 seen id hnew r => exact List.nodup_cons.mpr ⟨hnew, hseen⟩
  | case4 seen id hnew ih => exact ih (List.nodup_cons.mpr ⟨hnew, hseen⟩)
  | case5 seen v => exact hseen

omit [DecidableEq ι] [Fintype ι] in
theorem crossesOnce_crossContent (h : ∀ g, cross = some g → CrossesOnce g) :
    CrossesOnce (crossContent limits heap cross) := by
  intro v seen hseen
  rw [crossContent.eq_def]
  cases hardenAsText limits v with
  | some text => exact hseen
  | none =>
      cases hcross : cross with
      | none => exact hseen
      | some g => exact nodup_foldl (fun x _ => h g hcross x) hseen

omit [Fintype ι] in
theorem crossesOnce_crossReached (h : ∀ g, cross = some g → CrossesOnce g) :
    CrossesOnce (crossReached limits heap cross) := by
  intro v seen hseen
  rw [crossReached]
  cases containerIdentity heap v with
  | none => exact crossesOnce_crossContent h v seen hseen
  | some id =>
      by_cases hmem : id ∈ seen
      · simp only [if_pos hmem]
        exact hseen
      · simp only [if_neg hmem]
        exact crossesOnce_crossContent h v _ (List.nodup_cons.mpr ⟨hmem, hseen⟩)

theorem crossesOnce_crossStep (h : ∀ g, cross = some g → CrossesOnce g) :
    CrossesOnce (crossStep limits heap cross) := by
  intro v seen hseen
  have hfollow : (followReferences limits heap seen v).2.Nodup := nodup_followReferences hseen v
  rw [crossStep]
  rcases hend : followReferences limits heap seen v with ⟨early | w, seen'⟩
  · rw [hend] at hfollow
    exact hfollow
  · rw [hend] at hfollow
    exact crossesOnce_crossReached h w seen' hfollow

/-- **A walk crosses no reference twice.** -/
theorem crossesOnce_crossAt (room : ℕ) : CrossesOnce (crossAt limits heap room) := by
  induction room with
  | zero => exact crossesOnce_crossStep nofun
  | succ room ih =>
      apply crossesOnce_crossStep
      rintro g ⟨⟩
      exact ih

theorem nodup_crossAttr (depth : ℕ) (a : AttrValue (GoValue ι α)) {seen : List ι}
    (hseen : seen.Nodup) : (crossAttr limits heap depth a seen).Nodup := by
  match a with
  | .str t =>
      rw [crossAttr]
      exact hseen
  | .any v =>
      rw [crossAttr]
      exact crossesOnce_crossAt _ v seen hseen
  | .group attrs =>
      rw [crossAttr]
      split
      · exact hseen
      · rw [crossGroup_eq_map, visited_extend_map, List.foldl_map]
        apply nodup_foldl _ hseen
        intro x hx seen' hseen'
        rcases exists_of_mem_visited hx with ⟨e, he, rfl⟩
        have hmem : e ∈ attrs := (SortedMap.mem_of_mem_extend he).resolve_left List.not_mem_nil
        exact nodup_crossAttr (depth + 1) e.2 hseen'
termination_by sizeOf a
decreasing_by exact AttrValue.sizeOf_lt_group hmem

end Crossings

end Telemetry.Hardening.Go
