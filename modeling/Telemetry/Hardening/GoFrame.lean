import Telemetry.Hardening.GoBounds
import Telemetry.Lib.Framed

/-!
# What one attribute's hardening depends on in the Go SDK

A walk crosses no reference but those that can be reached from the value, and asks about no other.
So what was crossed before does not matter, as long as none of it can be reached.

## Main definitions

* `Reaches`, `AttrReaches` — a reference can be reached from a value.

## Main results

* `mem_crossAt`, `mem_crossAttr` — only such references are crossed.
* `framed_hardenAt`, `framed_hardenValue` — **no others matter**.
-/

namespace Telemetry.Hardening.Go

open Telemetry.Lib Telemetry.Pii Telemetry.Logging.Go

variable {ι α : Type} [GoScalars α]

/-- A reference can be reached from a value. -/
inductive Reaches (heap : Heap ι α) : GoValue ι α → ι → Prop
  | pointer (self? : Option Rendering) (id : ι) : Reaches heap (.pointer self? id) id
  | map (self? : Option Rendering) (id : ι) : Reaches heap (.map self? id) id
  | slice (self? : Option Rendering) (id : ι) (len : ℕ) : Reaches heap (.slice self? id len) id
  | pointee {self? : Option Rendering} {id r : ι} (h : Reaches heap (heap.pointee id) r) :
      Reaches heap (.pointer self? id) r
  | entry {self? : Option Rendering} {id r : ι} {m : SortedMap String (GoValue ι α)}
      {e : String × GoValue ι α} (hid : heap.mapAt id = .strings m) (he : e ∈ m.entries)
      (h : Reaches heap e.2 r) : Reaches heap (.map self? id) r
  | element {self? : Option Rendering} {id r : ι} {len : ℕ} {element : ℕ → GoValue ι α}
      {x : GoValue ι α} (hid : heap.sliceAt id = .elements element)
      (hx : x ∈ elements element len) (h : Reaches heap x r) :
      Reaches heap (.slice self? id len) r
  | item {r : ι} {items : List (GoValue ι α)} {x : GoValue ι α} (hx : x ∈ items)
      (h : Reaches heap x r) : Reaches heap (.array items) r
  | field {r : ι} {fields : List (StructField × GoValue ι α)} {d : StructField × GoValue ι α}
      (hd : d ∈ fields) (h : Reaches heap d.2 r) : Reaches heap (.struct fields) r

/-- A reference can be reached from the value of an attribute. -/
inductive AttrReaches (heap : Heap ι α) : AttrValue (GoValue ι α) → ι → Prop
  | any {v : GoValue ι α} {r : ι} (h : Reaches heap v r) : AttrReaches heap (.any v) r
  | group {attrs : Attrs (GoValue ι α)} {d : String × AttrValue (GoValue ι α)} {r : ι}
      (hd : d ∈ attrs) (h : AttrReaches heap d.2 r) : AttrReaches heap (.group attrs) r

variable {limits : Limits} {heap : Heap ι α} {v : GoValue ι α} {r : ι}

/-- What the containers hold can be reached from them. -/
theorem reaches_of_mem_contents {x : GoValue ι α} (hx : x ∈ contents limits heap v)
    (h : Reaches heap x r) : Reaches heap v r := by
  cases v with
  | map self? id =>
      rw [contents.eq_def] at hx
      cases hid : heap.mapAt id with
      | others len =>
          simp only [hid] at hx
          cases hx
      | strings m =>
          simp only [hid] at hx
          rcases exists_of_mem_visited hx with ⟨e, he, rfl⟩
          exact .entry hid he h
  | slice self? id len =>
      rw [contents.eq_def] at hx
      cases hid : heap.sliceAt id with
      | bytes text =>
          simp only [hid] at hx
          cases hx
      | elements element =>
          simp only [hid] at hx
          exact .element hid hx h
  | array items => exact .item hx h
  | struct fields =>
      rcases exists_of_mem_fieldValues hx with ⟨d, hd, rfl⟩
      exact .field hd h
  | null | scalar | str | self | shapeless | pointer => cases hx

/-- The identity of a container can be reached from it. -/
theorem reaches_containerIdentity (h : containerIdentity heap v = some r) : Reaches heap v r := by
  cases v with
  | map self? id =>
      rw [containerIdentity] at h
      split at h
      · cases h
      · cases h
        exact .map self? _
  | slice self? id len =>
      rw [containerIdentity] at h
      split at h
      · cases h
      · cases h
        exact .slice self? _ len
  | null | scalar | str | self | shapeless | array | struct | pointer => cases h

/-! ## Crossings -/

variable [DecidableEq ι] [Fintype ι]

variable (limits heap) in
/-- What is crossed along pointers can be reached, and so can what lies at their end. -/
theorem reaches_of_followReferences (seen : List ι) (v : GoValue ι α) :
    (∀ id ∈ (followReferences limits heap seen v).2, id ∈ seen ∨ Reaches heap v id) ∧
      ∀ w, (followReferences limits heap seen v).1 = .inr w →
        ∀ id, Reaches heap w id → Reaches heap v id := by
  fun_induction followReferences limits heap seen v with
  | case1 seen => exact ⟨fun id => .inl, fun w hw => by cases hw⟩
  | case2 seen self? id h => exact ⟨fun id => .inl, fun w hw => by cases hw⟩
  | case3 seen id hnew r =>
      refine ⟨fun id' hid' => ?_, fun w hw => by cases hw⟩
      rcases List.mem_cons.mp hid' with rfl | hid'
      · exact .inr (.pointer _ _)
      · exact .inl hid'
  | case4 seen id hnew ih =>
      refine ⟨fun id' hid' => ?_, fun w hw id' hid' => .pointee (ih.2 w hw id' hid')⟩
      rcases ih.1 id' hid' with hseen | hreach
      · rcases List.mem_cons.mp hseen with rfl | hseen
        · exact .inr (.pointer _ _)
        · exact .inl hseen
      · exact .inr (.pointee hreach)
  | case5 seen v =>
      refine ⟨fun id => .inl, ?_⟩
      rintro w ⟨⟩ id hid
      exact hid

/-- A walk crosses what can be reached only. -/
def CrossesReachable (heap : Heap ι α) (cross : GoValue ι α → List ι → List ι) : Prop :=
  ∀ v seen, ∀ id ∈ cross v seen, id ∈ seen ∨ Reaches heap v id

omit [DecidableEq ι] [Fintype ι] in
theorem mem_foldl_cross {β : Type} {f : List ι → β → List ι} {xs : List β} {P : ι → Prop}
    (h : ∀ x ∈ xs, ∀ seen, ∀ id ∈ f seen x, id ∈ seen ∨ P id) {seen : List ι} {id : ι}
    (hid : id ∈ xs.foldl f seen) : id ∈ seen ∨ P id := by
  induction xs generalizing seen with
  | nil => exact .inl hid
  | cons x xs ih =>
      rw [List.forall_mem_cons] at h
      rcases ih h.2 hid with hseen | hP
      · exact h.1 seen id hseen
      · exact .inr hP

variable {cross : Option (GoValue ι α → List ι → List ι)}

omit [DecidableEq ι] [Fintype ι] in
theorem crossesReachable_crossContent (h : ∀ g, cross = some g → CrossesReachable heap g) :
    CrossesReachable heap (crossContent limits heap cross) := by
  intro v seen id hid
  rw [crossContent.eq_def] at hid
  cases htext : hardenAsText limits v with
  | some text =>
      simp only [htext] at hid
      exact .inl hid
  | none =>
      simp only [htext] at hid
      cases hcross : cross with
      | none =>
          simp only [hcross] at hid
          exact .inl hid
      | some g =>
          simp only [hcross] at hid
          exact mem_foldl_cross (fun x hx seen id hmem =>
            (h g hcross x seen id hmem).imp_right (reaches_of_mem_contents hx)) hid

omit [Fintype ι] in
theorem crossesReachable_crossReached (h : ∀ g, cross = some g → CrossesReachable heap g) :
    CrossesReachable heap (crossReached limits heap cross) := by
  intro v seen id hid
  rw [crossReached] at hid
  cases hidentity : containerIdentity heap v with
  | none =>
      simp only [hidentity] at hid
      exact crossesReachable_crossContent h v seen id hid
  | some own =>
      simp only [hidentity] at hid
      split at hid
      · exact .inl hid
      · rcases crossesReachable_crossContent h v _ id hid with hseen | hreach
        · rcases List.mem_cons.mp hseen with rfl | hseen
          · exact .inr (reaches_containerIdentity hidentity)
          · exact .inl hseen
        · exact .inr hreach

theorem crossesReachable_crossStep (h : ∀ g, cross = some g → CrossesReachable heap g) :
    CrossesReachable heap (crossStep limits heap cross) := by
  intro v seen id hid
  have hfollow := reaches_of_followReferences limits heap seen v
  rw [crossStep] at hid
  rcases hend : followReferences limits heap seen v with ⟨early | w, seen'⟩
  · rw [hend] at hid hfollow
    exact hfollow.1 id hid
  · rw [hend] at hid hfollow
    rcases crossesReachable_crossReached h w seen' id hid with hseen | hreach
    · exact hfollow.1 id hseen
    · exact .inr (hfollow.2 w rfl id hreach)

/-- **A walk crosses what can be reached only.** -/
theorem crossesReachable_crossAt (room : ℕ) : CrossesReachable heap (crossAt limits heap room) := by
  induction room with
  | zero => exact crossesReachable_crossStep nofun
  | succ room ih =>
      apply crossesReachable_crossStep
      rintro g ⟨⟩
      exact ih

theorem mem_crossAttr (depth : ℕ) (a : AttrValue (GoValue ι α)) {seen : List ι} {id : ι}
    (hid : id ∈ crossAttr limits heap depth a seen) : id ∈ seen ∨ AttrReaches heap a id := by
  match a with
  | .str t =>
      rw [crossAttr] at hid
      exact .inl hid
  | .any v =>
      rw [crossAttr] at hid
      exact (crossesReachable_crossAt _ v seen id hid).imp_right .any
  | .group attrs =>
      rw [crossAttr] at hid
      split at hid
      · exact .inl hid
      · rw [crossGroup_eq_map, visited_extend_map, List.foldl_map] at hid
        refine mem_foldl_cross (fun x hx seen' id' hid' => ?_) hid
        rcases exists_of_mem_visited hx with ⟨e, he, rfl⟩
        have hmem : e ∈ attrs := (SortedMap.mem_of_mem_extend he).resolve_left List.not_mem_nil
        exact (mem_crossAttr (depth + 1) e.2 hid').imp_right (.group hmem)
termination_by sizeOf a
decreasing_by exact AttrValue.sizeOf_lt_group hmem

/-! ## Frames -/

variable {S : ι → Prop}

omit [GoScalars α] [DecidableEq ι] [Fintype ι] in
theorem framed_hardenMap {m : SortedMap String (StateM (List ι) (Json α))}
    (h : ∀ e ∈ m.entries, Framed S e.2) : Framed S (hardenMap limits m) := by
  refine Framed.bind (framed_foldlM ?_ _) fun state => framed_pure state.out
  intro e he state s s' hagree
  rw [run_hardenMapKey, run_hardenMapKey]
  rcases h e he s s' hagree with ⟨hvalue, hstate⟩
  split
  · rw [hvalue]
    exact ⟨rfl, hstate⟩
  · exact ⟨rfl, hagree⟩

omit [DecidableEq ι] [Fintype ι] in
theorem framed_hardenFields {harden : GoValue ι α → StateM (List ι) (Json α)}
    {out : SortedMap String (Json α)} {fields : List (StructField × GoValue ι α)}
    (h : ∀ d ∈ fields, Framed S (harden d.2)) :
    Framed S (hardenFields limits harden out fields) := by
  induction fields generalizing out with
  | nil => exact framed_pure out
  | cons d fields ih =>
      rcases d with ⟨field, v⟩
      rw [List.forall_mem_cons] at h
      rw [hardenFields]
      cases fieldKey field with
      | none => exact ih h.2
      | some name =>
          simp only
          split
          · exact framed_pure out
          · exact h.1.bind fun value => ih h.2

/-- The hardening of what can be reached is framed. -/
def DeeperFramed (heap : Heap ι α) (S : ι → Prop)
    (deeper : Option (GoValue ι α → StateM (List ι) (Json α))) : Prop :=
  ∀ f, deeper = some f → ∀ v, (∀ id, Reaches heap v id → S id) → Framed S (f v)

variable {deeper : Option (GoValue ι α → StateM (List ι) (Json α))}

omit [DecidableEq ι] [Fintype ι] in
theorem framed_hardenContent (hdeeper : DeeperFramed heap S deeper)
    (hreach : ∀ id, Reaches heap v id → S id) : Framed S (hardenContent limits heap deeper v) := by
  rw [hardenContent]
  cases hardenAsText limits v with
  | some text => exact framed_pure text
  | none =>
      simp only
      rw [hardenKind.eq_def]
      cases hardenScalar limits heap v with
      | some scalar => exact framed_pure scalar
      | none =>
          cases hd : deeper with
          | none => exact framed_pure redacted
          | some f =>
              have hf := hdeeper f hd
              cases v with
              | map self? id =>
                  cases hid : heap.mapAt id with
                  | others len => simpa only [hid] using framed_pure redacted
                  | strings m =>
                      simp only [hid]
                      refine Framed.bind (framed_hardenMap fun e he => ?_) fun m =>
                        framed_pure (toJson m)
                      rcases List.mem_map.mp he with ⟨d, hmem, rfl⟩
                      exact hf d.2 fun id' hid' => hreach id' (.entry hid hmem hid')
              | slice self? id len =>
                  cases hid : heap.sliceAt id with
                  | bytes text => simpa only [hid] using framed_pure redacted
                  | elements element =>
                      simp only [hid]
                      refine Framed.bind (framed_mapM fun x hx => ?_) fun items =>
                        framed_pure (jsonList items)
                      exact hf x fun id' hid' => hreach id' (.element hid hx hid')
              | array items =>
                  refine Framed.bind (framed_mapM fun x hx => ?_) fun items =>
                    framed_pure (jsonList items)
                  exact hf x fun id' hid' => hreach id' (.item hx hid')
              | struct fields =>
                  refine Framed.bind (framed_hardenFields fun d hmem => ?_) fun m =>
                    framed_pure (toJson m)
                  exact hf d.2 fun id' hid' => hreach id' (.field hmem hid')
              | null | scalar | str | self | shapeless | pointer => exact framed_pure redacted

omit [Fintype ι] in
theorem framed_hardenReached (hdeeper : DeeperFramed heap S deeper)
    (hreach : ∀ id, Reaches heap v id → S id) : Framed S (hardenReached limits heap deeper v) := by
  have hcontent : Framed S (hardenContent limits heap deeper v) :=
    framed_hardenContent hdeeper hreach
  intro s s' hagree
  rw [run_hardenReached, run_hardenReached]
  cases hidentity : containerIdentity heap v with
  | none => exact hcontent s s' hagree
  | some id =>
      have hsame := hagree id (hreach id (reaches_containerIdentity hidentity))
      by_cases hmem : id ∈ s
      · simp only [if_pos hmem, if_pos (hsame.mp hmem)]
        exact ⟨trivial, hagree⟩
      · simp only [if_neg hmem, if_neg fun h => hmem (hsame.mpr h)]
        exact hcontent _ _ (hagree.cons id)

variable (limits) in
theorem followReferences_agree (seen : List ι) (v : GoValue ι α)
    (hreach : ∀ id, Reaches heap v id → S id) {s' : List ι} (hagree : Agree S seen s') :
    (followReferences limits heap seen v).1 = (followReferences limits heap s' v).1 ∧
      Agree S (followReferences limits heap seen v).2 (followReferences limits heap s' v).2 := by
  fun_induction followReferences limits heap seen v generalizing s' with
  | case1 seen =>
      rw [followReferences_null]
      exact ⟨rfl, hagree⟩
  | case2 seen self? id h =>
      rw [followReferences_pointer, if_pos ((hagree id (hreach id (.pointer self? id))).mp h)]
      exact ⟨rfl, hagree⟩
  | case3 seen id hnew r =>
      rw [followReferences_pointer,
        if_neg fun h => hnew ((hagree id (hreach id (.pointer (some r) id))).mpr h)]
      exact ⟨rfl, hagree.cons id⟩
  | case4 seen id hnew ih =>
      rw [followReferences_pointer,
        if_neg fun h => hnew ((hagree id (hreach id (.pointer none id))).mpr h)]
      exact ih (fun id' hid' => hreach id' (.pointee hid')) (hagree.cons id)
  | case5 seen v hnull hpointer =>
      rw [followReferences]
      · exact ⟨rfl, hagree⟩
      · exact hnull
      · exact hpointer

theorem framed_hardenStep (hdeeper : DeeperFramed heap S deeper)
    (hreach : ∀ id, Reaches heap v id → S id) : Framed S (hardenStep limits heap deeper v) := by
  intro s s' hagree
  rcases followReferences_agree limits s v hreach hagree with ⟨hend, hstate⟩
  have hends := reaches_of_followReferences limits heap s v
  rw [run_hardenStep, run_hardenStep]
  rcases hs : followReferences limits heap s v with ⟨early | w, seen⟩
  · rcases hs' : followReferences limits heap s' v with ⟨early' | w', seen'⟩
    · rw [hs, hs'] at hend hstate
      cases hend
      exact ⟨rfl, hstate⟩
    · rw [hs, hs'] at hend
      cases hend
  · rcases hs' : followReferences limits heap s' v with ⟨early' | w', seen'⟩
    · rw [hs, hs'] at hend
      cases hend
    · rw [hs, hs'] at hend hstate
      cases hend
      rw [hs] at hends
      exact framed_hardenReached hdeeper (fun id hid => hreach id (hends.2 w rfl id hid)) seen seen'
        hstate

/-- **A walk asks about no reference but those that can be reached.** -/
theorem framed_hardenAt (room : ℕ) (v : GoValue ι α) (hreach : ∀ id, Reaches heap v id → S id) :
    Framed S (hardenAt limits heap room v) := by
  induction room generalizing v with
  | zero => exact framed_hardenStep nofun hreach
  | succ room ih =>
      refine framed_hardenStep ?_ hreach
      rintro f ⟨⟩
      exact ih

/-- **Hardening an attribute asks about no reference but those that can be reached.** -/
theorem framed_hardenValue (depth : ℕ) (a : AttrValue (GoValue ι α))
    (hreach : ∀ id, AttrReaches heap a id → S id) :
    Framed S (hardenValue (reflectionOf heap) limits depth a) := by
  match a with
  | .str t =>
      rw [hardenValue]
      exact framed_pure _
  | .any v =>
      rw [hardenValue]
      exact framed_hardenAt _ v fun id hid => hreach id (.any hid)
  | .group attrs =>
      rw [hardenValue]
      split
      · exact framed_pure _
      · refine Framed.bind (framed_hardenMap fun e he => ?_) fun m => framed_pure (toJson m)
        rw [hardenGroup_eq_map] at he
        have he' := (SortedMap.mem_of_mem_extend he).resolve_left List.not_mem_nil
        rcases List.mem_map.mp he' with ⟨d, hd, rfl⟩
        exact framed_hardenValue (depth + 1) d.2 fun id hid => hreach id (.group hd hid)
termination_by sizeOf a
decreasing_by exact AttrValue.sizeOf_lt_group hd

end Telemetry.Hardening.Go
