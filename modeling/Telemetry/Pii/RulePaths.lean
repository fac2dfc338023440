import Telemetry.Pii.Go
import Telemetry.Pii.Rust

/-!
# Which rule the Go and Rust walks apply to an entry

Both walks give an entry the first rule whose path matches. They build the path differently:
below a list Rust's path has a `"*"` for the list, Go's has nothing. And they lower-case a
key differently, so that one of them may cut an entry off at a key that the other one walks
through.

## Main definitions

* `Walk` — what a walk does at a key and below a list.
* `Walk.selected` — the entries to which a walk applies a rule, each with the rule.
* `selectedAlike` — the trees on which two walks select alike.
* `applied_alike_iff` — **when Go and Rust apply the same rules**.
-/

namespace Telemetry.Pii

open Telemetry.Lib

variable {α ρ : Type}

/-- A position with what is found there. -/
abbrev Found (ρ : Type) := List (Step String) × ρ

/-- The same thing, seen from further up. -/
def under (position : List (Step String)) (x : Found ρ) : Found ρ := (position ++ x.1, x.2)

@[simp] theorem under_nil : (under [] : Found ρ → Found ρ) = id := rfl

theorem map_under_under (p q : List (Step String)) (xs : List (Found ρ)) :
    (xs.map (under q)).map (under p) = xs.map (under (p ++ q)) := by
  rw [List.map_map]
  apply List.map_congr_left
  intro x _
  simp [under]

theorem mem_map_under_singleton {s : Step String} {position : List (Step String)} {rule : ρ}
    {xs : List (Found ρ)} :
    (position, rule) ∈ xs.map (under [s]) ↔ ∃ p, position = s :: p ∧ (p, rule) ∈ xs := by
  rw [List.mem_map]
  constructor
  · rintro ⟨⟨p, r⟩, hmem, heq⟩
    cases heq
    exact ⟨p, rfl, hmem⟩
  · rintro ⟨p, rfl, hmem⟩
    exact ⟨(p, rule), hmem, rfl⟩

/-- What is found below a node agrees exactly if what is found below each child does, when a
step leads to one child. -/
theorem found_alike_iff {ι β : Type} (child : ι → β → Prop) {step : ι → Step String}
    {A B : ι → β → List (Step String) → ρ → Prop} (hstep : Function.Injective step)
    (hchild : ∀ i x y, child i x → child i y → x = y) :
    (∀ position rule,
      (∃ i x p, child i x ∧ position = step i :: p ∧ A i x p rule) ↔
        ∃ i x p, child i x ∧ position = step i :: p ∧ B i x p rule) ↔
      ∀ i x, child i x → ∀ p rule, A i x p rule ↔ B i x p rule := by
  constructor
  · intro halike i x hx p rule
    have hpos := halike (step i :: p) rule
    constructor
    · intro hA
      rcases hpos.mp ⟨i, x, p, hx, rfl, hA⟩ with ⟨j, y, p', hy, hcons, hB⟩
      rcases List.cons.inj hcons with ⟨hij, rfl⟩
      cases hstep hij
      cases hchild i x y hx hy
      exact hB
    · intro hB
      rcases hpos.mpr ⟨i, x, p, hx, rfl, hB⟩ with ⟨j, y, p', hy, hcons, hA⟩
      rcases List.cons.inj hcons with ⟨hij, rfl⟩
      cases hstep hij
      cases hchild i x y hx hy
      exact hA
  · intro halike position rule
    constructor
    · rintro ⟨i, x, p, hx, rfl, hA⟩
      exact ⟨i, x, p, hx, rfl, (halike i x hx p rule).mp hA⟩
    · rintro ⟨i, x, p, hx, rfl, hB⟩
      exact ⟨i, x, p, hx, rfl, (halike i x hx p rule).mpr hB⟩

/-- What a walk does at a key that no rule matches, and below a list. -/
structure Walk where
  /-- The entry is redacted for its key. -/
  blanks : String → Bool
  /-- The path of a list's items. -/
  itemPath : List String → List String

namespace Walk

variable (W : Walk) (find : List String → Option ρ)

mutual
/-- The entries of a value to which the walk applies a rule, each with the rule. -/
def selected (path : List String) : Value α → List (Found ρ)
  | .scalar _ => []
  | .list _ items => selectedItems (W.itemPath path) 0 items
  | .dict _ entries => selectedEntries path entries
/-- On the entries of a map. -/
def selectedEntries (path : List String) : Entries α → List (Found ρ)
  | [] => []
  | (key, value) :: entries =>
      (match find (path ++ [key]) with
        | some rule => [([], rule)]
        | none => if W.blanks key then [] else selected (path ++ [key]) value).map
          (under [.key key]) ++ selectedEntries path entries
/-- On the items of a list, each at the given path. -/
def selectedItems (path : List String) (i : ℕ) : List (Value α) → List (Found ρ)
  | [] => []
  | item :: items =>
      (selected path item).map (under [.index i]) ++ selectedItems path (i + 1) items
end

/-- On one entry at a path. -/
def selectedEntry (path : List String) (key : String) (value : Value α) : List (Found ρ) :=
  match find path with
  | some rule => [([], rule)]
  | none => if W.blanks key then [] else W.selected find path value

variable {W find} in
/-- An entry that is redacted for its key, or for a secret in its string. -/
theorem selectedEntry_of_replaced [Scalars α] {path : List String} {key : String}
    {value : Value α} {scan : String → Option String} {sentinel s : String}
    (hfind : find path = none)
    (h : (if W.blanks key then some sentinel else (text? value).bind scan) = some s) :
    W.selectedEntry find path key value = [] := by
  simp only [selectedEntry, hfind]
  by_cases hblank : W.blanks key = true
  · rw [if_pos hblank]
  · rw [if_neg hblank] at h ⊢
    rcases Option.bind_eq_some_iff.mp h with ⟨t, ht, -⟩
    rw [text?_eq_some.mp ht, text, selected]

variable {W find} in
/-- An entry that is walked into. -/
theorem selectedEntry_of_kept [Scalars α] {path : List String} {key : String}
    {value : Value α} {scan : String → Option String} {sentinel : String}
    (hfind : find path = none)
    (h : (if W.blanks key then some sentinel else (text? value).bind scan) = none) :
    W.selectedEntry find path key value = W.selected find path value := by
  simp only [selectedEntry, hfind]
  by_cases hblank : W.blanks key = true
  · rw [if_pos hblank] at h
    cases h
  · rw [if_neg hblank]

theorem selectedEntries_cons (path : List String) (key : String) (value : Value α)
    (entries : Entries α) :
    W.selectedEntries find path ((key, value) :: entries) =
      (W.selectedEntry find (path ++ [key]) key value).map (under [.key key]) ++
        W.selectedEntries find path entries := by
  rw [selectedEntries]
  rfl

variable {W find}

theorem mem_selectedEntries {path : List String} {entries : Entries α}
    {position : List (Step String)} {rule : ρ} :
    (position, rule) ∈ W.selectedEntries find path entries ↔
      ∃ key value p, (key, value) ∈ entries ∧ position = .key key :: p ∧
        (p, rule) ∈ W.selectedEntry find (path ++ [key]) key value := by
  induction entries with
  | nil => simp [selectedEntries]
  | cons e entries ih =>
      rcases e with ⟨k, v⟩
      rw [selectedEntries_cons, List.mem_append, mem_map_under_singleton, ih]
      constructor
      · rintro (⟨p, rfl, hmem⟩ | ⟨key, value, p, he, rfl, hmem⟩)
        · exact ⟨k, v, p, List.mem_cons_self, rfl, hmem⟩
        · exact ⟨key, value, p, List.mem_cons_of_mem _ he, rfl, hmem⟩
      · rintro ⟨key, value, p, he, rfl, hmem⟩
        rcases List.mem_cons.mp he with heq | he
        · cases heq
          exact .inl ⟨p, rfl, hmem⟩
        · exact .inr ⟨key, value, p, he, rfl, hmem⟩

theorem mem_selectedItems {path : List String} {items : List (Value α)} {n : ℕ}
    {position : List (Step String)} {rule : ρ} :
    (position, rule) ∈ W.selectedItems find path n items ↔
      ∃ i item p, items[i]? = some item ∧ position = .index (n + i) :: p ∧
        (p, rule) ∈ W.selected find path item := by
  induction items generalizing n with
  | nil => simp [selectedItems]
  | cons item items ih =>
      rw [selectedItems, List.mem_append, mem_map_under_singleton, ih]
      constructor
      · rintro (⟨p, rfl, hmem⟩ | ⟨i, item', p, hi, rfl, hmem⟩)
        · exact ⟨0, item, p, rfl, rfl, hmem⟩
        · exact ⟨i + 1, item', p, by simpa using hi, by simp [Nat.add_comm, Nat.add_left_comm],
            hmem⟩
      · rintro ⟨i, item', p, hi, rfl, hmem⟩
        cases i with
        | zero =>
            obtain rfl : item = item' := by simpa using hi
            exact .inl ⟨p, rfl, hmem⟩
        | succ i =>
            exact .inr ⟨i, item', p, by simpa using hi,
              by simp [Nat.add_comm, Nat.add_left_comm], hmem⟩

/-- The root of a value is no entry. -/
theorem nil_notMem_selected {path : List String} {v : Value α} {rule : ρ} :
    ([], rule) ∉ W.selected find path v := by
  cases v with
  | scalar a => simp [selected]
  | list r items =>
      rw [selected, mem_selectedItems]
      rintro ⟨i, item, p, -, hcons, -⟩
      cases hcons
  | dict r entries =>
      rw [selected, mem_selectedEntries]
      rintro ⟨key, value, p, -, hcons, -⟩
      cases hcons

/-- A walk that looks at the rules through a map. -/
theorem selected_map {τ : Type} (f : ρ → τ) (path : List String) (v : Value α) :
    W.selected (fun p => (find p).map f) path v =
      (W.selected find path v).map fun x => (x.1, f x.2) := by
  have hunder : ∀ (position : List (Step String)) (xs : List (Found ρ)),
      (xs.map fun x => (x.1, f x.2)).map (under position) =
        (xs.map (under position)).map fun x => (x.1, f x.2) := by
    intro position xs
    simp [under]
  induction v using Tree.induct generalizing path with
  | scalar a => rfl
  | list r items ih =>
      rw [selected, selected]
      generalize W.itemPath path = itemPath
      have hloop : ∀ i, W.selectedItems (fun p => (find p).map f) itemPath i items =
          (W.selectedItems find itemPath i items).map fun x => (x.1, f x.2) := by
        induction items with
        | nil => exact fun _ => rfl
        | cons item items ihtail =>
            intro i
            rw [selectedItems, selectedItems, ih item List.mem_cons_self,
              ihtail (fun x hx => ih x (List.mem_cons_of_mem _ hx)), List.map_append, hunder]
      exact hloop 0
  | dict r entries ih =>
      rw [selected, selected]
      induction entries with
      | nil => rfl
      | cons e entries ihtail =>
          rcases e with ⟨k, v⟩
          have hentry : W.selectedEntry (fun p => (find p).map f) (path ++ [k]) k v =
              (W.selectedEntry find (path ++ [k]) k v).map fun x => (x.1, f x.2) := by
            rw [selectedEntry, selectedEntry]
            cases find (path ++ [k]) with
            | some rule => rfl
            | none =>
                simp only [Option.map_none]
                split
                · rfl
                · exact ih (k, v) List.mem_cons_self (path ++ [k])
          rw [selectedEntries_cons, selectedEntries_cons, hentry,
            ihtail (fun x hx => ih x (List.mem_cons_of_mem _ hx)), List.map_append, hunder]

/-! ## Walks that find nothing -/

variable (W find)

mutual
/-- No rule matches an entry that the walk comes to. -/
def unmatched (path : List String) : Value α → Bool
  | .scalar _ => true
  | .list _ items => unmatchedItems (W.itemPath path) items
  | .dict _ entries => unmatchedEntries path entries
/-- On the entries of a map. -/
def unmatchedEntries (path : List String) : Entries α → Bool
  | [] => true
  | (key, value) :: entries =>
      (find (path ++ [key])).isNone && (W.blanks key || unmatched (path ++ [key]) value) &&
        unmatchedEntries path entries
/-- On the items of a list. -/
def unmatchedItems (path : List String) : List (Value α) → Bool
  | [] => true
  | item :: items => unmatched path item && unmatchedItems path items
end

theorem unmatchedItems_eq_all (path : List String) (items : List (Value α)) :
    W.unmatchedItems find path items = items.all (W.unmatched find path) := by
  induction items with
  | nil => rfl
  | cons item items ih => rw [unmatchedItems, ih, List.all_cons]

theorem unmatchedEntries_eq_all (path : List String) (entries : Entries α) :
    W.unmatchedEntries find path entries = entries.all fun e =>
      (find (path ++ [e.1])).isNone && (W.blanks e.1 || W.unmatched find (path ++ [e.1]) e.2) := by
  induction entries with
  | nil => rfl
  | cons e entries ih =>
      rcases e with ⟨key, value⟩
      rw [unmatchedEntries, ih, List.all_cons]

theorem selectedItems_eq_nil {path : List String} {items : List (Value α)} {n : ℕ} :
    W.selectedItems find path n items = [] ↔ ∀ x ∈ items, W.selected find path x = [] := by
  induction items generalizing n with
  | nil => simp [selectedItems]
  | cons item items ih =>
      rw [selectedItems, List.append_eq_nil_iff, List.map_eq_nil_iff, ih, List.forall_mem_cons]

theorem selectedEntries_eq_nil {path : List String} {entries : Entries α} :
    W.selectedEntries find path entries = [] ↔
      ∀ e ∈ entries, W.selectedEntry find (path ++ [e.1]) e.1 e.2 = [] := by
  induction entries with
  | nil => simp [selectedEntries]
  | cons e entries ih =>
      rw [selectedEntries_cons, List.append_eq_nil_iff, List.map_eq_nil_iff, ih,
        List.forall_mem_cons]

/-- **`unmatched` is what its name says.** -/
theorem selected_eq_nil {path : List String} {v : Value α} :
    W.selected find path v = [] ↔ W.unmatched find path v = true := by
  induction v using Tree.induct generalizing path with
  | scalar a => simp [selected, unmatched]
  | list r items ih =>
      rw [selected, selectedItems_eq_nil, unmatched, unmatchedItems_eq_all, List.all_eq_true]
      apply forall₂_congr
      intro item hitem
      exact ih item hitem
  | dict r entries ih =>
      rw [selected, selectedEntries_eq_nil, unmatched, unmatchedEntries_eq_all, List.all_eq_true]
      apply forall₂_congr
      intro e he
      rw [selectedEntry]
      cases find (path ++ [e.1]) with
      | some rule => simp
      | none => cases hblank : W.blanks e.1 <;> simp [ih e he]

end Walk

/-! ## Two walks -/

section Alike

variable (G R : Walk) (find : List String → Option ρ)

/-- Below an entry that no rule matches: one walk may be cut off where the other goes on. -/
def belowAlike (key : String) (p q : List String) (value : Value α) (alike : Bool) : Bool :=
  match G.blanks key, R.blanks key with
  | true, true => true
  | true, false => R.unmatched find q value
  | false, true => G.unmatched find p value
  | false, false => alike

mutual
/-- The walks select the same rules in a value, at path `p` for one and `q` for the other. In
a list no rule may match an entry, under either path. -/
def selectedAlike (inList : Bool) (p q : List String) : Value α → Bool
  | .scalar _ => true
  | .list _ items => selectedAlikeItems (G.itemPath p) (R.itemPath q) items
  | .dict _ entries => selectedAlikeEntries inList p q entries
/-- On the entries of a map. -/
def selectedAlikeEntries (inList : Bool) (p q : List String) : Entries α → Bool
  | [] => true
  | (key, value) :: entries =>
      (if inList then
        (find (p ++ [key])).isNone && (find (q ++ [key])).isNone &&
          belowAlike G R find key (p ++ [key]) (q ++ [key]) value
            (selectedAlike inList (p ++ [key]) (q ++ [key]) value)
      else
        (find (q ++ [key])).isSome ||
          belowAlike G R find key (p ++ [key]) (q ++ [key]) value
            (selectedAlike inList (p ++ [key]) (q ++ [key]) value)) &&
        selectedAlikeEntries inList p q entries
/-- On the items of a list. -/
def selectedAlikeItems (p q : List String) : List (Value α) → Bool
  | [] => true
  | item :: items => selectedAlike true p q item && selectedAlikeItems p q items
end

/-- On one entry. -/
def selectedAlikeEntry (inList : Bool) (p q : List String) (key : String) (value : Value α) :
    Bool :=
  if inList then
    (find (p ++ [key])).isNone && (find (q ++ [key])).isNone &&
      belowAlike G R find key (p ++ [key]) (q ++ [key]) value
        (selectedAlike G R find inList (p ++ [key]) (q ++ [key]) value)
  else
    (find (q ++ [key])).isSome ||
      belowAlike G R find key (p ++ [key]) (q ++ [key]) value
        (selectedAlike G R find inList (p ++ [key]) (q ++ [key]) value)

theorem selectedAlikeItems_eq_all (p q : List String) (items : List (Value α)) :
    selectedAlikeItems G R find p q items = items.all (selectedAlike G R find true p q) := by
  induction items with
  | nil => rfl
  | cons item items ih => rw [selectedAlikeItems, ih, List.all_cons]

theorem selectedAlikeEntries_eq_all (inList : Bool) (p q : List String) (entries : Entries α) :
    selectedAlikeEntries G R find inList p q entries =
      entries.all fun e => selectedAlikeEntry G R find inList p q e.1 e.2 := by
  induction entries with
  | nil => rfl
  | cons e entries ih =>
      rcases e with ⟨key, value⟩
      rw [selectedAlikeEntries, ih, List.all_cons]
      rfl

variable {G R find}

/-- A walk that is cut off agrees with one that finds nothing. -/
theorem alike_nil_left {xs : List (Found ρ)} :
    (∀ position rule, (position, rule) ∈ ([] : List (Found ρ)) ↔ (position, rule) ∈ xs) ↔
      xs = [] := by
  rw [List.eq_nil_iff_forall_not_mem]
  simp

theorem alike_nil_right {xs : List (Found ρ)} :
    (∀ position rule, (position, rule) ∈ xs ↔ (position, rule) ∈ ([] : List (Found ρ))) ↔
      xs = [] := by
  rw [List.eq_nil_iff_forall_not_mem]
  simp

/-- Below an entry that no rule matches. -/
theorem selectedEntry_alike_of_none {p q : List String} {key : String} {value : Value α}
    {alike : Bool} (hp : find p = none) (hq : find q = none)
    (ih : (∀ position rule, (position, rule) ∈ G.selected find p value ↔
      (position, rule) ∈ R.selected find q value) ↔ alike = true) :
    (∀ position rule, (position, rule) ∈ G.selectedEntry find p key value ↔
      (position, rule) ∈ R.selectedEntry find q key value) ↔
        belowAlike G R find key p q value alike = true := by
  simp only [Walk.selectedEntry, hp, hq, belowAlike]
  cases G.blanks key <;> cases R.blanks key
  · exact ih
  · simp only [Bool.false_eq_true, if_false, if_true]
    rw [alike_nil_right, Walk.selected_eq_nil]
  · simp only [Bool.false_eq_true, if_false, if_true]
    rw [alike_nil_left, Walk.selected_eq_nil]
  · simp

/-- One entry, outside a list or in one. -/
theorem selectedEntry_alike_iff {inList : Bool} {p q : List String} {key : String}
    {value : Value α}
    (hlength : ∀ p q rule, find p = some rule → find q = some rule → p.length = q.length)
    (hpaths : if inList then p.length < q.length else p = q)
    (ih : (∀ position rule, (position, rule) ∈ G.selected find (p ++ [key]) value ↔
      (position, rule) ∈ R.selected find (q ++ [key]) value) ↔
        selectedAlike G R find inList (p ++ [key]) (q ++ [key]) value = true) :
    (∀ position rule, (position, rule) ∈ G.selectedEntry find (p ++ [key]) key value ↔
      (position, rule) ∈ R.selectedEntry find (q ++ [key]) key value) ↔
        selectedAlikeEntry G R find inList p q key value = true := by
  rw [selectedAlikeEntry]
  cases hp : find (p ++ [key]) with
  | none =>
      cases hq : find (q ++ [key]) with
      | none => cases inList <;> simp [selectedEntry_alike_of_none hp hq ih]
      | some rule =>
          -- Inside a list: only one of the walks has a rule for the entry.
          cases inList with
          | false =>
              obtain rfl : p = q := by simpa using hpaths
              cases hp.symm.trans hq
          | true =>
              simp only [Option.isNone_none, Option.isNone_some, Bool.and_false, Bool.false_and,
                if_true, Bool.false_eq_true, iff_false]
              intro halike
              have hmem := (halike [] rule).mpr (by simp [Walk.selectedEntry, hq])
              rw [Walk.selectedEntry, hp] at hmem
              cases hblank : G.blanks key with
              | true => simp [hblank] at hmem
              | false =>
                  simp only [hblank, Bool.false_eq_true, if_false] at hmem
                  exact Walk.nil_notMem_selected hmem
  | some rule =>
      cases inList with
      | false =>
          obtain rfl : p = q := by simpa using hpaths
          simp [Walk.selectedEntry, hp]
      | true =>
          simp only [Option.isNone_some, Bool.false_and, if_true, Bool.false_eq_true, iff_false]
          intro halike
          have hmem := (halike [] rule).mp (by simp [Walk.selectedEntry, hp])
          rw [Walk.selectedEntry] at hmem
          cases hq : find (q ++ [key]) with
          | some rule' =>
              -- The same rule cannot match two paths of different lengths.
              obtain rfl : rule = rule' := by simpa [hq] using hmem
              have hsame := hlength _ _ _ hp hq
              simp only [if_true] at hpaths
              simp at hsame
              omega
          | none =>
              rw [hq] at hmem
              cases hblank : R.blanks key with
              | true => simp [hblank] at hmem
              | false =>
                  simp only [hblank, Bool.false_eq_true, if_false] at hmem
                  exact Walk.nil_notMem_selected hmem

/-- **Two walks select alike** exactly on the trees of `selectedAlike`, if below a list their
paths have different lengths. -/
theorem selected_alike_iff
    (hlength : ∀ p q rule, find p = some rule → find q = some rule → p.length = q.length)
    (hG : ∀ p, (G.itemPath p).length = p.length)
    (hR : ∀ q, (R.itemPath q).length = q.length + 1)
    {v : Value α} (hkeys : v.NodupKeys) (inList : Bool) (p q : List String)
    (hpaths : if inList then p.length < q.length else p = q) :
    (∀ position rule, (position, rule) ∈ G.selected find p v ↔
      (position, rule) ∈ R.selected find q v) ↔
        selectedAlike G R find inList p q v = true := by
  induction v using Tree.induct generalizing inList p q with
  | scalar a => simp [Walk.selected, selectedAlike]
  | list r items ih =>
      have hitem : ∀ x ∈ items, _ := fun x hx => ih x hx (hkeys.items x hx) true (G.itemPath p)
        (R.itemPath q) (by
          have hp := hG p
          have hq := hR q
          cases inList
          · simp only [Bool.false_eq_true, if_false] at hpaths
            subst hpaths
            simp only [if_true]
            omega
          · simp only [if_true] at hpaths ⊢
            omega)
      simp only [Walk.selected, Walk.mem_selectedItems]
      rw [found_alike_iff (fun i x => items[i]? = some x)
        (A := fun _ x p' rule => (p', rule) ∈ G.selected find (G.itemPath p) x)
        (B := fun _ x p' rule => (p', rule) ∈ R.selected find (R.itemPath q) x)
        (by intro i j hij; simpa using hij) (by intro i x y hx hy; cases hx.symm.trans hy; rfl),
        selectedAlike, selectedAlikeItems_eq_all, List.all_eq_true]
      constructor
      · intro halike x hx
        rcases List.mem_iff_getElem?.mp hx with ⟨i, hi⟩
        exact (hitem x hx).mp (halike i x hi)
      · intro halike i x hi
        have hx := List.mem_of_getElem? hi
        exact (hitem x hx).mpr (halike x hx)
  | dict r entries ih =>
      have hentry : ∀ e ∈ entries, _ := fun e he => selectedEntry_alike_iff (G := G) (R := R)
        hlength hpaths (ih e he (hkeys.entries e he) inList (p ++ [e.1]) (q ++ [e.1])
          (by
            cases inList
            · simp only [Bool.false_eq_true, if_false] at hpaths ⊢
              rw [hpaths]
            · simpa using hpaths))
      have hsame : ∀ key value value', (key, value) ∈ entries → (key, value') ∈ entries →
          value = value' := by
        intro key value value' he he'
        have hlookup := Tree.lookup_of_mem hkeys.keys he
        rw [Tree.lookup_of_mem hkeys.keys he', Option.some.injEq] at hlookup
        exact hlookup.symm
      simp only [Walk.selected, Walk.mem_selectedEntries]
      rw [found_alike_iff (fun key value => (key, value) ∈ entries)
        (A := fun key value p' rule =>
          (p', rule) ∈ G.selectedEntry find (p ++ [key]) key value)
        (B := fun key value p' rule =>
          (p', rule) ∈ R.selectedEntry find (q ++ [key]) key value)
        (by intro k k' hk; simpa using hk) hsame,
        selectedAlike, selectedAlikeEntries_eq_all, List.all_eq_true]
      constructor
      · intro halike e he
        exact (hentry e he).mp (halike e.1 e.2 he)
      · intro halike key value he
        exact (hentry (key, value) he).mpr (halike (key, value) he)

end Alike

end Telemetry.Pii
