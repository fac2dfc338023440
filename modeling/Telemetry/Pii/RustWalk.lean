import Telemetry.Lib.Rewrite
import Telemetry.Pii.Rust

/-!
# What the Rust walk computes

The value that `apply_rules` leaves, without its log: a node is rewritten child by child,
and what becomes of an entry depends on its path, its key and its value only.

## Main definitions

* `ruled` — the walk's value at a path.
* `ruledEntry` — what it leaves of an entry: `none` where it is dropped.
-/

namespace Telemetry.Pii.Rust

open Telemetry.Lib

variable {α : Type} [Scalars α] (E : Env α) (rules : List PIIRule)

/-- What the walk leaves of a value at a path. -/
def ruled (path : List String) (maxDepth : ℕ) (v : Value α) : Value α :=
  (applyRules E rules [] path maxDepth v).val

/-- What replaces an entry that no rule matches, if it is not walked into. -/
def replacement (key : String) (value : Value α) : Option String :=
  if sensitiveKey key then some redacted else (text? value).bind E.redactIfSecret

/-- What the walk leaves of an entry. -/
def ruledEntry (path : List String) (maxDepth : ℕ) (key : String) (value : Value α) :
    Option (Value α) :=
  match findRule rules (path ++ [key]) with
  | some rule => maskValue E value rule.mode rule.truncateTo
  | none =>
      match replacement E key value with
      | some s => some (text s)
      | none => some (ruled E rules (path ++ [key]) maxDepth value)

variable {E rules} {path : List String} {maxDepth : ℕ}

@[simp] theorem applyRules_scalar (position : List (Step String)) (a : α) :
    applyRules E rules position path maxDepth (.scalar a) = pure (.scalar a) := by
  rw [applyRules]

/-- At the depth limit nothing is done. -/
@[simp] theorem applyRules_zero (position : List (Step String)) (v : Value α) :
    applyRules E rules position path 0 v = pure v := by
  cases v <;> simp [applyRules]

theorem val_applyRulesEntry {key : String} {value : Value α} (position : List (Step String))
    (h : ∀ position, (applyRules E rules position (path ++ [key]) maxDepth value).val =
      ruled E rules (path ++ [key]) maxDepth value) :
    (applyRulesEntry E rules position path maxDepth key value).val =
      ruledEntry E rules path maxDepth key value := by
  rw [applyRulesEntry, intercept, ruledEntry]
  cases findRule rules (path ++ [key]) with
  | some rule => rfl
  | none =>
      simp only [← replacement.eq_1]
      cases replacement E key value with
      | some s => rfl
      | none =>
          simp only [Option.map_none, Logged.val_bind, Logged.val_pure]
          rw [h]

theorem val_applyRulesEntries (position : List (Step String)) {entries : Entries α}
    (h : ∀ e ∈ entries, ∀ position,
      (applyRules E rules position (path ++ [e.1]) maxDepth e.2).val =
        ruled E rules (path ++ [e.1]) maxDepth e.2) :
    (applyRulesEntries E rules position path maxDepth entries).val =
      Tree.rewriteEntries (ruledEntry E rules path maxDepth) entries := by
  induction entries with
  | nil => rw [applyRulesEntries]; rfl
  | cons e entries ih =>
      rcases e with ⟨key, value⟩
      have hvalue := val_applyRulesEntry position (h (key, value) List.mem_cons_self)
      have htail := ih fun e he => h e (List.mem_cons_of_mem _ he)
      rw [applyRulesEntries_cons, Tree.rewriteEntries, List.filterMap_cons,
        ← Tree.rewriteEntries, ← htail, ← hvalue]
      simp only [Logged.val_bind, Logged.val_pure]
      cases (applyRulesEntry E rules position path maxDepth key value).val <;> rfl

theorem val_applyRulesItems (position : List (Step String)) {items : List (Value α)}
    (h : ∀ x ∈ items, ∀ position,
      (applyRules E rules position path maxDepth x).val = ruled E rules path maxDepth x)
    (i : ℕ) :
    (applyRulesItems E rules position path maxDepth i items).val =
      items.map (ruled E rules path maxDepth) := by
  induction items generalizing i with
  | nil => rw [applyRulesItems]; rfl
  | cons item items ih =>
      have htail := ih (fun x hx => h x (List.mem_cons_of_mem _ hx)) (i + 1)
      rw [applyRulesItems, List.map_cons, ← htail]
      simp only [Logged.val_bind, Logged.val_pure]
      rw [h item List.mem_cons_self]

/-- Where a value lies is history: the walk does not look at it. -/
theorem val_applyRules (position : List (Step String)) (v : Value α) :
    (applyRules E rules position path maxDepth v).val = ruled E rules path maxDepth v := by
  induction v using Tree.induct generalizing position path maxDepth with
  | scalar a => rw [ruled, applyRules_scalar, applyRules_scalar]
  | list r items ih =>
      by_cases hdepth : maxDepth = 0
      · subst hdepth
        rw [ruled, applyRules_zero, applyRules_zero]
      · have hitems : ∀ x ∈ items, ∀ position,
            (applyRules E rules position (path ++ [wild]) (maxDepth - 1) x).val =
              ruled E rules (path ++ [wild]) (maxDepth - 1) x :=
          fun x hx position => ih x hx position
        simp only [ruled, applyRules, if_neg hdepth, Logged.val_bind, Logged.val_pure,
          val_applyRulesItems _ hitems]
  | dict r entries ih =>
      by_cases hdepth : maxDepth = 0
      · subst hdepth
        rw [ruled, applyRules_zero, applyRules_zero]
      · have hentries : ∀ e ∈ entries, ∀ position,
            (applyRules E rules position (path ++ [e.1]) (maxDepth - 1) e.2).val =
              ruled E rules (path ++ [e.1]) (maxDepth - 1) e.2 :=
          fun e he position => ih e he position
        simp only [ruled, applyRules, if_neg hdepth, Logged.val_bind, Logged.val_pure,
          val_applyRulesEntries _ hentries]

@[simp] theorem ruled_scalar (a : α) :
    ruled E rules path maxDepth (.scalar a) = .scalar a := by
  rw [ruled, applyRules_scalar]
  rfl

@[simp] theorem ruled_zero (v : Value α) : ruled E rules path 0 v = v := by
  rw [ruled, applyRules_zero]
  rfl

theorem ruled_dict (h : 0 < maxDepth) (r : Unit) (entries : Entries α) :
    ruled E rules path maxDepth (.dict r entries) =
      .dict () (Tree.rewriteEntries (ruledEntry E rules path (maxDepth - 1)) entries) := by
  rw [ruled, applyRules, if_neg (Nat.ne_of_gt h), Logged.val_bind,
    val_applyRulesEntries _ fun e _ position => val_applyRules position e.2]
  rfl

theorem ruled_list (h : 0 < maxDepth) (r : Unit) (items : List (Value α)) :
    ruled E rules path maxDepth (.list r items) =
      .list () (items.map (ruled E rules (path ++ [wild]) (maxDepth - 1))) := by
  rw [ruled, applyRules, if_neg (Nat.ne_of_gt h), Logged.val_bind,
    val_applyRulesItems _ fun x _ position => val_applyRules position x]
  rfl

/-- Maps and lists stay what they are. -/
@[simp] theorem isContainer_ruled (v : Value α) :
    (ruled E rules path maxDepth v).isContainer = v.isContainer := by
  cases maxDepth with
  | zero => rw [ruled_zero]
  | succ n =>
      cases v with
      | scalar a => rw [ruled_scalar]
      | list r items => rw [ruled_list (Nat.succ_pos n), Tree.isContainer_list,
          Tree.isContainer_list]
      | dict r entries => rw [ruled_dict (Nat.succ_pos n), Tree.isContainer_dict,
          Tree.isContainer_dict]

/-- What becomes of the entry under a key depends on that entry only. -/
theorem child?_ruled_key (h : 0 < maxDepth) {v : Value α} (hkeys : v.NodupKeys) (key : String) :
    (ruled E rules path maxDepth v).child? (.key key) =
      (v.child? (.key key)).bind (ruledEntry E rules path (maxDepth - 1) key) := by
  cases v with
  | scalar a => simp
  | list r items => rw [ruled_list h]; rfl
  | dict r entries =>
      rw [ruled_dict h, Tree.child?_dict, Tree.child?_dict, Tree.rewriteEntries,
        Tree.lookup_filterMap _ hkeys.keys]

/-- What becomes of an item depends on that item only. -/
theorem child?_ruled_index (h : 0 < maxDepth) (v : Value α) (i : ℕ) :
    (ruled E rules path maxDepth v).child? (.index i) =
      (v.child? (.index i)).map (ruled E rules (path ++ [wild]) (maxDepth - 1)) := by
  cases v with
  | scalar a => simp
  | list r items => rw [ruled_list h, Tree.child?_list, Tree.child?_list, List.getElem?_map]
  | dict r entries => rw [ruled_dict h]; rfl

end Telemetry.Pii.Rust
