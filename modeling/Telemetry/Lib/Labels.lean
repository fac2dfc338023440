import Telemetry.Lib.Tree
import Mathlib.Data.List.Nodup
import Mathlib.Data.Nat.Notation

/-!
# Loops that label the entries of a map

A loop goes over the keys that a map had when it started. Each round rewrites the value
under its own key and may set a value under a second key made from it, the tag; what other
keys hold stays. From what one round leaves under a key follows what the whole loop leaves
there.

In an order that nobody knows, a round finds a value under its key, leaves something of it there,
and may put a label under another key, the tag of its own. If the tag is itself a key of the map,
its value is lost when its round has come before, and its round finds the label when it comes
after.

The labels do no harm if each is what the tag's own round would leave and leaves it as it is. That
is also necessary if every order has to come out well.

## Main definitions

* `Labels` — what a round does, as a description of every lookup after it.
* `lookup_foldl_of_frame` — what the loop leaves under a key that is no tag.
* `Labelling` — what the rounds leave and put.
* `Seen` — a value that a round may find.
* `Harmless` — the labels do no harm.

## Main results

* `foldl_round` — **harmless labels**: each key keeps what its own round leaves.
* `exists_order_label`, `exists_order_own` — a label may come last, and may be what a round finds.
-/

namespace Telemetry.Lib

variable {κ β : Type} [DecidableEq κ]

/-- What a loop leaves under a key that its rounds of other keys do not touch. -/
theorem lookup_foldl_of_frame_of_mem {step : List (κ × β) → κ → List (κ × β)} {k : κ}
    (own : Option β → Option β)
    (hown : ∀ entries, (step entries k).lookup k = own (entries.lookup k)) {js : List κ}
    (hframe : ∀ entries, ∀ j ∈ js, j ≠ k → (step entries j).lookup k = entries.lookup k)
    (hjs : js.Nodup) (entries : List (κ × β)) :
    (js.foldl step entries).lookup k =
      if k ∈ js then own (entries.lookup k) else entries.lookup k := by
  induction js generalizing entries with
  | nil => rfl
  | cons j js ih =>
      rw [List.nodup_cons] at hjs
      rw [List.foldl_cons, ih (fun entries i hi => hframe entries i (List.mem_cons_of_mem j hi))
        hjs.2]
      by_cases hj : j = k
      · subst hj
        rw [if_neg hjs.1, if_pos List.mem_cons_self, hown]
      · rw [hframe entries j List.mem_cons_self hj]
        simp [Ne.symm hj]

/-- What a loop leaves under a key that no round of another key touches. -/
theorem lookup_foldl_of_frame {step : List (κ × β) → κ → List (κ × β)} {k : κ}
    (own : Option β → Option β)
    (hown : ∀ entries, (step entries k).lookup k = own (entries.lookup k))
    (hframe : ∀ entries j, j ≠ k → (step entries j).lookup k = entries.lookup k)
    {js : List κ} (hjs : js.Nodup) (entries : List (κ × β)) :
    (js.foldl step entries).lookup k =
      if k ∈ js then own (entries.lookup k) else entries.lookup k :=
  lookup_foldl_of_frame_of_mem own hown (fun entries j _ => hframe entries j) hjs entries

/-- A round for a key rewrites that key's value by `own` and sets its tag to its label, if it
has one. -/
structure Labels (step : List (κ × β) → κ → List (κ × β)) (tag : κ → κ)
    (own : κ → Option β → Option β) (label : κ → Option β) : Prop where
  tag_ne : ∀ j, tag j ≠ j
  lookup : ∀ entries j k, (step entries j).lookup k =
    if k = j then own j (entries.lookup j)
    else if k = tag j then (label j).or (entries.lookup k)
    else entries.lookup k

namespace Labels

variable {step : List (κ × β) → κ → List (κ × β)} {tag : κ → κ}
  {own : κ → Option β → Option β} {label : κ → Option β} {entries : List (κ × β)} {k : κ}

/-- A round of another key that does not set this one leaves it alone. -/
theorem lookup_of_ne (h : Labels step tag own label) {j : κ} (hj : k ≠ j)
    (hlabel : tag j = k → label j = none) : (step entries j).lookup k = entries.lookup k := by
  rw [h.lookup, if_neg hj]
  by_cases htag : k = tag j
  · rw [if_pos htag, hlabel htag.symm, Option.none_or]
  · rw [if_neg htag]

/-- A key whose rounds change nothing keeps its value through the loop. -/
theorem foldl_kept (h : Labels step tag own label) {js : List κ}
    (hown : k ∈ js → ∀ o, own k o = o) (hlabel : ∀ j ∈ js, tag j = k → label j = none) :
    (js.foldl step entries).lookup k = entries.lookup k := by
  induction js generalizing entries with
  | nil => rfl
  | cons j js ih =>
      have hrest : (js.foldl step (step entries j)).lookup k = (step entries j).lookup k :=
        ih (fun hk => hown (List.mem_cons_of_mem _ hk))
          (fun i hi => hlabel i (List.mem_cons_of_mem _ hi))
      rw [List.foldl_cons, hrest]
      by_cases hj : k = j
      · subst hj
        rw [h.lookup, if_pos rfl, hown List.mem_cons_self]
      · exact h.lookup_of_ne hj (hlabel j List.mem_cons_self)

variable {P : κ → Option β → Prop}

/-- What every round preserves the loop preserves. -/
theorem foldl_preserved (h : Labels step tag own label)
    (hown : ∀ k o, P k o → P k (own k o)) (hlabel : ∀ j b, label j = some b → P (tag j) (some b))
    (hk : P k (entries.lookup k)) (js : List κ) : P k ((js.foldl step entries).lookup k) := by
  induction js generalizing entries with
  | nil => exact hk
  | cons j js ih =>
      rw [List.foldl_cons]
      apply ih
      rw [h.lookup]
      by_cases hj : k = j
      · rw [if_pos hj, ← hj]
        exact hown k _ hk
      · rw [if_neg hj]
        by_cases htag : k = tag j
        · rw [if_pos htag]
          cases hl : label j with
          | none => exact hk
          | some b => rw [htag]; exact hlabel j b hl
        · rw [if_neg htag]
          exact hk

/-- What one round brings about and every round preserves holds after the loop. -/
theorem foldl_reached (h : Labels step tag own label)
    (hown : ∀ k o, P k o → P k (own k o)) (hlabel : ∀ j b, label j = some b → P (tag j) (some b))
    {js : List κ}
    (hreach : (k ∈ js ∧ ∀ o, P k (own k o)) ∨ ∃ j ∈ js, tag j = k ∧ label j ≠ none) :
    P k ((js.foldl step entries).lookup k) := by
  induction js generalizing entries with
  | nil =>
      rcases hreach with ⟨hk, -⟩ | ⟨j, hj, -⟩
      · exact absurd hk List.not_mem_nil
      · exact absurd hj List.not_mem_nil
  | cons j js ih =>
      rw [List.foldl_cons]
      -- either this round brings it about, or one still to come does
      by_cases hnow : (k = j ∧ ∀ o, P k (own k o)) ∨ (tag j = k ∧ label j ≠ none)
      · apply h.foldl_preserved hown hlabel
        rw [h.lookup]
        rcases hnow with ⟨rfl, hall⟩ | ⟨rfl, hsome⟩
        · rw [if_pos rfl]
          exact hall _
        · rw [if_neg (h.tag_ne j), if_pos rfl]
          cases hl : label j with
          | none => exact absurd hl hsome
          | some b => exact hlabel j b hl
      · apply ih
        simp only [not_or, not_and] at hnow
        rcases hreach with ⟨hk, hall⟩ | ⟨i, hi, htag, hsome⟩
        · rcases List.mem_cons.mp hk with rfl | hk
          · exact absurd hall (hnow.1 rfl)
          · exact .inl ⟨hk, hall⟩
        · rcases List.mem_cons.mp hi with rfl | hi
          · exact absurd hsome (hnow.2 htag)
          · exact .inr ⟨i, hi, htag, hsome⟩

/-- A kind of value that rounds only keep and labels never are: what the loop leaves of it was
there before, under a key that no round turned into something else and no label was set on. -/
theorem lookup_of_foldl (h : Labels step tag own label) {Q : β → Prop}
    (hown : ∀ k o b, own k o = some b → Q b → o = some b)
    (hlabel : ∀ j b, label j = some b → ¬ Q b) {js : List κ} {b : β}
    (hb : (js.foldl step entries).lookup k = some b) (hQ : Q b) :
    entries.lookup k = some b ∧ ¬ ((k ∈ js ∧ ∀ o b, own k o = some b → ¬ Q b) ∨
      ∃ j ∈ js, tag j = k ∧ label j ≠ none) := by
  constructor
  · refine h.foldl_preserved (P := fun k o => ∀ b, o = some b → Q b → entries.lookup k = some b)
      ?_ ?_ (fun _ hb _ => hb) js b hb hQ
    · intro k o ho b hb hQ
      exact ho b (hown k o b hb hQ) hQ
    · intro j b hj b' hb' hQ
      cases hb'
      exact absurd hQ (hlabel j b hj)
  · intro hreach
    have hgone : ∀ b, (js.foldl step entries).lookup k = some b → ¬ Q b := by
      apply h.foldl_reached (P := fun _ o => ∀ b, o = some b → ¬ Q b) _ _ hreach
      · intro k o ho b hb hQ
        exact ho b (hown k o b hb hQ) hQ
      · intro j b hj b' hb'
        cases hb'
        exact hlabel j b hj
    exact hgone b hb hQ

end Labels

end Telemetry.Lib

/-! ## In any order -/

namespace Telemetry.Lib

variable {κ β : Type} [DecidableEq κ]

/-- What the rounds of a loop leave under their keys and put under the tags of these. -/
structure Labelling (κ β : Type) where
  own : κ → β → Option β
  put : κ → β → Option β
  tag : κ → κ
  tag_injective : tag.Injective
  /-- A key is not among its tags. -/
  rank : κ → ℕ
  rank_lt : ∀ k, rank k < rank (tag k)

namespace Labelling

variable (L : Labelling κ β)

/-- A round of the loop. -/
def round (m : κ → Option β) (k : κ) : κ → Option β :=
  match m k with
  | none => m
  | some v => fun j =>
      if j = k then L.own k v else if j = L.tag k then (L.put k v).or (m j) else m j

/-- An order of the keys. -/
structure IsOrder (m : κ → Option β) (order : List κ) : Prop where
  nodup : order.Nodup
  mem_iff : ∀ k, k ∈ order ↔ (m k).isSome = true

/-- A value that the round of a key may find there. -/
inductive Seen (m : κ → Option β) : κ → β → Prop
  | own {k : κ} {v : β} (h : m k = some v) : Seen m k v
  | label {k : κ} {v l : β} (hseen : Seen m k v) (hput : L.put k v = some l)
      (htag : (m (L.tag k)).isSome = true) : Seen m (L.tag k) l

/-- A label under a key is what the key's own round would leave, and would leave of the label. -/
def Harmless (m : κ → Option β) (keys : List κ) : Prop :=
  ∀ k v l, L.Seen m k v → L.put k v = some l → L.tag k ∈ keys →
    (m (L.tag k)).bind (L.own (L.tag k)) = some l ∧ L.own (L.tag k) l = some l

variable {L} {m : κ → Option β} {keys : List κ} {k : κ} {v l : β}

omit [DecidableEq κ] in
theorem tag_ne (L : Labelling κ β) (k : κ) : L.tag k ≠ k := fun h =>
  absurd (L.rank_lt k) (by rw [h]; exact Nat.lt_irrefl _)

theorem round_of_none (h : m k = none) : L.round m k = m := by
  rw [round, h]

theorem round_self (h : m k = some v) : L.round m k k = L.own k v := by
  rw [round, h]
  exact if_pos rfl

theorem round_tag (h : m k = some v) (hput : L.put k v = some l) :
    L.round m k (L.tag k) = some l := by
  rw [round, h]
  simp only [if_neg (L.tag_ne k), if_pos, hput, Option.some_or]

theorem round_of_ne {j : κ} (hj : j ≠ k) (htag : j ≠ L.tag k) : L.round m k j = m j := by
  rw [round]
  cases m k with
  | none => rfl
  | some v => simp only [if_neg hj, if_neg htag]

/-- Rounds of other keys and of other keys' tags do nothing. -/
theorem foldl_round_of_ne {order : List κ} {j : κ} (h : ∀ k ∈ order, j ≠ k ∧ j ≠ L.tag k) :
    order.foldl L.round m j = m j := by
  induction order generalizing m with
  | nil => rfl
  | cons k order ih =>
      rw [List.forall_mem_cons] at h
      rw [List.foldl_cons, ih h.2, round_of_ne h.1.1 h.1.2]

/-! ## Harmless labels -/

omit [DecidableEq κ] in
/-- Whatever a round finds, it leaves what it would leave of the key's own value. -/
theorem Harmless.own_eq (h : L.Harmless m keys) (hk : k ∈ keys) (hseen : L.Seen m k v) :
    L.own k v = (m k).bind (L.own k) := by
  cases hseen with
  | own hv => rw [hv, Option.bind_some]
  | label hseen hput htag =>
      rcases h _ _ _ hseen hput hk with ⟨halone, hstays⟩
      rw [hstays, halone]

/-- The rounds that have come leave what they should, and those to come find what they may. -/
structure Midway (L : Labelling κ β) (m : κ → Option β) (keys rest : List κ)
    (now : κ → Option β) : Prop where
  seen : ∀ k ∈ rest, ∃ v, now k = some v ∧ L.Seen m k v
  left : ∀ k ∈ keys, k ∉ rest → now k = (m k).bind (L.own k)

theorem midway_round (h : L.Harmless m keys) {rest : List κ} (hrest : (k :: rest).Nodup)
    (hkeys : ∀ j ∈ k :: rest, j ∈ keys ∧ (m j).isSome = true) {now : κ → Option β}
    (hnow : L.Midway m keys (k :: rest) now) : L.Midway m keys rest (L.round now k) := by
  rw [List.nodup_cons] at hrest
  rw [List.forall_mem_cons] at hkeys
  rcases hnow.seen k List.mem_cons_self with ⟨v, hv, hseen⟩
  have hne : ∀ j ∈ rest, j ≠ k := fun j hj heq => hrest.1 (heq ▸ hj)
  constructor
  case seen =>
    intro j hj
    by_cases htag : j = L.tag k
    · subst htag
      cases hput : L.put k v with
      | some l => exact ⟨l, round_tag hv hput, .label hseen hput (hkeys.2 _ hj).2⟩
      | none =>
          rw [round, hv]
          simp only [if_neg (hne _ hj), if_pos, hput, Option.none_or]
          exact hnow.seen _ (List.mem_cons_of_mem k hj)
    · rw [round_of_ne (hne j hj) htag]
      exact hnow.seen j (List.mem_cons_of_mem k hj)
  case left =>
    intro j hj hnot
    by_cases hself : j = k
    · subst hself
      rw [round_self hv]
      exact h.own_eq hj hseen
    · have hleft := hnow.left j hj fun hmem => (List.mem_cons.mp hmem).elim hself hnot
      by_cases htag : j = L.tag k
      · subst htag
        cases hput : L.put k v with
        | some l => rw [round_tag hv hput, (h k v l hseen hput hj).1]
        | none =>
            rw [round, hv]
            simp only [if_neg hself, if_pos, hput, Option.none_or]
            exact hleft
      · rw [round_of_ne hself htag]
        exact hleft

theorem midway_foldl (h : L.Harmless m keys) {rest : List κ} (hrest : rest.Nodup)
    (hkeys : ∀ j ∈ rest, j ∈ keys ∧ (m j).isSome = true) {now : κ → Option β}
    (hnow : L.Midway m keys rest now) : L.Midway m keys [] (rest.foldl L.round now) := by
  induction rest generalizing now with
  | nil => exact hnow
  | cons k rest ih =>
      rw [List.foldl_cons]
      exact ih (List.nodup_cons.mp hrest).2 (fun j hj => hkeys j (List.mem_cons_of_mem k hj))
        (midway_round h hrest hkeys hnow)

/-- **Harmless labels**: whatever the order, each key keeps what its own round leaves. -/
theorem foldl_round (h : L.Harmless m keys) {order : List κ} (horder : IsOrder m order)
    (hkeys : ∀ k, (m k).isSome = true → k ∈ keys) (hk : k ∈ keys) :
    order.foldl L.round m k = (m k).bind (L.own k) := by
  have hstart : L.Midway m keys order m := by
    constructor
    case seen =>
      intro j hj
      rcases Option.isSome_iff_exists.mp ((horder.mem_iff j).mp hj) with ⟨v, hv⟩
      exact ⟨v, hv, .own hv⟩
    case left =>
      intro j _ hnot
      rw [horder.mem_iff, Option.not_isSome_iff_eq_none] at hnot
      rw [hnot, Option.bind_none]
  have hsome : ∀ j ∈ order, j ∈ keys ∧ (m j).isSome = true := fun j hj =>
    ⟨hkeys j ((horder.mem_iff j).mp hj), (horder.mem_iff j).mp hj⟩
  exact (midway_foldl h horder.nodup hsome hstart).left k hk List.not_mem_nil

/-! ## Orders in which labels do harm -/

omit [DecidableEq κ] in
theorem Seen.isSome (h : L.Seen m k v) : (m k).isSome = true := by
  cases h with
  | own hv => rw [hv, Option.isSome_some]
  | label hseen hput htag => exact htag

/-- What a round may find it finds after some rounds of keys below its own. -/
theorem Seen.exists_before (h : L.Seen m k v) : ∃ before : List κ, before.Nodup ∧
    (∀ j ∈ before, (m j).isSome = true ∧ L.rank j < L.rank k) ∧
      before.foldl L.round m k = some v := by
  induction h with
  | own hv => exact ⟨[], List.nodup_nil, fun j hj => absurd hj List.not_mem_nil, hv⟩
  | @label k v l hseen hput htag ih =>
      rcases ih with ⟨before, hnodup, hbelow, hfound⟩
      refine ⟨before ++ [k], ?_, ?_, ?_⟩
      · rw [List.nodup_append_comm, List.singleton_append, List.nodup_cons]
        exact ⟨fun hmem => absurd (hbelow k hmem).2 (Nat.lt_irrefl _), hnodup⟩
      · intro j hj
        rcases List.mem_append.mp hj with hold | hlast
        · exact ⟨(hbelow j hold).1, Nat.lt_trans (hbelow j hold).2 (L.rank_lt k)⟩
        · rw [List.mem_singleton.mp hlast]
          exact ⟨hseen.isSome, L.rank_lt k⟩
      · rw [List.foldl_append]
        exact round_tag hfound hput

/-- Some first keys can be completed to an order. -/
theorem exists_isOrder_append {first : List κ} (hkeys : IsOrder m keys) (hfirst : first.Nodup)
    (hsome : ∀ j ∈ first, (m j).isSome = true) :
    ∃ rest, IsOrder m (first ++ rest) ∧ ∀ j ∈ rest, j ∉ first := by
  have hrest : ∀ j ∈ keys.filter (· ∉ first), j ∉ first := fun j hj => by
    simpa using (List.mem_filter.mp hj).2
  refine ⟨keys.filter (· ∉ first), ⟨?_, fun j => ?_⟩, hrest⟩
  · exact List.Nodup.append hfirst (hkeys.nodup.filter _) fun j hj hj' => hrest j hj' hj
  · rw [List.mem_append, List.mem_filter, hkeys.mem_iff]
    by_cases hj : j ∈ first
    · simp [hj, hsome j hj]
    · simp [hj]

variable (L) in
/-- The rounds after those of a key and of its tag leave the tag alone. -/
theorem exists_order_of_first {first : List κ} (hkeys : IsOrder m keys) (hfirst : first.Nodup)
    (hsome : ∀ j ∈ first, (m j).isSome = true) (hk : k ∈ first)
    (htag : (m (L.tag k)).isSome = true → L.tag k ∈ first) :
    ∃ order, IsOrder m order ∧
      order.foldl L.round m (L.tag k) = first.foldl L.round m (L.tag k) := by
  rcases exists_isOrder_append hkeys hfirst hsome with ⟨rest, horder, hrest⟩
  refine ⟨first ++ rest, horder, ?_⟩
  rw [List.foldl_append]
  refine foldl_round_of_ne fun j hj => ⟨?_, ?_⟩
  · rintro rfl
    exact hrest _ hj (htag ((horder.mem_iff _).mp (List.mem_append_right first hj)))
  · intro heq
    exact hrest j hj (L.tag_injective heq ▸ hk)

/-- **A label may come last.** -/
theorem exists_order_label (hkeys : IsOrder m keys) (hseen : L.Seen m k v)
    (hput : L.put k v = some l) :
    ∃ order, IsOrder m order ∧ order.foldl L.round m (L.tag k) = some l := by
  rcases hseen.exists_before with ⟨before, hnodup, hbelow, hfound⟩
  -- the tag's round comes before, if it has one
  have hmiddle : ∃ middle : List κ, middle.Nodup ∧
      (∀ j ∈ middle, j = L.tag k ∧ (m j).isSome = true) ∧
        ((m (L.tag k)).isSome = true → L.tag k ∈ middle) := by
    by_cases hsome : (m (L.tag k)).isSome = true
    · exact ⟨[L.tag k], List.nodup_singleton _, by simpa using hsome, fun _ => by simp⟩
    · exact ⟨[], List.nodup_nil, fun j hj => absurd hj List.not_mem_nil, fun h => absurd h hsome⟩
  rcases hmiddle with ⟨middle, hmiddle, htags, htag⟩
  have hk : k ∉ before := fun hmem => absurd (hbelow k hmem).2 (Nat.lt_irrefl _)
  have hfirst : (before ++ (middle ++ [k])).Nodup := by
    refine List.Nodup.append hnodup (List.Nodup.append hmiddle (List.nodup_singleton k) ?_) ?_
    · intro j hj hj'
      rw [List.mem_singleton] at hj'
      exact L.tag_ne k ((htags j hj).1.symm.trans hj')
    · intro j hj hj'
      rcases List.mem_append.mp hj' with hmem | hmem
      · have hlt := (hbelow j hj).2
        rw [(htags j hmem).1] at hlt
        exact absurd (Nat.lt_trans hlt (L.rank_lt k)) (Nat.lt_irrefl _)
      · exact hk (List.mem_singleton.mp hmem ▸ hj)
  have hsome : ∀ j ∈ before ++ (middle ++ [k]), (m j).isSome = true := by
    intro j hj
    rcases List.mem_append.mp hj with hmem | hmem
    · exact (hbelow j hmem).1
    · rcases List.mem_append.mp hmem with hmem | hmem
      · exact (htags j hmem).2
      · rw [List.mem_singleton.mp hmem]
        exact hseen.isSome
  rcases exists_order_of_first L hkeys hfirst hsome (k := k) (by simp)
    (fun h => by simp [htag h]) with ⟨order, horder, hlast⟩
  refine ⟨order, horder, hlast.trans ?_⟩
  have hstill : middle.foldl L.round (before.foldl L.round m) k = some v := by
    rw [foldl_round_of_ne, hfound]
    intro j hj
    rw [(htags j hj).1]
    refine ⟨(L.tag_ne k).symm, fun heq => ?_⟩
    have hlt := Nat.lt_trans (L.rank_lt k) (L.rank_lt (L.tag k))
    rw [← heq] at hlt
    exact absurd hlt (Nat.lt_irrefl _)
  rw [List.foldl_append, List.foldl_append]
  exact round_tag hstill hput

/-- **A label may be what the tag's round finds.** -/
theorem exists_order_own (hkeys : IsOrder m keys) (hseen : L.Seen m k v)
    (hput : L.put k v = some l) (htag : (m (L.tag k)).isSome = true) :
    ∃ order, IsOrder m order ∧ order.foldl L.round m (L.tag k) = L.own (L.tag k) l := by
  rcases hseen.exists_before with ⟨before, hnodup, hbelow, hfound⟩
  have hk : k ∉ before := fun hmem => absurd (hbelow k hmem).2 (Nat.lt_irrefl _)
  have htagged : L.tag k ∉ before := fun hmem =>
    absurd (Nat.lt_trans (hbelow _ hmem).2 (L.rank_lt k)) (Nat.lt_irrefl _)
  have hfirst : (before ++ [k, L.tag k]).Nodup := by
    rw [List.nodup_append_comm]
    simp [hk, htagged, hnodup, (L.tag_ne k).symm]
  have hsome : ∀ j ∈ before ++ [k, L.tag k], (m j).isSome = true := by
    intro j hj
    simp only [List.mem_append, List.mem_cons, List.not_mem_nil, or_false] at hj
    rcases hj with hold | rfl | rfl
    · exact (hbelow j hold).1
    · exact hseen.isSome
    · exact htag
  rcases exists_order_of_first L hkeys hfirst hsome (k := k) (by simp) (fun _ => by simp) with
    ⟨order, horder, hlast⟩
  refine ⟨order, horder, hlast.trans ?_⟩
  rw [List.foldl_append]
  exact round_self (round_tag hfound hput)

end Labelling
end Telemetry.Lib
