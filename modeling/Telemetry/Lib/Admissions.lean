import Telemetry.Lib.Dict
import Mathlib.Algebra.Order.Ring.Rat
import Mathlib.Tactic.Linarith

/-!
# Admitting few values at a time

A guard stores the values that it admits, each with a stamp of the time, and admits a new one only
while it stores fewer than its capacity. A value whose stamp is older than a time to live may go;
when it goes is up to the guard. A value that is stored is admitted again, and some guards renew
its stamp then.

How many different values are admitted within less than the time to live? A guard that renews the
stamps keeps all of them to the end, and so they are no more than it may store. One that does not
may lose those that it stored before, and accept as many others. Nothing is asked of the order in
which the times are read.

## Main definitions

* `Rule`, `Event`, `Step`, `Run` — what a guard does to its table.
* `Guard`, `Guard.Lawful` — a system with a table for each of several keys.
* `Limiter`, `Limiter.Sound` — a guard whose limits can be registered and cleared.

## Main results

* `Guard.card_passed_le` — **a guard that renews** lets no more values pass than it may store.
* `Guard.card_passed_le_add` — any other, no more than it stored and may store together.
-/

namespace Telemetry.Lib.Admission

variable {κ α σ ω : Type} [DecidableEq κ] [DecidableEq α]

/-- A limit, and whether a stamp is renewed. -/
structure Rule where
  capacity : ℕ
  ttl : ℚ
  renews : Bool

/-- What a guard does to its table. -/
inductive Event (α : Type)
  /-- Values that have expired by now may go. -/
  | sweep (now : ℚ)
  | accept (v : α) (now : ℚ)
  | refuse

/-- The time of an event. -/
def Event.time : Event α → Option ℚ
  | .sweep now | .accept _ now => some now
  | .refuse => none

/-- The values that the events accept. -/
def admitted : List (Event α) → List α
  | [] => []
  | .accept v _ :: es => v :: admitted es
  | .sweep _ :: es | .refuse :: es => admitted es

/-- What an event may do to the table. -/
inductive Step (r : Rule) : Dict α ℚ → Event α → Dict α ℚ → Prop
  | sweep {d d' : Dict α ℚ} {now : ℚ} (hkept : ∀ v t, d'.get? v = some t → d.get? v = some t)
      (hgone : ∀ v t, d.get? v = some t → d'.get? v = none → t + r.ttl ≤ now) :
      Step r d (.sweep now) d'
  | again {d : Dict α ℚ} {v : α} {now : ℚ} (h : (d.get? v).isSome = true) :
      Step r d (.accept v now) (if r.renews then d.set v now else d)
  | first {d : Dict α ℚ} {v : α} {now : ℚ} (hnew : d.get? v = none)
      (hroom : d.entries.length < r.capacity) : Step r d (.accept v now) (d.set v now)
  | refuse (d : Dict α ℚ) : Step r d .refuse d

/-- Events one after the other. -/
inductive Run (r : Rule) : Dict α ℚ → List (Event α) → Dict α ℚ → Prop
  | nil (d : Dict α ℚ) : Run r d [] d
  | cons {d d' d'' : Dict α ℚ} {e : Event α} {es : List (Event α)} (h : Step r d e d')
      (hs : Run r d' es d'') : Run r d (e :: es) d''

/-- The events happen at times of a window. -/
def Within (a b : ℚ) (es : List (Event α)) : Prop := ∀ e ∈ es, ∀ t ∈ e.time, a ≤ t ∧ t < b

/-- The value is stored with a stamp of the window. -/
def Held (a : ℚ) (d : Dict α ℚ) (v : α) : Prop := ∃ t, d.get? v = some t ∧ a ≤ t

variable {r : Rule} {d d' : Dict α ℚ} {e : Event α} {es es' : List (Event α)} {a : ℚ} {v : α}

theorem Run.single (h : Step r d e d') : Run r d [e] d' := .cons h (.nil d')

theorem Run.append {d'' : Dict α ℚ} (h : Run r d es d') (h' : Run r d' es' d'') :
    Run r d (es ++ es') d'' := by
  induction h with
  | nil _ => exact h'
  | cons hstep _ ih => exact .cons hstep (ih h')

omit [DecidableEq α] in
theorem admitted_append : admitted (es ++ es') = admitted es ++ admitted es' := by
  induction es with
  | nil => rfl
  | cons e es ih => cases e <;> simp [admitted, ih]

omit [DecidableEq α] in
theorem within_append {b : ℚ} : Within a b (es ++ es') ↔ Within a b es ∧ Within a b es' := by
  simp only [Within, List.forall_mem_append]

/-! ## One event -/

/-- Nothing with a stamp of the window goes in the window. -/
theorem Step.held (h : Step r d e d') (hin : ∀ t ∈ e.time, a ≤ t ∧ t < a + r.ttl)
    (hv : Held a d v) : Held a d' v := by
  obtain ⟨t, ht, hat⟩ := hv
  cases h with
  | sweep hkept hgone =>
      rename_i now
      cases hget : d'.get? v with
      | none =>
          have hold := hgone v t ht hget
          have hnow := (hin now rfl).2
          linarith
      | some t' =>
          have hsame := hkept v t' hget
          rw [ht] at hsame
          exact ⟨t', hget, (Option.some.inj hsame) ▸ hat⟩
  | again hw =>
      rename_i w now
      have hset : Held a (d.set w now) v := by
        by_cases hvw : v = w
        · exact ⟨now, by simp [hvw], (hin now rfl).1⟩
        · exact ⟨t, by simp [hvw, ht], hat⟩
      split_ifs
      · exact hset
      · exact ⟨t, ht, hat⟩
  | first hnew hroom =>
      rename_i w now
      by_cases hvw : v = w
      · exact ⟨now, by simp [hvw], (hin now rfl).1⟩
      · exact ⟨t, by simp [hvw, ht], hat⟩
  | refuse => exact ⟨t, ht, hat⟩

/-- A stamp from before the window was there before the event. -/
theorem Step.old (h : Step r d e d') (hin : ∀ t ∈ e.time, a ≤ t ∧ t < a + r.ttl) {t : ℚ}
    (ht : d'.get? v = some t) (hta : t < a) : d.get? v = some t := by
  have hset : ∀ w now, now ∈ e.time → (d.set w now).get? v = some t → d.get? v = some t := by
    intro w now hnow hget
    rw [Dict.get?_set] at hget
    split_ifs at hget with hvw
    · obtain rfl := Option.some.inj hget
      exact absurd hta (not_lt.mpr (hin now hnow).1)
    · exact hget
  cases h with
  | sweep hkept _ => exact hkept v t ht
  | again hw =>
      rename_i w now
      split_ifs at ht
      · exact hset w now rfl ht
      · exact ht
  | first hnew hroom => exact hset _ _ rfl ht
  | refuse => exact ht

/-- An admitted value is stored; a guard that renews has given it a stamp of the window. -/
theorem Step.admitted {now : ℚ} (h : Step r d (.accept v now) d') (hnow : a ≤ now) :
    ((d.get? v).isSome = true ∨ Held a d' v) ∧ (r.renews = true → Held a d' v) := by
  have hset : Held a (d.set v now) v := ⟨now, by simp, hnow⟩
  cases h with
  | again hstored =>
      refine ⟨.inl hstored, fun hrenews => ?_⟩
      rw [if_pos hrenews]
      exact hset
  | first _ _ => exact ⟨.inr hset, fun _ => hset⟩

/-- The table does not outgrow its capacity. -/
theorem Step.length_le (h : Step r d e d') :
    d'.entries.length ≤ max d.entries.length r.capacity := by
  have hcard : ∀ d : Dict α ℚ, d.keys.toFinset.card = d.entries.length := fun d => by
    rw [List.toFinset_card_of_nodup d.nodup_keys]
    exact List.length_map _
  cases h with
  | sweep hkept _ =>
      refine le_max_of_le_left ?_
      rw [← hcard, ← hcard]
      refine Finset.card_le_card fun w hw => ?_
      rw [List.mem_toFinset, ← Dict.isSome_get?_iff] at hw ⊢
      obtain ⟨t, ht⟩ := Option.isSome_iff_exists.mp hw
      rw [hkept w t ht]
      rfl
  | again hw =>
      rename_i w now
      refine le_max_of_le_left ?_
      split_ifs
      · rw [← hcard, ← hcard, Dict.keys_set, if_pos (Dict.isSome_get?_iff.mp hw)]
      · exact le_rfl
  | first hnew hroom =>
      refine le_max_of_le_right ?_
      rw [Dict.entries_set_of_notMem (Dict.get?_eq_none_iff.mp hnew), List.length_append]
      exact hroom
  | refuse => exact le_max_left _ _

/-! ## All events of a window -/

theorem Run.length_le (h : Run r d es d') :
    d'.entries.length ≤ max d.entries.length r.capacity := by
  induction h with
  | nil d => exact le_max_left _ _
  | cons hstep _ ih => exact ih.trans (max_le hstep.length_le (le_max_right _ _))

theorem Run.held (h : Run r d es d') (hin : Within a (a + r.ttl) es) (hv : Held a d v) :
    Held a d' v := by
  induction h with
  | nil _ => exact hv
  | cons hstep _ ih =>
      obtain ⟨hfirst, hrest⟩ := List.forall_mem_cons.mp hin
      exact ih hrest (hstep.held hfirst hv)

/-- What was admitted was stored before, or is stored to the end. -/
theorem Run.admitted (h : Run r d es d') (hin : Within a (a + r.ttl) es)
    (hv : v ∈ admitted es) :
    ((d.get? v).isSome = true ∨ Held a d' v) ∧ (r.renews = true → Held a d' v) := by
  induction h with
  | nil _ => cases hv
  | @cons d d₁ d' e es hstep hs ih =>
      obtain ⟨hfirst, hrest⟩ := List.forall_mem_cons.mp hin
      have hlater : v ∈ Admission.admitted es →
          ((d.get? v).isSome = true ∨ Held a d' v) ∧ (r.renews = true → Held a d' v) := by
        intro hmem
        obtain ⟨hstored | hheld, hrenews⟩ := ih hrest hmem
        · obtain ⟨t, ht⟩ := Option.isSome_iff_exists.mp hstored
          by_cases hta : t < a
          · exact ⟨.inl (by rw [hstep.old hfirst ht hta]; rfl), hrenews⟩
          · exact ⟨.inr (hs.held hrest ⟨t, ht, not_lt.mp hta⟩), hrenews⟩
        · exact ⟨.inr hheld, hrenews⟩
      cases e with
      | accept w now =>
          obtain rfl | hmem := List.mem_cons.mp hv
          · obtain ⟨hstored | hheld, hrenews⟩ := hstep.admitted (hfirst now rfl).1
            · exact ⟨.inl hstored, fun h => hs.held hrest (hrenews h)⟩
            · exact ⟨.inr (hs.held hrest hheld), fun h => hs.held hrest (hrenews h)⟩
          · exact hlater hmem
      | sweep now => exact hlater hv
      | refuse => exact hlater hv

theorem card_le_length {vs : List α} (h : ∀ v ∈ vs, (d.get? v).isSome = true) :
    vs.toFinset.card ≤ d.entries.length := by
  have hcard : d.keys.toFinset.card = d.entries.length := by
    rw [List.toFinset_card_of_nodup d.nodup_keys]
    exact List.length_map _
  rw [← hcard]
  refine Finset.card_le_card fun v hv => ?_
  rw [List.mem_toFinset] at hv ⊢
  exact Dict.isSome_get?_iff.mp (h v hv)

theorem Held.isSome (h : Held a d v) : (d.get? v).isSome = true := by
  obtain ⟨t, ht, -⟩ := h
  rw [ht]
  rfl

/-- **A guard that renews** admits no more values in a window than it may store. -/
theorem Run.card_admitted_le (h : Run r d es d') (hin : Within a (a + r.ttl) es)
    (hrenews : r.renews = true) :
    (Admission.admitted es).toFinset.card ≤ max d.entries.length r.capacity :=
  (card_le_length fun _ hv => ((h.admitted hin hv).2 hrenews).isSome).trans h.length_le

/-- **Any guard** admits no more than it stored and may store together. -/
theorem Run.card_admitted_le_add (h : Run r d es d') (hin : Within a (a + r.ttl) es) :
    (Admission.admitted es).toFinset.card ≤
      d.entries.length + max d.entries.length r.capacity := by
  have hsub : (Admission.admitted es).toFinset ⊆
      ((Admission.admitted es).filter fun v => (d.get? v).isSome).toFinset ∪
        ((Admission.admitted es).filter fun v => (d'.get? v).isSome).toFinset := by
    intro v hv
    rw [List.mem_toFinset] at hv
    simp only [Finset.mem_union, List.mem_toFinset, List.mem_filter]
    obtain hstored | hheld := (h.admitted hin hv).1
    · exact .inl ⟨hv, hstored⟩
    · exact .inr ⟨hv, hheld.isSome⟩
  have hold : ((Admission.admitted es).filter fun v => (d.get? v).isSome).toFinset.card ≤
      d.entries.length := card_le_length fun v hv => (List.mem_filter.mp hv).2
  have hnew : ((Admission.admitted es).filter fun v => (d'.get? v).isSome).toFinset.card ≤
      max d.entries.length r.capacity :=
    (card_le_length fun v hv => (List.mem_filter.mp hv).2).trans h.length_le
  exact (Finset.card_le_card hsub).trans
    ((Finset.card_union_le _ _).trans (Nat.add_le_add hold hnew))

/-! ## A look at a value -/

/-- What a guard makes of a value: the table, and whether it is admitted. -/
def look (r : Rule) (v : α) (now : ℚ) (d : Dict α ℚ) : Dict α ℚ × Bool :=
  if (d.get? v).isSome then (if r.renews then d.set v now else d, true)
  else if r.capacity ≤ d.entries.length then (d, false)
  else (d.set v now, true)

theorem step_look (r : Rule) (v : α) (now : ℚ) (d : Dict α ℚ) :
    ∃ e, Step r d e (look r v now d).1 ∧ (∀ t ∈ e.time, t = now) ∧
      ((look r v now d).2 = true → e = .accept v now) := by
  have htime : ∀ t ∈ (Event.accept v now).time, t = now := fun t ht => (Option.some.inj ht).symm
  rw [look]
  by_cases hstored : (d.get? v).isSome = true
  · rw [if_pos hstored]
    exact ⟨_, .again hstored, htime, fun _ => rfl⟩
  · rw [if_neg hstored]
    split_ifs with hfull
    · refine ⟨_, .refuse d, ?_, ?_⟩
      · intro t ht
        cases ht
      · intro h
        cases h
    · exact ⟨_, .first (Option.not_isSome_iff_eq_none.mp hstored) (not_le.mp hfull), htime,
        fun _ => rfl⟩

/-- A table that is left as it is. -/
theorem Step.unswept (r : Rule) (d : Dict α ℚ) (now : ℚ) : Step r d (.sweep now) d := by
  refine .sweep (fun _ _ h => h) fun v t ht hnone => ?_
  rw [ht] at hnone
  cases hnone

/-- A sweep that keeps the values that pass a test. -/
theorem Step.filter {now : ℚ} {p : α × ℚ → Bool}
    (h : ∀ v t, p (v, t) = false → t + r.ttl ≤ now) : Step r d (.sweep now) (d.filter p) := by
  refine .sweep (fun v t ht => ?_) fun v t ht hnone => h v t ?_
  · rw [Dict.get?_filter, Option.filter_eq_some_iff] at ht
    exact ht.1
  · rw [Dict.get?_filter, ht] at hnone
    simpa using hnone

omit [DecidableEq κ] in
/-- A sweep, and a look behind it whose result is what passes. -/
theorem run_look {d₁ : Dict α ℚ} {now later b : ℚ} {k : κ} {overflow : α} {out : κ × α}
    (h : Step r d (.sweep now) d₁) (hnow : a ≤ now ∧ now < b) (hlater : a ≤ later ∧ later < b)
    (hd' : d' = (look r v later d₁).1)
    (hout : out.2 = if (look r v later d₁).2 then v else overflow) :
    ∃ es, Run r d es d' ∧ Within a b es ∧
      ∀ w, (k, w) ∈ [out] → w ≠ overflow → w ∈ admitted es := by
  obtain ⟨e, he, htime, haccept⟩ := step_look r v later d₁
  refine ⟨[.sweep now, e], ?_, ?_, ?_⟩
  · rw [hd']
    exact .cons h (.single he)
  · rw [Within, List.forall_mem_cons, List.forall_mem_singleton]
    refine ⟨fun t ht => ?_, fun t ht => ?_⟩
    · obtain rfl := Option.some.inj ht
      exact hnow
    · rw [htime t ht]
      exact hlater
  · rintro w hw hne
    obtain rfl := List.mem_singleton.mp hw
    simp only at hout
    split_ifs at hout with hadmitted
    · rw [haccept hadmitted, hout]
      exact List.mem_singleton_self v
    · exact absurd hout hne

omit [DecidableEq κ] in
/-- Nothing happens, and nothing passes under the key. -/
theorem run_nothing {b : ℚ} {k : κ} {overflow : α} {out : List (κ × α)} (hd' : d' = d)
    (hout : ∀ w, (k, w) ∉ out) :
    ∃ es, Run r d es d' ∧ Within a b es ∧
      ∀ w, (k, w) ∈ out → w ≠ overflow → w ∈ admitted es := by
  refine ⟨[], ?_, by simp [Within], fun w hw => absurd hw (hout w)⟩
  rw [hd']
  exact .nil d

/-! ## Tables under keys -/

/-- A system with a table for each key that has a rule. -/
structure Guard (σ ω κ α : Type) where
  step : ω → σ → σ
  /-- What an operation lets pass, under which keys. -/
  output : ω → σ → List (κ × α)
  rule : σ → κ → Option Rule
  table : σ → κ → Dict α ℚ

namespace Guard

variable (G : Guard σ ω κ α)

/-- Operations one after the other. -/
def run (ops : List ω) (s : σ) : σ := ops.foldl (fun s o => G.step o s) s

/-- What they let pass under a key, without the value that stands for one that was refused. -/
def passed (k : κ) (overflow : α) : List ω → σ → List α
  | [], _ => []
  | o :: ops, s =>
      ((G.output o s).filter fun p => p.1 = k ∧ p.2 ≠ overflow).map Prod.snd ++
        passed k overflow ops (G.step o s)

variable {G} {overflow : α} {k : κ} {ops : List ω} {s : σ}

theorem passed_append {ops' : List ω} :
    G.passed k overflow (ops ++ ops') s =
      G.passed k overflow ops s ++ G.passed k overflow ops' (G.run ops s) := by
  induction ops generalizing s with
  | nil => rfl
  | cons o ops ih =>
      rw [List.cons_append, passed, passed, ih, List.append_assoc]
      rfl

variable (G)

/-- What operations of a kind do to the table of a key is what its rule allows, at times of a
window. -/
structure Lawful (Inv : σ → Prop) (Ok : ω → Prop) (k : κ) (overflow : α) (a b : ℚ) : Prop where
  inv_step : ∀ o s, Ok o → Inv s → Inv (G.step o s)
  step : ∀ o s r, Ok o → Inv s → G.rule s k = some r → G.rule (G.step o s) k = some r ∧
    ∃ es, Run r (G.table s k) es (G.table (G.step o s) k) ∧ Within a b es ∧
      ∀ v, (k, v) ∈ G.output o s → v ≠ overflow → v ∈ admitted es

variable {G} {Inv : σ → Prop} {Ok : ω → Prop} {b : ℚ}

/-- The operations of a window, seen from one key. -/
theorem Lawful.run (hG : G.Lawful Inv Ok k overflow a b) (hs : Inv s) (hr : G.rule s k = some r)
    (hops : ∀ o ∈ ops, Ok o) :
    ∃ es, Run r (G.table s k) es (G.table (G.run ops s) k) ∧ Within a b es ∧
      ∀ v ∈ G.passed k overflow ops s, v ∈ admitted es := by
  induction ops generalizing s with
  | nil => exact ⟨[], .nil _, by simp [Within], by simp [passed]⟩
  | cons o ops ih =>
      obtain ⟨hok, hrest⟩ := List.forall_mem_cons.mp hops
      obtain ⟨hr', es, hes, hin, hout⟩ := hG.step o s r hok hs hr
      obtain ⟨es', hes', hin', hpassed⟩ := ih (hG.inv_step o s hok hs) hr' hrest
      refine ⟨es ++ es', hes.append hes', within_append.mpr ⟨hin, hin'⟩, ?_⟩
      intro v hv
      rw [admitted_append, List.mem_append]
      obtain hnow | hlater := List.mem_append.mp hv
      · obtain ⟨⟨k', w⟩, hw, rfl⟩ := List.mem_map.mp hnow
        obtain ⟨hmem, hown⟩ := List.mem_filter.mp hw
        obtain ⟨rfl, hne⟩ := of_decide_eq_true hown
        exact .inl (hout w hmem hne)
      · exact .inr (hpassed v hlater)

/-- **A guard that renews lets few values pass**: in less than its time to live, no more than it may
store. -/
theorem Lawful.card_passed_le (hG : G.Lawful Inv Ok k overflow a (a + r.ttl)) (hs : Inv s)
    (hr : G.rule s k = some r) (hrenews : r.renews = true) (hops : ∀ o ∈ ops, Ok o) :
    (G.passed k overflow ops s).toFinset.card ≤
      max (G.table s k).entries.length r.capacity := by
  obtain ⟨es, hes, hin, hpassed⟩ := hG.run hs hr hops
  refine le_trans (Finset.card_le_card fun v hv => ?_) (hes.card_admitted_le hin hrenews)
  rw [List.mem_toFinset] at hv ⊢
  exact hpassed v hv

/-- **Any other** lets no more pass than it stored and may store together. -/
theorem Lawful.card_passed_le_add (hG : G.Lawful Inv Ok k overflow a (a + r.ttl)) (hs : Inv s)
    (hr : G.rule s k = some r) (hops : ∀ o ∈ ops, Ok o) :
    (G.passed k overflow ops s).toFinset.card ≤
      (G.table s k).entries.length + max (G.table s k).entries.length r.capacity := by
  obtain ⟨es, hes, hin, hpassed⟩ := hG.run hs hr hops
  refine le_trans (Finset.card_le_card fun v hv => ?_) (hes.card_admitted_le_add hin)
  rw [List.mem_toFinset] at hv ⊢
  exact hpassed v hv

end Guard

/-! ## Limiters -/

/-- What is done to a limiter. -/
inductive Op (κ α lim τ : Type)
  | register (k : κ) (l : lim)
  | clear
  /-- A value is seen, at the times that are read. -/
  | use (k : κ) (v : α) (t : τ)

/-- Limits that can be registered under keys, and values that are held to them. -/
structure Limiter (σ lim τ κ α : Type) where
  limit : σ → κ → Option lim
  rule : lim → Rule
  table : σ → κ → Dict α ℚ
  register : κ → lim → σ → σ
  clear : σ → σ
  use : κ → α → τ → σ → σ × α
  /-- When it is looked for what has expired. -/
  now : τ → ℚ
  /-- The stamp of the value. -/
  later : τ → ℚ

namespace Limiter

variable {lim τ : Type} (L : Limiter σ lim τ κ α)

/-- A limiter as a guard. -/
def guard : Guard σ (Op κ α lim τ) κ α where
  step
    | .register k l => L.register k l
    | .clear => L.clear
    | .use k v t => fun s => (L.use k v t s).1
  output
    | .use k v t => fun s => [(k, (L.use k v t s).2)]
    | _ => fun _ => []
  rule s k := (L.limit s k).map L.rule
  table := L.table

/-- The operation leaves a key's limit alone, and reads times of a window. -/
def Spares (k : κ) (a b : ℚ) : Op κ α lim τ → Prop
  | .register k' _ => k' ≠ k
  | .clear => False
  | .use _ _ t => (a ≤ L.now t ∧ L.now t < b) ∧ a ≤ L.later t ∧ L.later t < b

instance (k : κ) (a b : ℚ) : DecidablePred (L.Spares k a b)
  | .register _ _ => inferInstanceAs (Decidable (_ ≠ _))
  | .clear => isFalse id
  | .use _ _ _ => inferInstanceAs (Decidable ((_ ∧ _) ∧ _ ∧ _))

/-- A value under a limit is looked at behind a sweep; everything else stays. -/
structure Sound (Inv : σ → Prop) (overflow : α) : Prop where
  inv_register : ∀ k l s, Inv s → Inv (L.register k l s)
  inv_use : ∀ k v t s, Inv s → Inv (L.use k v t s).1
  limit_register : ∀ k k' l s, k' ≠ k → L.limit (L.register k l s) k' = L.limit s k'
  table_register : ∀ k k' l s, k' ≠ k → L.table (L.register k l s) k' = L.table s k'
  use_none : ∀ k v t s, L.limit s k = none → L.use k v t s = (s, v)
  limit_use : ∀ k v t s k', Inv s → L.limit (L.use k v t s).1 k' = L.limit s k'
  table_use : ∀ k v t s k', Inv s → k' ≠ k → L.table (L.use k v t s).1 k' = L.table s k'
  use_some : ∀ k v t s l, Inv s → L.limit s k = some l →
    ∃ d, Step (L.rule l) (L.table s k) (.sweep (L.now t)) d ∧
      L.table (L.use k v t s).1 k = (look (L.rule l) v (L.later t) d).1 ∧
      (L.use k v t s).2 = if (look (L.rule l) v (L.later t) d).2 then v else overflow

variable {L} {Inv : σ → Prop} {overflow : α}

theorem Sound.lawful (hL : L.Sound Inv overflow) (k : κ) (a b : ℚ) :
    L.guard.Lawful Inv (L.Spares k a b) k overflow a b where
  inv_step o s hok hs := by
    cases o with
    | register k' l => exact hL.inv_register k' l s hs
    | clear => exact hok.elim
    | use k' v t => exact hL.inv_use k' v t s hs
  step o s r hok hs hr := by
    cases o with
    | register k' l =>
        refine ⟨?_, run_nothing (hL.table_register k' k l s (Ne.symm hok)) (by simp [guard])⟩
        simpa only [guard, hL.limit_register k' k l s (Ne.symm hok)] using hr
    | clear => exact hok.elim
    | use k' v t =>
        refine ⟨by simpa only [guard, hL.limit_use k' v t s k hs] using hr, ?_⟩
        by_cases hk : k = k'
        · subst hk
          simp only [guard, Option.map_eq_some_iff] at hr
          obtain ⟨l, hl, rfl⟩ := hr
          obtain ⟨d, hd, htable, hout⟩ := hL.use_some k v t s l hs hl
          exact run_look hd hok.1 hok.2 htable hout
        · exact run_nothing (hL.table_use k' v t s k hs hk) (by simp [guard, hk])

end Limiter
end Telemetry.Lib.Admission
