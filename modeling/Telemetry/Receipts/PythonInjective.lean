import Telemetry.Receipts.PythonWritten
import Telemetry.Receipts.Tokens

/-!
# The canonical form of the Python SDK is unambiguous

A canonical text is read from its start: its first character tells the kind of the value, a word
or a string ends by itself, a number ends before what comes next, and the parts of a list or a
dict are told apart one after the other. So two values with one text are the same value, up to the
order of dict entries and to numbers that denote equal doubles.

The two zeros have one text, by design.

## Main results

* `splits_canonical` — the texts of two values can be told apart.
* `alike_of_canonicalJson_eq` — **the canonical form is injective**, up to equal numbers.
-/

namespace Telemetry.Receipts.Python

open Telemetry.Lib

/-- A float that is finite. -/
abbrev IsFinite (x : PyFloat) : Prop := x.isFinite = true

/-- A float that is a finite double. -/
abbrev IsDouble (x : PyFloat) : Prop := (Scalar.float x).Finite

/-- The kind of a scalar. -/
def Scalar.kind : Scalar → Kind
  | .none | .other => .null
  | .bool true => .true
  | .bool false => .false
  | .int _ | .float _ => .number
  | .str _ => .string

/-- The kind of a value. -/
def kind : Value → Kind
  | .scalar a => a.kind
  | .list _ _ => .array
  | .dict _ _ => .object

/-- The same scalar, or numbers of one value. -/
def SameValue (a b : Scalar) : Prop := a = b ∨ ∃ q, a.value? = some q ∧ b.value? = some q

/-- No scalar is an array or an object. -/
theorem Scalar.kind_ne (a : Scalar) : a.kind ≠ .array ∧ a.kind ≠ .object := by
  cases a with
  | bool b => cases b <;> decide
  | _ => exact ⟨nofun, nofun⟩

/-! ## Scalars -/

/-- The numbers. -/
theorem value_of_plain {a : Scalar} (hplain : a.Plain IsFinite) (hkind : a.kind = .number) :
    ∃ q, a.value? = some q := by
  cases a with
  | int n => exact ⟨_, rfl⟩
  | float x => exact ⟨x.value, if_pos hplain⟩
  | bool b => cases b <;> cases hkind
  | _ => cases hkind

/-- What is written of a number, and how it is read. -/
theorem written_of_number {a : Scalar} {text : CodePoints} {q : ℚ}
    (htext : canonicalScalar a = .ok text) (hq : a.value? = some q) :
    ∃ cs, text = CodePoints.ofChars cs ∧ NumberText cs ∧ readNumber cs = q := by
  rcases readNumber_of_canonicalScalar htext hq with ⟨cs, rfl, hread⟩
  refine ⟨cs, rfl, ?_, hread⟩
  cases a with
  | int n =>
      rcases numberText_of_strInt htext with ⟨ds, hds, hnumber⟩
      rwa [ofChars_injective hds]
  | float x =>
      rw [canonicalScalar] at htext
      rw [Scalar.value?] at hq
      split at hq
      · rename_i hfinite
        rw [if_pos hfinite] at htext
        cases hcs : formatNumber x with
        | error e => simp [hcs, Except.map] at htext
        | ok ds =>
            rw [hcs] at htext
            rw [← ofChars_injective (Except.ok.inj htext)]
            exact numberText_formatNumber hcs
      · cases hq
  | _ => cases hq

theorem startsAs_scalar {a : Scalar} {text : CodePoints} (hplain : a.Plain IsFinite)
    (htext : canonicalScalar a = .ok text) : StartsAs a.kind text := by
  by_cases hnumber : a.kind = .number
  · rcases value_of_plain hplain hnumber with ⟨q, hq⟩
    rcases written_of_number htext hq with ⟨cs, rfl, hcs, -⟩
    rw [hnumber]
    exact hcs.startsAs
  · cases a with
    | int n => exact absurd rfl hnumber
    | float x => exact absurd rfl hnumber
    | other => exact hplain.elim
    | str s =>
        cases htext
        exact startsAs_jsonString s
    | none =>
        cases htext
        exact ⟨.scalar 'n', _, rfl, rfl⟩
    | bool b =>
        cases b with
        | false =>
            cases htext
            exact ⟨.scalar 'f', _, rfl, rfl⟩
        | true =>
            cases htext
            exact ⟨.scalar 't', _, rfl, rfl⟩

/-- Two scalars of one kind. -/
theorem splits_scalar {a b : Scalar} {s t : CodePoints} (ha : a.Plain IsFinite)
    (hb : b.Plain IsFinite) (hs : canonicalScalar a = .ok s) (ht : canonicalScalar b = .ok t)
    (hkind : a.kind = b.kind) : Splits stops s t (SameValue a b) := by
  by_cases hnumber : a.kind = .number
  · rcases value_of_plain ha hnumber with ⟨q, hq⟩
    rcases value_of_plain hb (hkind ▸ hnumber) with ⟨q', hq'⟩
    rcases written_of_number hs hq with ⟨cs, rfl, hcs, hread⟩
    rcases written_of_number ht hq' with ⟨ds, rfl, hds, hread'⟩
    apply (splits_number hcs hds).imp
    rintro rfl
    rw [← hread', hread] at hq'
    exact .inr ⟨q, hq, hq'⟩
  · cases a with
    | int n => exact absurd rfl hnumber
    | float x => exact absurd rfl hnumber
    | other => exact ha.elim
    | str text =>
        cases b with
        | str text' =>
            cases hs
            cases ht
            exact (splits_jsonString text text').splits.imp fun h => .inl (by rw [h])
        | bool b => cases b <;> cases hkind
        | _ => cases hkind
    | none =>
        cases b with
        | none =>
            cases hs
            cases ht
            exact (SplitsAlways.refl _).splits.imp fun _ => .inl rfl
        | other => exact hb.elim
        | bool b => cases b <;> cases hkind
        | _ => cases hkind
    | bool c =>
        cases b with
        | bool d =>
            have hcd : c = d := by cases c <;> cases d <;> first | rfl | cases hkind
            subst hcd
            cases hs
            cases ht
            exact (SplitsAlways.refl _).splits.imp fun _ => .inl rfl
        | _ => cases c <;> cases hkind

/-! ## Values -/

variable {seen : List ℕ} {v : Value} {text : CodePoints}

/-- A value's text starts as those of its kind do. -/
theorem startsAs_canonical (hplain : Plain IsFinite v) (hacyclic : v.Acyclic seen)
    (htext : canonical seen v = .ok text) : StartsAs (kind v) text := by
  cases hplain with
  | scalar h => exact startsAs_scalar h htext
  | list h =>
      cases hacyclic with
      | list hnew _ =>
          rcases written_of_list hnew htext with ⟨written, -, -, rfl⟩
          exact ⟨.scalar '[', _, rfl, rfl⟩
  | dict hnames hnodup h =>
      cases hacyclic with
      | dict hnew _ =>
          rcases written_of_dict hnodup hnew htext with ⟨written, -, -, -, rfl⟩
          exact ⟨.scalar '\x7b', _, rfl, rfl⟩

/-- The items of two lists. -/
theorem splits_bracketed {α β : Type} {f : α → CodePoints} {g : β → CodePoints} {R : α → β → Prop}
    {xs : List α} {ys : List β} {opening closing : String} {close : CodePoint}
    (hclosing : CodePoints.ofString closing = [close]) (hclose : stops close)
    (hkind : kindOf close = none) (hne : .scalar ',' ≠ close)
    (hx : ∀ x ∈ xs, ∃ k, StartsAs k (f x)) (hy : ∀ y ∈ ys, ∃ k, StartsAs k (g y))
    (h : ∀ x ∈ xs, ∀ y ∈ ys, Splits stops (f x) (g y) (R x y)) :
    Splits stops
      (CodePoints.ofString opening ++ commaJoined (xs.map f) ++ CodePoints.ofString closing)
      (CodePoints.ofString opening ++ commaJoined (ys.map g) ++ CodePoints.ofString closing)
      (List.Forall₂ R xs ys) := by
  have hcomma : stops (.scalar ',') := .inl rfl
  rw [hclosing, List.append_assoc, List.append_assoc]
  apply Splits.append_left
  apply SplitsAlways.splits
  apply Splits.joined hcomma hclose hne _ _ h
  · intro x hx'
    rcases hx x hx' with ⟨k, hk⟩
    exact hk.head_ne hkind
  · intro y hy'
    rcases hy y hy' with ⟨k, hk⟩
    exact hk.head_ne hkind

/-- A value's text can be told apart from those of all other values. -/
def ToldApart (v : Value) : Prop :=
  ∀ (w : Value) (seen seen' : List ℕ) (s t : CodePoints), Plain IsFinite v → Plain IsFinite w →
    v.Acyclic seen → w.Acyclic seen' → canonical seen v = .ok s → canonical seen' w = .ok t →
      Splits stops s t (Tree.Alike id SameValue v w)

/-- It is enough to look at the values of the same kind. -/
theorem toldApart_of_kind
    (h : ∀ (w : Value) (seen seen' : List ℕ) (s t : CodePoints), kind v = kind w →
      Plain IsFinite v → Plain IsFinite w → v.Acyclic seen → w.Acyclic seen' →
        canonical seen v = .ok s → canonical seen' w = .ok t →
          Splits stops s t (Tree.Alike id SameValue v w)) : ToldApart v := by
  intro w seen seen' s t hv hw hacyclic hacyclic' hs ht
  by_cases hkind : kind v = kind w
  · exact h w seen seen' s t hkind hv hw hacyclic hacyclic' hs ht
  · exact splits_of_kind_ne (startsAs_canonical hv hacyclic hs)
      (startsAs_canonical hw hacyclic' ht) hkind

theorem toldApart_list {r : ℕ} {items : List Value} (h : ∀ x ∈ items, ToldApart x) :
    ToldApart (.list r items) := by
  apply toldApart_of_kind
  intro w seen seen' s t hkind hv hw hacyclic hacyclic' hs ht
  rcases hv with - | hitems
  cases hw with
  | scalar hb => exact absurd hkind.symm (Scalar.kind_ne _).1
  | dict _ _ _ => cases hkind
  | list hitems' =>
      rcases hacyclic with - | ⟨hnew, hall⟩
      rcases hacyclic' with - | ⟨hnew', hall'⟩
      rcases written_of_list hnew hs with ⟨written, rfl, htexts, rfl⟩
      rcases written_of_list hnew' ht with ⟨written', rfl, htexts', rfl⟩
      have hmem : ∀ {ps : List (Value × CodePoints)}, ∀ p ∈ ps, p.1 ∈ ps.map Prod.fst :=
        fun p hp => List.mem_map_of_mem hp
      have hsplit : Splits stops
          (CodePoints.ofString "[" ++ commaJoined (written.map Prod.snd) ++ CodePoints.ofString "]")
          (CodePoints.ofString "[" ++ commaJoined (written'.map Prod.snd) ++
            CodePoints.ofString "]")
          (List.Forall₂ (fun p p' => Tree.Alike id SameValue p.1 p'.1) written written') := by
        apply splits_bracketed rfl (.inr (.inl rfl)) rfl (by decide)
        · intro p hp
          exact ⟨_, startsAs_canonical (hitems _ (hmem p hp)) (hall _ (hmem p hp)) (htexts p hp)⟩
        · intro p hp
          exact ⟨_, startsAs_canonical (hitems' _ (hmem p hp)) (hall' _ (hmem p hp)) (htexts' p hp)⟩
        · intro p hp p' hp'
          exact h p.1 (hmem p hp) p'.1 _ _ _ _ (hitems _ (hmem p hp)) (hitems' _ (hmem p' hp'))
            (hall _ (hmem p hp)) (hall' _ (hmem p' hp')) (htexts p hp) (htexts' p' hp')
      exact hsplit.imp fun hforall => .of_forall₂ _ _
        (List.forall₂_map_left_iff.mpr (List.forall₂_map_right_iff.mpr hforall))

/-- Two members. -/
theorem splits_member {m m' : (CodePoints × Value) × CodePoints} {Q : Prop}
    (h : Splits stops m.2 m'.2 Q) :
    Splits stops (member m) (member m') (m.1.1 = m'.1.1 ∧ Q) := by
  rw [member, member, List.append_assoc, List.append_assoc]
  exact (splits_jsonString _ _).append (h.append_left _)

theorem startsAs_member (m : (CodePoints × Value) × CodePoints) : StartsAs .string (member m) := by
  rcases startsAs_jsonString m.1.1 with ⟨c, rest, hc, hkind⟩
  rw [member, hc]
  exact ⟨c, _, rfl, hkind⟩

theorem toldApart_dict {r : ℕ} {entries : List (Key × Value)} (h : ∀ e ∈ entries, ToldApart e.2) :
    ToldApart (.dict r entries) := by
  apply toldApart_of_kind
  intro w seen seen' s t hkind hv hw hacyclic hacyclic' hs ht
  rcases hv with - | - | @⟨_, named, hnames, hnodup, hplain⟩
  cases hw with
  | scalar hb => exact absurd hkind.symm (Scalar.kind_ne _).2
  | list _ => cases hkind
  | @dict r' named' hnames' hnodup' hplain' =>
      rcases hacyclic with - | - | ⟨hnew, hall⟩
      rcases hacyclic' with - | - | ⟨hnew', hall'⟩
      rcases written_of_dict hnodup hnew hs with ⟨written, hperm, -, htexts, rfl⟩
      rcases written_of_dict hnodup' hnew' ht with ⟨written', hperm', -, htexts', rfl⟩
      have hsplit : Splits stops
          (CodePoints.ofString "\x7b" ++ commaJoined (written.map member) ++
            CodePoints.ofString "\x7d")
          (CodePoints.ofString "\x7b" ++ commaJoined (written'.map member) ++
            CodePoints.ofString "\x7d")
          (List.Forall₂ (fun m m' => m.1.1 = m'.1.1 ∧ Tree.Alike id SameValue m.1.2 m'.1.2)
            written written') := by
        apply splits_bracketed rfl (.inr (.inr rfl)) rfl (by decide)
        · exact fun m _ => ⟨_, startsAs_member m⟩
        · exact fun m _ => ⟨_, startsAs_member m⟩
        · intro m hm m' hm'
          have hin : m.1 ∈ named := hperm.mem_iff.mp (List.mem_map_of_mem hm)
          have hin' : m'.1 ∈ named' := hperm'.mem_iff.mp (List.mem_map_of_mem hm')
          have hkeyed : ∀ {es : List (CodePoints × Value)}, ∀ e ∈ es,
              (Key.str e.1, e.2) ∈ strKeys es :=
            fun e he => List.mem_map_of_mem he
          exact splits_member (h _ (hkeyed _ hin) m'.1.2 _ _ _ _ (hplain _ hin) (hplain' _ hin')
            (hall _ (hkeyed _ hin)) (hall' _ (hkeyed _ hin')) (htexts m hm) (htexts' m' hm'))
      apply hsplit.imp
      intro hforall
      refine .of_perm _ _ (hperm.map fun e => (Key.str e.1, e.2))
        (hperm'.map fun e => (Key.str e.1, e.2)) (nodup_keys_strKeys hnodup) ?_
      rw [List.map_map, List.map_map, List.forall₂_map_left_iff, List.forall₂_map_right_iff]
      exact hforall.imp fun m m' hm => ⟨congrArg Key.str hm.1, hm.2⟩

/-- **The texts of all values can be told apart.** -/
theorem toldApart (v : Value) : ToldApart v := by
  induction v using Tree.induct with
  | scalar a =>
      apply toldApart_of_kind
      intro w seen seen' s t hkind hv hw _ _ hs ht
      cases hv with
      | scalar ha =>
          cases hw with
          | scalar hb => exact (splits_scalar ha hb hs ht hkind).imp .scalar
          | list _ => exact absurd hkind a.kind_ne.1
          | dict _ _ _ => exact absurd hkind a.kind_ne.2
  | list r items ih => exact toldApart_list ih
  | dict r entries ih => exact toldApart_dict ih

/-! ## Equal doubles -/

theorem plain_of_double {a : Scalar} (h : a.Plain IsDouble) : a.Plain IsFinite := by
  cases a with
  | float x =>
      rcases Option.isSome_iff_exists.mp h with ⟨d, hd⟩
      exact (double_float hd).1
  | _ => exact h

theorem Plain.isFinite {v : Value} (h : Plain IsDouble v) : Plain IsFinite v := by
  induction h with
  | scalar h => exact .scalar (plain_of_double h)
  | list _ ih => exact .list ih
  | dict hnames hnodup _ ih => exact .dict hnames hnodup ih

theorem finite_of_plain {a : Scalar} (h : a.Plain IsDouble) : a.Finite := by
  cases a with
  | float x => exact h
  | _ => trivial

/-- Doubles of one value are equal. -/
theorem alike_sameNumber {v w : Value} (h : Tree.Alike id SameValue v w) (hv : Plain IsDouble v)
    (hw : Plain IsDouble w) : Tree.Alike id SameNumber v w := by
  induction h with
  | scalar h =>
      rcases hv with ⟨ha⟩
      rcases hw with ⟨hb⟩
      rcases h with h | ⟨q, hq, hq'⟩
      · exact .scalar (.inl h)
      · exact .scalar
          (sameNumber_of_value_eq hq hq' (finite_of_plain ha) (finite_of_plain hb))
  | list hlength h ih =>
      rcases hv with - | hv
      rcases hw with - | hw
      exact .list hlength fun i hx hy =>
        ih i hx hy (hv _ (List.getElem_mem hx)) (hw _ (List.getElem_mem hy))
  | dict hkeys h ih =>
      rcases hv with - | - | ⟨-, -, hv⟩
      rcases hw with - | - | ⟨-, -, hw⟩
      refine .dict hkeys fun e he e' he' hkey => ?_
      rcases List.mem_map.mp he with ⟨d, hd, rfl⟩
      rcases List.mem_map.mp he' with ⟨d', hd', rfl⟩
      exact ih _ he _ he' hkey (hv d hd) (hw d' hd')

variable {w : Value}

/-- **The canonical form is injective**: values with one canonical form are alike, up to the order
of dict entries and to numbers that denote equal doubles. -/
theorem alike_of_canonicalJson_eq (hv : Plain IsDouble v) (hw : Plain IsDouble w)
    (hacyclic : v.Acyclic []) (hacyclic' : w.Acyclic []) (htext : canonicalJson v = .ok text)
    (htext' : canonicalJson w = .ok text) : Tree.Alike id SameNumber v w :=
  alike_sameNumber
    ((toldApart v w [] [] text text hv.isFinite hw.isFinite hacyclic hacyclic' htext htext').of_eq
      rfl) hv hw

theorem digit_one_ne_zero : (1 : Digit) ≠ 0 := by
  decide

/-- `1e20`. -/
def hundredExa : PyFloat :=
  .nonzero false
    ⟨⟨[1], 21, List.cons_ne_nil _ _, digit_one_ne_zero, digit_one_ne_zero⟩, by decide⟩

/-- `{"b": 1e20, "a": ["1"]}`. -/
def floatFirst : Value :=
  .dict 0 (strKeys [(CodePoints.ofString "b", .scalar (.float hundredExa)),
    (CodePoints.ofString "a", .list 1 [.scalar (.str (CodePoints.ofString "1"))])])

/-- `{"a": ["1"], "b": 100000000000000000000}`. -/
def integerLast : Value :=
  .dict 0 (strKeys [(CodePoints.ofString "a", .list 1 [.scalar (.str (CodePoints.ofString "1"))]),
    (CodePoints.ofString "b", .scalar (.int (10 ^ 20)))])

theorem alike_floatFirst : Tree.Alike id SameNumber floatFirst integerLast := by
  have hwf : ∀ t : String, (CodePoints.ofString t).WellFormed := CodePoints.wellFormed_ofString
  have hlist : Plain IsDouble (.list 1 [.scalar (.str (CodePoints.ofString "1"))]) :=
    .list (List.forall_mem_singleton.mpr (.scalar (hwf _)))
  have hacyclic : (.list 1 [.scalar (.str (CodePoints.ofString "1"))] : Value).Acyclic [0] :=
    .list (by decide) (List.forall_mem_singleton.mpr (.scalar _))
  have hdouble : (Scalar.float hundredExa).double.isSome = true := by decide +kernel
  have hfloat : Plain IsDouble (.scalar (.float hundredExa)) := .scalar hdouble
  have htext : canonicalJson floatFirst =
      .ok (CodePoints.ofString "\x7b\"a\":[\"1\"],\"b\":100000000000000000000\x7d") := rfl
  refine alike_of_canonicalJson_eq ?_ ?_ ?_ ?_ htext rfl
  · exact .dict (by simp [hwf]) (by decide) (by simp [hlist, hfloat])
  · exact .dict (by simp [hwf]) (by decide) (by simpa [hlist] using .scalar trivial)
  · exact .dict (by decide) (by simpa [strKeys, hacyclic] using .scalar _)
  · exact .dict (by decide) (by simpa [strKeys, hacyclic] using .scalar _)

/-- `0.0` and `-0.0` are different doubles with one canonical form. -/
theorem zeros_written_alike :
    let zero : Value := .scalar (.float (.zero false))
    let negativeZero : Value := .scalar (.float (.zero true))
    (Plain IsDouble zero ∧ zero.Acyclic [] ∧ canonicalJson zero = .ok (CodePoints.ofString "0")) ∧
      (Plain IsDouble negativeZero ∧ negativeZero.Acyclic [] ∧
        canonicalJson negativeZero = .ok (CodePoints.ofString "0")) ∧
      ¬ Tree.Alike id (fun a b => a = b ∨ SameDouble a b) zero negativeZero := by
  refine ⟨⟨.scalar rfl, .scalar _, rfl⟩, ⟨.scalar rfl, .scalar _, rfl⟩, ?_⟩
  rintro ⟨hsame | ⟨d, hd, hd'⟩⟩
  · cases hsame
  · cases hd
    cases hd'

end Telemetry.Receipts.Python
