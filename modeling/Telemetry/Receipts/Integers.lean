import Telemetry.Receipts.PythonRust

/-!
# Integers in the canonical forms of Python and Rust

The two canonical forms of a JSON value differ at integers only, and there they do differ: Rust
writes the shortest decimal of the double next to an integer. So the texts are the same exactly
when every integer is kept by its conversion to a double. Small integers are.

## Main definitions

* `Kept` — an integer is what the shortest decimal of its double writes.

## Main results

* `kept_of_natAbs_le` — an integer of at most 53 bits is kept.
* `canonicalJson_eq_iff` — **when both write the same**.
-/

namespace Telemetry.Receipts

open Telemetry.Lib
open Python (Key PyFloat Shortest)

/-- The integer is the number that the shortest decimal of its double writes. -/
def Kept (n : ℤ) : Prop := (PyFloat.ofInt n).value = n

/-- A scalar with no integer that is not kept. -/
def Python.Scalar.Kept : Python.Scalar → Prop
  | .int n => Receipts.Kept n
  | _ => True

/-- An integer of a machine word, signed or not. -/
def Python.Scalar.InWord : Python.Scalar → Prop
  | .int n => n.natAbs < 2 ^ 64
  | _ => True

instance (n : ℤ) : Decidable (Kept n) := inferInstanceAs (Decidable (_ = _))

/-! ## Kept integers -/

theorem strInt_of_natAbs_lt {n : ℤ} (h : n.natAbs < 10 ^ 21) :
    Python.strInt n =
      .ok (CodePoints.ofChars (Python.minus (n < 0) ++ Nat.toDigits 10 n.natAbs)) := by
  have hlength : (Nat.toDigits 10 n.natAbs).length ≤ 21 :=
    (Nat.length_toDigits_le_iff (by decide) (by decide)).mpr h
  have hshort : ¬ Python.intMaxStrDigits < (Nat.toDigits 10 n.natAbs).length := by
    rw [Python.intMaxStrDigits]
    omega
  rw [Python.strInt, Python.minus]
  simp only [if_neg hshort]
  by_cases hneg : n < 0 <;> simp [hneg]

/-- **A kept integer** is written in full as its double is. -/
theorem canonicalScalar_of_kept {n : ℤ} (hkept : Kept n) (hword : n.natAbs < 2 ^ 64) :
    Python.canonicalScalar (.int n) = Python.canonicalScalar (.float (.ofInt n)) := by
  have hlt : n.natAbs < 10 ^ 21 := lt_of_lt_of_le hword (by decide)
  by_cases hzero : n = 0
  · subst hzero
    rfl
  · have hfinite := isFinite_ofInt n
    have hvalue := hkept
    rw [Kept] at hvalue
    rw [Python.canonicalScalar, Python.canonicalScalar, if_pos hfinite, strInt_of_natAbs_lt hlt]
    rw [PyFloat.ofInt, if_neg hzero] at hvalue ⊢
    rw [PyFloat.value] at hvalue
    generalize Python.shortest (nearest |n|) = x at hvalue ⊢
    have habs : x.value = n.natAbs := by
      rw [Nat.cast_natAbs]
      by_cases hneg : n < 0
      · rw [decide_eq_true hneg, Python.withSign, if_pos rfl] at hvalue
        rw [abs_of_neg hneg, Int.cast_neg, ← hvalue, neg_neg]
      · rw [decide_eq_false hneg, Python.withSign, if_neg Bool.false_ne_true] at hvalue
        rw [abs_of_nonneg (not_lt.mp hneg), hvalue]
    rw [Python.formatNumber_nonzero, Python.formatSignificand_of_value habs hlt]
    rfl

/-- Values of scalars that are all kept. -/
theorem canonicalScalar_doubled_of_kept {a : Python.Scalar} (hkept : a.Kept) (hword : a.InWord) :
    Python.canonicalScalar (doubled a) = Python.canonicalScalar a := by
  cases a with
  | int n => exact (canonicalScalar_of_kept hkept hword).symm
  | _ => rfl

/-- What is written of a value depends on what is written of its scalars. -/
theorem canonical_mapScalar {g : Python.Scalar → Python.Scalar} {v : Python.Value}
    (h : v.AllScalars fun a => Python.canonicalScalar (g a) = Python.canonicalScalar a)
    (seen : List ℕ) : Python.canonical seen (v.mapScalar g) = Python.canonical seen v := by
  induction h generalizing seen with
  | scalar h => exact h
  | @list r items _ ih =>
      have hitems : Python.canonicalItems (r :: seen) (items.map (Tree.mapScalar g)) =
          Python.canonicalItems (r :: seen) items := by
        rw [Python.canonicalItems_eq_map, Python.canonicalItems_eq_map, List.map_map]
        exact List.map_congr_left fun x hx => ih x hx (r :: seen)
      rw [Tree.mapScalar_list, Python.canonical, Python.canonical, hitems]
  | @dict r entries _ ih =>
      have hentries :
          Python.canonicalEntries (r :: seen) (entries.map fun e => (e.1, e.2.mapScalar g)) =
            Python.canonicalEntries (r :: seen) entries := by
        rw [Python.canonicalEntries_eq_map, Python.canonicalEntries_eq_map, List.map_map]
        exact List.map_congr_left fun e he => congrArg (e.1, ·) (ih e he (r :: seen))
      rw [Tree.mapScalar_dict, Python.canonical, Python.canonical, hentries]

/-! ## Small integers -/

section Small

variable {m : ℕ}

/-- The decade of an integer is the count of its digits. -/
theorem decade_natCast (hm : 0 < m) : Python.decade m = (Python.digitsOf m).length := by
  rcases Python.digitsOf_eq_cons hm with ⟨d, rest, hdigits, hd⟩
  have hle : 10 ^ rest.length ≤ m := by
    have hhead : (Python.digitsOf m).head (Python.digitsOf_ne_nil m) ≠ 0 := by
      simpa [hdigits] using hd
    have hpow := Python.pow_le_ofDigits _ hhead
    rwa [Python.ofDigits_digitsOf, hdigits, List.length_cons, Nat.add_sub_cancel] at hpow
  have hone : Python.digitsOf 1 = [1] := rfl
  have hexponent : (((d :: rest).length : ℤ) - ([1] : List Python.Digit).length) = rest.length := by
    simp
  have hlt : ¬ (m : ℚ) < 10 ^ (rest.length : ℤ) := by
    rw [zpow_natCast, not_lt]
    exact_mod_cast hle
  rw [Python.decade]
  simp only [Rat.num_natCast, Rat.den_natCast, Int.natAbs_natCast, hdigits, hone, hexponent]
  rw [if_neg hlt]
  simp

/-- The search finds the integer itself. -/
theorem searchDigits_natCast (hm : 0 < m) (hlt : m < 2 ^ 53) (fuel k : ℕ)
    (hk : k ≤ (Python.digitsOf m).length) (hfuel : (Python.digitsOf m).length < k + fuel) :
    ∃ c e, Python.searchDigits m fuel k = some (c, e) ∧ (c : ℚ) * 10 ^ e = m := by
  induction fuel generalizing k with
  | zero => omega
  | succ fuel ih =>
      have hlast : Python.lastDigit m k = ((Python.digitsOf m).length - k : ℕ) := by
        rw [Python.lastDigit, decade_natCast hm]
        omega
      rw [Python.searchDigits]
      split
      · rename_i c hfind
        refine ⟨c, _, rfl, ?_⟩
        have hnearest := List.find?_some hfind
        rw [decide_eq_true_eq] at hnearest
        have hcast : (c : ℚ) * 10 ^ Python.lastDigit m k =
            (c * 10 ^ ((Python.digitsOf m).length - k) : ℕ) := by
          rw [hlast, zpow_natCast]
          push_cast
          rfl
        rw [hcast] at hnearest ⊢
        -- an integer that is rounded to a small one is the small one
        generalize c * 10 ^ ((Python.digitsOf m).length - k) = j at hnearest
        by_cases hj : j < 2 ^ 53
        · rwa [nearest_natCast_of_lt hj] at hnearest
        · have hle := le_nearest_natCast (not_lt.mp hj)
          rw [hnearest] at hle
          have hle' : 2 ^ 53 ≤ m := by exact_mod_cast hle
          omega
      · rename_i hfind
        rcases Nat.lt_or_eq_of_le hk with hk | hk
        · exact ih (k + 1) hk (by omega)
        · -- the last count of digits is that of the integer
          have hmem : m ∈ Python.neighbours m k := by
            rw [Python.neighbours, hlast, hk]
            simp
          have hself := List.find?_eq_none.mp hfind m hmem
          rw [hlast, hk] at hself
          simp [nearest_natCast_of_lt hlt] at hself

theorem value_shortest_natCast (hm : 0 < m) (hlt : m < 2 ^ 53) :
    (Python.shortest m).value = m := by
  have hdigits : (Python.digitsOf m).length ≤ 16 := by
    have hlen : (Nat.toDigits 10 m).length ≤ 16 :=
      (Nat.length_toDigits_le_iff (by decide) (by decide)).mpr (lt_trans hlt (by decide))
    rwa [Python.digitsOf, List.length_map]
  have hpos : 1 ≤ (Python.digitsOf m).length :=
    List.length_pos_iff.mpr (Python.digitsOf_ne_nil m)
  rcases searchDigits_natCast hm hlt 17 1 hpos (by omega) with ⟨c, e, hfound, hvalue⟩
  have hc : 0 < c := by
    rcases Nat.eq_zero_or_pos c with rfl | hc
    · rw [Nat.cast_zero, zero_mul] at hvalue
      exact absurd (Nat.cast_eq_zero.mp hvalue.symm) hm.ne'
    · exact hc
  have hofNat : (Python.Significand.ofNat c hc e).value = m := by rw [Python.value_ofNat, hvalue]
  have hrange : (Python.Significand.ofNat c hc e).InRange := by
    have hlow : (1 : ℚ) ≤ m := by exact_mod_cast hm
    have hhigh : (m : ℚ) < 10 ^ 16 := by exact_mod_cast hlt.trans (by norm_num)
    rw [← hofNat] at hlow hhigh
    exact Python.inRange_of_value (by decide) hlow hhigh
  rw [Python.shortest, hfound]
  simp only [Option.getD_some]
  rw [dif_pos hc, dif_pos hrange, hofNat]

end Small

/-- **A small integer is kept.** -/
theorem kept_of_natAbs_le {n : ℤ} (h : n.natAbs ≤ 2 ^ 53) : Kept n := by
  rcases Nat.lt_or_eq_of_le h with hlt | heq
  · by_cases hzero : n = 0
    · subst hzero
      exact Int.cast_zero.symm
    · have hpos : 0 < n.natAbs := Int.natAbs_pos.mpr hzero
      have habs : ((|n| : ℤ) : ℚ) = (n.natAbs : ℚ) := by rw [Nat.cast_natAbs]
      have hvalue := value_shortest_natCast hpos hlt
      rw [Kept, PyFloat.ofInt, if_neg hzero, PyFloat.value, ← Int.cast_abs, habs,
        nearest_natCast_of_lt hlt, hvalue, Nat.cast_natAbs]
      by_cases hneg : n < 0
      · rw [decide_eq_true hneg, Python.withSign, if_pos rfl, abs_of_neg hneg, Int.cast_neg,
          neg_neg]
      · rw [decide_eq_false hneg, Python.withSign, if_neg Bool.false_ne_true,
          abs_of_nonneg (not_lt.mp hneg)]
  · rcases Int.natAbs_eq n with hn | hn
    · rw [hn, heq]
      decide +kernel
    · rw [hn, heq]
      decide +kernel

/-! ## JSON values -/

variable {v : Python.Value} {w : Rust.Value}

theorem inWord_of_represents {a : Python.Scalar} {b : Rust.Scalar} (h : Represents a b) :
    a.InWord := by
  cases a with
  | int n =>
      cases b with
      | number number =>
          cases number with
          | posInt m hm =>
              cases h
              exact hm
          | negInt m hm =>
              cases h
              rw [Python.Scalar.InWord]
              omega
          | float y hy => exact h.elim
      | _ => exact h.elim
  | _ => trivial

theorem plain_of_represents {a : Python.Scalar} {b : Rust.Scalar} (h : Represents a b) :
    a.Plain Python.IsFinite := by
  cases a with
  | float x =>
      cases b with
      | number number =>
          cases number with
          | float y hy =>
              cases h
              exact hy
          | _ => exact h.elim
      | _ => exact h.elim
  | str text =>
      cases b with
      | string text' =>
          cases h
          exact CodePoints.wellFormed_ofString text'
      | _ => exact h.elim
  | other => cases b <;> exact h.elim
  | _ => trivial

/-- A JSON value is a value that JSON has. -/
theorem plain_of_sameJson (h : SameJson v w) (hkeys : w.NodupKeys) :
    Python.Plain Python.IsFinite v := by
  induction h with
  | scalar h => exact .scalar (plain_of_represents h)
  | list hlength _ ih =>
      refine .list fun x hx => ?_
      rcases List.mem_iff_getElem.mp hx with ⟨i, hi, rfl⟩
      have hi' := hlength ▸ hi
      exact ih i hi hi' (hkeys.items _ (List.getElem_mem hi'))
  | @dict r r' entries entries' hperm _ ih =>
      have hnames : entries'.map (fun e => keyOf e.1) = (entries'.map Prod.fst).map keyOf := by
        rw [List.map_map]
        rfl
      rw [hnames] at hperm
      rcases exists_strKeys hperm with ⟨named, rfl, hnamed⟩
      have hcounterpart : ∀ e ∈ named, ∃ e' ∈ entries', e.1 = CodePoints.ofString e'.1 := by
        intro e he
        rcases List.mem_map.mp (hnamed.mem_iff.mp (List.mem_map_of_mem he)) with ⟨name, hname, heq⟩
        rcases List.mem_map.mp hname with ⟨e', he', rfl⟩
        exact ⟨e', he', heq.symm⟩
      refine .dict ?_ ?_ ?_
      · intro e he
        rcases hcounterpart e he with ⟨e', -, hkey⟩
        rw [hkey]
        exact CodePoints.wellFormed_ofString _
      · exact hnamed.nodup_iff.mpr ((List.nodup_map_iff ofString_injective).mpr hkeys.keys)
      · intro e he
        rcases hcounterpart e he with ⟨e', he', hkey⟩
        exact ih _ (List.mem_map_of_mem he) e' he' (congrArg Key.str hkey)
          (hkeys.entries e' he')

theorem plain_doubled {a : Python.Scalar} (h : a.Plain Python.IsFinite) :
    (doubled a).Plain Python.IsFinite := by
  cases a with
  | int n => exact isFinite_ofInt n
  | _ => exact h

theorem plain_mapScalar_doubled (h : Python.Plain Python.IsFinite v) :
    Python.Plain Python.IsFinite (v.mapScalar doubled) := by
  induction h with
  | scalar h => exact .scalar (plain_doubled h)
  | list _ ih =>
      rw [Tree.mapScalar_list]
      exact .list (List.forall_mem_map.mpr ih)
  | @dict r named hnames hnodup _ ih =>
      have hmap : Tree.mapScalar doubled (.dict r (Python.strKeys named)) =
          .dict r (Python.strKeys (named.map fun e => (e.1, e.2.mapScalar doubled))) := by
        rw [Tree.mapScalar_dict, Python.strKeys, Python.strKeys, List.map_map, List.map_map]
        rfl
      rw [hmap]
      refine .dict (List.forall_mem_map.mpr hnames) ?_ (List.forall_mem_map.mpr ih)
      rwa [List.map_map]

/-- An integer with the value of its double is kept. -/
theorem kept_of_sameValue {a : Python.Scalar} (h : Python.SameValue a (doubled a)) : a.Kept := by
  cases a with
  | int n =>
      rcases h with h | ⟨q, hq, hq'⟩
      · cases h
      · rw [doubled, Python.Scalar.value?, if_pos (isFinite_ofInt n), Option.some.injEq] at hq'
        cases hq
        exact hq'
  | _ => trivial

/-- **When Python and Rust write the same**: every integer is kept. -/
theorem canonicalJson_eq_iff (h : SameJson v w) (hacyclic : v.Acyclic []) (hkeys : w.NodupKeys) :
    Python.canonicalJson v = .ok (CodePoints.ofChars (Rust.canonicalJson w)) ↔
      v.AllScalars Python.Scalar.Kept := by
  have hrust := canonicalJson_doubled h hacyclic hkeys
  constructor
  · intro hpython
    -- one text for the value and for the value with its integers converted
    have hplain := plain_of_sameJson h hkeys
    have hsplits := Python.toldApart v (v.mapScalar doubled) [] [] _ _ hplain
      (plain_mapScalar_doubled hplain) hacyclic (hacyclic.mapScalar doubled) hpython hrust
    exact (Tree.allScalars_of_alike_mapScalar (hsplits.of_eq rfl)).imp kept_of_sameValue
  · intro hkept
    have hwritten := (hkept.and (h.allScalars inWord_of_represents)).imp fun hboth =>
      canonicalScalar_doubled_of_kept hboth.1 hboth.2
    rw [Python.canonicalJson, ← canonical_mapScalar hwritten []]
    exact hrust

/-- `{"n": [-9007199254740992]}`, in Python and in Rust. -/
theorem canonicalJson_kept :
    let v : Python.Value := .dict 0 [(keyOf "n", .list 1 [.scalar (.int (-9007199254740992))])]
    let w : Rust.Value :=
      .dict () [("n", .list () [.scalar (.number (.negInt (-9007199254740992) (by decide)))])]
    Python.canonicalJson v = .ok (CodePoints.ofChars (Rust.canonicalJson w)) := by
  have hkept : Kept (-9007199254740992) := kept_of_natAbs_le (by decide)
  refine (canonicalJson_eq_iff ?_ ?_ ?_).mpr ?_
  · refine .dict (.refl _) ?_
    simp only [List.forall_mem_singleton, forall_const]
    exact .of_forall₂ _ _ (.cons (.scalar rfl) .nil)
  · refine .dict (by decide) ?_
    rw [List.forall_mem_singleton]
    exact .list (by decide) (List.forall_mem_singleton.mpr (.scalar _))
  · refine .dict (by decide) ?_
    rw [List.forall_mem_singleton]
    exact .list (List.forall_mem_singleton.mpr (.scalar _))
  · refine .dict ?_
    rw [List.forall_mem_singleton]
    exact .list (List.forall_mem_singleton.mpr (.scalar hkept))

/-- `2 ^ 53 + 1` is written in full by Python, and as `2 ^ 53` by Rust. -/
theorem wide_integer_written_apart :
    let v : Python.Value := .scalar (.int 9007199254740993)
    let w : Rust.Value := .scalar (.number (.posInt 9007199254740993 (by decide)))
    SameJson v w ∧ v.Acyclic [] ∧ w.NodupKeys ∧
      Python.canonicalJson v = .ok (CodePoints.ofString "9007199254740993") ∧
      Rust.canonicalJson w = "9007199254740992".toList ∧
      Python.canonicalJson v ≠ .ok (CodePoints.ofChars (Rust.canonicalJson w)) := by
  have hpython : Python.canonicalJson (.scalar (.int 9007199254740993)) =
      .ok (CodePoints.ofString "9007199254740993") := rfl
  have hrust : Rust.canonicalJson (.scalar (.number (.posInt 9007199254740993 (by decide)))) =
      "9007199254740992".toList := by decide +kernel
  refine ⟨.scalar rfl, .scalar _, .scalar _, hpython, hrust, ?_⟩
  intro hsame
  rw [hpython, hrust] at hsame
  exact absurd (Except.ok.inj hsame) (by decide)

end Telemetry.Receipts
