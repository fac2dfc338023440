import Telemetry.Receipts.PythonInjective
import Telemetry.Receipts.Rust

/-!
# The canonical form in Python and in Rust

Two serializers, written independently, of the same JSON values. They agree on every word, string,
float and order of keys. They part at integers: Python writes all digits of one, and Rust writes
the double that it is converted to.

## Main definitions

* `Represents` — a scalar of Python is one of `serde_json`.
* `doubled` — a scalar with an integer converted to a double.

## Main results

* `formatNumber_eq`, `jsonString_eq`, `nameLE_iff` — numbers, strings and the order of keys are
  the same in both.
* `canonicalJson_doubled` — with every integer converted, Python writes what Rust writes.
-/

namespace Telemetry.Receipts

open Telemetry.Lib
open Python (Key PyFloat Shortest)

/-! ## Numbers -/

theorem signed_eq (n : ℤ) :
    Python.signed n (Nat.toDigits 10) =
      (if n < 0 then [] else ['+']) ++ Rust.decimal n := by
  rw [Python.signed, Rust.decimal]
  split <;> rfl

/-- **The layouts are the same**, of every exponent that Python prints. -/
theorem formatSignificand_eq {digits : List Char} (h : digits ≠ []) {n : ℤ}
    (hn : Python.Printed n) :
    Python.formatSignificand digits n = .ok (Rust.renderDigits digits digits.length n) := by
  rw [Python.formatSignificand, Rust.renderDigits]
  by_cases hexponent : 21 < n ∨ n ≤ -6
  · have hplain : ¬ (digits.length ≤ n ∧ n ≤ 21) := by
      have := List.length_pos_iff.mpr h
      omega
    rw [if_pos hexponent, if_neg hplain, if_neg (by omega), if_neg (by omega)]
    obtain ⟨d, rest, rfl⟩ := List.exists_cons_of_ne_nil h
    rw [Python.exponential_of_printed hn, Python.mantissa, signed_eq]
    cases rest with
    | nil => rfl
    | cons d' rest =>
        have hlength : ¬ (((d :: d' :: rest).length : ℤ) = 1) := by
          simp only [List.length_cons]
          omega
        rw [if_neg hlength]
        simp
  · rw [if_neg hexponent]
    by_cases hinteger : (digits.length : ℤ) ≤ n
    · rw [if_pos hinteger, if_pos ⟨hinteger, by omega⟩]
    · have hinteger' : ¬ ((digits.length : ℤ) ≤ n ∧ n ≤ 21) := fun hboth => hinteger hboth.1
      rw [if_neg hinteger, if_neg hinteger']
      by_cases hpoint : 0 < n
      · rw [if_pos hpoint, if_pos ⟨hpoint, by omega⟩]
      · have hpoint' : ¬ (0 < n ∧ n ≤ 21) := fun hboth => hpoint hboth.1
        rw [if_neg hpoint, if_neg hpoint', if_pos ⟨by omega, by omega⟩]

/-- The mantissa of `{:e}` has the digits. -/
theorem filter_lowerExp (x : Shortest) :
    (Rust.lowerExp x).1.filter (· ≠ '.') = x.digits.map Python.digitChar := by
  have hdigits : ∀ digits : List Python.Digit,
      (digits.map Python.digitChar).filter (· ≠ '.') = digits.map Python.digitChar := by
    intro digits
    rw [List.filter_eq_self]
    intro c hc
    have hdigit := Python.isDigit_of_mem_map c hc
    rw [decide_eq_true_eq]
    rintro rfl
    exact absurd hdigit (by decide)
  rw [Rust.lowerExp]
  split
  · rename_i d d' rest heq
    have hrest := hdigits (d :: d' :: rest)
    rw [heq, ← hrest]
    simp [List.filter_cons]
  · exact hdigits x.digits

/-- **The numbers are the same.** -/
theorem formatNumber_eq {x : PyFloat} (h : x.isFinite = true) :
    Python.formatNumber x = .ok (Rust.canonicalNumber x) := by
  cases x with
  | zero negative => rfl
  | nonzero negative x =>
      have hne : x.digits.map Python.digitChar ≠ [] := by simpa using x.ne_nil
      have hpositive : Rust.canonicalPositive x =
          Rust.renderDigits (x.digits.map Python.digitChar)
            (x.digits.map Python.digitChar).length x.point := by
        rw [Rust.canonicalPositive]
        simp only [filter_lowerExp]
        congr 1
        exact Int.sub_add_cancel _ _
      rw [Python.formatNumber_nonzero, formatSignificand_eq hne x.printed, ← hpositive]
      cases negative <;> rfl
  | inf negative => cases h
  | nan => cases h

/-! ## Strings -/

theorem escape_eq (c : Char) :
    Python.escape (.scalar c) = CodePoints.ofChars (Rust.writeChar c) := by
  rw [Rust.writeChar.eq_def]
  split
  any_goals rfl
  rename_i h₁ h₂ h₃ h₄ h₅ h₆ h₇
  rw [Python.escape.eq_def]
  split
  case h_1 => rename_i heq; cases heq
  case h_9 =>
    rename_i heq
    cases heq
    have hlt : c < '\x20' ↔ c.toNat < 0x20 := by
      rw [Char.lt_def, UInt32.lt_iff_toNat_lt]
      rfl
    split
    · rename_i hcontrol
      rw [if_pos (hlt.mpr hcontrol)]
    · rename_i hcontrol
      rw [if_neg fun hlow => hcontrol (hlt.mp hlow)]
      rfl
  all_goals
    rename_i heq
    have := CodePoint.scalar.inj heq
    contradiction

theorem jsonString_eq (text : String) :
    Python.jsonString (CodePoints.ofString text) = CodePoints.ofChars (Rust.writeString text) := by
  have hbody : (CodePoints.ofString text).flatMap Python.escape =
      CodePoints.ofChars (text.toList.flatMap Rust.writeChar) := by
    rw [CodePoints.ofString, CodePoints.ofChars, CodePoints.ofChars, List.flatMap_map,
      List.map_flatMap]
    congr 1
    funext c
    exact escape_eq c
  rw [Python.jsonString, hbody, Rust.writeString]
  simp [CodePoints.ofChars, CodePoints.ofString]

/-- **The order of keys is the same.** -/
theorem nameLE_iff (left right : String) :
    Python.NameLE (CodePoints.ofString left) (CodePoints.ofString right) ↔
      Rust.encodeUtf16 left ≤ Rust.encodeUtf16 right := by
  have hkey : ∀ text : String, Python.sortKey (CodePoints.ofString text) =
      .ok ((Rust.encodeUtf16 text).flatMap CodePoints.bigEndian) := by
    intro text
    rw [Python.sortKey, CodePoints.ofString, CodePoints.encodeUtf16Be_ofChars]
    rfl
  have hunits : ∀ text : String, ∀ u ∈ Rust.encodeUtf16 text, u < 65536 := by
    intro text u hu
    rcases List.mem_flatMap.mp hu with ⟨c, -, hc⟩
    exact CodePoints.utf16Units_lt c u hc
  rw [← CodePoints.flatMap_bigEndian_le_iff (hunits left) (hunits right)]
  constructor
  · rintro ⟨key, key', hleft, hright, hle⟩
    rw [hkey, Except.ok.injEq] at hleft hright
    rwa [hleft, hright]
  · exact fun hle => ⟨_, _, hkey left, hkey right, hle⟩

/-! ## Values -/

/-- A scalar of Python is one of `serde_json`: an integer is one of 64 bits. -/
def Represents : Python.Scalar → Rust.Scalar → Prop
  | .none, .null => True
  | .bool b, .bool flag => b = flag
  | .int n, .number (.posInt m _) => n = m
  | .int n, .number (.negInt m _) => n = m
  | .float x, .number (.float y _) => x = y
  | .str text, .string text' => text = CodePoints.ofString text'
  | _, _ => False

/-- The key of a dict that is the key of an object. -/
def keyOf (key : String) : Key := .str (CodePoints.ofString key)

/-- The same JSON value in both languages. -/
abbrev SameJson (v : Python.Value) (w : Rust.Value) : Prop := Tree.Alike keyOf Represents v w

/-- An integer converted to a float; any other scalar as it is. -/
def doubled : Python.Scalar → Python.Scalar
  | .int n => .float (.ofInt n)
  | a => a

theorem isFinite_ofInt (n : ℤ) : (PyFloat.ofInt n).isFinite = true := by
  rw [PyFloat.ofInt]
  split <;> rfl

/-- A scalar with its integers converted is written as in Rust. -/
theorem canonicalScalar_doubled {a : Python.Scalar} {b : Rust.Scalar} (h : Represents a b) :
    Python.canonicalScalar (doubled a) = .ok (CodePoints.ofChars (Rust.writeScalar b)) := by
  have hfloat : ∀ x : PyFloat, x.isFinite = true → Python.canonicalScalar (.float x) =
      .ok (CodePoints.ofChars (Rust.canonicalNumber x)) := by
    intro x hx
    rw [Python.canonicalScalar, if_pos hx, formatNumber_eq hx]
    rfl
  cases a with
  | none =>
      cases b with
      | null => rfl
      | _ => exact h.elim
  | bool c =>
      cases b with
      | bool flag =>
          cases h
          cases c <;> rfl
      | _ => exact h.elim
  | int n =>
      cases b with
      | number number =>
          cases number with
          | posInt m hm =>
              cases h
              exact hfloat _ (isFinite_ofInt _)
          | negInt m hm =>
              cases h
              exact hfloat _ (isFinite_ofInt _)
          | float y hy => exact h.elim
      | _ => exact h.elim
  | float x =>
      cases b with
      | number number =>
          cases number with
          | float y hy =>
              cases h
              exact hfloat x hy
          | _ => exact h.elim
      | _ => exact h.elim
  | str text =>
      cases b with
      | string text' =>
          cases h
          exact congrArg Except.ok (jsonString_eq text')
      | _ => exact h.elim
  | other => cases b <;> exact h.elim

theorem ofChars_joined (parts : List (List Char)) :
    CodePoints.ofChars (Rust.commaJoined parts) =
      Python.commaJoined (parts.map CodePoints.ofChars) := by
  rw [Rust.commaJoined, Python.commaJoined]
  induction parts with
  | nil => rfl
  | cons part parts ih =>
      cases parts with
      | nil => simp [List.intercalate]
      | cons next parts =>
          rw [List.map_cons, List.map_cons, List.intercalate_cons_cons, List.intercalate_cons_cons,
            ← List.map_cons, ← ih, CodePoints.ofChars, List.map_append, List.map_append]
          rfl

/-- Parts between brackets. -/
theorem ofChars_bracketed (opening closing : Char) (parts : List (List Char)) :
    [CodePoint.scalar opening] ++ Python.commaJoined (parts.map CodePoints.ofChars) ++
      [CodePoint.scalar closing] =
        CodePoints.ofChars (opening :: Rust.commaJoined parts ++ [closing]) := by
  rw [← ofChars_joined]
  simp [CodePoints.ofChars]

theorem writeItems_eq_map (items : List Rust.Value) :
    Rust.writeItems items = items.map Rust.writeValue := by
  induction items with
  | nil => rfl
  | cons item items ih => rw [Rust.writeItems, ih, List.map_cons]

theorem writeEntries_eq_map (entries : List (String × Rust.Value)) :
    Rust.writeEntries entries = entries.map fun e => (e.1, Rust.writeValue e.2) := by
  induction entries with
  | nil => rfl
  | cons e entries ih => rw [Rust.writeEntries, ih, List.map_cons]

/-- The text of a key that is a string. -/
def keyText : Key → CodePoints
  | .str text => text
  | _ => []

/-- The entries of a dict whose keys are those of an object. -/
theorem exists_strKeys {entries : List (Key × Python.Value)} {names : List String}
    (h : (entries.map Prod.fst).Perm (names.map keyOf)) :
    ∃ named, entries = Python.strKeys named ∧
      (named.map Prod.fst).Perm (names.map CodePoints.ofString) := by
  have hall : ∀ e ∈ entries, ∃ name : String, e.1 = keyOf name := by
    intro e he
    rcases List.mem_map.mp (h.mem_iff.mp (List.mem_map_of_mem he)) with ⟨name, -, hname⟩
    exact ⟨name, hname.symm⟩
  refine ⟨entries.map fun e => (keyText e.1, e.2), ?_, ?_⟩
  · rw [Python.strKeys, List.map_map]
    conv_lhs => rw [← List.map_id entries]
    apply List.map_congr_left
    intro e he
    rcases hall e he with ⟨name, hname⟩
    rcases e with ⟨key, value⟩
    cases hname
    rfl
  · have hmap := h.map keyText
    rw [List.map_map] at hmap ⊢
    rw [List.map_map] at hmap
    exact hmap

/-- Two lists with the same keys in the same order are made the same, if they are made the same
key by key. -/
theorem map_eq_map_of_keys {α β κ γ : Type} {a : α → κ} {b : β → κ} {f : α → γ} {g : β → γ}
    {xs : List α} {ys : List β} (hkeys : xs.map a = ys.map b)
    (h : ∀ x ∈ xs, ∀ y ∈ ys, a x = b y → f x = g y) : xs.map f = ys.map g := by
  induction xs generalizing ys with
  | nil =>
      rw [List.map_nil] at hkeys
      rw [List.map_eq_nil_iff.mp hkeys.symm]
      rfl
  | cons x xs ih =>
      cases ys with
      | nil => cases hkeys
      | cons y ys =>
          rw [List.map_cons, List.map_cons, List.cons.injEq] at hkeys
          rw [List.map_cons, List.map_cons, h x List.mem_cons_self y List.mem_cons_self hkeys.1,
            ih hkeys.2 fun x' hx' y' hy' =>
              h x' (List.mem_cons_of_mem x hx') y' (List.mem_cons_of_mem y hy')]

/-- A member is written in the same way. -/
theorem member_eq {m : (CodePoints × Python.Value) × CodePoints} {e : String × List Char}
    (hname : m.1.1 = CodePoints.ofString e.1) (htext : m.2 = CodePoints.ofChars e.2) :
    Python.member m = CodePoints.ofChars (Rust.writeString e.1 ++ ':' :: e.2) := by
  rw [Python.member, hname, htext, jsonString_eq]
  simp [CodePoints.ofChars, CodePoints.ofString]

theorem ofString_injective : Function.Injective CodePoints.ofString := by
  intro s t h
  rw [CodePoints.ofString, CodePoints.ofString] at h
  exact String.toList_inj.mp (Python.ofChars_injective h)

/-- Names that are in order both ways are the same. -/
theorem eq_of_nameLE {left right : String}
    (h : Python.NameLE (CodePoints.ofString left) (CodePoints.ofString right))
    (h' : Python.NameLE (CodePoints.ofString right) (CodePoints.ofString left)) : left = right := by
  rw [nameLE_iff] at h h'
  exact String.toList_inj.mp (CodePoints.utf16_injective (le_antisymm h h'))

theorem perm_sortedMembers (members : List (String × List Char)) :
    (Rust.sortedMembers members).Perm members :=
  List.perm_insertionSort _ members

theorem pairwise_sortedMembers (members : List (String × List Char)) :
    (Rust.sortedMembers members).Pairwise fun e e' =>
      Python.NameLE (CodePoints.ofString e.1) (CodePoints.ofString e'.1) := by
  have hsorted := List.pairwise_insertionSort
    (fun left right : String × List Char => Rust.encodeUtf16 left.1 ≤ Rust.encodeUtf16 right.1)
    members
  exact hsorted.imp fun hle => (nameLE_iff _ _).mpr hle

/-- **With every integer converted, Python writes what Rust writes.** -/
theorem canonicalJson_doubled {v : Python.Value} {w : Rust.Value} {seen : List ℕ}
    (h : SameJson v w) (hacyclic : v.Acyclic seen) (hkeys : w.NodupKeys) :
    Python.canonical seen (v.mapScalar doubled) = .ok (CodePoints.ofChars (Rust.writeValue w)) := by
  induction h generalizing seen with
  | scalar h => exact canonicalScalar_doubled h
  | @list r r' xs ys hlength h ih =>
      rcases hacyclic with - | ⟨hnew, hall⟩
      have hitems : (xs.map (Tree.mapScalar doubled)).map (Python.canonical (r :: seen)) =
          ((ys.map Rust.writeValue).map CodePoints.ofChars).map .ok := by
        apply List.ext_getElem (by simpa using hlength)
        intro i hi hi'
        simp only [List.length_map] at hi hi'
        simp only [List.getElem_map]
        exact ih i hi hi' (hall _ (List.getElem_mem hi)) (hkeys.items _ (List.getElem_mem hi'))
      rw [Tree.mapScalar_list, Python.canonical, if_neg hnew, Python.canonicalSequence,
        Python.canonicalItems_eq_map, hitems, mapM_eq_ok_iff.mpr (List.map_id _), Rust.writeValue,
        writeItems_eq_map]
      exact congrArg Except.ok (ofChars_bracketed '[' ']' _)
  | @dict r r' entries entries' hperm h ih =>
      rcases hacyclic with - | - | ⟨hnew, hall⟩
      have hnames : entries'.map (fun e => keyOf e.1) = (entries'.map Prod.fst).map keyOf := by
        rw [List.map_map]
        rfl
      rw [hnames] at hperm
      rcases exists_strKeys hperm with ⟨named, rfl, hnamed⟩
      -- every value has its counterpart, and so is written
      have hvalue : ∀ e ∈ named, ∀ e' ∈ entries', e.1 = CodePoints.ofString e'.1 →
          Python.canonical (r :: seen) (e.2.mapScalar doubled) =
            .ok (CodePoints.ofChars (Rust.writeValue e'.2)) := by
        intro e he e' he' hkey
        have hin : (Key.str e.1, e.2) ∈ Python.strKeys named := List.mem_map_of_mem he
        exact ih _ hin e' he' (congrArg Key.str hkey) (hall _ hin) (hkeys.entries e' he')
      have hcounterpart : ∀ e ∈ named, ∃ e' ∈ entries', e.1 = CodePoints.ofString e'.1 := by
        intro e he
        rcases List.mem_map.mp (hnamed.mem_iff.mp (List.mem_map_of_mem he)) with ⟨name, hname, heq⟩
        rcases List.mem_map.mp hname with ⟨e', he', rfl⟩
        exact ⟨e', he', heq.symm⟩
      have hnodup : (named.map Prod.fst).Nodup :=
        hnamed.nodup_iff.mpr ((List.nodup_map_iff ofString_injective).mpr hkeys.keys)
      have hmap : Tree.mapScalar doubled (.dict r (Python.strKeys named)) =
          .dict r (Python.strKeys (named.map fun e => (e.1, e.2.mapScalar doubled))) := by
        rw [Tree.mapScalar_dict, Python.strKeys, Python.strKeys, List.map_map, List.map_map]
        rfl
      have hnodup' : ((named.map fun e => (e.1, e.2.mapScalar doubled)).map Prod.fst).Nodup := by
        rwa [List.map_map]
      rw [hmap]
      have hreturns : Returns (Python.canonical seen
          (.dict r (Python.strKeys (named.map fun e => (e.1, e.2.mapScalar doubled))))) := by
        apply Python.returns_canonical_dict hnodup' _ hnew
        · rw [List.forall_mem_map]
          intro e he
          rcases hcounterpart e he with ⟨e', he', hkey⟩
          exact ⟨_, hvalue e he e' he' hkey⟩
        · rw [List.forall_mem_map]
          intro e he
          rcases hcounterpart e he with ⟨e', -, hkey⟩
          rw [hkey]
          exact CodePoints.wellFormed_ofString _
      rcases hreturns with ⟨text, htext⟩
      rcases Python.written_of_dict hnodup' hnew htext with
        ⟨written, hwritten, hsorted, htexts, rfl⟩
      rw [htext, Rust.writeValue, writeEntries_eq_map]
      have hperm' := perm_sortedMembers (entries'.map fun e => (e.1, Rust.writeValue e.2))
      have hsorted' := pairwise_sortedMembers (entries'.map fun e => (e.1, Rust.writeValue e.2))
      generalize Rust.sortedMembers (entries'.map fun e => (e.1, Rust.writeValue e.2)) = sorted
        at hperm' hsorted'
      -- both lists of names are the same names in the same order
      have hkeys' : written.map (fun m => m.1.1) = sorted.map fun e => CodePoints.ofString e.1 := by
        have hsame : (written.map fun m => m.1.1).Perm
            (sorted.map fun e => CodePoints.ofString e.1) := by
          have hfirst := hwritten.map Prod.fst
          have hlast := hperm'.map fun e => CodePoints.ofString e.1
          rw [List.map_map, List.map_map] at hfirst
          rw [List.map_map] at hlast hnamed
          exact hfirst.trans (hnamed.trans hlast.symm)
        have hlast : (sorted.map fun e => CodePoints.ofString e.1).Pairwise Python.NameLE :=
          List.pairwise_map.mpr hsorted'
        apply hsame.eq_of_pairwise _ (List.pairwise_map.mpr hsorted) hlast
        intro a b ha hb hab hba
        rcases List.mem_map.mp (hsame.mem_iff.mp ha) with ⟨e, -, rfl⟩
        rcases List.mem_map.mp hb with ⟨e', -, rfl⟩
        rw [eq_of_nameLE hab hba]
      have hmembers : written.map Python.member =
          (sorted.map fun e => Rust.writeString e.1 ++ ':' :: e.2).map CodePoints.ofChars := by
        rw [List.map_map]
        apply map_eq_map_of_keys hkeys'
        intro m hm e he hkey
        rcases List.mem_map.mp (hwritten.mem_iff.mp (List.mem_map_of_mem hm)) with ⟨d, hd, hm'⟩
        rcases List.mem_map.mp (hperm'.mem_iff.mp he) with ⟨e', he', rfl⟩
        have hown := htexts m hm
        rw [← hm'] at hown hkey
        have htext' := hown.symm.trans (hvalue d hd e' he' hkey)
        refine member_eq ?_ (Except.ok.inj htext')
        rw [← hm']
        exact hkey
      rw [hmembers]
      exact congrArg Except.ok (ofChars_bracketed '\x7b' '\x7d' _)

end Telemetry.Receipts
