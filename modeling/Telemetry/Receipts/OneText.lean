import Telemetry.Receipts.Ports

/-!
# One text for one value

Receipts are compared by digests of canonical JSON, and so the SDKs have to write one text for one
value, and two for two.

Python, Go and C# write an integer in full, and agree on every value that JSON has. Rust and
TypeScript have doubles only: they agree with the other three as far as the integers of a value
survive the conversion.

## Main definitions

* `Ported` — a value in Python, and what it is in Go and in C#.
* `Spells` — a text that one of the three writes for a value.

## Main results

* `one_text` — Python, Go and C# write one text.
* `one_text_iff` — **all five SDKs do if, and only if, every integer is kept**.
* `alike_of_spells` — **no text is written for two values**.
-/

namespace Telemetry.Receipts

open Telemetry.Lib
open Python (PyFloat)

/-! ## One text -/

variable {finite : PyFloat → Prop} {v : Python.Value}

theorem nodupKeys_of_plain (h : Python.Plain finite v) : v.NodupKeys := by
  induction h with
  | scalar _ => exact .scalar _
  | list _ ih => exact .list ih
  | dict _ hnodup _ ih =>
      refine .dict (Python.nodup_keys_strKeys hnodup) ?_
      exact List.forall_mem_map.mpr ih

theorem allScalars_of_plain (h : Python.Plain finite v) :
    v.AllScalars fun a => a.Plain finite := by
  induction h with
  | scalar h => exact .scalar h
  | list _ ih => exact .list ih
  | dict _ _ _ ih => exact .dict (List.forall_mem_map.mpr ih)

theorem allKeys_of_plain (h : Python.Plain finite v) :
    v.AllKeys fun key => (keyText key).WellFormed := by
  induction h with
  | scalar _ => exact .scalar _
  | list _ ih => exact .list ih
  | dict hnames _ _ ih =>
      exact .dict (List.forall_mem_map.mpr hnames) (List.forall_mem_map.mpr ih)

theorem wellFormed_joined {opening closing : String} {parts : List CodePoints}
    (h : ∀ part ∈ parts, part.WellFormed) :
    (CodePoints.ofString opening ++ Python.commaJoined parts ++
      CodePoints.ofString closing).WellFormed := by
  have hstring := CodePoints.wellFormed_ofString
  simp only [CodePoints.WellFormed, List.forall_mem_append] at hstring ⊢
  exact ⟨⟨hstring _, (CodePoints.forall_mem_intercalate (hstring _) parts).mpr h⟩, hstring _⟩

/-- **The text of a plain value has no surrogates.** -/
theorem wellFormed_write (h : Python.Plain finite v) (hwritten : Written v) (seen : List ℕ) :
    (pyScript.write seen v).WellFormed := by
  have hstring := CodePoints.wellFormed_ofString
  have hquoted : ∀ {text : CodePoints}, text.WellFormed → (Python.jsonString text).WellFormed :=
    fun htext => (Python.forall_mem_jsonString (fun _ => rfl) _).mpr htext
  refine Script.write_satisfies (K := fun key => (keyText key).WellFormed)
    (Q := fun a => Returns (Python.canonicalScalar a) ∧ a.Plain finite) (hstring _) ?_
    (fun parts => wellFormed_joined) ?_ (fun parts => wellFormed_joined)
    (hwritten.and (allScalars_of_plain h)) (allKeys_of_plain h)
  · rintro a ⟨⟨text, htext⟩, hplain⟩
    have hallowed : a.Allowed fun c => c.char?.isSome = true := by
      cases a with
      | int n =>
          exact (Python.yields_strInt_iff (q := fun _ => True) (fun _ => trivial) n).mp
            (Python.yields_true_iff.mpr ⟨text, htext⟩)
      | str _ => exact hplain
      | _ => trivial
    obtain ⟨text', htext', hall⟩ :=
      (Python.yields_canonicalScalar_iff (fun _ => rfl) a).mpr hallowed
    simp only [pyScript, htext']
    exact hall
  · intro key text hkey htext
    simp only [pyScript, CodePoints.WellFormed, List.forall_mem_append]
    exact ⟨⟨hquoted hkey, hstring _⟩, htext⟩

theorem Recodes.write {γ : Type} {encode : List Char → List γ} {recode : CodePoint → List γ}
    {κ α : Type} {S : Script κ α (List γ)} {f : κ → Python.Key} {R : Python.Scalar → α → Prop}
    (h : Recodes encode recode) (hT : Script.Translates pyScript S f R fun t => t.flatMap recode)
    {w : Tree κ ℕ α} (halike : Tree.Alike f R v w) (hplain : Python.Plain finite v)
    (hwritten : Written v) (hacyclic : v.Acyclic []) (hacyclic' : w.Acyclic []) {text : List Char}
    (htext : Python.canonicalJson v = .ok (CodePoints.ofChars text)) :
    S.write [] w = encode text := by
  have hwrite := canonical_eq_write hplain hwritten []
  rw [Python.canonicalJson, hwrite, Except.ok.injEq] at htext
  rw [Script.write_eq_of_alike hT halike hacyclic hacyclic' (nodupKeys_of_plain hplain), htext,
    h.ofChars]

/-- The canonical form of a plain value. -/
theorem exists_text (hplain : Python.Plain finite v) (hwritten : Written v) :
    ∃ text : List Char, Python.canonicalJson v = .ok (CodePoints.ofChars text) := by
  obtain ⟨text, htext⟩ := (wellFormed_write hplain hwritten []).exists_ofChars
  exact ⟨text, by rw [Python.canonicalJson, canonical_eq_write hplain hwritten, htext]⟩

theorem returns_of_natAbs_lt {n : ℤ} (h : n.natAbs < 2 ^ 64) :
    Returns (Python.canonicalScalar (.int n)) :=
  ⟨_, strInt_of_natAbs_lt (h.trans (by decide))⟩

theorem Go.returns_of_represents {a : Python.Scalar} {b : Go.Scalar} (h : Go.Represents a b) :
    Returns (Python.canonicalScalar a) := by
  cases a with
  | int n =>
      cases b with
      | int64 m hm =>
          cases h
          exact returns_of_natAbs_lt (by omega)
      | uint64 m hm =>
          cases h
          exact returns_of_natAbs_lt (by omega)
      | _ => exact h.elim
  | float x => exact ⟨_, canonicalScalar_float x⟩
  | other => cases b <;> exact h.elim
  | _ => exact ⟨_, rfl⟩

theorem CSharp.returns_of_represents {a : Python.Scalar} {b : CSharp.Scalar}
    (h : CSharp.Represents a b) : Returns (Python.canonicalScalar a) := by
  cases a with
  | int n =>
      cases b with
      | int64 m hm =>
          cases h
          exact returns_of_natAbs_lt (by omega)
      | uint64 m hm =>
          cases h
          exact returns_of_natAbs_lt (by omega)
      | _ => exact h.elim
  | float x => exact ⟨_, canonicalScalar_float x⟩
  | _ => exact ⟨_, rfl⟩

/-- A value in Python and its counterparts in Go and in C#. -/
structure Ported (v : Python.Value) (g : Go.Value) (c : CSharp.Value) : Prop where
  go : Tree.Alike Go.keyOf Go.Represents v g
  csharp : Tree.Alike keyOfUnits CSharp.Represents v c
  acyclic : v.Acyclic []
  acyclic_go : g.Acyclic []
  acyclic_csharp : c.Acyclic []

namespace Ported

variable {g : Go.Value} {c : CSharp.Value}

theorem written (h : Ported v g c) : Written v := h.go.allScalars Go.returns_of_represents

theorem canonicalJSON (h : Ported v g c) (hplain : Python.Plain finite v) {text : List Char}
    (htext : Python.canonicalJson v = .ok (CodePoints.ofChars text)) :
    Go.canonicalJSON g = Utf8.encode text :=
  Go.recodes.write Go.translates h.go hplain h.written h.acyclic h.acyclic_go htext

theorem serialize (h : Ported v g c) (hplain : Python.Plain finite v) {text : List Char}
    (htext : Python.canonicalJson v = .ok (CodePoints.ofChars text)) :
    CSharp.serialize c = utf16 text :=
  recodes_toUnits.write CSharp.translates h.csharp hplain h.written h.acyclic h.acyclic_csharp
    htext

end Ported

/-- **Python, Go and C# write one text** for every value that JSON has. -/
theorem one_text {g : Go.Value} {c : CSharp.Value} (hplain : Python.Plain finite v)
    (h : Ported v g c) :
    ∃ text : List Char, Python.canonicalJson v = .ok (CodePoints.ofChars text) ∧
      Go.canonicalJSON g = Utf8.encode text ∧ CSharp.serialize c = utf16 text := by
  obtain ⟨text, htext⟩ := exists_text hplain h.written
  exact ⟨text, htext, h.canonicalJSON hplain htext, h.serialize hplain htext⟩

/-- `{"n": [12, "é"]}`, in the five languages. -/
def sampleValue : Python.Value :=
  .dict 0 [(keyOf "n", .list 1 [.scalar (.int 12), .scalar (.str (CodePoints.ofString "é"))])]

def sampleGo : Go.Value :=
  .dict 0 [([0x6e], .list 1 [.scalar (.int64 12 (by decide)), .scalar (.string [0xc3, 0xa9])])]

def sampleCSharp : CSharp.Value :=
  .dict 0 [([0x6e], .list 1 [.scalar (.int64 12 (by decide)), .scalar (.string [0xe9])])]

def sampleRust : Rust.Value :=
  .dict () [("n", .list () [.scalar (.number (.posInt 12 (by decide))), .scalar (.string "é")])]

def sampleTypeScript : TypeScript.Value :=
  .dict 0 [([0x6e], .list 1 [.scalar (.number (.ofInt 12)),
    .scalar (.string [0xe9])])]

theorem sampleValue_acyclic : sampleValue.Acyclic [] := by
  refine .dict (by decide) (List.forall_mem_singleton.mpr (.list (by decide) ?_))
  simpa using ⟨.scalar _, .scalar _⟩

theorem sampleValue_same : SameJson sampleValue sampleRust := by
  refine .dict (.refl _) ?_
  simp only [List.forall_mem_singleton]
  exact fun _ => .of_forall₂ _ _ (.cons (.scalar rfl) (.cons (.scalar rfl) .nil))

theorem sampleRust_nodupKeys : sampleRust.NodupKeys := by
  refine .dict (by decide) (List.forall_mem_singleton.mpr (.list ?_))
  simpa using ⟨.scalar _, .scalar _⟩

theorem sampleValue_ported : Ported sampleValue sampleGo sampleCSharp where
  go := by
    refine .dict (.of_eq rfl) ?_
    simp only [List.forall_mem_singleton]
    exact fun _ => .of_forall₂ _ _ (.cons (.scalar rfl) (.cons (.scalar rfl) .nil))
  csharp := by
    refine .dict (.of_eq rfl) ?_
    simp only [List.forall_mem_singleton]
    exact fun _ => .of_forall₂ _ _ (.cons (.scalar rfl) (.cons (.scalar rfl) .nil))
  acyclic := sampleValue_acyclic
  acyclic_go := by
    refine .dict (by decide) (List.forall_mem_singleton.mpr (.list (by decide) ?_))
    simpa using ⟨.scalar _, .scalar _⟩
  acyclic_csharp := by
    refine .dict (by decide) (List.forall_mem_singleton.mpr (.list (by decide) ?_))
    simpa using ⟨.scalar _, .scalar _⟩

theorem one_text_sample : ∃ text : List Char,
    Python.canonicalJson sampleValue = .ok (CodePoints.ofChars text) ∧
      Go.canonicalJSON sampleGo = Utf8.encode text ∧ CSharp.serialize sampleCSharp = utf16 text :=
  one_text (plain_of_sameJson sampleValue_same sampleRust_nodupKeys) sampleValue_ported

/-! ## Doubles only -/

theorem TypeScript.returns_of_represents {a : Python.Scalar} {b : TypeScript.Scalar}
    (h : TypeScript.Represents a b) : Returns (Python.canonicalScalar a) := by
  cases a with
  | int n => cases b <;> exact h.elim
  | float x => exact ⟨_, canonicalScalar_float x⟩
  | _ => exact ⟨_, rfl⟩

variable {w : Rust.Value} {t : TypeScript.Value}

/-- **TypeScript and Rust write one text**: both have doubles only. -/
theorem canonicalJson_of_doubles (hsame : SameJson v w) (hkeys : w.NodupKeys)
    (hacyclic : v.Acyclic [])
    (h : Tree.Alike keyOfUnits TypeScript.Represents (v.mapScalar doubled) t)
    (hacyclic' : t.Acyclic []) : TypeScript.canonicalJson t = utf16 (Rust.canonicalJson w) :=
  TypeScript.recodes_toEscaped.write TypeScript.translates h
    (plain_mapScalar_doubled (plain_of_sameJson hsame hkeys))
    (h.allScalars TypeScript.returns_of_represents) (hacyclic.mapScalar doubled) hacyclic'
    (canonicalJson_doubled hsame hacyclic hkeys)

/-- A value whose integers are kept is written as it is with its integers converted. -/
theorem canonicalJson_of_kept (hsame : SameJson v w) (hkeys : w.NodupKeys) (hacyclic : v.Acyclic [])
    (hkept : v.AllScalars Python.Scalar.Kept) :
    Python.canonicalJson v = .ok (CodePoints.ofChars (Rust.canonicalJson w)) := by
  have hwritten := (hkept.and (hsame.allScalars inWord_of_represents)).imp fun h =>
    canonicalScalar_doubled_of_kept h.1 h.2
  rw [Python.canonicalJson, ← canonical_mapScalar hwritten []]
  exact canonicalJson_doubled hsame hacyclic hkeys

/-- Only a value whose integers are kept is. -/
theorem kept_of_canonicalJson (hsame : SameJson v w) (hkeys : w.NodupKeys)
    (hacyclic : v.Acyclic [])
    (h : Python.canonicalJson v = .ok (CodePoints.ofChars (Rust.canonicalJson w))) :
    v.AllScalars Python.Scalar.Kept := by
  have hplain := plain_of_sameJson hsame hkeys
  have hsplits := Python.toldApart v (v.mapScalar doubled) [] [] _ _ hplain
    (plain_mapScalar_doubled hplain) hacyclic (hacyclic.mapScalar doubled) h
    (canonicalJson_doubled hsame hacyclic hkeys)
  exact (Tree.allScalars_of_alike_mapScalar (hsplits.of_eq rfl)).imp kept_of_sameValue

/-- **All five SDKs write one text** for a value if, and only if, its integers are kept by the
conversion to doubles. -/
theorem one_text_iff {g : Go.Value} {c : CSharp.Value} (hsame : SameJson v w)
    (hkeys : w.NodupKeys) (hported : Ported v g c)
    (h : Tree.Alike keyOfUnits TypeScript.Represents (v.mapScalar doubled) t)
    (hacyclic : t.Acyclic []) :
    (∃ text : List Char, Python.canonicalJson v = .ok (CodePoints.ofChars text) ∧
      Go.canonicalJSON g = Utf8.encode text ∧ CSharp.serialize c = utf16 text ∧
      Rust.canonicalJson w = text ∧ TypeScript.canonicalJson t = utf16 text) ↔
    v.AllScalars Python.Scalar.Kept := by
  constructor
  · rintro ⟨text, hpython, -, -, hrust, -⟩
    exact kept_of_canonicalJson hsame hkeys hported.acyclic (by rw [hpython, hrust])
  · intro hkept
    have hpython := canonicalJson_of_kept hsame hkeys hported.acyclic hkept
    have hplain := plain_of_sameJson hsame hkeys
    exact ⟨_, hpython, hported.canonicalJSON hplain hpython, hported.serialize hplain hpython, rfl,
      canonicalJson_of_doubles hsame hkeys hported.acyclic h hacyclic⟩

theorem one_text_iff_sample : ∃ text : List Char,
    Python.canonicalJson sampleValue = .ok (CodePoints.ofChars text) ∧
      Go.canonicalJSON sampleGo = Utf8.encode text ∧ CSharp.serialize sampleCSharp = utf16 text ∧
      Rust.canonicalJson sampleRust = text ∧
      TypeScript.canonicalJson sampleTypeScript = utf16 text := by
  refine (one_text_iff sampleValue_same sampleRust_nodupKeys sampleValue_ported ?_ ?_).mpr ?_
  · refine .dict (.of_eq rfl) ?_
    simp only [Tree.mapScalarEntries, List.forall_mem_singleton]
    exact fun _ => .of_forall₂ _ _ (.cons (.scalar rfl) (.cons (.scalar rfl) .nil))
  · refine .dict (by decide) (List.forall_mem_singleton.mpr (.list (by decide) ?_))
    simpa using ⟨.scalar _, .scalar _⟩
  · refine .dict (List.forall_mem_singleton.mpr (.list ?_))
    simpa using ⟨.scalar (kept_of_natAbs_le (by decide)), .scalar trivial⟩

/-! ## One value -/

theorem utf16_injective : Function.Injective utf16 := by
  have hunits : ∀ cs, (utf16 cs).map UInt16.toNat = cs.flatMap CodePoints.utf16Units := by
    intro cs
    rw [utf16, List.map_map]
    refine (List.map_congr_left fun u hu => ?_).trans (List.map_id _)
    obtain ⟨c, -, hc⟩ := List.mem_flatMap.mp hu
    have hlt := CodePoints.utf16Units_lt c u hc
    rw [Function.comp_apply, Nat.toUInt16_eq, UInt16.toNat_ofNat', Nat.mod_eq_of_lt hlt]
    rfl
  intro cs ds h
  apply CodePoints.utf16_injective
  rw [← hunits, ← hunits, h]

/-- The value is written as the text in Python, or as its counterpart in Go or in C# is. -/
inductive Spells (v : Python.Value) (text : List Char) : Prop
  | python (h : Python.canonicalJson v = .ok (CodePoints.ofChars text))
  | go {g : Go.Value} (hgo : Tree.Alike Go.keyOf Go.Represents v g) (hacyclic : g.Acyclic [])
      (h : Go.canonicalJSON g = Utf8.encode text)
  | csharp {c : CSharp.Value} (hcsharp : Tree.Alike keyOfUnits CSharp.Represents v c)
      (hacyclic : c.Acyclic []) (h : CSharp.serialize c = utf16 text)

/-- However it is written, it is written so in Python. -/
theorem Spells.canonicalJson (hplain : Python.Plain finite v) (hacyclic : v.Acyclic [])
    {text : List Char} (h : Spells v text) :
    Python.canonicalJson v = .ok (CodePoints.ofChars text) := by
  cases h with
  | python h => exact h
  | go hgo hacyclic' h =>
      have hwritten : Written v := hgo.allScalars Go.returns_of_represents
      obtain ⟨text', htext'⟩ := exists_text hplain hwritten
      have hsame := Go.recodes.write Go.translates hgo hplain hwritten hacyclic hacyclic' htext'
      rw [htext', Utf8.encode_injective (hsame.symm.trans h)]
  | csharp hcsharp hacyclic' h =>
      have hwritten : Written v := hcsharp.allScalars CSharp.returns_of_represents
      obtain ⟨text', htext'⟩ := exists_text hplain hwritten
      have hsame := recodes_toUnits.write CSharp.translates hcsharp hplain hwritten hacyclic
        hacyclic' htext'
      rw [htext', utf16_injective (hsame.symm.trans h)]

/-- **No text is written for two values**, whichever SDKs write it: they are alike up to the order
of their members and to numbers that denote equal doubles. -/
theorem alike_of_spells {v' : Python.Value} {text : List Char}
    (hplain : Python.Plain Python.IsDouble v) (hplain' : Python.Plain Python.IsDouble v')
    (hacyclic : v.Acyclic []) (hacyclic' : v'.Acyclic []) (h : Spells v text)
    (h' : Spells v' text) : Tree.Alike id Python.SameNumber v v' := by
  have htext := h.canonicalJson hplain hacyclic
  have htext' := h'.canonicalJson hplain' hacyclic'
  have hsplits := Python.toldApart v v' [] [] _ _ hplain.isFinite hplain'.isFinite hacyclic
    hacyclic' htext htext'
  exact Python.alike_sameNumber (hsplits.of_eq rfl) hplain hplain'

/-- `[12]` of Go and `[12.0]` of C# are one text, and one number. -/
theorem alike_of_spells_twelve :
    let v : Python.Value := .list 1 [.scalar (.int 12)]
    let v' : Python.Value := .list 1 [.scalar (.float (.ofInt 12))]
    Tree.Alike id Python.SameNumber v v' := by
  intro v v'
  have hdouble : (Python.Scalar.float (.ofInt 12)).double.isSome = true := by decide +kernel
  have hgo : Spells v "[12]".toList := by
    refine .go (g := .list 1 [.scalar (.int64 12 (by decide))]) ?_ ?_ ?_
    · exact .of_forall₂ _ _ (.cons (.scalar rfl) .nil)
    · exact .list (by decide) (List.forall_mem_singleton.mpr (.scalar _))
    · decide
  have hcsharp : Spells v' "[12]".toList := by
    refine .csharp (c := .list 1 [.scalar (.double (.ofInt 12))]) ?_ ?_ ?_
    · exact .of_forall₂ _ _ (.cons (.scalar rfl) .nil)
    · exact .list (by decide) (List.forall_mem_singleton.mpr (.scalar _))
    · decide +kernel
  refine alike_of_spells ?_ ?_ ?_ ?_ hgo hcsharp
  · exact .list (List.forall_mem_singleton.mpr (.scalar trivial))
  · exact .list (List.forall_mem_singleton.mpr (.scalar hdouble))
  · exact .list (by decide) (List.forall_mem_singleton.mpr (.scalar _))
  · exact .list (by decide) (List.forall_mem_singleton.mpr (.scalar _))

end Telemetry.Receipts
