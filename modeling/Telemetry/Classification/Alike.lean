import Telemetry.Classification.Readings

/-!
# One rule list in four SDKs

The label of a key is that of the first rule whose pattern matches it. Where an SDK reads a pattern
in another way than as a glob, what matters is the first rule on which the two are not silent: both
take it, or the one that does not comes to the same label with a later rule.

## Main definitions

* `Alike` — the four SDKs give the label of the first rule whose pattern matches.
* `Settled` — two ways to read the patterns come to the same label.
* `PlainKey` — a key without separators and line terminators.

## Main results

* `alike_iff_settled` — **on which rules and keys the SDKs agree**.
* `alike_iff_plain` — the rules and the keys on which they agree whatever the other is.
-/

namespace Telemetry.Classification

open Telemetry.Lib Telemetry.Glob

/-- The four SDKs give the expected label, or none where there is none. -/
structure Alike (rules : List ClassificationRule) (key : List Char) : Prop where
  python : Python.classifyField rules key = (expected rules key).map DataClass.value
  rust : Rust.classifyKey rules key = (expected rules key).map DataClass.value
  go : Go.classifyField rules key = ((expected rules key).map DataClass.value).getD ""
  typescript : TypeScript.classifyField rules key = (expected rules key).map DataClass.value

/-- The first rule with the property has the label. -/
def FirstIs (P : ClassificationRule → Prop) (label : DataClass)
    (rules : List ClassificationRule) : Prop :=
  ∃ before rule after, rules = before ++ rule :: after ∧ (∀ r ∈ before, ¬ P r) ∧ P rule ∧
    rule.classification = label

/-- **The first rule that matters**, which one of two ways to read the patterns takes, is taken by
the other as well; or the first later rule that the other one takes has its label. -/
def Settled (P Q : ClassificationRule → Prop) (rules : List ClassificationRule) : Prop :=
  ∀ before rule after, rules = before ++ rule :: after → (∀ r ∈ before, ¬ P r ∧ ¬ Q r) →
    (P rule → Q rule ∨ FirstIs Q rule.classification after) ∧
      (Q rule → P rule ∨ FirstIs P rule.classification after)

/-- The rules before the first pattern that has no expression. -/
def TypeScript.registered (rules : List ClassificationRule) : List ClassificationRule :=
  rules.takeWhile fun rule => Compiles rule.pattern

/-- No character of the key is a separator or ends a line. -/
def PlainKey (key : List Char) : Prop :=
  ∀ c ∈ key, c ≠ Go.separator ∧ c.toNat ∉ TypeScript.lineTerminators

/-! ## The first rule -/

section FirstIs

variable {P Q : ClassificationRule → Prop} {rule : ClassificationRule}
  {rules : List ClassificationRule} {label label' : DataClass}

theorem not_firstIs_nil : ¬ FirstIs P label [] := by
  rintro ⟨before, rule, after, h, -⟩
  exact List.append_ne_nil_of_right_ne_nil before (List.cons_ne_nil rule after) h.symm

theorem firstIs_cons : FirstIs P label (rule :: rules) ↔
    (P rule ∧ rule.classification = label) ∨ (¬ P rule ∧ FirstIs P label rules) := by
  constructor
  · rintro ⟨before, first, after, h, hbefore, hfirst, hlabel⟩
    cases before with
    | nil =>
        obtain ⟨rfl, -⟩ := List.cons_eq_cons.mp h
        exact .inl ⟨hfirst, hlabel⟩
    | cons r before =>
        obtain ⟨rfl, rfl⟩ := List.cons_eq_cons.mp h
        rw [List.forall_mem_cons] at hbefore
        exact .inr ⟨hbefore.1, before, first, after, rfl, hbefore.2, hfirst, hlabel⟩
  · rintro (⟨h, hlabel⟩ | ⟨h, before, first, after, rfl, hbefore, hfirst, hlabel⟩)
    · exact ⟨[], rule, rules, rfl, List.forall_mem_nil _, h, hlabel⟩
    · exact ⟨rule :: before, first, after, rfl, List.forall_mem_cons.mpr ⟨h, hbefore⟩, hfirst,
        hlabel⟩

theorem FirstIs.unique (h : FirstIs P label rules) (h' : FirstIs P label' rules) :
    label = label' := by
  induction rules with
  | nil => exact absurd h not_firstIs_nil
  | cons rule rules ih =>
      obtain ⟨hrule, rfl⟩ | ⟨hrule, h⟩ := firstIs_cons.mp h <;>
        obtain ⟨hrule', rfl⟩ | ⟨hrule', h'⟩ := firstIs_cons.mp h'
      · rfl
      · exact absurd hrule hrule'
      · exact absurd hrule' hrule
      · exact ih h h'

theorem exists_firstIs (hmem : rule ∈ rules) (h : P rule) : ∃ label, FirstIs P label rules := by
  induction rules with
  | nil => cases hmem
  | cons r rules ih =>
      by_cases hr : P r
      · exact ⟨_, firstIs_cons.mpr (.inl ⟨hr, rfl⟩)⟩
      · obtain rfl | hmem := List.mem_cons.mp hmem
        · exact absurd h hr
        · obtain ⟨label, hlabel⟩ := ih hmem
          exact ⟨label, firstIs_cons.mpr (.inr ⟨hr, hlabel⟩)⟩

/-- The rule that a search finds. -/
theorem find?_label_eq_some_iff {f : ClassificationRule → Bool}
    (h : ∀ rule ∈ rules, f rule = true ↔ P rule) :
    (rules.find? f).map (·.classification) = some label ↔ FirstIs P label rules := by
  induction rules with
  | nil => exact iff_of_false nofun not_firstIs_nil
  | cons rule rules ih =>
      rw [List.forall_mem_cons] at h
      rw [firstIs_cons, List.find?_cons, ← ih h.2, ← h.1]
      cases f rule <;> simp

/-- Where the rules from some rule on are left out. -/
theorem firstIs_takeWhile_iff {f : ClassificationRule → Bool} :
    FirstIs P label (rules.takeWhile f) ↔
      FirstIs (fun rule => rule ∈ rules.takeWhile f ∧ P rule) label rules := by
  have hof {label : DataClass} (h : FirstIs P label (rules.takeWhile f)) :
      FirstIs (fun rule => rule ∈ rules.takeWhile f ∧ P rule) label rules := by
    obtain ⟨before, rule, after, htake, hbefore, hrule, hlabel⟩ := h
    refine ⟨before, rule, after ++ rules.dropWhile f, ?_, fun r hr h => hbefore r hr h.2,
      ⟨by simp [htake], hrule⟩, hlabel⟩
    conv_lhs => rw [← List.takeWhile_append_dropWhile (p := f) (l := rules), htake]
    simp
  refine ⟨hof, fun h => ?_⟩
  obtain ⟨before, rule, after, -, -, ⟨hmem, hrule⟩, -⟩ := id h
  obtain ⟨label', h'⟩ := exists_firstIs hmem hrule
  obtain rfl := h.unique (hof h')
  exact h'

theorem settled_cons : Settled P Q (rule :: rules) ↔
    ((P rule → Q rule ∨ FirstIs Q rule.classification rules) ∧
      (Q rule → P rule ∨ FirstIs P rule.classification rules)) ∧
    (¬ P rule → ¬ Q rule → Settled P Q rules) := by
  constructor
  · intro h
    refine ⟨h [] rule rules rfl (List.forall_mem_nil _), ?_⟩
    intro hP hQ before r after hrules hbefore
    exact h (rule :: before) r after (by rw [hrules]; rfl)
      (List.forall_mem_cons.mpr ⟨⟨hP, hQ⟩, hbefore⟩)
  · rintro ⟨hrule, hrest⟩ before r after h hbefore
    cases before with
    | nil =>
        obtain ⟨rfl, rfl⟩ := List.cons_eq_cons.mp h
        exact hrule
    | cons b before =>
        obtain ⟨rfl, rfl⟩ := List.cons_eq_cons.mp h
        rw [List.forall_mem_cons] at hbefore
        exact hrest hbefore.1.1 hbefore.1.2 before r after rfl hbefore.2

theorem settled_nil : Settled P Q [] := by
  rintro before rule after h
  exact absurd h.symm (List.append_ne_nil_of_right_ne_nil before (List.cons_ne_nil rule after))

/-- One rule is to be taken by both or by none. -/
theorem settled_singleton : Settled P Q [rule] ↔ (P rule ↔ Q rule) := by
  simp only [settled_cons, not_firstIs_nil, or_false, settled_nil, implies_true, and_true]
  exact ⟨fun h => ⟨h.1, h.2⟩, fun h => ⟨h.mp, h.mpr⟩⟩

theorem settled_of_iff (h : ∀ rule ∈ rules, P rule ↔ Q rule) : Settled P Q rules := by
  rintro before rule after rfl -
  have hrule := h rule (List.mem_append_right _ List.mem_cons_self)
  exact ⟨fun hP => .inl (hrule.mp hP), fun hQ => .inl (hrule.mpr hQ)⟩

/-- **Two ways to read the patterns** come to the same label iff the first rule that matters is
settled. -/
theorem firstIs_iff_settled :
    (∀ label, FirstIs P label rules ↔ FirstIs Q label rules) ↔ Settled P Q rules := by
  induction rules with
  | nil => exact iff_of_true (fun _ => iff_of_false not_firstIs_nil not_firstIs_nil) settled_nil
  | cons rule rules ih =>
      simp only [settled_cons, firstIs_cons]
      by_cases hP : P rule <;> by_cases hQ : Q rule <;>
        simp only [hP, hQ, true_and, false_and, not_true, not_false_iff, true_or, false_or,
          or_false, true_imp_iff, false_imp_iff, and_true, implies_true, iff_self]
      · exact ⟨fun h => (h _).mp rfl, fun h label => ⟨fun heq => heq ▸ h, h.unique⟩⟩
      · exact ⟨fun h => (h _).mpr rfl, fun h label => ⟨fun h' => h.unique h', fun heq => heq ▸ h⟩⟩
      · exact ih

end FirstIs

/-! ## The labels -/

variable {rules : List ClassificationRule} {rule : ClassificationRule} {key : List Char}

theorem expected_eq_some_iff {label : DataClass} : expected rules key = some label ↔
    FirstIs (fun rule => ReadsGlob rule.pattern key) label rules :=
  find?_label_eq_some_iff fun _ _ => decide_eq_true_iff

/-- The label that a search comes to is the expected one iff its way to read the patterns is
settled. -/
theorem label_eq_expected_iff {Q : ClassificationRule → Prop} {found : Option DataClass}
    (h : ∀ label, found = some label ↔ FirstIs Q label rules) :
    found.map DataClass.value = (expected rules key).map DataClass.value ↔
      Settled (fun rule => ReadsGlob rule.pattern key) Q rules := by
  rw [(Option.map_injective DataClass.value_injective).eq_iff, ← firstIs_iff_settled, eq_comm,
    Option.ext_iff]
  exact forall_congr' fun label => by rw [h, expected_eq_some_iff]

/-- The value of the label that a search finds. -/
theorem find?_value (f : ClassificationRule → Bool) :
    (rules.find? f).map (·.classification.value) =
      ((rules.find? f).map (·.classification)).map DataClass.value := by
  rw [Option.map_map]
  rfl

theorem Python.classifyField_eq :
    classifyField rules key = (expected rules key).map DataClass.value := by
  rw [classifyField, find?_value]
  exact (label_eq_expected_iff fun label => find?_label_eq_some_iff fun _ _ => test_iff).mpr
    (settled_of_iff fun _ _ => Iff.rfl)

theorem Rust.classifyKey_eq_iff :
    classifyKey rules key = (expected rules key).map DataClass.value ↔
      Settled (fun rule => ReadsGlob rule.pattern key) (fun rule => Reads rule.pattern key)
        rules := by
  rw [classifyKey, find?_value]
  exact label_eq_expected_iff fun label => find?_label_eq_some_iff fun _ _ => matchGlob_iff

theorem DataClass.value_ne_empty (c : DataClass) : c.value ≠ "" := by
  cases c <;> decide

/-- An empty answer is no label. -/
theorem getD_value_eq_iff (o o' : Option DataClass) :
    (o.map DataClass.value).getD "" = (o'.map DataClass.value).getD "" ↔
      o.map DataClass.value = o'.map DataClass.value := by
  cases o <;> cases o' <;> simp [DataClass.value_ne_empty, (DataClass.value_ne_empty _).symm]

theorem Go.classifyField_eq_iff :
    classifyField rules key = ((expected rules key).map DataClass.value).getD "" ↔
      Settled (fun rule => ReadsGlob rule.pattern key) (fun rule => Reads rule.pattern key)
        rules := by
  rw [classifyField, find?_value, getD_value_eq_iff]
  exact label_eq_expected_iff fun label => find?_label_eq_some_iff fun _ _ => filepathMatch_iff

namespace TypeScript

/-- Whether the expression of a rule matches a key. -/
def matchesRule (key : List Char) (rule : ClassificationRule) : Bool :=
  (compileGlob rule.pattern.text).any fun compiled => regExpTest compiled (units key)

theorem compiles_of_mem_registered (h : rule ∈ registered rules) :
    Compiles rule.pattern = true :=
  (List.mem_takeWhile_imp h :)

theorem matchesRule_iff (h : rule ∈ registered rules) :
    matchesRule key rule = true ↔ Reads rule.pattern key := by
  have hcompiles := compiles_of_mem_registered h
  rw [← isSome_compileGlob, Option.isSome_iff_exists] at hcompiles
  obtain ⟨compiled, hcompiled⟩ := hcompiles
  rw [matchesRule, hcompiled, Option.any_some, regExpTest_iff hcompiled]

/-- The first registered rule whose expression matches. -/
theorem classifyField_eq : classifyField rules key =
    ((registered rules).find? (matchesRule key)).map (·.classification.value) := by
  induction rules with
  | nil => rfl
  | cons rule rules ih =>
      rw [classifyField] at ih ⊢
      rw [registerClassificationRules, registered, List.takeWhile_cons, ← isSome_compileGlob]
      cases hcompiled : compileGlob rule.pattern.text with
      | none => rfl
      | some compiled =>
          have hmatches : matchesRule key rule = regExpTest compiled (units key) := by
            rw [matchesRule, hcompiled, Option.any_some]
          simp only [Option.isSome_some, if_true, List.find?_cons, hmatches]
          cases regExpTest compiled (units key) with
          | true => rfl
          | false => exact ih

theorem classifyField_eq_iff :
    classifyField rules key = (expected rules key).map DataClass.value ↔
      Settled (fun rule => ReadsGlob rule.pattern key)
        (fun rule => rule ∈ registered rules ∧ Reads rule.pattern key) rules := by
  rw [classifyField_eq, find?_value]
  refine label_eq_expected_iff fun label => ?_
  rw [find?_label_eq_some_iff fun rule => matchesRule_iff, registered]
  exact firstIs_takeWhile_iff

end TypeScript

/-- **On which rules and keys the SDKs agree**: in each SDK but Python, which always does as
expected, the first rule is settled that is taken as a glob or by that SDK. -/
theorem alike_iff_settled (rules : List ClassificationRule) (key : List Char) :
    Alike rules key ↔
      Settled (fun rule => ReadsGlob rule.pattern key) (fun rule => Rust.Reads rule.pattern key)
        rules ∧
      Settled (fun rule => ReadsGlob rule.pattern key) (fun rule => Go.Reads rule.pattern key)
        rules ∧
      Settled (fun rule => ReadsGlob rule.pattern key)
        (fun rule => rule ∈ TypeScript.registered rules ∧ TypeScript.Reads rule.pattern key)
        rules := by
  rw [← Rust.classifyKey_eq_iff, ← Go.classifyField_eq_iff, ← TypeScript.classifyField_eq_iff]
  constructor
  · intro h
    exact ⟨h.rust, h.go, h.typescript⟩
  · rintro ⟨hrust, hgo, htypescript⟩
    exact ⟨Python.classifyField_eq, hrust, hgo, htypescript⟩

/-- A key with a separator, one with a character of two bytes and one that a mark is to match. -/
theorem classified_apart :
    ¬ Alike [⟨⟨"*password*".toList, by simp⟩, .SECRET⟩] "db/password".toList ∧
    ¬ Alike [⟨⟨"n?m".toList, by simp⟩, .PII⟩] "ném".toList ∧
    ¬ Alike [⟨⟨"id?".toList, by simp⟩, .PII⟩] "id1".toList := by
  refine ⟨fun h => absurd h.go ?_, fun h => absurd h.rust ?_, fun h => absurd h.typescript ?_⟩ <;>
    decide

/-! ## Every key, and every rule list without marks -/

/-- What the wildcards leave out does not matter if the key has none of it, or the pattern has no
wildcards. -/
theorem matches_plain_iff {p : Pattern} {f : Char → Bool} (hmark : ¬ p.HasMark)
    (h : p.HasStar → ∀ c ∈ key, f c = true) :
    Matches f p.tokens key ↔ ReadsGlob p key := by
  by_cases hstar : p.HasStar
  · exact matches_congr (h hstar)
  · rw [ReadsGlob, tokens_eq_lits hstar hmark, matches_lits, matches_lits]

/-- **Without a mark, and without what a star leaves out, the SDKs agree.** -/
theorem alike_of_plain (hmark : ∀ rule ∈ rules, ¬ rule.pattern.HasMark)
    (hkey : ∀ rule ∈ rules, rule.pattern.HasStar → PlainKey key) : Alike rules key := by
  refine (alike_iff_settled rules key).mpr ⟨?_, ?_, ?_⟩ <;>
    refine settled_of_iff fun rule hrule => ?_
  · exact (Rust.reads_iff_of_not_hasMark (hmark rule hrule)).symm
  · rw [← Go.filepathMatch_iff, Go.filepathMatch, test_iff]
    exact (matches_plain_iff (hmark rule hrule) fun hstar c hc =>
      bne_iff_ne.mpr (hkey rule hrule hstar c hc).1).symm
  · have hregistered : TypeScript.registered rules = rules :=
      List.takeWhile_eq_self_iff.mpr fun r hr => TypeScript.compiles_of_not_hasMark (hmark r hr)
    rw [hregistered, and_iff_right hrule, TypeScript.reads_iff_matches (hmark rule hrule)]
    exact (matches_plain_iff (hmark rule hrule) fun hstar c hc =>
      decide_eq_true (hkey rule hrule hstar c hc).2).symm

/-- A pattern that consists of a star. -/
def anything : Pattern := ⟨['*'], by simp⟩

theorem readsGlob_anything : ReadsGlob anything key :=
  ⟨key, [], (List.append_nil key).symm, fun _ _ => rfl, rfl⟩

/-- **The rules and the keys on which the SDKs agree whatever the other is**: a rule on every key
iff its pattern has no wildcards; a key under every rule list without marks iff it is plain; and no
key under every rule with marks. -/
theorem alike_iff_plain (rule : ClassificationRule) (key : List Char) :
    ((∀ key, Alike [rule] key) ↔ ¬ rule.pattern.HasStar ∧ ¬ rule.pattern.HasMark) ∧
    ((∀ rules, (∀ r ∈ rules, ¬ r.pattern.HasMark) → Alike rules key) ↔ PlainKey key) ∧
    ∃ rule, rule.pattern.HasMark ∧ ¬ Alike [rule] key := by
  refine ⟨⟨fun h => ?_, fun h key => ?_⟩,
    ⟨fun h => ?_, fun h rules hmark => alike_of_plain hmark fun _ _ _ => h⟩, ?_⟩
  -- a rule with a wildcard, on the key with a separator for each of them
  · by_contra hwild
    rw [← star_mem_tokens_iff, ← one_mem_tokens_iff, ← not_or, not_not] at hwild
    have hgo := ((alike_iff_settled _ _).mp
      (h (rule.pattern.tokens.map (Token.fill Go.separator)))).2.1
    have hcount := ((settled_singleton.mp hgo).mp (matches_fill rfl)).2
    rw [List.count_eq_countP (l := rule.pattern.text),
      ← countP_literals _ (by decide) (by decide), ← List.count_eq_countP] at hcount
    exact (count_literals_lt hwild).ne hcount.symm
  · exact alike_of_plain (by simpa using h.2) (by simpa using fun hstar => absurd hstar h.1)
  -- a key that is not plain, under the star
  · obtain ⟨-, hgo, htypescript⟩ := (alike_iff_settled _ _).mp
      (h [⟨anything, .PII⟩] (by simpa using by decide))
    have hseparator := ((settled_singleton.mp hgo).mp readsGlob_anything).2
    have hline := ((settled_singleton.mp htypescript).mp readsGlob_anything).2
    rw [TypeScript.reads_iff_of_not_hasMark (by decide)] at hline
    intro c hc
    constructor
    · rintro rfl
      exact absurd hc (List.count_eq_zero.mp hseparator)
    · intro hmem
      have hnone := List.countP_eq_zero.mp hline.2 c hc
      exact hnone (by simpa [TypeScript.isAnyChar] using hmem)
  -- a mark at the front is no expression, and one behind a star takes nothing
  · cases key with
    | cons c key =>
        refine ⟨⟨⟨['?', '*'], by simp⟩, .PII⟩, by decide, fun h => ?_⟩
        have htypescript := ((alike_iff_settled _ _).mp h).2.2
        have hregistered := ((settled_singleton.mp htypescript).mp
          ⟨c, key, rfl, rfl, key, [], by simp, by simp, rfl⟩).1
        exact absurd (TypeScript.compiles_of_mem_registered hregistered) (by decide)
    | nil =>
        refine ⟨⟨⟨['*', '?'], by simp⟩, .PII⟩, by decide, fun h => ?_⟩
        have htypescript := ((alike_iff_settled _ _).mp h).2.2
        refine ne_nil_of_one_mem (by decide) ((settled_singleton.mp htypescript).mpr ?_)
        rw [TypeScript.registered, List.takeWhile_cons_of_pos (by decide)]
        exact ⟨List.mem_cons_self, [], [], rfl, by simp, rfl⟩

end Telemetry.Classification
