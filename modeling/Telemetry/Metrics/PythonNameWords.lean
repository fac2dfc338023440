import Telemetry.Metrics.PythonNames

/-!
# The words of an escaped name

An escaped name is one of the older format, and an escaped label is more than underscores. A
counter's name ends in `total`. The function takes every other `total` out of the tokens that it
joins, but a token that comes from the unit can have underscores inside, and what stands between
them is not looked at: the unit `By/total` brings the token `per_total`.

## Main definitions

* `words` — what stands between the underscores of a name.
* `unitTokens` — the tokens that a unit brings.

## Main results

* `mem_words_iff` — which words come from inside a token.
* `names_legal` — **the formats, and where a counter's name has `total`**.
-/

namespace Telemetry.Metrics.PythonNames

open Lib
open PythonRender (isLabelChar isLabelStart isNameChar isNameStart removeSuffix)

/-- What stands between the underscores. -/
def words (name : CodePoints) : List CodePoints := name.splitOn underscore

/-- The tokens that a unit brings to a name that has none of them. -/
def unitTokens (unit : CodePoints) : List CodePoints :=
  addUnitTokens [] (cleanUpUnit (unitSuffixes unit).1) (cleanUpUnit (unitSuffixes unit).2)

/-! ## Words of tokens -/

theorem words_of_isToken {t : CodePoints} (h : ∀ c ∈ t, isTokenChar c = true) : words t = [t] := by
  apply splitOn_of_notMem
  intro hmem
  exact absurd (h _ hmem) (by decide)

/-- The underscore before a digit adds an empty word. -/
theorem words_prefixLeadingDigit (name : CodePoints) :
    words (prefixLeadingDigit name) = words name ∨
      words (prefixLeadingDigit name) = [] :: words name := by
  rw [prefixLeadingDigit]
  split
  · right
    rw [words, List.splitOn_cons_eq_if_modifyHead, if_pos (by simp), words]
  · exact .inl rfl

/-- A token that has an underscore is not one of the name. -/
theorem mem_addUnitTokens_iff {tokens : List CodePoints} {main per t : CodePoints}
    (htokens : ∀ t ∈ tokens, underscore ∉ t) (ht : underscore ∈ t) :
    t ∈ addUnitTokens tokens main per ↔ t ∈ addUnitTokens [] main per := by
  have hnot : t ∉ tokens := fun h => htokens t h ht
  have hcut : ∀ s : CodePoints, s ∈ tokens → t ≠ removeSuffix [underscore] s := by
    rintro s hs rfl
    exact htokens s hs (PythonRender.mem_of_mem_removeSuffix ht)
  have hnil : t ≠ [] := List.ne_nil_of_mem ht
  rw [addUnitTokens, addUnitTokens, List.mem_append, List.mem_append, or_iff_right hnot]
  by_cases hmain : main ∈ tokens
  · have hempty : removeSuffix [underscore] ([] : CodePoints) = [] := by decide
    have hdropped : ∀ p : CodePoints,
        t ≠ if p = [] then [] else removeSuffix [underscore] [] := by
      intro p
      rw [hempty, ite_self]
      exact hnil
    have hkept : ∀ p : CodePoints,
        t ≠ if p = [] then main else removeSuffix [underscore] main := by
      intro p
      split
      · exact fun h => hnot (h ▸ hmain)
      · exact hcut main hmain
    simp only [hmain, if_true, List.not_mem_nil, if_false, false_or, List.mem_filter,
      List.mem_cons, or_false, hdropped, hkept]
  · simp only [hmain, if_false, List.not_mem_nil, false_or]

/-- **A word of the joined tokens that is none of them** comes from inside a token of the unit. -/
theorem mem_words_iff (word name main per : CodePoints) :
    (∃ t ∈ addUnitTokens (tokens isTokenChar name) main per, t ≠ word ∧ word ∈ words t) ↔
      ∃ t ∈ addUnitTokens [] main per, t ≠ word ∧ word ∈ words t := by
  have hunder : ∀ t : CodePoints, t ≠ word → word ∈ words t → underscore ∈ t := by
    intro t ht hmem
    by_contra hnot
    rw [words, splitOn_of_notMem hnot, List.mem_singleton] at hmem
    exact ht hmem.symm
  have htokens : ∀ t ∈ tokens isTokenChar name, underscore ∉ t := by
    intro t ht hmem
    exact absurd (forall_mem_tokens _ _ t ht _ hmem) (by decide)
  constructor <;> rintro ⟨t, ht, htword, hmem⟩ <;> refine ⟨t, ?_, htword, hmem⟩
  · exact (mem_addUnitTokens_iff htokens (hunder t htword hmem)).mp ht
  · exact (mem_addUnitTokens_iff htokens (hunder t htword hmem)).mpr ht

/-! ## The name of a counter -/

theorem words_total : words total = [total] := words_of_isToken (by decide)

/-- The tokens of a counter's name. -/
theorem normalTokens_monotonicCounter (name unit : CodePoints) :
    normalTokens name unit .monotonicCounter =
      (addUnitTokens (tokens isTokenChar name) (cleanUpUnit (unitSuffixes unit).1)
        (cleanUpUnit (unitSuffixes unit).2)).filter (fun t => t ≠ total) ++ [total] := by
  rw [normalTokens, if_pos rfl, if_neg (by simp)]
  rfl

/-- **The words of a counter's name**: the last one is `total`, and another one is there if the
unit has brought it inside a longer token. -/
theorem words_metricName {name unit result : CodePoints} {strategy : Strategy}
    (hescapes : strategy.escapes = true) (hsuffixes : strategy.addsSuffixes = true)
    (h : metricName name unit .monotonicCounter strategy = some result) :
    ∃ before, words result = before ++ [total] ∧
      (total ∈ before ↔ ∃ t ∈ unitTokens unit, t ≠ total ∧ total ∈ words t) := by
  obtain ⟨added, hadded⟩ : ∃ added, added = (addUnitTokens (tokens isTokenChar name)
    (cleanUpUnit (unitSuffixes unit).1) (cleanUpUnit (unitSuffixes unit).2)) := ⟨_, rfl⟩
  have hresult : result = prefixLeadingDigit
      ([underscore].intercalate (added.filter (fun t => t ≠ total) ++ [total])) := by
    simp only [metricName, if_pos hescapes] at h
    split_ifs at h
    rw [← Option.some.inj h, escapedName, if_pos hsuffixes, normalize,
      normalTokens_monotonicCounter, hadded]
  have hjoined : words ([underscore].intercalate (added.filter (fun t => t ≠ total) ++ [total])) =
      (added.filter fun t => t ≠ total).flatMap words ++ [total] := by
    rw [words, splitOn_intercalate underscore (by simp), List.flatMap_append,
      List.flatMap_singleton]
    exact congrArg (_ ++ ·) words_total
  have hinside : total ∈ (added.filter fun t => t ≠ total).flatMap words ↔
      ∃ t ∈ unitTokens unit, t ≠ total ∧ total ∈ words t := by
    rw [unitTokens, ← mem_words_iff total name, ← hadded]
    simp only [List.mem_flatMap, List.mem_filter, decide_eq_true_eq, and_assoc]
  obtain hsame | hextra := words_prefixLeadingDigit
    ([underscore].intercalate (added.filter (fun t => t ≠ total) ++ [total]))
  · refine ⟨(added.filter fun t => t ≠ total).flatMap words, ?_, hinside⟩
    rw [hresult, hsame, hjoined]
  · refine ⟨[] :: (added.filter fun t => t ≠ total).flatMap words, ?_, ?_⟩
    · rw [hresult, hextra, hjoined, List.cons_append]
    · rw [List.mem_cons, or_iff_right (by decide), hinside]

/-! ## Legal names -/

/-- **What the escaping strategies return is legal**: a metric has a name of the older format, and
a label one that is more than underscores. With suffixes, none of the tokens of a counter's name
but the last is `total`, and its words have another `total` exactly if the unit brings it inside a
longer token. -/
theorem names_legal {strategy : Strategy} (hescapes : strategy.escapes = true) :
    (∀ name unit kind result, metricName name unit kind strategy = some result →
      IsWord isNameStart isNameChar result) ∧
    (∀ key result, labelName key strategy = some result →
      IsWord isLabelStart isLabelChar result ∧ ∃ c ∈ result, c ≠ underscore) ∧
    (strategy.addsSuffixes = true → ∀ name unit result,
      metricName name unit .monotonicCounter strategy = some result →
      (∃ ts, normalTokens name unit .monotonicCounter = ts ++ [total] ∧ total ∉ ts) ∧
      ∃ before, words result = before ++ [total] ∧
        (total ∈ before ↔ ∃ t ∈ unitTokens unit, t ≠ total ∧ total ∈ words t)) := by
  refine ⟨?_, ?_, ?_⟩
  · intro name unit kind result h
    exact isWord_metricName hescapes h
  · intro key result h
    refine ⟨isWord_labelName hescapes h, ?_⟩
    rw [labelName, if_pos hescapes] at h
    split_ifs at h with hkey hleft
    rw [Option.some.inj h] at hleft
    by_contra hall
    push Not at hall
    refine hleft (strip_eq_nil_iff.mpr fun c hc => ?_)
    simpa using hall c hc
  · intro hsuffixes name unit result h
    refine ⟨⟨_, normalTokens_monotonicCounter name unit, ?_⟩,
      words_metricName hescapes hsuffixes h⟩
    simp

/-- A counter of something per total. -/
theorem names_legal_perTotal :
    (∃ result, metricName (.ofString "x") (.ofString "By/total") .monotonicCounter
      .underscoreEscapingWithSuffixes = some result ∧
      IsWord isNameStart isNameChar result ∧ ∃ before, words result = before ++ [total]) ∧
    ∃ result, labelName (.ofString "9_") .underscoreEscapingWithSuffixes = some result ∧
      ∃ c ∈ result, c ≠ underscore := by
  have hescapes : Strategy.underscoreEscapingWithSuffixes.escapes = true := rfl
  have hmetric : metricName (.ofString "x") (.ofString "By/total") .monotonicCounter
      .underscoreEscapingWithSuffixes = some (.ofString "x_bytes_per_total_total") := by
    decide
  have hlabel : labelName (.ofString "9_") .underscoreEscapingWithSuffixes =
      some (.ofString "key_9_") := by decide
  obtain ⟨hnames, hlabels, hcounters⟩ := names_legal hescapes
  obtain ⟨-, before, hbefore, -⟩ := hcounters rfl _ _ _ hmetric
  exact ⟨⟨_, hmetric, hnames _ _ _ _ hmetric, before, hbefore⟩,
    ⟨_, hlabel, (hlabels _ _ hlabel).2⟩⟩

/-- **A counter's name can have `total` twice.** -/
theorem total_twice :
    ¬ ∀ name unit result : CodePoints,
      metricName name unit .monotonicCounter .underscoreEscapingWithSuffixes = some result →
      ∃ before, words result = before ++ [total] ∧ total ∉ before := by
  intro h
  obtain ⟨before, hbefore, hnot⟩ :=
    h (.ofString "x") (.ofString "By/total") (.ofString "x_bytes_per_total_total") (by decide)
  have hwords : words (.ofString "x_bytes_per_total_total") =
      [.ofString "x", .ofString "bytes", .ofString "per", total] ++ [total] := by decide
  rw [hwords] at hbefore
  rw [← (List.append_inj' hbefore rfl).1] at hnot
  exact hnot (by decide)

end Telemetry.Metrics.PythonNames
