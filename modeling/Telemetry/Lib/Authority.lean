import Mathlib.Data.List.DropRight
import Mathlib.Data.List.TakeWhile

/-!
# The password in the authority of a URL

A URL, with or without a scheme, whose authority names a user and a password. The first colon ends
the user, and the last commercial at ends what is said of the user. What a reader of that form finds
does not depend on what comes behind the authority.

## Main definitions

* `Delimiters` — the characters at which a URL is taken apart, in any alphabet.
* `Endpoint`, `OfForm` — URLs of the form.
* `shownPassword` — the password that is read by the form.
* `HasScheme` — the text starts with a scheme and its mark.
* `rpartition` — what comes before and behind the last separator.
* `find?`, `firstEnd` — where a text is found first, and the first end of an authority.

## Main results

* `shownPassword_of_parts` — **the password of a text with the parts of the form**.
* `Endpoint.exists_parts` — the authority of a URL of the form.
* `firstEnd_append` — where an authority ends.
-/

namespace Telemetry.Lib

/-- The characters at which a URL is taken apart. -/
structure Delimiters (γ : Type) where
  colon : γ
  slash : γ
  question : γ
  hash : γ
  commat : γ
  nodup : [colon, slash, question, hash, commat].Nodup

namespace Delimiters

variable {γ : Type} [DecidableEq γ] (D : Delimiters γ)

/-- The delimiters. -/
def all : List γ := [D.colon, D.slash, D.question, D.hash, D.commat]

/-- The character ends an authority. -/
def ends (c : γ) : Bool := c = D.slash || c = D.question || c = D.hash

/-- What stands between a scheme and an authority. -/
def schemeMark : List γ := [D.colon, D.slash, D.slash]

theorem ends_of_notMem {c : γ} (h : c ∉ D.all) : D.ends c = false := by
  simp only [all, List.mem_cons, List.not_mem_nil, or_false, not_or] at h
  simp [ends, h]

theorem ends_colon : D.ends D.colon = false := by
  have h := D.nodup
  simp only [List.nodup_cons, List.mem_cons, not_or] at h
  simp [ends, h]

theorem ends_commat : D.ends D.commat = false := by
  have h := D.nodup
  simp only [List.nodup_cons, List.mem_cons, not_or, List.not_mem_nil, or_false] at h
  simp [ends, Ne.symm h.2.1.2.2, Ne.symm h.2.2.1.2, Ne.symm h.2.2.2.1]

theorem ends_slash : D.ends D.slash = true := by simp [ends]

theorem commat_ne_slash : D.commat ≠ D.slash := by
  intro h
  have hends := D.ends_commat
  rw [h, ends_slash] at hends
  exact absurd hends (by decide)

omit [DecidableEq γ] in
theorem ne_colon_of_notMem {c : γ} (h : c ∉ D.all) : c ≠ D.colon :=
  fun heq => h (heq ▸ List.mem_cons_self)

/-! ## Reading by the form -/

/-- What comes before the first colon. -/
def scheme (t : List γ) : List γ := t.takeWhile fun c => c ≠ D.colon

/-- The text starts with a scheme and its mark. -/
def HasScheme (t : List γ) : Prop :=
  (∀ c ∈ D.scheme t, c ∉ D.all) ∧ D.schemeMark <+: t.drop (D.scheme t).length

instance (t : List γ) : Decidable (D.HasScheme t) := inferInstanceAs (Decidable (_ ∧ _))

/-- What stands behind the scheme and its mark, in a text that has them. -/
def afterScheme (t : List γ) : List γ :=
  if D.HasScheme t then t.drop ((D.scheme t).length + 3) else t

/-- The authority: what comes before the first slash, question mark or hash. -/
def authority (t : List γ) : List γ := (D.afterScheme t).takeWhile fun c => !D.ends c

/-- What stands before the last separator, or nothing if there is none. -/
def beforeLast (sep : γ) (s : List γ) : List γ :=
  ((s.reverse.dropWhile fun c => c ≠ sep).drop 1).reverse

/-- What stands behind the first separator, or nothing if there is none. -/
def afterFirst (sep : γ) (s : List γ) : List γ := (s.dropWhile fun c => c ≠ sep).drop 1

/-- What comes before and behind the last separator. Where there is none, all is behind it. -/
def rpartition (sep : γ) (s : List γ) : List γ × List γ :=
  if sep ∈ s then (beforeLast sep s, (s.reverse.takeWhile fun c => c ≠ sep).reverse) else ([], s)

/-- **The password that the form shows.** -/
def shownPassword (t : List γ) : List γ :=
  afterFirst D.colon (beforeLast D.commat (D.authority t))

theorem afterFirst_append {sep : γ} {s t : List γ} (h : ∀ c ∈ s, c ≠ sep) :
    afterFirst sep (s ++ sep :: t) = t := by
  rw [afterFirst, List.dropWhile_append_of_pos (by simpa using h)]
  simp

theorem beforeLast_append {sep : γ} {s t : List γ} (h : ∀ c ∈ t, c ≠ sep) :
    beforeLast sep (s ++ sep :: t) = s := by
  rw [beforeLast, List.reverse_append, List.reverse_cons, List.append_assoc,
    List.dropWhile_append_of_pos (by simpa using h)]
  simp

theorem rpartition_append {sep : γ} {s t : List γ} (h : ∀ c ∈ t, c ≠ sep) :
    rpartition sep (s ++ sep :: t) = (s, t) := by
  have hbehind : ((s ++ sep :: t).reverse.takeWhile fun c => c ≠ sep).reverse = t := by
    rw [List.reverse_append, List.reverse_cons, List.append_assoc,
      List.takeWhile_append_of_pos (by simpa using h)]
    simp
  rw [rpartition, if_pos (by simp), beforeLast_append h, hbehind]

/-- What may come before the authority: nothing, or a scheme and its mark. -/
def SchemePart (before : List γ) : Prop :=
  before = [] ∨ ∃ scheme, (∀ c ∈ scheme, c ∉ D.all) ∧ before = scheme ++ D.schemeMark

variable {D} {before user password host tail : List γ}

theorem scheme_append {name rest : List γ} (h : ∀ c ∈ name, c ∉ D.all) :
    D.scheme (name ++ D.colon :: rest) = name := by
  have hname : ∀ c ∈ name, decide (c ≠ D.colon) = true :=
    fun c hc => decide_eq_true (D.ne_colon_of_notMem (h c hc))
  rw [scheme, List.takeWhile_append_of_pos hname]
  simp

omit [DecidableEq γ] in
theorem schemeMark_append (name rest : List γ) :
    name ++ D.schemeMark ++ rest = name ++ D.colon :: (D.slash :: D.slash :: rest) := by
  simp [schemeMark]

theorem hasScheme_append {name : List γ} (h : ∀ c ∈ name, c ∉ D.all) (rest : List γ) :
    D.HasScheme (name ++ D.schemeMark ++ rest) := by
  rw [schemeMark_append, HasScheme, scheme_append h, List.drop_left]
  exact ⟨h, rest, rfl⟩

/-- A user is no scheme: what comes behind its colon is not the mark. -/
theorem not_hasScheme (huser : ∀ c ∈ user, c ∉ D.all) {rest : List γ}
    (hrest : D.slash ∉ rest.head?) : ¬ D.HasScheme (user ++ D.colon :: rest) := by
  rw [HasScheme, scheme_append huser, List.drop_left]
  rintro ⟨-, behind, hmark⟩
  simp only [schemeMark, List.cons_append, List.nil_append, List.cons.injEq, true_and] at hmark
  rw [← hmark] at hrest
  exact hrest rfl

theorem afterScheme_eq (hbefore : D.SchemePart before) (huser : ∀ c ∈ user, c ∉ D.all)
    {rest : List γ} (hrest : D.slash ∉ rest.head?) :
    D.afterScheme (before ++ (user ++ D.colon :: rest)) = user ++ D.colon :: rest := by
  obtain rfl | ⟨name, hname, rfl⟩ := hbefore
  · rw [List.nil_append, afterScheme, if_neg (not_hasScheme huser hrest)]
  · rw [afterScheme, if_pos (hasScheme_append hname _), schemeMark_append, scheme_append hname,
      ← List.drop_drop, List.drop_left]
    rfl

omit [DecidableEq γ] in
theorem colon_notMem (h : ∀ c ∈ user, c ∉ D.all) : D.colon ∉ user :=
  fun hmem => h _ hmem List.mem_cons_self

omit [DecidableEq γ] in
theorem slash_notMem (h : ∀ c ∈ user, c ∉ D.all) : D.slash ∉ user :=
  fun hmem => h _ hmem (List.mem_cons_of_mem _ List.mem_cons_self)

omit [DecidableEq γ] in
/-- No slash starts what has a colon before any other delimiter. -/
theorem slash_notMem_head?_append (huser : ∀ c ∈ user, c ∉ D.all) (rest : List γ) :
    D.slash ∉ (user ++ D.colon :: rest).head? := by
  intro hhead
  cases user with
  | nil =>
      have hnodup := D.nodup
      rw [List.nodup_cons] at hnodup
      exact hnodup.1 (by simp [Option.some.inj hhead])
  | cons c user =>
      refine huser c List.mem_cons_self ?_
      rw [Option.some.inj hhead]
      simp [all]

/-- No slash starts what comes behind the first colon of an authority. -/
theorem slash_notMem_head? (hpassword : ∀ c ∈ password, D.ends c = false) (host tail : List γ) :
    D.slash ∉ (password ++ D.commat :: host ++ tail).head? := by
  cases password with
  | nil =>
      intro h
      exact D.commat_ne_slash (Option.some.inj h)
  | cons c password =>
      intro h
      have hends := hpassword c List.mem_cons_self
      rw [Option.some.inj h, ends_slash] at hends
      exact absurd hends (by decide)

theorem takeWhile_authority {s : List γ} (hs : ∀ c ∈ s, D.ends c = false)
    (htail : ∀ c ∈ tail.head?, D.ends c = true) :
    (s ++ tail).takeWhile (fun c => !D.ends c) = s := by
  rw [List.takeWhile_append_of_pos (by simpa using hs)]
  cases tail with
  | nil => simp
  | cons c tail => simp [htail c rfl]

/-- What comes in an authority with a user and a password. -/
theorem ends_of_mem_authority (huser : ∀ c ∈ user, c ∉ D.all)
    (hpassword : ∀ c ∈ password, D.ends c = false) (hhost : ∀ c ∈ host, D.ends c = false) :
    ∀ c ∈ user ++ D.colon :: (password ++ D.commat :: host), D.ends c = false := by
  intro c hc
  simp only [List.mem_append, List.mem_cons] at hc
  obtain hc | rfl | hc | rfl | hc := hc
  · exact D.ends_of_notMem (huser c hc)
  · exact D.ends_colon
  · exact hpassword c hc
  · exact D.ends_commat
  · exact hhost c hc

/-- **The password of a text with the parts of the form.** -/
theorem shownPassword_of_parts (hbefore : D.SchemePart before) (huser : ∀ c ∈ user, c ∉ D.all)
    (hpassword : ∀ c ∈ password, D.ends c = false)
    (hhost : ∀ c ∈ host, D.ends c = false ∧ c ≠ D.commat)
    (htail : ∀ c ∈ tail.head?, D.ends c = true) :
    D.shownPassword (before ++ ((user ++ D.colon :: (password ++ D.commat :: host)) ++ tail)) =
      password := by
  have hassoc : user ++ D.colon :: (password ++ D.commat :: host) ++ tail =
      user ++ D.colon :: (password ++ D.commat :: host ++ tail) := by simp
  have hauthority : D.authority (before ++ ((user ++ D.colon :: (password ++ D.commat :: host)) ++
      tail)) = user ++ D.colon :: (password ++ D.commat :: host) := by
    rw [authority, hassoc, afterScheme_eq hbefore huser (slash_notMem_head? hpassword host tail),
      ← hassoc]
    exact takeWhile_authority (ends_of_mem_authority huser hpassword fun c hc => (hhost c hc).1)
      htail
  have hjoin : user ++ D.colon :: (password ++ D.commat :: host) =
      (user ++ D.colon :: password) ++ D.commat :: host := by simp
  rw [shownPassword, hauthority, hjoin, beforeLast_append fun c hc => (hhost c hc).2,
    afterFirst_append fun c hc => D.ne_colon_of_notMem (huser c hc)]

/-- There need not be a scheme. -/
theorem shownPassword_of_authority (huser : ∀ c ∈ user, c ∉ D.all)
    (hpassword : ∀ c ∈ password, D.ends c = false)
    (hhost : ∀ c ∈ host, D.ends c = false ∧ c ≠ D.commat)
    (htail : ∀ c ∈ tail.head?, D.ends c = true) :
    D.shownPassword ((user ++ D.colon :: (password ++ D.commat :: host)) ++ tail) = password := by
  have hshown := shownPassword_of_parts (D := D) (.inl rfl) huser hpassword hhost htail
  rwa [List.nil_append] at hshown

/-- Where the first slash, question mark or hash stands, or else how long the text is. -/
def firstEnd (D : Delimiters γ) (s : List γ) : ℕ :=
  (([D.slash, D.question, D.hash].filterMap fun c => s.idxOf? c).min?).getD s.length

theorem idxOf?_append {c : γ} {s : List γ} (h : c ∉ s) (tail : List γ) :
    (s ++ tail).idxOf? c = (tail.idxOf? c).map (· + s.length) := by
  have hnone : s.findIdx? (· == c) = none := List.idxOf?_eq_none_iff.mpr h
  rw [List.idxOf?, List.findIdx?_append, hnone, Option.none_or]

theorem firstEnd_append {s : List γ} (hs : ∀ c ∈ s, D.ends c = false)
    (htail : ∀ c ∈ tail.head?, D.ends c = true) : D.firstEnd (s ++ tail) = s.length := by
  have hnot : ∀ c ∈ [D.slash, D.question, D.hash], c ∉ s := by
    intro c hc hmem
    have hends : D.ends c = true := by simpa [ends, or_assoc] using hc
    rw [hs c hmem] at hends
    exact absurd hends (by decide)
  have hfound : ([D.slash, D.question, D.hash].filterMap fun c => (s ++ tail).idxOf? c) =
      ([D.slash, D.question, D.hash].filterMap fun c => tail.idxOf? c).map (· + s.length) := by
    rw [List.map_filterMap]
    exact List.filterMap_congr fun c hc => idxOf?_append (hnot c hc) tail
  rw [firstEnd, hfound]
  cases tail with
  | nil => simp
  | cons c tail =>
      have hmin : (([D.slash, D.question, D.hash].filterMap fun d =>
          (c :: tail).idxOf? d).map (· + s.length)).min? = some s.length := by
        rw [List.min?_eq_some_iff]
        constructor
        · have hends := htail c rfl
          have hc : c ∈ [D.slash, D.question, D.hash] := by simpa [ends, or_assoc] using hends
          refine List.mem_map.mpr ⟨0, List.mem_filterMap.mpr ⟨c, hc, ?_⟩, Nat.zero_add _⟩
          simp [List.idxOf?, List.findIdx?_cons]
        · intro n hn
          obtain ⟨m, -, rfl⟩ := List.mem_map.mp hn
          exact Nat.le_add_left _ _
      rw [hmin, Option.getD_some]

end Delimiters

/-! ## Endpoints -/

/-- A URL of the form `[scheme "://"] user ":" password "@" rest`. -/
structure Endpoint {γ : Type} [DecidableEq γ] (D : Delimiters γ) (blank : γ → Bool) where
  scheme : Option (List γ)
  user : List γ
  password : List γ
  rest : List γ
  scheme_plain : ∀ s ∈ scheme, ∀ c ∈ s, blank c = false ∧ c ∉ D.all
  user_plain : ∀ c ∈ user, blank c = false ∧ c ∉ D.all
  password_ne : password ≠ []
  password_plain : ∀ c ∈ password, blank c = false ∧ D.ends c = false
  rest_plain : ∀ c ∈ rest, blank c = false

namespace Endpoint

variable {γ : Type} [DecidableEq γ] {D : Delimiters γ} {blank : γ → Bool}

/-- The scheme and its mark. -/
def schemePart (e : Endpoint D blank) : List γ :=
  match e.scheme with
  | some scheme => scheme ++ D.schemeMark
  | none => []

/-- The text of the URL. -/
def text (e : Endpoint D blank) : List γ :=
  e.schemePart ++ (e.user ++ D.colon :: (e.password ++ D.commat :: e.rest))

/-- No character of the text is blank, if the delimiters are not. -/
theorem blank_eq_false (hblank : ∀ c ∈ D.all, blank c = false) (e : Endpoint D blank) :
    ∀ c ∈ e.text, blank c = false := by
  have hcolon := hblank D.colon (by simp [Delimiters.all])
  have hslash := hblank D.slash (by simp [Delimiters.all])
  have hcommat := hblank D.commat (by simp [Delimiters.all])
  have hscheme : ∀ c ∈ e.schemePart, blank c = false := by
    intro c hc
    rw [schemePart] at hc
    cases h : e.scheme with
    | none => simp [h] at hc
    | some scheme =>
        simp only [h, Delimiters.schemeMark, List.mem_append, List.mem_cons, List.not_mem_nil,
          or_false] at hc
        obtain hc | rfl | rfl | rfl := hc
        · exact (e.scheme_plain scheme h c hc).1
        · exact hcolon
        · exact hslash
        · exact hslash
  intro c hc
  simp only [text, List.mem_append, List.mem_cons] at hc
  obtain hc | hc | rfl | hc | rfl | hc := hc
  · exact hscheme c hc
  · exact (e.user_plain c hc).1
  · exact hcolon
  · exact (e.password_plain c hc).1
  · exact hcommat
  · exact e.rest_plain c hc

/-- **The authority of a URL of the form.** The rest may have another commercial at before its
first slash, question mark or hash; what is read as the password then goes up to it. -/
theorem exists_parts (e : Endpoint D blank) :
    ∃ password host tail, password ≠ [] ∧ (∀ c ∈ password, D.ends c = false) ∧
      (∀ c ∈ host, D.ends c = false ∧ c ≠ D.commat) ∧ (∀ c ∈ tail.head?, D.ends c = true) ∧
      e.text = e.schemePart ++
        ((e.user ++ D.colon :: (password ++ D.commat :: host)) ++ tail) := by
  obtain ⟨near, hnear⟩ : ∃ near, near = e.rest.takeWhile fun c => !D.ends c := ⟨_, rfl⟩
  obtain ⟨tail, htail⟩ : ∃ tail, tail = e.rest.dropWhile fun c => !D.ends c := ⟨_, rfl⟩
  have hrest : e.rest = near ++ tail := by rw [hnear, htail, List.takeWhile_append_dropWhile]
  have hends : ∀ c ∈ near, D.ends c = false := by
    intro c hc
    rw [hnear] at hc
    simpa using List.mem_takeWhile_imp hc
  have hhead : ∀ c ∈ tail.head?, D.ends c = true := by
    intro c hc
    have hnot := List.head?_dropWhile_not (fun c => !D.ends c) e.rest
    rw [← htail, Option.mem_def.mp hc] at hnot
    simpa using hnot
  by_cases hcommat : D.commat ∈ near
  · -- the last of them ends what is read as the password
    obtain ⟨between, host, hsplit, hhost⟩ :
        ∃ between host, near = between ++ D.commat :: host ∧ D.commat ∉ host := by
      obtain ⟨host, between, hrev, hhost⟩ :=
        List.eq_append_cons_of_mem (List.mem_reverse.mpr hcommat)
      refine ⟨between.reverse, host.reverse, ?_, by simpa using hhost⟩
      have hback := congrArg List.reverse hrev
      simpa using hback
    refine ⟨e.password ++ D.commat :: between, host, tail, by simp, ?_, ?_, hhead, ?_⟩
    · intro c hc
      simp only [List.mem_append, List.mem_cons] at hc
      obtain hc | rfl | hc := hc
      · exact (e.password_plain c hc).2
      · exact D.ends_commat
      · exact hends c (by simp [hsplit, hc])
    · intro c hc
      exact ⟨hends c (by simp [hsplit, hc]), fun heq => hhost (heq ▸ hc)⟩
    · rw [text, hrest, hsplit]
      simp
  · refine ⟨e.password, near, tail, e.password_ne, fun c hc => (e.password_plain c hc).2,
      fun c hc => ⟨hends c hc, fun heq => hcommat (heq ▸ hc)⟩, hhead, ?_⟩
    rw [text, hrest]
    simp

end Endpoint

/-- The text is a URL of the form. -/
def Delimiters.OfForm {γ : Type} [DecidableEq γ] (D : Delimiters γ) (blank : γ → Bool)
    (t : List γ) : Prop := ∃ e : Endpoint D blank, e.text = t

/-! ## Finding a text -/

section

variable {γ : Type} [DecidableEq γ]

/-- Where a text is found first. -/
def find? (mark : List γ) : List γ → Option ℕ
  | [] => if mark = [] then some 0 else none
  | c :: s => if mark <+: c :: s then some 0 else (find? mark s).map (· + 1)

theorem isPrefix_of_find? {mark : List γ} {s : List γ} {i : ℕ} (h : find? mark s = some i) :
    mark <+: s.drop i := by
  induction s generalizing i with
  | nil =>
      rw [find?] at h
      split at h
      · next hnil =>
          rw [hnil]
          exact List.nil_prefix
      · exact absurd h (by simp)
  | cons c s ih =>
      rw [find?] at h
      split at h
      · next hprefix =>
          obtain rfl := Option.some.inj h
          exact hprefix
      · obtain ⟨j, hj, rfl⟩ := Option.map_eq_some_iff.mp h
        exact ih hj

theorem isInfix_iff_find? {mark : List γ} {s : List γ} :
    mark <:+: s ↔ ∃ i, find? mark s = some i := by
  constructor
  · intro h
    induction s with
    | nil => exact ⟨0, by rw [find?, if_pos (List.infix_nil.mp h)]⟩
    | cons c s ih =>
        rw [find?]
        split
        · exact ⟨0, rfl⟩
        · next hnot =>
            obtain ⟨i, hi⟩ := ih ((List.infix_cons_iff.mp h).resolve_left hnot)
            exact ⟨i + 1, by rw [hi, Option.map_some]⟩
  · rintro ⟨i, hi⟩
    exact (isPrefix_of_find? hi).isInfix.trans (List.drop_suffix i s).isInfix

/-- A text is found behind what does not have its second character. -/
theorem find?_append {c d : γ} {mark s t : List γ} (hs : d ∉ s) (hne : d ≠ c) :
    find? (c :: d :: mark) (s ++ (c :: d :: mark ++ t)) = some s.length := by
  induction s with
  | nil =>
      have hprefix : c :: d :: mark <+: c :: d :: mark ++ t := List.prefix_append _ _
      rw [List.nil_append, List.length_nil]
      exact if_pos hprefix
  | cons e s ih =>
      rw [List.mem_cons, not_or] at hs
      have hnot : ¬ c :: d :: mark <+: e :: (s ++ (c :: d :: mark ++ t)) := by
        intro h
        have hsecond := (List.cons_prefix_cons.mp h).2
        cases s with
        | nil => exact hne (List.cons_prefix_cons.mp hsecond).1
        | cons e' s =>
            rw [List.mem_cons, not_or] at hs
            exact hs.2.1 (List.cons_prefix_cons.mp hsecond).1
      rw [List.cons_append, find?, if_neg hnot, ih hs.2, Option.map_some, List.length_cons]

variable {D : Delimiters γ} {s tail : List γ}

/-- The mark has slashes, and an authority has none. -/
theorem length_lt_of_find?_schemeMark (hs : ∀ c ∈ s, D.ends c = false) {i : ℕ}
    (h : find? D.schemeMark (s ++ tail) = some i) :
    s.length < i + 3 ∧ i + 3 ≤ (s ++ tail).length := by
  obtain ⟨behind, hbehind⟩ := isPrefix_of_find? h
  have hlen := congrArg List.length hbehind
  simp only [Delimiters.schemeMark, List.length_append, List.length_cons, List.length_nil,
    List.length_drop] at hlen
  refine ⟨?_, by rw [List.length_append]; omega⟩
  by_contra hle
  have hlt : i + 1 < s.length := by omega
  have hslash : (s ++ tail)[i + 1]? = some D.slash := by
    rw [← List.getElem?_drop, ← hbehind]
    rfl
  rw [List.getElem?_append_left hlt] at hslash
  have hends := hs _ (List.mem_of_getElem? hslash)
  rw [D.ends_slash] at hends
  exact absurd hends (by decide)

end

end Telemetry.Lib
