import Telemetry.Lib.CodePoints
import Telemetry.Lib.Dict
import Telemetry.Lib.Strip

/-!
# The members of a `baggage` header

A `baggage` header has members with commas between them: a name, an equals sign, a value, and
properties that nobody reads. The readers of the SDKs take the space off the name and the value,
keep the member if its name is a token, and strip control characters from its value. They differ in
what is space to them.

## Main definitions

* `Alphabet` — the characters that a reader tells apart.
* `Alphabet.read` — what is read of a member.
* `Alphabet.found` — what is found under a name when the members have been read.

## Main results

* `Alphabet.read_of_read` — a reader that knows more space reads every member that the other reads,
  under the same name.
* `Alphabet.found_eq_iff` — **when two readers find the same under a name**.
* `Alphabet.read_map` — the characters may be those of another language.
-/

namespace Telemetry.Propagation

open Telemetry.Lib

/-- The property White_Space. -/
def isWhiteSpace (c : Char) : Bool :=
  ('\t' ≤ c && c ≤ '\r') || c == ' ' || c == '\u0085' || c == '\u00a0' || c == '\u1680' ||
    ('\u2000' ≤ c && c ≤ '\u200a') || c == '\u2028' || c == '\u2029' || c == '\u202f' ||
    c == '\u205f' || c == '\u3000'

/-- What comes before and behind the first separator. -/
def partition {γ : Type} [DecidableEq γ] (sep : γ) (s : List γ) : List γ × List γ :=
  (s.takeWhile fun c => c ≠ sep, (s.dropWhile fun c => c ≠ sep).tail)

theorem partition_append {γ : Type} [DecidableEq γ] {sep : γ} {s : List γ} (h : sep ∉ s)
    (t : List γ) : partition sep (s ++ sep :: t) = (s, t) := by
  have hs : ∀ c ∈ s, decide (c ≠ sep) = true := fun c hc =>
    decide_eq_true fun heq => h (heq ▸ hc)
  rw [partition, List.takeWhile_append_of_pos hs, List.dropWhile_append_of_pos hs]
  simp

/-- The characters that a reader of `baggage` tells apart. -/
structure Alphabet (γ : Type) where
  comma : γ
  semicolon : γ
  equals : γ
  /-- The characters of tokens. -/
  isToken : γ → Bool
  /-- The characters that are stripped from values. -/
  isControl : γ → Bool

namespace Alphabet

variable {γ δ : Type} [DecidableEq γ] [DecidableEq δ] (A : Alphabet γ) (p q : γ → Bool)

/-- The member without its properties. -/
def pair (member : List γ) : List γ := member.takeWhile fun c => c ≠ A.semicolon

/-- What comes before the equals sign, with the space around it. -/
def name (member : List γ) : List γ := (partition A.equals (A.pair member)).1

/-- What comes behind the equals sign, with the space around it. -/
def value (member : List γ) : List γ := (partition A.equals (A.pair member)).2

/-- A token: it is not empty, and has characters of tokens only. -/
def IsToken (key : List γ) : Prop := key ≠ [] ∧ ∀ c ∈ key, A.isToken c = true

instance (key : List γ) : Decidable (A.IsToken key) := inferInstanceAs (Decidable (_ ∧ _))

/-- The text without control characters. -/
def visible (text : List γ) : List γ := text.filter fun c => !A.isControl c

/-- What is read of a member, where the characters that satisfy `p` are space. -/
def read (member : List γ) : Option (List γ × List γ) :=
  if A.equals ∈ A.pair member ∧ A.IsToken (strip p (A.name member)) then
    some (strip p (A.name member), A.visible (strip p (A.value member)))
  else none

variable {A p q} {member key : List γ} {e : List γ × List γ}

theorem read_eq_some_iff : A.read p member = some e ↔
    (A.equals ∈ A.pair member ∧ A.IsToken (strip p (A.name member))) ∧
      e = (strip p (A.name member), A.visible (strip p (A.value member))) := by
  rw [read]
  split
  · rename_i h
    simp [h, eq_comm]
  · rename_i h
    simp [h]

/-- What is read is a token, and text without control characters. -/
theorem read_sound (h : A.read p member = some e) :
    A.IsToken e.1 ∧ ∀ c ∈ e.2, A.isControl c = false := by
  obtain ⟨⟨-, htoken⟩, rfl⟩ := read_eq_some_iff.mp h
  exact ⟨htoken, fun c hc => by simpa using (List.mem_filter.mp hc).2⟩

omit [DecidableEq γ] in
/-- No token has space at its ends, if no character of tokens is space. -/
theorem bare_of_isToken (hq : ∀ c, A.isToken c = true → q c = false) (h : A.IsToken key) :
    Bare q key where
  head c hc := hq c (h.2 c (List.mem_of_mem_head? hc))
  getLast c hc := hq c (h.2 c (List.mem_of_getLast? hc))

/-- **A reader that knows more space** reads every member that the other reads, under the same
name, and the value with more space taken off. -/
theorem read_of_read (hpq : ∀ c, p c = true → q c = true)
    (hq : ∀ c, A.isToken c = true → q c = false) (h : A.read p member = some e) :
    A.read q member = some (e.1, A.visible (strip q (strip p (A.value member)))) := by
  obtain ⟨⟨hequals, htoken⟩, rfl⟩ := read_eq_some_iff.mp h
  have hname : strip q (A.name member) = strip p (A.name member) := by
    rw [← strip_strip hpq, strip_of_bare (bare_of_isToken hq htoken)]
  rw [read_eq_some_iff, hname, strip_strip hpq]
  exact ⟨⟨hequals, htoken⟩, rfl⟩

omit [DecidableEq γ] in
/-- The values agree exactly if nothing that is kept stands where only one of them takes off. -/
theorem visible_strip_eq_iff (text : List γ) :
    A.visible (strip q text) = A.visible text ↔ ∀ c ∈ edges q text, A.isControl c = true := by
  rw [eq_comm, visible, visible, filter_strip_eq_iff]
  simp

/-! ## Two readers -/

variable (A p q) in
/-- The member has the name, and it is a token. -/
def Named (key member : List γ) : Prop :=
  (A.equals ∈ A.pair member ∧ A.IsToken key) ∧ strip p (A.name member) = key

instance (key member : List γ) : Decidable (A.Named p key member) :=
  inferInstanceAs (Decidable (_ ∧ _))

variable (A p q) in
/-- The last member that has the name. -/
def lastNamed (key : List γ) (members : List (List γ)) : Option (List γ) :=
  members.reverse.find? fun member => A.Named p key member

variable (A p q) in
/-- What is found under the name when the members have been read. -/
def found (key : List γ) (members : List (List γ)) : Option (List γ) :=
  ((members.filterMap (A.read p)).reverse.find? fun e => e.1 = key).map Prod.snd

variable (A p q) in
/-- The last member that one reader finds under the name has it for the other too, and nothing that
is kept stands where only one of them takes off. Or it has not, and the last member that has it for
the other has the same value. -/
def Settles (key : List γ) (members : List (List γ)) : Prop :=
  ∀ member, A.lastNamed q key members = some member →
    if strip p (A.name member) = key then
      ∀ c ∈ edges q (strip p (A.value member)), A.isControl c = true
    else
      ∃ other, A.lastNamed p key members = some other ∧
        A.visible (strip p (A.value other)) = A.visible (strip q (A.value member))

variable {members : List (List γ)}

theorem named_iff : A.Named p key member ↔ ∃ e, A.read p member = some e ∧ e.1 = key := by
  constructor
  · rintro ⟨⟨hequals, htoken⟩, rfl⟩
    exact ⟨_, read_eq_some_iff.mpr ⟨⟨hequals, htoken⟩, rfl⟩, rfl⟩
  · rintro ⟨e, he, rfl⟩
    obtain ⟨⟨hequals, htoken⟩, rfl⟩ := read_eq_some_iff.mp he
    exact ⟨⟨hequals, htoken⟩, rfl⟩

/-- What is found is the value of the last member that has the name. -/
theorem found_eq (key : List γ) (members : List (List γ)) :
    A.found p key members =
      (A.lastNamed p key members).map fun member => A.visible (strip p (A.value member)) := by
  have hnamed : ∀ member, ((A.read p member).any fun e => e.1 = key) = true ↔
      A.Named p key member := by
    intro member
    rw [named_iff, Option.any_eq_true]
    simp
  have hsame : (fun member => (A.read p member).any fun e => decide (e.1 = key)) =
      fun member => decide (A.Named p key member) := by
    funext member
    rw [Bool.eq_iff_iff, hnamed, decide_eq_true_eq]
  rw [found, lastNamed, ← List.filterMap_reverse, List.find?_filterMap, hsame]
  cases hlast : members.reverse.find? fun member => decide (A.Named p key member) with
  | none => rfl
  | some member =>
      have hmember := List.find?_some hlast
      rw [decide_eq_true_eq, named_iff] at hmember
      obtain ⟨e, he, -⟩ := hmember
      rw [Option.bind_some, he, (read_eq_some_iff.mp he).2]
      rfl

/-- **When two readers find the same under a name.** -/
theorem found_eq_iff (hpq : ∀ c, p c = true → q c = true)
    (hq : ∀ c, A.isToken c = true → q c = false) (key : List γ) (members : List (List γ)) :
    A.found q key members = A.found p key members ↔ A.Settles p q key members := by
  have himp : ∀ member, A.Named p key member → A.Named q key member := by
    intro member h
    obtain ⟨e, he, hkey⟩ := named_iff.mp h
    exact named_iff.mpr ⟨_, read_of_read hpq hq he, hkey⟩
  rw [found_eq, found_eq, Settles]
  cases hlast : A.lastNamed q key members with
  | none =>
      have hnone : A.lastNamed p key members = none := by
        rw [lastNamed, List.find?_eq_none] at hlast ⊢
        intro member hmember hnamed
        exact hlast member hmember (by simpa using himp member (by simpa using hnamed))
      simp [hnone]
  | some member =>
      have hmember := List.find?_some hlast
      rw [decide_eq_true_eq] at hmember
      simp only [Option.some.injEq, forall_eq', Option.map_some]
      by_cases hname : strip p (A.name member) = key
      · -- the other reader stops at the same member
        have hother : A.lastNamed p key members = some member := by
          rw [lastNamed, List.find?_eq_some_iff_append] at hlast ⊢
          obtain ⟨-, before, behind, hsplit, hbefore⟩ := hlast
          refine ⟨by simpa using ⟨hmember.1, hname⟩, before, behind, hsplit, fun m hm => ?_⟩
          have hnot := hbefore m hm
          simp only [Bool.not_eq_true', decide_eq_false_iff_not] at hnot ⊢
          exact fun h => hnot (himp m h)
        rw [if_pos hname, hother, Option.map_some, Option.some.injEq, ← visible_strip_eq_iff,
          strip_strip hpq]
      · rw [if_neg hname, eq_comm, Option.map_eq_some_iff]

/-! ## Another language -/

theorem partition_map {f : γ → δ} (hf : Function.Injective f) (sep : γ) (s : List γ) :
    partition (f sep) (s.map f) = Prod.map (List.map f) (List.map f) (partition sep s) := by
  have hne : (fun c => decide (c ≠ f sep)) ∘ f = fun c => decide (c ≠ sep) := by
    funext c
    simp [hf.eq_iff]
  rw [partition, partition, List.takeWhile_map, List.dropWhile_map, hne, ← List.map_tail]
  rfl

/-- **The characters may be those of another language.** -/
theorem read_map {B : Alphabet δ} {q : δ → Bool} {f : γ → δ} (hf : Function.Injective f)
    (hsemicolon : B.semicolon = f A.semicolon) (hequals : B.equals = f A.equals)
    (htoken : ∀ c, B.isToken (f c) = A.isToken c)
    (hcontrol : ∀ c, B.isControl (f c) = A.isControl c) (hspace : ∀ c, q (f c) = p c)
    (member : List γ) :
    B.read q (member.map f) = (A.read p member).map (Prod.map (List.map f) (List.map f)) := by
  have hpair : B.pair (member.map f) = (A.pair member).map f := by
    have h := congrArg Prod.fst (partition_map hf A.semicolon member)
    rw [pair, hsemicolon]
    exact h
  have hspace' : q ∘ f = p := funext hspace
  have hname : strip q (B.name (member.map f)) = (strip p (A.name member)).map f := by
    rw [name, name, hpair, hequals, partition_map hf, Prod.map_fst, strip_map, hspace']
  have hvalue : strip q (B.value (member.map f)) = (strip p (A.value member)).map f := by
    rw [value, value, hpair, hequals, partition_map hf, Prod.map_snd, strip_map, hspace']
  have hIsToken : B.IsToken ((strip p (A.name member)).map f) ↔
      A.IsToken (strip p (A.name member)) := by
    simp [IsToken, htoken]
  have hvisible : ∀ text : List γ, B.visible (text.map f) = (A.visible text).map f := by
    intro text
    have hsame : (fun c => !B.isControl c) ∘ f = fun c => !A.isControl c := by
      funext c
      simp [hcontrol]
    rw [visible, visible, List.filter_map, hsame]
  have hcondition : B.equals ∈ B.pair (member.map f) ∧ B.IsToken (strip q (B.name (member.map f))) ↔
      A.equals ∈ A.pair member ∧ A.IsToken (strip p (A.name member)) := by
    rw [hname, hpair, hequals, List.mem_map_of_injective hf, hIsToken]
  rw [read, read, if_congr hcondition rfl rfl, hname, hvalue, hvisible]
  split <;> rfl

/-- What is found under a name of the other language. -/
theorem found_map {B : Alphabet δ} {q : δ → Bool} {f : γ → δ} (hf : Function.Injective f)
    (hread : ∀ member, B.read q (member.map f) =
      (A.read p member).map (Prod.map (List.map f) (List.map f)))
    (members : List (List γ)) (key value : List δ) :
    B.found q key (members.map (List.map f)) = some value ↔
      ∃ k v, key = k.map f ∧ value = v.map f ∧ A.found p k members = some v := by
  have hmembers : (members.map (List.map f)).filterMap (B.read q) =
      (members.filterMap (A.read p)).map (Prod.map (List.map f) (List.map f)) := by
    rw [List.filterMap_map, List.map_filterMap]
    exact List.filterMap_congr fun member _ => hread member
  have hkey : ∀ k : List γ, (fun e : List δ × List δ => decide (e.1 = k.map f)) ∘
      Prod.map (List.map f) (List.map f) = fun e : List γ × List γ => decide (e.1 = k) := by
    intro k
    funext e
    rw [Function.comp_apply, decide_eq_decide, Prod.map_fst,
      (List.map_injective_iff.mpr hf).eq_iff]
  rw [found, hmembers, ← List.map_reverse]
  constructor
  · intro h
    obtain ⟨e, he, rfl⟩ := Option.map_eq_some_iff.mp h
    have hname := List.find?_some he
    obtain ⟨d, -, rfl⟩ := List.mem_map.mp (List.mem_of_find?_eq_some he)
    rw [decide_eq_true_eq] at hname
    subst hname
    refine ⟨d.1, d.2, rfl, rfl, ?_⟩
    rw [Prod.map_fst, List.find?_map, hkey, Option.map_eq_some_iff] at he
    obtain ⟨d', hd', hmap⟩ := he
    have hvalue := congrArg Prod.snd hmap
    rw [found, hd', Option.map_some, Option.some.injEq]
    exact List.map_injective_iff.mpr hf hvalue
  · rintro ⟨k, v, rfl, rfl, h⟩
    rw [found, Option.map_eq_some_iff] at h
    obtain ⟨e, he, rfl⟩ := h
    rw [List.find?_map, hkey, he]
    rfl

/-- What is found is the value of a token, and has no control characters. -/
theorem found_sound {key value : List γ} {members : List (List γ)}
    (h : A.found p key members = some value) :
    A.IsToken key ∧ ∀ c ∈ value, A.isControl c = false := by
  obtain ⟨e, he, rfl⟩ := Option.map_eq_some_iff.mp h
  have hname := List.find?_some he
  rw [decide_eq_true_eq] at hname
  obtain ⟨member, -, hread⟩ :=
    List.mem_filterMap.mp (List.mem_reverse.mp (List.mem_of_find?_eq_some he))
  rw [← hname]
  exact read_sound hread

end Alphabet
end Telemetry.Propagation
