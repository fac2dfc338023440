import Telemetry.Asgi.Middleware

/-!
# Python event names

A strict event name has three to five segments, with dots between them. `event_name` tests each
segment by a pattern of its own, and `validate_event_name` tests the whole name by another one. Both
patterns end in `$`, which takes a line feed at the end of the text as well.

## Main definitions

* `eventRe`, `validateEventName`, `Event.new` — the source's pattern, function and constructor;
  `eventName` is in the module of the ASGI middleware, which calls it.
* `IsSegment`, `IsEventName` — what the patterns are written for.

## Main results

* `matchesSegment_iff`, `matchesEvent_iff` — what the patterns take.
* `eventNames_contract_iff` — **when the two functions accept the event names, and nothing else**.
-/

namespace Telemetry.Schema.PythonEvents

open Lib Regex Asgi Propagation Propagation.Python

variable {X : Type}

def dot : CodePoint := .scalar '.'

def lineFeed : CodePoint := .scalar '\n'

/-- `".".join` -/
def dotted (segments : List CodePoints) : CodePoints := [dot].intercalate segments

/-- `[a-z]` -/
def isLetter (c : ℕ) : Bool := 0x61 ≤ c && c ≤ 0x7a

/-- `[a-z0-9_]` -/
def isWord (c : ℕ) : Bool := (0x61 ≤ c && c ≤ 0x7a) || (0x30 ≤ c && c ≤ 0x39) || c = 0x5f

/-- `_SEG` -/
def segmentRe : List (Piece ℕ) := [⟨isLetter, 1, some 1⟩, ⟨isWord, 0, none⟩]

/-- `\._SEG` -/
def dottedRe : List (Piece ℕ) := ⟨fun c => c = 0x2e, 1, some 1⟩ :: segmentRe

/-- `_SEG(?:\._SEG){n}`; the source asks for two to four. -/
def eventRe (n : ℕ) : List (Piece ℕ) := segmentRe ++ (List.replicate n dottedRe).flatten

/-- `$` -/
def dollar (rest : List ℕ) : Bool := rest = [] || rest = [0x0a]

/-- `_EVENT_RE.match`: the most repetitions are tried first. -/
def matchesEvent (name : CodePoints) : Bool :=
  [4, 3, 2].any fun n => accepts dollar (eventRe n) (name.map ord)

/-- `validate_event_name`, with Python's `repr`. -/
def validateEventName (env : Env X) (repr : CodePoints → CodePoints) (name : CodePoints)
    (strictEventName : Bool) : Except X Unit :=
  if strictEventName then
    if matchesEvent name then .ok ()
    else .error (env.eventSchemaError (.ofString "invalid event name: " ++ name))
  else if name = [] ∨ name.head? = some dot ∨ name.getLast? = some dot ∨ [dot, dot] <:+: name then
    .error (env.eventSchemaError
      (.ofString "event name segments must be non-empty: " ++ repr name))
  else .ok ()

/-- `Event`, with the attributes of its text. -/
structure Event where
  text : CodePoints
  domain : CodePoints
  action : CodePoints
  resource : Option CodePoints
  status : CodePoints
  deriving DecidableEq

/-- `Event.__new__` -/
def Event.new (env : Env X) (segments : List CodePoints) : Except X Event :=
  let failing := if env.strict then firstFailing matchesSegment segments else none
  let invalid (e : CodePoints × ℕ) : X := env.eventSchemaError
    (.ofString ("invalid event segment: segment[" ++ toString e.2 ++ "]=") ++ e.1)
  match segments with
  | [domain, action, status] =>
      match failing with
      | some e => .error (invalid e)
      | none => .ok ⟨dotted segments, domain, action, none, status⟩
  | [domain, action, resource, status] =>
      match failing with
      | some e => .error (invalid e)
      | none => .ok ⟨dotted segments, domain, action, some resource, status⟩
  | _ => .error (env.eventSchemaError
      (.ofString ("event() requires 3 or 4 segments (DA[R]S), got " ++
        toString segments.length)))

/-! ## Event names -/

/-- A lower-case letter, and lower-case letters, digits and underscores. -/
def IsSegment (s : CodePoints) : Prop :=
  ∃ first others, s = first :: others ∧ isLetter (ord first) = true ∧
    ∀ c ∈ others, isWord (ord c) = true

/-- Three to five segments with dots between them. -/
def IsEventName (s : CodePoints) : Prop :=
  ∃ segments, 3 ≤ segments.length ∧ segments.length ≤ 5 ∧ (∀ seg ∈ segments, IsSegment seg) ∧
    s = dotted segments

/-- A segment, or a segment and a line feed. -/
def IsFed (s : CodePoints) : Prop := ∃ seg, IsSegment seg ∧ (s = seg ∨ s = seg ++ [lineFeed])

variable {s t : CodePoints} {segments : List CodePoints} {rest : List ℕ}

/-! ## What the patterns take -/

/-- A scalar value is no surrogate. -/
theorem toNat_ne_surrogate (c : Char) (offset : Fin 2048) : c.toNat ≠ 0xd800 + offset := by
  have hvalid : c.toNat < 0xd800 ∨ 0xdfff < c.toNat ∧ c.toNat < 0x110000 := c.valid
  omega

theorem ord_injective : Function.Injective ord := by
  intro c d h
  cases c with
  | scalar c =>
      cases d with
      | scalar d => exact congrArg _ (Char.toNat_inj.mp h)
      | surrogate j => exact absurd h (toNat_ne_surrogate c j)
  | surrogate i =>
      cases d with
      | scalar d => exact absurd h.symm (toNat_ne_surrogate d i)
      | surrogate j => exact congrArg _ (Fin.ext (Nat.add_left_cancel h))

/-- The text behind a part of it. -/
theorem map_ord_eq_append_iff {part : List ℕ} : s.map ord = part ++ rest ↔
    ∃ t u, s = t ++ u ∧ t.map ord = part ∧ u.map ord = rest :=
  List.map_eq_append_iff

/-- **The pattern of a segment.** -/
theorem fits_segmentRe_iff : Fits segmentRe (s.map ord) rest ↔
    ∃ seg t, s = seg ++ t ∧ IsSegment seg ∧ rest = t.map ord := by
  simp only [segmentRe, Fits, takes_one_iff, takes_any_iff]
  constructor
  · intro h
    obtain ⟨_, _, hs, ⟨c, rfl, hc⟩, part, _, rfl, hpart, rfl⟩ := h
    obtain ⟨first, u, rfl, hfirst, hu⟩ := map_ord_eq_append_iff.mp hs
    obtain ⟨others, t, rfl, rfl, rfl⟩ := map_ord_eq_append_iff.mp hu
    obtain ⟨d, rfl, rfl⟩ := List.map_eq_singleton_iff.mp hfirst
    refine ⟨d :: others, t, by simp, ⟨d, others, rfl, hc, ?_⟩, rfl⟩
    exact fun c hc => hpart _ (List.mem_map_of_mem hc)
  · intro h
    obtain ⟨_, t, rfl, ⟨first, others, rfl, hfirst, hothers⟩, rfl⟩ := h
    refine ⟨[ord first], (others ++ t).map ord, by simp, ⟨_, rfl, hfirst⟩, others.map ord,
      t.map ord, by simp, ?_, rfl⟩
    simpa using hothers

theorem fits_dottedRe_iff : Fits dottedRe (s.map ord) rest ↔
    ∃ seg t, s = dot :: (seg ++ t) ∧ IsSegment seg ∧ rest = t.map ord := by
  simp only [dottedRe, Fits, takes_one_iff]
  constructor
  · intro h
    obtain ⟨_, _, hs, ⟨c, rfl, hc⟩, hfits⟩ := h
    obtain ⟨first, u, rfl, hfirst, rfl⟩ := map_ord_eq_append_iff.mp hs
    obtain ⟨d, rfl, rfl⟩ := List.map_eq_singleton_iff.mp hfirst
    obtain ⟨seg, t, rfl, hseg, hrest⟩ := fits_segmentRe_iff.mp hfits
    have hdot : d = dot := ord_injective (of_decide_eq_true hc)
    exact ⟨seg, t, by rw [hdot]; rfl, hseg, hrest⟩
  · intro h
    obtain ⟨seg, t, rfl, hseg, hrest⟩ := h
    exact ⟨[ord dot], (seg ++ t).map ord, rfl, ⟨_, rfl, rfl⟩,
      fits_segmentRe_iff.mpr ⟨seg, t, rfl, hseg, hrest⟩⟩

/-- The pattern of so many further segments. -/
theorem fits_replicate_iff {n : ℕ} :
    Fits (List.replicate n dottedRe).flatten (s.map ord) rest ↔
      ∃ (segments : List CodePoints) (t : CodePoints), segments.length = n ∧
        (∀ seg ∈ segments, IsSegment seg) ∧ s = segments.flatMap (dot :: ·) ++ t ∧
          rest = t.map ord := by
  induction n generalizing s with
  | zero =>
      rw [List.replicate_zero, List.flatten_nil, Fits]
      constructor
      · intro h
        exact ⟨[], s, rfl, by simp, rfl, h.symm⟩
      · intro h
        obtain ⟨segments, t, hlength, -, rfl, rfl⟩ := h
        rw [List.length_eq_zero_iff.mp hlength]
        rfl
  | succ n ih =>
      rw [List.replicate_succ, List.flatten_cons, fits_append_iff]
      constructor
      · intro h
        obtain ⟨_, hfirst, hothers⟩ := h
        obtain ⟨seg, u, rfl, hseg, rfl⟩ := fits_dottedRe_iff.mp hfirst
        obtain ⟨segments, t, hlength, hsegments, rfl, rfl⟩ := ih.mp hothers
        exact ⟨seg :: segments, t, by rw [List.length_cons, hlength],
          List.forall_mem_cons.mpr ⟨hseg, hsegments⟩, by simp, rfl⟩
      · intro h
        obtain ⟨segments, t, hlength, hsegments, rfl, rfl⟩ := h
        cases segments with
        | nil => cases hlength
        | cons seg segments =>
            rw [List.forall_mem_cons] at hsegments
            refine ⟨_, fits_dottedRe_iff.mpr ⟨seg, segments.flatMap (dot :: ·) ++ t, by simp,
              hsegments.1, rfl⟩, ih.mpr ⟨segments, t, Nat.succ.inj hlength, hsegments.2, rfl, rfl⟩⟩

theorem dotted_cons (seg : CodePoints) (segments : List CodePoints) :
    dotted (seg :: segments) = seg ++ segments.flatMap (dot :: ·) := by
  induction segments generalizing seg with
  | nil => simp [dotted]
  | cons next segments ih =>
      rw [dotted, List.intercalate_cons_cons, ← dotted, ih]
      simp

theorem dollar_map_iff : dollar (t.map ord) = true ↔ t = [] ∨ t = [lineFeed] := by
  have hfeed : t.map ord = [lineFeed].map ord ↔ t = [lineFeed] := ord_injective.list_map.eq_iff
  have hord : [0x0a] = [lineFeed].map ord := rfl
  rw [dollar, Bool.or_eq_true, decide_eq_true_eq, decide_eq_true_eq, hord, hfeed,
    List.map_eq_nil_iff]

/-- **A segment of `event_name`** may end in a line feed. -/
theorem matchesSegment_iff : matchesSegment s = true ↔ IsFed s := by
  have haccepts : matchesSegment s = accepts dollar segmentRe (s.map ord) := rfl
  simp only [haccepts, accepts_iff, fits_segmentRe_iff]
  constructor
  · intro h
    obtain ⟨_, ⟨seg, t, rfl, hseg, rfl⟩, hdollar⟩ := h
    obtain rfl | rfl := dollar_map_iff.mp hdollar
    · exact ⟨seg, hseg, .inl (List.append_nil seg)⟩
    · exact ⟨seg, hseg, .inr rfl⟩
  · intro h
    obtain ⟨seg, hseg, rfl | rfl⟩ := h
    · exact ⟨_, ⟨s, [], (List.append_nil s).symm, hseg, rfl⟩, rfl⟩
    · exact ⟨_, ⟨seg, [lineFeed], rfl, hseg, rfl⟩, rfl⟩

theorem fits_eventRe_iff {n : ℕ} : Fits (eventRe n) (s.map ord) rest ↔
    ∃ (segments : List CodePoints) (t : CodePoints), segments.length = n + 1 ∧
      (∀ seg ∈ segments, IsSegment seg) ∧ s = dotted segments ++ t ∧ rest = t.map ord := by
  rw [eventRe, fits_append_iff]
  constructor
  · intro h
    obtain ⟨_, hfirst, hothers⟩ := h
    obtain ⟨seg, u, rfl, hseg, rfl⟩ := fits_segmentRe_iff.mp hfirst
    obtain ⟨segments, t, hlength, hsegments, rfl, rfl⟩ := fits_replicate_iff.mp hothers
    exact ⟨seg :: segments, t, by rw [List.length_cons, hlength],
      List.forall_mem_cons.mpr ⟨hseg, hsegments⟩, by rw [dotted_cons, List.append_assoc], rfl⟩
  · intro h
    obtain ⟨segments, t, hlength, hsegments, rfl, rfl⟩ := h
    cases segments with
    | nil => cases hlength
    | cons seg segments =>
        rw [List.forall_mem_cons] at hsegments
        exact ⟨_, fits_segmentRe_iff.mpr ⟨seg, segments.flatMap (dot :: ·) ++ t,
            by rw [dotted_cons, List.append_assoc], hsegments.1, rfl⟩,
          fits_replicate_iff.mpr ⟨segments, t, Nat.succ.inj hlength, hsegments.2, rfl, rfl⟩⟩

/-- **A name of `validate_event_name`** may end in a line feed. -/
theorem matchesEvent_iff : matchesEvent s = true ↔
    ∃ name, IsEventName name ∧ (s = name ∨ s = name ++ [lineFeed]) := by
  simp only [matchesEvent, List.any_eq_true, accepts_iff, fits_eventRe_iff]
  constructor
  · intro h
    obtain ⟨n, hn, _, ⟨segments, t, hlength, hsegments, rfl, rfl⟩, hdollar⟩ := h
    have hname : IsEventName (dotted segments) := by
      refine ⟨segments, ?_, ?_, hsegments, rfl⟩ <;> simp at hn <;> omega
    obtain rfl | rfl := dollar_map_iff.mp hdollar
    · exact ⟨_, hname, .inl (List.append_nil _)⟩
    · exact ⟨_, hname, .inr rfl⟩
  · intro h
    obtain ⟨_, ⟨segments, hleast, hmost, hsegments, rfl⟩, hs⟩ := h
    have hn : segments.length - 1 ∈ [4, 3, 2] := by simp; omega
    have hlength : segments.length = segments.length - 1 + 1 := by omega
    obtain rfl | rfl := hs
    · exact ⟨_, hn, _, ⟨segments, [], hlength, hsegments, (List.append_nil _).symm, rfl⟩, rfl⟩
    · exact ⟨_, hn, _, ⟨segments, [lineFeed], hlength, hsegments, rfl, rfl⟩, rfl⟩

/-! ## The functions -/

theorem validateEventName_strict_iff (env : Env X) (repr : CodePoints → CodePoints) :
    validateEventName env repr s true = .ok () ↔ matchesEvent s = true := by
  rw [validateEventName, if_pos rfl]
  cases matchesEvent s <;> simp

theorem firstFailing_eq_none_iff {test : CodePoints → Bool} :
    firstFailing test segments = none ↔ ∀ v ∈ segments, test v = true := by
  rw [firstFailing, List.find?_eq_none]
  constructor
  · intro h v hv
    obtain ⟨i, hi⟩ := List.getElem?_of_mem hv
    simpa using h (v, i) (List.mem_zipIdx_iff_getElem?.mpr hi)
  · intro h e he
    have hmem := List.mem_of_getElem? (List.mem_zipIdx_iff_getElem?.mp he)
    simpa using h e.1 hmem

theorem firstFailing_matchesSegment_iff :
    firstFailing matchesSegment segments = none ↔ ∀ v ∈ segments, IsFed v := by
  simp only [firstFailing_eq_none_iff, matchesSegment_iff]

theorem IsFed.ne_nil (h : IsFed s) : s ≠ [] := by
  obtain ⟨_, ⟨first, others, rfl, -⟩, rfl | rfl⟩ := h <;> simp

/-- **What `event_name` accepts in strict mode.** -/
theorem eventName_strict_iff (env : Env X) {name : CodePoints} :
    eventName { env with strict := true } segments = .ok name ↔
      3 ≤ segments.length ∧ segments.length ≤ 5 ∧ (∀ v ∈ segments, IsFed v) ∧
        name = dotted segments := by
  have hempty : (∀ v ∈ segments, IsFed v) →
      firstFailing (fun value => value ≠ []) segments = none := fun h =>
    firstFailing_eq_none_iff.mpr fun v hv => decide_eq_true (h v hv).ne_nil
  rw [eventName]
  by_cases hlength : segments.length < 3 ∨ 5 < segments.length
  · constructor
    · intro h
      split at h
      · cases h
      · split at h
        · cases h
        · simp at h
    · intro h
      omega
  · have hleast : 3 ≤ segments.length := by omega
    have hmost : segments.length ≤ 5 := by omega
    have hpos : segments.length ≠ 0 := by omega
    simp only [hleast, hmost, true_and, if_neg hpos, if_neg hlength]
    rw [← firstFailing_matchesSegment_iff]
    cases hfailing : firstFailing matchesSegment segments with
    | none =>
        rw [hempty (firstFailing_matchesSegment_iff.mp hfailing)]
        simp [dotted, dot, eq_comm]
    | some e =>
        cases firstFailing (fun value => decide (value ≠ [])) segments <;> simp

/-! ### Without strict names -/

theorem pair_infix_cons_iff {c : CodePoint} :
    [dot, dot] <:+: c :: s ↔ c = dot ∧ s.head? = some dot ∨ [dot, dot] <:+: s := by
  rw [List.infix_cons_iff, List.cons_prefix_cons]
  cases s with
  | nil => simp
  | cons d s => rw [List.cons_prefix_cons, List.head?_cons, Option.some.injEq, eq_comm,
      eq_comm (a := dot) (b := d), and_iff_left (List.nil_prefix)]

theorem getLast?_cons_eq_dot_iff {c : CodePoint} :
    (c :: s).getLast? = some dot ↔ s = [] ∧ c = dot ∨ s.getLast? = some dot := by
  cases s with
  | nil => simp
  | cons d s => simp

/-- The first part is empty, or another one is. -/
theorem nil_mem_splitOn_iff_tail :
    [] ∈ s.splitOn dot ↔ s = [] ∨ s.head? = some dot ∨ [] ∈ (s.splitOn dot).tail := by
  cases s with
  | nil => simp
  | cons c s =>
      rw [List.splitOn_cons_eq_if_modifyHead]
      by_cases hc : c = dot
      · simp [hc]
      · obtain ⟨part, parts, hparts⟩ := List.exists_cons_of_ne_nil (List.splitOn_ne_nil dot s)
        simp [hparts, hc]

theorem nil_mem_tail_splitOn_iff :
    [] ∈ (s.splitOn dot).tail ↔ s.getLast? = some dot ∨ [dot, dot] <:+: s := by
  induction s with
  | nil => simp
  | cons c s ih =>
      rw [List.splitOn_cons_eq_if_modifyHead, pair_infix_cons_iff, getLast?_cons_eq_dot_iff]
      by_cases hc : c = dot
      · simp only [hc, beq_self_eq_true, if_true, List.tail_cons, nil_mem_splitOn_iff_tail, ih]
        tauto
      · simp only [hc, beq_eq_false_iff_ne.mpr hc, List.tail_modifyHead, ih, Bool.false_eq_true,
          if_false, and_false, false_and, false_or]

/-- **Names without strict mode**: no segment is empty. -/
theorem validateEventName_relaxed_iff (env : Env X) (repr : CodePoints → CodePoints) :
    validateEventName env repr s false = .ok () ↔ [] ∉ s.splitOn dot := by
  rw [validateEventName, if_neg (by decide), nil_mem_splitOn_iff_tail, nil_mem_tail_splitOn_iff]
  split
  · next h => simp [h]
  · next h => simp [h]

/-! ## Dots and line feeds -/

theorem IsSegment.isWord (h : IsSegment s) : ∀ c ∈ s, isWord (ord c) = true := by
  obtain ⟨first, others, rfl, hfirst, hothers⟩ := h
  refine List.forall_mem_cons.mpr ⟨?_, hothers⟩
  rw [isLetter] at hfirst
  simp [PythonEvents.isWord, hfirst]

theorem IsSegment.dot_notMem (h : IsSegment s) : dot ∉ s :=
  fun hmem => absurd (h.isWord _ hmem) (by decide)

theorem IsSegment.lineFeed_notMem (h : IsSegment s) : lineFeed ∉ s :=
  fun hmem => absurd (h.isWord _ hmem) (by decide)

theorem IsFed.dot_notMem (h : IsFed s) : dot ∉ s := by
  obtain ⟨seg, hseg, rfl | rfl⟩ := h
  · exact hseg.dot_notMem
  · rw [List.mem_append, not_or]
    exact ⟨hseg.dot_notMem, by decide⟩

/-- Without a line feed it is a segment. -/
theorem IsFed.isSegment (h : IsFed s) (hs : lineFeed ∉ s) : IsSegment s := by
  obtain ⟨seg, hseg, rfl | rfl⟩ := h
  · exact hseg
  · exact absurd (List.mem_append_right seg List.mem_cons_self) hs

theorem IsEventName.lineFeed_notMem (h : IsEventName s) : lineFeed ∉ s := by
  obtain ⟨segments, -, -, hsegments, rfl⟩ := h
  have hparts : ∀ c ∈ dotted segments, c ≠ lineFeed :=
    (CodePoints.forall_mem_intercalate (by decide) segments).mpr fun seg hseg c hc heq =>
      (hsegments seg hseg).lineFeed_notMem (heq ▸ hc)
  exact fun hmem => hparts _ hmem rfl

theorem IsEventName.ne_nil (h : IsEventName s) : s ≠ [] := by
  obtain ⟨segments, hleast, -, hsegments, rfl⟩ := h
  cases segments with
  | nil => cases hleast
  | cons seg segments =>
      obtain ⟨first, others, rfl, -⟩ := hsegments seg List.mem_cons_self
      simp [dotted_cons]

/-- Segments without dots can be read off. -/
theorem dotted_inj {segments' : List CodePoints} (hne : segments ≠ []) (hne' : segments' ≠ [])
    (hdot : ∀ v ∈ segments, dot ∉ v) (hdot' : ∀ v ∈ segments', dot ∉ v)
    (h : dotted segments = dotted segments') : segments = segments' := by
  rw [← List.splitOn_intercalate dot hdot hne, ← List.splitOn_intercalate dot hdot' hne']
  exact congrArg (List.splitOn dot) h

/-- What stands at the end of the last segment stands at the end. -/
theorem dotted_concat_append (init : List CodePoints) (last t : CodePoints) :
    dotted (init ++ [last ++ t]) = dotted (init ++ [last]) ++ t := by
  cases init with
  | nil => simp [dotted_cons]
  | cons seg init => simp [dotted_cons]

/-! ## Where the functions agree -/

/-- A line feed is at the end of a segment, and not of the last one only. -/
def FedInside (segments : List CodePoints) : Prop :=
  (3 ≤ segments.length ∧ segments.length ≤ 5 ∧ ∀ v ∈ segments, IsFed v) ∧
    ∃ v ∈ segments.dropLast, lineFeed ∈ v

/-- What both functions accept. -/
theorem matchesEvent_dotted_iff :
    (matchesEvent (dotted segments) = true ∧ ∀ v ∈ segments, dot ∉ v) ↔
      (3 ≤ segments.length ∧ segments.length ≤ 5 ∧ ∀ v ∈ segments, IsFed v) ∧
        ∀ v ∈ segments.dropLast, lineFeed ∉ v := by
  constructor
  · intro h
    obtain ⟨hmatch, hdot⟩ := h
    obtain ⟨name, hname, hs⟩ := matchesEvent_iff.mp hmatch
    have hne : segments ≠ [] := by
      rintro rfl
      obtain hs | hs := hs
      · exact hname.ne_nil hs.symm
      · simp [dotted] at hs
    obtain ⟨parts, hleast, hmost, hparts, rfl⟩ := hname
    have hne' : parts ≠ [] := by
      rintro rfl
      cases hleast
    obtain hs | hs := hs
    · have heq := dotted_inj hne hne' hdot (fun v hv => (hparts v hv).dot_notMem) hs
      rw [heq]
      exact ⟨⟨hleast, hmost, fun v hv => ⟨v, hparts v hv, .inl rfl⟩⟩, fun v hv =>
        (hparts v (List.dropLast_subset _ hv)).lineFeed_notMem⟩
    · -- the line feed behind the name is one behind its last segment
      obtain ⟨init, last, rfl⟩ := (List.eq_nil_or_concat' parts).resolve_left hne'
      rw [← dotted_concat_append] at hs
      rw [List.forall_mem_append, List.forall_mem_singleton] at hparts
      have hfed : ∀ v ∈ init ++ [last ++ [lineFeed]], IsFed v := by
        rw [List.forall_mem_append, List.forall_mem_singleton]
        exact ⟨fun v hv => ⟨v, hparts.1 v hv, .inl rfl⟩, last, hparts.2, .inr rfl⟩
      have heq := dotted_inj hne (by simp) hdot (fun v hv => (hfed v hv).dot_notMem) hs
      rw [heq, List.dropLast_concat]
      simp only [List.length_append, List.length_singleton] at hleast hmost ⊢
      exact ⟨⟨hleast, hmost, hfed⟩, fun v hv => (hparts.1 v hv).lineFeed_notMem⟩
  · intro h
    obtain ⟨⟨hleast, hmost, hfed⟩, hclean⟩ := h
    refine ⟨matchesEvent_iff.mpr ?_, fun v hv => (hfed v hv).dot_notMem⟩
    obtain rfl | ⟨init, last, rfl⟩ := List.eq_nil_or_concat' segments
    · cases hleast
    · rw [List.dropLast_concat] at hclean
      rw [List.forall_mem_append, List.forall_mem_singleton] at hfed
      obtain ⟨hinit, seg, hseg, hlast⟩ := hfed
      have hname : IsEventName (dotted (init ++ [seg])) := by
        refine ⟨_, by simpa using hleast, by simpa using hmost, ?_, rfl⟩
        rw [List.forall_mem_append, List.forall_mem_singleton]
        exact ⟨fun v hv => (hinit v hv).isSegment (hclean v hv), hseg⟩
      refine ⟨_, hname, ?_⟩
      obtain rfl | rfl := hlast
      · exact .inl rfl
      · exact .inr (dotted_concat_append init seg [lineFeed])

/-- **When the two functions accept the event names, and nothing else**: `validate_event_name` on a
text unless this is an event name and a line feed, and `event_name` on segments unless a line feed
is at the end of one that is not the last. -/
theorem eventNames_contract_iff (env : Env X) (repr : CodePoints → CodePoints) (s : CodePoints)
    (segments : List CodePoints) :
    ((validateEventName env repr s true = .ok () ↔ IsEventName s) ↔
      ¬∃ name, IsEventName name ∧ s = name ++ [lineFeed]) ∧
    ((((∃ name, eventName { env with strict := true } segments = .ok name) ↔
        validateEventName env repr (dotted segments) true = .ok () ∧
          ∀ v ∈ segments, dot ∉ v) ∧
        ∀ name, eventName { env with strict := true } segments = .ok name →
          name = dotted segments) ↔
      ¬FedInside segments) := by
  simp only [validateEventName_strict_iff, eventName_strict_iff]
  refine ⟨?_, ?_⟩
  · rw [matchesEvent_iff]
    constructor
    · rintro h ⟨name, hname, rfl⟩
      have hmem : lineFeed ∈ name ++ [lineFeed] := List.mem_append_right name List.mem_cons_self
      exact (h.mp ⟨name, hname, .inr rfl⟩).lineFeed_notMem hmem
    · intro h
      constructor
      · rintro ⟨name, hname, rfl | rfl⟩
        · exact hname
        · exact absurd ⟨name, hname, rfl⟩ h
      · exact fun hs => ⟨s, hs, .inl rfl⟩
  · rw [matchesEvent_dotted_iff, FedInside]
    have hjoin : (∃ name, 3 ≤ segments.length ∧ segments.length ≤ 5 ∧
        (∀ v ∈ segments, IsFed v) ∧ name = dotted segments) ↔
        3 ≤ segments.length ∧ segments.length ≤ 5 ∧ ∀ v ∈ segments, IsFed v := by
      constructor
      · rintro ⟨name, hleast, hmost, hfed, -⟩
        exact ⟨hleast, hmost, hfed⟩
      · rintro ⟨hleast, hmost, hfed⟩
        exact ⟨_, hleast, hmost, hfed, rfl⟩
    rw [hjoin, and_iff_left fun name h => h.2.2.2]
    constructor
    · rintro h ⟨hfed, v, hv, hmem⟩
      exact (h.mp hfed).2 v hv hmem
    · intro h
      refine ⟨fun hfed => ⟨hfed, fun v hv hmem => h ⟨hfed, v, hv, hmem⟩⟩, fun h => h.1⟩

/-- A line feed at the end of a name and of its first segment. -/
theorem not_agree_of_lineFeed :
    (validateEventName quietEnv id (.ofString "a.b.c\n") true = .ok () ∧
      ¬IsEventName (.ofString "a.b.c\n")) ∧
    (eventName { quietEnv with strict := true }
        [.ofString "a\n", .ofString "b", .ofString "c"] = .ok (.ofString "a\n.b.c") ∧
      validateEventName quietEnv id (.ofString "a\n.b.c") true ≠ .ok ()) := by
  refine ⟨⟨by decide, ?_⟩, by decide, by decide⟩
  intro h
  exact absurd (by decide) h.lineFeed_notMem

/-! ## Events -/

/-- **A strict event** is an event name of three or four segments, with its segments. -/
theorem new_strict_iff (env : Env X) {e : Event} :
    Event.new { env with strict := true } segments = .ok e ↔
      eventName { env with strict := true } segments = .ok e.text ∧
        (segments = [e.domain, e.action, e.status] ∧ e.resource = none ∨
          ∃ resource, segments = [e.domain, e.action, resource, e.status] ∧
            e.resource = some resource) := by
  rw [eventName_strict_iff, ← firstFailing_matchesSegment_iff]
  obtain ⟨text, domain, action, resource, status⟩ := e
  simp only [Event.new, if_true]
  split
  · next domain action status =>
    split
    · next hfailing => simp [hfailing]
    · next hfailing => simp [hfailing, dotted, eq_comm, and_comm, and_assoc]
  · next domain action resource status =>
    split
    · next hfailing => simp [hfailing]
    · next hfailing => simp [hfailing, dotted, eq_comm, and_comm, and_assoc]
  · next hthree hfour =>
    -- neither three nor four segments
    constructor
    · intro h
      cases h
    · rintro ⟨-, ⟨rfl, -⟩ | ⟨resource, rfl, -⟩⟩
      · exact absurd rfl (hthree _ _ _)
      · exact absurd rfl (hfour _ _ _ _)

end Telemetry.Schema.PythonEvents
