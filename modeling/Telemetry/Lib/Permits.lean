import Mathlib.Data.List.Basic
import Mathlib.Data.Nat.Notation

/-!
# Permits and the slips for them

A source of permits hands out as many as its size and keeps only the number of those that are out.
A slip says which source its permit came from, if there is one. A permit that is given back is
anonymous: the source only sees that one permit less is out.

## Main definitions

* `Permits` — a source, which never has more out than its size.
* `Pool` — sources, and the slips handed out for their permits.
* `Pool.live` — the slips of a source that were not given back.
* `Pool.Balanced` — every source has as many permits out as it has live slips.

## Main results

* `Pool.balanced_take`, `Pool.balanced_addSource`, `Pool.balanced_issueFree` — what keeps the
  balance.
* `Pool.balanced_giveBack_iff` — giving back keeps it unless a permit is given back twice.
-/

namespace Telemetry.Lib

/-- A source of permits. -/
structure Permits where
  size : ℕ
  /-- How many permits are out. -/
  held : ℕ
  fits : held ≤ size
  deriving DecidableEq, Repr

namespace Permits

/-- A source with no permit out. -/
def ofSize (size : ℕ) : Permits := ⟨size, 0, Nat.zero_le size⟩

/-- One permit more is out, unless all are. -/
def take (p : Permits) : Option Permits :=
  if h : p.held < p.size then some ⟨p.size, p.held + 1, h⟩ else none

/-- One permit less is out, unless none is. -/
def giveBack (p : Permits) : Permits := ⟨p.size, p.held - 1, Nat.le_trans (Nat.sub_le _ _) p.fits⟩

@[simp] theorem ofSize_size (size : ℕ) : (ofSize size).size = size := rfl

@[simp] theorem ofSize_held (size : ℕ) : (ofSize size).held = 0 := rfl

@[simp] theorem giveBack_size (p : Permits) : p.giveBack.size = p.size := rfl

@[simp] theorem giveBack_held (p : Permits) : p.giveBack.held = p.held - 1 := rfl

theorem take_eq_some {p q : Permits} (h : p.take = some q) :
    q.size = p.size ∧ q.held = p.held + 1 := by
  rw [take] at h
  split at h
  · cases h
    exact ⟨rfl, rfl⟩
  · cases h

theorem take_eq_none_iff {p : Permits} : p.take = none ↔ p.held = p.size := by
  have hfits := p.fits
  rw [take]
  split
  · simp
    omega
  · simp
    omega

end Permits

/-- A slip for a permit, or for none where nothing is bounded. -/
structure Slip where
  source : Option ℕ
  returned : Bool := false
  deriving DecidableEq, Repr

/-- The slip is out for a permit of the source. -/
def Slip.liveAt (c : ℕ) (x : Slip) : Bool := !x.returned && decide (x.source = some c)

/-- Sources of permits, known by their places, and the slips handed out. -/
structure Pool where
  sources : List Permits := []
  slips : List Slip := []
  deriving DecidableEq, Repr

namespace Pool

/-- How many slips of a source were not given back. -/
def live (p : Pool) (c : ℕ) : ℕ := p.slips.countP (Slip.liveAt c)

/-- A new source. -/
def addSource (p : Pool) (size : ℕ) : Pool := { p with sources := p.sources ++ [.ofSize size] }

/-- A slip for no permit. -/
def issueFree (p : Pool) : Pool := { p with slips := p.slips ++ [⟨none, false⟩] }

/-- A slip for a permit of a source. -/
def take (p : Pool) (c : ℕ) : Option Pool :=
  (p.sources[c]?.bind Permits.take).map fun q =>
    { sources := p.sources.set c q, slips := p.slips ++ [⟨some c, false⟩] }

/-- The slip at a place is given back. -/
def giveBack (p : Pool) (k : ℕ) (x : Slip) : Pool where
  sources :=
    match x.source with
    | none => p.sources
    | some c => p.sources.modify c Permits.giveBack
  slips := p.slips.set k { x with returned := true }

/-- Every source has as many permits out as there are live slips of it. -/
def Balanced (p : Pool) : Prop := ∀ c q, p.sources[c]? = some q → q.held = p.live c

/-- Every slip is of a source that exists. -/
def Known (p : Pool) : Prop := ∀ x ∈ p.slips, ∀ c, x.source = some c → c < p.sources.length

variable {p p' : Pool} {c k : ℕ} {x : Slip}

/-- No source has more live slips than its size. -/
theorem Balanced.live_le (h : p.Balanced) {q : Permits} (hq : p.sources[c]? = some q) :
    p.live c ≤ q.size := by
  rw [← h c q hq]
  exact q.fits

@[simp] theorem live_addSource (size : ℕ) : (p.addSource size).live c = p.live c := rfl

@[simp] theorem live_issueFree : p.issueFree.live c = p.live c := by
  simp [live, issueFree, Slip.liveAt]

/-- Nobody has a slip of a source that does not exist. -/
theorem Known.live_eq_zero (h : p.Known) (hc : p.sources.length ≤ c) : p.live c = 0 := by
  rw [live, List.countP_eq_zero]
  intro x hx hlive
  have hsource : x.source = some c := by
    simp only [Slip.liveAt, Bool.and_eq_true, decide_eq_true_eq] at hlive
    exact hlive.2
  have hlt := h x hx c hsource
  omega

theorem known_addSource (h : p.Known) (size : ℕ) : (p.addSource size).Known := by
  intro x hx c hc
  have hlt := h x hx c hc
  simp [addSource]
  omega

theorem known_issueFree (h : p.Known) : p.issueFree.Known := by
  intro x hx c hc
  simp only [issueFree, List.mem_append, List.mem_singleton] at hx
  obtain hx | rfl := hx
  · exact h x hx c hc
  · cases hc

theorem balanced_addSource (h : p.Balanced) (hknown : p.Known) (size : ℕ) :
    (p.addSource size).Balanced := by
  intro c q hq
  rw [live_addSource]
  rw [addSource] at hq
  obtain hlt | hle := Nat.lt_or_ge c p.sources.length
  · rw [List.getElem?_append_left hlt] at hq
    exact h c q hq
  · rw [hknown.live_eq_zero hle]
    rw [List.getElem?_append_right hle] at hq
    obtain ⟨-, rfl⟩ : c - p.sources.length = 0 ∧ Permits.ofSize size = q := by
      simpa [List.getElem?_singleton] using hq
    rfl

theorem balanced_issueFree (h : p.Balanced) : p.issueFree.Balanced := by
  intro c q hq
  rw [live_issueFree]
  exact h c q hq

/-- What taking a permit leaves behind. -/
theorem take_eq_some (h : p.take c = some p') :
    ∃ q q', p.sources[c]? = some q ∧ q.take = some q' ∧
      p' = { sources := p.sources.set c q', slips := p.slips ++ [⟨some c, false⟩] } := by
  rw [take, Option.map_eq_some_iff] at h
  obtain ⟨q', hq', rfl⟩ := h
  obtain ⟨q, hq, htake⟩ := Option.bind_eq_some_iff.mp hq'
  exact ⟨q, q', hq, htake, rfl⟩

theorem live_take (h : p.take c = some p') (d : ℕ) :
    p'.live d = p.live d + if d = c then 1 else 0 := by
  obtain ⟨q, q', -, -, rfl⟩ := take_eq_some h
  by_cases hd : d = c
  · simp [live, Slip.liveAt, hd]
  · simp [live, Slip.liveAt, hd, Ne.symm hd]

theorem known_take (h : p.Known) (htake : p.take c = some p') : p'.Known := by
  obtain ⟨q, q', hq, -, rfl⟩ := take_eq_some htake
  intro x hx d hd
  simp only [List.mem_append, List.mem_singleton] at hx
  rw [List.length_set]
  obtain hx | rfl := hx
  · exact h x hx d hd
  · obtain rfl : c = d := by simpa using hd
    obtain ⟨hlt, -⟩ := List.getElem?_eq_some_iff.mp hq
    exact hlt

theorem balanced_take (h : p.Balanced) (htake : p.take c = some p') : p'.Balanced := by
  have hlive := live_take htake
  obtain ⟨q, q', hq, hq', rfl⟩ := take_eq_some htake
  obtain ⟨-, hheld⟩ := Permits.take_eq_some hq'
  intro d r hr
  rw [hlive d]
  rw [List.getElem?_set] at hr
  split at hr
  · next hcd =>
      subst hcd
      obtain ⟨-, rfl⟩ : c < p.sources.length ∧ q' = r := by simpa using hr
      rw [if_pos rfl, hheld, h c q hq]
  · next hcd =>
      rw [if_neg (Ne.symm hcd), Nat.add_zero]
      exact h d r hr

/-! ## Giving back -/

theorem known_giveBack (h : p.Known) (hx : p.slips[k]? = some x) : (p.giveBack k x).Known := by
  have hlength : (p.giveBack k x).sources.length = p.sources.length := by
    rw [giveBack]
    split
    · rfl
    · exact List.length_modify ..
  intro y hy c hc
  rw [hlength]
  obtain hy | rfl := List.mem_or_eq_of_mem_set hy
  · exact h y hy c hc
  · exact h x (List.mem_of_getElem? hx) c hc

/-- The slip that is given back is live no longer. -/
theorem live_giveBack (hx : p.slips[k]? = some x) (c : ℕ) :
    (p.giveBack k x).live c = p.live c - if x.liveAt c then 1 else 0 := by
  obtain ⟨hlt, rfl⟩ := List.getElem?_eq_some_iff.mp hx
  have hnot : Slip.liveAt c ⟨(p.slips[k]).source, true⟩ = false := rfl
  simp [live, giveBack, List.countP_set hlt, hnot]

theorem sources_giveBack (c : ℕ) :
    (p.giveBack k x).sources[c]? =
      (p.sources[c]?).map fun q => if x.source = some c then q.giveBack else q := by
  rw [giveBack]
  cases hsource : x.source with
  | none => simp
  | some d =>
      by_cases hd : d = c
      · subst hd
        simp
      · simp [hd]

/-- A slip that is not live makes its source lose another one's permit, if one is out. -/
def StealsNothing (p : Pool) (x : Slip) : Prop :=
  x.returned = true → ∀ c ∈ x.source, ∀ q ∈ p.sources[c]?, q.held = 0

instance (p : Pool) (x : Slip) : Decidable (p.StealsNothing x) :=
  inferInstanceAs (Decidable (x.returned = true → ∀ c ∈ x.source, ∀ q ∈ p.sources[c]?, q.held = 0))

/-- **Giving back** keeps the balance exactly if the slip is live or nothing is out. -/
theorem balanced_giveBack_iff (h : p.Balanced) (hx : p.slips[k]? = some x) :
    (p.giveBack k x).Balanced ↔ p.StealsNothing x := by
  have hheld : ∀ c q, p.sources[c]? = some q →
      ((p.giveBack k x).sources[c]? = some q.giveBack ∧ x.source = some c) ∨
      ((p.giveBack k x).sources[c]? = some q ∧ x.source ≠ some c) := by
    intro c q hq
    rw [sources_giveBack, hq]
    by_cases hc : x.source = some c <;> simp [hc]
  constructor
  · intro hafter hreturned c hc q hq
    have hsource : x.source = some c := hc
    obtain ⟨hq', -⟩ | ⟨-, hne⟩ := hheld c q hq
    · have hbalance := hafter c _ hq'
      rw [live_giveBack hx, ← h c q hq, Permits.giveBack_held] at hbalance
      simp only [Slip.liveAt, hreturned, Bool.not_true, Bool.false_and, Bool.false_eq_true,
        if_false] at hbalance
      omega
    · exact absurd hsource hne
  · intro hsteals c r hr
    obtain ⟨q, hq, -⟩ : ∃ q, p.sources[c]? = some q ∧ _ := by
      rw [sources_giveBack] at hr
      exact Option.map_eq_some_iff.mp hr
    rw [live_giveBack hx, ← h c q hq]
    obtain ⟨hq', hsource⟩ | ⟨hq', hsource⟩ := hheld c q hq
    · obtain rfl : q.giveBack = r := Option.some.inj (hq'.symm.trans hr)
      cases hreturned : x.returned with
      | true =>
          have hzero : q.held = 0 := hsteals hreturned c hsource q hq
          simp [hzero]
      | false => simp [Slip.liveAt, hreturned, hsource]
    · obtain rfl : q = r := Option.some.inj (hq'.symm.trans hr)
      simp [Slip.liveAt, hsource]

end Pool
end Telemetry.Lib
