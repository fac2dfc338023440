import Telemetry.Backpressure.Python
import Telemetry.Lib.Run
import Mathlib.Data.List.Basic
import Mathlib.Data.List.Nodup

/-!
# Tickets over a whole run

Runs of `set_queue_policy`, `try_acquire`, `release` and `shutdown_telemetry` over the
Python queues, with the history that the code does not keep: which tickets were handed out,
before which reset, and which of them were released. Any ticket handed out may be released
at any time and any number of times.

A reset starts the counter again, so a ticket from before it can carry the token of a ticket
handed out since. As long as no such ticket is released while the other one is in the queue,
a queue holds exactly the tokens of the tickets that hold a slot.

## Main definitions

* `Runtime`, `Op`, `machine` — the queues with their history.
* `Runtime.heldTokens` — the tokens of the tickets that hold a slot.
* `NoReissuedRelease` — no ticket is released whose token is another one's by now.
* `release_frees_own_slot` — **a release frees only its own slot**.
-/

namespace Telemetry.Backpressure.Python

open Telemetry.Lib

/-- A ticket that was handed out. -/
structure Issued where
  ticket : QueueTicket
  /-- How many resets came before it. -/
  epoch : ℕ
  released : Bool := false
  deriving DecidableEq, Repr

/-- The queues, and what was done with their tickets. -/
structure Runtime where
  queues : Queues := {}
  /-- How many resets there were. -/
  epoch : ℕ := 0
  /-- The tickets handed out, the oldest first. -/
  issued : List Issued := []

/-- What the callers may do. -/
inductive Op
  | setPolicy (policy : QueuePolicy)
  | acquire (signal : Signal)
  /-- Release the `k`-th ticket handed out. -/
  | release (k : ℕ)
  /-- `shutdown_telemetry`. -/
  | shutdown
  deriving DecidableEq, Repr

/-- The ticket took a slot since the last reset. -/
def Issued.took (epoch : ℕ) (x : Issued) : Bool :=
  decide (x.epoch = epoch) && decide (x.ticket.token ≠ 0)

/-- The ticket holds a slot: it took one since the last reset and was not released. -/
def Issued.holds (epoch : ℕ) (x : Issued) : Bool :=
  x.took epoch && !x.released

namespace Runtime

/-- The tokens of the tickets that took a slot since the last reset. -/
def tokensTaken (s : Runtime) : List ℕ :=
  (s.issued.filter fun x => x.took s.epoch).map fun x => x.ticket.token

/-- The tickets that hold a slot of a signal. -/
def held (s : Runtime) (signal : Signal) : List Issued :=
  s.issued.filter fun x => x.holds s.epoch && decide (x.ticket.signal = signal)

/-- The tokens of the tickets that hold a slot of a signal. -/
def heldTokens (s : Runtime) (signal : Signal) : List ℕ :=
  (s.held signal).map fun x => x.ticket.token

/-- `try_acquire`; a ticket that is handed out is remembered. -/
def acquire (s : Runtime) (signal : Signal) : Runtime :=
  match s.queues.tryAcquire signal with
  | (queues, ticket) =>
      { s with
        queues := queues
        issued := s.issued ++ ticket.toList.map fun ticket => ⟨ticket, s.epoch, false⟩ }

/-- `release` of the `k`-th ticket. -/
def release (s : Runtime) (k : ℕ) (x : Issued) : Runtime :=
  { s with
    queues := s.queues.release (some x.ticket)
    issued := s.issued.set k { x with released := true } }

/-- `shutdown_telemetry`, which resets the queues whatever the teardown raises. -/
def shutdown (s : Runtime) : Runtime :=
  { s with queues := s.queues.resetQueuesForTests, epoch := s.epoch + 1 }

end Runtime

/-- The runs. Only a ticket that was handed out can be released. -/
def machine : Machine Runtime Op where
  init := {}
  step s
    | .setPolicy policy => some { s with queues := s.queues.setQueuePolicy policy }
    | .acquire signal => some (s.acquire signal)
    | .release k => (s.issued[k]?).map (s.release k)
    | .shutdown => some s.shutdown

/-! ## Marking one entry of a list -/

section Mark

variable {α β : Type} {p : α → Bool} {f : α → β} {xs : List α} {k : ℕ} {x y : α}

/-- Replacing an entry by one that looks the same changes nothing. -/
theorem map_filter_set_same (hx : xs[k]? = some x) (hp : p y = p x) (hf : f y = f x) :
    ((xs.set k y).filter p).map f = (xs.filter p).map f := by
  induction xs generalizing k with
  | nil => rfl
  | cons a xs ih =>
      cases k with
      | zero =>
          obtain rfl : a = x := by simpa using hx
          rw [List.set_cons_zero, List.filter_cons, List.filter_cons, hp]
          split
          · rw [List.map_cons, List.map_cons, hf]
          · rfl
      | succ k =>
          have hrest := ih (k := k) (by simpa using hx)
          rw [List.set_cons_succ, List.filter_cons, List.filter_cons]
          split
          · rw [List.map_cons, List.map_cons, hrest]
          · exact hrest

/-- Replacing an entry by one that is filtered out erases it. -/
theorem map_filter_set_erase [DecidableEq β] (hx : xs[k]? = some x) (hpx : p x = true)
    (hpy : p y = false) (hnodup : ((xs.filter p).map f).Nodup) :
    ((xs.set k y).filter p).map f = ((xs.filter p).map f).erase (f x) := by
  induction xs generalizing k with
  | nil => simp at hx
  | cons a xs ih =>
      cases k with
      | zero =>
          obtain rfl : a = x := by simpa using hx
          simp [hpx, hpy]
      | succ k =>
          have hrest : xs[k]? = some x := by simpa using hx
          rw [List.set_cons_succ, List.filter_cons, List.filter_cons]
          by_cases hpa : p a = true
          · rw [List.filter_cons, if_pos hpa, List.map_cons, List.nodup_cons] at hnodup
            have hmem : f x ∈ (xs.filter p).map f :=
              List.mem_map_of_mem (List.mem_filter.mpr ⟨List.mem_of_getElem? hrest, hpx⟩)
            have hne : f a ≠ f x := by
              intro heq
              exact hnodup.1 (heq ▸ hmem)
            rw [if_pos hpa, if_pos hpa, List.map_cons, List.map_cons, ih hrest hnodup.2,
              List.erase_cons_tail (by simpa using hne)]
          · rw [List.filter_cons, if_neg hpa] at hnodup
            rw [if_neg hpa, if_neg hpa, ih hrest hnodup]

/-- In a list whose entries look different, what looks the same is at the same index. -/
theorem eq_of_map_filter_nodup {j : ℕ} (hnodup : ((xs.filter p).map f).Nodup)
    (hx : xs[k]? = some x) (hy : xs[j]? = some y) (hpx : p x = true) (hpy : p y = true)
    (heq : f x = f y) : k = j := by
  induction xs generalizing j k with
  | nil => simp at hx
  | cons a xs ih =>
      have hhead : ∀ {i : ℕ} {z : α}, p a = true → xs[i]? = some z → p z = true → f a ≠ f z := by
        intro i z hpa hz hpz hsame
        rw [List.filter_cons, if_pos hpa, List.map_cons, List.nodup_cons] at hnodup
        apply hnodup.1
        rw [hsame]
        exact List.mem_map_of_mem (List.mem_filter.mpr ⟨List.mem_of_getElem? hz, hpz⟩)
      have htail : ((xs.filter p).map f).Nodup := by
        rw [List.filter_cons] at hnodup
        split at hnodup
        · exact (List.nodup_cons.mp hnodup).2
        · exact hnodup
      cases k with
      | zero =>
          obtain rfl : a = x := by simpa using hx
          cases j with
          | zero => rfl
          | succ j => exact absurd heq (hhead hpx (by simpa using hy) hpy)
      | succ k =>
          cases j with
          | zero =>
              obtain rfl : a = y := by simpa using hy
              exact absurd heq.symm (hhead hpy (by simpa using hx) hpx)
          | succ j =>
              have hsame := ih htail (by simpa using hx) (by simpa using hy)
              rw [hsame]

end Mark

/-! ## The invariant -/

/-- Each queue holds the tokens of the tickets that hold a slot of its signal. -/
def Exact (s : Runtime) : Prop := ∀ signal, s.queues.queues signal = s.heldTokens signal

/-- What every step keeps. -/
structure Inv (s : Runtime) : Prop where
  queues_eq : Exact s
  nodup : s.tokensTaken.Nodup
  /-- The counter is ahead of every token taken. -/
  fresh : ∀ token ∈ s.tokensTaken, token < s.queues.tokens
  pos : 0 < s.queues.tokens
  epoch_le : ∀ x ∈ s.issued, x.epoch ≤ s.epoch

/-- No ticket from before a reset is released while its token is in its signal's queue. -/
def NoReissuedRelease (s : Runtime) : Op → Prop
  | .release k => ∀ x ∈ s.issued[k]?, x.epoch = s.epoch ∨
      x.ticket.token ∉ s.queues.queues x.ticket.signal
  | _ => True

variable {s s' : Runtime} {k : ℕ} {x : Issued} {signal : Signal}

theorem inv_init : Inv {} where
  queues_eq _ := rfl
  nodup := by simp [Runtime.tokensTaken]
  fresh := by simp [Runtime.tokensTaken]
  pos := by simp
  epoch_le := by simp

/-- The policy is not part of the invariant. -/
theorem Inv.setPolicy (h : Inv s) (policy : QueuePolicy) :
    Inv { s with queues := s.queues.setQueuePolicy policy } where
  queues_eq := h.queues_eq
  nodup := h.nodup
  fresh := h.fresh
  pos := h.pos
  epoch_le := h.epoch_le

/-- After a reset nobody holds a slot. -/
theorem Inv.shutdown (h : Inv s) : Inv s.shutdown := by
  have hnone : ∀ x ∈ s.issued, x.took (s.epoch + 1) = false := by
    intro x hx
    have hle := h.epoch_le x hx
    have hne : x.epoch ≠ s.epoch + 1 := by omega
    simp [Issued.took, hne]
  have htaken : s.shutdown.tokensTaken = [] := by
    simpa [Runtime.tokensTaken, Runtime.shutdown, List.filter_eq_nil_iff] using hnone
  constructor
  · intro signal
    have hheld : s.shutdown.held signal = [] := by
      rw [Runtime.held, List.filter_eq_nil_iff]
      intro x hx
      simp [Issued.holds, Runtime.shutdown, hnone x hx]
    rw [Runtime.heldTokens, hheld]
    rfl
  · rw [htaken]
    exact List.nodup_nil
  · rw [htaken]
    simp
  · simp [Runtime.shutdown, Queues.resetQueuesForTests]
  · intro x hx
    exact Nat.le_succ_of_le (h.epoch_le x hx)

/-- An unlimited ticket takes nobody's slot. -/
theorem Inv.issue_unlimited (h : Inv s) (signal : Signal) :
    Inv { s with issued := s.issued ++ [⟨⟨signal, 0⟩, s.epoch, false⟩] } := by
  have htaken : Runtime.tokensTaken
      { s with issued := s.issued ++ [⟨⟨signal, 0⟩, s.epoch, false⟩] } = s.tokensTaken := by
    simp [Runtime.tokensTaken, Issued.took]
  constructor
  · intro other
    rw [h.queues_eq other]
    simp [Runtime.heldTokens, Runtime.held, Issued.holds, Issued.took]
  · rw [htaken]
    exact h.nodup
  · rw [htaken]
    exact h.fresh
  · exact h.pos
  · intro x hx
    rcases List.mem_append.mp hx with hx | hx
    · exact h.epoch_le x hx
    · rw [List.mem_singleton] at hx
      rw [hx]

/-- A ticket with the next token takes a slot of its signal and of no other. -/
theorem Inv.issue_token {queues : Queues} (h : Inv s) (signal : Signal)
    (htokens : queues.tokens = s.queues.tokens + 1)
    (hqueues : queues.queues = Function.update s.queues.queues signal
      (s.queues.queues signal ++ [s.queues.tokens])) :
    Inv { s with
      queues := queues
      issued := s.issued ++ [⟨⟨signal, s.queues.tokens⟩, s.epoch, false⟩] } := by
  have hne : s.queues.tokens ≠ 0 := Nat.ne_of_gt h.pos
  have htaken : Runtime.tokensTaken
      { s with
        queues := queues
        issued := s.issued ++ [⟨⟨signal, s.queues.tokens⟩, s.epoch, false⟩] } =
        s.tokensTaken ++ [s.queues.tokens] := by
    simp [Runtime.tokensTaken, Issued.took, hne]
  constructor
  · intro other
    simp only [hqueues]
    by_cases hsig : signal = other
    · subst hsig
      rw [Function.update_self, h.queues_eq]
      simp [Runtime.heldTokens, Runtime.held, Issued.holds, Issued.took, hne]
    · rw [Function.update_of_ne (Ne.symm hsig), h.queues_eq]
      simp [Runtime.heldTokens, Runtime.held, Issued.holds, Issued.took, hsig]
  · rw [htaken, List.nodup_append]
    refine ⟨h.nodup, List.nodup_singleton _, ?_⟩
    intro token htoken other hother
    rw [List.mem_singleton] at hother
    have hlt := h.fresh token htoken
    omega
  · rw [htaken]
    intro token htoken
    simp only [htokens]
    rcases List.mem_append.mp htoken with htoken | htoken
    · have hlt := h.fresh token htoken
      omega
    · rw [List.mem_singleton] at htoken
      omega
  · simp only [htokens]
    omega
  · intro x hx
    rcases List.mem_append.mp hx with hx | hx
    · exact h.epoch_le x hx
    · rw [List.mem_singleton] at hx
      rw [hx]

theorem Inv.acquire (h : Inv s) (signal : Signal) : Inv (s.acquire signal) := by
  rw [Runtime.acquire]
  cases hacq : s.queues.tryAcquire signal with
  | mk queues ticket =>
      obtain ⟨rfl, rfl⟩ | ⟨rfl, hqueues, htokens, -⟩ | ⟨rfl, htokens, -, hqueues⟩ :=
        Queues.tryAcquire_cases hacq
      · exact h.issue_unlimited signal
      · simp only [Option.toList_none, List.map_nil, List.append_nil]
        constructor
        · intro other
          simp only [hqueues]
          exact h.queues_eq other
        · exact h.nodup
        · simp only [htokens]
          exact h.fresh
        · simp only [htokens]
          exact h.pos
        · exact h.epoch_le
      · exact h.issue_token signal htokens hqueues

/-! ## Releases -/

/-- A ticket that holds a slot took one. -/
theorem took_of_holds (h : x.holds s.epoch = true) : x.took s.epoch = true := by
  rw [Issued.holds, Bool.and_eq_true] at h
  exact h.1

/-- The tokens held are among those taken, so they are distinct too. -/
theorem Inv.nodup_heldTokens (h : Inv s) (signal : Signal) : (s.heldTokens signal).Nodup := by
  refine List.Nodup.sublist (List.Sublist.map _ ?_) h.nodup
  have hsub : s.held signal =
      (s.issued.filter fun x => x.took s.epoch).filter fun x =>
        !x.released && decide (x.ticket.signal = signal) := by
    rw [Runtime.held, List.filter_filter]
    apply List.filter_congr
    intro x _
    simp only [Issued.holds]
    cases x.took s.epoch <;> simp
  rw [hsub]
  exact List.filter_sublist

/-- A ticket in a queue is some ticket that holds a slot there. -/
theorem Inv.exists_of_mem_queue (h : Inv s) {token : ℕ}
    (htoken : token ∈ s.queues.queues signal) :
    ∃ (j : ℕ) (y : Issued), s.issued[j]? = some y ∧ y.holds s.epoch = true ∧
      y.ticket = ⟨signal, token⟩ := by
  rw [h.queues_eq, Runtime.heldTokens, List.mem_map] at htoken
  rcases htoken with ⟨y, hy, rfl⟩
  rw [Runtime.held, List.mem_filter, Bool.and_eq_true, decide_eq_true_eq] at hy
  rcases List.mem_iff_getElem?.mp hy.1 with ⟨j, hj⟩
  exact ⟨j, y, hj, hy.2.1, by rw [← hy.2.2]⟩

/-- A ticket that holds no slot frees none, if its token is not another one's by now. -/
theorem Inv.release_of_not_holds (h : Inv s) (hx : s.issued[k]? = some x)
    (hholds : x.holds s.epoch = false) (hg : NoReissuedRelease s (.release k)) :
    s.queues.release (some x.ticket) = s.queues := by
  by_cases hzero : x.ticket.token = 0
  · rw [Queues.release, if_pos hzero]
  · apply Queues.release_of_notMem
    intro hmem
    rcases hg x hx with hepoch | hnotMem
    · -- Released already: whoever holds the token took it at the same index.
      rcases h.exists_of_mem_queue hmem with ⟨j, y, hy, hyholds, hticket⟩
      have htook : x.took s.epoch = true := by simp [Issued.took, hepoch, hzero]
      have hsame : k = j := eq_of_map_filter_nodup h.nodup hx hy htook (took_of_holds hyholds)
        (by rw [hticket])
      rw [← hsame, hx] at hy
      cases hy
      rw [hholds] at hyholds
      cases hyholds
    · exact hnotMem hmem

/-- **One release**: under the guard the queues are exact afterwards. -/
theorem Inv.release (h : Inv s) (hx : s.issued[k]? = some x)
    (hg : NoReissuedRelease s (.release k)) : Inv (s.release k x) := by
  have htaken : (s.release k x).tokensTaken = s.tokensTaken := by
    rw [Runtime.tokensTaken, Runtime.tokensTaken, Runtime.release]
    apply map_filter_set_same hx <;> rfl
  have htokens : (s.release k x).queues.tokens = s.queues.tokens := by
    simp only [Runtime.release, Queues.release]
    split <;> rfl
  constructor
  · intro other
    have hmark : (s.release k x).heldTokens other =
        ((s.issued.set k { x with released := true }).filter fun y =>
          y.holds s.epoch && decide (y.ticket.signal = other)).map fun y => y.ticket.token := rfl
    have hnot : Issued.holds s.epoch { x with released := true } = false := by simp [Issued.holds]
    cases hholds : x.holds s.epoch with
    | true =>
        have hne : x.ticket.token ≠ 0 := by
          have htook := took_of_holds hholds
          rw [Issued.took, Bool.and_eq_true, decide_eq_true_eq, decide_eq_true_eq] at htook
          exact htook.2
        rw [hmark, Runtime.release]
        simp only [Queues.release, if_neg hne]
        by_cases hsig : x.ticket.signal = other
        · subst hsig
          rw [Function.update_self, h.queues_eq]
          exact (map_filter_set_erase hx (by simp [hholds]) (by simp [hnot])
            (h.nodup_heldTokens _)).symm
        · rw [Function.update_of_ne (Ne.symm hsig), h.queues_eq]
          symm
          apply map_filter_set_same hx
          · simp [hsig]
          · rfl
    | false =>
        have hsame : (s.release k x).heldTokens other = s.heldTokens other := by
          rw [hmark]
          apply map_filter_set_same hx
          · simp [hholds, hnot]
          · rfl
        rw [hsame, Runtime.release]
        simp only [h.release_of_not_holds hx hholds hg]
        exact h.queues_eq other
  · rw [htaken]
    exact h.nodup
  · rw [htaken, htokens]
    exact h.fresh
  · rw [htokens]
    exact h.pos
  · intro y hy
    rcases List.mem_or_eq_of_mem_set hy with hy | rfl
    · exact h.epoch_le y hy
    · exact h.epoch_le x (List.mem_of_getElem? hx)

/-- A release outside the guard takes the slot of another ticket. -/
theorem Inv.not_exact_of_reissued (h : Inv s) (hx : s.issued[k]? = some x)
    (hepoch : x.epoch ≠ s.epoch) (hmem : x.ticket.token ∈ s.queues.queues x.ticket.signal) :
    ¬ Exact (s.release k x) := by
  intro hexact
  have hne : x.ticket.token ≠ 0 := by
    rcases h.exists_of_mem_queue hmem with ⟨j, y, -, hyholds, hticket⟩
    have htook := took_of_holds hyholds
    rw [Issued.took, Bool.and_eq_true, decide_eq_true_eq, decide_eq_true_eq, hticket] at htook
    exact htook.2
  -- The ticket held nothing, so the tickets that hold a slot are the same.
  have hheld : (s.release k x).heldTokens x.ticket.signal = s.heldTokens x.ticket.signal := by
    rw [Runtime.heldTokens, Runtime.heldTokens, Runtime.held, Runtime.held, Runtime.release]
    apply map_filter_set_same hx
    · simp [Issued.holds, Issued.took, hepoch]
    · rfl
  have hqueue : (s.release k x).queues.queues x.ticket.signal =
      (s.queues.queues x.ticket.signal).erase x.ticket.token := by
    simp [Runtime.release, Queues.release, hne]
  have hlength := congrArg List.length (hexact x.ticket.signal)
  rw [hheld, ← h.queues_eq, hqueue, List.length_erase_of_mem hmem] at hlength
  have hpos := List.length_pos_of_mem hmem
  omega

/-- A ticket keeps its place when another one is released. -/
theorem Inv.mem_queue_of_ne {j : ℕ} {y : Issued} (h : Inv s) (hx : s.issued[k]? = some x)
    (hg : NoReissuedRelease s (.release k)) (hj : j ≠ k) (hy : s.issued[j]? = some y)
    (hholds : y.holds s.epoch = true) :
    y.ticket.token ∈ (s.release k x).queues.queues y.ticket.signal := by
  rw [(h.release hx hg).queues_eq, Runtime.heldTokens]
  apply List.mem_map_of_mem
  rw [Runtime.held, List.mem_filter]
  constructor
  · apply List.mem_of_getElem? (i := j)
    rw [Runtime.release, List.getElem?_set_ne (Ne.symm hj), hy]
  · rw [Bool.and_eq_true]
    exact ⟨hholds, decide_eq_true rfl⟩

/-! ## Runs -/

theorem inv_step (op : Op) (h : Inv s) (hg : NoReissuedRelease s op)
    (hstep : machine.step s op = some s') : Inv s' := by
  cases op with
  | setPolicy policy =>
      cases hstep
      exact h.setPolicy policy
  | acquire signal =>
      cases hstep
      exact h.acquire signal
  | release k =>
      rcases Option.map_eq_some_iff.mp hstep with ⟨x, hx, rfl⟩
      exact h.release hx hg
  | shutdown =>
      cases hstep
      exact h.shutdown

theorem inv_of_reachable (hs : machine.Reachable NoReissuedRelease s) : Inv s :=
  hs.invariant (P := Inv) inv_init fun _ op _ h hg hstep => inv_step op h hg hstep

/-- **A release frees only its own slot**, in every run that releases no ticket from before
a reset while its token is in its signal's queue: the queues are exact, a release leaves
every other ticket its place, and a second release of a ticket does nothing. A release
outside the condition leaves a queue that is not exact. -/
theorem release_frees_own_slot (hs : machine.Reachable NoReissuedRelease s) :
    (∀ signal, s.queues.queues signal = s.heldTokens signal) ∧
    ∀ k x, s.issued[k]? = some x →
      (NoReissuedRelease s (.release k) →
        (∀ j y, j ≠ k → s.issued[j]? = some y → y.holds s.epoch = true →
          y.ticket.token ∈ (s.release k x).queues.queues y.ticket.signal) ∧
        (x.released = true → (s.release k x).queues = s.queues)) ∧
      (Exact (s.release k x) ↔ NoReissuedRelease s (.release k)) := by
  have h := inv_of_reachable hs
  constructor
  · exact h.queues_eq
  · intro k x hx
    constructor
    · intro hg
      constructor
      · intro j y hj hy hholds
        exact h.mem_queue_of_ne hx hg hj hy hholds
      · intro hreleased
        apply h.release_of_not_holds hx _ hg
        simp [Issued.holds, hreleased]
    · constructor
      · intro hexact y hy
        rw [hx, Option.mem_some_iff] at hy
        subst hy
        by_contra hnot
        rw [not_or, not_not] at hnot
        exact h.not_exact_of_reissued hx hnot.1 hnot.2 hexact
      · intro hg
        exact (h.release hx hg).queues_eq

instance (s : Runtime) (op : Op) : Decidable (NoReissuedRelease s op) :=
  match op with
  | .release _ => inferInstanceAs (Decidable (∀ _ ∈ _, _ ∨ _))
  | .setPolicy _ => inferInstanceAs (Decidable True)
  | .acquire _ => inferInstanceAs (Decidable True)
  | .shutdown => inferInstanceAs (Decidable True)

/-- One record in the log queue at a time. -/
def oneLog : QueuePolicy := { logsMaxsize := 1 }

/-- A ticket is released twice, a refused one in between, and late after a reset. -/
def lateRun : List Op :=
  [.setPolicy oneLog, .acquire .logs, .acquire .logs, .release 0, .release 0, .acquire .logs,
    .shutdown, .release 1]

/-- The run stays within the condition, and its last state is exact. -/
theorem release_frees_own_slot_lateRun :
    ∃ s, machine.run lateRun = some s ∧ s.issued.length = 2 ∧
      ∀ signal, s.queues.queues signal = s.heldTokens signal := by
  have hguard : machine.Guarded NoReissuedRelease machine.init lateRun := by decide
  obtain ⟨s, hrun, hlength⟩ := Machine.exists_of_run_any (M := machine)
    (P := fun s => s.issued.length = 2) lateRun (by decide)
  exact ⟨s, hrun, hlength, (release_frees_own_slot (Machine.reachable_of_run hguard hrun)).1⟩

/-- A record is in flight across a reset, and the counter starts again. -/
def reissuedRun : List Op :=
  [.setPolicy oneLog, .acquire .logs, .shutdown, .setPolicy oneLog, .acquire .logs, .release 0]

/-- The late release takes the slot of the ticket handed out after the reset. -/
theorem late_release_frees_other_slot :
    ∃ s, machine.run reissuedRun = some s ∧ s.queues.queues .logs = [] ∧
      s.heldTokens .logs = [1] ∧
      s.issued[1]? = some { ticket := ⟨.logs, 1⟩, epoch := 1, released := false } :=
  Machine.exists_of_run_any reissuedRun (by decide)

end Telemetry.Backpressure.Python
