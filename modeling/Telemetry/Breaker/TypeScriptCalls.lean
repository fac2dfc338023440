import Telemetry.Breaker.TypeScript

/-!
# Calls on the TypeScript breaker

A call makes at most as many attempts as the cap says, whatever its policy asks for and whoever is
scheduled between them. Made alone, it does to the circuit what a call in Python does, with every
time in milliseconds.

## Main definitions

* `Status.Settled` — how many attempts of a call have settled, seen from its status.
* `tsEvent`, `ofPython` — a call as an event, and the states of the Python breaker.
* `RunsAlone` — what a call does that nothing is scheduled beside.

## Main results

* `attempts_le` — **no call makes more than 101 attempts**.
* `agree_iff_computes` — **one after the other, calls do what they do in Python**.
* `call_alone` — a call made alone is its event.
-/

namespace Telemetry.Breaker.TypeScript

open Telemetry.Lib

variable {ι : Type} [DecidableEq ι]

/-! ## The cap on attempts -/

/-- An attempt of the call settles. -/
def Label.settles (i : ι) : Label ι → Bool
  | .settle j _ _ => j = i
  | _ => false

/-- The attempts of a call that have settled, seen from its status. -/
def Status.Settled (n : ℕ) : Status → Prop
  | .idle => n = 0
  | .pending f => n = f.attempt + (if f.asleep then 1 else 0) ∧ f.attempt < iterations f.policy
  | .done _ => n ≤ 101

theorem settled_proceed (f : InFlight) {n : ℕ} (hn : n ≤ iterations f.policy) (now : ℚ) :
    (f.proceed n now).Settled n := by
  rw [InFlight.proceed]
  split_ifs with hlt
  · exact ⟨rfl, hlt⟩
  · exact hn.trans (iterations_le f.policy)
  · exact hn.trans (iterations_le f.policy)

theorem settled_settle {s : System ι} {i : ι} {f : InFlight}
    (hlt : f.attempt < iterations f.policy) (e : Ending) :
    ((s.settle i f e).calls i).Settled (f.attempt + 1) ∧
      ∀ j, j ≠ i → (s.settle i f e).calls j = s.calls j := by
  have hput : ∀ {circuit health st}, st.Settled (f.attempt + 1) →
      ((s.put i circuit health st).calls i).Settled (f.attempt + 1) ∧
        ∀ j, j ≠ i → (s.put i circuit health st).calls j = s.calls j := by
    intro circuit health st hst
    refine ⟨?_, fun j hj => Function.update_of_ne hj _ _⟩
    simpa only [System.put, Function.update_self] using hst
  have hnext : ∀ last, (({ f with lastError := last } : InFlight).proceed (f.attempt + 1)
      s.now).Settled (f.attempt + 1) :=
    fun last => settled_proceed { f with lastError := last } hlt _
  simp only [System.settle]
  split_ifs
  · exact hput (hlt.trans_le (iterations_le f.policy))
  · exact hput ⟨rfl, hlt⟩
  · exact hput (hnext _)
  · exact hput (hnext _)

theorem settled_call (s : System ι) (i : ι) :
    ((s.call i).calls i).Settled 0 ∧ ∀ j, j ≠ i → (s.call i).calls j = s.calls j := by
  have hput : ∀ {circuit health st}, st.Settled 0 →
      ((s.put i circuit health st).calls i).Settled 0 ∧
        ∀ j, j ≠ i → (s.put i circuit health st).calls j = s.calls j := by
    intro circuit health st hst
    refine ⟨?_, fun j hj => Function.update_of_ne hj _ _⟩
    simpa only [System.put, Function.update_self] using hst
  obtain ⟨st, health, hst, hcall⟩ | ⟨hcall, -⟩ | ⟨hcall, -⟩ := call_cases s i
  · rw [hcall]
    refine hput ?_
    cases st with
    | idle => rfl
    | pending f => exact absurd rfl (hst f)
    | done r => exact Nat.zero_le _
  · rw [hcall]
    exact hput ⟨rfl, one_le_iterations _⟩
  · rw [hcall]
    exact hput ⟨rfl, one_le_iterations _⟩

theorem settled_step {s s' : System ι} {l : Label ι} (h : (machine ι).step s l = some s') {i : ι}
    {n : ℕ} (hn : (s.calls i).Settled n) :
    (s'.calls i).Settled (n + if l.settles i then 1 else 0) := by
  obtain ⟨p, rfl, rfl⟩ | ⟨j, t, rfl, hidle, -, rfl⟩ | ⟨j, f, e, t, rfl, hf, hawake, -, rfl⟩ |
    ⟨j, f, t, rfl, hf, hasleep, -, rfl⟩ := step_cases h
  · exact hn
  · obtain ⟨hown, hothers⟩ := settled_call { s with now := t } j
    by_cases hij : i = j
    · subst hij
      rw [hidle] at hn
      subst hn
      exact hown
    · rw [hothers i hij]
      exact hn
  · by_cases hij : i = j
    · subst hij
      rw [hf] at hn
      obtain ⟨rfl, hlt⟩ := hn
      simp only [hawake, Label.settles, decide_true, if_true, Bool.false_eq_true, if_false]
      exact (settled_settle hlt e).1
    · simp only [Label.settles, Ne.symm hij, decide_false, Bool.false_eq_true, if_false]
      obtain ⟨st, health, hsettle, -⟩ := settle_cases { s with now := t } j f e
      rw [hsettle]
      simp only [System.put, Function.update_of_ne hij]
      exact hn
  · by_cases hij : i = j
    · subst hij
      rw [hf] at hn
      obtain ⟨rfl, hlt⟩ := hn
      simp only [System.put, Function.update_self, hasleep, if_true]
      exact settled_proceed f hlt t
    · simp only [System.put, Function.update_of_ne hij]
      exact hn

/-- **No call makes more than 101 attempts**, in any interleaving and whatever its policy says. -/
theorem attempts_le {s : System ι} {ls : List (Label ι)} (h : (machine ι).run ls = some s) (i : ι) :
    ls.countP (Label.settles i) ≤ 101 := by
  have hsettled : (s.calls i).Settled (ls.countP (Label.settles i)) := by
    induction ls using List.reverseRecOn generalizing s with
    | nil =>
        obtain rfl : (machine ι).init = s := Option.some.inj h
        rfl
    | append_singleton ls l ih =>
        obtain ⟨t, ht, hlast⟩ := Machine.run_concat.mp h
        rw [List.countP_append, List.countP_singleton]
        exact settled_step hlast (ih ht)
  cases hcalls : s.calls i with
  | idle =>
      rw [hcalls] at hsettled
      exact hsettled.le.trans (Nat.zero_le _)
  | pending f =>
      rw [hcalls] at hsettled
      have hle := iterations_le f.policy
      obtain ⟨hn, hlt⟩ := hsettled
      split_ifs at hn <;> omega
  | done r =>
      rw [hcalls] at hsettled
      exact hsettled

theorem attempts_le_probedRun :
    probedRun.countP (Label.settles 3) ≤ 101 := by
  have hrun : ((machine (Fin 6)).run probedRun).isSome = true := by decide +kernel
  obtain ⟨s, hs⟩ := Option.isSome_iff_exists.mp hrun
  exact attempts_le hs 3

/-! ## Against Python -/

/-- The states of the Python breaker, in milliseconds. -/
def ofPython (c : Python.Circuit) : CircuitState where
  consecutiveTimeouts := c.consecutiveTimeouts
  circuitTrippedAt := 1000 * c.circuitTrippedAt
  openCount := c.openCount
  halfOpenProbing := c.halfOpenProbing

/-- Record the outcomes; a success ends the call. -/
def tsRecord (c : CircuitState) : List (Outcome × ℚ) → CircuitState
  | [] => c
  | (.success, t) :: _ => record (1000 * t) c .success
  | (.timeout, t) :: os => tsRecord (record (1000 * t) c .timeout) os
  | (.failure, t) :: os => tsRecord (record (1000 * t) c .failure) os

/-- A call with a timeout: whether it was admitted. -/
def tsEvent (c : CircuitState) (e : Event) : Option (Bool × CircuitState) :=
  match checkBreaker {} (1000 * e.time) c with
  | (.probeInProgress, c) | (.tooManyTimeouts, c) => some (false, c)
  | (_, c) => some (true, tsRecord c e.outcomes)

theorem record_success_ofPython (t : ℚ) (c : Python.Circuit) :
    record t (ofPython c) .success = ofPython (Python.recordAttemptSuccess c) := by
  cases hset : c.halfOpenProbing <;> simp [record, ofPython, Python.recordAttemptSuccess, hset]

theorem record_timeout_ofPython (t : ℚ) (c : Python.Circuit) :
    record (1000 * t) (ofPython c) .timeout = ofPython (Python.recordAttemptFailure t true c) := by
  cases hset : c.halfOpenProbing with
  | true => simp [record, ofPython, Python.recordAttemptFailure, hset]
  | false =>
      simp only [record, ofPython, Python.recordAttemptFailure, hset, Bool.false_eq_true, if_false,
        if_true, circuitBreakerThreshold, Python.circuitBreakerThreshold]
      split_ifs <;> rfl

theorem record_failure_ofPython (t : ℚ) (c : Python.Circuit) :
    record (1000 * t) (ofPython c) .failure = ofPython (Python.recordAttemptFailure t false c) := by
  cases hset : c.halfOpenProbing <;> simp [record, ofPython, Python.recordAttemptFailure, hset]

theorem tsRecord_ofPython (c : Python.Circuit) (os : List (Outcome × ℚ)) :
    tsRecord (ofPython c) os = ofPython (pyRecord c os) := by
  induction os generalizing c with
  | nil => rfl
  | cons o os ih =>
      obtain ⟨o, t⟩ := o
      cases o with
      | success => exact record_success_ofPython _ c
      | timeout => rw [tsRecord, record_timeout_ofPython, ih, pyRecord]
      | failure => rw [tsRecord, record_failure_ofPython, ih, pyRecord]

/-- Python can compute its cooldown, if it asks for it. -/
def Computes (c : Python.Circuit) (_ : Event) : Prop :=
  c.consecutiveTimeouts < 3 ∨ c.halfOpenProbing = true ∨ c.openCount < 1024

instance (c : Python.Circuit) (e : Event) : Decidable (Computes c e) :=
  inferInstanceAs (Decidable (_ ∨ _ ∨ _))

theorem cooldownMs_eq (n : ℕ) : cooldownMs n = 1000 * min (30 * 2 ^ n) 1024 := by
  rw [cooldownMs, circuitBaseCooldownMs, circuitMaxCooldownMs,
    mul_min_of_nonneg _ _ (by norm_num : (0 : ℚ) ≤ 1000)]
  congr 1
  · ring
  · norm_num

/-- One call, on both breakers. -/
theorem tsEvent_ofPython {c : Python.Circuit} {e : Event} (h : Computes c e) :
    tsEvent (ofPython c) e = (pyEvent c e).map fun r => (r.1, ofPython r.2) := by
  have htimed : (0 : ℚ) < ({} : ExporterPolicy).timeoutMs := by norm_num
  by_cases hclosed : c.consecutiveTimeouts < 3
  · have hcheck : checkBreaker {} (1000 * e.time) (ofPython c) = (.closed, ofPython c) :=
      if_neg fun hopen => absurd hopen.2 (not_le.mpr hclosed)
    rw [pyEvent_closed e hclosed, tsEvent, hcheck]
    exact congrArg (fun d => some (true, d)) (tsRecord_ofPython c e.outcomes)
  have hopen : 0 < ({} : ExporterPolicy).timeoutMs ∧
      circuitBreakerThreshold ≤ (ofPython c).consecutiveTimeouts := ⟨htimed, not_lt.mp hclosed⟩
  cases hset : c.halfOpenProbing with
  | true =>
      have hcheck : checkBreaker {} (1000 * e.time) (ofPython c) =
          (.probeInProgress, ofPython c) := by
        rw [checkBreaker, if_pos hopen]
        exact if_pos hset
      rw [pyEvent_probing e hclosed hset, tsEvent, hcheck]
      rfl
  | false =>
      have hcount : c.openCount < 1024 := by simpa [Computes, hclosed, hset] using h
      have htime : (1000 * e.time - (ofPython c).circuitTrippedAt <
          cooldownMs (ofPython c).openCount) ↔
          e.time - c.circuitTrippedAt < min (30 * 2 ^ c.openCount) 1024 := by
        have hfactor : 1000 * e.time - (ofPython c).circuitTrippedAt =
            1000 * (e.time - c.circuitTrippedAt) := by
          rw [mul_sub]
          rfl
        rw [cooldownMs_eq, hfactor]
        exact mul_lt_mul_iff_right₀ (by norm_num)
      have hcheck : checkBreaker {} (1000 * e.time) (ofPython c) =
          if e.time - c.circuitTrippedAt < min (30 * 2 ^ c.openCount) 1024 then
            (.tooManyTimeouts, ofPython c)
          else (.probe, ofPython { c with halfOpenProbing := true }) := by
        have hclear : ¬ (ofPython c).halfOpenProbing = true := by simp [ofPython, hset]
        rw [checkBreaker, if_pos hopen, if_neg hclear]
        simp only [htime]
        rfl
      rw [pyEvent_open e hclosed hset, if_pos hcount, tsEvent, hcheck]
      split_ifs
      · rfl
      · exact congrArg (fun d => some (true, d)) (tsRecord_ofPython _ e.outcomes)

/-- **One after the other, calls do what they do in Python**: on any sequence of calls both breakers
admit the same ones and go through the same states, as long as Python can compute its cooldowns. -/
theorem agree_iff_computes (events : List Event) :
    Lockstep.Agree pyEvent tsEvent (fun c d => d = ofPython c) {} {} events ↔
      Lockstep.AllMeet pyEvent Computes {} events := by
  refine Lockstep.agree_iff (R := fun c d => d = ofPython c) ?_ (fun _ _ h => h) ?_ events ?_
  · rintro c d e rfl hmeets
    have hanswer : ∃ r, pyEvent c e = some r := by
      by_cases hclosed : c.consecutiveTimeouts < 3
      · exact ⟨_, pyEvent_closed e hclosed⟩
      cases hset : c.halfOpenProbing with
      | true => exact ⟨_, pyEvent_probing e hclosed hset⟩
      | false =>
          have hcount : c.openCount < 1024 := by simpa [Computes, hclosed, hset] using hmeets
          rw [pyEvent_open e hclosed hset, if_pos hcount]
          split_ifs <;> exact ⟨_, rfl⟩
    obtain ⟨⟨o, c'⟩, hpy⟩ := hanswer
    exact ⟨o, c', ofPython c', hpy, by rw [tsEvent_ofPython hmeets, hpy]; rfl, rfl⟩
  · rintro c d e rfl hnot ⟨o, c', d', hpy, -⟩
    simp only [Computes, not_or, Bool.not_eq_true] at hnot
    obtain ⟨hclosed, hset, hcount⟩ := hnot
    rw [pyEvent_open e hclosed hset, if_neg hcount] at hpy
    cases hpy
  · simp [ofPython]

/-! ## A call made alone -/

/-- Labels of one call take the machine to a state with this circuit, in which the call is done and
every other one is where it was. -/
def RunsAlone (s : System ι) (i : ι) (circuit : CircuitState) : Prop :=
  ∃ ls s' r, (machine ι).runFrom s ls = some s' ∧ s'.circuit = circuit ∧
    s'.calls = Function.update s.calls i (.done r)

theorem RunsAlone.of_done {s : System ι} {i : ι} {r : Result} (h : s.calls i = .done r) :
    RunsAlone s i s.circuit :=
  ⟨[], s, r, rfl, rfl, by rw [← h, Function.update_eq_self]⟩

theorem RunsAlone.cons {s t : System ι} {i : ι} {l : Label ι} {circuit : CircuitState}
    (hstep : (machine ι).step s l = some t)
    (hcalls : ∃ st, t.calls = Function.update s.calls i st) (h : RunsAlone t i circuit) :
    RunsAlone s i circuit := by
  obtain ⟨ls, s', r, hrun, hcircuit, hend⟩ := h
  obtain ⟨st, hst⟩ := hcalls
  refine ⟨l :: ls, s', r, ?_, hcircuit, by rw [hend, hst, Function.update_idem]⟩
  rw [Machine.runFrom_cons, hstep]
  exact hrun

/-- The outcomes of attempts that settle one after the other, from a reading of the clock on. -/
def Clocked (now : ℚ) (os : List (Ending × ℚ)) : Prop :=
  (now :: os.map fun o => 1000 * o.2).Pairwise (· ≤ ·)

/-- What the attempts count as. -/
def outcomes (os : List (Ending × ℚ)) : List (Outcome × ℚ) := os.map fun o => (o.1.outcome, o.2)

theorem tsRecord_cons {c : CircuitState} {o : Outcome} (h : o ≠ .success) (t : ℚ)
    (os : List (Outcome × ℚ)) :
    tsRecord c ((o, t) :: os) = tsRecord (record (1000 * t) c o) os := by
  cases o with
  | success => exact absurd rfl h
  | timeout => rfl
  | failure => rfl

/-- What a failed attempt does to its call: it sleeps, or goes on to the next attempt. -/
theorem settle_fails (s : System ι) (i : ι) (f : InFlight) {e : Ending}
    (h : e.outcome ≠ .success) : ∃ health last,
      s.settle i f e = s.put i (record s.now s.circuit e.outcome) health
        (.pending { f with lastError := last, asleep := true }) ∨
      s.settle i f e = s.put i (record s.now s.circuit e.outcome) health
        (({ f with lastError := last } : InFlight).proceed (f.attempt + 1) s.now) := by
  simp only [System.settle, if_neg h]
  split_ifs
  · exact ⟨_, _, .inl rfl⟩
  · exact ⟨_, _, .inr rfl⟩
  · exact ⟨_, _, .inr rfl⟩

theorem step_settle {s : System ι} {i : ι} {f : InFlight} (hf : s.calls i = .pending f)
    (hawake : f.asleep = false) (htimed : 0 < f.policy.timeoutMs) (e : Ending) {t : ℚ}
    (hnow : s.now ≤ t) : (machine ι).step s (.settle i e t) =
      some (({ s with now := t } : System ι).settle i f e) := by
  simp only [machine, hf]
  exact if_pos ⟨hawake, hnow, fun _ => htimed⟩

theorem step_wake {s : System ι} {i : ι} {f : InFlight} (hf : s.calls i = .pending f)
    (hasleep : f.asleep = true) : (machine ι).step s (.wake i s.now) =
      some (s.put i s.circuit s.health (f.proceed (f.attempt + 1) s.now)) := by
  simp only [machine, hf]
  exact if_pos ⟨hasleep, le_rfl⟩

/-- A failed attempt takes the call on to the next one, over a backoff if there is one. -/
theorem runsAlone_proceed {s : System ι} {i : ι} {f : InFlight} {e : Ending} {t : ℚ}
    (hf : s.calls i = .pending f) (hawake : f.asleep = false) (htimed : 0 < f.policy.timeoutMs)
    (hnow : s.now ≤ t) (hfails : e.outcome ≠ .success) {circuit : CircuitState}
    (h : ∀ (u : System ι) (g : InFlight), u.circuit = record t s.circuit e.outcome → u.now = t →
      g.policy = f.policy → u.calls i = g.proceed (f.attempt + 1) t → RunsAlone u i circuit) :
    RunsAlone s i circuit := by
  have hstep := step_settle hf hawake htimed e hnow
  obtain ⟨health, last, hsettle | hsettle⟩ := settle_fails { s with now := t } i f hfails
  · -- the backoff is over at once
    let g : InFlight := { f with lastError := last, asleep := true }
    let u : System ι :=
      ({ s with now := t } : System ι).put i (record t s.circuit e.outcome) health (.pending g)
    have hu : u.calls i = .pending g := Function.update_self ..
    rw [hsettle] at hstep
    refine RunsAlone.cons (t := u) hstep ⟨_, rfl⟩ (.cons (step_wake hu rfl) ⟨_, rfl⟩ ?_)
    exact h _ g rfl rfl rfl (Function.update_self ..)
  · rw [hsettle] at hstep
    exact .cons hstep ⟨_, rfl⟩
      (h _ { f with lastError := last } rfl rfl rfl (Function.update_self ..))

/-- From an attempt on, a call made alone records its outcomes. -/
theorem runsAlone_attempts {os : List (Ending × ℚ)} (hne : os ≠ []) :
    ∀ {s : System ι} {i : ι} {f : InFlight}, s.calls i = .pending f → f.asleep = false →
      0 < f.policy.timeoutMs → f.attempt + os.length = iterations f.policy → Clocked s.now os →
      RunsAlone s i (tsRecord s.circuit (outcomes os)) := by
  induction os with
  | nil => exact absurd rfl hne
  | cons o os ih =>
      intro s i f hf hawake htimed hlength hclock
      obtain ⟨e, t⟩ := o
      rw [Clocked, List.map_cons, List.pairwise_cons] at hclock
      have hnow : s.now ≤ 1000 * t := hclock.1 _ (List.mem_cons_self ..)
      by_cases hsuccess : e.outcome = .success
      · have hstep := step_settle hf hawake htimed e hnow
        have hrecord : tsRecord s.circuit (outcomes ((e, t) :: os)) =
            record (1000 * t) s.circuit e.outcome := by
          rw [outcomes, List.map_cons, hsuccess]
          rfl
        rw [hrecord]
        simp only [System.settle, if_pos hsuccess] at hstep
        exact .cons hstep ⟨_, rfl⟩ (.of_done (Function.update_self ..))
      · rw [outcomes, List.map_cons, tsRecord_cons hsuccess]
        refine runsAlone_proceed hf hawake htimed hnow hsuccess ?_
        intro u g hcircuit htime hpolicy hcalls
        rw [← hcircuit]
        cases os with
        | nil =>
            have hend : ¬ f.attempt + 1 < iterations g.policy := by
              rw [hpolicy, ← hlength]
              exact lt_irrefl _
            rw [InFlight.proceed, if_neg hend] at hcalls
            exact .of_done hcalls
        | cons o' os =>
            have hmore : f.attempt + 1 < iterations g.policy := by
              rw [hpolicy, ← hlength, List.length_cons, List.length_cons]
              omega
            rw [InFlight.proceed, if_pos hmore] at hcalls
            refine ih (List.cons_ne_nil _ _) hcalls rfl (hpolicy ▸ htimed) ?_ ?_
            · simp only [hpolicy, ← hlength, List.length_cons]
              omega
            · rw [Clocked, htime]
              exact hclock.2

/-- **A call made alone is its event**: whatever became of the calls before it, the circuit that it
leaves is the one that the event does. -/
theorem call_alone {s : System ι} {i : ι} {e : Event} {os : List (Ending × ℚ)}
    (hidle : s.calls i = .idle) (htimed : 0 < s.policyInForce.timeoutMs)
    (hevent : e.outcomes = outcomes os) (hlength : os.length = iterations s.policyInForce)
    (hnow : s.now ≤ 1000 * e.time) (hclock : Clocked (1000 * e.time) os) :
    ∃ admitted circuit, tsEvent s.circuit e = some (admitted, circuit) ∧
      RunsAlone s i circuit := by
  have hstep : (machine ι).step s (.call i (1000 * e.time)) =
      some (({ s with now := 1000 * e.time } : System ι).call i) := if_pos ⟨hidle, hnow⟩
  have hne : os ≠ [] := by
    rintro rfl
    have hone := one_le_iterations s.policyInForce
    rw [← hlength] at hone
    exact absurd hone (by simp)
  have hgate : checkBreaker {} (1000 * e.time) s.circuit =
      checkBreaker s.policyInForce (1000 * e.time) s.circuit := by
    have hdefault : (0 : ℚ) < ({} : ExporterPolicy).timeoutMs := by norm_num
    simp only [checkBreaker, hdefault, htimed]
  have hadmitted : ∀ {t : System ι} {f : InFlight},
      (machine ι).step s (.call i (1000 * e.time)) = some t →
      (∃ st, t.calls = Function.update s.calls i st) → t.calls i = .pending f →
      f.policy = s.policyInForce → f.attempt = 0 → f.asleep = false → t.now = 1000 * e.time →
      RunsAlone s i (tsRecord t.circuit e.outcomes) := by
    intro t f h hcalls hf hpolicy hzero hawake htime
    refine .cons h hcalls ?_
    rw [hevent]
    refine runsAlone_attempts hne hf hawake (hpolicy ▸ htimed) ?_ (htime ▸ hclock)
    rw [hzero, Nat.zero_add, hlength, hpolicy]
  rw [tsEvent, hgate]
  obtain ⟨hcheck, -⟩ | ⟨hcheck, -⟩ | ⟨hcheck, -⟩ | ⟨hcheck, -⟩ :=
    check_cases s.policyInForce (1000 * e.time) s.circuit
  all_goals
    rw [hcheck]
    refine ⟨_, _, rfl, ?_⟩
    simp only [System.call, System.policyInForce] at hstep hcheck
    simp only [hcheck, proceed_zero] at hstep
  · have hrun := hadmitted hstep ⟨_, rfl⟩ (Function.update_self ..) rfl rfl rfl rfl
    exact hrun
  · exact .cons hstep ⟨_, rfl⟩ (.of_done (Function.update_self ..))
  · exact .cons hstep ⟨_, rfl⟩ (.of_done (Function.update_self ..))
  · have hrun := hadmitted hstep ⟨_, rfl⟩ (Function.update_self ..) rfl rfl rfl rfl
    exact hrun

end Telemetry.Breaker.TypeScript
