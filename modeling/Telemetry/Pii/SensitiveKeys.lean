import Telemetry.Pii.DefaultPass

/-!
# When a sensitive entry comes out redacted

The default pass redacts a sensitive entry only if the rules left its value equal to the
original. A rule for some other field, nested below the entry, makes the two differ, and the
rest of the entry's content then comes out as it was. The theorem of this module says
exactly when an entry is safe.

## Main definitions

* `stable` — the rules leave a value equal to itself.
* `undisturbed` — the default pass redacts a sensitive entry that holds the value.
* `enclosingHit` — a rule masks an entry that the position lies in.
* `outermost` — the way to a position, up to its first sensitive entry.
* `sensitive_entry_redacted_iff` — **when a sensitive entry is safe**.
-/

namespace Telemetry.Pii.Python

open Telemetry.Lib

variable (E : Env) (rules : List PIIRule)

/-! ## Values the rules leave equal -/

/-- The value is a string, and the masks of the rules that hit it give it back. -/
def restored (depth : ℕ) (target : List String) : Value → Bool
  | .scalar (.str s) => (maskAll E rules depth target (str s)).any (elemEq · (str s))
  | _ => false

mutual
/-- The rules change nothing in the value that `==` can see: every entry in it that a rule
masks holds a string, which the masks give back. -/
def stable (path : List String) (depth : ℕ) : Value → Bool
  | .scalar _ => true
  | .list _ items => stableItems (path ++ [wild]) (depth + 1) items
  | .dict _ entries => stableEntries path depth entries
/-- On the items of a list. -/
def stableItems (path : List String) (depth : ℕ) : List Value → Bool
  | [] => true
  | item :: items => stable path depth item && stableItems path depth items
/-- On the entries of a dict. -/
def stableEntries (path : List String) (depth : ℕ) : Entries → Bool
  | [] => true
  | (key, value) :: entries =>
      (if anyHit rules depth (path ++ [key]) then restored E rules depth (path ++ [key]) value
        else stable (path ++ [key]) (depth + 1) value) && stableEntries path depth entries
end

/-- Whether the value is the float NaN, which differs from itself. -/
def isNaN : Value → Bool
  | .scalar (.float .nan) => true
  | _ => false

/-- The default pass redacts a sensitive entry at this path that holds this value: no rule's
path matches the entry, and the value compares equal after the rules. -/
def undisturbed (path : List String) (depth : ℕ) (v : Value) : Bool :=
  !targeted rules path && !isNaN v && stable E rules path depth v

/-- A string differs from every scalar that is not the same string. -/
theorem elemEq_str_scalar (s : String) (a : Scalar) :
    elemEq (str s) (.scalar a) = decide (a = .str s) := by
  cases a with
  | str t =>
      by_cases h : t = s
      · simp [elemEq, h]
      · simp [elemEq, Scalar.eq, Scalar.num?, h, Ne.symm h]
  | none => simp [elemEq, Scalar.eq, Scalar.num?]
  | bool b => simp [elemEq, Scalar.eq, Scalar.num?]
  | int n => simp [elemEq, Scalar.eq, Scalar.num?]
  | float x => cases x <;> simp [elemEq, Scalar.eq, Scalar.num?]

/-- Only the same string compares equal to a string. -/
theorem elemEq_str_eq_true {s : String} {v : Value} : elemEq (str s) v = true ↔ v = str s := by
  cases v with
  | scalar a => rw [elemEq_str_scalar, decide_eq_true_iff, Tree.scalar.injEq]
  | list r items => simp [elemEq]
  | dict r entries => simp [elemEq]

/-- Only NaN differs from itself. -/
theorem Scalar.eq_self (a : Scalar) : a.eq a = !isNaN (.scalar a) := by
  cases a with
  | float x => cases x <;> simp [Scalar.eq, Scalar.num?, isNaN]
  | none => simp [Scalar.eq, Scalar.num?, isNaN]
  | bool b => simp [Scalar.eq, Scalar.num?, isNaN]
  | int n => simp [Scalar.eq, Scalar.num?, isNaN]
  | str s => simp [Scalar.eq, Scalar.num?, isNaN]

theorem itemsEq_map (f : Value → Value) (items : List Value) :
    itemsEq (items.map f) items = items.all fun item => elemEq (f item) item := by
  induction items with
  | nil => rfl
  | cons item items ih => rw [List.map_cons, itemsEq, ih, List.all_cons]

theorem entriesEq_eq_all (xs ys : Entries) :
    entriesEq xs ys = xs.all fun e => (ys.lookup e.1).any (elemEq e.2) := by
  induction xs with
  | nil => rfl
  | cons e xs ih => rw [entriesEq, ih, List.all_cons]

theorem stableItems_eq_all (path : List String) (depth : ℕ) (items : List Value) :
    stableItems E rules path depth items = items.all (stable E rules path depth) := by
  induction items with
  | nil => rfl
  | cons item items ih => rw [stableItems, ih, List.all_cons]

/-- Rewriting the values of a dict's entries leaves it equal exactly when no entry is dropped
and each new value is equal to the old. -/
theorem dictEq_rewriteEntries (f : String → Value → Option Value) {entries : Entries}
    (hkeys : (entries.map Prod.fst).Nodup) :
    elemEq (.dict () (Tree.rewriteEntries f entries)) (.dict () entries) =
      entries.all fun e => (f e.1 e.2).any (elemEq · e.2) := by
  have hlookup : ∀ e ∈ entries, entries.lookup e.1 = some e.2 := by
    intro e he
    exact Tree.lookup_of_mem hkeys he
  have hlength : (Tree.rewriteEntries f entries).length = entries.length ↔
      ∀ e ∈ entries, (f e.1 e.2).isSome := by
    rw [Tree.rewriteEntries, List.length_filterMap_eq_countP, List.countP_eq_length]
    simp
  rw [elemEq, entriesEq_eq_all, Bool.eq_iff_iff, Bool.and_eq_true, beq_iff_eq, hlength,
    Tree.rewriteEntries, List.all_filterMap, List.all_eq_true, List.all_eq_true, ← forall₂_and]
  apply forall₂_congr
  intro e he
  cases hf : f e.1 e.2 with
  | none => simp
  | some v => simp [hlookup e he]

variable {E rules} in
/-- A masked entry compares equal only if it holds a string that the masks give back. -/
theorem any_elemEq_of_anyHit {path : List String} {depth : ℕ} {key : String}
    (h : anyHit rules depth (path ++ [key]) = true) (v : Value) :
    (rulesEntry E rules path depth key v).any (elemEq · v) =
      restored E rules depth (path ++ [key]) v := by
  rw [restored.eq_def]
  split
  · rw [rulesEntry_str]
  · rename_i hstr
    obtain hnone | ⟨s, hs⟩ := rulesEntry_of_anyHit E h v
    · rw [hnone]
      rfl
    · rw [hs, Option.any_some]
      cases v with
      | scalar a => simpa [elemEq_str_scalar] using fun ha : a = .str s => hstr s (ha ▸ rfl)
      | list r items => rfl
      | dict r entries => rfl

/-- **`stable` is what its name says**: the value after the rules compares equal, as an
element of a list or a dict. -/
theorem elemEq_rulesVal (v : Value) (path : List String) (depth : ℕ) (hkeys : v.NodupKeys) :
    elemEq (rulesVal E rules path depth v) v = stable E rules path depth v := by
  induction v using Tree.induct generalizing path depth with
  | scalar a => simp [elemEq, stable]
  | list r items ih =>
      rw [rulesVal_list, elemEq, itemsEq_map, stable, stableItems_eq_all, Bool.eq_iff_iff,
        List.all_eq_true, List.all_eq_true]
      apply forall₂_congr
      intro item hitem
      rw [ih item hitem _ _ (hkeys.items item hitem)]
  | dict r entries ih =>
      rw [rulesVal_dict, dictEq_rewriteEntries _ hkeys.keys, stable]
      have hentries := hkeys.entries
      clear hkeys
      induction entries with
      | nil => rfl
      | cons e entries ihtail =>
          obtain ⟨key, value⟩ := e
          have htail := ihtail (fun e he => ih e (List.mem_cons_of_mem _ he))
            (fun e he => hentries e (List.mem_cons_of_mem _ he))
          rw [List.all_cons, stableEntries, htail]
          congr 1
          cases hhit : anyHit rules depth (path ++ [key]) with
          | true => rw [any_elemEq_of_anyHit hhit, if_pos rfl]
          | false =>
              rw [rulesEntry_of_not_anyHit E hhit, Option.any_some, if_neg Bool.false_ne_true]
              exact ih (key, value) List.mem_cons_self _ _ (hentries _ List.mem_cons_self)

/-- The comparison the default pass makes. -/
theorem valueEq_rulesVal (v : Value) (path : List String) (depth : ℕ) (hkeys : v.NodupKeys) :
    valueEq (rulesVal E rules path depth v) v = (!isNaN v && stable E rules path depth v) := by
  cases v with
  | scalar a => simp [valueEq, Scalar.eq_self, stable]
  | list r items =>
      rw [← elemEq_rulesVal E rules _ path depth hkeys, rulesVal_list]
      rfl
  | dict r entries =>
      rw [← elemEq_rulesVal E rules _ path depth hkeys, rulesVal_dict]
      rfl

/-- The default pass redacts a sensitive entry if no rule's path matches it and the value the
rules left equals the original. -/
theorem undisturbed_eq (v : Value) (path : List String) (depth : ℕ) (hkeys : v.NodupKeys) :
    undisturbed E rules path depth v =
      !(targeted rules path || !valueEq (rulesVal E rules path depth v) v) := by
  rw [valueEq_rulesVal E rules v path depth hkeys, undisturbed, Bool.not_or, Bool.not_not,
    Bool.and_assoc]

/-! ## Positions -/

/-- A rule masks an entry on the way. -/
def enclosingHit (path : List String) (depth : ℕ) : List (Step String) → Bool
  | [] => false
  | .key k :: q =>
      anyHit rules depth (path ++ [k]) || enclosingHit (path ++ [k]) (depth + 1) q
  | .index _ :: q => enclosingHit (path ++ [wild]) (depth + 1) q

/-- The way to a position, up to its first sensitive entry. -/
def outermost : List (Step String) → List (Step String)
  | [] => []
  | .key k :: p => if sensitive E k then [.key k] else .key k :: outermost p
  | .index i :: p => .index i :: outermost p

/-- The first sensitive entry on the way to a position is one that the default pass
redacts. -/
def hidden (path : List String) (depth : ℕ) (v : Value) (p : List (Step String)) : Bool :=
  (v.get? (outermost E p)).any fun c =>
    undisturbed E rules (path ++ segments wild (outermost E p))
      (depth + (outermost E p).length) c

variable {E rules} {path : List String} {depth : ℕ} {v c : Value} {k : String} {i : ℕ}
  {p : List (Step String)}

theorem hidden_key_of_sensitive (hs : sensitive E k = true) (hc : v.child? (.key k) = some c) :
    hidden E rules path depth v (.key k :: p) =
      undisturbed E rules (path ++ [k]) (depth + 1) c := by
  rw [hidden, outermost, if_pos hs, Tree.get?_cons, hc]
  rfl

theorem hidden_key_of_not_sensitive (hs : sensitive E k = false)
    (hc : v.child? (.key k) = some c) :
    hidden E rules path depth v (.key k :: p) =
      hidden E rules (path ++ [k]) (depth + 1) c p := by
  rw [hidden, hidden, outermost, if_neg (by simp [hs]), Tree.get?_cons, hc, segments_key,
    List.append_assoc, List.length_cons, Nat.add_assoc, Nat.add_comm 1]
  rfl

theorem hidden_index (hc : v.child? (.index i) = some c) :
    hidden E rules path depth v (.index i :: p) =
      hidden E rules (path ++ [wild]) (depth + 1) c p := by
  rw [hidden, hidden, outermost, Tree.get?_cons, hc, segments_index, List.append_assoc,
    List.length_cons, Nat.add_assoc, Nat.add_comm 1]
  rfl

/-! ## The entry after the rules -/

/-- The rules make nothing but the sentinel into the sentinel. -/
theorem rulesVal_eq_redacted (v : Value) :
    rulesVal E rules path depth v = redacted ↔ v = redacted := by
  cases v with
  | scalar a => rw [rulesVal_scalar]
  | list r items =>
      rw [rulesVal_list]
      constructor <;> nofun
  | dict r entries =>
      rw [rulesVal_dict]
      constructor <;> nofun

variable {q : List (Step String)} {key : String} {v₀ : Value}

/-- What the rules leave at an entry that none of them matches. -/
theorem get?_rulesVal_eq_redacted (hkeys : v.NodupKeys)
    (hget : v.get? (q ++ [.key key]) = some v₀)
    (hrule : targeted rules (path ++ segments wild (q ++ [.key key])) = false) :
    (∀ w, (rulesVal E rules path depth v).get? (q ++ [.key key]) = some w → w = redacted) ↔
      enclosingHit rules path depth q = true ∨ v₀ = redacted := by
  induction q generalizing v path depth with
  | nil =>
      obtain ⟨c, hc, hv⟩ := Tree.get?_cons_eq_some.mp hget
      cases hv
      have hentry := rulesEntry_of_not_anyHit E (anyHit_of_not_targeted hrule depth) v₀
      rw [List.nil_append, Tree.get?_cons, child?_rulesVal_key E rules path depth hkeys, hc,
        Option.bind_some, hentry]
      simp [enclosingHit, rulesVal_eq_redacted]
  | cons s q ih =>
      obtain ⟨c, hc, hrest⟩ := Tree.get?_cons_eq_some.mp hget
      cases s with
      | key k =>
          have hcons : path ++ segments wild (.key k :: q ++ [.key key]) =
              path ++ [k] ++ segments wild (q ++ [.key key]) := by simp
          rw [List.cons_append, Tree.get?_cons, child?_rulesVal_key E rules path depth hkeys, hc,
            Option.bind_some, enclosingHit]
          cases hhit : anyHit rules depth (path ++ [k]) with
          | true =>
              have hgone := Tree.bind_get?_eq_none (p := q ++ [.key key])
                ((rulesEntry_of_anyHit E hhit c).imp_right fun ⟨s, hs⟩ => ⟨.str s, hs⟩) (by simp)
              rw [hgone]
              simp
          | false =>
              rw [rulesEntry_of_not_anyHit E hhit, Option.bind_some, Bool.false_or]
              exact ih (hkeys.child hc) hrest (hcons ▸ hrule)
      | index i =>
          have hcons : path ++ segments wild (.index i :: q ++ [.key key]) =
              path ++ [wild] ++ segments wild (q ++ [.key key]) := by simp
          rw [List.cons_append, Tree.get?_cons, child?_rulesVal_index, hc, Option.map_some,
            Option.bind_some, enclosingHit]
          exact ih (hkeys.child hc) hrest (hcons ▸ hrule)

/-! ## The entry after both passes -/

/-- **When a sensitive entry is safe**, for the passes on the value at a path. -/
theorem get?_cleanAt_eq_redacted {maxDepth : ℤ} (hkeys : v.NodupKeys)
    (hget : v.get? (q ++ [.key key]) = some v₀)
    (hdepth : (depth + q.length : ℤ) < maxDepth) (hs : sensitive E key = true)
    (hrule : targeted rules (path ++ segments wild (q ++ [.key key])) = false) :
    (∀ w, (cleanAt E maxDepth rules path depth v).get? (q ++ [.key key]) = some w →
        w = redacted) ↔
      enclosingHit rules path depth q = true ∨ v₀ = redacted ∨
        hidden E rules path depth v (q ++ [.key key]) = true := by
  induction q generalizing v path depth with
  | nil =>
      obtain ⟨c, hc, hv⟩ := Tree.get?_cons_eq_some.mp hget
      cases hv
      rw [List.length_nil] at hdepth
      rw [List.nil_append, Tree.get?_cons,
        child?_cleanAt_key E maxDepth rules path (by omega) hkeys, hc, Option.bind_some,
        cleanEntry_of_sensitive (anyHit_of_not_targeted hrule depth) hs,
        hidden_key_of_sensitive hs hc, undisturbed_eq E rules v₀ _ _ (hkeys.child hc)]
      split
      · rename_i hkept
        simp [enclosingHit, rulesVal_eq_redacted, hkept]
      · rename_i hkept
        simp [enclosingHit, hkept]
  | cons s q ih =>
      obtain ⟨c, hc, hrest⟩ := Tree.get?_cons_eq_some.mp hget
      have hq : q ++ [.key key] ≠ [] := by simp
      rw [List.length_cons] at hdepth
      cases s with
      | key k =>
          have hcons : path ++ segments wild (.key k :: q ++ [.key key]) =
              path ++ [k] ++ segments wild (q ++ [.key key]) := by simp
          rw [List.cons_append, Tree.get?_cons,
            child?_cleanAt_key E maxDepth rules path (by omega) hkeys, hc, Option.bind_some,
            enclosingHit]
          cases hhit : anyHit rules depth (path ++ [k]) with
          | true =>
              rw [Tree.bind_get?_eq_none (cleanEntry_of_anyHit hhit c) hq]
              simp
          | false =>
              rw [Bool.false_or]
              cases hsk : sensitive E k with
              | true =>
                  rw [cleanEntry_of_sensitive hhit hsk, Option.bind_some,
                    hidden_key_of_sensitive hsk hc, undisturbed_eq E rules c _ _ (hkeys.child hc)]
                  split
                  · rename_i hkept
                    rw [get?_rulesVal_eq_redacted (hkeys.child hc) hrest (hcons ▸ hrule), hkept]
                    simp
                  · rename_i hkept
                    have hgone : redacted.get? (q ++ [.key key]) = none :=
                      Tree.bind_get?_eq_none (o := some redacted) (.inr ⟨_, rfl⟩) hq
                    rw [hgone]
                    simp [hkept]
              | false =>
                  obtain ⟨s, d, hd⟩ := Tree.exists_child_of_get? hrest hq
                  rw [cleanEntry_of_not_sensitive hhit hsk (redactIfSecret_rulesVal hd),
                    Option.bind_some, hidden_key_of_not_sensitive hsk hc]
                  exact ih (hkeys.child hc) hrest (by push_cast; omega) (hcons ▸ hrule)
      | index i =>
          have hcons : path ++ segments wild (.index i :: q ++ [.key key]) =
              path ++ [wild] ++ segments wild (q ++ [.key key]) := by simp
          obtain ⟨s, d, hd⟩ := Tree.exists_child_of_get? hrest hq
          rw [List.cons_append, Tree.get?_cons,
            child?_cleanAt_index E maxDepth rules path (by omega), hc, Option.map_some,
            Option.bind_some, cleanItem_of_not_secret (redactIfSecret_rulesVal hd), enclosingHit,
            hidden_index hc]
          exact ih (hkeys.child hc) hrest (by push_cast; omega) (hcons ▸ hrule)

/-! ## The sanitizer -/

/-- **When a sensitive entry is safe.** Take an entry within the configured depth whose key is
sensitive and whose own path no rule matches. Its value, if the entry is still there, is the
sentinel exactly when a rule masks an entry around it, or the value was the sentinel to start
with, or the outermost sensitive entry on the way to it (itself included) is matched by no
rule, is not NaN, and compares equal after the rules. -/
theorem sensitive_entry_redacted_iff (E : Env) (hooks : Hooks)
    (hhooks : hooks.classification = none) (rules : List PIIRule) (maxDepth : ℤ)
    (payload : Payload) (q : List (Step String)) (key : String) (v₀ : Value)
    (hget : payload.value.get? (q ++ [.key key]) = some v₀)
    (hdepth : (q.length : ℤ) < maxDepth) (hs : sensitive E key = true)
    (hrule : targeted rules (segments wild (q ++ [.key key])) = false) :
    (∀ v, (sanitizePayload E hooks rules payload true maxDepth).val.get? (q ++ [.key key]) =
        some v → v = redacted) ↔
      enclosingHit rules [] 0 q = true ∨ v₀ = redacted ∨
        hidden E rules [] 0 payload.value (q ++ [.key key]) = true := by
  obtain ⟨cleaned, hcleaned, hval⟩ := exists_val_sanitizePayload E maxDepth rules hooks payload
  rw [hval, classify, hhooks, ← hcleaned]
  exact get?_cleanAt_eq_redacted payload.nodupKeys hget (by omega) hs hrule

/-- Builtins for runs on small payloads without secrets, under rules that redact. -/
def plainEnv : Env where
  str := fun _ => ""
  lower := String.toLower
  sha256Hex := fun _ => ""
  canonicalJson := fun _ => ""
  redactIfSecret := fun _ => none

/-- `{"auth": {"user": "alice", "x": "y"}}`. -/
def authPayload : Payload where
  entries := [("auth", .dict () [("user", str "alice"), ("x", str "y")])]
  nodupKeys := by
    refine .dict (by decide) ?_
    intro e he
    obtain rfl := List.mem_singleton.mp he
    refine .dict (by decide) ?_
    intro e he
    obtain rfl | rfl : e = ("user", str "alice") ∨ e = ("x", str "y") := by simpa using he
    · exact .scalar _
    · exact .scalar _

theorem sensitive_entry_redacted_iff_at_auth :
    (∀ v, (sanitizePayload plainEnv {} [] authPayload true 8).val.get? [.key "auth"] = some v →
        v = redacted) ↔
      enclosingHit [] [] 0 [] = true ∨
        (Tree.dict () [("user", str "alice"), ("x", str "y")] : Value) = redacted ∨
        hidden plainEnv [] [] 0 authPayload.value [.key "auth"] = true :=
  sensitive_entry_redacted_iff plainEnv {} rfl [] 8 authPayload [] "auth" _ rfl (by decide)
    (by decide +kernel) rfl

/-- A rule for `auth.x` lets `auth.user` out, although no rule matches `auth`. -/
theorem not_sensitive_entry_redacted :
    ¬ ∀ (E : Env) (rules : List PIIRule) (maxDepth : ℤ) (payload : Payload)
        (q : List (Step String)) (key : String) (v₀ v : Value),
      payload.value.get? (q ++ [.key key]) = some v₀ →
      (q.length : ℤ) < maxDepth → sensitive E key = true →
      targeted rules (segments wild (q ++ [.key key])) = false →
      (sanitizePayload E {} rules payload true maxDepth).val.get? (q ++ [.key key]) = some v →
      v = redacted := by
  intro h
  have hauth := fun v => h plainEnv [{ path := ["auth", "x"] }] 8 authPayload [] "auth" _ v
    rfl (by decide) (by decide +kernel) (by decide +kernel)
  have hdict : ((sanitizePayload plainEnv {} [{ path := ["auth", "x"] }] authPayload true
      8).val.get? [.key "auth"]).map Tree.isContainer = some true := by decide +kernel
  obtain ⟨v, hv, hcontainer⟩ := Option.map_eq_some_iff.mp hdict
  rw [hauth v hv] at hcontainer
  cases hcontainer

end Telemetry.Pii.Python
