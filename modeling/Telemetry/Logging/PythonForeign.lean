import Telemetry.Lib.Asking
import Telemetry.Lib.CodePoints
import Telemetry.Lib.Dict
import Telemetry.Pii.DefaultPass

/-!
# Records of foreign Python loggers

`sanitize_foreign_record` gives a copy of a record whose message, arguments and extra attributes
are hardened and sanitized. On the way it formats and asks objects of the caller, and each of them
may raise, or log: then the function is entered again on the same thread, finds its flag set, and
fails closed.

What the objects of the caller and the engines do is arbitrary, except that the PII engine adds no
keys but those of classes. `copy.copy` asks a record for `__reduce_ex__`, and that of `object` asks
it for `__getstate__`; an attribute of one of these names is called. All else that they ask for is
looked up in the class or is not called.

## Main definitions

* `Env`, `Cleaner` — what is called.
* `message`, `extras`, `sanitizeForeignRecord` — the source's functions.
* `PassesSafely` — what a call comes to.

## Main results

* `passesSafely_sanitizeForeignRecord` — **a record passes through safely**.
* `keys_sanitizePayload` — what the PII engine adds.
-/

namespace Telemetry.Logging.PythonForeign

open Lib

variable {X V : Type}

/-- The `__dict__` of a record, with its attributes. -/
abbrev Record (V : Type) := Dict CodePoints V

/-- A name in the source. -/
def key (name : String) : CodePoints := .ofString name

/-- No attribute is called in place of `copy.copy`. -/
def Plain (record : Record V) : Prop :=
  record.get? (key "__reduce_ex__") = none ∧ record.get? (key "__getstate__") = none

/-- Code that may log a record, which comes back sanitized or as an exception. -/
abbrev Calls (X V α : Type) :=
  Asking { record : Record V // Plain record } (Except X (Record V)) X α

/-- The types that are asked for. -/
inductive PyType
  | mapping
  | tuple
  | list
  | dictOrList
  deriving DecidableEq

/-- `__{key}__class`, under which the PII engine puts a class. -/
def classKey (name : CodePoints) : CodePoints := key "__" ++ name ++ key "__class"

/-- `_Cleaner`, with the limits of its config and the two engines. -/
structure Cleaner (X V : Type) where
  sanitize : Bool
  /-- `harden_input(…)(None, "", attributes)` -/
  harden : Dict CodePoints V → Calls X V (Dict CodePoints V)
  /-- `pii.sanitize_payload`, with the switch and the depth of the config. -/
  sanitizePayload : Dict CodePoints V → Calls X V (Dict CodePoints V)
  redactSecretSpans : V → Calls X V V
  keys_sanitizePayload : ∀ payload, (sanitizePayload payload).Always fun out =>
    ∀ k ∈ out.keys, k ∈ payload.keys ∨ ∃ name, k = classKey name

/-- Objects, and what they do when they are asked. -/
structure Env (X V : Type) where
  /-- `isinstance(exc, Exception)` -/
  isException : X → Bool
  attributeError : X
  keyError : X
  /-- A record has `taskName`, from Python 3.12 on. -/
  hasTaskName : Bool
  /-- A string, a tuple without items, and a dict. -/
  str : String → V
  emptyTuple : V
  dict : Dict CodePoints V → V
  /-- `_Cleaner()` -/
  newCleaner : Calls X V (Cleaner X V)
  /-- What `copy.copy` makes of a record with an attribute `__reduce_ex__`, and of one with an
  attribute `__getstate__` only: it calls it, and gives the attributes of the copy. -/
  reduceEx : V → Calls X V (Record V)
  getstate : V → Calls X V (Record V)
  truth : V → Calls X V Bool
  isinstance : PyType → V → Calls X V Bool
  /-- `str(value)`, `text.encode("utf-8")` and `template % args`. -/
  toStr : V → Calls X V V
  encode : V → Calls X V Unit
  format : V → V → Calls X V V
  /-- What the comprehension over `args.items()` takes from it. -/
  items : V → Calls X V (List (V × V))
  /-- The text of a key whose type is `str` itself. -/
  exactStr : V → Option CodePoints
  /-- `list(args)` and `tuple(cleaned)`. -/
  toList : V → Calls X V V
  toTuple : V → Calls X V V

/-! ## The cleaner -/

section Source

variable (E : Env X V)

/-- `_HARDENED_PLACEHOLDER` -/
def Env.placeholder : V := E.str "***"

/-- `_STANDARD_RECORD_KEYS` -/
def Env.standardRecordKeys : List CodePoints :=
  ((if E.hasTaskName then ["taskName"] else []) ++
    ["name", "msg", "args", "levelname", "levelno", "pathname", "filename", "module", "exc_info",
      "exc_text", "stack_info", "lineno", "funcName", "created", "msecs", "relativeCreated",
      "thread", "threadName", "processName", "process", "message", "asctime"]).map key

/-- `{name: value}` -/
def single (name : String) (value : V) : Dict CodePoints V := Dict.empty.set (key name) value

/-- `{k: v for k, v in d.items() if …}` -/
def keep (p : CodePoints → Bool) (d : Dict CodePoints V) : Dict CodePoints V where
  entries := d.entries.filter fun e => p e.1
  nodup := d.nodup.sublist (List.filter_sublist.map Prod.fst)

/-- `getattr(record, name)` -/
def getAttr (record : Record V) (name : String) : Calls X V V :=
  match record.get? (key name) with
  | some value => pure value
  | none => .raise E.attributeError

namespace Cleaner

variable (C : Cleaner X V)

/-- `_Cleaner.attributes` -/
def attributes (attributes : Dict CodePoints V) : Calls X V (Dict CodePoints V) :=
  C.harden attributes

/-- `_Cleaner.value` -/
def value (v : V) : Calls X V V := do
  let hardened ← C.attributes (single "value" v)
  match hardened.get? (key "value") with
  | some v => pure v
  | none => .raise E.keyError

/-- `_Cleaner.payload` -/
def payload (payload : Dict CodePoints V) : Calls X V (Dict CodePoints V) :=
  C.sanitizePayload payload

/-- `_Cleaner.text` -/
def text (t : V) : Calls X V V := do
  let hardened ← C.value E t
  let hardened ← E.toStr hardened
  if C.sanitize then C.redactSecretSpans hardened else pure hardened

/-- The comprehension of `_Cleaner._mapping_args`. -/
def mappingEntries (args : V) : Calls X V (Dict CodePoints V) := do
  let items ← E.items args
  items.foldlM (fun entries item =>
    match E.exactStr item.1 with
    | none => pure entries
    | some name => do
        let v ← C.value E item.2
        pure (entries.set name v)) Dict.empty

/-- `_Cleaner._mapping_args` -/
def mappingArgs (args : V) : Calls X V (Option V) := do
  let entries ← (some <$> C.mappingEntries E args).attempt E.isException (pure none)
  match entries with
  | none => pure none
  | some entries => do
      let cleaned ← C.payload entries
      pure (some (E.dict cleaned))

/-- `_Cleaner.args` -/
def args (a : V) : Calls X V (Option V) := do
  if ← E.isinstance .mapping a then
    C.mappingArgs E a
  else if ← E.isinstance .tuple a then do
    let listed ← E.toList a
    let hardened ← C.value E listed
    let cleaned ← C.payload (single "args" hardened)
    match cleaned.get? (key "args") with
    | none => pure none
    | some cleaned =>
        if ← E.isinstance .list cleaned then some <$> E.toTuple cleaned else pure none
  else pure none

end Cleaner

/-! ## The record -/

/-- `_safe_str` -/
def safeStr (value : V) : Calls X V (Option V) :=
  Asking.attempt
    (do
      let text ← E.toStr value
      E.encode text
      pure (some text))
    E.isException (pure none)

/-- `_message` -/
def message (record : Record V) (C : Cleaner X V) : Calls X V V := do
  let args ← getAttr E record "args"
  if ← E.truth args then
    let msg ← getAttr E record "msg"
    let template ← safeStr E msg
    let args ← C.args E args
    match template, args with
    | some template, some args =>
        let formatted ← Asking.attempt
          (do
            let formatted ← E.format template args
            E.encode formatted
            pure (some formatted))
          E.isException (pure none)
        match formatted with
        | some formatted => C.text E formatted
        | none => pure E.placeholder
    | _, _ => pure E.placeholder
  else
    let msg ← getAttr E record "msg"
    if ← E.isinstance .dictOrList msg then
      let hardened ← C.value E msg
      let cleaned ← C.payload (single "msg" hardened)
      pure ((cleaned.get? (key "msg")).getD E.placeholder)
    else
      let text ← safeStr E msg
      match text with
      | some text => C.text E text
      | none => pure E.placeholder

/-- `_extras` -/
def extras (record : Record V) (C : Cleaner X V) : Calls X V (Dict CodePoints V) :=
  let custom := keep (fun k => k ∉ E.standardRecordKeys) record
  if custom.entries = [] then pure Dict.empty
  else do
    let hardened ← C.attributes custom
    C.payload (keep (fun k => k ∉ E.standardRecordKeys) hardened)

/-- `copy.copy` -/
def copyRecord (record : Record V) : Calls X V (Record V) :=
  match record.get? (key "__reduce_ex__"), record.get? (key "__getstate__") with
  | some method, _ => E.reduceEx method
  | none, some method => E.getstate method
  | none, none => pure record

/-- The copy without extra attributes, arguments and message. -/
def failClosed (copied : Record V) : Record V :=
  ((keep (fun k => k ∈ E.standardRecordKeys) copied).set (key "args") E.emptyTuple).set
    (key "msg") E.placeholder

/-- The body of the `try`. -/
def messageAndExtras (record : Record V) : Calls X V (V × Dict CodePoints V) := do
  let C ← E.newCleaner
  let message ← message E record C
  let extras ← extras E record C
  pure (message, extras)

/-- From the `finally` on: the thread's attribute `busy` is deleted, whatever the body came to. -/
def finish (clean : Record V) (result : Except X (V × Dict CodePoints V)) :
    Option Bool → Except X (Record V) × Option Bool
  | none => (.error E.attributeError, none)
  | some _ =>
      match result with
      | .ok (message, extras) =>
          (.ok ((clean.set (key "msg") message).update extras.entries), none)
      | .error exc => (if E.isException exc then .ok clean else .error exc, none)

/-- `sanitize_foreign_record`, with the thread's own attribute `busy`, whose default is `False`. A
record that is logged on the way enters it again, so many levels deep at most. -/
def sanitizeForeignRecord :
    ℕ → Record V → Option Bool → Option (Except X (Record V) × Option Bool)
  | 0, _, _ => none
  | levels + 1, record, busy =>
      let logs := fun (r : { record : Record V // Plain record }) busy =>
        sanitizeForeignRecord levels r.1 busy
      match (copyRecord E record).run logs busy with
      | none => none
      | some (.error exc, busy) => some (.error exc, busy)
      | some (.ok copied, busy) =>
          let clean := failClosed E copied
          if busy.getD false then some (.ok clean, busy)
          else ((messageAndExtras E record).run logs (some true)).map fun e =>
            finish E clean e.1 e.2

end Source

/-- What a call comes to: no exception but one that is no `Exception`, the flag as it was, and a
copy with the standard attributes of the record, without arguments, and with a message and extra
attributes of its own, if it has any. -/
structure PassesSafely (E : Env X V) (record : Record V) (busy : Option Bool)
    (result : Except X (Record V)) (busy' : Option Bool) : Prop where
  flag : busy'.getD false = busy.getD false
  raises : ∀ exc, result = .error exc → E.isException exc = false
  standard : ∀ clean, result = .ok clean → ∀ k ∈ E.standardRecordKeys, k ≠ key "msg" →
    k ≠ key "args" → clean.get? k = record.get? k
  args : ∀ clean, result = .ok clean → clean.get? (key "args") = some E.emptyTuple
  extras : ∀ clean, result = .ok clean → clean = failClosed E record ∨
    ∃ message, ∃ extras : Dict CodePoints V, (∀ k ∈ extras.keys, k ∉ E.standardRecordKeys) ∧
      clean = ((failClosed E record).set (key "msg") message).update extras.entries

variable {E : Env X V} {record : Record V} {C : Cleaner X V} {k : CodePoints} {busy : Option Bool}

/-! ## Keys -/

@[simp] theorem mem_keys_keep {p : CodePoints → Bool} {d : Dict CodePoints V} :
    k ∈ (keep p d).keys ↔ k ∈ d.keys ∧ p k = true := by
  simp [Dict.keys, keep]

theorem get?_keep {p : CodePoints → Bool} (d : Dict CodePoints V) (hk : p k = true) :
    (keep p d).get? k = d.get? k := by
  rw [Dict.get?, Dict.get?, keep, List.find?_filter]
  congr 2
  funext e
  by_cases he : e.1 = k
  · simp [he, hk]
  · simp [he]

/-- No standard attribute has the name of a class. -/
theorem classKey_notMem (E : Env X V) (name : CodePoints) :
    classKey name ∉ E.standardRecordKeys := by
  have hhead : (classKey name).head? = some (.scalar '_') := rfl
  have hstandard : ∀ k ∈ E.standardRecordKeys, k.head? ≠ some (.scalar '_') := by
    rw [Env.standardRecordKeys]
    cases E.hasTaskName <;> decide
  exact fun hmem => hstandard _ hmem hhead

theorem key_args_mem (E : Env X V) : key "args" ∈ E.standardRecordKeys := by
  simp [Env.standardRecordKeys]

/-! ## The extra attributes -/

/-- **No extra attribute has a standard name.** -/
theorem always_extras (E : Env X V) (record : Record V) (C : Cleaner X V) :
    (extras E record C).Always fun out => ∀ k ∈ out.keys, k ∉ E.standardRecordKeys := by
  rw [extras]
  split
  · intro k hk
    cases hk
  · refine Asking.Always.bind (Asking.always_of_forall (fun _ => trivial) _) fun hardened _ => ?_
    refine (C.keys_sanitizePayload _).mono fun out hout k hk => ?_
    obtain hkept | ⟨name, rfl⟩ := hout k hk
    · simpa using (mem_keys_keep.mp hkept).2
    · exact classKey_notMem E name

theorem always_messageAndExtras (E : Env X V) (record : Record V) :
    (messageAndExtras E record).Always fun out =>
      ∀ k ∈ out.2.keys, k ∉ E.standardRecordKeys := by
  rw [messageAndExtras]
  refine Asking.Always.bind (Asking.always_of_forall (fun _ => trivial) _) fun C _ => ?_
  refine Asking.Always.bind (Asking.always_of_forall (fun _ => trivial) _) fun message _ => ?_
  exact (always_extras E record C).bind fun extras hextras => hextras

/-! ## The copy -/

theorem get?_failClosed (hk : k ∈ E.standardRecordKeys) (hmsg : k ≠ key "msg")
    (hargs : k ≠ key "args") : (failClosed E record).get? k = record.get? k := by
  rw [failClosed, Dict.get?_set, if_neg hmsg, Dict.get?_set, if_neg hargs,
    get?_keep record (by simpa using hk)]

theorem get?_args_failClosed : (failClosed E record).get? (key "args") = some E.emptyTuple := by
  have hne : key "args" ≠ key "msg" := by decide
  rw [failClosed, Dict.get?_set, if_neg hne, Dict.get?_set, if_pos rfl]

/-- Failing closed is safe. -/
theorem passesSafely_failClosed {busy' : Option Bool} (hflag : busy'.getD false = busy.getD false) :
    PassesSafely E record busy (.ok (failClosed E record)) busy' where
  flag := hflag
  raises _ h := nomatch h
  standard _ h _ hk hmsg hargs := by
    cases h
    exact get?_failClosed hk hmsg hargs
  args _ h := by
    cases h
    exact get?_args_failClosed
  extras _ h := by
    cases h
    exact .inl rfl

/-- So are a message and extra attributes that have no standard name. -/
theorem passesSafely_update {message : V} {extras : Dict CodePoints V} {busy' : Option Bool}
    (hflag : busy'.getD false = busy.getD false)
    (hextras : ∀ k ∈ extras.keys, k ∉ E.standardRecordKeys) :
    PassesSafely E record busy
      (.ok (((failClosed E record).set (key "msg") message).update extras.entries)) busy' where
  flag := hflag
  raises _ h := nomatch h
  standard _ h k hk hmsg hargs := by
    cases h
    rw [Dict.get?_update_of_notMem fun hmem => hextras k hmem hk, Dict.get?_set, if_neg hmsg,
      get?_failClosed hk hmsg hargs]
  args _ h := by
    cases h
    have hne : key "args" ≠ key "msg" := by decide
    rw [Dict.get?_update_of_notMem fun hmem => hextras _ hmem (key_args_mem E), Dict.get?_set,
      if_neg hne, get?_args_failClosed]
  extras _ h := by
    cases h
    exact .inr ⟨message, extras, hextras, rfl⟩

/-! ## The function -/

theorem copyRecord_of_plain (h : Plain record) : copyRecord E record = pure record := by
  rw [copyRecord, h.1, h.2]

/-- A call on a record whose copy asks for nothing. -/
theorem sanitizeForeignRecord_succ (E : Env X V) (levels : ℕ) (h : Plain record)
    (busy : Option Bool) :
    sanitizeForeignRecord E (levels + 1) record busy =
      if busy.getD false then some (.ok (failClosed E record), busy)
      else ((messageAndExtras E record).run
        (fun r busy => sanitizeForeignRecord E levels r.1 busy) (some true)).map fun e =>
          finish E (failClosed E record) e.1 e.2 := by
  rw [sanitizeForeignRecord, copyRecord_of_plain h]
  rfl

/-- **A record that is logged meanwhile** comes back at once, and the flag stays. -/
theorem sanitizeForeignRecord_busy (E : Env X V) (levels : ℕ) (h : Plain record) :
    sanitizeForeignRecord E (levels + 1) record (some true) =
      some (.ok (failClosed E record), some true) :=
  sanitizeForeignRecord_succ E levels h (some true)

/-- The first call of a thread runs the body, and then deletes the flag. -/
theorem sanitizeForeignRecord_idle (E : Env X V) (levels : ℕ) (hplain : Plain record)
    (hidle : busy.getD false = false) : ∃ result,
      (∀ out, result = .ok out → ∀ k ∈ out.2.keys, k ∉ E.standardRecordKeys) ∧
        sanitizeForeignRecord E (levels + 2) record busy =
          some (finish E (failClosed E record) result (some true)) := by
  obtain ⟨result, hrun⟩ := Asking.run_of_steady
    (fun q => ⟨_, sanitizeForeignRecord_busy E levels q.2⟩) (messageAndExtras E record)
  refine ⟨result, ?_, ?_⟩
  · rintro out rfl
    exact (always_messageAndExtras E record).of_run hrun
  · have hbusy : ¬busy.getD false = true := by simp [hidle]
    rw [sanitizeForeignRecord_succ E (levels + 1) hplain, if_neg hbusy, hrun]
    rfl

/-- **A record passes through safely**, two levels deep at most. -/
theorem passesSafely_sanitizeForeignRecord (E : Env X V) (record : Record V)
    (hplain : Plain record) (busy : Option Bool) (levels : ℕ) :
    ∃ result busy', sanitizeForeignRecord E (levels + 2) record busy = some (result, busy') ∧
      PassesSafely E record busy result busy' := by
  by_cases hbusy : busy.getD false = true
  · refine ⟨.ok (failClosed E record), busy, ?_, passesSafely_failClosed rfl⟩
    rw [sanitizeForeignRecord_succ E (levels + 1) hplain, if_pos hbusy]
  · have hidle : busy.getD false = false := by simpa using hbusy
    have hflag : (none : Option Bool).getD false = busy.getD false := hidle.symm
    obtain ⟨result, hextras, hcall⟩ := sanitizeForeignRecord_idle E levels hplain hidle
    refine ⟨_, _, hcall, ?_⟩
    cases result with
    | ok out => exact passesSafely_update hflag (hextras out rfl)
    | error exc =>
        cases hkind : E.isException exc with
        | true =>
            simp only [hkind, if_true]
            exact passesSafely_failClosed hflag
        | false =>
            simp only [hkind, Bool.false_eq_true, if_false]
            -- what is no `Exception` goes through
            exact ⟨hflag, by rintro _ ⟨⟩; exact hkind, nofun, nofun, nofun⟩

/-! ## What is let through -/

/-- Objects of a few kinds; one raises when it is asked for its text. -/
inductive Obj
  | str (text : String)
  | tuple
  | dict (entries : List (CodePoints × Obj))
  | number
  | interrupting

/-- Engines and limits that change nothing. -/
def quietCleaner : Cleaner String Obj where
  sanitize := true
  harden := pure
  sanitizePayload := pure
  redactSecretSpans := pure
  keys_sanitizePayload _ _ hk := .inl hk

def quietEnv : Env String Obj where
  isException exc := exc ≠ "KeyboardInterrupt"
  attributeError := "AttributeError"
  keyError := "KeyError"
  hasTaskName := true
  str := .str
  emptyTuple := .tuple
  dict d := .dict d.entries
  newCleaner := pure quietCleaner
  reduceEx _ := .raise "TypeError"
  getstate _ := .raise "TypeError"
  truth v := pure (match v with | .tuple => false | _ => true)
  isinstance
    | .tuple, .tuple => pure true
    | .mapping, .dict _ => pure true
    | .dictOrList, .dict _ => pure true
    | _, _ => pure false
  toStr v := match v with | .interrupting => .raise "KeyboardInterrupt" | v => pure v
  encode _ := pure ()
  format template _ := pure template
  items _ := pure []
  exactStr _ := none
  toList v := pure v
  toTuple v := pure v

/-- A record with a message. -/
def recordOf (msg : Obj) : Record Obj :=
  ((Dict.empty.set (key "name") (.str "third_party")).set (key "msg") msg).set (key "args") .tuple

/-- A message goes through. -/
theorem passesSafely_of_text :
    ∃ result busy', sanitizeForeignRecord quietEnv 2 (recordOf (.str "hello")) none =
      some (result, busy') ∧ PassesSafely quietEnv (recordOf (.str "hello")) none result busy' :=
  passesSafely_sanitizeForeignRecord quietEnv (recordOf (.str "hello")) ⟨rfl, rfl⟩ none 0

/-- An interrupt goes through the handler, which is for an `Exception`; and an attribute that
`copy.copy` takes for a method makes it raise, under either name. -/
theorem raises_of_interrupt :
    (sanitizeForeignRecord quietEnv 2 (recordOf .interrupting) none =
        some (.error "KeyboardInterrupt", none) ∧
      quietEnv.isException "KeyboardInterrupt" = false) ∧
    (∀ name ∈ ["__reduce_ex__", "__getstate__"],
      sanitizeForeignRecord quietEnv 2 ((recordOf (.str "hello")).set (key name) .number) none =
        some (.error "TypeError", none)) ∧
    quietEnv.isException "TypeError" = true := by
  refine ⟨⟨rfl, by decide⟩, ?_, by decide⟩
  exact List.forall_mem_cons.mpr ⟨rfl, List.forall_mem_singleton.mpr rfl⟩

/-! ## What the PII engine adds -/

section Engine

open Pii Pii.Python

variable {P : Pii.Python.Env} {rules : List PIIRule} {name : String} {entries : Entries}

theorem mem_keys_setItem {v : Value} {name' : String}
    (h : name' ∈ (Pii.Python.setItem name v entries).map Prod.fst) :
    name' = name ∨ name' ∈ entries.map Prod.fst := by
  induction entries with
  | nil => simpa [Pii.Python.setItem] using h
  | cons e entries ih =>
      rw [Pii.Python.setItem] at h
      split at h
      · exact .inr h
      · rw [List.map_cons, List.mem_cons] at h
        obtain rfl | h := h
        · exact .inr List.mem_cons_self
        · exact (ih h).imp_right (List.mem_cons_of_mem _)

/-- The name is one of the names, or that of a class. -/
def OrClass (names : List String) (name : String) : Prop :=
  name ∈ names ∨ ∃ other, CodePoints.ofString name = classKey (.ofString other)

theorem orClass_class (names : List String) (other : String) :
    OrClass names ("__" ++ other ++ "__class") := by
  refine .inr ⟨other, ?_⟩
  simp [classKey, key, CodePoints.ofString, CodePoints.ofChars]

/-- A round of the classification adds no name but that of a class. -/
theorem orClass_classifyItem {names : List String}
    {classification : String → Value → Option String} {policy : Option (String → String)}
    {item : String × Value} (hitem : item.1 ∈ names)
    (h : ∀ n ∈ entries.map Prod.fst, OrClass names n) :
    ∀ n ∈ (classifyItem P classification policy entries item).map Prod.fst, OrClass names n := by
  intro n hn
  rw [classifyItem] at hn
  split at hn
  · exact h n hn
  · next label hlabel =>
    have htagged : ∀ n ∈ (Pii.Python.setItem ("__" ++ item.1 ++ "__class") (Pii.Python.str label)
        entries).map Prod.fst, OrClass names n := by
      intro n hn
      obtain rfl | hn := mem_keys_setItem hn
      · exact orClass_class names item.1
      · exact h n hn
    dsimp only at hn
    split at hn
    · exact h n ((List.filter_sublist.map Prod.fst).subset hn)
    · split at hn
      · split at hn
        · exact htagged n hn
        · obtain rfl | hn := mem_keys_setItem hn
          · exact .inl hitem
          · exact htagged n hn
      · exact htagged n hn

/-- The rules and the default pass add no name. -/
theorem mem_keys_of_cleanAt {maxDepth : ℤ} {cleaned : Entries}
    (h : cleanAt P maxDepth rules [] 0 (.dict () entries) = .dict () cleaned) :
    ∀ n ∈ cleaned.map Prod.fst, n ∈ entries.map Prod.fst := by
  have hrules : ∀ n ∈ (Tree.rewriteEntries (rulesEntry P rules [] 0) entries).map Prod.fst,
      n ∈ entries.map Prod.fst := by
    intro n hn
    obtain ⟨⟨_, w⟩, hmem, rfl⟩ := List.mem_map.mp hn
    obtain ⟨v, hv, -⟩ := Tree.mem_rewriteEntries.mp hmem
    exact List.mem_map.mpr ⟨_, hv, rfl⟩
  rw [cleanAt, rulesVal_dict] at h
  by_cases hdepth : 0 < maxDepth
  · rw [val_applyDefault_dict P maxDepth _ [] hdepth] at h
    cases h
    rw [List.map_map]
    exact hrules
  · rw [applyDefault_deep P maxDepth _ [] (by omega)] at h
    cases h
    exact hrules

/-- **The PII engine adds no name but those of classes.** -/
theorem keys_sanitizePayload (P : Pii.Python.Env) (hooks : Hooks) (rules : List PIIRule)
    (payload : Payload) (enabled : Bool) (maxDepth : ℤ) :
    ∃ out, (sanitizePayload P hooks rules payload enabled maxDepth).val = .dict () out ∧
      ∀ n ∈ out.map Prod.fst, OrClass (payload.entries.map Prod.fst) n := by
  cases enabled with
  | false => exact ⟨payload.entries, rfl, fun n hn => .inl hn⟩
  | true =>
      obtain ⟨cleaned, hcleaned, hval⟩ :=
        exists_val_sanitizePayload P maxDepth rules hooks payload
      have hkeys := mem_keys_of_cleanAt hcleaned
      have hloop : ∀ classification (items left : Entries),
          (∀ n ∈ items.map Prod.fst, n ∈ payload.entries.map Prod.fst) →
          (∀ n ∈ left.map Prod.fst, OrClass (payload.entries.map Prod.fst) n) →
          ∀ n ∈ (items.foldl (classifyItem P classification hooks.policy) left).map Prod.fst,
            OrClass (payload.entries.map Prod.fst) n := by
        intro classification items
        induction items with
        | nil => exact fun _ _ hleft => hleft
        | cons item items ih =>
            intro left hitems hleft
            rw [List.map_cons, List.forall_mem_cons] at hitems
            exact ih _ hitems.2 (orClass_classifyItem hitems.1 hleft)
      refine ⟨_, hval, ?_⟩
      rw [classify]
      split
      · exact hloop _ cleaned cleaned hkeys fun n hn => .inl (hkeys n hn)
      · exact fun n hn => .inl (hkeys n hn)

end Engine

end Telemetry.Logging.PythonForeign
