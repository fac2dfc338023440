import Telemetry.Lib.CodePoints
import Telemetry.Lib.Delimited
import Telemetry.Lib.Dict
import Telemetry.Lib.Passed

/-!
# The credentials of the Python Prometheus listener

`WebSecurity.authenticate` looks a user name up and checks the password with bcrypt. As bcrypt is
slow by design, a pair that passed is remembered under a keyed digest of the name, a NUL and the
password. A name or a password may hold a NUL itself, and then two pairs can have one digest.

## Main definitions

* `Primitives` — bcrypt and the HMAC.
* `WebSecurity.authorized`, `WebSecurity.authenticate` — the source's methods.
* `WebSecurity.Accepts` — the pair is one of the table's.

## Main results

* `WebSecurity.answers_right_iff` — **when every call answers by the table**.
* `WebSecurity.answers_right_of_noNul` — no user name with a NUL in it.
-/

namespace Telemetry.Metrics.PythonCredentials

open Lib

/-- `bcrypt.checkpw` on the bytes of a password and a hash, and the HMAC of a message. -/
structure Primitives (Digest : Type) where
  checkpw : List UInt8 → List UInt8 → Bool
  hmac : List UInt8 → List UInt8 → Digest

/-- The fields of `WebSecurity` that the check of a password uses. -/
structure WebSecurity (Digest : Type) where
  users : Dict CodePoints (List UInt8)
  verified : List Digest := []
  cacheKey : List UInt8

/-- A user name and a password. -/
structure Credentials where
  user : CodePoints
  password : CodePoints
  deriving DecidableEq

def nul : CodePoint := .scalar '\x00'

/-- `_DUMMY_HASH` -/
def dummyHash : List UInt8 :=
  "$2a$10$WuJ86tQzfCxkRPXM1G759Oi0am1AacPdbzSZS/UqQ3ePrV6MohbZq".toUTF8.toList

/-- `f"{user}\0{password}"` -/
def Credentials.text (c : Credentials) : CodePoints := c.user ++ nul :: c.password

namespace WebSecurity

variable {Digest : Type} (E : Primitives Digest)

section Source

variable [DecidableEq Digest]

/-- `WebSecurity.authenticate`: the answer, unless an encoding raises, and what is verified then. -/
def authenticate (W : WebSecurity Digest) (c : Credentials) : Option Bool × WebSecurity Digest :=
  match c.text.encodeUtf8 with
  | none => (none, W)
  | some message =>
      let digest := E.hmac W.cacheKey message
      if digest ∈ W.verified then (some true, W)
      else
        match c.password.encodeUtf8 with
        | none => (none, W)
        | some password =>
            match W.users.get? c.user with
            | none =>
                -- the dummy hash is for the time that it takes
                let _checked := E.checkpw password dummyHash
                (some false, W)
            | some hashed =>
                if E.checkpw password hashed then
                  (some true, { W with verified := digest :: W.verified })
                else (some false, W)

/-- `WebSecurity.authorized`, with what `b64decode` and `decode` make of a credential or refuse to.
No character beyond ASCII becomes a letter of the scheme when it is lowered. -/
def authorized (b64 : List Char → Option (List Char)) (W : WebSecurity Digest)
    (header : Option (List Char)) : Option Bool × WebSecurity Digest :=
  if W.users.entries = [] then (some true, W)
  else
    let text := header.getD []
    let scheme := text.takeWhile (· ≠ ' ')
    if scheme.map Char.toLower ≠ "basic".toList then (some false, W)
    else
      match b64 ((text.dropWhile (· ≠ ' ')).drop 1) with
      | none => (some false, W)
      | some decoded =>
          if ':' ∈ decoded then
            W.authenticate E
              { user := .ofChars (decoded.takeWhile (· ≠ ':'))
                password := .ofChars ((decoded.dropWhile (· ≠ ':')).drop 1) }
          else (some false, W)

/-- The answers to calls that come one after the other. -/
def answers : WebSecurity Digest → List Credentials → List (Option Bool)
  | _, [] => []
  | W, c :: cs => (W.authenticate E c).1 :: answers (W.authenticate E c).2 cs

end Source

/-- The user is in the table, and the password is that of the table's hash. -/
def accepts (W : WebSecurity Digest) (c : Credentials) : Bool :=
  match W.users.get? c.user, c.password.encodeUtf8 with
  | some hashed, some password => E.checkpw password hashed
  | _, _ => false

/-- The check and its keys, as the cache sees them. -/
def passing (W : WebSecurity Digest) : Passing Credentials Digest where
  key c := c.text.encodeUtf8.map (E.hmac W.cacheKey)
  passes c := W.accepts E c = true

instance (W : WebSecurity Digest) : DecidablePred (W.passing E).passes :=
  fun c => inferInstanceAs (Decidable (W.accepts E c = true))

variable {E} {W : WebSecurity Digest} {c d : Credentials}

/-! ## What can be encoded -/

theorem wellFormed_text_iff :
    c.text.WellFormed ↔ c.user.WellFormed ∧ c.password.WellFormed := by
  simp [Credentials.text, CodePoints.WellFormed, nul, CodePoint.char?, or_imp, forall_and]

/-- A password that was checked could be encoded. -/
theorem wellFormed_password_of_accepts (h : W.accepts E c = true) : c.password.WellFormed := by
  rw [accepts] at h
  split at h
  · next hbytes => exact CodePoints.isSome_encodeUtf8_iff.mp (by rw [hbytes]; rfl)
  · cases h

theorem isSome_key_iff :
    ((W.passing E).key c).isSome = true ↔ c.user.WellFormed ∧ c.password.WellFormed := by
  rw [passing, Option.isSome_map, CodePoints.isSome_encodeUtf8_iff, wellFormed_text_iff]

/-- **What is accepted has a key** iff the user name can be encoded. -/
theorem hasKey_iff : (W.passing E).HasKey c ↔ (W.accepts E c = true → c.user.WellFormed) := by
  rw [Passing.HasKey, isSome_key_iff]
  exact forall_congr' fun h => and_iff_left (wellFormed_password_of_accepts h)

/-- **Two pairs have one key** iff their texts are the same. -/
theorem apart_iff (hmac_injective : ∀ key, Function.Injective (E.hmac key))
    (hkey : (W.passing E).HasKey c) : (W.passing E).Apart c d ↔
      (W.accepts E c = true → c.text = d.text → W.accepts E d = true) := by
  refine forall_congr' fun haccepts => ?_
  have hsome := hkey haccepts
  have hwell : c.text.WellFormed := wellFormed_text_iff.mpr (isSome_key_iff.mp hsome)
  have heq : (W.passing E).key c = (W.passing E).key d ↔ c.text = d.text := by
    constructor
    · intro h
      exact CodePoints.encodeUtf8_inj hwell (Option.map_injective (hmac_injective W.cacheKey) h)
    · intro h
      simp only [passing, h]
  rw [heq]
  exact forall_prop_of_true hsome

/-! ## The cache -/

variable [DecidableEq Digest]

/-- One call is one question. -/
theorem authenticate_eq (W : WebSecurity Digest) (c : Credentials) :
    W.authenticate E c =
      (((W.passing E).ask W.verified c).1,
        { W with verified := ((W.passing E).ask W.verified c).2 }) := by
  simp only [authenticate, Passing.ask, passing]
  cases htext : c.text.encodeUtf8 with
  | none => rfl
  | some message =>
      have hpassword : c.password.encodeUtf8.isSome = true := by
        rw [CodePoints.isSome_encodeUtf8_iff]
        refine (wellFormed_text_iff.mp ?_).2
        exact CodePoints.isSome_encodeUtf8_iff.mp (by rw [htext]; rfl)
      obtain ⟨password, hpassword⟩ := Option.isSome_iff_exists.mp hpassword
      simp only [Option.map_some, accepts, hpassword]
      cases W.users.get? c.user with
      | none => split <;> simp
      | some hashed =>
          split
          · rfl
          · dsimp only
            split <;> rfl

theorem answers_eq (W : WebSecurity Digest) (cs : List Credentials) :
    W.answers E cs = (W.passing E).answers W.verified cs := by
  induction cs generalizing W with
  | nil => rfl
  | cons c cs ih =>
      rw [answers, Passing.answers, ih, authenticate_eq]
      rfl

/-- Each call says whether the pair is the table's. -/
def AnswersRight (E : Primitives Digest) (W : WebSecurity Digest) (cs : List Credentials) : Prop :=
  List.Forall₂ (fun c answer => answer = some true ↔ W.accepts E c = true) cs (W.answers E cs)

/-- **When every call answers by the table**: no user name of an accepted pair is impossible to
encode, and no pair that is not accepted comes after an accepted one with the same text. -/
theorem answers_right_iff (hmac_injective : ∀ key, Function.Injective (E.hmac key))
    (users : Dict CodePoints (List UInt8)) (cacheKey : List UInt8) (cs : List Credentials) :
    let W : WebSecurity Digest := { users, cacheKey }
    W.AnswersRight E cs ↔
      (∀ c ∈ cs, W.accepts E c = true → c.user.WellFormed) ∧
        cs.Pairwise fun c d =>
          W.accepts E c = true → c.text = d.text → W.accepts E d = true := by
  intro W
  rw [AnswersRight, answers_eq]
  refine ((W.passing E).forall₂_right_iff cs).trans ?_
  simp only [hasKey_iff]
  refine and_congr_right fun hkeys => ?_
  refine List.Pairwise.iff_of_mem fun hc _ => ?_
  exact apart_iff hmac_injective (hasKey_iff.mpr (hkeys _ hc))

/-! ## A name with a NUL -/

/-- bcrypt's answer for one hash, whose password is known. -/
def knownHash : List UInt8 :=
  "$2a$05$CCCCCCCCCCCCCCCCCCCCC.E5YPO9kmyuRGyh0XouQYb4YMJKvyOeW".toUTF8.toList

/-- bcrypt on `knownHash`, and messages for their HMAC. -/
def known : Primitives (List UInt8 × List UInt8) where
  checkpw password hashed := decide (password = "U*U".toUTF8.toList) && decide (hashed = knownHash)
  hmac key message := (key, message)

def knownPassword : CodePoints := .ofString "U*U"

/-- A wrong password, the right one twice, and one of nobody's. -/
theorem answers_right_of_login :
    WebSecurity.AnswersRight known
      { users := ⟨[(.ofString "prometheus", knownHash)], by decide⟩, cacheKey := [] }
      [⟨.ofString "prometheus", .ofString "U"⟩, ⟨.ofString "prometheus", knownPassword⟩,
        ⟨.ofString "prometheus", knownPassword⟩, ⟨.ofString "grafana", knownPassword⟩] :=
  (answers_right_iff (fun _ _ _ h => congrArg Prod.snd h) _ _ _).mpr
    ⟨by with_unfolding_all decide, by with_unfolding_all decide⟩

/-- The name `a NUL b` with the password `U*U` has the text of the name `a` with the password
`b NUL U*U`, and nobody is called `a`. -/
theorem not_answers_right_of_nul :
    ¬WebSecurity.AnswersRight known
      { users := ⟨[(.ofString "a\x00b", knownHash)], by decide⟩, cacheKey := [] }
      [⟨.ofString "a\x00b", knownPassword⟩, ⟨.ofString "a", .ofString "b\x00U*U"⟩] := by
  intro h
  have hanswers : WebSecurity.answers known
      { users := ⟨[(.ofString "a\x00b", knownHash)], by decide⟩, cacheKey := [] }
      [⟨.ofString "a\x00b", knownPassword⟩, ⟨.ofString "a", .ofString "b\x00U*U"⟩] =
        [some true, some true] := by with_unfolding_all decide
  rw [AnswersRight, hanswers, List.forall₂_cons, List.forall₂_cons] at h
  exact absurd (h.2.1.mp rfl) (by decide)

/-! ## Names without a NUL -/

omit [DecidableEq Digest] in
/-- The text says which pair it is of if the user names hold no NUL. -/
theorem text_inj (hc : nul ∉ c.user) (hd : nul ∉ d.user) (h : c.text = d.text) : c = d := by
  have hsplits : Splits (· = nul) c.user d.user (c.user = d.user) :=
    splits_of_free (fun x hx hnul => hc (hnul ▸ hx)) (fun x hx hnul => hd (hnul ▸ hx))
  obtain ⟨huser, hrest⟩ := hsplits _ _ (by simp) (by simp) h
  obtain ⟨user, password⟩ := c
  obtain ⟨user', password'⟩ := d
  cases huser
  cases hrest
  rfl

/-- **Every call answers by the table** if the user names are text without NUL. -/
theorem answers_right_of_noNul (hmac_injective : ∀ key, Function.Injective (E.hmac key))
    {users : Dict CodePoints (List UInt8)} {cacheKey : List UInt8} {cs : List Credentials}
    (hcs : ∀ c ∈ cs, c.user.WellFormed ∧ nul ∉ c.user) :
    WebSecurity.AnswersRight E { users, cacheKey } cs := by
  refine (answers_right_iff hmac_injective users cacheKey cs).mpr
    ⟨fun c hc _ => (hcs c hc).1, List.pairwise_of_forall_mem_list ?_⟩
  intro c hc d hd haccepts htext
  rwa [← text_inj (hcs c hc).2 (hcs d hd).2 htext]

end WebSecurity
end Telemetry.Metrics.PythonCredentials
