import Uno.Core.Exn
import Uno.Lib.Fold
import Uno.Lib.Sha256
import Mathlib.Data.List.Basic
import Mathlib.Tactic.Common

/-!
# Login of a user

A user keeps the hash of the email, the realm and the password, joined by colons. `login` joins the email, the realm
and the stored hash into one text and splits it again, so that it works exactly for the users whose email and realm
hold no colon (`login_iff`); the password may hold any number of them.
-/

namespace Uno

/-- `text.encode("utf-8")`. -/
def utf8 (text : Text) : List UInt8 := text.flatMap String.utf8EncodeChar

/-- `sha256(text.encode("utf-8")).hexdigest()`. -/
def sha256Hex (text : Text) : Text := Sha256.hexdigest (Sha256.sha256 (utf8 text))

/-- `f"{user}:{realm}:{password}"`. -/
def passwordText (user realm password : Text) : Text := user ++ ':' :: (realm ++ ':' :: password)

/-- `_htdigest_hash`. -/
def htdigestHash (user realm : Text) (password passwordHash : Option Text) : Text × Text :=
  let userHash := sha256Hex (user ++ ':' :: realm)
  match passwordHash with
  | none => (sha256Hex (passwordText user realm (password.getD "None".toList)), userHash)
  | some passwordHash => (passwordHash, userHash)

def htdigestGenerate (user realm : Text) (password passwordHash : Option Text) : Result Text :=
  if password = none ∧ passwordHash = none then
    .error (.value "either password or password_hash must be specified")
  else
    let (phash, uhash) := htdigestHash user realm password passwordHash
    .ok (user ++ ':' :: (realm ++ ':' :: (phash ++ ':' :: uhash)))

def htdigestVerify (htdigest user realm password : Text) : Result Bool :=
  match htdigest.splitOn ':' with
  | [htUser, htRealm, htPhash, htUhash] =>
    if htUser ≠ user ∨ htRealm ≠ realm then .ok false
    else
      let (phash, uhash) := htdigestHash user realm (some password) none
      .ok (phash = htPhash ∧ uhash = htUhash)
  | parts =>
    .error (.value (if parts.length < 4 then
      "not enough values to unpack (expected 4, got " ++ toString parts.length ++ ")"
      else "too many values to unpack (expected 4)"))

/-- A user, by the properties that are read to log in. -/
structure User where
  email : Text
  realm : Text
  password : Text
  deriving DecidableEq

namespace User

/-- The prefix of a stored password. -/
def stored : Text := "htdigest:".toList

def preparePassword (email realm val : Text) : Result Text :=
  if stored.isPrefixOf val then .ok val
  else do
    let digest ← htdigestGenerate email realm (some val) none
    let phash ← pyIndex (digest.splitOn ':') 2
    .ok (stored ++ phash)

/-- `user.password = val`. -/
def setPassword (u : User) (val : Text) : Result User := do
  let password ← preparePassword u.email u.realm val
  .ok { u with password }

/-- `User(email=..., realm=..., password=...)`: the email and the realm are set before the password. -/
def new (email realm password : Text) : Result User := do
  let password ← preparePassword email realm password
  .ok ⟨email, realm, password⟩

def login (u : User) (password : Text) : Result Bool := do
  let digest ← htdigestGenerate u.email u.realm none (some (u.password.drop stored.length))
  htdigestVerify digest u.email u.realm password

/-- The row of a user meets the constraints of the table `users`, `others` being its other rows. -/
def MeetsSchema (others : List User) (u : User) : Prop :=
  u.email ≠ [] ∧ u.realm ≠ [] ∧ u.password.length = 73 ∧ ∀ r ∈ others, r.email ≠ u.email ∧ r.password ≠ u.password

instance (others : List User) (u : User) : Decidable (u.MeetsSchema others) :=
  inferInstanceAs (Decidable (_ ∧ _ ∧ _ ∧ _))

/-- The user is saved and loaded. -/
def saveLoad (others : List User) (u : User) : Result User :=
  if u.MeetsSchema others then new u.email u.realm u.password else .error .integrity

/-- What may be done with a user once its password `p` is set. -/
inductive Op where
  | setAgain
  | saveLoad (others : List User)

def step (p : Text) (u : User) : Op → Result User
  | .setAgain => u.setPassword p
  | .saveLoad others => u.saveLoad others

def run (p : Text) (u : User) (ops : List Op) : Result User := ops.foldlM (step p) u

end User

/-! ### Texts -/

theorem utf8_injective : Function.Injective utf8 := by
  intro a b hab
  have hencode : a.utf8Encode = b.utf8Encode := congrArg List.toByteArray hab
  have hdecode := congrArg ByteArray.utf8Decode? hencode
  rw [List.utf8Decode?_utf8Encode, List.utf8Decode?_utf8Encode, Option.some.injEq] at hdecode
  exact List.toArray_inj hdecode

theorem passwordText_inj {user realm p p' : Text} :
    passwordText user realm p = passwordText user realm p' ↔ p = p' := by
  simp [passwordText]

theorem colon_notMem_sha256Hex (text : Text) : ':' ∉ sha256Hex text := by
  intro h
  have hdigit : Sha256.IsHexDigit ':' := Sha256.isHexDigit_of_mem_hexdigest h
  revert hdigit
  unfold Sha256.IsHexDigit
  decide

theorem sha256Hex_length (text : Text) : (sha256Hex text).length = 64 := by
  rw [sha256Hex, Sha256.hexdigest_length, Sha256.sha256_length]

theorem one_le_length_splitOn (text : Text) : 1 ≤ (text.splitOn ':').length :=
  List.length_pos_iff.mpr (List.splitOn_ne_nil _ _)

theorem length_splitOn_le_one_iff {text : Text} : (text.splitOn ':').length ≤ 1 ↔ ':' ∉ text := by
  constructor
  · intro hlength hmem
    obtain ⟨a, b, rfl⟩ := List.append_of_mem hmem
    rw [List.splitOn_append_cons_self, List.length_append] at hlength
    have ha := one_le_length_splitOn a
    have hb := one_le_length_splitOn b
    omega
  · intro h
    rw [List.splitOn_eq_singleton h, List.length_singleton]

theorem splitOn_digest {user realm phash uhash : Text} (hphash : ':' ∉ phash) (huhash : ':' ∉ uhash) :
    (user ++ ':' :: (realm ++ ':' :: (phash ++ ':' :: uhash))).splitOn ':' =
      user.splitOn ':' ++ (realm.splitOn ':' ++ [phash, uhash]) := by
  rw [List.splitOn_append_cons_self, List.splitOn_append_cons_self, List.splitOn_append_cons_self,
    List.splitOn_eq_singleton hphash, List.splitOn_eq_singleton huhash, List.singleton_append]

namespace User

/-- What is stored for a password. -/
def hashed (email realm p : Text) : User := ⟨email, realm, stored ++ sha256Hex (passwordText email realm p)⟩

theorem preparePassword_stored (email realm rest : Text) :
    preparePassword email realm (stored ++ rest) = .ok (stored ++ rest) := by
  rw [preparePassword, if_pos (List.isPrefixOf_iff_prefix.mpr (List.prefix_append _ _))]

theorem preparePassword_eq {email realm p : Text} (hp : ¬stored.isPrefixOf p) :
    preparePassword email realm p = (do
      let phash ← pyIndex (email.splitOn ':' ++ (realm.splitOn ':' ++
        [sha256Hex (passwordText email realm p), sha256Hex (email ++ ':' :: realm)])) 2
      .ok (stored ++ phash)) := by
  rw [preparePassword, if_neg hp, htdigestGenerate, if_neg (fun h => nomatch h.1)]
  simp only [Except.ok_bind, htdigestHash, Option.getD_some]
  rw [splitOn_digest (colon_notMem_sha256Hex _) (colon_notMem_sha256Hex _)]

theorem preparePassword_hashed {email realm p : Text} (hemail : ':' ∉ email) (hrealm : ':' ∉ realm)
    (hp : ¬stored.isPrefixOf p) :
    preparePassword email realm p = .ok (hashed email realm p).password := by
  rw [preparePassword_eq hp, List.splitOn_eq_singleton hemail, List.splitOn_eq_singleton hrealm]
  rfl

/-! ### Runs -/

theorem saveLoad_hashed (others : List User) (email realm p : Text) :
    (hashed email realm p).saveLoad others =
      if (hashed email realm p).MeetsSchema others then .ok (hashed email realm p) else .error .integrity := by
  have hprepare : preparePassword (hashed email realm p).email (hashed email realm p).realm
      (hashed email realm p).password = .ok (hashed email realm p).password := preparePassword_stored _ _ _
  rw [saveLoad, new, hprepare, Except.ok_bind]

/-- Without colons in the email and the realm, the stored hash is kept by whatever is done with the user. -/
theorem step_hashed {email realm p : Text} (hemail : ':' ∉ email) (hrealm : ':' ∉ realm)
    (hp : ¬stored.isPrefixOf p) {op : Op} {u : User} (h : step p (hashed email realm p) op = .ok u) :
    u = hashed email realm p := by
  cases op with
  | setAgain =>
    have hprepare : preparePassword (hashed email realm p).email (hashed email realm p).realm p =
        .ok (hashed email realm p).password := preparePassword_hashed hemail hrealm hp
    rw [step, setPassword, hprepare, Except.ok_bind] at h
    exact (Except.ok.inj h).symm
  | saveLoad others =>
    rw [step, saveLoad_hashed] at h
    split at h
    · exact (Except.ok.inj h).symm
    · cases h

theorem run_hashed {email realm p : Text} (hemail : ':' ∉ email) (hrealm : ':' ∉ realm)
    (hp : ¬stored.isPrefixOf p) {ops : List Op} {u : User} (h : run p (hashed email realm p) ops = .ok u) :
    u = hashed email realm p := by
  refine Fold.foldlM_invariant (P := (· = hashed email realm p)) (fun u₁ u₂ op _ hu₁ hstep => ?_) rfl h
  rw [hu₁] at hstep
  exact step_hashed hemail hrealm hp hstep

theorem hashed_meetsSchema {others : List User} {email realm p : Text} (hemail : email ≠ []) (hrealm : realm ≠ [])
    (hothers : ∀ r ∈ others, r.email ≠ email ∧ r.password ≠ (hashed email realm p).password) :
    (hashed email realm p).MeetsSchema others := by
  refine ⟨hemail, hrealm, ?_, hothers⟩
  rw [hashed, List.length_append, sha256Hex_length]
  rfl

/-! ### Login -/

theorem login_eq (u : User) (x : Text) :
    u.login x = htdigestVerify (u.email ++ ':' :: (u.realm ++ ':' :: (u.password.drop stored.length ++
      ':' :: sha256Hex (u.email ++ ':' :: u.realm)))) u.email u.realm x := by
  rw [login, htdigestGenerate, if_neg (fun h => nomatch h.2)]
  rfl

theorem login_hashed {email realm p x : Text} (hemail : ':' ∉ email) (hrealm : ':' ∉ realm) :
    (hashed email realm p).login x =
      .ok (sha256Hex (passwordText email realm x) = sha256Hex (passwordText email realm p)) := by
  have hdrop : (hashed email realm p).password.drop stored.length = sha256Hex (passwordText email realm p) :=
    List.drop_left
  have hparts := @splitOn_digest email realm _ _ (colon_notMem_sha256Hex (passwordText email realm p))
    (colon_notMem_sha256Hex (email ++ ':' :: realm))
  rw [List.splitOn_eq_singleton hemail, List.splitOn_eq_singleton hrealm] at hparts
  rw [login_eq, hdrop, htdigestVerify]
  simp only [hashed, hparts, List.singleton_append]
  simp [htdigestHash]

/-- With a colon in the email or the realm, no password is accepted or refused: the digest has too many parts. -/
theorem login_of_colon {u : User} (h : ':' ∈ u.email ∨ ':' ∈ u.realm) (x : Text) :
    u.login x = .error (.value "too many values to unpack (expected 4)") := by
  rw [login_eq, htdigestVerify]
  generalize hdigest : (u.email ++ ':' :: (u.realm ++ ':' :: (u.password.drop stored.length ++
    ':' :: sha256Hex (u.email ++ ':' :: u.realm)))).splitOn ':' = parts
  have hlength : 4 < parts.length := by
    have hemail := one_le_length_splitOn u.email
    have hrealm := one_le_length_splitOn u.realm
    have hpassword := one_le_length_splitOn (u.password.drop stored.length)
    have htwo : 1 < (u.email.splitOn ':').length ∨ 1 < (u.realm.splitOn ':').length := by
      rcases h with h | h
      · exact .inl (not_le.mp fun hle => length_splitOn_le_one_iff.mp hle h)
      · exact .inr (not_le.mp fun hle => length_splitOn_le_one_iff.mp hle h)
    rw [← hdigest, List.splitOn_append_cons_self, List.splitOn_append_cons_self, List.splitOn_append_cons_self,
      List.splitOn_eq_singleton (colon_notMem_sha256Hex _)]
    simp only [List.length_append, List.length_singleton]
    omega
  split
  · simp only [List.length_cons, List.length_nil] at hlength
    omega
  · rw [if_neg (by omega)]

/-- The password `p` can be set, saved and loaded, and from then on `x` is accepted exactly when it is `p`. -/
structure LogsIn (email realm p x : Text) : Prop where
  sets (password : Text) : ∃ u, setPassword ⟨email, realm, password⟩ p = .ok u
  saves (password : Text) (ops : List Op) (u t : User) (others : List User) :
    setPassword ⟨email, realm, password⟩ p = .ok u → run p u ops = .ok t → email ≠ [] → realm ≠ [] →
      (∀ r ∈ others, r.email ≠ email ∧ r.password ≠ t.password) → ∃ t', saveLoad others t = .ok t'
  login (password : Text) (ops : List Op) (u t : User) :
    setPassword ⟨email, realm, password⟩ p = .ok u → run p u ops = .ok t → t.login x = .ok (decide (x = p))

theorem setPassword_hashed {email realm p password : Text} (hemail : ':' ∉ email) (hrealm : ':' ∉ realm)
    (hp : ¬stored.isPrefixOf p) : setPassword ⟨email, realm, password⟩ p = .ok (hashed email realm p) := by
  rw [setPassword, preparePassword_hashed hemail hrealm hp]
  rfl

end User

open User

/-- A user can log in with its password, and with no other one, exactly when its email and its realm hold no colon;
the two passwords are assumed not to collide. -/
theorem login_iff {email realm p x : Text} (hp : ¬stored.isPrefixOf p)
    (hsha : Sha256.sha256 (utf8 (passwordText email realm x)) = Sha256.sha256 (utf8 (passwordText email realm p)) →
      utf8 (passwordText email realm x) = utf8 (passwordText email realm p)) :
    LogsIn email realm p x ↔ ':' ∉ email ∧ ':' ∉ realm := by
  constructor
  · intro h
    obtain ⟨u, hu⟩ := h.sets []
    have hlogin := h.login [] [] u u hu rfl
    obtain ⟨v, -, hv⟩ := Except.bind_eq_ok_iff.mp hu
    obtain rfl := Except.ok.inj hv
    refine ⟨fun hcolon => ?_, fun hcolon => ?_⟩
    · rw [login_of_colon (.inl hcolon)] at hlogin
      cases hlogin
    · rw [login_of_colon (.inr hcolon)] at hlogin
      cases hlogin
  · rintro ⟨hemail, hrealm⟩
    have hrun : ∀ {password : Text} {ops : List Op} {u t : User}, setPassword ⟨email, realm, password⟩ p = .ok u →
        run p u ops = .ok t → t = hashed email realm p := by
      intro password ops u t hu ht
      rw [setPassword_hashed hemail hrealm hp] at hu
      obtain rfl := Except.ok.inj hu
      exact run_hashed hemail hrealm hp ht
    refine ⟨fun password => ⟨_, setPassword_hashed hemail hrealm hp⟩, ?_, ?_⟩
    · intro password ops u t others hu ht hne hne' hothers
      rw [hrun hu ht] at hothers ⊢
      exact ⟨_, by rw [saveLoad_hashed, if_pos (hashed_meetsSchema hne hne' hothers)]⟩
    · intro password ops u t hu ht
      rw [hrun hu ht, login_hashed hemail hrealm]
      have hsame : sha256Hex (passwordText email realm x) = sha256Hex (passwordText email realm p) ↔ x = p := by
        refine ⟨fun h => ?_, fun h => by rw [h]⟩
        exact passwordText_inj.mp (utf8_injective (hsha (Sha256.hexdigest_injective h)))
      simp only [hsame]

theorem login_iff_ann : LogsIn "ann@uvn".toList "uvn".toList "a:b".toList "a".toList :=
  (login_iff (by decide) fun h => absurd h (by decide +kernel)).mpr ⟨by decide, by decide⟩

/-- The user of a realm with a colon cannot log in with the password it has set. -/
theorem login_fails :
    (setPassword ⟨"ann".toList, "uvn:a".toList, []⟩ "secret".toList >>= fun u => u.login "secret".toList) =
      .error (.value "too many values to unpack (expected 4)") := by
  decide +kernel

end Uno
