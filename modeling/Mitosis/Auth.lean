import Mitosis.Entity
import Mitosis.Lib.Fallible

namespace Mitosis
set_option autoImplicit true

namespace Auth

/-- The md5 digest of a password, as clients send it. -/
abbrev Md5Password := BitVec 128

/-- A row of `users`, as far as the sessions of its owner are concerned. -/
structure UserModel where
  username : String
  encryptedPassword : String
  authSignature : Option Int
  currentSignInAt : Option Instant
  lastSignInAt : Option Instant
  currentSignInIp : Option String
  lastSignInIp : Option String
  updatedAt : Instant
  state : UserState
  deriving DecidableEq

/-- What a token carries. Only the coordinator can sign one. -/
structure TokenClaims where
  sub : String
  exp : Instant
  sign : Int
  deriving DecidableEq

/-- The password hashing of the argon2 crate: `hash_password` with a given salt, and
`PasswordHash::new` followed by `verify_password`. -/
structure Argon2 where
  hashPassword : Md5Password → Nat → Except Error String
  verifyPassword : Md5Password → String → Except Error Bool

structure Accounts where
  users : Table UserId UserModel
  nextSalt : Nat
  nextSign : Nat
  clock : Instant

inductive Cmd where
  | userByName (username : String)
  | userById (id : UserId)
  | drawSalt
  | drawSign
  | now
  | signIn (user : UserId × UserModel) (sign : Int) (now : Instant) (ip : String)
  | changePassword (user : UserId × UserModel) (passwordHash : String) (sign : Int)
      (now : Instant) (ip : String)
  | resetPassword (user : UserId × UserModel) (passwordHash : String) (sign : Int)
      (now : Instant)

namespace Cmd

abbrev Ret : Cmd → Type
  | userByName _ => Option (UserId × UserModel)
  | userById _ => Option (UserId × UserModel)
  | drawSalt => Nat
  | drawSign => Int
  | now => Instant
  | signIn _ _ _ _ => UserModel
  | changePassword _ _ _ _ _ => UserModel
  | resetPassword _ _ _ _ => UserModel

abbrev Resp (c : Cmd) : Type := Except Error c.Ret

/-- The columns that a login sets, those of the previous login from the row it read. -/
def signedIn (user : UserModel) (sign : Int) (now : Instant) (ip : String) (row : UserModel) :
    UserModel :=
  { row with
    authSignature := some sign
    currentSignInAt := some now
    lastSignInAt := user.currentSignInAt
    currentSignInIp := some ip
    lastSignInIp := user.currentSignInIp
    updatedAt := now }

def update (fault : Option DbErr) (s : Accounts) (id : UserId) (f : UserModel → UserModel) :
    Except Error UserModel × Accounts :=
  match fault, s.users.find id with
  | some e, _ => (.error (.dbError e), s)
  | none, none => (.error (.dbError .recordNotUpdated), s)
  | none, some row => (.ok (f row), { s with users := s.users.update id f })

def exec (_ : Nat) (fault : Option DbErr) (s : Accounts) : (c : Cmd) → Option (c.Resp × Accounts)
  | userByName username => some (match fault with
    | some e => (.error (.dbError e), s)
    | none => (.ok (s.users.findWhere fun _ u => u.username = username), s))
  | userById id => some (match fault with
    | some e => (.error (.dbError e), s)
    | none => (.ok ((s.users.find id).map fun u => (id, u)), s))
  | drawSalt => some (.ok s.nextSalt, { s with nextSalt := s.nextSalt + 1 })
  | drawSign => some (.ok s.nextSign, { s with nextSign := s.nextSign + 1 })
  | now => some (.ok s.clock, s)
  | signIn user sign time ip => some (update fault s user.1 (signedIn user.2 sign time ip))
  | changePassword user passwordHash sign time ip => some (update fault s user.1 fun row =>
      { signedIn user.2 sign time ip row with encryptedPassword := passwordHash })
  | resetPassword user passwordHash sign time => some (update fault s user.1 fun row =>
      { row with encryptedPassword := passwordHash, authSignature := some sign, updatedAt := time })

end Cmd

abbrev Service (α : Type) : Type := Fallible Cmd Cmd.Ret Error α

open Fallible hiding issue

abbrev issue (c : Cmd) : Service c.Ret := Fallible.issue c

def generateToken (tokenExpiresIn : Nat) (username : String) (sign : Int) (now : Instant) :
    TokenClaims := ⟨username, now + tokenExpiresIn, sign⟩

section
variable (argon2 : Argon2) (tokenExpiresIn : Nat)

def loginSign (user : UserModel) (retain : Bool) : Service Int :=
  match retain, user.authSignature with
  | true, some sign => pure sign
  | _, _ => issue .drawSign

def userLogin (username : String) (md5Password : Md5Password) (retain : Bool) (ip : String) :
    Service TokenClaims := do
  match ← issue (.userByName username) with
  | some user =>
    if user.2.state ≠ .active then fail (.authError .permissionDenied)
    else
      let verified ← ofExcept (argon2.verifyPassword md5Password user.2.encryptedPassword)
      if verified then
        let sign ← loginSign user.2 retain
        let now ← issue .now
        let token := generateToken tokenExpiresIn username sign now
        let _ ← issue (.signIn user sign now ip)
        return token
      else fail (.authError .wrongCredentials)
  | none => fail (.authError .wrongCredentials)

def userChangePassword (userId : UserId) (ip : String) (username : String)
    (oldMd5Password newMd5Password : Md5Password) : Service TokenClaims := do
  let user ← issue (.userById userId)
  let user ← okOr (.apiError (.notFound "User not found")) user
  if user.2.username ≠ username then fail (.authError .wrongCredentials)
  else if user.2.state ≠ .active then fail (.authError .permissionDenied)
  else
    let verified ← ofExcept (argon2.verifyPassword oldMd5Password user.2.encryptedPassword)
    if verified then
      let salt ← issue .drawSalt
      let passwordHash ← ofExcept (argon2.hashPassword newMd5Password salt)
      let sign ← issue .drawSign
      let now ← issue .now
      let token := generateToken tokenExpiresIn username sign now
      let _ ← issue (.changePassword user passwordHash sign now ip)
      return token
    else fail (.authError .wrongCredentials)

def adminChangePassword (username : String) (newMd5Password : Md5Password) : Service Unit := do
  let user ← issue (.userByName username)
  let user ← okOr (.apiError (.notFound "User not found")) user
  let salt ← issue .drawSalt
  let passwordHash ← ofExcept (argon2.hashPassword newMd5Password salt)
  let now ← issue .now
  let sign ← issue .drawSign
  let _ ← issue (.resetPassword user passwordHash sign now)
  return ()

inductive Call where
  | userLogin (username : String) (md5Password : Md5Password) (retain : Bool) (ip : String)
  | userChangePassword (userId : UserId) (ip username : String)
      (oldMd5Password newMd5Password : Md5Password)
  | adminChangePassword (username : String) (newMd5Password : Md5Password)

def program : Call → Prog Cmd Cmd.Resp (Flow (Except Error (Option TokenClaims)))
  | .userLogin username md5Password retain ip =>
    once some (Auth.userLogin argon2 tokenExpiresIn username md5Password retain ip)
  | .userChangePassword userId ip username oldMd5Password newMd5Password =>
    once some (Auth.userChangePassword argon2 tokenExpiresIn userId ip username oldMd5Password
      newMd5Password)
  | .adminChangePassword username newMd5Password =>
    once (fun _ => none) (Auth.adminChangePassword argon2 username newMd5Password)

/-- Sessions on the accounts. The environment lets time pass. -/
def system : System Accounts Cmd Cmd.Resp Call (Except Error (Option TokenClaims))
    (Option DbErr) Unit where
  program := program argon2 tokenExpiresIn
  exec := Cmd.exec
  env _ s := some { s with clock := s.clock + 1 }

end

abbrev State := Sessions Accounts Cmd Cmd.Resp Call (Except Error (Option TokenClaims))

def initial (s : Accounts) : State := ⟨s, [], []⟩

/-- `user_auth` of a token whose signature by the coordinator is valid. -/
def userAuth (s : Accounts) (claims : TokenClaims) : Except AuthError (UserId × UserModel) :=
  if claims.exp < s.clock then .error .wrongCredentials
  else
    match s.users.findWhere fun _ u => u.username = claims.sub with
    | none => .error .wrongCredentials
    | some user =>
      if user.2.state ≠ .active then .error .permissionDenied
      else if user.2.authSignature ≠ some claims.sign then .error .wrongCredentials
      else .ok user

/-- What the coordinator signs tokens with: the lifetime of tokens in `SERVER_CONFIG`, the
signing by `ENCODING_KEY`, both present once they were set, and how lifetimes are shown. -/
structure TokenConfig (Token : Type) where
  tokenExpiresIn : Option Nat
  encodeToken : Option (TokenClaims → Except Error Token)
  formatDuration : Nat → String

section
variable (config : TokenConfig Token)

def maxInstant : Instant := 253402300799

/-- The lifetime in seconds that a worker asks for must fit in `time::Duration`. -/
def tokenTtl : Option Nat → Except Error Nat
  | some ttl =>
    if ttl < 2 ^ 63 then .ok ttl
    else .error (.apiError (.invalidRequest s!"Invalid lifetime {config.formatDuration ttl}"))
  | none => config.tokenExpiresIn.elim (.error (.custom "server config not found")) .ok

def generateWorkerToken (username : String) (sign : Int) (lifetime : Option Nat) (now : Instant) :
    Except Error Token := do
  let tokenTtl ← tokenTtl config lifetime
  -- The addition panics, which the server answers like an internal error.
  if maxInstant < now + tokenTtl then .error (.custom "resulting value is out of range")
  else
    match config.encodeToken with
    | none => .error (.custom "encoding key not found")
    | some encodeToken => encodeToken ⟨username, now + tokenTtl, sign⟩

end

end Auth
end Mitosis
