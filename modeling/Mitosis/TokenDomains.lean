import Mitosis.Auth
import Mitosis.Proof.WorkerRows
import Mitosis.Registry

namespace Mitosis
set_option autoImplicit true

namespace TokenDomains
open Auth (TokenClaims TokenConfig generateToken generateWorkerToken)

/-- A row of `users`, as far as tokens are concerned. -/
structure UserModel where
  username : String
  admin : Bool
  state : UserState
  authSignature : Option Int
  deriving DecidableEq

/-- What a worker was registered as, and when. -/
structure Registration where
  uuid : Uuid
  time : Instant
  deriving DecidableEq

/-- The accounts and the workers, by the uuid in their rows. The registrations are kept also of the
workers that have been removed, since their tokens stay in the world. -/
structure Principals where
  users : Table UserId UserModel
  userSeq : UserId
  workers : Table WorkerId Uuid
  workerSeq : WorkerId
  registered : Table WorkerId Registration
  clock : Instant

/-- What the handlers do to the rows that the verifiers read. -/
inductive Act where
  | createUser (username : String) (admin : Bool)
  | signIn (id : UserId) (sign : Int)
  | changeUserState (id : UserId) (state : UserState)
  | registerWorker (uuid : Uuid)
  | removeWorker (id : WorkerId)
  | tick

/-- A user has a name that passes `name_validator` and that no other user has. A login and a
change of the password replace the signature; the uuid of a worker is unique. -/
def step (s : Principals) : Act → Option Principals
  | .createUser username admin =>
    if Registry.Service.nameValidator username &&
        (s.users.findWhere fun _ u => u.username = username).isNone then
      some { s with
        users := s.users.set s.userSeq ⟨username, admin, .active, none⟩
        userSeq := s.userSeq + 1 }
    else none
  | .signIn id sign =>
    some { s with users := s.users.update id fun u => { u with authSignature := some sign } }
  | .changeUserState id state =>
    some { s with users := s.users.update id fun u => { u with state } }
  | .registerWorker uuid =>
    if (s.workers.findWhere fun _ u => u = uuid).isNone then
      some { s with
        workers := s.workers.set s.workerSeq uuid
        workerSeq := s.workerSeq + 1
        registered := s.registered.set s.workerSeq ⟨uuid, s.clock⟩ }
    else none
  | .removeWorker id => some { s with workers := s.workers.erase id }
  | .tick => some { s with clock := s.clock + 1 }

/-- The accounts that the sessions of `Auth` work on. -/
structure Principals.Shows (s : Principals) (a : Auth.Accounts) : Prop where
  clock : s.clock = a.clock
  users : ∀ id, (s.users.find id).map (fun u => (u.username, u.state, u.authSignature)) =
    (a.users.find id).map fun u => (u.username, u.state, u.authSignature)

theorem shows_signIn {s : Principals} {a : Auth.Accounts} (h : s.Shows a)
    {f : Auth.UserModel → Auth.UserModel} (hf : ∀ u, (f u).username = u.username ∧
      (f u).state = u.state ∧ (f u).authSignature = some sign) (id : UserId) :
    ∃ s', step s (.signIn id sign) = some s' ∧ s'.Shows { a with users := a.users.update id f } := by
  refine ⟨_, rfl, h.clock, fun id' => ?_⟩
  have hu := h.users id'
  simp only [Table.find_update]
  split
  next =>
    cases ha : a.users.find id' with
    | none =>
      rw [ha, Option.map_none, Option.map_eq_none_iff] at hu
      rw [hu]
      rfl
    | some row =>
      rw [ha] at hu
      obtain ⟨u, hs, he⟩ := Option.map_eq_some_iff.1 hu
      obtain ⟨hn, hst, hsign⟩ := hf row
      rw [Prod.mk.injEq, Prod.mk.injEq] at he
      obtain ⟨hun, hust, -⟩ := he
      rw [hs]
      show some (u.username, u.state, some sign) =
        some ((f row).username, (f row).state, (f row).authSignature)
      rw [hn, hst, hsign, hun, hust]
  next => exact hu

/-- A statement of a login or of a change of the password is a step, or leaves the rows. -/
theorem shows_exec {s : Principals} {a a' : Auth.Accounts} {c : Auth.Cmd} {r : c.Resp}
    (h : s.Shows a) (hx : c.exec i fault a = some (r, a')) :
    ∃ acts s', Path step (fun _ _ => True) s acts s' ∧ s'.Shows a' := by
  have hsame : a'.clock = a.clock → a'.users = a.users →
      ∃ acts s', Path step (fun _ _ => True) s acts s' ∧ s'.Shows a' := by
    intro hc hu
    exact ⟨[], s, .nil, hc ▸ h.clock, hu ▸ h.users⟩
  have hupdate : ∀ id sign (f : Auth.UserModel → Auth.UserModel), (∀ u,
      (f u).username = u.username ∧ (f u).state = u.state ∧ (f u).authSignature = some sign) →
      (Auth.Cmd.update fault a id f).2 = a' →
      ∃ acts s', Path step (fun _ _ => True) s acts s' ∧ s'.Shows a' := by
    intro id sign f hf he
    unfold Auth.Cmd.update at he
    split at he
    next =>
      subst he
      exact hsame rfl rfl
    next =>
      subst he
      exact hsame rfl rfl
    next =>
      obtain ⟨s', hs, hshows⟩ := shows_signIn h hf id
      subst he
      exact ⟨_, s', .snoc .nil trivial hs, hshows⟩
  cases c with
  | signIn user sign | changePassword user _ sign | resetPassword user _ sign =>
    refine hupdate user.1 sign _ ?_ (congrArg Prod.snd (Option.some.inj hx))
    exact fun u => ⟨rfl, rfl, rfl⟩
  | userByName | userById =>
    cases fault <;>
    · obtain ⟨⟩ := hx
      exact hsame rfl rfl
  | drawSalt | drawSign | now =>
    obtain ⟨⟩ := hx
    exact hsame rfl rfl

/-- Every run of the sessions on the accounts is a run of the principals. -/
theorem sessions_shown {s : Principals} (h : s.Shows a)
    (hp : Path (Sessions.step (Auth.system argon2 tokenExpiresIn)) ok (Auth.initial a) as st) :
    ∃ acts s', Path step (fun _ _ => True) s acts s' ∧ s'.Shows st.shared := by
  induction hp with
  | nil => exact ⟨[], s, .nil, h⟩
  | snoc _ _ hs ih =>
    obtain ⟨acts, s', hpath, hshows⟩ := ih
    cases Sessions.step_cases hs with
    | call => exact ⟨acts, s', hpath, hshows⟩
    | env hx =>
      obtain ⟨⟩ := hx
      exact ⟨_, _, hpath.snoc trivial (a := .tick) rfl, congrArg (· + 1) hshows.clock, hshows.users⟩
    | step _ hx =>
      dsimp only [Auth.system] at hx
      obtain ⟨acts', s'', hpath', hshows'⟩ := shows_exec hshows hx
      exact ⟨_, s'', hpath.trans hpath', hshows'⟩

/-- The workers in the coordinator's database. -/
structure Principals.Employs (s : Principals) (db : Db) : Prop where
  seq : s.workerSeq = db.workerSeq
  rows : ∀ w, s.workers.find w = (db.workers.find w).map Worker.workerId

theorem removes_path (s : Principals) (ws : List WorkerId) :
    ∃ s', Path step (fun _ _ => True) s (ws.map .removeWorker) s' ∧ s'.workerSeq = s.workerSeq ∧
      ∀ w, s'.workers.find w = if w ∈ ws then none else s.workers.find w := by
  induction ws using List.reverseRecOn with
  | nil => exact ⟨s, .nil, rfl, fun w => (if_neg List.not_mem_nil).symm⟩
  | append_singleton ws w ih =>
    obtain ⟨s', hp, hseq, hrows⟩ := ih
    refine ⟨{ s' with workers := s'.workers.erase w }, ?_, hseq, ?_⟩
    · rw [List.map_append]
      exact hp.snoc trivial rfl
    · intro w'
      simp only [Table.find_erase, hrows, List.mem_append, List.mem_singleton]
      by_cases hw : w' = w
      · rw [if_pos hw, if_pos (.inr hw)]
      · simp only [hw, if_false, or_false]

/-- The workers that a write takes away. -/
def gone (s : Principals) (db' : Db) : List WorkerId :=
  s.workers.keys.filter fun w => (db'.workers.find w).isNone

theorem mem_gone {s : Principals} {db' : Db} (hw : s.workers.find w = some uuid) :
    w ∈ gone s db' ↔ db'.workers.find w = none := by
  rw [gone, List.mem_filter, Option.isNone_iff_eq_none]
  exact and_iff_right (Table.mem_keys.2 ⟨_, hw⟩)

theorem rows_without_gone {s : Principals} {db db' : Db} {q : Write} {r : q.Ret}
    (h : s.Employs db) (hq : q.run clock db = .ok (r, db')) (hins : q.newWorkers = 0)
    (w : WorkerId) : (if w ∈ gone s db' then none else s.workers.find w) =
      (db'.workers.find w).map Worker.workerId := by
  have hc := Write.workerChange hq w
  cases hs : s.workers.find w with
  | none =>
    have hrow := h.rows w
    rw [hs, eq_comm, Option.map_eq_none_iff] at hrow
    rw [hrow] at hc
    generalize db'.workers.find w = row' at hc
    cases hc with
    | same => exact ite_self _
    | inserted => cases hins
  | some uuid =>
    have hrow := h.rows w
    rw [hs, eq_comm] at hrow
    obtain ⟨row, hdb, rfl⟩ := Option.map_eq_some_iff.1 hrow
    cases hdb' : db'.workers.find w with
    | none => exact if_pos ((mem_gone hs).2 hdb')
    | some row' =>
      have hm : w ∉ gone s db' := by
        rw [mem_gone hs, hdb']
        exact Option.some_ne_none _
      rw [if_neg hm]
      rw [hdb, hdb'] at hc
      cases hc with
      | inserted => cases hins
      | same | linked | committed | retagged | kept => rfl

/-- A write removes some workers or, with a new uuid, registers one. -/
theorem employs_write {s : Principals} {db db' : Db} {q : Write} {r : q.Ret} (h : s.Employs db)
    (hq : q.run clock db = .ok (r, db'))
    (hfresh : ∀ workerId creatorId tags labels now,
      q = .insertWorker workerId creatorId tags labels now →
        ∀ w, s.workers.find w ≠ some workerId) :
    ∃ acts s', Path step (fun _ _ => True) s acts s' ∧ s'.Employs db' := by
  by_cases hins : q.newWorkers = 0
  · obtain ⟨s', hp, hseq, hrows⟩ := removes_path s (gone s db')
    refine ⟨_, s', hp, ?_, ?_⟩
    · rw [hseq, h.seq, (Write.sequences hq).2, hins, Nat.add_zero]
    · intro w
      rw [hrows, rows_without_gone h hq hins]
  · cases q with
    | insertWorker workerId creatorId tags labels now =>
      have hnone : (s.workers.findWhere fun _ u => u = workerId).isNone = true := by
        cases hf : s.workers.findWhere fun _ u => u = workerId with
        | none => rfl
        | some found =>
          obtain ⟨hw, hu⟩ := Table.findWhere_some hf
          exact (hfresh _ _ _ _ _ rfl found.1 (of_decide_eq_true hu ▸ hw)).elim
      obtain ⟨⟩ := hq
      refine ⟨[.registerWorker workerId], _, .snoc .nil trivial (if_pos hnone), ?_, ?_⟩
      · exact congrArg (· + 1) h.seq
      · intro w
        show (s.workers.set s.workerSeq workerId).find w = _
        simp only [Table.find_set, h.seq, h.rows]
        split <;> rfl
    | _ => exact (hins rfl).elim

def initial (clock : Instant) : Principals := ⟨.empty, 1, .empty, 1, .empty, clock⟩

/-- The tokens and the uuids of the crates: `encode_token` and `verify_token` with the keys of
the coordinator, `Uuid::parse_str` and `to_string`. -/
structure Tokens (Token : Type) where
  tokenExpiresIn : Nat
  encodeToken : TokenClaims → Except Error Token
  verifyToken : Instant → Token → Except Error TokenClaims
  formatDuration : Nat → String
  parseStr : String → Option Uuid
  uuidToString : Uuid → String

namespace Tokens
variable (x : Tokens Token)

def config : TokenConfig Token := ⟨some x.tokenExpiresIn, some x.encodeToken, x.formatDuration⟩

def IsUserToken (user : UserModel) (made : Instant) (token : Token) : Prop :=
  ∃ sign, x.encodeToken (generateToken x.tokenExpiresIn user.username sign made) = .ok token

def IsWorkerToken (uuid : Uuid) (made : Instant) (token : Token) : Prop :=
  ∃ lifetime, generateWorkerToken x.config (x.uuidToString uuid) 0 lifetime made = .ok token

def checkUser (user : UserId × UserModel) (claims : TokenClaims) :
    Except AuthError (UserId × UserModel) :=
  if user.2.state ≠ .active then .error .permissionDenied
  else if user.2.authSignature ≠ some claims.sign then .error .wrongCredentials
  else .ok user

/-- What `user_auth` and `admin_auth` have in common. -/
def findUser (s : Principals) (fault : Option DbErr) (token : Token) :
    Except AuthError (TokenClaims × UserId × UserModel) :=
  match x.verifyToken s.clock token with
  | .error _ => .error .invalidToken
  | .ok claims =>
    if claims.exp < s.clock then .error .wrongCredentials
    else
      match fault, s.users.findWhere fun _ u => u.username = claims.sub with
      | none, some user => .ok (claims, user)
      | _, _ => .error .wrongCredentials

def userAuth (s : Principals) (fault : Option DbErr) (token : Token) :
    Except AuthError (UserId × UserModel) := do
  let (claims, user) ← x.findUser s fault token
  checkUser user claims

def adminAuth (s : Principals) (fault : Option DbErr) (token : Token) : Except AuthError UserId := do
  let (claims, user) ← x.findUser s fault token
  if user.2.admin then
    let user ← checkUser user claims
    return user.1
  else .error .permissionDenied

def workerAuth (s : Principals) (fault : Option DbErr) (token : Token) :
    Except AuthError (WorkerId × Uuid) :=
  match x.verifyToken s.clock token with
  | .error _ => .error .invalidToken
  | .ok claims =>
    match x.parseStr claims.sub with
    | none => .error .invalidToken
    | some uuid =>
      match fault, s.workers.findWhere fun _ u => u = uuid with
      | none, some worker => .ok (worker.1, uuid)
      | _, _ => .error .wrongCredentials

/-- The verifiers tell the tokens of users and of workers apart, those of removed workers
included. -/
structure Separate (s : Principals) : Prop where
  users : ∀ id user made token, s.users.find id = some user → made ≤ s.clock →
    x.IsUserToken user made token → ∀ fault worker, x.workerAuth s fault token ≠ .ok worker
  workers : ∀ id r made token, s.registered.find id = some r → r.time ≤ made → made ≤ s.clock →
    x.IsWorkerToken r.uuid made token → ∀ fault, (∀ user, x.userAuth s fault token ≠ .ok user) ∧
      (∀ user, x.adminAuth s fault token ≠ .ok user) ∧
      ∀ worker, x.workerAuth s fault token = .ok worker → worker = (id, r.uuid)

/-- When the rows leave the verifiers no choice. -/
structure Apart (s : Principals) : Prop where
  /-- No user has a name that is read as the uuid of a worker. -/
  names : ∀ id user w uuid, s.users.find id = some user → s.workers.find w = some uuid →
    x.parseStr user.username ≠ some uuid
  /-- No active user named like a worker that was ever registered has the signature of its token. -/
  signatures : ∀ id user w r, s.users.find id = some user → s.registered.find w = some r →
    user.username = x.uuidToString r.uuid → user.state = .active → user.authSignature ≠ some 0
  /-- No worker has the uuid of another one that was removed. -/
  uuids : ∀ w r w', s.registered.find w = some r → s.workers.find w' = some r.uuid → w' = w

variable {x : Tokens Token} {s : Principals}

theorem bind_ok {y : Except ε α} {f : α → Except ε β} (h : y >>= f = .ok b) :
    ∃ a, y = .ok a ∧ f a = .ok b := by
  cases y with
  | error e => cases h
  | ok a => exact ⟨a, rfl, h⟩

theorem findUser_ok (h : x.findUser s fault token = .ok (claims, user)) :
    x.verifyToken s.clock token = .ok claims ∧ s.users.find user.1 = some user.2 ∧
      user.2.username = claims.sub := by
  unfold findUser at h
  split at h
  next => cases h
  next claims' hv =>
    split at h
    next => cases h
    next =>
      split at h
      next u hf =>
        obtain ⟨⟩ := h
        obtain ⟨hu, hn⟩ := Table.findWhere_some hf
        exact ⟨hv, hu, of_decide_eq_true hn⟩
      next => cases h

theorem checkUser_ok (h : checkUser user claims = .ok user') :
    user.2.state = .active ∧ user.2.authSignature = some claims.sign := by
  unfold checkUser at h
  split at h
  next => cases h
  next hstate =>
    split at h
    next => cases h
    next hsign => exact ⟨not_not.1 hstate, not_not.1 hsign⟩

theorem userAuth_ok (h : x.userAuth s fault token = .ok user) :
    ∃ claims found, x.findUser s fault token = .ok (claims, found) ∧
      found.2.state = .active ∧ found.2.authSignature = some claims.sign := by
  obtain ⟨⟨claims, found⟩, hf, hc⟩ := bind_ok h
  exact ⟨claims, found, hf, checkUser_ok hc⟩

theorem adminAuth_ok (h : x.adminAuth s fault token = .ok user) :
    ∃ claims found, x.findUser s fault token = .ok (claims, found) ∧
      found.2.state = .active ∧ found.2.authSignature = some claims.sign := by
  obtain ⟨⟨claims, found⟩, hf, h⟩ := bind_ok h
  dsimp only at h
  cases hadmin : found.2.admin with
  | true =>
    rw [hadmin, if_pos rfl] at h
    obtain ⟨found', hc, -⟩ := bind_ok h
    exact ⟨claims, found, hf, checkUser_ok hc⟩
  | false =>
    rw [hadmin, if_neg Bool.false_ne_true] at h
    cases h

theorem workerAuth_ok (h : x.workerAuth s fault token = .ok worker) :
    ∃ claims, x.verifyToken s.clock token = .ok claims ∧
      x.parseStr claims.sub = some worker.2 ∧ s.workers.find worker.1 = some worker.2 := by
  unfold workerAuth at h
  split at h
  next => cases h
  next claims hv =>
    split at h
    next => cases h
    next uuid hp =>
      split at h
      next found hf =>
        obtain ⟨⟩ := h
        obtain ⟨hw, hu⟩ := Table.findWhere_some hf
        obtain rfl := of_decide_eq_true hu
        exact ⟨claims, hv, hp, hw⟩
      next => cases h

theorem isWorkerToken_claims (h : x.IsWorkerToken uuid made token) :
    ∃ claims, x.encodeToken claims = .ok token ∧ claims.sub = x.uuidToString uuid ∧
      claims.sign = 0 := by
  obtain ⟨lifetime, h⟩ := h
  obtain ⟨ttl, -, h⟩ := bind_ok h
  split at h
  next => cases h
  next => exact ⟨_, h, rfl, rfl⟩

theorem isWorkerToken_until (hm : made ≤ exp) (hexp : exp ≤ Auth.maxInstant)
    (h : x.encodeToken ⟨x.uuidToString uuid, exp, 0⟩ = .ok token) :
    x.IsWorkerToken uuid made token := by
  have hadd : made + (exp - made) = exp := Nat.add_sub_of_le hm
  have httl : exp - made < 2 ^ 63 := by
    have hmax : Auth.maxInstant < 2 ^ 63 := by decide
    exact Nat.lt_of_le_of_lt ((Nat.sub_le _ _).trans hexp) hmax
  refine ⟨some (exp - made), ?_⟩
  unfold generateWorkerToken
  rw [Auth.tokenTtl, if_pos httl]
  show (if Auth.maxInstant < made + (exp - made) then _ else _) = _
  rw [hadd, if_neg (Nat.not_lt.2 hexp)]
  exact h

/-- A present worker whose uuid the subject is read as is found. -/
theorem workerAuth_of {claims : TokenClaims} (hv : x.verifyToken s.clock token = .ok claims)
    (hread : x.parseStr claims.sub = some uuid) (hw : s.workers.find w = some uuid) :
    ∃ w', x.workerAuth s none token = .ok (w', uuid) := by
  unfold workerAuth
  rw [hv]
  dsimp only
  rw [hread]
  cases hf : s.workers.findWhere fun _ u => u = uuid with
  | none =>
    have hne := Table.findWhere_none hf hw
    rw [decide_eq_false_iff_not] at hne
    exact (hne rfl).elim
  | some worker =>
    refine ⟨worker.1, ?_⟩
    simp only [hf]

theorem userAuth_of {claims : TokenClaims} (hv : x.verifyToken s.clock token = .ok claims)
    (hexp : s.clock ≤ claims.exp)
    (hfind : (s.users.findWhere fun _ u => u.username = claims.sub) = some user)
    (hactive : user.2.state = .active) (hsign : user.2.authSignature = some claims.sign) :
    x.userAuth s none token = .ok user := by
  have hf : x.findUser s none token = .ok (claims, user) := by
    unfold findUser
    rw [hv]
    simp only [hfind, if_neg (Nat.not_lt.2 hexp)]
  unfold userAuth checkUser
  rw [hf]
  show (if _ then _ else if _ then _ else _) = _
  rw [if_neg (not_not.2 hactive), if_neg (not_not.2 hsign)]

end Tokens

/-- No two rows of the table have the same value. -/
def Distinct [DecidableEq κ] (t : Table κ ρ) (f : ρ → α) : Prop :=
  ∀ k k' r r', t.find k = some r → t.find k' = some r' → f r = f r' → k = k'

namespace Distinct
variable [DecidableEq κ] {t : Table κ ρ} {f : ρ → α}

theorem set [DecidableEq α] (h : Distinct t f)
    (hn : (t.findWhere fun _ r' => f r' = f r).isNone = true) (k : κ) : Distinct (t.set k r) f := by
  have hnew : ∀ k r', t.find k = some r' → f r' ≠ f r := by
    intro k r' hk
    have hne := Table.findWhere_none (Option.isNone_iff_eq_none.1 hn) hk
    rwa [decide_eq_false_iff_not] at hne
  intro k₁ k₂ r₁ r₂ h₁ h₂ he
  rw [Table.find_set] at h₁ h₂
  split at h₁ <;> split at h₂
  next hk hk' => rw [hk, hk']
  next =>
    obtain rfl := Option.some.inj h₁
    exact (hnew k₂ r₂ h₂ he.symm).elim
  next =>
    obtain rfl := Option.some.inj h₂
    exact (hnew k₁ r₁ h₁ he).elim
  next => exact h k₁ k₂ r₁ r₂ h₁ h₂ he

theorem erase (h : Distinct t f) (k : κ) : Distinct (t.erase k) f := by
  intro k₁ k₂ r₁ r₂ h₁ h₂ he
  rw [Table.find_erase] at h₁ h₂
  split at h₁
  next => cases h₁
  next =>
    split at h₂
    next => cases h₂
    next => exact h k₁ k₂ r₁ r₂ h₁ h₂ he

theorem update (h : Distinct t f) (k : κ) {g : ρ → ρ} (hg : ∀ r, f (g r) = f r) :
    Distinct (t.update k g) f := by
  have hrow : ∀ k' r, (t.update k g).find k' = some r → ∃ r', t.find k' = some r' ∧ f r = f r' := by
    intro k' r hr
    rw [Table.find_update] at hr
    split at hr
    next =>
      obtain ⟨r', hr', rfl⟩ := Option.map_eq_some_iff.1 hr
      exact ⟨r', hr', hg r'⟩
    next => exact ⟨r, hr, rfl⟩
  intro k₁ k₂ r₁ r₂ h₁ h₂ he
  obtain ⟨r₁', h₁, e₁⟩ := hrow k₁ r₁ h₁
  obtain ⟨r₂', h₂, e₂⟩ := hrow k₂ r₂ h₂
  exact h k₁ k₂ r₁' r₂' h₁ h₂ (e₁.symm.trans (he.trans e₂))

end Distinct

/-- The unique columns, and the times of the registrations. -/
structure Principals.Sound (s : Principals) : Prop where
  names : Distinct s.users UserModel.username
  uuids : Distinct s.workers id
  times : ∀ w r, s.registered.find w = some r → r.time ≤ s.clock

theorem sound_step {s s' : Principals} (h : s.Sound) (hs : step s a = some s') : s'.Sound := by
  cases a with
  | createUser username admin =>
    rw [step] at hs
    split at hs
    next hn =>
      obtain ⟨⟩ := hs
      exact { h with names := h.names.set (Bool.and_eq_true_iff.1 hn).2 _ }
    next => cases hs
  | signIn id sign =>
    obtain ⟨⟩ := hs
    exact { h with names := h.names.update id fun _ => rfl }
  | changeUserState id state =>
    obtain ⟨⟩ := hs
    exact { h with names := h.names.update id fun _ => rfl }
  | registerWorker uuid =>
    rw [step] at hs
    split at hs
    next hn =>
      obtain ⟨⟩ := hs
      refine ⟨h.names, h.uuids.set hn _, fun w r hr => ?_⟩
      rw [Table.find_set] at hr
      split at hr
      next =>
        obtain rfl := Option.some.inj hr
        exact Nat.le_refl _
      next => exact h.times w r hr
    next => cases hs
  | removeWorker w =>
    obtain ⟨⟩ := hs
    exact { h with uuids := h.uuids.erase w }
  | tick =>
    obtain ⟨⟩ := hs
    exact ⟨h.names, h.uuids, fun w r hr => Nat.le_succ_of_le (h.times w r hr)⟩

theorem sound_of_path {s : Principals} (hp : Path step ok (initial clock) as s) : s.Sound := by
  apply hp.invariant
  · refine ⟨?_, ?_, ?_⟩
    · intro _ _ _ _ hu
      cases hu
    · intro _ _ _ _ hw
      cases hw
    · intro _ _ hr
      cases hr
  · intro s a s' h _ hs
    exact sound_step h hs

section
variable {x : Tokens Token} {s : Principals}

/-- In every reachable state the tokens of users and of workers are told apart if and only if the
rows keep them apart. -/
theorem token_domains (hp : Path step (fun _ _ => True) (initial clock) as s)
    (hclock : s.clock ≤ Auth.maxInstant)
    (hencode : ∀ claims, ∃ token, x.encodeToken claims = .ok token)
    (hverify : ∀ claims token now, x.encodeToken claims = .ok token → now ≤ claims.exp →
      x.verifyToken now token = .ok claims)
    (hsigned : ∀ claims claims' token now, x.encodeToken claims = .ok token →
      x.verifyToken now token = .ok claims' → claims' = claims)
    (hparse : ∀ w r, s.registered.find w = some r →
      x.parseStr (x.uuidToString r.uuid) = some r.uuid) : x.Separate s ↔ x.Apart s := by
  have hsound := sound_of_path hp
  constructor
  · intro h
    -- a token that a worker got at its registration and that is still valid
    have hissued : ∀ w r, s.registered.find w = some r → ∃ token,
        x.IsWorkerToken r.uuid r.time token ∧
          x.verifyToken s.clock token = .ok ⟨x.uuidToString r.uuid, s.clock, 0⟩ := by
      intro w r hr
      obtain ⟨token, ht⟩ := hencode ⟨x.uuidToString r.uuid, s.clock, 0⟩
      exact ⟨token, Tokens.isWorkerToken_until (hsound.times w r hr) hclock ht,
        hverify _ _ _ ht (Nat.le_refl _)⟩
    refine ⟨?names, ?signatures, ?uuids⟩
    case names =>
      intro id user w uuid hu hw hread
      obtain ⟨token, ht⟩ := hencode (generateToken x.tokenExpiresIn user.username 0 s.clock)
      have hv := hverify _ _ s.clock ht (Nat.le_add_right _ _)
      obtain ⟨w', hok⟩ := Tokens.workerAuth_of hv hread hw
      exact h.users id user s.clock token hu (Nat.le_refl _) ⟨0, ht⟩ none (w', uuid) hok
    case signatures =>
      intro id user w r hu hr hname hactive hsign
      obtain ⟨token, ht, hv⟩ := hissued w r hr
      obtain ⟨hno, -⟩ := h.workers w r r.time token hr (Nat.le_refl _) (hsound.times w r hr) ht none
      cases hf : s.users.findWhere fun _ u => u.username = x.uuidToString r.uuid with
      | none =>
        have hne := Table.findWhere_none hf hu
        rw [decide_eq_false_iff_not] at hne
        exact hne hname
      | some found =>
        obtain ⟨hu', hname'⟩ := Table.findWhere_some hf
        have hid : found.1 = id :=
          hsound.names _ _ _ _ hu' hu ((of_decide_eq_true hname').trans hname.symm)
        rw [hid] at hu'
        obtain rfl := Option.some.inj (hu.symm.trans hu')
        exact hno found (Tokens.userAuth_of hv (Nat.le_refl _) hf hactive hsign)
    case uuids =>
      intro w r w' hr hw'
      obtain ⟨token, ht, hv⟩ := hissued w r hr
      obtain ⟨-, -, hown⟩ :=
        h.workers w r r.time token hr (Nat.le_refl _) (hsound.times w r hr) ht none
      obtain ⟨w'', hok⟩ := Tokens.workerAuth_of hv (hparse w r hr) hw'
      obtain rfl : w'' = w := congrArg Prod.fst (hown _ hok)
      obtain ⟨claims, hv', -, hw''⟩ := Tokens.workerAuth_ok hok
      exact hsound.uuids _ _ _ _ hw' hw'' rfl
  · intro h
    refine ⟨?_, ?_⟩
    · rintro id user made token hu - ⟨sign, ht⟩ fault worker hok
      obtain ⟨claims, hv, hread, hw⟩ := Tokens.workerAuth_ok hok
      obtain rfl := hsigned _ _ _ _ ht hv
      exact h.names id user worker.1 worker.2 hu hw hread
    · intro id r made token hr _ _ ht fault
      obtain ⟨claims, ht, hsub, hsign⟩ := Tokens.isWorkerToken_claims ht
      -- a user verifier would have found a user with the signature zero
      have hnone : ∀ found, x.findUser s fault token = .ok found →
          found.2.2.state = .active → found.2.2.authSignature ≠ some found.1.sign := by
        rintro ⟨claims', found⟩ hf hactive hs
        obtain ⟨hv, hu, hname⟩ := Tokens.findUser_ok hf
        obtain rfl := hsigned _ _ _ _ ht hv
        rw [hsign] at hs
        exact h.signatures found.1 found.2 id r hu hr (hname.trans hsub) hactive hs
      refine ⟨fun user hok => ?_, fun user hok => ?_, fun worker hok => ?_⟩
      · obtain ⟨claims', found, hf, hactive, hs⟩ := Tokens.userAuth_ok hok
        exact hnone _ hf hactive hs
      · obtain ⟨claims', found, hf, hactive, hs⟩ := Tokens.adminAuth_ok hok
        exact hnone _ hf hactive hs
      · obtain ⟨claims', hv, hread, hw⟩ := Tokens.workerAuth_ok hok
        obtain rfl := hsigned _ _ _ _ ht hv
        rw [hsub, hparse id r hr] at hread
        obtain he := Option.some.inj hread
        exact Prod.ext (h.uuids id r worker.1 hr (he ▸ hw)) he.symm

end

namespace TokensDemo

/-- The 32 hexadecimal digits of a uuid in the groups in which they are written. -/
def uuidToString (uuid : Uuid) : String :=
  let digits := (List.range 32).map fun i => Nat.digitChar (uuid / 16 ^ (31 - i) % 16)
  String.ofList (['-'].intercalate [digits.take 8, (digits.drop 8).take 4, (digits.drop 12).take 4,
    (digits.drop 16).take 4, digits.drop 20])

def hexValue (c : Char) : Option Nat :=
  if c.isDigit then some (c.toNat - 48)
  else if 'a' ≤ c ∧ c ≤ 'f' then some (c.toNat - 87)
  else if 'A' ≤ c ∧ c ≤ 'F' then some (c.toNat - 55)
  else none

def parseStr (s : String) : Option Uuid :=
  let groups := s.toList.splitOn '-'
  if groups.map List.length = [8, 4, 4, 4, 12] ∨ groups.map List.length = [32] then
    groups.flatten.foldl (fun n c => n.bind fun n => (hexValue c).map (16 * n + ·)) (some 0)
  else none

def tokens : Tokens TokenClaims where
  tokenExpiresIn := 604800
  encodeToken := fun claims => .ok claims
  verifyToken := fun now token =>
    if token.exp < now then .error (.authError .invalidToken) else .ok token
  formatDuration := fun ttl => toString ttl
  parseStr := parseStr
  uuidToString := uuidToString

def uuid : Uuid := 0x67e5504410b1426f9247bb680e5fe0c8

def acts (name : String) : List Act := [.registerWorker uuid, .createUser name false]

def replaced : List Act :=
  acts "alice" ++ [.signIn 1 5, .tick, .removeWorker 1, .registerWorker (uuid + 1)]

def alice : UserModel := ⟨"alice", false, .active, some 5⟩

end TokensDemo

open TokensDemo in
/-- The tokens of a user with a common name are told apart from those of a removed worker and of
the one that took its place. -/
theorem token_domains_named : ∃ s, Path step (fun _ _ => True) (initial 0) replaced s ∧
    s.workers.rows = [(2, uuid + 1)] ∧ tokens.Separate s := by
  have hrun : (Path.follow step (fun _ _ => true) (initial 0) replaced).any (fun s =>
      s.workers.rows = [(2, uuid + 1)] ∧ s.users.rows = [(1, alice)] ∧
        s.registered.rows = [(1, ⟨uuid, 0⟩), (2, ⟨uuid + 1, 1⟩)] ∧ s.clock ≤ 1) = true := by
    decide +kernel
  obtain ⟨s, hp, hs⟩ := Path.of_follow_any hrun
  obtain ⟨hw, hu, hr, hclock⟩ := of_decide_eq_true hs
  have hworker : ∀ w u, s.workers.find w = some u → w = 2 ∧ u = uuid + 1 := by
    intro w u hf
    rw [← Table.mem_rows, hw] at hf
    exact Prod.mk.inj (List.mem_singleton.1 hf)
  have huser : ∀ id user, s.users.find id = some user → user = alice := by
    intro id user hf
    rw [← Table.mem_rows, hu] at hf
    exact (Prod.mk.inj (List.mem_singleton.1 hf)).2
  have hreg : ∀ w r, s.registered.find w = some r →
      w = 1 ∧ r = ⟨uuid, 0⟩ ∨ w = 2 ∧ r = ⟨uuid + 1, 1⟩ := by
    intro w r hf
    rw [← Table.mem_rows, hr, List.mem_cons, List.mem_singleton] at hf
    exact hf.imp Prod.mk.inj Prod.mk.inj
  have hp' : Path step (fun _ _ => True) (initial 0) replaced s := hp.mono fun _ _ _ => trivial
  have hmax : s.clock ≤ Auth.maxInstant := hclock.trans (by decide)
  refine ⟨s, hp', hw, (token_domains hp' hmax (fun claims => ⟨claims, rfl⟩) ?verify ?signed
    ?parse).2 ⟨?names, ?signatures, ?uuids⟩⟩
  case verify =>
    intro claims token now he hn
    obtain rfl := Except.ok.inj he
    exact if_neg (Nat.not_lt.2 hn)
  case signed =>
    intro claims claims' token now he hv
    obtain rfl := Except.ok.inj he
    simp only [tokens] at hv
    split at hv
    next => cases hv
    next => exact (Except.ok.inj hv).symm
  case parse =>
    intro w r hf
    rcases hreg w r hf with ⟨-, rfl⟩ | ⟨-, rfl⟩ <;> decide +kernel
  case names =>
    intro id user w u hf _ hread
    rw [huser id user hf] at hread
    have hn : parseStr "alice" = none := by decide +kernel
    cases hn.symm.trans hread
  case signatures =>
    intro id user w r hf _ _ _ hsign
    rw [huser id user hf] at hsign
    cases hsign
  case uuids =>
    intro w r w' hf hf'
    obtain ⟨rfl, he⟩ := hworker w' _ hf'
    rcases hreg w r hf with ⟨-, rfl⟩ | ⟨rfl, -⟩
    · exact absurd he (by decide)
    · rfl

open TokensDemo in
/-- The token of a user who is named like a worker is accepted as the worker's. -/
theorem user_accepted_as_worker : ∃ s user token, Path step (fun _ _ => True) (initial 0)
    (acts "67e55044-10b1-426f-9247-bb680e5fe0c8") s ∧ s.users.find 1 = some user ∧
    s.workers.find 1 = some uuid ∧ tokens.IsUserToken user s.clock token ∧
    tokens.workerAuth s none token = .ok (1, uuid) := by
  have hrun : (Path.follow step (fun _ _ => true) (initial 0)
      (acts "67e55044-10b1-426f-9247-bb680e5fe0c8")).any (fun s =>
        s.workers.rows = [(1, uuid)] ∧ (s.users.find 1).any fun user =>
          tokens.workerAuth s none (generateToken 604800 user.username 5 s.clock) =
            .ok (1, uuid)) = true := by decide +kernel
  obtain ⟨s, hp, hs⟩ := Path.of_follow_any hrun
  obtain ⟨hw, hs⟩ := of_decide_eq_true hs
  obtain ⟨user, hu, hok⟩ := (Option.any_eq_true _ _).1 hs
  refine ⟨s, user, _, hp.mono fun _ _ _ => trivial, hu, ?_, ⟨5, rfl⟩, of_decide_eq_true hok⟩
  rw [← Table.mem_rows, hw]
  exact List.mem_singleton_self _

end TokenDomains
end Mitosis
