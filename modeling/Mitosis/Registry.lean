import Mitosis.Auth
import Mitosis.Filter
import Mitosis.Lib.Recorded
import Mitosis.Lib.Total

namespace Mitosis
set_option autoImplicit true

namespace Registry
open Auth (Md5Password)

/-- A row of `users`, as far as the groups of the user are concerned. -/
structure UserModel where
  username : String
  encryptedPassword : String
  createdAt : Instant
  updatedAt : Instant
  admin : Bool
  groupQuota : Int
  groupCount : Int
  deriving DecidableEq

def defaultGroupQuota : Int := 8

/-- A new row of `users`, with the defaults of the schema. -/
def UserModel.new (username encryptedPassword : String) (now : Instant) (admin : Bool) :
    UserModel where
  username
  encryptedPassword
  createdAt := now
  updatedAt := now
  admin
  groupQuota := defaultGroupQuota
  groupCount := 1

structure GroupModel where
  groupName : String
  creatorId : UserId
  createdAt : Instant
  updatedAt : Instant
  deriving DecidableEq

structure Db where
  users : Table UserId UserModel
  groups : Table GroupId GroupModel
  userGroup : Table (UserId × GroupId) UserGroupRole

def Db.created (db : Db) (id : UserId) : Int :=
  db.groups.total fun _ group => if group.creatorId = id then 1 else 0

inductive Error where
  | of (e : Mitosis.Error)
  | recordNotInserted
  | alreadyExists (name : String)
  | parseInt
  deriving DecidableEq

/-- The rows and the unique names that statements lock. -/
inductive Row where
  | user (id : UserId)
  | username (name : String)
  | group (id : GroupId)
  | groupName (name : String)
  | member (userId : UserId) (groupId : GroupId)
  deriving DecidableEq

inductive Write where
  | addUser (id : UserId) (user : UserModel)
  | addGroup (id : GroupId) (group : GroupModel)
  | addMember (userId : UserId) (groupId : GroupId) (role : UserGroupRole)
  | setCount (id : UserId) (count : Int) (now : Instant)
  | setQuota (id : UserId) (quota : Int) (now : Instant)

namespace Write

def rows : Write → List Row
  | addUser id user => [.user id, .username user.username]
  | addGroup id group => [.group id, .groupName group.groupName]
  | addMember userId groupId _ => [.member userId groupId]
  | setCount id _ _ => [.user id]
  | setQuota id _ _ => [.user id]

def apply (db : Db) : Write → Db
  | addUser id user => { db with users := db.users.set id user }
  | addGroup id group => { db with groups := db.groups.set id group }
  | addMember userId groupId role =>
    { db with userGroup := db.userGroup.set (userId, groupId) role }
  | setCount id count now => { db with users := db.users.update id fun user =>
      { user with groupCount := count, updatedAt := now } }
  | setQuota id quota now => { db with users := db.users.update id fun user =>
      { user with groupQuota := quota, updatedAt := now } }

end Write

instance : RowWrite Write Db Row where
  rows := Write.rows
  apply w db := w.apply db

/-- `on_conflict(username).do_nothing()`, where nothing inserted is an error. -/
def insertUser (id : UserId) (user : UserModel) (db : Db) :
    Answer Row Write Error (UserId × UserModel) :=
  ⟨[.user id, .username user.username],
    if (db.users.find id).isSome then .error (.of (.dbError .constraint))
    else if (db.users.findWhere fun _ u => u.username = user.username).isSome then
      .error .recordNotInserted
    else .ok ((id, user), [.addUser id user])⟩

/-- `on_conflict(group_name).do_nothing()`, with the foreign key of the creator. -/
def insertGroup (id : GroupId) (group : GroupModel) (db : Db) :
    Answer Row Write Error (GroupId × GroupModel) :=
  ⟨[.group id, .groupName group.groupName],
    if (db.groups.find id).isSome then .error (.of (.dbError .constraint))
    else if (db.groups.findWhere fun _ g => g.groupName = group.groupName).isSome then
      .error .recordNotInserted
    else if (db.users.find group.creatorId).isNone then .error (.of (.dbError .constraint))
    else .ok ((id, group), [.addGroup id group])⟩

def insertUserGroup (userId : UserId) (groupId : GroupId) (role : UserGroupRole) (db : Db) :
    Answer Row Write Error Unit :=
  ⟨[.member userId groupId],
    if (db.userGroup.find (userId, groupId)).isSome then .error .recordNotInserted
    else if (db.users.find userId).isNone || (db.groups.find groupId).isNone then
      .error (.of (.dbError .constraint))
    else .ok ((), [.addMember userId groupId role])⟩

def updateUser (id : UserId) (w : Write) (db : Db) : Answer Row Write Error UserModel :=
  ⟨[.user id], match (w.apply db).users.find id with
    | none => .error (.of (.dbError .recordNotUpdated))
    | some user => .ok (user, [w])⟩

structure Infra where
  txns : Txns Db Write
  clock : Instant
  nextSalt : Nat
  nextUser : UserId
  nextGroup : GroupId

inductive Cmd where
  | userByName (name : String)
  | groupByName (name : String)
  | userById (id : UserId)
  | now
  | drawSalt
  | start
  | commit
  | rollback
  | insertUser (user : UserModel)
  | insertGroup (group : GroupModel)
  | insertUserGroup (userId : UserId) (groupId : GroupId) (role : UserGroupRole)
  | updateCount (id : UserId) (count : Int) (now : Instant)
  | updateQuota (id : UserId) (quota : Int) (now : Instant)

namespace Cmd

abbrev Ret : Cmd → Type
  | userByName _ => Option (UserId × UserModel)
  | groupByName _ => Option (GroupId × GroupModel)
  | userById _ => Option UserModel
  | now => Instant
  | drawSalt => Nat
  | insertUser _ => UserId × UserModel
  | insertGroup _ => GroupId × GroupModel
  | updateCount _ _ _ => UserModel
  | updateQuota _ _ _ => UserModel
  | _ => Unit

abbrev Resp (c : Cmd) : Type := Except Error c.Ret

def executed (s : Infra) (i : Nat) (q : Db → Answer Row Write Error ρ) :
    Option (Except Error ρ × Infra) :=
  (s.txns.execute i q).map fun r => (r.1, { s with txns := r.2 })

/-- The command where nothing fails. The numbers of new rows are drawn from sequences, which no
transaction gives back. -/
def done (i : Nat) (s : Infra) : (c : Cmd) → Option (c.Resp × Infra)
  | userByName name =>
    some (.ok ((s.txns.view i).users.findWhere fun _ user => user.username = name), s)
  | groupByName name =>
    some (.ok ((s.txns.view i).groups.findWhere fun _ group => group.groupName = name), s)
  | userById id => some (.ok ((s.txns.view i).users.find id), s)
  | now => some (.ok s.clock, s)
  | drawSalt => some (.ok s.nextSalt, { s with nextSalt := s.nextSalt + 1 })
  | start => some (.ok (), { s with txns := s.txns.start i })
  | commit => some (.ok (), { s with txns := s.txns.commit i })
  | rollback => some (.ok (), { s with txns := s.txns.rollback i })
  | insertUser user =>
    executed { s with nextUser := s.nextUser + 1 } i (Registry.insertUser s.nextUser user)
  | insertGroup group =>
    executed { s with nextGroup := s.nextGroup + 1 } i (Registry.insertGroup s.nextGroup group)
  | insertUserGroup userId groupId role =>
    executed s i (Registry.insertUserGroup userId groupId role)
  | updateCount id count time => executed s i (updateUser id (.setCount id count time))
  | updateQuota id quota time => executed s i (updateUser id (.setQuota id quota time))

/-- The command where the database fails. A transaction that cannot be committed is rolled
back. -/
def failed (i : Nat) (e : DbErr) (s : Infra) : (c : Cmd) → c.Resp × Infra
  | now => (.ok s.clock, s)
  | drawSalt => (.ok s.nextSalt, { s with nextSalt := s.nextSalt + 1 })
  | commit => (.error (.of (.dbError e)), { s with txns := s.txns.rollback i })
  | rollback => (.ok (), { s with txns := s.txns.rollback i })
  | _ => (.error (.of (.dbError e)), s)

def exec (i : Nat) (fault : Option DbErr) (s : Infra) (c : Cmd) : Option (c.Resp × Infra) :=
  match fault with
  | some e => some (c.failed i e s)
  | none => c.done i s

end Cmd

abbrev Service (α : Type) : Type := Fallible Cmd Cmd.Ret Error α

namespace Service
open Fallible (fail okOr ofExcept)

abbrev issue (c : Cmd) : Service c.Ret := Fallible.issue c

def transaction (p : Service α) : Service α :=
  Fallible.transaction (issue .start) (issue .commit) (issue .rollback) p

def nameValidator (name : String) : Bool :=
  let l := name.utf8ByteSize
  0 < l && l < 256 && name.toList.all fun c => c.isAlphanum || c = '-' || c = '_'

/-- The transaction of `create_user`, with `hash_password` of the argon2 crate. -/
def addUser (hashPassword : Md5Password → Nat → Except Mitosis.Error String) (username : String)
    (md5Password : Md5Password) (admin : Bool) : Service (UserId × UserModel) := do
  let user ← issue (.userByName username)
  let group ← issue (.groupByName username)
  if user.isSome || group.isSome then fail .recordNotInserted
  else
    let now ← issue .now
    let salt ← issue .drawSalt
    let passwordHash ← ofExcept ((hashPassword md5Password salt).mapError .of)
    let user ← issue (.insertUser (.new username passwordHash now admin))
    let group ← issue (.insertGroup ⟨username, user.1, now, now⟩)
    issue (.insertUserGroup user.1 group.1 .admin)
    return user

def createUser (hashPassword : Md5Password → Nat → Except Mitosis.Error String)
    (username : String) (md5Password : Md5Password) (admin : Bool) :
    Service (UserId × UserModel) :=
  transaction (addUser hashPassword username md5Password admin)

def addGroup (userId : UserId) (groupName : String) : Service (GroupId × GroupModel) := do
  let user ← issue (.userByName groupName)
  let group ← issue (.groupByName groupName)
  if user.isSome || group.isSome then fail (.alreadyExists groupName)
  else
    let now ← issue .now
    let creator ← issue (.userById userId)
    let creator ← okOr (.of (.apiError .internalServerError)) creator
    if creator.groupCount ≥ creator.groupQuota then fail (.of (.apiError .quotaExceeded))
    else
      let _ ← issue (.updateCount userId (creator.groupCount + 1) now)
      let group ← issue (.insertGroup ⟨groupName, userId, now, now⟩)
      issue (.insertUserGroup userId group.1 .admin)
      return group

def userCreateGroup (userId : UserId) (groupName : String) : Service (GroupId × GroupModel) :=
  if nameValidator groupName then transaction (addGroup userId groupName)
  else fail (.of (.apiError (.invalidRequest "Invalid group name")))

def i32FromStr (cs : List Char) : Except Error Int :=
  (parseI32 cs).mapError fun _ => .parseInt

/-- Without overflow checks, `i32` arithmetic wraps around. -/
def asI32 (n : Int) : Int := n.bmod (2 ^ 32)

def parseQuota (quota : Int) (quotaOp : String) : Except Error Int :=
  match quotaOp.toList with
  | '+' :: cs => (i32FromStr cs).map fun v => asI32 (quota + v)
  | '-' :: cs => (i32FromStr cs).map fun v => asI32 (quota - v)
  | '=' :: cs => i32FromStr cs
  | cs => i32FromStr cs

def changeQuota (username groupQuota : String) : Service Int := do
  let user ← issue (.userByName username)
  let user ← okOr (.of (.dbError .recordNotUpdated)) user
  let newQuota ← ofExcept (parseQuota user.2.groupQuota groupQuota)
  let now ← issue .now
  let u ← issue (.updateQuota user.1 (max newQuota 0) now)
  return u.groupQuota

def changeUserGroupQuota (username groupQuota : String) : Service Int :=
  transaction (changeQuota username groupQuota)

end Service

inductive Call where
  | createUser (username : String) (md5Password : Md5Password) (admin : Bool)
  | userCreateGroup (userId : UserId) (groupName : String)
  | changeUserGroupQuota (username groupQuota : String)

inductive Reply where
  | user (user : UserId × UserModel)
  | group (group : GroupId × GroupModel)
  | quota (quota : Int)
  deriving DecidableEq

def program (hashPassword : Md5Password → Nat → Except Mitosis.Error String) :
    Call → Prog Cmd Cmd.Resp (Flow (Except Error Reply))
  | .createUser username md5Password admin =>
    Fallible.once .user (Service.createUser hashPassword username md5Password admin)
  | .userCreateGroup userId groupName =>
    Fallible.once .group (Service.userCreateGroup userId groupName)
  | .changeUserGroupQuota username groupQuota =>
    Fallible.once .quota (Service.changeUserGroupQuota username groupQuota)

/-- Sessions on the users and groups. The environment lets time pass. -/
def system (hashPassword : Md5Password → Nat → Except Mitosis.Error String) :
    System Infra Cmd Cmd.Resp Call (Except Error Reply) (Option DbErr) Unit where
  program := program hashPassword
  exec := Cmd.exec
  env _ s := some { s with clock := s.clock + 1 }

abbrev State := Sessions Infra Cmd Cmd.Resp Call (Except Error Reply)

def initial (clock : Instant) : State :=
  ⟨⟨⟨⟨.empty, .empty, .empty⟩, .empty⟩, clock, 0, 1, 1⟩, [], []⟩

end Registry
end Mitosis
