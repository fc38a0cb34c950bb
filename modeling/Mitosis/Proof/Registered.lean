import Mitosis.Registry

namespace Mitosis
set_option autoImplicit true

namespace Registry
open Sessions

abbrev Event : Type := Sent Cmd Cmd.Resp Call

abbrev History : Type := Fallible.History Cmd Cmd.Ret Error

/-- What the open transaction of a session has written, latest first. -/
def txn : History → Option (List Write)
  | [] => none
  | ⟨.start, .ok _⟩ :: _ => some []
  | ⟨.commit, _⟩ :: _ => none
  | ⟨.rollback, _⟩ :: _ => none
  | ⟨.insertUser user, .ok (id, _)⟩ :: K => (txn K).map (.addUser id user :: ·)
  | ⟨.insertGroup group, .ok (id, _)⟩ :: K => (txn K).map (.addGroup id group :: ·)
  | ⟨.insertUserGroup userId groupId role, .ok _⟩ :: K =>
    (txn K).map (.addMember userId groupId role :: ·)
  | ⟨.updateCount id count time, .ok _⟩ :: K => (txn K).map (.setCount id count time :: ·)
  | ⟨.updateQuota id quota time, .ok _⟩ :: K => (txn K).map (.setQuota id quota time :: ·)
  | _ :: K => txn K

def quotaRead : History → Option Int
  | [] => none
  | ⟨.userById _, .ok (some user)⟩ :: _ => some user.groupQuota
  | _ :: K => quotaRead K

def Backed (quota : Option Int) (w : Write) (group : GroupModel) : Prop :=
  match w with
  | .addUser id user =>
    group.groupName = user.username ∧ group.creatorId = id ∧ user.groupCount = 1
  | .setCount id count _ => group.creatorId = id ∧ ∃ q, quota = some q ∧ count ≤ q
  | _ => False

/-- The transaction has added a group behind the write `w`. -/
def Grouped (K : History) (w : Write) : Prop :=
  ∃ id group userId groupId role, Backed (quotaRead K) w group ∧
    txn K = some [.addMember userId groupId role, .addGroup id group, w]

def Cmd.sourced (K : History) : Cmd → Prop
  | .start => txn K = none
  | .insertUser _ => txn K = some []
  | .updateCount _ count _ => txn K = some [] ∧ ∃ q, quotaRead K = some q ∧ count ≤ q
  | .updateQuota _ _ _ => txn K = some []
  | .insertGroup group => ∃ w, txn K = some [w] ∧ Backed (quotaRead K) w group
  | .insertUserGroup _ _ _ => ∃ w id group, txn K = some [.addGroup id group, w] ∧
      Backed (quotaRead K) w group
  | .commit => (∃ w, Grouped K w) ∨ ∃ id quota time, txn K = some [.setQuota id quota time]
  | _ => True

def ended (call : Call) (K : History) : Flow (Except Error Reply) → Prop
  | .again => False
  | .done (.ok (.group _)) => ∃ userId name count time K',
      call = .userCreateGroup userId name ∧ K = ⟨.commit, .ok ()⟩ :: K' ∧
      Grouped K' (.setCount userId count time)
  | _ => True

namespace Service
open Fallible (knows_issue_bind knows_okOr_bind knows_ofExcept_bind knows_pure knows_fail)

theorem transaction_sourced {p : Service α} {Q : History → α → Prop} (h : txn K = none)
    (hp : Fallible.Knows Cmd.sourced (⟨.start, .ok ()⟩ :: K) p fun K r => ∀ a, r = .ok a → Q K a)
    (hQ : ∀ K a, Q K a → Cmd.commit.sourced K) :
    Fallible.Knows Cmd.sourced K (transaction p) fun K r => ∀ a, r = .ok a →
      ∃ K', K = ⟨.commit, .ok ()⟩ :: K' ∧ Q K' a := by
  unfold transaction Fallible.transaction
  apply (knows_issue_bind _ _).2
  refine ⟨h, ?_, ?_⟩
  · rintro ⟨⟩
    rw [Fallible.knows_bind, Fallible.knows_attempt]
    apply hp.mono
    intro K₁ r hr
    cases r with
    | error e =>
      apply (knows_issue_bind _ _).2
      refine ⟨trivial, ?_, ?_⟩
      · intro _ a ha
        cases ha
      · intro _ a ha
        cases ha
    | ok a =>
      have hq := hr a rfl
      apply (knows_issue_bind _ _).2
      refine ⟨hQ K₁ a hq, ?_, ?_⟩
      · rintro ⟨⟩ b hb
        obtain rfl := Except.ok.inj hb
        exact ⟨K₁, rfl, hq⟩
      · intro _ a ha
        cases ha
  · intro _ a ha
    cases ha

theorem addUser_sourced (h : txn K = some []) : Fallible.Knows Cmd.sourced K
    (addUser hashPassword username md5Password admin) fun K r => ∀ a, r = .ok a →
      ∃ w, Grouped K w := by
  unfold addUser
  apply (knows_issue_bind _ _).2
  refine ⟨trivial, ?_, by rintro _ _ ⟨⟩⟩
  intro user
  apply (knows_issue_bind _ _).2
  refine ⟨trivial, ?_, by rintro _ _ ⟨⟩⟩
  intro group
  split
  next => rintro _ ⟨⟩
  next =>
    apply (knows_issue_bind _ _).2
    refine ⟨trivial, ?_, by rintro _ _ ⟨⟩⟩
    intro time
    apply (knows_issue_bind _ _).2
    refine ⟨trivial, ?_, by rintro _ _ ⟨⟩⟩
    intro salt
    apply (knows_ofExcept_bind _ _).2
    refine ⟨?_, by rintro _ _ _ ⟨⟩⟩
    intro passwordHash _
    apply (knows_issue_bind _ _).2
    refine ⟨h, ?_, by rintro _ _ ⟨⟩⟩
    rintro ⟨id, row⟩
    apply (knows_issue_bind _ _).2
    have ht : txn (⟨.insertUser (.new username passwordHash time admin), .ok (id, row)⟩ ::
        ⟨.drawSalt, .ok salt⟩ :: ⟨.now, .ok time⟩ :: ⟨.groupByName username, .ok group⟩ ::
        ⟨.userByName username, .ok user⟩ :: K) =
          some [.addUser id (.new username passwordHash time admin)] :=
      congrArg (Option.map _) h
    refine ⟨⟨_, ht, rfl, rfl, rfl⟩, ?_, by rintro _ _ ⟨⟩⟩
    rintro ⟨gid, group⟩
    have ht' := congrArg (Option.map (.addGroup gid ⟨username, id, time, time⟩ :: ·)) ht
    apply (knows_issue_bind _ _).2
    refine ⟨⟨_, gid, _, ht', rfl, rfl, rfl⟩, ?_, by rintro _ _ ⟨⟩⟩
    rintro ⟨⟩ _ _
    exact ⟨.addUser id (.new username passwordHash time admin), gid, ⟨username, id, time, time⟩,
      id, gid, .admin, ⟨rfl, rfl, rfl⟩, congrArg (Option.map _) ht'⟩

theorem addGroup_sourced (h : txn K = some []) : Fallible.Knows Cmd.sourced K
    (addGroup userId groupName) fun K r => ∀ a, r = .ok a →
      ∃ count time, Grouped K (.setCount userId count time) := by
  unfold addGroup
  apply (knows_issue_bind _ _).2
  refine ⟨trivial, ?_, by rintro _ _ ⟨⟩⟩
  intro user
  apply (knows_issue_bind _ _).2
  refine ⟨trivial, ?_, by rintro _ _ ⟨⟩⟩
  intro group
  split
  next => rintro _ ⟨⟩
  next =>
    apply (knows_issue_bind _ _).2
    refine ⟨trivial, ?_, by rintro _ _ ⟨⟩⟩
    intro time
    apply (knows_issue_bind _ _).2
    refine ⟨trivial, ?_, by rintro _ _ ⟨⟩⟩
    intro creator
    apply (knows_okOr_bind _ _ _).2
    refine ⟨?_, by rintro _ _ ⟨⟩⟩
    rintro creator rfl
    split
    next => rintro _ ⟨⟩
    next hq =>
      have hle : creator.groupCount + 1 ≤ creator.groupQuota := by omega
      apply (knows_issue_bind _ _).2
      refine ⟨⟨h, creator.groupQuota, rfl, hle⟩, ?_, by rintro _ _ ⟨⟩⟩
      intro updated
      have ht : txn (⟨.updateCount userId (creator.groupCount + 1) time, .ok updated⟩ ::
          ⟨.userById userId, .ok (some creator)⟩ :: ⟨.now, .ok time⟩ ::
          ⟨.groupByName groupName, .ok group⟩ :: ⟨.userByName groupName, .ok user⟩ :: K) =
            some [.setCount userId (creator.groupCount + 1) time] :=
        congrArg (Option.map _) h
      apply (knows_issue_bind _ _).2
      refine ⟨⟨_, ht, rfl, creator.groupQuota, rfl, hle⟩, ?_, by rintro _ _ ⟨⟩⟩
      rintro ⟨gid, row⟩
      have ht' := congrArg (Option.map (.addGroup gid ⟨groupName, userId, time, time⟩ :: ·)) ht
      apply (knows_issue_bind _ _).2
      refine ⟨⟨_, gid, _, ht', rfl, creator.groupQuota, rfl, hle⟩, ?_, by rintro _ _ ⟨⟩⟩
      rintro ⟨⟩ _ _
      exact ⟨_, time, gid, ⟨groupName, userId, time, time⟩, userId, gid, .admin,
        ⟨rfl, creator.groupQuota, rfl, hle⟩, congrArg (Option.map _) ht'⟩

theorem changeQuota_sourced (h : txn K = some []) : Fallible.Knows Cmd.sourced K
    (changeQuota username groupQuota) fun K r => ∀ a, r = .ok a →
      ∃ id quota time, txn K = some [.setQuota id quota time] := by
  unfold changeQuota
  apply (knows_issue_bind _ _).2
  refine ⟨trivial, ?_, by rintro _ _ ⟨⟩⟩
  intro found
  apply (knows_okOr_bind _ _ _).2
  refine ⟨?_, by rintro _ _ ⟨⟩⟩
  rintro ⟨id, user⟩ rfl
  apply (knows_ofExcept_bind _ _).2
  refine ⟨?_, by rintro _ _ _ ⟨⟩⟩
  intro newQuota _
  apply (knows_issue_bind _ _).2
  refine ⟨trivial, ?_, by rintro _ _ ⟨⟩⟩
  intro time
  apply (knows_issue_bind _ _).2
  refine ⟨h, ?_, by rintro _ _ ⟨⟩⟩
  intro row _ _
  exact ⟨id, _, time, congrArg (Option.map _) h⟩

end Service

theorem program_sourced (hashPassword : Auth.Md5Password → Nat → Except Mitosis.Error String)
    (call : Call) : (program hashPassword call).Knows Cmd.sourced (ended call) [] := by
  cases call with
  | createUser username md5Password admin =>
    rw [program, Fallible.knows_once]
    apply (Service.transaction_sourced rfl (Service.addUser_sourced rfl) fun _ _ => .inl).mono
    rintro K (e | user) _ <;> trivial
  | userCreateGroup userId groupName =>
    rw [program, Fallible.knows_once, Service.userCreateGroup]
    split
    next =>
      apply (Service.transaction_sourced rfl (Service.addGroup_sourced rfl) _).mono
      · rintro K (e | group) h
        · trivial
        · obtain ⟨K', hK, count, time, hg⟩ := h group rfl
          exact ⟨userId, groupName, count, time, K', rfl, hK, hg⟩
      · rintro K _ ⟨count, time, hg⟩
        exact .inl ⟨_, hg⟩
    next => trivial
  | changeUserGroupQuota username groupQuota =>
    rw [program, Fallible.knows_once]
    apply (Service.transaction_sourced rfl (Service.changeQuota_sourced rfl) fun _ _ => .inr).mono
    rintro K (e | quota) _ <;> trivial

theorem insertUser_ok {a : UserId × UserModel}
    (h : (insertUser uid user db).result = .ok (a, ws)) :
    db.users.find uid = none ∧ a = (uid, user) ∧ ws = [.addUser uid user] := by
  simp only [insertUser] at h
  split at h
  next => cases h
  next hid =>
    split at h
    next => cases h
    next =>
      obtain ⟨⟩ := h
      exact ⟨Option.not_isSome_iff_eq_none.1 hid, rfl, rfl⟩

theorem insertGroup_ok {a : GroupId × GroupModel}
    (h : (insertGroup gid group db).result = .ok (a, ws)) : db.groups.find gid = none ∧
      (∀ gid' group', db.groups.find gid' = some group' → group'.groupName ≠ group.groupName) ∧
      a = (gid, group) ∧ ws = [.addGroup gid group] := by
  simp only [insertGroup] at h
  split at h
  next => cases h
  next hid =>
    split at h
    next => cases h
    next hname =>
      split at h
      next => cases h
      next =>
        obtain ⟨⟩ := h
        refine ⟨Option.not_isSome_iff_eq_none.1 hid, ?_, rfl, rfl⟩
        intro gid' group' hf
        have hnone := Option.not_isSome_iff_eq_none.1 hname
        have hp := Table.findWhere_none hnone hf
        exact of_decide_eq_false hp

theorem insertUserGroup_ok {a : Unit}
    (h : (insertUserGroup userId groupId role db).result = .ok (a, ws)) :
    ws = [.addMember userId groupId role] := by
  simp only [insertUserGroup] at h
  split at h
  next => cases h
  next =>
    split at h
    next => cases h
    next =>
      obtain ⟨⟩ := h
      rfl

theorem updateUser_ok {a : UserModel} (h : (updateUser uid w db).result = .ok (a, ws)) :
    (w.apply db).users.find uid = some a ∧ ws = [w] := by
  simp only [updateUser] at h
  split at h
  next => cases h
  next ha =>
    obtain ⟨⟩ := h
    exact ⟨ha, rfl⟩

/-- What a write of an open transaction was made from is still so. With `strict`, a count was made
from the count that is replaced. -/
def Write.current (strict : Prop) (w : Write) (db : Db) : Prop :=
  match w with
  | .addUser id _ => db.users.find id = none
  | .addGroup id group => db.groups.find id = none ∧
      ∀ id' group', db.groups.find id' = some group' → group'.groupName ≠ group.groupName
  | .setCount id count _ => ∃ user, db.users.find id = some user ∧
      (strict → count = user.groupCount + 1)
  | _ => True

theorem Write.current_apply (strict : Prop) (w w' : Write) (db : Db)
    (h : ∀ k ∈ RowWrite.rows w, k ∉ RowWrite.rows (κ := Row) w') (hc : w.current strict db) :
    w.current strict (RowWrite.apply w' db) := by
  cases w with
  | addUser id user =>
    have hid : Row.user id ∉ w'.rows := h _ (.head _)
    cases w' with
    | addUser id' user' =>
      have hne : id ≠ id' := by
        rintro rfl
        exact hid (.head _)
      exact (Table.find_set_ne _ _ hne).trans hc
    | setCount id' | setQuota id' =>
      have hne : id ≠ id' := by
        rintro rfl
        exact hid (.head _)
      exact (Table.find_update_ne _ _ hne).trans hc
    | _ => exact hc
  | addGroup id group =>
    have hid : Row.group id ∉ w'.rows := h _ (.head _)
    have hname : Row.groupName group.groupName ∉ w'.rows := h _ (.tail _ (.head _))
    obtain ⟨hnone, hnames⟩ := hc
    cases w' with
    | addGroup id' group' =>
      have hne : id ≠ id' := by
        rintro rfl
        exact hid (.head _)
      refine ⟨(Table.find_set_ne _ _ hne).trans hnone, ?_⟩
      intro id'' group'' hf he
      simp only [RowWrite.apply, Write.apply, Table.find_set] at hf
      split at hf
      next =>
        obtain ⟨⟩ := hf
        rw [← he] at hname
        exact hname (.tail _ (.head _))
      next => exact hnames id'' group'' hf he
    | _ => exact ⟨hnone, hnames⟩
  | setCount id count =>
    have hid : Row.user id ∉ w'.rows := h _ (.head _)
    obtain ⟨user, hu, hcount⟩ := hc
    cases w' with
    | addUser id' user' =>
      have hne : id ≠ id' := by
        rintro rfl
        exact hid (.head _)
      exact ⟨user, (Table.find_set_ne _ _ hne).trans hu, hcount⟩
    | setCount id' | setQuota id' =>
      have hne : id ≠ id' := by
        rintro rfl
        exact hid (.head _)
      exact ⟨user, (Table.find_update_ne _ _ hne).trans hu, hcount⟩
    | _ => exact ⟨user, hu, hcount⟩
  | addMember | setQuota => trivial

structure Personal (db : Db) : Prop where
  names : ∀ id id' group group', db.groups.find id = some group → db.groups.find id' = some group' →
    group.groupName = group'.groupName → id = id'
  own : ∀ id user, db.users.find id = some user → ∃ gid group, db.groups.find gid = some group ∧
    group.groupName = user.username ∧ group.creatorId = id
  creators : ∀ id group, db.groups.find id = some group →
    ∃ user, db.users.find group.creatorId = some user

def Counted (db : Db) : Prop :=
  ∀ id user, db.users.find id = some user → user.groupCount = db.created id

theorem created_set {db : Db} (group : GroupModel) (h : db.groups.find gid = none)
    (uid : UserId) : ({ db with groups := db.groups.set gid group } : Db).created uid =
      db.created uid + if group.creatorId = uid then 1 else 0 := Table.total_set_new _ _ _ h

theorem Personal.created_absent (h : Personal db) (hid : db.users.find uid = none) :
    db.created uid = 0 := by
  have hzero : db.created uid = db.groups.total fun _ _ => 0 := by
    apply Table.total_congr
    intro gid group hg
    obtain ⟨user, hu⟩ := h.creators gid group hg
    apply if_neg
    rintro rfl
    cases hid.symm.trans hu
  rw [hzero, Table.total, List.map_const', List.sum_replicate, smul_zero]

/-- The database behind a transaction that adds a group. -/
def grouped (db : Db) (w : Write) (gid : GroupId) (group : GroupModel) (userId : UserId)
    (groupId : GroupId) (role : UserGroupRole) : Db :=
  Txns.applyAll [w, .addGroup gid group, .addMember userId groupId role] db

theorem Backed.grouped_groups (h : Backed q w group) :
    (grouped db w gid group userId groupId role).groups = db.groups.set gid group := by
  cases w with
  | addUser | setCount => rfl
  | _ => exact h.elim

theorem Personal.grouped (h : Personal db) (hb : Backed q w group) (hw : w.current strict db)
    (hg : (Write.addGroup gid group).current strict db) :
    Personal (grouped db w gid group userId groupId role) := by
  obtain ⟨hnone, hfree⟩ := hg
  have hgroups : (Registry.grouped db w gid group userId groupId role).groups =
      db.groups.set gid group := hb.grouped_groups
  -- the users keep their names, and the creator of the group is one of them
  have husers : ∀ id user, (Registry.grouped db w gid group userId groupId role).users.find id =
      some user → (∃ old, db.users.find id = some old ∧ old.username = user.username) ∨
        group.groupName = user.username ∧ group.creatorId = id := by
    intro id user hu
    cases w with
    | addUser id' user' =>
      obtain ⟨hname, hcreator, -⟩ := hb
      change (db.users.set id' user').find id = some user at hu
      rw [Table.find_set] at hu
      split at hu
      next he =>
        obtain rfl := Option.some.inj hu
        exact .inr ⟨hname, hcreator.trans he.symm⟩
      next => exact .inl ⟨user, hu, rfl⟩
    | setCount id' count time =>
      change (db.users.update id' _).find id = some user at hu
      rw [Table.find_update] at hu
      split at hu
      next =>
        obtain ⟨old, ho, rfl⟩ := Option.map_eq_some_iff.1 hu
        exact .inl ⟨old, ho, rfl⟩
      next => exact .inl ⟨user, hu, rfl⟩
    | _ => exact hb.elim
  have hkept : ∀ id user, db.users.find id = some user →
      ∃ user', (Registry.grouped db w gid group userId groupId role).users.find id =
        some user' := by
    intro id user hu
    cases w with
    | addUser id' user' =>
      change ∃ row, (db.users.set id' user').find id = some row
      rw [Table.find_set]
      split
      next => exact ⟨_, rfl⟩
      next => exact ⟨user, hu⟩
    | setCount id' count time =>
      change ∃ row, (db.users.update id' _).find id = some row
      rw [Table.find_update, hu]
      split
      next => exact ⟨_, rfl⟩
      next => exact ⟨user, rfl⟩
    | _ => exact hb.elim
  have hcreator : ∃ user', (Registry.grouped db w gid group userId groupId role).users.find
      group.creatorId = some user' := by
    cases w with
    | addUser id' user' =>
      rw [hb.2.1]
      exact ⟨user', Table.find_set_self _ _ _⟩
    | setCount id' count time =>
      obtain ⟨user, hu, -⟩ := hw
      rw [hb.1]
      exact hkept id' user hu
    | _ => exact hb.elim
  constructor
  · intro id id' g g' hid hid' hn
    rw [hgroups, Table.find_set] at hid hid'
    split at hid <;> split at hid'
    next h₁ h₂ => exact h₁.trans h₂.symm
    next =>
      obtain rfl := Option.some.inj hid
      exact (hfree id' g' hid' hn.symm).elim
    next =>
      obtain rfl := Option.some.inj hid'
      exact (hfree id g hid hn).elim
    next => exact h.names id id' g g' hid hid' hn
  · intro id user hu
    rw [hgroups]
    rcases husers id user hu with ⟨old, ho, hn⟩ | ⟨hn, hc⟩
    · obtain ⟨gid', g, hf, hname, hcr⟩ := h.own id old ho
      have hne : gid' ≠ gid := by
        rintro rfl
        cases hnone.symm.trans hf
      exact ⟨gid', g, (Table.find_set_ne _ _ hne).trans hf, hname.trans hn, hcr⟩
    · exact ⟨gid, group, Table.find_set_self _ _ _, hn, hc⟩
  · intro id g hf
    rw [hgroups, Table.find_set] at hf
    split at hf
    next =>
      obtain rfl := Option.some.inj hf
      exact hcreator
    next =>
      obtain ⟨user, hu⟩ := h.creators id g hf
      exact hkept _ user hu

theorem Counted.grouped (h : Counted db) (hp : Personal db) (hb : Backed q w group)
    (hw : w.current True db) (hg : db.groups.find gid = none) :
    Counted (grouped db w gid group userId groupId role) := by
  intro id user hu
  have hcreated : (Registry.grouped db w gid group userId groupId role).created id =
      db.created id + if group.creatorId = id then 1 else 0 := by
    rw [← created_set group hg, Db.created, Db.created, hb.grouped_groups]
  rw [hcreated]
  cases w with
  | addUser id' user' =>
    obtain ⟨-, hc, hone⟩ := hb
    change (db.users.set id' user').find id = some user at hu
    rw [Table.find_set] at hu
    split at hu
    next he =>
      subst he
      obtain rfl := Option.some.inj hu
      rw [hp.created_absent hw, if_pos hc, hone]
      rfl
    next hne =>
      rw [h id user hu, if_neg (by rw [hc]; exact Ne.symm hne), Int.add_zero]
  | setCount id' count time =>
    obtain ⟨hc, -⟩ := hb
    obtain ⟨old, ho, hcount⟩ := hw
    change (db.users.update id' _).find id = some user at hu
    rw [Table.find_update] at hu
    split at hu
    next he =>
      subst he
      rw [ho] at hu
      obtain rfl := Option.some.inj hu
      rw [if_pos hc, hcount trivial, h id old ho]
    next hne =>
      rw [h id user hu, if_neg (by rw [hc]; exact Ne.symm hne), Int.add_zero]
  | _ => exact hb.elim

theorem Personal.setQuota (h : Personal db) :
    Personal ((Write.setQuota uid quota time).apply db) := by
  have hfind : ∀ id', ((Write.setQuota uid quota time).apply db).users.find id' =
      if id' = uid then (db.users.find id').map fun user =>
        { user with groupQuota := quota, updatedAt := time }
      else db.users.find id' := fun id' => Table.find_update _ _ _ _
  constructor
  · exact h.names
  · intro id' user hu
    rw [hfind] at hu
    split at hu
    next =>
      obtain ⟨old, ho, rfl⟩ := Option.map_eq_some_iff.1 hu
      exact h.own id' old ho
    next => exact h.own id' user hu
  · intro gid group hg
    obtain ⟨user, hu⟩ := h.creators gid group hg
    rw [hfind, hu]
    split
    next => exact ⟨_, rfl⟩
    next => exact ⟨_, rfl⟩

theorem Counted.setQuota (h : Counted db) :
    Counted ((Write.setQuota uid quota time).apply db) := by
  intro id' user hu
  change (db.users.update uid _).find id' = some user at hu
  rw [Table.find_update] at hu
  split at hu
  next =>
    obtain ⟨old, ho, rfl⟩ := Option.map_eq_some_iff.1 hu
    exact h id' old ho
  next => exact h id' user hu

/-- What holds of the tables and of what the sessions have done. With `strict`, no count is made
from one that has been replaced. -/
structure Registered (strict : Prop) (x : Txns Db Write) (log : List Event) : Prop where
  records : Txns.Recorded txn (Write.current strict) x log
  personal : Personal x.committed
  counted : strict → Counted x.committed

namespace Registered
variable {log : List Event} {strict : Prop} {x x' : Txns Db Write}

theorem initial (strict : Prop) :
    Registered strict ⟨⟨.empty, .empty, .empty⟩, .empty⟩ [] := by
  constructor
  · exact Txns.Recorded.initial _ rfl
  · constructor
    · intro id id' group group' h
      cases h
    · intro id user h
      cases h
    · intro id group h
      cases h
  · intro _ id user h
    cases h

theorem keep {e : Entry Cmd Cmd.Resp} (h : Registered strict x log)
    (hr : Txns.Recorded txn (Write.current strict) x' (log ++ [⟨i, k, e⟩]))
    (hc : x'.committed = x.committed) : Registered strict x' (log ++ [⟨i, k, e⟩]) := by
  constructor
  · exact hr
  · rw [hc]
    exact h.personal
  · rw [hc]
    exact h.counted

theorem still {e : Entry Cmd Cmd.Resp} (h : Registered strict x log)
    (ht : txn (e :: history i log) = txn (history i log)) :
    Registered strict x (log ++ [⟨i, k, e⟩]) := h.keep (h.records.still ht) rfl

theorem grouped_of_commit (h : Registered strict x log) (hg : Grouped (history i log) w) :
    ∃ gid group userId groupId role, Backed (quotaRead (history i log)) w group ∧
      w.current strict x.committed ∧ (Write.addGroup gid group).current strict x.committed ∧
      (x.commit i).committed = grouped x.committed w gid group userId groupId role := by
  obtain ⟨gid, group, userId, groupId, role, hb, ht⟩ := hg
  have hi := h.records.find ht
  have hcur := fun w' => h.records.guarded.current i _ w' hi
  exact ⟨gid, group, userId, groupId, role, hb, hcur w (.head _),
    hcur (.addGroup gid group) (.tail _ (.head _)), h.records.view_some ht⟩

theorem commit (h : Registered strict x log) (hn : Cmd.commit.sourced (history i log)) :
    Registered strict (x.commit i) (log ++ [⟨i, k, .commit, .ok ()⟩]) := by
  have hr : Txns.Recorded txn (Write.current strict) (x.commit i)
      (log ++ [⟨i, k, .commit, .ok ()⟩]) := h.records.commit (Write.current_apply strict) rfl
  rcases hn with ⟨w, hg⟩ | ⟨id, quota, time, ht⟩
  · obtain ⟨gid, group, userId, groupId, role, hb, hw, hag, hc⟩ := h.grouped_of_commit hg
    constructor
    · exact hr
    · rw [hc]
      exact h.personal.grouped hb hw hag
    · intro he
      rw [hc]
      apply (h.counted he).grouped h.personal hb _ hag.1
      have htrue : strict = True := eq_true he
      rwa [htrue] at hw
  · have hc : (x.commit i).committed = (Write.setQuota id quota time).apply x.committed :=
      h.records.view_some ht
    constructor
    · exact hr
    · rw [hc]
      exact h.personal.setQuota
    · intro he
      rw [hc]
      exact (h.counted he).setQuota

theorem executed {c : Cmd} {q : Db → Answer Row Write Error c.Ret} {r : c.Resp}
    (h : Registered strict x log) (hold : txn (history i log) = some us)
    (hfail : ∀ e, txn (⟨c, .error e⟩ :: history i log) = some us)
    (hq : ∀ a ws, (q (x.view i)).result = .ok (a, ws) → ∃ w, ws = [w] ∧
      txn (⟨c, .ok a⟩ :: history i log) = some (w :: us) ∧
      (∀ k ∈ w.rows, k ∈ (q (x.view i)).waits) ∧ w.current strict x.committed)
    (hx : x.execute i q = some (r, x')) : Registered strict x' (log ++ [⟨i, k, c, r⟩]) := by
  obtain ⟨hl, ⟨e, rfl, -, rfl⟩ | ⟨a, ws, rfl, he, rfl⟩⟩ := Txns.execute_cases hx
  · exact h.still ((hfail e).trans hold.symm)
  · obtain ⟨w, rfl, hnew, hw, hc⟩ := hq a ws he
    obtain ⟨hr, hcom⟩ := h.records.write (e := ⟨c, .ok a⟩) (k := k)
      (Write.current_apply strict) hold hnew hl
      (by
        intro w' hm
        obtain rfl := List.mem_singleton.1 hm
        exact hw)
      (by
        intro w' hm
        obtain rfl := List.mem_singleton.1 hm
        exact hc)
    exact h.keep hr hcom

theorem insertUser {r : Except Error (UserId × UserModel)} (h : Registered strict x log)
    (hn : txn (history i log) = some [])
    (hx : x.execute i (Registry.insertUser uid user) = some (r, x')) :
    Registered strict x' (log ++ [⟨i, k, .insertUser user, r⟩]) := by
  apply h.executed (c := .insertUser user) hn (fun _ => hn) _ hx
  intro a ws he
  rw [h.records.view_some hn] at he
  obtain ⟨hid, rfl, rfl⟩ := insertUser_ok he
  exact ⟨_, rfl, congrArg (Option.map _) hn, fun _ hk => hk, hid⟩

theorem insertGroup {r : Except Error (GroupId × GroupModel)} (h : Registered strict x log)
    (hn : (Cmd.insertGroup group).sourced (history i log))
    (hx : x.execute i (Registry.insertGroup gid group) = some (r, x')) :
    Registered strict x' (log ++ [⟨i, k, .insertGroup group, r⟩]) := by
  obtain ⟨w, ht, hb⟩ := hn
  apply h.executed (c := .insertGroup group) ht (fun _ => ht) _ hx
  intro a ws he
  obtain ⟨hid, hnames, rfl, rfl⟩ := insertGroup_ok he
  have hgroups : (x.view i).groups = x.committed.groups := by
    rw [h.records.view_some ht]
    cases w with
    | addUser | setCount => rfl
    | _ => exact hb.elim
  rw [hgroups] at hid hnames
  exact ⟨_, rfl, congrArg (Option.map _) ht, fun _ hk => hk, hid, hnames⟩

theorem insertUserGroup {r : Except Error Unit} (h : Registered strict x log)
    (hn : (Cmd.insertUserGroup userId groupId role).sourced (history i log))
    (hx : x.execute i (Registry.insertUserGroup userId groupId role) = some (r, x')) :
    Registered strict x' (log ++ [⟨i, k, .insertUserGroup userId groupId role, r⟩]) := by
  obtain ⟨w, gid, group, ht, hb⟩ := hn
  apply h.executed (c := .insertUserGroup userId groupId role) ht (fun _ => ht) _ hx
  intro a ws he
  obtain rfl := insertUserGroup_ok he
  exact ⟨_, rfl, congrArg (Option.map _) ht, fun _ hk => hk, trivial⟩

theorem updateCount {r : Except Error UserModel} (h : Registered strict x log)
    (hn : txn (history i log) = some [])
    (hcount : strict → ∀ user, x.committed.users.find uid = some user →
      count = user.groupCount + 1)
    (hx : x.execute i (updateUser uid (.setCount uid count time)) = some (r, x')) :
    Registered strict x' (log ++ [⟨i, k, .updateCount uid count time, r⟩]) := by
  apply h.executed (c := .updateCount uid count time) hn (fun _ => hn) _ hx
  intro a ws he
  rw [h.records.view_some hn] at he
  obtain ⟨ha, rfl⟩ := updateUser_ok he
  change (x.committed.users.update uid _).find uid = some a at ha
  rw [Table.find_update_self] at ha
  obtain ⟨user, hf, -⟩ := Option.map_eq_some_iff.1 ha
  exact ⟨_, rfl, congrArg (Option.map _) hn, fun _ hk => hk, user, hf,
    fun hs => hcount hs user hf⟩

theorem updateQuota {r : Except Error UserModel} (h : Registered strict x log)
    (hn : txn (history i log) = some [])
    (hx : x.execute i (updateUser uid (.setQuota uid quota time)) = some (r, x')) :
    Registered strict x' (log ++ [⟨i, k, .updateQuota uid quota time, r⟩]) := by
  apply h.executed (c := .updateQuota uid quota time) hn (fun _ => hn) _ hx
  intro a ws he
  obtain ⟨-, rfl⟩ := updateUser_ok he
  exact ⟨_, rfl, congrArg (Option.map _) hn, fun _ hk => hk, trivial⟩

theorem failed {x : Infra} (h : Registered strict x.txns log) (c : Cmd) (e : DbErr) :
    Registered strict (c.failed i e x).2.txns (log ++ [⟨i, k, c, (c.failed i e x).1⟩]) := by
  cases c with
  | commit => exact h.keep (h.records.rollback rfl) rfl
  | rollback => exact h.keep (h.records.rollback rfl) rfl
  | _ => exact h.still rfl

theorem exec {x x' : Infra} {c : Cmd} {r : c.Resp} (h : Registered strict x.txns log)
    (hn : c.sourced (history i log))
    (hcount : strict → ∀ uid count time, c = .updateCount uid count time → fault = none →
      ∀ user, x.txns.committed.users.find uid = some user → count = user.groupCount + 1)
    (hx : c.exec i fault x = some (r, x')) :
    Registered strict x'.txns (log ++ [⟨i, k, c, r⟩]) := by
  cases fault with
  | some e =>
    have hf : c.failed i e x = (r, x') := Option.some.inj hx
    have hinv := h.failed (i := i) (k := k) c e
    rw [hf] at hinv
    exact hinv
  | none =>
    cases c with
    | start =>
      obtain ⟨⟩ := hx
      exact h.keep (h.records.start rfl) rfl
    | commit =>
      obtain ⟨⟩ := hx
      exact h.commit hn
    | rollback =>
      obtain ⟨⟩ := hx
      exact h.keep (h.records.rollback rfl) rfl
    | insertUser user =>
      obtain ⟨⟨r', txns⟩, hr, he⟩ := Option.map_eq_some_iff.1 hx
      obtain ⟨⟩ := he
      exact h.insertUser hn hr
    | insertGroup group =>
      obtain ⟨⟨r', txns⟩, hr, he⟩ := Option.map_eq_some_iff.1 hx
      obtain ⟨⟩ := he
      exact h.insertGroup hn hr
    | insertUserGroup userId groupId role =>
      obtain ⟨⟨r', txns⟩, hr, he⟩ := Option.map_eq_some_iff.1 hx
      obtain ⟨⟩ := he
      exact h.insertUserGroup hn hr
    | updateCount uid count time =>
      obtain ⟨⟨r', txns⟩, hr, he⟩ := Option.map_eq_some_iff.1 hx
      obtain ⟨⟩ := he
      exact h.updateCount hn.1 (fun hs => hcount hs uid count time rfl rfl) hr
    | updateQuota uid quota time =>
      obtain ⟨⟨r', txns⟩, hr, he⟩ := Option.map_eq_some_iff.1 hx
      obtain ⟨⟩ := he
      exact h.updateQuota hn hr
    | userByName | groupByName | userById | now | drawSalt =>
      obtain ⟨⟩ := hx
      exact h.still rfl

end Registered

end Registry
end Mitosis
