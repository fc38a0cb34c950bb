import Mitosis.Lib.Keeps
import Mitosis.Ownership

namespace Mitosis
set_option autoImplicit true

namespace Registry
open Sessions

def NameAccepted (admin name : String) : Prop := Service.nameValidator name = true ∨ name = admin

/-- Users are created by an administrator, whose request is validated, or at the start. -/
def Call.accepted (admin : String) : Call → Prop
  | .createUser username _ _ => NameAccepted admin username
  | _ => True

def accepts (admin : String) : Act Call (Option DbErr) Unit → Prop
  | .call k => k.accepted admin
  | _ => True

def Cmd.naming (k : Call) : Cmd → Prop
  | .insertGroup group => Service.nameValidator group.groupName = true ∨
    ∃ md5Password admin, k = .createUser group.groupName md5Password admin
  | _ => True

namespace Service
open Fallible (Keeps)

abbrev Names (k : Call) (p : Service α) : Prop :=
  Keeps (fun _ c => c.naming k) (fun _ => True) p

namespace Names

theorem issue {c : Cmd} (hc : c.naming k) : Names k (Service.issue c) :=
  Keeps.issue c fun _ _ => ⟨hc, fun _ => trivial⟩

theorem issue_bind {c : Cmd} {f : c.Ret → Service α} (hc : c.naming k)
    (hf : ∀ r, Names k (f r)) : Names k (Service.issue c >>= f) := (issue hc).bind hf

theorem transaction {p : Service α} (hp : Names k p) : Names k (Service.transaction p) := by
  refine issue_bind trivial fun _ => hp.attempt.bind fun r => ?_
  cases r with
  | ok a => exact issue_bind trivial fun _ => .pure _
  | error e => exact issue_bind trivial fun _ => .fail _

theorem addUser : Names (.createUser username md5Password admin)
    (Service.addUser hashPassword username md5Password admin) := by
  refine issue_bind trivial fun _ => issue_bind trivial fun _ => .ite _ (.fail _) ?_
  refine issue_bind trivial fun _ => issue_bind trivial fun _ => ?_
  refine (Keeps.ofExcept _).bind fun _ => issue_bind trivial fun _ => ?_
  exact issue_bind (.inr ⟨_, _, rfl⟩) fun _ => issue_bind trivial fun _ => .pure _

theorem userCreateGroup : Names k (Service.userCreateGroup userId groupName) := by
  unfold Service.userCreateGroup
  split
  next hv =>
    apply transaction
    refine issue_bind trivial fun _ => issue_bind trivial fun _ => .ite _ (.fail _) ?_
    refine issue_bind trivial fun _ => issue_bind trivial fun _ => ?_
    refine (Keeps.okOr _ _).bind fun _ => .ite _ (.fail _) (issue_bind trivial fun _ => ?_)
    exact issue_bind (.inl hv) fun _ => issue_bind trivial fun _ => .pure _
  next => exact .fail _

theorem changeUserGroupQuota : Names k (Service.changeUserGroupQuota username groupQuota) := by
  apply transaction
  refine issue_bind trivial fun _ => (Keeps.okOr _ _).bind fun _ => ?_
  refine (Keeps.ofExcept _).bind fun _ => issue_bind trivial fun _ => ?_
  exact issue_bind trivial fun _ => .pure _

end Names
end Service

variable {hashPassword : Auth.Md5Password → Nat → Except Mitosis.Error String}

theorem program_naming (k : Call) : (program hashPassword k).Knows (fun _ c => c.naming k)
    (fun _ r => r ≠ .again) [] := by
  have hone : ∀ {α : Type} {f : α → Reply} {p : Service α}, Service.Names k p →
      (Fallible.once f p).Knows (fun _ c => c.naming k) (fun _ r => r ≠ .again) [] := by
    intro α f p h
    rw [Fallible.knows_once]
    apply (h [] trivial).mono
    intro K r _ hr
    cases hr
  cases k with
  | createUser => exact hone (Service.Names.transaction Service.Names.addUser)
  | userCreateGroup => exact hone Service.Names.userCreateGroup
  | changeUserGroupQuota => exact hone Service.Names.changeUserGroupQuota

structure Naming (admin : String) (s : State) : Prop where
  calls : ∀ (i : Nat) t, s.pool[i]? = some t → t.call.accepted admin
  asked : ∀ i group r, ⟨.insertGroup group, r⟩ ∈ history i s.log →
    NameAccepted admin group.groupName

theorem naming_of_path {s : State}
    (hp : Path (step (system hashPassword)) (fun _ a => accepts admin a) (initial clock) as s) :
    Naming admin s := by
  induction hp with
  | nil =>
    constructor
    · intro i t hi
      cases hi
    · intro i group r hm
      cases hm
  | snoc hp ha hs ih =>
    have ht := traced_of_path program_naming (fun _ _ h => (h rfl).elim) hp rfl rfl
    cases step_cases hs with
    | env => exact ⟨ih.calls, ih.asked⟩
    | @call k =>
      refine ⟨?_, ih.asked⟩
      intro i t hi
      rcases getElem?_concat hi with hi | ⟨-, rfl⟩
      · exact ih.calls i t hi
      · exact ha
    | @step i fault x k c p r hi hx =>
      have hk : k.accepted admin := ih.calls i _ hi
      constructor
      · intro j t hj
        rcases getElem?_set hj with ⟨-, rfl⟩ | ⟨-, hj⟩
        · rw [Thread.resume_call]
          exact hk
        · exact ih.calls j t hj
      · intro j group r' hm
        obtain ⟨k', hm⟩ := mem_history.1 hm
        rcases List.mem_append.1 hm with hm | hm
        · exact ih.asked j group r' (mem_history.2 ⟨k', hm⟩)
        · obtain ⟨⟩ := List.mem_singleton.1 hm
          rcases (ht.knows i _ hi).1 with hv | ⟨md5Password, a, rfl⟩
          · exact .inl hv
          · exact hk

/-- What a transaction has written of groups, its session has asked for. -/
theorem mem_txn (ht : txn K = some us) (hm : .addGroup gid group ∈ us) :
    ∃ r, ⟨.insertGroup group, r⟩ ∈ K := by
  have htail : ∀ {K : History} {e : Entry Cmd Cmd.Resp},
      (∃ r, ⟨.insertGroup group, r⟩ ∈ K) → ∃ r, ⟨.insertGroup group, r⟩ ∈ e :: K := by
    rintro K e ⟨r, hr⟩
    exact ⟨r, .tail _ hr⟩
  fun_induction txn K generalizing us with
  | case1 => cases ht
  | case2 =>
    obtain ⟨⟩ := ht
    cases hm
  | case3 => cases ht
  | case4 => cases ht
  | case6 group' gid' row K ih =>
    obtain ⟨us', ht', rfl⟩ := Option.map_eq_some_iff.1 ht
    rcases List.mem_cons.1 hm with he | hm
    · obtain ⟨⟩ := he
      exact ⟨_, .head _⟩
    · exact htail (ih ht' hm)
  | case5 | case7 | case8 | case9 =>
    rename_i ih
    obtain ⟨us', ht', rfl⟩ := Option.map_eq_some_iff.1 ht
    rcases List.mem_cons.1 hm with he | hm
    · cases he
    · exact htail (ih ht' hm)
  | case10 =>
    rename_i ih
    exact htail (ih ht hm)

theorem committed_execute {x x' : Txns Db Write} {q : Db → Answer Row Write Error ρ}
    {r : Except Error ρ} (hi : x.opened.find i = some ws) (hx : x.execute i q = some (r, x')) :
    x'.committed = x.committed := by
  obtain ⟨-, ⟨e, -, -, rfl⟩ | ⟨a, new, -, -, rfl⟩⟩ := Txns.execute_cases hx
  · rfl
  · rw [Txns.write, hi]

theorem committed_executed {x x' : Infra} {q : Db → Answer Row Write Error ρ}
    {r : Except Error ρ} (hi : x.txns.opened.find i = some ws)
    (hx : Cmd.executed x i q = some (r, x')) : x'.txns.committed = x.txns.committed := by
  obtain ⟨⟨r', txns⟩, hr, he⟩ := Option.map_eq_some_iff.1 hx
  obtain ⟨⟩ := he
  exact committed_execute hi hr

theorem committed_failed (x : Infra) (c : Cmd) (e : DbErr) :
    (c.failed i e x).2.txns.committed = x.txns.committed := by
  cases c <;> rfl

/-- A step of a session keeps the groups, or adds one that it has asked for. -/
theorem groups_exec {x x' : Infra} {c : Cmd} {r : c.Resp} {log : List Event}
    (h : Registered strict x.txns log) (hn : c.sourced (history i log))
    (hx : c.exec i fault x = some (r, x')) :
    x'.txns.committed.groups = x.txns.committed.groups ∨ ∃ gid group r,
      x'.txns.committed.groups = x.txns.committed.groups.set gid group ∧
      x.txns.committed.groups.find gid = none ∧ ⟨.insertGroup group, r⟩ ∈ history i log := by
  cases fault with
  | some e =>
    left
    have hf : c.failed i e x = (r, x') := Option.some.inj hx
    have hc := committed_failed (i := i) x c e
    rw [hf] at hc
    rw [hc]
  | none =>
    cases c with
    | commit =>
      obtain ⟨⟩ := hx
      rcases hn with ⟨w, hg⟩ | ⟨uid, quota, time, ht⟩
      · obtain ⟨gid, group, userId, groupId, role, hb, ht⟩ := hg
        have hi := h.records.find ht
        have hcur := h.records.guarded.current i _ (.addGroup gid group) hi (.tail _ (.head _))
        obtain ⟨r, hr⟩ := mem_txn ht (.tail _ (.head _))
        refine .inr ⟨gid, group, r, ?_, hcur.1, hr⟩
        exact (congrArg Db.groups (h.records.view_some ht)).trans hb.grouped_groups
      · have hv := congrArg Db.groups (h.records.view_some ht)
        exact .inl hv
    | insertUser user =>
      have hc := committed_executed (x := { x with nextUser := x.nextUser + 1 })
        (h.records.find hn) hx
      exact .inl (congrArg Db.groups hc)
    | insertGroup group =>
      obtain ⟨w, ht, -⟩ := hn
      have hc := committed_executed (x := { x with nextGroup := x.nextGroup + 1 })
        (h.records.find ht) hx
      exact .inl (congrArg Db.groups hc)
    | insertUserGroup =>
      obtain ⟨w, gid, group, ht, -⟩ := hn
      exact .inl (congrArg Db.groups (committed_executed (h.records.find ht) hx))
    | updateCount => exact .inl (congrArg Db.groups (committed_executed (h.records.find hn.1) hx))
    | updateQuota => exact .inl (congrArg Db.groups (committed_executed (h.records.find hn) hx))
    | _ =>
      obtain ⟨⟩ := hx
      exact .inl rfl

theorem groups_step {s s' : State}
    (hp : Path (step (system hashPassword)) (fun _ a => accepts admin a) (initial clock) as s)
    (hs : step (system hashPassword) s a = some s') :
    s'.shared.txns.committed.groups = s.shared.txns.committed.groups ∨ ∃ gid group,
      s'.shared.txns.committed.groups = s.shared.txns.committed.groups.set gid group ∧
      s.shared.txns.committed.groups.find gid = none ∧ NameAccepted admin group.groupName := by
  cases step_cases hs with
  | call => exact .inl rfl
  | env hx =>
    obtain ⟨⟩ := hx
    exact .inl rfl
  | step hi hx =>
    have hreg := registered_of_path False (fun hf => hf.elim) hp
    rcases groups_exec hreg ((traced hp).knows _ _ hi).1 hx with hg | ⟨gid, group, r, hg, hn, hm⟩
    · exact .inl hg
    · exact .inr ⟨gid, group, hg, hn, (naming_of_path hp).asked _ _ _ hm⟩

theorem accepted_of_path {s : State}
    (hp : Path (step (system hashPassword)) (fun _ a => accepts admin a) (initial clock) as s)
    (hg : s.shared.txns.committed.groups.find gid = some group) :
    NameAccepted admin group.groupName := by
  induction hp with
  | nil => cases hg
  | snoc hp ha hs ih =>
    rcases groups_step hp hs with he | ⟨gid', group', he, -, hv⟩
    · rw [he] at hg
      exact ih hg
    · rw [he, Table.find_set] at hg
      split at hg
      next =>
        obtain ⟨⟩ := hg
        exact hv
      next => exact ih hg

end Registry
end Mitosis
