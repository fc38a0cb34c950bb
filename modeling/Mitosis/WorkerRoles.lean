import Mitosis.FilterCancel

namespace Mitosis
set_option autoImplicit true

namespace Service

/-- The roles that a registration gives, by the names of the groups. -/
def rolesOf (username : String) (groups : List String) : Table String GroupWorkerRole :=
  ((groups.filterMap parseGroup).foldl (fun t e => t.set e.1 e.2) Table.empty).set username .admin

theorem rolesOf_username (username : String) (groups : List String) :
    (rolesOf username groups).find username = some .admin := Table.find_set_self _ _ _

/-- Strings that name the same group, other than the creator's own, give it the same role. -/
def Agree (db : Db) (username : String) (groups : List String) : Prop :=
  ∀ a ∈ groups, ∀ b ∈ groups, ∀ name ra rb, parseGroup a = some (name, ra) →
    parseGroup b = some (name, rb) → name ≠ username →
    (∃ g group, db.groups.find g = some group ∧ group.groupName = name) → ra = rb

theorem rolesOf_cases (username : String) (groups : List String) (name : String)
    (hn : name ≠ username) :
    (∃ a ∈ groups, ∃ role, parseGroup a = some (name, role) ∧
      (rolesOf username groups).find name = some role) ∨
    (∀ a ∈ groups, ∀ role, parseGroup a ≠ some (name, role)) ∧
      (rolesOf username groups).find name = none := by
  rw [rolesOf, Table.find_set_ne _ _ hn]
  rcases Table.find_foldl_set (groups.filterMap parseGroup) Table.empty name with
    ⟨⟨name', role⟩, hm, rfl, hf⟩ | ⟨hne, hf⟩
  · obtain ⟨a, ha, hp⟩ := List.mem_filterMap.1 hm
    exact .inl ⟨a, ha, role, hp, hf⟩
  · refine .inr ⟨?_, hf⟩
    intro a ha role hp
    exact hne _ (List.mem_filterMap.2 ⟨a, ha, hp⟩) rfl

theorem rolesOf_perm {groups groups' : List String} {db : Db} (ha : Agree db username groups)
    (h : groups'.Perm groups) (hg : ∃ g group, db.groups.find g = some group ∧
      group.groupName = name) :
    (rolesOf username groups').find name = (rolesOf username groups).find name := by
  by_cases hn : name = username
  · rw [hn, rolesOf_username, rolesOf_username]
  · rcases rolesOf_cases username groups name hn with ⟨a, hma, ra, hpa, hra⟩ | ⟨hne, hra⟩
    · rcases rolesOf_cases username groups' name hn with ⟨b, hmb, rb, hpb, hrb⟩ | ⟨hne, -⟩
      · rw [hra, hrb, ha b (h.mem_iff.1 hmb) a hma name rb ra hpb hpa hn hg]
      · exact (hne a (h.mem_iff.2 hma) ra hpa).elim
    · rcases rolesOf_cases username groups' name hn with ⟨b, hmb, rb, hpb, -⟩ | ⟨-, hrb⟩
      · exact (hne b (h.mem_iff.1 hmb) rb hpb).elim
      · rw [hra, hrb]

theorem rolesOf_isSome (username : String) {groups groups' : List String}
    (h : groups'.Perm groups) (name : String) :
    ((rolesOf username groups').find name).isSome =
      ((rolesOf username groups).find name).isSome := by
  by_cases hn : name = username
  · rw [hn, rolesOf_username, rolesOf_username]
  · rcases rolesOf_cases username groups name hn with ⟨a, hma, ra, hpa, hra⟩ | ⟨hne, hra⟩
    · rcases rolesOf_cases username groups' name hn with ⟨b, hmb, rb, hpb, hrb⟩ | ⟨hne, -⟩
      · rw [hra, hrb, Option.isSome_some, Option.isSome_some]
      · exact (hne a (h.mem_iff.2 hma) ra hpa).elim
    · rcases rolesOf_cases username groups' name hn with ⟨b, hmb, rb, hpb, -⟩ | ⟨-, hrb⟩
      · exact (hne b (h.mem_iff.1 hmb) rb hpb).elim
      · rw [hra, hrb]

theorem rolesOf_last {groups : List String} {a : String} (hp : parseGroup a = some (name, role))
    (hn : name ≠ username) : (rolesOf username (groups ++ [a])).find name = some role := by
  rw [rolesOf, Table.find_set_ne _ _ hn, List.filterMap_append, List.foldl_append]
  rw [List.filterMap_cons_some hp, List.filterMap_nil, List.foldl_cons, List.foldl_nil]
  exact Table.find_set_self _ _ _

variable {faults rest : List (Option DbErr)} {s s' : Infra}

theorem runs_bind_of {p : Service β} {f : β → Service α}
    (h : runs p faults s = some (.ok b, (rest, s'))) :
    runs (p >>= f) faults s = runs (f b) rest s' := by
  apply (Prog.run_bind _ _ _ _).trans
  rw [show Prog.run Cmd.execAlone p (faults, s) = some (.ok b, (rest, s')) from h]
  rfl

/-- The database after the statement that inserts the worker. -/
def inserted (s : Infra) (creatorId : UserId) (tags labels : List String) : Db :=
  { s.db with
    workers := s.db.workers.set s.db.workerSeq
      ⟨s.nextUuid, creatorId, tags, labels, s.clock, s.clock, .normal, s.clock, none⟩
    workerSeq := s.db.workerSeq + 1 }

theorem runs_setupWorkerQueues_ok
    (h : runs (setupWorkerQueues w tags) faults s = some (.ok (), (rest, s'))) :
    s.taskRx = true ∧ s.heartbeatRx = true ∧ s'.db = s.db ∧
      ∃ f₁ f₂ f₃, faults = f₁ :: f₂ :: none :: f₃ :: rest := by
  obtain ⟨_, _, s₁, h₁, h⟩ := runs_bind_ok h
  obtain ⟨_, _, s₂, h₂, h⟩ := runs_bind_ok h
  obtain ⟨tasks, _, s₃, h₃, h⟩ := runs_bind_ok h
  obtain ⟨f₁, rfl, ⟨hh, -, rfl⟩ | ⟨-, hr, -⟩⟩ := runs_sendHeartbeat h₁
  · obtain ⟨f₂, rfl, ⟨ht, -, rfl⟩ | ⟨-, hr, -⟩⟩ := runs_sendTask h₂
    · obtain ⟨rfl, ⟨e, -, hr⟩ | ⟨rfl, -⟩⟩ := runs_select h₃
      · cases hr
      · obtain ⟨f₃, rfl, ⟨-, -, rfl⟩ | ⟨-, hr, -⟩⟩ := runs_sendTask h
        · exact ⟨ht, hh, rfl, f₁, f₂, f₃, rfl⟩
        · cases hr
    · cases hr
  · cases hr

theorem runs_sendTask_of (ht : s.taskRx = true) : runs (sendTask op msg) (f :: rest) s =
    some (.ok (), (rest, { s with taskChan := s.taskChan ++ [op] })) := by
  simp only [runs, sendTask, recover, issue, Prog.bind, Prog.run, Cmd.execAlone, Cmd.exec, ht,
    if_true, Option.map_some, Option.bind_some]

theorem runs_sendHeartbeat_of (hh : s.heartbeatRx = true) :
    runs (sendHeartbeat op msg) (f :: rest) s =
      some (.ok (), (rest, { s with heartbeatChan := s.heartbeatChan ++ [op] })) := by
  simp only [runs, sendHeartbeat, recover, issue, Prog.bind, Prog.run, Cmd.execAlone, Cmd.exec, hh,
    if_true, Option.map_some, Option.bind_some]

theorem runs_select_of (q : Select) (s : Infra) :
    runs (select q) (none :: rest) s = some (.ok (q.eval s.db), (rest, s)) := rfl

theorem runs_setupWorkerQueues_of (w : WorkerId) (tags : List String) (f₁ f₂ f₃ : Option DbErr)
    (ht : s.taskRx = true) (hh : s.heartbeatRx = true) :
    ∃ s', runs (setupWorkerQueues w tags) (f₁ :: f₂ :: none :: f₃ :: rest) s =
      some (.ok (), (rest, s')) ∧ s'.db = s.db := by
  refine ⟨{ s with
    taskChan := s.taskChan ++ [.registerWorker w] ++ [.addTasks w (s.db.activeTasksOf w tags)]
    heartbeatChan := s.heartbeatChan ++ [.heartbeat w] }, ?_, rfl⟩
  refine (runs_bind_of (runs_sendHeartbeat_of hh)).trans ?_
  refine (runs_bind_of (runs_sendTask_of (by exact ht))).trans ?_
  refine (runs_bind_of (runs_select_of _ _)).trans ?_
  exact runs_sendTask_of (by exact ht)

theorem runs_registerWorker_ok
    (h : runs (registerWorker creatorId tags labels groups) faults s =
      some (.ok uuid, (rest, s'))) :
    s.taskRx = true ∧ s.heartbeatRx = true ∧ uuid = s.nextUuid ∧
      ∃ user, s.db.users.find creatorId = some user ∧
        Db.insertGroupWorkers (rolesOf user.username groups) s.db.workerSeq
          (inserted s creatorId tags labels) = .ok ((), s'.db) ∧
        ∃ f₁ f₂ f₃ f₄ f₅, faults =
          f₁ :: f₂ :: none :: none :: none :: f₃ :: f₄ :: none :: f₅ :: rest := by
  obtain ⟨uuid', _, s₁, h₁, h⟩ := runs_bind_ok h
  obtain ⟨time, _, s₂, h₂, h⟩ := runs_bind_ok h
  obtain ⟨⟨w, worker⟩, _, s₃, h₃, h⟩ := runs_bind_ok h
  obtain ⟨found, _, s₄, h₄, h⟩ := runs_bind_ok h
  obtain ⟨user, _, s₅, h₅, h⟩ := runs_bind_ok h
  obtain ⟨_, _, s₆, h₆, h⟩ := runs_bind_ok h
  obtain ⟨_, _, s₇, h₇, hret⟩ := runs_bind_ok h
  obtain ⟨f₁, rfl, hx⟩ := runs_issue h₁
  obtain ⟨⟩ := hx
  obtain ⟨f₂, rfl, ht, rfl⟩ := runs_now h₂
  obtain rfl := Except.ok.inj ht
  obtain ⟨g₃, rfl, hx⟩ := runs_issue h₃
  rcases Cmd.exec_write hx with ⟨_, hr, -⟩ | ⟨_, _, rfl, hq, hr, rfl⟩
  · cases hr
  · obtain ⟨⟩ := hr
    obtain ⟨⟩ := hq
    obtain ⟨rfl, ⟨e, -, hr⟩ | ⟨rfl, hr⟩⟩ := runs_select h₄
    · cases hr
    · obtain rfl := Except.ok.inj hr
      obtain ⟨rfl, rfl, hu⟩ := runs_okOr h₅
      obtain ⟨g₆, rfl, hx₆⟩ := runs_issue h₆
      rcases Cmd.exec_write hx₆ with ⟨_, hr, -⟩ | ⟨_, db, rfl, hins, hr, rfl⟩
      · cases hr
      · obtain ⟨ht, hh, hdb, f₃, f₄, f₅, rfl⟩ := runs_setupWorkerQueues_ok h₇
        obtain ⟨hr, hs⟩ := Prod.mk.inj (Option.some.inj hret)
        obtain ⟨rfl, rfl⟩ := Prod.mk.inj hs
        refine ⟨ht, hh, (Except.ok.inj hr).symm, user, ?_, ?_, f₁, f₂, f₃, f₄, f₅, rfl⟩
        · cases hf : s.db.users.find creatorId with
          | none =>
            simp only [Select.eval, hf] at hu
            cases hu
          | some user' =>
            simp only [Select.eval, hf] at hu
            obtain ⟨⟩ := hu
            rfl
        · rw [hdb]
          exact hins

theorem runs_registerWorker_of {db : Db} (ht : s.taskRx = true) (hh : s.heartbeatRx = true)
    (hu : s.db.users.find creatorId = some user)
    (hi : Db.insertGroupWorkers (rolesOf user.username groups) s.db.workerSeq
      (inserted s creatorId tags labels) = .ok ((), db)) :
    ∃ s', runs (registerWorker creatorId tags labels groups)
      (f₁ :: f₂ :: none :: none :: none :: f₃ :: f₄ :: none :: f₅ :: rest) s =
        some (.ok s.nextUuid, (rest, s')) ∧ s'.db = db := by
  have hw : runs (write (.insertWorker s.nextUuid creatorId tags labels s.clock))
      (none :: none :: none :: f₃ :: f₄ :: none :: f₅ :: rest)
      { s with nextUuid := s.nextUuid + 1 } = some (.ok (s.db.workerSeq, ⟨s.nextUuid, creatorId,
        tags, labels, s.clock, s.clock, .normal, s.clock, none⟩),
        (none :: none :: f₃ :: f₄ :: none :: f₅ :: rest,
          { s with nextUuid := s.nextUuid + 1, db := inserted s creatorId tags labels })) := rfl
  have hx : runs (write (.insertGroupWorkers (rolesOf user.username groups) s.db.workerSeq))
      (none :: f₃ :: f₄ :: none :: f₅ :: rest)
      { s with nextUuid := s.nextUuid + 1, db := inserted s creatorId tags labels } =
      some (.ok (), (f₃ :: f₄ :: none :: f₅ :: rest,
        { s with nextUuid := s.nextUuid + 1, db })) := by
    simp only [runs, write, issue, Prog.run, Cmd.execAlone, Cmd.exec, Write.run, hi,
      Option.map_some, Option.bind_some]
  have ht' : ({ s with nextUuid := s.nextUuid + 1, db } : Infra).taskRx = true := ht
  obtain ⟨s', hq, hdb⟩ := runs_setupWorkerQueues_of s.db.workerSeq tags f₃ f₄ f₅ ht' hh
  refine ⟨s', ?_, hdb⟩
  have hnew : runs newUuid (f₁ :: f₂ :: none :: none :: none :: f₃ :: f₄ :: none :: f₅ :: rest) s =
      some (.ok s.nextUuid, (f₂ :: none :: none :: none :: f₃ :: f₄ :: none :: f₅ :: rest,
        { s with nextUuid := s.nextUuid + 1 })) := rfl
  have hnow (s : Infra) : runs now (f₂ :: none :: none :: none :: f₃ :: f₄ :: none :: f₅ :: rest) s =
      some (.ok s.clock, (none :: none :: none :: f₃ :: f₄ :: none :: f₅ :: rest, s)) := rfl
  refine (runs_bind_of hnew).trans ?_
  refine (runs_bind_of (hnow _)).trans ?_
  refine (runs_bind_of hw).trans ?_
  refine (runs_bind_of (runs_select_of _ _)).trans ?_
  have hu' : (Select.user creatorId).eval (inserted s creatorId tags labels) = some user := hu
  rw [hu']
  refine (runs_bind_of hx).trans ?_
  exact (runs_bind_of hq).trans rfl

end Service

theorem Db.mem_groupRoles {db : Db} {roles : Table String GroupWorkerRole}
    {e : (GroupId × WorkerId) × GroupWorkerRole} : e ∈ db.groupRoles roles w ↔
      ∃ group, db.groups.find e.1.1 = some group ∧ roles.find group.groupName = some e.2 ∧
        e.1.2 = w := by
  unfold groupRoles
  rw [List.mem_filterMap]
  constructor
  · rintro ⟨⟨g, group⟩, hm, he⟩
    obtain ⟨role, hr, rfl⟩ := Option.map_eq_some_iff.1 he
    exact ⟨group, Table.mem_rows.1 hm, hr, rfl⟩
  · obtain ⟨⟨g, w'⟩, role⟩ := e
    rintro ⟨group, hg, hr, rfl⟩
    refine ⟨(g, group), Table.mem_rows.2 hg, ?_⟩
    rw [hr]
    rfl

theorem Db.insertGroupWorkers_cases {db db' : Db} {roles : Table String GroupWorkerRole}
    (h : insertGroupWorkers roles w db = .ok ((), db')) : db.workers.find w ≠ none ∧
      (∀ e ∈ db.groupRoles roles w, db.groupWorker.find e.1 = none) ∧
      db'.groupWorker =
        (db.groupRoles roles w).foldl (fun t e => t.set e.1 e.2) db.groupWorker := by
  simp only [insertGroupWorkers] at h
  split at h
  next => cases h
  next hc =>
    obtain ⟨⟩ := h
    obtain ⟨hw, hr⟩ := not_or.1 hc
    refine ⟨hw, ?_, rfl⟩
    intro e he
    rw [← Option.not_isSome_iff_eq_none]
    intro hs
    exact hr (List.any_eq_true.2 ⟨e, he, hs⟩)

theorem Db.insertGroupWorkers_find {db db' : Db} {roles : Table String GroupWorkerRole}
    (h : insertGroupWorkers roles w db = .ok ((), db')) (hg : db.groups.find g = some group)
    (hr : roles.find group.groupName = some role) : db'.groupWorker.find (g, w) = some role := by
  obtain ⟨-, -, hrows⟩ := insertGroupWorkers_cases h
  rw [hrows]
  rcases Table.find_foldl_set (db.groupRoles roles w) db.groupWorker (g, w) with
    ⟨e, he, hk, hf⟩ | ⟨hne, -⟩
  · obtain ⟨group', hg', hr', -⟩ := mem_groupRoles.1 he
    rw [hk] at hg'
    obtain rfl := Option.some.inj (hg.symm.trans hg')
    rw [hf, ← hr', hr]
  · exact (hne ((g, w), role) (mem_groupRoles.2 ⟨group, hg, hr, rfl⟩) rfl).elim

theorem Db.insertGroupWorkers_of {db db' : Db} {roles roles' : Table String GroupWorkerRole}
    (h : insertGroupWorkers roles w db = .ok ((), db'))
    (hs : ∀ name, (roles'.find name).isSome = (roles.find name).isSome) :
    ∃ db'', insertGroupWorkers roles' w db = .ok ((), db'') := by
  obtain ⟨hw, hfree, -⟩ := insertGroupWorkers_cases h
  have hc : ¬(db.workers.find w = none ∨
      ((db.groupRoles roles' w).any fun e => (db.groupWorker.find e.1).isSome) = true) := by
    rintro (hn | hany)
    · exact hw hn
    · obtain ⟨e, he, hsome⟩ := List.any_eq_true.1 hany
      obtain ⟨group, hg, hr', hk⟩ := mem_groupRoles.1 he
      have hr : (roles.find group.groupName).isSome = true := by
        rw [← hs, hr']
        rfl
      obtain ⟨role, hr⟩ := Option.isSome_iff_exists.1 hr
      rw [hfree (e.1, role) (mem_groupRoles.2 ⟨group, hg, hr, hk⟩)] at hsome
      cases hsome
  simp only [insertGroupWorkers]
  rw [if_neg hc]
  exact ⟨_, rfl⟩

theorem Db.insertGroupWorkers_eq {db db₁ db₂ : Db} {roles₁ roles₂ : Table String GroupWorkerRole}
    (h₁ : insertGroupWorkers roles₁ w db = .ok ((), db₁))
    (h₂ : insertGroupWorkers roles₂ w db = .ok ((), db₂))
    (hr : ∀ g group, db.groups.find g = some group →
      roles₁.find group.groupName = roles₂.find group.groupName) :
    db₁.groupWorker = db₂.groupWorker := by
  have hrows : db.groupRoles roles₁ w = db.groupRoles roles₂ w := by
    apply List.filterMap_congr
    intro e he
    rw [hr e.1 e.2 (Table.mem_rows.1 he)]
  rw [(insertGroupWorkers_cases h₁).2.2, (insertGroupWorkers_cases h₂).2.2, hrows]

/-- A registration gives the same roles in every order of its group strings, one in each group
and the creator's own group Admin. -/
structure OrderFree (s s' : Infra) (creatorId : UserId) (username : String)
    (tags labels groups : List String) (faults rest : List (Option DbErr)) : Prop where
  same : ∀ groups', groups'.Perm groups → ∃ s'', Service.runs
    (Service.registerWorker creatorId tags labels groups') faults s =
      some (.ok s.nextUuid, (rest, s'')) ∧ s''.db.groupWorker = s'.db.groupWorker
  once : ((s'.db.groupWorker.keys.filter fun k => k.2 = s.db.workerSeq).map Prod.fst).Nodup
  personal : ∀ g group, s.db.groups.find g = some group → group.groupName = username →
    s'.db.groupWorker.find (g, s.db.workerSeq) = some .admin

namespace Service
variable {faults rest : List (Option DbErr)} {s s' : Infra}

theorem registered_once (s' : Infra) (w : WorkerId) :
    ((s'.db.groupWorker.keys.filter fun k => k.2 = w).map Prod.fst).Nodup := by
  have hk : (s'.db.groupWorker.keys.filter fun k => decide (k.2 = w)).Nodup :=
    s'.db.groupWorker.keysNodup.filter _
  refine hk.map_on ?_
  intro k hm k' hm' he
  have hw := of_decide_eq_true (List.mem_filter.1 hm).2
  have hw' := of_decide_eq_true (List.mem_filter.1 hm').2
  exact Prod.ext he (hw.trans hw'.symm)

/-- The roles of a registered worker do not depend on the order of the group strings if and only
if strings that name the same group agree on its role. -/
theorem registered_order_free_iff
    (h : runs (registerWorker creatorId tags labels groups) faults s =
      some (.ok uuid, (rest, s')))
    (hu : s.db.users.find creatorId = some user) :
    OrderFree s s' creatorId user.username tags labels groups faults rest ↔
      Agree s.db user.username groups := by
  obtain ⟨ht, hh, -, user', hu', hins, f₁, f₂, f₃, f₄, f₅, rfl⟩ := runs_registerWorker_ok h
  obtain rfl := Option.some.inj (hu.symm.trans hu')
  constructor
  · intro hfree a ha b hb name ra rb hpa hpb hn ⟨g, group, hg, hname⟩
    have hlast {c : String} {role : GroupWorkerRole} (hc : c ∈ groups)
        (hpc : parseGroup c = some (name, role)) :
        s'.db.groupWorker.find (g, s.db.workerSeq) = some role := by
      have hperm : (groups.erase c ++ [c]).Perm groups :=
        (List.perm_append_singleton c _).trans (List.perm_cons_erase hc).symm
      obtain ⟨s'', hr, he⟩ := hfree.same _ hperm
      obtain ⟨-, -, -, user', hu', hins', -⟩ := runs_registerWorker_ok hr
      obtain rfl := Option.some.inj (hu.symm.trans hu')
      rw [← he]
      apply Db.insertGroupWorkers_find hins' hg
      rw [hname]
      exact rolesOf_last hpc hn
    have hra := hlast ha hpa
    rw [hlast hb hpb] at hra
    exact (Option.some.inj hra).symm
  · intro hagree
    constructor
    · intro groups' hp
      obtain ⟨db, hdb⟩ := Db.insertGroupWorkers_of hins (rolesOf_isSome user.username hp)
      obtain ⟨s'', hr, rfl⟩ := runs_registerWorker_of ht hh hu hdb
      refine ⟨s'', hr, ?_⟩
      apply Db.insertGroupWorkers_eq hdb hins
      intro g group hg
      exact rolesOf_perm hagree hp ⟨g, group, hg, rfl⟩
    · exact registered_once s' _
    · intro g group hg hname
      apply Db.insertGroupWorkers_find hins hg
      rw [hname]
      exact rolesOf_username _ _

end Service
namespace RolesDemo

/-- The creator `u` with its own group, and the group `g`. -/
def db : Db where
  users := Table.empty.set 1 ⟨"u", .active⟩
  groups := (Table.empty.set 1 ⟨"u", 0, .active, 0, 0, 0⟩).set 2 ⟨"g", 0, .active, 0, 0, 0⟩
  userGroup := .empty
  workers := .empty
  groupWorker := .empty
  activeTasks := .empty
  archivedTasks := .empty
  artifacts := .empty
  workerSeq := 1
  taskSeq := 1

def roles (groups : List String) : Option (List ((GroupId × WorkerId) × GroupWorkerRole)) :=
  (Service.runs (Service.registerWorker 1 [] [] groups) (List.replicate 9 none)
    (Infra.serving db)).map fun r => r.2.2.db.groupWorker.rows

end RolesDemo

open RolesDemo in
/-- The same two strings make the worker an admin of the group or a reader. -/
theorem roles_in_two_orders : ["g:read", "g:admin"].Perm ["g:admin", "g:read"] ∧
    roles ["g:read", "g:admin"] = some [((1, 1), .admin), ((2, 1), .admin)] ∧
    roles ["g:admin", "g:read"] = some [((1, 1), .admin), ((2, 1), .read)] := by
  refine ⟨List.Perm.swap _ _ _, ?_⟩
  decide +kernel

open RolesDemo in
/-- Strings that agree, and one for the creator's own group. -/
theorem agreeing_order_free : ∃ s', Service.runs (Service.registerWorker 1 [] []
      ["g:write", "u:read", "g", "x:y:z"]) (List.replicate 9 none) (Infra.serving db) =
        some (.ok 0, ([], s')) ∧
    OrderFree (Infra.serving db) s' 1 "u" [] [] ["g:write", "u:read", "g", "x:y:z"]
      (List.replicate 9 none) [] := by
  have hr : ∃ s', Service.runs (Service.registerWorker 1 [] [] ["g:write", "u:read", "g", "x:y:z"])
      (List.replicate 9 none) (Infra.serving db) = some (.ok 0, ([], s')) := ⟨_, rfl⟩
  have hu : (Infra.serving db).db.users.find 1 = some ⟨"u", .active⟩ := rfl
  have hw : ∀ c ∈ ["g:write", "u:read", "g", "x:y:z"], (Service.parseGroup c).all (fun e =>
      decide (e.1 = "u" ∨ e.2 = .write)) = true := by decide +kernel
  have hwrite : ∀ c ∈ ["g:write", "u:read", "g", "x:y:z"], ∀ name role,
      Service.parseGroup c = some (name, role) → name ≠ "u" → role = .write := by
    intro c hc name role hp hn
    have h := hw c hc
    rw [hp, Option.all_some, decide_eq_true_eq] at h
    exact h.resolve_left hn
  obtain ⟨s', hr⟩ := hr
  refine ⟨s', hr, (Service.registered_order_free_iff hr hu).2 ?_⟩
  intro a ha b hb name ra rb hpa hpb hn _
  rw [hwrite a ha name ra hpa hn, hwrite b hb name rb hpb hn]

end Mitosis
