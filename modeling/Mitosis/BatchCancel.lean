import Mitosis.Lib.Chunks
import Mitosis.Proof.Effects

namespace Mitosis
set_option autoImplicit true

def Db.mayCancel (db : Db) (userId : UserId) (task : ActiveTask) : Bool :=
  decide (task.state ∈ [.ready, .pending]) &&
    (db.userGroup.find (userId, task.groupId)).any fun role => decide (role ∈ [.write, .admin])

/-- From `db` to `db'` the user's tasks with these uuids are archived as cancelled, and `found`
lists them. -/
structure Cancels (c : Instant) (userId : UserId) (uuids : List Uuid) (db db' : Db)
    (found : List (TaskId × Uuid)) : Prop where
  active : ∀ t, db'.activeTasks.find t =
    (db.activeTasks.find t).filter fun task => !(task.uuid ∈ uuids && db.mayCancel userId task)
  archived : ∀ t, db'.archivedTasks.find t = (((db.activeTasks.find t).filter fun task =>
    task.uuid ∈ uuids && db.mayCancel userId task).map (Db.cancelledTask c)).or
      (db.archivedTasks.find t)
  others : db' = { db with activeTasks := db'.activeTasks, archivedTasks := db'.archivedTasks }
  nodup : (found.map Prod.fst).Nodup
  mem : ∀ t u, (t, u) ∈ found ↔ ∃ task, db.activeTasks.find t = some task ∧ task.uuid = u ∧
    u ∈ uuids ∧ db.mayCancel userId task = true

namespace Db

theorem find_cancellableTasks (db : Db) (userId : UserId) (uuids : List Uuid) (t : TaskId) :
    (db.cancellableTasks userId uuids).find t = (db.activeTasks.find t).filter fun task =>
      task.uuid ∈ uuids && db.mayCancel userId task := by
  rw [cancellableTasks, Table.find_select]
  congr 1
  funext task
  simp only [mayCancel, Bool.decide_and, Bool.decide_eq_true]

theorem cancels_of_run (h : Db.cancelTasksByUuids userId uuids c db = .ok (found, db')) :
    Cancels c userId uuids db db' found := by
  obtain ⟨rfl, ha⟩ := Db.cancelTasksByUuids_ok h
  obtain ⟨-, rfl⟩ := Db.archive_ok ha
  have hfind := find_cancellableTasks db userId uuids
  refine ⟨fun t => ?_, fun t => ?_, rfl, ?_, fun t u => ?_⟩
  · simp only [Table.find_deleteWhere, Table.find_mapRows, hfind]
    cases db.activeTasks.find t with
    | none => rfl
    | some task =>
      simp only [Option.filter]
      split <;> simp_all
  · simp only [Table.find_merge, Table.find_mapRows, hfind]
  · rw [List.map_map]
    exact (db.cancellableTasks userId uuids).keysNodup
  · rw [List.mem_map]
    constructor
    · rintro ⟨⟨t', task⟩, he, heq⟩
      obtain ⟨⟩ := heq
      have hf := (hfind _).symm.trans (Table.mem_rows.1 he)
      obtain ⟨hf, hp⟩ := Option.filter_eq_some_iff.1 hf
      obtain ⟨hu, hm⟩ := Bool.and_eq_true_iff.1 hp
      exact ⟨task, hf, rfl, of_decide_eq_true hu, hm⟩
    · rintro ⟨task, hf, rfl, hu, hm⟩
      refine ⟨(t, task), Table.mem_rows.2 ((hfind t).trans ?_), rfl⟩
      exact Option.filter_eq_some_iff.2 ⟨hf, Bool.and_eq_true_iff.2 ⟨decide_eq_true hu, hm⟩⟩

end Db

namespace Cancels

theorem nil (c : Instant) (userId : UserId) (db : Db) : Cancels c userId [] db db [] := by
  refine ⟨fun t => ?_, fun t => ?_, rfl, .nil, fun t u => ?_⟩
  · cases db.activeTasks.find t <;> rfl
  · cases db.activeTasks.find t <;> rfl
  · constructor
    · nofun
    · rintro ⟨_, -, -, hu, -⟩
      cases hu

theorem mayCancel (h : Cancels c userId uuids db db' found) (task : ActiveTask) :
    db'.mayCancel userId task = db.mayCancel userId task := by
  rw [h.others]
  rfl

/-- What two statements cancel, one statement with both lists does. -/
theorem append (h : Cancels c userId us db db₁ found) (h' : Cancels c userId vs db₁ db' found') :
    Cancels c userId (us ++ vs) db db' (found ++ found') := by
  have hleft : ∀ t task, db₁.activeTasks.find t = some task ↔ db.activeTasks.find t = some task ∧
      ¬ (task.uuid ∈ us ∧ db.mayCancel userId task = true) := by
    intro t task
    rw [h.active, Option.filter_eq_some_iff]
    simp only [Bool.not_eq_true', Bool.and_eq_false_iff, decide_eq_false_iff_not, not_and_or,
      Bool.not_eq_true]
  refine ⟨fun t => ?_, fun t => ?_, ?_, ?_, fun t u => ?_⟩
  · rw [h'.active, h.active]
    cases db.activeTasks.find t with
    | none => rfl
    | some task =>
      by_cases hu : task.uuid ∈ us <;> cases hm : db.mayCancel userId task <;>
        simp [Option.filter, h.mayCancel, hu, hm]
  · rw [h'.archived, h.archived, h.active]
    cases db.activeTasks.find t with
    | none => rfl
    | some task =>
      by_cases hu : task.uuid ∈ us <;> cases hm : db.mayCancel userId task <;>
        simp [Option.filter, h.mayCancel, hu, hm]
  · rw [h'.others, h.others]
  · rw [List.map_append]
    refine h.nodup.append h'.nodup fun t ht ht' => ?_
    obtain ⟨⟨t, u⟩, he, rfl⟩ := List.mem_map.1 ht
    obtain ⟨⟨t', u'⟩, he', heq⟩ := List.mem_map.1 ht'
    obtain rfl : t' = t := heq
    obtain ⟨task, hf, rfl, hu, hm⟩ := (h.mem _ _).1 he
    obtain ⟨task', hf', -⟩ := (h'.mem _ _).1 he'
    obtain ⟨hf', hno⟩ := (hleft _ _).1 hf'
    obtain rfl := Option.some.inj (hf.symm.trans hf')
    exact hno ⟨hu, hm⟩
  · rw [List.mem_append, h.mem, h'.mem]
    constructor
    · rintro (⟨task, hf, hu, hmem, hm⟩ | ⟨task, hf, hu, hmem, hm⟩)
      · exact ⟨task, hf, hu, List.mem_append_left _ hmem, hm⟩
      · rw [h.mayCancel] at hm
        exact ⟨task, ((hleft _ _).1 hf).1, hu, List.mem_append_right _ hmem, hm⟩
    · rintro ⟨task, hf, rfl, hmem, hm⟩
      by_cases hu : task.uuid ∈ us
      · exact .inl ⟨task, hf, rfl, hu, hm⟩
      · refine .inr ⟨task, (hleft _ _).2 ⟨hf, fun h => hu h.1⟩, rfl,
          (List.mem_append.1 hmem).resolve_left hu, ?_⟩
        rw [h.mayCancel]
        exact hm

end Cancels

namespace Service
variable {faults rest : List (Option DbErr)} {s s' : Infra}

theorem runs_write_error {q : Write}
    (h : runs (write q) faults s = some (.error e, (rest, s'))) : s' = s := by
  obtain ⟨fault, -, hx⟩ := runs_issue h
  cases fault with
  | some e =>
    obtain ⟨⟩ := hx
    rfl
  | none =>
    simp only [Cmd.exec] at hx
    split at hx
    next =>
      obtain ⟨⟩ := hx
      rfl
    next => cases hx

/-- The state once a batch has cancelled what `found` lists. -/
structure Batch (userId : UserId) (uuids : List Uuid) (s s' : Infra)
    (found : List (TaskId × Uuid)) : Prop where
  cancels : Cancels s.clock userId uuids s.db s'.db found
  others : s' = { s with db := s'.db }

/-- Every statement that succeeds cancels its chunk. Where one fails, those before it stay. -/
theorem runs_cancelChunks {chunks : List (List Uuid)} {r : Except Error (List (TaskId × Uuid))}
    (h : runs (cancelChunks userId chunks) faults s = some (r, (rest, s'))) :
    (∃ found, r = .ok found ∧ Batch userId chunks.flatten s s' found) ∨
      ∃ e found ended failed, r = .error e ∧ failed ≠ [] ∧ chunks = ended ++ failed ∧
        Batch userId ended.flatten s s' found := by
  induction chunks generalizing s faults r with
  | nil =>
    obtain ⟨⟩ := h
    exact .inl ⟨[], rfl, .nil _ _ _, rfl⟩
  | cons chunk chunks ih =>
    rcases runs_bind h with ⟨found, faults₁, s₁, h₁, h⟩ | ⟨e, h₁, rfl⟩
    · obtain ⟨db, hq, rfl⟩ := runs_write_ok h₁
      have hc : Cancels s.clock userId chunk s.db db found := Db.cancels_of_run hq
      rcases runs_bind h with ⟨found', faults₂, s₂, h₂, h⟩ | ⟨e, h₂, rfl⟩
      · obtain ⟨⟩ := h
        rcases ih h₂ with ⟨_, he, hb⟩ | ⟨e, _, _, _, he, -⟩
        · obtain ⟨⟩ := he
          exact .inl ⟨found ++ found', rfl, hc.append hb.cancels, hb.others⟩
        · cases he
      · rcases ih h₂ with ⟨_, he, -⟩ | ⟨e', found', ended, failed, he, hne, rfl, hb⟩
        · cases he
        · exact .inr ⟨e, found ++ found', chunk :: ended, failed, rfl, hne, rfl,
            hc.append hb.cancels, hb.others⟩
    · obtain rfl := runs_write_error h₁
      exact .inr ⟨e, [], [], chunk :: chunks, rfl, List.cons_ne_nil _ _, rfl, .nil _ _ _, rfl⟩

theorem removeTasks_sent {ids : List TaskId} {r : Except Error Unit}
    (h : runs (removeTasks ids) faults s = some (r, (rest, s'))) : r = .ok () ∧
      s' = { s with taskChan := s.taskChan ++ if s.taskRx then ids.map .removeTask else [] } := by
  induction ids generalizing s faults with
  | nil =>
    obtain ⟨⟩ := h
    refine ⟨rfl, ?_⟩
    rw [List.map_nil, ite_self, List.append_nil]
  | cons id ids ih =>
    have hsend : ∀ {faults₁ s₁} {r : Except Error Unit},
        runs (ignore (removeTask id)) faults s = some (r, (faults₁, s₁)) → r = .ok () ∧
          s₁ = { s with taskChan := s.taskChan ++ if s.taskRx then [.removeTask id] else [] } := by
      intro faults₁ s₁ r h
      rcases runs_recover h with ⟨_, h₁, rfl⟩ | ⟨e, faults₂, s₂, h₁, h₂⟩
      · obtain ⟨fault, -, ⟨hrx, -, rfl⟩ | ⟨-, he, -⟩⟩ := runs_sendTask h₁
        · refine ⟨rfl, ?_⟩
          rw [if_pos hrx]
        · cases he
      · obtain ⟨⟩ := h₂
        obtain ⟨fault, -, ⟨-, he, -⟩ | ⟨hrx, -, rfl⟩⟩ := runs_sendTask h₁
        · cases he
        · refine ⟨rfl, ?_⟩
          rw [if_neg (Bool.eq_false_iff.1 hrx), List.append_nil]
    rcases runs_bind h with ⟨_, faults₁, s₁, h₁, h⟩ | ⟨e, h₁, rfl⟩
    · obtain ⟨-, rfl⟩ := hsend h₁
      obtain ⟨rfl, rfl⟩ := ih h
      refine ⟨rfl, ?_⟩
      cases s.taskRx with
      | true => simp only [if_true, List.map_cons, List.append_assoc, List.singleton_append]
      | false => simp only [Bool.false_eq_true, if_false, List.append_nil]
    · cases (hsend h₁).1

end Service

def Db.UuidsApart (db : Db) : Prop := ∀ t t' task task', db.activeTasks.find t = some task →
  db.activeTasks.find t' = some task' → task.uuid = task'.uuid → t = t'

theorem Cancels.length_eq (h : Cancels c userId uuids db db' found) (hu : db.UuidsApart) :
    found.length = (uuids.filter fun uuid => uuid ∈ found.map Prod.snd).dedup.length := by
  have hsnd : (found.map Prod.snd).Nodup := by
    refine List.Nodup.map_on ?_ (List.Nodup.of_map _ h.nodup)
    rintro ⟨t, u⟩ he ⟨t', u'⟩ he' heq
    obtain rfl : u = u' := heq
    obtain ⟨task, hf, htask, -⟩ := (h.mem _ _).1 he
    obtain ⟨task', hf', htask', -⟩ := (h.mem _ _).1 he'
    rw [hu t t' task task' hf hf' (htask.trans htask'.symm)]
  have hperm : ((uuids.filter fun uuid => uuid ∈ found.map Prod.snd).dedup).Perm
      (found.map Prod.snd) := by
    refine (List.perm_ext_iff_of_nodup (List.nodup_dedup _) hsnd).2 fun u => ?_
    rw [List.mem_dedup, List.mem_filter, decide_eq_true_eq]
    refine ⟨fun hm => hm.2, fun hm => ⟨?_, hm⟩⟩
    obtain ⟨⟨t, u⟩, he, rfl⟩ := List.mem_map.1 hm
    obtain ⟨task, -, -, hmem, -⟩ := (h.mem _ _).1 he
    exact hmem
  rw [hperm.length_eq, List.length_map]

/-- Run alone, the batch cancels the listed tasks that the user may cancel and no other, whichever
chunks their uuids fall into, counts each of them once, returns the uuids of the others in their
order and takes the cancelled ones from the queues. Where it fails, a first part of the list has
been cancelled and nothing is taken from the queues. -/
theorem batch_cancels {s s' : Infra} {r : Except Error TasksCancelByUuidsResp}
    (h : Service.runs (Service.cancelTasksByUuids userId uuids) faults s = some (r, (rest, s')))
    (hu : s.db.UuidsApart) :
    (∀ resp, r = .ok resp → ∃ found, Cancels s.clock userId uuids s.db s'.db found ∧
      resp.failedUuids = (uuids.filter fun uuid => uuid ∉ found.map Prod.snd) ∧
      resp.cancelledCount =
        (uuids.filter fun uuid => uuid ∈ found.map Prod.snd).dedup.length ∧
      s' = { s with
        db := s'.db
        taskChan := s.taskChan ++
          if s.taskRx then found.map fun e => .removeTask e.1 else [] }) ∧
    ∀ e, r = .error e → ∃ found first left, uuids = first ++ left ∧
      Cancels s.clock userId first s.db s'.db found ∧ s' = { s with db := s'.db } := by
  unfold Service.cancelTasksByUuids at h
  split at h
  next =>
    obtain ⟨⟩ := h
    exact ⟨nofun, fun _ _ => ⟨[], [], uuids, rfl, .nil _ _ _, rfl⟩⟩
  next =>
    rcases Service.runs_bind h with ⟨found, faults₁, s₁, h₁, h⟩ | ⟨e, h₁, rfl⟩
    · rcases Service.runs_cancelChunks h₁ with ⟨found', he, hb⟩ | ⟨_, _, _, _, he, -⟩
      · obtain rfl := Except.ok.inj he
        have hc := hb.cancels
        rw [Chunks.flatten_toChunks] at hc
        rcases Service.runs_bind h with ⟨_, faults₂, s₂, h₂, h⟩ | ⟨e, h₂, -⟩
        · obtain ⟨-, rfl⟩ := Service.removeTasks_sent h₂
          obtain ⟨⟩ := h
          refine ⟨fun resp hr => ⟨found, hc, ?_⟩, nofun⟩
          obtain rfl := Except.ok.inj hr
          refine ⟨rfl, hc.length_eq hu, ?_⟩
          rw [hb.others, List.map_map]
          rfl
        · cases (Service.removeTasks_sent h₂).1
      · cases he
    · rcases Service.runs_cancelChunks h₁ with ⟨_, he, -⟩ | ⟨_, found, ended, failed, -, -, hl, hb⟩
      · cases he
      · refine ⟨nofun, fun _ _ => ⟨found, ended.flatten, failed.flatten, ?_, hb.cancels, hb.others⟩⟩
        rw [← List.flatten_append, ← hl, Chunks.flatten_toChunks]

namespace BatchCancelDemo

def ready : ActiveTask :=
  ⟨1, 1, 1, 70, [], [], 0, 0, .ready, none, 60, 0, ⟨[], [], [], false, none⟩, none, none, none⟩

def db : Db where
  users := Table.empty.set 1 ⟨"alice", .active⟩
  groups := Table.empty.set 1 ⟨"alice", 1, .active, 1, 0, 0⟩
  userGroup := Table.empty.set (1, 1) .admin
  workers := .empty
  groupWorker := .empty
  activeTasks := Table.empty.set 7 ready
  archivedTasks := .empty
  artifacts := .empty
  workerSeq := 2
  taskSeq := 8

theorem apart : db.UuidsApart := by
  intro t t' task task' h h' _
  unfold db at h h'
  rw [Table.find_set] at h h'
  split at h
  next ht =>
    split at h'
    next ht' => exact ht.trans ht'.symm
    next => cases h'
  next => cases h

abbrev run : Option (Except Error TasksCancelByUuidsResp × (List (Option DbErr) × Infra)) :=
  Service.runs (Service.cancelTasksByUuids 1 [70, 90, 70]) [none, none] (.serving db)

/-- A list with a uuid twice and with one that no task has. -/
theorem batch_cancels_seventy : ∃ s', run = some (.ok ⟨1, [90]⟩, ([], s')) ∧
    ∃ found, Cancels 0 1 [70, 90, 70] db s'.db found ∧
      [90] = ([70, 90, 70].filter fun uuid => uuid ∉ found.map Prod.snd) ∧
      1 = ([70, 90, 70].filter fun uuid => uuid ∈ found.map Prod.snd).dedup.length := by
  have hrun : ∃ s', run = some (.ok ⟨1, [90]⟩, ([], s')) := ⟨_, rfl⟩
  obtain ⟨s', h⟩ := hrun
  obtain ⟨found, hc, hfailed, hcount, -⟩ := (batch_cancels h apart).1 _ rfl
  exact ⟨s', h, found, hc, hfailed, hcount⟩

end BatchCancelDemo
end Mitosis
