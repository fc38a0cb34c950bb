import Mitosis.Proof.Faultless

namespace Mitosis
set_option autoImplicit true

namespace Table
variable [DecidableEq κ]

/-- The first match in a table where only one row can match. -/
theorem findSome_unique {t : Table κ ρ} (hk : t.find k = some r) {p : ρ → Prop}
    [DecidablePred p] (hp : p r) (hu : ∀ k' r', t.find k' = some r' → p r' → k' = k)
    (f : κ × ρ → Option β) :
    (t.rows.findSome? fun e => if p e.2 then f e else none) = f (k, r) := by
  have hf : ∀ e ∈ t.rows, p e.2 → e = (k, r) := by
    intro e he hpe
    have hfind : t.find e.1 = some e.2 := mem_rows.1 he
    obtain rfl := hu e.1 e.2 hfind hpe
    exact Prod.ext rfl (Option.some.inj (hfind.symm.trans hk))
  cases hb : f (k, r) with
  | none =>
    apply List.findSome?_eq_none_iff.2
    intro e he
    split
    next hpe =>
      rw [hf e he hpe]
      exact hb
    next => rfl
  | some b =>
    have hs : (t.rows.findSome? fun e => if p e.2 then f e else none).isSome = true := by
      apply List.findSome?_isSome_iff.2
      refine ⟨(k, r), mem_rows.2 hk, ?_⟩
      rw [if_pos hp, hb]
      rfl
    obtain ⟨b', hb'⟩ := Option.isSome_iff_exists.1 hs
    obtain ⟨e, he, hfe⟩ := List.exists_of_findSome?_eq_some hb'
    split at hfe
    next hpe =>
      rw [hf e he hpe, hb] at hfe
      rw [hb', hfe]
    next => cases hfe

theorem findSome_none {t : Table κ ρ} {p : ρ → Prop} [DecidablePred p]
    (h : ∀ k r, t.find k = some r → ¬p r) (f : κ × ρ → Option β) :
    (t.rows.findSome? fun e => if p e.2 then f e else none) = none := by
  apply List.findSome?_eq_none_iff.2
  intro e he
  exact if_neg (h e.1 e.2 (mem_rows.1 he))

end Table

namespace Storage

namespace Store

structure Only (s : Store) (id : TaskId) (task : ActiveTask) : Prop where
  active : s.db.activeTasks.find id = some task
  unique : ∀ id' t, s.db.activeTasks.find id' = some t → t.uuid = task.uuid → id' = id
  fresh : ∀ id' t, s.db.archivedTasks.find id' = some t → t.uuid ≠ task.uuid

def archiving (s : Store) (id : TaskId) (archived : ArchivedTask) : Store :=
  { s with
    db := { s.db with
      activeTasks := s.db.activeTasks.erase id
      archivedTasks := s.db.archivedTasks.set id archived } }

def attachmentOf (s : Store) (groupId : GroupId) (key : String) : Option AttachmentRow :=
  (Select.attachment groupId key).eval s

/-- What a worker should get for an attachment of the group. -/
def Serves (s : Store) (groupId : GroupId) (key : String) (r : Except Error DownloadResp) : Prop :=
  match s.db.groups.find groupId, s.attachmentOf groupId key with
  | some group, some attachment =>
    r = .ok ⟨Cmd.downloadLink (.attachment group.groupName key) attachment.size 3600,
      attachment.size⟩
  | _, _ => ∃ msg, r = .error (notFound msg)

theorem Serves.notFound {s : Store} (h : s.Serves groupId key (.error e)) :
    ∃ msg, e = Storage.notFound msg := by
  unfold Serves at h
  split at h
  next => cases h
  next =>
    obtain ⟨msg, h⟩ := h
    exact ⟨msg, Except.error.inj h⟩

end Store

variable {id : TaskId} {task : ActiveTask} {archived : ArchivedTask}

theorem groupOfActive_only {s : Store} (h : s.Only id task) :
    (Select.groupOfActive task.uuid).eval s = (s.db.groups.find task.groupId).map fun group =>
      ⟨some task.groupId, some group.groupName⟩ :=
  Table.findSome_unique (p := fun t : ActiveTask => t.uuid = task.uuid) h.active rfl h.unique
    fun e => (s.db.groups.find e.2.groupId).map fun (group : Group) =>
      GroupColumns.mk (some e.2.groupId) (some group.groupName)

theorem groupOfArchived_only {s : Store} (h : s.Only id task) :
    (Select.groupOfArchived task.uuid).eval s = none :=
  Table.findSome_none h.fresh _

theorem groupOfActive_archiving {s : Store} (archived : ArchivedTask) (h : s.Only id task) :
    (Select.groupOfActive task.uuid).eval (s.archiving id archived) = none := by
  apply Table.findSome_none (p := fun t : ActiveTask => t.uuid = task.uuid)
  intro id' t ht hu
  simp only [Store.archiving, Table.find_erase] at ht
  split at ht
  next => cases ht
  next hne => exact hne (h.unique id' t ht hu)

theorem groupOfArchived_archiving {s : Store} (h : s.Only id task)
    (hu : archived.uuid = task.uuid) (hg : archived.groupId = task.groupId) :
    (Select.groupOfArchived task.uuid).eval (s.archiving id archived) =
      (s.db.groups.find task.groupId).map fun group => ⟨none, some group.groupName⟩ := by
  have hf : (s.archiving id archived).db.archivedTasks.find id = some archived :=
    Table.find_set_self s.db.archivedTasks id archived
  rw [← hg]
  apply Table.findSome_unique (p := fun t : ArchivedTask => t.uuid = task.uuid) hf hu
  intro id' t ht hut
  simp only [Store.archiving, Table.find_set] at ht
  split at ht
  next hid => exact hid
  next => exact (h.fresh id' t ht hut).elim

namespace Service
open Fallible (run_bind_ok)

def download (i : Nat) (uuid : Uuid) (key : String) (x : Infra) :
    Option (Except Error DownloadResp) :=
  (alone i (workerDownloadAttachment uuid key) x).map Prod.fst

theorem alone_groupOfTask {x : Infra} (ha : (Select.groupOfActive uuid).eval (x.txns.view i) = none) :
    alone i (groupOfTask uuid) x = alone i (do
      let group ← decodeGroup ((Select.groupOfArchived uuid).eval (x.txns.view i))
      Fallible.okOr (notFound s!"Task with uuid {uuid}") group) x := by
  unfold groupOfTask
  rw [alone_bind_ok (alone_select _ x), ha]
  exact alone_bind_ok (alone_select _ x) _

theorem download_of_missing {x : Infra} (key : String)
    (ha : (Select.groupOfActive uuid).eval (x.txns.view i) = none)
    (hr : (Select.groupOfArchived uuid).eval (x.txns.view i) = none) :
    download i uuid key x = some (.error (notFound s!"Task with uuid {uuid}")) := by
  have hgroup := alone_groupOfTask ha
  rw [hr] at hgroup
  unfold download workerDownloadAttachment
  rw [alone_bind_error (hgroup.trans rfl)]
  rfl

theorem download_of_archived {x : Infra} (key : String)
    (ha : (Select.groupOfActive uuid).eval (x.txns.view i) = none)
    (hr : (Select.groupOfArchived uuid).eval (x.txns.view i) = some ⟨none, some name⟩) :
    download i uuid key x = some (.error (.dbError .query)) := by
  have hgroup := alone_groupOfTask ha
  rw [hr] at hgroup
  unfold download workerDownloadAttachment
  rw [alone_bind_error (hgroup.trans rfl)]
  rfl

end Service

open Storage.Service (download)

/-- A download gives the attachment whether the task is active or archived if and only if the
task's group has no row. -/
theorem download_moved_iff {x x' : Infra} (h : (x.txns.view i).Only id task)
    (hu : archived.uuid = task.uuid) (hg : archived.groupId = task.groupId)
    (hx : x'.txns.view i = (x.txns.view i).archiving id archived) (key : String) :
    ((∃ r, download i task.uuid key x = some r ∧ (x.txns.view i).Serves task.groupId key r) ∧
        download i task.uuid key x' = download i task.uuid key x) ↔
      (x.txns.view i).db.groups.find task.groupId = none := by
  have ha := groupOfActive_only h
  have ha' := groupOfActive_archiving archived h
  have hr := groupOfArchived_only h
  have hr' := groupOfArchived_archiving h hu hg
  rw [← hx] at ha' hr'
  cases hgroup : (x.txns.view i).db.groups.find task.groupId with
  | none =>
    rw [hgroup] at ha hr'
    have hd := Service.download_of_missing key ha hr
    have hd' := Service.download_of_missing key ha' hr'
    constructor
    · intro
      rfl
    · intro
      constructor
      · refine ⟨_, hd, ?_⟩
        simp only [Store.Serves, hgroup]
        exact ⟨_, rfl⟩
      · rw [hd, hd']
  | some group =>
    rw [hgroup] at ha hr'
    have hd' := Service.download_of_archived key ha' hr'
    constructor
    · rintro ⟨⟨r, hd, hs⟩, he⟩
      rw [hd, hd'] at he
      obtain rfl := Option.some.inj he
      obtain ⟨msg, he⟩ := hs.notFound
      cases he
    · intro he
      cases he

namespace DownloadDemo

def waiting : ActiveTask :=
  ⟨1, 1, 1, 7, [], [], 0, 0, .ready, none, 10, 0, ⟨[], [], [], false, none⟩, none, none, none⟩

/-- The group `u` with an attachment `a`. -/
def store : Store :=
  { Demo.store with
    attachments := Table.empty.set (1, "a") ⟨.noSet, 5, 0, 0⟩
    attachmentIds := Table.empty.set 1 (1, "a") }

def infra (s : Store) : Infra := ⟨⟨s, .empty⟩, 3, 0⟩

def moved : Store := store.archiving 1 (Db.cancelledTask 1 waiting)

def groupless : Store := { store with db := { store.db with groups := .empty } }

theorem only (s : Store) (ha : s.db.activeTasks = Demo.store.db.activeTasks)
    (hr : s.db.archivedTasks = .empty) : s.Only 1 waiting := by
  constructor
  · rw [ha]
    rfl
  · intro id t ht _
    rw [ha] at ht
    exact congrArg Prod.fst (List.mem_singleton.1 (Table.mem_rows.2 ht))
  · intro id t ht
    rw [hr] at ht
    cases ht

end DownloadDemo

open DownloadDemo in
/-- The worker gets its attachment while the task is active, and an error once it is archived. -/
theorem archived_download_fails :
    download 0 7 "a" (infra store) =
        some (.ok ⟨⟨.attachment "u" "a", 3600⟩, 5⟩) ∧
      download 0 7 "a" (infra moved) = some (.error (.dbError .query)) := by
  decide +kernel

open DownloadDemo in
/-- Without the group's row both downloads find no task. -/
theorem groupless_download_same : (∃ r, download 0 7 "a" (infra groupless) = some r ∧
      groupless.Serves 1 "a" r) ∧
    download 0 7 "a" (infra (groupless.archiving 1 (Db.cancelledTask 1 waiting))) =
      download 0 7 "a" (infra groupless) :=
  have h : ((infra groupless).txns.view 0).Only 1 waiting := only groupless rfl rfl
  have hu : (Db.cancelledTask 1 waiting).uuid = waiting.uuid := rfl
  (download_moved_iff h hu rfl rfl "a").2 rfl

end Storage
end Mitosis
