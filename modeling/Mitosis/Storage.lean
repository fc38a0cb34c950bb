import Mitosis.Lib.Fallible
import Mitosis.Lib.Txn
import Mitosis.TaskQuery

namespace Mitosis
set_option autoImplicit true

namespace Storage

inductive AttachmentContentType where
  | noSet
  deriving DecidableEq

structure Attachment where
  contentType : AttachmentContentType
  size : Int
  createdAt : Instant
  updatedAt : Instant
  deriving DecidableEq

/-- An object of the store, under the key that the coordinator gives it. -/
inductive Object where
  | artifact (uuid : Uuid) (contentType : ArtifactContentType)
  | attachment (groupName key : String)
  deriving DecidableEq

/-- The link a client uploads to, for exactly this many bytes. -/
structure UploadLink where
  object : Object
  length : Int
  deriving DecidableEq

structure DownloadLink where
  object : Object
  expires : Nat
  deriving DecidableEq

/-- The database, with the primary keys of the artifacts and with the attachments. -/
structure Store where
  db : Db
  artifactIds : Table Nat (Uuid × ArtifactContentType)
  attachments : Table (GroupId × String) Attachment
  attachmentIds : Table Nat (GroupId × String)

/-- A row of `artifacts`, with its primary key. -/
structure ArtifactRow where
  id : Nat
  taskId : Uuid
  contentType : ArtifactContentType
  size : Int
  createdAt : Instant
  updatedAt : Instant
  deriving DecidableEq

structure AttachmentRow where
  id : Nat
  groupId : GroupId
  key : String
  contentType : AttachmentContentType
  size : Int
  createdAt : Instant
  updatedAt : Instant
  deriving DecidableEq

namespace Store

def artifactRow (s : Store) (id : Nat) (key : Uuid × ArtifactContentType) : Option ArtifactRow :=
  (s.db.artifacts.find key).map fun a => ⟨id, key.1, key.2, a.size, a.createdAt, a.updatedAt⟩

def attachmentRow (s : Store) (id : Nat) (key : GroupId × String) : Option AttachmentRow :=
  (s.attachments.find key).map fun a =>
    ⟨id, key.1, key.2, a.contentType, a.size, a.createdAt, a.updatedAt⟩

end Store

def like : (p s : List Char) → Bool
  | [], s => s.isEmpty
  | '%' :: p, s => s.tails.any (like p)
  | '_' :: p, s => match s with
    | [] => false
    | _ :: s => like p s
  | '\\' :: c :: p, s => match s with
    | [] => false
    | d :: s => c = d && like p s
  | c :: p, s => match s with
    | [] => false
    | d :: s => c = d && like p s

structure AttachmentQueryInfo where
  key : String
  contentType : AttachmentContentType
  size : Int
  createdAt : Instant
  updatedAt : Instant
  deriving DecidableEq

structure GroupColumns where
  id : Option GroupId
  groupName : Option String

/-- The attachments of the group whose key matches `%key%`. -/
def Store.attachmentInfos (s : Store) (groupName key : String) : List AttachmentQueryInfo :=
  s.attachments.rows.filterMap fun e =>
    if (s.db.groups.find e.1.1).any (fun g => decide (g.groupName = groupName)) &&
        like ('%' :: key.toList ++ ['%']) e.1.2.toList then
      some ⟨e.1.2, e.2.contentType, e.2.size, e.2.createdAt, e.2.updatedAt⟩
    else none

inductive Select where
  | db (q : Mitosis.Select)
  | tasks (q : TaskSelect)
  | groupByName (name : String)
  | artifact (uuid : Uuid) (contentType : ArtifactContentType)
  | artifacts (uuids : List Uuid) (contentType : ArtifactContentType)
  | attachment (groupId : GroupId) (key : String)
  | attachments (groupId : GroupId) (keys : List String)
  | attachmentInfos (groupName key : String) (limit offset : Option Nat)
  | attachmentCount (groupName key : String) (limit offset : Option Nat)
  | groupOfActive (uuid : Uuid)
  | groupOfArchived (uuid : Uuid)

namespace Select

abbrev Ret : Select → Type
  | db q => q.Ret
  | tasks q => q.Ret
  | groupByName _ => Option (GroupId × Group)
  | artifact _ _ => Option ArtifactRow
  | artifacts _ _ => List ArtifactRow
  | attachment _ _ => Option AttachmentRow
  | attachments _ _ => List AttachmentRow
  | attachmentInfos _ _ _ _ => List AttachmentQueryInfo
  | attachmentCount _ _ _ _ => Option Nat
  | groupOfActive _ => Option GroupColumns
  | groupOfArchived _ => Option GroupColumns

def eval (s : Store) : (q : Select) → q.Ret
  | db q => q.eval s.db
  | tasks q => q.eval s.db
  | groupByName name => s.db.groups.findWhere fun _ g => g.groupName = name
  | artifact uuid contentType => s.artifactIds.rows.findSome? fun e =>
    if e.2 = (uuid, contentType) then s.artifactRow e.1 e.2 else none
  | artifacts uuids contentType => s.artifactIds.rows.filterMap fun e =>
    if e.2.1 ∈ uuids ∧ e.2.2 = contentType then s.artifactRow e.1 e.2 else none
  | attachment groupId key => s.attachmentIds.rows.findSome? fun e =>
    if e.2 = (groupId, key) then s.attachmentRow e.1 e.2 else none
  | attachments groupId keys => s.attachmentIds.rows.filterMap fun e =>
    if e.2.1 = groupId ∧ e.2.2 ∈ keys then s.attachmentRow e.1 e.2 else none
  | attachmentInfos groupName key limit offset => page limit offset (s.attachmentInfos groupName key)
  | attachmentCount groupName key limit offset =>
    (page limit offset [(s.attachmentInfos groupName key).length]).head?
  | groupOfActive uuid => s.db.activeTasks.rows.findSome? fun e =>
    if e.2.uuid = uuid then
      (s.db.groups.find e.2.groupId).map fun g => ⟨some e.2.groupId, some g.groupName⟩
    else none
  | groupOfArchived uuid => s.db.archivedTasks.rows.findSome? fun e =>
    if e.2.uuid = uuid then
      (s.db.groups.find e.2.groupId).map fun g => ⟨none, some g.groupName⟩
    else none

end Select

/-- The statements that write. The rows `seen`, as the handler has read them, are not part of the
SQL, apart from their primary key, nor is the `growth` behind a group's new `storage_used`. -/
inductive Update where
  | touchTask (task : Db.StoredTask) (now : Instant)
  | updateArtifact (seen : ArtifactRow) (size : Int) (now : Instant)
  | insertArtifact (uuid : Uuid) (contentType : ArtifactContentType) (size : Int) (now : Instant)
  | deleteArtifact (seen : ArtifactRow)
  | updateAttachment (seen : AttachmentRow) (size : Int) (now : Instant)
  | insertAttachment (groupId : GroupId) (key : String) (size : Int) (now : Instant)
  | deleteAttachment (seen : AttachmentRow)
  | updateGroup (seen : GroupId × Group) (growth used : Int) (now : Instant)

inductive Row where
  | activeTask (id : TaskId)
  | archivedTask (id : TaskId)
  | artifact (key : Uuid × ArtifactContentType)
  | attachment (key : GroupId × String)
  | group (id : GroupId)
  deriving DecidableEq

/-- What a statement does to one row, or to none. -/
inductive Change where
  | nothing
  | touchActive (id : TaskId) (now : Instant)
  | touchArchived (id : TaskId) (now : Instant)
  | setArtifact (key : Uuid × ArtifactContentType) (size : Int) (now : Instant)
  | addArtifact (id : Nat) (key : Uuid × ArtifactContentType) (artifact : Artifact)
  | dropArtifact (id : Nat) (key : Uuid × ArtifactContentType)
  | setAttachment (key : GroupId × String) (size : Int) (now : Instant)
  | addAttachment (id : Nat) (key : GroupId × String) (attachment : Attachment)
  | dropAttachment (id : Nat) (key : GroupId × String)
  | setStorageUsed (id : GroupId) (used : Int) (now : Instant)

namespace Change

def rows : Change → List Row
  | nothing => []
  | touchActive id _ => [.activeTask id]
  | touchArchived id _ => [.archivedTask id]
  | setArtifact key _ _ => [.artifact key]
  | addArtifact _ key _ => [.artifact key]
  | dropArtifact _ key => [.artifact key]
  | setAttachment key _ _ => [.attachment key]
  | addAttachment _ key _ => [.attachment key]
  | dropAttachment _ key => [.attachment key]
  | setStorageUsed id _ _ => [.group id]

def apply (s : Store) : Change → Store
  | nothing => s
  | touchActive id now => { s with
      db.activeTasks := s.db.activeTasks.update id fun task => { task with updatedAt := now } }
  | touchArchived id now => { s with
      db.archivedTasks := s.db.archivedTasks.update id fun task => { task with updatedAt := now } }
  | setArtifact key size now => { s with
      db.artifacts := s.db.artifacts.update key fun a => { a with size, updatedAt := now } }
  | addArtifact id key artifact => { s with
      db := { s.db with artifacts := s.db.artifacts.set key artifact }
      artifactIds := s.artifactIds.set id key }
  | dropArtifact id key => { s with
      db := { s.db with artifacts := s.db.artifacts.erase key }
      artifactIds := s.artifactIds.erase id }
  | setAttachment key size now => { s with
      attachments := s.attachments.update key fun a => { a with size, updatedAt := now } }
  | addAttachment id key attachment => { s with
      attachments := s.attachments.set key attachment
      attachmentIds := s.attachmentIds.set id key }
  | dropAttachment id key => { s with
      attachments := s.attachments.erase key
      attachmentIds := s.attachmentIds.erase id }
  | setStorageUsed id used now => { s with
      db.groups := s.db.groups.update id fun g => { g with storageUsed := used, updatedAt := now } }

end Change

/-- A change, with the statement that made it. -/
structure Write where
  source : Update
  change : Change

instance : RowWrite Write Store Row where
  rows w := w.change.rows
  apply w s := w.change.apply s

namespace Update

def done (u : Update) (c : Change) : Answer Row Write Error Unit := ⟨c.rows, .ok ((), [⟨u, c⟩])⟩

def failed (waits : List Row) (e : DbErr) : Answer Row Write Error Unit :=
  ⟨waits, .error (.dbError e)⟩

/-- What a statement does. A new row gets the primary key `next`. -/
def answer (next : Nat) (s : Store) (u : Update) : Answer Row Write Error Unit :=
  match u with
  | touchTask (.active id _) now => match s.db.activeTasks.find id with
    | none => failed [] .recordNotUpdated
    | some _ => u.done (.touchActive id now)
  | touchTask (.archived id _) now => match s.db.archivedTasks.find id with
    | none => failed [] .recordNotUpdated
    | some _ => u.done (.touchArchived id now)
  | updateArtifact seen size now => match s.artifactIds.find seen.id with
    | none => failed [] .recordNotUpdated
    | some key => u.done (.setArtifact key size now)
  | insertArtifact uuid contentType size now => match s.db.artifacts.find (uuid, contentType) with
    | some _ => failed [.artifact (uuid, contentType)] .constraint
    | none => u.done (.addArtifact next (uuid, contentType) ⟨size, now, now⟩)
  | deleteArtifact seen => match s.artifactIds.find seen.id with
    | none => u.done .nothing
    | some key => u.done (.dropArtifact seen.id key)
  | updateAttachment seen size now => match s.attachmentIds.find seen.id with
    | none => failed [] .recordNotUpdated
    | some key => u.done (.setAttachment key size now)
  | insertAttachment groupId key size now => match s.attachments.find (groupId, key) with
    | some _ => failed [.attachment (groupId, key)] .constraint
    | none => match s.db.groups.find groupId with
      | none => failed [] .constraint
      | some _ => u.done (.addAttachment next (groupId, key) ⟨.noSet, size, now, now⟩)
  | deleteAttachment seen => match s.attachmentIds.find seen.id with
    | none => u.done .nothing
    | some key => u.done (.dropAttachment seen.id key)
  | updateGroup seen _ used now => match s.db.groups.find seen.1 with
    | none => failed [] .recordNotUpdated
    | some _ => u.done (.setStorageUsed seen.1 used now)

end Update

/-- What the sessions share. Primary keys are drawn outside of the transactions. -/
structure Infra where
  txns : Txns Store Write
  next : Nat
  clock : Instant

inductive Cmd where
  | select (q : Select)
  | update (q : Update)
  | start
  | commit
  | rollback
  | presignUpload (object : Object) (length : Int)
  | presignDownload (object : Object) (length : Int) (minExpires : Nat)
  | deleteObject (object : Object)
  | now

namespace Cmd

abbrev Ret : Cmd → Type
  | select q => q.Ret
  | presignUpload _ _ => UploadLink
  | presignDownload _ _ _ => DownloadLink
  | now => Instant
  | _ => Unit

abbrev Resp (c : Cmd) : Type := Except Error c.Ret

def s3Error : Error := .custom "request to the object store failed"

/-- `get_presigned_upload_link`. -/
def uploadLink (object : Object) (length : Int) : Except Error UploadLink :=
  if length < 0 then .error (.apiError (.invalidContentLength length)) else .ok ⟨object, length⟩

/-- `get_presigned_download_link`. -/
def downloadLink (object : Object) (length : Int) (minExpires : Nat) : DownloadLink :=
  ⟨object, max (min 86400 (max 3600 (asU64 length / 1000000))) minExpires⟩

/-- One step of the session `i`. With a fault the database or the object store answers with an
error; a transaction that cannot be committed is rolled back. -/
def exec (i : Nat) (fault : Option DbErr) (s : Infra) : (c : Cmd) → Option (c.Resp × Infra)
  | select q => some (match fault with
    | some e => (.error (.dbError e), s)
    | none => (.ok (q.eval (s.txns.view i)), s))
  | update q => match fault with
    | some e => some (.error (.dbError e), s)
    | none => (s.txns.execute i (q.answer s.next)).map fun r =>
      (r.1, { s with txns := r.2, next := s.next + 1 })
  | start => some (match fault with
    | some e => (.error (.dbError e), s)
    | none => (.ok (), { s with txns := s.txns.start i }))
  | commit => some (match fault with
    | some e => (.error (.dbError e), { s with txns := s.txns.rollback i })
    | none => (.ok (), { s with txns := s.txns.commit i }))
  | rollback => some (.ok (), { s with txns := s.txns.rollback i })
  | presignUpload object length => some (match fault with
    | some _ => (.error s3Error, s)
    | none => (uploadLink object length, s))
  | presignDownload object length minExpires => some (match fault with
    | some _ => (.error s3Error, s)
    | none => (.ok (downloadLink object length minExpires), s))
  | deleteObject _ => some (match fault with
    | some _ => (.error s3Error, s)
    | none => (.ok (), s))
  | now => some (.ok s.clock, s)

end Cmd

abbrev Service (α : Type) : Type := Fallible Cmd Cmd.Ret Error α

namespace Service
open Fallible (attempt fail)

def issue (c : Cmd) : Service c.Ret := Fallible.issue c

def select (q : Select) : Service q.Ret := issue (.select q)

def update (q : Update) : Service Unit := issue (.update q)

def now : Service Instant := issue .now

def transaction (p : Service α) : Service α := do
  issue .start
  match ← attempt p with
  | .ok a =>
    issue .commit
    return a
  | .error e =>
    issue .rollback
    fail e

end Service
end Storage
end Mitosis
