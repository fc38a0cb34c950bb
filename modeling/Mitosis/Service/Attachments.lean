import Mitosis.Service.Storage

namespace Mitosis
set_option autoImplicit true

namespace Storage

structure AttachmentsQueryReq where
  key : Option String
  limit : Option Nat
  offset : Option Nat
  count : Bool

structure AttachmentsQueryResp where
  count : Nat
  attachments : List AttachmentQueryInfo
  groupName : String
  deriving DecidableEq

structure AttachmentDownloadItem where
  key : String
  url : DownloadLink
  size : Int
  deriving DecidableEq

structure GroupInfo where
  id : GroupId
  groupName : String
  deriving DecidableEq

/-- The derived `FromQueryResult`. It fails where a column is absent. -/
def GroupInfo.fromQueryResult (row : GroupColumns) : Except Error GroupInfo :=
  match row.id, row.groupName with
  | some id, some groupName => .ok ⟨id, groupName⟩
  | _, _ => .error (.dbError .query)

namespace Service
open Fallible (okOr ofExcept fail)

def queryAttachmentsByFilter (userId : UserId) (groupName : String) (query : AttachmentsQueryReq) :
    Service AttachmentsQueryResp := do
  checkMember userId groupName
  let key := query.key.getD ""
  if query.count then
    let count ← select (.attachmentCount groupName key query.limit query.offset)
    return ⟨count.getD 0, [], groupName⟩
  else
    let attachments ← select (.attachmentInfos groupName key query.limit query.offset)
    return ⟨attachments.length, attachments, groupName⟩

def attachmentsOfChunks (groupId : GroupId) : List (List String) → Service (List AttachmentRow)
  | [] => pure []
  | chunk :: chunks => do
    let attachments ← select (.attachments groupId chunk)
    let rest ← attachmentsOfChunks groupId chunks
    return attachments ++ rest

def presignAttachments (groupName : String) :
    List AttachmentRow → Service (List AttachmentDownloadItem)
  | [] => pure []
  | attachment :: attachments => do
    let url ← issue
      (.presignDownload (.attachment groupName attachment.key) attachment.size 86400)
    let rest ← presignAttachments groupName attachments
    return ⟨attachment.key, url, attachment.size⟩ :: rest

def generateAttachmentDownloads (groupName : String) (keys : List String) :
    Service (List AttachmentDownloadItem) := do
  let group ← select (.groupByName groupName)
  let group ← okOr (notFound s!"Group {groupName} not found") group
  let attachments ← attachmentsOfChunks group.1 (keys.toChunks 2048)
  presignAttachments groupName attachments

def batchDownloadAttachmentsByFilter (userId : UserId) (groupName : String)
    (key : Option String) (limit offset : Option Nat) :
    Service (List AttachmentDownloadItem) := do
  let resp ← queryAttachmentsByFilter userId groupName ⟨key, limit, offset, false⟩
  generateAttachmentDownloads groupName (resp.attachments.map AttachmentQueryInfo.key)

def batchDownloadAttachmentsByKeys (userId : UserId) (groupName : String) (keys : List String) :
    Service (List AttachmentDownloadItem) := do
  checkMember userId groupName
  if keys.isEmpty then fail (invalid "Keys list cannot be empty")
  else generateAttachmentDownloads groupName keys

def userGetAttachment (userId : UserId) (groupName key : String) : Service DownloadResp := do
  let attachment ← getAttachmentFromDb userId groupName key false false
  let url ← issue (.presignDownload (.attachment groupName key) attachment.size 3600)
  return ⟨url, attachment.size⟩

/-- `find_by_statement(..).one()`, once the database has answered. -/
def decodeGroup (row : Option GroupColumns) : Service (Option GroupInfo) :=
  ofExcept (row.mapM GroupInfo.fromQueryResult)

def groupOfTask (uuid : Uuid) : Service GroupInfo := do
  let row ← select (.groupOfActive uuid)
  match ← decodeGroup row with
  | some group => return group
  | none =>
    let row ← select (.groupOfArchived uuid)
    let group ← decodeGroup row
    okOr (notFound s!"Task with uuid {uuid}") group

def workerDownloadAttachment (uuid : Uuid) (key : String) : Service DownloadResp := do
  let group ← groupOfTask uuid
  let attachment ← select (.attachment group.id key)
  let attachment ← okOr (attachmentNotFound group.groupName key) attachment
  let url ← issue (.presignDownload (.attachment group.groupName key) attachment.size 3600)
  return ⟨url, attachment.size⟩

end Service
end Storage
end Mitosis
