import Mitosis.Lib.Keeps
import Mitosis.Service.Attachments

namespace Mitosis
set_option autoImplicit true

namespace Storage

/-- The command touches no object and no record of one. -/
def Cmd.quiet : Cmd → Bool
  | .select _ | .now | .start | .commit | .rollback | .update (.updateGroup _ _ _ _) => true
  | _ => false

namespace Service
open Fallible (Keeps)
open Fallible.Keeps (fail okOr ofExcept)

section
variable {need : Fallible.History Cmd Cmd.Ret Error → Cmd → Prop}
  {P : Fallible.History Cmd Cmd.Ret Error → Prop}
  (h : ∀ c : Cmd, c.quiet = true → Keeps need P (issue c))
include h

theorem keeps_select (q : Select) : Keeps need P (select q) := h (.select q) rfl

theorem keeps_now : Keeps need P now := h .now rfl

theorem keeps_transaction {p : Service α} (hp : Keeps need P p) :
    Keeps need P (transaction p) := by
  refine (h .start rfl).bind fun _ => hp.attempt.bind fun r => ?_
  cases r with
  | ok a => exact (h .commit rfl).bind fun _ => .pure _
  | error e => exact (h .rollback rfl).bind fun _ => fail _

theorem keeps_findTaskByUuid : Keeps need P (findTaskByUuid uuid) := by
  refine (keeps_select h _).bind fun found => ?_
  cases found with
  | some e => exact .pure _
  | none => exact (keeps_select h _).bind fun _ => (okOr _ _).bind fun _ => .pure _

theorem keeps_artifactsOfChunks (chunks : List (List Uuid)) :
    Keeps need P (artifactsOfChunks contentType chunks) := by
  induction chunks with
  | nil => exact .pure _
  | cons chunk chunks ih => exact (keeps_select h _).bind fun _ => ih.bind fun _ => .pure _

theorem keeps_queriedGroup (name : Option String) : Keeps need P (queriedGroup userId name) := by
  cases name with
  | some name => exact .pure _
  | none => exact (keeps_select h _).bind fun _ => (okOr _ _).bind fun _ => .pure _

theorem keeps_checkTaskListQuery : Keeps need P (checkTaskListQuery userId query role) := by
  refine (ofExcept _).bind fun _ => (keeps_queriedGroup h _).bind fun _ => ?_
  refine (keeps_select h _).bind fun r => ?_
  cases r with
  | some r => exact .ite _ (.pure _) (fail _)
  | none => exact fail _

theorem keeps_queryTasksByFilter : Keeps need P (queryTasksByFilter userId query) := by
  refine (keeps_checkTaskListQuery h).bind fun q => (ofExcept _).bind fun _ => ?_
  refine .ite _ ?_ ?_
  · exact (keeps_select h _).bind fun _ => (keeps_select h _).bind fun _ => .pure _
  · exact (keeps_select h _).bind fun _ => (keeps_select h _).bind fun _ => .pure _

theorem keeps_checkMember : Keeps need P (checkMember userId groupName) := by
  refine (keeps_select h _).bind fun role => ?_
  cases role with
  | some _ => exact .pure _
  | none => exact fail _

theorem keeps_getAttachmentFromDb :
    Keeps need P (getAttachmentFromDb userId groupName key write admin) := by
  refine (keeps_select h _).bind fun _ => (okOr _ _).bind fun _ => .ite _ ?_ ?_
  · refine (keeps_select h _).bind fun _ => (okOr _ _).bind fun _ => .ite _ (fail _) ?_
    exact (keeps_select h _).bind fun _ => okOr _ _
  · exact (keeps_select h _).bind fun _ => okOr _ _

theorem keeps_queryAttachmentsByFilter :
    Keeps need P (queryAttachmentsByFilter userId groupName query) := by
  refine (keeps_checkMember h).bind fun _ => .ite _ ?_ ?_
  · exact (keeps_select h _).bind fun _ => .pure _
  · exact (keeps_select h _).bind fun _ => .pure _

theorem keeps_release {delete : Update} (ho : Keeps need P (issue (.deleteObject object)))
    (hd : Keeps need P (update delete)) :
    Keeps need P (release object groupId size msg delete) := by
  refine keeps_transaction h (ho.bind fun _ => (keeps_select h _).bind fun _ => ?_)
  refine (okOr _ _).bind fun _ => (keeps_now h).bind fun _ => ?_
  exact (h (.update (.updateGroup _ _ _ _)) rfl).bind fun _ => hd

theorem keeps_deleteListedArtifact
    (hd : ∀ task, Keeps need P (deleteArtifact task contentType false)) :
    Keeps need P (deleteListedArtifact userId contentType artifact) := by
  refine (keeps_findTaskByUuid h).attempt.bind fun found => ?_
  cases found with
  | error e => exact .pure _
  | ok task =>
    refine (keeps_select h _).bind fun role => ?_
    cases role with
    | none => exact .pure _
    | some role =>
      refine .ite _ (.pure _) ((keeps_now h).bind fun _ => .ite _ ?_ (.pure _))
      refine (hd task).attempt.bind fun r => ?_
      cases r with
      | ok _ => exact .pure _
      | error _ => exact .pure _

theorem keeps_deleteArtifactsByUuidsInternal
    (hd : ∀ task, Keeps need P (deleteArtifact task contentType false)) :
    Keeps need P (deleteArtifactsByUuidsInternal userId uuids contentType) := by
  have hlisted : ∀ artifacts,
      Keeps need P (deleteListedArtifacts userId contentType artifacts) := by
    intro artifacts
    induction artifacts with
    | nil => exact .pure _
    | cons artifact artifacts ih =>
      exact (keeps_deleteListedArtifact h hd).bind fun _ => ih.bind fun _ => .pure _
  exact (keeps_artifactsOfChunks h _).bind fun _ => (hlisted _).bind fun _ => .pure _

theorem keeps_allocate (ho : Keeps need P (issue (.presignUpload object length)))
    (hw : ∀ size, Keeps need P (update (write size))) :
    Keeps need P (allocate object group length time found write) := by
  unfold allocate checkQuota
  refine Keeps.bind (.ite _ (fail _) (.pure _)) fun _ => ho.bind fun _ => (hw _).bind fun _ => ?_
  exact (h (.update (.updateGroup _ _ _ _)) rfl).bind fun _ => .pure _

end

end Service
end Storage
end Mitosis
