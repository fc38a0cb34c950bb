import Mitosis.Proof.Reads
import Mitosis.Proof.Transactions

namespace Mitosis
set_option autoImplicit true

namespace Storage

inductive NameRead (K : History) (groupId : GroupId) (name : String) : Prop
  | group : ⟨.select (.groupByName name), .ok (some (groupId, row))⟩ ∈ K → NameRead K groupId name
  | active : ⟨.select (.groupOfActive uuid), .ok (some ⟨some groupId, some name⟩)⟩ ∈ K →
    NameRead K groupId name
  | archived : ⟨.select (.groupOfArchived uuid), .ok (some ⟨some groupId, some name⟩)⟩ ∈ K →
    NameRead K groupId name

inductive KeyRead (K : History) (groupId : GroupId) (key : String) : Prop
  | one : ⟨.select (.attachment groupId key), .ok (some row)⟩ ∈ K → KeyRead K groupId key
  | listed : ⟨.select (.attachments groupId keys), .ok rows⟩ ∈ K → row ∈ rows → row.key = key →
    KeyRead K groupId key

def allowed (name key : String) : Prop := Service.checkAttachmentKey s!"{name}/{key}" = false

def Cmd.keyed (K : History) : Cmd → Prop
  | .update (.insertAttachment groupId key _ _) =>
    ∃ name, NameRead K groupId name ∧ allowed name key
  | .presignUpload (.attachment name key) _ =>
    ∃ groupId, NameRead K groupId name ∧ allowed name key
  | .presignDownload (.attachment name key) _ _ | .deleteObject (.attachment name key) =>
    ∃ groupId, NameRead K groupId name ∧ KeyRead K groupId key
  | _ => True

/-- The command adds no attachment and touches no object of one. -/
def Cmd.plainly : Cmd → Bool
  | .update (.insertAttachment _ _ _ _) => false
  | .presignUpload (.attachment _ _) _ | .presignDownload (.attachment _ _) _ _
  | .deleteObject (.attachment _ _) => false
  | _ => true

theorem Cmd.keyed_of_plainly {c : Cmd} (h : c.plainly = true) (K : History) : c.keyed K := by
  cases c with
  | update q =>
    cases q with
    | insertAttachment => cases h
    | _ => trivial
  | presignUpload object | presignDownload object | deleteObject object =>
    cases object with
    | attachment => cases h
    | artifact => trivial
  | _ => trivial

theorem NameRead.mono (h : NameRead K groupId name) (hK : K ⊆ K') : NameRead K' groupId name := by
  cases h with
  | group h => exact .group (hK h)
  | active h => exact .active (hK h)
  | archived h => exact .archived (hK h)

theorem KeyRead.mono (h : KeyRead K groupId key) (hK : K ⊆ K') : KeyRead K' groupId key := by
  cases h with
  | one h => exact .one (hK h)
  | listed h hr he => exact .listed (hK h) hr he

theorem NameRead.cons (h : NameRead (e :: K) groupId name) :
    NameRead [e] groupId name ∨ NameRead K groupId name := by
  cases h with
  | group hm =>
    rcases List.mem_cons.1 hm with rfl | hm
    · exact .inl (.group (.head _))
    · exact .inr (.group hm)
  | active hm =>
    rcases List.mem_cons.1 hm with rfl | hm
    · exact .inl (.active (.head _))
    · exact .inr (.active hm)
  | archived hm =>
    rcases List.mem_cons.1 hm with rfl | hm
    · exact .inl (.archived (.head _))
    · exact .inr (.archived hm)

theorem KeyRead.cons (h : KeyRead (e :: K) groupId key) :
    KeyRead [e] groupId key ∨ KeyRead K groupId key := by
  cases h with
  | one hm =>
    rcases List.mem_cons.1 hm with rfl | hm
    · exact .inl (.one (.head _))
    · exact .inr (.one hm)
  | listed hm hr hk =>
    rcases List.mem_cons.1 hm with rfl | hm
    · exact .inl (.listed (.head _) hr hk)
    · exact .inr (.listed hm hr hk)

namespace Service
open Fallible (Keeps fail okOr ofExcept)

/-- A handler that has what it needs behind `K`. -/
abbrev Keyed (K : History) (p : Service α) : Prop := Keeps Cmd.keyed (K ⊆ ·) p

/-- A handler that has what it needs, and whose results satisfy `Q`. -/
def Finds (K : History) (p : Service α) (Q : History → α → Prop) : Prop :=
  ∀ K', K ⊆ K' → Fallible.Knows Cmd.keyed K' p fun K'' r =>
    K ⊆ K'' ∧ ∀ a, r = .ok a → Q K'' a

namespace Finds
variable {Q : History → α → Prop}

theorem fail (e : Error) : Finds K (Fallible.fail e : Service α) Q := by
  intro K' hK
  refine ⟨hK, ?_⟩
  intro a ha
  cases ha

theorem andThen {R : History → β → Prop} {f : α → Service β} {p : Service α}
    (hp : Finds K p Q) (hf : ∀ a K', K ⊆ K' → Q K' a → Finds K' (f a) R) : Finds K (p >>= f) R := by
  intro K' hK
  rw [Fallible.knows_bind]
  apply (hp K' hK).mono
  rintro K'' (e | a) ⟨hK'', h⟩
  · exact Finds.fail e K'' hK''
  · apply (hf a K'' hK'' (h a rfl) K'' (List.Subset.refl _)).mono
    rintro K₃ _ ⟨hK₃, hb⟩
    exact ⟨List.Subset.trans hK'' hK₃, hb⟩

theorem okOr {x : Option α} (h : ∀ a K', K ⊆ K' → x = some a → Q K' a) :
    Finds K (Fallible.okOr e x) Q := by
  intro K' hK
  cases x with
  | none => exact Finds.fail e K' hK
  | some a =>
    refine ⟨hK, ?_⟩
    rintro b ⟨⟩
    exact h a K' hK rfl

theorem okOr_bind {x : Option β} {f : β → Service α}
    (hf : ∀ b, x = some b → Finds K (f b) Q) : Finds K (Fallible.okOr e x >>= f) Q := by
  cases x with
  | none => exact Finds.fail e
  | some b => exact hf b rfl

theorem ofExcept_bind {x : Except Error β} {f : β → Service α}
    (hf : ∀ b, x = .ok b → Finds K (f b) Q) : Finds K (ofExcept x >>= f) Q := by
  cases x with
  | error e => exact Finds.fail e
  | ok b => exact hf b rfl

theorem pure {a : α} (h : ∀ K', K ⊆ K' → Q K' a) : Finds K (Pure.pure a : Service α) Q := by
  intro K' hK
  refine ⟨hK, ?_⟩
  rintro b ⟨⟩
  exact h K' hK

theorem select_bind {q : Select} {f : q.Ret → Service α}
    (hf : ∀ r K', K ⊆ K' → ⟨.select q, .ok r⟩ ∈ K' → Finds K' (f r) Q) :
    Finds K (select q >>= f) Q := by
  intro K' hK
  refine (Fallible.knows_issue_bind _ _).2 ⟨trivial, ?_, ?_⟩
  · intro r
    have hcons : K ⊆ ⟨.select q, .ok r⟩ :: K' := List.subset_cons_of_subset _ hK
    apply (hf r _ hcons (.head _) _ (List.Subset.refl _)).mono
    rintro K'' _ ⟨hK'', h⟩
    exact ⟨List.Subset.trans hcons hK'', h⟩
  · intro e
    refine ⟨List.subset_cons_of_subset _ hK, ?_⟩
    intro a ha
    cases ha

theorem of_keyed {p : Service α} (h : Keyed K p) : Finds K p fun _ _ => True := by
  intro K' hK
  apply (h K' hK).mono
  intro K'' _ hK''
  exact ⟨hK'', fun _ _ => trivial⟩

theorem keyed {p : Service α} (h : Finds K p Q) : Keyed K p := by
  intro K' hK
  exact (h K' hK).mono fun _ _ h' => h'.1

theorem bind {f : α → Service β} {p : Service α} (hp : Finds K p Q)
    (hf : ∀ a K', K ⊆ K' → Q K' a → Keyed K' (f a)) : Keyed K (p >>= f) :=
  (hp.andThen fun a K' hK h => of_keyed (hf a K' hK h)).keyed

end Finds

namespace Keyed

theorem issue {c : Cmd} (hc : ∀ K', K ⊆ K' → c.keyed K') : Keyed K (Service.issue c) :=
  Keeps.issue c fun K' hK => ⟨hc K' hK, fun _ => List.subset_cons_of_subset _ hK⟩

theorem plainly {c : Cmd} (hc : c.plainly = true) : Keyed K (Service.issue c) :=
  issue fun _ _ => Cmd.keyed_of_plainly hc _

theorem quiet (c : Cmd) (hc : c.quiet = true) : Keyed K (Service.issue c) := by
  apply plainly
  cases c with
  | update q => cases q <;> first | rfl | cases hc
  | presignUpload | presignDownload | deleteObject => cases hc
  | _ => rfl

theorem select_bind {q : Select} {f : q.Ret → Service α}
    (hf : ∀ r K', K ⊆ K' → ⟨.select q, .ok r⟩ ∈ K' → Keyed K' (f r)) :
    Keyed K (select q >>= f) :=
  (Finds.select_bind fun r K' hK hm => .of_keyed (hf r K' hK hm)).keyed

theorem okOr_bind {x : Option β} {f : β → Service α} (hf : ∀ b, x = some b → Keyed K (f b)) :
    Keyed K (okOr e x >>= f) := (Finds.okOr_bind fun b hb => .of_keyed (hf b hb)).keyed

theorem deleteArtifact : Keyed K (Service.deleteArtifact task contentType admin) := by
  refine (keeps_select quiet _).bind fun _ => (Keeps.okOr _ _).bind fun _ => ?_
  refine (keeps_now quiet).bind fun _ => .ite _ (.fail _) ?_
  exact keeps_release quiet (plainly rfl) (plainly rfl)

theorem deleteAttachment (hn : NameRead K groupId groupName) (hf : KeyRead K groupId key) :
    Keyed K (Service.deleteAttachment attachment groupName key) := by
  apply keeps_release quiet
  · apply issue
    intro K' hK
    exact ⟨groupId, hn.mono hK, hf.mono hK⟩
  · exact plainly rfl

theorem deleteListedAttachments (hn : NameRead K groupId groupName)
    {attachments : List AttachmentRow} (hf : ∀ row ∈ attachments, KeyRead K groupId row.key) :
    Keyed K (Service.deleteListedAttachments groupName attachments) := by
  induction attachments with
  | nil => exact .pure _
  | cons attachment attachments ih =>
    have hrest := ih fun row hm => hf row (.tail _ hm)
    refine (keeps_now quiet).bind fun _ => .ite _ ?_ hrest
    exact (deleteAttachment hn (hf _ (.head _))).attempt.bind fun _ => hrest.bind fun _ => .pure _

theorem deleteAttachmentsByKeysInternal :
    Keyed K (Service.deleteAttachmentsByKeysInternal userId groupName keys) := by
  apply select_bind
  intro found K₁ _ hg
  apply okOr_bind
  rintro group rfl
  refine (keeps_select quiet _).bind fun role => (Keeps.okOr _ _).bind fun role => ?_
  refine .ite _ (.fail _) (select_bind ?_)
  intro attachments K₂ hK hm
  refine (deleteListedAttachments ((NameRead.group hg).mono hK) ?_).bind fun _ => .pure _
  intro row hr
  exact .listed hm hr rfl

theorem groupUploadArtifact :
    Keyed K (Service.groupUploadArtifact task contentType contentLength) := by
  refine (keeps_now quiet).bind fun _ => (keeps_select quiet _).bind fun _ => ?_
  refine (Keeps.okOr _ _).bind fun _ => .ite _ (.fail _) (keeps_transaction quiet ?_)
  refine (plainly (c := .update _) rfl).bind fun _ => (keeps_select quiet _).bind fun found => ?_
  apply keeps_allocate quiet (plainly rfl)
  intro size
  cases found with
  | none => exact plainly rfl
  | some _ => exact plainly rfl

theorem userUploadAttachment :
    Keyed K (Service.userUploadAttachment userId groupName key contentLength) := by
  unfold Service.userUploadAttachment
  split
  next => exact .fail _
  next hc =>
    have hc : allowed groupName key := Bool.eq_false_iff.2 hc
    refine (keeps_now quiet).bind fun time => keeps_transaction quiet (select_bind ?_)
    intro found K₁ _ hg
    apply okOr_bind
    rintro group rfl
    refine .ite _ (.fail _) ((keeps_select quiet _).bind fun role => ?_)
    refine (Keeps.okOr _ _).bind fun role => .ite _ (.fail _) ?_
    refine (keeps_select quiet _).bind fun attachment => keeps_allocate quiet ?_ ?_
    · apply issue
      intro K₂ hK
      exact ⟨group.1, .group (hK hg), hc⟩
    · intro size
      cases attachment with
      | none => exact issue fun K₂ hK => ⟨groupName, .group (hK hg), hc⟩
      | some _ => exact plainly rfl

end Keyed

theorem finds_getAttachmentFromDb :
    Finds K (getAttachmentFromDb userId groupName key write admin) fun K' _ =>
      ∃ groupId, NameRead K' groupId groupName ∧ KeyRead K' groupId key := by
  apply Finds.select_bind
  intro found K₁ _ hg
  apply Finds.okOr_bind
  rintro group rfl
  have hrow : ∀ K, K₁ ⊆ K → Finds K (do
      let attachment ← select (.attachment group.1 key)
      let attachment ← Fallible.okOr (attachmentNotFound groupName key) attachment
      return attachment) fun K' _ =>
        ∃ groupId, NameRead K' groupId groupName ∧ KeyRead K' groupId key := by
    intro K hK
    apply Finds.select_bind
    intro row K₂ hK₂ hm
    apply Finds.okOr
    rintro row K₃ hK₃ rfl
    exact ⟨group.1, .group (hK₃ (hK₂ (hK hg))), .one (hK₃ hm)⟩
  split
  next =>
    apply Finds.select_bind
    intro role K₂ hK₂ _
    apply Finds.okOr_bind
    intro role _
    split
    next => exact Finds.fail _
    next => exact hrow K₂ hK₂
  next => exact hrow K₁ (List.Subset.refl _)

theorem finds_groupOfTask :
    Finds K (groupOfTask uuid) fun K' group => NameRead K' group.id group.groupName := by
  have hdecode : ∀ {row : Option GroupColumns} {group : GroupInfo},
      row.mapM GroupInfo.fromQueryResult = .ok (some group) →
        row = some ⟨some group.id, some group.groupName⟩ := by
    intro row group h
    rcases row with _ | ⟨_ | i, _ | name⟩
    · cases h
    · cases h
    · cases h
    · cases h
    · cases h
      rfl
  apply Finds.select_bind
  intro row K₁ _ hm
  apply Finds.ofExcept_bind
  intro found hd
  cases found with
  | some group =>
    apply Finds.pure
    intro K₂ hK₂
    rw [hdecode hd] at hm
    exact .active (hK₂ hm)
  | none =>
    apply Finds.select_bind
    intro row K₂ _ hm
    apply Finds.ofExcept_bind
    intro found hd
    apply Finds.okOr
    rintro group K₃ hK₃ rfl
    rw [hdecode hd] at hm
    exact .archived (hK₃ hm)

theorem finds_attachmentsOfChunks (chunks : List (List String)) (K : History) :
    Finds K (attachmentsOfChunks groupId chunks) fun K' rows =>
      ∀ row ∈ rows, KeyRead K' groupId row.key := by
  induction chunks generalizing K with
  | nil =>
    apply Finds.pure
    intro K' _ row hr
    cases hr
  | cons chunk chunks ih =>
    apply Finds.select_bind
    intro rows K₁ _ hm
    apply Finds.andThen (ih K₁)
    intro rest K₂ hK₂ hrest
    apply Finds.pure
    intro K₃ hK₃ row hr
    rcases List.mem_append.1 hr with hr | hr
    · exact .listed (hK₃ (hK₂ hm)) hr rfl
    · exact (hrest row hr).mono hK₃

namespace Keyed

theorem presignDownload (hn : NameRead K groupId groupName) (hf : KeyRead K groupId key) :
    Keyed K (Service.issue (.presignDownload (.attachment groupName key) size minExpires)) := by
  apply issue
  intro K' hK
  exact ⟨groupId, hn.mono hK, hf.mono hK⟩

theorem userGetAttachment : Keyed K (Service.userGetAttachment userId groupName key) := by
  apply Finds.bind finds_getAttachmentFromDb
  rintro row K₁ _ ⟨groupId, hn, hf⟩
  exact (presignDownload hn hf).bind fun _ => .pure _

theorem workerDownloadAttachment : Keyed K (Service.workerDownloadAttachment uuid key) := by
  apply Finds.bind finds_groupOfTask
  intro group K₁ _ hn
  apply select_bind
  intro found K₂ hK₂ hm
  apply okOr_bind
  rintro row rfl
  exact (presignDownload (hn.mono hK₂) (.one hm)).bind fun _ => .pure _

theorem presignAttachments (hn : NameRead K groupId groupName) {attachments : List AttachmentRow}
    (hf : ∀ row ∈ attachments, KeyRead K groupId row.key) :
    Keyed K (Service.presignAttachments groupName attachments) := by
  induction attachments with
  | nil => exact .pure _
  | cons attachment attachments ih =>
    refine (presignDownload hn (hf _ (.head _))).bind fun _ => ?_
    exact (ih fun row hm => hf row (.tail _ hm)).bind fun _ => .pure _

theorem generateAttachmentDownloads :
    Keyed K (Service.generateAttachmentDownloads groupName keys) := by
  apply select_bind
  intro found K₁ _ hg
  apply okOr_bind
  rintro group rfl
  apply Finds.bind (finds_attachmentsOfChunks _ _)
  intro rows K₂ hK₂ hf
  exact presignAttachments ((NameRead.group hg).mono hK₂) hf

end Keyed
end Service

open Storage.Service in
theorem once_keyed {p : Service α} (f : α → β) (h : Keyed [] p) :
    (Fallible.once f p).Knows Cmd.keyed (fun _ r => r ≠ .again) [] := by
  rw [Fallible.knows_once]
  apply (h [] (List.Subset.refl _)).mono
  intro K r _ hr
  cases hr

open Storage.Service in
theorem program_keyed (k : Call) :
    (Storage.program k).Knows Cmd.keyed (fun _ r => r ≠ .again) [] := by
  have hdelete : ∀ uuids contentType userId, Keyed []
      (deleteArtifactsByUuidsInternal userId uuids contentType) := fun _ _ _ =>
    keeps_deleteArtifactsByUuidsInternal Keyed.quiet fun _ => Keyed.deleteArtifact
  cases k with
  | userUploadArtifact =>
    apply once_keyed
    refine (keeps_findTaskByUuid Keyed.quiet).bind fun _ => (keeps_select Keyed.quiet _).bind ?_
    intro role
    exact (Fallible.Keeps.okOr _ _).bind fun _ => .ite _ (.fail _) Keyed.groupUploadArtifact
  | workerUploadArtifact =>
    apply once_keyed
    refine (keeps_select Keyed.quiet _).bind fun _ => (Fallible.Keeps.okOr _ _).bind fun _ => ?_
    exact .ite _ (.fail _) Keyed.groupUploadArtifact
  | userUploadAttachment => exact once_keyed _ Keyed.userUploadAttachment
  | userDeleteArtifact =>
    apply once_keyed
    refine (keeps_findTaskByUuid Keyed.quiet).bind fun _ => (keeps_select Keyed.quiet _).bind ?_
    intro role
    exact (Fallible.Keeps.okOr _ _).bind fun _ => .ite _ (.fail _) Keyed.deleteArtifact
  | adminDeleteArtifact =>
    apply once_keyed
    exact (keeps_findTaskByUuid Keyed.quiet).bind fun _ => Keyed.deleteArtifact
  | batchDeleteArtifactsByFilter =>
    apply once_keyed
    refine (keeps_queryTasksByFilter Keyed.quiet).bind fun _ => ?_
    exact (hdelete _ _ _).bind fun _ => .pure _
  | batchDeleteArtifactsByUuids =>
    apply once_keyed
    exact .ite _ (.fail _) (hdelete _ _ _)
  | userDeleteAttachment =>
    apply once_keyed
    apply Finds.bind finds_getAttachmentFromDb
    rintro row K₁ _ ⟨groupId, hn, hf⟩
    refine (keeps_now Keyed.quiet).bind fun _ => .ite _ (.fail _) ?_
    exact Keyed.deleteAttachment hn hf
  | adminDeleteAttachment =>
    apply once_keyed
    apply Finds.bind finds_getAttachmentFromDb
    rintro row K₁ _ ⟨groupId, hn, hf⟩
    exact Keyed.deleteAttachment hn hf
  | batchDeleteAttachmentsByFilter =>
    apply once_keyed
    refine (keeps_checkMember Keyed.quiet).bind fun _ => (keeps_select Keyed.quiet _).bind ?_
    intro infos
    exact Keyed.deleteAttachmentsByKeysInternal.bind fun _ => .pure _
  | batchDeleteAttachmentsByKeys =>
    apply once_keyed
    refine (keeps_checkMember Keyed.quiet).bind fun _ => .ite _ (.fail _) ?_
    exact Keyed.deleteAttachmentsByKeysInternal

end Storage
end Mitosis
