import Mitosis.Proof.Reads
import Mitosis.Proof.Transactions

namespace Mitosis
set_option autoImplicit true

namespace Storage

def Call.admin : Call → Bool
  | .adminDeleteArtifact _ _ | .adminDeleteAttachment _ _ => true
  | _ => false

def Unsigned (K : History) : Prop := ∀ object length r,
  (⟨.presignUpload object length, r⟩ : Entry Cmd Cmd.Resp) ∉ K

/-- The statement writes the record of the object, which the handler has looked for. -/
inductive Records (K : History) : Object → Update → Prop
  | updateArtifact : ⟨.select (.artifact uuid contentType), .ok (some seen)⟩ ∈ K →
    Records K (.artifact uuid contentType) (.updateArtifact seen size now)
  | insertArtifact : Records K (.artifact uuid contentType) (.insertArtifact uuid contentType size now)
  | updateAttachment : ⟨.select (.groupByName name), .ok (some group)⟩ ∈ K →
    ⟨.select (.attachment group.1 key), .ok (some seen)⟩ ∈ K →
    Records K (.attachment name key) (.updateAttachment seen size now)
  | insertAttachment : ⟨.select (.groupByName name), .ok (some group)⟩ ∈ K →
    Records K (.attachment name key) (.insertAttachment group.1 key size now)

/-- The handler saw in time that the record is old enough. -/
def Aged (k : Call) (K : History) (updatedAt : Instant) : Prop :=
  k.admin = true ∨ ∃ time, ⟨.now, .ok time⟩ ∈ K ∧ updatedAt + uploadValidSecs ≤ time

/-- A record is deleted when it is old enough, and a link is given out with the record written. -/
def Cmd.linked (k : Call) (K : History) : Cmd → Prop
  | .update (.deleteArtifact seen) => Aged k K seen.updatedAt
  | .update (.deleteAttachment seen) => Aged k K seen.updatedAt
  | .commit => ∀ object length url, ⟨.presignUpload object length, .ok url⟩ ∈ K →
    ∃ us, txn K = some us ∧ ∃ u ∈ us, Records K object u
  | _ => True

/-- The command signs nothing and deletes no record. -/
def Cmd.plain : Cmd → Bool
  | .presignUpload _ _ => false
  | .update (.deleteArtifact _) | .update (.deleteAttachment _) => false
  | _ => true

theorem Records.mono (h : Records K object u) (hK : K ⊆ K') : Records K' object u := by
  cases h with
  | updateArtifact h => exact .updateArtifact (hK h)
  | insertArtifact => exact .insertArtifact
  | updateAttachment hg h => exact .updateAttachment (hK hg) (hK h)
  | insertAttachment hg => exact .insertAttachment (hK hg)

theorem Unsigned.cons {c : Cmd} {r : c.Resp} (h : Unsigned K)
    (hc : ∀ object length, c ≠ .presignUpload object length) : Unsigned (⟨c, r⟩ :: K) := by
  intro object length r' hm
  rcases List.mem_cons.1 hm with he | hm
  · obtain ⟨⟩ := he
    exact hc object length rfl
  · exact h object length r' hm

theorem Unsigned.commit (h : Unsigned K) (k : Call) : Cmd.linked k K .commit := by
  intro object length url hm
  exact (h object length _ hm).elim

theorem Unsigned.plain {c : Cmd} (h : Unsigned K) (hc : c.plain = true) (k : Call) :
    c.linked k K ∧ ∀ r, Unsigned (⟨c, r⟩ :: K) := by
  constructor
  · cases c with
    | update q => cases q <;> trivial
    | commit => exact h.commit k
    | _ => trivial
  · intro r
    apply h.cons
    rintro object length rfl
    cases hc

theorem Aged.mono (h : Aged k K updatedAt) (hK : K ⊆ K') : Aged k K' updatedAt := by
  rcases h with h | ⟨time, hm, ht⟩
  · exact .inl h
  · exact .inr ⟨time, hK hm, ht⟩

namespace Service
open Fallible (fail attempt okOr ofExcept)

/-- Behind `K` a handler that signs no link. -/
abbrev Mute (k : Call) (K : History) (p : Service α) : Prop :=
  Fallible.Keeps (Cmd.linked k) (fun K' => Unsigned K' ∧ K ⊆ K') p

namespace Mute
variable {k : Call}

theorem issue {c : Cmd} (hc : c.plain = true) : Mute k K (Service.issue c) := by
  apply Fallible.Keeps.issue
  rintro K' ⟨h, hK⟩
  obtain ⟨hl, hu⟩ := h.plain hc k
  exact ⟨hl, fun r => ⟨hu r, List.Subset.trans hK (List.subset_cons_self _ _)⟩⟩

theorem quiet (c : Cmd) (hc : c.quiet = true) : Mute k K (Service.issue c) := by
  apply issue
  cases c with
  | update q => cases q <;> first | rfl | cases hc
  | presignUpload => cases hc
  | _ => rfl

theorem update {q : Update} (hq : ∀ K', K ⊆ K' → Cmd.linked k K' (.update q)) :
    Mute k K (Service.update q) := by
  apply Fallible.Keeps.issue
  rintro K' ⟨h, hK⟩
  refine ⟨hq K' hK, fun r => ⟨h.cons ?_, List.Subset.trans hK (List.subset_cons_self _ _)⟩⟩
  intro object length hc
  cases hc

theorem now_bind {f : Instant → Service α}
    (hf : ∀ time K', K ⊆ K' → ⟨.now, .ok time⟩ ∈ K' → Mute k K' (f time)) :
    Mute k K (Service.now >>= f) := by
  rintro K' ⟨h, hK⟩
  refine (Fallible.knows_issue_bind _ _).2 ⟨trivial, ?_, ?_⟩
  · intro time
    have hcons : K ⊆ ⟨.now, .ok time⟩ :: K' := List.Subset.trans hK (List.subset_cons_self _ _)
    have hu := (h.plain (c := .now) rfl k).2 (.ok time)
    apply (hf time _ hcons (.head _) _ ⟨hu, List.Subset.refl _⟩).mono
    rintro K'' r ⟨h'', hK''⟩
    exact ⟨h'', List.Subset.trans hcons hK''⟩
  · intro e
    exact ⟨(h.plain (c := .now) rfl k).2 (.error e), List.Subset.trans hK (List.subset_cons_self _ _)⟩

theorem release {delete : Update} (hd : ∀ K', K ⊆ K' → Cmd.linked k K' (.update delete)) :
    Mute k K (Service.release object groupId size msg delete) :=
  keeps_release quiet (issue rfl) (update hd)

theorem deleteArtifact (hk : admin = true → k.admin = true) :
    Mute k K (Service.deleteArtifact task contentType admin) := by
  refine (keeps_select quiet _).bind fun _ => (Fallible.Keeps.okOr _ _).bind fun artifact => ?_
  apply now_bind
  intro time K₁ _ hm
  split
  next => exact .fail _
  next hg =>
    apply release
    intro K₂ hK₂
    cases hadmin : admin with
    | true => exact .inl (hk hadmin)
    | false =>
      refine .inr ⟨time, hK₂ hm, ?_⟩
      rw [hadmin] at hg
      simpa using hg

theorem userDeleteArtifact : Mute k K (Service.userDeleteArtifact userId uuid contentType) := by
  refine (keeps_findTaskByUuid quiet).bind fun _ => (keeps_select quiet _).bind fun _ => ?_
  refine (Fallible.Keeps.okOr _ _).bind fun _ => .ite _ (.fail _) (deleteArtifact ?_)
  intro h
  cases h

theorem adminDeleteArtifact (hk : k.admin = true) :
    Mute k K (Service.adminDeleteArtifact uuid contentType) :=
  (keeps_findTaskByUuid quiet).bind fun _ => deleteArtifact fun _ => hk

theorem deleteArtifactsByUuidsInternal :
    Mute k K (Service.deleteArtifactsByUuidsInternal userId uuids contentType) := by
  apply keeps_deleteArtifactsByUuidsInternal quiet
  intro task
  apply deleteArtifact
  intro h
  cases h

theorem deleteAttachment (h : ∀ K', K ⊆ K' → Aged k K' attachment.updatedAt) :
    Mute k K (Service.deleteAttachment attachment groupName key) := release h

theorem userDeleteAttachment : Mute k K (Service.userDeleteAttachment userId groupName key) := by
  refine (keeps_getAttachmentFromDb quiet).bind fun attachment => now_bind ?_
  intro time K₁ _ hm
  split
  next => exact .fail _
  next hg => exact deleteAttachment fun K₂ hK₂ => .inr ⟨time, hK₂ hm, Nat.not_lt.1 hg⟩

theorem adminDeleteAttachment (hk : k.admin = true) :
    Mute k K (Service.adminDeleteAttachment groupName key) :=
  (keeps_getAttachmentFromDb quiet).bind fun _ => deleteAttachment fun _ _ => .inl hk

theorem deleteListedAttachments (attachments : List AttachmentRow) (K : History) :
    Mute k K (Service.deleteListedAttachments groupName attachments) := by
  induction attachments generalizing K with
  | nil => exact .pure _
  | cons attachment attachments ih =>
    apply now_bind
    intro time K₁ _ hm
    split
    next hg =>
      have hdel : Mute k K₁ (Service.deleteAttachment attachment groupName attachment.key) :=
        deleteAttachment fun K₂ hK₂ => .inr ⟨time, hK₂ hm, hg⟩
      exact hdel.attempt.bind fun _ => (ih K₁).bind fun _ => .pure _
    next => exact ih K₁

theorem deleteAttachmentsByKeysInternal :
    Mute k K (Service.deleteAttachmentsByKeysInternal userId groupName keys) := by
  refine (keeps_select quiet _).bind fun _ => (Fallible.Keeps.okOr _ _).bind fun _ => ?_
  refine (keeps_select quiet _).bind fun _ => (Fallible.Keeps.okOr _ _).bind fun _ => ?_
  refine .ite _ (.fail _) ((keeps_select quiet _).bind fun _ => ?_)
  exact (deleteListedAttachments _ _).bind fun _ => .pure _

end Mute

/-- A handler that has what it needs behind every history without a signed link. -/
def Links (k : Call) (p : Service α) : Prop :=
  ∀ K, Unsigned K → Fallible.Knows (Cmd.linked k) K p fun _ _ => True

namespace Links
variable {k : Call}

theorem of_mute {p : Service α} (h : ∀ K, Mute k K p) : Links k p := by
  intro K hu
  exact (h K K ⟨hu, List.Subset.refl K⟩).mono fun _ _ _ => trivial

theorem bind {p : Service β} {f : β → Service α} (hp : ∀ K, Mute k K p)
    (hf : ∀ b, Links k (f b)) : Links k (p >>= f) := by
  intro K hu
  apply (hp K).andThen ⟨hu, List.Subset.refl K⟩
  · intro K' b _ h
    exact hf b K' h.1
  · intro K' e _
    trivial

theorem fail (e : Error) : Links k (Fallible.fail e : Service α) := fun _ _ => trivial

theorem ite {p q : Service α} (b : Prop) [Decidable b] (hp : Links k p) (hq : Links k q) :
    Links k (if b then p else q) := by
  split
  · exact hp
  · exact hq

theorem transaction {p : Service α} (hp : ∀ K, Unsigned K →
    Fallible.Knows (Cmd.linked k) (⟨.start, .ok ()⟩ :: K) p fun K' r =>
      r.toBool = true → Cmd.linked k K' .commit) : Links k (Service.transaction p) := by
  intro K hu
  refine (Fallible.knows_issue_bind _ _).2 ⟨trivial, ?_, fun _ => trivial⟩
  rintro ⟨⟩
  rw [Fallible.knows_bind, Fallible.knows_attempt]
  apply (hp K hu).mono
  intro K' r hr
  cases r with
  | ok a => exact (Fallible.knows_issue_bind _ _).2 ⟨hr rfl, fun _ => trivial, fun _ => trivial⟩
  | error e => exact (Fallible.knows_issue_bind _ _).2 ⟨trivial, fun _ => trivial, fun _ => trivial⟩

end Links

theorem linked_allocate {k : Call} (hs : txn K = some us) (hu : Unsigned K)
    (hlinked : ∀ size K', Cmd.linked k K' (.update (write size)))
    (hrec : ∀ size K', K ⊆ K' → Records K' object (write size)) :
    Fallible.Knows (Cmd.linked k) K (allocate object group length time found write) fun K' r =>
      r.toBool = true → Cmd.linked k K' .commit := by
  have herr : ∀ (K' : History) (e : Error),
      (Except.error e : Except Error (Bool × UploadLink)).toBool = true →
        Cmd.linked k K' .commit := by
    intro K' e h
    cases h
  unfold allocate checkQuota
  rw [Fallible.knows_bind]
  dsimp only
  split
  next => exact herr _ _
  next =>
    refine (Fallible.knows_issue_bind _ _).2 ⟨trivial, ?_, fun e => herr _ e⟩
    intro url
    refine (Fallible.knows_issue_bind _ _).2 ⟨hlinked _ _, ?_, fun e => herr _ e⟩
    rintro ⟨⟩
    refine (Fallible.knows_issue_bind _ _).2 ⟨trivial, ?_, fun e => herr _ e⟩
    rintro ⟨⟩
    rintro - object' length' url' hm
    have hobject : object' = object := by
      rcases List.mem_cons.1 hm with he | hm
      · cases he
      rcases List.mem_cons.1 hm with he | hm
      · cases he
      rcases List.mem_cons.1 hm with he | hm
      · obtain ⟨⟩ := he
        rfl
      · exact (hu _ _ _ hm).elim
    subst hobject
    refine ⟨_, congrArg (Option.map _) (congrArg (Option.map _) hs), _, .tail _ (.head _), ?_⟩
    apply hrec
    intro e he
    exact .tail _ (.tail _ (.tail _ he))

theorem links_groupUploadArtifact :
    Links k (groupUploadArtifact task contentType contentLength) := by
  refine .bind (fun K => keeps_now Mute.quiet) fun now => ?_
  refine .bind (fun K => keeps_select Mute.quiet _) fun group => ?_
  refine .bind (fun K => Fallible.Keeps.okOr _ _) fun group => ?_
  refine .ite _ (.fail _) (.transaction fun K hu => ?_)
  have hmute := fun (K : History) (e : Entry Cmd Cmd.Resp) (h : Unsigned K)
    (he : e.1.plain = true) => (h.plain he k).2 e.2
  refine (Fallible.knows_issue_bind _ _).2 ⟨trivial, ?_, fun e h => by cases h⟩
  rintro ⟨⟩
  refine (Fallible.knows_issue_bind _ _).2 ⟨trivial, ?_, fun e h => by cases h⟩
  intro artifact
  apply linked_allocate rfl
  · exact hmute _ ⟨.select _, .ok _⟩ (hmute _ ⟨.update _, .ok ()⟩
      (hmute _ ⟨.start, .ok ()⟩ hu rfl) rfl) rfl
  · intro size K'
    cases artifact <;> trivial
  · intro size K' hK'
    cases artifact with
    | none => exact .insertArtifact
    | some seen => exact .updateArtifact (hK' (.head _))

theorem links_userUploadArtifact :
    Links k (userUploadArtifact userId uuid contentType contentLength) := by
  refine .bind (fun K => keeps_findTaskByUuid Mute.quiet) fun task => ?_
  refine .bind (fun K => keeps_select Mute.quiet _) fun role => ?_
  refine .bind (fun K => Fallible.Keeps.okOr _ _) fun role => ?_
  exact .ite _ (.fail _) links_groupUploadArtifact

theorem links_workerUploadArtifact :
    Links k (workerUploadArtifact workerId t contentType contentLength) := by
  refine .bind (fun K => keeps_select Mute.quiet _) fun task => ?_
  refine .bind (fun K => Fallible.Keeps.okOr _ _) fun task => ?_
  exact .ite _ (.fail _) links_groupUploadArtifact

theorem links_userUploadAttachment :
    Links k (userUploadAttachment userId groupName key contentLength) := by
  refine .ite _ (.fail _) (.bind (fun K => keeps_now Mute.quiet) fun now => ?_)
  refine .transaction fun K hu => ?_
  have hmute := fun (K : History) (e : Entry Cmd Cmd.Resp) (h : Unsigned K)
    (he : e.1.plain = true) => (h.plain he k).2 e.2
  refine (Fallible.knows_issue_bind _ _).2 ⟨trivial, ?_, fun e h => by cases h⟩
  intro group
  refine (Fallible.knows_okOr_bind _ _ _).2 ⟨?_, fun _ h => by cases h⟩
  rintro group rfl
  split
  next =>
    intro h
    cases h
  next =>
    refine (Fallible.knows_issue_bind _ _).2 ⟨trivial, ?_, fun e h => by cases h⟩
    intro role
    refine (Fallible.knows_okOr_bind _ _ _).2 ⟨?_, fun _ h => by cases h⟩
    rintro role rfl
    split
    next =>
      intro h
      cases h
    next =>
      refine (Fallible.knows_issue_bind _ _).2 ⟨trivial, ?_, fun e h => by cases h⟩
      intro attachment
      apply linked_allocate rfl
      · exact hmute _ ⟨.select _, .ok _⟩ (hmute _ ⟨.select _, .ok _⟩
          (hmute _ ⟨.select _, .ok _⟩ (hmute _ ⟨.start, .ok ()⟩ hu rfl) rfl) rfl) rfl
      · intro size K'
        cases attachment <;> trivial
      · intro size K' hK'
        have hgroup := hK' (.tail _ (.tail _ (.head _)))
        cases attachment with
        | none => exact .insertAttachment hgroup
        | some seen => exact .updateAttachment hgroup (hK' (.head _))

end Service

theorem linked_of_links {k : Call} {p : Service α} {f : α → Reply} (h : Service.Links k p) :
    (Fallible.once f p).Knows (Cmd.linked k) (fun _ r => r ≠ .again) [] := by
  rw [Fallible.knows_once]
  apply (h [] fun _ _ _ hm => by cases hm).mono
  intro K r _ hr
  cases hr

open Storage.Service in
theorem program_linked (k : Call) :
    (program k).Knows (Cmd.linked k) (fun _ r => r ≠ .again) [] := by
  cases k with
  | userUploadArtifact => exact linked_of_links links_userUploadArtifact
  | workerUploadArtifact => exact linked_of_links links_workerUploadArtifact
  | userUploadAttachment => exact linked_of_links links_userUploadAttachment
  | userDeleteArtifact => exact linked_of_links (.of_mute fun _ => Mute.userDeleteArtifact)
  | adminDeleteArtifact => exact linked_of_links (.of_mute fun _ => Mute.adminDeleteArtifact rfl)
  | batchDeleteArtifactsByFilter =>
    apply linked_of_links
    refine .of_mute fun _ => (keeps_queryTasksByFilter Mute.quiet).bind fun _ => ?_
    exact Mute.deleteArtifactsByUuidsInternal.bind fun _ => .pure _
  | batchDeleteArtifactsByUuids =>
    apply linked_of_links
    exact .ite _ (.fail _) (.of_mute fun _ => Mute.deleteArtifactsByUuidsInternal)
  | userDeleteAttachment => exact linked_of_links (.of_mute fun _ => Mute.userDeleteAttachment)
  | adminDeleteAttachment =>
    exact linked_of_links (.of_mute fun _ => Mute.adminDeleteAttachment rfl)
  | batchDeleteAttachmentsByFilter =>
    apply linked_of_links
    refine .of_mute fun _ => (keeps_checkMember Mute.quiet).bind fun _ => ?_
    refine (keeps_select Mute.quiet _).bind fun _ => ?_
    exact Mute.deleteAttachmentsByKeysInternal.bind fun _ => .pure _
  | batchDeleteAttachmentsByKeys =>
    apply linked_of_links
    refine .bind (fun _ => keeps_checkMember Mute.quiet) fun _ => .ite _ (.fail _) ?_
    exact .of_mute fun _ => Mute.deleteAttachmentsByKeysInternal

end Storage
end Mitosis
