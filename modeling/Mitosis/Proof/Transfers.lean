import Mitosis.Proof.Transactions

namespace Mitosis
set_option autoImplicit true

namespace Storage.Service
open Fallible (fail attempt okOr ofExcept)

/-- What holds behind the body of a transaction that ends well. -/
def Movable (K : History) (r : Except Error α) : Prop :=
  r.toBool = true → ∃ us, txn K = some us ∧ Moves K us

theorem movable_error : Movable K (.error e : Except Error α) := by
  intro h
  cases h

theorem knows_update (q : Update) (us : List Update) {post : History → Except Error Unit → Prop}
    (hs : txn K = some us) (hk : ∀ u ∈ us, u.kind ≠ q.kind)
    (hok : post (⟨.update q, .ok ()⟩ :: K) (.ok ()))
    (herr : ∀ e, post (⟨.update q, .error e⟩ :: K) (.error e)) :
    Fallible.Knows Cmd.sourced K (update q) post := by
  refine ⟨⟨us, hs, hk⟩, forall_except.2 ⟨?_, herr⟩⟩
  rintro ⟨⟩
  exact hok

theorem knows_checkQuota {post : History → Except Error Int → Prop}
    (hok : post K (.ok (asI64 (group.storageUsed + asI64 growth))))
    (herr : ∀ e, post K (.error e)) :
    Fallible.Knows Cmd.sourced K (checkQuota group growth) post := by
  unfold checkQuota
  dsimp only
  split
  next => exact herr _
  next => exact hok

theorem knows_allocate (rest : List Update) (hs : txn K = some rest) (hrest : ∀ u ∈ rest, u.kind = .touch)
    (hkind : ∀ size, (write size).kind = .object)
    (hsized : ∀ K', K ⊆ K' → ∀ size, Sized K' group.1 (size - found.getD 0) (write size)) :
    Fallible.Knows Cmd.sourced K (allocate object group length time found write) Movable := by
  unfold allocate
  rw [Fallible.knows_bind]
  apply knows_checkQuota
  · dsimp only
    rw [Fallible.knows_bind, knows_reads rfl]
    intro url
    cases url with
    | ok url =>
      dsimp only
      rw [Fallible.knows_bind]
      apply knows_update _ rest
      · exact hs
      · intro u hu
        rw [hrest u hu, hkind]
        decide
      · dsimp only
        rw [Fallible.knows_bind]
        apply knows_update _ (write (found.elim length (max length)) :: rest)
        · exact congrArg (Option.map _) hs
        · intro u hu
          rcases List.mem_cons.1 hu with rfl | hu
          · rw [hkind]
            exact Kind.noConfusion
          · rw [hrest u hu]
            exact Kind.noConfusion
        · intro _
          refine ⟨_, congrArg (Option.map _) (congrArg (Option.map _) hs), ?_⟩
          apply Moves.upload
          · apply hsized
            intro e he
            exact .tail _ (.tail _ (.tail _ he))
          · rfl
          · exact hrest
        · intro e
          exact movable_error
      · intro e
        exact movable_error
    | error e => exact movable_error
  · intro e
    exact movable_error

theorem reads_issue {c : Cmd} (hc : c.reads = true) : Reads (issue c) := ⟨hc, fun _ => trivial⟩

theorem closed_select (q : Select) (h : txn K = none) : Closed K (select q) :=
  closed_reads (reads_issue rfl) h

theorem closed_now (h : txn K = none) : Closed K now := closed_reads (reads_issue rfl) h

theorem closed_okOr (e : Error) (x : Option α) (h : txn K = none) : Closed K (okOr e x) := by
  cases x with
  | none => exact closed_fail h e
  | some a => exact closed_pure h a

theorem closed_ofExcept (x : Except Error α) (h : txn K = none) : Closed K (ofExcept x) := by
  cases x with
  | error e => exact closed_fail h e
  | ok a => exact closed_pure h a

theorem closed_groupUploadArtifact (h : txn K = none) (ho : Owned K task.uuid task.groupId) :
    Closed K (groupUploadArtifact task contentType contentLength) := by
  unfold groupUploadArtifact
  apply closed_bind (closed_now h)
  intro K₁ now hK₁ h₁
  apply closed_bind (closed_select _ h₁)
  intro K₂ group hK₂ h₂
  apply closed_bind (closed_okOr _ _ h₂)
  intro K₃ group hK₃ h₃
  have hK : K ⊆ K₃ := List.Subset.trans hK₁ (List.Subset.trans hK₂ hK₃)
  split
  next => exact closed_fail h₃ _
  next =>
    apply closed_transaction h₃
    rw [Fallible.knows_bind]
    apply knows_update _ []
    · rfl
    · intro u hu
      cases hu
    · dsimp only
      rw [Fallible.knows_bind, knows_select]
      intro artifact
      cases artifact with
      | ok artifact =>
        dsimp only
        apply knows_allocate [.touchTask task now]
        · rfl
        · intro u hu
          obtain rfl := List.mem_singleton.1 hu
          rfl
        · intro size
          cases artifact <;> rfl
        · intro K' hK' size
          have ho' : Owned K' task.uuid task.groupId := by
            apply ho.mono
            intro e he
            exact hK' (.tail _ (.tail _ (.tail _ (hK he))))
          cases artifact with
          | none =>
            simp only [Option.map_none, Option.getD_none, Int.sub_zero]
            exact .insertArtifact ho'
          | some seen => exact .updateArtifact ho' (hK' (.head _))
      | error e => exact movable_error
    · intro e
      exact movable_error

/-- What is known behind `find_task_by_uuid`. -/
def Found (K K' : History) (r : Except Error Db.StoredTask) : Prop :=
  K ⊆ K' ∧ txn K' = none ∧ ∀ task, r = .ok task → Owned K' task.uuid task.groupId

theorem found_error (hK : K ⊆ K') (h : txn K' = none) : Found K K' (.error e) := by
  refine ⟨hK, h, ?_⟩
  intro task ht
  cases ht

theorem found_ok (hK : K ⊆ K') (h : txn K' = none) (ho : Owned K' task.uuid task.groupId) :
    Found K K' (.ok task) := by
  refine ⟨hK, h, ?_⟩
  intro task ht
  obtain ⟨⟩ := ht
  exact ho

theorem found_findTaskByUuid (h : txn K = none) :
    Fallible.Knows Cmd.sourced K (findTaskByUuid uuid) (Found K) := by
  have hsub : ∀ e e' : Entry Cmd Cmd.Resp, K ⊆ e :: e' :: K := by
    intro e e' x hx
    exact .tail _ (.tail _ hx)
  unfold findTaskByUuid
  rw [Fallible.knows_bind, knows_select]
  intro found
  cases found with
  | error e => exact found_error (List.subset_cons_self _ _) h
  | ok found =>
    cases found with
    | some e => exact found_ok (List.subset_cons_self _ _) h ⟨_, .head _, rfl⟩
    | none =>
      dsimp only
      rw [Fallible.knows_bind, knows_select]
      intro archived
      cases archived with
      | error e => exact found_error (hsub _ _) h
      | ok archived =>
        dsimp only
        rw [Fallible.knows_bind]
        cases archived with
        | none => exact found_error (hsub _ _) h
        | some e => exact found_ok (hsub _ _) h ⟨_, .head _, rfl⟩

theorem closed_bind_task {f : Db.StoredTask → Service α} (h : txn K = none)
    (hf : ∀ K' task, K ⊆ K' → txn K' = none → Owned K' task.uuid task.groupId →
      Closed K' (f task)) : Closed K (findTaskByUuid uuid >>= f) := by
  unfold Closed
  rw [Fallible.knows_bind]
  apply (found_findTaskByUuid h).mono
  intro K₁ r hr
  cases r with
  | error => exact ⟨hr.1, hr.2.1⟩
  | ok task =>
    apply (hf K₁ task hr.1 hr.2.1 (hr.2.2 task rfl)).mono
    intro K₂ _ h₂
    exact ⟨List.Subset.trans hr.1 h₂.1, h₂.2⟩

theorem closed_release (h : txn K = none) (hkind : delete.kind = .object)
    (hsized : ∀ K', K ⊆ K' → Sized K' groupId (-size) delete) :
    Closed K (release object groupId size msg delete) := by
  apply closed_transaction h
  rw [Fallible.knows_bind, knows_reads rfl]
  refine forall_except.2 ⟨?_, fun e => movable_error⟩
  rintro ⟨⟩
  dsimp only
  rw [Fallible.knows_bind, knows_select]
  refine forall_except.2 ⟨?_, fun e => movable_error⟩
  intro group
  cases group with
  | none => exact movable_error
  | some group =>
    change Fallible.Knows _ _ (now >>= _) _
    rw [Fallible.knows_bind, knows_now]
    refine forall_except.2 ⟨?_, fun e => movable_error⟩
    intro time
    dsimp only
    rw [Fallible.knows_bind]
    apply knows_update _ []
    · rfl
    · intro u hu
      cases hu
    · apply knows_update _ [_]
      · rfl
      · intro u hu
        obtain rfl := List.mem_singleton.1 hu
        rw [hkind]
        exact Kind.noConfusion
      · intro _
        refine ⟨_, rfl, ?_⟩
        apply Moves.release
        · apply hsized
          intro e he
          exact .tail _ (.tail _ (.tail _ (.tail _ (.tail _ (.tail _ he)))))
        · rw [Int.neg_neg]
      · intro e
        exact movable_error
    · intro e
      exact movable_error

theorem closed_userUploadArtifact (h : txn K = none) :
    Closed K (userUploadArtifact userId uuid contentType contentLength) := by
  unfold userUploadArtifact
  apply closed_bind_task h
  intro K₁ task _ h₁ ho
  apply closed_bind (closed_select _ h₁)
  intro K₂ role hK₂ h₂
  apply closed_bind (closed_okOr _ _ h₂)
  intro K₃ role hK₃ h₃
  split
  next => exact closed_fail h₃ _
  next => exact closed_groupUploadArtifact h₃ (ho.mono (List.Subset.trans hK₂ hK₃))

theorem closed_workerUploadArtifact (h : txn K = none) :
    Closed K (workerUploadArtifact w t contentType contentLength) := by
  unfold workerUploadArtifact Closed
  rw [Fallible.knows_bind, knows_select]
  intro found
  cases found with
  | error e => exact ⟨List.subset_cons_self _ _, h⟩
  | ok found =>
    dsimp only
    rw [Fallible.knows_bind]
    cases found with
    | none => exact ⟨List.subset_cons_self _ _, h⟩
    | some task =>
      change Fallible.Knows _ _ (ite _ _ _) _
      split
      next => exact ⟨List.subset_cons_self _ _, h⟩
      next =>
        have hc : Closed (⟨.select (.db (.task t)), .ok (some task)⟩ :: K)
            (groupUploadArtifact (.active t task) contentType contentLength) :=
          closed_groupUploadArtifact h ⟨_, .head _, rfl⟩
        apply hc.mono
        intro K' r hr
        exact ⟨List.Subset.trans (List.subset_cons_self _ _) hr.1, hr.2⟩

theorem closed_userUploadAttachment (h : txn K = none) :
    Closed K (userUploadAttachment userId groupName key contentLength) := by
  unfold userUploadAttachment
  split
  next => exact closed_fail h _
  next =>
    apply closed_bind (closed_now h)
    intro K₁ time _ h₁
    apply closed_transaction h₁
    rw [Fallible.knows_bind, knows_select]
    intro group
    cases group with
    | error e => exact movable_error
    | ok group =>
      dsimp only
      rw [Fallible.knows_bind]
      cases group with
      | none => exact movable_error
      | some group =>
        change Fallible.Knows _ _ (ite _ _ _) _
        split
        next => exact movable_error
        next =>
          rw [Fallible.knows_bind, knows_select]
          intro role
          cases role with
          | error e => exact movable_error
          | ok role =>
            dsimp only
            rw [Fallible.knows_bind]
            cases role with
            | none => exact movable_error
            | some role =>
              change Fallible.Knows _ _ (ite _ _ _) _
              split
              next => exact movable_error
              next =>
                rw [Fallible.knows_bind, knows_select]
                intro attachment
                cases attachment with
                | error e => exact movable_error
                | ok attachment =>
                  dsimp only
                  apply knows_allocate []
                  · rfl
                  · intro u hu
                    cases hu
                  · intro size
                    cases attachment <;> rfl
                  · intro K' hK' size
                    cases attachment with
                    | none =>
                      simp only [Option.map_none, Option.getD_none, Int.sub_zero]
                      exact .insertAttachment
                    | some seen => exact .updateAttachment (hK' (.head _))

theorem closed_deleteArtifact (h : txn K = none) (ho : Owned K task.uuid task.groupId) :
    Closed K (deleteArtifact task contentType admin) := by
  unfold deleteArtifact Closed
  rw [Fallible.knows_bind, knows_select]
  intro found
  cases found with
  | error e => exact ⟨List.subset_cons_self _ _, h⟩
  | ok found =>
    dsimp only
    rw [Fallible.knows_bind]
    cases found with
    | none => exact ⟨List.subset_cons_self _ _, h⟩
    | some seen =>
      have hc : Closed (⟨.select (.artifact task.uuid contentType), .ok (some seen)⟩ :: K)
          (now >>= fun time => if !admin && seen.updatedAt + uploadValidSecs > time then
            fail (invalid "Cannot delete artifact that has been updated in the last hour")
          else release (.artifact task.uuid contentType) task.groupId seen.size
            "Group for the artifact not found" (.deleteArtifact seen)) := by
        apply closed_bind (closed_now (by exact h))
        intro K₁ time hK₁ h₁
        split
        next => exact closed_fail h₁ _
        next =>
          apply closed_release h₁
          · rfl
          · intro K' hK'
            apply Sized.deleteArtifact
            · apply ho.mono
              intro e he
              exact hK' (hK₁ (.tail _ he))
            · exact hK' (hK₁ (.head _))
      apply hc.mono
      intro K' r hr
      exact ⟨List.Subset.trans (List.subset_cons_self _ _) hr.1, hr.2⟩

theorem closed_userDeleteArtifact (h : txn K = none) :
    Closed K (userDeleteArtifact userId uuid contentType) := by
  unfold userDeleteArtifact
  apply closed_bind_task h
  intro K₁ task _ h₁ ho
  apply closed_bind (closed_select _ h₁)
  intro K₂ role hK₂ h₂
  apply closed_bind (closed_okOr _ _ h₂)
  intro K₃ role hK₃ h₃
  split
  next => exact closed_fail h₃ _
  next => exact closed_deleteArtifact h₃ (ho.mono (List.Subset.trans hK₂ hK₃))

theorem closed_adminDeleteArtifact (h : txn K = none) :
    Closed K (adminDeleteArtifact uuid contentType) := by
  unfold adminDeleteArtifact
  apply closed_bind_task h
  intro K₁ task _ h₁ ho
  exact closed_deleteArtifact h₁ ho

theorem closed_artifactsOfChunks (h : txn K = none) :
    Closed K (artifactsOfChunks contentType chunks) := by
  induction chunks generalizing K with
  | nil => exact closed_pure h _
  | cons chunk chunks ih =>
    unfold artifactsOfChunks
    apply closed_bind (closed_select _ h)
    intro K₁ artifacts _ h₁
    apply closed_bind (ih h₁)
    intro K₂ rest _ h₂
    exact closed_pure h₂ _

theorem closed_bind_attempt {p : Service β} {f : Except Error β → Service α} (hp : Closed K p)
    (hf : ∀ K' r, K ⊆ K' → txn K' = none → Closed K' (f r)) : Closed K (attempt p >>= f) :=
  closed_bind (closed_attempt hp) hf

theorem closed_deleteListedArtifact (h : txn K = none) :
    Closed K (deleteListedArtifact userId contentType artifact) := by
  unfold deleteListedArtifact Closed
  rw [Fallible.knows_bind, Fallible.knows_attempt]
  apply (found_findTaskByUuid h).mono
  intro K₁ r hr
  obtain ⟨hK₁, h₁, ho⟩ := hr
  have hclosed : ∀ p : Service Bool, Closed K₁ p →
      Fallible.Knows Cmd.sourced K₁ p fun K' _ => K ⊆ K' ∧ txn K' = none := by
    intro p hp
    apply hp.mono
    intro K' _ h'
    exact ⟨List.Subset.trans hK₁ h'.1, h'.2⟩
  cases r with
  | error e => exact hclosed _ (closed_pure h₁ _)
  | ok task =>
    apply hclosed
    apply closed_bind (closed_select _ h₁)
    intro K₂ role hK₂ h₂
    cases role with
    | none => exact closed_pure h₂ _
    | some role =>
      dsimp only
      split
      next => exact closed_pure h₂ _
      next =>
        apply closed_bind (closed_now h₂)
        intro K₃ time hK₃ h₃
        split
        next =>
          apply closed_bind_attempt
          · exact closed_deleteArtifact h₃ ((ho task rfl).mono (List.Subset.trans hK₂ hK₃))
          · intro K₄ r _ h₄
            cases r <;> exact closed_pure h₄ _
        next => exact closed_pure h₃ _

theorem closed_deleteListedArtifacts (h : txn K = none) :
    Closed K (deleteListedArtifacts userId contentType artifacts) := by
  induction artifacts generalizing K with
  | nil => exact closed_pure h _
  | cons artifact artifacts ih =>
    unfold deleteListedArtifacts
    apply closed_bind (closed_deleteListedArtifact h)
    intro K₁ deleted _ h₁
    apply closed_bind (ih h₁)
    intro K₂ rest _ h₂
    exact closed_pure h₂ _

theorem closed_deleteArtifactsByUuidsInternal (h : txn K = none) :
    Closed K (deleteArtifactsByUuidsInternal userId uuids contentType) := by
  unfold deleteArtifactsByUuidsInternal
  apply closed_bind (closed_artifactsOfChunks h)
  intro K₁ artifacts _ h₁
  apply closed_bind (closed_deleteListedArtifacts h₁)
  intro K₂ deleted _ h₂
  exact closed_pure h₂ _

theorem closed_queriedGroup (h : txn K = none) : Closed K (queriedGroup userId name) := by
  cases name with
  | some name => exact closed_pure h _
  | none =>
    apply closed_bind (closed_select _ h)
    intro K₁ user _ h₁
    apply closed_bind (closed_okOr _ _ h₁)
    intro K₂ user _ h₂
    exact closed_pure h₂ _

theorem closed_checkTaskListQuery (h : txn K = none) :
    Closed K (checkTaskListQuery userId query role) := by
  unfold checkTaskListQuery
  apply closed_bind (closed_ofExcept _ h)
  intro K₁ _ _ h₁
  apply closed_bind (closed_queriedGroup h₁)
  intro K₂ groupName _ h₂
  apply closed_bind (closed_select _ h₂)
  intro K₃ queryRole _ h₃
  cases queryRole with
  | none => exact closed_fail h₃ _
  | some r =>
    dsimp only
    split
    next => exact closed_pure h₃ _
    next => exact closed_fail h₃ _

theorem closed_queryTasksByFilter (h : txn K = none) :
    Closed K (queryTasksByFilter userId query) := by
  unfold queryTasksByFilter
  apply closed_bind (closed_checkTaskListQuery h)
  intro K₁ query _ h₁
  apply closed_bind (closed_ofExcept _ h₁)
  intro K₂ filter _ h₂
  split
  next =>
    apply closed_bind (closed_select _ h₂)
    intro K₃ active _ h₃
    apply closed_bind (closed_select _ h₃)
    intro K₄ archived _ h₄
    exact closed_pure h₄ _
  next =>
    apply closed_bind (closed_select _ h₂)
    intro K₃ active _ h₃
    apply closed_bind (closed_select _ h₃)
    intro K₄ archived _ h₄
    exact closed_pure h₄ _

theorem closed_getAttachmentFromDb (h : txn K = none) :
    Closed K (getAttachmentFromDb userId groupName key write admin) := by
  unfold getAttachmentFromDb
  apply closed_bind (closed_select _ h)
  intro K₁ group _ h₁
  apply closed_bind (closed_okOr _ _ h₁)
  intro K₂ group _ h₂
  split
  next =>
    apply closed_bind (closed_select _ h₂)
    intro K₃ role _ h₃
    apply closed_bind (closed_okOr _ _ h₃)
    intro K₄ role _ h₄
    split
    next => exact closed_fail h₄ _
    next =>
      apply closed_bind (closed_select _ h₄)
      intro K₅ attachment _ h₅
      exact closed_okOr _ _ h₅
  next =>
    apply closed_bind (closed_select _ h₂)
    intro K₃ attachment _ h₃
    exact closed_okOr _ _ h₃

theorem closed_deleteAttachment (h : txn K = none) :
    Closed K (deleteAttachment attachment groupName key) := by
  apply closed_release h
  · rfl
  · intro K' _
    exact .deleteAttachment rfl

theorem closed_userDeleteAttachment (h : txn K = none) :
    Closed K (userDeleteAttachment userId groupName key) := by
  unfold userDeleteAttachment
  apply closed_bind (closed_getAttachmentFromDb h)
  intro K₁ attachment _ h₁
  apply closed_bind (closed_now h₁)
  intro K₂ time _ h₂
  split
  next => exact closed_fail h₂ _
  next => exact closed_deleteAttachment h₂

theorem closed_adminDeleteAttachment (h : txn K = none) :
    Closed K (adminDeleteAttachment groupName key) := by
  unfold adminDeleteAttachment
  apply closed_bind (closed_getAttachmentFromDb h)
  intro K₁ attachment _ h₁
  exact closed_deleteAttachment h₁

theorem closed_checkMember (h : txn K = none) : Closed K (checkMember userId groupName) := by
  unfold checkMember
  apply closed_bind (closed_select _ h)
  intro K₁ role _ h₁
  cases role with
  | none => exact closed_fail h₁ _
  | some role => exact closed_pure h₁ _

theorem closed_deleteListedAttachments (h : txn K = none) :
    Closed K (deleteListedAttachments groupName attachments) := by
  induction attachments generalizing K with
  | nil => exact closed_pure h _
  | cons attachment attachments ih =>
    unfold deleteListedAttachments
    apply closed_bind (closed_now h)
    intro K₁ time _ h₁
    split
    next =>
      apply closed_bind_attempt (closed_deleteAttachment h₁)
      intro K₂ deleted _ h₂
      apply closed_bind (ih h₂)
      intro K₃ rest _ h₃
      exact closed_pure h₃ _
    next => exact ih h₁

theorem closed_deleteAttachmentsByKeysInternal (h : txn K = none) :
    Closed K (deleteAttachmentsByKeysInternal userId groupName keys) := by
  unfold deleteAttachmentsByKeysInternal
  apply closed_bind (closed_select _ h)
  intro K₁ group _ h₁
  apply closed_bind (closed_okOr _ _ h₁)
  intro K₂ group _ h₂
  apply closed_bind (closed_select _ h₂)
  intro K₃ role _ h₃
  apply closed_bind (closed_okOr _ _ h₃)
  intro K₄ role _ h₄
  split
  next => exact closed_fail h₄ _
  next =>
    apply closed_bind (closed_select _ h₄)
    intro K₅ attachments _ h₅
    apply closed_bind (closed_deleteListedAttachments h₅)
    intro K₆ deleted _ h₆
    exact closed_pure h₆ _

end Storage.Service

namespace Storage
open Storage.Service

def ended (K : History) : Flow (Except Error Reply) → Prop
  | .again => False
  | .done _ => txn K = none

theorem ended_of_closed {p : Service α} (h : Closed [] p) :
    (Fallible.once f p).Knows Cmd.sourced ended [] := by
  rw [Fallible.knows_once]
  apply h.mono
  intro K r hr
  exact hr.2

theorem program_sourced (call : Call) : (program call).Knows Cmd.sourced ended [] := by
  cases call with
  | userUploadArtifact => exact ended_of_closed (closed_userUploadArtifact rfl)
  | workerUploadArtifact => exact ended_of_closed (closed_workerUploadArtifact rfl)
  | userUploadAttachment => exact ended_of_closed (closed_userUploadAttachment rfl)
  | userDeleteArtifact => exact ended_of_closed (closed_userDeleteArtifact rfl)
  | adminDeleteArtifact => exact ended_of_closed (closed_adminDeleteArtifact rfl)
  | batchDeleteArtifactsByFilter =>
    apply ended_of_closed
    apply closed_bind (closed_queryTasksByFilter rfl)
    intro K₁ resp _ h₁
    apply closed_bind (closed_deleteArtifactsByUuidsInternal h₁)
    intro K₂ deleted _ h₂
    exact closed_pure h₂ _
  | batchDeleteArtifactsByUuids =>
    apply ended_of_closed
    unfold batchDeleteArtifactsByUuids
    split
    next => exact closed_fail rfl _
    next => exact closed_deleteArtifactsByUuidsInternal rfl
  | userDeleteAttachment => exact ended_of_closed (closed_userDeleteAttachment rfl)
  | adminDeleteAttachment => exact ended_of_closed (closed_adminDeleteAttachment rfl)
  | batchDeleteAttachmentsByFilter =>
    apply ended_of_closed
    apply closed_bind (closed_checkMember rfl)
    intro K₁ _ _ h₁
    apply closed_bind (closed_select _ h₁)
    intro K₂ infos _ h₂
    apply closed_bind (closed_deleteAttachmentsByKeysInternal h₂)
    intro K₃ deleted _ h₃
    exact closed_pure h₃ _
  | batchDeleteAttachmentsByKeys =>
    apply ended_of_closed
    apply closed_bind (closed_checkMember rfl)
    intro K₁ _ _ h₁
    split
    next => exact closed_fail h₁ _
    next => exact closed_deleteAttachmentsByKeysInternal h₁

end Storage
end Mitosis
