import Mitosis.Proof.Carried

namespace Mitosis
set_option autoImplicit true

namespace Storage

/-- A request to delete an object, of a user or of an administrator. -/
inductive Deletion where
  | artifact (user : Option UserId) (uuid : Uuid) (contentType : ArtifactContentType)
  | attachment (user : Option UserId) (groupName key : String)

/-- What a deletion finds in the database: the group that owns the object, the row, the statement
that deletes the row and what this statement does. -/
structure Found where
  groupId : GroupId
  size : Int
  updatedAt : Instant
  delete : Update
  drop : Change

namespace Deletion

def service : Deletion → Service Unit
  | artifact none uuid contentType => Service.adminDeleteArtifact uuid contentType
  | artifact (some userId) uuid contentType =>
    Service.userDeleteArtifact userId uuid contentType
  | attachment none groupName key => Service.adminDeleteAttachment groupName key
  | attachment (some userId) groupName key => Service.userDeleteAttachment userId groupName key

def object : Deletion → Object
  | artifact _ uuid contentType => .artifact uuid contentType
  | attachment _ groupName key => .attachment groupName key

def user : Deletion → Option UserId
  | artifact user _ _ => user
  | attachment user _ _ => user

def found (s : Store) : Deletion → Option Found
  | artifact _ uuid contentType => do
    let task ← s.storedTask uuid
    let artifact ← (Select.artifact task.uuid contentType).eval s
    return ⟨task.groupId, artifact.size, artifact.updatedAt, .deleteArtifact artifact,
      .dropArtifact artifact.id (uuid, contentType)⟩
  | attachment _ groupName key => do
    let group ← (Select.groupByName groupName).eval s
    let attachment ← (Select.attachment group.1 key).eval s
    return ⟨group.1, attachment.size, attachment.updatedAt, .deleteAttachment attachment,
      .dropAttachment attachment.id (group.1, key)⟩

/-- A user has to have a role other than `Read` in the group, and the object has to be old. -/
def permitted (s : Store) (time : Instant) (d : Deletion) (f : Found) : Bool :=
  d.user.all fun userId =>
    (s.db.userGroup.find (userId, f.groupId)).any (fun role => role ≠ .read) &&
      !decide (f.updatedAt + uploadValidSecs > time)

/-- The database without the record, and with its size freed. -/
def removed (s : Store) (time : Instant) (d : Deletion) : Option Store := do
  let f ← d.found s
  let group ← s.db.groups.find f.groupId
  let used := Service.saturatingSub group.storageUsed f.size
  return f.drop.apply ((Change.setStorageUsed f.groupId used time).apply s)

end Deletion

theorem artifact_eval {s : Store} {row : ArtifactRow}
    (h : (Select.artifact uuid contentType).eval s = some row) :
    s.artifactIds.find row.id = some (uuid, contentType) := by
  obtain ⟨e, he, hr⟩ := List.exists_of_findSome?_eq_some h
  split at hr
  next hk =>
    obtain ⟨a, -, rfl⟩ := Option.map_eq_some_iff.1 hr
    exact (Table.mem_rows.1 he).trans (congrArg some hk)
  next => cases hr

theorem attachment_eval {s : Store} {row : AttachmentRow}
    (h : (Select.attachment groupId key).eval s = some row) :
    s.attachmentIds.find row.id = some (groupId, key) ∧ row.groupId = groupId := by
  obtain ⟨e, he, hr⟩ := List.exists_of_findSome?_eq_some h
  split at hr
  next hk =>
    obtain ⟨a, -, rfl⟩ := Option.map_eq_some_iff.1 hr
    exact ⟨(Table.mem_rows.1 he).trans (congrArg some hk), congrArg Prod.fst hk⟩
  next => cases hr

theorem storedTask_uuid {s : Store} {task : Db.StoredTask} (h : s.storedTask uuid = some task) :
    task.uuid = uuid := by
  unfold Store.storedTask at h
  split at h
  next t row hr =>
    obtain ⟨⟩ := h
    have hr : s.db.findActiveByUuid uuid = some (t, row) := hr
    exact of_decide_eq_true (Table.findWhere_some hr).2
  next =>
    obtain ⟨⟨t, row⟩, hr, rfl⟩ := Option.map_eq_some_iff.1 h
    have hr : s.db.findArchivedByUuid uuid = some (t, row) := hr
    exact of_decide_eq_true (Table.findWhere_some hr).2

/-- The statement drops the row that was found, also after the group has been updated. -/
theorem Found.makes {s : Store} {d : Deletion} (h : d.found s = some f)
    (hm : Makes m ((Change.setStorageUsed g used time).apply s) f.delete c) : c = f.drop := by
  cases d with
  | artifact user uuid contentType =>
    obtain ⟨task, ht, h⟩ := Option.bind_eq_some_iff.1 h
    obtain ⟨row, hr, h⟩ := Option.bind_eq_some_iff.1 h
    obtain ⟨⟩ := h
    have hid := artifact_eval hr
    rw [storedTask_uuid ht] at hid
    cases hm with
    | noArtifact hn => cases hn.symm.trans hid
    | dropArtifact hk =>
      obtain ⟨⟩ := hk.symm.trans hid
      rfl
  | attachment user groupName key =>
    obtain ⟨group, hg, h⟩ := Option.bind_eq_some_iff.1 h
    obtain ⟨row, hr, h⟩ := Option.bind_eq_some_iff.1 h
    obtain ⟨⟩ := h
    obtain ⟨hid, -⟩ := attachment_eval hr
    cases hm with
    | noAttachment hn => cases hn.symm.trans hid
    | dropAttachment hk =>
      obtain ⟨⟩ := hk.symm.trans hid
      rfl

theorem permitted_of_role {s : Store} {time : Instant} {d : Deletion} (hu : d.user = some userId)
    (hrole : s.db.userGroup.find (userId, f.groupId) = some role) (hread : role ≠ .read)
    (hold : ¬ f.updatedAt + uploadValidSecs > time) :
    d.permitted s time f = true := by
  rw [Deletion.permitted, hu, Option.all_some, hrole, Option.any_some, decide_eq_true hread,
    decide_eq_false hold]
  rfl

theorem Found.answer {d : Deletion} (h : d.found s = some f) (m : Nat) (v : Store) :
    ∃ ws, (f.delete.answer m v).result = .ok ((), ws) := by
  cases d with
  | artifact user uuid contentType =>
    obtain ⟨task, -, h⟩ := Option.bind_eq_some_iff.1 h
    obtain ⟨row, -, h⟩ := Option.bind_eq_some_iff.1 h
    obtain ⟨⟩ := h
    unfold Update.answer
    simp only
    split
    · exact ⟨_, rfl⟩
    · exact ⟨_, rfl⟩
  | attachment user groupName key =>
    obtain ⟨group, -, h⟩ := Option.bind_eq_some_iff.1 h
    obtain ⟨row, -, h⟩ := Option.bind_eq_some_iff.1 h
    obtain ⟨⟩ := h
    unfold Update.answer
    simp only
    split
    · exact ⟨_, rfl⟩
    · exact ⟨_, rfl⟩

theorem without_without (bucket : Object → Bool) (object : Object) :
    without (without bucket object) object = without bucket object := by
  funext o
  simp only [without, Bool.and_assoc, Bool.and_self]

namespace Service
open Fallible (Keeps)

/-- The body of the transaction of `release`. -/
def releasing (object : Object) (groupId : GroupId) (size : Int) (msg : String)
    (delete : Update) : Service Unit := do
  issue (.deleteObject object)
  let group ← select (.db (.group groupId))
  let group ← Fallible.okOr (invalid msg) group
  let used := saturatingSub group.storageUsed size
  let now ← now
  update (.updateGroup (groupId, group) (-size) used now)
  update delete

theorem release_eq : release object groupId size msg delete =
    transaction (releasing object groupId size msg delete) := rfl

theorem inner_releasing : Keeps (fun _ c => c.inner = true) (fun _ => True)
    (releasing object groupId size msg delete) := by
  have h : ∀ c : Cmd, c.inner = true →
      Keeps (fun _ c => c.inner = true) (fun _ => True) (issue c) :=
    fun c hc => .issue c fun _ _ => ⟨hc, fun _ => trivial⟩
  refine (h (.deleteObject object) rfl).bind fun _ => (h (.select _) rfl).bind fun _ => ?_
  refine (Keeps.okOr _ _).bind fun _ => (h .now rfl).bind fun _ => ?_
  exact (h (.update _) rfl).bind fun _ => h (.update _) rfl

/-- The object leaves the bucket first, and nothing behind that touches the bucket. -/
theorem bucket_releasing {r : Except Error Unit}
    (h : Carries i (releasing object groupId size msg delete) x r x') :
    Stuck x r x' ∨ x'.bucket = without x.bucket object := by
  rcases (Fallible.runs_bind _ _).1 h with ⟨_, y, hd, h⟩ | ⟨e, hd, rfl⟩
  · obtain ⟨fault, hx⟩ := (Fallible.runs_issue _).1 hd
    cases fault with
    | some => cases hx
    | none =>
      obtain ⟨⟩ := hx
      have hk : ∀ c : Cmd, c.sparing = true →
          Keeps (fun _ c => c.sparing = true) (fun _ => True) (issue c) :=
        fun c hc => .issue c fun _ _ => ⟨hc, fun _ => trivial⟩
      refine .inr (Fallible.Runs.invariant
        (P := fun y : Bucketed => y.bucket = without x.bucket object) h ?_
        (fun c s r s' hc hx hs => (Cmd.bucket_of_sparing hc hx).trans hs) rfl)
      refine (hk (.select _) rfl).bind fun _ => (Keeps.okOr _ _).bind fun _ => ?_
      refine (hk .now rfl).bind fun _ => ?_
      exact (hk (.update _) rfl).bind fun _ => hk (.update _) rfl
  · obtain ⟨fault, hx⟩ := (Fallible.runs_issue _).1 hd
    cases fault with
    | none => cases hx
    | some =>
      obtain ⟨⟩ := hx
      exact .inl ⟨rfl, _, rfl⟩

theorem release_error (h : Carries i (release object groupId size msg delete) x (.error e) x') :
    x'.infra.txns.committed = x.infra.txns.committed ∧
      (x.infra.txns.opened.find i = none → x'.infra.txns.opened.find i = none) ∧
      (x'.bucket = x.bucket ∨ x'.bucket = without x.bucket object) := by
  obtain ⟨hc, ho, hb | ⟨r, y, z, hp, hy, hb⟩⟩ := carries_transaction_error inner_releasing h
  · exact ⟨hc, ho, .inl hb⟩
  · rcases bucket_releasing hp with ⟨rfl, -⟩ | hz
    · exact ⟨hc, ho, .inl (hb.trans hy)⟩
    · exact ⟨hc, ho, .inr (by rw [hb, hz, hy])⟩

theorem release_ok {x x' : Bucketed} {d : Deletion} (hf : d.found x.infra.txns.committed = some f)
    (h : Carries i (release object f.groupId f.size msg f.delete) x (.ok ()) x') :
    d.removed x.infra.txns.committed x.infra.clock = some x'.infra.txns.committed ∧
      x'.bucket = without x.bucket object := by
  obtain ⟨y, z, hw, hclock, hb, hp, ht, hb'⟩ := carries_transaction_ok h
  constructor
  · obtain ⟨_, y₁, hd, h⟩ := (Fallible.runs_bind_ok _ _).1 (Carries.runs hp)
    have hy₁ : y₁ = y.infra := by
      obtain ⟨fault, hx⟩ := (Fallible.runs_issue _).1 hd
      cases fault with
      | some => cases hx
      | none =>
        obtain ⟨⟩ := hx
        rfl
    subst hy₁
    obtain ⟨read, y₂, hs, h⟩ := (Fallible.runs_bind_ok _ _).1 h
    obtain ⟨hg, rfl⟩ := runs_select_ok hs
    obtain ⟨group, y₃, ho, h⟩ := (Fallible.runs_bind_ok _ _).1 h
    obtain ⟨rfl, rfl⟩ := (Fallible.runs_okOr_ok _ _).1 ho
    obtain ⟨time, y₄, hn, h⟩ := (Fallible.runs_bind_ok _ _).1 h
    obtain ⟨rfl, rfl⟩ := runs_now_ok hn
    obtain ⟨_, y₅, hu, h⟩ := (Fallible.runs_bind_ok _ _).1 h
    obtain ⟨c, hm, hw'⟩ := runs_update_ok hw hu
    obtain ⟨c', hm', hw'⟩ := runs_update_ok hw' h
    have hg : x.infra.txns.committed.db.groups.find f.groupId = some group :=
      (hg.trans (congrArg (Select.eval · (.db (.group f.groupId))) hw.view)).symm
    cases hm with
    | setStorageUsed =>
      rw [Found.makes hf hm'] at hw'
      rw [ht, Txns.commit, hw'.view]
      unfold Deletion.removed
      rw [hf, Option.bind_eq_bind, Option.bind_some, hg, Option.bind_eq_bind, Option.bind_some,
        hclock]
      rfl
  · rcases bucket_releasing hp with ⟨-, e, he⟩ | hz
    · cases he
    · rw [hb', hz, hb]

/-- A request reads what it deletes and is stuck, or comes to its transaction. -/
theorem deleteArtifact_cases {r : Except Error Unit}
    (h : Carries i (deleteArtifact task contentType admin) x r x') :
    Stuck x r x' ∨ ∃ row msg,
      (Select.artifact task.uuid contentType).eval (x.infra.txns.view i) = some row ∧
      (admin = true ∨ ¬ row.updatedAt + uploadValidSecs > x.infra.clock) ∧
      Carries i (release (.artifact task.uuid contentType) task.groupId row.size msg
        (.deleteArtifact row)) x r x' := by
  unfold deleteArtifact at h
  rcases carries_select h with hs | h
  · exact .inl hs
  · rcases carries_okOr h with hs | ⟨row, hr, h⟩
    · exact .inl hs
    · have h := carries_now h
      split at h
      next => exact .inl (stuck_fail h)
      next hn =>
        refine .inr ⟨row, _, hr, ?_, h⟩
        cases admin with
        | true => exact .inl rfl
        | false => exact .inr fun hlt => hn (decide_eq_true hlt)

theorem getAttachmentFromDb_cases {f : AttachmentRow → Service α} {r : Except Error α}
    (h : Carries i (getAttachmentFromDb userId groupName key true admin >>= f) x r x') :
    Stuck x r x' ∨ ∃ group row,
      (Select.groupByName groupName).eval (x.infra.txns.view i) = some group ∧
      (Select.attachment group.1 key).eval (x.infra.txns.view i) = some row ∧
      (admin = true ∨ ∃ role, (x.infra.txns.view i).db.userGroup.find (userId, group.1) =
        some role ∧ role ≠ .read) ∧ Carries i (f row) x r x' := by
  unfold getAttachmentFromDb at h
  rw [Fallible.bind_assoc] at h
  rcases carries_select h with hs | h
  · exact .inl hs
  · rw [Fallible.bind_assoc] at h
    rcases carries_okOr h with hs | ⟨group, hg, h⟩
    · exact .inl hs
    · cases admin with
      | true =>
        simp only [Bool.not_true, Bool.false_eq_true, if_false, Fallible.bind_assoc] at h
        rcases carries_select h with hs | h
        · exact .inl hs
        · rcases carries_okOr h with hs | ⟨row, hr, h⟩
          · exact .inl hs
          · exact .inr ⟨group, row, hg, hr, .inl rfl, h⟩
      | false =>
        simp only [Bool.not_false, if_true, Fallible.bind_assoc] at h
        rcases carries_select h with hs | h
        · exact .inl hs
        · rcases carries_okOr h with hs | ⟨role, hrole, h⟩
          · exact .inl hs
          · by_cases hread : role = .read
            · rw [if_pos (by rw [hread]; rfl)] at h
              rcases (Fallible.runs_bind _ _).1 h with ⟨b, y, hb, -⟩ | ⟨e, hb, rfl⟩
              · cases ((Fallible.runs_fail _).1 hb).1
              · exact .inl ⟨((Fallible.runs_fail _).1 hb).2.symm, e, rfl⟩
            · rw [if_neg (by simpa only [Bool.true_and, decide_eq_true_eq] using hread)] at h
              simp only [Fallible.bind_assoc] at h
              rcases carries_select h with hs | h
              · exact .inl hs
              · rcases carries_okOr h with hs | ⟨row, hr, h⟩
                · exact .inl hs
                · exact .inr ⟨group, row, hg, hr, .inr ⟨role, hrole, hread⟩, h⟩

theorem service_cases {d : Deletion} {r : Except Error Unit} (h : Carries i d.service x r x') :
    Stuck x r x' ∨ ∃ f msg, d.found (x.infra.txns.view i) = some f ∧
      d.permitted (x.infra.txns.view i) x.infra.clock f = true ∧
      Carries i (release d.object f.groupId f.size msg f.delete) x r x' := by
  cases d with
  | artifact user uuid contentType =>
    cases user with
    | none =>
      rcases carries_findTaskByUuid h with hs | ⟨task, ht, h⟩
      · exact .inl hs
      · rcases deleteArtifact_cases h with hs | ⟨row, msg, hr, -, h⟩
        · exact .inl hs
        · refine .inr ⟨⟨task.groupId, row.size, row.updatedAt, .deleteArtifact row,
            .dropArtifact row.id (uuid, contentType)⟩, msg, ?_, rfl, ?_⟩
          · simp only [Deletion.found, ht, hr, Option.bind_eq_bind, Option.bind_some]
            rfl
          · rw [← storedTask_uuid ht]
            exact h
    | some userId =>
      rcases carries_findTaskByUuid h with hs | ⟨task, ht, h⟩
      · exact .inl hs
      · rcases carries_select h with hs | h
        · exact .inl hs
        · rcases carries_okOr h with hs | ⟨role, hrole, h⟩
          · exact .inl hs
          · split at h
            next => exact .inl (stuck_fail h)
            next hread =>
              rcases deleteArtifact_cases h with hs | ⟨row, msg, hr, hold, h⟩
              · exact .inl hs
              · refine .inr ⟨⟨task.groupId, row.size, row.updatedAt, .deleteArtifact row,
                  .dropArtifact row.id (uuid, contentType)⟩, msg, ?_, ?_, ?_⟩
                · simp only [Deletion.found, ht, hr, Option.bind_eq_bind, Option.bind_some]
                  rfl
                · exact permitted_of_role rfl hrole hread (hold.resolve_left Bool.false_ne_true)
                · rw [← storedTask_uuid ht]
                  exact h
  | attachment user groupName key =>
    cases user with
    | none =>
      rcases getAttachmentFromDb_cases h with hs | ⟨group, row, hg, hr, -, h⟩
      · exact .inl hs
      · refine .inr ⟨⟨group.1, row.size, row.updatedAt, .deleteAttachment row,
          .dropAttachment row.id (group.1, key)⟩, "Group for the attachment not found", ?_, rfl, ?_⟩
        · simp only [Deletion.found, hg, hr, Option.bind_eq_bind, Option.bind_some]
          rfl
        · rw [← (attachment_eval hr).2]
          exact h
    | some userId =>
      rcases getAttachmentFromDb_cases h with hs | ⟨group, row, hg, hr, hrole, h⟩
      · exact .inl hs
      · obtain ⟨role, hrole, hread⟩ := hrole.resolve_left Bool.false_ne_true
        have h := carries_now h
        split at h
        next => exact .inl (stuck_fail h)
        next hold =>
          refine .inr ⟨⟨group.1, row.size, row.updatedAt, .deleteAttachment row,
            .dropAttachment row.id (group.1, key)⟩, "Group for the attachment not found", ?_, ?_,
            ?_⟩
          · simp only [Deletion.found, hg, hr, Option.bind_eq_bind, Option.bind_some]
            rfl
          · exact permitted_of_role rfl hrole hread hold
          · rw [← (attachment_eval hr).2]
            exact h

/-- The service alone on the bucket, where nothing fails. -/
abbrev carry (i : Nat) (p : Service α) (x : Bucketed) : Option (Except Error α × Bucketed) :=
  Fallible.run (fun c x => c.execBucketed i none x) p x

theorem carries_of_carry {p : Service α} {r : Except Error α} (h : carry i p x = some (r, x')) :
    Carries i p x r x' := Prog.runs_of_run (fun _ _ _ _ hx => ⟨none, hx⟩) h

theorem carry_bind_ok {p : Service β} (h : carry i p x = some (.ok b, y)) (f : β → Service α) :
    carry i (p >>= f) x = carry i (f b) y := Fallible.run_bind_ok h f

theorem carry_select (q : Select) (f : q.Ret → Service α) (x : Bucketed) :
    carry i (select q >>= f) x = carry i (f (q.eval (x.infra.txns.view i))) x :=
  Fallible.run_bind_ok (Fallible.run_issue _ _) f

theorem carry_now (f : Instant → Service α) (x : Bucketed) :
    carry i (now >>= f) x = carry i (f x.infra.clock) x :=
  Fallible.run_bind_ok (Fallible.run_issue _ _) f

theorem carry_okOr {o : Option β} (ho : o = some b) (f : β → Service α) (x : Bucketed) :
    carry i (Fallible.okOr e o >>= f) x = carry i (f b) x := by
  rw [ho]
  exact Fallible.run_bind_ok (Fallible.run_okOr_some _ _ _) f

theorem carry_findTaskByUuid {task : Db.StoredTask}
    (h : (x.infra.txns.view i).storedTask uuid = some task) (f : Db.StoredTask → Service α) :
    carry i (findTaskByUuid uuid >>= f) x = carry i (f task) x := by
  unfold findTaskByUuid
  rw [Fallible.bind_assoc, carry_select]
  unfold Store.storedTask at h
  cases hf : (Select.db (.activeByUuid uuid)).eval (x.infra.txns.view i) with
  | some e =>
    rw [hf] at h
    obtain ⟨⟩ := h
    rfl
  | none =>
    rw [hf] at h
    obtain ⟨e, he, rfl⟩ := Option.map_eq_some_iff.1 h
    simp only [Fallible.bind_assoc]
    rw [carry_select, carry_okOr he]
    rfl

def Idle (x : Bucketed) : Prop := ∀ j, x.infra.txns.opened.find j = none

theorem Idle.view (h : Idle x) (i : Nat) : x.infra.txns.view i = x.infra.txns.committed := by
  rw [Txns.view, h i]
  rfl

theorem carry_update {x : Bucketed} {q : Update}
    (ho : ∀ j, j ≠ i → x.infra.txns.opened.find j = none)
    (hq : (q.answer x.infra.next (x.infra.txns.view i)).result = .ok ((), ws)) :
    carry i (update q) x = some (.ok (), ⟨{ x.infra with
      txns := x.infra.txns.write i ws, next := x.infra.next + 1 }, x.bucket⟩) := by
  have hl : x.infra.txns.locked i (q.answer x.infra.next (x.infra.txns.view i)).waits = false := by
    apply List.any_eq_false.2
    rintro ⟨j, ws⟩ he hb
    have hj := (Bool.and_eq_true _ _ ▸ hb).1
    cases (Table.mem_rows.1 he).symm.trans (ho j (of_decide_eq_true hj))
  refine (Fallible.run_issue _ _).trans ?_
  simp only [Cmd.execBucketed, Cmd.exec, Txns.execute, hl, hq, Bool.false_eq_true, if_false,
    Option.map_some]

theorem carry_release {d : Deletion} (hx : Idle x)
    (hf : d.found x.infra.txns.committed = some f)
    (hg : x.infra.txns.committed.db.groups.find f.groupId = some group) :
    ∃ z, carry i (release object f.groupId f.size msg f.delete) x = some (.ok (), z) := by
  let y : Bucketed := ⟨{ x.infra with txns := x.infra.txns.start i }, x.bucket⟩
  have hw : Within i x.infra.txns.committed [] y.infra :=
    ⟨Table.find_set_self x.infra.txns.opened i [], rfl⟩
  have ho : ∀ j, j ≠ i → y.infra.txns.opened.find j = none :=
    fun j hj => (Table.find_set_ne _ _ hj).trans (hx j)
  have hbody : ∃ z, carry i (releasing object f.groupId f.size msg f.delete) y =
      some (.ok (), z) := by
    have hd : carry i (issue (.deleteObject object)) y =
        some (.ok (), ⟨y.infra, without y.bucket object⟩) := Fallible.run_issue _ _
    unfold releasing
    rw [carry_bind_ok hd, carry_select,
      carry_okOr ((congrArg (Select.eval · (.db (.group f.groupId))) hw.view).trans hg), carry_now]
    have hq : ((Update.updateGroup (f.groupId, group) (-f.size)
        (saturatingSub group.storageUsed f.size) y.infra.clock).answer y.infra.next
        (y.infra.txns.view i)).result = .ok ((), [⟨.updateGroup (f.groupId, group) (-f.size)
          (saturatingSub group.storageUsed f.size) y.infra.clock,
          .setStorageUsed f.groupId (saturatingSub group.storageUsed f.size) y.infra.clock⟩]) := by
      rw [hw.view]
      unfold Update.answer
      simp only
      rw [show (Txns.applyAll [] x.infra.txns.committed).db.groups.find f.groupId = some group
        from hg]
      rfl
    rw [carry_bind_ok (carry_update (x := ⟨y.infra, without y.bucket object⟩) ho hq)]
    obtain ⟨ws, hws⟩ := Found.answer hf (y.infra.next + 1) _
    refine ⟨_, carry_update ?_ hws⟩
    intro j hj
    unfold Txns.write
    simp only [hw.opened]
    exact (Table.find_set_ne _ _ hj).trans (ho j hj)
  obtain ⟨z, hz⟩ := hbody
  refine ⟨⟨{ z.infra with txns := z.infra.txns.commit i }, z.bucket⟩, ?_⟩
  rw [release_eq, transaction]
  have hs : carry i (issue .start) x = some (.ok (), y) := Fallible.run_issue _ _
  rw [carry_bind_ok hs, carry_bind_ok (Fallible.run_attempt hz)]
  exact Fallible.run_bind_ok (Fallible.run_issue _ _) _

/-- Where nothing fails, the request comes to its transaction. -/
theorem carry_service_eq {x : Bucketed} {d : Deletion}
    (hf : d.found (x.infra.txns.view i) = some f)
    (hp : d.permitted (x.infra.txns.view i) x.infra.clock f = true) :
    ∃ object msg, carry i d.service x =
      carry i (release object f.groupId f.size msg f.delete) x := by
  have hrole : ∀ userId, d.user = some userId → ∃ role, role ≠ .read ∧
      (x.infra.txns.view i).db.userGroup.find (userId, f.groupId) = some role ∧
      ¬ f.updatedAt + uploadValidSecs > x.infra.clock := by
    intro userId hu
    rw [Deletion.permitted, hu, Option.all_some, Bool.and_eq_true] at hp
    obtain ⟨role, hr, hn⟩ := (Option.any_eq_true _ _).1 hp.1
    refine ⟨role, of_decide_eq_true hn, hr, fun hgt => ?_⟩
    rw [decide_eq_true hgt] at hp
    cases hp.2
  cases d with
  | artifact user uuid contentType =>
    obtain ⟨task, ht, h⟩ := Option.bind_eq_some_iff.1 hf
    obtain ⟨row, hr, h⟩ := Option.bind_eq_some_iff.1 h
    obtain ⟨⟩ := h
    have hend : ∀ admin, (admin = true ∨ ¬ row.updatedAt + uploadValidSecs > x.infra.clock) →
        carry i (deleteArtifact task contentType admin) x =
          carry i (release (.artifact task.uuid contentType) task.groupId row.size
            "Group for the artifact not found" (.deleteArtifact row)) x := by
      intro admin hold
      apply (carry_select _ _ _).trans
      apply (carry_okOr hr _ _).trans
      apply (carry_now _ _).trans
      rw [if_neg]
      cases admin with
      | true => exact Bool.false_ne_true
      | false => exact fun hgt => hold.resolve_left Bool.false_ne_true (of_decide_eq_true hgt)
    cases user with
    | none => exact ⟨_, _, (carry_findTaskByUuid ht _).trans (hend true (.inl rfl))⟩
    | some userId =>
      obtain ⟨role, hn, hu, hold⟩ := hrole userId rfl
      refine ⟨.artifact task.uuid contentType, "Group for the artifact not found",
        (carry_findTaskByUuid ht _).trans ?_⟩
      apply (carry_select _ _ _).trans
      apply (carry_okOr hu _ _).trans
      rw [if_neg hn]
      exact hend false (.inr hold)
  | attachment user groupName key =>
    obtain ⟨g, hg, h⟩ := Option.bind_eq_some_iff.1 hf
    obtain ⟨row, hr, h⟩ := Option.bind_eq_some_iff.1 h
    obtain ⟨⟩ := h
    have hread : ∀ userId admin (f : AttachmentRow → Service Unit),
        (admin = true ∨ ∃ role, role ≠ .read ∧
          (x.infra.txns.view i).db.userGroup.find (userId, g.1) = some role) →
        carry i (getAttachmentFromDb userId groupName key true admin >>= f) x =
          carry i (f row) x := by
      intro userId admin f hu
      unfold getAttachmentFromDb
      rw [Fallible.bind_assoc]
      apply (carry_select _ _ _).trans
      rw [Fallible.bind_assoc]
      apply (carry_okOr hg _ _).trans
      cases admin with
      | true =>
        simp only [Bool.not_true, Bool.false_eq_true, if_false, Fallible.bind_assoc]
        exact (carry_select _ _ _).trans (carry_okOr hr _ _)
      | false =>
        obtain ⟨role, hn, hu⟩ := hu.resolve_left Bool.false_ne_true
        simp only [Bool.not_false, if_true, Fallible.bind_assoc]
        apply (carry_select _ _ _).trans
        apply (carry_okOr hu _ _).trans
        rw [if_neg (by simpa only [Bool.true_and, decide_eq_true_eq] using hn)]
        simp only [Fallible.bind_assoc]
        exact (carry_select _ _ _).trans (carry_okOr hr _ _)
    have hrow := (attachment_eval hr).2
    have hend : carry i (deleteAttachment row groupName key) x =
        carry i (release (.attachment groupName key) g.1 row.size
          "Group for the attachment not found" (.deleteAttachment row)) x := by
      rw [← hrow]
      rfl
    cases user with
    | none => exact ⟨_, _, (hread 0 true _ (.inl rfl)).trans hend⟩
    | some userId =>
      obtain ⟨role, hn, hu, hold⟩ := hrole userId rfl
      refine ⟨.attachment groupName key, "Group for the attachment not found",
        (hread userId false _ (.inr ⟨role, hn, hu⟩)).trans ?_⟩
      apply (carry_now _ _).trans
      rw [if_neg hold]
      exact hend

end Service
open Storage.Service

def Deletion.due (s : Store) (time : Instant) (d : Deletion) : Bool :=
  (d.found s).any fun f => d.permitted s time f && (s.db.groups.find f.groupId).isSome

/-- Attempts of the session to delete that have failed, at any point and for any reason, with time
in between. -/
inductive Attempts (i : Nat) (d : Deletion) (x : Bucketed) : Bucketed → Prop
  | start : Attempts i d x x
  | failed : Attempts i d x y → Carries i d.service y (.error e) z → Attempts i d x z
  | later (n : Nat) : Attempts i d x y →
    Attempts i d x ⟨{ y.infra with clock := y.infra.clock + n }, y.bucket⟩

theorem service_error {d : Deletion} (hx : Idle x) (h : Carries i d.service x (.error e) x') :
    Idle x' ∧ x'.infra.txns.committed = x.infra.txns.committed ∧
      (x'.bucket = x.bucket ∨ x'.bucket = without x.bucket d.object) := by
  rcases service_cases h with ⟨rfl, -⟩ | ⟨f, msg, -, -, h'⟩
  · exact ⟨hx, rfl, .inl rfl⟩
  · obtain ⟨hc, ho, hb⟩ := release_error h'
    refine ⟨fun j => ?_, hc, hb⟩
    by_cases hj : j = i
    · subst hj
      exact ho (hx j)
    · exact Prog.Runs.preserved (P := fun y : Infra => y.txns.opened.find j = none) (Carries.runs h)
        (fun c s r s' hs ho => (Cmd.opened_of_ne hj hs).trans ho) (hx j)

theorem Attempts.left {d : Deletion} (hx : Idle x) (h : Attempts i d x y) :
    Idle y ∧ y.infra.txns.committed = x.infra.txns.committed ∧
      (y.bucket = x.bucket ∨ y.bucket = without x.bucket d.object) := by
  induction h with
  | start => exact ⟨hx, rfl, .inl rfl⟩
  | failed _ hz ih =>
    obtain ⟨hy, hc, hb⟩ := ih
    obtain ⟨hz, hc', hb'⟩ := service_error hy hz
    refine ⟨hz, hc'.trans hc, ?_⟩
    rcases hb' with hb' | hb'
    · rw [hb']
      exact hb
    · rcases hb with hb | hb
      · exact .inr (hb'.trans (congrArg (without · d.object) hb))
      · exact .inr (hb'.trans ((congrArg (without · d.object) hb).trans (without_without _ _)))
  | later n _ ih => exact ih

/-- However often a deletion has failed, and wherever, the database is as before, the bucket is as
before or without the object, an attempt that succeeds frees the recorded size once, and nothing
keeps the next attempt from it. -/
theorem deletion_retried {d : Deletion} (hx : Idle x) (h : Attempts i d x y) :
    y.infra.txns.committed = x.infra.txns.committed ∧
      (y.bucket = x.bucket ∨ y.bucket = without x.bucket d.object) ∧
      (∀ z, Carries i d.service y (.ok ()) z →
        d.removed x.infra.txns.committed y.infra.clock = some z.infra.txns.committed ∧
        z.bucket = without x.bucket d.object) ∧
      ((∃ z, carry i d.service y = some (.ok (), z)) ↔
        d.due x.infra.txns.committed y.infra.clock = true) := by
  obtain ⟨hy, hc, hb⟩ := h.left hx
  have hv : y.infra.txns.view i = x.infra.txns.committed := (hy.view i).trans hc
  have hok : ∀ z, Carries i d.service y (.ok ()) z →
      ∃ f, d.found x.infra.txns.committed = some f ∧
        d.permitted x.infra.txns.committed y.infra.clock f = true ∧
        d.removed x.infra.txns.committed y.infra.clock = some z.infra.txns.committed ∧
        z.bucket = without x.bucket d.object := by
    intro z hz
    rcases service_cases hz with ⟨-, e, he⟩ | ⟨f, msg, hf, hp, hz⟩
    · cases he
    · rw [hv] at hf hp
      obtain ⟨hr, hb'⟩ := release_ok (hc.symm ▸ hf) hz
      rw [hc] at hr
      refine ⟨f, hf, hp, hr, hb'.trans ?_⟩
      rcases hb with hb | hb
      · rw [hb]
      · exact (congrArg (without · d.object) hb).trans (without_without _ _)
  refine ⟨hc, hb, fun z hz => ?_, ?_⟩
  · obtain ⟨f, -, -, hz⟩ := hok z hz
    exact hz
  · constructor
    · rintro ⟨z, hz⟩
      obtain ⟨f, hf, hp, hr, -⟩ := hok z (carries_of_carry hz)
      unfold Deletion.removed at hr
      obtain ⟨f', hf', hr⟩ := Option.bind_eq_some_iff.1 hr
      obtain ⟨⟩ := hf'.symm.trans hf
      obtain ⟨group, hg, -⟩ := Option.bind_eq_some_iff.1 hr
      rw [Deletion.due, hf, Option.any_some, hp, hg]
      rfl
    · intro hd
      obtain ⟨f, hf, hd⟩ := (Option.any_eq_true _ _).1 hd
      obtain ⟨hp, hg⟩ := Bool.and_eq_true_iff.1 hd
      obtain ⟨group, hg⟩ := Option.isSome_iff_exists.1 hg
      obtain ⟨object, msg, he⟩ := carry_service_eq (hv ▸ hf) (hv ▸ hp)
      rw [he]
      exact carry_release hy (hc.symm ▸ hf) (hc.symm ▸ hg)

namespace DeletionDemo

def start : Bucketed :=
  ⟨⟨⟨{ Demo.store with
    db.groups := Table.empty.set 1 ⟨"u", 1, .active, 1, 1000, 5⟩
    db.artifacts := Table.empty.set (7, .result) ⟨5, 0, 0⟩
    artifactIds := Table.empty.set 1 (7, .result) }, .empty⟩, 2, 0⟩, fun _ => true⟩

def deletion : Deletion := .artifact (some 1) 7 .result

/-- The session, whose transactions cannot be committed. -/
def uncommitted (x : Bucketed) : Option (Except Error Unit × Bucketed) :=
  Fallible.run (fun c x => c.execBucketed 1 (match c with
    | .commit => some .query
    | _ => none) x) deletion.service x

/-- The transaction of the first attempt cannot be committed: the object is gone, its record is
not, and a later attempt deletes the record. -/
theorem retried_after_commit : ∃ y z, Attempts 1 deletion start y ∧
    y.bucket (.artifact 7 .result) = false ∧
    (y.infra.txns.committed.db.groups.find 1).map Group.storageUsed = some 5 ∧
    carry 1 deletion.service y = some (.ok (), z) ∧
    (z.infra.txns.committed.db.groups.find 1).map Group.storageUsed = some 0 ∧
    (z.infra.txns.committed.db.artifacts.find (7, .result)).isNone := by
  let x : Bucketed := ⟨{ start.infra with clock := start.infra.clock + 7200 }, start.bucket⟩
  have hx : (uncommitted x).map (fun r => (r.1, r.2.bucket (.artifact 7 .result),
      r.2.infra.clock)) = some (.error (.dbError .query), false, 7200) := by decide +kernel
  obtain ⟨⟨r, y⟩, hy, hr⟩ := Option.map_eq_some_iff.1 hx
  simp only [Prod.mk.injEq] at hr
  obtain ⟨rfl, hb, hclock⟩ := hr
  have h : Attempts 1 deletion start y :=
    .failed (.later 7200 .start) (Prog.runs_of_run (fun _ _ _ _ hx => ⟨_, hx⟩) hy)
  obtain ⟨hc, -, hok, hdue⟩ := deletion_retried (fun _ => rfl) h
  obtain ⟨z, hz⟩ := hdue.2 (by rw [hclock]; decide +kernel)
  obtain ⟨hremoved, -⟩ := hok z (carries_of_carry hz)
  have hz' : (deletion.removed start.infra.txns.committed 7200).map (fun s =>
      ((s.db.groups.find 1).map Group.storageUsed,
        (s.db.artifacts.find (7, .result)).isNone)) = some (some 0, true) := by decide +kernel
  rw [hclock] at hremoved
  rw [hremoved, Option.map_some, Option.some.injEq, Prod.mk.injEq] at hz'
  refine ⟨y, z, h, hb, ?_, hz, hz'.1, hz'.2⟩
  rw [hc]
  rfl

end DeletionDemo
end Storage
end Mitosis
