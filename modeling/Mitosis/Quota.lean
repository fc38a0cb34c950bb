import Mitosis.Proof.StorageAlone

namespace Mitosis
set_option autoImplicit true

namespace Storage

inductive Upload where
  | artifact (task : Db.StoredTask) (contentType : ArtifactContentType)
  | attachment (userId : UserId) (groupName key : String)

namespace Upload

def service (contentLength : Nat) : Upload → Service (Bool × UploadLink)
  | artifact task contentType => Service.groupUploadArtifact task contentType contentLength
  | attachment userId groupName key =>
    Service.userUploadAttachment userId groupName key contentLength

def groupId (s : Store) : Upload → Option GroupId
  | artifact task _ => some task.groupId
  | attachment _ groupName _ => ((Select.groupByName groupName).eval s).map Prod.fst

def recorded (s : Store) (g : GroupId) : Upload → Option Int
  | artifact task contentType => (s.db.artifacts.find (task.uuid, contentType)).map Artifact.size
  | attachment _ _ key => (s.attachments.find (g, key)).map Attachment.size

end Upload

/-- By how much the object grows in exact integers: no object shrinks. -/
def growth (found : Option Int) (contentLength : Nat) : Int :=
  found.elim (contentLength : Int) (max (contentLength : Int)) - found.getD 0

/-- What an upload should do to `storage_used` and to the recorded size, and what it should return,
in exact integers. -/
structure Exact (group : Group) (found : Option Int) (contentLength : Nat) (used size : Int)
    (url : UploadLink) : Prop where
  stored : used = group.storageUsed + (size - found.getD 0)
  grows : group.storageUsed ≤ group.storageUsed + (size - found.getD 0)
  quota : group.storageUsed + (size - found.getD 0) ≤ group.storageQuota
  recorded : contentLength ≤ size
  url : url.length = contentLength

def newSize (found : Option Int) (length : Int) : Int := found.elim length (max length)

/-- The `storage_used` that the code writes. -/
def newUsed (group : Group) (found : Option Int) (length : Int) : Int :=
  asI64 (group.storageUsed + asI64 (newSize found length - found.getD 0))

theorem asI64_of_nonneg {n : Nat} (h : n < 2 ^ 64) (h' : 0 ≤ asI64 n) : asI64 n = n := by
  unfold asI64 at h' ⊢
  omega

theorem asI64_lt (n : Int) : asI64 n < 2 ^ 63 := by
  unfold asI64
  omega

theorem growth_nonneg (found : Option Int) (contentLength : Nat) :
    0 ≤ growth found contentLength := by
  unfold growth
  cases found with
  | none => simp only [Option.elim_none, Option.getD_none, Int.sub_zero, Int.natCast_nonneg]
  | some n =>
    simp only [Option.elim_some, Option.getD_some]
    omega

/-- The sum of the code is exact where it does not overflow. -/
theorem exact_iff {group : Group} {contentLength : Nat} (hu : 0 ≤ group.storageUsed)
    (hq : newUsed group found contentLength ≤ group.storageQuota) :
    Exact group found contentLength (newUsed group found contentLength)
        (newSize found contentLength) ⟨object, contentLength⟩ ↔
      group.storageUsed + growth found contentLength < 2 ^ 63 := by
  have hg : newSize found contentLength - found.getD 0 = growth found contentLength := rfl
  have hn := growth_nonneg found contentLength
  unfold newUsed at hq ⊢
  rw [hg] at hq ⊢
  constructor
  · intro h
    have hs := h.stored
    have hlt := asI64_lt (group.storageUsed + asI64 (growth found contentLength))
    rw [hg] at hs
    omega
  · intro h
    have hf : fits (group.storageUsed + growth found contentLength) = true := by
      simp only [fits, Bool.and_eq_true, decide_eq_true_eq]
      omega
    rw [asI64_add hf] at hq ⊢
    constructor
    · rw [hg]
    · rw [hg]
      omega
    · rw [hg]
      exact hq
    · cases found with
      | none => exact Int.le_refl _
      | some n => exact Int.le_max_left _ _
    · rfl

namespace Service

/-- What the end of an upload that succeeds has checked, and what its session sees then. -/
structure Allocated (i : Nat) (v : Store) (object : Object) (group : GroupId × Group)
    (length : Int) (found : Option Int) (write : Int → Update) (url : UploadLink)
    (x : Infra) : Prop where
  nonneg : 0 ≤ length
  url : url = ⟨object, length⟩
  quota : newUsed group.2 found length ≤ group.2.storageQuota
  written : ∃ m c time row, Makes m v (write (newSize found length)) c ∧
    (c.apply v).db.groups.find group.1 = some row ∧
    x.txns.view i = Change.apply (c.apply v) (.setStorageUsed group.1
      (newUsed group.2 found length) time)

theorem runs_allocate_ok (hw : Within i s ws x) (h : Runs i
    (allocate object group length time found write) x (.ok (exist, url)) x') :
    Allocated i (Txns.applyAll ws s) object group length found write url x' := by
  unfold allocate at h
  obtain ⟨used, y, hc, h⟩ := (Fallible.runs_bind_ok _ _).1 h
  obtain ⟨url', z, hs, h⟩ := (Fallible.runs_bind_ok _ _).1 h
  obtain ⟨_, t, ho, h⟩ := (Fallible.runs_bind_ok _ _).1 h
  obtain ⟨_, t', hg, h⟩ := (Fallible.runs_bind_ok _ _).1 h
  obtain ⟨hr, rfl⟩ := (Fallible.runs_pure _).1 h
  obtain ⟨⟩ := hr
  simp only [checkQuota] at hc
  split at hc
  next =>
    obtain ⟨hc, -⟩ := (Fallible.runs_fail _).1 hc
    cases hc
  next hq =>
    obtain ⟨he, rfl⟩ := (Fallible.runs_pure _).1 hc
    obtain rfl := Except.ok.inj he
    obtain ⟨hl, rfl, rfl⟩ := runs_presignUpload_ok hs
    obtain ⟨c, hm, hw₁⟩ := runs_update_ok hw ho
    obtain ⟨c', hm', hw₂⟩ := runs_update_ok hw₁ hg
    have hv := hw₂.view
    simp only [Txns.applyAll, List.foldl_append, List.foldl_cons, List.foldl_nil] at hm' hv
    cases hm' with
    | setStorageUsed hf =>
      exact ⟨hl, rfl, Int.not_lt.1 hq, _, c, _, _, hm, hf, hv⟩

end Service

theorem artifact_of_select {v : Store} (h : (Select.artifact uuid contentType).eval v = some seen) :
    v.artifactIds.find seen.id = some (uuid, contentType) ∧
      (v.db.artifacts.find (uuid, contentType)).map Artifact.size = some seen.size := by
  obtain ⟨e, hm, he⟩ := List.exists_of_findSome?_eq_some h
  split at he
  next hk =>
    obtain ⟨a, ha, rfl⟩ := Option.map_eq_some_iff.1 he
    constructor
    · rw [← hk]
      exact Table.mem_rows.1 hm
    · rw [← hk, ha, Option.map_some]
  next => cases he

theorem attachment_of_select {v : Store} (h : (Select.attachment g key).eval v = some seen) :
    v.attachmentIds.find seen.id = some (g, key) ∧
      (v.attachments.find (g, key)).map Attachment.size = some seen.size := by
  obtain ⟨e, hm, he⟩ := List.exists_of_findSome?_eq_some h
  split at he
  next hk =>
    obtain ⟨a, ha, rfl⟩ := Option.map_eq_some_iff.1 he
    constructor
    · rw [← hk]
      exact Table.mem_rows.1 hm
    · rw [← hk, ha, Option.map_some]
  next => cases he

/-- What an upload to the group `g` has done to the database. -/
structure Upload.Done (u : Upload) (s : Store) (g : GroupId) (group : Group) (length : Int)
    (url : UploadLink) (s' : Store) : Prop where
  found : s.db.groups.find g = some group
  nonneg : 0 ≤ length
  url : ∃ object, url = ⟨object, length⟩
  quota : newUsed group (u.recorded s g) length ≤ group.storageQuota
  used : ∃ group', s'.db.groups.find g = some group' ∧
    group'.storageUsed = newUsed group (u.recorded s g) length
  size : u.recorded s' g = some (newSize (u.recorded s g) length)

theorem Upload.done_of_allocated {u : Upload} (hg : s.db.groups.find group.1 = some group.2)
    (hf : found = u.recorded s group.1)
    (h : Service.Allocated i v object group length found write url x)
    (hs : ∀ m c, Makes m v (write (newSize found length)) c →
      u.recorded (c.apply v) group.1 = some (newSize found length)) :
    u.Done s group.1 group.2 length url (x.txns.view i) := by
  subst hf
  obtain ⟨m, c, time, row, hm, hr, hv⟩ := h.written
  rw [hv]
  constructor
  · exact hg
  · exact h.nonneg
  · exact ⟨_, h.url⟩
  · exact h.quota
  · refine ⟨{ row with storageUsed := _, updatedAt := time }, ?_, rfl⟩
    exact (Table.find_update_self _ _ _).trans (congrArg (Option.map _) hr)
  · rw [← hs m c hm]
    cases u <;> rfl

theorem Upload.artifact_done (hi : x.txns.opened.find i = none) (h : Service.Runs i
    (Service.groupUploadArtifact task contentType contentLength) x (.ok (exist, url)) x') :
    ∃ group, (Upload.artifact task contentType).Done x.txns.committed task.groupId group
      (asI64 contentLength) url x'.txns.committed := by
  unfold Service.groupUploadArtifact at h
  obtain ⟨time, y, hn, h⟩ := (Fallible.runs_bind_ok _ _).1 h
  obtain ⟨-, rfl⟩ := Service.runs_now_ok hn
  obtain ⟨group, y, hs, h⟩ := (Fallible.runs_bind_ok _ _).1 h
  obtain ⟨rfl, rfl⟩ := Service.runs_select_ok hs
  obtain ⟨group, y, ho, h⟩ := (Fallible.runs_bind_ok _ _).1 h
  obtain ⟨hg, rfl⟩ := (Fallible.runs_okOr_ok _ _).1 ho
  have hview : x.txns.view i = x.txns.committed := by
    rw [Txns.view, hi]
    rfl
  rw [hview] at hg
  split at h
  next =>
    obtain ⟨he, -⟩ := (Fallible.runs_fail _).1 h
    cases he
  next =>
    obtain ⟨y, z, hw, h, hc⟩ := Service.runs_transaction_ok h
    obtain ⟨_, t, ht, h⟩ := (Fallible.runs_bind_ok _ _).1 h
    obtain ⟨c₀, hm₀, hw₀⟩ := Service.runs_update_ok hw ht
    obtain ⟨artifact, t', hs, h⟩ := (Fallible.runs_bind_ok _ _).1 h
    obtain ⟨ha, rfl⟩ := Service.runs_select_ok hs
    rw [hw₀.view] at ha
    have hall := Service.runs_allocate_ok hw₀ h
    have hv : (c₀.apply x.txns.committed).objects = x.txns.committed.objects := by
      cases hm₀ <;> rfl
    change artifact = Select.eval (c₀.apply x.txns.committed) _ at ha
    change Service.Allocated i (c₀.apply x.txns.committed) _ _ _ _ _ _ _ at hall
    generalize c₀.apply x.txns.committed = v at ha hall hv
    have hart : v.db.artifacts = x.txns.committed.db.artifacts := congrArg (fun o => o.1) hv
    refine ⟨group, ?_⟩
    have hcommit : x'.txns.committed = z.txns.view i := by
      rw [hc]
      rfl
    rw [hcommit]
    have hgroup : x.txns.committed.db.groups.find (task.groupId, group).1 =
      some (task.groupId, group).2 := hg
    cases artifact with
    | none =>
      have hnone : (Upload.artifact task contentType).recorded x.txns.committed task.groupId = none := by
        obtain ⟨m, c, time, row, hm, -⟩ := hall.written
        cases hm with
        | addArtifact hf =>
          rw [hart] at hf
          exact congrArg (Option.map _) hf
      apply Upload.done_of_allocated hgroup hnone.symm hall
      intro m c hm
      cases hm with
      | addArtifact hf => exact congrArg (Option.map _) (Table.find_set_self _ _ _)
    | some seen =>
      obtain ⟨hid, hsize⟩ := artifact_of_select ha.symm
      apply Upload.done_of_allocated hgroup _ hall
      · intro m c hm
        cases hm with
        | setArtifact hf =>
          obtain rfl := Option.some.inj (hid.symm.trans hf)
          obtain ⟨a, hfa, -⟩ := Option.map_eq_some_iff.1 hsize
          refine (congrArg (Option.map _) (Table.find_update_self _ _ _)).trans ?_
          rw [hfa]
          rfl
      · rw [hart] at hsize
        exact hsize.symm

theorem Upload.attachment_done (h : Service.Runs i
    (Service.userUploadAttachment userId groupName key contentLength) x (.ok (exist, url)) x') :
    ∃ group, (Select.groupByName groupName).eval x.txns.committed = some group ∧
      (Upload.attachment userId groupName key).Done x.txns.committed group.1 group.2
        (asI64 contentLength) url x'.txns.committed := by
  unfold Service.userUploadAttachment at h
  split at h
  next =>
    obtain ⟨he, -⟩ := (Fallible.runs_fail _).1 h
    cases he
  next =>
    obtain ⟨time, y, hn, h⟩ := (Fallible.runs_bind_ok _ _).1 h
    obtain ⟨-, rfl⟩ := Service.runs_now_ok hn
    obtain ⟨y, z, hw, h, hc⟩ := Service.runs_transaction_ok h
    have hview : y.txns.view i = x.txns.committed := hw.view
    obtain ⟨group, t, hs, h⟩ := (Fallible.runs_bind_ok _ _).1 h
    obtain ⟨rfl, rfl⟩ := Service.runs_select_ok hs
    obtain ⟨group, t, ho, h⟩ := (Fallible.runs_bind_ok _ _).1 h
    obtain ⟨hg, rfl⟩ := (Fallible.runs_okOr_ok _ _).1 ho
    rw [hview] at hg
    split at h
    next =>
      obtain ⟨he, -⟩ := (Fallible.runs_fail _).1 h
      cases he
    next =>
      obtain ⟨role, t, hs, h⟩ := (Fallible.runs_bind_ok _ _).1 h
      obtain ⟨-, rfl⟩ := Service.runs_select_ok hs
      obtain ⟨role, t, ho, h⟩ := (Fallible.runs_bind_ok _ _).1 h
      obtain ⟨-, rfl⟩ := (Fallible.runs_okOr_ok _ _).1 ho
      split at h
      next =>
        obtain ⟨he, -⟩ := (Fallible.runs_fail _).1 h
        cases he
      next =>
        obtain ⟨attachment, t, hs, h⟩ := (Fallible.runs_bind_ok _ _).1 h
        obtain ⟨ha, rfl⟩ := Service.runs_select_ok hs
        rw [hview] at ha
        have hall := Service.runs_allocate_ok hw h
        change Service.Allocated i x.txns.committed _ _ _ _ _ _ _ at hall
        have hcommit : x'.txns.committed = z.txns.view i := by
          rw [hc]
          rfl
        have hname : x.txns.committed.db.groups.findWhere (fun _ g => g.groupName = groupName) =
          some (group.1, group.2) := hg
        have hgroup : x.txns.committed.db.groups.find group.1 = some group.2 :=
          (Table.findWhere_some hname).1
        refine ⟨group, hg, ?_⟩
        rw [hcommit]
        cases attachment with
        | none =>
          have hnone : (Upload.attachment userId groupName key).recorded x.txns.committed
              group.1 = none := by
            obtain ⟨m, c, time, row, hm, -⟩ := hall.written
            cases hm with
            | addAttachment hf => exact congrArg (Option.map _) hf
          apply Upload.done_of_allocated hgroup hnone.symm hall
          intro m c hm
          cases hm with
          | addAttachment hf => exact congrArg (Option.map _) (Table.find_set_self _ _ _)
        | some seen =>
          obtain ⟨hid, hsize⟩ := attachment_of_select ha.symm
          apply Upload.done_of_allocated hgroup hsize.symm hall
          intro m c hm
          cases hm with
          | setAttachment hf =>
            obtain rfl := Option.some.inj (hid.symm.trans hf)
            obtain ⟨a, hfa, -⟩ := Option.map_eq_some_iff.1 hsize
            refine (congrArg (Option.map _) (Table.find_update_self _ _ _)).trans ?_
            rw [hfa]
            rfl

/-- An upload that succeeds alone does what it should in exact integers where the new
`storage_used` is in the range of its type. -/
theorem upload_exact_iff (u : Upload) (contentLength : Nat) (hl : contentLength < 2 ^ 64)
    (i : Nat) (x x' : Infra) (hi : x.txns.opened.find i = none)
    (hg : u.groupId x.txns.committed = some g)
    (hr : x.txns.committed.db.groups.find g = some group) (hu : 0 ≤ group.storageUsed)
    (h : Service.Runs i (u.service contentLength) x (.ok (exist, url)) x') :
    ∃ group' size, x'.txns.committed.db.groups.find g = some group' ∧
      u.recorded x'.txns.committed g = some size ∧
      (Exact group (u.recorded x.txns.committed g) contentLength group'.storageUsed size url ↔
        group.storageUsed + growth (u.recorded x.txns.committed g) contentLength < 2 ^ 63) := by
  have hd : u.Done x.txns.committed g group (asI64 contentLength) url x'.txns.committed := by
    cases u with
    | artifact task contentType =>
      obtain ⟨group', hd⟩ := Upload.artifact_done hi h
      obtain rfl := Option.some.inj hg
      obtain rfl := Option.some.inj (hr.symm.trans hd.found)
      exact hd
    | attachment userId groupName key =>
      obtain ⟨group', hf, hd⟩ := Upload.attachment_done h
      have hg' : group'.1 = g := by
        rw [Upload.groupId, hf] at hg
        exact Option.some.inj hg
      subst hg'
      obtain rfl := Option.some.inj (hr.symm.trans hd.found)
      exact hd
  obtain ⟨group', hg', hused⟩ := hd.used
  obtain ⟨object, rfl⟩ := hd.url
  have hlen : asI64 contentLength = contentLength := asI64_of_nonneg hl hd.nonneg
  have hsize := hd.size
  have hquota := hd.quota
  rw [hlen] at hused hsize hquota
  refine ⟨group', _, hg', hsize, ?_⟩
  rw [hused, hlen]
  exact exact_iff hu hquota

namespace Demo

def result : Upload := .artifact (.active 1 ⟨1, 1, 1, 7, [], [], 0, 0, .ready, none, 10, 0,
  ⟨[], [], [], false, none⟩, none, none, none⟩) .result

def charged : Infra := ⟨⟨{ store with
  db.groups := Table.empty.set 1 ⟨"u", 0, .active, 1, 1000, 1⟩ }, .empty⟩, 1, 0⟩

def ran (contentLength : Nat) : Option (Except Error (Bool × UploadLink) × Infra) :=
  Prog.run (fun c x => c.exec 0 none x) (result.service contentLength) charged

/-- The upload succeeds, and these are the new `storage_used` and the recorded size. -/
def leaves (contentLength : Nat) (used size : Int) : Bool := (ran contentLength).any fun r =>
  r.1.toBool && (r.2.txns.committed.db.groups.find 1).any (fun g => g.storageUsed = used) &&
    result.recorded r.2.txns.committed 1 = some size

theorem runs_of_leaves (h : leaves contentLength used size = true) : ∃ exist url x' group',
    Service.Runs 0 (result.service contentLength) charged (.ok (exist, url)) x' ∧
    x'.txns.committed.db.groups.find 1 = some group' ∧ group'.storageUsed = used ∧
    result.recorded x'.txns.committed 1 = some size := by
  obtain ⟨⟨r, x'⟩, hr, hs⟩ := (Option.any_eq_true _ _).1 h
  simp only [Bool.and_eq_true, Option.any_eq_true, decide_eq_true_eq] at hs
  obtain ⟨⟨hok, group', hg, hu⟩, hsize⟩ := hs
  cases r with
  | error e => cases hok
  | ok a =>
    refine ⟨a.1, a.2, x', group', ?_, hg, hu, hsize⟩
    exact Prog.runs_of_run (fun c s r t hx => ⟨none, hx⟩) hr

end Demo

open Demo in
/-- An upload of 100 bytes. -/
theorem small_upload_exact : ∃ exist url x' group' size,
    Service.Runs 0 (result.service 100) charged (.ok (exist, url)) x' ∧
    x'.txns.committed.db.groups.find 1 = some group' ∧
    result.recorded x'.txns.committed 1 = some size ∧
    Exact ⟨"u", 0, .active, 1, 1000, 1⟩ none 100 group'.storageUsed size url := by
  have hran : leaves 100 101 100 = true := by decide
  obtain ⟨exist, url, x', -, h, -⟩ := runs_of_leaves hran
  obtain ⟨group', size, hg, hs, hx⟩ := upload_exact_iff (g := 1) result 100 (by decide) 0 charged x'
    rfl rfl rfl (by decide) h
  exact ⟨exist, url, x', group', size, h, hg, hs, hx.2 (by decide)⟩

open Demo in
/-- The sum with the largest `i64` wraps around, and passes the check of the quota. -/
theorem large_upload_wraps : ∃ exist url x' group' size,
    Service.Runs 0 (result.service (2 ^ 63 - 1)) charged (.ok (exist, url)) x' ∧
    x'.txns.committed.db.groups.find 1 = some group' ∧
    result.recorded x'.txns.committed 1 = some size ∧
    ¬Exact ⟨"u", 0, .active, 1, 1000, 1⟩ none (2 ^ 63 - 1) group'.storageUsed size url := by
  have hran : leaves (2 ^ 63 - 1) (-2 ^ 63) (2 ^ 63 - 1) = true := by decide
  obtain ⟨exist, url, x', group', h, hg, hu, hs⟩ := runs_of_leaves hran
  refine ⟨exist, url, x', group', _, h, hg, hs, ?_⟩
  intro hx
  have hstored := hx.stored
  rw [hu] at hstored
  revert hstored
  decide

end Storage
end Mitosis
