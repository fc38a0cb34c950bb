import Mitosis.Lib.Chunks
import Mitosis.Proof.Faultless

namespace Mitosis
set_option autoImplicit true

namespace Storage
open Chunks (Apart)

namespace Store

def artifactsOf (s : Store) (contentType : ArtifactContentType) : List ArtifactRow :=
  (s.artifactIds.rows.filterMap fun e => s.artifactRow e.1 e.2).filter fun row =>
    row.contentType = contentType

def attachmentsOf (s : Store) (groupId : GroupId) : List AttachmentRow :=
  (s.attachmentIds.rows.filterMap fun e => s.attachmentRow e.1 e.2).filter fun row =>
    row.groupId = groupId

end Store

/-- What a batch download lists for an artifact: its own size and object. -/
def ArtifactRow.item (row : ArtifactRow) : ArtifactDownloadItem :=
  ⟨row.taskId, Cmd.downloadLink (.artifact row.taskId row.contentType) row.size 86400, row.size⟩

def AttachmentRow.item (groupName : String) (row : AttachmentRow) : AttachmentDownloadItem :=
  ⟨row.key, Cmd.downloadLink (.attachment groupName row.key) row.size 86400, row.size⟩

/-- The list has one item for each of the rows, and where no two of them have one key, no two
items have one object. -/
structure OneEach (rows : List ρ) (key : ρ → κ) (item : ρ → ι) (object : ι → Object)
    (items : List ι) : Prop where
  once : items.Perm (rows.map item)
  distinct : (rows.map key).Nodup → (items.map object).Nodup

theorem filterMap_key_if {g : α → Option β} {p : α → Prop} {q q' : β → Prop} [DecidablePred p]
    [DecidablePred q] [DecidablePred q'] (h : ∀ a b, g a = some b → (p a ↔ q b ∧ q' b))
    (l : List α) : (l.filterMap fun a => if p a then g a else none) =
      ((l.filterMap g).filter fun b => q b).filter fun b => q' b := by
  induction l with
  | nil => rfl
  | cons a l ih =>
    rw [List.filterMap_cons, List.filterMap_cons, ih]
    cases hg : g a with
    | none =>
      rw [ite_self]
    | some b =>
      by_cases hp : p a
      · obtain ⟨hq, hq'⟩ := (h a b hg).1 hp
        rw [if_pos hp]
        simp only [List.filter_cons, hq, hq', decide_true, if_true]
      · rw [if_neg hp]
        simp only [List.filter_cons]
        by_cases hq : q b
        · have hq' : ¬q' b := fun hq' => hp ((h a b hg).2 ⟨hq, hq'⟩)
          simp only [hq, hq', decide_true, decide_false, if_true, List.filter_cons,
            Bool.false_eq_true, if_false]
        · simp only [hq, decide_false, Bool.false_eq_true, if_false]

theorem OneEach.of_perm {rows : List ρ} {key : ρ → κ} {item : ρ → ι} {object : ι → Object}
    {items : List ι} (h : items.Perm (rows.map item)) (o : κ → Object)
    (ho : ∀ row ∈ rows, object (item row) = o (key row)) (hinj : Function.Injective o) :
    OneEach rows key item object items := by
  refine ⟨h, ?_⟩
  intro hd
  have he : (rows.map item).map object = (rows.map key).map o := by
    rw [List.map_map, List.map_map]
    exact List.map_congr_left ho
  rw [(h.map object).nodup_iff, he]
  exact hd.map hinj

namespace Service
open Fallible (run_bind_ok)

variable {x : Infra}

theorem artifacts_eval (s : Store) (uuids : List Uuid) (contentType : ArtifactContentType) :
    (Select.artifacts uuids contentType).eval s =
      Chunks.named (s.artifactsOf contentType) ArtifactRow.taskId uuids := by
  have hrow : ∀ (e : Nat × Uuid × ArtifactContentType) (row : ArtifactRow),
      s.artifactRow e.1 e.2 = some row →
        (e.2.1 ∈ uuids ∧ e.2.2 = contentType ↔
          row.contentType = contentType ∧ row.taskId ∈ uuids) := by
    intro e row he
    obtain ⟨a, -, rfl⟩ := Option.map_eq_some_iff.1 he
    exact and_comm
  exact filterMap_key_if hrow s.artifactIds.rows

theorem attachments_eval (s : Store) (groupId : GroupId) (keys : List String) :
    (Select.attachments groupId keys).eval s =
      Chunks.named (s.attachmentsOf groupId) AttachmentRow.key keys := by
  have hrow : ∀ (e : Nat × GroupId × String) (row : AttachmentRow),
      s.attachmentRow e.1 e.2 = some row →
        (e.2.1 = groupId ∧ e.2.2 ∈ keys ↔ row.groupId = groupId ∧ row.key ∈ keys) := by
    intro e row he
    obtain ⟨a, -, rfl⟩ := Option.map_eq_some_iff.1 he
    exact Iff.rfl
  exact filterMap_key_if hrow s.attachmentIds.rows

theorem alone_artifactsOfChunks (i : Nat) (x : Infra) (contentType : ArtifactContentType)
    (chunks : List (List Uuid)) : alone i (artifactsOfChunks contentType chunks) x =
      some (.ok (Chunks.query ((x.txns.view i).artifactsOf contentType) ArtifactRow.taskId chunks),
        x) := by
  induction chunks with
  | nil => rfl
  | cons chunk chunks ih =>
    unfold artifactsOfChunks
    rw [alone_bind_ok (alone_select _ x), artifacts_eval, alone_bind_ok ih]
    rfl

theorem alone_attachmentsOfChunks (i : Nat) (x : Infra) (groupId : GroupId)
    (chunks : List (List String)) : alone i (attachmentsOfChunks groupId chunks) x =
      some (.ok (Chunks.query ((x.txns.view i).attachmentsOf groupId) AttachmentRow.key chunks),
        x) := by
  induction chunks with
  | nil => rfl
  | cons chunk chunks ih =>
    unfold attachmentsOfChunks
    rw [alone_bind_ok (alone_select _ x), attachments_eval, alone_bind_ok ih]
    rfl

theorem alone_presignDownloads (i : Nat) (x : Infra) {rows : List ArtifactRow}
    (h : ∀ row ∈ rows, row.contentType = contentType) :
    alone i (presignDownloads contentType rows) x = some (.ok (rows.map ArtifactRow.item), x) := by
  induction rows with
  | nil => rfl
  | cons row rows ih =>
    have hrest := ih fun row hm => h row (.tail _ hm)
    have hrow := h row (.head _)
    unfold presignDownloads
    rw [alone_bind_ok (Fallible.run_issue _ _), alone_bind_ok hrest, ← hrow]
    rfl

theorem alone_presignAttachments (i : Nat) (x : Infra) (groupName : String)
    (rows : List AttachmentRow) : alone i (presignAttachments groupName rows) x =
      some (.ok (rows.map (AttachmentRow.item groupName)), x) := by
  induction rows with
  | nil => rfl
  | cons row rows ih =>
    unfold presignAttachments
    rw [alone_bind_ok (Fallible.run_issue _ _), alone_bind_ok ih]
    rfl

end Service

theorem Store.artifactsOf_nodup (s : Store) (contentType : ArtifactContentType) :
    (s.artifactsOf contentType).Nodup := by
  have hrows : s.artifactIds.rows.Nodup := List.Nodup.of_map Prod.fst s.artifactIds.keysNodup
  apply List.Nodup.filter
  apply hrows.filterMap
  intro e e' row he he'
  obtain ⟨a, -, rfl⟩ := Option.map_eq_some_iff.1 he
  obtain ⟨a', -, hr⟩ := Option.map_eq_some_iff.1 he'
  obtain ⟨hid, htask, htype, -⟩ := ArtifactRow.mk.inj hr
  exact Prod.ext hid.symm (Prod.ext htask.symm htype.symm)

theorem Store.attachmentsOf_nodup (s : Store) (groupId : GroupId) :
    (s.attachmentsOf groupId).Nodup := by
  have hrows : s.attachmentIds.rows.Nodup := List.Nodup.of_map Prod.fst s.attachmentIds.keysNodup
  apply List.Nodup.filter
  apply hrows.filterMap
  intro e e' row he he'
  obtain ⟨a, -, rfl⟩ := Option.map_eq_some_iff.1 he
  obtain ⟨a', -, hr⟩ := Option.map_eq_some_iff.1 he'
  obtain ⟨hid, hgroup, hkey, -⟩ := AttachmentRow.mk.inj hr
  exact Prod.ext hid.symm (Prod.ext hgroup.symm hkey.symm)

namespace Service

theorem alone_generateArtifactDownloads (i : Nat) (x : Infra) (uuids : List Uuid)
    (contentType : ArtifactContentType) :
    alone i (generateArtifactDownloads uuids contentType) x =
      some (.ok ((Chunks.query ((x.txns.view i).artifactsOf contentType) ArtifactRow.taskId
        (uuids.toChunks 2048)).map ArtifactRow.item), x) := by
  unfold generateArtifactDownloads
  rw [alone_bind_ok (alone_artifactsOfChunks i x contentType _)]
  apply alone_presignDownloads
  intro row hm
  have hrow := (Chunks.mem_named.1 (Chunks.mem_query.1 hm)).1
  exact of_decide_eq_true (List.mem_filter.1 hrow).2

theorem alone_generateAttachmentDownloads (i : Nat) {x : Infra} {group : GroupId × Group}
    (hg : (Select.groupByName groupName).eval (x.txns.view i) = some group) (keys : List String) :
    alone i (generateAttachmentDownloads groupName keys) x =
      some (.ok ((Chunks.query ((x.txns.view i).attachmentsOf group.1) AttachmentRow.key
        (keys.toChunks 2048)).map (AttachmentRow.item groupName)), x) := by
  unfold generateAttachmentDownloads
  rw [alone_bind_ok (alone_select _ x), hg, alone_bind_ok (Fallible.run_okOr_some _ _ _),
    alone_bind_ok (alone_attachmentsOfChunks i x _ _)]
  exact alone_presignAttachments i x groupName _

end Service

open Storage.Service (alone)

def ArtifactsOnce (i : Nat) (x : Infra) (uuids : List Uuid) (contentType : ArtifactContentType) :
    Prop := ∃ items,
  alone i (Service.generateArtifactDownloads uuids contentType) x = some (.ok items, x) ∧
  OneEach (((x.txns.view i).artifactsOf contentType).filter fun row => row.taskId ∈ uuids)
    ArtifactRow.taskId ArtifactRow.item (fun item => item.url.object) items

def AttachmentsOnce (i : Nat) (x : Infra) (groupName : String) (groupId : GroupId)
    (keys : List String) : Prop := ∃ items,
  alone i (Service.generateAttachmentDownloads groupName keys) x = some (.ok items, x) ∧
  OneEach (((x.txns.view i).attachmentsOf groupId).filter fun row => row.key ∈ keys)
    AttachmentRow.key (AttachmentRow.item groupName) (fun item => item.url.object) items

theorem artifactsOnce_iff (i : Nat) (x : Infra) (uuids : List Uuid)
    (contentType : ArtifactContentType) : ArtifactsOnce i x uuids contentType ↔
      Apart ((x.txns.view i).artifactsOf contentType) ArtifactRow.taskId
        (uuids.toChunks 2048) := by
  have hrun := Service.alone_generateArtifactDownloads i x uuids contentType
  have hnodup := (x.txns.view i).artifactsOf_nodup contentType
  have hperm := Chunks.map_query_perm_iff hnodup ArtifactRow.taskId ArtifactRow.item
    (uuids.toChunks 2048)
  rw [Chunks.flatten_toChunks] at hperm
  rw [← hperm]
  constructor
  · rintro ⟨items, hr, hone⟩
    rw [hrun] at hr
    obtain rfl := Except.ok.inj (congrArg Prod.fst (Option.some.inj hr))
    exact hone.once
  · intro hp
    refine ⟨_, hrun, .of_perm hp (fun uuid => .artifact uuid contentType) ?_ ?_⟩
    · intro row hm
      have htype := of_decide_eq_true (List.mem_filter.1 (List.mem_filter.1 hm).1).2
      rw [← htype]
      rfl
    · intro uuid uuid' he
      exact (Object.artifact.inj he).1

theorem attachmentsOnce_iff (i : Nat) {x : Infra} {group : GroupId × Group}
    (hg : (Select.groupByName groupName).eval (x.txns.view i) = some group) (keys : List String) :
    AttachmentsOnce i x groupName group.1 keys ↔
      Apart ((x.txns.view i).attachmentsOf group.1) AttachmentRow.key (keys.toChunks 2048) := by
  have hrun := Service.alone_generateAttachmentDownloads i hg keys
  have hnodup := (x.txns.view i).attachmentsOf_nodup group.1
  have hperm := Chunks.map_query_perm_iff hnodup AttachmentRow.key
    (AttachmentRow.item groupName) (keys.toChunks 2048)
  rw [Chunks.flatten_toChunks] at hperm
  rw [← hperm]
  constructor
  · rintro ⟨items, hr, hone⟩
    rw [hrun] at hr
    obtain rfl := Except.ok.inj (congrArg Prod.fst (Option.some.inj hr))
    exact hone.once
  · intro hp
    refine ⟨_, hrun, .of_perm hp (fun key => .attachment groupName key) (fun _ _ => rfl) ?_⟩
    intro key key' he
    exact (Object.attachment.inj he).2

/-- Batch downloads list each object once if and only if none of them is named in two chunks of
2048. For a group that does not exist there is no list. -/
theorem downloads_once_iff (i : Nat) (x : Infra) :
    (∀ uuids contentType, ArtifactsOnce i x uuids contentType ↔
      Apart ((x.txns.view i).artifactsOf contentType) ArtifactRow.taskId
        (uuids.toChunks 2048)) ∧
    (∀ groupName (group : GroupId × Group) keys,
      (Select.groupByName groupName).eval (x.txns.view i) = some group →
      (AttachmentsOnce i x groupName group.1 keys ↔
        Apart ((x.txns.view i).attachmentsOf group.1) AttachmentRow.key (keys.toChunks 2048))) ∧
    ∀ groupName keys, (Select.groupByName groupName).eval (x.txns.view i) = none →
      alone i (Service.generateAttachmentDownloads groupName keys) x =
        some (.error (notFound s!"Group {groupName} not found"), x) := by
  refine ⟨artifactsOnce_iff i x, fun _ _ keys hg => attachmentsOnce_iff i hg keys, ?_⟩
  intro groupName keys hg
  unfold Service.generateAttachmentDownloads
  rw [Service.alone_bind_ok (Service.alone_select _ x), hg]
  rfl

namespace SetDemo

/-- The group `u` with an attachment `a`. -/
def store : Store :=
  { Demo.store with
    attachments := Table.empty.set (1, "a") ⟨.noSet, 5, 0, 0⟩
    attachmentIds := Table.empty.set 1 (1, "a") }

def infra : Infra := ⟨⟨store, .empty⟩, 3, 0⟩

def keys : List String := List.replicate 2049 "a"

def group : Group := ⟨"u", 0, .active, 1, 1000, 0⟩

end SetDemo

open SetDemo in
/-- A key that is named twice in one chunk. -/
theorem named_twice : (Select.groupByName "u").eval (infra.txns.view 0) = some (1, group) ∧
    AttachmentsOnce 0 infra "u" 1 ["a", "a"] := by
  have hg : (Select.groupByName "u").eval (infra.txns.view 0) = some (1, group) := by decide
  refine ⟨hg, ((downloads_once_iff 0 infra).2.1 "u" (1, group) ["a", "a"] hg).2 ?_⟩
  exact List.pairwise_singleton _ _

open SetDemo in
/-- A key that is named in two chunks is listed twice. -/
theorem chunks_repeat : ¬ ∀ (i : Nat) (x : Infra) groupName (group : GroupId × Group) keys,
    (Select.groupByName groupName).eval (x.txns.view i) = some group →
    AttachmentsOnce i x groupName group.1 keys := by
  intro h
  obtain ⟨items, hr, hone⟩ := h 0 infra "u" (1, group) keys (by decide)
  have htwo : (alone 0 (Service.generateAttachmentDownloads "u" keys) infra).map
      (fun r => r.1.map List.length) = some (.ok 2) := by decide +kernel
  rw [hr] at htwo
  have hlen : items.length = 2 := Except.ok.inj (Option.some.inj htwo)
  have hrows : (((infra.txns.view 0).attachmentsOf 1).filter fun row =>
      row.key ∈ keys).length = 1 := by decide +kernel
  have hperm := hone.once.length_eq
  rw [List.length_map, hlen, hrows] at hperm
  exact absurd hperm (by decide)

end Storage
end Mitosis
