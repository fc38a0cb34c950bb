import Mitosis.AttachmentKeys
import Mitosis.Proof.Groups
import Mitosis.Proof.Keyed
import Mitosis.Proof.Writes

namespace Mitosis
set_option autoImplicit true

namespace Storage
open Sessions
open Registry (NameAccepted accepts)

inductive TenantCall where
  | storage (k : Call)
  | userGetAttachment (userId : UserId) (groupName key : String)
  | workerDownloadAttachment (uuid : Uuid) (key : String)
  | batchDownloadAttachmentsByFilter (userId : UserId) (groupName : String) (key : Option String)
      (limit offset : Option Nat)
  | batchDownloadAttachmentsByKeys (userId : UserId) (groupName : String) (keys : List String)

inductive TenantReply where
  | storage (r : Reply)
  | download (r : DownloadResp)
  | downloads (items : List AttachmentDownloadItem)

open Fallible (once) in
def TenantCall.program : TenantCall → Prog Cmd Cmd.Resp (Flow (Except Error TenantReply))
  | .storage k => (Storage.program k).bind fun
    | .again => .ret .again
    | .done r => .ret (.done (r.map .storage))
  | .userGetAttachment userId groupName key =>
    once .download (Service.userGetAttachment userId groupName key)
  | .workerDownloadAttachment uuid key =>
    once .download (Service.workerDownloadAttachment uuid key)
  | .batchDownloadAttachmentsByFilter userId groupName key limit offset =>
    once .downloads (Service.batchDownloadAttachmentsByFilter userId groupName key limit offset)
  | .batchDownloadAttachmentsByKeys userId groupName keys =>
    once .downloads (Service.batchDownloadAttachmentsByKeys userId groupName keys)

/-- The two models of the database: one has its objects, the other its users and groups. -/
structure Hosted where
  infra : Infra
  registry : Registry.State

def defaultStorageQuota : Int := 1000 * 1000 * 1000 * 16

/-- A new row of `groups`, with the defaults of the schema. -/
def newGroup (model : Registry.GroupModel) : Group :=
  ⟨model.groupName, model.updatedAt, .active, 0, defaultStorageQuota, 0⟩

def adopt (groups : Table GroupId Group) (models : Table GroupId Registry.GroupModel) :
    Table GroupId Group := (models.mapRows newGroup).merge groups

def Hosted.setGroups (h : Hosted) (groups : Table GroupId Group) : Hosted :=
  let old := h.infra.txns.committed
  { h with infra := { h.infra with
    txns := { h.infra.txns with committed := { old with db := { old.db with groups } } } } }

/-- What the rest of the coordinator does. Nothing renames a group. -/
inductive HostedEnv where
  | storage (e : Env)
  | registry (a : Act Registry.Call (Option DbErr) Unit)
  | changeGroup (id : GroupId) (group : Group)

instance (admin : String) : DecidablePred (accepts admin)
  | .call (.createUser username _ _) =>
    inferInstanceAs (Decidable (Registry.Service.nameValidator username = true ∨ username = admin))
  | .call (.userCreateGroup _ _) | .call (.changeUserGroupQuota _ _) | .step _ _ | .env _ =>
    .isTrue trivial

section
variable (hashPassword : Auth.Md5Password → Nat → Except Mitosis.Error String) (admin : String)

def HostedEnv.run (h : Hosted) : HostedEnv → Option Hosted
  | .storage e => (e.run h.infra).map fun infra => { h with infra }
  | .registry a =>
    if accepts admin a then
      (step (Registry.system hashPassword) h.registry a).map fun registry =>
        { h.setGroups (adopt h.infra.txns.committed.db.groups
          registry.shared.txns.committed.groups) with registry }
    else none
  | .changeGroup id group =>
    match h.infra.txns.committed.db.groups.find id with
    | none => none
    | some old =>
      if old.groupName = group.groupName then
        some (h.setGroups (h.infra.txns.committed.db.groups.set id group))
      else none

/-- Sessions on the store, with the configured name of the first administrator. -/
def hosted : System Hosted Cmd Cmd.Resp TenantCall (Except Error TenantReply) (Option DbErr)
    HostedEnv where
  program := TenantCall.program
  exec i fault h c := (Cmd.exec i fault h.infra c).map fun r => (r.1, { h with infra := r.2 })
  env e h := e.run hashPassword admin h

end

abbrev HostedState := Sessions Hosted Cmd Cmd.Resp TenantCall (Except Error TenantReply)

def emptyStore : Store where
  db := {
    users := .empty
    groups := .empty
    userGroup := .empty
    workers := .empty
    groupWorker := .empty
    activeTasks := .empty
    archivedTasks := .empty
    artifacts := .empty
    workerSeq := 1
    taskSeq := 1 }
  artifactIds := .empty
  attachments := .empty
  attachmentIds := .empty

def hostedInitial (clock : Instant) : HostedState :=
  ⟨⟨⟨⟨emptyStore, .empty⟩, 1, clock⟩, Registry.initial clock⟩, [], []⟩

def objectKey (groupName key : String) : String := s!"{groupName}/{key}"

/-- The attachment whose object a command makes a link to, or deletes. -/
def Cmd.attachment : Cmd → Option (String × String)
  | .presignUpload (.attachment name key) _ | .presignDownload (.attachment name key) _ _
  | .deleteObject (.attachment name key) => some (name, key)
  | _ => none

def Store.nameOf (s : Store) (groupId : GroupId) : Option String :=
  (s.db.groups.find groupId).map Group.groupName

/-- The object of the key is the one of a recorded attachment, or a session has asked the object
store for it. -/
inductive Uses (s : HostedState) (name key : String) : Prop
  | recorded : s.shared.infra.txns.committed.nameOf groupId = some name →
    s.shared.infra.txns.committed.attachments.find (groupId, key) = some row → Uses s name key
  | touched : e ∈ s.log → e.entry.1.attachment = some (name, key) → Uses s name key

structure Isolated (s : HostedState) : Prop where
  rows : ∀ groupId key row groupId' key' row' name name',
    s.shared.infra.txns.committed.attachments.find (groupId, key) = some row →
    s.shared.infra.txns.committed.attachments.find (groupId', key') = some row' →
    s.shared.infra.txns.committed.nameOf groupId = some name →
    s.shared.infra.txns.committed.nameOf groupId' = some name' →
    objectKey name key = objectKey name' key' → groupId = groupId' ∧ key = key'
  objects : ∀ name key name' key', Uses s name key → Uses s name' key' →
    objectKey name key = objectKey name' key' → name = name' ∧ key = key'

def Shadows (admin : String) : Prop := ∃ name rest, admin = objectKey name rest ∧
  Registry.Service.nameValidator name = true ∧ Service.checkAttachmentKey s!"{admin}/" = false

theorem objectKey_cases (h : objectKey g k = objectKey g' k') : (g = g' ∧ k = k') ∨
    (∃ rest, g' = objectKey g rest) ∨ ∃ rest, g = objectKey g' rest := by
  have hl : g.toList ++ '/' :: k.toList = g'.toList ++ '/' :: k'.toList := by
    have ht := congrArg String.toList h
    unfold objectKey at ht
    rwa [objectKey_toList, objectKey_toList] at ht
  have hkey : ∀ {g g' : String} {rest : List Char}, g.toList = g'.toList ++ '/' :: rest →
      g = objectKey g' (String.ofList rest) := by
    intro g g' rest hg
    apply String.toList_inj.1
    rw [hg]
    unfold objectKey
    rw [objectKey_toList, String.toList_ofList]
  rcases List.append_eq_append_iff.1 hl with ⟨as, hg, hk⟩ | ⟨as, hg, hk⟩
  · cases as with
    | nil =>
      rw [List.append_nil] at hg
      exact .inl ⟨String.toList_inj.1 hg.symm, String.toList_inj.1 (List.cons.inj hk).2⟩
    | cons a rest =>
      obtain ⟨rfl, -⟩ := List.cons.inj hk
      exact .inr (.inl ⟨_, hkey hg⟩)
  · cases as with
    | nil =>
      rw [List.append_nil] at hg
      exact .inl ⟨String.toList_inj.1 hg, String.toList_inj.1 (List.cons.inj hk).2.symm⟩
    | cons a rest =>
      obtain ⟨rfl, -⟩ := List.cons.inj hk
      exact .inr (.inr ⟨_, hkey hg⟩)

theorem allowed_group (h : allowed g k) : Service.checkAttachmentKey s!"{g}/" = false := by
  have hl : (s!"{g}/{k}").toList = (s!"{g}/").toList ++ k.toList := by
    have hg : (s!"{g}/").toList = g.toList ++ ['/'] := String.toList_append
    rw [objectKey_toList, hg, List.append_assoc]
    rfl
  have hsize : (s!"{g}/").utf8ByteSize ≤ (s!"{g}/{k}").utf8ByteSize := by
    calc
      (s!"{g}/").utf8ByteSize ≤ (s!"{g}/").utf8ByteSize + k.utf8ByteSize := Nat.le_add_right _ _
      _ = (s!"{g}/" ++ k).utf8ByteSize := String.utf8ByteSize_append.symm
  unfold allowed Service.checkAttachmentKey at h
  unfold Service.checkAttachmentKey
  rw [Bool.or_eq_false_iff, decide_eq_false_iff_not, List.any_eq_false] at h ⊢
  obtain ⟨hb, hp⟩ := h
  refine ⟨fun hn => hb (Nat.le_trans hn hsize), ?_⟩
  intro p hm hi
  apply hp p hm
  rw [hl]
  rw [decide_eq_true_eq] at hi ⊢
  exact hi.trans (List.prefix_append _ _).isInfix

section
variable {admin : String}

theorem shadows_of_key (hg : NameAccepted admin g) (hg' : NameAccepted admin (objectKey g rest))
    (hk : allowed (objectKey g rest) k) : Shadows admin := by
  have hmem : '/' ∈ (objectKey g rest).toList := by
    unfold objectKey
    rw [objectKey_toList]
    exact List.mem_append_right _ (.head _)
  rcases hg' with hv | rfl
  · exact ((nameValidator_isName hv).2 hmem).elim
  · refine ⟨g, rest, rfl, ?_, allowed_group hk⟩
    rcases hg with hv | he
    · exact hv
    · have hlen := congrArg (fun s : String => s.toList.length) he
      unfold objectKey at hlen
      simp only [objectKey_toList, List.length_append, List.length_cons] at hlen
      omega

theorem objectKey_inj (h : ¬Shadows admin) (hg : NameAccepted admin g) (hg' : NameAccepted admin g')
    (hk : allowed g k) (hk' : allowed g' k') (he : objectKey g k = objectKey g' k') :
    g = g' ∧ k = k' := by
  rcases objectKey_cases he with heq | ⟨rest, rfl⟩ | ⟨rest, rfl⟩
  · exact heq
  · exact (h (shadows_of_key hg hg' hk')).elim
  · exact (h (shadows_of_key hg' hg hk)).elim

end

def Store.Holds (s : Store) (groupId : GroupId) (key : String) : Prop :=
  ∃ name, s.nameOf groupId = some name ∧ allowed name key

def Store.Held (s : Store) : Prop :=
  ∀ groupId key row, s.attachments.find (groupId, key) = some row → s.Holds groupId key

def Change.held (s : Store) : Change → Prop
  | .addAttachment _ key _ => s.Holds key.1 key.2
  | _ => True

theorem Store.nameOf_apply (c : Change) (s : Store) (groupId : GroupId) :
    (c.apply s).nameOf groupId = s.nameOf groupId := by
  cases c with
  | setStorageUsed id used now =>
    change ((s.db.groups.update id _).find groupId).map Group.groupName = _
    rw [Table.find_update, nameOf]
    split
    next => rw [Option.map_map]; rfl
    next => rfl
  | _ => rfl

theorem Store.nameOf_applyAll (ws : List Write) (s : Store) (groupId : GroupId) :
    (Txns.applyAll ws s).nameOf groupId = s.nameOf groupId := by
  induction ws generalizing s with
  | nil => rfl
  | cons w ws ih => exact (ih _).trans (nameOf_apply w.change s groupId)

def Store.Keeps (s s' : Store) : Prop :=
  ∀ groupId name, s.nameOf groupId = some name → s'.nameOf groupId = some name

theorem Store.Holds.keeps {s s' : Store} (h : s.Holds groupId key) (hk : s.Keeps s') :
    s'.Holds groupId key := by
  obtain ⟨name, hn, ha⟩ := h
  exact ⟨name, hk groupId name hn, ha⟩

theorem Change.held.keeps {c : Change} {s s' : Store} (h : c.held s) (hk : s.Keeps s') :
    c.held s' := by
  cases c with
  | addAttachment => exact Store.Holds.keeps h hk
  | _ => trivial

theorem Store.keeps_apply (c : Change) (s : Store) : s.Keeps (c.apply s) := by
  intro groupId name hn
  rw [nameOf_apply]
  exact hn

theorem Store.Held.apply {c : Change} {s : Store} (h : s.Held) (hc : c.held s) :
    (c.apply s).Held := by
  have hkeep : ∀ groupId key row, s.attachments.find (groupId, key) = some row →
      (c.apply s).Holds groupId key := by
    intro groupId key row hf
    exact (h groupId key row hf).keeps (keeps_apply c s)
  intro groupId key row hf
  cases c with
  | setAttachment key' size now =>
    change (s.attachments.update key' _).find (groupId, key) = some row at hf
    rw [Table.find_update] at hf
    split at hf
    next =>
      obtain ⟨old, ho, -⟩ := Option.map_eq_some_iff.1 hf
      exact hkeep groupId key old ho
    next => exact hkeep groupId key row hf
  | addAttachment m key' a =>
    change (s.attachments.set key' a).find (groupId, key) = some row at hf
    rw [Table.find_set] at hf
    split at hf
    next heq =>
      have hh : s.Holds key'.1 key'.2 := hc
      rw [← heq] at hh
      exact hh.keeps (keeps_apply _ s)
    next => exact hkeep groupId key row hf
  | dropAttachment m key' =>
    change (s.attachments.erase key').find (groupId, key) = some row at hf
    rw [Table.find_erase] at hf
    split at hf
    next => cases hf
    next => exact hkeep groupId key row hf
  | _ => exact hkeep groupId key row hf

theorem Store.Held.applyAll {ws : List Write} {s : Store} (h : s.Held)
    (hws : ∀ w ∈ ws, w.change.held s) : (Txns.applyAll ws s).Held := by
  induction ws generalizing s with
  | nil => exact h
  | cons w ws ih =>
    apply ih (h.apply (hws w (.head _)))
    intro w' hm
    exact (hws w' (.tail _ hm)).keeps (Store.keeps_apply w.change s)

/-- The attachments of the committed store and of the open transactions have allowed keys. -/
structure Sealed (x : Txns Store Write) : Prop where
  opened : ∀ i ws w, x.opened.find i = some ws → w ∈ ws → w.change.held x.committed
  held : x.committed.Held

namespace Sealed
variable {x x' : Txns Store Write}

theorem pending (h : Sealed x) (i : Nat) :
    ∀ w ∈ (x.opened.find i).getD [], w.change.held x.committed := by
  intro w hm
  cases hi : x.opened.find i with
  | none =>
    rw [hi] at hm
    cases hm
  | some ws =>
    rw [hi] at hm
    exact h.opened i ws w hi hm

theorem view (h : Sealed x) (i : Nat) : (x.view i).Held := h.held.applyAll (h.pending i)

theorem view_keeps (x : Txns Store Write) (i : Nat) : x.committed.Keeps (x.view i) := by
  intro groupId name hn
  exact (Store.nameOf_applyAll _ _ groupId).trans hn

theorem view_name (x : Txns Store Write) (i : Nat) (groupId : GroupId) :
    (x.view i).nameOf groupId = x.committed.nameOf groupId := Store.nameOf_applyAll _ _ groupId

theorem reopen {opened : Table Nat (List Write)} (h : Sealed x) (hk : x.committed.Keeps db)
    (hdb : db.Held)
    (hws : ∀ j ws w, opened.find j = some ws → w ∈ ws →
      (∃ ws', x.opened.find j = some ws' ∧ w ∈ ws') ∨ w.change.held x.committed) :
    Sealed ⟨db, opened⟩ := by
  refine ⟨?_, hdb⟩
  intro j ws w hj hw
  rcases hws j ws w hj hw with ⟨ws', hj', hw'⟩ | hh
  · exact (h.opened j ws' w hj' hw').keeps hk
  · exact hh.keeps hk

theorem start (h : Sealed x) (i : Nat) : Sealed (x.start i) := by
  apply h.reopen (fun _ _ hn => hn) h.held
  intro j ws w hj hw
  rw [Table.find_set] at hj
  split at hj
  next =>
    obtain ⟨⟩ := hj
    cases hw
  next => exact .inl ⟨ws, hj, hw⟩

theorem erase (h : Sealed x) (hk : x.committed.Keeps db) (hdb : db.Held) (i : Nat) :
    Sealed ⟨db, x.opened.erase i⟩ := by
  apply h.reopen hk hdb
  intro j ws w hj hw
  rw [Table.find_erase] at hj
  split at hj
  next => cases hj
  next => exact .inl ⟨ws, hj, hw⟩

theorem commit (h : Sealed x) (i : Nat) : Sealed (x.commit i) :=
  h.erase (view_keeps x i) (h.view i) i

theorem rollback (h : Sealed x) (i : Nat) : Sealed (x.rollback i) :=
  h.erase (fun _ _ hn => hn) h.held i

theorem write (h : Sealed x) (hw : w.change.held x.committed) (i : Nat) :
    Sealed (x.write i [w]) ∧ ∀ groupId,
      (x.write i [w]).committed.nameOf groupId = x.committed.nameOf groupId := by
  unfold Txns.write
  cases hi : x.opened.find i with
  | none =>
    refine ⟨h.reopen (Store.keeps_apply w.change _) (h.held.apply hw) ?_,
      Store.nameOf_apply w.change _⟩
    intro j ws w' hj hw'
    exact .inl ⟨ws, hj, hw'⟩
  | some old =>
    refine ⟨h.reopen (fun _ _ hn => hn) h.held ?_, fun _ => rfl⟩
    intro j ws w' hj hw'
    rw [Table.find_set] at hj
    split at hj
    next hji =>
      obtain ⟨⟩ := hj
      rcases List.mem_append.1 hw' with hw' | hw'
      · exact .inl ⟨old, hji ▸ hi, hw'⟩
      · obtain rfl := List.mem_singleton.1 hw'
        exact .inr hw
    next => exact .inl ⟨ws, hj, hw'⟩

end Sealed

theorem sealed_exec {x x' : Infra} {c : Cmd} {r : c.Resp} (h : Sealed x.txns)
    (hc : ∀ groupId key size time, c = .update (.insertAttachment groupId key size time) →
      x.txns.committed.Holds groupId key)
    (hx : c.exec i fault x = some (r, x')) : Sealed x'.txns ∧ ∀ groupId,
      x'.txns.committed.nameOf groupId = x.txns.committed.nameOf groupId := by
  cases c with
  | update q =>
    cases fault with
    | some e =>
      obtain ⟨⟩ := hx
      exact ⟨h, fun _ => rfl⟩
    | none =>
      obtain ⟨⟨r', txns⟩, hr, he⟩ := Option.map_eq_some_iff.1 hx
      obtain ⟨⟩ := he
      obtain ⟨-, ⟨e, -, -, rfl⟩ | ⟨a, new, -, hq, rfl⟩⟩ := Txns.execute_cases hr
      · exact ⟨h, fun _ => rfl⟩
      · obtain ⟨change, rfl, -, hm⟩ := Update.makes_of_answer hq
        apply h.write
        cases hm with
        | addAttachment => exact hc _ _ _ _ rfl
        | _ => trivial
  | commit =>
    cases fault with
    | some e =>
      obtain ⟨⟩ := hx
      exact ⟨h.rollback i, fun _ => rfl⟩
    | none =>
      obtain ⟨⟩ := hx
      exact ⟨h.commit i, Sealed.view_name x.txns i⟩
  | start =>
    cases fault with
    | some e =>
      obtain ⟨⟩ := hx
      exact ⟨h, fun _ => rfl⟩
    | none =>
      obtain ⟨⟩ := hx
      exact ⟨h.start i, fun _ => rfl⟩
  | rollback =>
    obtain ⟨⟩ := hx
    exact ⟨h.rollback i, fun _ => rfl⟩
  | _ =>
    obtain rfl : x' = x := by
      cases fault <;> exact (congrArg Prod.snd (Option.some.inj hx)).symm
    exact ⟨h, fun _ => rfl⟩

theorem select_exec {x x' : Infra} {q : Select} {a : q.Ret}
    (hx : Cmd.exec i fault x (.select q) = some (.ok a, x')) : a = q.eval (x.txns.view i) := by
  cases fault with
  | some e => cases hx
  | none => exact (Except.ok.inj (congrArg Prod.fst (Option.some.inj hx))).symm

theorem named_exec {x x' : Infra} {c : Cmd} {r : c.Resp} (hx : c.exec i fault x = some (r, x'))
    (hn : NameRead [⟨c, r⟩] groupId name) : x.txns.committed.nameOf groupId = some name := by
  rw [← Sealed.view_name x.txns i]
  cases hn with
  | @group row hm =>
    obtain ⟨⟩ := List.mem_singleton.1 hm
    have hw : (x.txns.view i).db.groups.findWhere (fun _ g => g.groupName = name) =
        some (groupId, row) := (select_exec hx).symm
    obtain ⟨hf, hp⟩ := Table.findWhere_some hw
    rw [Store.nameOf, hf, Option.map_some, of_decide_eq_true hp]
  | active hm =>
    obtain ⟨⟩ := List.mem_singleton.1 hm
    obtain ⟨e, -, he⟩ := List.exists_of_findSome?_eq_some (select_exec hx).symm
    split at he
    next =>
      obtain ⟨g, hg, he⟩ := Option.map_eq_some_iff.1 he
      obtain ⟨⟩ := he
      rw [Store.nameOf, hg, Option.map_some]
    next => cases he
  | archived hm =>
    obtain ⟨⟩ := List.mem_singleton.1 hm
    obtain ⟨e, -, he⟩ := List.exists_of_findSome?_eq_some (select_exec hx).symm
    split at he
    next =>
      obtain ⟨g, -, he⟩ := Option.map_eq_some_iff.1 he
      cases he
    next => cases he

theorem found_exec {x x' : Infra} {c : Cmd} {r : c.Resp} (h : Sealed x.txns)
    (hx : c.exec i fault x = some (r, x')) (hf : KeyRead [⟨c, r⟩] groupId key) :
    x.txns.committed.Holds groupId key := by
  have hv : ∀ row, (x.txns.view i).attachments.find (groupId, key) = some row →
      x.txns.committed.Holds groupId key := by
    intro row hr
    obtain ⟨name, hn, ha⟩ := h.view i groupId key row hr
    exact ⟨name, (Sealed.view_name x.txns i groupId).symm.trans hn, ha⟩
  cases hf with
  | one hm =>
    obtain ⟨⟩ := List.mem_singleton.1 hm
    obtain ⟨e, -, he⟩ := List.exists_of_findSome?_eq_some (select_exec hx).symm
    split at he
    next hk =>
      obtain ⟨a, ha, -⟩ := Option.map_eq_some_iff.1 he
      rw [hk] at ha
      exact hv a ha
    next => cases he
  | listed hm hr hk =>
    obtain ⟨⟩ := List.mem_singleton.1 hm
    rw [select_exec hx] at hr
    obtain ⟨e, -, he⟩ := List.mem_filterMap.1 hr
    split at he
    next hg =>
      obtain ⟨a, ha, hrow⟩ := Option.map_eq_some_iff.1 he
      have hkey : e.2 = (groupId, key) := by
        rw [← hk, ← hrow]
        exact Prod.ext hg.1 rfl
      rw [hkey] at ha
      exact hv a ha
    next => cases he

open Storage.Service in
theorem TenantCall.program_keyed (k : TenantCall) :
    k.program.Knows Cmd.keyed (fun _ r => r ≠ .again) [] := by
  cases k with
  | storage k =>
    rw [TenantCall.program, Prog.knows_bind]
    apply (Storage.program_keyed k).mono
    rintro K (_ | r) hr
    · exact (hr rfl).elim
    · intro h
      cases h
  | userGetAttachment => exact once_keyed _ Keyed.userGetAttachment
  | workerDownloadAttachment => exact once_keyed _ Keyed.workerDownloadAttachment
  | batchDownloadAttachmentsByFilter =>
    apply once_keyed
    refine (keeps_queryAttachmentsByFilter Keyed.quiet).bind fun _ => ?_
    exact Keyed.generateAttachmentDownloads
  | batchDownloadAttachmentsByKeys =>
    apply once_keyed
    refine (keeps_checkMember Keyed.quiet).bind fun _ => .ite _ (.fail _) ?_
    exact Keyed.generateAttachmentDownloads

abbrev HostedLog : Type := List (Sent Cmd Cmd.Resp TenantCall)

variable {hashPassword : Auth.Md5Password → Nat → Except Mitosis.Error String}

/-- The groups of the store are those of the registry, attachments have allowed keys, and the
sessions have read and touched nothing else. -/
structure Guarded (hashPassword : Auth.Md5Password → Nat → Except Mitosis.Error String)
    (admin : String) (clock : Instant) (h : Hosted) (log : HostedLog) : Prop where
  registry : ∃ as, Path (step (Registry.system hashPassword)) (fun _ a => accepts admin a)
    (Registry.initial clock) as h.registry
  names : ∀ groupId, h.infra.txns.committed.nameOf groupId =
    (h.registry.shared.txns.committed.groups.find groupId).map Registry.GroupModel.groupName
  secure : Sealed h.infra.txns
  named : ∀ i groupId name, NameRead (history i log) groupId name →
    h.infra.txns.committed.nameOf groupId = some name
  found : ∀ i groupId key, KeyRead (history i log) groupId key →
    h.infra.txns.committed.Holds groupId key
  touched : ∀ e ∈ log, ∀ name key, e.entry.1.attachment = some (name, key) →
    ∃ groupId, h.infra.txns.committed.nameOf groupId = some name ∧ allowed name key

namespace Guarded
variable {admin : String} {clock : Instant} {h h' : Hosted} {log : HostedLog}

theorem initial : Guarded hashPassword admin clock (hostedInitial clock).shared [] := by
  constructor
  · exact ⟨[], .nil⟩
  · intro groupId
    rfl
  · constructor
    · intro i ws w hi
      cases hi
    · intro groupId key row hf
      cases hf
  · intro i groupId name hn
    cases hn with
    | group hm | active hm | archived hm => cases hm
  · intro i groupId key hf
    cases hf with
    | one hm | listed hm => cases hm
  · intro e he
    cases he

/-- What a session knows stays so while no group loses its name. -/
theorem keeps (hg : Guarded hashPassword admin clock h log)
    (hk : h.infra.txns.committed.Keeps h'.infra.txns.committed)
    (hr : ∃ as, Path (step (Registry.system hashPassword)) (fun _ a => accepts admin a)
      (Registry.initial clock) as h'.registry)
    (hn : ∀ groupId, h'.infra.txns.committed.nameOf groupId =
      (h'.registry.shared.txns.committed.groups.find groupId).map Registry.GroupModel.groupName)
    (hs : Sealed h'.infra.txns) : Guarded hashPassword admin clock h' log := by
  constructor
  · exact hr
  · exact hn
  · exact hs
  · intro i groupId name hn
    exact hk groupId name (hg.named i groupId name hn)
  · intro i groupId key hf
    exact (hg.found i groupId key hf).keeps hk
  · intro e he name key ha
    obtain ⟨groupId, hn, ha⟩ := hg.touched e he name key ha
    exact ⟨groupId, hk groupId name hn, ha⟩

theorem exec {x' : Infra} {c : Cmd} {r : c.Resp} (hg : Guarded hashPassword admin clock h log)
    (hn : c.keyed (history i log)) (hx : c.exec i fault h.infra = some (r, x')) :
    Guarded hashPassword admin clock { h with infra := x' } (log ++ [⟨i, k, c, r⟩]) := by
  have hadds : ∀ groupId key size time, c = .update (.insertAttachment groupId key size time) →
      h.infra.txns.committed.Holds groupId key := by
    rintro groupId key size time rfl
    obtain ⟨name, hn, ha⟩ := hn
    exact ⟨name, hg.named i groupId name hn, ha⟩
  have htouch : ∀ name key, c.attachment = some (name, key) →
      ∃ groupId, h.infra.txns.committed.nameOf groupId = some name ∧ allowed name key := by
    intro name key hc
    cases c with
    | presignUpload object =>
      cases object with
      | artifact => cases hc
      | attachment =>
        obtain ⟨⟩ := hc
        obtain ⟨groupId, hn, ha⟩ := hn
        exact ⟨groupId, hg.named i groupId name hn, ha⟩
    | presignDownload object | deleteObject object =>
      cases object with
      | artifact => cases hc
      | attachment =>
        obtain ⟨⟩ := hc
        obtain ⟨groupId, hn, hf⟩ := hn
        have hname := hg.named i groupId name hn
        obtain ⟨name', hname', ha⟩ := hg.found i groupId key hf
        obtain rfl := Option.some.inj (hname.symm.trans hname')
        exact ⟨groupId, hname, ha⟩
    | _ => cases hc
  obtain ⟨hs, hnames⟩ := sealed_exec hg.secure hadds hx
  have hk : h.infra.txns.committed.Keeps x'.txns.committed := by
    intro groupId name hname
    exact (hnames groupId).trans hname
  have hg' : Guarded hashPassword admin clock { h with infra := x' } log :=
    hg.keeps hk hg.registry (fun groupId => (hnames groupId).trans (hg.names groupId)) hs
  constructor
  · exact hg.registry
  · exact hg'.names
  · exact hs
  · intro j groupId name hm
    by_cases hj : j = i
    · subst hj
      rw [history_concat_self] at hm
      rcases hm.cons with hm | hm
      · exact hk groupId name (named_exec hx hm)
      · exact hg'.named j groupId name hm
    · rw [history_concat_ne _ _ _ hj] at hm
      exact hg'.named j groupId name hm
  · intro j groupId key hm
    by_cases hj : j = i
    · subst hj
      rw [history_concat_self] at hm
      rcases hm.cons with hm | hm
      · exact (found_exec hg.secure hx hm).keeps hk
      · exact hg'.found j groupId key hm
    · rw [history_concat_ne _ _ _ hj] at hm
      exact hg'.found j groupId key hm
  · intro e he name key ha
    rcases List.mem_append.1 he with he | he
    · exact hg'.touched e he name key ha
    · obtain rfl := List.mem_singleton.1 he
      obtain ⟨groupId, hname, hal⟩ := htouch name key ha
      exact ⟨groupId, hk groupId name hname, hal⟩

theorem setGroups (hg : Guarded hashPassword admin clock h log)
    {groups : Table GroupId Group} {registry : Registry.State}
    (hr : ∃ as, Path (step (Registry.system hashPassword)) (fun _ a => accepts admin a)
      (Registry.initial clock) as registry)
    (hn : ∀ groupId, (groups.find groupId).map Group.groupName =
      (registry.shared.txns.committed.groups.find groupId).map Registry.GroupModel.groupName)
    (hk : ∀ groupId name, h.infra.txns.committed.nameOf groupId = some name →
      (groups.find groupId).map Group.groupName = some name) :
    Guarded hashPassword admin clock { h.setGroups groups with registry } log := by
  have hk' : h.infra.txns.committed.Keeps
      ({ h.setGroups groups with registry } : Hosted).infra.txns.committed := hk
  apply hg.keeps hk' hr hn
  apply hg.secure.reopen hk'
  · intro groupId key row hf
    exact (hg.secure.held groupId key row hf).keeps hk'
  · intro j ws w hj hw
    exact .inl ⟨ws, hj, hw⟩

theorem storage_env {e : Env} (hg : Guarded hashPassword admin clock h log)
    (hx : e.run h.infra = some x') :
    Guarded hashPassword admin clock { h with infra := x' } log := by
  cases e with
  | tick =>
    obtain ⟨⟩ := hx
    exact ⟨hg.registry, hg.names, hg.secure, hg.named, hg.found, hg.touched⟩
  | roles userGroup =>
    obtain ⟨⟩ := hx
    exact ⟨hg.registry, hg.names, ⟨hg.secure.opened, hg.secure.held⟩, hg.named, hg.found,
      hg.touched⟩
  | tasks activeTasks archivedTasks =>
    simp only [Env.run] at hx
    split at hx
    next hc =>
      obtain ⟨⟩ := hx
      exact ⟨hg.registry, hg.names, ⟨hg.secure.opened, hg.secure.held⟩, hg.named, hg.found,
        hg.touched⟩
    next => cases hx

theorem env {e : HostedEnv} (hg : Guarded hashPassword admin clock h log)
    (hx : e.run hashPassword admin h = some h') : Guarded hashPassword admin clock h' log := by
  cases e with
  | storage e =>
    obtain ⟨x', hx', rfl⟩ := Option.map_eq_some_iff.1 hx
    exact hg.storage_env hx'
  | registry a =>
    simp only [HostedEnv.run] at hx
    split at hx
    next ha =>
      obtain ⟨registry, hs, rfl⟩ := Option.map_eq_some_iff.1 hx
      obtain ⟨as, hp⟩ := hg.registry
      have hkept : ∀ groupId name, h.infra.txns.committed.nameOf groupId = some name →
          (registry.shared.txns.committed.groups.find groupId).map
            Registry.GroupModel.groupName = some name := by
        intro groupId name hn
        rw [hg.names] at hn
        rcases Registry.groups_step hp hs with he | ⟨gid, group, he, hnone, -⟩
        · rw [he]
          exact hn
        · have hne : groupId ≠ gid := by
            rintro rfl
            rw [hnone] at hn
            cases hn
          rw [he, Table.find_set_ne _ _ hne]
          exact hn
      have hadopt : ∀ groupId, ((adopt h.infra.txns.committed.db.groups
          registry.shared.txns.committed.groups).find groupId).map Group.groupName =
            (registry.shared.txns.committed.groups.find groupId).map
              Registry.GroupModel.groupName := by
        intro groupId
        rw [adopt, Table.find_merge, Table.find_mapRows]
        cases hf : h.infra.txns.committed.db.groups.find groupId with
        | none => rw [Option.none_or, Option.map_map]; rfl
        | some group =>
          have hn : h.infra.txns.committed.nameOf groupId = some group.groupName := by
            rw [Store.nameOf, hf, Option.map_some]
          rw [Option.some_or, Option.map_some, hkept groupId _ hn]
      apply hg.setGroups ⟨_, hp.snoc ha hs⟩ hadopt
      intro groupId name hn
      rw [hadopt]
      exact hkept groupId name hn
    next => cases hx
  | changeGroup groupId group =>
    simp only [HostedEnv.run] at hx
    split at hx
    next => cases hx
    next old ho =>
      split at hx
      next hn =>
        obtain rfl := Option.some.inj hx
        have hname : ∀ gid, ((h.infra.txns.committed.db.groups.set groupId group).find gid).map
            Group.groupName = h.infra.txns.committed.nameOf gid := by
          intro gid
          rw [Store.nameOf, Table.find_set]
          split
          next he => rw [he, ho, Option.map_some, Option.map_some, hn]
          next => rfl
        apply hg.setGroups hg.registry
        · intro gid
          exact (hname gid).trans (hg.names gid)
        · intro gid name hg'
          exact (hname gid).trans hg'
      next => cases hx

theorem of_path {s : HostedState}
    (hp : Path (step (hosted hashPassword admin)) (fun _ _ => True) (hostedInitial clock) as s) :
    Guarded hashPassword admin clock s.shared s.log := by
  apply log_invariant TenantCall.program_keyed _ hp rfl rfl initial
  · intro e h h' log hg hx
    exact hg.env hx
  · intro s i k fault c p r h' _ _ _ hn hx hg
    obtain ⟨⟨r', x'⟩, hx', he⟩ := Option.map_eq_some_iff.1 hx
    obtain ⟨⟩ := he
    exact hg.exec hn hx'
  · intro k K h
    exact (h rfl).elim

theorem accepted (hg : Guarded hashPassword admin clock h log)
    (hn : h.infra.txns.committed.nameOf groupId = some name) : NameAccepted admin name := by
  obtain ⟨as, hp⟩ := hg.registry
  rw [hg.names] at hn
  obtain ⟨group, hf, rfl⟩ := Option.map_eq_some_iff.1 hn
  exact Registry.accepted_of_path hp hf

theorem unique (hg : Guarded hashPassword admin clock h log)
    (hn : h.infra.txns.committed.nameOf groupId = some name)
    (hn' : h.infra.txns.committed.nameOf groupId' = some name) : groupId = groupId' := by
  obtain ⟨as, hp⟩ := hg.registry
  rw [hg.names] at hn hn'
  obtain ⟨group, hf, rfl⟩ := Option.map_eq_some_iff.1 hn
  obtain ⟨group', hf', he⟩ := Option.map_eq_some_iff.1 hn'
  have hreg := Registry.registered_of_path False (fun hf => hf.elim) hp
  exact hreg.personal.names groupId groupId' group group' hf hf' he.symm

end Guarded

variable {admin : String} {clock : Instant} {s : HostedState}

theorem Uses.allowed (h : Uses s name key)
    (hg : Guarded hashPassword admin clock s.shared s.log) :
    NameAccepted admin name ∧ Storage.allowed name key := by
  cases h with
  | recorded hn hf =>
    obtain ⟨name', hn', ha⟩ := hg.secure.held _ _ _ hf
    obtain rfl := Option.some.inj (hn.symm.trans hn')
    exact ⟨hg.accepted hn, ha⟩
  | touched he hc =>
    obtain ⟨groupId, hn, ha⟩ := hg.touched _ he name key hc
    exact ⟨hg.accepted hn, ha⟩

/-- In every run with a configured name that does not shadow a group, no object is the one of two
attachments. -/
theorem tenants_isolated (hashPassword : Auth.Md5Password → Nat → Except Mitosis.Error String)
    (admin : String) (hadmin : ¬Shadows admin) (clock : Instant)
    (as : List (Act TenantCall (Option DbErr) HostedEnv)) (s : HostedState)
    (hp : Path (step (hosted hashPassword admin)) (fun _ _ => True) (hostedInitial clock) as s) :
    Isolated s := by
  have hg := Guarded.of_path hp
  have hobjects : ∀ name key name' key', Uses s name key → Uses s name' key' →
      objectKey name key = objectKey name' key' → name = name' ∧ key = key' := by
    intro name key name' key' hu hu' he
    obtain ⟨hn, ha⟩ := hu.allowed hg
    obtain ⟨hn', ha'⟩ := hu'.allowed hg
    exact objectKey_inj hadmin hn hn' ha ha' he
  constructor
  · intro groupId key row groupId' key' row' name name' hf hf' hn hn' he
    obtain ⟨rfl, rfl⟩ := hobjects _ _ _ _ (.recorded hn hf) (.recorded hn' hf') he
    exact ⟨hg.unique hn hn', rfl⟩
  · exact hobjects

namespace TenantDemo
open Registry.Demo (hash)

def env (e : HostedEnv) : Act TenantCall (Option DbErr) HostedEnv := .env e

def create (i : Nat) (username : String) : List (Act TenantCall (Option DbErr) HostedEnv) :=
  env (.registry (.call (.createUser username 0 (i = 0)))) ::
    List.replicate 9 (env (.registry (.step i none)))

def members : Table (UserId × GroupId) UserGroupRole :=
  (Table.empty.set (1, 1) .admin).set (2, 2) .admin

def upload (i : Nat) (userId : UserId) (groupName key : String) :
    List (Act TenantCall (Option DbErr) HostedEnv) :=
  .call (.storage (.userUploadAttachment userId groupName key 5)) ::
    List.replicate 9 (.step i none)

/-- The administrator `admin` and the user `a` upload an attachment each. -/
def run (admin key key' : String) : List (Act TenantCall (Option DbErr) HostedEnv) :=
  create 0 admin ++ create 1 "a" ++ env (.storage (.roles members)) ::
    upload 0 1 admin key ++ upload 1 2 "a" key'

def recorded (admin key key' : String) (s : HostedState) : Bool :=
  let store := s.shared.infra.txns.committed
  decide (store.nameOf 1 = some admin) && decide (store.nameOf 2 = some "a") &&
    (store.attachments.find (1, key)).isSome && (store.attachments.find (2, key')).isSome

end TenantDemo

open TenantDemo in
/-- The default administrator's name has no '/'. -/
theorem default_isolated : ¬Shadows "mitosis_admin" ∧ ∃ s,
    Path (step (hosted Registry.Demo.hash "mitosis_admin")) (fun _ _ => True) (hostedInitial 0)
      (run "mitosis_admin" "x" "b/x") s ∧
    recorded "mitosis_admin" "x" "b/x" s = true ∧ Isolated s := by
  have hn : ¬Shadows "mitosis_admin" := by
    rintro ⟨name, rest, he, -, -⟩
    have hm : '/' ∈ "mitosis_admin".toList := by
      rw [he]
      unfold objectKey
      rw [objectKey_toList]
      exact List.mem_append_right _ (.head _)
    exact absurd hm (by decide)
  have hrun : (Path.follow (step (hosted Registry.Demo.hash "mitosis_admin")) (fun _ _ => true)
      (hostedInitial 0) (run "mitosis_admin" "x" "b/x")).any
        (recorded "mitosis_admin" "x" "b/x") = true := by decide +kernel
  obtain ⟨s, hp, hs⟩ := Path.of_follow_any hrun
  have hp' := hp.mono fun _ _ _ => trivial
  exact ⟨hn, s, hp', hs, tenants_isolated _ _ hn 0 _ s hp'⟩

open TenantDemo in
/-- The administrator `a/b` and the user `a` have attachments with one object. -/
theorem attachments_collide : ∃ s,
    Path (step (hosted Registry.Demo.hash "a/b")) (fun _ _ => True) (hostedInitial 0)
      (run "a/b" "x" "b/x") s ∧ ¬Isolated s := by
  have hrun : (Path.follow (step (hosted Registry.Demo.hash "a/b")) (fun _ _ => true)
      (hostedInitial 0) (run "a/b" "x" "b/x")).any (recorded "a/b" "x" "b/x") = true := by
    decide +kernel
  obtain ⟨s, hp, hs⟩ := Path.of_follow_any hrun
  refine ⟨s, hp.mono fun _ _ _ => trivial, ?_⟩
  intro h
  simp only [recorded, Bool.and_eq_true, decide_eq_true_eq] at hs
  obtain ⟨⟨⟨hn, hn'⟩, hr⟩, hr'⟩ := hs
  obtain ⟨row, hr⟩ := Option.isSome_iff_exists.1 hr
  obtain ⟨row', hr'⟩ := Option.isSome_iff_exists.1 hr'
  obtain ⟨hid, -⟩ := h.rows 1 "x" row 2 "b/x" row' "a/b" "a" hr hr' hn hn' (by decide)
  exact absurd hid (by decide)

end Storage
end Mitosis
