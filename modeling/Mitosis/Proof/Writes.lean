import Mitosis.Lib.Total
import Mitosis.Proof.Transactions

namespace Mitosis
set_option autoImplicit true

namespace Storage

/-- What statements change, where they succeed. -/
inductive Makes (m : Nat) (v : Store) : Update → Change → Prop
  | touchActive : v.db.activeTasks.find t = some row →
    Makes m v (.touchTask (.active t task) time) (.touchActive t time)
  | touchArchived : v.db.archivedTasks.find t = some row →
    Makes m v (.touchTask (.archived t task) time) (.touchArchived t time)
  | setArtifact : v.artifactIds.find seen.id = some key →
    Makes m v (.updateArtifact seen size time) (.setArtifact key size time)
  | addArtifact : v.db.artifacts.find (uuid, contentType) = none →
    Makes m v (.insertArtifact uuid contentType size time)
      (.addArtifact m (uuid, contentType) ⟨size, time, time⟩)
  | noArtifact : v.artifactIds.find seen.id = none → Makes m v (.deleteArtifact seen) .nothing
  | dropArtifact : v.artifactIds.find seen.id = some key →
    Makes m v (.deleteArtifact seen) (.dropArtifact seen.id key)
  | setAttachment : v.attachmentIds.find seen.id = some key →
    Makes m v (.updateAttachment seen size time) (.setAttachment key size time)
  | addAttachment : v.attachments.find (groupId, key) = none →
    v.db.groups.find groupId = some row → Makes m v (.insertAttachment groupId key size time)
      (.addAttachment m (groupId, key) ⟨.noSet, size, time, time⟩)
  | noAttachment : v.attachmentIds.find seen.id = none →
    Makes m v (.deleteAttachment seen) .nothing
  | dropAttachment : v.attachmentIds.find seen.id = some key →
    Makes m v (.deleteAttachment seen) (.dropAttachment seen.id key)
  | setStorageUsed : v.db.groups.find seen.1 = some row →
    Makes m v (.updateGroup seen growth used time) (.setStorageUsed seen.1 used time)

theorem Update.makes_of_answer {q : Update} (h : (q.answer m v).result = .ok (r, ws)) :
    ∃ c, ws = [⟨q, c⟩] ∧ (q.answer m v).waits = c.rows ∧ Makes m v q c := by
  cases q with
  | touchTask task =>
    cases task with
    | active | archived =>
      simp only [answer] at h ⊢
      split at h
      next => cases h
      next hf =>
        obtain ⟨⟩ := h
        first
        | exact ⟨_, rfl, rfl, .touchActive hf⟩
        | exact ⟨_, rfl, rfl, .touchArchived hf⟩
  | updateArtifact =>
    simp only [answer] at h ⊢
    split at h
    next => cases h
    next hf =>
      obtain ⟨⟩ := h
      exact ⟨_, rfl, rfl, .setArtifact hf⟩
  | insertArtifact =>
    simp only [answer] at h ⊢
    split at h
    next => cases h
    next hf =>
      obtain ⟨⟩ := h
      exact ⟨_, rfl, rfl, .addArtifact hf⟩
  | deleteArtifact =>
    simp only [answer] at h ⊢
    split at h
    next hf =>
      obtain ⟨⟩ := h
      exact ⟨_, rfl, rfl, .noArtifact hf⟩
    next hf =>
      obtain ⟨⟩ := h
      exact ⟨_, rfl, rfl, .dropArtifact hf⟩
  | updateAttachment =>
    simp only [answer] at h ⊢
    split at h
    next => cases h
    next hf =>
      obtain ⟨⟩ := h
      exact ⟨_, rfl, rfl, .setAttachment hf⟩
  | insertAttachment =>
    simp only [answer] at h ⊢
    split at h
    next => cases h
    next hf =>
      split at h
      next => cases h
      next hf' =>
        obtain ⟨⟩ := h
        exact ⟨_, rfl, rfl, .addAttachment hf hf'⟩
  | deleteAttachment =>
    simp only [answer] at h ⊢
    split at h
    next hf =>
      obtain ⟨⟩ := h
      exact ⟨_, rfl, rfl, .noAttachment hf⟩
    next hf =>
      obtain ⟨⟩ := h
      exact ⟨_, rfl, rfl, .dropAttachment hf⟩
  | updateGroup =>
    simp only [answer] at h ⊢
    split at h
    next => cases h
    next hf =>
      obtain ⟨⟩ := h
      exact ⟨_, rfl, rfl, .setStorageUsed hf⟩

def Store.objects (s : Store) := (s.db.artifacts, s.artifactIds, s.attachments, s.attachmentIds)

def Store.usage (s : Store) (groupId : GroupId) : Int :=
  (s.attachments.total fun key a => if key.1 = groupId then a.size else 0) +
    s.db.artifacts.total fun key a => if (key.1, groupId) ∈ s.owners then a.size else 0

/-- The number is in the range of `i64`. -/
def fits (n : Int) : Bool := -2 ^ 63 ≤ n && n < 2 ^ 63

def Store.isArtifact (s : Store) (seen : ArtifactRow) (key : Uuid × ArtifactContentType) : Bool :=
  key = (seen.taskId, seen.contentType) &&
    (s.db.artifacts.find key).any fun a => a.size = seen.size

def Store.isAttachment (s : Store) (seen : AttachmentRow) (key : GroupId × String) : Bool :=
  key = (seen.groupId, seen.key) && (s.attachments.find key).any fun a => a.size = seen.size

def Write.current (w : Write) (s : Store) : Prop :=
  match w.source, w.change with
  | .touchTask _ _, .touchActive _ _ => True
  | .touchTask _ _, .touchArchived _ _ => True
  | .updateArtifact seen size _, .setArtifact key size' _ =>
    size' = size ∧ s.isArtifact seen key = true
  | .insertArtifact uuid contentType size _, .addArtifact _ key a =>
    key = (uuid, contentType) ∧ a.size = size ∧ s.db.artifacts.find key = none
  | .deleteArtifact seen, .nothing => seen.size = 0
  | .deleteArtifact seen, .dropArtifact _ key => s.isArtifact seen key = true
  | .updateAttachment seen size _, .setAttachment key size' _ =>
    size' = size ∧ s.isAttachment seen key = true
  | .insertAttachment groupId k size _, .addAttachment _ key a =>
    key = (groupId, k) ∧ a.size = size ∧ s.attachments.find key = none
  | .deleteAttachment seen, .nothing => seen.size = 0
  | .deleteAttachment seen, .dropAttachment _ key => s.isAttachment seen key = true
  | .updateGroup seen growth used _, .setStorageUsed g used' _ =>
    g = seen.1 ∧ used' = used ∧ fits (seen.2.storageUsed + growth) = true ∧
      ∃ row, s.db.groups.find g = some row ∧ row.storageUsed = seen.2.storageUsed
  | _, _ => False

theorem Change.artifacts_apply {c : Change} (h : .artifact key ∉ c.rows) :
    (c.apply s).db.artifacts.find key = s.db.artifacts.find key := by
  cases c with
  | setArtifact key' | addArtifact _ key' | dropArtifact _ key' =>
    have hne : key ≠ key' := by
      rintro rfl
      exact h (.head _)
    simp only [apply, Table.find_update_ne _ _ hne, Table.find_set_ne _ _ hne,
      Table.find_erase_ne _ hne]
  | _ => rfl

theorem Change.attachments_apply {c : Change} (h : .attachment key ∉ c.rows) :
    (c.apply s).attachments.find key = s.attachments.find key := by
  cases c with
  | setAttachment key' | addAttachment _ key' | dropAttachment _ key' =>
    have hne : key ≠ key' := by
      rintro rfl
      exact h (.head _)
    simp only [apply, Table.find_update_ne _ _ hne, Table.find_set_ne _ _ hne,
      Table.find_erase_ne _ hne]
  | _ => rfl

theorem Change.groups_apply {c : Change} (h : .group g ∉ c.rows) :
    (c.apply s).db.groups.find g = s.db.groups.find g := by
  cases c with
  | setStorageUsed g' =>
    have hne : g ≠ g' := by
      rintro rfl
      exact h (.head _)
    simp only [apply, Table.find_update_ne _ _ hne]
  | _ => rfl

theorem Change.owners_apply (c : Change) (s : Store) : (c.apply s).owners = s.owners := by
  unfold Store.owners
  cases c with
  | touchActive id now =>
    simp only [apply]
    congr 1
    exact Table.map_update _ _ fun _ _ => rfl
  | touchArchived id now =>
    simp only [apply]
    congr 1
    exact Table.map_update _ _ fun _ _ => rfl
  | _ => rfl

def Row.kind : Row → Kind
  | activeTask _ => .touch
  | archivedTask _ => .touch
  | artifact _ => .object
  | attachment _ => .object
  | group _ => .group

theorem Write.current_kind {w : Write} (hw : w.current s) (hk : k ∈ w.change.rows) :
    k.kind = w.source.kind := by
  obtain ⟨source, change⟩ := w
  cases change with
  | nothing => cases hk
  | _ =>
    obtain rfl := List.mem_singleton.1 hk
    cases source <;> first | rfl | exact hw.elim

theorem Store.isArtifact_congr {s s' : Store}
    (h : s'.db.artifacts.find key = s.db.artifacts.find key) :
    s'.isArtifact seen key = s.isArtifact seen key := by rw [isArtifact, isArtifact, h]

theorem Store.isAttachment_congr {s s' : Store}
    (h : s'.attachments.find key = s.attachments.find key) :
    s'.isAttachment seen key = s.isAttachment seen key := by rw [isAttachment, isAttachment, h]

theorem Write.current_apply (w w' : Write) (s : Store)
    (h : ∀ k ∈ RowWrite.rows w, k ∉ RowWrite.rows (κ := Row) w') (hc : w.current s) :
    w.current (RowWrite.apply w' s) := by
  obtain ⟨source, change⟩ := w
  have hrow : ∀ k, k ∈ change.rows → k ∉ w'.change.rows := h
  cases change with
  | nothing | touchActive | touchArchived =>
    cases source <;> exact hc
  | setArtifact key | addArtifact _ key | dropArtifact _ key =>
    have hf := Change.artifacts_apply (s := s) (hrow (.artifact key) (.head _))
    cases source <;> first | exact hc.elim | skip
    all_goals
      simp only [Write.current, RowWrite.apply, Store.isArtifact_congr hf, hf] at hc ⊢
      exact hc
  | setAttachment key | addAttachment _ key | dropAttachment _ key =>
    have hf := Change.attachments_apply (s := s) (hrow (.attachment key) (.head _))
    cases source <;> first | exact hc.elim | skip
    all_goals
      simp only [Write.current, RowWrite.apply, Store.isAttachment_congr hf, hf] at hc ⊢
      exact hc
  | setStorageUsed g =>
    have hf := Change.groups_apply (s := s) (hrow (.group g) (.head _))
    cases source <;> first | exact hc.elim | skip
    simp only [Write.current, RowWrite.apply, hf] at hc ⊢
    exact hc

/-- A read of an object returns the one that was asked for. -/
def Asked (e : Entry Cmd Cmd.Resp) : Prop :=
  match e with
  | ⟨.select (.artifact uuid _), .ok (some seen)⟩ => seen.taskId = uuid
  | ⟨.select (.attachment groupId _), .ok (some seen)⟩ => seen.groupId = groupId
  | _ => True

/-- What a session has read of owners and keys is so, and a task is in one group. -/
structure Known (K : History) (s : Store) : Prop where
  owned : ∀ uuid g, Owned K uuid g → (uuid, g) ∈ s.owners
  asked : ∀ e ∈ K, Asked e
  single : ∀ uuid g g', (uuid, g) ∈ s.owners → (uuid, g') ∈ s.owners → g = g'

theorem Known.mem_owners (h : Known K s) (ho : Owned K uuid g₀) (g : GroupId) :
    (uuid, g) ∈ s.owners ↔ g = g₀ := by
  constructor
  · intro hg
    exact h.single uuid g g₀ hg (h.owned uuid g₀ ho)
  · rintro rfl
    exact h.owned uuid g ho

theorem Store.isArtifact_iff {s : Store} : s.isArtifact seen key = true ↔
    key = (seen.taskId, seen.contentType) ∧
      ∃ a, s.db.artifacts.find key = some a ∧ a.size = seen.size := by
  rw [isArtifact, Bool.and_eq_true, decide_eq_true_eq, Option.any_eq_true]
  simp only [decide_eq_true_eq]

theorem Store.isAttachment_iff {s : Store} : s.isAttachment seen key = true ↔
    key = (seen.groupId, seen.key) ∧
      ∃ a, s.attachments.find key = some a ∧ a.size = seen.size := by
  rw [isAttachment, Bool.and_eq_true, decide_eq_true_eq, Option.any_eq_true]
  simp only [decide_eq_true_eq]

theorem ite_sub_ite (p : Prop) [Decidable p] (m n : Int) :
    (if p then m else 0) - (if p then n else 0) = if p then m - n else 0 := by
  split <;> rfl

theorem neg_ite (p : Prop) [Decidable p] (m : Int) :
    -(if p then m else 0) = if p then -m else 0 := by
  split <;> rfl

theorem Write.usage_apply {w : Write} (h : Known K s) (hw : w.current s)
    (hz : Sized K g₀ growth w.source) (g : GroupId) :
    (RowWrite.apply w s).usage g = s.usage g + if g = g₀ then growth else 0 := by
  obtain ⟨source, change⟩ := w
  cases hz with
  | @updateArtifact uuid size _ seen _ ho hs =>
    cases change with
    | setArtifact key size' now =>
      obtain ⟨rfl, hi⟩ := hw
      obtain ⟨rfl, a, ha, hsize⟩ := Store.isArtifact_iff.1 hi
      have hask : seen.taskId = uuid := h.asked _ hs
      have hg : (seen.taskId, g) ∈ s.owners ↔ g = g₀ := by
        rw [hask]
        exact h.mem_owners ho g
      change s.attachments.total _ + (s.db.artifacts.update _ fun a =>
        { a with size := size', updatedAt := now }).total _ = _
      rw [Table.total_update, ha, Option.elim_some, ← Int.add_assoc]
      change s.usage g + ((if (seen.taskId, g) ∈ s.owners then size' else 0) -
        if (seen.taskId, g) ∈ s.owners then a.size else 0) = _
      rw [ite_sub_ite, hsize]
      simp only [hg]
    | _ => exact hw.elim
  | @insertArtifact uuid _ _ _ ho =>
    cases change with
    | addArtifact newId key a =>
      obtain ⟨rfl, rfl, hn⟩ := hw
      change s.attachments.total _ + (s.db.artifacts.set _ _).total _ = _
      rw [Table.total_set_new _ _ _ hn, ← Int.add_assoc]
      change s.usage g + (if (uuid, g) ∈ s.owners then a.size else 0) = _
      simp only [h.mem_owners ho g]
    | _ => exact hw.elim
  | @deleteArtifact uuid _ seen ho hs =>
    cases change with
    | nothing =>
      have hsize : seen.size = 0 := hw
      rw [hsize]
      change s.usage g = _
      simp only [Int.neg_zero, ite_self, Int.add_zero]
    | dropArtifact oldId key =>
      obtain ⟨rfl, a, ha, hsize⟩ := Store.isArtifact_iff.1 hw
      have hask : seen.taskId = uuid := h.asked _ hs
      have hg : (seen.taskId, g) ∈ s.owners ↔ g = g₀ := by
        rw [hask]
        exact h.mem_owners ho g
      change s.attachments.total _ + (s.db.artifacts.erase _).total _ = _
      rw [Table.total_erase, ha, Option.elim_some, Int.sub_eq_add_neg, ← Int.add_assoc]
      change s.usage g + -(if (seen.taskId, g) ∈ s.owners then a.size else 0) = _
      rw [neg_ite, hsize]
      simp only [hg]
    | _ => exact hw.elim
  | @updateAttachment size _ seen _ hs =>
    cases change with
    | setAttachment key size' now =>
      obtain ⟨rfl, hi⟩ := hw
      obtain ⟨rfl, a, ha, hsize⟩ := Store.isAttachment_iff.1 hi
      have hask : seen.groupId = g₀ := h.asked _ hs
      change (s.attachments.update _ fun a =>
        { a with size := size', updatedAt := now }).total _ + s.db.artifacts.total _ = _
      rw [Table.total_update, ha, Option.elim_some, Int.add_right_comm]
      change s.usage g + ((if seen.groupId = g then size' else 0) -
        if seen.groupId = g then a.size else 0) = _
      rw [ite_sub_ite, hsize, hask]
      simp only [eq_comm]
    | _ => exact hw.elim
  | insertAttachment =>
    cases change with
    | addAttachment newId key a =>
      obtain ⟨rfl, rfl, hn⟩ := hw
      change (s.attachments.set _ _).total _ + s.db.artifacts.total _ = _
      rw [Table.total_set_new _ _ _ hn, Int.add_right_comm]
      change s.usage g + (if g₀ = g then a.size else 0) = _
      simp only [eq_comm]
    | _ => exact hw.elim
  | @deleteAttachment seen hg =>
    cases change with
    | nothing =>
      have hsize : seen.size = 0 := hw
      rw [hsize]
      change s.usage g = _
      simp only [Int.neg_zero, ite_self, Int.add_zero]
    | dropAttachment oldId key =>
      obtain ⟨rfl, a, ha, hsize⟩ := Store.isAttachment_iff.1 hw
      change (s.attachments.erase _).total _ + s.db.artifacts.total _ = _
      rw [Table.total_erase, ha, Option.elim_some, Int.sub_eq_add_neg, Int.add_right_comm]
      change s.usage g + -(if seen.groupId = g then a.size else 0) = _
      rw [neg_ite, hsize, hg]
      simp only [eq_comm]
    | _ => exact hw.elim

/-- Each group's `storage_used` is what its objects use. -/
def Store.Accounted (s : Store) : Prop :=
  ∀ g row, s.db.groups.find g = some row → row.storageUsed = s.usage g

/-- By what a group's `storage_used` is more than what its objects use. -/
def Store.surplus (s : Store) (g : GroupId) : Option Int :=
  (s.db.groups.find g).map fun row => row.storageUsed - s.usage g

theorem Store.accounted_iff {s : Store} : s.Accounted ↔ ∀ g n, s.surplus g = some n → n = 0 := by
  constructor
  · intro h g n hn
    obtain ⟨row, hr, rfl⟩ := Option.map_eq_some_iff.1 hn
    rw [h g row hr, Int.sub_self]
  · intro h g row hr
    apply Int.eq_of_sub_eq_zero
    apply h g
    rw [surplus, hr, Option.map_some]

theorem Write.owners_apply (w : Write) (s : Store) :
    (RowWrite.apply w s : Store).owners = s.owners := Change.owners_apply w.change s

theorem Write.groups_apply {w : Write} (hw : w.current s) (hk : w.source.kind ≠ .group) :
    (RowWrite.apply w s : Store).db.groups.find g = s.db.groups.find g := by
  apply Change.groups_apply
  intro hg
  exact hk (w.current_kind hw hg).symm

theorem Write.surplus_touch {w : Write} (hw : w.current s) (hk : w.source.kind = .touch)
    (g : GroupId) : (RowWrite.apply w s : Store).surplus g = s.surplus g := by
  have hne : w.source.kind ≠ .group := by
    rw [hk]
    exact Kind.noConfusion
  have hu : (RowWrite.apply w s : Store).usage g = s.usage g := by
    unfold Store.usage
    rw [Write.owners_apply]
    obtain ⟨source, change⟩ := w
    cases source <;> cases hk
    cases change <;> first | exact hw.elim | rfl
  rw [Store.surplus, Write.groups_apply hw hne, hu, Store.surplus]

theorem Sized.kind (h : Sized K g growth u) : u.kind = .object := by
  cases h <;> rfl

theorem Write.surplus_object {w : Write} (h : Known K s) (hw : w.current s)
    (hz : Sized K g₀ growth w.source) (g : GroupId) : (RowWrite.apply w s : Store).surplus g =
      (s.surplus g).map fun n => n - if g = g₀ then growth else 0 := by
  have hne : w.source.kind ≠ .group := by
    rw [hz.kind]
    exact Kind.noConfusion
  rw [Store.surplus, Write.groups_apply hw hne, Write.usage_apply h hw hz, Store.surplus,
    Option.map_map]
  congr 1
  funext row
  simp only [Function.comp_apply]
  omega

theorem asI64_add (h : fits (m + n) = true) : asI64 (m + asI64 n) = m + n := by
  unfold asI64
  simp only [fits, Bool.and_eq_true, decide_eq_true_eq] at h
  omega

theorem saturatingSub_neg (h : fits (m + n) = true) : Service.saturatingSub m (-n) = m + n := by
  unfold Service.saturatingSub
  simp only [fits, Bool.and_eq_true, decide_eq_true_eq] at h
  omega

def Counts (group : GroupId × Group) (growth used : Int) : Prop :=
  used = asI64 (group.2.storageUsed + asI64 growth) ∨
    used = Service.saturatingSub group.2.storageUsed (-growth)

theorem Write.surplus_group {w : Write} (hw : w.current s)
    (hs : w.source = .updateGroup group growth used time) (hu : Counts group growth used)
    (g : GroupId) : (RowWrite.apply w s : Store).surplus g =
      (s.surplus g).map fun n => n + if g = group.1 then growth else 0 := by
  obtain ⟨source, change⟩ := w
  obtain rfl : source = _ := hs
  cases change with
  | setStorageUsed g' used' time' =>
    obtain ⟨rfl, rfl, hf, row, hr, he⟩ := hw
    have hused : used' = row.storageUsed + growth := by
      rw [he]
      rcases hu with rfl | rfl
      · exact asI64_add hf
      · exact saturatingSub_neg hf
    change (((s.db.groups.update group.1 fun row' =>
      { row' with storageUsed := used', updatedAt := time' }).find g).map fun row =>
        row.storageUsed - s.usage g) = _
    rw [Store.surplus, Table.find_update]
    by_cases hg : g = group.1
    · subst hg
      rw [if_pos rfl, hr, hused]
      simp only [Option.map_some, if_true]
      congr 1
      omega
    · simp only [hg, if_false, Int.add_zero, Option.map_id']
  | _ => exact hw.elim

theorem owners_applyAll (ws : List Write) (s : Store) :
    (Txns.applyAll ws s).owners = s.owners := by
  induction ws generalizing s with
  | nil => rfl
  | cons w ws ih => exact (ih _).trans (w.owners_apply s)

theorem Known.of_owners (h : Known K s) (ho : s'.owners = s.owners) : Known K s' := by
  constructor
  · rw [ho]
    exact h.owned
  · exact h.asked
  · rw [ho]
    exact h.single

theorem Write.current_of_kind {w w' : Write} (hw : w.current s) (hw' : w'.current s)
    (hk : w.source.kind ≠ w'.source.kind) : w.current (RowWrite.apply w' s) := by
  apply Write.current_apply _ _ _ _ hw
  intro k hr hr'
  exact hk ((w.current_kind hw hr).symm.trans (w'.current_kind hw' hr'))

theorem Write.current_applyAll {w : Write} {ws : List Write} (hw : w.current s)
    (hws : ∀ w' ∈ ws, w'.current s) (hk : ∀ w' ∈ ws, w.source.kind ≠ w'.source.kind) :
    w.current (Txns.applyAll ws s) := by
  apply Txns.Guarded.applyAll Write.current_apply _ hw
  intro w' hm k hr hr'
  exact hk w' hm ((w.current_kind hw hr).symm.trans (w'.current_kind (hws w' hm) hr'))

theorem surplus_touches {ws : List Write} (hws : ∀ w ∈ ws, w.current s)
    (hk : ∀ w ∈ ws, w.source.kind = .touch) (g : GroupId) :
    (Txns.applyAll ws s).surplus g = s.surplus g := by
  induction ws generalizing s with
  | nil => rfl
  | cons w ws ih =>
    have hw := hws w (.head _)
    have hrest : ∀ w' ∈ ws, w'.current (RowWrite.apply w s : Store) := by
      intro w' hm
      have hw' := hws w' (.tail _ hm)
      have ht := hk w' (.tail _ hm)
      obtain ⟨source, change⟩ := w'
      cases source <;> cases ht
      cases change <;> first | exact hw'.elim | trivial
    exact (ih hrest fun w' hm => hk w' (.tail _ hm)).trans
      (Write.surplus_touch hw (hk w (.head _)) g)

theorem map_map_inverse {f g : Int → Int} (h : ∀ n, g (f n) = n) (x : Option Int) :
    (x.map f).map g = x := by
  cases x with
  | none => rfl
  | some n => exact congrArg some (h n)

theorem surplus_upload {ws : List Write} {wo wg : Write} (h : Known K s)
    (hws : ∀ w ∈ ws, w.current s) (hts : ∀ w ∈ ws, w.source.kind = .touch) (ho : wo.current s)
    (hz : Sized K group.1 growth wo.source) (hg : wg.current s)
    (hs : wg.source = .updateGroup group growth used time)
    (hu : used = asI64 (group.2.storageUsed + asI64 growth)) (g : GroupId) :
    (RowWrite.apply wg (RowWrite.apply wo (Txns.applyAll ws s)) : Store).surplus g =
      s.surplus g := by
  have hkg : wg.source.kind = .group := by rw [hs]; rfl
  have hg₁ : wg.current (Txns.applyAll ws s) := by
    apply Write.current_applyAll hg hws
    intro w hm
    rw [hkg, hts w hm]
    exact Kind.noConfusion
  have ho₁ : wo.current (Txns.applyAll ws s) := by
    apply Write.current_applyAll ho hws
    intro w hm
    rw [hz.kind, hts w hm]
    exact Kind.noConfusion
  have hg₂ : wg.current (RowWrite.apply wo (Txns.applyAll ws s)) := by
    apply Write.current_of_kind hg₁ ho₁
    rw [hkg, hz.kind]
    exact Kind.noConfusion
  rw [Write.surplus_group hg₂ hs (.inl hu), Write.surplus_object (h.of_owners (owners_applyAll ws s)) ho₁ hz,
    surplus_touches hws hts]
  apply map_map_inverse
  intro n
  exact Int.sub_add_cancel _ _

theorem surplus_release {wo wg : Write} (h : Known K s) (hg : wg.current s)
    (hs : wg.source = .updateGroup group growth used time)
    (hu : used = Service.saturatingSub group.2.storageUsed (-growth)) (ho : wo.current s)
    (hz : Sized K group.1 growth wo.source) (g : GroupId) :
    (RowWrite.apply wo (RowWrite.apply wg s) : Store).surplus g = s.surplus g := by
  have ho₁ : wo.current (RowWrite.apply wg s) := by
    apply Write.current_of_kind ho hg
    rw [hs, hz.kind]
    exact Kind.noConfusion
  rw [Write.surplus_object (h.of_owners (wg.owners_apply s)) ho₁ hz, Write.surplus_group hg hs (.inr hu)]
  apply map_map_inverse
  intro n
  exact Int.add_sub_cancel _ _

/-- A transaction that may be committed, made from what is still so, balances. -/
theorem surplus_applyAll {ws : List Write} (h : Known K s)
    (hm : Moves K (ws.map Write.source).reverse) (hc : ∀ w ∈ ws, w.current s) (g : GroupId) :
    (Txns.applyAll ws s).surplus g = s.surplus g := by
  obtain ⟨rs, rfl⟩ : ∃ rs : List Write, ws = rs.reverse := ⟨ws.reverse, ws.reverse_reverse.symm⟩
  rw [← List.map_reverse, List.reverse_reverse] at hm
  generalize hu : rs.map Write.source = us at hm
  cases hm with
  | upload hz hused hrest =>
    obtain ⟨wg, rs, rfl, hs, hu'⟩ := List.map_eq_cons_iff.1 hu
    obtain ⟨wo, rs, rfl, rfl, rfl⟩ := List.map_eq_cons_iff.1 hu'
    simp only [List.reverse_cons, List.append_assoc, List.singleton_append] at hc ⊢
    have hws : ∀ w ∈ rs.reverse, w.current s := by
      intro w hm
      exact hc w (List.mem_append_left _ hm)
    have hts : ∀ w ∈ rs.reverse, w.source.kind = .touch := by
      intro w hm
      exact hrest _ (List.mem_map_of_mem (List.mem_reverse.1 hm))
    have ho : wo.current s := hc wo (List.mem_append_right _ (.head _))
    have hg : wg.current s := hc wg (List.mem_append_right _ (.tail _ (.head _)))
    rw [Txns.applyAll, List.foldl_append]
    exact surplus_upload h hws hts ho hz hg hs hused g
  | release hz hused =>
    obtain ⟨wo, rs, rfl, rfl, hu'⟩ := List.map_eq_cons_iff.1 hu
    obtain ⟨wg, rs, rfl, hs, hu''⟩ := List.map_eq_cons_iff.1 hu'
    obtain rfl := List.map_eq_nil_iff.1 hu''
    have ho : wo.current s := hc wo (.tail _ (.head _))
    have hg : wg.current s := hc wg (.head _)
    exact surplus_release h hg hs hused ho hz g

end Storage
end Mitosis
