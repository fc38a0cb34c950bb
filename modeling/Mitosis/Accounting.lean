import Mitosis.Proof.Transfers
import Mitosis.Proof.Writes

namespace Mitosis
set_option autoImplicit true

namespace Storage
open Sessions
export Sessions (history history_concat_self history_concat_ne mem_history log_invariant)

abbrev Event : Type := Sent Cmd Cmd.Resp Call

/-- The object, or the group's `storage_used`, is as the handler has read it; what is gone has
the size 0. The new `storage_used` is in the range of its type. -/
def Update.unchanged (s : Store) : Update → Bool
  | updateArtifact seen _ _ => (s.artifactIds.find seen.id).all (s.isArtifact seen)
  | deleteArtifact seen => (s.artifactIds.find seen.id).elim (seen.size = 0) (s.isArtifact seen)
  | updateAttachment seen _ _ => (s.attachmentIds.find seen.id).all (s.isAttachment seen)
  | deleteAttachment seen =>
    (s.attachmentIds.find seen.id).elim (seen.size = 0) (s.isAttachment seen)
  | updateGroup seen growth _ _ =>
    (s.db.groups.find seen.1).all (fun g => g.storageUsed = seen.2.storageUsed) &&
      fits (seen.2.storageUsed + growth)
  | _ => true

def State.unchanged (s : State) : Act Call (Option DbErr) Env → Bool
  | .step i none =>
    match s.next i with
    | some (.update q) => q.unchanged s.shared.txns.committed
    | _ => true
  | _ => true

theorem Write.objects_apply {w : Write} (hw : w.current s) (hk : w.source.kind ≠ .object)
    (v : Store) : (RowWrite.apply w v : Store).objects = v.objects := by
  obtain ⟨source, change⟩ := w
  cases source with
  | touchTask | updateGroup => cases change <;> first | exact hw.elim | rfl
  | _ => exact (hk rfl).elim

theorem objects_applyAll {ws : List Write} (hws : ∀ w ∈ ws, w.current s)
    (hk : ∀ w ∈ ws, w.source.kind ≠ .object) (v : Store) :
    (Txns.applyAll ws v).objects = v.objects := by
  induction ws generalizing v with
  | nil => rfl
  | cons w ws ih =>
    have hrest := ih (fun w' hm => hws w' (.tail _ hm)) (fun w' hm => hk w' (.tail _ hm))
    exact (hrest _).trans (Write.objects_apply (hws w (.head _)) (hk w (.head _)) v)

theorem groups_applyAll {ws : List Write} (hws : ∀ w ∈ ws, w.current s)
    (hk : ∀ w ∈ ws, w.source.kind ≠ .group) (v : Store) :
    (Txns.applyAll ws v).db.groups.find g = v.db.groups.find g := by
  induction ws generalizing v with
  | nil => rfl
  | cons w ws ih =>
    have hrest := ih (fun w' hm => hws w' (.tail _ hm)) (fun w' hm => hk w' (.tail _ hm))
    refine (hrest _).trans (Change.groups_apply ?_)
    intro hg
    exact hk w (.head _) (Write.current_kind (hws w (.head _)) hg).symm

theorem Makes.current {q : Update} (h : Makes m v q c) (hu : q.unchanged s = true)
    (ho : q.kind = .object → v.objects = s.objects)
    (hg : q.kind = .group → ∀ g, v.db.groups.find g = s.db.groups.find g) :
    Write.current ⟨q, c⟩ s := by
  have hids : q.kind = .object → v.artifactIds = s.artifactIds := fun hk =>
    congrArg (fun o => o.2.1) (ho hk)
  have hids' : q.kind = .object → v.attachmentIds = s.attachmentIds := fun hk =>
    congrArg (fun o => o.2.2.2) (ho hk)
  cases h with
  | touchActive | touchArchived => trivial
  | setArtifact hf =>
    rw [Update.unchanged, ← hids rfl, hf] at hu
    exact ⟨rfl, hu⟩
  | addArtifact hf =>
    have hrows : v.db.artifacts = s.db.artifacts := congrArg (fun o => o.1) (ho rfl)
    rw [hrows] at hf
    exact ⟨rfl, rfl, hf⟩
  | noArtifact hf =>
    rw [Update.unchanged, ← hids rfl, hf] at hu
    exact of_decide_eq_true (p := _ = 0) hu
  | dropArtifact hf =>
    rw [Update.unchanged, ← hids rfl, hf] at hu
    exact hu
  | setAttachment hf =>
    rw [Update.unchanged, ← hids' rfl, hf] at hu
    exact ⟨rfl, hu⟩
  | addAttachment hf =>
    have hrows : v.attachments = s.attachments := congrArg (fun o => o.2.2.1) (ho rfl)
    rw [hrows] at hf
    exact ⟨rfl, rfl, hf⟩
  | noAttachment hf =>
    rw [Update.unchanged, ← hids' rfl, hf] at hu
    exact of_decide_eq_true (p := _ = 0) hu
  | dropAttachment hf =>
    rw [Update.unchanged, ← hids' rfl, hf] at hu
    exact hu
  | setStorageUsed hf =>
    rw [hg rfl] at hf
    rw [Update.unchanged, hf, Bool.and_eq_true] at hu
    exact ⟨rfl, rfl, hu.2, _, hf, of_decide_eq_true hu.1⟩

structure Books (x : Txns Store Write) (log : List Event) : Prop where
  opened : ∀ i, (x.opened.find i).map (fun ws => (ws.map Write.source).reverse) =
    txn (history i log)
  guarded : Txns.Guarded Write.current x
  single : ∀ uuid g g', (uuid, g) ∈ x.committed.owners →
    (uuid, g') ∈ x.committed.owners → g = g'
  owned : ∀ key a, x.committed.db.artifacts.find key = some a →
    ∃ g, (key.1, g) ∈ x.committed.owners
  shown : ∀ e ∈ log, ∀ o, owns e.entry = some o → o ∈ x.committed.owners
  asked : ∀ e ∈ log, Asked e.entry
  accounted : x.committed.Accounted

variable {log : List Event}

theorem Books.known (h : Books x log) (i : Nat) : Known (history i log) x.committed := by
  constructor
  · rintro uuid g ⟨e, he, ho⟩
    obtain ⟨k, hm⟩ := mem_history.1 he
    exact h.shown _ hm _ ho
  · intro e he
    obtain ⟨k, hm⟩ := mem_history.1 he
    exact h.asked _ hm
  · exact h.single

theorem opened_concat {opened opened' : Table Nat (List Write)}
    (h : ∀ j, (opened.find j).map (fun ws => (ws.map Write.source).reverse) = txn (history j log))
    (hne : ∀ j, j ≠ i → opened'.find j = opened.find j)
    (hi : (opened'.find i).map (fun ws => (ws.map Write.source).reverse) =
      txn (e :: history i log)) (j : Nat) :
    (opened'.find j).map (fun ws => (ws.map Write.source).reverse) =
      txn (history j (log ++ [⟨i, k, e⟩])) := by
  by_cases hj : j = i
  · subst hj
    rw [history_concat_self]
    exact hi
  · rw [history_concat_ne _ _ _ hj, hne j hj]
    exact h j

theorem shown_concat {s s' : Store} (ho : s'.owners = s.owners)
    (h : ∀ e ∈ log, ∀ o, owns e.entry = some o → o ∈ s.owners)
    (he : ∀ o, owns e = some o → o ∈ s.owners) :
    ∀ e' ∈ log ++ [⟨i, k, e⟩], ∀ o, owns e'.entry = some o → o ∈ s'.owners := by
  intro e' he' o hs
  rw [ho]
  rcases List.mem_append.1 he' with he' | he'
  · exact h e' he' o hs
  · obtain rfl := List.mem_singleton.1 he'
    exact he o hs

theorem asked_concat (h : ∀ e ∈ log, Asked e.entry) (he : Asked e) :
    ∀ e' ∈ log ++ [⟨i, k, e⟩], Asked e'.entry := by
  intro e' he'
  rcases List.mem_append.1 he' with he' | he'
  · exact h e' he'
  · obtain rfl := List.mem_singleton.1 he'
    exact he

theorem Books.keep (h : Books x log)
    (htxn : ∀ K, txn (e :: K) = txn K)
    (ho : ∀ o, owns e = some o → o ∈ x.committed.owners) (ha : Asked e) :
    Books x (log ++ [⟨i, k, e⟩]) := by
  constructor
  · apply opened_concat h.opened
    · intro j _
      rfl
    · rw [htxn]
      exact h.opened i
  · exact h.guarded
  · exact h.single
  · exact h.owned
  · exact shown_concat rfl h.shown ho
  · exact asked_concat h.asked ha
  · exact h.accounted

/-- The open transaction of the session ends without a commit, or starts. -/
theorem Books.reopen (h : Books x log) (hc : x'.committed = x.committed)
    (hg : Txns.Guarded Write.current x')
    (hne : ∀ j, j ≠ i → x'.opened.find j = x.opened.find j)
    (hi : (x'.opened.find i).map (fun ws => (ws.map Write.source).reverse) =
      txn (e :: history i log)) (ho : owns e = none) (ha : Asked e) :
    Books x' (log ++ [⟨i, k, e⟩]) := by
  constructor
  · exact opened_concat h.opened hne hi
  · exact hg
  · rw [hc]
    exact h.single
  · rw [hc]
    exact h.owned
  · rw [hc]
    apply shown_concat rfl h.shown
    intro o hs
    rw [ho] at hs
    cases hs
  · exact asked_concat h.asked ha
  · rw [hc]
    exact h.accounted

theorem mem_owners_active {v : Store} {t : TaskId} (h : v.db.activeTasks.find t = some task) :
    (task.uuid, task.groupId) ∈ v.owners := by
  apply List.mem_append_left
  exact List.mem_map_of_mem (f := fun e : TaskId × ActiveTask => (e.2.uuid, e.2.groupId))
    (Table.mem_rows.2 h)

theorem mem_owners_archived {v : Store} {t : TaskId}
    (h : v.db.archivedTasks.find t = some task) : (task.uuid, task.groupId) ∈ v.owners := by
  apply List.mem_append_right
  exact List.mem_map_of_mem (f := fun e : TaskId × ArchivedTask => (e.2.uuid, e.2.groupId))
    (Table.mem_rows.2 h)

theorem owns_eval (q : Select) (v : Store)
    (h : owns ⟨.select q, .ok (q.eval v)⟩ = some o) : o ∈ v.owners := by
  cases q with
  | db q =>
    cases q with
    | activeByUuid uuid =>
      generalize hx : (Select.db (.activeByUuid uuid)).eval v = x at h
      cases x with
      | none => cases h
      | some e =>
        obtain ⟨t, task⟩ := e
        obtain ⟨⟩ := h
        have hf : v.db.activeTasks.findWhere (fun _ task => task.uuid = uuid) = some (t, task) := hx
        exact mem_owners_active (Table.findWhere_some hf).1
    | archivedByUuid uuid =>
      generalize hx : (Select.db (.archivedByUuid uuid)).eval v = x at h
      cases x with
      | none => cases h
      | some e =>
        obtain ⟨t, task⟩ := e
        obtain ⟨⟩ := h
        have hf : v.db.archivedTasks.findWhere (fun _ task => task.uuid = uuid) = some (t, task) := hx
        exact mem_owners_archived (Table.findWhere_some hf).1
    | task t =>
      generalize hx : (Select.db (.task t)).eval v = x at h
      cases x with
      | none => cases h
      | some task =>
        obtain ⟨⟩ := h
        exact mem_owners_active hx
    | _ => cases h
  | _ => cases h

theorem owns_error (c : Cmd) (e : Error) : owns ⟨c, .error e⟩ = none := by
  cases c with
  | select q =>
    cases q with
    | db q => cases q <;> rfl
    | _ => rfl
  | _ => rfl

theorem asked_error (c : Cmd) (e : Error) : Asked ⟨c, .error e⟩ := by
  cases c with
  | select q => cases q <;> trivial
  | _ => trivial

theorem asked_eval (q : Select) (v : Store) : Asked ⟨.select q, .ok (q.eval v)⟩ := by
  cases q with
  | artifact uuid contentType =>
    generalize hx : (Select.artifact uuid contentType).eval v = x
    cases x with
    | none => trivial
    | some seen =>
      obtain ⟨e, -, he⟩ := List.exists_of_findSome?_eq_some hx
      split at he
      next hk =>
        obtain ⟨a, -, rfl⟩ := Option.map_eq_some_iff.1 he
        exact congrArg Prod.fst hk
      next => cases he
  | attachment groupId key =>
    generalize hx : (Select.attachment groupId key).eval v = x
    cases x with
    | none => trivial
    | some seen =>
      obtain ⟨e, -, he⟩ := List.exists_of_findSome?_eq_some hx
      split at he
      next hk =>
        obtain ⟨a, -, rfl⟩ := Option.map_eq_some_iff.1 he
        exact congrArg Prod.fst hk
      next => cases he
  | _ => trivial

theorem Books.writes (h : Books x log) (ht : txn (history i log) = some us) :
    ∃ ws, x.opened.find i = some ws ∧ (ws.map Write.source).reverse = us ∧
      x.view i = Txns.applyAll ws x.committed ∧
      ∀ w ∈ ws, w.current x.committed := by
  have hi := h.opened i
  rw [ht] at hi
  obtain ⟨ws, hw, hu⟩ := Option.map_eq_some_iff.1 hi
  refine ⟨ws, hw, hu, ?_, fun w hm => h.guarded.current i ws w hw hm⟩
  rw [Txns.view, hw, Option.getD_some]

theorem view_owners (x : Txns Store Write) (i : Nat) :
    (x.view i).owners = x.committed.owners := owners_applyAll _ _

theorem Books.update {q : Update} (h : Books x log) (hn : Cmd.sourced (history i log) (.update q))
    (hu : q.unchanged x.committed = true)
    (hx : x.execute i (q.answer m) = some (r, x')) :
    Books x' (log ++ [⟨i, k, .update q, r⟩]) := by
  obtain ⟨us, ht, hk⟩ := hn
  obtain ⟨ws, hw, rfl, hv, hc⟩ := h.writes ht
  have hkinds : ∀ w ∈ ws, w.source.kind ≠ q.kind := by
    intro w hm
    exact hk _ (List.mem_reverse.2 (List.mem_map_of_mem hm))
  obtain ⟨hl, ⟨e, rfl, -, rfl⟩ | ⟨a, new, rfl, hq, rfl⟩⟩ := Txns.execute_cases hx
  · apply h.keep
    · intro K
      rfl
    · intro o ho
      cases ho
    · trivial
  · obtain ⟨c, rfl, hwaits, hmakes⟩ := Update.makes_of_answer hq
    have hcur : Write.current ⟨q, c⟩ x.committed := by
      apply hmakes.current hu
      · intro ho
        rw [hv]
        exact objects_applyAll hc (ho ▸ hkinds) _
      · intro hg g
        rw [hv]
        exact groups_applyAll hc (hg ▸ hkinds) _
    have hwrite : x.write i [⟨q, c⟩] =
        { x with opened := x.opened.set i (ws ++ [⟨q, c⟩]) } := by
      rw [Txns.write, hw]
    apply h.reopen
    · rw [hwrite]
    · apply Txns.Guarded.write Write.current_apply h.guarded hl
      · intro w hm k hr
        obtain rfl := List.mem_singleton.1 hm
        rw [hwaits]
        exact hr
      · intro _ w hm
        obtain rfl := List.mem_singleton.1 hm
        exact hcur
    · intro j hj
      rw [hwrite]
      exact Table.find_set_ne _ _ hj
    · rw [hwrite]
      simp only [Table.find_set_self, Option.map_some, List.map_append, List.map_singleton,
        List.reverse_append, List.reverse_singleton, List.singleton_append, txn, ht]
    · rfl
    · trivial

theorem Moves.owned (h : Moves K us) (hu : .insertArtifact uuid contentType size time ∈ us) :
    ∃ g, Owned K uuid g := by
  cases h with
  | upload hz _ hrest =>
    rcases List.mem_cons.1 hu with hu | hu
    · cases hu
    · rcases List.mem_cons.1 hu with hu | hu
      · subst hu
        cases hz with
        | insertArtifact ho => exact ⟨_, ho⟩
      · cases hrest _ hu
  | release hz =>
    rcases List.mem_cons.1 hu with hu | hu
    · subst hu
      cases hz with
      | insertArtifact ho => exact ⟨_, ho⟩
    · cases List.mem_singleton.1 hu

theorem Write.artifacts_apply {w : Write} (hw : w.current s)
    (hf : (RowWrite.apply w v : Store).db.artifacts.find key = some a) :
    (∃ a, v.db.artifacts.find key = some a) ∨
      ∃ contentType size time, w.source = .insertArtifact key.1 contentType size time := by
  obtain ⟨source, change⟩ := w
  cases change with
  | setArtifact key' size' time =>
    left
    change (v.db.artifacts.update key' _).find key = some a at hf
    rw [Table.find_update] at hf
    split at hf
    next =>
      obtain ⟨a', ha, -⟩ := Option.map_eq_some_iff.1 hf
      exact ⟨a', ha⟩
    next => exact ⟨a, hf⟩
  | addArtifact new key' a' =>
    change (v.db.artifacts.set key' a').find key = some a at hf
    rw [Table.find_set] at hf
    split at hf
    next hk =>
      subst hk
      right
      cases source with
      | insertArtifact =>
        obtain ⟨rfl, -, -⟩ := hw
        exact ⟨_, _, _, rfl⟩
      | _ => exact hw.elim
    next => exact .inl ⟨a, hf⟩
  | dropArtifact old key' =>
    left
    change (v.db.artifacts.erase key').find key = some a at hf
    rw [Table.find_erase] at hf
    split at hf
    next => cases hf
    next => exact ⟨a, hf⟩
  | _ => exact .inl ⟨a, hf⟩

theorem artifacts_applyAll {ws : List Write} (hws : ∀ w ∈ ws, w.current s)
    (hf : (Txns.applyAll ws v).db.artifacts.find key = some a) :
    (∃ a, v.db.artifacts.find key = some a) ∨
      ∃ w ∈ ws, ∃ contentType size time, w.source = .insertArtifact key.1 contentType size time := by
  induction ws generalizing v with
  | nil => exact .inl ⟨a, hf⟩
  | cons w ws ih =>
    rcases ih (fun w' hm => hws w' (.tail _ hm)) hf with ⟨a', ha⟩ | ⟨w', hm, hw'⟩
    · rcases Write.artifacts_apply (hws w (.head _)) ha with hv | hw
      · exact .inl hv
      · exact .inr ⟨w, .head _, hw⟩
    · exact .inr ⟨w', .tail _ hm, hw'⟩

theorem Books.commit (h : Books x log) (hn : Cmd.sourced (history i log) .commit) :
    Books (x.commit i) (log ++ [⟨i, k, .commit, .ok ()⟩]) := by
  obtain ⟨us, ht, hm⟩ := hn
  obtain ⟨ws, hw, rfl, hv, hc⟩ := h.writes ht
  constructor
  · apply opened_concat h.opened
    · intro j hj
      exact Table.find_erase_ne _ hj
    · simp only [Txns.commit, Table.find_erase_self]
      rfl
  · exact Txns.Guarded.commit Write.current_apply h.guarded i
  · simp only [Txns.commit, view_owners]
    exact h.single
  · intro key a ha
    simp only [Txns.commit, view_owners]
    simp only [Txns.commit, hv] at ha
    rcases artifacts_applyAll hc ha with ⟨a', ha'⟩ | ⟨w, hwm, contentType, size, time, hs⟩
    · exact h.owned key a' ha'
    · have hus : .insertArtifact key.1 contentType size time ∈ (ws.map Write.source).reverse := by
        rw [← hs]
        exact List.mem_reverse.2 (List.mem_map_of_mem hwm)
      obtain ⟨g, hg⟩ := hm.owned hus
      exact ⟨g, (h.known i).owned _ _ hg⟩
  · apply shown_concat (view_owners x i) h.shown
    intro o ho
    cases ho
  · exact asked_concat h.asked trivial
  · apply Store.accounted_iff.2
    intro g n hn
    simp only [Txns.commit, hv] at hn
    rw [surplus_applyAll (h.known i) hm hc] at hn
    exact Store.accounted_iff.1 h.accounted g n hn

theorem Write.current_congr {w : Write} (ha : s'.db.artifacts = s.db.artifacts)
    (ht : s'.attachments = s.attachments) (hg : s'.db.groups = s.db.groups) (hw : w.current s) :
    w.current s' := by
  have ha' : ∀ seen key, s'.isArtifact seen key = s.isArtifact seen key :=
    fun seen key => Store.isArtifact_congr (by rw [ha])
  have ht' : ∀ seen key, s'.isAttachment seen key = s.isAttachment seen key :=
    fun seen key => Store.isAttachment_congr (by rw [ht])
  unfold Write.current at hw ⊢
  simp only [ha', ht', ha, ht, hg]
  exact hw

theorem Books.changeTasks {s : Store} (h : Books x log)
    (ha : s.db.artifacts = x.committed.db.artifacts)
    (ht : s.attachments = x.committed.attachments) (hg : s.db.groups = x.committed.db.groups)
    (ho : x.committed.owners ⊆ s.owners)
    (hs : ∀ uuid g g', (uuid, g) ∈ s.owners → (uuid, g') ∈ s.owners → g = g') :
    Books { x with committed := s } log := by
  constructor
  · exact h.opened
  · apply h.guarded.commits
    intro i ws w _ _ hw
    exact Write.current_congr ha ht hg hw
  · exact hs
  · intro key a hf
    rw [ha] at hf
    obtain ⟨g, hm⟩ := h.owned key a hf
    exact ⟨g, ho hm⟩
  · intro e he o hso
    exact ho (h.shown e he o hso)
  · exact h.asked
  · intro g row hr
    rw [hg] at hr
    rw [h.accounted g row hr]
    unfold Store.usage
    rw [ht, ha]
    congr 1
    apply Table.total_congr
    intro key a hf
    have hiff : (key.1, g) ∈ x.committed.owners ↔ (key.1, g) ∈ s.owners := by
      constructor
      · exact fun hm => ho hm
      · intro hm
        obtain ⟨g', hg'⟩ := h.owned key a hf
        rw [hs _ _ _ hm (ho hg')]
        exact hg'
    simp only [hiff]

theorem single_of_pairwise {l : List (Uuid × GroupId)}
    (h : l.Pairwise fun o o' => o.1 = o'.1 → o.2 = o'.2) (hg : (uuid, g) ∈ l)
    (hg' : (uuid, g') ∈ l) : g = g' := by
  induction h with
  | nil => cases hg
  | @cons o l ho _ ih =>
    rcases List.mem_cons.1 hg with rfl | hm
    · rcases List.mem_cons.1 hg' with he | hm'
      · exact (Prod.mk.inj he).2.symm
      · exact ho _ hm' rfl
    · rcases List.mem_cons.1 hg' with rfl | hm'
      · exact (ho _ hm rfl).symm
      · exact ih hm hm'

theorem Books.env {x : Infra} {e : Env} (h : Books x.txns log) (hx : e.run x = some x') :
    Books x'.txns log := by
  cases e with
  | tick =>
    obtain ⟨⟩ := hx
    exact h
  | roles userGroup =>
    obtain ⟨⟩ := hx
    apply Books.changeTasks h
    · rfl
    · rfl
    · rfl
    · exact List.Subset.refl _
    · exact h.single
  | tasks activeTasks archivedTasks =>
    simp only [Env.run] at hx
    split at hx
    next hc =>
      obtain ⟨⟩ := hx
      apply Books.changeTasks h
      · rfl
      · rfl
      · rfl
      · exact hc.1
      · intro uuid g g' hg hg'
        exact single_of_pairwise hc.2 hg hg'
    next => cases hx

theorem Books.exec {x : Infra} {c : Cmd} {r : c.Resp} (h : Books x.txns log)
    (hn : c.sourced (history i log))
    (hu : ∀ q, c = .update q → fault = none → q.unchanged x.txns.committed = true)
    (hx : Cmd.exec i fault x c = some (r, x')) : Books x'.txns (log ++ [⟨i, k, c, r⟩]) := by
  cases c with
  | select q =>
    cases fault with
    | some e =>
      obtain ⟨⟩ := hx
      apply h.keep
      · intro K
        rfl
      · intro o ho
        rw [owns_error] at ho
        cases ho
      · exact asked_error _ _
    | none =>
      obtain ⟨⟩ := hx
      apply h.keep
      · intro K
        rfl
      · intro o ho
        rw [← view_owners _ i]
        exact owns_eval q _ ho
      · exact asked_eval q _
  | update q =>
    cases fault with
    | some e =>
      obtain ⟨⟩ := hx
      apply h.keep
      · intro K
        rfl
      · intro o ho
        cases ho
      · trivial
    | none =>
      obtain ⟨⟨r, txns⟩, hr, he⟩ := Option.map_eq_some_iff.1 hx
      obtain ⟨⟩ := he
      exact h.update hn (hu q rfl rfl) hr
  | start =>
    cases fault with
    | some e =>
      obtain ⟨⟩ := hx
      apply h.keep
      · intro K
        rfl
      · intro o ho
        cases ho
      · trivial
    | none =>
      obtain ⟨⟩ := hx
      apply h.reopen
      · rfl
      · exact h.guarded.start i
      · intro j hj
        exact Table.find_set_ne _ _ hj
      · simp only [Txns.start, Table.find_set_self]
        rfl
      · rfl
      · trivial
  | commit =>
    cases fault with
    | some e =>
      obtain ⟨⟩ := hx
      apply h.reopen
      · rfl
      · exact h.guarded.erase i
      · intro j hj
        exact Table.find_erase_ne _ hj
      · simp only [Txns.rollback, Table.find_erase_self]
        rfl
      · rfl
      · trivial
    | none =>
      obtain ⟨⟩ := hx
      exact h.commit hn
  | rollback =>
    obtain ⟨⟩ := hx
    apply h.reopen
    · rfl
    · exact h.guarded.erase i
    · intro j hj
      exact Table.find_erase_ne _ hj
    · simp only [Txns.rollback, Table.find_erase_self]
      rfl
    · rfl
    · trivial
  | _ =>
    have hx' : x' = x := by
      cases fault <;> cases hx <;> rfl
    subst hx'
    apply h.keep
    · intro K
      rfl
    · intro o ho
      cases ho
    · trivial

/-- Every task is in one group, and every artifact is of a task. -/
structure Store.Consistent (s : Store) : Prop where
  single : ∀ uuid g g', (uuid, g) ∈ s.owners → (uuid, g') ∈ s.owners → g = g'
  owned : ∀ key a, s.db.artifacts.find key = some a → ∃ g, (key.1, g) ∈ s.owners

theorem Store.Consistent.books {s : Store} (h : s.Consistent) (ha : s.Accounted) :
    Books ⟨s, .empty⟩ [] := by
  constructor
  · intro i
    rfl
  · exact Txns.Guarded.initial s
  · exact h.single
  · exact h.owned
  · intro e he
    cases he
  · intro e he
    cases he
  · exact ha

/-- The books are right in every state of a run in which no write is made from what another
session has changed meanwhile. -/
theorem accounted_of_unchanged (s₀ : Store) (nextId : Nat) (clock : Instant)
    (as : List (Act Call (Option DbErr) Env)) (s : State) (h₀ : s₀.Consistent)
    (ha : s₀.Accounted)
    (hp : Path (step system) (fun s a => State.unchanged s a = true) (initial s₀ nextId clock) as s) :
    s.shared.txns.committed.Accounted := by
  have hb : Books s.shared.txns s.log := by
    apply log_invariant (P := fun x log => Books x.txns log) program_sourced _ hp rfl rfl
      (h₀.books ha)
    · intro e x x' log h hx
      exact h.env hx
    · intro s i k fault c p r x _ hok hi hn hx h
      apply h.exec hn _ hx
      rintro q rfl rfl
      have hnext : s.next i = some (.update q) := by
        rw [next, hi]
        rfl
      simp only [State.unchanged, hnext] at hok
      exact hok
    · intro k K he
      exact he.elim
  exact hb.accounted

namespace Demo

def startUpload (i : Nat) (contentType : ArtifactContentType) (contentLength : Nat) :
    List (Act Call (Option DbErr) Env) :=
  .call (.userUploadArtifact 1 7 contentType contentLength) :: steps i 4

def delete (i : Nat) (contentType : ArtifactContentType) : List (Act Call (Option DbErr) Env) :=
  .call (.adminDeleteArtifact 7 contentType) :: steps i 10

def miscounted (s : State) (used usage : Int) : Bool :=
  (s.shared.txns.committed.db.groups.find 1).any (fun row => row.storageUsed = used) &&
    s.shared.txns.committed.usage 1 = usage

theorem not_accounted {s : State} (h : miscounted s used usage = true) (hne : used ≠ usage) :
    ¬s.shared.txns.committed.Accounted := by
  intro ha
  rw [miscounted, Bool.and_eq_true, Option.any_eq_true] at h
  obtain ⟨⟨row, hr, hu⟩, hs⟩ := h
  apply hne
  rw [← of_decide_eq_true hu, ← of_decide_eq_true hs]
  exact ha 1 row hr

theorem store_consistent : store.Consistent := by
  constructor
  · intro uuid g g' hg hg'
    have ho : store.owners = [(7, 1)] := rfl
    rw [ho, List.mem_singleton] at hg hg'
    obtain ⟨⟩ := hg
    obtain ⟨⟩ := hg'
    rfl
  · intro key a ha
    have hn : store.db.artifacts.find key = none := rfl
    rw [hn] at ha
    cases ha

theorem store_accounted : store.Accounted := by
  intro g row hr
  have hu : store.usage g = 0 := rfl
  simp only [store, Table.find_set, Table.find_empty] at hr
  split at hr
  next =>
    obtain ⟨⟩ := hr
    exact hu.symm
  next => cases hr

end Demo

open Demo in
/-- An upload and the deletion of what it has uploaded. -/
theorem upload_delete_accounted : ∃ s, Path (step system)
    (fun s a => State.unchanged s a = true) (initial Demo.store 1 0)
    (startUpload 0 .result 100 ++ steps 0 7 ++ delete 1 .result) s ∧
      s.shared.txns.committed.Accounted := by
  have hrun : (Path.follow (step system) State.unchanged (initial Demo.store 1 0)
      (startUpload 0 .result 100 ++ steps 0 7 ++ delete 1 .result)).isSome = true := by decide
  obtain ⟨s, hf⟩ := Option.isSome_iff_exists.1 hrun
  have hp := Path.of_follow hf
  exact ⟨s, hp, accounted_of_unchanged _ 1 0 _ s store_consistent store_accounted hp⟩

open Demo in
/-- Two uploads to one group both read its `storage_used` before either writes it. -/
theorem concurrent_uploads_miscount : store.Accounted ∧ ∃ s, Path (step system)
    (fun _ _ => True) (initial Demo.store 1 0)
    (startUpload 0 .result 100 ++ startUpload 1 .execLog 50 ++ steps 1 7 ++ steps 0 7) s ∧
      s.quiescent = true ∧ ¬s.shared.txns.committed.Accounted := by
  refine ⟨store_accounted, ?_⟩
  have hrun : (Path.follow (step system) (fun _ _ => true) (initial Demo.store 1 0)
      (startUpload 0 .result 100 ++ startUpload 1 .execLog 50 ++ steps 1 7 ++ steps 0 7)).any
        (fun s => s.quiescent && miscounted s 100 150) = true := by decide
  obtain ⟨s, hp, hs⟩ := Path.of_follow_any hrun
  rw [Bool.and_eq_true] at hs
  exact ⟨s, hp.mono fun _ _ _ => trivial, hs.1, not_accounted hs.2 (by decide)⟩

end Storage
end Mitosis
