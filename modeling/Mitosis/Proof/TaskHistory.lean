import Mitosis.Lib.Keeps
import Mitosis.Service.Tasks

namespace Mitosis
set_option autoImplicit true

namespace Tasks
open Sessions
export Sessions (history history_concat_self history_concat_ne mem_history log_invariant
  traced_of_path)

abbrev Event : Type := Sent Cmd Cmd.Resp Call

abbrev History : Type := Fallible.History Cmd Cmd.Ret Error

/-- What a statement that has answered has written. -/
def Cmd.writes : (c : Cmd) → c.Resp → List Write
  | .addTaskCount _ time, .ok (some (id, _)) => [.addCount id time]
  | .insertTask _, .ok (id, task) => [.addActive id task]
  | .change id c time, .ok _ => [.change id c time]
  | .changeArchived id c time, .ok _ => [.changeArchived id c time]
  | .assignTask workerId id time, .ok (some _) => [.change id (.assign workerId) time]
  | .pushBackTasks _ time, .ok rows => rows.map fun e => .change e.1 .pushBack time
  | .insertArchived id task, .ok _ => [.addArchived id task]
  | .deleteActive id, .ok _ => [.dropActive id]
  | .archiveTasks _ _, .ok rows => [.archive rows]
  | .updateWorker id c, .ok _ => [.setWorker id c]
  | .deleteWorkers _, .ok ids => [.dropWorkers ids]
  | .retireWorkers _ time, .ok ids => ids.map fun id => .setWorker id (.retire time)
  | _, _ => []

/-- What the open transaction of a session has written, latest first. -/
def txn : History → Option (List Write)
  | [] => none
  | ⟨.start, .ok _⟩ :: _ => some []
  | ⟨.commit, _⟩ :: _ => none
  | ⟨.rollback, _⟩ :: _ => none
  | ⟨c, r⟩ :: K => (txn K).map ((c.writes r).reverse ++ ·)

/-- The number that a session has drawn for its next task. -/
def drawn : History → Option (GroupId × Int)
  | [] => none
  | ⟨.addTaskCount _ _, .ok (some (id, group))⟩ :: _ => some (id, group.taskCount)
  | ⟨.insertTask _, _⟩ :: _ => none
  | _ :: K => drawn K

/-- The uuid that a session has drawn for its next task. -/
def fresh : History → Option Uuid
  | [] => none
  | ⟨.newUuid, .ok uuid⟩ :: _ => some uuid
  | ⟨.insertTask _, _⟩ :: _ => none
  | _ :: K => fresh K

/-- A number has been drawn for a task that cannot be inserted. -/
def spoils (e : Entry Cmd Cmd.Resp) : Prop :=
  match e with
  | ⟨.addTaskCount req _, .ok (some _)⟩ => checkTaskSpec req.taskSpec ≠ .ok ()
  | ⟨.newUuid, .error _⟩ => True
  | _ => False

/-- The session has no number at hand, or never will use it. -/
def Settled (K : History) : Prop := drawn K = none ∨ ∃ e ∈ K, spoils e

def Read (K : History) (id : TaskId) (task : ActiveTask) : Prop :=
  ⟨.select (.task id), .ok (some task)⟩ ∈ K ∨
    ∃ uuid, ⟨.readyTask uuid, .ok (some (id, task))⟩ ∈ K

def Copied (K : History) (id : TaskId) (row : ArchivedTask) : Prop :=
  ∃ task, Read K id task ∧ ((∃ time, row = Db.cancelledTask time task) ∨
    ∃ w res wu time, row = Mitosis.Service.committedTask task res wu time ∧
      task.assignedWorker = some w ∧ (task.state = .finished ∨ task.state = .cancelled))

def Write.plain : Write → Prop
  | .change _ _ _ | .changeArchived _ _ _ | .setWorker _ _ | .dropWorkers _ => True
  | _ => False

/-- What a transaction may have written when it commits, latest first. -/
def Batch (K : History) (ws : List Write) : Prop :=
  (∀ w ∈ ws, w.plain) ∨ (∃ tasks, ws = [.archive tasks]) ∨
    ∃ id row rest, ws = rest ++ [.dropActive id, .addArchived id row] ∧ (∀ w ∈ rest, w.plain) ∧
      Copied K id row

def relabels : List Write → Option (TaskId × List String)
  | [.change id (.labels labels) _] => some (id, labels)
  | [.changeArchived id (.labels labels) _] => some (id, labels)
  | _ => none

def Relabelled (uuid : Uuid) (labels : List String) (K : History) : Prop :=
  ∃ id ws, txn K = some ws ∧ relabels ws = some (id, labels) ∧
    ((∃ task, ⟨.select (.activeByUuid uuid), .ok (some (id, task))⟩ ∈ K) ∨
      ∃ task, ⟨.select (.archivedByUuid uuid), .ok (some (id, task))⟩ ∈ K)

/-- The changes that users make, in transactions. -/
def Change.edits : Change → Prop
  | .labels _ | .columns _ => True
  | _ => False

def Idle (K : History) : Prop := txn K = none ∧ Settled K

def Cmd.sourced (K : History) : Cmd → Prop
  | .select _ | .tasks _ | .readyTask _ | .administeredWorkers _ _ => (txn K).getD [] = []
  | .start => txn K = none
  | .commit => ∃ ws, txn K = some ws ∧ Batch K ws
  | .addTaskCount _ _ => Idle K
  | .insertTask task =>
    txn K = none ∧ drawn K = some (task.groupId, task.taskId) ∧ fresh K = some task.uuid
  | .change _ c _ => (txn K).getD [] = [] ∧ (c.edits → txn K = some [])
  | .changeArchived _ _ _ => txn K = some []
  | .assignTask _ _ _ => txn K = none
  | .pushBackTasks _ _ => txn K = some []
  | .insertArchived id row => txn K = some [] ∧ Copied K id row
  | .deleteActive id => ∃ row, txn K = some [.addArchived id row] ∧ Copied K id row
  | .archiveTasks _ _ => txn K = some []
  | _ => True

/-- In a transaction that has written nothing. -/
def Begun (K : History) : Prop := txn K = some [] ∧ Settled K

theorem Settled.cons {e : Entry Cmd Cmd.Resp} (h : Settled K)
    (hd : drawn (e :: K) = drawn K := by rfl) : Settled (e :: K) := by
  rcases h with h | ⟨e', he, hs⟩
  · exact .inl (hd.trans h)
  · exact .inr ⟨e', .tail _ he, hs⟩

theorem Idle.cons {e : Entry Cmd Cmd.Resp} (h : Idle K) (ht : txn (e :: K) = none)
    (hd : drawn (e :: K) = drawn K) : Idle (e :: K) := ⟨ht, h.2.cons hd⟩

/-- The commands that a session may issue at any time outside transactions. -/
def Cmd.simple : Cmd → Prop
  | .change _ c _ => ¬c.edits
  | .start | .commit | .rollback | .addTaskCount _ _ | .insertTask _ | .changeArchived _ _ _
  | .pushBackTasks _ _ | .insertArchived _ _ | .deleteActive _ | .archiveTasks _ _ => False
  | _ => True

def Cmd.reads : Cmd → Prop
  | .select _ | .tasks _ | .readyTask _ | .administeredWorkers _ _ | .now => True
  | _ => False

theorem plain_cons {w : Write} (hw : w.plain) (h : ∀ w ∈ ws, w.plain) :
    ∀ w' ∈ w :: ws, w'.plain := by
  intro w' hm
  rcases List.mem_cons.1 hm with rfl | hm
  · exact hw
  · exact h w' hm

theorem plain_append {ws ws' : List Write} (h : ∀ w ∈ ws, w.plain) (h' : ∀ w ∈ ws', w.plain) :
    ∀ w ∈ ws ++ ws', w.plain := by
  intro w hm
  rcases List.mem_append.1 hm with hm | hm
  · exact h w hm
  · exact h' w hm

theorem plain_map {f : α → Write} (l : List α) (hf : ∀ a, (f a).plain := by exact fun _ => trivial) :
    ∀ w ∈ (l.map f).reverse, w.plain := by
  intro w hm
  obtain ⟨a, -, rfl⟩ := List.mem_map.1 (List.mem_reverse.1 hm)
  exact hf a

theorem Read.mono {id : TaskId} (h : Read K id task) (hK : K ⊆ K') : Read K' id task := by
  rcases h with h | ⟨uuid, h⟩
  · exact .inl (hK h)
  · exact .inr ⟨uuid, hK h⟩

theorem Copied.cons {id : TaskId} (h : Copied K id row) (e : Entry Cmd Cmd.Resp) :
    Copied (e :: K) id row := by
  obtain ⟨task, hr, hrow⟩ := h
  exact ⟨task, hr.mono (List.subset_cons_self _ _), hrow⟩

namespace Service
open Fallible (Keeps knows_issue_bind knows_okOr_bind knows_ofExcept_bind)

theorem keeps_simple {c : Cmd} (hc : c.simple) : Keeps Cmd.sourced Idle (issue c) := by
  apply Keeps.issue
  intro K h
  have hmap : ∀ f : List Write → List Write, (txn K).map f = none := by
    intro f
    rw [h.1, Option.map_none]
  have hget : (txn K).getD [] = [] := by rw [h.1, Option.getD_none]
  cases c with
  | select | tasks | readyTask | administeredWorkers =>
    exact ⟨hget, fun r => h.cons (hmap _) rfl⟩
  | assignTask => exact ⟨h.1, fun r => h.cons (hmap _) rfl⟩
  | change => exact ⟨⟨hget, fun hr => (hc hr).elim⟩, fun r => h.cons (hmap _) rfl⟩
  | start | commit | rollback | addTaskCount | insertTask | changeArchived | pushBackTasks
  | insertArchived | deleteActive | archiveTasks => exact hc.elim
  | _ => exact ⟨trivial, fun r => h.cons (hmap _) rfl⟩

theorem keeps_sent {c : Cmd} (hc : c.simple) (msg : String) :
    Keeps Cmd.sourced Idle (sent c msg) := by
  unfold sent
  apply (keeps_simple hc).attempt.bind
  rintro (e | r)
  · exact .fail _
  · exact .pure _

theorem keeps_select (q : Select) : Keeps Cmd.sourced Idle (select q) := keeps_simple trivial

theorem keeps_batchAddTask (test : RoleTest) (id : TaskId) (task : ActiveTask) (msg : String) :
    Keeps Cmd.sourced Idle (batchAddTask test id task msg) :=
  (keeps_select _).bind fun _ => keeps_sent (c := .sendTask _) trivial _

/-- What the body of a transaction has done that may commit, where `Q` is. -/
def Written (Q : History → α → Prop) (K : History) (r : Except Error α) : Prop :=
  Settled K ∧ ∀ a, r = .ok a → Cmd.commit.sourced K ∧ Q K a

theorem written_error {Q : History → α → Prop} (h : Settled K) (e : Error) :
    Written Q K (.error e) := by
  constructor
  · exact h
  · intro a ha
    cases ha

theorem written_ok {Q : History → α → Prop} (h : Settled K) (ht : txn K = some ws)
    (hb : Batch K ws) (hq : Q K a) : Written Q K (.ok a) := by
  constructor
  · exact h
  · intro b hb'
    obtain rfl := Except.ok.inj hb'
    exact ⟨⟨ws, ht, hb⟩, hq⟩

def Committed (Q : History → α → Prop) (K : History) (r : Except Error α) : Prop :=
  Idle K ∧ ∀ a, r = .ok a → ∃ K', K = ⟨.commit, .ok ()⟩ :: K' ∧ Q K' a

theorem committed_error {Q : History → α → Prop} (h : Idle K) (e : Error) :
    Committed Q K (.error e) := by
  constructor
  · exact h
  · intro a ha
    cases ha

theorem transaction_sourced {p : Service α} {Q : History → α → Prop} (h : Idle K)
    (hp : ∀ K', K ⊆ K' → Begun K' → Fallible.Knows Cmd.sourced K' p (Written Q)) :
    Fallible.Knows Cmd.sourced K (transaction p) (Committed Q) := by
  unfold transaction Fallible.transaction
  apply (knows_issue_bind _ _).2
  refine ⟨h.1, ?_, ?_⟩
  · rintro ⟨⟩
    rw [Fallible.knows_bind, Fallible.knows_attempt]
    apply (hp _ (List.subset_cons_self _ _) ⟨rfl, h.2.cons⟩).mono
    rintro K₁ (e | a) ⟨hs, hr⟩
    · apply (knows_issue_bind _ _).2
      refine ⟨trivial, ?_, ?_⟩
      · intro _
        exact committed_error ⟨rfl, hs.cons⟩ e
      · intro _
        exact committed_error ⟨rfl, hs.cons⟩ _
    · obtain ⟨hc, hq⟩ := hr a rfl
      apply (knows_issue_bind _ _).2
      refine ⟨hc, ?_, ?_⟩
      · rintro ⟨⟩
        refine ⟨⟨rfl, hs.cons⟩, ?_⟩
        intro b hb
        obtain rfl := Except.ok.inj hb
        exact ⟨K₁, rfl, hq⟩
      · intro _
        exact committed_error ⟨rfl, hs.cons⟩ _
  · intro e
    apply committed_error
    exact h.cons (congrArg (Option.map _) h.1) rfl

/-- A transaction of which nothing is asked but that it may commit. -/
theorem keeps_transaction {p : Service α}
    (hp : ∀ K', Begun K' → Fallible.Knows Cmd.sourced K' p (Written fun _ _ => True)) :
    Keeps Cmd.sourced Idle (transaction p) := by
  intro K h
  apply (transaction_sourced h fun K' _ => hp K').mono
  exact fun _ _ h => h.1

theorem keeps_reads {c : Cmd} (hc : c.reads) : Keeps Cmd.sourced Begun (issue c) := by
  apply Keeps.issue
  intro K h
  have hmap : (txn K).map ([] ++ ·) = some [] := by rw [h.1, Option.map_some, List.nil_append]
  have hget : (txn K).getD [] = [] := by rw [h.1, Option.getD_some]
  cases c with
  | select | tasks | readyTask | administeredWorkers =>
    refine ⟨hget, fun r => ⟨?_, h.2.cons⟩⟩
    cases r <;> exact hmap
  | now =>
    refine ⟨trivial, fun r => ⟨?_, h.2.cons⟩⟩
    cases r <;> exact hmap
  | _ => exact hc.elim

theorem begun_select (q : Select) : Keeps Cmd.sourced Begun (select q) := keeps_reads trivial

theorem begun_ready (uuid : Uuid) : Keeps Cmd.sourced Begun (issue (.readyTask uuid)) :=
  keeps_reads trivial

theorem begun_now : Keeps Cmd.sourced Begun (issue .now) := keeps_reads trivial

theorem begun_checkWriter (userId : UserId) (groupId : GroupId) :
    Keeps Cmd.sourced Begun (checkWriter userId groupId) := by
  unfold checkWriter
  apply (begun_select _).bind
  intro role
  apply (Keeps.okOr _ _).bind
  intro role
  exact .ite _ (.fail _) (.pure _)

theorem txn_cons {c : Cmd} (h : txn K = some us) (r : c.Resp) (ht : txn (⟨c, r⟩ :: K) =
    (txn K).map ((c.writes r).reverse ++ ·) := by rfl) :
    txn (⟨c, r⟩ :: K) = some ((c.writes r).reverse ++ us) := by rw [ht, h, Option.map_some]

theorem changeReady_sourced (h : Begun K) : Fallible.Knows Cmd.sourced K
    (changeReady userId uuid req) (Written fun _ _ => True) := by
  have herr : ∀ (K : History) (e : Error), Begun K →
      Written (α := TaskId × ActiveTask) (fun _ _ => True) K (.error e) :=
    fun _ e hK => written_error hK.2 e
  unfold changeReady
  apply (begun_ready _).andThen h _ herr
  intro K₁ task hK₁ h₁
  apply (Keeps.okOr _ _).andThen h₁ _ herr
  rintro K₂ ⟨id, task⟩ hK₂ h₂
  apply (begun_checkWriter _ _).andThen h₂ _ herr
  intro K₃ _ hK₃ h₃
  apply begun_now.andThen h₃ _ herr
  intro K₄ time hK₄ h₄
  apply (Keeps.ofExcept _).andThen h₄ _ herr
  intro K₅ _ hK₅ h₅
  apply (knows_issue_bind _ _).2
  refine ⟨⟨by rw [h₅.1, Option.getD_some], fun _ => h₅.1⟩, ?_, ?_⟩
  · intro row
    apply (Fallible.knows_pure _).2
    apply written_ok h₅.2.cons (txn_cons h₅.1 (.ok row)) (.inl _) trivial
    intro w hw
    obtain rfl := List.mem_singleton.1 hw
    trivial
  · intro e
    exact written_error h₅.2.cons e

theorem begun_of_read {c : Cmd} (h : Begun K) (r : c.Resp) (hc : c.reads := by trivial) :
    Begun (⟨c, r⟩ :: K) := ((keeps_reads hc) K h).2 r

theorem changeLabels_sourced (h : Begun K) : Fallible.Knows Cmd.sourced K
    (changeLabels userId uuid labels) (Written fun K _ => Relabelled uuid labels K) := by
  have herr : ∀ (K : History) (e : Error), Begun K →
      Written (fun K (_ : Unit) => Relabelled uuid labels K) K (.error e) :=
    fun _ e hK => written_error hK.2 e
  have hget : ∀ K : History, Begun K → (txn K).getD [] = [] := by
    intro K hK
    rw [hK.1, Option.getD_some]
  unfold changeLabels
  apply (knows_issue_bind _ _).2
  refine ⟨hget K h, ?_, fun e => herr _ e (begun_of_read h _)⟩
  intro found
  have h₁ : Begun (⟨.select (.activeByUuid uuid), .ok found⟩ :: K) := begun_of_read h _
  cases found with
  | some found =>
    obtain ⟨id, task⟩ := found
    apply (begun_checkWriter _ _).andThen h₁ _ herr
    intro K₂ _ hK₂ h₂
    apply begun_now.andThen h₂ _ herr
    intro K₃ time hK₃ h₃
    apply (knows_issue_bind _ _).2
    refine ⟨⟨hget K₃ h₃, fun _ => h₃.1⟩, ?_, fun e => written_error h₃.2.cons e⟩
    intro row
    have ht := txn_cons h₃.1 (c := .change id (.labels labels) time) (.ok row)
    apply (Fallible.knows_pure _).2
    apply written_ok h₃.2.cons ht (.inl _)
    · exact ⟨id, _, ht, rfl, .inl ⟨task, .tail _ (hK₃ (hK₂ (.head _)))⟩⟩
    · intro w hw
      obtain rfl := List.mem_singleton.1 hw
      trivial
  | none =>
    apply (knows_issue_bind _ _).2
    refine ⟨hget _ h₁, ?_, fun e => herr _ e (begun_of_read h₁ _)⟩
    intro archived
    apply (knows_okOr_bind _ _ _).2
    refine ⟨?_, fun _ => herr _ _ (begun_of_read h₁ _)⟩
    rintro ⟨id, task⟩ rfl
    apply (begun_checkWriter _ _).andThen (begun_of_read h₁ _) _ herr
    intro K₂ _ hK₂ h₂
    apply begun_now.andThen h₂ _ herr
    intro K₃ time hK₃ h₃
    apply (knows_issue_bind _ _).2
    refine ⟨h₃.1, ?_, fun e => written_error h₃.2.cons e⟩
    intro row
    have ht := txn_cons h₃.1 (c := .changeArchived id (.labels labels) time) (.ok row)
    apply (Fallible.knows_pure _).2
    apply written_ok h₃.2.cons ht (.inl _)
    · exact ⟨id, _, ht, rfl, .inr ⟨task, .tail _ (hK₃ (hK₂ (.head _)))⟩⟩
    · intro w hw
      obtain rfl := List.mem_singleton.1 hw
      trivial

theorem archiveReady_sourced (h : Begun K) : Fallible.Knows Cmd.sourced K
    (archiveReady userId uuid) (Written fun _ _ => True) := by
  have herr : ∀ (K : History) (e : Error), Begun K →
      Written (fun _ (_ : TaskId) => True) K (.error e) := fun _ e hK => written_error hK.2 e
  unfold archiveReady
  apply (knows_issue_bind _ _).2
  have hget : (txn K).getD [] = [] := by rw [h.1, Option.getD_some]
  refine ⟨hget, ?_, fun e => herr _ e (begun_of_read h _)⟩
  intro found
  apply (knows_okOr_bind _ _ _).2
  refine ⟨?_, fun _ => herr _ _ (begun_of_read h _)⟩
  rintro ⟨id, task⟩ rfl
  apply (begun_checkWriter _ _).andThen (begun_of_read h _) _ herr
  intro K₂ _ hK₂ h₂
  apply begun_now.andThen h₂ _ herr
  intro K₃ time hK₃ h₃
  have hcopy : Copied K₃ id (Db.cancelledTask time task) :=
    ⟨task, .inr ⟨uuid, hK₃ (hK₂ (.head _))⟩, .inl ⟨time, rfl⟩⟩
  apply (knows_issue_bind _ _).2
  refine ⟨⟨h₃.1, hcopy⟩, ?_, fun e => written_error h₃.2.cons e⟩
  rintro ⟨⟩
  have ht := txn_cons h₃.1 (c := .insertArchived id (Db.cancelledTask time task)) (.ok ())
  apply (knows_issue_bind _ _).2
  refine ⟨⟨_, ht, hcopy.cons _⟩, ?_, fun e => written_error h₃.2.cons.cons e⟩
  rintro ⟨⟩
  apply (Fallible.knows_pure _).2
  have ht' := txn_cons ht (c := .deleteActive id) (.ok ())
  apply written_ok h₃.2.cons.cons ht' _ trivial
  exact .inr (.inr ⟨id, _, [], rfl, List.forall_mem_nil _, (hcopy.cons _).cons _⟩)

theorem moved_ok {taskId : TaskId} (rest : List Write) (hs : Settled K)
    (hcopy : Copied K taskId row) (ht : txn K = some (rest ++ [.dropActive taskId, .addArchived taskId row]))
    (hr : ∀ w ∈ rest, w.plain) (a : α) : Written (fun _ _ => True) K (.ok a) :=
  written_ok hs ht (.inr (.inr ⟨taskId, row, rest, rfl, hr, hcopy⟩)) trivial

theorem archiveCommitted_sourced (h : Begun K) (hcopy : Copied K taskId archived) :
    Fallible.Knows Cmd.sourced K (archiveCommitted workerId taskId archived now)
      (Written fun _ _ => True) := by
  unfold archiveCommitted
  apply (knows_issue_bind _ _).2
  refine ⟨⟨h.1, hcopy⟩, ?_, fun e => written_error h.2.cons e⟩
  rintro ⟨⟩
  have ht := txn_cons h.1 (c := .insertArchived taskId archived) (.ok ())
  have h₁ : Settled (⟨.insertArchived taskId archived, .ok ()⟩ :: K) := h.2.cons
  apply (knows_issue_bind _ _).2
  refine ⟨⟨_, ht, hcopy.cons _⟩, ?_, fun e => written_error h₁.cons e⟩
  rintro ⟨⟩
  have ht₂ := txn_cons ht (c := .deleteActive taskId) (.ok ())
  have h₂ : Settled (⟨.deleteActive taskId, .ok ()⟩ :: ⟨.insertArchived taskId archived, .ok ()⟩ ::
      K) := h₁.cons
  apply (knows_issue_bind _ _).2
  refine ⟨trivial, ?_, fun e => written_error h₂.cons e⟩
  intro worker
  have ht₃ := txn_cons ht₂ (c := .updateWorker workerId (.link none now)) (.ok worker)
  have hcopy₃ : Copied (⟨.updateWorker workerId (.link none now), .ok worker⟩ ::
      ⟨.deleteActive taskId, .ok ()⟩ :: ⟨.insertArchived taskId archived, .ok ()⟩ :: K) taskId
      archived := ((hcopy.cons _).cons _).cons _
  split
  next =>
    apply (knows_issue_bind _ _).2
    refine ⟨trivial, ?_, fun e => written_error h₂.cons.cons e⟩
    intro ids
    apply (Fallible.knows_pure _).2
    have ht₄ := txn_cons ht₃ (c := .deleteWorkers (.ids [workerId])) (.ok ids)
    apply moved_ok [.dropWorkers ids, .setWorker workerId (.link none now)]
      h₂.cons.cons (hcopy₃.cons _) ht₄
    intro w hw
    rcases List.mem_cons.1 hw with rfl | hw
    · trivial
    · obtain rfl := List.mem_singleton.1 hw
      trivial
  next =>
    apply (Fallible.knows_pure _).2
    apply moved_ok [.setWorker workerId (.link none now)] h₂.cons hcopy₃ ht₃
    intro w hw
    obtain rfl := List.mem_singleton.1 hw
    trivial

theorem keeps_archiveSelected (sel : CancelSelection) :
    Keeps Cmd.sourced Idle (archiveSelected sel) := by
  apply keeps_transaction
  intro K h
  apply begun_now.andThen h _ fun _ e hK => written_error hK.2 e
  intro K₁ time _ h₁
  apply (Fallible.knows_issue _).2
  refine ⟨h₁.1, ?_⟩
  intro r
  cases r with
  | error e => exact written_error h₁.2.cons e
  | ok tasks =>
    apply written_ok h₁.2.cons (txn_cons h₁.1 (c := .archiveTasks sel time) (.ok tasks)) _ trivial
    exact .inr (.inl ⟨tasks, rfl⟩)

/-- What a transaction has written so far moves no task. -/
def Plain (K : History) : Prop := Settled K ∧ ∃ ws, txn K = some ws ∧ ∀ w ∈ ws, w.plain

theorem plain_of_begun (h : Begun K) : Plain K := ⟨h.2, [], h.1, List.forall_mem_nil _⟩

theorem written_plain (h : Plain K) (a : α) : Written (fun _ _ => True) K (.ok a) := by
  obtain ⟨hs, ws, ht, hw⟩ := h
  exact written_ok hs ht (.inl hw) trivial

theorem keeps_deleteWorkers (sel : WorkerSelection) :
    Keeps Cmd.sourced Plain (issue (.deleteWorkers sel)) := by
  apply Keeps.issue
  rintro K ⟨hs, ws, ht, hw⟩
  refine ⟨trivial, ?_⟩
  rintro (e | ids)
  · exact ⟨hs.cons, ws, txn_cons ht (c := .deleteWorkers sel) (.error e), hw⟩
  · exact ⟨hs.cons, _, txn_cons ht (c := .deleteWorkers sel) (.ok ids), plain_cons trivial hw⟩

theorem keeps_retireWorkers (sel : WorkerSelection) (time : Instant) :
    Keeps Cmd.sourced Plain (issue (.retireWorkers sel time)) := by
  apply Keeps.issue
  rintro K ⟨hs, ws, ht, hw⟩
  refine ⟨trivial, ?_⟩
  rintro (e | ids)
  · exact ⟨hs.cons, ws, txn_cons ht (c := .retireWorkers sel time) (.error e), hw⟩
  · exact ⟨hs.cons, _, txn_cons ht (c := .retireWorkers sel time) (.ok ids),
      plain_append (plain_map _) hw⟩

theorem pushBackTasks_plain (h : Begun K) (sel : TaskSelection) (time : Instant)
    (r : (Cmd.pushBackTasks sel time).Resp) : Plain (⟨.pushBackTasks sel time, r⟩ :: K) := by
  refine ⟨h.2.cons, _, txn_cons h.1 r, ?_⟩
  rw [List.append_nil]
  cases r with
  | error e => exact List.forall_mem_nil _
  | ok tasks => exact plain_map _

theorem shutdownSelected_sourced (h : Begun K) : Fallible.Knows Cmd.sourced K
    (shutdownSelected groupId req) (Written fun _ _ => True) := by
  have herr : ∀ (K : History) (e : Error), Plain K →
      Written (fun _ (_ : Db.Shutdown) => True) K (.error e) := fun _ e hK => written_error hK.1 e
  unfold shutdownSelected
  apply begun_now.andThen h _ fun _ e hK => written_error hK.2 e
  intro K₁ time _ h₁
  split
  next =>
    apply (knows_issue_bind _ _).2
    refine ⟨h₁.1, ?_, fun e => herr _ e (pushBackTasks_plain h₁ _ _ _)⟩
    intro tasks
    apply (keeps_deleteWorkers _).andThen (pushBackTasks_plain h₁ _ _ _) _ herr
    intro K₂ removed _ h₂
    exact written_plain h₂ _
  next =>
    apply (keeps_deleteWorkers _).andThen (plain_of_begun h₁) _ herr
    intro K₂ removed _ h₂
    apply (keeps_retireWorkers _ _).andThen h₂ _ herr
    intro K₃ kept _ h₃
    exact written_plain h₃ _

theorem shutdownChunk_sourced (h : Begun K) : Fallible.Knows Cmd.sourced K
    (shutdownChunk userId op uuids) (Written fun _ _ => True) := by
  have herr : ∀ (K : History) (e : Error), Plain K →
      Written (fun _ (_ : Db.Shutdown × List Uuid) => True) K (.error e) :=
    fun _ e hK => written_error hK.1 e
  unfold shutdownChunk
  apply Keeps.andThen (P := Begun) _ h _ fun _ e hK => written_error hK.2 e
  · exact keeps_reads trivial
  intro K₁ workers _ h₁
  split
  next => exact written_plain (plain_of_begun h₁) _
  next =>
    apply begun_now.andThen h₁ _ fun _ e hK => written_error hK.2 e
    intro K₂ time _ h₂
    cases op with
    | force =>
      dsimp only
      split
      next =>
        apply (keeps_deleteWorkers _).andThen (plain_of_begun h₂) _ herr
        intro K₃ _ _ h₃
        exact written_plain h₃ _
      next =>
        apply (knows_issue_bind _ _).2
        refine ⟨h₂.1, ?_, fun e => herr _ e (pushBackTasks_plain h₂ _ _ _)⟩
        intro tasks
        apply (keeps_deleteWorkers _).andThen (pushBackTasks_plain h₂ _ _ _) _ herr
        intro K₃ _ _ h₃
        exact written_plain h₃ _
    | graceful =>
      dsimp only
      have hend : ∀ (K : History) (b : Prop) [Decidable b] (sel : WorkerSelection)
          (a : Db.Shutdown × List Uuid), Plain K → Fallible.Knows Cmd.sourced K
            (if b then issue (.retireWorkers sel time) >>= fun _ => pure a else pure a)
            (Written fun _ _ => True) := by
        intro K b _ sel a hK
        split
        next =>
          apply (keeps_retireWorkers _ _).andThen hK _ herr
          intro K' _ _ hK'
          exact written_plain hK' _
        next => exact written_plain hK _
      split
      next =>
        apply (keeps_deleteWorkers _).andThen (plain_of_begun h₂) _ herr
        intro K₃ _ _ h₃
        exact hend _ _ _ _ h₃
      next => exact hend _ _ _ _ (plain_of_begun h₂)

theorem countTask_sourced {f : GroupId × Group → Service α}
    {post : History → Except Error α → Prop} (h : Idle K)
    (hok : ∀ group, Fallible.Knows Cmd.sourced (⟨.addTaskCount req time, .ok (some group)⟩ :: K)
      (f group) post) (herr : ∀ K e, Idle K → post K (.error e)) :
    Fallible.Knows Cmd.sourced K (countTask req time >>= f) post := by
  rw [Fallible.knows_bind]
  apply (knows_issue_bind _ _).2
  have hnone : ∀ r, drawn (⟨.addTaskCount req time, r⟩ :: K) = drawn K →
      Idle (⟨.addTaskCount req time, r⟩ :: K) := by
    intro r hd
    exact h.cons (congrArg (Option.map _) h.1) hd
  refine ⟨h, ?_, fun e => herr _ e (hnone _ rfl)⟩
  intro group
  apply (Fallible.knows_okOr _ _).2
  constructor
  · rintro group rfl
    exact hok group
  · rintro rfl
    exact herr _ _ (hnone _ rfl)

theorem keeps_insert {α : Type} (req : SubmitTaskReq)
    (row : GroupId × Group → Uuid → Instant → ActiveTask)
    (f : TaskId × ActiveTask → Service α) (hf : ∀ x, Keeps Cmd.sourced Idle (f x))
    (hrow : ∀ group uuid time, (row group uuid time).groupId = group.1 ∧
      (row group uuid time).taskId = group.2.taskCount ∧ (row group uuid time).uuid = uuid) :
    Keeps Cmd.sourced Idle (do
      let now ← issue .now
      let group ← countTask req now
      let uuid ← issue .newUuid
      Fallible.ofExcept (checkTaskSpec req.taskSpec)
      let x ← issue (.insertTask (row group uuid now))
      f x) := by
  intro K h
  apply (keeps_simple (c := .now) trivial).andThen h _ fun _ _ hK => hK
  intro K₁ time _ h₁
  apply countTask_sourced h₁ _ fun _ _ hK => hK
  intro group
  have ht : txn (⟨.addTaskCount req time, .ok (some group)⟩ :: K₁) = none :=
    congrArg (Option.map _) h₁.1
  apply (knows_issue_bind _ _).2
  refine ⟨trivial, ?_, ?_⟩
  · intro uuid
    have ht' : txn (⟨.newUuid, .ok uuid⟩ :: ⟨.addTaskCount req time, .ok (some group)⟩ :: K₁) =
        none := congrArg (Option.map _) ht
    apply (knows_ofExcept_bind _ _).2
    constructor
    · intro _ _
      apply (knows_issue_bind _ _).2
      obtain ⟨hg, hn, hu⟩ := hrow group uuid time
      refine ⟨⟨ht', ?_, ?_⟩, ?_, ?_⟩
      · rw [hg, hn]
        rfl
      · rw [hu]
        rfl
      · intro x
        apply hf x
        exact ⟨congrArg (Option.map _) ht', .inl rfl⟩
      · intro e
        exact ⟨congrArg (Option.map _) ht', .inl rfl⟩
    · intro e he
      refine ⟨ht', .inr ⟨_, .tail _ (.head _), ?_⟩⟩
      intro hok
      cases hok.symm.trans he
  · intro e
    exact ⟨congrArg (Option.map _) ht, .inr ⟨_, .head _, trivial⟩⟩

theorem keeps_userSubmitTask (creatorId : UserId) (req : SubmitTaskReq) :
    Keeps Cmd.sourced Idle (userSubmitTask creatorId req) := by
  have hf : ∀ x : TaskId × ActiveTask, Keeps Cmd.sourced Idle (do
      batchAddTask .anyWriteAdmin x.1 x.2 "send batch add task failed"
      return (⟨x.2.taskId, x.2.uuid⟩ : SubmitTaskResp)) :=
    fun x => (keeps_batchAddTask _ _ _ _).bind fun _ => .pure _
  have h := keeps_insert req (Mitosis.Service.newTask creatorId req) _ hf
    fun _ _ _ => ⟨rfl, rfl, rfl⟩
  exact h

theorem keeps_workerSubmitPendingTask (creatorId : UserId) (upstream : Uuid)
    (req : SubmitTaskReq) :
    Keeps Cmd.sourced Idle (workerSubmitPendingTask creatorId upstream req) := by
  have hf : ∀ x : TaskId × ActiveTask, Keeps Cmd.sourced Idle
      (pure (⟨x.2.taskId, x.2.uuid⟩ : SubmitTaskResp)) := fun _ => .pure _
  have h := keeps_insert req (pendingTask creatorId upstream req) _ hf
    fun _ _ _ => ⟨rfl, rfl, rfl⟩
  exact h

theorem keeps_submitTasks (userId : UserId) (reqs : List SubmitTaskReq) :
    Keeps Cmd.sourced Idle (submitTasks userId reqs) := by
  induction reqs with
  | nil => exact .pure _
  | cons req reqs ih =>
    apply (keeps_userSubmitTask userId req).attempt.bind
    intro result
    apply ih.bind
    exact fun _ => .pure _

theorem keeps_workerTriggerPendingTask (uuid : Uuid) :
    Keeps Cmd.sourced Idle (workerTriggerPendingTask uuid) := by
  apply (keeps_select _).bind
  intro task
  apply (Keeps.okOr _ _).bind
  rintro ⟨id, task⟩
  apply (keeps_simple (c := .now) trivial).bind
  intro time
  apply (keeps_simple (c := .change id .trigger time) False.elim).bind
  intro task
  exact keeps_batchAddTask _ _ _ _

theorem keeps_now : Keeps Cmd.sourced Idle (issue .now) := keeps_simple trivial

theorem keeps_userChangeTask (userId : UserId) (uuid : Uuid) (req : ChangeTaskReq) :
    Keeps Cmd.sourced Idle (userChangeTask userId uuid req) := by
  apply Keeps.ite _ (.fail _)
  apply (keeps_transaction fun _ h => changeReady_sourced h).bind
  rintro ⟨id, task⟩
  apply (keeps_select _).bind
  intro workers
  apply (keeps_sent (c := .sendTask (.removeTask id)) trivial _).bind
  intro _
  exact keeps_sent (c := .sendTask _) trivial _

theorem keeps_removeTasks (ids : List TaskId) : Keeps Cmd.sourced Idle (removeTasks ids) := by
  induction ids with
  | nil => exact .pure _
  | cons id ids ih =>
    exact (keeps_simple (c := .sendTask (.removeTask id)) trivial).attempt.bind fun _ => ih

theorem keeps_userCancelTask (userId : UserId) (uuid : Uuid) :
    Keeps Cmd.sourced Idle (userCancelTask userId uuid) :=
  (keeps_transaction fun _ h => archiveReady_sourced h).bind fun _ => keeps_removeTasks _

theorem keeps_queriedGroup (userId : UserId) (name : Option String) :
    Keeps Cmd.sourced Idle (queriedGroup userId name) := by
  cases name with
  | none => exact (keeps_select _).bind fun _ => (Keeps.okOr _ _).bind fun _ => .pure _
  | some name => exact .pure _

theorem keeps_checkTaskListQuery (userId : UserId) (query : TasksQueryReq)
    (role : UserGroupRole) : Keeps Cmd.sourced Idle (checkTaskListQuery userId query role) := by
  apply (Keeps.ofExcept _).bind
  intro _
  apply (keeps_queriedGroup _ _).bind
  intro name
  apply (keeps_select _).bind
  rintro (- | r)
  · exact .fail _
  · exact .ite _ (.pure _) (.fail _)

theorem keeps_cancelTasksByFilter (userId : UserId) (req : TasksCancelByFilterReq) :
    Keeps Cmd.sourced Idle (cancelTasksByFilter userId req) := by
  apply (keeps_checkTaskListQuery _ _ _).bind
  rintro ⟨query, name⟩
  apply (Keeps.ofExcept _).bind
  intro filter
  apply (keeps_archiveSelected _).bind
  intro archived
  exact (keeps_removeTasks _).bind fun _ => .pure _

theorem keeps_cancelChunks (userId : UserId) (chunks : List (List Uuid)) :
    Keeps Cmd.sourced Idle (cancelChunks userId chunks) := by
  induction chunks with
  | nil => exact .pure _
  | cons chunk chunks ih =>
    exact (keeps_archiveSelected _).bind fun _ => ih.bind fun _ => .pure _

theorem keeps_cancelTasksByUuids (userId : UserId) (uuids : List Uuid) :
    Keeps Cmd.sourced Idle (cancelTasksByUuids userId uuids) := by
  apply Keeps.ite _ (.fail _)
  apply (keeps_cancelChunks _ _).bind
  intro found
  exact (keeps_removeTasks _).bind fun _ => .pure _

theorem keeps_pushBack (task : Option TaskId) : Keeps Cmd.sourced Idle (pushBack task) := by
  cases task with
  | none => exact .pure _
  | some id =>
    apply keeps_now.bind
    intro time
    apply (keeps_simple (c := .change id .pushBack time) False.elim).bind
    exact fun _ => keeps_batchAddTask _ _ _ _

theorem keeps_removeWorker (id : WorkerId) (worker : Worker) :
    Keeps Cmd.sourced Idle (removeWorker id worker) := by
  apply (keeps_pushBack _).bind
  intro _
  have htxn : Keeps Cmd.sourced Idle (transaction do
      let _ ← issue (.deleteWorkers (.ids [id]))
      return ()) := by
    apply keeps_transaction
    intro K h
    apply (keeps_deleteWorkers _).andThen (plain_of_begun h) _ fun _ e hK => written_error hK.1 e
    intro K' _ _ hK'
    exact written_plain hK' _
  apply htxn.bind
  intro _
  apply (keeps_sent (c := .sendTask _) trivial _).bind
  exact fun _ => keeps_sent (c := .sendHeartbeat _) trivial _

theorem keeps_findWorker (uuid : Uuid) : Keeps Cmd.sourced Idle (findWorker uuid) :=
  (keeps_select _).bind fun _ => .okOr _ _

theorem keeps_shutdownWorker (id : WorkerId) (worker : Worker) (op : WorkerShutdownOp) :
    Keeps Cmd.sourced Idle (shutdownWorker id worker op) := by
  cases op with
  | force => exact keeps_removeWorker _ _
  | graceful =>
    apply Keeps.ite _ (keeps_removeWorker _ _)
    exact (keeps_simple (c := .updateWorker id .graceful) trivial).bind fun _ => .pure _

theorem keeps_updateWorker (id : WorkerId) (time : Instant) (n : Nat) :
    Keeps Cmd.sourced Idle (updateWorker id time n) := by
  induction n with
  | zero => exact .fail _
  | succ n ih =>
    apply (keeps_simple (c := .updateWorker id (.heartbeat time)) trivial).attempt.bind
    rintro (e | worker)
    · exact .ite _ (.fail _) ih
    · exact .pure _

theorem keeps_taskExpired (worker : Worker) : Keeps Cmd.sourced Idle (taskExpired worker) := by
  unfold taskExpired
  split
  next => exact .pure _
  next =>
    apply (keeps_select _).bind
    rintro (- | task)
    · exact .pure _
    · exact .ite _ (keeps_now.bind fun _ => .pure _) (.pure _)

theorem keeps_heartbeat (id : WorkerId) : Keeps Cmd.sourced Idle (heartbeat id) := by
  apply keeps_now.bind
  intro time
  apply (keeps_updateWorker _ _ _).bind
  intro worker
  apply (keeps_taskExpired _).bind
  intro expired
  exact .ite _ (keeps_removeWorker _ _) (keeps_sent (c := .sendHeartbeat _) trivial _)

theorem keeps_handleTimeout (id : WorkerId) : Keeps Cmd.sourced Idle (handleTimeout id) := by
  apply (keeps_select _).bind
  rintro (- | worker)
  · exact .pure _
  · exact (keeps_removeWorker _ _).attempt.bind fun _ => .pure _

theorem keeps_reassignTasks (tasks : List (TaskId × ActiveTask)) :
    Keeps Cmd.sourced Idle (reassignTasks tasks) := by
  induction tasks with
  | nil => exact .pure _
  | cons e tasks ih =>
    apply (keeps_select _).bind
    exact fun _ => (keeps_simple (c := .sendTask _) trivial).attempt.bind fun _ => ih

theorem keeps_unregisterWorkers (ids : List WorkerId) :
    Keeps Cmd.sourced Idle (unregisterWorkers ids) := by
  induction ids with
  | nil => exact .pure _
  | cons id ids ih =>
    apply (keeps_simple (c := .sendTask _) trivial).attempt.bind
    exact fun _ => (keeps_simple (c := .sendHeartbeat _) trivial).attempt.bind fun _ => ih

theorem keeps_shutdownWorkersByFilter (userId : UserId) (req : WorkersShutdownByFilterReq) :
    Keeps Cmd.sourced Idle (shutdownWorkersByFilter userId req) := by
  apply (keeps_select _).bind
  intro group
  apply (Keeps.okOr _ _).bind
  rintro ⟨groupId, role, name⟩
  apply Keeps.ite _ (.fail _)
  apply (keeps_transaction fun _ h => shutdownSelected_sourced h).bind
  intro res
  apply (keeps_reassignTasks _).bind
  exact fun _ => (keeps_unregisterWorkers _).bind fun _ => .pure _

theorem keeps_shutdownChunks (userId : UserId) (op : WorkerShutdownOp)
    (chunks : List (List Uuid)) : Keeps Cmd.sourced Idle (shutdownChunks userId op chunks) := by
  induction chunks with
  | nil => exact .pure _
  | cons chunk chunks ih =>
    apply (keeps_transaction fun _ h => shutdownChunk_sourced h).bind
    exact fun _ => ih.bind fun _ => .pure _

theorem keeps_shutdownWorkersByUuids (userId : UserId) (uuids : List Uuid)
    (op : WorkerShutdownOp) :
    Keeps Cmd.sourced Idle (shutdownWorkersByUuids userId uuids op) := by
  apply Keeps.ite _ (.fail _)
  apply (keeps_shutdownChunks _ _ _).bind
  rintro ⟨res, found⟩
  apply (keeps_reassignTasks _).bind
  exact fun _ => (keeps_unregisterWorkers _).bind fun _ => .pure _

theorem keeps_fetchTask (workerId : WorkerId) :
    Keeps Cmd.sourced Idle (fetchTask workerId) := by
  apply (keeps_sent (c := .sendFetch _) trivial _).bind
  intro _
  apply (keeps_sent (c := .recvFetch _) trivial _).bind
  rintro (- | id)
  · exact .pure _
  · apply keeps_now.bind
    intro time
    apply (keeps_simple (c := .assignTask workerId id time) trivial).bind
    rintro (- | task)
    · exact .pure _
    · apply (keeps_simple (c := .updateWorker workerId (.link (some id) time)) trivial).bind
      exact fun _ => .pure _

theorem keeps_reportSubmit (workerId : WorkerId) (taskId : TaskId) (task : ActiveTask)
    (req : SubmitTaskReq) (time : Instant) :
    Keeps Cmd.sourced Idle (reportSubmit workerId taskId task req time) := by
  apply Keeps.ite _ (.fail _)
  apply (keeps_select _).attempt.bind
  rintro (e | user)
  · exact .fail _
  apply (Keeps.okOr _ _).bind
  intro user
  apply Keeps.ite _ (.fail _)
  apply (keeps_select _).bind
  intro group
  apply (Keeps.okOr _ _).bind
  intro group
  apply Keeps.ite _ (.fail _)
  apply (keeps_select _).bind
  intro role
  apply (Keeps.okOr _ _).bind
  intro _
  apply (keeps_workerSubmitPendingTask _ _ _).attempt.bind
  rintro (e | resp)
  · exact .fail _
  · apply (keeps_simple (c := .change taskId (.downstream resp.uuid) time) False.elim).bind
    exact fun _ => .pure _

theorem keeps_triggerDownstream (uuid : Option Uuid) :
    Keeps Cmd.sourced Idle (triggerDownstream uuid) := by
  cases uuid with
  | none => exact .pure _
  | some uuid => exact keeps_workerTriggerPendingTask uuid

theorem keeps_unregisterGraceful (workerId : WorkerId) (state : WorkerState) :
    Keeps Cmd.sourced Idle (unregisterGraceful workerId state) := by
  cases state with
  | normal => exact .pure _
  | gracefulShutdown =>
    apply (keeps_sent (c := .sendTask _) trivial _).bind
    exact fun _ => keeps_sent (c := .sendHeartbeat _) trivial _

theorem reportCommit_sourced (h : Idle K) (hr : Read K taskId task)
    (hw : task.assignedWorker = some workerId) : Fallible.Knows Cmd.sourced K
      (reportCommit workerId workerUuid taskId task res time) fun K _ => Idle K := by
  unfold reportCommit
  split
  next => exact h
  next hstate =>
    have hdone : task.state = .finished ∨ task.state = .cancelled := by
      by_contra hn
      exact hstate (not_or.1 hn)
    have hcommit : Fallible.Knows Cmd.sourced K (transaction (archiveCommitted workerId taskId
        (Mitosis.Service.committedTask task res workerUuid time) time))
        (Committed fun _ _ => True) := by
      apply transaction_sourced h
      intro K' hsub hK'
      apply archiveCommitted_sourced hK'
      exact ⟨task, hr.mono hsub, .inr ⟨workerId, res, workerUuid, time, rfl, hw, hdone⟩⟩
    rw [Fallible.knows_bind]
    apply hcommit.mono
    rintro K' (e | state) hK'
    · exact hK'.1
    · apply Keeps.andThen (keeps_removeTasks _) hK'.1 _ fun _ _ hK => hK
      intro K₂ _ _ h₂
      apply Keeps.andThen (keeps_triggerDownstream _) h₂ _ fun _ _ hK => hK
      intro K₃ _ _ h₃
      exact keeps_unregisterGraceful _ _ K₃ h₃

theorem keeps_reportTask (workerId : WorkerId) (workerUuid : Uuid) (taskId : TaskId)
    (op : Report) : Keeps Cmd.sourced Idle (reportTask workerId workerUuid taskId op) := by
  intro K h
  unfold reportTask
  apply keeps_now.andThen h _ fun _ _ hK => hK
  intro K₁ time _ h₁
  have hcons : ∀ r, Idle (⟨.select (.task taskId), r⟩ :: K₁) :=
    fun r => (keeps_select (.task taskId) K₁ h₁).2 r
  apply (knows_issue_bind _ _).2
  refine ⟨(keeps_select (.task taskId) K₁ h₁).1, ?_, fun e => hcons _⟩
  intro found
  apply (knows_okOr_bind _ _ _).2
  refine ⟨?_, fun _ => hcons _⟩
  rintro task rfl
  split
  next => exact hcons _
  next hw =>
    cases op with
    | finish =>
      exact ((keeps_simple (c := .change taskId (.report .finished) time) False.elim).bind
        fun _ => .pure _) _ (hcons _)
    | cancel =>
      exact ((keeps_simple (c := .change taskId (.report .cancelled) time) False.elim).bind
        fun _ => .pure _) _ (hcons _)
    | submit req => exact keeps_reportSubmit _ _ _ _ _ _ (hcons _)
    | commit res => exact reportCommit_sourced (hcons _) (.inl (.head _)) (not_not.1 hw)

theorem idle_issue {c : Cmd} (h : Idle K) (hc : c.simple := by trivial) :
    c.sourced K ∧ ∀ r, Idle (⟨c, r⟩ :: K) := keeps_simple hc K h

/-- What `get_task_by_uuid` has read. -/
def GotTask (uuid : Uuid) (K : History) : Except Error TaskQueryResp → Prop
  | .ok resp => K = [⟨.tasks (.artifactsOf uuid), .ok resp.artifacts⟩,
      ⟨.tasks (.activeInfo uuid), .ok (some resp.info)⟩] ∨
    K = [⟨.tasks (.artifactsOf uuid), .ok resp.artifacts⟩,
      ⟨.tasks (.archivedInfo uuid), .ok (some resp.info)⟩, ⟨.tasks (.activeInfo uuid), .ok none⟩]
  | .error e => (∃ q K', K = ⟨.tasks q, .error e⟩ :: K') ∨
    K = [⟨.tasks (.archivedInfo uuid), .ok none⟩, ⟨.tasks (.activeInfo uuid), .ok none⟩]

theorem getTaskByUuid_sourced (uuid : Uuid) : Fallible.Knows Cmd.sourced [] (getTaskByUuid uuid)
    fun K r => Idle K ∧ GotTask uuid K r := by
  have h₀ : Idle [] := ⟨rfl, .inl rfl⟩
  unfold getTaskByUuid
  apply (knows_issue_bind _ _).2
  obtain ⟨hn, h₁⟩ := idle_issue (c := .tasks (.activeInfo uuid)) h₀
  refine ⟨hn, ?_, fun e => ⟨h₁ _, .inl ⟨_, _, rfl⟩⟩⟩
  have hrest : ∀ (K : History) (info : TaskQueryInfo), Idle K →
      (∀ artifacts, GotTask uuid (⟨.tasks (.artifactsOf uuid), .ok artifacts⟩ :: K)
        (.ok ⟨info, artifacts⟩)) → Fallible.Knows Cmd.sourced K (do
          let artifacts ← issue (.tasks (.artifactsOf uuid))
          return (⟨info, artifacts⟩ : TaskQueryResp)) fun K r => Idle K ∧ GotTask uuid K r := by
    intro K info h hgot
    obtain ⟨hn, h'⟩ := idle_issue (c := .tasks (.artifactsOf uuid)) h
    apply (knows_issue_bind _ _).2
    exact ⟨hn, fun artifacts => ⟨h' _, hgot artifacts⟩, fun e => ⟨h' _, .inl ⟨_, _, rfl⟩⟩⟩
  rintro (- | info)
  · apply (knows_issue_bind _ _).2
    obtain ⟨hn, h₂⟩ := idle_issue (c := .tasks (.archivedInfo uuid)) (h₁ (.ok none))
    refine ⟨hn, ?_, fun e => ⟨h₂ _, .inl ⟨_, _, rfl⟩⟩⟩
    rintro (- | info)
    · exact ⟨h₂ _, .inr rfl⟩
    · exact hrest _ info (h₂ _) fun _ => .inr rfl
  · exact hrest _ info (h₁ _) fun _ => .inl rfl

/-- What `find_task_by_uuid` has read. -/
def FoundTask (uuid : Uuid) (K : History) : Except Error Db.StoredTask → Prop
  | .ok (.active id task) => K = [⟨.select (.activeByUuid uuid), .ok (some (id, task))⟩]
  | .ok (.archived id task) => K = [⟨.select (.archivedByUuid uuid), .ok (some (id, task))⟩,
      ⟨.select (.activeByUuid uuid), .ok none⟩]
  | .error e => (∃ q K', K = ⟨.select q, .error e⟩ :: K') ∨
    K = [⟨.select (.archivedByUuid uuid), .ok none⟩, ⟨.select (.activeByUuid uuid), .ok none⟩]

theorem findTaskByUuid_sourced (uuid : Uuid) : Fallible.Knows Cmd.sourced [] (findTaskByUuid uuid)
    fun K r => Idle K ∧ FoundTask uuid K r := by
  have h₀ : Idle [] := ⟨rfl, .inl rfl⟩
  unfold findTaskByUuid
  apply (knows_issue_bind _ _).2
  obtain ⟨hn, h₁⟩ := idle_issue (c := .select (.activeByUuid uuid)) h₀
  refine ⟨hn, ?_, fun e => ⟨h₁ _, .inl ⟨_, _, rfl⟩⟩⟩
  rintro (- | ⟨id, task⟩)
  · apply (knows_issue_bind _ _).2
    obtain ⟨hn, h₂⟩ := idle_issue (c := .select (.archivedByUuid uuid)) (h₁ (.ok none))
    refine ⟨hn, ?_, fun e => ⟨h₂ _, .inl ⟨_, _, rfl⟩⟩⟩
    rintro (- | ⟨id, task⟩)
    · exact ⟨h₂ _, .inr rfl⟩
    · exact ⟨h₂ _, rfl⟩
  · exact ⟨h₁ _, rfl⟩

def Listed (query : TasksQueryReq) (K : History) : Except Error TasksQueryResp → Prop
  | .ok resp => ∃ filter K', applyTaskFilters { query with groupName := some resp.groupName } =
      .ok filter ∧
    if query.count then ∃ active archived, resp.count = active.getD 0 + archived.getD 0 ∧
      resp.tasks = [] ∧
      K = ⟨.tasks (.archivedCount filter query.reporterUuid query.limit query.offset),
        .ok archived⟩ :: ⟨.tasks (.activeCount filter query.limit query.offset), .ok active⟩ :: K'
    else ∃ active archived, resp.tasks = active ++ archived ∧ resp.count = resp.tasks.length ∧
      K = ⟨.tasks (.archivedInfos filter query.reporterUuid query.limit query.offset),
        .ok archived⟩ :: ⟨.tasks (.activeInfos filter query.limit query.offset), .ok active⟩ :: K'
  | .error _ => True

theorem checkTaskListQuery_sourced (h : Idle K) :
    Fallible.Knows Cmd.sourced K (checkTaskListQuery userId query role) fun K r => Idle K ∧
      ∀ a, r = .ok a → a.1 = { query with groupName := some a.2 } := by
  unfold checkTaskListQuery
  apply (Keeps.ofExcept _).andThen h _ fun _ _ hK => ⟨hK, fun _ ha => by cases ha⟩
  intro K₁ _ _ h₁
  apply (keeps_queriedGroup _ _).andThen h₁ _ fun _ _ hK => ⟨hK, fun _ ha => by cases ha⟩
  intro K₂ name _ h₂
  apply (keeps_select _).andThen h₂ _ fun _ _ hK => ⟨hK, fun _ ha => by cases ha⟩
  intro K₃ found _ h₃
  cases found with
  | none => exact ⟨h₃, fun _ ha => by cases ha⟩
  | some r =>
    dsimp only
    split
    next =>
      refine ⟨h₃, ?_⟩
      intro a ha
      obtain rfl := Except.ok.inj ha
      rfl
    next => exact ⟨h₃, fun _ ha => by cases ha⟩

theorem queryTasksByFilter_sourced (h : Idle K) :
    Fallible.Knows Cmd.sourced K (queryTasksByFilter userId query)
      fun K r => Idle K ∧ Listed query K r := by
  unfold queryTasksByFilter
  rw [Fallible.knows_bind]
  apply (checkTaskListQuery_sourced h).mono
  rintro K₁ (e | ⟨query', name⟩) ⟨h₁, hq⟩
  · exact ⟨h₁, trivial⟩
  have hq := hq _ rfl
  dsimp only at hq
  subst hq
  apply (knows_ofExcept_bind _ _).2
  constructor
  · intro filter hf
    split
    next hc =>
      apply (knows_issue_bind _ _).2
      obtain ⟨hn, h₂⟩ := idle_issue (c := .tasks (.activeCount filter query.limit query.offset)) h₁
      refine ⟨hn, ?_, fun _ => ⟨h₂ _, trivial⟩⟩
      intro active
      apply (knows_issue_bind _ _).2
      obtain ⟨hn, h₃⟩ := idle_issue (c := .tasks (.archivedCount filter query.reporterUuid
        query.limit query.offset)) (h₂ (.ok active))
      refine ⟨hn, ?_, fun _ => ⟨h₃ _, trivial⟩⟩
      intro archived
      refine ⟨h₃ _, filter, K₁, hf, ?_⟩
      rw [if_pos hc]
      exact ⟨active, archived, rfl, rfl, rfl⟩
    next hc =>
      apply (knows_issue_bind _ _).2
      obtain ⟨hn, h₂⟩ := idle_issue (c := .tasks (.activeInfos filter query.limit query.offset)) h₁
      refine ⟨hn, ?_, fun _ => ⟨h₂ _, trivial⟩⟩
      intro active
      apply (knows_issue_bind _ _).2
      obtain ⟨hn, h₃⟩ := idle_issue (c := .tasks (.archivedInfos filter query.reporterUuid
        query.limit query.offset)) (h₂ (.ok active))
      refine ⟨hn, ?_, fun _ => ⟨h₃ _, trivial⟩⟩
      intro archived
      refine ⟨h₃ _, filter, K₁, hf, ?_⟩
      rw [if_neg hc]
      exact ⟨active, archived, rfl, rfl, rfl⟩
  · intro e _
    exact ⟨h₁, trivial⟩

theorem userChangeTaskLabels_sourced (h : Idle K) :
    Fallible.Knows Cmd.sourced K (userChangeTaskLabels userId uuid labels)
      (Committed fun K _ => Relabelled uuid labels K) :=
  transaction_sourced h fun _ _ hK => changeLabels_sourced hK

end Service

/-- What a session that has returned has done. -/
def told (K : History) : Call → Except Error Reply → Prop
  | .userChangeTaskLabels _ uuid labels, .ok _ =>
    ∃ K', K = ⟨.commit, .ok ()⟩ :: K' ∧ Relabelled uuid labels K'
  | .getTaskByUuid uuid, r => ∃ r', r = r'.map .task ∧ Service.GotTask uuid K r'
  | .findTaskByUuid uuid, r => ∃ r', r = r'.map .stored ∧ Service.FoundTask uuid K r'
  | .queryTasksByFilter _ query, r => ∃ r', r = r'.map .tasks ∧ Service.Listed query K r'
  | _, _ => True

/-- A session that goes on, or that has returned. -/
def ended (call : Call) (K : History) : Flow (Except Error Reply) → Prop
  | .again => Idle K ∧ ∃ workerId, call = .fetchTask workerId
  | .done r => Idle K ∧ told K call r

theorem once_sourced {call : Call} {f : α → Reply} {p : Service α} (h : Idle K)
    (hp : Fallible.Keeps Cmd.sourced Idle p)
    (ht : ∀ K r, told K call r) : (Fallible.once f p).Knows Cmd.sourced (ended call) K := by
  apply (Fallible.knows_once _ _).2
  apply (hp K h).mono
  intro K' r hK
  exact ⟨hK, ht _ _⟩

theorem fetchTask_again (h : Idle K) : (program (.fetchTask workerId)).Knows Cmd.sourced
    (ended (.fetchTask workerId)) K := by
  apply (Prog.knows_bind _ _).2
  apply (Service.keeps_fetchTask workerId K h).mono
  rintro K' (e | flow) hK
  · exact ⟨hK, trivial⟩
  · cases flow with
    | again => exact ⟨hK, workerId, rfl⟩
    | done => exact ⟨hK, trivial⟩

theorem program_sourced (call : Call) : (program call).Knows Cmd.sourced (ended call) [] := by
  have h : Idle [] := ⟨rfl, .inl rfl⟩
  cases call with
  | userSubmitTask creatorId req =>
    exact once_sourced h (Service.keeps_userSubmitTask creatorId req) fun _ _ => trivial
  | userBatchSubmitTasks userId reqs =>
    exact once_sourced h (.ite _ (.fail _) (Service.keeps_submitTasks userId reqs))
      fun _ _ => trivial
  | userChangeTask userId uuid req =>
    exact once_sourced h (Service.keeps_userChangeTask userId uuid req) fun _ _ => trivial
  | userChangeTaskLabels userId uuid labels =>
    apply (Fallible.knows_once _ _).2
    apply (Service.userChangeTaskLabels_sourced h).mono
    rintro K (e | a) ⟨hK, ht⟩
    · exact ⟨hK, trivial⟩
    · exact ⟨hK, ht a rfl⟩
  | userCancelTask userId uuid =>
    exact once_sourced h (Service.keeps_userCancelTask userId uuid) fun _ _ => trivial
  | cancelTasksByFilter userId req =>
    exact once_sourced h (Service.keeps_cancelTasksByFilter userId req) fun _ _ => trivial
  | cancelTasksByUuids userId uuids =>
    exact once_sourced h (Service.keeps_cancelTasksByUuids userId uuids) fun _ _ => trivial
  | unregisterWorker id =>
    have hp : Fallible.Keeps Cmd.sourced Idle (Service.unregisterWorker id) :=
      (Service.keeps_select _).bind fun _ => (Fallible.Keeps.okOr _ _).bind fun _ =>
        Service.keeps_removeWorker _ _
    exact once_sourced h hp fun _ _ => trivial
  | removeWorkerByUuid uuid op =>
    have hp : Fallible.Keeps Cmd.sourced Idle (Service.removeWorkerByUuid uuid op) :=
      (Service.keeps_findWorker uuid).bind fun _ => Service.keeps_shutdownWorker _ _ _
    exact once_sourced h hp fun _ _ => trivial
  | userRemoveWorkerByUuid userId uuid op =>
    have hp : Fallible.Keeps Cmd.sourced Idle (Service.userRemoveWorkerByUuid userId uuid op) :=
      (Service.keeps_findWorker uuid).bind fun _ => (Service.keeps_select _).bind fun _ =>
        (Fallible.Keeps.okOr _ _).bind fun _ => Service.keeps_shutdownWorker _ _ _
    exact once_sourced h hp fun _ _ => trivial
  | heartbeat id => exact once_sourced h (Service.keeps_heartbeat id) fun _ _ => trivial
  | handleTimeout id => exact once_sourced h (Service.keeps_handleTimeout id) fun _ _ => trivial
  | shutdownWorkersByFilter userId req =>
    exact once_sourced h (Service.keeps_shutdownWorkersByFilter userId req) fun _ _ => trivial
  | shutdownWorkersByUuids userId uuids op =>
    exact once_sourced h (Service.keeps_shutdownWorkersByUuids userId uuids op) fun _ _ => trivial
  | fetchTask workerId => exact fetchTask_again h
  | reportTask workerId workerUuid taskId op =>
    exact once_sourced h (Service.keeps_reportTask workerId workerUuid taskId op)
      fun _ _ => trivial
  | getTaskByUuid uuid =>
    apply (Fallible.knows_once _ _).2
    apply (Service.getTaskByUuid_sourced uuid).mono
    rintro K r ⟨hK, hr⟩
    exact ⟨hK, r, rfl, hr⟩
  | findTaskByUuid uuid =>
    apply (Fallible.knows_once _ _).2
    apply (Service.findTaskByUuid_sourced uuid).mono
    rintro K r ⟨hK, hr⟩
    exact ⟨hK, r, rfl, hr⟩
  | queryTasksByFilter userId query =>
    apply (Fallible.knows_once _ _).2
    apply (Service.queryTasksByFilter_sourced h).mono
    rintro K r ⟨hK, hr⟩
    exact ⟨hK, r, rfl, hr⟩

theorem program_again (call : Call) (K : History) (h : ended call K .again) :
    (program call).Knows Cmd.sourced (ended call) K := by
  obtain ⟨hK, workerId, rfl⟩ := h
  exact fetchTask_again hK

theorem traced {ok : State → Act Call Chance Env → Prop}
    (hp : Path (Sessions.step system) ok (initial db clock) as s) :
    s.Traced (fun _ => Cmd.sourced) ended :=
  traced_of_path program_sourced program_again hp rfl rfl

end Tasks
end Mitosis
