import Mitosis.Cancel

namespace Mitosis
set_option autoImplicit true

namespace Cancel
open Sessions

abbrev Event : Type := Sent Cmd Cmd.Resp Call

abbrev History : Type := Fallible.History Cmd Cmd.Ret Error

def State.ready (s : State) : Act Call Chance Env → Bool
  | .step i ⟨none, _⟩ =>
    match s.next i with
    | some (.deleteActive id) =>
      (s.shared.txns.committed.activeTasks.find id).any fun task => task.state = .ready
    | _ => true
  | _ => true

/-- What the open transaction of a session has written, latest first. -/
def txn : History → Option (List Write)
  | [] => none
  | ⟨.start, .ok _⟩ :: _ => some []
  | ⟨.commit, _⟩ :: _ => none
  | ⟨.rollback, _⟩ :: _ => none
  | ⟨.insertArchived id task, .ok _⟩ :: K => (txn K).map (.addArchived id task :: ·)
  | ⟨.deleteActive id, .ok _⟩ :: K => (txn K).map (.dropActive id :: ·)
  | _ :: K => txn K

def Committed (K : History) (t : TaskId) (archived : ArchivedTask) : Prop :=
  ∃ K', (⟨.commit, .ok ()⟩ :: K' : History) <:+ K ∧
    txn K' = some [.dropActive t, .addArchived t archived]

def Cancels (call : Call) (K : History) (t : TaskId) (archived : ArchivedTask) : Prop :=
  ∃ userId uuid task time, call = .userCancelTask userId uuid ∧
    ⟨.readyTask uuid, .ok (some (t, task))⟩ ∈ K ∧ archived = Db.cancelledTask time task

theorem Cancels.mono (h : Cancels call K t archived) (hK : K ⊆ K') :
    Cancels call K' t archived := by
  obtain ⟨userId, uuid, task, time, hcall, hm, ha⟩ := h
  exact ⟨userId, uuid, task, time, hcall, hK hm, ha⟩

theorem Committed.mono (h : Committed K t archived) (hK : K <:+ K') :
    Committed K' t archived := by
  obtain ⟨K₁, hs, ht⟩ := h
  exact ⟨K₁, hs.trans hK, ht⟩

def Assigned (K : History) (w : WorkerId) (t : TaskId) : Prop :=
  ∃ time task, ⟨.assignTask w t time, .ok (some task)⟩ ∈ K

def Cmd.sourced (call : Call) (K : History) : Cmd → Prop
  | .start => txn K = none
  | .readyTask _ => txn K = some []
  | .insertArchived t archived => txn K = some [] ∧ Cancels call K t archived
  | .deleteActive t => ∃ archived, txn K = some [.addArchived t archived]
  | .commit => ∃ t archived, txn K = some [.dropActive t, .addArchived t archived]
  | .assignTask _ _ _ => txn K = none
  | .linkWorker w t _ => txn K = none ∧ Assigned K w t
  | _ => True

def ended (call : Call) (K : History) : Flow (Except Error Reply) → Prop
  | .again => txn K = none
  | .done (.ok .cancelled) => ∃ t archived, Committed K t archived ∧ Cancels call K t archived
  | .done (.ok (.fetched (some resp))) => ∃ w, Assigned K w resp.id
  | _ => True

namespace Service
open Fallible (fail attempt okOr)

theorem knows_issue {need : History → Cmd → Prop} (c : Cmd)
    {post : History → Except Error c.Ret → Prop} : Fallible.Knows need K (issue c) post ↔
      need K c ∧ ∀ r, post (⟨c, r⟩ :: K) r := .rfl

theorem archiveReady_sourced (h : txn K = some []) : Fallible.Knows
    (Cmd.sourced (.userCancelTask userId uuid)) K (archiveReady userId uuid) fun K' r =>
      ∀ t, r = .ok t → ∃ archived, txn K' = some [.dropActive t, .addArchived t archived] ∧
        Cancels (.userCancelTask userId uuid) K' t archived := by
  unfold archiveReady
  rw [Fallible.knows_bind, knows_issue]
  refine ⟨h, fun r => ?_⟩
  cases r with
  | error e =>
    intro t ht
    cases ht
  | ok found =>
    dsimp only
    rw [Fallible.knows_bind, Fallible.knows_okOr]
    constructor
    · rintro ⟨t, task⟩ rfl
      dsimp only
      rw [Fallible.knows_bind, knows_issue]
      refine ⟨trivial, fun r => ?_⟩
      cases r with
      | error e =>
        intro t ht
        cases ht
      | ok role =>
        dsimp only
        rw [Fallible.knows_bind, Fallible.knows_okOr]
        constructor
        · rintro role rfl
          dsimp only
          split
          next =>
            intro t ht
            cases ht
          next =>
            rw [Fallible.knows_bind, knows_issue]
            refine ⟨trivial, fun r => ?_⟩
            cases r with
            | error e =>
              intro t ht
              cases ht
            | ok time =>
              have hc : Cancels (.userCancelTask userId uuid)
                  (⟨.now, .ok time⟩ :: ⟨.userGroupRole userId task.groupId, .ok (some role)⟩ ::
                    ⟨.readyTask uuid, .ok (some (t, task))⟩ :: K) t
                  (Db.cancelledTask time task) :=
                ⟨userId, uuid, task, time, rfl, .tail _ (.tail _ (.head _)), rfl⟩
              dsimp only
              rw [Fallible.knows_bind, knows_issue]
              refine ⟨⟨h, hc⟩, fun r => ?_⟩
              cases r with
              | error e =>
                intro t ht
                cases ht
              | ok _ =>
                dsimp only
                rw [Fallible.knows_bind, knows_issue]
                have ht : txn (⟨.insertArchived t (Db.cancelledTask time task), .ok ()⟩ ::
                    ⟨.now, .ok time⟩ :: ⟨.userGroupRole userId task.groupId, .ok (some role)⟩ ::
                    ⟨.readyTask uuid, .ok (some (t, task))⟩ :: K) =
                    some [.addArchived t (Db.cancelledTask time task)] :=
                  congrArg (Option.map _) h
                refine ⟨⟨_, ht⟩, fun r => ?_⟩
                cases r with
                | error e =>
                  intro t ht
                  cases ht
                | ok _ =>
                  rintro t' ⟨⟩
                  exact ⟨_, congrArg (Option.map _) ht, hc.mono
                    (List.Subset.trans (List.subset_cons_self _ _) (List.subset_cons_self _ _))⟩
        · intro _ t ht
          cases ht
    · intro _ t ht
      cases ht

theorem transaction_sourced (h : txn K = none) : Fallible.Knows
    (Cmd.sourced (.userCancelTask userId uuid)) K (transaction (archiveReady userId uuid))
      fun K' r => ∀ t, r = .ok t → ∃ archived, Committed K' t archived ∧
        Cancels (.userCancelTask userId uuid) K' t archived := by
  unfold transaction
  rw [Fallible.knows_bind, knows_issue]
  refine ⟨h, fun r => ?_⟩
  cases r with
  | error e =>
    intro t ht
    cases ht
  | ok _ =>
    dsimp only
    rw [Fallible.knows_bind, Fallible.knows_attempt]
    apply (archiveReady_sourced rfl).mono
    intro K₁ r hr
    cases r with
    | error e =>
      dsimp only
      rw [Fallible.knows_bind, knows_issue]
      refine ⟨trivial, fun r => ?_⟩
      cases r with
      | error e =>
        intro t ht
        cases ht
      | ok _ =>
        intro t ht
        cases ht
    | ok t =>
      obtain ⟨archived, ht, hc⟩ := hr t rfl
      dsimp only
      rw [Fallible.knows_bind, knows_issue]
      refine ⟨⟨t, archived, ht⟩, fun r => ?_⟩
      cases r with
      | error e =>
        intro t ht
        cases ht
      | ok _ =>
        rintro t' ⟨⟩
        exact ⟨archived, ⟨K₁, List.suffix_refl _, ht⟩, hc.mono (List.subset_cons_self _ _)⟩

def iterated (w : WorkerId) (K : History) : Except Error (Flow (Option WorkerTaskResp)) → Prop
  | .ok .again => txn K = none
  | .ok (.done (some resp)) => Assigned K w resp.id
  | _ => True

theorem fetchTask_sourced (h : txn K = none) : Fallible.Knows
    (Cmd.sourced (.fetchTask w)) K (fetchTask w) (iterated w) := by
  unfold fetchTask
  rw [Fallible.knows_bind, knows_issue]
  refine ⟨trivial, fun r => ?_⟩
  cases r with
  | error e => trivial
  | ok _ =>
    dsimp only
    rw [Fallible.knows_bind, knows_issue]
    refine ⟨trivial, fun r => ?_⟩
    cases r with
    | error e => trivial
    | ok popped =>
      cases popped with
      | none => trivial
      | some t =>
        dsimp only
        rw [Fallible.knows_bind, knows_issue]
        refine ⟨trivial, fun r => ?_⟩
        cases r with
        | error e => trivial
        | ok time =>
          dsimp only
          rw [Fallible.knows_bind, knows_issue]
          refine ⟨h, fun r => ?_⟩
          cases r with
          | error e => trivial
          | ok assigned =>
            cases assigned with
            | none => exact h
            | some task =>
              dsimp only
              rw [Fallible.knows_bind, knows_issue]
              refine ⟨⟨h, time, task, .head _⟩, fun r => ?_⟩
              cases r with
              | error e => trivial
              | ok _ => exact ⟨time, task, .tail _ (.head _)⟩

end Service

theorem program_sourced (call : Call) (h : txn K = none) :
    (program call).Knows (Cmd.sourced call) (ended call) K := by
  cases call with
  | userCancelTask userId uuid =>
    rw [program, Fallible.knows_once, Service.userCancelTask, Fallible.knows_bind]
    apply (Service.transaction_sourced h).mono
    intro K₁ r hr
    cases r with
    | error e => trivial
    | ok t =>
      obtain ⟨archived, hm, hc⟩ := hr t rfl
      dsimp only
      rw [Fallible.knows_bind, Fallible.knows_attempt, Service.knows_issue]
      refine ⟨trivial, fun r => ?_⟩
      exact ⟨t, archived, hm.mono (List.suffix_cons _ _), hc.mono (List.subset_cons_self _ _)⟩
  | fetchTask w =>
    apply (Prog.knows_bind _ _).2
    apply (Service.fetchTask_sourced h).mono
    intro K₁ r hr
    rcases r with e | (_ | (_ | resp))
    · trivial
    · exact hr
    · trivial
    · exact ⟨w, hr⟩

/-- What a write of an open transaction was made from is still so. -/
def Write.current (w : Write) (db : Db) : Prop :=
  match w with
  | .addArchived t _ => db.archivedTasks.find t = none
  | .dropActive t => ∃ task, db.activeTasks.find t = some task ∧ task.state = .ready
  | _ => False

theorem Write.current_apply (w w' : Write) (db : Db)
    (h : ∀ k ∈ RowWrite.rows w, k ∉ RowWrite.rows (κ := Row) w') (hc : w.current db) :
    w.current (RowWrite.apply w' db) := by
  cases w with
  | addArchived t =>
    cases w' with
    | addArchived t' archived =>
      have hne : t ≠ t' := by
        rintro rfl
        exact h _ (.head _) (.head _)
      exact (Table.find_set_ne _ _ hne).trans hc
    | _ => exact hc
  | dropActive t =>
    obtain ⟨task, ht, hs⟩ := hc
    cases w' with
    | dropActive t' =>
      have hne : t ≠ t' := by
        rintro rfl
        exact h _ (.head _) (.head _)
      exact ⟨task, (Table.find_erase_ne _ hne).trans ht, hs⟩
    | assign w t' =>
      have hne : t ≠ t' := by
        rintro rfl
        exact h _ (.head _) (.head _)
      exact ⟨task, (Table.find_update_ne _ _ hne).trans ht, hs⟩
    | _ => exact ⟨task, ht, hs⟩
  | _ => exact hc.elim

def Unlinked (db : Db) (t : TaskId) : Prop :=
  ∀ w row, db.workers.find w = some row → row.assignedTaskId ≠ some t

def Free (db : Db) : Prop :=
  ∀ t task, db.activeTasks.find t = some task → task.state = .ready →
    task.assignedWorker = none ∧ Unlinked db t

/-- The task is archived as `archived` and not active. -/
structure Gone (db : Db) (t : TaskId) (archived : ArchivedTask) : Prop where
  inactive : db.activeTasks.find t = none
  archived : db.archivedTasks.find t = some archived
  unlinked : Unlinked db t

def Asked (e : Entry Cmd Cmd.Resp) : Prop :=
  match e with
  | ⟨.readyTask uuid, .ok (some (_, task))⟩ => task.uuid = uuid ∧ task.assignedWorker = none
  | _ => True

/-- What holds of the database and of what the sessions have done. -/
structure Invariant (x : Txns Db Write) (log : List Event) : Prop where
  opened : ∀ i, x.opened.find i = (txn (history i log)).map List.reverse
  guarded : Txns.Guarded Write.current x
  asked : ∀ e ∈ log, Asked e.entry
  free : Free x.committed
  running : ∀ i w t, Assigned (history i log) w t →
    ∃ task, x.committed.activeTasks.find t = some task ∧ task.state ≠ .ready
  gone : ∀ i t archived, Committed (history i log) t archived → Gone x.committed t archived

variable {log : List Event}

theorem opened_concat {opened opened' : Table Nat (List Write)}
    (h : ∀ j, opened.find j = (txn (history j log)).map List.reverse)
    (hne : ∀ j, j ≠ i → opened'.find j = opened.find j)
    (hi : opened'.find i = (txn (e :: history i log)).map List.reverse) (j : Nat) :
    opened'.find j = (txn (history j (log ++ [⟨i, k, e⟩]))).map List.reverse := by
  by_cases hj : j = i
  · subst hj
    rw [history_concat_self]
    exact hi
  · rw [history_concat_ne _ _ _ hj, hne j hj]
    exact h j

theorem asked_concat (h : ∀ e ∈ log, Asked e.entry) (he : Asked e) :
    ∀ e' ∈ log ++ [⟨i, k, e⟩], Asked e'.entry := by
  intro e' he'
  rcases List.mem_append.1 he' with he' | he'
  · exact h e' he'
  · obtain rfl := List.mem_singleton.1 he'
    exact he

theorem assigned_concat (h : Assigned (history j (log ++ [⟨i, k, e⟩])) w t) :
    Assigned (history j log) w t ∨ ∃ time task, e = ⟨.assignTask w t time, .ok (some task)⟩ := by
  by_cases hj : j = i
  · subst hj
    rw [history_concat_self] at h
    obtain ⟨time, task, hm⟩ := h
    rcases List.mem_cons.1 hm with he | hm
    · exact .inr ⟨time, task, he.symm⟩
    · exact .inl ⟨time, task, hm⟩
  · rw [history_concat_ne _ _ _ hj] at h
    exact .inl h

theorem committed_concat (h : Committed (history j (log ++ [⟨i, k, e⟩])) t archived) :
    Committed (history j log) t archived ∨
      j = i ∧ e = ⟨.commit, .ok ()⟩ ∧
        txn (history i log) = some [.dropActive t, .addArchived t archived] := by
  by_cases hj : j = i
  · subst hj
    rw [history_concat_self] at h
    obtain ⟨K, hs, ht⟩ := h
    rcases List.suffix_cons_iff.1 hs with he | hs
    · obtain ⟨rfl, rfl⟩ := List.cons.inj he
      exact .inr ⟨rfl, rfl, ht⟩
    · exact .inl ⟨K, hs, ht⟩
  · rw [history_concat_ne _ _ _ hj] at h
    exact .inl h

theorem Invariant.keep (h : Invariant x log) (hc : x'.committed = x.committed)
    (hg : Txns.Guarded Write.current x')
    (hne : ∀ j, j ≠ i → x'.opened.find j = x.opened.find j)
    (hi : x'.opened.find i = (txn (e :: history i log)).map List.reverse) (ha : Asked e)
    (hassign : ∀ w t time task, e ≠ ⟨.assignTask w t time, .ok (some task)⟩)
    (hcommit : e ≠ ⟨.commit, .ok ()⟩) : Invariant x' (log ++ [⟨i, k, e⟩]) := by
  constructor
  · exact opened_concat h.opened hne hi
  · exact hg
  · exact asked_concat h.asked ha
  · rw [hc]
    exact h.free
  · intro j w t hj
    rw [hc]
    rcases assigned_concat hj with hj | ⟨time, task, he⟩
    · exact h.running j w t hj
    · exact (hassign w t time task he).elim
  · intro j t archived hj
    rw [hc]
    rcases committed_concat hj with hj | ⟨-, he, -⟩
    · exact h.gone j t archived hj
    · exact (hcommit he).elim

theorem Invariant.still {e : Entry Cmd Cmd.Resp} (h : Invariant x log)
    (ht : txn (e :: history i log) = txn (history i log)) (ha : Asked e)
    (hassign : ∀ w t time task, e ≠ ⟨.assignTask w t time, .ok (some task)⟩)
    (hcommit : e ≠ ⟨.commit, .ok ()⟩) : Invariant x (log ++ [⟨i, k, e⟩]) := by
  apply h.keep rfl h.guarded (fun _ _ => rfl) _ ha hassign hcommit
  rw [ht]
  exact h.opened i

theorem Invariant.write {c : Cmd} {r : c.Resp} {w : Write} (h : Invariant x log)
    (hold : txn (history i log) = some us)
    (hnew : txn (⟨c, r⟩ :: history i log) = some (w :: us))
    (hl : x.locked i w.rows = false) (hc : w.current x.committed) (ha : Asked ⟨c, r⟩)
    (hassign : ∀ w' t time, c ≠ .assignTask w' t time) (hcommit : c ≠ .commit) :
    Invariant (x.write i [w]) (log ++ [⟨i, k, c, r⟩]) := by
  have hi : x.opened.find i = some us.reverse := by rw [h.opened, hold, Option.map_some]
  have hw : x.write i [w] = { x with opened := x.opened.set i (us.reverse ++ [w]) } := by
    rw [Txns.write, hi]
  apply h.keep
  · rw [hw]
  · apply Txns.Guarded.write Write.current_apply h.guarded hl
    · intro w' hm k hk
      obtain rfl := List.mem_singleton.1 hm
      exact hk
    · intro _ w' hm
      obtain rfl := List.mem_singleton.1 hm
      exact hc
  · intro j hj
    rw [hw]
    exact Table.find_set_ne _ _ hj
  · rw [hw, hnew, Table.find_set_self, Option.map_some, List.reverse_cons]
  · exact ha
  · intro w' t time task he
    exact hassign w' t time (congrArg Sigma.fst he)
  · intro he
    exact hcommit (congrArg Sigma.fst he)

theorem Invariant.commit (h : Invariant x log)
    (hn : txn (history i log) = some [.dropActive t, .addArchived t archived]) :
    Invariant (x.commit i) (log ++ [⟨i, k, .commit, .ok ()⟩]) := by
  have hi : x.opened.find i = some [.addArchived t archived, .dropActive t] := by
    rw [h.opened, hn]
    rfl
  obtain ⟨task, ht, hs⟩ := h.guarded.current i _ (.dropActive t) hi (.tail _ (.head _))
  have hview : (x.commit i).committed =
      (Write.dropActive t).apply ((Write.addArchived t archived).apply x.committed) := by
    rw [Txns.commit, Txns.view, hi]
    rfl
  have hactive : ∀ t', (x.commit i).committed.activeTasks.find t' =
      if t' = t then none else x.committed.activeTasks.find t' := by
    intro t'
    rw [hview]
    exact Table.find_erase _ _ _
  have hworkers : (x.commit i).committed.workers = x.committed.workers := by
    rw [hview]
    rfl
  have harchived : ∀ t', (x.commit i).committed.archivedTasks.find t' =
      if t' = t then some archived else x.committed.archivedTasks.find t' := by
    intro t'
    rw [hview]
    exact Table.find_set _ _ _ _
  have hunlinked : ∀ t', Unlinked x.committed t' → Unlinked (x.commit i).committed t' := by
    intro t' hu w row hr
    rw [hworkers] at hr
    exact hu w row hr
  have hnew : Gone (x.commit i).committed t archived := by
    constructor
    · rw [hactive, if_pos rfl]
    · rw [harchived, if_pos rfl]
    · exact hunlinked t (h.free t task ht hs).2
  constructor
  · apply opened_concat h.opened
    · intro j hj
      exact Table.find_erase_ne _ hj
    · exact Table.find_erase_self _ _
  · exact Txns.Guarded.commit Write.current_apply h.guarded i
  · exact asked_concat h.asked trivial
  · intro t' task' ht' hs'
    rw [hactive] at ht'
    split at ht'
    next => cases ht'
    next =>
      obtain ⟨ha, hu⟩ := h.free t' task' ht' hs'
      exact ⟨ha, hunlinked t' hu⟩
  · intro j w t' hj
    rcases assigned_concat hj with hj | ⟨time, task', he⟩
    · obtain ⟨task', ht', hs'⟩ := h.running j w t' hj
      have hne : t' ≠ t := by
        rintro rfl
        obtain rfl := Option.some.inj (ht.symm.trans ht')
        exact hs' hs
      refine ⟨task', ?_, hs'⟩
      rw [hactive, if_neg hne]
      exact ht'
    · cases he
  · intro j t' archived' hj
    rcases committed_concat hj with hj | ⟨-, -, htxn⟩
    · have hg := h.gone j t' archived' hj
      have hne : t' ≠ t := by
        rintro rfl
        cases hg.inactive.symm.trans ht
      constructor
      · rw [hactive, if_neg hne]
        exact hg.inactive
      · rw [harchived, if_neg hne]
        exact hg.archived
      · exact hunlinked t' hg.unlinked
    · obtain ⟨⟩ := hn.symm.trans htxn
      exact hnew

theorem assignTask_cases (w : WorkerId) (t : TaskId) (time : Instant) (db : Db) :
    ((assignTask w t time db).waits = [] ∧
      (assignTask w t time db).result = .ok (none, [])) ∨
    ∃ task, db.activeTasks.find t = some task ∧ task.state = .ready ∧
      (assignTask w t time db).waits = [.active t] ∧
      (assignTask w t time db).result = .ok (some { task with
        assignedWorker := some w, updatedAt := time, state := .running },
        [.assign w t time]) := by
  unfold assignTask
  cases hf : db.activeTasks.find t with
  | none => exact .inl ⟨rfl, rfl⟩
  | some task =>
    dsimp only
    split
    next hc => exact .inr ⟨task, rfl, hc.2, rfl, rfl⟩
    next => exact .inl ⟨rfl, rfl⟩

theorem write_alone {x : Txns Db Write} {w : Write} (hi : x.opened.find i = none) :
    x.write i [w] = { x with committed := w.apply x.committed } := by
  rw [Txns.write, hi]
  rfl

theorem Invariant.assign {r : Except Error (Option ActiveTask)} (h : Invariant x log)
    (hn : txn (history i log) = none)
    (hx : x.execute i (assignTask w t time) = some (r, x')) :
    Invariant x' (log ++ [⟨i, k, .assignTask w t time, r⟩]) := by
  have hi : x.opened.find i = none := by rw [h.opened, hn, Option.map_none]
  have hview : x.view i = x.committed := by
    rw [Txns.view, hi]
    rfl
  obtain ⟨hl, hr⟩ := Txns.execute_cases hx
  rw [hview] at hl hr
  obtain ⟨-, hres⟩ | ⟨task, ht, hs, hwaits, hres⟩ := assignTask_cases w t time x.committed
  · rw [hres] at hr
    obtain ⟨e, -, he, -⟩ | ⟨a, ws, rfl, he, rfl⟩ := hr
    · cases he
    · obtain ⟨⟩ := he
      have hsame : x.write i ([] : List Write) = x := by
        rw [Txns.write, hi]
        rfl
      rw [hsame]
      apply h.still
      · rfl
      · trivial
      · intro w' t' time' task' he
        cases he
      · intro he
        cases he
  · rw [hres] at hr
    rw [hwaits] at hl
    obtain ⟨e, -, he, -⟩ | ⟨a, ws, rfl, he, rfl⟩ := hr
    · cases he
    · obtain ⟨⟩ := he
      have hg : Txns.Guarded Write.current (x.write i [Write.assign w t time]) := by
        apply Txns.Guarded.write Write.current_apply h.guarded hl
        · intro w' hm k hk
          obtain rfl := List.mem_singleton.1 hm
          exact hk
        · intro ho
          rw [hi] at ho
          cases ho
      rw [write_alone hi] at hg ⊢
      have hactive : ∀ t', ((Write.assign w t time).apply x.committed).activeTasks.find t' =
          if t' = t then (x.committed.activeTasks.find t').map fun task =>
            { task with assignedWorker := some w, updatedAt := time, state := .running }
          else x.committed.activeTasks.find t' := fun t' => Table.find_update _ _ _ _
      constructor
      · exact opened_concat h.opened (fun _ _ => rfl) (h.opened i)
      · exact hg
      · exact asked_concat h.asked trivial
      · intro t' task' ht' hs'
        dsimp only at ht'
        rw [hactive] at ht'
        split at ht'
        next =>
          obtain ⟨task'', -, rfl⟩ := Option.map_eq_some_iff.1 ht'
          cases hs'
        next => exact h.free t' task' ht' hs'
      · intro j w' t' hj
        dsimp only
        rw [hactive]
        by_cases hne : t' = t
        · subst hne
          rw [if_pos rfl, ht]
          exact ⟨_, rfl, TaskState.noConfusion⟩
        · rw [if_neg hne]
          rcases assigned_concat hj with hj | ⟨time', task', he⟩
          · exact h.running j w' t' hj
          · cases he
            exact (hne rfl).elim
      · intro j t' archived hj
        rcases committed_concat hj with hj | ⟨-, he, -⟩
        · have hgone := h.gone j t' archived hj
          have hne : t' ≠ t := by
            rintro rfl
            cases hgone.inactive.symm.trans ht
          constructor
          · dsimp only
            rw [hactive, if_neg hne]
            exact hgone.inactive
          · exact hgone.archived
          · exact hgone.unlinked
        · cases he

/-- The update of the worker's row, behind the one of the task. -/
theorem Invariant.link {r : Except Error Unit} (h : Invariant x log)
    (hn : txn (history i log) = none) (ha : Assigned (history i log) w t)
    (hx : x.execute i (linkWorker w t time) = some (r, x')) :
    Invariant x' (log ++ [⟨i, k, .linkWorker w t time, r⟩]) := by
  have hi : x.opened.find i = none := by rw [h.opened, hn, Option.map_none]
  have hview : x.view i = x.committed := by
    rw [Txns.view, hi]
    rfl
  obtain ⟨hl, hr⟩ := Txns.execute_cases hx
  rw [hview] at hl hr
  unfold linkWorker at hl hr
  obtain ⟨task, ht, hs⟩ := h.running i w t ha
  cases hw : x.committed.workers.find w with
  | none =>
    rw [hw] at hr
    obtain ⟨e, rfl, -, rfl⟩ | ⟨a, ws, rfl, he, rfl⟩ := hr
    · apply h.still
      · rfl
      · trivial
      · intro w' t' time' task' he
        cases he
      · intro he
        cases he
    · cases he
  | some row =>
    rw [hw] at hl hr
    obtain ⟨e, -, he, -⟩ | ⟨a, ws, rfl, he, rfl⟩ := hr
    · cases he
    · obtain ⟨⟩ := he
      have hg : Txns.Guarded Write.current (x.write i [Write.link w t time]) := by
        apply Txns.Guarded.write Write.current_apply h.guarded hl
        · intro w' hm k hk
          obtain rfl := List.mem_singleton.1 hm
          exact hk
        · intro ho
          rw [hi] at ho
          cases ho
      rw [write_alone hi] at hg ⊢
      have hunlinked : ∀ t', t' ≠ t → Unlinked x.committed t' →
          Unlinked ((Write.link w t time).apply x.committed) t' := by
        intro t' hne hu w' row' hr' he
        change (x.committed.workers.update w _).find w' = some row' at hr'
        rw [Table.find_update] at hr'
        split at hr'
        next =>
          obtain ⟨row'', -, rfl⟩ := Option.map_eq_some_iff.1 hr'
          exact hne (Option.some.inj he).symm
        next => exact hu w' row' hr' he
      constructor
      · exact opened_concat h.opened (fun _ _ => rfl) (h.opened i)
      · exact hg
      · exact asked_concat h.asked trivial
      · intro t' task' ht' hs'
        have hne : t' ≠ t := by
          rintro rfl
          obtain rfl := Option.some.inj (ht.symm.trans ht')
          exact hs hs'
        obtain ⟨hnone, hu⟩ := h.free t' task' ht' hs'
        exact ⟨hnone, hunlinked t' hne hu⟩
      · intro j w' t' hj
        rcases assigned_concat hj with hj | ⟨time', task', he⟩
        · exact h.running j w' t' hj
        · cases he
      · intro j t' archived hj
        rcases committed_concat hj with hj | ⟨-, he, -⟩
        · have hgone := h.gone j t' archived hj
          have hne : t' ≠ t := by
            rintro rfl
            cases hgone.inactive.symm.trans ht
          exact ⟨hgone.inactive, hgone.archived, hunlinked t' hne hgone.unlinked⟩
        · cases he

theorem Invariant.insert {r : Except Error Unit} (h : Invariant x log)
    (hn : txn (history i log) = some [])
    (hx : x.execute i (insertArchived t archived) = some (r, x')) :
    Invariant x' (log ++ [⟨i, k, .insertArchived t archived, r⟩]) := by
  have hi : x.opened.find i = some [] := by
    rw [h.opened, hn]
    rfl
  have hview : x.view i = x.committed := by
    rw [Txns.view, hi]
    rfl
  obtain ⟨hl, ⟨e, rfl, -, rfl⟩ | ⟨a, ws, rfl, he, rfl⟩⟩ := Txns.execute_cases hx
  · apply h.still
    · rfl
    · trivial
    · intro w' t' time' task' he
      cases he
    · intro he
      cases he
  · rw [hview] at he
    simp only [insertArchived] at he
    split at he
    next => cases he
    next hc =>
      obtain ⟨⟩ := he
      apply h.write hn
      · exact congrArg (Option.map _) hn
      · exact hl
      · simp only [Db.archiveConflict, Bool.or_eq_true, not_or, Option.not_isSome_iff_eq_none] at hc
        exact hc.1
      · trivial
      · intro w' t' time' he
        cases he
      · intro he
        cases he

theorem Invariant.delete {r : Except Error Unit} (h : Invariant x log)
    (hn : txn (history i log) = some [.addArchived t archived])
    (hready : (x.committed.activeTasks.find t).any (fun task => task.state = .ready) = true)
    (hx : x.execute i (deleteActive t) = some (r, x')) :
    Invariant x' (log ++ [⟨i, k, .deleteActive t, r⟩]) := by
  have hi : x.opened.find i = some [.addArchived t archived] := by
    rw [h.opened, hn]
    rfl
  have hview : (x.view i).activeTasks = x.committed.activeTasks := by
    rw [Txns.view, hi]
    rfl
  obtain ⟨task, ht, hs⟩ := (Option.any_eq_true _ _).1 hready
  have hans : deleteActive t (x.view i) = ⟨[.active t], .ok ((), [.dropActive t])⟩ := by
    unfold deleteActive
    rw [hview, ht]
  obtain ⟨hl, hr⟩ := Txns.execute_cases hx
  rw [hans] at hl hr
  obtain ⟨e, -, he, -⟩ | ⟨a, ws, rfl, he, rfl⟩ := hr
  · cases he
  · obtain ⟨⟩ := he
    apply h.write hn
    · exact congrArg (Option.map _) hn
    · exact hl
    · exact ⟨task, ht, of_decide_eq_true hs⟩
    · trivial
    · intro w' t' time' he
      cases he
    · intro he
      cases he

theorem Invariant.read (h : Invariant x log) (hn : txn (history i log) = some []) :
    Invariant x (log ++ [⟨i, k, .readyTask uuid, .ok ((x.view i).findReadyTask uuid)⟩]) := by
  have hview : x.view i = x.committed := by
    rw [Txns.view, h.opened, hn]
    rfl
  rw [hview]
  apply h.still
  · rfl
  · cases hf : x.committed.findReadyTask uuid with
    | none => trivial
    | some found =>
      obtain ⟨t, task⟩ := found
      obtain ⟨ht, hp⟩ := Table.findWhere_some hf
      obtain ⟨huuid, hs⟩ := of_decide_eq_true hp
      exact ⟨huuid, (h.free t task ht hs).1⟩
  · intro w' t' time' task' he
    cases he
  · intro he
    cases he

theorem Invariant.rollback {c : Cmd} {r : c.Resp} (h : Invariant x log)
    (ht : txn (⟨c, r⟩ :: history i log) = none) (ha : Asked ⟨c, r⟩)
    (hassign : ∀ w t time, c ≠ .assignTask w t time)
    (hcommit : (⟨c, r⟩ : Entry Cmd Cmd.Resp) ≠ ⟨.commit, .ok ()⟩) :
    Invariant (x.rollback i) (log ++ [⟨i, k, c, r⟩]) := by
  apply h.keep
  · rfl
  · exact h.guarded.erase i
  · intro j hj
    exact Table.find_erase_ne _ hj
  · rw [ht]
    exact Table.find_erase_self _ _
  · exact ha
  · intro w t time task he
    exact hassign w t time (congrArg Sigma.fst he)
  · exact hcommit

theorem Invariant.failed (h : Invariant x.txns log) (c : Cmd) (e : DbErr) :
    Invariant (c.failed i e x).2.txns (log ++ [⟨i, k, c, (c.failed i e x).1⟩]) := by
  cases c with
  | commit =>
    apply h.rollback
    · rfl
    · trivial
    · intro w t time he
      cases he
    · intro he
      cases he
  | rollback =>
    apply h.rollback
    · rfl
    · trivial
    · intro w t time he
      cases he
    · intro he
      cases he
  | _ =>
    apply h.still
    · rfl
    · trivial
    · intro w t time task he
      cases he
    · intro he
      cases he

theorem Invariant.exec {x : Infra} {c : Cmd} {r : c.Resp} (h : Invariant x.txns log)
    (hn : c.sourced call (history i log))
    (hready : ∀ t, c = .deleteActive t → chance.fault = none →
      (x.txns.committed.activeTasks.find t).any (fun task => task.state = .ready) = true)
    (hx : c.exec i chance x = some (r, x')) : Invariant x'.txns (log ++ [⟨i, k, c, r⟩]) := by
  obtain ⟨fault, popped⟩ := chance
  cases fault with
  | some e =>
    have hf : c.failed i e x = (r, x') := Option.some.inj hx
    have hinv := h.failed (i := i) (k := k) c e
    rw [hf] at hinv
    exact hinv
  | none =>
    cases c with
    | readyTask uuid =>
      obtain ⟨⟩ := hx
      exact h.read hn
    | start =>
      obtain ⟨⟩ := hx
      apply h.keep
      · rfl
      · exact h.guarded.start i
      · intro j hj
        exact Table.find_set_ne _ _ hj
      · exact Table.find_set_self _ _ _
      · trivial
      · intro w t time task he
        cases he
      · intro he
        cases he
    | commit =>
      obtain ⟨⟩ := hx
      obtain ⟨t, archived, ht⟩ := hn
      exact h.commit ht
    | rollback =>
      obtain ⟨⟩ := hx
      apply h.rollback
      · rfl
      · trivial
      · intro w t time he
        cases he
      · intro he
        cases he
    | insertArchived t archived =>
      obtain ⟨⟨r', txns⟩, hr, he⟩ := Option.map_eq_some_iff.1 hx
      obtain ⟨⟩ := he
      exact h.insert hn.1 hr
    | deleteActive t =>
      obtain ⟨⟨r', txns⟩, hr, he⟩ := Option.map_eq_some_iff.1 hx
      obtain ⟨⟩ := he
      obtain ⟨archived, ht⟩ := hn
      exact h.delete ht (hready t rfl rfl) hr
    | assignTask w t time =>
      obtain ⟨⟨r', txns⟩, hr, he⟩ := Option.map_eq_some_iff.1 hx
      obtain ⟨⟩ := he
      exact h.assign hn hr
    | linkWorker w t time =>
      obtain ⟨⟨r', txns⟩, hr, he⟩ := Option.map_eq_some_iff.1 hx
      obtain ⟨⟩ := he
      exact h.link hn.1 hn.2 hr
    | userGroupRole | now | removeTask | sendFetch | recvFetch =>
      obtain ⟨⟩ := hx
      apply h.still
      · rfl
      · trivial
      · intro w t time task he
        cases he
      · intro he
        cases he

theorem Invariant.env {x : Infra} (h : Invariant x.txns log) (e : Env) :
    Invariant (e.run x).txns log := by
  cases e with
  | tick => exact h
  | roles userGroup =>
    constructor
    · exact h.opened
    · apply h.guarded.commits
      intro i ws w _ _ hw
      cases w <;> exact hw
    · exact h.asked
    · exact h.free
    · exact h.running
    · intro i t archived hc
      obtain ⟨hactive, harchived, hu⟩ := h.gone i t archived hc
      exact ⟨hactive, harchived, hu⟩

theorem Free.invariant (h : Free db) : Invariant ⟨db, .empty⟩ [] := by
  constructor
  · intro i
    rfl
  · exact Txns.Guarded.initial db
  · intro e he
    cases he
  · exact h
  · rintro i w t ⟨time, task, hm⟩
    cases hm
  · rintro i t archived ⟨K, hs, -⟩
    cases List.suffix_nil.1 hs

/-- A task that has been cancelled is with nobody, in every run in which what is deleted is still
ready. -/
theorem cancelled_unassigned (db : Db) (clock : Instant) (as : List (Act Call Chance Env))
    (s : State) (h₀ : Free db)
    (hp : Path (step system) (fun s a => State.ready s a = true) (initial db clock) as s)
    (i : Nat) (hi : s.pool[i]? = some ⟨.userCancelTask userId uuid, prog⟩)
    (hr : s.result i = some (.ok .cancelled)) :
    ∃ t archived, s.shared.txns.committed.archivedTasks.find t = some archived ∧
      archived.uuid = uuid ∧ archived.assignedWorker = none ∧
      (∀ j resp, s.result j = some (.ok (.fetched (some resp))) → resp.id ≠ t) ∧
      ∀ w row, s.shared.txns.committed.workers.find w = some row →
        row.assignedTaskId ≠ some t := by
  have hagain : ∀ k K, ended k K .again → (program k).Knows (Cmd.sourced k) (ended k) K :=
    fun k K hK => program_sourced k hK
  have hinv : Invariant s.shared.txns s.log := by
    apply log_invariant (P := fun x log => Invariant x.txns log) (fun k => program_sourced k rfl)
      hagain hp rfl rfl h₀.invariant
    · intro e x x' log h hx
      obtain ⟨⟩ := hx
      exact h.env e
    · intro s i k chance c p r x _ hok hi hn hx h
      apply h.exec hn _ hx
      rintro t rfl hf
      obtain ⟨fault, popped⟩ := chance
      obtain rfl : fault = none := hf
      have hnext : s.next i = some (.deleteActive t) := by
        rw [next, hi]
        rfl
      simp only [State.ready, hnext] at hok
      exact hok
  have htr := traced_of_path (fun k => program_sourced k rfl) hagain hp rfl rfl
  obtain ⟨th, hth, t, archived, hc, hcancels⟩ := htr.result hr
  obtain rfl := Option.some.inj (hi.symm.trans hth)
  obtain ⟨userId', uuid', task, time, hcall, hm, rfl⟩ := hcancels
  obtain ⟨⟩ := hcall
  obtain ⟨k, hlog⟩ := mem_history.1 hm
  obtain ⟨huuid, hnone⟩ := hinv.asked _ hlog
  have hgone := hinv.gone i t _ hc
  refine ⟨t, _, hgone.archived, huuid, hnone, ?_, hgone.unlinked⟩
  intro j resp hj
  obtain ⟨th', -, w, ha⟩ := htr.result hj
  obtain ⟨task', ht', -⟩ := hinv.running j w resp.id ha
  intro he
  rw [he, hgone.inactive] at ht'
  cases ht'

/-- What a command of the session `i` does while the others stand still. -/
def Cmd.alone (i : Nat) (c : Cmd) (x : Infra) (r : c.Resp) (x' : Infra) : Prop :=
  ∃ chance, c.exec i chance x = some (r, x')

theorem Cmd.alone_ok {c : Cmd} {a : c.Ret} (h : c.alone i x (.ok a) x')
    (hc : ∀ e, (c.failed i e x).1 ≠ .ok a) : ∃ popped, c.done i popped x = some (.ok a, x') := by
  obtain ⟨⟨fault, popped⟩, hx⟩ := h
  cases fault with
  | none => exact ⟨popped, hx⟩
  | some e => exact (hc e (congrArg Prod.fst (Option.some.inj hx))).elim

theorem archive_eq (db : Db) (t : TaskId) (archived : ArchivedTask)
    (h : db.archiveConflict t archived = false) :
    Db.archive (Table.empty.set t archived) db = .ok ((),
      (Write.dropActive t).apply ((Write.addArchived t archived).apply db)) := by
  have hrows : (Table.empty.set t archived).rows = [(t, archived)] := rfl
  have hdel : db.activeTasks.deleteWhere (fun id _ =>
      ((Table.empty.set t archived).find id).isSome) = db.activeTasks.erase t := by
    rw [Table.erase]
    congr 1
    funext id _
    rw [Table.find_set]
    split
    next he => simp only [he, Option.isSome_some, decide_true]
    next he => simp only [he, Table.find_empty, Option.isSome_none, decide_false]
  rw [Db.archive, hrows, List.any_cons, h]
  simp only [List.any_nil, Bool.or_false, Bool.false_eq_true, if_false, hdel, Table.merge, hrows,
    List.foldl_cons, List.foldl_nil]
  rfl

namespace Service

theorem view_write {x : Txns Db Write} {w : Write} (hi : x.opened.find i = some ws) :
    (x.write i [w]).view i = w.apply (x.view i) ∧ (x.write i [w]).opened.find i = some (ws ++ [w]) := by
  have hw : x.write i [w] = { x with opened := x.opened.set i (ws ++ [w]) } := by
    rw [Txns.write, hi]
  rw [hw]
  constructor
  · simp only [Txns.view, Table.find_set_self, hi, Option.getD_some, Txns.applyAll,
      List.foldl_append, List.foldl_cons, List.foldl_nil]
    rfl
  · exact Table.find_set_self _ _ _

theorem archiveReady_alone (hi : x.txns.opened.find i = some [])
    (h : Fallible.Runs (Cmd.alone i) (archiveReady userId uuid) x (.ok t) x') :
    x.txns.committed.cancelTask userId uuid x.clock = .ok (t, x'.txns.view i) := by
  have hview : x.txns.view i = x.txns.committed := by
    rw [Txns.view, hi]
    rfl
  unfold archiveReady at h
  obtain ⟨found, y, hs, h⟩ := (Fallible.runs_bind_ok _ _).1 h
  obtain ⟨_, hd⟩ := Cmd.alone_ok ((Fallible.runs_issue _).1 hs) fun e he => by cases he
  obtain ⟨⟩ := hd
  obtain ⟨⟨t', task⟩, y, ho, h⟩ := (Fallible.runs_bind_ok _ _).1 h
  obtain ⟨hf, rfl⟩ := (Fallible.runs_okOr_ok _ _).1 ho
  obtain ⟨role, y, hs, h⟩ := (Fallible.runs_bind_ok _ _).1 h
  obtain ⟨_, hd⟩ := Cmd.alone_ok ((Fallible.runs_issue _).1 hs) fun e he => by cases he
  obtain ⟨⟩ := hd
  obtain ⟨role, y, ho, h⟩ := (Fallible.runs_bind_ok _ _).1 h
  obtain ⟨hrole, rfl⟩ := (Fallible.runs_okOr_ok _ _).1 ho
  rw [hview] at hf hrole
  split at h
  next =>
    obtain ⟨he, -⟩ := (Fallible.runs_fail _).1 h
    cases he
  next hread =>
    obtain ⟨time, y, hs, h⟩ := (Fallible.runs_bind_ok _ _).1 h
    obtain ⟨⟨fault, popped⟩, hd⟩ := (Fallible.runs_issue _).1 hs
    have htime : time = x.clock ∧ x = y := by
      cases fault with
      | none | some =>
        obtain ⟨⟩ := hd
        exact ⟨rfl, rfl⟩
    obtain ⟨rfl, rfl⟩ := htime
    obtain ⟨_, y, hs, h⟩ := (Fallible.runs_bind_ok _ _).1 h
    obtain ⟨_, hd⟩ := Cmd.alone_ok ((Fallible.runs_issue _).1 hs) fun e he => by cases he
    obtain ⟨⟨r, txns⟩, hx, he⟩ := Option.map_eq_some_iff.1 hd
    obtain ⟨⟩ := he
    obtain ⟨-, ⟨e, he, -, -⟩ | ⟨_, ws, -, hins, rfl⟩⟩ := Txns.execute_cases hx
    · cases he
    · rw [hview] at hins
      simp only [Cancel.insertArchived] at hins
      split at hins
      next => cases hins
      next hconf =>
        obtain ⟨⟩ := hins
        obtain ⟨hv₁, hi₁⟩ := view_write (w := .addArchived t' (Db.cancelledTask x.clock task)) hi
        obtain ⟨_, z, hs, h⟩ := (Fallible.runs_bind_ok _ _).1 h
        obtain ⟨hp, rfl⟩ := (Fallible.runs_pure _).1 h
        obtain rfl : t' = t := Except.ok.inj hp
        obtain ⟨_, hd⟩ := Cmd.alone_ok ((Fallible.runs_issue _).1 hs) fun e he => by cases he
        obtain ⟨⟨r, txns⟩, hx, he⟩ := Option.map_eq_some_iff.1 hd
        obtain ⟨⟩ := he
        have hactive : x.txns.committed.activeTasks.find t' = some task :=
          (Table.findWhere_some hf).1
        have hans : Cancel.deleteActive t' ((x.txns.write i
            [Write.addArchived t' (Db.cancelledTask x.clock task)]).view i) =
              ⟨[.active t'], .ok ((), [.dropActive t'])⟩ := by
          rw [hv₁, hview]
          simp only [Cancel.deleteActive, Write.apply, hactive]
        obtain ⟨-, hdel⟩ := Txns.execute_cases hx
        rw [hans] at hdel
        obtain ⟨e, -, he, -⟩ | ⟨_, ws, -, hws, rfl⟩ := hdel
        · cases he
        · obtain ⟨⟩ := hws
          obtain ⟨hv₂, -⟩ := view_write (w := .dropActive t') hi₁
          dsimp only
          rw [hv₂, hv₁, hview]
          have hwriter : x.txns.committed.checkWriter userId task.groupId = .ok () := by
            have hfind : x.txns.committed.userGroup.find (userId, task.groupId) = some role := hrole
            rw [Db.checkWriter, hfind]
            cases role with
            | read => exact (hread rfl).elim
            | write | admin => rfl
          have hfound : x.txns.committed.findReadyTask uuid = some (t', task) := hf
          have harch := archive_eq x.txns.committed t' (Db.cancelledTask x.clock task)
            (Bool.eq_false_iff.2 hconf)
          unfold Db.cancelTask
          rw [hfound]
          simp only [hwriter, harch]
          rfl

/-- A cancellation that succeeds alone commits what the one statement does that stands for its
transaction elsewhere. -/
theorem userCancelTask_alone
    (h : Fallible.Runs (Cmd.alone i) (userCancelTask userId uuid) x (.ok ()) x') :
    ∃ t, x.txns.committed.cancelTask userId uuid x.clock = .ok (t, x'.txns.committed) := by
  unfold userCancelTask transaction at h
  obtain ⟨t, y, htxn, h⟩ := (Fallible.runs_bind_ok _ _).1 h
  obtain ⟨_, y₁, hs, htxn⟩ := (Fallible.runs_bind_ok _ _).1 htxn
  obtain ⟨_, hd⟩ := Cmd.alone_ok ((Fallible.runs_issue _).1 hs) fun e he => by cases he
  obtain ⟨⟩ := hd
  obtain ⟨r, y₂, ha, htxn⟩ := (Fallible.runs_bind_ok _ _).1 htxn
  obtain ⟨_, ha, he⟩ := (Fallible.runs_attempt _).1 ha
  obtain ⟨⟩ := he
  cases r with
  | error e =>
    obtain ⟨_, _, -, hf⟩ := (Fallible.runs_bind_ok _ _).1 htxn
    obtain ⟨he, -⟩ := (Fallible.runs_fail _).1 hf
    cases he
  | ok t' =>
    have hcancel := archiveReady_alone (Table.find_set_self _ _ _) ha
    obtain ⟨_, z, hc, hp⟩ := (Fallible.runs_bind_ok _ _).1 htxn
    obtain ⟨_, hd⟩ := Cmd.alone_ok ((Fallible.runs_issue _).1 hc) fun e he => by cases he
    obtain ⟨⟩ := hd
    obtain ⟨-, rfl⟩ := (Fallible.runs_pure _).1 hp
    -- the removal from the queues leaves the database
    obtain ⟨_, z, hr, h⟩ := (Fallible.runs_bind_ok _ _).1 h
    obtain ⟨_, hr, -⟩ := (Fallible.runs_attempt _).1 hr
    obtain ⟨⟨fault, popped⟩, hr⟩ := (Fallible.runs_issue _).1 hr
    obtain ⟨-, rfl⟩ := (Fallible.runs_pure _).1 h
    cases fault with
    | none | some =>
      obtain ⟨⟩ := hr
      exact ⟨t', hcancel⟩

end Service

namespace Demo

def db : Db where
  users := Table.empty.set 1 ⟨"u", .active⟩
  groups := Table.empty.set 1 ⟨"u", 0, .active, 1, 1000, 0⟩
  userGroup := Table.empty.set (1, 1) .admin
  workers := Table.empty.set 1 ⟨3, 1, [], [], 0, 0, .normal, 0, none⟩
  groupWorker := Table.empty.set (1, 1) .write
  activeTasks := Table.empty.set 1
    ⟨1, 1, 1, 7, [], [], 0, 0, .ready, none, 10, 0, ⟨[], [], [], false, none⟩, none, none, none⟩
  archivedTasks := .empty
  artifacts := .empty
  workerSeq := 2
  taskSeq := 2

def steps (i n : Nat) : List (Act Call Chance Env) := List.replicate n (.step i ⟨none, some 1⟩)

def drained (i n : Nat) : List (Act Call Chance Env) := List.replicate n (.step i ⟨none, none⟩)

def cancelled (s : State) (i : Nat) : Bool := s.result i = some (.ok .cancelled)

def cancels : Option (Thread Cmd Cmd.Resp Call (Except Error Reply)) → Bool
  | some ⟨.userCancelTask userId uuid, _⟩ => userId = 1 && uuid = 7
  | _ => false

theorem call_of_cancels (h : cancels found = true) :
    ∃ prog, found = some ⟨.userCancelTask 1 7, prog⟩ := by
  unfold cancels at h
  split at h
  next userId uuid prog =>
    rw [Bool.and_eq_true, decide_eq_true_eq, decide_eq_true_eq] at h
    obtain ⟨rfl, rfl⟩ := h
    exact ⟨prog, rfl⟩
  next => cases h

def runs (s : State) (i : Nat) : Bool :=
  (s.result i = some (.ok (.fetched (some ⟨1, 7, 10, none, ⟨[], [], [], false, none⟩⟩)))) &&
    (s.shared.txns.committed.workers.find 1).any fun row => row.assignedTaskId = some 1

theorem db_free : Free db := by
  intro t task ht _
  simp only [db, Table.find_set, Table.find_empty] at ht
  split at ht
  next =>
    obtain ⟨⟩ := ht
    refine ⟨rfl, ?_⟩
    intro w row hw
    simp only [db, Table.find_set, Table.find_empty] at hw
    split at hw
    next =>
      obtain ⟨⟩ := hw
      exact Option.some_ne_none _ |>.symm
    next => cases hw
  next => cases ht

end Demo

open Demo in
/-- A task is cancelled after the dispatcher has handed it out and before the fetch assigns it. -/
theorem cancel_wins : ∃ s t archived, Path (step system) (fun s a => State.ready s a = true)
    (initial Demo.db 0) (.call (.fetchTask 1) :: steps 0 3 ++ .call (.userCancelTask 1 7) ::
      steps 1 8 ++ steps 0 1 ++ drained 0 2) s ∧
    s.result 0 = some (.ok (.fetched none)) ∧
    s.shared.txns.committed.archivedTasks.find t = some archived ∧
    archived.assignedWorker = none := by
  have hrun : (Path.follow (step system) State.ready (initial Demo.db 0)
      (.call (.fetchTask 1) :: steps 0 3 ++ .call (.userCancelTask 1 7) ::
        steps 1 8 ++ steps 0 1 ++ drained 0 2)).any (fun s => cancelled s 1 &&
          cancels (s.pool[1]?) && s.result 0 = some (.ok (.fetched none))) = true := by decide
  obtain ⟨s, hp, hs⟩ := Path.of_follow_any hrun
  rw [Bool.and_eq_true, Bool.and_eq_true, decide_eq_true_eq] at hs
  obtain ⟨⟨hc, hcall⟩, hf⟩ := hs
  obtain ⟨prog, hi⟩ := call_of_cancels hcall
  obtain ⟨t, archived, ha, -, hn, -⟩ := cancelled_unassigned Demo.db 0 _ s db_free hp 1 hi
    (of_decide_eq_true hc)
  exact ⟨s, t, archived, hp, hf, ha, hn⟩

open Demo in
/-- A task is fetched between the read and the deletion of its cancellation. -/
theorem cancel_removes_running : ∃ s, Path (step system) (fun _ _ => True) (initial Demo.db 0)
    (.call (.fetchTask 1) :: steps 0 3 ++ .call (.userCancelTask 1 7) :: steps 1 4 ++ steps 0 1 ++
      steps 1 4 ++ steps 0 1) s ∧ s.result 1 = some (.ok .cancelled) ∧
    s.result 0 = some (.ok (.fetched (some ⟨1, 7, 10, none, ⟨[], [], [], false, none⟩⟩))) ∧
    s.shared.txns.committed.activeTasks.find 1 = none ∧
    ∃ row, s.shared.txns.committed.workers.find 1 = some row ∧ row.assignedTaskId = some 1 := by
  have hrun : (Path.follow (step system) (fun _ _ => true) (initial Demo.db 0)
      (.call (.fetchTask 1) :: steps 0 3 ++ .call (.userCancelTask 1 7) :: steps 1 4 ++ steps 0 1 ++
        steps 1 4 ++ steps 0 1)).any (fun s => cancelled s 1 && runs s 0 &&
          (s.shared.txns.committed.activeTasks.find 1).isNone) = true := by decide
  obtain ⟨s, hp, hs⟩ := Path.of_follow_any hrun
  simp only [runs, cancelled, Bool.and_eq_true, decide_eq_true_eq, Option.any_eq_true,
    Option.isNone_iff_eq_none] at hs
  obtain ⟨⟨hc, hf, hw⟩, hn⟩ := hs
  exact ⟨s, hp.mono fun _ _ _ => trivial, hc, hf, hn, hw⟩

end Cancel
end Mitosis
