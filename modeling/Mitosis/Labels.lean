import Mitosis.Identity
import Mitosis.Proof.TaskEdits

namespace Mitosis
set_option autoImplicit true

def Db.labels (db : Db) (t : TaskId) : Option (List String) := (db.row t).map ArchivedTask.labels

theorem Db.labels_active {db : Db} (h : db.activeTasks.find t = some task) :
    db.labels t = some task.labels := by
  rw [labels, row_active h]
  rfl

theorem Db.labels_archived {db : Db} (h : db.activeTasks.find t = none) :
    db.labels t = (db.archivedTasks.find t).map ArchivedTask.labels := by rw [labels, row_archived h]

namespace Tasks
open Sessions
open Txns (applyAll)

def Write.relabels (t : TaskId) : Write → Bool
  | .change id (.labels _) _ => id = t
  | .changeArchived id (.labels _) _ => id = t
  | _ => false

def Write.copies (db : Db) : Write → Bool
  | .addArchived id row => (db.activeTasks.find id).all fun task => task.labels = row.labels
  | _ => true

/-- The step commits a change of the labels of the task. -/
def State.relabels (t : TaskId) (s : State) (a : Act Call Chance Env) : Bool :=
  (State.commits s a).any (Write.relabels t)

/-- The step does not commit an archived copy whose labels have been changed meanwhile. -/
def State.copies (s : State) (a : Act Call Chance Env) : Bool :=
  (State.commits s a).all (Write.copies s.shared.txns.committed)

theorem Write.onActive_labels {w : Write} (h : w.relabels t = false) (task : ActiveTask) :
    (w.onActive t task).labels = task.labels := by
  cases w with
  | change id c time =>
    simp only [onActive]
    split
    next he =>
      cases c with
      | labels ls => exact (of_decide_eq_false h he.symm).elim
      | _ => rfl
    next => rfl
  | _ => rfl

theorem Write.onArchived_labels {w : Write} (h : w.relabels t = false) (task : ArchivedTask) :
    (w.onArchived t task).labels = task.labels := by
  cases w with
  | changeArchived id c time =>
    simp only [onArchived]
    split
    next he =>
      cases c with
      | labels ls => exact (of_decide_eq_false h he.symm).elim
      | _ => rfl
    next => rfl
  | _ => rfl

theorem labels_plain {w : Write} (hw : w.plain) (h : w.relabels t = false) (db : Db) :
    (w.apply db).labels t = db.labels t := by
  have ha := w.plain_active hw db t
  have har := w.plain_archived hw db t
  cases hf : db.activeTasks.find t with
  | some task =>
    rw [hf, Option.map_some] at ha
    rw [Db.labels_active ha, Db.labels_active hf, w.onActive_labels h]
  | none =>
    rw [hf, Option.map_none] at ha
    rw [Db.labels_archived ha, Db.labels_archived hf, har]
    cases db.archivedTasks.find t with
    | none => rfl
    | some row => exact congrArg some (w.onArchived_labels h row)

theorem labels_plain_all {ws : List Write} (hw : ∀ w ∈ ws, w.plain)
    (h : ∀ w ∈ ws, w.relabels t = false) (db : Db) : (applyAll ws db).labels t = db.labels t := by
  induction ws generalizing db with
  | nil => rfl
  | cons w ws ih =>
    have hrest := ih (fun w' hm => hw w' (.tail _ hm)) (fun w' hm => h w' (.tail _ hm)) (w.apply db)
    exact hrest.trans (labels_plain (hw w (.head _)) (h w (.head _)) db)

theorem labels_moved {db db' : Db} (hm : Moved moved db db')
    (h : ∀ row, moved t = some row → ∃ task, db.activeTasks.find t = some task ∧
      task.labels = row.labels) : db'.labels t = db.labels t := by
  have ha := hm.active t
  have har := hm.archived t
  cases hmt : moved t with
  | none =>
    rw [hmt] at ha har
    rw [Db.labels, Db.row, ha, har]
    rfl
  | some row =>
    obtain ⟨task, hf, hl⟩ := h row hmt
    rw [hmt] at ha har
    rw [Db.labels_active hf, hl, Db.labels_archived ha, har]
    rfl

/-- A commit keeps the labels of a task that it does not change, where its copies are right. -/
theorem Commits.labels {db : Db} (hc : Commits db K ws) (ho : db.ident t = some o)
    (hno : ∀ w ∈ ws, w.relabels t = false) (hcopy : ∀ w ∈ ws, w.copies db = true) :
    (applyAll ws db).labels t = db.labels t := by
  cases hc with
  | plain hw => exact labels_plain_all hw hno db
  | @archive tasks hcur =>
    apply labels_moved (moved_archive tasks db)
    intro row hr
    obtain ⟨-, task, time, ht, rfl⟩ := hcur t row hr
    exact ⟨task, ht, rfl⟩
  | @move row ws id hn hcp hw =>
    have hrest := labels_plain_all hw (fun w hm => hno w (.tail _ (.tail _ hm)))
      (applyAll [Write.addArchived id row, .dropActive id] db)
    apply hrest.trans
    apply labels_moved (moved_one id row db)
    intro row' hr
    split at hr
    next ht =>
      obtain rfl := Option.some.inj hr
      subst ht
      cases hf : db.activeTasks.find t with
      | none =>
        rw [Db.ident_archived hf, hn] at ho
        cases ho
      | some task =>
        have hl := hcopy _ (.head _)
        rw [Write.copies, hf] at hl
        exact ⟨task, rfl, of_decide_eq_true hl⟩
    next => cases hr
  | @insert task id hconf hn =>
    have hne : t ≠ id := by
      rintro rfl
      rw [Db.ident_archived (conflict_free hconf).1, hn] at ho
      cases ho
    have ha : ((Write.addActive id task).apply db).activeTasks.find t = db.activeTasks.find t :=
      Table.find_set_ne _ _ hne
    change ((Write.addActive id task).apply db).labels t = _
    rw [Db.labels, Db.row, ha]
    rfl
  | count => rfl

theorem edits_of_relabels {w : Write} (h : w.relabels t = true) : w.edits := by
  cases w with
  | change id c time =>
    cases c with
    | labels => trivial
    | _ => cases h
  | changeArchived => trivial
  | _ => cases h

theorem copies_of_not_edits {w : Write} (h : ¬w.edits) (db : Db) : w.copies db = true := by
  cases w with
  | addArchived => exact (h trivial).elim
  | _ => rfl

theorem step_labels {ok : State → Act Call Chance Env → Prop} {s s' : State}
    (hp : Path (Sessions.step system) ok (initial db clock) as s)
    (hs : Sessions.step system s a = some s') (ho : s.shared.txns.committed.ident t = some o)
    (hcopy : State.copies s a = true) (hno : State.relabels t s a = false) :
    s'.shared.txns.committed.labels t = s.shared.txns.committed.labels t := by
  cases Sessions.step_cases hs with
  | call => rfl
  | @env e x hx =>
    have hx' : e.run s.shared = some x := hx
    cases e with
    | tick | workers =>
      obtain ⟨⟩ := hx'
      rfl
    | accounts =>
      simp only [Env.run] at hx'
      split at hx'
      next =>
        obtain ⟨⟩ := hx'
        rfl
      next => cases hx'
    | touchActive id =>
      simp only [Env.run] at hx'
      split at hx'
      next =>
        obtain ⟨⟩ := hx'
        exact labels_plain (w := .change id .touch s.shared.clock) trivial rfl _
      next => cases hx'
    | touchArchived id =>
      simp only [Env.run] at hx'
      split at hx'
      next =>
        obtain ⟨⟩ := hx'
        exact labels_plain (w := .changeArchived id .touch s.shared.clock) trivial rfl _
      next => cases hx'
  | @step i chance x k c p r hi hx =>
    have h := tracked hp
    have hn : c.sourced (history i s.log) := ((traced hp).knows _ _ hi).1
    have hd : Does s.shared x s.log i k ⟨c, r⟩ := h.does hn hx
    have hedits := h.landed_edits (next_eq hi) hn hx
    dsimp only
    rw [hd.committed]
    apply hd.commits.labels ho
    · intro w hm
      by_contra hr
      rw [Bool.not_eq_false] at hr
      have hany : State.relabels t s (.step i chance) = true :=
        List.any_eq_true.2 ⟨w, hedits w hm (edits_of_relabels hr), hr⟩
      rw [hno] at hany
      cases hany
    · intro w hm
      by_cases he : w.edits
      · exact List.all_eq_true.1 hcopy w (hedits w hm he)
      · exact copies_of_not_edits he _

theorem relabels_cases (h : relabels ws = some (t, ls)) :
    (∃ time, ws = [.change t (.labels ls) time]) ∨
      ∃ time, ws = [.changeArchived t (.labels ls) time] := by
  unfold relabels at h
  split at h
  next id ls time =>
    obtain ⟨⟩ := h
    exact .inl ⟨time, rfl⟩
  next id ls time =>
    obtain ⟨⟩ := h
    exact .inr ⟨time, rfl⟩
  next => cases h

theorem found_uuid {ok : State → Act Call Chance Env → Prop} {s : State}
    (hp : Path (Sessions.step system) ok (initial db clock) as s)
    (h : (∃ task, ⟨.select (.activeByUuid uuid), .ok (some (t, task))⟩ ∈ history i s.log) ∨
      ∃ task, ⟨.select (.archivedByUuid uuid), .ok (some (t, task))⟩ ∈ history i s.log) :
    ∃ o, s.shared.txns.committed.ident t = some o ∧ o.uuid = uuid := by
  rcases h with ⟨task, hm⟩ | ⟨task, hm⟩
  · obtain ⟨k, hk⟩ := mem_history.1 hm
    refine ⟨task.ident, (tracked hp).shown _ hk t _ rfl, ?_⟩
    obtain ⟨L', L, hL⟩ := List.append_of_mem hm
    obtain ⟨m, m', hi⟩ := issued_of_history L' hp (Nat.zero_le _) hL
    obtain ⟨before, after, fault, -, -, -, -, -, hx⟩ := hi.run
    have hf : (m.shared.txns.view i).findActiveByUuid uuid = some (t, task) := (exec_select hx).symm
    exact of_decide_eq_true (Table.findWhere_some hf).2
  · obtain ⟨k, hk⟩ := mem_history.1 hm
    refine ⟨task.ident, (tracked hp).shown _ hk t _ rfl, ?_⟩
    obtain ⟨L', L, hL⟩ := List.append_of_mem hm
    obtain ⟨m, m', hi⟩ := issued_of_history L' hp (Nat.zero_le _) hL
    obtain ⟨before, after, fault, -, -, -, -, -, hx⟩ := hi.run
    have hf : (m.shared.txns.view i).findArchivedByUuid uuid = some (t, task) := (exec_select hx).symm
    exact of_decide_eq_true (Table.findWhere_some hf).2

theorem relabelled {ok : State → Act Call Chance Env → Prop} {s : State}
    (hp : Path (Sessions.step system) ok (initial db clock) as s)
    (hr : Relabelled uuid ls (history i s.log)) :
    ∃ t o, s.shared.txns.committed.ident t = some o ∧ o.uuid = uuid ∧
      (s.shared.txns.commit i).committed.labels t = some ls := by
  obtain ⟨t, ws, ht, hws, hfound⟩ := hr
  have h := tracked hp
  obtain ⟨o, ho, hu⟩ := found_uuid hp hfound
  refine ⟨t, o, ho, hu, ?_⟩
  have hview : (s.shared.txns.commit i).committed = applyAll ws.reverse s.shared.txns.committed :=
    h.records.view_some ht
  have hcur := fun w => h.records.guarded.current i _ w (h.records.find ht)
  rw [hview]
  rcases relabels_cases hws with ⟨time, rfl⟩ | ⟨time, rfl⟩
  · obtain ⟨task, hf⟩ := hcur (.change t (.labels ls) time) (.head _)
    have ha : ((Write.change t (.labels ls) time).apply s.shared.txns.committed).activeTasks.find t =
        some ((Change.labels ls).run time task) := by
      change (s.shared.txns.committed.activeTasks.update t _).find t = _
      rw [Table.find_update_self, hf, Option.map_some]
    exact Db.labels_active ha
  · obtain ⟨row, hf⟩ := hcur (.changeArchived t (.labels ls) time) (.head _)
    have ha := h.sound.active_none hf
    have har : ((Write.changeArchived t (.labels ls) time).apply
        s.shared.txns.committed).archivedTasks.find t = some ((ArchivedChange.labels ls).run time row) := by
      change (s.shared.txns.committed.archivedTasks.update t _).find t = _
      rw [Table.find_update_self, hf, Option.map_some]
    have ha' : ((Write.changeArchived t (.labels ls) time).apply
        s.shared.txns.committed).activeTasks.find t = none := ha
    apply (Db.labels_archived ha').trans
    rw [har]
    rfl

theorem path_labels {ok : State → Act Call Chance Env → Prop} {s s' : State}
    (hp : Path (Sessions.step system) (fun _ _ => True) (initial db clock) as s)
    (ho : s.shared.txns.committed.ident t = some o)
    (hq : Path (Sessions.step system) ok s bs s')
    (hok : ∀ s a, ok s a → State.copies s a = true)
    (hno : ∀ s a, ok s a → State.relabels t s a = false) :
    s'.shared.txns.committed.labels t = s.shared.txns.committed.labels t := by
  induction hq with
  | nil => rfl
  | snoc hq ha hs ih =>
    have hq' : Path (Sessions.step system) (fun _ _ => True) _ _ _ := hq.mono fun _ _ _ => trivial
    have hkept := (path_kept hp hq').ident t o ho
    exact (step_labels (hp.trans hq') hs hkept (hok _ _ ha) (hno _ _ ha)).trans ih

theorem exec_commit {x x' : Infra} (h : Cmd.exec i chance x .commit = some (.ok (), x')) :
    x'.txns = x.txns.commit i := by
  unfold Cmd.exec at h
  cases hf : chance.fault with
  | some e =>
    rw [hf] at h
    cases h
  | none =>
    rw [hf] at h
    obtain ⟨⟩ := h
    rfl

/-- In every run in which each archived copy has the labels that its task has when the copy is
committed, the labels that a user sets stay until they are changed again. -/
theorem labels_kept (db : Db) (clock : Instant) (as bs : List (Act Call Chance Env))
    (m m' s : State)
    (hp : Path (Sessions.step system) (fun s a => State.copies s a = true) (initial db clock) as m)
    (i : Nat) (chance : Chance) (hok : State.copies m (.step i chance) = true)
    (hs : Sessions.step system m (.step i chance) = some m') (userId : UserId) (uuid : Uuid)
    (labels : List String) (prog : Prog Cmd Cmd.Resp (Flow (Except Error Reply)))
    (hi : m.pool[i]? = some ⟨.userChangeTaskLabels userId uuid labels, prog⟩) (reply : Reply)
    (hr : m'.result i = some (.ok reply)) (t : TaskId) (o : Ident)
    (hq : Path (Sessions.step system)
      (fun s a => State.copies s a = true ∧ State.relabels t s a = false) m' bs s)
    (ho : s.shared.txns.committed.ident t = some o) (hu : o.uuid = uuid) :
    s.shared.txns.committed.labels t = some labels := by
  have hp' : Path (Sessions.step system) (fun s a => State.copies s a = true) (initial db clock)
      (as ++ [.step i chance]) m' := .snoc hp hok hs
  have hq' : Path (Sessions.step system) (fun s a => State.copies s a = true) m' bs s :=
    hq.mono fun _ _ h => h.1
  obtain ⟨th, hth, -, htold⟩ := (traced hp').result hr
  cases Sessions.step_cases hs with
  | @step _ _ x k c p r hi' hx =>
    obtain ⟨rfl, rfl⟩ := Thread.mk.inj (Option.some.inj (hi'.symm.trans hi))
    have htk : th.call = .userChangeTaskLabels userId uuid labels := by
      rw [List.getElem?_set_self (List.getElem?_eq_some_iff.1 hi').1] at hth
      rw [← Option.some.inj hth]
      exact Thread.resume_call _ _ _
    rw [htk] at htold
    obtain ⟨K, hK, hrel⟩ := htold
    dsimp only at hK
    rw [history_concat_self] at hK
    obtain ⟨he, rfl⟩ := List.cons.inj hK
    obtain ⟨rfl, hr'⟩ := Sigma.mk.inj he
    obtain rfl := eq_of_heq hr'
    obtain ⟨t', o', ho', hu', hl⟩ := relabelled hp hrel
    rw [← exec_commit hx] at hl
    have hkept' := (step_kept hp hs).ident t' o' ho'
    have hlast := (path_kept hp' hq').ident t' o' hkept'
    obtain rfl := (tracked (hp'.trans hq')).sound.uuids t' t o' o hlast ho (hu'.trans hu.symm)
    have hpath := path_labels (hp'.mono fun _ _ _ => trivial) hkept' hq (fun _ _ h => h.1)
      fun _ _ h => h.2
    exact hpath.trans hl

namespace Demo

def labelled : List (Act Call Chance Env) :=
  submitted ++ .call (.userChangeTaskLabels 1 0 ["x"]) :: steps 1 5

def later : List (Act Call Chance Env) := .call (.userCancelTask 1 0) :: steps 2 7

def overtaken : List (Act Call Chance Env) :=
  submitted ++ .call (.userCancelTask 1 0) :: steps 1 4 ++
    .call (.userChangeTaskLabels 1 0 ["x"]) :: steps 2 6 ++ steps 1 4

def changing (s : State) : Bool :=
  (s.pool[1]?).any (fun th => isChange th.call) && State.copies s (.step 1 ⟨none, none⟩)
where
  isChange : Call → Bool
    | .userChangeTaskLabels userId uuid labels => userId = 1 && uuid = 0 && labels = ["x"]
    | _ => false

theorem of_changing (h : changing s = true) :
    ∃ prog, s.pool[1]? = some ⟨.userChangeTaskLabels 1 0 ["x"], prog⟩ ∧
      State.copies s (.step 1 ⟨none, none⟩) = true := by
  rw [changing, Bool.and_eq_true, Option.any_eq_true] at h
  obtain ⟨⟨⟨call, prog⟩, hi, hc⟩, hok⟩ := h
  unfold changing.isChange at hc
  split at hc
  next userId uuid labels hcall =>
    rw [Bool.and_eq_true, Bool.and_eq_true, decide_eq_true_eq, decide_eq_true_eq,
      decide_eq_true_eq] at hc
    obtain ⟨⟨rfl, rfl⟩, rfl⟩ := hc
    obtain rfl := hcall
    exact ⟨prog, hi, hok⟩
  next => cases hc

def succeeded (s : State) (i : Nat) : Bool :=
  match s.result i with
  | some (.ok .unit) => true
  | _ => false

theorem of_succeeded (h : succeeded s i = true) : s.result i = some (.ok .unit) := by
  unfold succeeded at h
  split at h
  next hr => exact hr
  next => cases h

/-- A step that goes on as `labels_kept` asks. -/
def keeps (s : State) (a : Act Call Chance Env) : Bool :=
  State.copies s a && !State.relabels 1 s a

end Demo

open Demo in
/-- A task that is labelled, and cancelled later. -/
theorem labelled_kept : ∃ m m' s,
    Path (Sessions.step system) (fun s a => State.copies s a = true) (initial Demo.db 0) labelled m ∧
    Sessions.step system m (.step 1 ⟨none, none⟩) = some m' ∧
    m'.result 1 = some (.ok .unit) ∧
    Path (Sessions.step system) (fun s a => keeps s a = true) m' later s ∧
    s.shared.txns.committed.labels 1 = some ["x"] := by
  have hrun : (Path.follow (Sessions.step system) State.copies (initial Demo.db 0)
      labelled).any (fun m => changing m && (Sessions.step system m (.step 1 ⟨none, none⟩)).any
        fun m' => succeeded m' 1 && (Path.follow (Sessions.step system) keeps m' later).any
          fun s => s.shared.txns.committed.ident 1 = some ⟨1, 1, 1, 0⟩) = true := by decide
  obtain ⟨m, hp, hm⟩ := Path.of_follow_any hrun
  rw [Bool.and_eq_true, Option.any_eq_true] at hm
  obtain ⟨hc, m', hs, hm'⟩ := hm
  rw [Bool.and_eq_true] at hm'
  obtain ⟨prog, hi, hok⟩ := of_changing hc
  obtain ⟨s, hq, ho⟩ := Path.of_follow_any hm'.2
  have hr := of_succeeded hm'.1
  have hq' : Path (Sessions.step system)
      (fun s a => State.copies s a = true ∧ State.relabels 1 s a = false) m' later s := by
    apply hq.mono
    intro s a h
    rw [keeps, Bool.and_eq_true, Bool.not_eq_true'] at h
    exact h
  exact ⟨m, m', s, hp, hs, hr, hq, labels_kept Demo.db 0 labelled later m m' s hp 1 ⟨none, none⟩
    hok hs 1 0 ["x"] prog hi .unit hr 1 ⟨1, 1, 1, 0⟩ hq' (of_decide_eq_true ho) rfl⟩

open Demo in
/-- Labels that are set between the read and the copy of a cancellation are lost, though the user
was told that they were set and nobody has changed them since. -/
theorem labels_lost : ∃ s, Path (Sessions.step system) (fun _ _ => True) (initial Demo.db 0)
    overtaken s ∧ s.quiescent = true ∧ s.result 2 = some (.ok .unit) ∧
    s.shared.txns.committed.ident 1 = some ⟨1, 1, 1, 0⟩ ∧
    s.shared.txns.committed.labels 1 = some [] := by
  have hrun : (Path.follow (Sessions.step system) (fun _ _ => true) (initial Demo.db 0)
      overtaken).any (fun s => s.quiescent && succeeded s 2 &&
        decide (s.shared.txns.committed.ident 1 = some ⟨1, 1, 1, 0⟩) &&
        decide (s.shared.txns.committed.labels 1 = some [])) = true := by decide
  obtain ⟨s, hp, hs⟩ := Path.of_follow_any hrun
  simp only [Bool.and_eq_true, decide_eq_true_eq] at hs
  obtain ⟨⟨⟨hq, hr⟩, ho⟩, hl⟩ := hs
  exact ⟨s, hp.mono fun _ _ _ => trivial, hq, of_succeeded hr, ho, hl⟩

end Tasks
end Mitosis
