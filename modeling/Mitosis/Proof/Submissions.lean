import Mitosis.Proof.Tracked

namespace Mitosis
set_option autoImplicit true

namespace Tasks

/-- The submission that a session has counted and not yet tried to insert. -/
def waiting : History → Option (SubmitTaskReq × GroupId × Int)
  | [] => none
  | ⟨.addTaskCount req _, .ok (some (id, group))⟩ :: _ => some (req, id, group.taskCount)
  | ⟨.insertTask _, _⟩ :: _ => none
  | _ :: K => waiting K

/-- The task of the submission that has been counted last will not be inserted. -/
def Quiet (K : History) : Prop :=
  ∀ req g n, waiting K = some (req, g, n) →
    checkTaskSpec req.taskSpec ≠ .ok () ∨ ∃ e, ⟨.newUuid, .error e⟩ ∈ K

/-- No submission is counted while another one waits. -/
def Cmd.timely (K : History) : Cmd → Prop
  | .addTaskCount _ _ => Quiet K
  | _ => True

def Call.submits : Call → Bool
  | .userSubmitTask _ _ | .userBatchSubmitTasks _ _ | .reportTask _ _ _ (.submit _) => true
  | _ => false

theorem waiting_cons {c : Cmd} (hc : Tracked.draws c = false) (r : c.Resp) (K : History) :
    waiting (⟨c, r⟩ :: K) = waiting K := by
  cases c with
  | addTaskCount | insertTask => cases hc
  | _ => rfl

theorem drawn_waiting (K : History) : drawn K = (waiting K).map Prod.snd := by
  induction K with
  | nil => rfl
  | cons e K ih =>
    obtain ⟨c, r⟩ := e
    cases c with
    | addTaskCount req time =>
      cases r with
      | error => exact ih
      | ok found =>
        cases found with
        | none => exact ih
        | some => rfl
    | insertTask => rfl
    | _ => exact ih

theorem Quiet.cons {e : Entry Cmd Cmd.Resp} (h : Quiet K) (he : waiting (e :: K) = waiting K) :
    Quiet (e :: K) := by
  intro req g n hw
  rw [he] at hw
  rcases h req g n hw with hs | ⟨e', hm⟩
  · exact .inl hs
  · exact .inr ⟨e', .tail _ hm⟩

theorem quiet_inserted (task : ActiveTask) (r : (Cmd.insertTask task).Resp) (K : History) :
    Quiet (⟨.insertTask task, r⟩ :: K) := fun _ _ _ hw => by cases hw

namespace Service
open Fallible (Keeps knows_issue_bind knows_okOr_bind knows_ofExcept_bind)

/-- A part of a submission, or what comes before and behind it. -/
abbrev Timely (p : Service α) : Prop := Keeps Cmd.timely Quiet p

theorem timely_issue {c : Cmd} (hc : Tracked.draws c = false) : Timely (issue c) := by
  apply Keeps.issue
  intro K h
  refine ⟨?_, fun r => h.cons (waiting_cons hc r K)⟩
  cases c with
  | addTaskCount => cases hc
  | _ => trivial

theorem timely_sent {c : Cmd} (hc : Tracked.draws c = false) (msg : String) :
    Timely (sent c msg) := by
  apply (timely_issue hc).attempt.bind
  rintro (e | r)
  · exact .fail _
  · exact .pure _

theorem timely_batchAddTask (test : RoleTest) (id : TaskId) (task : ActiveTask) (msg : String) :
    Timely (batchAddTask test id task msg) :=
  (timely_issue rfl).bind fun _ => timely_sent rfl _

/-- What both ways of submitting a task do: whatever stops them before the insertion does so for
good. -/
theorem timely_insert {α : Type} (req : SubmitTaskReq)
    (row : GroupId × Group → Uuid → Instant → ActiveTask)
    (f : TaskId × ActiveTask → Service α) (hf : ∀ x, Timely (f x)) :
    Timely (do
      let now ← issue .now
      let group ← countTask req now
      let uuid ← issue .newUuid
      Fallible.ofExcept (checkTaskSpec req.taskSpec)
      let x ← issue (.insertTask (row group uuid now))
      f x) := by
  apply (timely_issue (c := .now) rfl).bind
  intro time K h
  rw [Fallible.knows_bind]
  apply (knows_issue_bind _ _).2
  refine ⟨h, ?_, fun e => h.cons rfl⟩
  intro group
  apply (Fallible.knows_okOr _ _).2
  constructor
  · rintro group rfl
    apply (knows_issue_bind _ _).2
    refine ⟨trivial, ?_, ?_⟩
    · intro uuid
      apply (knows_ofExcept_bind _ _).2
      constructor
      · intro _ _
        apply (knows_issue_bind _ _).2
        exact ⟨trivial, fun x => hf x _ (quiet_inserted _ _ _), fun e => quiet_inserted _ _ _⟩
      · intro e he req' g n hw
        obtain ⟨⟩ := hw
        refine .inl ?_
        intro hok
        cases hok.symm.trans he
    · intro e req' g n hw
      exact .inr ⟨e, .head _⟩
  · rintro rfl
    exact h.cons rfl

theorem timely_userSubmitTask (creatorId : UserId) (req : SubmitTaskReq) :
    Timely (userSubmitTask creatorId req) := by
  have hf : ∀ x : TaskId × ActiveTask, Timely (do
      batchAddTask .anyWriteAdmin x.1 x.2 "send batch add task failed"
      return (⟨x.2.taskId, x.2.uuid⟩ : SubmitTaskResp)) :=
    fun x => (timely_batchAddTask _ _ _ _).bind fun _ => .pure _
  have h := timely_insert req (Mitosis.Service.newTask creatorId req) _ hf
  exact h

theorem timely_workerSubmitPendingTask (creatorId : UserId) (upstream : Uuid)
    (req : SubmitTaskReq) : Timely (workerSubmitPendingTask creatorId upstream req) := by
  have hf : ∀ x : TaskId × ActiveTask, Timely
      (pure (⟨x.2.taskId, x.2.uuid⟩ : SubmitTaskResp)) := fun _ => .pure _
  have h := timely_insert req (pendingTask creatorId upstream req) _ hf
  exact h

/-- Of a batch: a submission that fails leaves nothing that the next one would take for its own. -/
theorem timely_submitTasks (userId : UserId) (reqs : List SubmitTaskReq) :
    Timely (submitTasks userId reqs) := by
  induction reqs with
  | nil => exact .pure _
  | cons req reqs ih =>
    apply (timely_userSubmitTask userId req).attempt.bind
    intro result
    apply ih.bind
    exact fun _ => .pure _

theorem timely_reportSubmit (workerId : WorkerId) (taskId : TaskId) (task : ActiveTask)
    (req : SubmitTaskReq) (time : Instant) :
    Timely (reportSubmit workerId taskId task req time) := by
  apply Keeps.ite _ (.fail _)
  apply (timely_issue (c := .select (.user task.creatorId)) rfl).attempt.bind
  rintro (e | user)
  · exact .fail _
  apply (Keeps.okOr _ _).bind
  intro user
  apply Keeps.ite _ (.fail _)
  apply (timely_issue (c := .select (.group task.groupId)) rfl).bind
  intro group
  apply (Keeps.okOr _ _).bind
  intro group
  apply Keeps.ite _ (.fail _)
  apply (timely_issue (c := .select (.groupWorker task.groupId workerId)) rfl).bind
  intro role
  apply (Keeps.okOr _ _).bind
  intro _
  apply (timely_workerSubmitPendingTask task.creatorId task.uuid req).attempt.bind
  rintro (e | resp)
  · exact .fail _
  · apply (timely_issue (c := .change taskId (.downstream resp.uuid) time) rfl).bind
    exact fun _ => .pure _

theorem timely_reportTask (workerId : WorkerId) (workerUuid : Uuid) (taskId : TaskId)
    (req : SubmitTaskReq) : Timely (reportTask workerId workerUuid taskId (.submit req)) := by
  apply (timely_issue (c := .now) rfl).bind
  intro time
  apply (timely_issue (c := .select (.task taskId)) rfl).bind
  intro found
  apply (Keeps.okOr _ _).bind
  intro task
  exact Keeps.ite _ (.fail _) (timely_reportSubmit _ _ _ _ _)

end Service

def Call.timely : Call → History → Cmd → Prop
  | .userSubmitTask _ _ | .userBatchSubmitTasks _ _ | .reportTask _ _ _ (.submit _) => Cmd.timely
  | _ => fun _ _ => True

def Call.settled : Call → History → Flow (Except Error Reply) → Prop
  | .userSubmitTask _ _ | .userBatchSubmitTasks _ _ | .reportTask _ _ _ (.submit _) =>
    fun K flow => Quiet K ∧ ∃ r, flow = .done r
  | _ => fun _ _ => True

theorem timely_of_submits {call : Call} (h : call.submits = true) (hn : call.timely K c) :
    c.timely K := by
  unfold Call.submits at h
  split at h
  · exact hn
  · exact hn
  · exact hn
  · cases h

theorem quiet_of_submits {call : Call} {flow : Flow (Except Error Reply)}
    (h : call.submits = true) (hs : call.settled K flow) : Quiet K := by
  unfold Call.submits at h
  split at h
  · exact hs.1
  · exact hs.1
  · exact hs.1
  · cases h

theorem quiet_nil : Quiet [] := fun _ _ _ hw => by cases hw

theorem once_timely {f : α → Reply} {p : Service α} (hp : Service.Timely p) :
    (Fallible.once f p).Knows Cmd.timely (fun K flow => Quiet K ∧ ∃ r, flow = .done r) [] := by
  apply (Fallible.knows_once _ _).2
  apply (hp [] quiet_nil).mono
  exact fun K r hK => ⟨hK, _, rfl⟩

theorem program_timely (call : Call) : (program call).Knows call.timely call.settled [] := by
  cases call with
  | userSubmitTask creatorId req => exact once_timely (Service.timely_userSubmitTask creatorId req)
  | userBatchSubmitTasks userId reqs =>
    exact once_timely (.ite _ (.fail _) (Service.timely_submitTasks userId reqs))
  | reportTask workerId workerUuid taskId op =>
    cases op with
    | submit req => exact once_timely (Service.timely_reportTask workerId workerUuid taskId req)
    | _ => exact Prog.knows_all (fun _ _ => trivial) (fun _ _ => trivial) _
  | _ => exact Prog.knows_all (fun _ _ => trivial) (fun _ _ => trivial) _

theorem program_timely_again (call : Call) (K : History) (h : call.settled K .again) :
    (program call).Knows call.timely call.settled K := by
  have hfalse : ∀ {P : Prop}, (Quiet K ∧ ∃ r, (Flow.again : Flow (Except Error Reply)) = .done r) →
      P := by
    rintro P ⟨-, r, hr⟩
    cases hr
  cases call with
  | userSubmitTask | userBatchSubmitTasks => exact hfalse h
  | reportTask workerId workerUuid taskId op =>
    cases op with
    | submit req => exact hfalse h
    | _ => exact Prog.knows_all (fun _ _ => trivial) (fun _ _ => trivial) _
  | _ => exact Prog.knows_all (fun _ _ => trivial) (fun _ _ => trivial) _

theorem timed {ok : State → Act Call Chance Env → Prop}
    (hp : Path (Sessions.step system) ok (initial db clock) as s) :
    s.Traced Call.timely Call.settled :=
  traced_of_path program_timely program_timely_again hp rfl rfl

end Tasks
end Mitosis
