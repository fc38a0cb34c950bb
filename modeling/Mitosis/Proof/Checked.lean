import Mitosis.Proof.Histories

namespace Mitosis
set_option autoImplicit true

/-- The handler inserted the worker, updated its row, or read it with all others. -/
def History.known (K : History) (w : WorkerId) : Prop :=
  K.inserted w ∨ (∃ time row, ⟨.write (.touchWorker w time), .ok row⟩ ∈ K) ∨
    ∃ ws tags, ⟨.select .workers, .ok ws⟩ ∈ K ∧ (w, tags) ∈ ws

theorem History.known.mono {K K' : History} (h : K.known w) (hK : K ⊆ K') : K'.known w := by
  rcases h with ⟨uuid, c, tags, labels, time, row, h⟩ | ⟨time, row, h⟩ | ⟨ws, tags, h, hw⟩
  · exact .inl ⟨uuid, c, tags, labels, time, row, hK h⟩
  · exact .inr (.inl ⟨time, row, hK h⟩)
  · exact .inr (.inr ⟨ws, tags, hK h, hw⟩)

/-- A task is inserted only with a spec that passes the check, a worker with a uuid that was
drawn, and a heartbeat is sent only for a worker whose row the handler knows. -/
def Cmd.checked (K : History) : Cmd → Prop
  | .write (.insertTask task) => checkTaskSpec task.spec = .ok ()
  | .write (.insertWorker uuid _ _ _ _) => ⟨.newUuid, .ok uuid⟩ ∈ K
  | .sendHeartbeat (.heartbeat w) => K.known w
  | _ => True

namespace Service

/-- The service issues only checked commands, whatever it returns. -/
def Checked (p : Service α) : Prop := ∀ K, Knows Cmd.checked K p fun _ _ => True

namespace Checked
variable {p : Service α}

theorem bind {f : α → Service β} (h : Checked p) (hf : ∀ a, Checked (f a)) : Checked (p >>= f) := by
  intro K
  apply (knows_bind _ _).2
  apply (h K).mono
  intro K' r _
  cases r with
  | error => trivial
  | ok a => exact hf a K'

theorem recover {f : Error → Service α} (h : Checked p) (hf : ∀ e, Checked (f e)) :
    Checked (Service.recover p f) := by
  intro K
  apply (knows_recover _ _).2
  apply (h K).mono
  intro K' r _
  cases r with
  | ok => trivial
  | error e => exact hf e K'

theorem map {f : α → β} (h : Checked p) : Checked (f <$> p) := by
  intro K
  exact (knows_map _ _).2 (h K)

theorem ok (a : α) : Checked (Service.ok a) := fun _ => trivial

theorem pure (a : α) : Checked (Pure.pure a : Service α) := fun _ => trivial

theorem fail (e : Error) : Checked (Service.fail e : Service α) := fun _ => trivial

theorem okOr (e : Error) (x : Option α) : Checked (Service.okOr e x) := by
  cases x with
  | none => exact fail e
  | some a => exact ok a

theorem ofExcept (x : Except Error α) : Checked (Service.ofExcept x) := by
  cases x with
  | error e => exact fail e
  | ok a => exact ok a

theorem ite {c : Prop} [Decidable c] {q : Service α} (h : Checked p) (h' : Checked q) :
    Checked (if c then p else q) := by
  split
  · exact h
  · exact h'

theorem issue {c : Cmd} (h : ∀ K, c.checked K) : Checked (Service.issue c) :=
  fun K => ⟨h K, fun _ => trivial⟩

theorem select (q : Select) : Checked (Service.select q) := issue fun _ => trivial

theorem write {q : Write} (h : ∀ K, (Cmd.write q).checked K) : Checked (Service.write q) :=
  issue h

theorem now : Checked Service.now := issue fun _ => trivial

theorem newUuid : Checked Service.newUuid := issue fun _ => trivial

theorem sendTask (op : TaskDispatcherOp) (msg : String) : Checked (Service.sendTask op msg) :=
  (issue (c := .sendTask op) fun _ => trivial).recover fun _ => fail _

theorem unregister (w : WorkerId) (msg : String) :
    Checked (Service.sendHeartbeat (.unregisterWorker w) msg) :=
  (issue (c := .sendHeartbeat (.unregisterWorker w)) fun _ => trivial).recover fun _ => fail _

theorem ignore {p : Service Unit} (h : Checked p) : Checked (Service.ignore p) :=
  h.recover fun _ => ok ()

end Checked

theorem countTask_checked : Checked (countTask name time) :=
  (Checked.write (by exact fun _ => trivial)).bind fun _ => .okOr _ _

theorem ofExcept_checked {spec : TaskSpec} {f : Unit → Service α}
    (h : checkTaskSpec spec = .ok () → Checked (f ())) :
    Checked (ofExcept (checkTaskSpec spec) >>= f) := by
  cases hs : checkTaskSpec spec with
  | error e => exact fun _ => trivial
  | ok u => exact h hs

theorem userSubmitTask_checked : Checked (userSubmitTask creatorId req) := by
  refine Checked.now.bind fun _ => countTask_checked.bind fun _ => Checked.newUuid.bind fun _ => ?_
  apply ofExcept_checked
  intro hs
  refine (Checked.write (by exact fun _ => hs)).bind fun _ => (Checked.select _).bind fun _ => ?_
  exact (Checked.sendTask _ _).bind fun _ => .pure _

theorem workerSubmitPendingTask_checked :
    Checked (workerSubmitPendingTask creatorId uuid req) := by
  refine Checked.now.bind fun _ => countTask_checked.bind fun _ => Checked.newUuid.bind fun _ => ?_
  apply ofExcept_checked
  intro hs
  exact (Checked.write (by exact fun _ => hs)).bind fun _ => .pure _

theorem submitTasks_checked (reqs : List SubmitTaskReq) : Checked (submitTasks userId reqs) := by
  induction reqs with
  | nil => exact .ok _
  | cons req reqs ih =>
    exact (userSubmitTask_checked.map.recover fun _ => .ok _).bind fun _ => ih.bind fun _ => .pure _

theorem userBatchSubmitTasks_checked : Checked (userBatchSubmitTasks userId reqs) :=
  .ite (.fail _) (submitTasks_checked reqs)

theorem workerTriggerPendingTask_checked : Checked (workerTriggerPendingTask uuid) := by
  refine (Checked.select _).bind fun _ => (Checked.okOr _ _).bind fun _ =>
      Checked.now.bind fun _ => ?_
  refine (Checked.write (by exact fun _ => trivial)).bind fun _ =>
      (Checked.select _).bind fun _ => ?_
  exact .sendTask _ _

theorem userChangeTask_checked : Checked (userChangeTask userId uuid req) := by
  refine .ite (.fail _) ((Checked.write (by exact fun _ => trivial)).bind fun _ =>
      (Checked.select _).bind fun _ => ?_)
  exact (Checked.sendTask _ _).bind fun _ => .sendTask _ _

theorem userCancelTask_checked : Checked (userCancelTask userId uuid) :=
  (Checked.write (by exact fun _ => trivial)).bind fun _ => (Checked.sendTask _ _).ignore

theorem removeTasks_checked (ids : List TaskId) : Checked (removeTasks ids) := by
  induction ids with
  | nil => exact .ok _
  | cons id ids ih => exact (Checked.sendTask _ _).ignore.bind fun _ => ih

theorem nonempty_checked (msg : String) (xs : Option (List α)) : Checked (nonempty msg xs) :=
  .ite (.fail _) (.ok _)

theorem queriedGroup_checked (name : Option String) : Checked (queriedGroup userId name) := by
  cases name with
  | some name => exact .ok _
  | none => exact (Checked.select _).bind fun _ => (Checked.okOr _ _).map

theorem checkRole_checked : Checked (checkRole userId name role) := by
  refine (Checked.select _).bind fun role => ?_
  cases role with
  | none => exact .fail _
  | some role => exact .ite (.ok _) (.fail _)

theorem checkTaskListQuery_checked : Checked (checkTaskListQuery userId query role) := by
  refine (nonempty_checked _ _).bind fun _ => (nonempty_checked _ _).bind fun _ => ?_
  refine (nonempty_checked _ _).bind fun _ => (nonempty_checked _ _).bind fun _ => ?_
  exact (queriedGroup_checked _).bind fun _ => checkRole_checked.bind fun _ => .pure _

theorem cancelTasksByFilter_checked : Checked (cancelTasksByFilter userId req) := by
  refine checkTaskListQuery_checked.bind fun _ => (Checked.ofExcept _).bind fun _ => ?_
  exact (Checked.write (by exact fun _ => trivial)).bind fun _ =>
      (removeTasks_checked _).bind fun _ => .pure _

theorem cancelChunks_checked (chunks : List (List Uuid)) : Checked (cancelChunks userId chunks) := by
  induction chunks with
  | nil => exact .ok _
  | cons chunk chunks ih =>
    refine (Checked.write (by exact fun _ => trivial)).bind fun _ => ?_
    exact ih.bind fun _ => .pure _

theorem cancelTasksByUuids_checked : Checked (cancelTasksByUuids userId uuids) := by
  refine .ite (.fail _) ((cancelChunks_checked _).bind fun _ => ?_)
  exact (removeTasks_checked _).bind fun _ => .pure _

theorem groupUploadArtifact_checked : Checked (groupUploadArtifact task contentType length) := by
  refine Checked.now.bind fun _ => (Checked.select _).bind fun _ =>
      (Checked.okOr _ _).bind fun _ => ?_
  exact .ite (.fail _) (.write (by exact fun _ => trivial))

theorem userUploadArtifact_checked : Checked (userUploadArtifact userId uuid contentType length) := by
  refine Checked.bind ?_ fun _ => (Checked.select _).bind fun _ => (Checked.okOr _ _).bind fun _ =>
    .ite (.fail _) groupUploadArtifact_checked
  refine (Checked.select _).bind fun row => ?_
  cases row with
  | some row => exact .pure _
  | none => exact (Checked.select _).bind fun _ => (Checked.okOr _ _).bind fun _ => .pure _

end Service
end Mitosis
