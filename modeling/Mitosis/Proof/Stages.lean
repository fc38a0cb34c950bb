import Mitosis.Announcer
import Mitosis.Lib.Keeps

namespace Mitosis
set_option autoImplicit true

namespace Announcer

abbrev History : Type := Fallible.History Cmd Cmd.Ret Error

/-- The stages that may be announced behind those announced before, latest first. -/
def after : List TaskExecState → List TaskExecState
  | [] => [.fetchResource]
  | .fetchResource :: _ => [.fetchResourceError, .fetchResourceTimeout, .fetchResourceNotFound,
      .fetchResourceForbidden, .watch, .execPending]
  | .fetchResourceTimeout :: _ => [.taskCommitted]
  | .fetchResourceNotFound :: _ => [.taskCommitted]
  | .fetchResourceForbidden :: _ => [.taskCommitted]
  | .watch :: _ => [.workerExited, .watchTimeout, .execPending]
  | .watchTimeout :: _ => [.taskCommitted]
  | .execPending :: _ => [.execSpawned]
  | .execSpawned :: _ => [.workerExited, .execFinished, .execTimeout]
  | .execFinished :: _ => [.uploadResult]
  | .execTimeout :: _ => [.uploadResult]
  | .uploadResult :: .execFinished :: _ => [.uploadFinishedResult]
  | .uploadResult :: .execTimeout :: _ => [.uploadCancelledResult]
  | .uploadFinishedResult :: _ => [.workerExited, .uploadResultFinished, .uploadResultTimeout]
  | .uploadCancelledResult :: _ => [.workerExited, .uploadResultFinished, .uploadResultTimeout]
  | .uploadResultFinished :: _ => [.taskCommitted]
  | .uploadResultTimeout :: _ => [.taskCommitted]
  | _ => []

def Staged : List TaskExecState → Prop
  | [] => True
  | s :: l => s ∈ after l ∧ Staged l

/-- The stages that the executor has announced, latest first. -/
def announced : History → List TaskExecState
  | [] => []
  | ⟨.set _ state _, _⟩ :: K => .ofCode state :: announced K
  | _ :: K => announced K

def Fetched (task : WorkerTaskResp) (K : History) : Prop :=
  ∀ resource ∈ task.spec.resources, ⟨.work (.download resource.localPath), .ok .done⟩ ∈ K

/-- What the watcher of a stage has seen of it. -/
inductive Seen (uuid : Uuid) (state : TaskExecState) (K : History) : Prop
  | message : ⟨.event conn, .ok (.ready (.message uuid payload))⟩ ∈ K →
    Service.reaches state payload = true → Seen uuid state K
  | key : ⟨.get uuid, .ok (.ready payload)⟩ ∈ K → Service.reaches state payload = true →
    Seen uuid state K
  | row : ⟨.queryTask uuid, .ok (.ready (some info))⟩ ∈ K → info.1.isReach state info.2 = true →
    Seen uuid state K

def Watched (job : Job) (K : History) : Prop :=
  (job.link.redis && job.link.pubsub) = true → ∀ uuid state,
    job.task.spec.watch = some (uuid, state) → .watch ∈ announced K ∧ Seen uuid state K

/-- What lies behind a stage without being announced. -/
def Grounds (job : Job) (K : History) : TaskExecState → Prop
  | .watch => Fetched job.task K
  | .execPending => Fetched job.task K ∧ Watched job K
  | _ => True

def Cmd.staged (job : Job) (K : History) : Cmd → Prop
  | .work (.spawn _) => Fetched job.task K ∧ Watched job K
  | .set uuid state _ => uuid = job.task.uuid ∧
    ∃ s, state = TaskExecState.code s ∧ s ∈ after (announced K) ∧ Grounds job K s
  | .publish uuid state => uuid = job.task.uuid ∧
    ∃ s l, state = TaskExecState.code s ∧ announced K = s :: l
  | _ => True

/-- The commands that announce nothing and do not spawn the command of the task. -/
def Cmd.silent : Cmd → Bool
  | .set _ _ _ | .publish _ _ | .work (.spawn _) => false
  | _ => true

theorem announced_silent {c : Cmd} (hc : c.silent = true) (r : c.Resp) (K : History) :
    announced (⟨c, r⟩ :: K) = announced K := by
  cases c with
  | set => cases hc
  | _ => rfl

theorem Seen.mono (h : Seen uuid state K) (hK : K ⊆ K') : Seen uuid state K' := by
  cases h with
  | message hm hr => exact .message (hK hm) hr
  | key hm hr => exact .key (hK hm) hr
  | row hm hr => exact .row (hK hm) hr

theorem Fetched.mono (h : Fetched task K) (hK : K ⊆ K') : Fetched task K' :=
  fun resource hr => hK (h resource hr)

theorem mem_announced : s ∈ announced K ↔
    ∃ uuid state ex r, ⟨.set uuid state ex, r⟩ ∈ K ∧ TaskExecState.ofCode state = s := by
  induction K with
  | nil =>
    constructor
    · nofun
    · rintro ⟨_, _, _, _, ⟨⟩, _⟩
  | cons e K ih =>
    obtain ⟨c, r⟩ := e
    cases c with
    | set uuid state ex =>
      rw [announced, List.mem_cons, ih]
      constructor
      · rintro (rfl | ⟨uuid', state', ex', r', hm, hs⟩)
        · exact ⟨uuid, state, ex, r, .head _, rfl⟩
        · exact ⟨uuid', state', ex', r', .tail _ hm, hs⟩
      · rintro ⟨uuid', state', ex', r', hm, rfl⟩
        rcases List.mem_cons.1 hm with he | hm
        · obtain ⟨⟩ := he
          exact .inl rfl
        · exact .inr ⟨uuid', state', ex', r', hm, rfl⟩
    | _ =>
      apply ih.trans
      constructor
      · rintro ⟨uuid, state, ex, r, hm, hs⟩
        exact ⟨uuid, state, ex, r, .tail _ hm, hs⟩
      · rintro ⟨uuid, state, ex, r, hm, hs⟩
        rcases List.mem_cons.1 hm with he | hm
        · cases he
        · exact ⟨uuid, state, ex, r, hm, hs⟩

theorem announced_mono (hK : K ⊆ K') (h : s ∈ announced K) : s ∈ announced K' := by
  obtain ⟨uuid, state, ex, r, hm, hs⟩ := mem_announced.1 h
  exact mem_announced.2 ⟨uuid, state, ex, r, hK hm, hs⟩

theorem Watched.mono (h : Watched job K) (hK : K ⊆ K') : Watched job K' := by
  intro hl uuid state hw
  obtain ⟨ha, hs⟩ := h hl uuid state hw
  exact ⟨announced_mono hK ha, hs.mono hK⟩

theorem Grounds.mono (h : Grounds job K s) (hK : K ⊆ K') : Grounds job K' s := by
  cases s with
  | watch => exact Fetched.mono h hK
  | execPending => exact ⟨h.1.mono hK, h.2.mono hK⟩
  | _ => trivial

def At (job : Job) (l : List TaskExecState) (K : History) : Prop :=
  job.link.redis = true → announced K = l

theorem staged_silent {c : Cmd} (hc : c.silent = true) : c.staged job K := by
  cases c with
  | set | publish => cases hc
  | work c =>
    cases c with
    | spawn => cases hc
    | _ => trivial
  | _ => trivial

namespace Service
open Fallible (Keeps)

/-- A part of the executor during which no stage is announced. -/
abbrev Silent (job : Job) (p : Service α) : Prop := ∀ l, Keeps (Cmd.staged job) (At job l) p

theorem silent_issue {c : Cmd} (hc : c.silent = true) : Silent job (issue c) := by
  intro l
  apply Keeps.issue
  intro K hK
  refine ⟨staged_silent hc, ?_⟩
  intro r hl
  rw [announced_silent hc]
  exact hK hl

/-- A part of the executor that does not spawn the command of the task. -/
abbrev Spawnless (p : Executor.Service α) : Prop :=
  Keeps (fun _ c => (Cmd.work c).silent = true) (fun _ => True) p

theorem spawnless_issue {c : Executor.Cmd} (hc : (Cmd.work c).silent = true) :
    Spawnless (Executor.Service.issue c) := Keeps.issue c fun _ _ => ⟨hc, fun _ => trivial⟩

theorem spawnless_reportTask : Spawnless (Executor.Service.reportTask taskId op) :=
  (spawnless_issue rfl).bind fun _ => .pure _

theorem spawnless_uploadArtifacts (contentTypes : List ArtifactContentType) :
    Spawnless (Executor.Service.uploadArtifacts taskId contentTypes) := by
  induction contentTypes with
  | nil => exact .pure _
  | cons contentType contentTypes ih =>
    refine (spawnless_issue rfl).bind fun r => ?_
    cases r with
    | skipped | sent => exact ih
    | _ => exact .pure _

theorem spawnless_submitNewTaskIfPresent :
    Spawnless (Executor.Service.submitNewTaskIfPresent taskId) := by
  refine (spawnless_issue rfl).bind fun r => ?_
  cases r with
  | absent => exact .pure _
  | empty | unreadable | invalid => exact (spawnless_issue rfl).attempt.bind fun _ => .pure _
  | submit req =>
    refine spawnless_reportTask.attempt.bind fun r => ?_
    cases r with
    | error => exact .pure _
    | ok => exact (spawnless_issue rfl).attempt.bind fun _ => .pure _

theorem spawnless_cleanDirectory : Spawnless Executor.Service.cleanDirectory :=
  (spawnless_issue rfl).bind fun _ => (spawnless_issue rfl).bind fun _ =>
    (spawnless_issue rfl).bind fun _ => spawnless_issue rfl

theorem silent_lift {p : Executor.Service α} (hp : Spawnless p) : Silent job (lift p) := by
  have h := hp [] trivial
  generalize ([] : Fallible.History Executor.Cmd Executor.Cmd.Ret Error) = K₀ at h
  clear hp
  induction p generalizing K₀ with
  | ret r => exact fun l K hK => hK
  | call c k ih =>
    intro l K hK
    exact ⟨staged_silent h.1, fun r => ih r _ (h.2 r) l (⟨.work c, r⟩ :: K) hK⟩

theorem silent_reportTask : Silent job (reportTask taskId op) := silent_lift spawnless_reportTask

section
variable {job : Job} {K : History} {l : List TaskExecState}

theorem announce_bind {f : Unit → Service α} {post : History → Except Error α → Prop}
    (hK : At job l K) (hs : s ∈ after l) (hg : Grounds job K s)
    (hf : ∀ K', K ⊆ K' → At job (s :: l) K' →
      Fallible.Knows (Cmd.staged job) K' (f ()) post) :
    Fallible.Knows (Cmd.staged job) K (announce job.link job.task.uuid s ex >>= f) post := by
  unfold announce
  split
  next hl =>
    have hn := hK hl
    rw [Fallible.knows_bind, Fallible.knows_bind, Fallible.knows_attempt, Fallible.knows_issue]
    refine ⟨⟨rfl, s, rfl, hn ▸ hs, hg⟩, fun r => ?_⟩
    dsimp only
    have hn' : announced (⟨.set job.task.uuid s.code ex, r⟩ :: K) = s :: l := by
      rw [announced, TaskExecState.ofCode_code, hn]
    rw [Fallible.knows_bind, Fallible.knows_attempt, Fallible.knows_issue]
    refine ⟨⟨rfl, s, l, rfl, hn'⟩, fun r' => ?_⟩
    apply hf
    · exact fun e he => .tail _ (.tail _ he)
    · exact fun _ => hn'
  next hl =>
    rw [Fallible.knows_bind]
    exact hf K (List.Subset.refl K) fun hl' => (hl hl').elim

theorem announce_last {post : History → Except Error Unit → Prop} (hK : At job l K)
    (hs : s ∈ after l) (hg : Grounds job K s)
    (hpost : ∀ K', K ⊆ K' → At job (s :: l) K' → post K' (.ok ())) :
    Fallible.Knows (Cmd.staged job) K (announce job.link job.task.uuid s ex) post := by
  have h : Fallible.Knows (Cmd.staged job) K
      (announce job.link job.task.uuid s ex >>= fun _ => (pure () : Service Unit)) post :=
    announce_bind hK hs hg hpost
  rw [Fallible.knows_bind] at h
  apply Fallible.Knows.mono h
  rintro K' (e | _) h'
  · exact h'
  · exact h'

theorem silent_bind {p : Service β} {f : β → Service α} {post : History → Except Error α → Prop}
    (hp : Silent job p) (hK : At job l K)
    (hf : ∀ K' b, K ⊆ K' → At job l K' → Fallible.Knows (Cmd.staged job) K' (f b) post)
    (herr : ∀ K' e, post K' (.error e)) :
    Fallible.Knows (Cmd.staged job) K (p >>= f) post :=
  (hp l).andThen hK hf fun K' e _ => herr K' e

theorem giveUp_staged (hK : At job l K) (hs : s ∈ after l) (hg : Grounds job K s)
    (hc : .taskCommitted ∈ after (s :: l)) :
    Fallible.Knows (Cmd.staged job) K (giveUp job.link job.task msg s ex)
      fun _ r => r ≠ .ok true := by
  refine silent_bind silent_reportTask hK (fun K₁ _ hK₁ h₁ => ?_) fun _ _ => nofun
  refine silent_bind silent_reportTask h₁ (fun K₂ _ hK₂ h₂ => ?_) fun _ _ => nofun
  refine announce_bind h₂ hs (hg.mono (List.Subset.trans hK₁ hK₂)) fun K₃ _ h₃ => ?_
  refine announce_bind h₃ hc trivial fun K₄ _ _ => ?_
  rw [Fallible.knows_pure]
  nofun

theorem giveUp_ends {P : History → Prop} (hK : At job l K) (hs : s ∈ after l)
    (hg : Grounds job K s) (hc : .taskCommitted ∈ after (s :: l)) :
    Fallible.Knows (Cmd.staged job) K (giveUp job.link job.task msg s ex)
      fun K' r => r = .ok true → P K' :=
  Fallible.Knows.mono (giveUp_staged hK hs hg hc) fun _ _ h hr => (h hr).elim

theorem fetchResource_staged (hK : At job [.fetchResource] K) :
    Fallible.Knows (Cmd.staged job) K (fetchResource unparsed job.link job.task resource)
      fun K' r => r = .ok true → At job [.fetchResource] K' ∧
        ⟨.work (.download resource.localPath), .ok .done⟩ ∈ K' := by
  refine silent_bind (fun l => (silent_issue rfl l).attempt) hK (fun K₁ info _ h₁ => ?_) fun _ _ =>
    nofun
  cases info with
  | error e =>
    dsimp only
    split
    next => exact nofun
    next =>
      refine announce_bind h₁ (by decide) trivial fun _ _ _ => ?_
      exact nofun
  | ok info =>
    cases info with
    | cancelled => exact nofun
    | timeout => exact giveUp_ends h₁ (by decide) trivial (by decide)
    | notFound => exact giveUp_ends h₁ (by decide) trivial (by decide)
    | forbidden => exact giveUp_ends h₁ (by decide) trivial (by decide)
    | found =>
      refine ⟨trivial, fun r => ?_⟩
      cases r with
      | error e => exact nofun
      | ok r =>
        have h₂ : At job [.fetchResource]
            (⟨.work (.download resource.localPath), .ok r⟩ :: K₁) := h₁
        cases r with
        | done => exact fun _ => ⟨h₂, .head _⟩
        | failed => exact giveUp_ends h₂ (by decide) trivial (by decide)
        | cancelled => exact nofun
        | timeout => exact giveUp_ends h₂ (by decide) trivial (by decide)

theorem fetchResources_staged (resources : List RemoteResourceDownload)
    (hK : At job [.fetchResource] K) :
    Fallible.Knows (Cmd.staged job) K (fetchResources unparsed job.link job.task resources)
      fun K' r => r = .ok true → At job [.fetchResource] K' ∧
        ∀ resource ∈ resources, ⟨.work (.download resource.localPath), .ok .done⟩ ∈ K' := by
  induction resources generalizing K with
  | nil => exact fun _ => ⟨hK, nofun⟩
  | cons resource resources ih =>
    unfold fetchResources
    rw [Fallible.knows_bind]
    apply Fallible.Knows.mono (fetchResource_staged hK)
    rintro K₁ (e | b) h
    · exact nofun
    · cases b with
      | false => exact nofun
      | true =>
        obtain ⟨h₁, hm⟩ := h rfl
        apply Fallible.Knows.mono (Prog.Knows.extends (ih h₁))
        rintro K₂ r ⟨hK₂, h₂⟩ hr
        obtain ⟨hat, hall⟩ := h₂ hr
        exact ⟨hat, List.forall_mem_cons.2 ⟨hK₂ hm, hall⟩⟩

theorem issue_bind {c : Cmd} {f : c.Ret → Service α} {post : History → Except Error α → Prop}
    (hc : c.silent = true)
    (hf : ∀ a, Fallible.Knows (Cmd.staged job) (⟨c, .ok a⟩ :: K) (f a) post)
    (herr : ∀ K' e, post K' (.error e)) :
    Fallible.Knows (Cmd.staged job) K (issue c >>= f) post := by
  rw [Fallible.knows_bind, Fallible.knows_issue]
  refine ⟨staged_silent hc, ?_⟩
  rintro (e | a)
  · exact herr _ e
  · exact hf a

theorem watchLoop_staged (n : Nat) (hK : At job l K) :
    Fallible.Knows (Cmd.staged job) K (watchLoop conn uuid state n) fun K' r =>
      (∀ b, r = .ok b → At job l K') ∧ (r = .ok .reached → Seen uuid state K') := by
  have herr (K' : History) (e : Error) :
      (∀ b, (.error e : Except Error Executor.WatchReply) = .ok b → At job l K') ∧
        ((.error e : Except Error Executor.WatchReply) = .ok .reached → Seen uuid state K') :=
    ⟨nofun, nofun⟩
  induction n generalizing K with
  | zero =>
    refine issue_bind rfl (fun r => ?_) herr
    rcases r with _ | _ | ⟨⟨⟩⟩
    · exact ⟨fun _ _ => hK, nofun⟩
    · exact ⟨fun _ _ => hK, nofun⟩
  | succ n ih =>
    refine issue_bind rfl (fun event => ?_) herr
    have h₁ : At job l (⟨.event conn, .ok event⟩ :: K) := hK
    cases event with
    | cancelled => exact ⟨fun _ _ => hK, nofun⟩
    | timeout => exact ⟨fun _ _ => hK, nofun⟩
    | ready event =>
      cases event with
      | closed => exact ih h₁
      | message channel payload =>
        dsimp only
        split
        next h =>
          obtain ⟨rfl, hr⟩ := h
          exact ⟨fun _ _ => hK, fun _ => .message (.head _) hr⟩
        next => exact ih h₁
      | timer =>
        refine issue_bind rfl (fun payload => ?_) herr
        have h₂ : At job l (⟨.get uuid, .ok payload⟩ :: ⟨.event conn, .ok (.ready .timer)⟩ :: K) :=
          h₁
        cases payload with
        | cancelled => exact ⟨fun _ _ => hK, nofun⟩
        | timeout => exact ⟨fun _ _ => hK, nofun⟩
        | ready payload =>
          dsimp only
          split
          next hr => exact ⟨fun _ _ => hK, fun _ => .key (.head _) hr⟩
          next =>
            refine issue_bind rfl (fun info => ?_) herr
            cases info with
            | cancelled => exact ⟨fun _ _ => hK, nofun⟩
            | timeout => exact ⟨fun _ _ => hK, nofun⟩
            | ready info =>
              dsimp only
              split
              next hi =>
                obtain ⟨i, rfl, hr⟩ := (Option.any_eq_true _ _).1 hi
                exact ⟨fun _ _ => hK, fun _ => .row (.head _) hr⟩
              next =>
                apply ih
                exact h₂

/-- The command of the task may be run: its resources are there, and it need not wait. -/
structure Allowed (job : Job) (K : History) : Prop where
  stage : At job [.fetchResource] K ∨ At job [.watch, .fetchResource] K
  fetched : Fetched job.task K
  watched : Watched job K

theorem watchTask_staged (hK : At job [.fetchResource] K) (hf : Fetched job.task K) :
    Fallible.Knows (Cmd.staged job) K (watchTask job.link job.task) fun K' r =>
      r = .ok true → Allowed job K' := by
  unfold watchTask
  split
  next uuid state hl hw =>
    refine announce_bind hK (by decide) hf fun K₁ hK₁ h₁ => ?_
    refine silent_bind (fun l => (silent_issue rfl l).attempt) h₁ (fun K₂ _ hK₂ h₂ => ?_)
      fun _ _ => nofun
    rw [Fallible.knows_bind]
    apply Fallible.Knows.mono (Prog.Knows.extends (watchLoop_staged _ h₂))
    rintro K₃ (e | r) ⟨hK₃, h₃, hs⟩
    · exact nofun
    · have hat := h₃ r rfl
      have hstop (K' : History) (e : Error) :
          (.error e : Except Error Bool) = .ok true → Allowed job K' := nofun
      cases r with
      | reached =>
        intro _
        refine ⟨.inr hat, hf.mono fun e he => hK₃ (hK₂ (hK₁ he)), fun _ uuid' state' hw' => ?_⟩
        obtain ⟨⟩ := hw.symm.trans hw'
        refine ⟨?_, hs rfl⟩
        rw [hat (Bool.and_eq_true_iff.1 hl).1]
        exact .head _
      | cancelled =>
        refine silent_bind (fun l => (silent_issue rfl l).attempt) hat (fun K₄ _ _ h₄ => ?_) hstop
        refine announce_bind h₄ (by decide) trivial fun _ _ _ => ?_
        exact nofun
      | timeout =>
        refine silent_bind (fun l => (silent_issue rfl l).attempt) hat (fun K₄ _ _ h₄ => ?_) hstop
        apply (giveUp_staged (s := .watchTimeout) h₄ (by decide) trivial (by decide)).mono
        exact fun _ _ h hr => (h hr).elim
  next hn =>
    intro _
    exact ⟨.inl hK, hf, fun hl uuid state hw => (hn uuid state hl hw).elim⟩

theorem processTaskResult_staged (hK : At job l K)
    (hs : (if isFinished then .uploadFinishedResult else .uploadCancelledResult) ∈ after l) :
    Fallible.Knows (Cmd.staged job) K (processTaskResult job.link job.task isFinished exitStatus)
      fun _ _ => True := by
  have hnext : ∀ s ∈ [TaskExecState.workerExited, .uploadResultFinished, .uploadResultTimeout],
      s ∈ after ((if isFinished then .uploadFinishedResult else .uploadCancelledResult) :: l) := by
    intro s h
    cases isFinished <;> exact h
  have hg : Grounds job K
      (if isFinished then .uploadFinishedResult else .uploadCancelledResult) := by
    cases isFinished <;> trivial
  refine announce_bind hK hs hg fun K₁ _ h₁ => ?_
  refine silent_bind silent_reportTask h₁ (fun K₂ _ _ h₂ => ?_) fun _ _ => trivial
  refine silent_bind (silent_lift (spawnless_uploadArtifacts _)) h₂ (fun K₃ upload _ h₃ => ?_)
    fun _ _ => trivial
  cases upload with
  | timeout =>
    refine silent_bind silent_reportTask h₃ (fun K₄ _ _ h₄ => ?_) fun _ _ => trivial
    refine announce_bind h₄ (hnext _ (by decide)) trivial fun K₅ _ h₅ => ?_
    refine announce_bind h₅ (.head _) trivial fun K₆ _ h₆ => ?_
    refine silent_bind (silent_issue rfl) h₆ (fun K₇ _ _ h₇ => ?_) fun _ _ => trivial
    exact (silent_lift spawnless_cleanDirectory _ _ h₇).mono fun _ _ _ => trivial
  | finished =>
    refine silent_bind (silent_issue rfl) h₃ (fun K₄ _ _ h₄ => ?_) fun _ _ => trivial
    refine silent_bind (silent_issue rfl) h₄ (fun K₅ cancelled _ h₅ => ?_) fun _ _ => trivial
    split
    next => exact announce_last h₅ (hnext _ (by decide)) trivial fun _ _ _ => trivial
    next =>
      refine announce_bind h₅ (hnext _ (by decide)) trivial fun K₆ _ h₆ => ?_
      refine silent_bind (silent_lift spawnless_submitNewTaskIfPresent) h₆ (fun K₇ _ _ h₇ => ?_)
        fun _ _ => trivial
      refine silent_bind silent_reportTask h₇ (fun K₈ _ _ h₈ => ?_) fun _ _ => trivial
      refine announce_bind h₈ (.head _) trivial fun K₉ _ h₉ => ?_
      exact (silent_lift spawnless_cleanDirectory _ _ h₉).mono fun _ _ _ => trivial

theorem finishTask_staged (hK : At job (s :: l) K)
    (hs : s = if isFinished then .execFinished else .execTimeout) :
    Fallible.Knows (Cmd.staged job) K (finishTask job.link job.task isFinished exitStatus)
      fun _ _ => True := by
  cases isFinished with
  | true =>
    obtain rfl : s = .execFinished := hs
    refine announce_bind hK (.head _) trivial fun K₁ _ h₁ => ?_
    exact processTaskResult_staged h₁ (.head _)
  | false =>
    obtain rfl : s = .execTimeout := hs
    refine announce_bind hK (.head _) trivial fun K₁ _ h₁ => ?_
    exact processTaskResult_staged h₁ (.head _)

theorem silent_drain : Silent job drain := by
  intro l
  refine (silent_issue rfl l).bind fun r => ?_
  cases r with
  | cancelled => exact (silent_issue rfl l).bind fun _ => .pure _
  | late => exact (silent_issue rfl l).bind fun _ => (silent_issue rfl l).bind fun _ => .pure _
  | exited => exact (silent_issue rfl l).bind fun _ => .pure _

theorem spawn_bind {f : Unit → Service α} {post : History → Except Error α → Prop}
    (h : Fetched job.task K ∧ Watched job K) (hK : At job l K)
    (hf : ∀ K', At job l K' → Fallible.Knows (Cmd.staged job) K' (f ()) post)
    (herr : ∀ K' e, post K' (.error e)) :
    Fallible.Knows (Cmd.staged job) K (issue (.work (.spawn command)) >>= f) post := by
  rw [Fallible.knows_bind, Fallible.knows_issue]
  refine ⟨h, ?_⟩
  rintro (e | _)
  · exact herr _ e
  · exact hf (⟨.work (.spawn command), .ok ()⟩ :: K) hK

theorem runTask_staged (h : Allowed job K) :
    Fallible.Knows (Cmd.staged job) K (runTask job.link job.task) fun _ _ => True := by
  obtain ⟨l, hK, hs⟩ : ∃ l, At job l K ∧ .execPending ∈ after l := by
    rcases h.stage with hK | hK
    · exact ⟨_, hK, by decide⟩
    · exact ⟨_, hK, by decide⟩
  refine announce_bind hK hs ⟨h.fetched, h.watched⟩ fun K₁ hK₁ h₁ => ?_
  refine silent_bind (fun l => (silent_issue rfl l).attempt) h₁ (fun K₂ _ hK₂ h₂ => ?_) fun _ _ =>
    trivial
  have hK₂ := List.Subset.trans hK₁ hK₂
  refine spawn_bind ⟨h.fetched.mono hK₂, h.watched.mono hK₂⟩ h₂ (fun K₃ h₃ => ?_) fun _ _ => trivial
  refine announce_bind h₃ (.head _) trivial fun K₄ _ h₄ => ?_
  refine silent_bind (fun l => (silent_issue rfl l).attempt) h₄ (fun K₅ child _ h₅ => ?_)
    fun _ _ => trivial
  cases child with
  | error e =>
    refine announce_bind h₅ (.tail _ (.head _)) trivial fun _ _ _ => ?_
    trivial
  | ok child =>
    cases child with
    | cancelled =>
      refine silent_bind (silent_issue rfl) h₅ (fun K₆ _ _ h₆ => ?_) fun _ _ => trivial
      exact announce_last h₆ (.head _) trivial fun _ _ _ => trivial
    | exited exitStatus =>
      refine announce_bind h₅ (.tail _ (.head _)) trivial fun K₆ _ h₆ => ?_
      exact finishTask_staged h₆ rfl
    | timeout =>
      refine announce_bind h₅ (.tail _ (.tail _ (.head _))) trivial fun K₆ _ h₆ => ?_
      refine silent_bind silent_drain h₆ (fun K₇ status _ h₇ => ?_) fun _ _ => trivial
      cases status with
      | none => trivial
      | some exitStatus => exact finishTask_staged h₇ rfl

end

theorem executeTask_staged (job : Job) :
    Fallible.Knows (Cmd.staged job) [] (executeTask unparsed job.link job.task)
      fun _ _ => True := by
  refine announce_bind (l := []) (fun _ => rfl) (.head _) trivial fun K₁ _ h₁ => ?_
  rw [Fallible.knows_bind]
  apply (fetchResources_staged job.task.spec.resources h₁).mono
  rintro K₂ (e | b) h₂
  · trivial
  · cases b with
    | false => trivial
    | true =>
      obtain ⟨hat, hf⟩ := h₂ rfl
      dsimp only
      rw [if_pos rfl, Fallible.knows_bind]
      apply (watchTask_staged hat hf).mono
      rintro K₃ (e | b) h₃
      · trivial
      · cases b with
        | false => trivial
        | true => exact runTask_staged (h₃ rfl)

end Service
end Announcer
end Mitosis
