import Mitosis.Auth
import Mitosis.Proof.Alone
import Mitosis.Proof.Fresh

namespace Mitosis
set_option autoImplicit true

structure RegisterWorkerReq where
  tags : List String
  labels : List String
  groups : List String
  lifetime : Option Nat

structure RegisterWorkerResp where
  workerId : Uuid
  token : String
  redisUrl : Option String

/-- The configuration behind a registration. `uuidToString` is the text of a uuid. -/
structure RegisterConfig extends Auth.TokenConfig String where
  redisUrl : Option String
  uuidToString : Uuid → String

namespace Service

/-- The request behind `user_register_worker`, with the errors that it answers. -/
def userRegisterWorker (config : RegisterConfig) (creatorId : UserId) (req : RegisterWorkerReq) :
    Service RegisterWorkerResp := do
  let uuid ← recover (registerWorker creatorId req.tags req.labels req.groups) fun
    | .apiError e => fail (.apiError e)
    | _ => fail (.apiError .internalServerError)
  let now ← now
  let token ← recover (ofExcept (Auth.generateWorkerToken config.toTokenConfig
    (config.uuidToString uuid) 0 req.lifetime now)) fun e => fail (.apiError e.toApiError)
  return ⟨uuid, token, config.redisUrl⟩

def KeepsWorkers (p : Service α) : Prop := ∀ faults s r rest s',
  runs p faults s = some (r, (rest, s')) → s'.db.workers = s.db.workers

namespace KeepsWorkers
variable {p : Service α}

theorem bind {f : α → Service β} (h : KeepsWorkers p) (hf : ∀ a, KeepsWorkers (f a)) :
    KeepsWorkers (p >>= f) := by
  intro faults s r rest s' hr
  rcases runs_bind hr with ⟨a, faults₁, s₁, hp, hk⟩ | ⟨e, hp, -⟩
  · rw [hf a _ _ _ _ _ hk, h _ _ _ _ _ hp]
  · exact h _ _ _ _ _ hp

theorem recover {f : Error → Service α} (h : KeepsWorkers p) (hf : ∀ e, KeepsWorkers (f e)) :
    KeepsWorkers (Service.recover p f) := by
  intro faults s r rest s' hr
  rcases runs_recover hr with ⟨a, hp, -⟩ | ⟨e, faults₁, s₁, hp, hk⟩
  · exact h _ _ _ _ _ hp
  · rw [hf e _ _ _ _ _ hk, h _ _ _ _ _ hp]

theorem ok (a : α) : KeepsWorkers (Service.ok a) := by
  intro faults s r rest s' hr
  obtain ⟨⟩ := hr
  rfl

theorem fail (e : Error) : KeepsWorkers (Service.fail e : Service α) := by
  intro faults s r rest s' hr
  obtain ⟨⟩ := hr
  rfl

theorem ofExcept (x : Except Error α) : KeepsWorkers (Service.ofExcept x) := by
  cases x with
  | ok a => exact ok a
  | error e => exact fail e

theorem okOr (e : Error) (x : Option α) : KeepsWorkers (Service.okOr e x) := by
  cases x with
  | some a => exact ok a
  | none => exact fail e

theorem issue {c : Cmd} (h : ∀ q, c ≠ .write q) : KeepsWorkers (Service.issue c) := by
  intro faults s r rest s' hr
  obtain ⟨fault, -, hx⟩ := runs_issue hr
  rw [Cmd.exec_db hx h]

theorem insertGroupWorkers (roles : Table String GroupWorkerRole) (w : WorkerId) :
    KeepsWorkers (write (.insertGroupWorkers roles w)) := by
  intro faults s r rest s' hr
  obtain ⟨fault, -, hx⟩ := runs_issue hr
  rcases Cmd.exec_write hx with ⟨_, _, rfl⟩ | ⟨_, _, -, hq, -, rfl⟩
  · rfl
  · obtain ⟨-, -, rfl⟩ := Db.insertGroupWorkers_ok hq
    rfl

theorem now : KeepsWorkers Service.now := issue fun _ => nofun

theorem sendTask (op : TaskDispatcherOp) (msg : String) : KeepsWorkers (Service.sendTask op msg) :=
  (issue (c := .sendTask op) fun _ => nofun).recover fun _ => fail _

theorem sendHeartbeat (op : HeartbeatOp) (msg : String) :
    KeepsWorkers (Service.sendHeartbeat op msg) :=
  (issue (c := .sendHeartbeat op) fun _ => nofun).recover fun _ => fail _

theorem select (q : Select) : KeepsWorkers (Service.select q) := issue fun _ => nofun

theorem setupWorkerQueues : KeepsWorkers (Service.setupWorkerQueues w tags) := by
  refine (sendHeartbeat _ _).bind fun _ => (sendTask _ _).bind fun _ => ?_
  exact (select _).bind fun _ => sendTask _ _

end KeepsWorkers

/-- What a registration does behind the insertion of the worker. -/
def registered (creatorId : UserId) (groups : List String) (row : WorkerId × Worker) :
    Service Uuid := do
  let user ← select (.user creatorId)
  let user ← okOr (.apiError (.notFound "User not found")) user
  let roles := (groups.filterMap parseGroup).foldl (fun t e => t.set e.1 e.2) Table.empty
  write (.insertGroupWorkers (roles.set user.username .admin) row.1)
  setupWorkerQueues row.1 row.2.tags
  return row.2.workerId

theorem registered_keeps : KeepsWorkers (registered creatorId groups row) := by
  refine (KeepsWorkers.select _).bind fun _ => (KeepsWorkers.okOr _ _).bind fun _ => ?_
  refine (KeepsWorkers.insertGroupWorkers _ _).bind fun _ => ?_
  exact KeepsWorkers.setupWorkerQueues.bind fun _ => .ok _

/-- The row of a worker as a registration inserts it. -/
def registeredWorker (s : Infra) (creatorId : UserId) (tags labels : List String) : Worker where
  workerId := s.nextUuid
  creatorId := creatorId
  tags := tags
  labels := labels
  createdAt := s.clock
  updatedAt := s.clock
  state := .normal
  lastHeartbeat := s.clock
  assignedTaskId := none

/-- A registration whose first statement fails does nothing; any other leaves the row. -/
theorem runs_registerWorker {s s' : Infra} {r : Except Error Uuid}
    (h : runs (registerWorker creatorId tags labels groups) faults s = some (r, (rest, s'))) :
    (∃ f, faults[2]? = some (some f) ∧ s' = { s with nextUuid := s.nextUuid + 1 } ∧
        r = .error (.dbError f)) ∨
      faults[2]? = some none ∧ s'.db.workers.find s.db.workerSeq =
        some (registeredWorker s creatorId tags labels) := by
  rcases runs_bind h with ⟨uuid, _, s₁, hu, h₁⟩ | ⟨_, hu, -⟩ <;>
  obtain ⟨f₀, rfl, hx⟩ := runs_issue hu <;>
  obtain ⟨⟩ := hx
  rcases runs_bind h₁ with ⟨time, _, s₁, hn, h₂⟩ | ⟨_, hn, -⟩ <;>
  obtain ⟨f₁, rfl, hx⟩ := runs_issue hn <;>
  obtain ⟨⟩ := hx
  rcases runs_bind h₂ with ⟨⟨w, worker⟩, _, s₁, hw, h₃⟩ | ⟨e, hw, rfl⟩ <;>
  obtain ⟨f₂, rfl, hx⟩ := runs_issue hw
  · have hk : s'.db.workers = s₁.db.workers := by
      have hkeeps : KeepsWorkers (registered creatorId groups (w, worker)) := registered_keeps
      exact hkeeps _ _ _ _ _ h₃
    rcases Cmd.exec_write hx with ⟨_, hr, -⟩ | ⟨_, _, rfl, hq, hr, rfl⟩
    · cases hr
    · obtain ⟨⟩ := hq
      refine .inr ⟨rfl, ?_⟩
      rw [hk]
      exact Table.find_set_self _ _ _
  · cases f₂ with
    | some f =>
      obtain ⟨⟩ := hx
      exact .inl ⟨f, rfl, rfl, rfl⟩
    | none => cases hx

end Service

/-- The coordinator has nothing of the worker: no row, no role, no queue and no time at which
it expires, and nothing underway that would bring them. -/
structure Infra.Unknown (s : Infra) (uuid : Uuid) (w : WorkerId) : Prop where
  row : ∀ w' worker, s.db.workers.find w' = some worker → worker.workerId ≠ uuid
  roles : ∀ g, s.db.groupWorker.find (g, w) = none
  queue : s.dispatcher.workers.find w = none
  registers : .registerWorker w ∉ s.taskChan
  expiry : s.heartbeatQueue.workers.find w = none
  heartbeats : .heartbeat w ∉ s.heartbeatChan

theorem unknown_next {s : State}
    (hp : Path State.step ok (State.initial accounts timeout clock) as s) :
    s.infra.Unknown s.infra.nextUuid s.infra.db.workerSeq := by
  have hg := grounded_of_path hp
  have hs := served_of_path hp
  have hf := fresh_of_path hp
  refine ⟨fun w worker hw => Nat.ne_of_lt (hf.uuids w worker hw), fun g => ?_, ?_, fun hm => ?_,
    ?_, fun hm => ?_⟩
  · cases hr : s.infra.db.groupWorker.find (g, s.infra.db.workerSeq) with
    | none => rfl
    | some role => exact (Nat.lt_irrefl _ (hg.keyed.roles g _ role hr)).elim
  · rw [← Option.not_isSome_iff_eq_none]
    exact fun hq => Nat.lt_irrefl _ (hs.queues _ hq)
  · exact Nat.lt_irrefl _ (hs.registers _ hm)
  · rw [← Option.not_isSome_iff_eq_none]
    exact fun hq => Nat.lt_irrefl _ (hf.entries _ hq)
  · exact Nat.lt_irrefl _ (hf.beats _ hm)

/-- A request to register a worker that fails leaves nothing of the worker if and only if the
statement that inserts the worker failed. -/
theorem failed_registration {s : State} {s' : Infra}
    (hp : Path State.step ok (State.initial accounts timeout clock) as s)
    (hr : Service.runs (Service.userRegisterWorker config creatorId req) faults s.infra =
      some (.error e, (rest, s'))) :
    s'.Unknown s.infra.nextUuid s.infra.db.workerSeq ↔ ∃ f, faults[2]? = some (some f) := by
  have hrow (hf : faults[2]? = some none) (hfind : s'.db.workers.find s.infra.db.workerSeq =
      some (Service.registeredWorker s.infra creatorId req.tags req.labels)) :
      s'.Unknown s.infra.nextUuid s.infra.db.workerSeq ↔ ∃ f, faults[2]? = some (some f) := by
    constructor
    · intro h
      exact (h.row _ _ hfind rfl).elim
    · rintro ⟨f, hf'⟩
      cases hf.symm.trans hf'
  rcases Service.runs_bind hr with ⟨uuid, faults₁, s₁, hreg, hr⟩ | ⟨e, hreg, -⟩
  · -- The worker is registered, and its token is not made.
    rcases Service.runs_recover hreg with ⟨uuid', hreg, -⟩ | ⟨e', faults', s₂, -, hk⟩
    · have hkeeps : s'.db.workers = s₁.db.workers := by
        refine Service.KeepsWorkers.bind .now (fun _ => ?_) _ _ _ _ _ hr
        refine Service.KeepsWorkers.bind (.recover (.ofExcept _) fun _ => .fail _) fun _ => .ok _
      rcases Service.runs_registerWorker hreg with ⟨_, -, -, hn⟩ | ⟨hf, hfind⟩
      · cases hn
      · rw [← hkeeps] at hfind
        exact hrow hf hfind
    · cases e' <;> cases hk
  · rcases Service.runs_recover hreg with ⟨uuid', -, hn⟩ | ⟨e', faults', s₂, hreg', hk⟩
    · cases hn
    · have hs : s₂ = s' := by cases e' <;> (obtain ⟨⟩ := hk; rfl)
      subst hs
      rcases Service.runs_registerWorker hreg' with ⟨f, hf, rfl, -⟩ | ⟨hf, hfind⟩
      · have h := unknown_next hp
        exact ⟨fun _ => ⟨f, hf⟩, fun _ => ⟨h.row, h.roles, h.queue, h.registers, h.expiry,
          h.heartbeats⟩⟩
      · exact hrow hf hfind

namespace Registration

def config : RegisterConfig where
  tokenExpiresIn := some 604800
  encodeToken := some fun claims => .ok claims.sub
  formatDuration := fun ttl => toString ttl
  redisUrl := none
  uuidToString := fun uuid => toString uuid

def req (lifetime : Option Nat) : RegisterWorkerReq := ⟨["x"], [], [], lifetime⟩

end Registration

open Registration in
/-- The database refuses the worker, and nothing is left. -/
theorem failed_registration_refused : ∃ e rest s', Service.runs
      (Service.userRegisterWorker config 1 (req none)) [none, none, some .constraint]
      RunDemo.start.infra = some (.error e, (rest, s')) ∧ s'.Unknown 0 1 := by
  have hrun : (Service.runs (Service.userRegisterWorker config 1 (req none))
      [none, none, some .constraint] RunDemo.start.infra).any (fun r => !r.1.isOk) = true := by decide
  obtain ⟨⟨r, rest, s'⟩, hr, he⟩ := Option.any_eq_true _ _ |>.1 hrun
  cases r with
  | ok => cases he
  | error e =>
    have hp : Path State.step (fun _ _ => True) RunDemo.start [] RunDemo.start := .nil
    have hu := failed_registration hp hr
    exact ⟨e, rest, s', hr, hu.2 ⟨.constraint, rfl⟩⟩

open Registration in
/-- A lifetime that does not fit is refused after the worker was registered. -/
theorem registered_without_token : ∃ e rest s', Service.runs
      (Service.userRegisterWorker config 1 (req (some (2 ^ 63)))) (List.replicate 11 none)
      RunDemo.start.infra = some (.error e, (rest, s')) ∧ ¬s'.Unknown 0 1 := by
  have hrun : (Service.runs (Service.userRegisterWorker config 1 (req (some (2 ^ 63))))
      (List.replicate 11 none) RunDemo.start.infra).any (fun r => !r.1.isOk &&
        r.2.2.taskChan.contains (.registerWorker 1)) = true := by decide
  obtain ⟨⟨r, rest, s'⟩, hr, he⟩ := Option.any_eq_true _ _ |>.1 hrun
  rw [Bool.and_eq_true] at he
  cases r with
  | ok => cases he.1
  | error e => exact ⟨e, rest, s', hr, fun h => h.registers (List.contains_iff_mem.1 he.2)⟩

end Mitosis
