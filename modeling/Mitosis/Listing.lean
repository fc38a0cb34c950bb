import Mitosis.Lib.Sweep
import Mitosis.Lookup

namespace Mitosis
set_option autoImplicit true

namespace Db

/-- What the first statement of a listing shows of a task. -/
def activeListed (filter : TaskFilter) (db : Db) (t : TaskId) : Option TaskQueryInfo :=
  (db.activeTasks.find t).bind fun task => (db.joined task.creatorId task.groupId).bind fun j =>
    if filter.selects j.1 j.2 task then some (task.info j.1 j.2) else none

/-- What the second statement of a listing shows of a task. -/
def archivedListed (filter : TaskFilter) (reporterUuid : Option Uuid) (db : Db) (t : TaskId) :
    Option TaskQueryInfo :=
  (db.archivedTasks.find t).bind fun task => (db.joined task.creatorId task.groupId).bind fun j =>
    if filter.selectsArchived reporterUuid j.1 j.2 task then some (task.info j.1 j.2) else none

def listed (filter : TaskFilter) (reporterUuid : Option Uuid) (db : Db) (t : TaskId) :
    Option TaskQueryInfo :=
  (db.activeListed filter t).or (db.archivedListed filter reporterUuid t)

theorem mem_activeInfos {db : Db} :
    found ∈ db.activeInfos filter ↔ ∃ t, db.activeListed filter t = some found :=
  Table.mem_filterMap_rows

theorem mem_archivedInfos {db : Db} : found ∈ db.archivedInfos filter reporterUuid ↔
    ∃ t, db.archivedListed filter reporterUuid t = some found := Table.mem_filterMap_rows

theorem activeListed_uuid {db : Db} (h : db.activeListed filter t = some found) :
    ∃ task, db.activeTasks.find t = some task ∧ found.uuid = task.uuid := by
  obtain ⟨task, hf, h⟩ := Option.bind_eq_some_iff.1 h
  obtain ⟨j, -, h⟩ := Option.bind_eq_some_iff.1 h
  split at h
  next =>
    obtain rfl := Option.some.inj h
    exact ⟨task, hf, rfl⟩
  next => cases h

theorem archivedListed_uuid {db : Db} (h : db.archivedListed filter reporterUuid t = some found) :
    ∃ task, db.archivedTasks.find t = some task ∧ found.uuid = task.uuid := by
  obtain ⟨task, hf, h⟩ := Option.bind_eq_some_iff.1 h
  obtain ⟨j, -, h⟩ := Option.bind_eq_some_iff.1 h
  split at h
  next =>
    obtain rfl := Option.some.inj h
    exact ⟨task, hf, rfl⟩
  next => cases h

theorem activeListed_ident {db : Db} (h : db.activeListed filter t = some found) :
    ∃ o, db.ident t = some o ∧ found.uuid = o.uuid := by
  obtain ⟨task, hf, hu⟩ := activeListed_uuid h
  exact ⟨task.ident, ident_active hf, hu⟩

namespace Sound
variable {db : Db}

theorem archivedListed_ident (hs : db.Sound)
    (h : db.archivedListed filter reporterUuid t = some found) :
    ∃ o, db.ident t = some o ∧ found.uuid = o.uuid := by
  obtain ⟨task, hf, hu⟩ := archivedListed_uuid h
  refine ⟨task.ident, ?_, hu⟩
  rw [ident_archived (hs.active_none hf), hf]
  rfl

/-- A statement that shows each row of a table at most once shows different uuids. -/
theorem nodup_infos {ρ : Type} (hs : db.Sound) (rows : Table TaskId ρ)
    (f : TaskId × ρ → Option TaskQueryInfo)
    (hf : ∀ t row found, rows.find t = some row → f (t, row) = some found →
      ∃ o, db.ident t = some o ∧ found.uuid = o.uuid) :
    ((rows.rows.filterMap f).map TaskQueryInfo.uuid).Nodup := by
  apply Table.nodup_filterMap_rows
  intro t t' row row' found found' ht ht' h h' hu
  obtain ⟨o, ho, he⟩ := hf t row found ht h
  obtain ⟨o', ho', he'⟩ := hf t' row' found' ht' h'
  exact hs.uuids t t' o o' ho ho' (he.symm.trans (hu.trans he'))

theorem activeInfos_nodup (hs : db.Sound) (filter : TaskFilter) :
    ((db.activeInfos filter).map TaskQueryInfo.uuid).Nodup := by
  apply hs.nodup_infos
  intro t task found ht hf
  have h : db.activeListed filter t = some found := by
    rw [activeListed, ht]
    exact hf
  exact activeListed_ident h

theorem archivedInfos_nodup (hs : db.Sound) (filter : TaskFilter) (reporterUuid : Option Uuid) :
    ((db.archivedInfos filter reporterUuid).map TaskQueryInfo.uuid).Nodup := by
  apply hs.nodup_infos
  intro t task found ht hf
  have h : db.archivedListed filter reporterUuid t = some found := by
    rw [archivedListed, ht]
    exact hf
  exact hs.archivedListed_ident h

theorem listed_archived (hs : db.Sound)
    (h : db.archivedListed filter reporterUuid t = some found) :
    db.listed filter reporterUuid t = some found := by
  obtain ⟨task, hf, -⟩ := archivedListed_uuid h
  rw [listed, activeListed, hs.active_none hf, Option.bind_none, Option.none_or, h]

end Sound
end Db

theorem page_sublist {α : Type} (limit offset : Option Nat) (rows : List α) :
    (page limit offset rows).Sublist rows := by
  cases limit with
  | none => exact List.drop_sublist _ _
  | some n => exact (List.take_sublist _ _).trans (List.drop_sublist _ _)

namespace Tasks
open Sessions

structure Shown (s s' : State) (bs : List (Act Call Chance Env)) (i : Nat) (filter : TaskFilter)
    (query : TasksQueryReq) (active archived : List TaskQueryInfo) : Prop where
  activeOnce : (active.map TaskQueryInfo.uuid).Nodup
  archivedOnce : (archived.map TaskQueryInfo.uuid).Nodup
  were : ∀ found ∈ active ++ archived, ∃ t, During s s' bs i fun db =>
    db.listed filter query.reporterUuid t = some found
  moved : ∀ found ∈ active, ∀ found' ∈ archived, found.uuid = found'.uuid → ∃ t,
    During s s' bs i (fun db => db.activeListed filter t = some found) ∧
    During s s' bs i fun db => db.archivedListed filter query.reporterUuid t = some found'
  complete : query.limit = none → query.offset = none → ∀ t o,
    s.shared.txns.committed.ident t = some o →
    (∃ found ∈ active ++ archived, During s s' bs i fun db =>
      db.listed filter query.reporterUuid t = some found) ∨
    During s s' bs i fun db => db.listed filter query.reporterUuid t = none

section
variable {s s' : State} {as bs : List (Act Call Chance Env)} {i : Nat} {K : History}
  {active archived : List TaskQueryInfo}

theorem shown_of_history
    (hp : Path (Sessions.step system) (fun _ _ => True) (initial db clock) as s)
    (hq : Path (Sessions.step system) (fun _ _ => True) s bs s') (h₀ : history i s.log = [])
    (hidle : txn (history i s'.log) = none) (hK : history i s'.log =
      ⟨.tasks (.archivedInfos filter query.reporterUuid query.limit query.offset), .ok archived⟩ ::
      ⟨.tasks (.activeInfos filter query.limit query.offset), .ok active⟩ :: K) :
    Shown s s' bs i filter query active archived := by
  have hlen : (history i s.log).length ≤ K.length := by
    rw [h₀]
    exact Nat.zero_le _
  rw [hK] at hidle
  have hK₁ : txn K = none := Option.map_eq_none_iff.1 (Option.map_eq_none_iff.1 hidle)
  obtain ⟨m₁, m₁', m₂, m₂', hi₁, hi₂, cs, hcs⟩ := issued_twice [] hq hlen hK
  obtain ⟨bs₁, hp₁, hk₁, hs₁, hv₁⟩ := issued_state hp hi₁ hK₁
  obtain ⟨bs₂, hp₂, hk₂, hs₂, hv₂⟩ := issued_state hp hi₂ (Option.map_eq_none_iff.1 hidle)
  have h₁ : active = page query.limit query.offset (m₁.shared.txns.committed.activeInfos filter) :=
    issued_tasks hi₁ hv₁
  have h₂ : archived = page query.limit query.offset
      (m₂.shared.txns.committed.archivedInfos filter query.reporterUuid) := issued_tasks hi₂ hv₂
  have hactive : ∀ found ∈ active, ∃ t,
      m₁.shared.txns.committed.activeListed filter t = some found := by
    intro found hm
    rw [h₁] at hm
    exact Db.mem_activeInfos.1 ((page_sublist _ _ _).subset hm)
  have harchived : ∀ found ∈ archived, ∃ t,
      m₂.shared.txns.committed.archivedListed filter query.reporterUuid t = some found := by
    intro found hm
    rw [h₂] at hm
    exact Db.mem_archivedInfos.1 ((page_sublist _ _ _).subset hm)
  constructor
  · rw [h₁]
    exact (hs₁.activeInfos_nodup filter).sublist ((page_sublist _ _ _).map _)
  · rw [h₂]
    exact (hs₂.archivedInfos_nodup filter _).sublist ((page_sublist _ _ _).map _)
  · intro found hm
    rcases List.mem_append.1 hm with hm | hm
    · obtain ⟨t, ht⟩ := hactive found hm
      refine ⟨t, During.of_issued hi₁ ?_⟩
      rw [Db.listed, ht, Option.some_or]
    · obtain ⟨t, ht⟩ := harchived found hm
      refine ⟨t, During.of_issued hi₂ ?_⟩
      rw [hs₂.listed_archived ht]
  · intro found hm found' hm' hu
    obtain ⟨t, ht⟩ := hactive found hm
    obtain ⟨t', ht'⟩ := harchived found' hm'
    obtain ⟨o, ho, hou⟩ := Db.activeListed_ident ht
    obtain ⟨o', ho', hou'⟩ := hs₂.archivedListed_ident ht'
    have hko := (path_kept hp₁ hcs).ident t o ho
    obtain rfl := hs₂.uuids t t' o o' hko ho' (hou.symm.trans (hu.trans hou'))
    exact ⟨t, During.of_issued hi₁ ht, During.of_issued hi₂ ht'⟩
  · intro hl ho t o hid
    rw [hl, ho] at h₁ h₂
    have hid₁ := hk₁.ident t o hid
    cases hf : m₁.shared.txns.committed.activeTasks.find t with
    | some task =>
      -- the first statement meets the task
      cases hshow : m₁.shared.txns.committed.activeListed filter t with
      | some found =>
        refine .inl ⟨found, List.mem_append_left _ ?_, During.of_issued hi₁ ?_⟩
        · rw [h₁]
          exact Db.mem_activeInfos.2 ⟨t, hshow⟩
        · rw [Db.listed, hshow, Option.some_or]
      | none =>
        refine .inr (During.of_issued hi₁ ?_)
        rw [Db.listed, hshow, Option.none_or, Db.archivedListed, hs₁.apart t task hf]
        rfl
    | none =>
      -- it has been archived, and stays so until the second
      rw [Db.ident_archived hf] at hid₁
      obtain ⟨row, hrow, -⟩ := Option.map_eq_some_iff.1 hid₁
      obtain ⟨row', hrow'⟩ := (path_kept hp₁ hcs).archived t row hrow
      cases hshow : m₂.shared.txns.committed.archivedListed filter query.reporterUuid t with
      | some found =>
        refine .inl ⟨found, List.mem_append_right _ ?_, During.of_issued hi₂ ?_⟩
        · rw [h₂]
          exact Db.mem_archivedInfos.2 ⟨t, hshow⟩
        · rw [hs₂.listed_archived hshow]
      | none =>
        refine .inr (During.of_issued hi₂ ?_)
        rw [Db.listed, hshow, Option.or_none, Db.activeListed, hs₂.active_none hrow']
        rfl

end

/-- Every row that a listing shows is one that its task had at a moment of the listing, neither
statement shows a task twice, and both show one only if it was archived in between. Where it is
not paged, a listing shows every task that its filter selects at all its moments. -/
theorem listing_shows (db : Db) (clock : Instant) (as bs : List (Act Call Chance Env))
    (s s' : State) (hp : Path (Sessions.step system) (fun _ _ => True) (initial db clock) as s)
    (hq : Path (Sessions.step system) (fun _ _ => True) s bs s') (i : Nat)
    (hi : s.pool.length ≤ i) (userId : UserId) (query : TasksQueryReq) (resp : TasksQueryResp)
    (prog : Prog Cmd Cmd.Resp (Flow (Except Error Reply)))
    (hc : s'.pool[i]? = some ⟨.queryTasksByFilter userId query, prog⟩)
    (hr : s'.result i = some (.ok (.tasks resp))) (hcount : query.count = false) :
    ∃ filter active archived,
      applyTaskFilters { query with groupName := some resp.groupName } = .ok filter ∧
      resp.tasks = active ++ archived ∧ Shown s s' bs i filter query active archived := by
  have h₀ := (traced hp).unstarted hi
  obtain ⟨th, hth, hidle, htold⟩ := (traced (hp.trans hq)).result hr
  obtain rfl := Option.some.inj (hc.symm.trans hth)
  obtain ⟨r', hr', hlisted⟩ := htold
  cases r' with
  | error e => cases hr'
  | ok resp' =>
    obtain ⟨⟩ := hr'
    obtain ⟨filter, K, hf, hrest⟩ := hlisted
    rw [if_neg (by rw [hcount]; exact Bool.false_ne_true)] at hrest
    obtain ⟨active, archived, htasks, -, hK⟩ := hrest
    exact ⟨filter, active, archived, hf, htasks, shown_of_history hp hq h₀ hidle.1 hK⟩

namespace ListingDemo

def query : TasksQueryReq :=
  ⟨none, some "g", none, none, none, none, none, none, none, none, false⟩

def between : List (Act Call Chance Env) :=
  .call (.queryTasksByFilter 1 query) :: .call (.userCancelTask 1 0) ::
    Demo.steps 1 2 ++ Demo.steps 2 7 ++ Demo.steps 1 1

def lists (found : Option (Thread Cmd Cmd.Resp Call (Except Error Reply))) : Bool :=
  match found with
  | some ⟨.queryTasksByFilter _ query, _⟩ => !query.count
  | _ => false

def gotTwice (r : Option (Except Error Reply)) : Bool :=
  match r with
  | some (.ok (.tasks resp)) => resp.tasks.map TaskQueryInfo.uuid = [0, 0]
  | _ => false

theorem of_lists (h : lists found = true) : ∃ userId query prog,
    found = some ⟨.queryTasksByFilter userId query, prog⟩ ∧ query.count = false := by
  unfold lists at h
  split at h
  next userId query prog =>
    rw [Bool.not_eq_true'] at h
    exact ⟨userId, query, prog, rfl, h⟩
  next => cases h

theorem of_gotTwice (h : gotTwice r = true) :
    ∃ resp, r = some (.ok (.tasks resp)) ∧ resp.tasks.map TaskQueryInfo.uuid = [0, 0] := by
  unfold gotTwice at h
  split at h
  next resp => exact ⟨resp, rfl, of_decide_eq_true h⟩
  next => cases h

end ListingDemo

open ListingDemo in
/-- A listing that shows its task twice. -/
theorem listed_twice : ∃ (s s' : State) (query : TasksQueryReq) (resp : TasksQueryResp)
    (filter : TaskFilter) (active archived : List TaskQueryInfo),
    Path (Sessions.step system) (fun _ _ => True) (initial Demo.db 0) Demo.submitted s ∧
    Path (Sessions.step system) (fun _ _ => True) s between s' ∧
    resp.tasks.map TaskQueryInfo.uuid = [0, 0] ∧
    applyTaskFilters { query with groupName := some resp.groupName } = .ok filter ∧
    resp.tasks = active ++ archived ∧ Shown s s' between 1 filter query active archived := by
  have hrun : (Path.follow (Sessions.step system) (fun _ _ => true) (initial Demo.db 0)
      Demo.submitted).any (fun s => decide (s.pool.length = 1) &&
        (Path.follow (Sessions.step system) (fun _ _ => true) s between).any fun s' =>
          lists (s'.pool[1]?) && gotTwice (s'.result 1)) = true := by decide +kernel
  obtain ⟨s, hp, hs⟩ := Path.of_follow_any hrun
  rw [Bool.and_eq_true, decide_eq_true_eq] at hs
  obtain ⟨s', hq, hs'⟩ := Path.of_follow_any hs.2
  rw [Bool.and_eq_true] at hs'
  obtain ⟨userId, query, prog, hc, hcount⟩ := of_lists hs'.1
  obtain ⟨resp, hr, huuids⟩ := of_gotTwice hs'.2
  have hp' : Path (Sessions.step system) (fun _ _ => True) (initial Demo.db 0) Demo.submitted s :=
    hp.mono fun _ _ _ => trivial
  have hq' : Path (Sessions.step system) (fun _ _ => True) s between s' :=
    hq.mono fun _ _ _ => trivial
  obtain ⟨filter, active, archived, hf, htasks, hshown⟩ := listing_shows Demo.db 0 Demo.submitted
    between s s' hp' hq' 1 hs.1.le userId query resp prog hc hr hcount
  exact ⟨s, s', query, resp, filter, active, archived, hp', hq', huuids, hf, htasks, hshown⟩

end Tasks
end Mitosis
