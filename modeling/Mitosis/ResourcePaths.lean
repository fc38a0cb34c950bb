import Mitosis.Lib.UnixPath
import Mitosis.Proof.ArchivedRows
import Mitosis.Proof.CheckedWorkers
import Mitosis.Proof.Grounded

namespace Mitosis
set_option autoImplicit true

theorem hasParentDir_iff {path : String} :
    hasParentDir path = true ↔ .parentDir ∈ UnixPath.components path.toList := by
  rw [UnixPath.parent_mem_components, hasParentDir, decide_eq_true_iff, splitChar, List.mem_map]
  constructor
  · rintro ⟨piece, hm, hp⟩
    obtain rfl : piece = ['.', '.'] := String.ofList_injective hp
    exact hm
  · intro hm
    exact ⟨_, hm, rfl⟩

theorem checkTaskSpec_ok (h : checkTaskSpec spec = .ok ()) (hr : r ∈ spec.resources) :
    UnixPath.isAbsolute r.localPath.toList = false ∧
      .parentDir ∉ UnixPath.components r.localPath.toList := by
  rw [checkTaskSpec] at h
  split at h
  next => cases h
  next hany =>
    rw [List.any_eq_true] at hany
    push Not at hany
    have hne := hany r hr
    rw [Ne, Bool.or_eq_true, not_or] at hne
    exact ⟨Bool.eq_false_of_not_eq_true hne.1, fun hc => hne.2 (hasParentDir_iff.2 hc)⟩

namespace Db
variable {db db' : Db}

theorem changeTask_checked (h : changeTask userId uuid req now db = .ok (r, db')) :
    ∀ spec, req.taskSpec = some spec → checkTaskSpec spec = .ok () := by
  intro spec hs
  rw [changeTask] at h
  split at h
  next => cases h
  next =>
    obtain ⟨_, _, h⟩ := bind_ok h
    obtain ⟨_, hc, -⟩ := bind_ok h
    rw [hs] at hc
    exact hc

theorem changedTask_checked (h : checkTaskSpec task.spec = .ok ())
    (hr : ∀ spec, req.taskSpec = some spec → checkTaskSpec spec = .ok ()) :
    checkTaskSpec (changedTask req now task).spec = .ok () := by
  rw [changedTask]
  cases hs : req.taskSpec with
  | none => exact h
  | some spec => exact hr spec hs

end Db

structure Db.Checked (db : Db) : Prop where
  active : ∀ t task, db.activeTasks.find t = some task → checkTaskSpec task.spec = .ok ()
  archived : ∀ t task, db.archivedTasks.find t = some task → checkTaskSpec task.spec = .ok ()

theorem Db.Checked.write {db db' : Db} {q : Write} {r : q.Ret} (h : db.Checked)
    (hq : q.run clock db = .ok (r, db')) (hi : (Cmd.write q).checked K)
    (hc : ∀ w t archived now, q = .commitTask w t archived now →
      checkTaskSpec archived.spec = .ok ()) : db'.Checked where
  active t task hf := by
    have hchange := q.taskChange hq t
    have hold := h.active t
    rw [hf] at hchange
    generalize db.activeTasks.find t = row at hchange hold
    cases hchange with
    | same => exact hold task rfl
    | inserted => exact hi
    | changed => exact Db.changedTask_checked (hold _ rfl) (Db.changeTask_checked hq)
    | _ =>
      have hspec := hold _ rfl
      exact hspec
  archived t task hf := by
    have hchange := q.archivedChange hq t
    have hold := h.archived t
    rw [hf] at hchange
    generalize db.archivedTasks.find t = row at hchange hold
    cases hchange with
    | same => exact hold task rfl
    | touched =>
      have hspec := hold _ rfl
      exact hspec
    | committed => exact hc _ _ _ _ rfl
    | cancelled ha => exact h.active t _ ha

/-- Every spec that is stored, or that a handler has read, passes the check. -/
structure Specs (log : List Event) (s : State) : Prop where
  db : s.infra.db.Checked
  seen : ∀ i t task, (i, ⟨.select (.task t), .ok (some task)⟩) ∈ log →
    checkTaskSpec task.spec = .ok ()

namespace Specs
variable {s s' : State} {i : Nat} {hd : Handler}

theorem command_db {infra : Infra} {c : Cmd} {k : c.Resp → HandlerProg} {r : c.Resp}
    (h : Specs log s) (hg : Grounded log s) (hc : c.checked K) (hi : s.pool[i]? = some hd)
    (hp : hd.prog = .call c k) (hx : c.exec fault s.infra = some (r, infra)) :
    infra.db.Checked := by
  cases c with
  | write q =>
    rcases Cmd.exec_write hx with ⟨_, _, rfl⟩ | ⟨a, db, _, hq, _, rfl⟩
    · exact h.db
    · refine h.db.write hq hc fun w t archived now he => ?_
      subst he
      obtain ⟨_, _, task, _, -, hsaw, -, -, rfl⟩ := hg.sourced hi hp
      exact h.seen i t task (mem_history.1 hsaw)
  | _ =>
    rw [Cmd.exec_db hx fun _ => nofun]
    exact h.db

theorem command {c : Cmd} {r : c.Resp} (h : Specs log s) (hdb : s'.infra.db.Checked)
    (hx : c.exec fault s.infra = some (r, s'.infra)) : Specs (log ++ [(i, ⟨c, r⟩)]) s' := by
  refine ⟨hdb, fun j t task hm => ?_⟩
  rcases List.mem_append.1 hm with hm | hm
  · exact h.seen j t task hm
  · obtain ⟨⟩ := List.mem_singleton.1 hm
    obtain ⟨-, ⟨_, -, hr⟩ | ⟨-, hr⟩⟩ := Cmd.exec_select hx
    · cases hr
    · exact h.db.active t task (Except.ok.inj hr).symm

theorem step (h : Specs log s) (hg : Grounded log s)
    (hk : Informed (fun _ => Cmd.checked) (fun _ _ _ => True) log s)
    (hs : s.step a = some s') : Specs (log ++ (s.event a).toList) s' := by
  have hquiet (he : s.event a = none) (hdb : s'.infra.db.Checked) :
      Specs (log ++ (s.event a).toList) s' := by
    rw [he, Option.toList_none, List.append_nil]
    exact ⟨hdb, h.seen⟩
  cases State.step_cases hs with
  | call | abortTimeout => exact hquiet rfl h.db
  | timeout hb =>
    obtain ⟨-, -, -, rfl⟩ := Infra.popExpired_some hb
    exact hquiet rfl h.db
  | background hb =>
    cases hb with
    | dispatch hb =>
      obtain ⟨_, _, _, _, _, _, rfl⟩ := Infra.dispatch_some hb
      exact hquiet rfl h.db
    | recvHeartbeat hb =>
      obtain ⟨_, _, rfl⟩ := Infra.recvHeartbeat_some hb
      exact hquiet rfl h.db
    | accounts => exact hquiet rfl ⟨h.db.active, h.db.archived⟩
    | tick | cancel | stopDispatcher | stopHeartbeatQueue => exact hquiet rfl h.db
  | @step i hd fault infra c k r hi hp hx =>
    rw [(State.event_step hi hp hx).2, Option.toList_some]
    have hc := hk.knows i hd hi
    rw [hp] at hc
    exact h.command (h.command_db hg hc.1 hi hp hx) hx

end Specs

theorem specs_of_path {s : State}
    (hp : Path State.step ok (State.initial accounts timeout clock) as s) :
    Specs ((State.initial accounts timeout clock).log as) s := by
  induction hp with
  | nil =>
    refine ⟨⟨fun t task h => ?_, fun t task h => ?_⟩, fun i t task h => ?_⟩ <;>
    cases h
  | snoc hp _ hs ih =>
    rw [State.log_snoc hp hs]
    exact ih.step (grounded_of_path hp) (checked_of_path hp) hs

/-- In every run the specs of all tasks pass the check, and the resources of a spec that passes
are put inside every directory that they are put into. -/
theorem resources_inside {s : State}
    (hp : Path State.step ok (State.initial accounts timeout clock) as s) :
    (∀ t task, s.infra.db.activeTasks.find t = some task → checkTaskSpec task.spec = .ok ()) ∧
    (∀ t task, s.infra.db.archivedTasks.find t = some task → checkTaskSpec task.spec = .ok ()) ∧
    ∀ spec, checkTaskSpec spec = .ok () → ∀ r ∈ spec.resources, ∀ dir,
      UnixPath.isAbsolute dir = true →
        UnixPath.Inside dir (UnixPath.join dir r.localPath.toList) := by
  have h := specs_of_path hp
  refine ⟨h.db.active, h.db.archived, fun spec hs r hr dir hd => ?_⟩
  obtain ⟨hrel, hup⟩ := checkTaskSpec_ok hs hr
  exact UnixPath.inside_join hd hrel hup

namespace ResourcePaths

def spec : TaskSpec := ⟨["run"], [], [⟨.attachment "model", "in//./model"⟩], false, none⟩

def replaced : List Action :=
  .call (.submitTask 1 RunDemo.request) :: RunDemo.steps 0 6 ++
    .call (.changeTask 1 0 ⟨none, none, none, some spec⟩) :: RunDemo.steps 1 4

end ResourcePaths

open ResourcePaths in
/-- The resource of a stored spec is put below the directory of the worker. -/
theorem resources_inside_replaced : ∃ s task,
    Path State.step (fun _ _ => True) RunDemo.start replaced s ∧
    s.infra.db.activeTasks.find 1 = some task ∧ task.spec = spec ∧
    checkTaskSpec task.spec = .ok () ∧
    UnixPath.Inside "/cache/resource".toList
      (UnixPath.join "/cache/resource".toList "in//./model".toList) := by
  have hrun : (Path.follow State.step (fun _ _ => true) RunDemo.start replaced).any (fun s =>
      (s.infra.db.activeTasks.find 1).any fun task => decide (task.spec = spec)) = true := by decide
  obtain ⟨s, hp, hs⟩ := Path.of_follow_any hrun
  have hp' : Path State.step (fun _ _ => True) RunDemo.start replaced s :=
    hp.mono fun _ _ _ => trivial
  obtain ⟨task, ht, hspec⟩ := Option.any_eq_true _ _ |>.1 hs
  obtain ⟨hactive, -, hinside⟩ := resources_inside hp'
  have hc := hactive 1 task ht
  have hsp := of_decide_eq_true hspec
  refine ⟨s, task, hp', ht, hsp, hc, hinside spec ?_ ⟨.attachment "model", "in//./model"⟩
    (List.mem_singleton_self _) _ (by decide)⟩
  rw [← hsp]
  exact hc

end Mitosis
