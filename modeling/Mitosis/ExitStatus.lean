import Mitosis.Lib.Decimal
import Mitosis.TaskQuery

namespace Mitosis
set_option autoImplicit true

namespace OperatorWithNumber
open Decimal

/-- The rendering of the number stands to the operand as the number does. -/
def Comparable (n : Int) : OperatorWithNumber → Prop
  | .eq _ | .neq _ => True
  | .gt m | .gte m | .lt m | .lte m => InOrder n m

instance (n : Int) (op : OperatorWithNumber) : Decidable (op.Comparable n) := by
  cases op <;> unfold Comparable <;> infer_instance

theorem eq_iff_text (n m : Int) : toString n = toString m ↔ n = m :=
  ⟨toString_injective, fun h => congrArg _ h⟩

theorem lt_iff_text (n m : Int) : (toString n < toString m ↔ n < m) ↔ InOrder n m := by
  rcases Int.lt_trichotomy n m with h | rfl | h
  · rw [toString_lt_iff h]
    exact iff_true_right h
  · have hs : ¬toString n < toString n := String.lt_irrefl _
    exact iff_of_true (iff_of_false hs (Int.lt_irrefl n)) (.inl rfl)
  · have hne : toString n ≠ toString m := fun he => h.ne' (toString_injective he)
    rw [InOrder.comm, ← toString_lt_iff h, iff_false_right h.asymm]
    constructor
    · intro hn
      exact (lt_or_gt_of_ne hne).resolve_left hn
    · exact fun hm => hm.asymm

theorem le_iff_text (n m : Int) :
    (toString n < toString m ∨ toString n = toString m ↔ n ≤ m) ↔ InOrder n m := by
  rw [← lt_iff_text, eq_iff_text]
  have hle : n ≤ m ↔ n < m ∨ n = m := by omega
  rw [hle]
  by_cases he : n = m
  · subst he
    simp
  · simp only [he, or_false]

theorem holdsText_eq_iff (op : OperatorWithNumber) (n : Int) :
    op.holdsText (toString n) = op.holds n ↔ op.Comparable n := by
  cases op with
  | eq m =>
    rw [holdsText, holds, decide_eq_decide, eq_iff_text]
    exact iff_true_intro Iff.rfl
  | neq m =>
    rw [holdsText, holds, decide_eq_decide, ne_eq, eq_iff_text]
    exact iff_true_intro Iff.rfl
  | gt m =>
    rw [holdsText, holds, decide_eq_decide, Comparable, InOrder.comm]
    exact lt_iff_text m n
  | gte m =>
    rw [holdsText, holds, decide_eq_decide, Comparable, InOrder.comm, eq_comm]
    exact le_iff_text m n
  | lt m =>
    rw [holdsText, holds, decide_eq_decide, Comparable]
    exact lt_iff_text n m
  | lte m =>
    rw [holdsText, holds, decide_eq_decide, Comparable]
    exact le_iff_text n m

end OperatorWithNumber

namespace TaskFilter

def others (f : TaskFilter) : TaskFilter := { f with exitStatus := none }

theorem selects_eq (f : TaskFilter) (creator : User) (group : Group) (task : ActiveTask) :
    f.selects creator group task = (f.others.selects creator group task &&
      f.exitStatus.all fun op => task.result.any fun r => op.holdsText (toString r.exitStatus)) := by
  simp only [selects, others, Option.all_none, Bool.and_true]
  ac_rfl

theorem selectsArchived_eq (f : TaskFilter) (reporterUuid : Option Uuid) (creator : User)
    (group : Group) (task : ArchivedTask) : f.selectsArchived reporterUuid creator group task =
      (f.others.selectsArchived reporterUuid creator group task &&
      f.exitStatus.all fun op => task.result.any fun r => op.holdsText (toString r.exitStatus)) := by
  simp only [selectsArchived, others, Option.all_none, Bool.and_true]
  ac_rfl

end TaskFilter

theorem applyTaskFilters_exitStatus (hf : applyTaskFilters query = .ok filter)
    (hq : query.exitStatus = some s) (hs : parseOperatorsWithNumber s = .ok op) :
    filter.exitStatus = some op := by
  have he : query.exitStatus.mapM parseOperatorsWithNumber = .ok (some op) := by
    rw [hq]
    change some <$> parseOperatorsWithNumber s = _
    rw [hs]
    rfl
  rw [applyTaskFilters, he] at hf
  cases hp : query.priority.mapM parseOperatorsWithNumber with
  | error =>
    rw [hp] at hf
    cases hf
  | ok priority =>
    rw [hp] at hf
    obtain ⟨⟩ := hf
    rfl

/-- A task with a result that meets the other conditions is selected by its exit status as a
number exactly if the rendering of the exit status compares as the number does. -/
theorem exit_status_selected {query : TasksQueryReq} {filter : TaskFilter} {s : String}
    {op : OperatorWithNumber} (hq : query.exitStatus = some s)
    (hs : parseOperatorsWithNumber s = .ok op) (hf : applyTaskFilters query = .ok filter)
    (r : TaskResultSpec) :
    (∀ creator group task, task.result = some r →
      filter.others.selects creator group task = true →
      (filter.selects creator group task = op.holds r.exitStatus ↔ op.Comparable r.exitStatus)) ∧
    ∀ reporterUuid creator group task, task.result = some r →
      filter.others.selectsArchived reporterUuid creator group task = true →
      (filter.selectsArchived reporterUuid creator group task = op.holds r.exitStatus ↔
        op.Comparable r.exitStatus) := by
  have he := applyTaskFilters_exitStatus hf hq hs
  rw [← op.holdsText_eq_iff]
  constructor
  · intro creator group task hr ho
    rw [filter.selects_eq, ho, he, hr]
    rfl
  · intro reporterUuid creator group task hr ho
    rw [filter.selectsArchived_eq, ho, he, hr]
    rfl

namespace ExitStatus

def byExitStatus (s : String) : TasksQueryReq :=
  ⟨none, none, none, none, none, some s, none, none, none, none, false⟩

def archivedWith (exitStatus : Int) : ArchivedTask := {
  creatorId := 1, groupId := 1, taskId := 1, uuid := 7, tags := [], labels := []
  createdAt := 0, updatedAt := 0, state := .finished, assignedWorker := none, timeout := 60
  priority := 0, spec := ⟨[], [], [], false, none⟩, result := some ⟨exitStatus, none⟩
  upstreamTaskUuid := none, downstreamTaskUuid := none, reporterUuid := none }

def filterOf (op : OperatorWithNumber) : TaskFilter :=
  ⟨none, none, none, none, none, some op, none, false⟩

def alice : User := ⟨"alice", .active⟩

def aliceGroup : Group := ⟨"alice", 0, .active, 0, 0, 0⟩

end ExitStatus

theorem exit_status_selected_ten :
    (ExitStatus.filterOf (.gt 1)).selectsArchived none ExitStatus.alice ExitStatus.aliceGroup
      (ExitStatus.archivedWith 10) = true := by
  have hs : parseOperatorsWithNumber ">1" = .ok (.gt 1) := by decide
  have hf : applyTaskFilters (ExitStatus.byExitStatus ">1") = .ok (ExitStatus.filterOf (.gt 1)) := by rfl
  exact ((exit_status_selected rfl hs hf ⟨10, none⟩).2 none ExitStatus.alice ExitStatus.aliceGroup
    (ExitStatus.archivedWith 10) rfl (by decide)).2 (by decide)

/-- The exit status 10 is greater than 9, but its text comes before the text of 9. -/
theorem ten_not_selected : parseOperatorsWithNumber ">9" = .ok (.gt 9) ∧
    (OperatorWithNumber.gt 9).holds 10 = true ∧
    (ExitStatus.filterOf (.gt 9)).others.selectsArchived none ExitStatus.alice ExitStatus.aliceGroup
      (ExitStatus.archivedWith 10) = true ∧
    (ExitStatus.filterOf (.gt 9)).selectsArchived none ExitStatus.alice ExitStatus.aliceGroup
      (ExitStatus.archivedWith 10) = false := by
  decide

end Mitosis
