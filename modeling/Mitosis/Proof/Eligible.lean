import Mitosis.Proof.WorkerRows

namespace Mitosis
set_option autoImplicit true

namespace Db
variable {db : Db} {w : WorkerId}

def eligible (db : Db) (w : WorkerId) (groupId : GroupId) (tags : List String) : Bool :=
  (db.groupWorker.find (groupId, w)).any (fun role => decide (role ∈ [.write, .admin])) &&
    (db.workers.find w).any fun worker => containsAll worker.tags tags

theorem roleTest_holds (test : RoleTest) (role : GroupWorkerRole) :
    test.holds role = decide (role ∈ [.write, .admin]) := by
  cases test <;> cases role <;> rfl

theorem eligible_iff : db.eligible w groupId tags = true ↔
    (∃ role, db.groupWorker.find (groupId, w) = some role ∧ role ∈ [.write, .admin]) ∧
      ∃ worker, db.workers.find w = some worker ∧ containsAll worker.tags tags = true := by
  simp only [eligible, Bool.and_eq_true, Option.any_eq_true, decide_eq_true_eq]

theorem mem_eligibleWorkers : w ∈ db.eligibleWorkers test groupId tags ↔
    db.eligible w groupId tags = true := by
  simp only [eligibleWorkers, List.mem_filterMap, roleTest_holds, decide_eq_true_eq,
    eligible_iff, Option.any_eq_true]
  constructor
  · rintro ⟨⟨⟨g, w'⟩, role⟩, hm, h⟩
    split at h
    next hc =>
      obtain ⟨rfl, hr, worker, hw, ht⟩ := hc
      obtain ⟨⟩ := h
      exact ⟨⟨role, Table.mem_rows.1 hm, hr⟩, worker, hw, ht⟩
    next => cases h
  · rintro ⟨⟨role, hf, hr⟩, worker, hw, ht⟩
    refine ⟨((groupId, w), role), Table.mem_rows.2 hf, ?_⟩
    rw [if_pos ⟨rfl, hr, worker, hw, ht⟩]

end Db
end Mitosis
