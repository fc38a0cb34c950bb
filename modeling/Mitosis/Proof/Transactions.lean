import Mitosis.Service.Storage

namespace Mitosis
set_option autoImplicit true

namespace Storage

abbrev History : Type := Fallible.History Cmd Cmd.Ret Error

/-- What the open transaction of a session has written, latest first. -/
def txn : History → Option (List Update)
  | [] => none
  | ⟨.start, .ok _⟩ :: _ => some []
  | ⟨.commit, _⟩ :: _ => none
  | ⟨.rollback, _⟩ :: _ => none
  | ⟨.update q, .ok _⟩ :: K => (txn K).map (q :: ·)
  | _ :: K => txn K

inductive Kind where
  | touch | object | group
  deriving DecidableEq

def Update.kind : Update → Kind
  | touchTask _ _ => .touch
  | updateGroup _ _ _ _ => .group
  | _ => .object

def owns (e : Entry Cmd Cmd.Resp) : Option (Uuid × GroupId) :=
  match e with
  | ⟨.select (.db (.activeByUuid _)), .ok (some (_, task))⟩ => some (task.uuid, task.groupId)
  | ⟨.select (.db (.archivedByUuid _)), .ok (some (_, task))⟩ => some (task.uuid, task.groupId)
  | ⟨.select (.db (.task _)), .ok (some task)⟩ => some (task.uuid, task.groupId)
  | _ => none

def Owned (K : History) (uuid : Uuid) (groupId : GroupId) : Prop :=
  ∃ e ∈ K, owns e = some (uuid, groupId)

/-- The statement changes the sum of the sizes of the group's objects by `growth`. -/
inductive Sized (K : History) (groupId : GroupId) : Int → Update → Prop
  | updateArtifact : Owned K uuid groupId →
    ⟨.select (.artifact uuid contentType), .ok (some seen)⟩ ∈ K →
    Sized K groupId (size - seen.size) (.updateArtifact seen size now)
  | insertArtifact : Owned K uuid groupId →
    Sized K groupId size (.insertArtifact uuid contentType size now)
  | deleteArtifact : Owned K uuid groupId →
    ⟨.select (.artifact uuid contentType), .ok (some seen)⟩ ∈ K →
    Sized K groupId (-seen.size) (.deleteArtifact seen)
  | updateAttachment : ⟨.select (.attachment groupId key), .ok (some seen)⟩ ∈ K →
    Sized K groupId (size - seen.size) (.updateAttachment seen size now)
  | insertAttachment : Sized K groupId size (.insertAttachment groupId key size now)
  | deleteAttachment : groupId = seen.groupId →
    Sized K groupId (-seen.size) (.deleteAttachment seen)

/-- The writes of a transaction that may be committed, latest first. -/
inductive Moves (K : History) : List Update → Prop
  | upload : Sized K group.1 growth object →
    used = asI64 (group.2.storageUsed + asI64 growth) → (∀ u ∈ rest, u.kind = .touch) →
    Moves K (.updateGroup group growth used now :: object :: rest)
  | release : Sized K group.1 growth object →
    used = Service.saturatingSub group.2.storageUsed (-growth) →
    Moves K [object, .updateGroup group growth used now]

/-- What a command needs: the writes are in transactions, each in one statement for each kind. -/
def Cmd.sourced (K : History) : Cmd → Prop
  | .update q => ∃ us, txn K = some us ∧ ∀ u ∈ us, u.kind ≠ q.kind
  | .commit => ∃ us, txn K = some us ∧ Moves K us
  | .start => txn K = none
  | _ => True

def Cmd.reads : Cmd → Bool
  | .update _ | .start | .commit | .rollback => false
  | _ => true

theorem txn_reads {c : Cmd} (hc : c.reads = true) (r : c.Resp) (K : History) :
    txn (⟨c, r⟩ :: K) = txn K := by
  cases c <;> first | rfl | cases hc

theorem txn_error {c : Cmd} (hc : c ≠ .commit) (hc' : c ≠ .rollback) (e : Error) (K : History) :
    txn (⟨c, .error e⟩ :: K) = txn K := by
  cases c <;> first | rfl | exact (hc rfl).elim | exact (hc' rfl).elim

theorem sourced_of_reads {c : Cmd} (hc : c.reads = true) (K : History) : c.sourced K := by
  cases c <;> trivial

/-- A part of a program that opens no transaction. -/
def Reads (p : Service α) : Prop :=
  Prog.Knows (fun _ c => c.reads = true) (fun _ _ => True) [] p

theorem Owned.mono (h : Owned K uuid groupId) (hK : K ⊆ K') : Owned K' uuid groupId := by
  obtain ⟨e, he, ho⟩ := h
  exact ⟨e, hK he, ho⟩

theorem knows_of_reads {p : Prog Cmd Cmd.Resp α} {K₀ : History}
    (h : p.Knows (fun _ c => c.reads = true) (fun _ _ => True) K₀) (K : History) :
    p.Knows Cmd.sourced (fun K' _ => K ⊆ K' ∧ txn K' = txn K) K := by
  induction p generalizing K₀ K with
  | ret a => exact ⟨List.Subset.refl K, rfl⟩
  | call c k ih =>
    refine ⟨sourced_of_reads h.1 K, fun r => ?_⟩
    apply (ih r (h.2 r) (⟨c, r⟩ :: K)).mono
    intro K' a ha
    refine ⟨List.Subset.trans (List.subset_cons_self _ _) ha.1, ?_⟩
    rw [ha.2]
    exact txn_reads h.1 r K

/-- Between two transactions, behind a part of a program. -/
def Closed (K : History) (p : Service α) : Prop :=
  Fallible.Knows Cmd.sourced K p fun K' _ => K ⊆ K' ∧ txn K' = none

namespace Service
open Fallible (fail attempt okOr ofExcept)

theorem knows_issue (c : Cmd) {post : History → Except Error c.Ret → Prop} :
    Fallible.Knows Cmd.sourced K (issue c) post ↔
      c.sourced K ∧ ∀ r, post (⟨c, r⟩ :: K) r := .rfl

theorem knows_reads {c : Cmd} (hc : c.reads = true)
    {post : History → Except Error c.Ret → Prop} :
    Fallible.Knows Cmd.sourced K (issue c) post ↔ ∀ r, post (⟨c, r⟩ :: K) r := by
  constructor
  · exact fun h => h.2
  · exact fun h => ⟨sourced_of_reads hc K, h⟩

@[simp] theorem knows_select (q : Select) {post : History → Except Error q.Ret → Prop} :
    Fallible.Knows Cmd.sourced K (select q) post ↔ ∀ r, post (⟨.select q, r⟩ :: K) r :=
  knows_reads rfl

@[simp] theorem knows_now {post : History → Except Error Instant → Prop} :
    Fallible.Knows Cmd.sourced K now post ↔ ∀ r, post (⟨.now, r⟩ :: K) r := knows_reads rfl

theorem closed_bind {p : Service β} {f : β → Service α} (hp : Closed K p)
    (hf : ∀ K' b, K ⊆ K' → txn K' = none → Closed K' (f b)) : Closed K (p >>= f) := by
  unfold Closed
  rw [Fallible.knows_bind]
  apply hp.mono
  intro K₁ r hr
  cases r with
  | error => exact hr
  | ok b =>
    apply (hf K₁ b hr.1 hr.2).mono
    intro K₂ _ h₂
    exact ⟨List.Subset.trans hr.1 h₂.1, h₂.2⟩

theorem closed_pure (h : txn K = none) (a : α) : Closed K (pure a : Service α) :=
  ⟨List.Subset.refl K, h⟩

theorem closed_fail (h : txn K = none) (e : Error) : Closed K (fail e : Service α) :=
  ⟨List.Subset.refl K, h⟩

theorem closed_reads {p : Service α} (hr : Reads p) (h : txn K = none) : Closed K p := by
  apply (knows_of_reads hr K).mono
  intro K' a ha
  exact ⟨ha.1, ha.2.trans h⟩

theorem closed_attempt {p : Service α} (h : Closed K p) : Closed K (attempt p) :=
  (Fallible.knows_attempt p).2 h

/-- A transaction whose writes may be committed when its body succeeds. -/
theorem closed_transaction {p : Service α} (h : txn K = none)
    (hp : Fallible.Knows Cmd.sourced (⟨.start, .ok ()⟩ :: K) p fun K' r =>
      r.toBool = true → ∃ us, txn K' = some us ∧ Moves K' us) :
    Closed K (transaction p) := by
  unfold Closed transaction
  rw [Fallible.knows_bind, knows_issue]
  refine ⟨h, forall_except.2 ⟨?_, ?_⟩⟩
  · rintro ⟨⟩
    dsimp only
    rw [Fallible.knows_bind, Fallible.knows_attempt]
    apply (Prog.Knows.extends hp).mono
    intro K' r hr
    obtain ⟨hK, hr⟩ := hr
    have hK := List.Subset.trans (List.subset_cons_self _ _) hK
    cases r with
    | ok a =>
      dsimp only
      rw [Fallible.knows_bind, knows_issue]
      refine ⟨hr rfl, forall_except.2 ⟨?_, ?_⟩⟩
      · intro _
        exact ⟨List.Subset.trans hK (List.subset_cons_self _ _), rfl⟩
      · intro e
        exact ⟨List.Subset.trans hK (List.subset_cons_self _ _), rfl⟩
    | error e =>
      dsimp only
      rw [Fallible.knows_bind, knows_issue]
      refine ⟨trivial, forall_except.2 ⟨?_, ?_⟩⟩
      · intro _
        exact ⟨List.Subset.trans hK (List.subset_cons_self _ _), rfl⟩
      · intro e'
        exact ⟨List.Subset.trans hK (List.subset_cons_self _ _), rfl⟩
  · intro e
    exact ⟨List.subset_cons_self _ _, h⟩

end Service
end Storage
end Mitosis
