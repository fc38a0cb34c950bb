import Mitosis.Deletion
import Mitosis.DownloadSets
import Mitosis.Lib.Sweep

namespace Mitosis
set_option autoImplicit true

namespace Storage

def Store.groupOf (s : Store) (uuid : Uuid) : Option GroupId :=
  (s.storedTask uuid).map Db.StoredTask.groupId

def Store.sweeps (s : Store) (contentType : ArtifactContentType) (D : Uuid → Bool) (g : GroupId)
    (key : Uuid × ArtifactContentType) : Bool :=
  key.2 = contentType && D key.1 && s.groupOf key.1 = some g

/-- The group once the artifacts are swept, its `storage_used` decreased by their sizes. -/
def Store.sweptGroup (s : Store) (time : Instant) (contentType : ArtifactContentType)
    (D : Uuid → Bool) (g : GroupId) (group : Group) : Group :=
  if s.db.artifacts.hasKey (s.sweeps contentType D g) then { group with
    storageUsed := max (-2 ^ 63)
      (group.storageUsed - s.db.artifacts.sumWhere (s.sweeps contentType D g) Artifact.size)
    updatedAt := time }
  else group

/-- The database without the artifacts whose uuids are in `D`. -/
def Store.swept (s : Store) (time : Instant) (contentType : ArtifactContentType)
    (D : Uuid → Bool) : Store :=
  { s with
    db := { s.db with
      artifacts := s.db.artifacts.deleteWhere fun key _ => key.2 = contentType && D key.1
      groups := s.db.groups.alter fun g group => some (s.sweptGroup time contentType D g group) }
    artifactIds := s.artifactIds.deleteWhere fun _ key => key.2 = contentType && D key.1 }

/-- The bucket without the artifacts whose uuids are in `D`. -/
def sweptBucket (bucket : Object → Bool) (contentType : ArtifactContentType) (D : Uuid → Bool) :
    Object → Bool
  | .artifact uuid c => bucket (.artifact uuid c) && !(c = contentType && D uuid)
  | o => bucket o

/-- An artifact has one primary key, the group of a task exists, no artifact has a negative size
and `storage_used` is an `i64`. -/
structure Store.Sane (s : Store) : Prop where
  keyed : s.artifactIds.find m = some key → s.artifactIds.find n = some key → m = n
  grouped : s.storedTask uuid = some task → ∃ group, s.db.groups.find task.groupId = some group
  sized : s.db.artifacts.find key = some artifact → 0 ≤ artifact.size
  used : s.db.groups.find g = some group → -2 ^ 63 ≤ group.storageUsed ∧ group.storageUsed < 2 ^ 63

namespace Store
variable {s : Store} {time : Instant} {contentType : ArtifactContentType} {D : Uuid → Bool}

theorem swept_none (s : Store) (time : Instant) (contentType : ArtifactContentType) :
    s.swept time contentType (fun _ => false) = s := by
  have hno : ∀ g, s.db.artifacts.hasKey (s.sweeps contentType (fun _ => false) g) = false := by
    intro g
    have hf : s.sweeps contentType (fun _ => false) g = fun _ => false := by
      funext key
      simp only [sweeps, Bool.and_false, Bool.false_and]
    rw [hf, Table.hasKey_false]
  have hgroups : s.db.groups.alter (fun g group =>
      some (s.sweptGroup time contentType (fun _ => false) g group)) = s.db.groups := by
    apply Table.eq_of_rows
    simp only [Table.alter, sweptGroup, hno, Bool.false_eq_true, if_false, Option.map_some]
    exact List.filterMap_some
  unfold swept
  simp only [Bool.and_false, Table.deleteWhere_none, hgroups]

theorem storedTask_swept (uuid : Uuid) :
    (s.swept time contentType D).storedTask uuid = s.storedTask uuid := rfl

theorem artifact_swept (uuid : Uuid) :
    (Select.artifact uuid contentType).eval (s.swept time contentType D) =
      if D uuid then none else (Select.artifact uuid contentType).eval s := by
  have hrow : ∀ m, (s.swept time contentType D).artifactRow m (uuid, contentType) =
      if D uuid then none else s.artifactRow m (uuid, contentType) := by
    intro m
    simp only [artifactRow, swept, Table.find_deleteWhere, decide_true, Bool.true_and]
    cases D uuid with
    | true =>
      rw [if_pos rfl]
      cases s.db.artifacts.find (uuid, contentType) <;> rfl
    | false =>
      rw [if_neg Bool.false_ne_true]
      cases s.db.artifacts.find (uuid, contentType) <;> rfl
  simp only [Select.eval]
  cases hD : D uuid with
  | true =>
    rw [if_pos rfl, List.findSome?_eq_none_iff]
    intro e he
    split
    next hk =>
      rw [hk, hrow, hD]
      rfl
    next => rfl
  | false =>
    rw [if_neg Bool.false_ne_true]
    refine (Table.findSome_deleteWhere fun m key hp => ?_).trans ?_
    · refine if_neg fun hk => ?_
      obtain rfl : key = (uuid, contentType) := hk
      rw [hD, Bool.and_false] at hp
      cases hp
    · congr 1
      funext e
      split
      next hk => rw [hk, hrow, hD, if_neg Bool.false_ne_true]
      next => rfl

theorem found_swept (user : Option UserId) (uuid : Uuid) :
    (Deletion.artifact user uuid contentType).found (s.swept time contentType D) =
      if D uuid then none else (Deletion.artifact user uuid contentType).found s := by
  simp only [Deletion.found, storedTask_swept]
  cases ht : s.storedTask uuid with
  | none =>
    cases D uuid <;> rfl
  | some task =>
    simp only [Option.bind_eq_bind, Option.bind_some, storedTask_uuid ht, artifact_swept]
    cases D uuid <;> rfl

end Store

theorem artifact_found {s : Store} {row : ArtifactRow}
    (h : (Select.artifact uuid contentType).eval s = some row) :
    ∃ artifact, s.db.artifacts.find (uuid, contentType) = some artifact ∧
      artifact.size = row.size := by
  obtain ⟨e, he, hr⟩ := List.exists_of_findSome?_eq_some h
  split at hr
  next hk =>
    obtain ⟨a, ha, rfl⟩ := Option.map_eq_some_iff.1 hr
    rw [hk] at ha
    exact ⟨a, ha, rfl⟩
  next => cases hr

theorem saturatingSub_sub {used total size : Int} (hu : used < 2 ^ 63) (ht : 0 ≤ total)
    (hs : 0 ≤ size) : Service.saturatingSub (max (-2 ^ 63) (used - total)) size =
      max (-2 ^ 63) (used - (total + size)) := by
  unfold Service.saturatingSub
  omega

namespace Store
variable {s : Store} {time : Instant} {contentType : ArtifactContentType} {D : Uuid → Bool}

theorem sweeps_insert {uuid : Uuid} (hg : s.groupOf uuid = some g) :
    s.sweeps contentType (fun v => D v || v = uuid) g = fun key =>
      s.sweeps contentType D g key || key = (uuid, contentType) := by
  funext key
  obtain ⟨v, c⟩ := key
  simp only [sweeps, Prod.mk.injEq]
  by_cases hv : v = uuid
  · subst hv
    by_cases hc : c = contentType
    · simp only [hc, hg, decide_true, Bool.or_true, Bool.true_and, Bool.and_true, and_self]
    · simp only [hc, decide_false, Bool.false_and, and_false, Bool.or_false]
  · simp only [hv, decide_false, Bool.or_false, false_and]

theorem sweeps_insert_ne {uuid : Uuid} (hg : s.groupOf uuid ≠ some g) :
    s.sweeps contentType (fun v => D v || v = uuid) g = s.sweeps contentType D g := by
  funext key
  obtain ⟨v, c⟩ := key
  simp only [sweeps]
  by_cases hv : v = uuid
  · subst hv
    simp only [hg, decide_false, Bool.and_false]
  · simp only [hv, decide_false, Bool.or_false]

theorem sweptGroup_insert (hs : s.Sane) {uuid : Uuid} (hD : D uuid = false)
    (ha : s.db.artifacts.find (uuid, contentType) = some artifact)
    (hu : s.groupOf uuid = some g) (hg : s.db.groups.find g = some group) :
    s.sweptGroup time contentType (fun v => D v || v = uuid) g group =
      { s.sweptGroup time contentType D g group with
        storageUsed := Service.saturatingSub
          (s.sweptGroup time contentType D g group).storageUsed artifact.size
        updatedAt := time } := by
  have hkey : s.sweeps contentType D g (uuid, contentType) = false := by
    simp only [sweeps, hD, Bool.and_false, Bool.false_and]
  have hpos : 0 ≤ s.db.artifacts.sumWhere (s.sweeps contentType D g) Artifact.size :=
    Table.sumWhere_nonneg fun _ _ h => hs.sized h
  have hsize := hs.sized ha
  have hused := hs.used hg
  have hsum := Table.sumWhere_insert Artifact.size ha hkey
  unfold sweptGroup
  rw [sweeps_insert hu, Table.hasKey_insert _ ha, if_pos rfl, hsum]
  split
  next => simp only [saturatingSub_sub hused.2 hpos hsize]
  next hno =>
    rw [Table.sumWhere_eq_zero _ (Bool.eq_false_iff.2 hno)]
    have hsub := saturatingSub_sub hused.2 (Int.le_refl 0) hsize
    rw [Int.sub_zero, Int.max_eq_right hused.1] at hsub
    rw [hsub]

theorem swept_key {uuid : Uuid} (key : Uuid × ArtifactContentType) :
    ((key.2 = contentType && D key.1) || decide (key = (uuid, contentType))) =
      (key.2 = contentType && (D key.1 || decide (key.1 = uuid))) := by
  obtain ⟨v, c⟩ := key
  by_cases hv : v = uuid
  · by_cases hc : c = contentType
    · simp only [hv, hc, decide_true, Bool.or_true, Bool.and_true]
    · simp only [hc, Prod.mk.injEq, and_false, decide_false, Bool.false_and, Bool.or_false]
  · simp only [hv, Prod.mk.injEq, false_and, decide_false, Bool.or_false]

theorem removed_swept (hs : s.Sane) {d : Deletion} (hd : d = .artifact user uuid contentType)
    (hD : D uuid = false) (hf : d.found s = some f) :
    d.removed (s.swept time contentType D) time =
      some (s.swept time contentType fun v => D v || v = uuid) := by
  subst hd
  have hf' : (Deletion.artifact user uuid contentType).found (s.swept time contentType D) =
      if D uuid then none else (Deletion.artifact user uuid contentType).found s :=
    found_swept user uuid
  rw [hD, if_neg Bool.false_ne_true, hf] at hf'
  obtain ⟨task, ht, h⟩ := Option.bind_eq_some_iff.1 hf
  obtain ⟨row, hr, h⟩ := Option.bind_eq_some_iff.1 h
  obtain ⟨⟩ := h
  rw [storedTask_uuid ht] at hr
  obtain ⟨artifact, ha, hsize⟩ := artifact_found hr
  obtain ⟨group, hg⟩ := hs.grouped ht
  have hu : s.groupOf uuid = some task.groupId := congrArg (Option.map Db.StoredTask.groupId) ht
  have hfind : (s.swept time contentType D).db.groups.find task.groupId =
      some (s.sweptGroup time contentType D task.groupId group) := by
    simp only [swept, Table.find_alter, hg, Option.bind_some]
  unfold Deletion.removed
  rw [hf']
  simp only [Option.bind_eq_bind, Option.bind_some]
  rw [hfind]
  simp only [Option.bind_some, ← hsize]
  have hartifacts : (s.db.artifacts.deleteWhere fun key _ =>
      key.2 = contentType && D key.1).erase (uuid, contentType) =
        s.db.artifacts.deleteWhere fun key _ =>
          key.2 = contentType && (D key.1 || key.1 = uuid) := by
    rw [Table.erase, Table.deleteWhere_deleteWhere]
    congr 1
    funext key _
    exact swept_key key
  have hids : (s.artifactIds.deleteWhere fun _ key =>
      key.2 = contentType && D key.1).erase row.id =
        s.artifactIds.deleteWhere fun _ key =>
          key.2 = contentType && (D key.1 || key.1 = uuid) := by
    rw [Table.erase, Table.deleteWhere_deleteWhere]
    apply Table.deleteWhere_congr
    intro m key hm
    have hrow := artifact_eval hr
    rw [← swept_key, decide_eq_decide.2 (show m = row.id ↔ key = (uuid, contentType) from ?_)]
    constructor
    · rintro rfl
      exact Option.some.inj (hm.symm.trans hrow)
    · rintro rfl
      exact hs.keyed hm hrow
  have hgroups : (s.db.groups.alter fun g group =>
      some (s.sweptGroup time contentType D g group)).update task.groupId (fun g => { g with
        storageUsed := Service.saturatingSub
          (s.sweptGroup time contentType D task.groupId group).storageUsed artifact.size
        updatedAt := time }) = s.db.groups.alter fun g group =>
          some (s.sweptGroup time contentType (fun v => D v || v = uuid) g group) := by
    rw [Table.update, Table.updateWhere, Table.alter_alter]
    apply Table.alter_congr
    intro g group' hg'
    rw [Option.bind_some]
    by_cases hgid : g = task.groupId
    · subst hgid
      obtain rfl : group' = group := Option.some.inj (hg'.symm.trans hg)
      rw [if_pos (decide_eq_true rfl), sweptGroup_insert hs hD ha hu hg]
    · have hne : s.groupOf uuid ≠ some g := fun h => hgid (Option.some.inj (h.symm.trans hu))
      rw [if_neg (by simpa only [decide_eq_true_eq] using hgid)]
      unfold sweptGroup
      rw [sweeps_insert_ne hne]
  simp only [Change.apply, swept, hartifacts, hids, hgroups]
  rfl

theorem due_swept (user : Option UserId) (uuid : Uuid) :
    (Deletion.artifact user uuid contentType).due (s.swept time contentType D) time =
      (!D uuid && (Deletion.artifact user uuid contentType).due s time) := by
  have hg : ∀ g, ((s.swept time contentType D).db.groups.find g).isSome =
      (s.db.groups.find g).isSome := by
    intro g
    simp only [swept, Table.find_alter]
    cases s.db.groups.find g <;> rfl
  unfold Deletion.due
  rw [found_swept]
  cases D uuid with
  | true => rfl
  | false =>
    rw [if_neg Bool.false_ne_true]
    cases (Deletion.artifact user uuid contentType).found s with
    | none => rfl
    | some f =>
      simp only [Option.any_some, hg, Bool.not_false, Bool.true_and]
      rfl

end Store

theorem without_sweptBucket (bucket : Object → Bool) (contentType : ArtifactContentType)
    (D : Uuid → Bool) (uuid : Uuid) :
    without (sweptBucket bucket contentType D) (.artifact uuid contentType) =
      sweptBucket bucket contentType fun v => D v || v = uuid := by
  funext o
  cases o with
  | artifact v c =>
    by_cases hv : v = uuid
    · by_cases hc : c = contentType
      · simp only [without, sweptBucket, hv, hc, decide_true, Bool.or_true, ne_eq, not_true_eq_false,
          decide_false, Bool.and_false, Bool.true_and, Bool.not_true]
      · simp only [without, sweptBucket, hc, decide_false, Bool.false_and, Bool.not_false,
          Bool.and_true, ne_eq, Object.artifact.injEq, and_false, not_false_eq_true, decide_true]
    · simp only [without, sweptBucket, hv, decide_false, Bool.or_false, ne_eq,
        Object.artifact.injEq, false_and, not_false_eq_true, decide_true, Bool.and_true]
  | attachment => simp only [without, sweptBucket, ne_eq, reduceCtorEq, not_false_eq_true,
      decide_true, Bool.and_true]

theorem sweptBucket_none (bucket : Object → Bool) (contentType : ArtifactContentType) :
    sweptBucket bucket contentType (fun _ => false) = bucket := by
  funext o
  cases o with
  | artifact => simp only [sweptBucket, Bool.and_false, Bool.not_false, Bool.and_true]
  | attachment => rfl

open Storage.Service (Idle)

/-- From `x` the artifacts whose uuids are in `D` have been deleted. -/
structure SweptBy (x : Bucketed) (contentType : ArtifactContentType) (D : Uuid → Bool)
    (y : Bucketed) : Prop where
  idle : Idle y
  committed : y.infra.txns.committed =
    x.infra.txns.committed.swept x.infra.clock contentType D
  bucket : y.bucket = sweptBucket x.bucket contentType D
  clock : y.infra.clock = x.infra.clock

theorem Cmd.clock_of_alone {c : Cmd} {r : c.Resp} (h : c.alone i x r x') :
    x'.clock = x.clock := by
  obtain ⟨fault, hx⟩ := h
  cases c with
  | update q =>
    cases fault with
    | some e =>
      obtain ⟨⟩ := hx
      rfl
    | none =>
      obtain ⟨⟨r', txns⟩, -, he⟩ := Option.map_eq_some_iff.1 hx
      obtain ⟨⟩ := he
      rfl
  | _ =>
    cases fault with
    | some e =>
      obtain ⟨⟩ := hx
      rfl
    | none =>
      obtain ⟨⟩ := hx
      rfl

namespace Service

theorem carry_ends (p : Service α) (hx : Idle x) : ∃ r z, carry i p x = some (r, z) := by
  have hstep : ∀ (c : Cmd) (y : Bucketed), (∀ j, j ≠ i → y.infra.txns.opened.find j = none) →
      ∃ r t, c.execBucketed i none y = some (r, t) ∧
        ∀ j, j ≠ i → t.infra.txns.opened.find j = none := by
    intro c y hy
    have hend : (c.execBucketed i none y).isSome = true := by
      cases c with
      | update q =>
        have hl : y.infra.txns.locked i
            (q.answer y.infra.next (y.infra.txns.view i)).waits = false := by
          apply List.any_eq_false.2
          rintro ⟨j, ws⟩ he hb
          have hj := (Bool.and_eq_true _ _ ▸ hb).1
          cases (Table.mem_rows.1 he).symm.trans (hy j (of_decide_eq_true hj))
        simp only [Cmd.execBucketed, Cmd.exec, Txns.execute, hl, Bool.false_eq_true, if_false]
        split <;> rfl
      | _ => rfl
    obtain ⟨⟨r, t⟩, ht⟩ := Option.isSome_iff_exists.1 hend
    refine ⟨r, t, ht, fun j hj => ?_⟩
    exact (Cmd.opened_of_ne hj (Cmd.alone_of_carried ⟨none, ht⟩)).trans (hy j hj)
  obtain ⟨r, z, hz, -⟩ := Prog.run_ends hstep p fun j _ => hx j
  exact ⟨r, z, hz⟩

end Service
open Storage.Service

def deletable (x : Bucketed) (userId : UserId) (contentType : ArtifactContentType)
    (uuid : Uuid) : Bool :=
  (Deletion.artifact (some userId) uuid contentType).due x.infra.txns.committed x.infra.clock

theorem SweptBy.deletes (hs : x.infra.txns.committed.Sane) (h : SweptBy x contentType D y)
    (i : Nat) (userId : UserId) (uuid : Uuid) :
    ∃ r z, carry i (userDeleteArtifact userId uuid contentType) y = some (r, z) ∧
      SweptBy x contentType
        (fun v => D v || (v = uuid && deletable x userId contentType v)) z ∧
      (r = .ok () ↔ (!D uuid && deletable x userId contentType uuid) = true) := by
  let d : Deletion := .artifact (some userId) uuid contentType
  have hv : y.infra.txns.view i = y.infra.txns.committed := h.idle.view i
  have hdue : d.due y.infra.txns.committed y.infra.clock =
      (!D uuid && deletable x userId contentType uuid) := by
    rw [h.committed, h.clock]
    exact Store.due_swept _ _
  obtain ⟨r, z, hz⟩ := carry_ends (i := i) (userDeleteArtifact userId uuid contentType) h.idle
  have hcarries := carries_of_carry hz
  refine ⟨r, z, hz, ?_⟩
  cases hok : d.due y.infra.txns.committed y.infra.clock with
  | false =>
    have hset : (fun v => D v || (v = uuid && deletable x userId contentType v)) = D := by
      funext v
      by_cases hvu : v = uuid
      · subst hvu
        cases hD : D v with
        | true => rfl
        | false =>
          rw [hok, hD] at hdue
          simp only [decide_true, Bool.true_and, Bool.false_or]
          exact hdue.symm
      · simp only [hvu, decide_false, Bool.false_and, Bool.or_false]
    rw [hset, ← hdue, hok]
    rcases service_cases (d := d) hcarries with ⟨rfl, e, rfl⟩ | ⟨f, msg, hf, hp, -⟩
    · exact ⟨h, nofun, nofun⟩
    · exfalso
      rw [hv, h.committed, Store.found_swept] at hf
      split at hf
      next => cases hf
      next hD =>
        obtain ⟨task, ht, h'⟩ := Option.bind_eq_some_iff.1 hf
        obtain ⟨row, hr, h'⟩ := Option.bind_eq_some_iff.1 h'
        obtain ⟨⟩ := h'
        obtain ⟨group, hg⟩ := hs.grouped ht
        rw [hv, h.committed, h.clock] at hp
        have hdel : deletable x userId contentType uuid = true := by
          unfold deletable Deletion.due
          rw [hf, Option.any_some, hg, Bool.and_eq_true]
          exact ⟨hp, rfl⟩
        rw [hok, hdel, Bool.eq_false_iff.2 hD] at hdue
        cases hdue
  | true =>
    have hboth := (Bool.and_eq_true_iff.1 (hdue.symm.trans hok))
    have hD : D uuid = false := Bool.eq_false_iff.2 fun hD => by
      rw [hD] at hboth
      cases hboth.1
    have hset : (fun v => D v || (v = uuid && deletable x userId contentType v)) =
        fun v => D v || v = uuid := by
      funext v
      by_cases hvu : v = uuid
      · rw [hvu, hboth.2, Bool.and_true]
      · simp only [hvu, decide_false, Bool.false_and]
    obtain ⟨f, hf, hd⟩ := (Option.any_eq_true _ _).1 hok
    obtain ⟨hp, hg⟩ := Bool.and_eq_true_iff.1 hd
    obtain ⟨group, hg⟩ := Option.isSome_iff_exists.1 hg
    obtain ⟨object, msg, he⟩ := carry_service_eq (i := i) (hv ▸ hf) (hv ▸ hp)
    have hrel : ∃ z, carry i (release object f.groupId f.size msg f.delete) y = some (.ok (), z) :=
      carry_release h.idle hf hg
    obtain ⟨z', hz'⟩ := hrel
    obtain ⟨⟩ := hz.symm.trans (he.trans hz')
    rw [hset, ← hdue, hok]
    refine ⟨?_, fun _ => rfl, fun _ => rfl⟩
    rcases service_cases (d := d) hcarries with ⟨-, e, he⟩ | ⟨f', msg', hf', -, hrel⟩
    · cases he
    · rw [hv] at hf'
      obtain ⟨hrem, hbucket⟩ := release_ok hf' hrel
      obtain ⟨w, u, -, -, -, -, ht, -⟩ := carries_transaction_ok hrel
      refine ⟨fun j => ?_, ?_, ?_, ?_⟩
      · by_cases hj : j = i
        · rw [ht, hj]
          exact Table.find_erase_self _ _
        · exact Prog.Runs.preserved (P := fun y : Infra => y.txns.opened.find j = none)
            (Carries.runs hcarries) (fun c s r s' hs ho => (Cmd.opened_of_ne hj hs).trans ho)
            (h.idle j)
      · rw [h.committed, h.clock] at hrem
        rw [h.committed, Store.found_swept, hD, if_neg Bool.false_ne_true] at hf'
        exact (Option.some.inj ((Store.removed_swept hs rfl hD hf').symm.trans hrem)).symm
      · rw [hbucket, h.bucket]
        exact without_sweptBucket _ _ _ _
      · exact (Prog.Runs.preserved (P := fun y : Infra => y.clock = x.infra.clock)
          (Carries.runs hcarries) (fun c s r s' hs ho => (Cmd.clock_of_alone hs).trans ho) h.clock)

namespace Service
open Fallible (attempt)

/-- `user_delete_artifact` for one uuid after the other, whatever becomes of it. Returns the uuids
for which it succeeds. -/
def deleteEach (userId : UserId) (contentType : ArtifactContentType) :
    List Uuid → Service (List Uuid)
  | [] => pure []
  | uuid :: uuids => do
    let deleted ← attempt (userDeleteArtifact userId uuid contentType)
    let rest ← deleteEach userId contentType uuids
    return match deleted with
      | .ok _ => uuid :: rest
      | .error _ => rest

theorem carry_attempt {p : Service β} {r : Except Error β} (h : carry i p x = some (r, y))
    (f : Except Error β → Service α) : carry i (attempt p >>= f) x = carry i (f r) y :=
  carry_bind_ok (Fallible.run_attempt h) f

theorem carry_deleteEach (hs : x.infra.txns.committed.Sane) (h : SweptBy x contentType D y)
    (i : Nat) (userId : UserId) (uuids : List Uuid) :
    ∃ deleted z, carry i (deleteEach userId contentType uuids) y = some (.ok deleted, z) ∧
      SweptBy x contentType
        (fun v => D v || (decide (v ∈ uuids) && deletable x userId contentType v)) z ∧
      deleted.Nodup ∧
      ∀ v, v ∈ deleted ↔ v ∈ uuids ∧ D v = false ∧ deletable x userId contentType v = true := by
  induction uuids generalizing y D with
  | nil =>
    refine ⟨[], y, rfl, ?_, .nil, fun v => ⟨nofun, fun h => h.1⟩⟩
    simpa only [List.not_mem_nil, decide_false, Bool.false_and, Bool.or_false] using h
  | cons uuid uuids ih =>
    obtain ⟨r, z₁, hr, hz₁, hiff⟩ := h.deletes hs i userId uuid
    obtain ⟨rest, z, hrest, hz, hnodup, hmem⟩ := ih hz₁
    have hset : (fun v => (D v || (v = uuid && deletable x userId contentType v)) ||
        (decide (v ∈ uuids) && deletable x userId contentType v)) =
        fun v => D v || (decide (v ∈ uuid :: uuids) && deletable x userId contentType v) := by
      funext v
      by_cases hv : v = uuid
      · simp only [hv, List.mem_cons, true_or, decide_true, Bool.true_and]
        cases D uuid <;> cases deletable x userId contentType uuid <;> simp
      · simp only [hv, List.mem_cons, false_or, decide_false, Bool.false_and, Bool.or_false]
    rw [hset] at hz
    have hrest' : ∀ v, v ∈ rest ↔ v ∈ uuids ∧
        (D v = false ∧ ¬ (v = uuid ∧ deletable x userId contentType v = true)) ∧
        deletable x userId contentType v = true := by
      intro v
      rw [hmem, Bool.or_eq_false_iff]
      by_cases hdv : deletable x userId contentType v = true
      · simp only [hdv, Bool.and_true, decide_eq_false_iff_not, and_true]
      · exact ⟨fun h => (hdv h.2.2).elim, fun h => (hdv h.2.2).elim⟩
    cases r with
    | ok _ =>
      obtain ⟨hD, hdel⟩ := Bool.and_eq_true_iff.1 (hiff.1 rfl)
      have hD : D uuid = false := by simpa only [Bool.not_eq_true'] using hD
      refine ⟨uuid :: rest, z, ?_, hz, ?_, fun v => ?_⟩
      · exact (carry_attempt hr _).trans (carry_bind_ok hrest _)
      · exact List.nodup_cons.2 ⟨fun hm => ((hrest' uuid).1 hm).2.1.2 ⟨rfl, hdel⟩, hnodup⟩
      · rw [List.mem_cons, List.mem_cons, hrest']
        constructor
        · rintro (rfl | ⟨hv, ⟨hDv, -⟩, hdv⟩)
          · exact ⟨.inl rfl, hD, hdel⟩
          · exact ⟨.inr hv, hDv, hdv⟩
        · rintro ⟨hv, hDv, hdv⟩
          by_cases he : v = uuid
          · exact .inl he
          · exact .inr ⟨hv.resolve_left he, ⟨hDv, fun h => he h.1⟩, hdv⟩
    | error e =>
      have hno : ¬ (!D uuid && deletable x userId contentType uuid) = true :=
        fun h => nomatch hiff.2 h
      refine ⟨rest, z, ?_, hz, hnodup, fun v => ?_⟩
      · exact (carry_attempt hr _).trans (carry_bind_ok hrest _)
      · rw [hrest', List.mem_cons]
        constructor
        · rintro ⟨hv, ⟨hDv, -⟩, hdv⟩
          exact ⟨.inr hv, hDv, hdv⟩
        · rintro ⟨hv, hDv, hdv⟩
          have he : v ≠ uuid := by
            rintro rfl
            rw [hDv, hdv] at hno
            exact hno rfl
          exact ⟨hv.resolve_left he, ⟨hDv, fun h => he h.1⟩, hdv⟩

theorem carry_findTask_none (h : (x.infra.txns.view i).storedTask uuid = none) :
    carry i (findTaskByUuid uuid) x =
      some (.error (notFound s!"Task {uuid} not found"), x) := by
  unfold Store.storedTask at h
  split at h
  next => cases h
  next ha =>
    have hb := Option.map_eq_none_iff.1 h
    apply (carry_select _ _ _).trans
    rw [ha]
    apply (carry_select _ _ _).trans
    rw [hb]
    exact Fallible.run_bind_error rfl _

theorem carry_findTask_some {task : Db.StoredTask}
    (h : (x.infra.txns.view i).storedTask uuid = some task) :
    carry i (findTaskByUuid uuid) x = some (.ok task, x) := by
  unfold Store.storedTask at h
  cases ha : (Select.db (.activeByUuid uuid)).eval (x.infra.txns.view i) with
  | some e =>
    rw [ha] at h
    obtain ⟨⟩ := h
    apply (carry_select _ _ _).trans
    rw [ha]
    rfl
  | none =>
    rw [ha] at h
    obtain ⟨e, he, rfl⟩ := Option.map_eq_some_iff.1 h
    apply (carry_select _ _ _).trans
    rw [ha]
    exact (carry_select _ _ _).trans (carry_okOr he _ _)

/-- The batch does for an artifact what a single deletion does, although it has read the row
before. -/
theorem carry_deleteListedArtifact {row : ArtifactRow}
    (hrow : ∀ row', (Select.artifact row.taskId contentType).eval (y.infra.txns.view i) =
      some row' → row'.updatedAt = row.updatedAt)
    (hr : carry i (userDeleteArtifact userId row.taskId contentType) y = some (r, z)) :
    carry i (deleteListedArtifact userId contentType row) y =
      some (.ok (match r with | .ok _ => true | .error _ => false), z) := by
  unfold deleteListedArtifact
  cases ht : (y.infra.txns.view i).storedTask row.taskId with
  | none =>
    have he := carry_findTask_none ht
    obtain ⟨⟩ := hr.symm.trans (Fallible.run_bind_error he _)
    exact carry_attempt he _
  | some task =>
    apply (carry_attempt (carry_findTask_some ht) _).trans
    apply (carry_select _ _ _).trans
    have hr₁ := ((carry_findTaskByUuid ht _).trans (carry_select _ _ _)).symm.trans hr
    cases hrole : (Select.db (.userGroupRole userId task.groupId)).eval (y.infra.txns.view i) with
    | none =>
      rw [hrole] at hr₁
      obtain ⟨⟩ := hr₁.symm.trans (Fallible.run_bind_error rfl _)
      rfl
    | some role =>
      rw [hrole] at hr₁
      have hr₂ := (carry_okOr rfl _ _).symm.trans hr₁
      dsimp only at hr₂ ⊢
      by_cases hread : role = .read
      · rw [if_pos hread] at hr₂ ⊢
        obtain ⟨⟩ := hr₂
        rfl
      · rw [if_neg hread] at hr₂ ⊢
        apply (carry_now _ _).trans
        by_cases hold : row.updatedAt + uploadValidSecs ≤ y.infra.clock
        · rw [if_pos hold]
          apply (carry_attempt hr₂ _).trans
          cases r <;> rfl
        · rw [if_neg hold]
          unfold deleteArtifact at hr₂
          rw [carry_select, storedTask_uuid ht] at hr₂
          cases ha : (Select.artifact row.taskId contentType).eval (y.infra.txns.view i) with
          | none =>
            rw [ha] at hr₂
            obtain ⟨⟩ := hr₂.symm.trans (Fallible.run_bind_error rfl _)
            rfl
          | some row' =>
            rw [ha] at hr₂
            have hr₃ := (carry_okOr rfl _ _).symm.trans hr₂
            rw [carry_now] at hr₃
            have hgt : row'.updatedAt + uploadValidSecs > y.infra.clock := by
              rw [hrow row' ha]
              exact Nat.lt_of_not_le hold
            rw [if_pos (by simp only [Bool.not_false, Bool.true_and, decide_eq_true hgt])] at hr₃
            obtain ⟨⟩ := hr₃
            rfl

theorem carry_deleteListedArtifacts (hs : x.infra.txns.committed.Sane) {rows : List ArtifactRow}
    (h : SweptBy x contentType D y)
    (hrows : ∀ row ∈ rows, (Select.artifact row.taskId contentType).eval
      x.infra.txns.committed = some row) (i : Nat) (userId : UserId) :
    carry i (deleteListedArtifacts userId contentType rows) y =
      carry i (deleteEach userId contentType (rows.map ArtifactRow.taskId)) y := by
  induction rows generalizing y D with
  | nil => rfl
  | cons row rows ih =>
    obtain ⟨r, z, hr, hz, -⟩ := h.deletes hs i userId row.taskId
    have hrow : ∀ row', (Select.artifact row.taskId contentType).eval (y.infra.txns.view i) =
        some row' → row'.updatedAt = row.updatedAt := by
      intro row' hrow'
      rw [h.idle.view i, h.committed, Store.artifact_swept] at hrow'
      split at hrow'
      next => cases hrow'
      next => rw [Option.some.inj ((hrows row (.head _)).symm.trans hrow')]
    obtain ⟨rest, u, hrest, -⟩ := carry_deleteEach hs hz i userId (rows.map ArtifactRow.taskId)
    have hrest' := (ih hz fun row' hm => hrows row' (.tail _ hm)).trans hrest
    have hlisted := carry_deleteListedArtifact hrow hr
    cases r with
    | ok _ =>
      have hbatch : carry i (deleteListedArtifacts userId contentType (row :: rows)) y =
          some (.ok (row.taskId :: rest), u) :=
        (carry_bind_ok hlisted _).trans (carry_bind_ok hrest' _)
      exact hbatch.trans ((carry_attempt hr _).trans (carry_bind_ok hrest _)).symm
    | error e =>
      have hbatch : carry i (deleteListedArtifacts userId contentType (row :: rows)) y =
          some (.ok rest, u) :=
        (carry_bind_ok hlisted _).trans (carry_bind_ok hrest' _)
      exact hbatch.trans ((carry_attempt hr _).trans (carry_bind_ok hrest _)).symm

theorem carry_artifactsOfChunks (i : Nat) (x : Bucketed) (contentType : ArtifactContentType)
    (chunks : List (List Uuid)) : carry i (artifactsOfChunks contentType chunks) x =
      some (.ok (Chunks.query ((x.infra.txns.view i).artifactsOf contentType) ArtifactRow.taskId
        chunks), x) := by
  induction chunks with
  | nil => rfl
  | cons chunk chunks ih =>
    unfold artifactsOfChunks
    rw [carry_select, artifacts_eval, carry_bind_ok ih]
    rfl

end Service

theorem Store.Sane.eval (hs : Store.Sane s) {row : ArtifactRow}
    (h : row ∈ s.artifactsOf contentType) :
    (Select.artifact row.taskId contentType).eval s = some row := by
  obtain ⟨hm, hc⟩ := List.mem_filter.1 h
  obtain ⟨⟨m, key⟩, he, hr⟩ := List.mem_filterMap.1 hm
  have hkey : key = (row.taskId, contentType) := by
    obtain ⟨a, -, rfl⟩ := Option.map_eq_some_iff.1 hr
    exact Prod.ext rfl (of_decide_eq_true hc)
  cases hev : (Select.artifact row.taskId contentType).eval s with
  | none =>
    have hno := List.findSome?_eq_none_iff.1 hev (m, key) he
    rw [if_pos hkey] at hno
    cases hno.symm.trans hr
  | some row' =>
    obtain ⟨⟨m', key'⟩, he', hr'⟩ := List.exists_of_findSome?_eq_some hev
    split at hr'
    next hkey' =>
      obtain rfl : key' = key := hkey'.trans hkey.symm
      obtain rfl := hs.keyed (Table.mem_rows.1 he') (Table.mem_rows.1 he)
      exact hr'.symm.trans hr
    next => cases hr'

theorem mem_artifactsOf {s : Store} {row : ArtifactRow}
    (h : (Select.artifact uuid contentType).eval s = some row) :
    row ∈ s.artifactsOf contentType ∧ row.taskId = uuid := by
  obtain ⟨e, he, hr⟩ := List.exists_of_findSome?_eq_some h
  split at hr
  next hk =>
    have hrow := hr
    obtain ⟨a, -, rfl⟩ := Option.map_eq_some_iff.1 hr
    refine ⟨List.mem_filter.2 ⟨List.mem_filterMap.2 ⟨e, he, hrow⟩, ?_⟩, congrArg Prod.fst hk⟩
    exact decide_eq_true (congrArg Prod.snd hk)
  next => cases hr

/-- Run alone where nothing fails, the batch deletion leaves the database and the bucket of one
deletion after the other, counts the uuids for which such a deletion succeeds and returns the
others. -/
theorem batch_deletes_each {x : Bucketed} (hx : Idle x) (hs : x.infra.txns.committed.Sane)
    {uuids : List Uuid} (hne : uuids ≠ []) (i : Nat) (userId : UserId)
    (contentType : ArtifactContentType) :
    ∃ y z deleted,
      carry i (batchDeleteArtifactsByUuids userId uuids contentType) x =
        some (.ok (deleted.length, uuids.filter fun uuid => uuid ∉ deleted), y) ∧
      carry i (deleteEach userId contentType uuids) x = some (.ok deleted, z) ∧
      y.infra.txns.committed = z.infra.txns.committed ∧ y.bucket = z.bucket ∧ deleted.Nodup ∧
      ∀ uuid, uuid ∈ deleted ↔ uuid ∈ uuids ∧ deletable x userId contentType uuid = true := by
  have hstart : SweptBy x contentType (fun _ => false) x :=
    ⟨hx, (Store.swept_none _ _ _).symm, (sweptBucket_none _ _).symm, rfl⟩
  have hv : x.infra.txns.view i = x.infra.txns.committed := hx.view i
  let rows := Chunks.query (x.infra.txns.committed.artifactsOf contentType) ArtifactRow.taskId
    (uuids.toChunks 2048)
  have hrows : ∀ row ∈ rows, (Select.artifact row.taskId contentType).eval
      x.infra.txns.committed = some row :=
    fun row hm => hs.eval (Chunks.mem_named.1 (Chunks.mem_query.1 hm)).1
  -- the artifacts that the batch finds are those of the listed uuids that have one
  have hlisted : ∀ uuid, deletable x userId contentType uuid = true →
      (uuid ∈ rows.map ArtifactRow.taskId ↔ uuid ∈ uuids) := by
    intro uuid hd
    constructor
    · intro hm
      obtain ⟨row, hrow, rfl⟩ := List.mem_map.1 hm
      have hm := (Chunks.mem_named.1 (Chunks.mem_query.1 hrow)).2
      rwa [Chunks.flatten_toChunks] at hm
    · intro hm
      obtain ⟨f, hf, -⟩ := (Option.any_eq_true _ _).1 hd
      obtain ⟨task, ht, hf⟩ := Option.bind_eq_some_iff.1 hf
      obtain ⟨row, hr, -⟩ := Option.bind_eq_some_iff.1 hf
      rw [storedTask_uuid ht] at hr
      obtain ⟨hrow, rfl⟩ := mem_artifactsOf hr
      refine List.mem_map_of_mem (Chunks.mem_query.2 (Chunks.mem_named.2 ⟨hrow, ?_⟩))
      rwa [Chunks.flatten_toChunks]
  obtain ⟨batch, y, hbatch, hy, hnodup, hmem⟩ :=
    carry_deleteEach hs hstart i userId (rows.map ArtifactRow.taskId)
  obtain ⟨deleted, z, hdeleted, hz, hnodup', hmem'⟩ := carry_deleteEach hs hstart i userId uuids
  have hsame : ∀ v, v ∈ batch ↔ v ∈ deleted := by
    intro v
    rw [hmem, hmem']
    constructor
    · rintro ⟨hm, hD, hd⟩
      exact ⟨(hlisted v hd).1 hm, hD, hd⟩
    · rintro ⟨hm, hD, hd⟩
      exact ⟨(hlisted v hd).2 hm, hD, hd⟩
  have hset : (fun v => false || (decide (v ∈ rows.map ArtifactRow.taskId) &&
      deletable x userId contentType v)) =
        fun v => false || (decide (v ∈ uuids) && deletable x userId contentType v) := by
    funext v
    cases hd : deletable x userId contentType v with
    | false => simp only [Bool.and_false]
    | true => rw [decide_eq_decide.2 (hlisted v hd)]
  rw [hset] at hy
  refine ⟨y, z, deleted, ?_, hdeleted, hy.committed.trans hz.committed.symm,
    hy.bucket.trans hz.bucket.symm, hnodup', fun v => ?_⟩
  · have hne' : uuids.isEmpty = false := by
      cases uuids with
      | nil => exact (hne rfl).elim
      | cons => rfl
    have hlist : carry i (deleteListedArtifacts userId contentType rows) x =
        some (.ok batch, y) := (carry_deleteListedArtifacts hs hstart hrows i userId).trans hbatch
    unfold batchDeleteArtifactsByUuids deleteArtifactsByUuidsInternal
    rw [hne', if_neg Bool.false_ne_true, carry_bind_ok (carry_artifactsOfChunks i x _ _), hv]
    apply (carry_bind_ok hlist _).trans
    have hlen := ((List.perm_ext_iff_of_nodup hnodup hnodup').2 hsame).length_eq
    rw [hlen]
    simp only [hsame]
    rfl
  · rw [hmem']
    exact ⟨fun h => ⟨h.1, h.2.2⟩, fun h => ⟨h.1, rfl, h.2⟩⟩

namespace BatchDeletionDemo

/-- The task of `DeletionDemo`, two hours later. -/
def start : Bucketed :=
  ⟨{ DeletionDemo.start.infra with clock := 7200 }, DeletionDemo.start.bucket⟩

theorem find_single {κ ρ : Type} [DecidableEq κ] {k k' : κ} {r r' : ρ}
    (h : (Table.empty.set k r).find k' = some r') : k' = k ∧ r' = r := by
  rw [Table.find_set] at h
  split at h
  next hk => exact ⟨hk, (Option.some.inj h).symm⟩
  next => cases h

theorem sane : start.infra.txns.committed.Sane where
  keyed h h' := (find_single h).1.trans (find_single h').1.symm
  sized h := by
    rw [(find_single h).2]
    decide
  used h := by
    rw [(find_single h).2]
    decide
  grouped {uuid task} h := by
    have hactive : ∀ t (row : ActiveTask), start.infra.txns.committed.db.activeTasks.find t =
        some row → row.groupId = 1 := by
      intro t row h
      rw [(find_single h).2]
    unfold Store.storedTask at h
    split at h
    next t row ht =>
      obtain ⟨⟩ := h
      have ht : start.infra.txns.committed.db.findActiveByUuid uuid = some (t, row) := ht
      rw [Db.StoredTask.groupId, hactive t row (Table.findWhere_some ht).1]
      exact ⟨_, rfl⟩
    next =>
      obtain ⟨⟨t, row⟩, ht, rfl⟩ := Option.map_eq_some_iff.1 h
      have ht : start.infra.txns.committed.db.findArchivedByUuid uuid = some (t, row) := ht
      cases (Table.findWhere_some ht).1

/-- One uuid of the list has an artifact, and it is listed twice. -/
theorem batch_deletes_seven : ∃ y z deleted,
    carry 1 (batchDeleteArtifactsByUuids 1 [7, 9, 7] .result) start =
      some (.ok (deleted.length, [7, 9, 7].filter fun uuid => uuid ∉ deleted), y) ∧
    carry 1 (deleteEach 1 .result [7, 9, 7]) start = some (.ok deleted, z) ∧
    y.infra.txns.committed = z.infra.txns.committed ∧ y.bucket = z.bucket ∧ deleted.Nodup ∧
    7 ∈ deleted := by
  obtain ⟨y, z, deleted, hbatch, heach, hdb, hbucket, hnodup, hmem⟩ :=
    batch_deletes_each (x := start) (fun _ => rfl) sane
      (show [7, 9, 7] ≠ [] by decide) 1 1 .result
  exact ⟨y, z, deleted, hbatch, heach, hdb, hbucket, hnodup,
    (hmem 7).2 ⟨by decide, by decide +kernel⟩⟩

end BatchDeletionDemo
end Storage
end Mitosis
