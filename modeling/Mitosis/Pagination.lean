import Mitosis.Proof.Faultless

namespace Mitosis
set_option autoImplicit true

/-- A page takes everything or nothing of `total` rows. -/
def Whole (total : Nat) (limit offset : Option Nat) : Prop :=
  limit = some 0 ∨ total ≤ offset.getD 0 ∨ offset.getD 0 = 0 ∧ ∀ n, limit = some n → total ≤ n

structure Paged (full listed : List α) (counted : Nat) (limit offset : Option Nat) : Prop where
  items : listed = page limit offset full
  count : counted = listed.length

theorem page_none (offset : Option Nat) (rows : List α) :
    page none offset rows = rows.drop (offset.getD 0) := rfl

theorem page_some (n : Nat) (offset : Option Nat) (rows : List α) :
    page (some n) offset rows = (rows.drop (offset.getD 0)).take n := rfl

theorem page_zero (offset : Option Nat) (rows : List α) : page (some 0) offset rows = [] := by
  rw [page_some, List.take_zero]

theorem page_beyond {offset : Option Nat} (rows : List α) (h : rows.length ≤ offset.getD 0)
    (limit : Option Nat) : page limit offset rows = [] := by
  cases limit with
  | none => rw [page_none, List.drop_eq_nil_of_le h]
  | some n => rw [page_some, List.drop_eq_nil_of_le h, List.take_nil]

theorem page_all {limit offset : Option Nat} (rows : List α) (ho : offset.getD 0 = 0)
    (hl : ∀ n, limit = some n → rows.length ≤ n) : page limit offset rows = rows := by
  cases limit with
  | none => rw [page_none, ho, List.drop_zero]
  | some n => rw [page_some, ho, List.drop_zero, List.take_of_length_le (hl n rfl)]

theorem page_eq_nil {limit offset : Option Nat} {rows : List α}
    (h : page limit offset rows = []) : limit = some 0 ∨ rows.length ≤ offset.getD 0 := by
  cases limit with
  | none => exact .inr (List.drop_eq_nil_iff.1 h)
  | some n =>
    rw [page_some, List.take_eq_nil_iff] at h
    rcases h with rfl | h
    · exact .inl rfl
    · exact .inr (List.drop_eq_nil_iff.1 h)

/-- The one row that holds a count is on the first page, or nowhere. -/
theorem page_count (limit offset : Option Nat) (total : Nat) :
    (page limit offset [total]).head?.getD 0 =
      if limit = some 0 ∨ offset.getD 0 ≠ 0 then 0 else total := by
  split
  next h =>
    rcases h with rfl | h
    · rw [page_zero]
      rfl
    · rw [page_beyond [total] (Nat.one_le_iff_ne_zero.2 h)]
      rfl
  next h =>
    obtain ⟨hl, ho⟩ := not_or.1 h
    rw [page_all [total] (not_not.1 ho)]
    · rfl
    · intro n hn
      apply Nat.one_le_iff_ne_zero.2
      rintro rfl
      exact hl hn

theorem paged_iff {listed : List α} (full : List α) (limit offset : Option Nat)
    (h : Whole full.length limit offset → listed = page limit offset full) :
    Paged full listed (if limit = some 0 ∨ offset.getD 0 ≠ 0 then 0 else full.length)
      limit offset ↔ Whole full.length limit offset := by
  constructor
  · intro ⟨hitems, hcount⟩
    rw [hitems] at hcount
    split at hcount
    next =>
      rcases page_eq_nil (List.length_eq_zero_iff.1 hcount.symm) with h | h
      · exact .inl h
      · exact .inr (.inl h)
    next hn =>
      have ho : offset.getD 0 = 0 := not_not.1 (not_or.1 hn).2
      refine .inr (.inr ⟨ho, ?_⟩)
      intro n hl
      rw [hl, page_some, ho, List.drop_zero, List.length_take] at hcount
      omega
  · intro hw
    refine ⟨h hw, ?_⟩
    rw [h hw]
    rcases hw with rfl | hb | ⟨ho, hl⟩
    · rw [if_pos (.inl rfl), page_zero]
      rfl
    · rw [page_beyond _ hb]
      split
      · rfl
      next hn =>
        have ho : offset.getD 0 = 0 := not_not.1 (not_or.1 hn).2
        rw [ho] at hb
        exact Nat.le_zero.1 hb
    · rw [page_all _ ho hl]
      split
      next hn =>
        rcases hn with rfl | hn
        · exact (Nat.le_zero.1 (hl 0 rfl)).symm
        · exact (hn ho).elim
      next => rfl

theorem page_pair {xs ys : List α} {limit offset : Option Nat}
    (h : Whole (xs ++ ys).length limit offset) :
    page limit offset xs ++ page limit offset ys = page limit offset (xs ++ ys) := by
  rcases h with rfl | h | ⟨ho, hl⟩
  · simp only [page_zero, List.append_nil]
  · have h' := h
    rw [List.length_append] at h'
    rw [page_beyond _ h, page_beyond xs (by omega), page_beyond ys (by omega),
      List.append_nil]
  · rw [page_all _ ho hl]
    simp only [List.length_append] at hl
    congr 1
    · exact page_all _ ho fun n hn => by
        have := hl n hn
        omega
    · exact page_all _ ho fun n hn => by
        have := hl n hn
        omega

namespace Storage

def Store.matchingTasks (s : Store) (userId : UserId) (query : TasksQueryReq) :
    List TaskQueryInfo :=
  let groupName := query.groupName.or ((s.db.users.find userId).map User.username)
  (applyTaskFilters { query with groupName }).toOption.elim [] fun filter =>
    s.db.activeInfos filter ++ s.db.archivedInfos filter query.reporterUuid

namespace Service
open Fallible (ofExcept okOr)

theorem alone_queriedGroup {name : Option String}
    (h : alone i (queriedGroup userId name) x = some (.ok groupName, y)) :
    alone i (queriedGroup userId name) x = some (.ok groupName, x) ∧
      name.or (((x.txns.view i).db.users.find userId).map User.username) = some groupName := by
  cases name with
  | some name =>
    obtain ⟨⟩ := h
    exact ⟨rfl, rfl⟩
  | none =>
    have hs := alone_bind_ok (alone_select (i := i) (.db (.user userId)) x) fun user =>
      okOr (notFound "User") user >>= fun user => (pure user.username : Service String)
    rw [queriedGroup, hs] at h ⊢
    simp only [Select.eval, Mitosis.Select.eval] at h ⊢
    cases hu : (x.txns.view i).db.users.find userId with
    | none =>
      rw [hu] at h
      cases h
    | some user =>
      rw [hu] at h
      obtain ⟨⟩ := h
      exact ⟨rfl, rfl⟩

theorem alone_checkTaskListQuery {query : TasksQueryReq}
    (h : alone i (checkTaskListQuery userId query role) x = some (.ok (checked, groupName), y)) :
    query.groupName.or (((x.txns.view i).db.users.find userId).map User.username) =
        some groupName ∧
      ∀ limit offset count, alone i (checkTaskListQuery userId
          { query with limit, offset, count } role) x =
        some (.ok ({ query with limit, offset, count, groupName := some groupName }, groupName),
          x) := by
  obtain ⟨_, y₁, hc, h⟩ := alone_bind_cases_ok h
  obtain ⟨hok, rfl⟩ := alone_ofExcept_cases hc
  obtain ⟨name, y₂, hg, h⟩ := alone_bind_cases_ok h
  obtain ⟨hg', hname⟩ := alone_queriedGroup hg
  rw [hg'] at hg
  obtain ⟨⟩ := hg
  obtain ⟨found, y₃, hr, h⟩ := alone_bind_cases_ok h
  rw [alone_select] at hr
  obtain ⟨⟩ := hr
  cases hrole : (Select.db (.roleByName userId name)).eval (x.txns.view i) with
  | none =>
    rw [hrole] at h
    cases h
  | some r =>
    rw [hrole] at h
    dsimp only at h
    split at h
    next hr =>
      obtain ⟨⟩ := h
      refine ⟨hname, ?_⟩
      intro limit offset count
      have hok' : TasksQueryReq.check { query with limit, offset, count } = .ok _ := hok
      unfold checkTaskListQuery
      rw [alone_bind_ok (alone_ofExcept hok'), alone_bind_ok hg', alone_bind_ok (alone_select _ x),
        hrole]
      dsimp only
      rw [if_pos hr]
      rfl
    next => cases h

theorem alone_queryTasks {query : TasksQueryReq}
    (h : alone i (queryTasksByFilter userId query) x = some (.ok resp, y)) :
    ∃ groupName active archived,
      (x.txns.view i).matchingTasks userId query = active ++ archived ∧
      ∀ limit offset,
        alone i (queryTasksByFilter userId { query with limit, offset, count := false }) x =
          some (.ok ⟨(page limit offset active ++ page limit offset archived).length,
            page limit offset active ++ page limit offset archived, groupName⟩, x) ∧
        alone i (queryTasksByFilter userId { query with limit, offset, count := true }) x =
          some (.ok ⟨(page limit offset [active.length]).head?.getD 0 +
            (page limit offset [archived.length]).head?.getD 0, [], groupName⟩, x) := by
  obtain ⟨⟨checked, groupName⟩, z, hc, h⟩ := alone_bind_cases_ok h
  obtain ⟨hname, hcheck⟩ := alone_checkTaskListQuery hc
  have hself := hcheck query.limit query.offset query.count
  rw [hc] at hself
  obtain ⟨⟩ := hself
  obtain ⟨filter, z, hf, h⟩ := alone_bind_cases_ok h
  obtain ⟨hok, rfl⟩ := alone_ofExcept_cases hf
  refine ⟨groupName, (x.txns.view i).db.activeInfos filter,
    (x.txns.view i).db.archivedInfos filter query.reporterUuid, ?_, ?_⟩
  · simp only [Store.matchingTasks, hname, hok, Except.toOption, Option.elim_some]
  · intro limit offset
    have hok' : applyTaskFilters { query with groupName := some groupName, limit, offset } =
      .ok filter := hok
    constructor
    · refine (alone_bind_ok (hcheck limit offset false) _).trans ?_
      refine (alone_bind_ok (alone_ofExcept hok') _).trans ?_
      refine (alone_bind_ok (alone_select _ x) _).trans ?_
      exact alone_bind_ok (alone_select _ x) _
    · refine (alone_bind_ok (hcheck limit offset true) _).trans ?_
      refine (alone_bind_ok (alone_ofExcept hok') _).trans ?_
      refine (alone_bind_ok (alone_select _ x) _).trans ?_
      exact alone_bind_ok (alone_select _ x) _

theorem alone_queryAttachmentsByFilter {query : AttachmentsQueryReq}
    (h : alone i (queryAttachmentsByFilter userId groupName query) x = some (.ok resp, y))
    (limit offset : Option Nat) :
    alone i (queryAttachmentsByFilter userId groupName
        { query with limit, offset, count := false }) x =
      some (.ok ⟨(page limit offset
          ((x.txns.view i).attachmentInfos groupName (query.key.getD ""))).length,
        page limit offset ((x.txns.view i).attachmentInfos groupName (query.key.getD "")),
        groupName⟩, x) ∧
    alone i (queryAttachmentsByFilter userId groupName
        { query with limit, offset, count := true }) x =
      some (.ok ⟨(page limit offset
          [((x.txns.view i).attachmentInfos groupName (query.key.getD "")).length]).head?.getD 0,
        [], groupName⟩, x) := by
  have hm : alone i (checkMember userId groupName) x = some (.ok (), x) := by
    rcases alone_checkMember i x userId groupName with ⟨e, hm⟩ | hm
    · rw [queryAttachmentsByFilter, alone_bind_error hm] at h
      cases h
    · exact hm
  constructor
  · refine (alone_bind_ok hm _).trans ?_
    exact alone_bind_ok (alone_select _ x) _
  · refine (alone_bind_ok hm _).trans ?_
    exact alone_bind_ok (alone_select _ x) _

end Service

open Storage.Service (alone)

def TasksPaged (i : Nat) (x : Infra) (userId : UserId) (query : TasksQueryReq) : Prop :=
  ∀ full listed counted y₁ y₂ y₃,
    alone i (Service.queryTasksByFilter userId
      { query with limit := none, offset := none, count := false }) x = some (.ok full, y₁) →
    alone i (Service.queryTasksByFilter userId { query with count := false }) x =
      some (.ok listed, y₂) →
    alone i (Service.queryTasksByFilter userId { query with count := true }) x =
      some (.ok counted, y₃) →
    Paged full.tasks listed.tasks counted.count query.limit query.offset

def AttachmentsPaged (i : Nat) (x : Infra) (userId : UserId) (groupName : String)
    (query : AttachmentsQueryReq) : Prop :=
  ∀ full listed counted y₁ y₂ y₃,
    alone i (Service.queryAttachmentsByFilter userId groupName
      { query with limit := none, offset := none, count := false }) x = some (.ok full, y₁) →
    alone i (Service.queryAttachmentsByFilter userId groupName { query with count := false }) x =
      some (.ok listed, y₂) →
    alone i (Service.queryAttachmentsByFilter userId groupName { query with count := true }) x =
      some (.ok counted, y₃) →
    Paged full.attachments listed.attachments counted.count query.limit query.offset

theorem tasksPaged_iff {query : TasksQueryReq}
    (h : alone i (Service.queryTasksByFilter userId query) x = some (.ok resp, y)) :
    TasksPaged i x userId query ↔
      Whole ((x.txns.view i).matchingTasks userId query).length query.limit query.offset := by
  obtain ⟨groupName, active, archived, hall, hpages⟩ := Service.alone_queryTasks h
  rw [hall]
  have hw := paged_iff (active ++ archived) query.limit query.offset page_pair
  have hcount : (page query.limit query.offset [active.length]).head?.getD 0 +
      (page query.limit query.offset [archived.length]).head?.getD 0 =
      if query.limit = some 0 ∨ query.offset.getD 0 ≠ 0 then 0
      else (active ++ archived).length := by
    rw [page_count, page_count, List.length_append]
    split <;> rfl
  rw [← hw, ← hcount]
  constructor
  · intro hp
    exact hp _ _ _ _ _ _ (hpages none none).1 (hpages query.limit query.offset).1
      (hpages query.limit query.offset).2
  · intro hp full listed counted y₁ y₂ y₃ hfull hlisted hcounted
    obtain ⟨⟩ := hfull.symm.trans (hpages none none).1
    obtain ⟨⟩ := hlisted.symm.trans (hpages query.limit query.offset).1
    obtain ⟨⟩ := hcounted.symm.trans (hpages query.limit query.offset).2
    exact hp

theorem attachmentsPaged_iff {query : AttachmentsQueryReq}
    (h : alone i (Service.queryAttachmentsByFilter userId groupName query) x =
      some (.ok resp, y)) :
    AttachmentsPaged i x userId groupName query ↔
      Whole ((x.txns.view i).attachmentInfos groupName (query.key.getD "")).length
        query.limit query.offset := by
  have hpages := Service.alone_queryAttachmentsByFilter h
  have hw := paged_iff ((x.txns.view i).attachmentInfos groupName (query.key.getD ""))
    query.limit query.offset fun _ => rfl
  rw [← hw, ← page_count]
  constructor
  · intro hp
    exact hp _ _ _ _ _ _ (hpages none none).1 (hpages query.limit query.offset).1
      (hpages query.limit query.offset).2
  · intro hp full listed counted y₁ y₂ y₃ hfull hlisted hcounted
    obtain ⟨⟩ := hfull.symm.trans (hpages none none).1
    obtain ⟨⟩ := hlisted.symm.trans (hpages query.limit query.offset).1
    obtain ⟨⟩ := hcounted.symm.trans (hpages query.limit query.offset).2
    exact hp

/-- Pages and counts agree with the full result if and only if the page is whole. -/
theorem paged_iff_whole {i : Nat} {x y : Infra} {userId : UserId} :
    (∀ {query resp},
      alone i (Service.queryTasksByFilter userId query) x = some (.ok resp, y) →
      (TasksPaged i x userId query ↔
        Whole ((x.txns.view i).matchingTasks userId query).length query.limit query.offset)) ∧
    ∀ {groupName query resp},
      alone i (Service.queryAttachmentsByFilter userId groupName query) x = some (.ok resp, y) →
      (AttachmentsPaged i x userId groupName query ↔
        Whole ((x.txns.view i).attachmentInfos groupName (query.key.getD "")).length
          query.limit query.offset) :=
  ⟨tasksPaged_iff, attachmentsPaged_iff⟩

namespace PageDemo

def store : Store :=
  { Demo.store with
    db := { Demo.store.db with
      archivedTasks := Table.empty.set 2 (Db.cancelledTask 0
        ⟨1, 1, 2, 8, [], [], 0, 0, .ready, none, 10, 0, ⟨[], [], [], false, none⟩, none, none,
          none⟩) }
    attachments := (Table.empty.set (1, "a") ⟨.noSet, 1, 0, 0⟩).set (1, "b") ⟨.noSet, 1, 0, 0⟩
    attachmentIds := (Table.empty.set 1 (1, "a")).set 2 (1, "b") }

def infra : Infra := ⟨⟨store, .empty⟩, 3, 0⟩

def query (limit offset : Option Nat) (count : Bool) : TasksQueryReq :=
  ⟨none, none, none, none, none, none, none, none, limit, offset, count⟩

def attachments (limit offset : Option Nat) (count : Bool) : AttachmentsQueryReq :=
  ⟨none, limit, offset, count⟩

end PageDemo

theorem not_whole_two : ¬Whole 2 (some 1) none ∧ ¬Whole 2 none (some 1) := by
  constructor
  · rintro (h | h | ⟨-, h⟩)
    · cases h
    · exact absurd h (by decide)
    · exact absurd (h 1 rfl) (by decide)
  · rintro (h | h | ⟨h, -⟩)
    · cases h
    · exact absurd h (by decide)
    · cases h

theorem answered {r : Option (Except Error α × Infra)} {f : α → β}
    (h : r.map (fun r => r.1.toOption.map f) = some (some b)) : ∃ a y, r = some (.ok a, y) := by
  obtain ⟨⟨e, y⟩, rfl, he⟩ := Option.map_eq_some_iff.1 h
  cases e with
  | error => cases he
  | ok a => exact ⟨a, y, rfl⟩

open PageDemo in
/-- With a limit of one two tasks are listed, and from the second attachment on none is counted. -/
theorem two_tasks_on_page :
    (alone 0 (Service.queryTasksByFilter 1 (query (some 1) none false)) infra).map
        (fun r => r.1.toOption.map fun resp => resp.tasks.length) = some (some 2) ∧
      ¬TasksPaged 0 infra 1 (query (some 1) none false) ∧
      (alone 0 (Service.queryAttachmentsByFilter 1 "u" (attachments none (some 1) true))
        infra).map (fun r => r.1.toOption.map AttachmentsQueryResp.count) = some (some 0) ∧
      ¬AttachmentsPaged 0 infra 1 "u" (attachments none (some 1) true) := by
  have ht : (alone 0 (Service.queryTasksByFilter 1 (query (some 1) none false)) infra).map
      (fun r => r.1.toOption.map fun resp => resp.tasks.length) = some (some 2) := by
    decide +kernel
  have ha : (alone 0 (Service.queryAttachmentsByFilter 1 "u" (attachments none (some 1) true))
      infra).map (fun r => r.1.toOption.map AttachmentsQueryResp.count) = some (some 0) := by
    decide +kernel
  refine ⟨ht, ?_, ha, ?_⟩
  · intro h
    obtain ⟨resp, y, hr⟩ := answered ht
    have hn : ((infra.txns.view 0).matchingTasks 1 (query (some 1) none false)).length = 2 := by
      decide +kernel
    have hw := (tasksPaged_iff hr).1 h
    rw [hn] at hw
    exact not_whole_two.1 hw
  · intro h
    obtain ⟨resp, y, hr⟩ := answered ha
    have hn : ((infra.txns.view 0).attachmentInfos "u" "").length = 2 := by decide +kernel
    have hw := (attachmentsPaged_iff hr).1 h
    change Whole ((infra.txns.view 0).attachmentInfos "u" "").length none (some 1) at hw
    rw [hn] at hw
    exact not_whole_two.2 hw

open PageDemo in
/-- The tasks and the attachments of the group, all on one page. -/
theorem paged_all : TasksPaged 0 infra 1 (query (some 2) none false) ∧
    AttachmentsPaged 0 infra 1 "u" (attachments (some 2) none true) := by
  have ht : (alone 0 (Service.queryTasksByFilter 1 (query (some 2) none false)) infra).map
      (fun r => r.1.toOption.map fun resp => resp.tasks.length) = some (some 2) := by
    decide +kernel
  have ha : (alone 0 (Service.queryAttachmentsByFilter 1 "u" (attachments (some 2) none true))
      infra).map (fun r => r.1.toOption.map AttachmentsQueryResp.count) = some (some 2) := by
    decide +kernel
  obtain ⟨resp, y, hr⟩ := answered ht
  obtain ⟨resp', y', hr'⟩ := answered ha
  constructor
  · refine (paged_iff_whole.1 hr).2 (.inr (.inr ⟨rfl, ?_⟩))
    intro n hn
    obtain rfl := Option.some.inj hn
    decide +kernel
  · refine (paged_iff_whole.2 hr').2 (.inr (.inr ⟨rfl, ?_⟩))
    intro n hn
    obtain rfl := Option.some.inj hn
    decide +kernel

end Storage
end Mitosis
