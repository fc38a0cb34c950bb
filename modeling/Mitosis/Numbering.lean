import Mitosis.Identity
import Mitosis.Proof.Submissions

namespace Mitosis
set_option autoImplicit true

namespace Tasks
open Txns (applyAll)
open Tracked (draws)

def number (g : GroupId) : Event → Option Int
  | ⟨_, _, .addTaskCount _ _, .ok (some (id, group))⟩ =>
    if id = g then some group.taskCount else none
  | _ => none

/-- The session has inserted a task with this number. -/
def used (i : Nat) (g : GroupId) (n : Int) (log : List Event) : Prop :=
  ∃ k task t row, ⟨i, k, .insertTask task, .ok (t, row)⟩ ∈ log ∧
    task.groupId = g ∧ task.taskId = n

/-- The database has refused a task with this number. -/
def refused (i : Nat) (g : GroupId) (n : Int) (log : List Event) : Prop :=
  ∃ k task e, ⟨i, k, .insertTask task, .error e⟩ ∈ log ∧ task.groupId = g ∧ task.taskId = n

/-- What becomes of the number that a session has drawn for a request. -/
inductive Fate (log : List Event) (i : Nat) (req : SubmitTaskReq) (g : GroupId) (n : Int) : Prop
  | used : used i g n log → Fate log i req g n
  | refused : refused i g n log → Fate log i req g n
  | invalid : checkTaskSpec req.taskSpec ≠ .ok () → Fate log i req g n
  | waits : waiting (history i log) = some (req, g, n) → Fate log i req g n

structure Numbered (db : Db) (log : List Event) : Prop where
  dense : ∀ g group, db.groups.find g = some group →
    log.filterMap (number g) = (List.range' 1 group.taskCount.toNat).map Int.ofNat
  grouped : ∀ e ∈ log, ∀ g n, number g e = some n → ∃ group, db.groups.find g = some group
  made : ∀ t o, db.ident t = some o → ∃ i k task row,
    ⟨i, k, .insertTask task, .ok (t, row)⟩ ∈ log ∧ task.ident = o
  own : ∀ i k task t row, ⟨i, k, .insertTask task, .ok (t, row)⟩ ∈ log →
    ∃ e ∈ log, e.session = i ∧ number task.groupId e = some task.taskId
  fates : ∀ i k req time g row, ⟨i, k, .addTaskCount req time, .ok (some (g, row))⟩ ∈ log →
    k.submits = true → Fate log i req g row.taskCount
  uuids : ∀ i k e, ⟨i, k, .newUuid, .error e⟩ ∉ log

theorem groups_applyAll {ws : List Write} (h : ∀ w ∈ ws, ¬creates w) (db : Db) :
    (applyAll ws db).groups = db.groups := by
  induction ws generalizing db with
  | nil => rfl
  | cons w ws ih =>
    rw [List.forall_mem_cons] at h
    change (applyAll ws (w.apply db)).groups = _
    rw [ih h.2]
    cases w with
    | addActive | addCount => exact (h.1 trivial).elim
    | _ => rfl

theorem drawn_number {log : List Event} (h : drawn (history i log) = some (g, n)) :
    ∃ e ∈ log, e.session = i ∧ number g e = some n := by
  have hmem : ∀ K : History, drawn K = some (g, n) →
      ∃ req time row, ⟨.addTaskCount req time, .ok (some (g, row))⟩ ∈ K ∧ row.taskCount = n := by
    intro K hK
    induction K with
    | nil => cases hK
    | cons e K ih =>
      have hrest : drawn K = some (g, n) → ∃ req time row,
          ⟨.addTaskCount req time, .ok (some (g, row))⟩ ∈ e :: K ∧ row.taskCount = n := by
        intro hd
        obtain ⟨req, time, row, hm, hn⟩ := ih hd
        exact ⟨req, time, row, .tail _ hm, hn⟩
      obtain ⟨c, r⟩ := e
      cases c with
      | addTaskCount req time =>
        cases r with
        | error => exact hrest hK
        | ok found =>
          cases found with
          | none => exact hrest hK
          | some e =>
            obtain ⟨g', row⟩ := e
            obtain ⟨⟩ := hK
            exact ⟨req, time, row, .head _, rfl⟩
      | insertTask => cases hK
      | _ => exact hrest hK
  obtain ⟨req, time, row, hm, rfl⟩ := hmem _ h
  obtain ⟨k, hm⟩ := mem_history.1 hm
  exact ⟨_, hm, rfl, if_pos rfl⟩

/-- Outside transactions a statement commits what it writes. -/
theorem landed_alone {c : Cmd} {r : c.Resp} (h : txn K = none)
    (hl : landed K ⟨c, r⟩ = if (txn K).isNone then c.writes r else []) :
    landed K ⟨c, r⟩ = c.writes r := by rw [hl, h, Option.isNone_none, if_pos rfl]

theorem number_none {c : Cmd} (hc : draws c = false) (i : Nat) (k : Call) (r : c.Resp)
    (g : GroupId) : number g ⟨i, k, c, r⟩ = none := by
  cases c with
  | addTaskCount => cases hc
  | _ => rfl

theorem numbers_concat (g : GroupId) (log : List Event) (e : Event) :
    (log ++ [e]).filterMap (number g) = log.filterMap (number g) ++ (number g e).toList := by
  rw [List.filterMap_append]
  cases h : number g e with
  | none => rw [List.filterMap_cons_none h]; rfl
  | some n => rw [List.filterMap_cons_some h]; rfl

theorem used_mono {log : List Event} (h : used i g n log) (e : Event) :
    used i g n (log ++ [e]) := by
  obtain ⟨k, task, t, row, hm, hid⟩ := h
  exact ⟨k, task, t, row, List.mem_append_left _ hm, hid⟩

theorem refused_mono {log : List Event} (h : refused i g n log) (e : Event) :
    refused i g n (log ++ [e]) := by
  obtain ⟨k, task, err, hm, hid⟩ := h
  exact ⟨k, task, err, List.mem_append_left _ hm, hid⟩

theorem exec_newUuid {x x' : Infra} (e : Error) :
    Cmd.newUuid.exec i chance x ≠ some (.error e, x') := by
  unfold Cmd.exec
  intro h
  split at h
  · cases h
  · cases h

namespace Numbered
variable {x x' : Infra} {log : List Event} {i : Nat} {k : Call} {c : Cmd} {r : c.Resp}

/-- The fate of an earlier submission, behind a command of a session. -/
theorem fate_step (h : Numbered db log) (hn : c.sourced (history i log))
    (ht : k.submits = true → c.timely (history i log))
    (hf : Fate log j req g n) (hcall : j = i → k.submits = true) :
    Fate (log ++ [⟨i, k, c, r⟩]) j req g n := by
  cases hf with
  | used hu => exact .used (used_mono hu _)
  | refused hr => exact .refused (refused_mono hr _)
  | invalid hs => exact .invalid hs
  | waits hw =>
    by_cases hj : j = i
    · subst hj
      have hself : waiting (history j (log ++ [⟨j, k, c, r⟩])) =
          waiting (⟨c, r⟩ :: history j log) := by rw [history_concat_self]
      cases hd : draws c with
      | false =>
        apply Fate.waits
        rw [hself, waiting_cons hd]
        exact hw
      | true =>
        cases c with
        | addTaskCount req' time =>
          rcases ht (hcall rfl) req g n hw with hs | ⟨e, he⟩
          · exact .invalid hs
          · obtain ⟨k', hm⟩ := mem_history.1 he
            exact (h.uuids _ _ _ hm).elim
        | insertTask task =>
          have hdr := hn.2.1
          rw [drawn_waiting, hw] at hdr
          obtain ⟨⟩ := hdr
          cases r with
          | error e =>
            exact .refused ⟨k, task, e, List.mem_append_right _ (.head _), rfl, rfl⟩
          | ok a => exact .used ⟨k, task, a.1, a.2, List.mem_append_right _ (.head _), rfl, rfl⟩
        | _ => cases hd
    · apply Fate.waits
      rw [history_concat_ne _ _ _ hj]
      exact hw

theorem next {db db' : Db} (h : Numbered db log) (hx : c.exec i chance x = some (r, x'))
    (hn : c.sourced (history i log)) (ht : k.submits = true → c.timely (history i log))
    (hcall : ∀ e ∈ log, e.session = i → e.call = k)
    (hgroups : ∀ g group', db'.groups.find g = some group' → ∃ group,
      db.groups.find g = some group ∧ (number g ⟨i, k, c, r⟩ = none ∧
        group'.taskCount = group.taskCount ∨ number g ⟨i, k, c, r⟩ = some (group.taskCount + 1) ∧
        group'.taskCount = group.taskCount + 1 ∧ 0 ≤ group.taskCount))
    (hkept : ∀ g group, db.groups.find g = some group → ∃ group', db'.groups.find g = some group')
    (hdrawn : ∀ g n, number g ⟨i, k, c, r⟩ = some n → ∃ group, db.groups.find g = some group)
    (hident : ∀ t o, db'.ident t = some o → db.ident t = some o ∨ ∃ task row,
      (⟨c, r⟩ : Entry Cmd Cmd.Resp) = ⟨.insertTask task, .ok (t, row)⟩ ∧ task.ident = o) :
    Numbered db' (log ++ [⟨i, k, c, r⟩]) := by
  constructor
  · intro g group' hg
    obtain ⟨group, hf, ⟨hnum, hc⟩ | ⟨hnum, hc, hpos⟩⟩ := hgroups g group' hg
    · rw [numbers_concat, h.dense g group hf, hnum, hc]
      exact List.append_nil _
    · have hsucc : (group.taskCount + 1).toNat = group.taskCount.toNat + 1 := by omega
      have hlast : Int.ofNat (1 + group.taskCount.toNat) = group.taskCount + 1 := by
        change ((1 + group.taskCount.toNat : Nat) : Int) = _
        omega
      rw [numbers_concat, h.dense g group hf, hnum, hc, hsucc, List.range'_1_concat,
        List.map_append, List.map_singleton, hlast]
      rfl
  · intro e he g n hnum
    rcases List.mem_append.1 he with he | he
    · obtain ⟨group, hf⟩ := h.grouped e he g n hnum
      exact hkept g group hf
    · obtain rfl := List.mem_singleton.1 he
      obtain ⟨group, hf⟩ := hdrawn g n hnum
      exact hkept g group hf
  · intro t o ho
    rcases hident t o ho with ho | ⟨task, row, he, hid⟩
    · obtain ⟨j, k', task, row, hm, hid⟩ := h.made t o ho
      exact ⟨j, k', task, row, List.mem_append_left _ hm, hid⟩
    · refine ⟨i, k, task, row, List.mem_append_right _ ?_, hid⟩
      rw [he]
      exact .head _
  · intro j k' task t row hm
    rcases List.mem_append.1 hm with hm | hm
    · obtain ⟨e, he, hs⟩ := h.own j k' task t row hm
      exact ⟨e, List.mem_append_left _ he, hs⟩
    · obtain ⟨⟩ := List.mem_singleton.1 hm
      obtain ⟨e, he, hs⟩ := drawn_number hn.2.1
      exact ⟨e, List.mem_append_left _ he, hs⟩
  · intro j k' req time g row hm hs
    rcases List.mem_append.1 hm with hold | hm
    · apply h.fate_step hn ht (h.fates j k' req time g row hold hs)
      rintro rfl
      obtain rfl : k' = k :=
        hcall ⟨_, k', .addTaskCount req time, .ok (some (g, row))⟩ hold rfl
      exact hs
    · obtain ⟨⟩ := List.mem_singleton.1 hm
      apply Fate.waits
      rw [history_concat_self]
      rfl
  · intro j k' e hm
    rcases List.mem_append.1 hm with hm | hm
    · exact h.uuids j k' e hm
    · obtain ⟨⟩ := List.mem_singleton.1 hm
      exact exec_newUuid e hx

theorem counted {x : Infra} {id : GroupId} {group : Group}
    (h : Numbered x.txns.committed log) (htr : Tracked x log)
    (hf : x.txns.committed.groups.find id = some group)
    (hx : (Cmd.addTaskCount req time).exec i chance x = some (.ok (some (id,
      { group with taskCount := group.taskCount + 1, updatedAt := time })), x'))
    (hn : (Cmd.addTaskCount req time).sourced (history i log))
    (ht : k.submits = true → (Cmd.addTaskCount req time).timely (history i log))
    (hcall : ∀ e ∈ log, e.session = i → e.call = k) :
    Numbered ((Write.addCount id time).apply x.txns.committed)
      (log ++ [⟨i, k, .addTaskCount req time, .ok (some (id,
        { group with taskCount := group.taskCount + 1, updatedAt := time }))⟩]) := by
  have hself : ((Write.addCount id time).apply x.txns.committed).groups.find id =
      some { group with taskCount := group.taskCount + 1, updatedAt := time } := by
    change (x.txns.committed.groups.update id _).find id = _
    rw [Table.find_update_self, hf, Option.map_some]
  have hne : ∀ g, g ≠ id → ((Write.addCount id time).apply x.txns.committed).groups.find g =
      x.txns.committed.groups.find g := fun g hg => Table.find_update_ne _ _ hg
  apply h.next hx hn ht hcall
  · intro g group' hg
    by_cases he : g = id
    · subst he
      rw [hself] at hg
      obtain ⟨⟩ := hg
      exact ⟨group, hf, .inr ⟨if_pos rfl, rfl, htr.counts g group hf⟩⟩
    · rw [hne g he] at hg
      exact ⟨group', hg, .inl ⟨if_neg fun h => he h.symm, rfl⟩⟩
  · intro g group' hg
    by_cases he : g = id
    · subst he
      exact ⟨_, hself⟩
    · exact ⟨group', (hne g he).trans hg⟩
  · intro g n hg
    by_cases he : g = id
    · subst he
      exact ⟨group, hf⟩
    · rw [number, if_neg fun h => he h.symm] at hg
      cases hg
  · exact fun t o ho => .inl ho

theorem inserted {x : Infra} (h : Numbered x.txns.committed log)
    (hx : (Cmd.insertTask row).exec i chance x = some (.ok (t, row), x'))
    (hn : (Cmd.insertTask row).sourced (history i log))
    (ht : k.submits = true → (Cmd.insertTask row).timely (history i log))
    (hcall : ∀ e ∈ log, e.session = i → e.call = k) :
    Numbered ((Write.addActive t row).apply x.txns.committed)
      (log ++ [⟨i, k, .insertTask row, .ok (t, row)⟩]) := by
  apply h.next hx hn ht hcall
  · exact fun g group hf => ⟨group, hf, .inl ⟨rfl, rfl⟩⟩
  · exact fun g group hf => ⟨group, hf⟩
  · exact fun g n hg => by cases hg
  · intro t' o ho
    rw [ident_insert] at ho
    split at ho
    next he =>
      subst he
      exact .inr ⟨row, row, rfl, Option.some.inj ho⟩
    next => exact .inl ho

theorem exec (h : Numbered x.txns.committed log) (htr : Tracked x log)
    (hn : c.sourced (history i log)) (ht : k.submits = true → c.timely (history i log))
    (hcall : ∀ e ∈ log, e.session = i → e.call = k) (hx : c.exec i chance x = some (r, x')) :
    Numbered x'.txns.committed (log ++ [⟨i, k, c, r⟩]) := by
  have hd : Does x x' log i k ⟨c, r⟩ := htr.does hn hx
  -- nothing is counted and nothing is inserted
  have hstill : (∀ g, number g ⟨i, k, c, r⟩ = none) →
      x'.txns.committed.groups = x.txns.committed.groups →
      (∀ t, x'.txns.committed.ident t = x.txns.committed.ident t) →
      Numbered x'.txns.committed (log ++ [⟨i, k, c, r⟩]) := by
    intro hnum hg hi
    apply h.next hx hn ht hcall
    · rw [hg]
      exact fun g group hf => ⟨group, hf, .inl ⟨hnum g, rfl⟩⟩
    · rw [hg]
      exact fun g group hf => ⟨group, hf⟩
    · intro g n hg
      cases (hnum g).symm.trans hg
    · exact fun t o ho => .inl ((hi t).symm.trans ho)
  cases hc : draws c with
  | false =>
    apply hstill (number_none hc i k r)
    · rw [hd.committed]
      exact groups_applyAll (Tracked.not_creates hn hc r) _
    · exact (htr.same hn hc hd).2.back
  | true =>
    cases c with
    | addTaskCount req time =>
      have hcom := hd.committed
      rw [landed_alone hn.1 rfl] at hcom
      cases r with
      | error e => exact hstill (fun _ => rfl) (congrArg _ hcom) fun t => congrArg (·.ident t) hcom
      | ok found =>
        cases found with
        | none => exact hstill (fun _ => rfl) (congrArg _ hcom) fun t => congrArg (·.ident t) hcom
        | some e =>
          obtain ⟨id, row⟩ := e
          obtain ⟨group, hf, rfl⟩ := htr.counted_row hn.1 hx
          have hcom' : x'.txns.committed = (Write.addCount id time).apply x.txns.committed := hcom
          rw [hcom']
          exact h.counted htr hf hx hn ht hcall
    | insertTask task =>
      have hcom := hd.committed
      rw [landed_alone hn.1 rfl] at hcom
      cases r with
      | error e => exact hstill (fun _ => rfl) (congrArg _ hcom) fun t => congrArg (·.ident t) hcom
      | ok e =>
        obtain ⟨t, row⟩ := e
        obtain ⟨rfl, rfl, -, -⟩ := htr.inserted_row hn.1 hx
        have hcom' : x'.txns.committed = (Write.addActive x.nextTask row).apply x.txns.committed :=
          hcom
        rw [hcom']
        exact h.inserted hx hn ht hcall
    | _ => cases hc

theorem env {e : Env} (h : Numbered x.txns.committed log) (hx : e.run x = some x') :
    Numbered x'.txns.committed log := by
  have hback : (∀ t, x'.txns.committed.ident t = x.txns.committed.ident t) →
      (∀ g group', x'.txns.committed.groups.find g = some group' →
        (∃ group, x.txns.committed.groups.find g = some group ∧
          group'.taskCount = group.taskCount) ∨
        x.txns.committed.groups.find g = none ∧ group'.taskCount = 0) →
      Numbered x'.txns.committed log := by
    intro hi hg
    constructor
    · intro g group' hf
      rcases hg g group' hf with ⟨group, hf', hc⟩ | ⟨hn, hc⟩
      · rw [hc]
        exact h.dense g group hf'
      · rw [hc]
        apply List.filterMap_eq_nil_iff.2
        intro e he
        cases hnum : number g e with
        | none => rfl
        | some n =>
          obtain ⟨group, hf'⟩ := h.grouped e he g n hnum
          cases hf'.symm.trans hn
    · intro e he g n hnum
      obtain ⟨group, hf⟩ := h.grouped e he g n hnum
      obtain ⟨group', hf', -⟩ := (Tracked.env_kept hx).groups g group hf
      exact ⟨group', hf'⟩
    · exact fun t o ho => h.made t o ((hi t).symm.trans ho)
    · exact h.own
    · exact h.fates
    · exact h.uuids
  cases e with
  | tick | workers =>
    obtain ⟨⟩ := hx
    exact hback (fun _ => rfl) fun g group hf => .inl ⟨group, hf, rfl⟩
  | accounts users groups userGroup =>
    simp only [Env.run] at hx
    split at hx
    next ha =>
      obtain ⟨⟩ := hx
      apply hback fun _ => rfl
      intro g group' hf
      simp only [accountsKept, Bool.and_eq_true, List.all_eq_true, Option.any_eq_true,
        Bool.or_eq_true, decide_eq_true_eq] at ha
      obtain ⟨⟨-, hg⟩, hnew⟩ := ha
      rcases hnew (g, group') (Table.mem_rows.2 hf) with hold | hzero
      · obtain ⟨group, hf'⟩ := Option.isSome_iff_exists.1 hold
        obtain ⟨group'', hf'', -, he⟩ := hg (g, group) (Table.mem_rows.2 hf')
        obtain rfl := Option.some.inj (hf.symm.trans hf'')
        exact .inl ⟨group, hf', he⟩
      · cases hf' : x.txns.committed.groups.find g with
        | none => exact .inr ⟨rfl, hzero⟩
        | some group =>
          obtain ⟨group'', hf'', -, he⟩ := hg (g, group) (Table.mem_rows.2 hf')
          obtain rfl := Option.some.inj (hf.symm.trans hf'')
          exact .inl ⟨group, rfl, he⟩
    next => cases hx
  | touchActive id =>
    simp only [Env.run] at hx
    split at hx
    next =>
      obtain ⟨⟩ := hx
      apply hback (same_plain (w := .change id .touch x.clock) trivial _).back
      exact fun g group hf => .inl ⟨group, hf, rfl⟩
    next => cases hx
  | touchArchived id =>
    simp only [Env.run] at hx
    split at hx
    next =>
      obtain ⟨⟩ := hx
      apply hback (same_plain (w := .changeArchived id .touch x.clock) trivial _).back
      exact fun g group hf => .inl ⟨group, hf, rfl⟩
    next => cases hx

theorem initial (db : Db) (clock : Instant) :
    Numbered (initial db clock).shared.txns.committed [] := by
  constructor
  · intro g group hf
    change (db.groups.mapRows _).find g = some group at hf
    rw [Table.find_mapRows] at hf
    obtain ⟨group', -, rfl⟩ := Option.map_eq_some_iff.1 hf
    rfl
  · exact fun e he => by cases he
  · exact fun t o ho => by cases (show (none : Option Ident) = some o from ho)
  · exact fun _ _ _ _ _ hm => by cases hm
  · exact fun _ _ _ _ _ _ hm => by cases hm
  · exact fun _ _ _ hm => by cases hm

end Numbered

theorem numbered_run {ok : State → Act Call Chance Env → Prop}
    (hp : Path (Sessions.step system) ok (initial db clock) as s) :
    Numbered s.shared.txns.committed s.log := by
  induction hp with
  | nil => exact Numbered.initial db clock
  | snoc hp _ hs ih =>
    cases Sessions.step_cases hs with
    | call => exact ih
    | env hx => exact ih.env hx
    | step hi hx =>
      apply ih.exec (tracked hp) ((traced hp).knows _ _ hi).1 _ _ hx
      · exact fun hs => timely_of_submits hs ((timed hp).knows _ _ hi).1
      · intro e he hes
        obtain ⟨t, ht, hc⟩ := (traced hp).calls e he
        rw [hes, hi] at ht
        obtain rfl := Option.some.inj ht
        exact hc.symm

def named (db : Db) (g : GroupId) (n : Int) : Prop :=
  ∃ t o, db.ident t = some o ∧ o.groupId = g ∧ o.taskId = n

section
variable {ok : State → Act Call Chance Env → Prop} {s : State}

theorem named_of_used (hp : Path (Sessions.step system) ok (initial db clock) as s)
    (hu : used i g n s.log) : named s.shared.txns.committed g n := by
  obtain ⟨k, task, t, row, hm, rfl, rfl⟩ := hu
  exact ⟨t, task.ident, (tracked hp).shown _ hm t task.ident rfl, rfl, rfl⟩

/-- In every run the numbers that a group gives out are one, two, and so on up to its task count,
each once and in this order, and a number that a submission got is the number of a task, unless the
task was invalid, the database refused it, or the submission has not returned. -/
theorem task_numbers (db : Db) (clock : Instant) (as : List (Act Call Chance Env)) (s : State)
    (hp : Path (Sessions.step system) (fun _ _ => True) (initial db clock) as s) (g : GroupId)
    (group : Group) (hg : s.shared.txns.committed.groups.find g = some group) :
    s.log.filterMap (number g) = (List.range' 1 group.taskCount.toNat).map Int.ofNat ∧
    ∀ i k req time row, ⟨i, k, .addTaskCount req time, .ok (some (g, row))⟩ ∈ s.log →
      k.submits = true → named s.shared.txns.committed g row.taskCount ∨
        ¬named s.shared.txns.committed g row.taskCount ∧ (checkTaskSpec req.taskSpec ≠ .ok () ∨
          refused i g row.taskCount s.log ∨ s.result i = none) := by
  have h := numbered_run hp
  refine ⟨h.dense g group hg, ?_⟩
  intro i k req time row hm hs
  by_cases hn : named s.shared.txns.committed g row.taskCount
  · exact .inl hn
  refine .inr ⟨hn, ?_⟩
  cases h.fates i k req time g row hm hs with
  | used hu => exact (hn (named_of_used hp hu)).elim
  | refused hr => exact .inr (.inl hr)
  | invalid hv => exact .inl hv
  | waits hw =>
    cases hr : s.result i with
    | none => exact .inr (.inr rfl)
    | some r =>
      -- a submission that has returned has dropped its number
      obtain ⟨t, ht, hq⟩ := (timed hp).result hr
      obtain ⟨t', ht', hc⟩ := (timed hp).calls _ hm
      obtain rfl := Option.some.inj (ht.symm.trans ht')
      have hs' : t.call.submits = true := by rw [hc]; exact hs
      rcases quiet_of_submits hs' hq req g row.taskCount hw with hv | ⟨e, he⟩
      · exact .inl hv
      · obtain ⟨k', hm'⟩ := mem_history.1 he
        exact (h.uuids _ _ _ hm').elim

end

namespace NumberingDemo

def outside : SubmitTaskReq :=
  { Demo.req with
    taskSpec := { Demo.spec with resources := [⟨.artifact 0 .result, "/etc/passwd"⟩] } }

def batch : List (Act Call Chance Env) :=
  .call (.userBatchSubmitTasks 1 [Demo.req, outside, Demo.req]) :: Demo.steps 0 15

def counts (found : Option Group) : Bool := found.any fun group => group.taskCount = 3

theorem of_counts (h : counts found = true) :
    ∃ group, found = some group ∧ group.taskCount = 3 := by
  cases found with
  | none => cases h
  | some group => exact ⟨group, rfl, of_decide_eq_true h⟩

def second (e : Event) : Bool :=
  match e with
  | ⟨0, .userBatchSubmitTasks _ _, .addTaskCount req _, .ok (some (1, row))⟩ =>
    req.taskSpec = outside.taskSpec ∧ row.taskCount = 2
  | _ => false

theorem of_second (h : second e = true) : ∃ userId reqs req time row,
    req.taskSpec = outside.taskSpec ∧ row.taskCount = 2 ∧ e =
      ⟨0, .userBatchSubmitTasks userId reqs, .addTaskCount req time, .ok (some (1, row))⟩ := by
  unfold second at h
  split at h
  next userId reqs req time row =>
    obtain ⟨hs, hc⟩ := of_decide_eq_true h
    exact ⟨userId, reqs, req, time, row, hs, hc, rfl⟩
  next => cases h

end NumberingDemo

open NumberingDemo in
/-- The invalid task takes the second number with it. -/
theorem second_missing : ∃ s, Path (Sessions.step system) (fun _ _ => True)
    (initial Demo.db 0) batch s ∧ s.log.filterMap (number 1) = [1, 2, 3] ∧
    (named s.shared.txns.committed 1 2 ∨ ¬named s.shared.txns.committed 1 2 ∧
      (checkTaskSpec outside.taskSpec ≠ .ok () ∨ refused 0 1 2 s.log ∨ s.result 0 = none)) := by
  have hrun : (Path.follow (Sessions.step system) (fun _ _ => true) (initial Demo.db 0) batch).any
      (fun s => counts (s.shared.txns.committed.groups.find 1) && s.log.any second) = true := by
    decide +kernel
  obtain ⟨s, hp, hs⟩ := Path.of_follow_any hrun
  have hp' : Path (Sessions.step system) (fun _ _ => True) (initial Demo.db 0) batch s :=
    hp.mono fun _ _ _ => trivial
  rw [Bool.and_eq_true, List.any_eq_true] at hs
  obtain ⟨hc, e, he, h2⟩ := hs
  obtain ⟨group, hg, hcount⟩ := of_counts hc
  obtain ⟨userId, reqs, req, time, row, hspec, hrow, rfl⟩ := of_second h2
  obtain ⟨hdense, hfate⟩ := task_numbers Demo.db 0 batch s hp' 1 group hg
  rw [hcount] at hdense
  have hsecond := hfate _ _ _ _ _ he rfl
  rw [hspec, hrow] at hsecond
  exact ⟨s, hp', hdense, hsecond⟩

end Tasks
end Mitosis
