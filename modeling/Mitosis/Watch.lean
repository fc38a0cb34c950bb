import Mitosis.Proof.Stages

namespace Mitosis
set_option autoImplicit true

namespace Announcer

/-- The sequences of `n` stages in which every stage may follow those before it. -/
def sequences : Nat → List (List TaskExecState)
  | 0 => [[]]
  | n + 1 => (sequences n).flatMap fun l => (after l).map (· :: l)

theorem mem_sequences {l : List TaskExecState} (h : Staged l) : l ∈ sequences l.length := by
  induction l with
  | nil => exact .head _
  | cons s l ih =>
    apply List.mem_flatMap.2
    exact ⟨l, ih h.2, List.mem_map.2 ⟨s, h.1, rfl⟩⟩

theorem sequences_eq_nil (n : Nat) : sequences (n + 11) = [] := by
  induction n with
  | zero => decide +kernel
  | succ n ih =>
    rw [Nat.succ_add, sequences, ih]
    rfl

theorem Staged.length_lt {l : List TaskExecState} (h : Staged l) : l.length < 11 := by
  apply Nat.lt_of_not_le
  intro hl
  obtain ⟨n, hn⟩ := Nat.exists_eq_add_of_le hl
  have hm := mem_sequences h
  rw [hn, Nat.add_comm, sequences_eq_nil] at hm
  cases hm

theorem Staged.forall {P : List TaskExecState → Prop} {l : List TaskExecState} (h : Staged l)
    (hP : ∀ n < 11, ∀ l ∈ sequences n, P l) : P l :=
  hP _ h.length_lt l (mem_sequences h)

/-- Later stages have greater numbers, unless the worker exits. -/
def Increasing (l : List TaskExecState) : Prop :=
  l.Pairwise fun later earlier => earlier.code < later.code ∨ later = .workerExited

instance (l : List TaskExecState) : Decidable (Increasing l) :=
  inferInstanceAs (Decidable (List.Pairwise _ l))

theorem Staged.increasing {l : List TaskExecState} (h : Staged l) : Increasing l ∧ l.Nodup :=
  h.forall (P := fun l => Increasing l ∧ l.Nodup) (by decide +kernel)

def givenUp : List TaskExecState :=
  [.fetchResourceTimeout, .fetchResourceNotFound, .fetchResourceForbidden, .watchTimeout]

/-- What has been announced where the announcement of one stage reaches another. -/
def Behind (l : List TaskExecState) (s target : TaskExecState) : Prop :=
  target ∈ l ∨ target = .fetchResourceFinished ∧ (.watch ∈ l ∨ .execPending ∈ l) ∨
    target ∈ [.watch, .watchFinished] ∧ .execPending ∈ l ∨
    s = .taskCommitted ∧ .execPending ∉ l ∧ ∃ g ∈ givenUp, g ∈ l

instance (l : List TaskExecState) (s target : TaskExecState) : Decidable (Behind l s target) :=
  inferInstanceAs (Decidable (_ ∨ _))

theorem Staged.behind {l : List TaskExecState} (h : Staged l) (hs : s ∈ l)
    (hr : s.isReach target = true) : Behind l s target := by
  have hall := h.forall (P := fun l => ∀ s ∈ l, ∀ target ∈ TaskExecState.stages,
    s.isReach target = true → Behind l s target) (by decide +kernel)
  exact hall s hs target (TaskExecState.mem_stages target) hr

/-- The executor has come to the stage. Two stages are never announced: the resources are there,
and what is watched has been seen. -/
def Passed (job : Job) (K : History) : TaskExecState → Prop
  | .fetchResourceFinished => Fetched job.task K
  | .watch => Fetched job.task K ∧ ((job.link.redis && job.link.pubsub) = true →
      job.task.spec.watch.isSome = true → .watch ∈ announced K)
  | .watchFinished => Fetched job.task K ∧ Watched job K
  | s => s ∈ announced K

/-- The task has been committed, and its command has not been run. -/
def GaveUp (K : History) : Prop :=
  .taskCommitted ∈ announced K ∧ .execPending ∉ announced K ∧ ∃ g ∈ givenUp, g ∈ announced K

structure Sound (job : Job) (K : History) : Prop where
  staged : Staged (announced K)
  watch : .watch ∈ announced K → Fetched job.task K
  pending : .execPending ∈ announced K → Fetched job.task K ∧ Watched job K
  spawned : ∀ command r, ⟨.work (.spawn command), r⟩ ∈ K → Fetched job.task K ∧ Watched job K

theorem Sound.nil (job : Job) : Sound job [] := ⟨trivial, nofun, nofun, nofun⟩

theorem Sound.cons {c : Cmd} (h : Sound job K) (hc : c.staged job K) (r : c.Resp) :
    Sound job (⟨c, r⟩ :: K) := by
  have hK : K ⊆ ⟨c, r⟩ :: K := List.subset_cons_self _ _
  have hboth (h : Fetched job.task K ∧ Watched job K) :
      Fetched job.task (⟨c, r⟩ :: K) ∧ Watched job (⟨c, r⟩ :: K) := ⟨h.1.mono hK, h.2.mono hK⟩
  have hspawned : ∀ command r', ⟨.work (.spawn command), r'⟩ ∈ (⟨c, r⟩ : Entry Cmd Cmd.Resp) :: K →
      Fetched job.task (⟨c, r⟩ :: K) ∧ Watched job (⟨c, r⟩ :: K) := by
    intro command r' hm
    rcases List.mem_cons.1 hm with he | hm
    · obtain ⟨⟩ := he
      exact hboth hc
    · exact hboth (h.spawned command r' hm)
  cases c with
  | set uuid state ex =>
    obtain ⟨-, s, rfl, hs, hg⟩ := hc
    have hn : announced (⟨.set uuid s.code ex, r⟩ :: K) = s :: announced K := by
      rw [announced, TaskExecState.ofCode_code]
    refine ⟨?_, ?_, ?_, hspawned⟩
    · rw [hn]
      exact ⟨hs, h.staged⟩
    · rw [hn, List.mem_cons]
      rintro (rfl | hm)
      · exact Fetched.mono hg hK
      · exact (h.watch hm).mono hK
    · rw [hn, List.mem_cons]
      rintro (rfl | hm)
      · exact hboth hg
      · exact hboth (h.pending hm)
  | _ => exact ⟨h.staged, fun hm => (h.watch hm).mono hK, fun hm => hboth (h.pending hm), hspawned⟩

theorem Sound.passed (h : Sound job K) (hs : s ∈ announced K) (hr : s.isReach target = true) :
    Passed job K target ∨ GaveUp K := by
  rcases h.staged.behind hs hr with ht | ⟨rfl, hw | hp⟩ | ⟨ht, hp⟩ | ⟨rfl, hn, g, hg, hm⟩
  · cases target with
    | fetchResourceFinished =>
      have hno : .fetchResourceFinished ∉ announced K := h.staged.forall
        (P := fun l => .fetchResourceFinished ∉ l) (by decide +kernel)
      exact (hno ht).elim
    | watch => exact .inl ⟨h.watch ht, fun _ _ => ht⟩
    | watchFinished =>
      have hno : .watchFinished ∉ announced K := h.staged.forall
        (P := fun l => .watchFinished ∉ l) (by decide +kernel)
      exact (hno ht).elim
    | _ => exact .inl ht
  · exact .inl (h.watch hw)
  · exact .inl (h.pending hp).1
  · obtain ⟨hf, hw⟩ := h.pending hp
    simp only [List.mem_cons, List.not_mem_nil, or_false] at ht
    rcases ht with rfl | rfl
    · refine .inl ⟨hf, fun hl hsome => ?_⟩
      obtain ⟨⟨uuid, state⟩, he⟩ := Option.isSome_iff_exists.1 hsome
      exact (hw hl uuid state he).1
    · exact .inl ⟨hf, hw⟩
  · exact .inr ⟨hs, hn, g, hg, hm⟩

/-- The answer shows a number under the key of the task, or published in its channel. -/
inductive Shows : Entry Cmd Cmd.Resp → Uuid → Int → Prop
  | message : Shows ⟨.event conn, .ok (.ready (.message uuid (some v)))⟩ uuid v
  | key : Shows ⟨.get uuid, .ok (.ready (some v))⟩ uuid v

def Said (log : List (Sent Cmd Cmd.Resp Job)) (uuid : Uuid) (v : Int) : Prop :=
  ∃ e ∈ log, e.call.task.uuid = uuid ∧ ∃ s ∈ announced (Sessions.history e.session log), v = s.code

structure Consistent (s : Redis) (log : List (Sent Cmd Cmd.Resp Job)) : Prop where
  sound : ∀ i k, (∀ e ∈ log, e.session = i → e.call = k) → Sound k (Sessions.history i log)
  keys : ∀ uuid v b, s.keys.find uuid = some (v, b) → Said log uuid v
  inbox : ∀ m ∈ s.inbox, Said log m.2.1 m.2.2
  shown : ∀ e ∈ log, ∀ uuid v, Shows e.entry uuid v → Said log uuid v

theorem history_subset (e : Sent Cmd Cmd.Resp Job) (log : List (Sent Cmd Cmd.Resp Job)) (i : Nat) :
    Sessions.history i log ⊆ Sessions.history i (log ++ [e]) := by
  intro x hx
  obtain ⟨k, hm⟩ := Sessions.mem_history.1 hx
  exact Sessions.mem_history.2 ⟨k, List.mem_append_left _ hm⟩

theorem Said.append (h : Said log uuid v) (e : Sent Cmd Cmd.Resp Job) :
    Said (log ++ [e]) uuid v := by
  obtain ⟨e', hm, hu, s, hs, hv⟩ := h
  exact ⟨e', List.mem_append_left _ hm, hu, s, announced_mono (history_subset e log _) hs, hv⟩

theorem exec_cases {c : Cmd} {r : c.Resp} {s s' : Redis} (h : c.exec chance s = some (r, s')) :
    (∀ uuid v b, s'.keys.find uuid = some (v, b) →
      s.keys.find uuid = some (v, b) ∨ ∃ ex, c = .set uuid v ex) ∧
    (∀ m ∈ s'.inbox, m ∈ s.inbox ∨ c = .publish m.2.1 m.2.2) ∧
    ∀ uuid v, Shows ⟨c, r⟩ uuid v → (∃ b, s.keys.find uuid = some (v, b)) ∨
      ∃ m ∈ s.inbox, m.2.1 = uuid ∧ m.2.2 = v := by
  have hsame : (∀ uuid v b, s.keys.find uuid = some (v, b) →
      s.keys.find uuid = some (v, b) ∨ ∃ ex, c = .set uuid v ex) ∧
      ∀ m ∈ s.inbox, m ∈ s.inbox ∨ c = .publish m.2.1 m.2.2 :=
    ⟨fun _ _ _ => .inl, fun _ => .inl⟩
  cases c with
  | set uuid state ex =>
    simp only [Cmd.exec] at h
    split at h
    next =>
      obtain ⟨⟩ := h
      exact ⟨hsame.1, hsame.2, fun _ _ hsh => by cases hsh⟩
    next =>
      obtain ⟨⟩ := h
      refine ⟨fun uuid' v b hf => ?_, hsame.2, fun _ _ hsh => by cases hsh⟩
      rw [Table.find_set] at hf
      split at hf
      next he =>
        obtain ⟨⟩ := hf
        exact .inr ⟨ex, he ▸ rfl⟩
      next => exact .inl hf
  | publish uuid state =>
    simp only [Cmd.exec] at h
    split at h
    next =>
      obtain ⟨⟩ := h
      exact ⟨hsame.1, hsame.2, fun _ _ hsh => by cases hsh⟩
    next =>
      obtain ⟨⟩ := h
      refine ⟨hsame.1, fun m hm => ?_, fun _ _ hsh => by cases hsh⟩
      rcases List.mem_append.1 hm with hm | hm
      · exact .inl hm
      · obtain ⟨e, -, rfl⟩ := List.mem_map.1 hm
        exact .inr rfl
  | subscribe conn uuid | unsubscribe conn uuid =>
    simp only [Cmd.exec] at h
    split at h
    next =>
      obtain ⟨⟩ := h
      exact ⟨hsame.1, hsame.2, fun _ _ hsh => by cases hsh⟩
    next =>
      obtain ⟨⟩ := h
      exact ⟨hsame.1, hsame.2, fun _ _ hsh => by cases hsh⟩
  | event conn =>
    simp only [Cmd.exec] at h
    split at h
    next =>
      obtain ⟨m, hm, he⟩ := Option.map_eq_some_iff.1 h
      obtain ⟨⟩ := he
      refine ⟨hsame.1, fun m' hm' => .inl (List.mem_of_mem_erase hm'), fun uuid v hsh => ?_⟩
      cases hsh
      exact .inr ⟨m, List.mem_of_find?_eq_some hm, rfl, rfl⟩
    next hne =>
      obtain ⟨⟩ := h
      refine ⟨hsame.1, hsame.2, fun uuid v hsh => ?_⟩
      generalize chance (.event conn) = r at hne hsh
      cases hsh
      exact (hne _ _ rfl).elim
  | get uuid =>
    simp only [Cmd.exec] at h
    split at h
    next =>
      obtain ⟨⟩ := h
      refine ⟨hsame.1, hsame.2, fun uuid' v hsh => ?_⟩
      generalize hf : s.keys.find uuid = found at hsh
      cases found with
      | none => cases hsh
      | some e =>
        cases hsh
        exact .inl ⟨e.2, hf⟩
    next hne =>
      obtain ⟨⟩ := h
      refine ⟨hsame.1, hsame.2, fun uuid' v hsh => ?_⟩
      generalize chance (.get uuid) = r at hne hsh
      cases hsh
      exact (hne _ rfl).elim
  | _ =>
    obtain ⟨⟩ := h
    exact ⟨hsame.1, hsame.2, fun _ _ hsh => by cases hsh⟩

theorem Consistent.step {c : Cmd} {r : c.Resp} {s s' : Redis} (h : Consistent s log)
    (hc : c.staged k (Sessions.history i log)) (hx : c.exec chance s = some (r, s'))
    (hk : ∀ e ∈ log, e.session = i → e.call = k) :
    Consistent s' (log ++ [⟨i, k, c, r⟩]) := by
  obtain ⟨hkeys, hinbox, hshown⟩ := exec_cases hx
  have hself : Sessions.history i (log ++ [⟨i, k, c, r⟩]) = ⟨c, r⟩ :: Sessions.history i log :=
    Sessions.history_concat_self _ _ _ _
  have hlast : (⟨i, k, c, r⟩ : Sent Cmd Cmd.Resp Job) ∈ log ++ [⟨i, k, c, r⟩] :=
    List.mem_append_right _ (.head _)
  constructor
  · intro j k' hall
    by_cases hj : j = i
    · subst hj
      obtain rfl : k = k' := hall _ hlast rfl
      rw [hself]
      exact (h.sound j k hk).cons hc r
    · rw [Sessions.history_concat_ne _ _ _ hj]
      exact h.sound j k' fun e he => hall e (List.mem_append_left _ he)
  · intro uuid v b hf
    rcases hkeys uuid v b hf with hf | ⟨ex, rfl⟩
    · exact (h.keys uuid v b hf).append _
    · obtain ⟨hu, s, hv, -, -⟩ := hc
      refine ⟨_, hlast, hu.symm, s, ?_, hv⟩
      rw [hself, announced, hv, TaskExecState.ofCode_code]
      exact .head _
  · intro m hm
    rcases hinbox m hm with hm | rfl
    · exact (h.inbox m hm).append _
    · obtain ⟨hu, s, l, hv, hl⟩ := hc
      refine ⟨_, hlast, hu.symm, s, ?_, hv⟩
      rw [hself]
      apply announced_mono (List.subset_cons_self _ _)
      rw [hl]
      exact .head _
  · intro e he uuid v hsh
    rcases List.mem_append.1 he with he | he
    · exact (h.shown e he uuid v hsh).append _
    · obtain rfl := List.mem_singleton.1 he
      rcases hshown uuid v hsh with ⟨b, hf⟩ | ⟨m, hm, rfl, rfl⟩
      · exact (h.keys uuid v b hf).append _
      · exact (h.inbox m hm).append _

theorem Consistent.env {s s' : Redis} (h : Consistent s log) (hs : Env.run s e = some s') :
    Consistent s' log := by
  cases e with
  | expire uuid =>
    simp only [Env.run] at hs
    split at hs
    next =>
      obtain ⟨⟩ := hs
      refine ⟨h.sound, fun uuid' v b hf => ?_, h.inbox, h.shown⟩
      rw [Table.find_erase] at hf
      split at hf
      next => cases hf
      next => exact h.keys uuid' v b hf
    next => cases hs
  | lose conn =>
    obtain ⟨⟩ := hs
    exact ⟨h.sound, h.keys, fun m hm => h.inbox m (List.mem_of_mem_filter hm), h.shown⟩

def Told (uuid : Uuid) (target : TaskExecState) (K : History) : Prop :=
  ∃ info, ⟨.queryTask uuid, .ok (.ready (some info))⟩ ∈ K ∧ info.1.isReach target info.2 = true

section
variable {unparsed : Error → Bool} {s : State} {as : List (Act Job ((c : Cmd) → c.Resp) Env)}

theorem program_staged (job : Job) :
    ((system unparsed).program job).Knows (Cmd.staged job) (fun _ r => r ≠ .again) [] := by
  apply (Fallible.knows_once _ _).2
  apply (Service.executeTask_staged job).mono
  intro K r _ hr
  cases hr

theorem traced_of_run
    (hp : Path (Sessions.step (system unparsed)) (fun _ _ => True) initial as s) :
    s.Traced Cmd.staged (fun _ _ r => r ≠ .again) :=
  Sessions.traced_of_path program_staged (fun _ _ h => (h rfl).elim) hp rfl rfl

theorem consistent_of_run
    (hp : Path (Sessions.step (system unparsed)) (fun _ _ => True) initial as s) :
    Consistent s.shared s.log := by
  apply Sessions.log_invariant program_staged (fun _ _ h => (h rfl).elim) hp rfl rfl
  · constructor
    · exact fun _ k _ => Sound.nil k
    · intro uuid v b hf
      cases hf
    · intro m hm
      cases hm
    · intro e he
      cases he
  · exact fun e x x' log h hx => h.env hx
  · intro s i k fault c p r x ht _ hi hc hx h
    apply h.step hc hx
    rintro e he rfl
    obtain ⟨t, ht, hcall⟩ := ht.calls e he
    obtain rfl := Option.some.inj (hi.symm.trans ht)
    exact hcall.symm

theorem sound_of_run
    (hp : Path (Sessions.step (system unparsed)) (fun _ _ => True) initial as s)
    (he : e ∈ s.log) : Sound e.call (Sessions.history e.session s.log) := by
  apply (consistent_of_run hp).sound
  intro e' he' hs
  obtain ⟨t, ht, hcall⟩ := (traced_of_run hp).calls e he
  obtain ⟨t', ht', hcall'⟩ := (traced_of_run hp).calls e' he'
  rw [hs] at ht'
  obtain rfl := Option.some.inj (ht.symm.trans ht')
  exact hcall'.symm.trans hcall

/-- Every executor announces stages with increasing numbers, each of them once, until the worker
exits. -/
theorem stages_increase
    (hp : Path (Sessions.step (system unparsed)) (fun _ _ => True) initial as s)
    (he : e ∈ s.log) : Increasing (announced (Sessions.history e.session s.log)) ∧
      (announced (Sessions.history e.session s.log)).Nodup :=
  (sound_of_run hp he).staged.increasing

/-- The command of a task that watches another is spawned only if an execution of the other task
has passed the stage, or has given up and been committed, or if the coordinator has said so. -/
theorem spawned_after_stage
    (hp : Path (Sessions.step (system unparsed)) (fun _ _ => True) initial as s)
    (he : e ∈ s.log) (hl : (e.call.link.redis && e.call.link.pubsub) = true)
    (hw : e.call.task.spec.watch = some (uuid, target))
    (hs : ⟨.work (.spawn command), r⟩ ∈ Sessions.history e.session s.log) :
    Told uuid target (Sessions.history e.session s.log) ∨ ∃ e' ∈ s.log, e'.call.task.uuid = uuid ∧
      (Passed e'.call (Sessions.history e'.session s.log) target ∨
        GaveUp (Sessions.history e'.session s.log)) := by
  have hcon := consistent_of_run hp
  obtain ⟨-, hseen⟩ := ((sound_of_run hp he).spawned command r hs).2 hl uuid target hw
  -- a number that redis has shown was announced by an executor of the other task
  have hshown : ∀ x ∈ Sessions.history e.session s.log, ∀ v, Shows x uuid v →
      (TaskExecState.ofCode v).isReach target = true → ∃ e' ∈ s.log, e'.call.task.uuid = uuid ∧
        (Passed e'.call (Sessions.history e'.session s.log) target ∨
          GaveUp (Sessions.history e'.session s.log)) := by
    intro x hx v hsh hr
    obtain ⟨k, hm⟩ := Sessions.mem_history.1 hx
    obtain ⟨e', he', hu, st, hst, rfl⟩ := hcon.shown _ hm uuid v hsh
    rw [TaskExecState.ofCode_code] at hr
    exact ⟨e', he', hu, (sound_of_run hp he').passed hst hr⟩
  cases hseen with
  | message hm hr =>
    obtain ⟨v, rfl, hr⟩ := (Option.any_eq_true _ _).1 hr
    exact .inr (hshown _ hm v .message hr)
  | key hm hr =>
    obtain ⟨v, rfl, hr⟩ := (Option.any_eq_true _ _).1 hr
    exact .inr (hshown _ hm v .key hr)
  | row hm hr => exact .inl ⟨_, hm, hr⟩

end

namespace WatchDemo

def work : (c : Executor.Cmd) → c.Resp
  | .isCancelled => .ok false
  | .cancel => .ok ()
  | .poll => .ok false
  | .fetchTask => .ok .noTask
  | .resourceInfo _ _ => .ok .notFound
  | .download _ => .ok .done
  | .report _ _ => .ok .accepted
  | .watch _ _ => .ok .reached
  | .removeNewTask => .ok ()
  | .spawn _ => .ok ()
  | .run => .ok (.finish 0)
  | .upload _ _ => .ok .refused
  | .joinArchive => .ok ()
  | .readNewTask => .ok .absent
  | .removeCache => .ok ()
  | .createCache => .ok ()
  | .createResult => .ok ()
  | .createExec => .ok ()

/-- Everything succeeds, no resource is found, and a watcher looks at the keys. -/
def chance : (c : Cmd) → c.Resp
  | .work c => work c
  | .set _ _ _ => .ok ()
  | .publish _ _ => .ok ()
  | .subscribe _ _ => .ok ()
  | .unsubscribe _ _ => .ok ()
  | .event _ => .ok (.ready .timer)
  | .get _ => .ok (.ready none)
  | .queryTask _ => .ok (.ready none)
  | .interrupted => .ok .timeout
  | .waitChild => .ok (.exited 0)
  | .killChild => .ok ()
  | .drainChild => .ok .exited
  | .waitOutput => .ok 0

def watched (resources : List RemoteResourceDownload) : Job :=
  ⟨⟨0, true, true, 1⟩, ⟨1, 7, 10, none, ⟨["true"], [], resources, false, none⟩⟩⟩

/-- A task that waits until the other has been spawned. -/
def watcher : Job :=
  ⟨⟨1, true, true, 1⟩, ⟨2, 8, 10, none, ⟨["true"], [], [], false, some (7, .execSpawned)⟩⟩⟩

/-- The first task makes `n` steps, then the second twelve. -/
def run (resources : List RemoteResourceDownload) (n : Nat) :
    List (Act Job ((c : Cmd) → c.Resp) Env) :=
  .call (watched resources) :: .call watcher ::
    (List.replicate n (.step 0 chance) ++ List.replicate 12 (.step 1 chance))

/-- The command of a task that waits for the first one is spawned. -/
def spawns (e : Sent Cmd Cmd.Resp Job) : Bool :=
  (e.call.link.redis && e.call.link.pubsub) && e.call.task.spec.watch = some (7, .execSpawned) &&
    match e.entry.1 with
    | .work (.spawn _) => true
    | _ => false

theorem of_spawns {log : List (Sent Cmd Cmd.Resp Job)} (h : log.any spawns = true) :
    ∃ e ∈ log, (e.call.link.redis && e.call.link.pubsub) = true ∧
      e.call.task.spec.watch = some (7, .execSpawned) ∧
      ∃ command r, ⟨.work (.spawn command), r⟩ ∈ Sessions.history e.session log := by
  obtain ⟨⟨i, k, c, r⟩, hm, hs⟩ := List.any_eq_true.1 h
  simp only [spawns, Bool.and_eq_true, decide_eq_true_eq] at hs
  obtain ⟨⟨hl, hw⟩, hc⟩ := hs
  cases c with
  | work c =>
    cases c with
    | spawn command =>
      exact ⟨_, hm, Bool.and_eq_true_iff.2 hl, hw, command, r, Sessions.mem_history.2 ⟨k, hm⟩⟩
    | _ => cases hc
  | _ => cases hc

end WatchDemo

open WatchDemo in
/-- The second task is spawned behind the first. -/
theorem spawned_after_first : ∃ s,
    Path (Sessions.step (system fun _ => false)) (fun _ _ => True) initial (run [] 8) s ∧
    ∃ e ∈ s.log, Told 7 .execSpawned (Sessions.history e.session s.log) ∨
      ∃ e' ∈ s.log, e'.call.task.uuid = 7 ∧
        (Passed e'.call (Sessions.history e'.session s.log) .execSpawned ∨
          GaveUp (Sessions.history e'.session s.log)) := by
  have hrun : (Path.follow (Sessions.step (system fun _ => false)) (fun _ _ => true) initial
      (run [] 8)).any (fun s => s.log.any spawns) = true := by decide +kernel
  obtain ⟨s, hp, hs⟩ := Path.of_follow_any hrun
  have hp' : Path (Sessions.step (system fun _ => false)) (fun _ _ => True) initial (run [] 8) s :=
    hp.mono fun _ _ _ => trivial
  obtain ⟨e, he, hl, hw, command, r, hm⟩ := of_spawns hs
  exact ⟨s, hp', e, he, spawned_after_stage hp' he hl hw hm⟩

open WatchDemo in
/-- The stages of two executors. -/
theorem both_increase : ∃ s,
    Path (Sessions.step (system fun _ => false)) (fun _ _ => True) initial (run [] 8) s ∧
    ∃ e ∈ s.log, Increasing (announced (Sessions.history e.session s.log)) ∧
      (announced (Sessions.history e.session s.log)).Nodup := by
  have hrun : (Path.follow (Sessions.step (system fun _ => false)) (fun _ _ => true) initial
      (run [] 8)).any (fun s => s.log.any spawns) = true := by decide +kernel
  obtain ⟨s, hp, hs⟩ := Path.of_follow_any hrun
  have hp' : Path (Sessions.step (system fun _ => false)) (fun _ _ => True) initial (run [] 8) s :=
    hp.mono fun _ _ _ => trivial
  obtain ⟨e, he, -⟩ := of_spawns hs
  exact ⟨s, hp', e, he, stages_increase hp' he⟩

/-- A task is spawned behind one whose own command never is, its resource being missing. -/
example : (Path.follow (Sessions.step (system fun _ => false)) (fun _ _ => true) initial
    (WatchDemo.run [⟨.attachment "a", "a"⟩] 9)).any (fun s => s.log.any WatchDemo.spawns &&
      !s.log.any fun e => e.session = 0 && match e.entry.1 with
        | .work (.spawn _) => true
        | _ => false) = true := by
  decide +kernel

end Announcer
end Mitosis
