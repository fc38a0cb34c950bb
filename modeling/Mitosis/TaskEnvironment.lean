import Mitosis.TaskExecutor

namespace Mitosis
set_option autoImplicit true

namespace Executor

abbrev History : Type := Fallible.History Cmd Cmd.Ret Error

/-- A download has been started since the last clean-up, or there was none. -/
def opened : History → Bool
  | [] => true
  | ⟨.removeCache, .ok _⟩ :: _ => false
  | ⟨.download _, .ok r⟩ :: K => r.progress ≠ .nothing || opened K
  | _ :: K => opened K

/-- The files that have been downloaded since the last clean-up, wholly or in part. -/
def saved : History → List (List String)
  | [] => []
  | ⟨.removeCache, .ok _⟩ :: _ => []
  | ⟨.download path, .ok r⟩ :: K =>
    if r.progress = .file then components path :: saved K else saved K
  | _ :: K => saved K

/-- Those of them that have been downloaded since the last task was fetched. -/
def savedNow : History → List (List String)
  | [] => []
  | ⟨.removeCache, .ok _⟩ :: _ => []
  | ⟨.fetchTask, .ok (.task _)⟩ :: _ => []
  | ⟨.download path, .ok r⟩ :: K =>
    if r.progress = .file then components path :: savedNow K else savedNow K
  | _ :: K => savedNow K

/-- No earlier task has left a download behind that this one does not repeat, and there is a
resource directory. -/
def provided (K : History) : Bool := opened K && (saved K).all fun path => path ∈ savedNow K

def Worker.provided (s : Worker) (_ : Chance) : Bool :=
  match s.next with
  | some (.spawn _) => Executor.provided s.log
  | _ => true

/-- The directories in the environment of the command exist, the first two of them are empty,
and the third has only files of the present task. -/
def Clean (s : World) (command : Command) : Prop :=
  ∃ d₁ d₂ d₃ files, command.env "MITO_RESULT_DIR" = some (.dir d₁) ∧
    command.env "MITO_EXEC_DIR" = some (.dir d₂) ∧
    command.env "MITO_RESOURCE_DIR" = some (.dir d₃) ∧
    s.cache.dir d₁ = some .empty ∧ s.cache.dir d₂ = some .empty ∧
    s.cache.dir d₃ = some files ∧ ∀ path n, files.find path = some n → n = s.current

def World.resources (s : World) : Files := s.cache.resource.getD .empty

/-- The resource directory is as the downloads have made it. -/
structure Tracked (K : History) (s : World) : Prop where
  opened : s.cache.resource.isSome = opened K
  saved : ∀ path, (∃ n, s.resources.find path = some n) ↔ path ∈ saved K
  now : ∀ path n, s.resources.find path = some n →
    n ≤ s.current ∧ (n = s.current ↔ path ∈ savedNow K)

/-- No command has been run since the last clean-up. -/
structure Fresh (K : History) (s : World) : Prop where
  result : s.cache.result = some .empty
  exec : s.cache.exec = some .empty
  newTask : s.cache.newTask = none
  tracked : Tracked K s

def Idle (K : History) (s : World) : Prop := s.cancelled = true ∨ Fresh K s

def Own (_ : History) (s : World) : Prop := ∀ n ∈ s.cache.origins, n = s.current

def Cmd.allowed (K : History) (s : World) : Cmd → Prop
  | .spawn command => Fresh K s ∧ ∃ task, command = Service.command task
  | .upload _ _ => Own K s
  | _ => True

/-- The commands that leave the cache and the number of the task as they are. -/
def Cmd.quiet : Cmd → Bool
  | .fetchTask | .download _ | .removeNewTask | .run | .removeCache | .createResult
  | .createExec => false
  | _ => true

def Answered (K : History) (s : World) (c : Cmd) (r : c.Resp) (s' : World) : Prop :=
  (∃ chance, c.exec chance s = some (r, s')) ∧ ∀ command, c = .spawn command → provided K = true

theorem interrupted_eq {s s' : World} {r r' : α} (h : s.interrupted r = some (r', s')) :
    s.cancelled = true ∧ r = r' ∧ s = s' := by
  unfold World.interrupted at h
  split at h
  next hc =>
    obtain ⟨⟩ := h
    exact ⟨hc, rfl, rfl⟩
  next => cases h

theorem quiet_done {s s' : World} {c : Cmd} {r : c.Resp} (hq : c.quiet = true)
    (h : s.done chance c = some (r, s')) :
    s'.cache = s.cache ∧ s'.current = s.current := by
  cases c with
  | fetchTask | download | removeNewTask | run | removeCache | createResult | createExec => cases hq
  | isCancelled | cancel | poll | spawn | joinArchive | createCache =>
    obtain ⟨⟩ := h
    exact ⟨rfl, rfl⟩
  | resourceInfo | watch =>
    simp only [World.done] at h
    split at h
    next =>
      obtain ⟨-, -, rfl⟩ := interrupted_eq h
      exact ⟨rfl, rfl⟩
    next =>
      obtain ⟨⟩ := h
      exact ⟨rfl, rfl⟩
  | report =>
    simp only [World.done] at h
    split at h
    next =>
      obtain ⟨⟩ := h
      exact ⟨rfl, rfl⟩
    next =>
      obtain ⟨-, -, rfl⟩ := interrupted_eq h
      exact ⟨rfl, rfl⟩
    next =>
      obtain ⟨⟩ := h
      exact ⟨rfl, rfl⟩
  | upload =>
    simp only [World.done] at h
    split at h
    next =>
      obtain ⟨⟩ := h
      exact ⟨rfl, rfl⟩
    next =>
      split at h
      next => cases h
      next =>
        obtain ⟨⟩ := h
        exact ⟨rfl, rfl⟩
      next =>
        obtain ⟨-, -, rfl⟩ := interrupted_eq h
        exact ⟨rfl, rfl⟩
      next =>
        obtain ⟨⟩ := h
        exact ⟨rfl, rfl⟩
      next =>
        obtain ⟨⟩ := h
        exact ⟨rfl, rfl⟩
  | readNewTask =>
    simp only [World.done] at h
    split at h
    next =>
      obtain ⟨⟩ := h
      exact ⟨rfl, rfl⟩
    next => cases h
    next =>
      obtain ⟨⟩ := h
      exact ⟨rfl, rfl⟩

theorem Answered.quiet {c : Cmd} {r : c.Resp} (hq : c.quiet = true) (h : Answered K s c r s') :
    s'.cache = s.cache ∧ s'.current = s.current := by
  obtain ⟨⟨chance, hx⟩, -⟩ := h
  exact quiet_done (s := { s with cancelled := s.cancelled || chance.cancelled }) hq hx

theorem quiet_history {c : Cmd} (r : c.Resp) (hq : c.quiet = true) (K : History) :
    opened (⟨c, r⟩ :: K) = opened K ∧ saved (⟨c, r⟩ :: K) = saved K ∧
      savedNow (⟨c, r⟩ :: K) = savedNow K := by
  cases c with
  | fetchTask | download | removeNewTask | run | removeCache | createResult | createExec => cases hq
  | _ => exact ⟨rfl, rfl, rfl⟩

theorem tracked_same (h : Tracked K s) (hc : s'.cache.resource = s.cache.resource)
    (hn : s'.current = s.current)
    (hK : opened K' = opened K ∧ saved K' = saved K ∧ savedNow K' = savedNow K) :
    Tracked K' s' := by
  obtain ⟨ho, hs, hw⟩ := hK
  have hr : s'.resources = s.resources := by rw [World.resources, World.resources, hc]
  constructor
  · rw [hc, ho]
    exact h.opened
  · rw [hr, hs]
    exact h.saved
  · rw [hr, hn, hw]
    exact h.now

def Stable (P : History → World → Prop) : Prop :=
  ∀ K s c r s', c.quiet = true → s'.cache = s.cache → s'.current = s.current → P K s →
    P (⟨c, r⟩ :: K) s'

theorem fresh_stable : Stable Fresh := by
  intro K s c r s' hq hc hn h
  constructor
  · rw [hc]
    exact h.result
  · rw [hc]
    exact h.exec
  · rw [hc]
    exact h.newTask
  · apply tracked_same h.tracked _ hn (quiet_history r hq K)
    rw [hc]

theorem own_stable : Stable Own := by
  intro K s c r s' _ hc hn h
  unfold Own at h ⊢
  rw [hc, hn]
  exact h

theorem Fresh.save (h : Fresh K s) (path : String) (r : DownloadReply) :
    Fresh (⟨.download path, .ok r⟩ :: K) (s.save path r.progress) := by
  have ho : opened (⟨.download path, .ok r⟩ :: K) = (r.progress ≠ .nothing || opened K) := rfl
  have hs : saved (⟨.download path, .ok r⟩ :: K) =
      if r.progress = .file then components path :: saved K else saved K := rfl
  have hw : savedNow (⟨.download path, .ok r⟩ :: K) =
      if r.progress = .file then components path :: savedNow K else savedNow K := rfl
  cases hp : r.progress with
  | nothing =>
    rw [hp] at ho hs hw
    exact ⟨h.result, h.exec, h.newTask, tracked_same h.tracked rfl rfl ⟨ho, hs, hw⟩⟩
  | directory =>
    rw [hp] at ho hs hw
    exact ⟨h.result, h.exec, h.newTask, ho.symm, hs ▸ h.tracked.saved, hw ▸ h.tracked.now⟩
  | file =>
    rw [hp] at ho hs hw
    have hfind : ∀ path', (s.save path .file).resources.find path' =
        if path' = components path then some s.current else s.resources.find path' :=
      fun path' => Table.find_set _ _ _ _
    refine ⟨h.result, h.exec, h.newTask, ho.symm, ?_, ?_⟩
    · intro path'
      rw [hfind, hs, if_pos rfl, List.mem_cons]
      split
      next he => exact ⟨fun _ => .inl he, fun _ => ⟨_, rfl⟩⟩
      next hne =>
        rw [h.tracked.saved]
        exact ⟨.inr, fun hm => hm.resolve_left hne⟩
    · intro path' n hn
      rw [hfind] at hn
      rw [hw, if_pos rfl, List.mem_cons]
      split at hn
      next he =>
        obtain rfl := Option.some.inj hn
        exact ⟨Nat.le_refl _, fun _ => .inl he, fun _ => rfl⟩
      next hne =>
        obtain ⟨hle, hiff⟩ := h.tracked.now path' n hn
        exact ⟨hle, fun he => .inr (hiff.1 he), fun hm => hiff.2 (hm.resolve_left hne)⟩

theorem Answered.interrupted {c : Cmd} {r : c.Resp} (h : Answered K s c r s') :
    ∃ (chance : Chance) (s₁ : World), s₁.cache = s.cache ∧ s₁.current = s.current ∧
      s₁.done chance c = some (r, s') ∧
      (s.cancelled = true → s₁.cancelled = true) := by
  obtain ⟨⟨chance, hx⟩, -⟩ := h
  refine ⟨chance, { s with cancelled := s.cancelled || chance.cancelled }, rfl, rfl, hx, ?_⟩
  intro hc
  simp only [hc, Bool.true_or]

theorem isCancelled_answered {r : Cmd.isCancelled.Resp} (h : Answered K s .isCancelled r s') :
    r = .ok s'.cancelled ∧ (s.cancelled = true → s'.cancelled = true) := by
  obtain ⟨chance, s₁, -, -, hx, hc⟩ := h.interrupted
  obtain ⟨⟩ := hx
  exact ⟨rfl, hc⟩

theorem resourceInfo_cancelled
    (h : Answered K s (.resourceInfo task file) (.ok .cancelled) s') : s'.cancelled = true := by
  obtain ⟨chance, s₁, -, -, hx, -⟩ := h.interrupted
  simp only [World.done] at hx
  split at hx
  next =>
    obtain ⟨hc, -, rfl⟩ := interrupted_eq hx
    exact hc
  next hne =>
    obtain ⟨he, -⟩ := Prod.mk.inj (Option.some.inj hx)
    exact (hne he).elim

theorem watch_cancelled (h : Answered K s (.watch uuid state) (.ok .cancelled) s') :
    s'.cancelled = true := by
  obtain ⟨chance, s₁, -, -, hx, -⟩ := h.interrupted
  simp only [World.done] at hx
  split at hx
  next =>
    obtain ⟨hc, -, rfl⟩ := interrupted_eq hx
    exact hc
  next hne =>
    obtain ⟨he, -⟩ := Prod.mk.inj (Option.some.inj hx)
    exact (hne he).elim

theorem download_answered {r : (Cmd.download path).Resp} (hf : Fresh K s)
    (h : Answered K s (.download path) r s') : Fresh (⟨.download path, r⟩ :: K) s' ∧
      ∀ p, r = .ok (.cancelled p) → s'.cancelled = true := by
  obtain ⟨chance, s₁, hc, hn, hx, -⟩ := h.interrupted
  have hf₁ : Fresh K s₁ := by
    constructor
    · rw [hc]
      exact hf.result
    · rw [hc]
      exact hf.exec
    · rw [hc]
      exact hf.newTask
    · exact tracked_same hf.tracked (congrArg Cache.resource hc) hn ⟨rfl, rfl, rfl⟩
  simp only [World.done] at hx
  split at hx
  next => cases hx
  next p _ =>
    obtain ⟨hcan, rfl, rfl⟩ := interrupted_eq hx
    exact ⟨hf₁.save path (.cancelled p), fun _ _ => hcan⟩
  next r' hne _ =>
    obtain ⟨⟩ := hx
    refine ⟨hf₁.save path r', ?_⟩
    intro p hp
    obtain rfl := Except.ok.inj hp
    exact (hne p rfl).elim

theorem removeNewTask_answered {r : Cmd.removeNewTask.Resp}
    (h : Answered K s .removeNewTask r s') : s'.current = s.current ∧
      (s'.cache = s.cache ∨ s'.cache = { s.cache with newTask := none }) := by
  obtain ⟨chance, s₁, hc, hn, hx, -⟩ := h.interrupted
  simp only [World.done] at hx
  split at hx
  next =>
    obtain ⟨⟩ := hx
    exact ⟨hn, .inr (by rw [hc])⟩
  next =>
    obtain ⟨⟩ := hx
    exact ⟨hn, .inl hc⟩

theorem run_answered {r : Cmd.run.Resp} (ho : Own K s) (h : Answered K s .run r s') :
    Own (⟨.run, r⟩ :: K) s' ∧ (r = .ok .cancelled → s'.cancelled = true) := by
  obtain ⟨chance, s₁, hc, hn, hx, -⟩ := h.interrupted
  simp only [World.done] at hx
  split at hx
  next hw =>
    have hown : ∀ n ∈ chance.after.origins, n = s₁.current := by
      intro n hm
      have hwn := List.all_eq_true.1 hw n hm
      rw [Bool.or_eq_true, decide_eq_true_eq, decide_eq_true_eq] at hwn
      rcases hwn with he | he
      · exact he
      · rw [hc] at he
        rw [hn]
        exact ho n he
    split at hx
    next =>
      obtain ⟨hcan, -, rfl⟩ := interrupted_eq hx
      exact ⟨hown, fun _ => hcan⟩
    next hne =>
      obtain ⟨⟩ := hx
      exact ⟨hown, fun he => (hne he).elim⟩
  next => cases hx

theorem fetchTask_answered {r : Cmd.fetchTask.Resp} (hf : Fresh K s)
    (h : Answered K s .fetchTask r s') : Fresh (⟨.fetchTask, r⟩ :: K) s' := by
  obtain ⟨chance, s₁, hc, hn, hx, -⟩ := h.interrupted
  have hsame : ∀ r' : Cmd.fetchTask.Resp, (∀ task, r' ≠ .ok (.task task)) →
      savedNow (⟨.fetchTask, r'⟩ :: K) = savedNow K := by
    rintro (e | task | _ | _ | _) hne
    · rfl
    · exact (hne task rfl).elim
    · rfl
    · rfl
    · rfl
  simp only [World.done] at hx
  split at hx
  next task _ =>
    obtain ⟨⟩ := hx
    refine ⟨?_, ?_, ?_, ?_, ?_, ?_⟩
    · rw [hc]
      exact hf.result
    · rw [hc]
      exact hf.exec
    · rw [hc]
      exact hf.newTask
    · rw [hc]
      exact hf.tracked.opened
    · have hr : World.resources { s₁ with current := s₁.current + 1 } = s.resources := by
        rw [World.resources, World.resources, hc]
      rw [hr]
      exact hf.tracked.saved
    · intro path n hp
      have hr : World.resources { s₁ with current := s₁.current + 1 } = s.resources := by
        rw [World.resources, World.resources, hc]
      rw [hr] at hp
      have hle := (hf.tracked.now path n hp).1
      change n ≤ s₁.current + 1 ∧ (n = s₁.current + 1 ↔ path ∈ [])
      rw [hn]
      refine ⟨Nat.le_succ_of_le hle, ?_, fun hm => (List.not_mem_nil hm).elim⟩
      intro he
      omega
  next hne =>
    obtain ⟨⟩ := hx
    constructor
    · rw [hc]
      exact hf.result
    · rw [hc]
      exact hf.exec
    · rw [hc]
      exact hf.newTask
    · exact tracked_same hf.tracked (congrArg Cache.resource hc) hn
        ⟨rfl, rfl, hsame _ fun task he => hne task he⟩

open Fallible (Triple triple_bind triple_pure triple_issue triple_attempt)

abbrev Does (P : History → World → Prop) (p : Service α)
    (Q : History → World → Except Error α → Prop) : Prop :=
  Triple (σ := World) Answered Cmd.allowed P p Q

namespace Service

theorem issue_does (c : Cmd) {P : History → World → Prop}
    {Q : History → World → c.Resp → Prop} (hpre : ∀ K s, P K s → c.allowed K s)
    (hx : ∀ K s r s', P K s → Answered K s c r s' → Q (⟨c, r⟩ :: K) s' r) :
    Does P (issue c) Q := triple_issue c hpre hx

theorem issue_stable {P : History → World → Prop} (hP : Stable P) (c : Cmd)
    (hc : c.quiet = true) (hpre : ∀ K s, P K s → c.allowed K s) :
    Does P (issue c) fun K s _ => P K s := by
  apply issue_does c hpre
  intro K s r s' h hx
  obtain ⟨hcache, hn⟩ := hx.quiet hc
  exact hP K s c r s' hc hcache hn h

theorem reportTask_stable {P : History → World → Prop} (hP : Stable P) (id : TaskId)
    (op : ReportTaskOp) : Does P (reportTask id op) fun K s _ => P K s := by
  apply triple_bind (issue_stable hP (.report id op) rfl fun _ _ _ => trivial)
  · intro _
    exact triple_pure _ fun _ _ h => h
  · exact fun _ _ _ h => h

/-- Where `execute_task` goes on there is still a fresh cache, and where it returns the worker
is idle. -/
def goesOn (K : History) (s : World) : Except Error Bool → Prop
  | .ok true => Fresh K s
  | .ok false => Idle K s
  | .error _ => True

theorem giveUp_does (task : WorkerTaskResp) (msg : TaskResultMessage) :
    Does Fresh (giveUp task msg) goesOn := by
  apply triple_bind (reportTask_stable fresh_stable _ _)
  · intro _
    apply triple_bind (reportTask_stable fresh_stable _ _)
    · intro _
      exact triple_pure _ fun _ _ h => .inr h
    · exact fun _ _ _ _ => trivial
  · exact fun _ _ _ _ => trivial

theorem fetchResource_does (task : WorkerTaskResp) (resource : RemoteResourceDownload) :
    Does Fresh (fetchResource task resource) goesOn := by
  have hinfo : Does Fresh (issue (.resourceInfo task.uuid resource.remoteFile))
      fun K s r => Fresh K s ∧ (r = .ok .cancelled → s.cancelled = true) := by
    apply issue_does (.resourceInfo task.uuid resource.remoteFile) fun _ _ _ => trivial
    intro K s r s' h hx
    obtain ⟨hcache, hn⟩ := hx.quiet rfl
    refine ⟨fresh_stable K s _ r s' rfl hcache hn h, ?_⟩
    rintro rfl
    exact resourceInfo_cancelled hx
  have hdown : Does Fresh (issue (.download resource.localPath))
      fun K s r => Fresh K s ∧ ∀ p, r = .ok (.cancelled p) → s.cancelled = true := by
    apply issue_does (.download resource.localPath) fun _ _ _ => trivial
    intro K s r s' h hx
    exact download_answered h hx
  apply triple_bind hinfo
  · intro r
    cases r with
    | cancelled => exact triple_pure _ fun _ _ h => .inl (h.2 rfl)
    | timeout | notFound | forbidden =>
      exact (giveUp_does task _).mono (fun _ _ h => h.1) fun _ _ _ h => h
    | found =>
      apply triple_bind (hdown.mono (fun _ _ h => h.1) fun _ _ _ h => h)
      · intro r
        cases r with
        | done => exact triple_pure _ fun _ _ h => h.1
        | failed | timeout =>
          exact (giveUp_does task _).mono (fun _ _ h => h.1) fun _ _ _ h => h
        | cancelled p => exact triple_pure _ fun _ _ h => .inl (h.2 p rfl)
      · exact fun _ _ _ _ => trivial
  · exact fun _ _ _ _ => trivial

theorem fetchResources_does (task : WorkerTaskResp) (resources : List RemoteResourceDownload) :
    Does Fresh (fetchResources task resources) goesOn := by
  induction resources with
  | nil => exact triple_pure _ fun _ _ h => h
  | cons resource resources ih =>
    apply triple_bind (fetchResource_does task resource)
    · intro b
      cases b with
      | true => exact ih
      | false => exact triple_pure _ fun _ _ h => h
    · exact fun _ _ _ _ => trivial

theorem watchTask_does (redis : Bool) (task : WorkerTaskResp) :
    Does Fresh (watchTask redis task) goesOn := by
  unfold watchTask
  split
  next uuid state _ =>
    have hwatch : Does Fresh (issue (.watch uuid state))
        fun K s r => Fresh K s ∧ (r = .ok .cancelled → s.cancelled = true) := by
      apply issue_does (.watch uuid state) fun _ _ _ => trivial
      intro K s r s' h hx
      obtain ⟨hcache, hn⟩ := hx.quiet rfl
      refine ⟨fresh_stable K s _ r s' rfl hcache hn h, ?_⟩
      rintro rfl
      exact watch_cancelled hx
    apply triple_bind hwatch
    · intro r
      cases r with
      | reached => exact triple_pure _ fun _ _ h => h.1
      | cancelled => exact triple_pure _ fun _ _ h => .inl (h.2 rfl)
      | timeout => exact (giveUp_does task _).mono (fun _ _ h => h.1) fun _ _ _ h => h
    · exact fun _ _ _ _ => trivial
  next => exact triple_pure _ fun _ _ h => h

theorem uploadArtifacts_does (id : TaskId) (contentTypes : List ArtifactContentType) :
    Does Own (uploadArtifacts id contentTypes) fun K s _ => Own K s := by
  induction contentTypes with
  | nil => exact triple_pure _ fun _ _ h => h
  | cons contentType contentTypes ih =>
    apply triple_bind (issue_stable own_stable (.upload id contentType) rfl fun _ _ h => h)
    · intro r
      cases r with
      | skipped | sent => exact ih
      | refused | unauthorized | cancelled | timeout => exact triple_pure _ fun _ _ h => h
    · exact fun _ _ _ h => h

theorem removeNewTask_does :
    Does Own (Fallible.attempt (issue .removeNewTask)) fun K s _ => Own K s := by
  apply triple_attempt
  apply issue_does .removeNewTask fun _ _ _ => trivial
  intro K s r s' h hx
  obtain ⟨hn, hc⟩ := removeNewTask_answered hx
  intro n hm
  rw [hn]
  apply h
  rcases hc with hc | hc
  · rw [← hc]
    exact hm
  · rw [hc] at hm
    simp only [Cache.origins, Option.toList_none, List.append_nil] at hm
    exact List.mem_append_left _ hm

theorem submitNewTaskIfPresent_does (id : TaskId) :
    Does Own (submitNewTaskIfPresent id) fun K s _ => Own K s := by
  have hremove : ∀ b : Bool, Does Own
      (do let _ ← Fallible.attempt (issue .removeNewTask); return b) fun K s _ => Own K s := by
    intro b
    apply triple_bind removeNewTask_does
    · intro _
      exact triple_pure _ fun _ _ h => h
    · exact fun _ _ _ h => h
  apply triple_bind (issue_stable own_stable .readNewTask rfl fun _ _ _ => trivial)
  · intro r
    cases r with
    | absent => exact triple_pure _ fun _ _ h => h
    | empty | unreadable | invalid => exact hremove _
    | submit req =>
      have hreport : Does Own (Fallible.attempt (reportTask id (.submit req)))
          fun K s _ => Own K s := triple_attempt (reportTask_stable own_stable id (.submit req))
      apply triple_bind hreport
      · intro r
        cases r with
        | error => exact triple_pure _ fun _ _ h => h
        | ok => exact hremove true
      · exact fun _ _ _ h => h
  · exact fun _ _ _ h => h

/-- The cache has been cleaned, and nothing has been downloaded since. -/
def Swept (c : Cache) (K : History) (s : World) : Prop :=
  s.cache = c ∧ opened K = false ∧ saved K = []

theorem Swept.fresh (h : Swept (Cache.removed.createResult.createExec) K s) : Fresh K s := by
  obtain ⟨hc, ho, hs⟩ := h
  have hr : s.resources = .empty := by
    rw [World.resources, hc]
    rfl
  refine ⟨?_, ?_, ?_, ?_, ?_, ?_⟩
  · rw [hc]
    rfl
  · rw [hc]
    rfl
  · rw [hc]
    rfl
  · rw [hc, ho]
    rfl
  · intro path
    rw [hr, hs]
    constructor
    · rintro ⟨n, hn⟩
      cases hn
    · intro hm
      cases hm
  · intro path n hn
    rw [hr] at hn
    cases hn

theorem cleanDirectory_does : Does (fun _ _ => True) cleanDirectory
    fun K s r => r = .ok () → Fresh K s := by
  have hremove : Does (fun _ _ => True) (issue .removeCache)
      fun K s r => r = .ok () → Swept .removed K s := by
    apply issue_does .removeCache fun _ _ _ => trivial
    rintro K s _ s' _ hx rfl
    obtain ⟨chance, s₁, -, -, hx, -⟩ := hx.interrupted
    simp only [World.done] at hx
    split at hx
    next =>
      obtain ⟨⟩ := hx
      exact ⟨rfl, rfl, rfl⟩
    next => cases hx
  have hcache : Does (Swept .removed) (issue .createCache)
      fun K s _ => Swept .removed K s := by
    apply issue_stable _ .createCache rfl fun _ _ _ => trivial
    intro K s c r s' hq hc hn h
    obtain ⟨ho, hs, -⟩ := quiet_history r hq K
    exact ⟨hc.trans h.1, ho.trans h.2.1, hs.trans h.2.2⟩
  have hresult : Does (Swept .removed) (issue .createResult)
      fun K s r => r = .ok () → Swept Cache.removed.createResult K s := by
    apply issue_does .createResult fun _ _ _ => trivial
    rintro K s _ s' h hx rfl
    obtain ⟨chance, s₁, hc, -, hx, -⟩ := hx.interrupted
    simp only [World.done] at hx
    split at hx
    next =>
      obtain ⟨⟩ := hx
      exact ⟨congrArg Cache.createResult (hc.trans h.1), h.2⟩
    next => cases hx
  have hexec : Does (Swept Cache.removed.createResult) (issue .createExec)
      fun K s r => r = .ok () → Swept Cache.removed.createResult.createExec K s := by
    apply issue_does .createExec fun _ _ _ => trivial
    rintro K s _ s' h hx rfl
    obtain ⟨chance, s₁, hc, -, hx, -⟩ := hx.interrupted
    simp only [World.done] at hx
    split at hx
    next =>
      obtain ⟨⟩ := hx
      exact ⟨congrArg Cache.createExec (hc.trans h.1), h.2⟩
    next => cases hx
  apply triple_bind hremove
  · rintro ⟨⟩
    apply triple_bind (hcache.mono (fun _ _ h => h rfl) fun _ _ _ h => h)
    · rintro ⟨⟩
      apply triple_bind hresult
      · rintro ⟨⟩
        exact hexec.mono (fun _ _ h => h rfl) fun _ _ _ h hr => (h hr).fresh
      · rintro _ _ _ _ ⟨⟩
    · rintro _ _ _ _ ⟨⟩
  · rintro _ _ _ _ ⟨⟩

/-- A function of the executor that returns leaves an idle worker. -/
def returns (K : History) (s : World) (r : Except Error Unit) : Prop := r = .ok () → Idle K s

theorem processTaskResult_does (task : WorkerTaskResp) (isFinished : Bool) (exitStatus : Int) :
    Does Own (processTaskResult task isFinished exitStatus) returns := by
  have hclean : Does Own cleanDirectory returns :=
    cleanDirectory_does.mono (fun _ _ _ => trivial) fun _ _ _ h hr => .inr (h hr)
  have hcan : Does Own (issue .isCancelled) fun K s r => Own K s ∧ (r = .ok true →
      s.cancelled = true) := by
    apply issue_does .isCancelled fun _ _ _ => trivial
    intro K s r s' h hx
    obtain ⟨hcache, hn⟩ := hx.quiet rfl
    refine ⟨own_stable K s .isCancelled r s' rfl hcache hn h, ?_⟩
    intro hr
    exact Except.ok.inj ((isCancelled_answered hx).1.symm.trans hr)
  apply triple_bind (reportTask_stable own_stable _ _)
  · rintro ⟨⟩
    apply triple_bind (uploadArtifacts_does _ _)
    · intro r
      cases r with
      | timeout =>
        apply triple_bind (reportTask_stable own_stable _ _)
        · rintro ⟨⟩
          apply triple_bind (issue_stable own_stable .joinArchive rfl fun _ _ _ => trivial)
          · rintro ⟨⟩
            exact hclean
          · rintro _ _ _ _ ⟨⟩
        · rintro _ _ _ _ ⟨⟩
      | finished =>
        apply triple_bind (issue_stable own_stable .joinArchive rfl fun _ _ _ => trivial)
        · rintro ⟨⟩
          apply triple_bind hcan
          · intro b
            cases b with
            | true => exact triple_pure _ fun _ _ h _ => .inl (h.2 rfl)
            | false =>
              apply triple_bind ((submitNewTaskIfPresent_does task.id).mono (fun _ _ h => h.1)
                fun _ _ _ h => h)
              · intro newTaskSucceed
                apply triple_bind (reportTask_stable own_stable _ _)
                · rintro ⟨⟩
                  exact hclean
                · rintro _ _ _ _ ⟨⟩
              · rintro _ _ _ _ ⟨⟩
          · rintro _ _ _ _ ⟨⟩
        · rintro _ _ _ _ ⟨⟩
    · rintro _ _ _ _ ⟨⟩
  · rintro _ _ _ _ ⟨⟩

end Service

theorem Fresh.provided_iff (h : Fresh K s) : provided K = true ↔ ∃ files,
    s.cache.resource = some files ∧ ∀ path n, files.find path = some n → n = s.current := by
  simp only [provided, Bool.and_eq_true, List.all_eq_true, decide_eq_true_eq]
  rw [← h.tracked.opened, Option.isSome_iff_exists]
  constructor
  · rintro ⟨⟨files, hf⟩, hall⟩
    have hr : s.resources = files := by rw [World.resources, hf, Option.getD_some]
    refine ⟨files, hf, ?_⟩
    intro path n hn
    rw [← hr] at hn
    exact (h.tracked.now path n hn).2.2 (hall path ((h.tracked.saved path).1 ⟨n, hn⟩))
  · rintro ⟨files, hf, hall⟩
    have hr : s.resources = files := by rw [World.resources, hf, Option.getD_some]
    refine ⟨⟨files, hf⟩, ?_⟩
    intro path hp
    obtain ⟨n, hn⟩ := (h.tracked.saved path).2 hp
    have hn' := hn
    rw [hr] at hn'
    exact (h.tracked.now path n hn).2.1 (hall path n hn')

theorem Fresh.own (h : Fresh K s) (hp : provided K = true) : Own K s := by
  obtain ⟨files, hf, hall⟩ := h.provided_iff.1 hp
  intro n hm
  simp only [Cache.origins, h.result, h.exec, h.newTask, hf, List.flatMap_cons, List.flatMap_nil,
    Option.getD_some, Option.toList_none, List.append_nil, List.mem_append, List.mem_map] at hm
  rcases hm with ⟨_, he, -⟩ | ⟨_, he, -⟩ | ⟨e, he, rfl⟩
  · cases he
  · cases he
  · exact hall e.1 e.2 (Table.mem_rows.1 he)

namespace Service

theorem runTask_does (task : WorkerTaskResp) : Does Fresh (runTask task) returns := by
  have hremove : Does Fresh (Fallible.attempt (issue .removeNewTask)) fun K s _ => Fresh K s := by
    apply triple_attempt
    apply issue_does .removeNewTask fun _ _ _ => trivial
    intro K s r s' h hx
    obtain ⟨hn, hc⟩ := removeNewTask_answered hx
    have hsame : s'.cache = s.cache := by
      rcases hc with hc | hc
      · exact hc
      · rw [hc, ← h.newTask]
    constructor
    · rw [hsame]
      exact h.result
    · rw [hsame]
      exact h.exec
    · rw [hsame]
      exact h.newTask
    · exact tracked_same h.tracked (congrArg Cache.resource hsame) hn ⟨rfl, rfl, rfl⟩
  have hspawn : Does Fresh (issue (.spawn (command task))) fun K s _ => Own K s := by
    apply issue_does (.spawn (command task)) fun _ _ h => ⟨h, task, rfl⟩
    intro K s r s' h hx
    obtain ⟨hcache, hn⟩ := hx.quiet rfl
    exact own_stable K s _ r s' rfl hcache hn (h.own (hx.2 _ rfl))
  have hrun : Does Own (issue .run) fun K s r => Own K s ∧ (r = .ok .cancelled →
      s.cancelled = true) := by
    apply issue_does .run fun _ _ _ => trivial
    intro K s r s' h hx
    exact run_answered h hx
  apply triple_bind hremove
  · intro _
    apply triple_bind hspawn
    · rintro ⟨⟩
      apply triple_bind hrun
      · intro r
        cases r with
        | cancelled => exact triple_pure _ fun _ _ h _ => .inl (h.2 rfl)
        | finish | timeout =>
          exact (processTaskResult_does task _ _).mono (fun _ _ h => h.1) fun _ _ _ h => h
      · rintro _ _ _ _ ⟨⟩
    · rintro _ _ _ _ ⟨⟩
  · rintro _ _ _ _ ⟨⟩

theorem executeTask_does (redis : Bool) (task : WorkerTaskResp) :
    Does Fresh (executeTask redis task) returns := by
  apply triple_bind (fetchResources_does task task.spec.resources)
  · intro b
    cases b with
    | false => exact triple_pure _ fun _ _ h _ => h
    | true =>
      apply triple_bind (watchTask_does redis task)
      · intro b
        cases b with
        | false => exact triple_pure _ fun _ _ h _ => h
        | true => exact runTask_does task
      · rintro _ _ _ _ ⟨⟩
  · rintro _ _ _ _ ⟨⟩

def repeats (K : History) (s : World) (r : Except Error (Flow Unit)) : Prop :=
  r = .ok .again → Idle K s

theorem iteration_does (redis : Bool) : Does Idle (iteration redis) repeats := by
  have hcan : Does Idle (issue .isCancelled) fun K s r => r = .ok false → Fresh K s := by
    apply issue_does .isCancelled fun _ _ _ => trivial
    intro K s r s' h hx hr
    obtain ⟨hs, hc⟩ := isCancelled_answered hx
    have hfalse : s'.cancelled = false := Except.ok.inj (hs.symm.trans hr)
    obtain ⟨hcache, hn⟩ := hx.quiet rfl
    rcases h with h | h
    · rw [hc h] at hfalse
      cases hfalse
    · exact fresh_stable K s .isCancelled r s' rfl hcache hn h
  have hfetch : Does Fresh (issue .fetchTask) fun K s _ => Fresh K s := by
    apply issue_does .fetchTask fun _ _ _ => trivial
    intro K s r s' h hx
    exact fetchTask_answered h hx
  have hcancel : Does (fun _ _ => True) (issue .cancel)
      fun _ s r => r = .ok () → s.cancelled = true := by
    apply issue_does .cancel fun _ _ _ => trivial
    rintro K s r s' _ hx rfl
    obtain ⟨chance, s₁, -, -, hx, -⟩ := hx.interrupted
    obtain ⟨⟩ := hx
    rfl
  have hpoll : Does Fresh
      (do if ← issue .poll then return .done () else return .again) repeats := by
    apply triple_bind (issue_stable fresh_stable .poll rfl fun _ _ _ => trivial)
    · intro b
      cases b with
      | true =>
        apply triple_pure
        rintro _ _ _ ⟨⟩
      | false => exact triple_pure _ fun _ _ h _ => .inr h
    · rintro _ _ _ _ ⟨⟩
  apply triple_bind hcan
  · intro b
    cases b with
    | true =>
      apply triple_pure
      rintro _ _ _ ⟨⟩
    | false =>
      apply triple_bind (hfetch.mono (fun _ _ h => h rfl) fun _ _ _ h => h)
      · intro r
        cases r with
        | task task =>
          have htask : Does Fresh (Fallible.attempt (executeTask redis task))
              fun K s r => r = .ok (.ok ()) → Idle K s := by
            apply triple_attempt
            apply (executeTask_does redis task).mono (fun _ _ h => h)
            rintro K s _ h ⟨⟩
            exact h rfl
          apply triple_bind htask
          · intro r
            cases r with
            | ok => exact triple_pure _ fun _ _ h _ => h rfl
            | error =>
              apply triple_bind (hcancel.mono (fun _ _ _ => trivial) fun _ _ _ h => h)
              · rintro ⟨⟩
                exact triple_pure _ fun _ _ h _ => .inl (h rfl)
              · rintro _ _ _ _ ⟨⟩
          · rintro _ _ _ _ ⟨⟩
        | noTask | unreachable => exact hpoll
        | refused =>
          apply triple_bind (hcancel.mono (fun _ _ _ => trivial) fun _ _ _ h => h)
          · rintro ⟨⟩
            apply triple_pure
            rintro _ _ _ ⟨⟩
          · rintro _ _ _ _ ⟨⟩
      · rintro _ _ _ _ ⟨⟩
  · rintro _ _ _ _ ⟨⟩

end Service

theorem command_env (task : WorkerTaskResp) :
    (Service.command task).env "MITO_RESULT_DIR" = some (.dir .result) ∧
    (Service.command task).env "MITO_EXEC_DIR" = some (.dir .exec) ∧
    (Service.command task).env "MITO_RESOURCE_DIR" = some (.dir .resource) := by
  have henv : ∀ name value, name ≠ "MITO_UPSTREAM_TASK_UUID" →
      List.lookup name [("MITO_NEW_TASK", .newTask), ("MITO_TASK_UUID", .uuid task.uuid),
        ("MITO_RESOURCE_DIR", .dir .resource), ("MITO_EXEC_DIR", .dir .exec),
        ("MITO_RESULT_DIR", .dir .result)] = some value →
      (Service.command task).env name = some value := by
    intro name value hne hl
    rw [Command.env, Service.command, List.reverse_append, List.reverse_append, List.lookup_append,
      List.lookup_append]
    cases task.upstreamTaskUuid with
    | none =>
      simp only [Option.map_none, Option.toList_none, List.reverse_nil, List.lookup_nil,
        Option.none_or, List.reverse_cons, List.nil_append, List.cons_append, hl, Option.some_or]
    | some uuid =>
      simp only [Option.map_some, Option.toList_some, List.reverse_cons, List.reverse_nil,
        List.nil_append, List.cons_append, List.lookup_cons, beq_eq_false_iff_ne.2 hne,
        List.lookup_nil, Option.none_or] at hl ⊢
      rw [hl, Option.some_or]
  refine ⟨henv _ _ (by decide) rfl, henv _ _ (by decide) rfl, henv _ _ (by decide) rfl⟩

theorem Fresh.clean_iff (h : Fresh K s) (task : WorkerTaskResp) :
    Clean s (Service.command task) ↔ provided K = true := by
  obtain ⟨h₁, h₂, h₃⟩ := command_env task
  rw [h.provided_iff]
  constructor
  · rintro ⟨d₁, d₂, d₃, files, -, -, he, -, -, hf, hall⟩
    obtain ⟨⟩ := h₃.symm.trans he
    exact ⟨files, hf, hall⟩
  · rintro ⟨files, hf, hall⟩
    exact ⟨.result, .exec, .resource, files, h₁, h₂, h₃, h.result, h.exec, hf, hall⟩

theorem setup_fresh (redis : Bool) : Fresh [] (setup redis).shared := by
  refine ⟨rfl, rfl, rfl, rfl, ?_, ?_⟩
  · intro path
    constructor
    · rintro ⟨n, hn⟩
      cases hn
    · intro hm
      cases hm
  · intro path n hn
    cases hn

theorem program_safe (redis : Bool) (h : Idle K s) : (program redis).Safe Answered Cmd.allowed
    (fun K s r => r = .again → Idle K s) K s := by
  apply (Prog.safe_bind _ _).2
  apply Prog.Safe.mono (Service.iteration_does redis K s h)
  rintro K s (e | _ | _) hr
  · rintro ⟨⟩
  · exact fun _ => hr rfl
  · rintro ⟨⟩

namespace Demo

/-- A task without resources, and one with two. -/
def plain : WorkerTaskResp := ⟨1, 7, 10, none, ⟨["true"], [], [], false, none⟩⟩

def loaded : WorkerTaskResp := ⟨2, 8, 10, none, ⟨["true"], [],
  [⟨.attachment "a", "a"⟩, ⟨.attachment "b", "b"⟩], false, none⟩⟩

/-- Every request is granted, and the worker fetches `task`, of which the second resource does not
exist if `missing`. -/
def granted (task : WorkerTaskResp) (missing : Bool) : (c : Cmd) → c.Resp
  | .isCancelled => .ok false
  | .cancel => .ok ()
  | .poll => .ok false
  | .fetchTask => .ok (.task task)
  | .resourceInfo _ file =>
    .ok (if missing && file = .attachment "b" then .notFound else .found)
  | .download _ => .ok .done
  | .report _ _ => .ok .accepted
  | .watch _ _ => .ok .reached
  | .removeNewTask => .ok ()
  | .spawn _ => .ok ()
  | .run => .ok (.finish 0)
  | .upload _ _ => .ok (.sent .empty)
  | .joinArchive => .ok ()
  | .readNewTask => .ok .absent
  | .removeCache => .ok ()
  | .createCache => .ok ()
  | .createResult => .ok ()
  | .createExec => .ok ()

/-- Steps in which the task runs and leaves two empty directories. -/
def steps (task : WorkerTaskResp) (missing : Bool) (n : Nat) : List Chance :=
  List.replicate n ⟨false, granted task missing, (setup false).shared.cache⟩

def spawns (provides : Bool) (s : Worker) : Bool :=
  match s.next with
  | some (.spawn _) => provided s.log = provides
  | _ => false

theorem next_of_spawns (h : spawns b s = true) : ∃ command,
    s.next = some (.spawn command) ∧ provided s.log = b := by
  unfold spawns at h
  split at h
  next command hn => exact ⟨command, hn, of_decide_eq_true h⟩
  next => cases h

def foul (s : Worker) : Bool :=
  match s.next with
  | some (.spawn command) =>
    match command.env "MITO_RESOURCE_DIR" with
    | some (.dir d) => (s.shared.cache.dir d).all fun files =>
        files.rows.any fun e => e.2 ≠ s.shared.current
    | _ => false
  | _ => false

theorem unclean_of_foul (h : foul s = true) : ∃ command,
    s.next = some (.spawn command) ∧ ¬Clean s.shared command := by
  unfold foul at h
  split at h
  next command hn =>
    split at h
    next d hd =>
      refine ⟨command, hn, ?_⟩
      rintro ⟨_, _, d', files, -, -, he, -, -, hf, hall⟩
      obtain ⟨⟩ := hd.symm.trans he
      rw [hf, Option.all_some, List.any_eq_true] at h
      obtain ⟨⟨path, n⟩, hm, hn⟩ := h
      exact of_decide_eq_true hn (hall path n (Table.mem_rows.1 hm))
    next => cases h
  next => cases h

end Demo

end Executor
end Mitosis
