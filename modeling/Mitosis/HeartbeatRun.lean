import Mitosis.Heartbeat

namespace Mitosis
set_option autoImplicit true

namespace HeartbeatQueue

/-- The time of `peek`: the earliest one, where the order of the queue is reversed. -/
def earliest (q : HeartbeatQueue) : Option Instant := (q.workers.rows.map Prod.snd).min?

/-- `timeout_duration` behind a branch of the loop. The difference of two instants saturates. -/
def timeoutDuration (q : HeartbeatQueue) (now : Instant) : Nat :=
  q.earliest.elim q.heartbeatTimeout fun r => r - now

/-- What the loop of `HeartbeatQueue::run` handles, at the time at which the branch starts. -/
inductive Event where
  | op (op : HeartbeatOp) (time : Instant)
  | expire (workerId : WorkerId) (time : Instant)
  | idle (time : Instant)

/-- The loop of `HeartbeatQueue::run` at `select!`, since `clock`. -/
structure Loop where
  queue : HeartbeatQueue
  clock : Instant
  sleepUntil : Instant

/-- The next iteration of the loop, which starts at `clock`. -/
def Loop.again (queue : HeartbeatQueue) (clock : Instant) : Loop :=
  ⟨queue, clock, clock + queue.timeoutDuration clock⟩

/-- A branch of the loop, which starts at the time of the event and ends at `clock`. The sleep may
end later than it should; then at most one worker is popped. -/
inductive Step : Loop → Event → Loop → Prop
  | op {s : Loop} {op : HeartbeatOp} {time clock : Instant} : s.clock ≤ time → time ≤ clock →
    Step s (.op op time) (.again (s.queue.handleOp op time) clock)
  | expire {s : Loop} {w : WorkerId} {time clock : Instant} : s.clock ≤ time →
    s.sleepUntil ≤ time → time ≤ clock → s.queue.expires w time = true →
    Step s (.expire w time) (.again (s.queue.unregisterWorker w) clock)
  | idle {s : Loop} {time clock : Instant} : s.clock ≤ time → s.sleepUntil ≤ time →
    time ≤ clock → (∀ w, s.queue.expires w time = false) →
    Step s (.idle time) (.again s.queue clock)

inductive Runs (heartbeatTimeout : Nat) : List Event → Loop → Prop
  | start (clock : Instant) :
    Runs heartbeatTimeout [] (.again ⟨.empty, heartbeatTimeout⟩ clock)
  | step {events : List Event} {s s' : Loop} {e : Event} : Runs heartbeatTimeout events s →
    Step s e s' → Runs heartbeatTimeout (events ++ [e]) s'

def Event.time : Event → Instant
  | op _ time => time
  | expire _ time => time
  | idle time => time

def Event.beat (w : WorkerId) (last : Option Instant) : Event → Option Instant
  | op (.heartbeat w') time => if w' = w then some time else last
  | _ => last

def Event.counted (w : WorkerId) (last : Option Instant) : Event → Option Instant
  | op (.heartbeat w') time => if w' = w then some time else last
  | op (.unregisterWorker w') _ => if w' = w then none else last
  | expire w' _ => if w' = w then none else last
  | idle _ => last

def lastBeat (w : WorkerId) (events : List Event) : Option Instant :=
  events.foldl (Event.beat w) none

def counted (w : WorkerId) (events : List Event) : Option Instant :=
  events.foldl (Event.counted w) none

theorem lastBeat_concat (w : WorkerId) (events : List Event) (e : Event) :
    lastBeat w (events ++ [e]) = e.beat w (lastBeat w events) := List.foldl_concat ..

theorem counted_concat (w : WorkerId) (events : List Event) (e : Event) :
    counted w (events ++ [e]) = e.counted w (counted w events) := List.foldl_concat ..

section
variable {w : WorkerId} {events : List Event} {time clock : Instant} {e : Event}

theorem counted_eq_lastBeat (h : counted w events = some time) :
    lastBeat w events = some time := by
  induction events using List.reverseRecOn with
  | nil => cases h
  | append_singleton events e ih =>
    rw [counted_concat] at h
    rw [lastBeat_concat]
    cases e with
    | op op t =>
      cases op with
      | heartbeat w' =>
        simp only [Event.counted, Event.beat] at h ⊢
        split at h
        next hw => rw [if_pos hw, h]
        next hw => rw [if_neg hw, ih h]
      | unregisterWorker w' =>
        simp only [Event.counted] at h
        split at h
        next => cases h
        next => exact ih h
    | expire w' t =>
      simp only [Event.counted] at h
      split at h
      next => cases h
      next => exact ih h
    | idle t => exact ih h

theorem exists_heartbeat (h : counted w events = some time) :
    .op (.heartbeat w) time ∈ events := by
  induction events using List.reverseRecOn with
  | nil => cases h
  | append_singleton events e ih =>
    rw [counted_concat] at h
    have hold : counted w events = some time → .op (.heartbeat w) time ∈ events ++ [e] :=
      fun h => List.mem_append_left _ (ih h)
    cases e with
    | op op t =>
      cases op with
      | heartbeat w' =>
        simp only [Event.counted] at h
        split at h
        next hw =>
          obtain rfl := Option.some.inj h
          rw [hw]
          exact List.mem_append_right _ (List.mem_singleton_self _)
        next => exact hold h
      | unregisterWorker w' =>
        simp only [Event.counted] at h
        split at h
        next => cases h
        next => exact hold h
    | expire w' t =>
      simp only [Event.counted] at h
      split at h
      next => cases h
      next => exact hold h
    | idle t => exact hold h

theorem counted_unregistered (before after : List Event) (time : Instant) :
    counted w (before ++ .op (.unregisterWorker w) time :: after) = counted w after := by
  rw [counted, List.foldl_append, List.foldl_cons, Event.counted, if_pos rfl]
  rfl

theorem le_lastBeat (hs : events.Pairwise fun a b => a.time ≤ b.time)
    (h : .op (.heartbeat w) time ∈ events) : ∃ last, lastBeat w events = some last ∧
      time ≤ last := by
  induction events using List.reverseRecOn with
  | nil => cases h
  | append_singleton events e ih =>
    obtain ⟨hs, -, hle⟩ := List.pairwise_append.1 hs
    have hold : .op (.heartbeat w) time ∈ events → ∃ last, lastBeat w events = some last ∧
        time ≤ last := ih hs
    rw [lastBeat_concat]
    rcases List.mem_append.1 h with hm | hm
    · obtain ⟨last, hl, hlt⟩ := hold hm
      have hlast : ∃ last', e.beat w (some last) = some last' ∧
          (last' = last ∨ last' = e.time) := by
        cases e with
        | op op t =>
          cases op with
          | heartbeat w' =>
            simp only [Event.beat]
            split
            next => exact ⟨t, rfl, .inr rfl⟩
            next => exact ⟨last, rfl, .inl rfl⟩
          | unregisterWorker w' => exact ⟨last, rfl, .inl rfl⟩
        | expire w' t | idle t => exact ⟨last, rfl, .inl rfl⟩
      obtain ⟨last', hb, rfl | rfl⟩ := hlast
      · exact ⟨last', hl ▸ hb, hlt⟩
      · exact ⟨_, hl ▸ hb, hle _ hm _ (List.mem_singleton_self e)⟩
    · obtain rfl := List.mem_singleton.1 hm
      exact ⟨time, if_pos rfl, Nat.le_refl time⟩

end

structure Inv (heartbeatTimeout : Nat) (events : List Event) (s : Loop) : Prop where
  timeout : s.queue.heartbeatTimeout = heartbeatTimeout
  rows : ∀ w, s.queue.workers.find w = (counted w events).map (· + heartbeatTimeout)
  sorted : events.Pairwise fun a b => a.time ≤ b.time
  past : ∀ e ∈ events, e.time ≤ s.clock
  sleep : s.sleepUntil = s.clock + s.queue.timeoutDuration s.clock

variable {heartbeatTimeout : Nat} {events : List Event} {s s' : Loop} {e : Event}

theorem Step.clock (h : Step s e s') : s.clock ≤ e.time ∧ e.time ≤ s'.clock ∧
    s'.sleepUntil = s'.clock + s'.queue.timeoutDuration s'.clock := by
  cases h with
  | op h₁ h₂ => exact ⟨h₁, h₂, rfl⟩
  | expire h₁ _ h₂ => exact ⟨h₁, h₂, rfl⟩
  | idle h₁ _ h₂ => exact ⟨h₁, h₂, rfl⟩

/-- A branch does to the queue what the event says of every worker. -/
theorem Step.rows (h : Step s e s') {last : WorkerId → Option Instant}
    (hr : ∀ w, s.queue.workers.find w = (last w).map (· + s.queue.heartbeatTimeout)) (w : WorkerId) :
    s'.queue.heartbeatTimeout = s.queue.heartbeatTimeout ∧ s'.queue.workers.find w =
      (e.counted w (last w)).map (· + s.queue.heartbeatTimeout) := by
  cases h with
  | @op op time =>
    cases op with
    | heartbeat w' =>
      refine ⟨rfl, ?_⟩
      change (s.queue.workers.set w' _).find w = _
      simp only [Table.find_set, Event.counted, hr, eq_comm]
      split <;> rfl
    | unregisterWorker w' =>
      refine ⟨rfl, ?_⟩
      change (s.queue.workers.erase w').find w = _
      simp only [Table.find_erase, Event.counted, hr, eq_comm]
      split <;> rfl
  | @expire w' time =>
    refine ⟨rfl, ?_⟩
    change (s.queue.workers.erase w').find w = _
    simp only [Table.find_erase, Event.counted, hr, eq_comm]
    split <;> rfl
  | idle => exact ⟨rfl, hr w⟩

theorem Runs.inv (h : Runs heartbeatTimeout events s) : Inv heartbeatTimeout events s := by
  induction h with
  | start clock =>
    constructor
    · rfl
    · exact fun w => rfl
    · exact .nil
    · exact fun e he => absurd he List.not_mem_nil
    · rfl
  | step _ hs ih =>
    obtain ⟨ht, hrows, hsorted, hpast, -⟩ := ih
    subst ht
    obtain ⟨h₁, h₂, hsleep⟩ := hs.clock
    constructor
    · exact (hs.rows hrows 0).1
    · intro w
      rw [counted_concat]
      exact (hs.rows hrows w).2
    · rw [List.pairwise_append]
      refine ⟨hsorted, List.pairwise_singleton _ _, ?_⟩
      intro a ha b hb
      obtain rfl := List.mem_singleton.1 hb
      exact (hpast a ha).trans h₁
    · intro e' he'
      rcases List.mem_append.1 he' with he' | he'
      · exact ((hpast e' he').trans h₁).trans h₂
      · obtain rfl := List.mem_singleton.1 he'
        exact h₂
    · exact hsleep

/-- The workers in the queue are those with a Heartbeat since they were last unregistered or popped.
They expire a timeout behind their last Heartbeat, and the sleep ends by then. -/
structure Sound (heartbeatTimeout : Nat) (events : List Event) (s : Loop) : Prop where
  once : (s.queue.workers.rows.map Prod.fst).Nodup
  rows : ∀ w, s.queue.workers.find w = (counted w events).map (· + heartbeatTimeout)
  deadline : ∀ w r, s.queue.workers.find w = some r →
    ∃ last, lastBeat w events = some last ∧ r = last + heartbeatTimeout
  sleep : ∀ w r, s.queue.workers.find w = some r → s.sleepUntil ≤ r ∨ s.sleepUntil = s.clock

structure Silent (heartbeatTimeout : Nat) (events : List Event) (s : Loop) (w : WorkerId)
    (time : Instant) : Prop where
  passed : ∃ last, lastBeat w events = some last ∧ last + heartbeatTimeout ≤ time
  silent : ∀ t, .op (.heartbeat w) t ∈ events → t + heartbeatTimeout ≤ time
  first : ∀ w' r', s.queue.workers.find w' = some r' →
    ∃ r, s.queue.workers.find w = some r ∧ r ≤ r'
  registered : ∀ before after t, events = before ++ .op (.unregisterWorker w) t :: after →
    ∃ t', .op (.heartbeat w) t' ∈ after

theorem expires_iff {q : HeartbeatQueue} {w : WorkerId} {now : Instant} :
    q.expires w now = true ↔ ∃ r, q.workers.find w = some r ∧ r ≤ now ∧
      ∀ w' r', q.workers.find w' = some r' → r ≤ r' := by
  unfold expires
  simp only [Option.any_eq_true, Bool.and_eq_true, decide_eq_true_eq, List.all_eq_true]
  constructor
  · rintro ⟨r, hr, hle, hall⟩
    exact ⟨r, hr, hle, fun w' r' h' => hall (w', r') (Table.mem_rows.2 h')⟩
  · rintro ⟨r, hr, hle, hall⟩
    exact ⟨r, hr, hle, fun e he => hall e.1 e.2 (Table.mem_rows.1 he)⟩

theorem earliest_le {q : HeartbeatQueue} {w : WorkerId} {r : Instant}
    (h : q.workers.find w = some r) : ∃ r', q.earliest = some r' ∧ r' ≤ r := by
  have hm : r ∈ q.workers.rows.map Prod.snd := List.mem_map_of_mem (Table.mem_rows.2 h)
  cases he : q.earliest with
  | none =>
    rw [List.min?_eq_none_iff.1 he] at hm
    cases hm
  | some r' => exact ⟨r', rfl, (List.min?_eq_some_iff.1 he).2 r hm⟩

theorem Inv.counted (h : Inv heartbeatTimeout events s) {w : WorkerId} {r : Instant}
    (hr : s.queue.workers.find w = some r) :
    ∃ last, HeartbeatQueue.counted w events = some last ∧ r = last + heartbeatTimeout := by
  obtain ⟨last, hc, heq⟩ := Option.map_eq_some_iff.1 ((h.rows w).symm.trans hr)
  exact ⟨last, hc, heq.symm⟩

theorem Inv.sound (h : Inv heartbeatTimeout events s) : Sound heartbeatTimeout events s := by
  constructor
  · exact s.queue.workers.keysNodup
  · exact h.rows
  · intro w r hr
    obtain ⟨last, hc, heq⟩ := h.counted hr
    exact ⟨last, counted_eq_lastBeat hc, heq⟩
  · intro w r hr
    obtain ⟨r', he, hle⟩ := earliest_le hr
    rw [h.sleep, timeoutDuration, he, Option.elim_some]
    rcases Nat.le_total r' s.clock with hc | hc
    · rw [Nat.sub_eq_zero_of_le hc]
      exact .inr rfl
    · rw [Nat.add_sub_of_le hc]
      exact .inl hle

/-- Only silent workers expire. -/
theorem expires_silent (h : Runs heartbeatTimeout events s) : Sound heartbeatTimeout events s ∧
    ∀ w time s', Step s (.expire w time) s' → Silent heartbeatTimeout events s w time := by
  have hinv := h.inv
  refine ⟨hinv.sound, ?_⟩
  intro w time s' hs
  obtain ⟨r, hr, hle, hall⟩ : ∃ r, s.queue.workers.find w = some r ∧ r ≤ time ∧
      ∀ w' r', s.queue.workers.find w' = some r' → r ≤ r' := by
    cases hs with
    | expire _ _ _ he => exact expires_iff.1 he
  obtain ⟨last, hc, rfl⟩ := hinv.counted hr
  have hlast := counted_eq_lastBeat hc
  constructor
  · exact ⟨last, hlast, hle⟩
  · intro t ht
    obtain ⟨last', hl, hlt⟩ := le_lastBeat hinv.sorted ht
    obtain rfl := Option.some.inj (hlast.symm.trans hl)
    exact (Nat.add_le_add_right hlt _).trans hle
  · exact fun w' r' hr' => ⟨_, hr, hall w' r' hr'⟩
  · rintro before after t rfl
    rw [counted_unregistered] at hc
    exact ⟨last, exists_heartbeat hc⟩

namespace SilenceDemo

def ops : List (HeartbeatOp × Instant) :=
  [(.heartbeat 1, 3), (.heartbeat 2, 3), (.unregisterWorker 2, 4), (.heartbeat 2, 5),
    (.heartbeat 1, 6)]

def beats : List Event := ops.map fun e => .op e.1 e.2

def loop : Loop :=
  ops.foldl (fun s e => .again (s.queue.handleOp e.1 e.2) e.2) (.again ⟨.empty, 5⟩ 0)

theorem runs : Runs 5 beats loop := by
  have hop : ∀ events (s : Loop) op time, s.clock ≤ time → Runs 5 events s →
      Runs 5 (events ++ [.op op time]) (.again (s.queue.handleOp op time) time) :=
    fun events s op time hc h => h.step (.op hc (Nat.le_refl time))
  have h₁ := hop _ _ (.heartbeat 1) 3 (by decide) (.start 0)
  have h₂ := hop _ _ (.heartbeat 2) 3 (by decide) h₁
  have h₃ := hop _ _ (.unregisterWorker 2) 4 (by decide) h₂
  have h₄ := hop _ _ (.heartbeat 2) 5 (by decide) h₃
  exact hop _ _ (.heartbeat 1) 6 (by decide) h₄

end SilenceDemo

/-- Worker 2 expires at the time 10, before worker 1 with its later Heartbeat. -/
theorem one_expires : Sound 5 SilenceDemo.beats SilenceDemo.loop ∧
    Silent 5 SilenceDemo.beats SilenceDemo.loop 2 10 := by
  obtain ⟨hsound, hsilent⟩ := expires_silent SilenceDemo.runs
  refine ⟨hsound, hsilent 2 10 (.again (SilenceDemo.loop.queue.unregisterWorker 2) 10) ?_⟩
  exact .expire (by decide) (by decide) (by decide) (by decide)

end HeartbeatQueue
end Mitosis
