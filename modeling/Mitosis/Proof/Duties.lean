import Mitosis.Proof.Grounded

namespace Mitosis
set_option autoImplicit true

/-- After every command of every handler the rest of its program is as `Q` asks. -/
def State.Duty (Q : (c : Cmd) → c.Resp → HandlerProg → Prop) (s : State) : Prop :=
  ∀ (i : Nat) (h : Handler), s.pool[i]? = some h → h.prog.After Q

theorem duty_of_path {s₀ s : State} {Q : (c : Cmd) → c.Resp → HandlerProg → Prop}
    (hQ : ∀ c, (program c).After Q) (hc : ∀ r p, Q .cancelToken r p)
    (hp : Path State.step ok s₀ as s) (h₀ : s₀.pool = []) : s.Duty Q := by
  refine hp.invariant (fun i h hi => ?_) fun s a s' hs _ hst i h hi => ?_
  · rw [h₀] at hi
    cases hi
  rcases State.step_origin hst hi with hi | ⟨c, -, -, rfl⟩ | ⟨hd, _, _, rfl⟩ |
    ⟨hd, c, k, r, fault, -, hd₀, hp, -, rfl⟩
  · exact hs i h hi
  · exact hQ c
  · exact fun r => ⟨hc r _, trivial⟩
  · have ha := hs i hd hd₀
    rw [hp] at ha
    rcases Thread.resume_cases program hd (k r) with ⟨-, hr⟩ | ⟨-, hr⟩
    · rw [hr]
      exact hQ _
    · rw [hr]
      exact (ha r).2

/-- What every command of a program has behind it follows from where its arguments come
from. -/
theorem after_of_knows {Q : (c : Cmd) → c.Resp → HandlerProg → Prop} {p : HandlerProg}
    (h : p.Knows need post K) (hQ : ∀ K c r p, need K c → Q c r p) : p.After Q := by
  induction p generalizing K with
  | ret => trivial
  | call c k ih => exact fun r => ⟨hQ K c r (k r) h.1, ih r (h.2 r)⟩

theorem program_after {call : Call} {Q : (c : Cmd) → c.Resp → HandlerProg → Prop}
    (hQ : ∀ K (c : Cmd) r p, c.sourced call K → Q c r p) : (program call).After Q :=
  after_of_knows (program_sourced (.inl rfl)) hQ

open Prog (Promise)

def State.owing (s : State) (P : Call → Prop) (o : Promise Cmd Cmd.Resp) : Prop :=
  ∃ (i : Nat) (h : Handler), s.pool[i]? = some h ∧ P h.call ∧ h.prog.Keeps o

/-- A promise stays made until its first goal is met, unless a response is not good or the
handler is aborted. -/
theorem owing_step {s s' : State} {good : (c : Cmd) → c.Resp → Prop}
    (h : s.owing P ⟨good, g :: gs⟩) (hs : s.step a = some s') :
    s'.owing P ⟨good, g :: gs⟩ ∨
    (∃ (i : Nat) (h : Handler), a = .abortTimeout i ∧ s.pool[i]? = some h ∧ P h.call ∧
      h.isTimeout = true ∧ h.prog.Keeps ⟨good, g :: gs⟩) ∨
    ∃ i c r, s.event a = some (i, ⟨c, r⟩) ∧ (good c r → g c ∧ s'.owing P ⟨good, gs⟩) := by
  obtain ⟨i, hd, hi, hP, hl⟩ := h
  rcases State.step_handler hs hi with hi' | ⟨rfl, ht, -⟩ | ⟨c, k, r, fault, rfl, hp, hx, hi'⟩
  · exact .inl ⟨i, hd, hi', hP, hl⟩
  · exact .inr (.inl ⟨i, hd, rfl, hi, hP, ht, hl⟩)
  have he := (State.event_step hi hp hx).2
  have hP' : P (hd.resume program (k r)).call := by rwa [Thread.resume_call]
  have hkeep {goals} (hk : (k r).Leads good goals) :
      (hd.resume program (k r)).prog.Leads good goals := by
    rcases Thread.resume_cases program hd (k r) with ⟨hr, hr'⟩ | ⟨-, hr'⟩
    · rw [hr] at hk
      cases goals with
      | nil => exact Prog.leads_nil _
      | cons => exact hk.elim
    · rw [hr']
      exact hk
  rw [Prog.Keeps, hp] at hl
  rcases hl with ⟨hg, hl⟩ | hl
  · exact .inr (.inr ⟨i, c, r, he, fun hr => ⟨hg, i, _, hi', hP', hkeep (hl r hr)⟩⟩)
  · by_cases hr : good c r
    · exact .inl ⟨i, _, hi', hP', hkeep (hl r hr)⟩
    · exact .inr (.inr ⟨i, c, r, he, fun hr' => (hr hr').elim⟩)

theorem quiescent_owing {s : State} {good : (c : Cmd) → c.Resp → Prop}
    (hq : s.quiescent = true) : ¬s.owing P ⟨good, g :: gs⟩ := by
  rintro ⟨i, ⟨call, prog⟩, hi, -, hl⟩
  have hr := List.all_eq_true.1 hq _ (List.mem_of_getElem? hi)
  cases prog with
  | ret => exact hl
  | call => cases hr

theorem duty_event {s s' : State} {Q : (c : Cmd) → c.Resp → HandlerProg → Prop} {c : Cmd}
    {r : c.Resp} (hd : s.Duty Q) (hs : s.step a = some s') (he : s.event a = some (i, ⟨c, r⟩))
    (hQ : ¬Q c r (.ret .again)) : ∃ h, s'.pool[i]? = some h ∧ Q c r h.prog := by
  obtain ⟨h, k, hi, hp, hi'⟩ := State.event_handler hs he
  refine ⟨_, hi', ?_⟩
  have ha := hd i h hi
  rw [hp] at ha
  have hq := (ha r).1
  rcases Thread.resume_cases program h (k r) with ⟨hr, -⟩ | ⟨-, hr⟩
  · rw [hr] at hq
    exact (hQ hq).elim
  · rw [hr]
    exact hq

theorem owing_event {s s' : State} {owes : (c : Cmd) → c.Resp → Promise Cmd Cmd.Resp → Prop}
    {c : Cmd} {r : c.Resp} {i : Nat}
    (hd : s.Duty fun c r p => ∀ o, owes c r o → p.Keeps o) (hs : s.step a = some s')
    (he : s.event a = some (i, ⟨c, r⟩)) (ho : owes c r ⟨good, g :: gs⟩)
    (hP : ∀ h : Handler, s.pool[i]? = some h → P h.call) : s'.owing P ⟨good, g :: gs⟩ := by
  obtain ⟨h, k, hi, hp, hi'⟩ := State.event_handler hs he
  have ha := hd i h hi
  rw [hp] at ha
  have hk := (ha r).1 _ ho
  refine ⟨i, _, hi', ?_, ?_⟩
  · rw [Thread.resume_call]
    exact hP h hi
  · rcases Thread.resume_cases program h (k r) with ⟨hr, -⟩ | ⟨-, hr⟩
    · rw [hr] at hk
      exact hk.elim
    · rw [hr]
      exact hk

end Mitosis
