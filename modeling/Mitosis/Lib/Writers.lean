import Mathlib

namespace Mitosis
set_option autoImplicit true

/-! Tasks that write files concurrently, each through a handle of its own. -/

namespace Writers
variable {P B : Type}

/-- What a task still has to do: a task that writes stands at a position of its file. -/
inductive Phase (B : Type) where
  | waiting (body : List B)
  | writing (pos : Nat) (rest : List B)
  | done
  | failed

structure Task (P B : Type) where
  place : Option P
  phase : Phase B

structure State (P B : Type) where
  files : P → Option (List B)
  tasks : List (Task P B)

def initial (files : P → Option (List B)) (tasks : List (Option P × List B)) : State P B :=
  ⟨files, tasks.map fun t => ⟨t.1, .waiting t.2⟩⟩

/-- The file behind a write. A gap before the position is filled. -/
def writeAt (gap : B) (file : List B) (pos : Nat) (chunk : List B) : List B :=
  file.take pos ++ List.replicate (pos - file.length) gap ++ chunk ++ file.drop (pos + chunk.length)

theorem writeAt_end (gap : B) (file chunk : List B) :
    writeAt gap file file.length chunk = file ++ chunk := by
  simp [writeAt]

def Task.isWriting (t : Task P B) : Bool :=
  match t.phase with
  | .writing _ _ => true
  | _ => false

def Holds (files : P → Option (List B)) (body : List B) (t : Task P B) : Prop :=
  match t.phase with
  | .waiting b => b = body
  | .writing pos rest => ∃ p written, t.place = some p ∧ files p = some written ∧
      written.length = pos ∧ written ++ rest = body
  | .done => ∃ p, t.place = some p ∧ files p = some body
  | .failed => True

structure Inv (places : List (Option P)) (bodies : List (List B)) (s : State P B) : Prop where
  places : s.tasks.map Task.place = places
  holds : ∀ (i : Nat) t body, s.tasks[i]? = some t → bodies[i]? = some body →
    Holds s.files body t

def Distinct (places : List (Option P)) : Prop := ∀ (i j : Nat) p, places[i]? = some (some p) →
  places[j]? = some (some p) → i = j

section
variable {places : List (Option P)} {bodies : List (List B)} {s : State P B}

theorem Inv.initial (files : P → Option (List B)) (tasks : List (Option P × List B)) :
    Inv (tasks.map Prod.fst) (tasks.map Prod.snd) (initial files tasks) := by
  constructor
  · exact List.map_map
  · intro i t body ht hb
    simp only [Writers.initial, List.getElem?_map, Option.map_eq_some_iff] at ht hb
    obtain ⟨e, he, rfl⟩ := ht
    obtain ⟨e', he', rfl⟩ := hb
    obtain rfl := Option.some.inj (he.symm.trans he')
    exact rfl

theorem Inv.task (h : Inv places bodies s) {i : Nat} {t : Task P B} (ht : s.tasks[i]? = some t)
    (phase : Phase B) {files : P → Option (List B)}
    (hself : ∀ body, Holds s.files body t → Holds files body ⟨t.place, phase⟩)
    (hother : ∀ (j : Nat) u body, j ≠ i → s.tasks[j]? = some u → Holds s.files body u →
      Holds files body u) : Inv places bodies ⟨files, s.tasks.set i ⟨t.place, phase⟩⟩ := by
  have hi : i < s.tasks.length := (List.getElem?_eq_some_iff.1 ht).1
  constructor
  · rw [← h.places]
    apply List.ext_getElem?
    intro j
    rw [List.getElem?_map, List.getElem?_map]
    by_cases hj : j = i
    · subst hj
      rw [List.getElem?_set_self hi, ht]
      rfl
    · rw [List.getElem?_set_ne (Ne.symm hj)]
  · intro j u body hu hb
    by_cases hj : j = i
    · subst hj
      rw [List.getElem?_set_self hi] at hu
      obtain rfl := Option.some.inj hu
      exact hself body (h.holds j t body ht hb)
    · rw [List.getElem?_set_ne (Ne.symm hj)] at hu
      exact hother j u body hj hu (h.holds j u body hu hb)

theorem Inv.other (h : Inv places bodies s) (hd : Distinct places) {i j : Nat} {t u : Task P B}
    {p : P} (ht : s.tasks[i]? = some t) (hp : t.place = some p) (hu : s.tasks[j]? = some u)
    (hj : j ≠ i) : u.place ≠ some p := by
  intro hq
  apply hj
  apply hd j i p
  · rw [← h.places, List.getElem?_map, hu, Option.map_some, hq]
  · rw [← h.places, List.getElem?_map, ht, Option.map_some, hp]

end

variable [DecidableEq P]

/-- The step of one task, where at most `limit` tasks write at a time. -/
inductive Step (gap : B) (limit : Nat) : State P B → State P B → Prop
  | create {files : P → Option (List B)} {tasks : List (Task P B)} {i : Nat} {p : P}
    {body : List B} : tasks[i]? = some ⟨some p, .waiting body⟩ →
    tasks.countP Task.isWriting < limit →
    Step gap limit ⟨files, tasks⟩
      ⟨Function.update files p (some []), tasks.set i ⟨some p, .writing 0 body⟩⟩
  | write {files : P → Option (List B)} {tasks : List (Task P B)} {i : Nat} {p : P} {pos : Nat}
    {chunk rest file : List B} : tasks[i]? = some ⟨some p, .writing pos (chunk ++ rest)⟩ →
    files p = some file →
    Step gap limit ⟨files, tasks⟩
      ⟨Function.update files p (some (writeAt gap file pos chunk)),
        tasks.set i ⟨some p, .writing (pos + chunk.length) rest⟩⟩
  | finish {files : P → Option (List B)} {tasks : List (Task P B)} {i : Nat} {place : Option P}
    {pos : Nat} : tasks[i]? = some ⟨place, .writing pos []⟩ →
    Step gap limit ⟨files, tasks⟩ ⟨files, tasks.set i ⟨place, .done⟩⟩
  | fail {files : P → Option (List B)} {tasks : List (Task P B)} {i : Nat} {t : Task P B} :
    tasks[i]? = some t → t.phase ≠ .done →
    Step gap limit ⟨files, tasks⟩ ⟨files, tasks.set i ⟨t.place, .failed⟩⟩

variable {places : List (Option P)} {bodies : List (List B)} {gap : B} {limit : Nat}
  {s s' : State P B}

theorem Holds.update {files : P → Option (List B)} {body : List B} {t : Task P B} {p : P}
    (h : Holds files body t) (hp : t.place ≠ some p) (content : Option (List B)) :
    Holds (Function.update files p content) body t := by
  have hne : ∀ q, t.place = some q → Function.update files p content q = files q := by
    intro q hq
    apply Function.update_of_ne
    rintro rfl
    exact hp hq
  obtain ⟨place, phase⟩ := t
  cases phase with
  | waiting b => exact h
  | failed => trivial
  | writing pos rest =>
    obtain ⟨q, written, hq, hf, hl⟩ := h
    exact ⟨q, written, hq, (hne q hq).trans hf, hl⟩
  | done =>
    obtain ⟨q, hq, hf⟩ := h
    exact ⟨q, hq, (hne q hq).trans hf⟩

theorem Inv.step (hd : Distinct places) (h : Inv places bodies s) (hs : Step gap limit s s') :
    Inv places bodies s' := by
  cases hs with
  | create ht =>
    apply h.task ht (.writing 0 _)
    · intro body hb
      exact ⟨_, [], rfl, Function.update_self _ _ _, rfl, hb⟩
    · intro j u body hj hu hb
      exact hb.update (h.other hd ht rfl hu hj) _
  | @write _ _ _ _ _ chunk _ _ ht hf =>
    apply h.task ht (.writing _ _)
    · rintro body ⟨q, written, hq, hw, hl, hb⟩
      obtain rfl := Option.some.inj hq
      obtain rfl := Option.some.inj (hw.symm.trans hf)
      refine ⟨_, written ++ chunk, rfl, ?_, ?_, ?_⟩
      · rw [Function.update_self, ← hl, writeAt_end]
      · rw [List.length_append, hl]
      · rw [List.append_assoc, hb]
    · intro j u body hj hu hb
      exact hb.update (h.other hd ht rfl hu hj) _
  | finish ht =>
    apply h.task ht .done
    · rintro body ⟨q, written, hq, hw, hl, hb⟩
      rw [List.append_nil] at hb
      exact ⟨q, hq, hb ▸ hw⟩
    · exact fun _ _ _ _ _ hb => hb
  | fail ht =>
    apply h.task ht .failed
    · exact fun _ _ => trivial
    · exact fun _ _ _ _ _ hb => hb

theorem Inv.run (hd : Distinct places) (h : Inv places bodies s)
    (hr : Relation.ReflTransGen (Step gap limit) s s') : Inv places bodies s' := by
  induction hr with
  | refl => exact h
  | tail _ hs ih => exact ih.step hd hs

theorem written_of_done {files : P → Option (List B)} {tasks : List (Option P × List B)}
    (hd : Distinct (tasks.map Prod.fst))
    (hr : Relation.ReflTransGen (Step gap limit) (initial files tasks) s)
    (hdone : ∀ t ∈ s.tasks, t.phase = .done) {place : Option P} {body : List B}
    (ht : (place, body) ∈ tasks) : ∃ p, place = some p ∧ s.files p = some body := by
  have hinv := (Inv.initial files tasks).run hd hr
  obtain ⟨i, hi⟩ := List.mem_iff_getElem?.1 ht
  have hplace : (s.tasks.map Task.place)[i]? = some place := by
    rw [hinv.places, List.getElem?_map, hi]
    rfl
  have hbody : (tasks.map Prod.snd)[i]? = some body := by
    rw [List.getElem?_map, hi]
    rfl
  rw [List.getElem?_map, Option.map_eq_some_iff] at hplace
  obtain ⟨t, hti, rfl⟩ := hplace
  have hholds := hinv.holds i t body hti hbody
  rw [Holds, hdone t (List.mem_of_getElem? hti)] at hholds
  exact hholds

end Writers
end Mitosis
