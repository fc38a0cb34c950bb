import Mitosis.Lib.Alone
import Mitosis.Lib.Runs
import Mitosis.Proof.Reads
import Mitosis.Proof.StorageAlone

namespace Mitosis
set_option autoImplicit true

namespace Storage

structure Bucketed where
  infra : Infra
  bucket : Object → Bool

def without (bucket : Object → Bool) (object : Object) : Object → Bool :=
  fun o => bucket o && o ≠ object

/-- A command of a session, where a deletion of the object store is carried out. -/
def Cmd.execBucketed (i : Nat) (fault : Option DbErr) (x : Bucketed) (c : Cmd) :
    Option (c.Resp × Bucketed) :=
  (c.exec i fault x.infra).map fun r => (r.1, ⟨r.2, match c, fault with
    | .deleteObject object, none => without x.bucket object
    | _, _ => x.bucket⟩)

/-- What a command does to the bucket while the others stand still. -/
def Cmd.carried (i : Nat) (c : Cmd) (x : Bucketed) (r : c.Resp) (x' : Bucketed) : Prop :=
  ∃ fault, c.execBucketed i fault x = some (r, x')

theorem Cmd.alone_of_carried {c : Cmd} {r : c.Resp} (h : c.carried i x r x') :
    c.alone i x.infra r x'.infra := by
  obtain ⟨fault, hx⟩ := h
  obtain ⟨⟨r', y⟩, hy, he⟩ := Option.map_eq_some_iff.1 hx
  obtain ⟨⟩ := he
  exact ⟨fault, hy⟩

/-- The commands that stay within a transaction. -/
def Cmd.inner : Cmd → Bool
  | .start | .commit | .rollback => false
  | _ => true

def Cmd.sparing : Cmd → Bool
  | .deleteObject _ => false
  | _ => true

/-- A command within an open transaction leaves what is committed. -/
theorem Cmd.committed_of_inner {c : Cmd} {r : c.Resp} (hc : c.inner = true)
    (hi : (x.txns.opened.find i).isSome = true) (h : c.alone i x r x') :
    x'.txns.committed = x.txns.committed ∧ (x'.txns.opened.find i).isSome = true := by
  obtain ⟨fault, hx⟩ := h
  cases c with
  | start | commit | rollback => cases hc
  | update q =>
    cases fault with
    | some e =>
      obtain ⟨⟩ := hx
      exact ⟨rfl, hi⟩
    | none =>
      obtain ⟨⟨r', txns⟩, hr, he⟩ := Option.map_eq_some_iff.1 hx
      obtain ⟨⟩ := he
      obtain ⟨ws, hws⟩ := Option.isSome_iff_exists.1 hi
      obtain ⟨-, ⟨e, -, -, rfl⟩ | ⟨a, new, -, -, rfl⟩⟩ := Txns.execute_cases hr
      · exact ⟨rfl, hi⟩
      · simp only [Txns.write, hws, Table.find_set_self, Option.isSome_some, and_self]
  | _ =>
    cases fault with
    | some e =>
      obtain ⟨⟩ := hx
      exact ⟨rfl, hi⟩
    | none =>
      obtain ⟨⟩ := hx
      exact ⟨rfl, hi⟩

theorem Cmd.opened_of_ne {c : Cmd} {r : c.Resp} (hj : j ≠ i) (h : c.alone i x r x') :
    x'.txns.opened.find j = x.txns.opened.find j := by
  obtain ⟨fault, hx⟩ := h
  cases c with
  | update q =>
    cases fault with
    | some e =>
      obtain ⟨⟩ := hx
      rfl
    | none =>
      obtain ⟨⟨r', txns⟩, hr, he⟩ := Option.map_eq_some_iff.1 hx
      obtain ⟨⟩ := he
      obtain ⟨-, ⟨e, -, -, rfl⟩ | ⟨a, new, -, -, rfl⟩⟩ := Txns.execute_cases hr
      · rfl
      · unfold Txns.write
        split
        next => rfl
        next => exact Table.find_set_ne _ _ hj
  | start =>
    cases fault with
    | some e =>
      obtain ⟨⟩ := hx
      rfl
    | none =>
      obtain ⟨⟩ := hx
      exact Table.find_set_ne _ _ hj
  | commit =>
    cases fault with
    | some e =>
      obtain ⟨⟩ := hx
      exact Table.find_erase_ne _ hj
    | none =>
      obtain ⟨⟩ := hx
      exact Table.find_erase_ne _ hj
  | rollback =>
    obtain ⟨⟩ := hx
    exact Table.find_erase_ne _ hj
  | _ =>
    cases fault with
    | some e =>
      obtain ⟨⟩ := hx
      rfl
    | none =>
      obtain ⟨⟩ := hx
      rfl

theorem Cmd.bucket_of_sparing {c : Cmd} {r : c.Resp} (hc : c.sparing = true)
    (h : c.carried i x r x') : x'.bucket = x.bucket := by
  obtain ⟨fault, hx⟩ := h
  obtain ⟨⟨r', y⟩, -, he⟩ := Option.map_eq_some_iff.1 hx
  obtain ⟨⟩ := he
  cases c with
  | deleteObject => cases hc
  | _ => rfl

namespace Service
open Fallible (Keeps runs_bind_error)

/-- The part of a handler run alone on the bucket. -/
abbrev Carries (i : Nat) (p : Service α) (x : Bucketed) (r : Except Error α) (x' : Bucketed) :
    Prop := Fallible.Runs (Cmd.carried i) p x r x'

theorem Carries.runs {p : Service α} (h : Carries i p x r x') : Runs i p x.infra r x'.infra :=
  Prog.Runs.map Bucketed.infra (fun _ _ _ _ => Cmd.alone_of_carried) h

theorem carries_transaction_error {p : Service α}
    (hp : Keeps (fun _ c => c.inner = true) (fun _ => True) p)
    (h : Carries i (transaction p) x (.error e) x') :
    x'.infra.txns.committed = x.infra.txns.committed ∧
      (x.infra.txns.opened.find i = none → x'.infra.txns.opened.find i = none) ∧
      (x'.bucket = x.bucket ∨
        ∃ r y z, Carries i p y r z ∧ y.bucket = x.bucket ∧ x'.bucket = z.bucket) := by
  unfold transaction at h
  rcases (runs_bind_error _ _).1 h with hs | ⟨_, y, hs, h⟩
  · obtain ⟨fault, hx⟩ := (Fallible.runs_issue _).1 hs
    cases fault with
    | some =>
      obtain ⟨⟩ := hx
      exact ⟨rfl, fun ho => ho, .inl rfl⟩
    | none => cases hx
  · obtain ⟨fault, hx⟩ := (Fallible.runs_issue _).1 hs
    cases fault with
    | some => cases hx
    | none =>
      obtain ⟨⟩ := hx
      rcases (runs_bind_error _ _).1 h with hp' | ⟨r, z, hp', h⟩
      · obtain ⟨r, -, he⟩ := (Fallible.runs_attempt _).1 hp'
        cases he
      · obtain ⟨r', hp', he⟩ := (Fallible.runs_attempt _).1 hp'
        obtain ⟨⟩ := he
        have hopen : ((x.infra.txns.start i).opened.find i).isSome = true := by
          rw [Txns.start, Table.find_set_self]
          rfl
        obtain ⟨hz, -⟩ := (Carries.runs hp').invariant (P := fun y =>
            y.txns.committed = x.infra.txns.committed ∧ (y.txns.opened.find i).isSome = true) hp
          (fun c s r s' hc hx hs => by
            obtain ⟨hcom, hop⟩ := Cmd.committed_of_inner hc hs.2 hx
            exact ⟨hcom.trans hs.1, hop⟩) ⟨rfl, hopen⟩
        cases r with
        | error e' =>
          rcases (runs_bind_error _ _).1 h with hr | ⟨_, t, hr, h⟩
          · obtain ⟨fault, hx⟩ := (Fallible.runs_issue _).1 hr
            cases hx
          · obtain ⟨fault, hx⟩ := (Fallible.runs_issue _).1 hr
            obtain ⟨-, rfl⟩ := (Fallible.runs_fail _).1 h
            obtain ⟨⟩ := hx
            exact ⟨hz, fun _ => Table.find_erase_self _ _, .inr ⟨_, _, z, hp', rfl, rfl⟩⟩
        | ok a =>
          rcases (runs_bind_error _ _).1 h with hc | ⟨_, t, -, h⟩
          · obtain ⟨fault, hx⟩ := (Fallible.runs_issue _).1 hc
            cases fault with
            | none => cases hx
            | some =>
              obtain ⟨⟩ := hx
              exact ⟨hz, fun _ => Table.find_erase_self _ _, .inr ⟨_, _, z, hp', rfl, rfl⟩⟩
          · obtain ⟨he, -⟩ := (Fallible.runs_pure _).1 h
            cases he

theorem carries_transaction_ok {p : Service α} (h : Carries i (transaction p) x (.ok a) x') :
    ∃ y z, Within i x.infra.txns.committed [] y.infra ∧ y.infra.clock = x.infra.clock ∧
      y.bucket = x.bucket ∧ Carries i p y (.ok a) z ∧ x'.infra.txns = z.infra.txns.commit i ∧
      x'.bucket = z.bucket := by
  unfold transaction at h
  obtain ⟨_, y, hs, h⟩ := (Fallible.runs_bind_ok _ _).1 h
  obtain ⟨r, z, hp, h⟩ := (Fallible.runs_bind_ok _ _).1 h
  obtain ⟨r', hp, hr⟩ := (Fallible.runs_attempt _).1 hp
  obtain ⟨⟩ := hr
  obtain ⟨fault, hx⟩ := (Fallible.runs_issue _).1 hs
  cases fault with
  | some e => cases hx
  | none =>
    obtain ⟨⟩ := hx
    have hw : Within i x.infra.txns.committed []
        { x.infra with txns := x.infra.txns.start i } :=
      ⟨Table.find_set_self x.infra.txns.opened i [], rfl⟩
    cases r with
    | error e =>
      obtain ⟨_, t, -, h⟩ := (Fallible.runs_bind_ok _ _).1 h
      obtain ⟨h, -⟩ := (Fallible.runs_fail _).1 h
      cases h
    | ok b =>
      obtain ⟨_, t, hc, h⟩ := (Fallible.runs_bind_ok _ _).1 h
      obtain ⟨hab, rfl⟩ := (Fallible.runs_pure _).1 h
      obtain ⟨⟩ := hab
      obtain ⟨fault, hx⟩ := (Fallible.runs_issue _).1 hc
      cases fault with
      | some e => cases hx
      | none =>
        obtain ⟨⟩ := hx
        exact ⟨⟨{ x.infra with txns := x.infra.txns.start i }, x.bucket⟩, z, hw, rfl, rfl, hp, rfl,
          rfl⟩

/-- The run has ended in an error, with nothing done. -/
def Stuck (x : Bucketed) (r : Except Error α) (x' : Bucketed) : Prop :=
  x' = x ∧ ∃ e, r = .error e

theorem carries_select {q : Select} {f : q.Ret → Service α} {r : Except Error α}
    (h : Carries i (select q >>= f) x r x') :
    Stuck x r x' ∨ Carries i (f (q.eval (x.infra.txns.view i))) x r x' := by
  rcases (Fallible.runs_bind _ _).1 h with ⟨a, y, hs, h⟩ | ⟨e, hs, rfl⟩
  · obtain ⟨fault, hx⟩ := (Fallible.runs_issue _).1 hs
    cases fault with
    | some => cases hx
    | none =>
      obtain ⟨⟩ := hx
      exact .inr h
  · obtain ⟨fault, hx⟩ := (Fallible.runs_issue _).1 hs
    cases fault with
    | some =>
      obtain ⟨⟩ := hx
      exact .inl ⟨rfl, _, rfl⟩
    | none => cases hx

theorem carries_now {f : Instant → Service α} {r : Except Error α}
    (h : Carries i (now >>= f) x r x') : Carries i (f x.infra.clock) x r x' := by
  rcases (Fallible.runs_bind _ _).1 h with ⟨a, y, hs, h⟩ | ⟨e, hs, rfl⟩
  · obtain ⟨fault, hx⟩ := (Fallible.runs_issue _).1 hs
    obtain ⟨⟩ := hx
    exact h
  · obtain ⟨fault, hx⟩ := (Fallible.runs_issue _).1 hs
    cases hx

theorem carries_okOr {o : Option β} {f : β → Service α} {r : Except Error α}
    (h : Carries i (Fallible.okOr e o >>= f) x r x') :
    Stuck x r x' ∨ ∃ b, o = some b ∧ Carries i (f b) x r x' := by
  cases o with
  | none =>
    rcases (Fallible.runs_bind _ _).1 h with ⟨b, y, hs, h⟩ | ⟨e', hs, rfl⟩
    · cases ((Fallible.runs_fail _).1 hs).1
    · exact .inl ⟨((Fallible.runs_fail _).1 hs).2.symm, _, rfl⟩
  | some b =>
    rcases (Fallible.runs_bind _ _).1 h with ⟨b', y, hs, h⟩ | ⟨e', hs, rfl⟩
    · obtain ⟨⟨⟩, rfl⟩ := (Fallible.runs_pure _).1 hs
      exact .inr ⟨b, rfl, h⟩
    · cases ((Fallible.runs_pure _).1 hs).1

theorem stuck_fail {r : Except Error α} (h : Carries i (Fallible.fail e) x r x') :
    Stuck x r x' := ⟨((Fallible.runs_fail _).1 h).2.symm, e, ((Fallible.runs_fail _).1 h).1.symm⟩

end Service

def Store.storedTask (s : Store) (uuid : Uuid) : Option Db.StoredTask :=
  match (Select.db (.activeByUuid uuid)).eval s with
  | some (t, task) => some (.active t task)
  | none => ((Select.db (.archivedByUuid uuid)).eval s).map fun e => .archived e.1 e.2

namespace Service

theorem carries_findTaskByUuid {f : Db.StoredTask → Service α} {r : Except Error α}
    (h : Carries i (findTaskByUuid uuid >>= f) x r x') :
    Stuck x r x' ∨ ∃ task, (x.infra.txns.view i).storedTask uuid = some task ∧
      Carries i (f task) x r x' := by
  unfold findTaskByUuid at h
  rw [Fallible.bind_assoc] at h
  rcases carries_select h with hs | h
  · exact .inl hs
  · unfold Store.storedTask
    cases hf : (Select.db (.activeByUuid uuid)).eval (x.infra.txns.view i) with
    | some e =>
      rw [hf] at h
      exact .inr ⟨_, rfl, h⟩
    | none =>
      simp only [hf, Fallible.bind_assoc] at h
      rcases carries_select h with hs | h
      · exact .inl hs
      · rcases carries_okOr h with hs | ⟨e, he, h⟩
        · exact .inl hs
        · refine .inr ⟨_, ?_, h⟩
          rw [he]
          rfl

end Service
end Storage
end Mitosis
