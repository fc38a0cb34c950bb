import Mitosis.Proof.Registered

namespace Mitosis
set_option autoImplicit true

namespace Registry
open Sessions

/-- A group creation replaces the count that it has read. -/
def State.countKept (s : State) : Act Call (Option DbErr) Unit → Bool
  | .step i none =>
    match s.next i with
    | some (.updateCount id count _) =>
      (s.shared.txns.committed.users.find id).all fun user => count = user.groupCount + 1
    | _ => true
  | _ => true

variable {hashPassword : Auth.Md5Password → Nat → Except Mitosis.Error String}

theorem traced {ok : State → Act Call (Option DbErr) Unit → Prop} {s : State}
    (hp : Path (step (system hashPassword)) ok (initial clock) as s) :
    s.Traced (fun _ => Cmd.sourced) ended := by
  apply traced_of_path _ _ hp rfl rfl
  · exact program_sourced hashPassword
  · intro _ _ h
    exact h.elim

theorem countKept_step {s : State} {p : Cmd.Resp (.updateCount uid count time) →
    Prog Cmd Cmd.Resp (Flow (Except Error Reply))} (hok : State.countKept s (.step i none) = true)
    (hi : s.pool[i]? = some ⟨k, .call (.updateCount uid count time) p⟩)
    (hu : s.shared.txns.committed.users.find uid = some user) : count = user.groupCount + 1 := by
  have hnext : s.next i = some (.updateCount uid count time) := by
    rw [next, hi]
    rfl
  simp only [State.countKept, hnext, hu, Option.all_some, decide_eq_true_eq] at hok
  exact hok

theorem registered_of_path {ok : State → Act Call (Option DbErr) Unit → Prop} {s : State}
    (strict : Prop) (hok : strict → ∀ s a, ok s a → State.countKept s a = true)
    (hp : Path (step (system hashPassword)) ok (initial clock) as s) :
    Registered strict s.shared.txns s.log := by
  apply log_invariant (P := fun x log => Registered strict x.txns log)
    (program_sourced hashPassword) _ hp rfl rfl (Registered.initial strict)
  · intro _ x x' log h hx
    obtain ⟨⟩ := hx
    exact h
  · intro s i k fault c p r x _ ha hi hn hx h
    apply h.exec hn _ hx
    rintro hs uid count time rfl rfl user hu
    exact countKept_step (hok hs _ _ ha) hi hu
  · intro _ _ h
    exact h.elim

/-- In every run, each user has exactly one group that bears the username, the user has created
it, and nobody else has created a group that bears a username. -/
theorem personal_groups (clock : Instant) (as : List (Act Call (Option DbErr) Unit)) (s : State)
    (hp : Path (step (system hashPassword)) (fun _ _ => True) (initial clock) as s) :
    (∀ uid user, s.shared.txns.committed.users.find uid = some user → ∃ gid group,
      s.shared.txns.committed.groups.find gid = some group ∧ group.groupName = user.username ∧
      group.creatorId = uid ∧
      ∀ gid' group', s.shared.txns.committed.groups.find gid' = some group' →
        group'.groupName = user.username → gid' = gid) ∧
    ∀ gid group uid user, s.shared.txns.committed.groups.find gid = some group →
      s.shared.txns.committed.users.find uid = some user → group.groupName = user.username →
      group.creatorId = uid := by
  have h : Personal s.shared.txns.committed :=
    (registered_of_path False (fun hf => hf.elim) hp).personal
  constructor
  · intro uid user hu
    obtain ⟨gid, group, hg, hn, hc⟩ := h.own uid user hu
    refine ⟨gid, group, hg, hn, hc, ?_⟩
    intro gid' group' hg' hn'
    exact h.names gid' gid group' group hg' hg (hn'.trans hn.symm)
  · intro gid group uid user hg hu hn
    obtain ⟨gid', group', hg', hn', hc⟩ := h.own uid user hu
    obtain rfl := h.names gid gid' group group' hg hg' (hn.trans hn'.symm)
    obtain rfl := Option.some.inj (hg.symm.trans hg')
    exact hc

/-- In every run in which each group creation replaces the count that it has read, the counts are
the numbers of the groups, and a group that is created is within the quota that was read. -/
theorem group_quota (clock : Instant) (as : List (Act Call (Option DbErr) Unit)) (s : State)
    (hp : Path (step (system hashPassword)) (fun s a => State.countKept s a = true)
      (initial clock) as s) :
    (∀ uid user, s.shared.txns.committed.users.find uid = some user →
      user.groupCount = s.shared.txns.committed.created uid) ∧
    ∀ i fault s' uid name prog group, State.countKept s (.step i fault) = true →
      step (system hashPassword) s (.step i fault) = some s' →
      s.pool[i]? = some ⟨.userCreateGroup uid name, prog⟩ → s.result i = none →
      s'.result i = some (.ok (.group group)) → ∃ quota,
        quotaRead (history i s'.log) = some quota ∧
        s'.shared.txns.committed.created uid ≤ quota := by
  have hreg := registered_of_path True (fun _ _ _ h => h) hp
  refine ⟨hreg.counted trivial, ?_⟩
  intro i fault s' uid name prog group hok hs hi _ hr
  have hp' : Path (step (system hashPassword)) (fun s a => State.countKept s a = true)
      (initial clock) (as ++ [.step i fault]) s' := .snoc hp hok hs
  obtain ⟨t, ht, uid', name', count, time, K, hcall, hK, hg⟩ := (traced hp').result hr
  cases step_cases hs with
  | @step _ _ x k c p r hi' hx =>
    obtain ⟨rfl, rfl⟩ := Thread.mk.inj (Option.some.inj (hi'.symm.trans hi))
    have htk : t.call = .userCreateGroup uid name := by
      rw [List.getElem?_set_self (List.getElem?_eq_some_iff.1 hi').1] at ht
      rw [← Option.some.inj ht]
      exact Thread.resume_call _ _ _
    obtain ⟨rfl, rfl⟩ := Call.userCreateGroup.inj (htk.symm.trans hcall)
    -- the step is the one that commits
    dsimp only at hK
    rw [history_concat_self] at hK
    obtain ⟨he, rfl⟩ := List.cons.inj hK
    obtain ⟨rfl, hr⟩ := Sigma.mk.inj he
    obtain rfl := eq_of_heq hr
    cases fault with
    | some e => cases hx
    | none =>
      obtain ⟨⟩ := hx
      obtain ⟨gid, row, userId, groupId, role, ⟨hcr, quota, hq, hle⟩, ⟨user, hu, hcount⟩,
        ⟨hfree, -⟩, hc⟩ := hreg.grouped_of_commit hg
      refine ⟨quota, ?_, ?_⟩
      · dsimp only
        rw [history_concat_self]
        exact hq
      · dsimp only
        rw [hc]
        have hnew : (grouped s.shared.txns.committed (.setCount uid count time) gid row userId
            groupId role).created uid = s.shared.txns.committed.created uid + 1 := by
          apply (created_set row hfree uid).trans
          rw [if_pos hcr]
        rw [hnew, ← hreg.counted trivial uid user hu, ← hcount trivial]
        exact hle

namespace Demo

def hash (_ : Auth.Md5Password) (_ : Nat) : Except Mitosis.Error String :=
  .ok "$argon2id$v=19$m=19456,t=2,p=1$c2FsdA$aGFzaA"

def steps (i n : Nat) : List (Act Call (Option DbErr) Unit) := List.replicate n (.step i none)

def solo : List (Act Call (Option DbErr) Unit) :=
  .call (.createUser "u" 0 false) :: steps 0 9 ++ .call (.userCreateGroup 1 "g") :: steps 1 9

/-- Two groups are created for one user, with both counts read before one is written. -/
def race : List (Act Call (Option DbErr) Unit) :=
  .call (.createUser "u" 0 false) :: steps 0 9 ++ .call (.userCreateGroup 1 "g") ::
    .call (.userCreateGroup 1 "h") :: steps 1 5 ++ steps 2 5 ++ steps 1 4 ++ steps 2 4

def hasUser (s : State) : Bool := (s.shared.txns.committed.users.find 1).isSome

/-- The last step of a group creation comes next. -/
def creating (s : State) : Bool :=
  hasUser s && State.countKept s (.step 1 none) && (s.result 1).isNone &&
    (s.pool[1]?).any (fun t => creates t.call) &&
    (step (system hash) s (.step 1 none)).any fun s' => made (s'.result 1)
where
  creates : Call → Bool
    | .userCreateGroup uid name => uid = 1 && name = "g"
    | _ => false
  made : Option (Except Error Reply) → Bool
    | some (.ok (.group _)) => true
    | _ => false

def miscounted (s : State) : Bool :=
  s.quiescent && (s.shared.txns.committed.users.find 1).any fun user =>
    user.groupCount ≠ s.shared.txns.committed.created 1

theorem creates_eq (h : creating.creates call = true) : call = .userCreateGroup 1 "g" := by
  unfold creating.creates at h
  split at h
  next =>
    rw [Bool.and_eq_true, decide_eq_true_eq, decide_eq_true_eq] at h
    rw [h.1, h.2]
  next => cases h

theorem made_eq (h : creating.made r = true) : ∃ group, r = some (.ok (.group group)) := by
  unfold creating.made at h
  split at h
  next group => exact ⟨group, rfl⟩
  next => cases h

end Demo

open Demo in
/-- A user with a personal group and another one. -/
theorem solo_personal : ∃ s, Path (step (system hash)) (fun _ _ => True) (initial 0) solo s ∧
    ∃ gid group, s.shared.txns.committed.groups.find gid = some group ∧ group.creatorId = 1 := by
  have hrun : (Path.follow (step (system hash)) (fun _ _ => true) (initial 0) solo).any hasUser =
      true := by decide
  obtain ⟨s, hp, hs⟩ := Path.of_follow_any hrun
  have hp' : Path (step (system hash)) (fun _ _ => True) (initial 0) solo s :=
    hp.mono fun _ _ _ => trivial
  obtain ⟨user, hu⟩ := Option.isSome_iff_exists.1 hs
  obtain ⟨gid, group, hg, -, hc, -⟩ := (personal_groups 0 solo s hp').1 1 user hu
  exact ⟨s, hp', gid, group, hg, hc⟩

open Demo in
/-- A group creation that is alone. -/
theorem solo_quota : ∃ s s' user quota,
    Path (step (system hash)) (fun s a => State.countKept s a = true) (initial 0)
      (solo.dropLast) s ∧ step (system hash) s (.step 1 none) = some s' ∧
    s.shared.txns.committed.users.find 1 = some user ∧
    user.groupCount = s.shared.txns.committed.created 1 ∧
    s'.shared.txns.committed.created 1 ≤ quota := by
  have hrun : (Path.follow (step (system hash)) State.countKept (initial 0) solo.dropLast).any
      creating = true := by decide
  obtain ⟨s, hp, hs⟩ := Path.of_follow_any hrun
  simp only [creating, Bool.and_eq_true, Option.any_eq_true, Option.isNone_iff_eq_none] at hs
  obtain ⟨⟨⟨⟨hu, hok⟩, hn⟩, ⟨k, prog⟩, hi, hk⟩, s', hs', hm⟩ := hs
  obtain ⟨user, hu⟩ := Option.isSome_iff_exists.1 hu
  obtain rfl := creates_eq hk
  obtain ⟨group, hr⟩ := made_eq hm
  obtain ⟨hcount, hquota⟩ := group_quota 0 solo.dropLast s hp
  obtain ⟨quota, -, hle⟩ := hquota 1 none s' 1 "g" prog group hok hs' hi hn hr
  exact ⟨s, s', user, quota, hp, hs', hu, hcount 1 user hu, hle⟩

open Demo in
/-- Two group creations that read one count add one to it. -/
theorem group_count_lost : ∃ s, Path (step (system hash)) (fun _ _ => True) (initial 0) race s ∧
    s.quiescent = true ∧ ∃ user, s.shared.txns.committed.users.find 1 = some user ∧
      user.groupCount ≠ s.shared.txns.committed.created 1 := by
  have hrun : (Path.follow (step (system hash)) (fun _ _ => true) (initial 0) race).any
      miscounted = true := by decide
  obtain ⟨s, hp, hs⟩ := Path.of_follow_any hrun
  simp only [miscounted, Bool.and_eq_true, Option.any_eq_true, decide_eq_true_eq] at hs
  obtain ⟨hq, user, hu, hne⟩ := hs
  exact ⟨s, hp.mono fun _ _ _ => trivial, hq, user, hu, hne⟩

end Registry
end Mitosis
