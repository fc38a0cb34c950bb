import Mitosis.Auth

namespace Mitosis
set_option autoImplicit true

namespace Auth
open Sessions

abbrev Event : Type := Sent Cmd Cmd.Resp Call

def reads (e : Entry Cmd Cmd.Resp) : Option (UserId × UserModel) :=
  match e with
  | ⟨.userByName _, .ok user⟩ => user
  | ⟨.userById _, .ok user⟩ => user
  | _ => none

def draws (e : Entry Cmd Cmd.Resp) : Option Int :=
  match e with
  | ⟨.drawSign, .ok sign⟩ => some sign
  | _ => none

def writes (e : Entry Cmd Cmd.Resp) : Option (UserId × Int) :=
  match e with
  | ⟨.signIn user sign _ _, .ok _⟩ => some (user.1, sign)
  | ⟨.changePassword user _ sign _ _, .ok _⟩ => some (user.1, sign)
  | ⟨.resetPassword user _ sign _, .ok _⟩ => some (user.1, sign)
  | _ => none

def issues (e : Entry Cmd Cmd.Resp) : Option ((UserId × UserModel) × Int) :=
  match e with
  | ⟨.signIn user sign _ _, .ok _⟩ => some (user, sign)
  | ⟨.changePassword user _ sign _ _, .ok _⟩ => some (user, sign)
  | _ => none

def issuesToken (e : Entry Cmd Cmd.Resp) (token : TokenClaims) : Prop :=
  ∃ user, issues e = some (user, token.sign) ∧ user.2.username = token.sub

def changes (e : Entry Cmd Cmd.Resp) : Option UserId :=
  match e with
  | ⟨.changePassword user _ _ _ _, .ok _⟩ => some user.1
  | ⟨.resetPassword user _ _ _, .ok _⟩ => some user.1
  | _ => none

/-- Since its session began, the password of the account has not been changed. -/
def unchangedSince (i : Nat) (u : UserId) (log : List Event) : Bool :=
  (log.dropWhile fun e => e.session ≠ i).all fun e => changes e.entry ≠ some u

/-- A login writes its signature only if the password it has verified is still the current
one. -/
def State.verifies (s : State) : Act Call (Option DbErr) Unit → Bool
  | .step i none =>
    match s.next i with
    | some (.signIn user _ _ _) => unchangedSince i user.1 s.log
    | _ => true
  | _ => true

/-- No token from before a password change is accepted, and none from a login with another
password than the current one. -/
structure Revoked (argon2 : Argon2) (s : State) : Prop where
  returned : ∀ i token, s.result i = some (.ok (some token)) →
    ∃ e ∈ s.log, e.session = i ∧ issuesToken e.entry token
  before : ∀ token user, userAuth s.shared token = .ok user → ∀ pre e post,
    s.log = pre ++ e :: post → issuesToken e.entry token →
    ∀ e' ∈ post, changes e'.entry ≠ some user.1
  password : ∀ token user, userAuth s.shared token = .ok user → ∀ e ∈ s.log,
    issuesToken e.entry token → ∀ name p retain ip, e.call = .userLogin name p retain ip →
    argon2.verifyPassword p user.2.encryptedPassword = .ok true

/-- Where the arguments of a command come from. -/
def Cmd.sourced (argon2 : Argon2) (call : Call) (K : Fallible.History Cmd Cmd.Ret Error) :
    Cmd → Prop
  | .signIn user sign _ _ => (∀ e ∈ K, writes e = none) ∧ ∃ name p retain ip,
      call = .userLogin name p retain ip ∧ ⟨.userByName name, .ok (some user)⟩ ∈ K ∧
      argon2.verifyPassword p user.2.encryptedPassword = .ok true ∧
      (user.2.authSignature = some sign ∨ ⟨.drawSign, .ok sign⟩ ∈ K)
  | .changePassword user _ sign _ _ => (∀ e ∈ K, writes e = none) ∧
      (∃ id ip name p p', call = .userChangePassword id ip name p p' ∧
        ⟨.userById id, .ok (some user)⟩ ∈ K) ∧ ⟨.drawSign, .ok sign⟩ ∈ K
  | .resetPassword _ _ sign _ => (∀ e ∈ K, writes e = none) ∧ ⟨.drawSign, .ok sign⟩ ∈ K
  | _ => True

def returned (K : Fallible.History Cmd Cmd.Ret Error) :
    Flow (Except Error (Option TokenClaims)) → Prop
  | .again => False
  | .done r => ∀ token, r = .ok (some token) → ∃ e ∈ K, ∃ user,
      issues e = some (user, token.sign) ∧
      (user.2.username = token.sub ∨ ⟨.userByName token.sub, .ok (some user)⟩ ∈ K)

theorem returned_error : returned K (.done (Except.map f (.error e))) := by
  intro token h
  cases h

theorem loginSign_sourced {post : Fallible.History Cmd Cmd.Ret Error → Except Error Int → Prop}
    (hread : ∀ sign, user.authSignature = some sign → post K (.ok sign))
    (hdrawn : ∀ sign, post (⟨.drawSign, .ok sign⟩ :: K) (.ok sign))
    (herror : ∀ e, post (⟨.drawSign, .error e⟩ :: K) (.error e)) :
    Fallible.Knows (Cmd.sourced argon2 k) K (loginSign user retain) post := by
  unfold loginSign
  split
  next sign hs => exact hread sign hs
  next =>
    rw [Fallible.knows_issue]
    exact ⟨trivial, forall_except.2 ⟨hdrawn, herror⟩⟩

theorem userLogin_sourced : (program argon2 tokenExpiresIn (.userLogin name p retain ip)).Knows
    (Cmd.sourced argon2 (.userLogin name p retain ip)) returned [] := by
  rw [program, Fallible.knows_once, userLogin, Fallible.knows_bind, Fallible.knows_issue]
  refine ⟨trivial, forall_except.2 ⟨?_, fun _ => returned_error⟩⟩
  intro found
  cases found with
  | none => exact returned_error
  | some user =>
    dsimp only
    split
    next => exact returned_error
    next =>
      rw [Fallible.knows_bind, Fallible.knows_ofExcept]
      cases hv : argon2.verifyPassword p user.2.encryptedPassword with
      | error => exact returned_error
      | ok verified =>
        cases verified with
        | false => exact returned_error
        | true =>
          dsimp only
          rw [if_pos rfl, Fallible.knows_bind]
          apply loginSign_sourced
          · intro sign hs
            simp only [Fallible.knows_bind, Fallible.knows_issue, Fallible.knows_pure,
              forall_except, returned_error, implies_true, and_true]
            refine ⟨trivial, fun now => ⟨⟨?_, name, p, retain, ip, rfl, ?_, hv, .inl hs⟩, ?_⟩⟩
            · simp [writes]
            · simp
            · intro row token h
              obtain ⟨⟩ := h
              exact ⟨_, .head _, user, rfl, .inr (by simp [generateToken])⟩
          · intro sign
            simp only [Fallible.knows_bind, Fallible.knows_issue, Fallible.knows_pure,
              forall_except, returned_error, implies_true, and_true]
            refine ⟨trivial, fun now => ⟨⟨?_, name, p, retain, ip, rfl, ?_, hv, .inr ?_⟩, ?_⟩⟩
            · simp [writes]
            · simp
            · simp
            · intro row token h
              obtain ⟨⟩ := h
              exact ⟨_, .head _, user, rfl, .inr (by simp [generateToken])⟩
          · exact fun e => returned_error

theorem userChangePassword_sourced :
    (program argon2 tokenExpiresIn (.userChangePassword uid ip name p p')).Knows
      (Cmd.sourced argon2 (.userChangePassword uid ip name p p')) returned [] := by
  rw [program, Fallible.knows_once, userChangePassword, Fallible.knows_bind,
    Fallible.knows_issue]
  refine ⟨trivial, forall_except.2 ⟨?_, fun _ => returned_error⟩⟩
  intro found
  cases found with
  | none => exact returned_error
  | some user =>
    dsimp only
    rw [Fallible.knows_bind, Fallible.okOr]
    change Fallible.Knows _ _ (ite _ _ _) _
    split
    next => exact returned_error
    next hn =>
      split
      next => exact returned_error
      next =>
        rw [Fallible.knows_bind, Fallible.knows_ofExcept]
        cases hv : argon2.verifyPassword p user.2.encryptedPassword with
        | error => exact returned_error
        | ok verified =>
          cases verified with
          | false => exact returned_error
          | true =>
            dsimp only
            rw [if_pos rfl, Fallible.knows_bind, Fallible.knows_issue]
            refine ⟨trivial, forall_except.2 ⟨?_, fun _ => returned_error⟩⟩
            intro salt
            dsimp only
            rw [Fallible.knows_bind, Fallible.knows_ofExcept]
            cases hh : argon2.hashPassword p' salt with
            | error => exact returned_error
            | ok passwordHash =>
              simp only [Fallible.knows_bind, Fallible.knows_issue, Fallible.knows_pure,
                forall_except, returned_error, implies_true, and_true]
              refine ⟨trivial, fun sign => ⟨trivial, fun now => ⟨⟨?_, ⟨uid, ip, name, p, p', rfl, ?_⟩,
                ?_⟩, ?_⟩⟩⟩
              · simp [writes]
              · simp
              · simp
              · intro row token h
                obtain ⟨⟩ := h
                exact ⟨_, .head _, user, rfl, .inl (Decidable.not_not.1 hn)⟩

theorem adminChangePassword_sourced :
    (program argon2 tokenExpiresIn (.adminChangePassword name p)).Knows
      (Cmd.sourced argon2 (.adminChangePassword name p)) returned [] := by
  rw [program, Fallible.knows_once, adminChangePassword, Fallible.knows_bind,
    Fallible.knows_issue]
  refine ⟨trivial, forall_except.2 ⟨?_, fun _ => returned_error⟩⟩
  intro found
  cases found with
  | none => exact returned_error
  | some user =>
    simp only [Fallible.knows_bind, Fallible.knows_issue, Fallible.knows_pure, Fallible.knows_okOr,
      Fallible.knows_ofExcept, forall_except, returned_error, implies_true, and_true]
    intro _ _
    refine ⟨trivial, ?_⟩
    intro salt
    cases hh : argon2.hashPassword p salt with
    | error => trivial
    | ok passwordHash =>
      dsimp only
      refine ⟨trivial, fun now => ⟨trivial, fun sign => ⟨⟨?_, ?_⟩, ?_⟩⟩⟩
      · simp [writes]
      · simp
      · intro row token h
        cases h

theorem program_sourced (argon2 : Argon2) (tokenExpiresIn : Nat) (call : Call) :
    (program argon2 tokenExpiresIn call).Knows (Cmd.sourced argon2 call) returned [] := by
  cases call with
  | userLogin => exact userLogin_sourced
  | userChangePassword => exact userChangePassword_sourced
  | adminChangePassword => exact adminChangePassword_sourced

structure Quiet (x : Accounts) (e : Entry Cmd Cmd.Resp) (x' : Accounts) : Prop where
  users : x'.users = x.users
  sign : x.nextSign ≤ x'.nextSign
  found : ∀ user, reads e = some user → x.users.find user.1 = some user.2
  name : ∀ name user, e = ⟨.userByName name, .ok (some user)⟩ → user.2.username = name
  drawn : ∀ σ, draws e = some σ → (x.nextSign : Int) ≤ σ ∧ σ < x'.nextSign
  silent : writes e = none

structure Wrote (x : Accounts) (e : Entry Cmd Cmd.Resp) (x' : Accounts) (u : UserId) (σ : Int)
    (row row' : UserModel) : Prop where
  writes : writes e = some (u, σ)
  sign : x'.nextSign = x.nextSign
  old : x.users.find u = some row
  new : ∀ v, x'.users.find v = if v = u then some row' else x.users.find v
  username : row'.username = row.username
  signature : row'.authSignature = some σ
  password : changes e = none → row'.encryptedPassword = row.encryptedPassword

theorem wrote_of_update {user : UserId × UserModel} {f : UserModel → UserModel}
    {e : Entry Cmd Cmd.Resp} (hx : Cmd.update fault x user.1 f = (r, x')) (hok : r = .ok row')
    (hw : writes e = some (user.1, σ)) (hn : ∀ row, (f row).username = row.username)
    (hs : ∀ row, (f row).authSignature = some σ)
    (hp : changes e = none → ∀ row, (f row).encryptedPassword = row.encryptedPassword) :
    ∃ u σ row row', Wrote x e x' u σ row row' := by
  simp only [Cmd.update] at hx
  split at hx
  next =>
    cases hx
    cases hok
  next =>
    cases hx
    cases hok
  next row hrow =>
    obtain ⟨⟩ := hx
    refine ⟨user.1, σ, row, f row, hw, rfl, hrow, ?_, hn row, hs row, fun h => hp h row⟩
    intro v
    rw [Table.find_update]
    split
    next hv => rw [hv, hrow, Option.map_some]
    next => rfl

theorem quiet_of_update {user : UserId × UserModel} {f : UserModel → UserModel}
    {e : Entry Cmd Cmd.Resp} (hx : Cmd.update fault x user.1 f = (.error d, x'))
    (hr : reads e = none) (hd : draws e = none) (hw : writes e = none) : Quiet x e x' := by
  have hx' : x' = x := by
    simp only [Cmd.update] at hx
    split at hx <;> cases hx <;> rfl
  subst hx'
  constructor
  case users => rfl
  case sign => exact Nat.le_refl _
  case found => simp [hr]
  case name =>
    intro name user he
    subst he
    cases hr
  case drawn => simp [hd]
  case silent => exact hw

theorem exec_cases {c : Cmd} {r : c.Resp} (hx : Cmd.exec i fault x c = some (r, x')) :
    Quiet x ⟨c, r⟩ x' ∨ ∃ u σ row row', Wrote x ⟨c, r⟩ x' u σ row row' := by
  cases c with
  | userByName name =>
    left
    cases fault with
    | some e =>
      obtain ⟨⟩ := hx
      constructor <;> simp [reads, draws, writes]
    | none =>
      obtain ⟨⟩ := hx
      constructor <;> simp [reads, draws, writes]
      · intro u row h
        exact (Table.findWhere_some h).1
      · intro name u row hn h
        subst hn
        simpa using (Table.findWhere_some h).2
  | userById uid =>
    left
    cases fault with
    | some e =>
      obtain ⟨⟩ := hx
      constructor <;> simp [reads, draws, writes]
    | none =>
      obtain ⟨⟩ := hx
      constructor <;> simp [reads, draws, writes]
  | drawSalt =>
    obtain ⟨⟩ := hx
    left
    constructor <;> simp [reads, draws, writes]
  | drawSign =>
    obtain ⟨⟩ := hx
    left
    constructor <;> simp [reads, draws, writes]
  | now =>
    obtain ⟨⟩ := hx
    left
    constructor <;> simp [reads, draws, writes]
  | signIn user sign time ip =>
    have hu := Option.some.inj hx
    cases r with
    | error d => exact .inl (quiet_of_update hu rfl rfl rfl)
    | ok row' =>
      right
      apply wrote_of_update hu rfl rfl
      · exact fun row => rfl
      · exact fun row => rfl
      · exact fun _ row => rfl
  | changePassword user passwordHash sign time ip =>
    have hu := Option.some.inj hx
    cases r with
    | error d => exact .inl (quiet_of_update hu rfl rfl rfl)
    | ok row' =>
      right
      apply wrote_of_update hu rfl rfl
      · exact fun row => rfl
      · exact fun row => rfl
      · intro hc
        cases hc
  | resetPassword user passwordHash sign time =>
    have hu := Option.some.inj hx
    cases r with
    | error d => exact .inl (quiet_of_update hu rfl rfl rfl)
    | ok row' =>
      right
      apply wrote_of_update hu rfl rfl
      · exact fun row => rfl
      · exact fun row => rfl
      · intro hc
        cases hc

theorem writes_of_issues {e : Entry Cmd Cmd.Resp} (h : issues e = some (user, σ)) :
    writes e = some (user.1, σ) := by
  obtain ⟨c, r⟩ := e
  cases c <;> cases r <;> simp_all [issues, writes]

theorem writes_of_changes {e : Entry Cmd Cmd.Resp} (h : changes e = some u) :
    ∃ σ, writes e = some (u, σ) := by
  obtain ⟨c, r⟩ := e
  cases c <;> cases r <;> simp_all [changes, writes]

theorem not_reads_of_writes {e : Entry Cmd Cmd.Resp} (h : writes e = some w) :
    reads e = none ∧ draws e = none := by
  obtain ⟨c, r⟩ := e
  cases c <;> cases r <;> simp_all [reads, draws, writes]

theorem Quiet.issues (h : Quiet x e x') : issues e = none := by
  cases he : Auth.issues e with
  | none => rfl
  | some w => cases (writes_of_issues he).symm.trans h.silent

theorem Quiet.changes (h : Quiet x e x') : changes e = none := by
  cases he : Auth.changes e with
  | none => rfl
  | some u =>
    obtain ⟨σ, hw⟩ := writes_of_changes he
    cases hw.symm.trans h.silent

structure Names (x : Accounts) (log : List Event) : Prop where
  unique : ∀ u v row row', x.users.find u = some row → x.users.find v = some row' →
    row.username = row'.username → u = v
  known : ∀ e ∈ log, ∀ user, reads e.entry = some user ∨ (∃ σ, issues e.entry = some (user, σ)) →
    ∃ row, x.users.find user.1 = some row ∧ row.username = user.2.username
  asked : ∀ e ∈ log, ∀ name user, e.entry = ⟨.userByName name, .ok (some user)⟩ →
    user.2.username = name

theorem issued_read {c : Cmd} {r : c.Resp} (hn : Cmd.sourced argon2 k K c)
    (h : issues ⟨c, r⟩ = some (user, σ)) : ∃ e ∈ K, reads e = some user := by
  cases c with
  | signIn user' sign time ip =>
    cases r with
    | error => cases h
    | ok =>
      obtain ⟨⟩ := h
      obtain ⟨-, name, p, retain, ip', -, hm, -⟩ := hn
      exact ⟨_, hm, rfl⟩
  | changePassword user' hash sign time ip =>
    cases r with
    | error => cases h
    | ok =>
      obtain ⟨⟩ := h
      obtain ⟨-, ⟨uid, ip', name, p, p', -, hm⟩, -⟩ := hn
      exact ⟨_, hm, rfl⟩
  | _ => cases h

theorem names_step {c : Cmd} {r : c.Resp} {log : List Event}
    (hn : Cmd.sourced argon2 k (history i log) c)
    (hx : Cmd.exec i fault x c = some (r, x')) (h : Names x log) :
    Names x' (log ++ [⟨i, k, c, r⟩]) := by
  rcases exec_cases hx with hq | ⟨u, σ, row, row', hw⟩
  · constructor
    · rw [hq.users]
      exact h.unique
    · rw [hq.users]
      intro e he user hr
      rcases List.mem_append.1 he with he | he
      · exact h.known e he user hr
      · obtain rfl := List.mem_singleton.1 he
        rcases hr with hr | ⟨σ, hi⟩
        · exact ⟨_, hq.found user hr, rfl⟩
        · cases hq.issues.symm.trans hi
    · intro e he name user hu
      rcases List.mem_append.1 he with he | he
      · exact h.asked e he name user hu
      · obtain rfl := List.mem_singleton.1 he
        exact hq.name name user hu
  · have hkept : ∀ v row₁, x'.users.find v = some row₁ → ∃ row₂, x.users.find v = some row₂ ∧
        row₁.username = row₂.username := by
      intro v row₁ hv
      rw [hw.new] at hv
      split at hv
      next hvu =>
        obtain ⟨⟩ := hv
        exact ⟨row, hvu ▸ hw.old, hw.username⟩
      next => exact ⟨row₁, hv, rfl⟩
    have hkept' : ∀ v row₁, x.users.find v = some row₁ → ∃ row₂, x'.users.find v = some row₂ ∧
        row₂.username = row₁.username := by
      intro v row₁ hv
      rw [hw.new]
      split
      next hvu =>
        subst hvu
        obtain ⟨⟩ := hw.old.symm.trans hv
        exact ⟨row', rfl, hw.username⟩
      next => exact ⟨row₁, hv, rfl⟩
    constructor
    · intro v v' row₁ row₂ hv hv' hname
      obtain ⟨row₃, h₃, hn₃⟩ := hkept v row₁ hv
      obtain ⟨row₄, h₄, hn₄⟩ := hkept v' row₂ hv'
      exact h.unique v v' row₃ row₄ h₃ h₄ (hn₃.symm.trans (hname.trans hn₄))
    · intro e he user hr
      have hold : ∃ row, x.users.find user.1 = some row ∧ row.username = user.2.username := by
        rcases List.mem_append.1 he with he | he
        · exact h.known e he user hr
        · obtain rfl := List.mem_singleton.1 he
          rcases hr with hr | ⟨σ, hi⟩
          · cases (not_reads_of_writes hw.writes).1.symm.trans hr
          · obtain ⟨e', he', hr'⟩ := issued_read hn hi
            obtain ⟨k', hm⟩ := mem_history.1 he'
            exact h.known _ hm user (.inl hr')
      obtain ⟨row₁, h₁, hn₁⟩ := hold
      obtain ⟨row₂, h₂, hn₂⟩ := hkept' _ _ h₁
      exact ⟨row₂, h₂, hn₂.trans hn₁⟩
    · intro e he name user hu
      rcases List.mem_append.1 he with he | he
      · exact h.asked e he name user hu
      · obtain rfl := List.mem_singleton.1 he
        obtain ⟨⟩ := hu
        cases hw.writes

def Seen (x : Accounts) (log : List Event) (σ : Int) : Prop :=
  (∃ u row, x.users.find u = some row ∧ row.authSignature = some σ) ∨
  (∃ e ∈ log, ∃ user, reads e.entry = some user ∧ user.2.authSignature = some σ) ∨
  ∃ e ∈ log, ∃ u, writes e.entry = some (u, σ)

structure Fresh (x : Accounts) (log : List Event) : Prop where
  seen : ∀ σ, Seen x log σ → σ < x.nextSign
  drawn : ∀ e ∈ log, ∀ σ, draws e.entry = some σ → σ < x.nextSign
  once : ∀ e ∈ log, ∀ e' ∈ log, ∀ σ, draws e.entry = some σ → draws e'.entry = some σ →
    e.session = e'.session
  written : ∀ e ∈ log, ∀ σ, draws e.entry = some σ → Seen x log σ →
    ∃ e' ∈ log, e'.session = e.session ∧ writes e'.entry ≠ none

theorem written_source {c : Cmd} {r : c.Resp} (hn : Cmd.sourced argon2 k K c)
    (h : writes ⟨c, r⟩ = some (u, σ)) : (∀ e ∈ K, writes e = none) ∧
      ((∃ e ∈ K, draws e = some σ) ∨ changes ⟨c, r⟩ = none ∧ ∃ e ∈ K, ∃ user,
        reads e = some user ∧ user.1 = u ∧ user.2.authSignature = some σ) := by
  cases c with
  | signIn user sign time ip =>
    cases r with
    | error => cases h
    | ok =>
      obtain ⟨⟩ := h
      obtain ⟨hs, name, p, retain, ip', -, hm, -, hσ | hσ⟩ := hn
      · exact ⟨hs, .inr ⟨rfl, _, hm, user, rfl, rfl, hσ⟩⟩
      · exact ⟨hs, .inl ⟨_, hσ, rfl⟩⟩
  | changePassword user hash sign time ip =>
    cases r with
    | error => cases h
    | ok =>
      obtain ⟨⟩ := h
      obtain ⟨hs, -, hσ⟩ := hn
      exact ⟨hs, .inl ⟨_, hσ, rfl⟩⟩
  | resetPassword user hash sign time =>
    cases r with
    | error => cases h
    | ok =>
      obtain ⟨⟩ := h
      obtain ⟨hs, hσ⟩ := hn
      exact ⟨hs, .inl ⟨_, hσ, rfl⟩⟩
  | _ => cases h

theorem Quiet.seen {log : List Event} (hq : Quiet x e x')
    (h : Seen x' (log ++ [⟨i, k, e⟩]) σ) : Seen x log σ := by
  rcases h with ⟨u, row, hu, hs⟩ | ⟨e', he', user, hr, hs⟩ | ⟨e', he', u, hw⟩
  · rw [hq.users] at hu
    exact .inl ⟨u, row, hu, hs⟩
  · rcases List.mem_append.1 he' with he' | he'
    · exact .inr (.inl ⟨e', he', user, hr, hs⟩)
    · obtain rfl := List.mem_singleton.1 he'
      exact .inl ⟨user.1, user.2, hq.found user hr, hs⟩
  · rcases List.mem_append.1 he' with he' | he'
    · exact .inr (.inr ⟨e', he', u, hw⟩)
    · obtain rfl := List.mem_singleton.1 he'
      cases hq.silent.symm.trans hw

theorem Wrote.seen {log : List Event} (hw : Wrote x e x' u σ row row')
    (h : Seen x' (log ++ [⟨i, k, e⟩]) σ') : Seen x log σ' ∨ σ' = σ := by
  rcases h with ⟨v, row₁, hv, hs⟩ | ⟨e', he', user, hr, hs⟩ | ⟨e', he', v, hv⟩
  · rw [hw.new] at hv
    split at hv
    next =>
      obtain ⟨⟩ := hv
      obtain ⟨⟩ := hw.signature.symm.trans hs
      exact .inr rfl
    next => exact .inl (.inl ⟨v, row₁, hv, hs⟩)
  · rcases List.mem_append.1 he' with he' | he'
    · exact .inl (.inr (.inl ⟨e', he', user, hr, hs⟩))
    · obtain rfl := List.mem_singleton.1 he'
      cases (not_reads_of_writes hw.writes).1.symm.trans hr
  · rcases List.mem_append.1 he' with he' | he'
    · exact .inl (.inr (.inr ⟨e', he', v, hv⟩))
    · obtain rfl := List.mem_singleton.1 he'
      obtain ⟨⟩ := hw.writes.symm.trans hv
      exact .inr rfl

theorem fresh_step {c : Cmd} {r : c.Resp} {log : List Event}
    (hn : Cmd.sourced argon2 k (history i log) c)
    (hx : Cmd.exec i fault x c = some (r, x')) (h : Fresh x log) :
    Fresh x' (log ++ [⟨i, k, c, r⟩]) := by
  rcases exec_cases hx with hq | ⟨u, σ, row, row', hw⟩
  · have hsign : (x.nextSign : Int) ≤ x'.nextSign := Int.ofNat_le.2 hq.sign
    constructor
    · intro σ hσ
      exact Int.lt_of_lt_of_le (h.seen σ (hq.seen hσ)) hsign
    · intro e he σ hσ
      rcases List.mem_append.1 he with he | he
      · exact Int.lt_of_lt_of_le (h.drawn e he σ hσ) hsign
      · obtain rfl := List.mem_singleton.1 he
        exact (hq.drawn σ hσ).2
    · intro e he e' he' σ hσ hσ'
      rcases List.mem_append.1 he with he | he
      · rcases List.mem_append.1 he' with he' | he'
        · exact h.once e he e' he' σ hσ hσ'
        · obtain rfl := List.mem_singleton.1 he'
          exact absurd (h.drawn e he σ hσ) (Int.not_lt.2 (hq.drawn σ hσ').1)
      · obtain rfl := List.mem_singleton.1 he
        rcases List.mem_append.1 he' with he' | he'
        · exact absurd (h.drawn e' he' σ hσ') (Int.not_lt.2 (hq.drawn σ hσ).1)
        · obtain rfl := List.mem_singleton.1 he'
          rfl
    · intro e he σ hσ hs
      have hs' := hq.seen hs
      rcases List.mem_append.1 he with he | he
      · obtain ⟨e', he', hi, hw⟩ := h.written e he σ hσ hs'
        exact ⟨e', List.mem_append_left _ he', hi, hw⟩
      · obtain rfl := List.mem_singleton.1 he
        exact absurd (h.seen σ hs') (Int.not_lt.2 (hq.drawn σ hσ).1)
  · have hsign : (x'.nextSign : Int) = x.nextSign := congrArg _ hw.sign
    have hold : ∀ e ∈ log ++ [⟨i, k, c, r⟩], ∀ σ, draws e.entry = some σ → e ∈ log := by
      intro e he σ hσ
      rcases List.mem_append.1 he with he | he
      · exact he
      · obtain rfl := List.mem_singleton.1 he
        cases (not_reads_of_writes hw.writes).2.symm.trans hσ
    have hsource := written_source hn hw.writes
    constructor
    · intro σ' hσ'
      rw [hsign]
      rcases hw.seen hσ' with hσ' | rfl
      · exact h.seen σ' hσ'
      · rcases hsource.2 with ⟨e, he, hd⟩ | ⟨-, e, he, user, hr, -, hs⟩
        · obtain ⟨k', hm⟩ := mem_history.1 he
          exact h.drawn _ hm _ hd
        · obtain ⟨k', hm⟩ := mem_history.1 he
          exact h.seen _ (.inr (.inl ⟨_, hm, user, hr, hs⟩))
    · intro e he σ' hσ'
      rw [hsign]
      exact h.drawn e (hold e he σ' hσ') σ' hσ'
    · intro e he e' he' σ' hσ hσ'
      exact h.once e (hold e he σ' hσ) e' (hold e' he' σ' hσ') σ' hσ hσ'
    · intro e he σ' hσ' hs
      have he := hold e he σ' hσ'
      have hseen : ∀ hs' : Seen x log σ', ∃ e' ∈ log ++ [⟨i, k, c, r⟩],
          e'.session = e.session ∧ writes e'.entry ≠ none := by
        intro hs'
        obtain ⟨e', he', hi, hw'⟩ := h.written e he σ' hσ' hs'
        exact ⟨e', List.mem_append_left _ he', hi, hw'⟩
      rcases hw.seen hs with hs' | rfl
      · exact hseen hs'
      · rcases hsource.2 with ⟨e', he', hd⟩ | ⟨-, e', he', user, hr, -, hs'⟩
        · obtain ⟨k', hm⟩ := mem_history.1 he'
          refine ⟨_, List.mem_append_right _ (List.mem_singleton_self _), ?_, ?_⟩
          · exact h.once _ hm e he _ hd hσ'
          · exact ne_of_eq_of_ne hw.writes (Option.some_ne_none _)
        · obtain ⟨k', hm⟩ := mem_history.1 he'
          exact hseen (.inr (.inl ⟨_, hm, user, hr, hs'⟩))

/-- A session writes a signature that it has drawn only once. -/
theorem Fresh.unwritten {log : List Event} (h : Fresh x log) (he : e ∈ history i log)
    (hd : draws e = some σ) (hs : ∀ e ∈ history i log, writes e = none) : ¬Seen x log σ := by
  intro hseen
  obtain ⟨k, hm⟩ := mem_history.1 he
  obtain ⟨⟨j, k', e'⟩, he', rfl, hw⟩ := h.written _ hm σ hd hseen
  exact hw (hs e' (mem_history.2 ⟨k', he'⟩))

/-- The password of the account has not been changed since the first token with this signature. -/
def Clean (log : List Event) (u : UserId) (σ : Int) : Prop :=
  log.Pairwise fun e c => ∀ user, issues e.entry = some (user, σ) → user.1 = u →
    changes c.entry ≠ some u

theorem clean_concat {log : List Event} {c : Event} : Clean (log ++ [c]) u σ ↔
    Clean log u σ ∧ ∀ e ∈ log, ∀ user, issues e.entry = some (user, σ) → user.1 = u →
      changes c.entry ≠ some u := by
  simp only [Clean, List.pairwise_append, List.pairwise_singleton, true_and,
    List.mem_singleton, forall_eq]

theorem unchangedSince_concat {log : List Event} {c e : Event} (he : e ∈ log)
    (hu : unchangedSince e.session u (log ++ [c]) = true) :
    unchangedSince e.session u log = true ∧ changes c.entry ≠ some u := by
  have hne : (log.dropWhile fun e' => e'.session ≠ e.session).isEmpty = false := by
    cases h : log.dropWhile fun e' => e'.session ≠ e.session with
    | nil =>
      have hall := List.dropWhile_eq_nil_iff.1 h e he
      simp at hall
    | cons => rfl
  rw [unchangedSince, List.dropWhile_append, hne] at hu
  simp only [Bool.false_eq_true, if_false, List.all_append, List.all_cons, List.all_nil,
    Bool.and_true, Bool.and_eq_true] at hu
  exact ⟨hu.1, of_decide_eq_true hu.2⟩

structure Kept (x : Accounts) (log : List Event) : Prop where
  row : ∀ u row σ, x.users.find u = some row → row.authSignature = some σ → Clean log u σ
  read : ∀ e ∈ log, ∀ user σ, reads e.entry = some user → user.2.authSignature = some σ →
    unchangedSince e.session user.1 log = true → Clean log user.1 σ

theorem clean_of_unseen {log : List Event} {c : Event} (h : ¬Seen x log σ) :
    Clean (log ++ [c]) u σ := by
  have hnone : ∀ e ∈ log, ∀ user, issues e.entry ≠ some (user, σ) := by
    intro e he user hi
    exact h (.inr (.inr ⟨e, he, user.1, writes_of_issues hi⟩))
  rw [clean_concat]
  constructor
  · apply List.pairwise_of_forall_mem_list
    intro e he c _ user hi
    exact (hnone e he user hi).elim
  · intro e he user hi
    exact (hnone e he user hi).elim

theorem kept_step {c : Cmd} {r : c.Resp} {log : List Event}
    (hn : Cmd.sourced argon2 k (history i log) c)
    (hok : ∀ u σ, writes ⟨c, r⟩ = some (u, σ) → changes ⟨c, r⟩ = none →
      unchangedSince i u log = true)
    (hx : Cmd.exec i fault x c = some (r, x')) (hf : Fresh x log) (h : Kept x log) :
    Kept x' (log ++ [⟨i, k, c, r⟩]) := by
  rcases exec_cases hx with hq | ⟨u, σ, row, row', hw⟩
  · have hclean : ∀ u σ, Clean log u σ → Clean (log ++ [⟨i, k, c, r⟩]) u σ := by
      intro u σ hc
      rw [clean_concat]
      exact ⟨hc, fun _ _ _ _ _ => ne_of_eq_of_ne hq.changes (Option.some_ne_none _).symm⟩
    constructor
    · intro u row σ hu hs
      rw [hq.users] at hu
      exact hclean u σ (h.row u row σ hu hs)
    · intro e he user σ hr hs hu
      rcases List.mem_append.1 he with he | he
      · exact hclean _ σ (h.read e he user σ hr hs (unchangedSince_concat he hu).1)
      · obtain rfl := List.mem_singleton.1 he
        exact hclean _ σ (h.row _ _ σ (hq.found user hr) hs)
  · constructor
    · intro v row₁ σ₁ hv hs
      rw [hw.new] at hv
      split at hv
      next hvu =>
        subst hvu
        obtain ⟨⟩ := hv
        obtain ⟨⟩ := hw.signature.symm.trans hs
        obtain ⟨hsilent, ⟨e, he, hd⟩ | ⟨hc, e, he, user, hr, rfl, hs'⟩⟩ :=
          written_source hn hw.writes
        · exact clean_of_unseen (hf.unwritten he hd hsilent)
        · obtain ⟨k', hm⟩ := mem_history.1 he
          rw [clean_concat]
          constructor
          · exact h.read _ hm user _ hr hs' (hok _ _ hw.writes hc)
          · intro _ _ _ _ _
            exact ne_of_eq_of_ne hc (Option.some_ne_none _).symm
      next hvu =>
        rw [clean_concat]
        constructor
        · exact h.row v row₁ σ₁ hv hs
        · intro _ _ _ _ _ hc
          obtain ⟨σ₂, hw₂⟩ := writes_of_changes hc
          obtain ⟨⟩ := hw.writes.symm.trans hw₂
          exact hvu rfl
    · intro e he user σ₁ hr hs hu
      rcases List.mem_append.1 he with he | he
      · obtain ⟨hu', hc⟩ := unchangedSince_concat he hu
        rw [clean_concat]
        exact ⟨h.read e he user σ₁ hr hs hu', fun _ _ _ _ _ => hc⟩
      · obtain rfl := List.mem_singleton.1 he
        cases (not_reads_of_writes hw.writes).1.symm.trans hr

structure Current (argon2 : Argon2) (x : Accounts) (log : List Event) : Prop where
  read : ∀ e ∈ log, ∀ user, reads e.entry = some user →
    unchangedSince e.session user.1 log = true →
    ∃ row, x.users.find user.1 = some row ∧ row.encryptedPassword = user.2.encryptedPassword
  login : ∀ pre e rest user σ name p retain ip, log = pre ++ e :: rest →
    issues e.entry = some (user, σ) → e.call = .userLogin name p retain ip →
    (∀ c ∈ rest, changes c.entry ≠ some user.1) → ∃ row, x.users.find user.1 = some row ∧
      argon2.verifyPassword p row.encryptedPassword = .ok true

theorem login_source {c : Cmd} {r : c.Resp}
    (hn : Cmd.sourced argon2 (.userLogin name p retain ip) K c)
    (h : issues ⟨c, r⟩ = some (user, σ)) : changes ⟨c, r⟩ = none ∧
      writes ⟨c, r⟩ = some (user.1, σ) ∧ (∃ e ∈ K, reads e = some user) ∧
      argon2.verifyPassword p user.2.encryptedPassword = .ok true := by
  cases c with
  | signIn user' sign time ip' =>
    cases r with
    | error => cases h
    | ok =>
      obtain ⟨⟩ := h
      obtain ⟨-, name', p', retain', ip'', hk, hm, hv, -⟩ := hn
      obtain ⟨⟩ := hk
      exact ⟨rfl, rfl, ⟨_, hm, rfl⟩, hv⟩
  | changePassword user' hash sign time ip' =>
    obtain ⟨-, ⟨uid, ip'', name', p', p'', hk, -⟩, -⟩ := hn
    cases hk
  | _ => cases h

theorem concat_eq_append_cons {l : List α} (h : l ++ [c] = pre ++ e :: rest) :
    rest = [] ∧ e = c ∧ pre = l ∨ ∃ rest', rest = rest' ++ [c] ∧ l = pre ++ e :: rest' := by
  rcases List.eq_nil_or_concat rest with rfl | ⟨rest', c', rfl⟩
  · obtain ⟨rfl, hc⟩ := List.append_inj' h rfl
    obtain ⟨⟩ := hc
    exact .inl ⟨rfl, rfl, rfl⟩
  · rw [List.concat_eq_append, ← List.cons_append, ← List.append_assoc] at h
    obtain ⟨rfl, hc⟩ := List.append_inj' h rfl
    obtain ⟨⟩ := hc
    exact .inr ⟨rest', List.concat_eq_append, rfl⟩

theorem current_step {c : Cmd} {r : c.Resp} {log : List Event}
    (hn : Cmd.sourced argon2 k (history i log) c)
    (hok : ∀ u σ, writes ⟨c, r⟩ = some (u, σ) → changes ⟨c, r⟩ = none →
      unchangedSince i u log = true)
    (hx : Cmd.exec i fault x c = some (r, x')) (h : Current argon2 x log) :
    Current argon2 x' (log ++ [⟨i, k, c, r⟩]) := by
  -- an account keeps its password unless it is changed
  have hkept : ∀ v row, x.users.find v = some row → changes ⟨c, r⟩ ≠ some v →
      ∃ row', x'.users.find v = some row' ∧ row'.encryptedPassword = row.encryptedPassword := by
    intro v row₁ hv hc
    rcases exec_cases hx with hq | ⟨u, σ, row, row', hw⟩
    · rw [hq.users]
      exact ⟨row₁, hv, rfl⟩
    · rw [hw.new]
      split
      next hvu =>
        subst hvu
        obtain ⟨⟩ := hw.old.symm.trans hv
        refine ⟨row', rfl, hw.password ?_⟩
        cases hc' : changes ⟨c, r⟩ with
        | none => rfl
        | some v' =>
          obtain ⟨σ₂, hw₂⟩ := writes_of_changes hc'
          obtain ⟨⟩ := hw.writes.symm.trans hw₂
          exact (hc hc').elim
      next => exact ⟨row₁, hv, rfl⟩
  constructor
  · intro e he user hr hu
    rcases List.mem_append.1 he with he | he
    · obtain ⟨hu', hc⟩ := unchangedSince_concat he hu
      obtain ⟨row, hrow, hp⟩ := h.read e he user hr hu'
      obtain ⟨row', hrow', hp'⟩ := hkept _ row hrow hc
      exact ⟨row', hrow', hp'.trans hp⟩
    · obtain rfl := List.mem_singleton.1 he
      rcases exec_cases hx with hq | ⟨u, σ, row, row', hw⟩
      · rw [hq.users]
        exact ⟨user.2, hq.found user hr, rfl⟩
      · cases (not_reads_of_writes hw.writes).1.symm.trans hr
  · intro pre e rest user σ name p retain ip hl hi hk hc
    rcases concat_eq_append_cons hl with ⟨rfl, rfl, rfl⟩ | ⟨rest', rfl, rfl⟩
    · obtain rfl : k = _ := hk
      obtain ⟨hc', hw, ⟨e, he, hr⟩, hv⟩ := login_source hn hi
      obtain ⟨k', hm⟩ := mem_history.1 he
      obtain ⟨row, hrow, hp⟩ := h.read _ hm user hr (hok _ _ hw hc')
      obtain ⟨row', hrow', hp'⟩ := hkept _ row hrow (ne_of_eq_of_ne hc' (Option.some_ne_none _).symm)
      exact ⟨row', hrow', (congrArg _ (hp'.trans hp)).trans hv⟩
    · obtain ⟨row, hrow, hv⟩ := h.login pre e rest' user σ name p retain ip rfl hi hk
        fun c hm => hc c (List.mem_append_left _ hm)
      obtain ⟨row', hrow', hp'⟩ := hkept _ row hrow
        (hc ⟨i, k, c, r⟩ (List.mem_append_right _ (List.mem_singleton_self _)))
      exact ⟨row', hrow', (congrArg _ hp').trans hv⟩

theorem login_of_writes {c : Cmd} {r : c.Resp} (hw : writes ⟨c, r⟩ = some (u, σ))
    (hc : changes ⟨c, r⟩ = none) (hx : Cmd.exec i fault x c = some (r, x')) :
    fault = none ∧ ∃ user sign time ip, c = .signIn user sign time ip ∧ user.1 = u := by
  cases c with
  | signIn user sign time ip =>
    cases r with
    | error => cases hw
    | ok =>
      obtain ⟨⟩ := hw
      cases fault with
      | none => exact ⟨rfl, user, _, time, ip, rfl, rfl⟩
      | some e =>
        have he := congrArg Prod.fst (Option.some.inj hx)
        cases he
  | changePassword =>
    cases r with
    | error => cases hw
    | ok => cases hc
  | resetPassword =>
    cases r with
    | error => cases hw
    | ok => cases hc
  | _ => cases hw

theorem State.verifies_signIn {s : State} (hv : s.verifies (.step i none) = true)
    (hi : s.next i = some (Cmd.signIn user sign time ip)) :
    unchangedSince i user.1 s.log = true := by
  simp only [State.verifies, hi] at hv
  exact hv

theorem unchanged_of_verifies {s : State} {c : Cmd} {r : c.Resp}
    {p : c.Resp → Prog Cmd Cmd.Resp (Flow (Except Error (Option TokenClaims)))}
    (hv : s.verifies (.step i fault) = true) (hi : s.pool[i]? = some ⟨k, .call c p⟩)
    (hx : Cmd.exec i fault s.shared c = some (r, x)) (hw : writes ⟨c, r⟩ = some (u, σ))
    (hc : changes ⟨c, r⟩ = none) : unchangedSince i u s.log = true := by
  have hnext : s.next i = some c := by
    rw [Sessions.next, hi]
    rfl
  obtain ⟨rfl, user, sign, time, ip, rfl, rfl⟩ := login_of_writes hw hc hx
  exact s.verifies_signIn hv hnext

/-- Accounts with names of their own, and with signatures that are drawn no more. -/
structure Accounts.Initial (x : Accounts) : Prop where
  unique : ∀ u v row row', x.users.find u = some row → x.users.find v = some row' →
    row.username = row'.username → u = v
  signatures : ∀ u row σ, x.users.find u = some row → row.authSignature = some σ → σ < x.nextSign

structure Invariant (argon2 : Argon2) (x : Accounts) (log : List Event) : Prop where
  names : Names x log
  fresh : Fresh x log
  kept : Kept x log
  current : Current argon2 x log

theorem Accounts.Initial.invariant {x : Accounts} (h : x.Initial) : Invariant argon2 x [] := by
  constructor
  case names =>
    constructor
    · exact h.unique
    · intro e he
      cases he
    · intro e he
      cases he
  case fresh =>
    constructor
    · intro σ hσ
      rcases hσ with ⟨u, row, hu, hs⟩ | ⟨e, he, _⟩ | ⟨e, he, _⟩
      · exact h.signatures u row σ hu hs
      · cases he
      · cases he
    · intro e he
      cases he
    · intro e he
      cases he
    · intro e he
      cases he
  case kept =>
    constructor
    · exact fun _ _ _ _ _ => .nil
    · intro e he
      cases he
  case current =>
    constructor
    · intro e he
      cases he
    · intro pre e rest user σ name p retain ip hl
      cases pre <;> cases hl

theorem Invariant.tick {log : List Event} (h : Invariant argon2 x log) :
    Invariant argon2 { x with clock := t } log := by
  obtain ⟨⟨hn₁, hn₂, hn₃⟩, ⟨hf₁, hf₂, hf₃, hf₄⟩, ⟨hk₁, hk₂⟩, ⟨hc₁, hc₂⟩⟩ := h
  exact ⟨⟨hn₁, hn₂, hn₃⟩, ⟨hf₁, hf₂, hf₃, hf₄⟩, ⟨hk₁, hk₂⟩, ⟨hc₁, hc₂⟩⟩

theorem traced {s : State} (hp : Path (step (system argon2 tokenExpiresIn)) ok (initial s₀) as s) :
    s.Traced (Cmd.sourced argon2) fun _ => returned := by
  apply traced_of_path (program_sourced argon2 tokenExpiresIn) _ hp rfl rfl
  intro k K h
  exact h.elim

theorem invariant_of_path {s : State} (h₀ : s₀.Initial)
    (hp : Path (step (system argon2 tokenExpiresIn)) (fun s a => State.verifies s a = true)
      (initial s₀) as s) : Invariant argon2 s.shared s.log := by
  apply log_invariant (program_sourced argon2 tokenExpiresIn) _ hp rfl rfl h₀.invariant
  · intro e x x' log h hx
    obtain ⟨⟩ := hx
    exact h.tick
  · intro s i k fault c p r x _ hv hi hn hx h
    have hok := fun u σ => unchanged_of_verifies (u := u) (σ := σ) hv hi hx
    constructor
    · exact names_step hn hx h.names
    · exact fresh_step hn hx h.fresh
    · exact kept_step hn hok hx h.fresh h.kept
    · exact current_step hn hok hx h.current
  · intro k K h
    exact h.elim

theorem userAuth_ok (h : userAuth x token = .ok user) : x.users.find user.1 = some user.2 ∧
    user.2.username = token.sub ∧ user.2.authSignature = some token.sign := by
  simp only [userAuth] at h
  split at h
  next => cases h
  next =>
    split at h
    next => cases h
    next user' hu =>
      split at h
      next => cases h
      next =>
        split at h
        next => cases h
        next hs =>
          obtain ⟨⟩ := h
          obtain ⟨hf, hn⟩ := Table.findWhere_some hu
          exact ⟨hf, of_decide_eq_true hn, Decidable.not_not.1 hs⟩

theorem Invariant.before (h : Invariant argon2 x (pre ++ e :: rest))
    (ha : userAuth x token = .ok user) (hi : issuesToken e.entry token) :
    ∀ c ∈ rest, changes c.entry ≠ some user.1 := by
  obtain ⟨hu, hname, hs⟩ := userAuth_ok ha
  obtain ⟨user', hi, hn⟩ := hi
  obtain ⟨row, hrow, hn'⟩ := h.names.known e (List.mem_append_right _ (.head _)) user'
    (.inr ⟨_, hi⟩)
  have hsame := h.names.unique _ _ _ _ hrow hu (hn'.trans (hn.trans hname.symm))
  have hclean := (List.pairwise_append.1 (h.kept.row _ _ _ hu hs)).2.1
  intro c hc
  exact (List.pairwise_cons.1 hclean).1 c hc user' hi hsame

theorem revoked_of_verifies (argon2 : Argon2) (tokenExpiresIn : Nat) (s₀ : Accounts)
    (as : List (Act Call (Option DbErr) Unit)) (s : State) (h₀ : s₀.Initial)
    (hp : Path (step (system argon2 tokenExpiresIn)) (fun s a => State.verifies s a = true)
      (initial s₀) as s) : Revoked argon2 s := by
  have h := invariant_of_path h₀ hp
  constructor
  · intro i token hr
    obtain ⟨t, -, hpost⟩ := (traced hp).result hr
    obtain ⟨e, he, user, hi, hn⟩ := hpost token rfl
    obtain ⟨k, hm⟩ := mem_history.1 he
    refine ⟨_, hm, rfl, user, hi, ?_⟩
    rcases hn with hn | hn
    · exact hn
    · obtain ⟨k', hm'⟩ := mem_history.1 hn
      exact h.names.asked _ hm' _ user rfl
  · intro token user ha pre e rest hl hi
    rw [hl] at h
    exact h.before ha hi
  · intro token user ha e he hi name p retain ip hk
    obtain ⟨pre, rest, hl⟩ := List.append_of_mem he
    rw [hl] at h
    obtain ⟨hu, hname, hs⟩ := userAuth_ok ha
    obtain ⟨user', hi', hn⟩ := id hi
    obtain ⟨row, hrow, hn'⟩ := h.names.known e (List.mem_append_right _ (.head _)) user'
      (.inr ⟨_, hi'⟩)
    have hsame := h.names.unique _ _ _ _ hrow hu (hn'.trans (hn.trans hname.symm))
    obtain ⟨row', hrow', hv⟩ := h.current.login pre e rest user' _ name p retain ip rfl hi' hk
      (hsame ▸ h.before ha hi)
    obtain ⟨⟩ := (hsame ▸ hrow').symm.trans hu
    exact hv

namespace Demo

def hash (p : Md5Password) : String := if p = 1 then "old" else "new"

def plain : Argon2 where
  hashPassword p _ := .ok (hash p)
  verifyPassword p h := .ok (h = hash p)

def accounts : Accounts where
  users := Table.empty.set 1 ⟨"u", "old", some 7, none, none, none, none, 0, .active⟩
  nextSalt := 0
  nextSign := 8
  clock := 0

theorem accounts_initial : accounts.Initial := by
  have hfind : ∀ u row, accounts.users.find u = some row → u = 1 ∧ row.authSignature = some 7 := by
    intro u row hu
    simp only [accounts, Table.find_set, Table.find_empty] at hu
    split at hu
    next hk =>
      obtain ⟨⟩ := hu
      exact ⟨hk, rfl⟩
    next => cases hu
  constructor
  · intro u v row row' hu hv _
    exact (hfind u row hu).1.trans (hfind v row' hv).1.symm
  · intro u row σ hu hs
    obtain ⟨⟩ := (hfind u row hu).2.symm.trans hs
    decide

def steps (i n : Nat) : List (Act Call (Option DbErr) Unit) := List.replicate n (.step i none)

/-- A login with the old password, which retains the signature, up to its update. -/
def login (i : Nat) : List (Act Call (Option DbErr) Unit) :=
  .call (.userLogin "u" 1 true "ip") :: steps i 2

def change (i : Nat) : List (Act Call (Option DbErr) Unit) :=
  .call (.userChangePassword 1 "ip" "u" 1 2) :: steps i 5

/-- A token that a login with another password than the current one obtained is accepted. -/
def admits (s : State) : Bool := s.log.any fun e => match e.call, issues e.entry with
  | .userLogin _ p _ _, some (user, sign) => match userAuth s.shared ⟨user.2.username, 100, sign⟩ with
    | .ok user' => user'.2.encryptedPassword ≠ hash p
    | .error _ => false
  | _, _ => false

/-- Both sessions have returned a token, and the first one is accepted. -/
def accepted (x : Accounts) : Option (Except Error (Option TokenClaims)) →
    Option (Except Error (Option TokenClaims)) → Bool
  | some (.ok (some old)), some (.ok (some _)) => match userAuth x old with
    | .ok _ => true
    | .error _ => false
  | _, _ => false

theorem not_revoked_of_admits {s : State} (h : admits s = true) : ¬Revoked plain s := by
  intro hr
  obtain ⟨e, he, hm⟩ := List.any_eq_true.1 h
  split at hm
  next name p retain ip user sign hk hi =>
    split at hm
    next user' ha =>
      have hv := hr.password _ user' ha e he ⟨user, hi, rfl⟩ name p retain ip hk
      have hv' : (decide (user'.2.encryptedPassword = hash p)) = true := Except.ok.inj hv
      exact of_decide_eq_true hm (of_decide_eq_true hv')
    next => cases hm
  next => cases hm

end Demo

open Demo in
/-- Tokens of the past are revoked when the password has been changed. -/
theorem changed_password_revokes : ∃ s, Path (step (system plain 100))
    (fun s a => State.verifies s a = true) (initial Demo.accounts)
    (login 0 ++ steps 0 1 ++ change 1) s ∧ Revoked plain s := by
  have hrun : (Path.follow (step (system plain 100)) State.verifies (initial Demo.accounts)
      (login 0 ++ steps 0 1 ++ change 1)).isSome = true := by decide
  obtain ⟨s, hf⟩ := Option.isSome_iff_exists.1 hrun
  have hp := Path.of_follow hf
  exact ⟨s, hp, revoked_of_verifies plain 100 _ _ s accounts_initial hp⟩

open Demo in
/-- A login that retains the signature it has read writes it over the one of a password change
in between, and the tokens of before are accepted again. -/
theorem login_restores_revoked : ∃ s₁ s old new user,
    Path (step (system plain 100)) (fun _ _ => True) (initial Demo.accounts)
      (login 0 ++ steps 0 1 ++ login 1) s₁ ∧
    s₁.result 0 = some (.ok (some old)) ∧
    Path (step (system plain 100)) (fun _ _ => True) s₁ (change 2 ++ steps 1 1) s ∧
    s.result 2 = some (.ok (some new)) ∧ userAuth s.shared old = .ok user ∧
    ¬Revoked plain s := by
  have hrun : (Path.follow (step (system plain 100)) (fun _ _ => true) (initial Demo.accounts)
      (login 0 ++ steps 0 1 ++ login 1)).any (fun s₁ =>
        (Path.follow (step (system plain 100)) (fun _ _ => true) s₁ (change 2 ++ steps 1 1)).any
          fun s => admits s && accepted s.shared (s₁.result 0) (s.result 2)) = true := by decide
  obtain ⟨s₁, hp, hs₁⟩ := Path.of_follow_any hrun
  obtain ⟨s, hq, hs⟩ := Path.of_follow_any hs₁
  simp only [Bool.and_eq_true] at hs
  obtain ⟨ha, hm⟩ := hs
  unfold accepted at hm
  split at hm
  next old new h₁ h₂ =>
    split at hm
    next user hu =>
      exact ⟨s₁, s, old, new, user, hp.mono fun _ _ _ => trivial, h₁,
        hq.mono fun _ _ _ => trivial, h₂, hu, not_revoked_of_admits ha⟩
    next => cases hm
  next => cases hm

end Auth
end Mitosis
