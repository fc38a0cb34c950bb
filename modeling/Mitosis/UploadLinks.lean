import Mitosis.Proof.Ledger
import Mitosis.Proof.Signed

namespace Mitosis
set_option autoImplicit true

namespace Table
variable {κ ρ τ : Type} [DecidableEq κ] {key key' : κ} {t : Table κ ρ} {g : ρ → τ}

theorem map_find_update {f : ρ → ρ} (h : ((t.update key f).find key').map g = some b)
    (hf : ∀ r, g (f r) = a) :
    (key = key' ∧ a = b) ∨ (t.find key').map g = some b ∧ key ≠ key' := by
  rw [find_update] at h
  split at h
  next hk =>
    rw [Option.map_map, Option.map_eq_some_iff] at h
    obtain ⟨r, -, hb⟩ := h
    exact .inl ⟨hk.symm, (hf r).symm.trans hb⟩
  next hk => exact .inr ⟨h, Ne.symm hk⟩

theorem map_find_set (h : ((t.set key r).find key').map g = some b) :
    (key = key' ∧ g r = b) ∨ (t.find key').map g = some b ∧ key ≠ key' := by
  rw [find_set] at h
  split at h
  next hk => exact .inl ⟨hk.symm, Option.some.inj h⟩
  next hk => exact .inr ⟨h, Ne.symm hk⟩

theorem map_find_erase (h : ((t.erase key).find key').map g = some b) :
    (t.find key').map g = some b := by
  rw [find_erase] at h
  split at h
  next => cases h
  next => exact h

end Table

namespace Storage
open Sessions
open Txns (applyAll)

def Store.rowOf (s : Store) : Object → Option Row
  | .artifact uuid contentType => some (.artifact (uuid, contentType))
  | .attachment name key => (s.groupNamed name).map fun g => .attachment (g, key)

/-- The `updated_at` of a record. -/
def Store.updatedAt (s : Store) : Row → Option Instant
  | .artifact key => (s.db.artifacts.find key).map Artifact.updatedAt
  | .attachment key => (s.attachments.find key).map Attachment.updatedAt
  | _ => none

/-- The record that a change writes, with its new `updated_at`. -/
def Change.stamp : Change → Option (Row × Instant)
  | setArtifact key _ now => some (.artifact key, now)
  | addArtifact _ key a => some (.artifact key, a.updatedAt)
  | setAttachment key _ now => some (.attachment key, now)
  | addAttachment _ key a => some (.attachment key, a.updatedAt)
  | _ => none

def Change.dropped : Change → Option Row
  | dropArtifact _ key => some (.artifact key)
  | dropAttachment _ key => some (.attachment key)
  | _ => none

/-- The `updated_at` of a record that is deleted, as the handler has read it. -/
def Update.seenAt : Update → Option Instant
  | deleteArtifact seen => some seen.updatedAt
  | deleteAttachment seen => some seen.updatedAt
  | _ => none

/-- An upload link, valid for `uploadValidSecs` since it was signed. -/
structure Link where
  session : Nat
  object : Object
  signedAt : Instant
  deriving DecidableEq

/-- A state with the links that have been signed, and those of the uploads that are committed,
which their clients are given. -/
structure Watched where
  state : State
  signed : List Link
  given : List Link

namespace Watched

def initial (s : Store) (next : Nat) (clock : Instant) : Watched :=
  ⟨Storage.initial s next clock, [], []⟩

abbrev store (w : Watched) : Store := w.state.shared.txns.committed

def signs (w : Watched) : Act Call (Option DbErr) Env → List Link
  | .step i none => match w.state.next i with
    | some (.presignUpload object length) =>
      if length < 0 then [] else [⟨i, object, w.state.shared.clock⟩]
    | _ => []
  | _ => []

def commits (w : Watched) (i : Nat) : Bool :=
  match w.state.next i with
  | some .commit => true
  | _ => false

def gives (w : Watched) : Act Call (Option DbErr) Env → List Link
  | .step i none => if w.commits i then w.signed.filter fun l => l.session = i else []
  | _ => []

def step (w : Watched) (a : Act Call (Option DbErr) Env) : Option Watched :=
  (Sessions.step system w.state a).map fun s => ⟨s, w.signed ++ w.signs a, w.given ++ w.gives a⟩

def pending (w : Watched) (i : Nat) : List Write := (w.state.shared.txns.opened.find i).getD []

/-- The session is a request of an administrator. -/
def admin (w : Watched) (i : Nat) : Bool := (w.state.pool[i]?).any fun t => t.call.admin

/-- A record is given an `updated_at` that is not before the signing of a link to its object: one
that has been given out, or the one of the session itself. -/
def covers (w : Watched) (i : Nat) (u : Write) : Bool :=
  u.change.stamp.all fun e => (w.given ++ w.signed.filter fun l => l.session = i).all fun l =>
    decide (w.store.rowOf l.object = some e.1 → l.signedAt ≤ e.2)

/-- A record that is deleted has been updated no later than the handler has read. -/
def upToDate (w : Watched) (u : Write) : Bool :=
  u.change.dropped.all fun row => u.source.seenAt.all fun seen =>
    (w.store.updatedAt row).any fun updatedAt => decide (updatedAt ≤ seen)

/-- Where the step commits an upload, its clock is late enough, and where it commits a user's
deletion, the record is as it was read. -/
def timely (w : Watched) : Act Call (Option DbErr) Env → Bool
  | .step i none => !w.commits i ||
    (w.pending i).all fun u => w.covers i u && (w.admin i || w.upToDate u)
  | _ => true

def deletes (w : Watched) (object : Object) : Act Call (Option DbErr) Env → Bool
  | .step i none => w.commits i && !w.admin i && (w.pending i).any fun u =>
    u.change.dropped.any fun row => decide (w.store.rowOf object = some row)
  | _ => false

def live (w : Watched) (l : Link) : Bool := w.state.shared.clock < l.signedAt + uploadValidSecs

end Watched

theorem Store.rowOf_congr {s s' : Store} (h : ∀ name, s'.groupNamed name = s.groupNamed name)
    (object : Object) : s'.rowOf object = s.rowOf object := by
  cases object with
  | artifact => rfl
  | attachment name key => exact congrArg (Option.map _) (h name)

theorem Change.updatedAt_apply {c : Change} (h : (c.apply s).updatedAt row = some u) :
    c.stamp = some (row, u) ∨ s.updatedAt row = some u ∧ ∀ t, c.stamp ≠ some (row, t) := by
  have hkeep (h : s.updatedAt row = some u) (hn : ∀ e, c.stamp = some e → e.1 ≠ row) :
      c.stamp = some (row, u) ∨ s.updatedAt row = some u ∧ ∀ t, c.stamp ≠ some (row, t) :=
    .inr ⟨h, fun t ht => hn _ ht rfl⟩
  cases c with
  | setArtifact key size now =>
    cases row with
    | artifact key' =>
      have h' : ((s.db.artifacts.update key fun a => { a with size, updatedAt := now }).find
        key').map Artifact.updatedAt = some u := h
      rcases Table.map_find_update h' fun _ => rfl with ⟨rfl, rfl⟩ | ⟨hu, hk⟩
      · exact .inl rfl
      · refine hkeep hu ?_
        rintro _ ⟨⟩ ⟨⟩
        exact hk rfl
    | _ =>
      refine hkeep h ?_
      rintro _ ⟨⟩ ⟨⟩
  | setAttachment key size now =>
    cases row with
    | attachment key' =>
      have h' : ((s.attachments.update key fun a => { a with size, updatedAt := now }).find
        key').map Attachment.updatedAt = some u := h
      rcases Table.map_find_update h' fun _ => rfl with ⟨rfl, rfl⟩ | ⟨hu, hk⟩
      · exact .inl rfl
      · refine hkeep hu ?_
        rintro _ ⟨⟩ ⟨⟩
        exact hk rfl
    | _ =>
      refine hkeep h ?_
      rintro _ ⟨⟩ ⟨⟩
  | addArtifact m key a =>
    cases row with
    | artifact key' =>
      have h' : ((s.db.artifacts.set key a).find key').map Artifact.updatedAt = some u := h
      rcases Table.map_find_set h' with ⟨rfl, rfl⟩ | ⟨hu, hk⟩
      · exact .inl rfl
      · refine hkeep hu ?_
        rintro _ ⟨⟩ ⟨⟩
        exact hk rfl
    | _ =>
      refine hkeep h ?_
      rintro _ ⟨⟩ ⟨⟩
  | addAttachment m key a =>
    cases row with
    | attachment key' =>
      have h' : ((s.attachments.set key a).find key').map Attachment.updatedAt = some u := h
      rcases Table.map_find_set h' with ⟨rfl, rfl⟩ | ⟨hu, hk⟩
      · exact .inl rfl
      · refine hkeep hu ?_
        rintro _ ⟨⟩ ⟨⟩
        exact hk rfl
    | _ =>
      refine hkeep h ?_
      rintro _ ⟨⟩ ⟨⟩
  | dropArtifact m key =>
    refine hkeep ?_ (by rintro _ ⟨⟩)
    cases row with
    | artifact key' => exact Table.map_find_erase h
    | _ => exact h
  | dropAttachment m key =>
    refine hkeep ?_ (by rintro _ ⟨⟩)
    cases row with
    | attachment key' => exact Table.map_find_erase h
    | _ => exact h
  | _ =>
    refine hkeep ?_ (by rintro _ ⟨⟩)
    cases row <;> exact h

theorem updatedAt_applyAll {ws : List Write} (h : (applyAll ws s).updatedAt row = some u) :
    (∃ w ∈ ws, w.change.stamp = some (row, u)) ∨
      s.updatedAt row = some u ∧ ∀ w ∈ ws, ∀ t, w.change.stamp ≠ some (row, t) := by
  induction ws generalizing s with
  | nil =>
    refine .inr ⟨h, ?_⟩
    intro w hw
    cases hw
  | cons w ws ih =>
    rcases ih h with ⟨w', hw', hs⟩ | ⟨hu, hno⟩
    · exact .inl ⟨w', .tail _ hw', hs⟩
    · rcases Change.updatedAt_apply hu with hs | ⟨hu', hn⟩
      · exact .inl ⟨w, .head _, hs⟩
      · refine .inr ⟨hu', ?_⟩
        intro w' hw'
        rcases List.mem_cons.1 hw' with rfl | hw'
        · exact hn
        · exact hno w' hw'

theorem Store.rowOf_applyAll (ws : List Write) (s : Store) (object : Object) :
    (applyAll ws s).rowOf object = s.rowOf object :=
  rowOf_congr (fun name => groupNamed_applyAll ws s name) object

theorem Records.stamp {s : Store} {f : Ids} (hr : Records K object q) (hm : f.Made n q c)
    (hshows : ∀ e ∈ K, f.Shows n e)
    (hnamed : ∀ name group, ⟨.select (.groupByName name), .ok (some group)⟩ ∈ K →
      s.groupNamed name = some group.1) :
    ∃ row now, s.rowOf object = some row ∧ c.stamp = some (row, now) := by
  cases hr with
  | updateArtifact hsel =>
    cases hm with
    | setArtifact hlt he =>
      obtain rfl := he.symm.trans (hshows _ hsel).2
      exact ⟨_, _, rfl, rfl⟩
  | insertArtifact =>
    cases hm with
    | addArtifact => exact ⟨_, _, rfl, rfl⟩
  | updateAttachment hgroup hsel =>
    cases hm with
    | setAttachment hlt he =>
      obtain rfl := he.symm.trans (hshows _ hsel).2
      exact ⟨_, _, congrArg (Option.map _) (hnamed _ _ hgroup), rfl⟩
  | insertAttachment hgroup =>
    cases hm with
    | addAttachment => exact ⟨_, _, congrArg (Option.map _) (hnamed _ _ hgroup), rfl⟩

/-- A statement that deletes a record has read its `updated_at`. -/
theorem Ids.Made.seenAt {f : Ids} (hm : f.Made n q c) (hd : c.dropped = some row) :
    ∃ seen, q.seenAt = some seen := by
  cases hm with
  | dropArtifact | dropAttachment => exact ⟨_, rfl⟩
  | _ => cases hd

/-- The statements of every session had what they need. -/
def Earned (log : List (Sent Cmd Cmd.Resp Call)) : Prop :=
  ∀ i k q r, ⟨i, k, ⟨.update q, r⟩⟩ ∈ log → ∀ seen, q.seenAt = some seen →
    Aged k (history i log) seen

theorem mem_txn {K : History} (ht : txn K = some us) (hu : u ∈ us) :
    ∃ r, (⟨.update u, r⟩ : Entry Cmd Cmd.Resp) ∈ K := by
  induction K generalizing us with
  | nil => cases ht
  | cons e K ih =>
    have hkeep (h : txn K = some us) : ∃ r, (⟨.update u, r⟩ : Entry Cmd Cmd.Resp) ∈ e :: K := by
      obtain ⟨r, hr⟩ := ih h hu
      exact ⟨r, .tail _ hr⟩
    unfold txn at ht
    split at ht
    next => cases ht
    next =>
      obtain ⟨⟩ := ht
      cases hu
    next => cases ht
    next => cases ht
    next he =>
      obtain ⟨rfl, rfl⟩ := List.cons.inj he
      obtain ⟨us', ht', rfl⟩ := Option.map_eq_some_iff.1 ht
      rcases List.mem_cons.1 hu with rfl | hu
      · exact ⟨_, .head _⟩
      · obtain ⟨r, hr⟩ := ih ht' hu
        exact ⟨r, .tail _ hr⟩
    next he =>
      obtain ⟨rfl, rfl⟩ := List.cons.inj he
      exact hkeep ht

theorem Aged.concat {log : List (Sent Cmd Cmd.Resp Call)} (h : Aged k (history i log) seen) :
    Aged k (history i (log ++ [e])) seen := by
  apply h.mono
  intro e' he'
  obtain ⟨k', hm⟩ := mem_history.1 he'
  exact mem_history.2 ⟨k', List.mem_append_left _ hm⟩

theorem earned_of_path {ok : State → Act Call (Option DbErr) Env → Prop} {s : State}
    (hp : Path (Sessions.step system) ok (Storage.initial s₀ nextId clock) as s) : Earned s.log := by
  apply log_invariant (P := fun _ log => Earned log) program_linked _ hp rfl rfl
  · intro i k q r hm
    cases hm
  · intro e x x' log h _
    exact h
  · intro s i k fault c p r x _ _ _ hn _ h j k' q r' hm seen hs
    rcases List.mem_append.1 hm with hm | hm
    · exact (h j k' q r' hm seen hs).concat
    · obtain ⟨⟩ := List.mem_singleton.1 hm
      apply Aged.concat
      cases q with
      | deleteArtifact | deleteAttachment =>
        obtain ⟨⟩ := hs
        exact hn
      | _ => cases hs
  · intro k K he
    exact (he rfl).elim

theorem Ran.committed_eq {c : Cmd} {r : c.Resp} (h : Ran i x c r x') (hc : c ≠ .commit) :
    x'.txns.committed = x.txns.committed := by
  cases h with
  | committed | aborted => exact (hc rfl).elim
  | _ => rfl

theorem next_of_pool {s : State} {c : Cmd} {p : c.Resp → Prog Cmd Cmd.Resp (Flow (Except Error Reply))}
    (h : s.pool[i]? = some ⟨k, .call c p⟩) : s.next i = some c := by
  rw [Sessions.next, h]
  rfl

namespace Watched

theorem path {ok : Watched → Act Call (Option DbErr) Env → Prop} {w : Watched}
    (hp : Path step ok (initial s₀ nextId clock) as w) : Path (Sessions.step system)
      (fun _ _ => True) (Storage.initial s₀ nextId clock) as w.state := by
  induction hp with
  | nil => exact .nil
  | snoc _ _ hs ih =>
    obtain ⟨s', hs', rfl⟩ := Option.map_eq_some_iff.1 hs
    exact .snoc ih trivial hs'

theorem commits_iff {w : Watched} : w.commits i = true ↔ w.state.next i = some .commit := by
  unfold commits
  split
  next h => exact ⟨fun _ => h, fun _ => rfl⟩
  next h =>
    constructor
    · intro hc
      cases hc
    · intro hn
      exact (h hn).elim

/-- Every link has been signed by its session, and the record of an object has been updated since
its links were signed that have been given out. -/
structure Covered (w : Watched) : Prop where
  signed : ∀ l ∈ w.signed, ∃ length url,
    ⟨.presignUpload l.object length, .ok url⟩ ∈ history l.session w.state.log
  given : ∀ l ∈ w.given, ∀ row, w.store.rowOf l.object = some row →
    ∀ updatedAt, w.store.updatedAt row = some updatedAt → l.signedAt ≤ updatedAt

theorem signs_step {w : Watched} {s' : State} (hs : Sessions.step system w.state a = some s')
    (hl : l ∈ w.signs a) : ∃ length url,
      ⟨.presignUpload l.object length, .ok url⟩ ∈ history l.session s'.log := by
  unfold signs at hl
  split at hl
  next i =>
    cases hs' : Sessions.step_cases hs with
    | @step _ _ x k c p r hi hx =>
      rw [next_of_pool hi] at hl
      split at hl
      next object length hc =>
        obtain rfl := Option.some.inj hc
        split at hl
        next => cases hl
        next hlen =>
          obtain rfl := List.mem_singleton.1 hl
          have hx' : some (Cmd.uploadLink object length, w.state.shared) = some (r, x) := hx
          rw [Cmd.uploadLink, if_neg hlen] at hx'
          obtain ⟨⟩ := hx'
          refine ⟨length, ⟨object, length⟩, ?_⟩
          rw [history_concat_self]
          exact .head _
      next => cases hl
  next => cases hl

theorem history_step {s s' : State} (hs : Sessions.step system s a = some s') (i : Nat) :
    history i s.log ⊆ history i s'.log := by
  intro e he
  obtain ⟨k, hm⟩ := mem_history.1 he
  cases Sessions.step_cases hs with
  | call => exact he
  | env => exact he
  | step => exact mem_history.2 ⟨k, List.mem_append_left _ hm⟩

theorem traced_linked {ok : State → Act Call (Option DbErr) Env → Prop} {s : State}
    (hp : Path (Sessions.step system) ok (Storage.initial s₀ nextId clock) as s) :
    s.Traced Cmd.linked fun _ _ r => r ≠ .again :=
  traced_of_path program_linked (fun _ _ he => (he rfl).elim) hp rfl rfl

theorem traced_sourced {ok : State → Act Call (Option DbErr) Env → Prop} {s : State}
    (hp : Path (Sessions.step system) ok (Storage.initial s₀ nextId clock) as s) :
    s.Traced (fun _ => Cmd.sourced) fun _ => ended :=
  traced_of_path program_sourced (fun _ _ he => he.elim) hp rfl rfl

theorem covered_commit {w : Watched} (h : w.Covered)
    {f : Ids} (hled : Ledger s₀ f w.state.shared w.state.log)
    (hn : Cmd.linked k (history i w.state.log) .commit)
    (ht : ∀ u ∈ w.pending i, w.covers i u = true)
    (hl : l ∈ w.given ++ w.signed.filter fun l => l.session = i)
    (hrow : w.store.rowOf l.object = some row)
    (hu : (applyAll (w.pending i) w.store).updatedAt row = some updatedAt) :
    l.signedAt ≤ updatedAt := by
  rcases updatedAt_applyAll hu with ⟨u, hum, hs⟩ | ⟨hold, hno⟩
  · have hc := ht u hum
    rw [covers, hs, Option.all_some, List.all_eq_true] at hc
    exact of_decide_eq_true (hc l hl) hrow
  · rcases List.mem_append.1 hl with hl | hl
    · exact h.given l hl row hrow updatedAt hold
    · obtain ⟨hsigned, hi⟩ := List.mem_filter.1 hl
      obtain rfl := of_decide_eq_true hi
      obtain ⟨length, url, hm⟩ := h.signed l hsigned
      obtain ⟨us, htxn, q, hq, hrec⟩ := hn _ _ _ hm
      have ho := hled.opened l.session
      rw [htxn] at ho
      obtain ⟨ws, hws, rfl⟩ := Option.map_eq_some_iff.1 ho
      obtain ⟨u, hum, rfl⟩ := List.mem_map.1 (List.mem_reverse.1 hq)
      have hshows : ∀ e ∈ history l.session w.state.log, f.Shows w.state.shared.next e := by
        intro e he
        obtain ⟨k', hk'⟩ := mem_history.1 he
        exact hled.shows _ hk'
      obtain ⟨row', now, hr', hs⟩ := hrec.stamp (hled.made _ ws u hws hum) hshows
        (hled.named l.session)
      rw [← Store.rowOf_congr hled.groups, hrow] at hr'
      obtain rfl := Option.some.inj hr'
      have hpend : u ∈ w.pending l.session := by
        rw [pending, hws]
        exact hum
      exact (hno u hpend now hs).elim

theorem covered_step {w w' : Watched}
    (hp : Path (Sessions.step system) (fun _ _ => True) (Storage.initial s₀ nextId clock) as w.state)
    (h₀ : s₀.drawn nextId) (h : w.Covered) (ht : w.timely a = true) (hs : w.step a = some w') :
    w'.Covered := by
  obtain ⟨s', hs', rfl⟩ := Option.map_eq_some_iff.1 hs
  constructor
  · intro l hl
    rcases List.mem_append.1 hl with hl | hl
    · obtain ⟨length, url, hm⟩ := h.signed l hl
      exact ⟨length, url, history_step hs' _ hm⟩
    · exact signs_step hs' hl
  · intro l hl row hrow updatedAt hu
    cases Sessions.step_cases hs' with
    | call =>
      simp only [gives, List.append_nil] at hl
      exact h.given l hl row hrow updatedAt hu
    | @env e x hx =>
      simp only [gives, List.append_nil] at hl
      have hx' : e.run w.state.shared = some x := hx
      have hsame : x.txns.committed.rowOf l.object = w.store.rowOf l.object ∧
          x.txns.committed.updatedAt row = w.store.updatedAt row := by
        cases e with
        | tick =>
          obtain ⟨⟩ := hx'
          exact ⟨rfl, rfl⟩
        | roles =>
          obtain ⟨⟩ := hx'
          constructor
          · cases l.object <;> rfl
          · cases row <;> rfl
        | tasks =>
          simp only [Env.run] at hx'
          split at hx'
          next =>
            obtain ⟨⟩ := hx'
            constructor
            · cases l.object <;> rfl
            · cases row <;> rfl
          next => cases hx'
      exact h.given l hl row (hsame.1.symm.trans hrow) updatedAt (hsame.2.symm.trans hu)
    | @step i fault x k c p r hi hx =>
      obtain ⟨f, hled⟩ := ledger_of_path h₀ hp
      by_cases hc : c = .commit
      · subst hc
        have hcom : w.commits i = true := commits_iff.2 (next_of_pool hi)
        cases fault with
        | some e =>
          obtain ⟨⟩ := hx
          simp only [gives, List.append_nil] at hl
          exact h.given l hl row hrow updatedAt hu
        | none =>
          obtain ⟨⟩ := hx
          simp only [gives, if_pos hcom] at hl
          rw [timely, hcom, Bool.not_true, Bool.false_or, List.all_eq_true] at ht
          have hcovers : ∀ u ∈ w.pending i, w.covers i u = true := by
            intro u hum
            have hand := ht u hum
            rw [Bool.and_eq_true] at hand
            exact hand.1
          have hlinked := ((traced_linked hp).knows _ _ hi).1
          apply covered_commit h hled hlinked hcovers hl _ hu
          exact (Store.rowOf_applyAll _ _ _).symm.trans hrow
      · have hgives : w.gives (.step i fault) = [] := by
          cases fault with
          | some e => rfl
          | none =>
            have hcom : w.commits i ≠ true := by
              intro hcom
              rw [commits_iff, next_of_pool hi] at hcom
              exact hc (Option.some.inj hcom)
            rw [gives, if_neg hcom]
        rw [hgives, List.append_nil] at hl
        have hran := ran_of_exec (hled.opened i) ((traced_sourced hp).knows _ _ hi).1 hx
        dsimp only [store] at hrow hu
        rw [hran.committed_eq hc] at hrow hu
        exact h.given l hl row hrow updatedAt hu

theorem covered_of_path {w : Watched} (h₀ : s₀.drawn nextId)
    (hp : Path step (fun w a => w.timely a = true) (initial s₀ nextId clock) as w) : w.Covered := by
  induction hp with
  | nil =>
    constructor
    · intro l hl
      cases hl
    · intro l hl
      cases hl
  | snoc hp ht hs ih => exact covered_step (path hp) h₀ ih ht hs

/-- In every run in which each commit of an upload leaves an `updated_at` that is not before the
signing of a link to the object, and each user's deletion that is committed still finds the record
as it was read, a deletion leaves no link valid that has been given out for the object. -/
theorem links_expired (s₀ : Store) (nextId : Nat) (clock : Instant)
    (as : List (Act Call (Option DbErr) Env)) (w w' : Watched) (a : Act Call (Option DbErr) Env)
    (object : Object) (l : Link) (h₀ : s₀.drawn nextId)
    (hp : Path step (fun w a => w.timely a = true) (initial s₀ nextId clock) as w)
    (ht : w.timely a = true) (hs : w.step a = some w') (hd : w.deletes object a = true)
    (hl : l ∈ w.given) (ho : l.object = object) : w'.live l = false := by
  subst ho
  obtain ⟨s', hs', rfl⟩ := Option.map_eq_some_iff.1 hs
  have hcovered := covered_of_path h₀ hp
  obtain ⟨f, hled⟩ := ledger_of_path h₀ (path hp)
  have hearned := earned_of_path (path hp)
  cases Sessions.step_cases hs' with
  | call => cases hd
  | env => cases hd
  | @step i fault x k c p r hi hx =>
    cases fault with
    | some e => cases hd
    | none =>
      simp only [deletes, Bool.and_eq_true, Bool.not_eq_true', Option.any_eq_true,
        List.any_eq_true, decide_eq_true_eq] at hd
      obtain ⟨⟨hcom, hadmin⟩, u, hum, row, hdrop, hrow⟩ := hd
      have hc : c = .commit := by
        have hnext := commits_iff.1 hcom
        rw [next_of_pool hi] at hnext
        exact Option.some.inj hnext
      subst hc
      obtain ⟨⟩ := hx
      have hws : ∃ ws, w.state.shared.txns.opened.find i = some ws ∧ u ∈ ws := by
        cases hf : w.state.shared.txns.opened.find i with
        | none =>
          rw [pending, hf] at hum
          cases hum
        | some ws =>
          rw [pending, hf] at hum
          exact ⟨ws, rfl, hum⟩
      obtain ⟨ws, hws, huw⟩ := hws
      obtain ⟨seen, hseen⟩ := (hled.made i ws u hws huw).seenAt hdrop
      have hup : ∃ updatedAt, w.store.updatedAt row = some updatedAt ∧ updatedAt ≤ seen := by
        rw [timely, hcom, Bool.not_true, Bool.false_or, List.all_eq_true] at ht
        have hand := ht u hum
        rw [hadmin, Bool.false_or, Bool.and_eq_true, upToDate, hdrop, Option.all_some, hseen,
          Option.all_some, Option.any_eq_true] at hand
        obtain ⟨updatedAt, hu, hle⟩ := hand.2
        exact ⟨updatedAt, hu, of_decide_eq_true hle⟩
      obtain ⟨updatedAt, hu, hle⟩ := hup
      have hsigned : l.signedAt ≤ updatedAt := hcovered.given l hl row hrow updatedAt hu
      have haged : Aged k (history i w.state.log) seen := by
        have ho := hled.opened i
        rw [hws, Option.map_some] at ho
        have hmem : u.source ∈ (ws.map Write.source).reverse :=
          List.mem_reverse.2 (List.mem_map_of_mem huw)
        obtain ⟨r', hr'⟩ := mem_txn ho.symm hmem
        obtain ⟨k', hk'⟩ := mem_history.1 hr'
        obtain ⟨t, hpool, hcall⟩ := (traced_linked (path hp)).calls _ hk'
        obtain rfl := Option.some.inj (hi.symm.trans hpool)
        have hcall' : k = k' := hcall
        subst hcall'
        exact hearned i k u.source r' hk' seen hseen
      have hclock : seen + uploadValidSecs ≤ w.state.shared.clock := by
        rcases haged with hk | ⟨time, hm, htime⟩
        · rw [admin, hi, Option.any_some, hk] at hadmin
          cases hadmin
        · exact htime.trans (hled.past i time hm)
      have hexpired : l.signedAt + uploadValidSecs ≤ w.state.shared.clock :=
        (Nat.add_le_add_right (hsigned.trans hle) _).trans hclock
      exact decide_eq_false (Nat.not_lt.2 hexpired)

def later (w : Watched) (n : Nat) : Watched :=
  { w with state.shared.clock := w.state.shared.clock + n }

theorem path_later (ok : Watched → Act Call (Option DbErr) Env → Prop)
    (hok : ∀ w, ok w (.env .tick)) (w : Watched) (n : Nat) :
    Path step ok w (List.replicate n (.env .tick)) (w.later n) := by
  induction n with
  | zero => exact .nil
  | succ n ih =>
    rw [List.replicate_succ']
    apply Path.snoc ih (hok _)
    simp only [step, signs, gives, List.append_nil]
    rfl

namespace UploadDemo

def upload (i : Nat) : List (Act Call (Option DbErr) Env) :=
  .call (.userUploadArtifact 1 7 .result 100) :: Demo.steps i 11

def check (i : Nat) : List (Act Call (Option DbErr) Env) :=
  .call (.userDeleteArtifact 1 7 .result) :: Demo.steps i 4

def deleting (w : Watched) (i : Nat) (l : Link) : Bool :=
  (w.step (.step i none)).any (fun w' => w'.state.result i = some (.ok .unit)) &&
    w.deletes (.artifact 7 .result) (.step i none) && decide (l ∈ w.given)

theorem of_deleting (h : deleting w i l = true) : ∃ w', w.step (.step i none) = some w' ∧
    w'.state.result i = some (.ok .unit) ∧
    w.deletes (.artifact 7 .result) (.step i none) = true ∧ l ∈ w.given := by
  simp only [deleting, Bool.and_eq_true, Option.any_eq_true, decide_eq_true_eq] at h
  obtain ⟨⟨⟨w', hs, hr⟩, hd⟩, hl⟩ := h
  exact ⟨w', hs, hr, hd, hl⟩

theorem store_drawn : Demo.store.drawn 1 := by
  constructor
  · intro m key hm
    cases hm
  · intro m key hm
    cases hm

end UploadDemo

open UploadDemo in
/-- An object is uploaded, and deleted an hour later. -/
theorem links_expired_later : ∃ as w w', Path step (fun w a => w.timely a = true)
    (initial Demo.store 1 0) as w ∧ w.step (.step 1 none) = some w' ∧
    w.deletes (.artifact 7 .result) (.step 1 none) = true ∧
    ⟨0, .artifact 7 .result, 0⟩ ∈ w.given ∧ w'.live ⟨0, .artifact 7 .result, 0⟩ = false := by
  have hrun : (Path.follow step timely (initial Demo.store 1 0) (upload 0)).any (fun w =>
      (Path.follow step timely (w.later 3600) (check 1 ++ Demo.steps 1 6)).any fun w =>
        w.timely (.step 1 none) && deleting w 1 ⟨0, .artifact 7 .result, 0⟩) = true := by
    decide +kernel
  obtain ⟨w₁, hp₁, h₁⟩ := Path.of_follow_any hrun
  obtain ⟨w, hp₂, h₂⟩ := Path.of_follow_any h₁
  rw [Bool.and_eq_true] at h₂
  obtain ⟨w', hs, -, hd, hl⟩ := of_deleting h₂.2
  have hlater := path_later (fun w a => w.timely a = true) (fun _ => rfl) w₁ 3600
  have hp := (hp₁.trans hlater).trans hp₂
  exact ⟨_, w, w', hp, hs, hd, hl, links_expired _ 1 0 _ w w' _ _ _ store_drawn hp h₂.1 hs hd hl rfl⟩

open UploadDemo in
/-- An object is uploaded again between the check of its record and the transaction of its
deletion: the new link is still valid when the record is gone. -/
theorem link_outlives_record : ∃ as w w', Path step (fun _ _ => True)
    (initial Demo.store 1 0) as w ∧ w.step (.step 1 none) = some w' ∧
    w'.state.result 1 = some (.ok .unit) ∧
    w.deletes (.artifact 7 .result) (.step 1 none) = true ∧
    ⟨2, .artifact 7 .result, 3600⟩ ∈ w.given ∧ w'.live ⟨2, .artifact 7 .result, 3600⟩ = true := by
  have hrun : (Path.follow step (fun _ _ => true) (initial Demo.store 1 0) (upload 0)).any
      (fun w => (Path.follow step (fun _ _ => true) (w.later 3600)
        (check 1 ++ upload 2 ++ Demo.steps 1 6)).any fun w =>
          deleting w 1 ⟨2, .artifact 7 .result, 3600⟩ &&
            (w.step (.step 1 none)).all fun w' => w'.live ⟨2, .artifact 7 .result, 3600⟩) = true := by
    decide +kernel
  obtain ⟨w₁, hp₁, h₁⟩ := Path.of_follow_any hrun
  obtain ⟨w, hp₂, h₂⟩ := Path.of_follow_any h₁
  rw [Bool.and_eq_true] at h₂
  obtain ⟨w', hs, hr, hd, hl⟩ := of_deleting h₂.1
  have hlive := h₂.2
  rw [hs, Option.all_some] at hlive
  have hp₁' : Path step (fun _ _ => True) _ _ _ := hp₁.mono fun _ _ _ => trivial
  have hp₂' : Path step (fun _ _ => True) _ _ _ := hp₂.mono fun _ _ _ => trivial
  have hlater := hp₁'.trans (path_later (fun _ _ => True) (fun _ => trivial) w₁ 3600)
  exact ⟨_, w, w', hlater.trans hp₂', hs, hr, hd, hl, hlive⟩

end Watched
end Storage
end Mitosis
