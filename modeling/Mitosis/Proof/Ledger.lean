import Mitosis.Proof.Transfers
import Mitosis.Proof.Writes

namespace Mitosis
set_option autoImplicit true

/-- An update that the predicate does not see keeps the key of the first row that satisfies it. -/
theorem Table.findWhere_update [DecidableEq κ] (t : Table κ ρ) (k : κ) (f : ρ → ρ)
    (p : κ → ρ → Bool) (h : ∀ k r, p k (f r) = p k r) :
    ((t.update k f).findWhere p).map Prod.fst = (t.findWhere p).map Prod.fst := by
  obtain ⟨l, hl⟩ := t
  simp only [findWhere, update, updateWhere, alter]
  clear hl
  induction l with
  | nil => rfl
  | cons e l ih =>
    have hp : p e.1 (if decide (e.1 = k) = true then f e.2 else e.2) = p e.1 e.2 := by
      split
      · exact h _ _
      · rfl
    simp only [List.filterMap_cons, Option.map_some, List.find?_cons, hp]
    split
    · rfl
    · exact ih

namespace Storage
open Sessions
export Sessions (history history_concat_self history_concat_ne mem_history log_invariant
  traced_of_path)

def Store.groupNamed (s : Store) (name : String) : Option GroupId :=
  (s.db.groups.findWhere fun _ g => g.groupName = name).map Prod.fst

theorem Store.groupNamed_apply (c : Change) (s : Store) (name : String) :
    (c.apply s).groupNamed name = s.groupNamed name := by
  unfold groupNamed
  cases c with
  | setStorageUsed id used now =>
    exact Table.findWhere_update s.db.groups id _ (fun _ g => g.groupName = name) fun _ _ => rfl
  | _ => rfl

theorem Store.groupNamed_applyAll (ws : List Write) (s : Store) (name : String) :
    (Txns.applyAll ws s).groupNamed name = s.groupNamed name := by
  induction ws generalizing s with
  | nil => rfl
  | cons w ws ih => exact (ih _).trans (groupNamed_apply w.change s name)

/-- What the primary keys stand for, for ever. -/
structure Ids where
  artifact : Nat → Uuid × ArtifactContentType
  attachment : Nat → GroupId × String

namespace Ids

/-- The primary keys in use are drawn, and stand for the rows that they are of. -/
structure Fits (f : Ids) (n : Nat) (s : Store) : Prop where
  artifact : ∀ m key, s.artifactIds.find m = some key → m < n ∧ f.artifact m = key
  attachment : ∀ m key, s.attachmentIds.find m = some key → m < n ∧ f.attachment m = key

/-- What a session has read and found by its key has this key. -/
def Shows (f : Ids) (n : Nat) (e : Entry Cmd Cmd.Resp) : Prop :=
  match e with
  | ⟨.select (.artifact uuid contentType), .ok (some seen)⟩ =>
    seen.id < n ∧ f.artifact seen.id = (uuid, contentType)
  | ⟨.select (.attachment groupId key), .ok (some seen)⟩ =>
    seen.id < n ∧ f.attachment seen.id = (groupId, key)
  | _ => True

/-- A statement makes this change whatever has changed meanwhile. -/
inductive Made (f : Ids) (n : Nat) : Update → Change → Prop
  | touchActive : Made f n (.touchTask task time) (.touchActive t time)
  | touchArchived : Made f n (.touchTask task time) (.touchArchived t time)
  | setArtifact : seen.id < n → f.artifact seen.id = key →
    Made f n (.updateArtifact seen size time) (.setArtifact key size time)
  | addArtifact : m < n → f.artifact m = (uuid, contentType) →
    Made f n (.insertArtifact uuid contentType size time)
      (.addArtifact m (uuid, contentType) ⟨size, time, time⟩)
  | noArtifact : Made f n (.deleteArtifact seen) .nothing
  | dropArtifact : seen.id < n → f.artifact seen.id = key →
    Made f n (.deleteArtifact seen) (.dropArtifact seen.id key)
  | setAttachment : seen.id < n → f.attachment seen.id = key →
    Made f n (.updateAttachment seen size time) (.setAttachment key size time)
  | addAttachment : m < n → f.attachment m = (groupId, key) →
    Made f n (.insertAttachment groupId key size time)
      (.addAttachment m (groupId, key) ⟨.noSet, size, time, time⟩)
  | noAttachment : Made f n (.deleteAttachment seen) .nothing
  | dropAttachment : seen.id < n → f.attachment seen.id = key →
    Made f n (.deleteAttachment seen) (.dropAttachment seen.id key)
  | setStorageUsed : Made f n (.updateGroup seen growth used time) (.setStorageUsed g used time)

/-- The other one knows more primary keys. -/
structure Grows (f : Ids) (n : Nat) (f' : Ids) (n' : Nat) : Prop where
  le : n ≤ n'
  artifact : ∀ m < n, f'.artifact m = f.artifact m
  attachment : ∀ m < n, f'.attachment m = f.attachment m

theorem Grows.refl (f : Ids) (h : n ≤ n') : f.Grows n f n' := ⟨h, fun _ _ => rfl, fun _ _ => rfl⟩

theorem Grows.fits {f f' : Ids} (h : f.Grows n f' n') (hf : f.Fits n s) : f'.Fits n' s := by
  constructor
  · intro m key hm
    obtain ⟨hlt, he⟩ := hf.artifact m key hm
    exact ⟨hlt.trans_le h.le, (h.artifact m hlt).trans he⟩
  · intro m key hm
    obtain ⟨hlt, he⟩ := hf.attachment m key hm
    exact ⟨hlt.trans_le h.le, (h.attachment m hlt).trans he⟩

theorem Grows.made {f f' : Ids} (h : f.Grows n f' n') (hm : Made f n u c) : Made f' n' u c := by
  cases hm with
  | touchActive => exact .touchActive
  | touchArchived => exact .touchArchived
  | setArtifact hlt he => exact .setArtifact (hlt.trans_le h.le) ((h.artifact _ hlt).trans he)
  | addArtifact hlt he => exact .addArtifact (hlt.trans_le h.le) ((h.artifact _ hlt).trans he)
  | noArtifact => exact .noArtifact
  | dropArtifact hlt he => exact .dropArtifact (hlt.trans_le h.le) ((h.artifact _ hlt).trans he)
  | setAttachment hlt he =>
    exact .setAttachment (hlt.trans_le h.le) ((h.attachment _ hlt).trans he)
  | addAttachment hlt he =>
    exact .addAttachment (hlt.trans_le h.le) ((h.attachment _ hlt).trans he)
  | noAttachment => exact .noAttachment
  | dropAttachment hlt he =>
    exact .dropAttachment (hlt.trans_le h.le) ((h.attachment _ hlt).trans he)
  | setStorageUsed => exact .setStorageUsed

theorem Grows.shows {f f' : Ids} (h : f.Grows n f' n') (hs : f.Shows n e) : f'.Shows n' e := by
  unfold Shows at hs ⊢
  split
  next => exact ⟨hs.1.trans_le h.le, (h.artifact _ hs.1).trans hs.2⟩
  next => exact ⟨hs.1.trans_le h.le, (h.attachment _ hs.1).trans hs.2⟩
  next => trivial

theorem Made.fits {f : Ids} (hm : Made f n u c) (h : f.Fits n s) : f.Fits n (c.apply s) := by
  cases hm with
  | addArtifact hlt he =>
    refine ⟨?_, h.attachment⟩
    intro m' key hf
    simp only [Change.apply, Table.find_set] at hf
    split at hf
    next hk =>
      obtain ⟨⟩ := hf
      subst hk
      exact ⟨hlt, he⟩
    next => exact h.artifact m' key hf
  | addAttachment hlt he =>
    refine ⟨h.artifact, ?_⟩
    intro m' key hf
    simp only [Change.apply, Table.find_set] at hf
    split at hf
    next hk =>
      obtain ⟨⟩ := hf
      subst hk
      exact ⟨hlt, he⟩
    next => exact h.attachment m' key hf
  | dropArtifact =>
    refine ⟨?_, h.attachment⟩
    intro m' key hf
    simp only [Change.apply, Table.find_erase] at hf
    split at hf
    next => cases hf
    next => exact h.artifact m' key hf
  | dropAttachment =>
    refine ⟨h.artifact, ?_⟩
    intro m' key hf
    simp only [Change.apply, Table.find_erase] at hf
    split at hf
    next => cases hf
    next => exact h.attachment m' key hf
  | _ => exact ⟨h.artifact, h.attachment⟩

theorem fits_applyAll {f : Ids} {ws : List Write} (hws : ∀ w ∈ ws, f.Made n w.source w.change)
    (h : f.Fits n s) : f.Fits n (Txns.applyAll ws s) := by
  induction ws generalizing s with
  | nil => exact h
  | cons w ws ih =>
    apply ih
    · intro w' hm
      exact hws w' (.tail _ hm)
    · exact (hws w (.head _)).fits h

def draw (f : Ids) (n : Nat) : Update → Ids
  | .insertArtifact uuid contentType _ _ =>
    { f with artifact := Function.update f.artifact n (uuid, contentType) }
  | .insertAttachment groupId key _ _ =>
    { f with attachment := Function.update f.attachment n (groupId, key) }
  | _ => f

theorem draw_grows (f : Ids) (n : Nat) (q : Update) : f.Grows n (f.draw n q) (n + 1) := by
  constructor
  · exact Nat.le_succ n
  · intro m hm
    cases q <;> first | rfl | exact Function.update_of_ne (Nat.ne_of_lt hm) _ _
  · intro m hm
    cases q <;> first | rfl | exact Function.update_of_ne (Nat.ne_of_lt hm) _ _

theorem made_of_makes {f : Ids} (h : f.Fits n v) (hm : Makes n v q c) :
    (f.draw n q).Made (n + 1) q c := by
  have hlt {m : Nat} (h : m < n) : m < n + 1 := Nat.lt_succ_of_lt h
  cases hm with
  | touchActive => exact .touchActive
  | touchArchived => exact .touchArchived
  | setArtifact hf =>
    obtain ⟨hl, he⟩ := h.artifact _ _ hf
    exact .setArtifact (hlt hl) he
  | addArtifact => exact .addArtifact (Nat.lt_succ_self n) (Function.update_self _ _ _)
  | noArtifact => exact .noArtifact
  | dropArtifact hf =>
    obtain ⟨hl, he⟩ := h.artifact _ _ hf
    exact .dropArtifact (hlt hl) he
  | setAttachment hf =>
    obtain ⟨hl, he⟩ := h.attachment _ _ hf
    exact .setAttachment (hlt hl) he
  | addAttachment => exact .addAttachment (Nat.lt_succ_self n) (Function.update_self _ _ _)
  | noAttachment => exact .noAttachment
  | dropAttachment hf =>
    obtain ⟨hl, he⟩ := h.attachment _ _ hf
    exact .dropAttachment (hlt hl) he
  | setStorageUsed => exact .setStorageUsed

end Ids

/-- What a command of the session `i` does, in a transaction or between two of them. -/
inductive Ran (i : Nat) (x : Infra) : (c : Cmd) → c.Resp → Infra → Prop
  | failed : c ≠ .commit → c ≠ .rollback → Ran i x c (.error e) x
  | refused : Ran i x (.update q) (.error e) { x with next := x.next + 1 }
  | selected : Ran i x (.select q) (.ok (q.eval (x.txns.view i))) x
  | now : Ran i x .now (.ok x.clock) x
  | signed : Ran i x (.presignUpload object length) (.ok url) x
  | presigned : Ran i x (.presignDownload object length minExpires) (.ok url) x
  | deleted : Ran i x (.deleteObject object) (.ok ()) x
  | wrote : Makes x.next (x.txns.view i) q c → x.txns.opened.find i = some ws →
    Ran i x (.update q) (.ok ()) { x with
      txns := { x.txns with opened := x.txns.opened.set i (ws ++ [⟨q, c⟩]) }
      next := x.next + 1 }
  | started : Ran i x .start (.ok ()) { x with txns := x.txns.start i }
  | committed : Ran i x .commit (.ok ()) { x with txns := x.txns.commit i }
  | aborted : Ran i x .commit (.error e) { x with txns := x.txns.rollback i }
  | rolledBack : Ran i x .rollback (.ok ()) { x with txns := x.txns.rollback i }

theorem ran_of_exec {x : Infra} {c : Cmd} {r : c.Resp}
    (hopen : (x.txns.opened.find i).map (fun ws => (ws.map Write.source).reverse) = txn K)
    (hn : c.sourced K) (hx : Cmd.exec i fault x c = some (r, x')) : Ran i x c r x' := by
  cases c with
  | select q =>
    cases fault with
    | some e =>
      obtain ⟨⟩ := hx
      exact .failed (fun h => by cases h) fun h => by cases h
    | none =>
      obtain ⟨⟩ := hx
      exact .selected
  | update q =>
    cases fault with
    | some e =>
      obtain ⟨⟩ := hx
      exact .failed (fun h => by cases h) fun h => by cases h
    | none =>
      obtain ⟨⟨r', txns⟩, hr, he⟩ := Option.map_eq_some_iff.1 hx
      obtain ⟨⟩ := he
      obtain ⟨-, ⟨e, rfl, -, rfl⟩ | ⟨a, new, rfl, hq, rfl⟩⟩ := Txns.execute_cases hr
      · exact .refused
      · obtain ⟨c, rfl, -, hm⟩ := Update.makes_of_answer hq
        obtain ⟨us, ht, -⟩ := hn
        rw [ht] at hopen
        obtain ⟨ws, hw, -⟩ := Option.map_eq_some_iff.1 hopen
        have hwrite : x.txns.write i [⟨q, c⟩] =
            { x.txns with opened := x.txns.opened.set i (ws ++ [⟨q, c⟩]) } := by
          rw [Txns.write, hw]
        rw [hwrite]
        exact .wrote hm hw
  | start =>
    cases fault with
    | some e =>
      obtain ⟨⟩ := hx
      exact .failed (fun h => by cases h) fun h => by cases h
    | none =>
      obtain ⟨⟩ := hx
      exact .started
  | commit =>
    cases fault with
    | some e =>
      obtain ⟨⟩ := hx
      exact .aborted
    | none =>
      obtain ⟨⟩ := hx
      exact .committed
  | rollback =>
    obtain ⟨⟩ := hx
    exact .rolledBack
  | presignUpload object length =>
    cases fault with
    | some e =>
      obtain ⟨⟩ := hx
      exact .failed (fun h => by cases h) fun h => by cases h
    | none =>
      obtain ⟨hr, rfl⟩ := Prod.mk.inj (Option.some.inj hx)
      cases r with
      | ok url => exact .signed
      | error e => exact .failed (fun h => by cases h) fun h => by cases h
  | presignDownload object length minExpires =>
    cases fault with
    | some e =>
      obtain ⟨⟩ := hx
      exact .failed (fun h => by cases h) fun h => by cases h
    | none =>
      obtain ⟨⟩ := hx
      exact .presigned
  | deleteObject object =>
    cases fault with
    | some e =>
      obtain ⟨⟩ := hx
      exact .failed (fun h => by cases h) fun h => by cases h
    | none =>
      obtain ⟨⟩ := hx
      exact .deleted
  | now =>
    obtain ⟨⟩ := hx
    exact .now

/-- What holds in every run that starts with the store `s₀`. -/
structure Ledger (s₀ : Store) (f : Ids) (x : Infra) (log : List (Sent Cmd Cmd.Resp Call)) : Prop where
  opened : ∀ i, (x.txns.opened.find i).map (fun ws => (ws.map Write.source).reverse) =
    txn (history i log)
  fits : f.Fits x.next x.txns.committed
  made : ∀ i ws w, x.txns.opened.find i = some ws → w ∈ ws → f.Made x.next w.source w.change
  shows : ∀ e ∈ log, f.Shows x.next e.entry
  groups : ∀ name, x.txns.committed.groupNamed name = s₀.groupNamed name
  named : ∀ i name group, ⟨.select (.groupByName name), .ok (some group)⟩ ∈ history i log →
    s₀.groupNamed name = some group.1
  past : ∀ i time, ⟨.now, .ok time⟩ ∈ history i log → time ≤ x.clock

namespace Ledger
variable {s₀ : Store} {f f' : Ids} {x x' : Infra} {log : List (Sent Cmd Cmd.Resp Call)}
  {e : Entry Cmd Cmd.Resp}

theorem initial (h : f.Fits n s₀) : Ledger s₀ f ⟨⟨s₀, .empty⟩, n, clock⟩ [] := by
  constructor
  · intro i
    rfl
  · exact h
  · intro i ws w hi
    cases hi
  · intro e he
    cases he
  · intro name
    rfl
  · intro i name group hm
    cases hm
  · intro i time hm
    cases hm

theorem mem_history_concat (hm : e' ∈ history j (log ++ [⟨i, k, e⟩])) :
    e' = e ∨ e' ∈ history j log := by
  obtain ⟨k', hk⟩ := mem_history.1 hm
  rcases List.mem_append.1 hk with hk | hk
  · exact .inr (mem_history.2 ⟨k', hk⟩)
  · exact .inl (congrArg Sent.entry (List.mem_singleton.1 hk))

/-- A command that touches the transaction of its own session only. -/
theorem concat (h : Ledger s₀ f x log) (hg : f.Grows x.next f' x'.next)
    (hne : ∀ j, j ≠ i → x'.txns.opened.find j = x.txns.opened.find j)
    (hi : (x'.txns.opened.find i).map (fun ws => (ws.map Write.source).reverse) =
      txn (e :: history i log))
    (hfits : f'.Fits x'.next x'.txns.committed)
    (hmade : ∀ ws w, x'.txns.opened.find i = some ws → w ∈ ws → f'.Made x'.next w.source w.change)
    (hshows : f'.Shows x'.next e)
    (hgroups : ∀ name, x'.txns.committed.groupNamed name = x.txns.committed.groupNamed name)
    (hnamed : ∀ name group, e = ⟨.select (.groupByName name), .ok (some group)⟩ →
      s₀.groupNamed name = some group.1)
    (hpast : ∀ time, e = ⟨.now, .ok time⟩ → time ≤ x.clock) (hclock : x'.clock = x.clock) :
    Ledger s₀ f' x' (log ++ [⟨i, k, e⟩]) := by
  constructor
  · intro j
    by_cases hj : j = i
    · subst hj
      rw [history_concat_self]
      exact hi
    · rw [history_concat_ne _ _ _ hj, hne j hj]
      exact h.opened j
  · exact hfits
  · intro j ws w hj hw
    by_cases hji : j = i
    · subst hji
      exact hmade ws w hj hw
    · rw [hne j hji] at hj
      exact hg.made (h.made j ws w hj hw)
  · intro e' he'
    rcases List.mem_append.1 he' with he' | he'
    · exact hg.shows (h.shows e' he')
    · obtain rfl := List.mem_singleton.1 he'
      exact hshows
  · intro name
    exact (hgroups name).trans (h.groups name)
  · intro j name group hm
    rcases mem_history_concat hm with rfl | hm
    · exact hnamed name group rfl
    · exact h.named j name group hm
  · intro j time hm
    rw [hclock]
    rcases mem_history_concat hm with rfl | hm
    · exact hpast time rfl
    · exact h.past j time hm

theorem view_fits (h : Ledger s₀ f x log) (i : Nat) : f.Fits x.next (x.txns.view i) := by
  apply Ids.fits_applyAll _ h.fits
  intro w hw
  cases hi : x.txns.opened.find i with
  | none =>
    rw [hi] at hw
    cases hw
  | some ws =>
    rw [hi] at hw
    exact h.made i ws w hi hw

theorem view_groupNamed (h : Ledger s₀ f x log) (i : Nat) (name : String) :
    (x.txns.view i).groupNamed name = s₀.groupNamed name :=
  (Store.groupNamed_applyAll _ _ name).trans (h.groups name)

theorem keep (h : Ledger s₀ f x log) (ht : ∀ K, txn (e :: K) = txn K)
    (hshows : f.Shows x.next e)
    (hnamed : ∀ name group, e = ⟨.select (.groupByName name), .ok (some group)⟩ →
      s₀.groupNamed name = some group.1)
    (hpast : ∀ time, e = ⟨.now, .ok time⟩ → time ≤ x.clock) :
    Ledger s₀ f x (log ++ [⟨i, k, e⟩]) := by
  apply h.concat (.refl f (Nat.le_refl _)) (fun _ _ => rfl)
  · rw [ht]
    exact h.opened i
  · exact h.fits
  · exact h.made i
  · exact hshows
  · exact fun _ => rfl
  · exact hnamed
  · exact hpast
  · rfl

theorem reopen (h : Ledger s₀ f x log) {c : Cmd} {r : c.Resp} (hc : c.reads = false)
    (hne : ∀ j, j ≠ i → x'.txns.opened.find j = x.txns.opened.find j)
    (hi : (x'.txns.opened.find i).map (fun ws => (ws.map Write.source).reverse) =
      txn (⟨c, r⟩ :: history i log))
    (hmade : ∀ ws w, x'.txns.opened.find i = some ws → w ∈ ws → f.Made x'.next w.source w.change)
    (hfits : f.Fits x'.next x'.txns.committed)
    (hgroups : ∀ name, x'.txns.committed.groupNamed name = x.txns.committed.groupNamed name)
    (hn : x'.next = x.next) (hclock : x'.clock = x.clock) :
    Ledger s₀ f x' (log ++ [⟨i, k, ⟨c, r⟩⟩]) := by
  apply h.concat (.refl f (Nat.le_of_eq hn.symm)) hne hi hfits hmade
  · cases c with
    | select => cases hc
    | _ => trivial
  · exact hgroups
  · intro name group he
    obtain ⟨⟩ := he
    cases hc
  · intro time he
    obtain ⟨⟩ := he
    cases hc
  · exact hclock

theorem shows_eval {f : Ids} (q : Select) (h : f.Fits n v) :
    f.Shows n ⟨.select q, .ok (q.eval v)⟩ := by
  cases q with
  | artifact uuid contentType =>
    generalize hx : (Select.artifact uuid contentType).eval v = r
    cases r with
    | none => trivial
    | some seen =>
      obtain ⟨⟨m, key⟩, hm, he⟩ := List.exists_of_findSome?_eq_some hx
      split at he
      next hk =>
        obtain ⟨a, -, rfl⟩ := Option.map_eq_some_iff.1 he
        obtain ⟨hlt, hf⟩ := h.artifact m key (Table.mem_rows.1 hm)
        exact ⟨hlt, hf.trans hk⟩
      next => cases he
  | attachment groupId k =>
    generalize hx : (Select.attachment groupId k).eval v = r
    cases r with
    | none => trivial
    | some seen =>
      obtain ⟨⟨m, key⟩, hm, he⟩ := List.exists_of_findSome?_eq_some hx
      split at he
      next hk =>
        obtain ⟨a, -, rfl⟩ := Option.map_eq_some_iff.1 he
        obtain ⟨hlt, hf⟩ := h.attachment m key (Table.mem_rows.1 hm)
        exact ⟨hlt, hf.trans hk⟩
      next => cases he
  | _ => trivial

theorem shows_error (f : Ids) (n : Nat) (c : Cmd) (e : Error) : f.Shows n ⟨c, .error e⟩ := by
  cases c with
  | select q => cases q <;> trivial
  | _ => trivial

theorem ran {c : Cmd} {r : c.Resp} (h : Ledger s₀ f x log) (hx : Ran i x c r x') :
    ∃ f', Ledger s₀ f' x' (log ++ [⟨i, k, c, r⟩]) := by
  cases hx with
  | @failed c e hc hc' =>
    refine ⟨f, h.keep (txn_error hc hc' e) (shows_error _ _ _ _) ?_ ?_⟩
    · intro name group he
      obtain ⟨rfl, he⟩ := Sigma.mk.inj he
      cases eq_of_heq he
    · intro time he
      obtain ⟨rfl, he⟩ := Sigma.mk.inj he
      cases eq_of_heq he
  | refused =>
    have hg : f.Grows x.next f (x.next + 1) := .refl f (Nat.le_succ _)
    refine ⟨f, h.concat hg (fun _ _ => rfl) (h.opened i) (hg.fits h.fits) ?_ trivial
      (fun _ => rfl) ?_ ?_ rfl⟩
    · intro ws w hi hw
      exact hg.made (h.made i ws w hi hw)
    · intro name group he
      cases he
    · intro time he
      cases he
  | selected =>
    refine ⟨f, h.keep (fun _ => rfl) (shows_eval _ (h.view_fits i)) ?_ ?_⟩
    · intro name group he
      obtain ⟨hq, he⟩ := Sigma.mk.inj he
      obtain rfl := Cmd.select.inj hq
      have hf : (x.txns.view i).db.groups.findWhere (fun _ g => g.groupName = name) = some group :=
        Except.ok.inj (eq_of_heq he)
      rw [← h.view_groupNamed i, Store.groupNamed, hf, Option.map_some]
    · intro time he
      cases he
  | now =>
    refine ⟨f, h.keep (fun _ => rfl) trivial ?_ ?_⟩
    · intro name group he
      cases he
    · intro time he
      obtain ⟨⟩ := he
      exact Nat.le_refl _
  | signed | presigned | deleted =>
    refine ⟨f, h.keep (fun _ => rfl) trivial ?_ ?_⟩
    · intro name group he
      cases he
    · intro time he
      cases he
  | @wrote q c ws hm hw =>
    have hg := f.draw_grows x.next q
    refine ⟨f.draw x.next q, h.concat hg ?_ ?_ (hg.fits h.fits) ?_ trivial (fun _ => rfl) ?_ ?_ rfl⟩
    · intro j hj
      exact Table.find_set_ne _ _ hj
    · have hi := h.opened i
      rw [hw] at hi
      simp only [Table.find_set_self, Option.map_some, List.map_append, List.map_singleton,
        List.reverse_append, List.reverse_singleton, List.singleton_append, txn, ← hi]
    · intro ws' w hws hw'
      simp only [Table.find_set_self] at hws
      obtain rfl := Option.some.inj hws
      rcases List.mem_append.1 hw' with hw' | hw'
      · exact hg.made (h.made i ws w hw hw')
      · obtain rfl := List.mem_singleton.1 hw'
        exact Ids.made_of_makes (h.view_fits i) hm
    · intro name group he
      cases he
    · intro time he
      cases he
  | started =>
    refine ⟨f, h.reopen rfl (fun j hj => Table.find_set_ne _ _ hj) ?_ ?_ h.fits (fun _ => rfl)
      rfl rfl⟩
    · simp only [Txns.start, Table.find_set_self]
      rfl
    · intro ws w hws hw
      simp only [Txns.start, Table.find_set_self] at hws
      obtain rfl := Option.some.inj hws
      cases hw
  | committed =>
    refine ⟨f, h.reopen rfl (fun j hj => Table.find_erase_ne _ hj) ?_ ?_ (h.view_fits i) ?_ rfl rfl⟩
    · simp only [Txns.commit, Table.find_erase_self]
      rfl
    · intro ws w hws
      simp only [Txns.commit, Table.find_erase_self] at hws
      cases hws
    · intro name
      exact Store.groupNamed_applyAll _ _ name
  | aborted | rolledBack =>
    refine ⟨f, h.reopen rfl (fun j hj => Table.find_erase_ne _ hj) ?_ ?_ h.fits (fun _ => rfl)
      rfl rfl⟩
    · simp only [Txns.rollback, Table.find_erase_self]
      rfl
    · intro ws w hws
      simp only [Txns.rollback, Table.find_erase_self] at hws
      cases hws

theorem env {e : Env} (h : Ledger s₀ f x log) (hx : e.run x = some x') : Ledger s₀ f x' log := by
  cases e with
  | tick =>
    obtain ⟨⟩ := hx
    exact ⟨h.opened, h.fits, h.made, h.shows, h.groups, h.named,
      fun i time hm => Nat.le_succ_of_le (h.past i time hm)⟩
  | roles userGroup =>
    obtain ⟨⟩ := hx
    exact ⟨h.opened, ⟨h.fits.artifact, h.fits.attachment⟩, h.made, h.shows, h.groups, h.named, h.past⟩
  | tasks activeTasks archivedTasks =>
    simp only [Env.run] at hx
    split at hx
    next hc =>
      obtain ⟨⟩ := hx
      exact ⟨h.opened, ⟨h.fits.artifact, h.fits.attachment⟩, h.made, h.shows, h.groups, h.named, h.past⟩
    next => cases hx

end Ledger

def Store.drawn (s : Store) (n : Nat) : Prop :=
  (∀ m key, s.artifactIds.find m = some key → m < n) ∧
    ∀ m key, s.attachmentIds.find m = some key → m < n

theorem Store.drawn.fits {s : Store} (h : s.drawn n) : ∃ f : Ids, f.Fits n s := by
  refine ⟨⟨fun m => (s.artifactIds.find m).getD (0, .result),
    fun m => (s.attachmentIds.find m).getD (0, "")⟩, ?_, ?_⟩
  · intro m key hf
    exact ⟨h.1 m key hf, congrArg (fun k => Option.getD k _) hf⟩
  · intro m key hf
    exact ⟨h.2 m key hf, congrArg (fun k => Option.getD k _) hf⟩

theorem ledger_of_path {ok : State → Act Call (Option DbErr) Env → Prop} {s : State}
    (h₀ : s₀.drawn nextId) (hp : Path (step system) ok (initial s₀ nextId clock) as s) :
    ∃ f, Ledger s₀ f s.shared s.log := by
  obtain ⟨f, hf⟩ := h₀.fits
  apply log_invariant (P := fun x log => ∃ f, Ledger s₀ f x log) program_sourced _ hp rfl rfl
    ⟨f, .initial hf⟩
  · rintro e x x' log ⟨f, h⟩ hx
    exact ⟨f, h.env hx⟩
  · rintro s i k fault c p r x _ _ _ hn hx ⟨f, h⟩
    exact h.ran (ran_of_exec (h.opened i) hn hx)
  · intro k K he
    exact he.elim

end Storage
end Mitosis
