import Mitosis.Database
import Mitosis.Lib.Alone
import Mitosis.Registry

namespace Mitosis
set_option autoImplicit true

theorem Txns.view_write {σ κ W : Type} [RowWrite W σ κ] (s : Txns σ W) (i : Nat) (ws : List W) :
    (s.write i ws).view i = applyAll ws (s.view i) := by
  unfold Txns.write Txns.view
  cases h : s.opened.find i with
  | none =>
    dsimp only
    rw [h]
    rfl
  | some old =>
    dsimp only
    rw [Table.find_set_self, Option.getD_some, Option.getD_some, applyAll, List.foldl_append]
    rfl

namespace QuotaEdit
open Registry.Service (parseQuota i32FromStr asI32 changeQuota)

inductive StorageQuotaOp where
  | increase (v : Int)
  | decrease (v : Int)
  | set (v : Int)

/-- `parseSize` is `parse_size` of the crate of that name. -/
def parseStorageQuota (parseSize : List Char → Except Error UInt64) (quota : String) :
    Except Error StorageQuotaOp :=
  let parseBytesize (cs : List Char) : Except Error Int :=
    (parseSize cs).map fun u => asI64 u.toNat
  match quota.toList with
  | '+' :: cs => (parseBytesize cs).map .increase
  | '-' :: cs => (parseBytesize cs).map .decrease
  | '=' :: cs => (parseBytesize cs).map .set
  | cs => (parseBytesize cs).map .set

/-- The number clamped to the range of `i64`. -/
def saturateI64 (n : Int) : Int := max (-2 ^ 63) (min n (2 ^ 63 - 1))

def StorageQuotaOp.newQuota (quota : Int) : StorageQuotaOp → Int
  | increase v => saturateI64 (quota + v)
  | decrease v => saturateI64 (quota - v)
  | set v => v

/-- `change_group_storage_quota`, with the transaction at the time `now`. -/
def changeGroupStorageQuota (parseSize : List Char → Except Error UInt64)
    (groupName storageQuota : String) (now : Instant) : Stmt Int := fun db => do
  let quotaOp ← parseStorageQuota parseSize storageQuota
  match db.groups.findWhere fun _ group => group.groupName = groupName with
  | none => .error (.dbError .recordNotUpdated)
  | some (id, group) =>
    let newQuota := quotaOp.newQuota group.storageQuota
    let group := { group with storageQuota := newQuota, updatedAt := now }
    return (group.storageQuota, { db with groups := db.groups.set id group })

inductive Op where
  | increase
  | decrease
  | set
  deriving DecidableEq

/-- The operation of an edit, and the text of the number behind it. -/
def edit (s : String) : Op × List Char :=
  match s.toList with
  | '+' :: cs => (.increase, cs)
  | '-' :: cs => (.decrease, cs)
  | '=' :: cs => (.set, cs)
  | cs => (.set, cs)

/-- What the edit with the written number `n` is to make of the quota `old`, which lies between
the two bounds. -/
def Exact (lo hi old n new : Int) : Op → Prop
  | .increase => new = min (old + n) hi ∧ old ≤ new
  | .decrease => new = max (old - n) lo ∧ new ≤ old
  | .set => new = max lo (min n hi)

/-- The arithmetic of an edit on an `i32`. -/
def wrapped (old n : Int) : Op → Int
  | .increase => asI32 (old + n)
  | .decrease => asI32 (old - n)
  | .set => n

theorem parseQuota_eq (old : Int) (s : String) :
    parseQuota old s = (i32FromStr (edit s).2).map fun n => wrapped old n (edit s).1 := by
  unfold parseQuota edit
  generalize s.toList = cs
  split
  · rfl
  · rfl
  · simp only [wrapped]
    cases i32FromStr _ <;> rfl
  · simp only [wrapped]
    cases i32FromStr _ <;> rfl

/-- The arithmetic of an edit on an `i64`, from a `u64`. -/
def saturated (old : Int) (n : Nat) : Op → Int
  | .increase => saturateI64 (old + asI64 n)
  | .decrease => saturateI64 (old - asI64 n)
  | .set => asI64 n

theorem parseStorageQuota_eq (parseSize : List Char → Except Error UInt64) (old : Int)
    (s : String) : (parseStorageQuota parseSize s).map (·.newQuota old) =
      (parseSize (edit s).2).map fun u => saturated old u.toNat (edit s).1 := by
  unfold parseStorageQuota edit
  generalize s.toList = cs
  split
  all_goals
    dsimp only
    cases parseSize _ <;> rfl

/-- When an edit of an `i32` that is clamped at 0 is exact. -/
def Fits (old n : Int) : Op → Prop
  | .increase => 0 ≤ n ∧ 0 ≤ old + n ∧ old + n < 2 ^ 31
  | .decrease => 0 ≤ n ∧ 0 ≤ old
  | .set => True

theorem wrapped_exact {old n : Int} (ho : -2 ^ 31 ≤ old ∧ old < 2 ^ 31)
    (hn : -2 ^ 31 ≤ n ∧ n < 2 ^ 31) (op : Op) :
    Exact 0 (2 ^ 31 - 1) old n (max (wrapped old n op) 0) op ↔ Fits old n op := by
  cases op with
  | increase =>
    simp only [Exact, Fits, wrapped, asI32, Int.bmod_def]
    omega
  | decrease =>
    simp only [Exact, Fits, wrapped, asI32, Int.bmod_def]
    omega
  | set =>
    simp only [Exact, Fits, wrapped, iff_true]
    omega

theorem saturated_exact {old : Int} (ho : -2 ^ 63 ≤ old ∧ old < 2 ^ 63) {n : Nat} (hn : n < 2 ^ 64)
    (op : Op) : Exact (-2 ^ 63) (2 ^ 63 - 1) old n (saturated old n op) op ↔ n < 2 ^ 63 := by
  cases op with
  | increase | decrease | set =>
    simp only [Exact, saturated, saturateI64, asI64]
    omega

theorem updateQuota_view {x x' : Registry.Infra} {id : UserId} {u : Registry.UserModel}
    (h : Registry.Cmd.exec i none x (.updateQuota id quota time) = some (.ok u, x')) :
    ∃ user, (x.txns.view i).users.find id = some user ∧
      u = { user with groupQuota := quota, updatedAt := time } ∧
      (x'.txns.view i).users.find id = some u := by
  obtain ⟨⟨r, txns⟩, he, heq⟩ := Option.map_eq_some_iff.1 h
  obtain ⟨rfl, rfl⟩ := Prod.mk.inj heq
  obtain ⟨-, ⟨e, hr, -⟩ | ⟨_, ws, hr, hq, rfl⟩⟩ := Txns.execute_cases he
  · cases hr
  · obtain ⟨⟩ := hr
    rw [Txns.view_write]
    unfold Registry.updateUser at hq
    dsimp only at hq
    split at hq
    next => cases hq
    next user hu =>
      obtain ⟨⟩ := hq
      have hrow := (Table.find_update _ _ _ _).symm.trans hu
      rw [if_pos rfl] at hrow
      obtain ⟨old, ho, rfl⟩ := Option.map_eq_some_iff.1 hrow
      exact ⟨old, ho, rfl, hu⟩

theorem i32FromStr_range {cs : List Char} (h : i32FromStr cs = .ok n) :
    -2 ^ 31 ≤ n ∧ n < 2 ^ 31 := by
  unfold i32FromStr at h
  cases hp : parseI32 cs with
  | error =>
    rw [hp] at h
    cases h
  | ok m =>
    rw [hp] at h
    obtain rfl := Except.ok.inj h
    exact parseI32_range hp

open Fallible in
theorem run_changeQuota {x x' : Registry.Infra} {r : Int}
    (h : run (fun c x => c.exec i none x) (changeQuota username groupQuota) x = some (.ok r, x')) :
    ∃ id user n, (x.txns.view i).users.findWhere (fun _ u => u.username = username) =
        some (id, user) ∧ i32FromStr (edit groupQuota).2 = .ok n ∧
      r = max (wrapped user.groupQuota n (edit groupQuota).1) 0 ∧
      (x'.txns.view i).users.find id =
        some { user with groupQuota := r, updatedAt := x.clock } := by
  have hfind : run (fun c x => c.exec i none x) (Registry.Service.issue (.userByName username)) x =
      some (.ok ((x.txns.view i).users.findWhere fun _ u => u.username = username), x) :=
    run_issue _ _
  unfold changeQuota at h
  rw [run_bind_ok hfind] at h
  cases hu : (x.txns.view i).users.findWhere fun _ u => u.username = username with
  | none =>
    rw [hu, run_bind_error (run_okOr_none _ _)] at h
    cases h
  | some row =>
    obtain ⟨id, user⟩ := row
    rw [hu, run_bind_ok (run_okOr_some _ _ _)] at h
    obtain ⟨newQuota, z, hp, h⟩ := run_bind_cases_ok h
    rw [run_ofExcept, parseQuota_eq] at hp
    cases hn : i32FromStr (edit groupQuota).2 with
    | error e =>
      rw [hn] at hp
      cases hp
    | ok n =>
      rw [hn] at hp
      obtain ⟨⟩ := hp
      obtain ⟨time, z, ht, h⟩ := run_bind_cases_ok h
      rw [run_issue] at ht
      obtain ⟨⟩ := ht
      obtain ⟨u, z, hw, h⟩ := run_bind_cases_ok h
      rw [run_issue] at hw
      obtain ⟨⟩ := h
      obtain ⟨user', hu', rfl, hrow⟩ := updateQuota_view hw
      have heq := hu'.symm.trans (Table.findWhere_some hu).1
      obtain rfl := Option.some.inj heq
      exact ⟨id, user', n, rfl, rfl, rfl, hrow⟩

theorem changeGroupStorageQuota_ok {parseSize : List Char → Except Error UInt64}
    (h : changeGroupStorageQuota parseSize groupName storageQuota time db = .ok (new, db')) :
    ∃ id group u, db.groups.findWhere (fun _ g => g.groupName = groupName) = some (id, group) ∧
      parseSize (edit storageQuota).2 = .ok u ∧
      new = saturated group.storageQuota u.toNat (edit storageQuota).1 ∧
      db'.groups.find id = some { group with storageQuota := new, updatedAt := time } := by
  unfold changeGroupStorageQuota at h
  cases hop : parseStorageQuota parseSize storageQuota with
  | error =>
    rw [hop] at h
    cases h
  | ok quotaOp =>
    cases hg : db.groups.findWhere fun _ g => g.groupName = groupName with
    | none =>
      simp only [hop, hg, bind, Except.bind] at h
      cases h
    | some row =>
      obtain ⟨id, group⟩ := row
      simp only [hop, hg, bind, Except.bind] at h
      obtain ⟨⟩ := h
      have heq := parseStorageQuota_eq parseSize group.storageQuota storageQuota
      rw [hop] at heq
      cases hu : parseSize (edit storageQuota).2 with
      | error e =>
        rw [hu] at heq
        cases heq
      | ok u =>
        rw [hu] at heq
        have hnew := Except.ok.inj heq
        exact ⟨id, group, u, rfl, rfl, hnew, Table.find_set_self _ _ _⟩

/-- An edit of a user's group quota is exact if and only if the written number is not negative and
the sum is in the range of `i32`; one of a storage quota if and only if the size is in the range of
`i64`. -/
theorem edits_exact_iff (i : Nat) (parseSize : List Char → Except Error UInt64) :
    (∀ (x x' : Registry.Infra) (username groupQuota : String) (new : Int),
      Fallible.run (fun c x => c.exec i none x) (changeQuota username groupQuota) x =
        some (.ok new, x') →
      ∃ id user n, (x.txns.view i).users.findWhere (fun _ u => u.username = username) =
          some (id, user) ∧ i32FromStr (edit groupQuota).2 = .ok n ∧
        (x'.txns.view i).users.find id =
          some { user with groupQuota := new, updatedAt := x.clock } ∧
        (-2 ^ 31 ≤ user.groupQuota ∧ user.groupQuota < 2 ^ 31 →
          (Exact 0 (2 ^ 31 - 1) user.groupQuota n new (edit groupQuota).1 ↔
            Fits user.groupQuota n (edit groupQuota).1))) ∧
    ∀ (groupName storageQuota : String) (time : Instant) (db db' : Db) (new : Int),
      changeGroupStorageQuota parseSize groupName storageQuota time db = .ok (new, db') →
      ∃ id group u, db.groups.findWhere (fun _ g => g.groupName = groupName) = some (id, group) ∧
        parseSize (edit storageQuota).2 = .ok u ∧
        db'.groups.find id = some { group with storageQuota := new, updatedAt := time } ∧
        (-2 ^ 63 ≤ group.storageQuota ∧ group.storageQuota < 2 ^ 63 →
          (Exact (-2 ^ 63) (2 ^ 63 - 1) group.storageQuota u.toNat new (edit storageQuota).1 ↔
            u.toNat < 2 ^ 63)) := by
  constructor
  · intro x x' username groupQuota new h
    obtain ⟨id, user, n, hu, hn, rfl, hx⟩ := run_changeQuota h
    refine ⟨id, user, n, hu, hn, hx, ?_⟩
    intro hq
    exact wrapped_exact hq (i32FromStr_range hn) _
  · intro groupName storageQuota time db db' new h
    obtain ⟨id, group, u, hg, hu, rfl, hrow⟩ := changeGroupStorageQuota_ok h
    refine ⟨id, group, u, hg, hu, hrow, ?_⟩
    intro hq
    exact saturated_exact hq (UInt64.toNat_lt u) _

namespace EditDemo

/-- `parse_size` on a number without a unit. -/
def parseSize (cs : List Char) : Except Error UInt64 :=
  match parseDigits (2 ^ 64 - 1) "" 0 cs with
  | .ok n => .ok (.ofNat n)
  | .error _ => .error (.dbError .constraint)

def infra : Registry.Infra where
  txns := ⟨⟨Table.empty.set 1 (.new "u" "" 0 false), .empty, .empty⟩, .empty⟩
  clock := 5
  nextSalt := 0
  nextUser := 2
  nextGroup := 1

def after : Registry.Infra := { infra with txns := infra.txns.write 0 [.setQuota 1 10 5] }

end EditDemo

/-- A user of the default quota gets two more groups. -/
theorem two_more_groups :
    Fallible.run (fun c x => c.exec 0 none x) (changeQuota "u" "+2") EditDemo.infra =
      some (.ok 10, EditDemo.after) ∧
    ∃ id user n, (EditDemo.infra.txns.view 0).users.findWhere (fun _ u => u.username = "u") =
        some (id, user) ∧ i32FromStr (edit "+2").2 = .ok n ∧
      (EditDemo.after.txns.view 0).users.find id =
        some { user with groupQuota := 10, updatedAt := EditDemo.infra.clock } ∧
      (-2 ^ 31 ≤ user.groupQuota ∧ user.groupQuota < 2 ^ 31 →
        (Exact 0 (2 ^ 31 - 1) user.groupQuota n 10 (edit "+2").1 ↔
          Fits user.groupQuota n (edit "+2").1)) := by
  have hrun : Fallible.run (fun c x => c.exec 0 none x) (changeQuota "u" "+2") EditDemo.infra =
      some (.ok 10, EditDemo.after) := rfl
  exact ⟨hrun, (edits_exact_iff 0 EditDemo.parseSize).1 _ _ _ _ _ hrun⟩

/-- One more group, and the quota is 0. -/
theorem full_quota_wraps : ¬ ∀ (old n new : Int) (quotaOp : String),
    -2 ^ 31 ≤ old ∧ old < 2 ^ 31 → i32FromStr (edit quotaOp).2 = .ok n →
    parseQuota old quotaOp = .ok new →
    Exact 0 (2 ^ 31 - 1) old n (max new 0) (edit quotaOp).1 := by
  intro h
  have hx := h (2 ^ 31 - 1) 1 (-2 ^ 31) "+1" (by decide) (by decide) (by decide)
  have hle := hx.2
  revert hle
  decide

end QuotaEdit
end Mitosis
