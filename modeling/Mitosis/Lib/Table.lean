import Mathlib

namespace Mitosis
set_option autoImplicit true

structure Table (κ ρ : Type) where
  rows : List (κ × ρ)
  keysNodup : (rows.map Prod.fst).Nodup

namespace Table
variable {κ ρ : Type}

def empty : Table κ ρ := ⟨[], .nil⟩

theorem keys_filterMap_sublist (f : κ → ρ → Option ρ) (l : List (κ × ρ)) :
    ((l.filterMap fun e => (f e.1 e.2).map (e.1, ·)).map Prod.fst).Sublist
      (l.map Prod.fst) := by
  induction l with
  | nil => exact .slnil
  | cons e l ih =>
    cases hf : f e.1 e.2 with
    | none =>
      rw [List.filterMap_cons_none (by rw [hf]; rfl)]
      exact ih.cons _
    | some r =>
      rw [List.filterMap_cons_some (by rw [hf]; rfl)]
      exact ih.cons_cons _

/-- Rewrite every row, and delete the rows on which `f` is undefined. -/
def alter (t : Table κ ρ) (f : κ → ρ → Option ρ) : Table κ ρ :=
  ⟨t.rows.filterMap fun e => (f e.1 e.2).map (e.1, ·),
    t.keysNodup.sublist (keys_filterMap_sublist f t.rows)⟩

def updateWhere (t : Table κ ρ) (p : κ → ρ → Bool) (f : ρ → ρ) : Table κ ρ :=
  t.alter fun k r => some (if p k r then f r else r)

def deleteWhere (t : Table κ ρ) (p : κ → ρ → Bool) : Table κ ρ :=
  t.alter fun k r => if p k r then none else some r

/-- The rows that satisfy a predicate, as a table of their own. -/
def select (t : Table κ ρ) (p : κ → ρ → Bool) : Table κ ρ :=
  t.deleteWhere fun k r => !p k r

def mapRows (t : Table κ ρ) (f : ρ → ρ') : Table κ ρ' :=
  ⟨t.rows.map fun e => (e.1, f e.2), by
    simpa only [List.map_map, Function.comp_def] using t.keysNodup⟩

def keys (t : Table κ ρ) : List κ := t.rows.map Prod.fst

variable [DecidableEq κ]

def find (t : Table κ ρ) (k : κ) : Option ρ := t.rows.lookup k

theorem mem_rows {t : Table κ ρ} {k : κ} {r : ρ} :
    (k, r) ∈ t.rows ↔ t.find k = some r := by
  obtain ⟨l, hl⟩ := t
  simp only [find]
  induction l with
  | nil => simp only [List.not_mem_nil, List.lookup_nil, reduceCtorEq]
  | cons e l ih =>
    obtain ⟨k', r'⟩ := e
    simp only [List.map_cons, List.nodup_cons] at hl
    rw [List.mem_cons, List.lookup_cons, ih hl.2]
    by_cases hk : k = k'
    · subst hk
      have hn : l.lookup k ≠ some r := by
        intro h
        exact hl.1 (List.mem_map_of_mem ((ih hl.2).2 h))
      simp only [hn, or_false, BEq.rfl, Prod.mk.injEq, true_and, Option.some.injEq, eq_comm]
    · have hb : (k == k') = false := beq_eq_false_iff_ne.2 hk
      simp only [hb, Prod.mk.injEq, hk, false_and, false_or]

theorem find_none {t : Table κ ρ} {k : κ} : t.find k = none ↔ k ∉ t.rows.map Prod.fst := by
  rw [find, List.lookup_eq_none_iff, List.mem_map]
  constructor
  · rintro h ⟨e, he, rfl⟩
    simpa using h e he
  · intro h e he
    simp only [bne_iff_ne, ne_eq]
    exact fun hk => h ⟨e, he, hk.symm⟩

@[simp] theorem find_empty (k : κ) : (empty : Table κ ρ).find k = none := rfl

@[simp] theorem find_alter (t : Table κ ρ) (f : κ → ρ → Option ρ) (k : κ) :
    (t.alter f).find k = (t.find k).bind (f k) := by
  have h : ∀ r, (t.alter f).find k = some r ↔ (t.find k).bind (f k) = some r := by
    intro r
    rw [← mem_rows, Option.bind_eq_some_iff]
    simp only [alter, List.mem_filterMap, Option.map_eq_some_iff, Prod.mk.injEq]
    constructor
    · rintro ⟨⟨k', r'⟩, hm, x, hx, rfl, rfl⟩
      exact ⟨r', mem_rows.1 hm, hx⟩
    · rintro ⟨r', hm, hr⟩
      exact ⟨(k, r'), mem_rows.2 hm, r, hr, rfl, rfl⟩
  exact Option.ext h

@[simp] theorem find_updateWhere (t : Table κ ρ) (p : κ → ρ → Bool) (f : ρ → ρ) (k : κ) :
    (t.updateWhere p f).find k = (t.find k).map fun r => if p k r then f r else r := by
  rw [updateWhere, find_alter]
  cases t.find k <;> rfl

@[simp] theorem find_deleteWhere (t : Table κ ρ) (p : κ → ρ → Bool) (k : κ) :
    (t.deleteWhere p).find k = (t.find k).filter fun r => !p k r := by
  rw [deleteWhere, find_alter]
  cases t.find k with
  | none => rfl
  | some r => cases h : p k r <;> simp [h, Option.filter]

@[simp] theorem find_select (t : Table κ ρ) (p : κ → ρ → Bool) (k : κ) :
    (t.select p).find k = (t.find k).filter (p k) := by
  rw [select, find_deleteWhere]
  simp only [Bool.not_not]

@[simp] theorem find_mapRows (t : Table κ ρ) (f : ρ → ρ') (k : κ) :
    (t.mapRows f).find k = (t.find k).map f := by
  obtain ⟨l, hl⟩ := t
  simp only [find, mapRows]
  clear hl
  induction l with
  | nil => rfl
  | cons e l ih =>
    rw [List.map_cons, List.lookup_cons, List.lookup_cons]
    split
    · rfl
    · exact ih

theorem mem_keys {t : Table κ ρ} {k : κ} : k ∈ t.keys ↔ ∃ r, t.find k = some r := by
  rw [← Option.isSome_iff_exists, ← not_iff_not, Option.not_isSome_iff_eq_none, find_none]
  rfl

/-- Write the row with key `k`, replacing the row that has this key. -/
def set (t : Table κ ρ) (k : κ) (r : ρ) : Table κ ρ :=
  if h : k ∈ t.rows.map Prod.fst then t.updateWhere (fun k' _ => k' = k) fun _ => r
  else ⟨t.rows ++ [(k, r)], by
    rw [List.map_append, List.nodup_append]
    refine ⟨t.keysNodup, List.nodup_singleton _, ?_⟩
    intro a ha b hb he
    rw [List.map_singleton, List.mem_singleton] at hb
    subst he hb
    exact h ha⟩

theorem find_set (t : Table κ ρ) (k k' : κ) (r : ρ) :
    (t.set k r).find k' = if k' = k then some r else t.find k' := by
  rw [set]
  split
  next h =>
    rw [find_updateWhere]
    by_cases hk : k' = k
    · subst hk
      cases hf : t.find k' with
      | none => exact (find_none.1 hf h).elim
      | some _ => simp only [decide_true, if_true, Option.map_some]
    · simp only [hk, decide_false, Bool.false_eq_true, if_false, Option.map_id']
  next h =>
    change (t.rows ++ [(k, r)]).lookup k' = _
    rw [List.lookup_append]
    change (t.find k').or _ = _
    by_cases hk : k' = k
    · subst hk
      rw [find_none.2 h, Option.none_or, if_pos rfl, List.lookup_cons_self]
    · rw [if_neg hk, List.lookup_cons, beq_eq_false_iff_ne.2 hk]
      exact Option.or_none

@[simp] theorem find_set_self (t : Table κ ρ) (k : κ) (r : ρ) :
    (t.set k r).find k = some r := by rw [find_set, if_pos rfl]

theorem find_set_ne (t : Table κ ρ) (r : ρ) (h : k' ≠ k) :
    (t.set k r).find k' = t.find k' := by rw [find_set, if_neg h]

/-- Write all rows of `u` into `t`. -/
def merge (t u : Table κ ρ) : Table κ ρ := u.rows.foldl (fun t e => t.set e.1 e.2) t

theorem find_merge (t u : Table κ ρ) (k : κ) :
    (t.merge u).find k = (u.find k).or (t.find k) := by
  obtain ⟨l, hl⟩ := u
  simp only [merge, find]
  change (l.foldl (fun t e => t.set e.1 e.2) t).find k = (l.lookup k).or (t.find k)
  induction l generalizing t with
  | nil => rfl
  | cons e l ih =>
    simp only [List.map_cons, List.nodup_cons] at hl
    rw [List.foldl_cons, ih _ hl.2, find_set, List.lookup_cons]
    by_cases hk : k = e.1
    · have hn : l.lookup k = none := by
        rw [List.lookup_eq_none_iff]
        intro x hx
        simp only [bne_iff_ne, ne_eq]
        rintro rfl
        exact hl.1 (hk ▸ List.mem_map_of_mem hx)
      rw [if_pos hk, hn, hk, BEq.rfl]
      rfl
    · rw [if_neg hk, beq_eq_false_iff_ne.2 hk]

def update (t : Table κ ρ) (k : κ) (f : ρ → ρ) : Table κ ρ :=
  t.updateWhere (fun k' _ => k' = k) f

theorem find_update (t : Table κ ρ) (k k' : κ) (f : ρ → ρ) :
    (t.update k f).find k' = if k' = k then (t.find k').map f else t.find k' := by
  rw [update, find_updateWhere]
  by_cases hk : k' = k
  · simp only [hk, decide_true, if_true]
  · simp only [hk, decide_false, Bool.false_eq_true, if_false, Option.map_id']

@[simp] theorem find_update_self (t : Table κ ρ) (k : κ) (f : ρ → ρ) :
    (t.update k f).find k = (t.find k).map f := by rw [find_update, if_pos rfl]

theorem find_update_ne (t : Table κ ρ) (f : ρ → ρ) (h : k' ≠ k) :
    (t.update k f).find k' = t.find k' := by rw [find_update, if_neg h]

def erase (t : Table κ ρ) (k : κ) : Table κ ρ := t.deleteWhere fun k' _ => k' = k

theorem find_erase (t : Table κ ρ) (k k' : κ) :
    (t.erase k).find k' = if k' = k then none else t.find k' := by
  rw [erase, find_deleteWhere]
  by_cases hk : k' = k
  · cases t.find k' <;> simp [hk, Option.filter]
  · cases t.find k' <;> simp [hk, Option.filter]

@[simp] theorem find_erase_self (t : Table κ ρ) (k : κ) : (t.erase k).find k = none := by
  rw [find_erase, if_pos rfl]

theorem find_erase_ne (t : Table κ ρ) (h : k' ≠ k) : (t.erase k).find k' = t.find k' := by
  rw [find_erase, if_neg h]

/-- The first row that satisfies a predicate, as `find().filter(..).one()` returns it. -/
def findWhere (t : Table κ ρ) (p : κ → ρ → Bool) : Option (κ × ρ) :=
  t.rows.find? fun e => p e.1 e.2

theorem findWhere_some {t : Table κ ρ} {p : κ → ρ → Bool}
    (h : t.findWhere p = some (k, r)) : t.find k = some r ∧ p k r = true := by
  have hp := List.find?_some (p := fun e : κ × ρ => p e.1 e.2) h
  exact ⟨mem_rows.1 (List.mem_of_find?_eq_some h), hp⟩

theorem findWhere_none {t : Table κ ρ} {p : κ → ρ → Bool} (h : t.findWhere p = none)
    (hf : t.find k = some r) : p k r = false := by
  have hn := List.find?_eq_none.1 h (k, r) (mem_rows.2 hf)
  exact Bool.eq_false_iff.2 hn

end Table
end Mitosis
