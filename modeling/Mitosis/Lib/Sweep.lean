import Mitosis.Lib.Table

namespace Mitosis
set_option autoImplicit true

namespace Table
variable {κ ρ : Type}

theorem eq_of_rows {t u : Table κ ρ} (h : t.rows = u.rows) : t = u := by
  obtain ⟨l, hl⟩ := t
  obtain ⟨m, hm⟩ := u
  obtain rfl : l = m := h
  rfl

theorem alter_alter (t : Table κ ρ) (f g : κ → ρ → Option ρ) :
    (t.alter f).alter g = t.alter fun k r => (f k r).bind (g k) := by
  apply eq_of_rows
  simp only [alter, List.filterMap_filterMap]
  apply List.filterMap_congr
  rintro ⟨k, r⟩ -
  cases f k r <;> rfl

theorem deleteWhere_deleteWhere (t : Table κ ρ) (p q : κ → ρ → Bool) :
    (t.deleteWhere p).deleteWhere q = t.deleteWhere fun k r => p k r || q k r := by
  unfold deleteWhere
  rw [alter_alter]
  congr 1
  funext k r
  cases h : p k r with
  | true => simp only [h, if_true, Option.bind_none, Bool.true_or]
  | false => simp only [h, Bool.false_eq_true, if_false, Option.bind_some, Bool.false_or]

theorem deleteWhere_none (t : Table κ ρ) : (t.deleteWhere fun _ _ => false) = t := by
  apply eq_of_rows
  simp only [deleteWhere, alter, Bool.false_eq_true, if_false, Option.map_some]
  exact List.filterMap_some

section
variable [DecidableEq κ]

theorem alter_congr {t : Table κ ρ} {f g : κ → ρ → Option ρ}
    (h : ∀ k r, t.find k = some r → f k r = g k r) : t.alter f = t.alter g := by
  apply eq_of_rows
  apply List.filterMap_congr
  rintro ⟨k, r⟩ hm
  rw [h k r (mem_rows.1 hm)]

theorem deleteWhere_congr {t : Table κ ρ} {p q : κ → ρ → Bool}
    (h : ∀ k r, t.find k = some r → p k r = q k r) : t.deleteWhere p = t.deleteWhere q :=
  alter_congr fun k r hr => by rw [h k r hr]

end

/-- The sum of `f` over the rows whose keys satisfy `p`. -/
def sumWhere (t : Table κ ρ) (p : κ → Bool) (f : ρ → Int) : Int :=
  (t.rows.map fun e => if p e.1 then f e.2 else 0).sum

/-- Some row has a key that satisfies `p`. -/
def hasKey (t : Table κ ρ) (p : κ → Bool) : Bool := t.rows.any fun e => p e.1

@[simp] theorem hasKey_false (t : Table κ ρ) : (t.hasKey fun _ => false) = false :=
  List.any_eq_false.2 fun _ _ => Bool.false_ne_true

variable [DecidableEq κ]

theorem hasKey_insert {t : Table κ ρ} (p : κ → Bool) (hk : t.find k = some r) :
    (t.hasKey fun k' => p k' || k' = k) = true :=
  List.any_eq_true.2 ⟨(k, r), mem_rows.2 hk, by simp only [decide_true, Bool.or_true]⟩

theorem sumWhere_nonneg {t : Table κ ρ} {p : κ → Bool} {f : ρ → Int}
    (h : ∀ k r, t.find k = some r → 0 ≤ f r) : 0 ≤ t.sumWhere p f := by
  apply List.sum_nonneg
  intro n hn
  obtain ⟨⟨k, r⟩, he, rfl⟩ := List.mem_map.1 hn
  dsimp only
  split
  · exact h k r (mem_rows.1 he)
  · exact Int.le_refl 0

omit [DecidableEq κ] in
theorem sumWhere_eq_zero {t : Table κ ρ} {p : κ → Bool} (f : ρ → Int) (h : t.hasKey p = false) :
    t.sumWhere p f = 0 := by
  apply List.sum_eq_zero
  intro n hn
  obtain ⟨e, he, rfl⟩ := List.mem_map.1 hn
  exact if_neg (List.any_eq_false.1 h e he)

theorem sumWhere_insert {t : Table κ ρ} {p : κ → Bool} (f : ρ → Int) (hk : t.find k = some r)
    (hp : p k = false) : (t.sumWhere (fun k' => p k' || k' = k) f) = t.sumWhere p f + f r := by
  have hmem := mem_rows.2 hk
  obtain ⟨l, hl⟩ := t
  simp only [sumWhere] at hmem ⊢
  clear hk
  induction l with
  | nil => cases hmem
  | cons e l ih =>
    obtain ⟨k', r'⟩ := e
    simp only [List.map_cons, List.nodup_cons] at hl
    simp only [List.map_cons, List.sum_cons]
    rcases List.mem_cons.1 hmem with he | hmem
    · obtain ⟨⟩ := he
      have hrest : (l.map fun e => if p e.1 || decide (e.1 = k) then f e.2 else 0) =
          l.map fun e => if p e.1 then f e.2 else 0 := by
        apply List.map_congr_left
        intro e he
        have hne : e.1 ≠ k := fun heq => hl.1 (heq ▸ List.mem_map_of_mem he)
        simp only [hne, decide_false, Bool.or_false]
      rw [hrest, hp]
      simp only [decide_true, Bool.false_or, if_true, Bool.false_eq_true, if_false]
      omega
    · have hne : k' ≠ k := fun heq => hl.1 (heq ▸ List.mem_map_of_mem hmem)
      rw [ih hl.2 hmem]
      simp only [hne, decide_false, Bool.or_false]
      omega

omit [DecidableEq κ] in
/-- The first row with a property is found behind a deletion that spares it. -/
theorem findSome_deleteWhere {t : Table κ ρ} {p : κ → ρ → Bool} {f : κ × ρ → Option β}
    (h : ∀ k r, p k r = true → f (k, r) = none) :
    (t.deleteWhere p).rows.findSome? f = t.rows.findSome? f := by
  obtain ⟨l, hl⟩ := t
  simp only [deleteWhere, alter]
  clear hl
  induction l with
  | nil => rfl
  | cons e l ih =>
    obtain ⟨k, r⟩ := e
    rw [List.findSome?_cons]
    cases hp : p k r with
    | true =>
      rw [List.filterMap_cons_none (by simp only [hp, if_true, Option.map_none]), h k r hp]
      exact ih
    | false =>
      have hr : ((if p k r = true then none else some r).map fun r => (k, r)) = some (k, r) := by
        rw [hp, if_neg Bool.false_ne_true, Option.map_some]
      rw [List.filterMap_cons, hr, List.findSome?_cons]
      cases f (k, r) with
      | none => exact ih
      | some b => rfl

theorem mem_filterMap_rows {t : Table κ ρ} {f : κ × ρ → Option β} :
    b ∈ t.rows.filterMap f ↔ ∃ k, (t.find k).bind (fun r => f (k, r)) = some b := by
  rw [List.mem_filterMap]
  constructor
  · rintro ⟨⟨k, r⟩, hm, hf⟩
    refine ⟨k, ?_⟩
    rw [mem_rows.1 hm]
    exact hf
  · rintro ⟨k, hk⟩
    obtain ⟨r, hr, hf⟩ := Option.bind_eq_some_iff.1 hk
    exact ⟨(k, r), mem_rows.2 hr, hf⟩

/-- A query that shows a property which tells the keys apart shows it once. -/
theorem nodup_filterMap_rows {t : Table κ ρ} {f : κ × ρ → Option β} {g : β → γ}
    (h : ∀ k k' r r' b b', t.find k = some r → t.find k' = some r' → f (k, r) = some b →
      f (k', r') = some b' → g b = g b' → k = k') : ((t.rows.filterMap f).map g).Nodup := by
  rw [List.Nodup, List.pairwise_map, List.pairwise_filterMap]
  apply (List.pairwise_map.1 t.keysNodup).imp_of_mem
  rintro ⟨k, r⟩ ⟨k', r'⟩ hm hm' hne b hb b' hb' he
  exact hne (h k k' r r' b b' (mem_rows.1 hm) (mem_rows.1 hm') hb hb' he)

end Table
end Mitosis
