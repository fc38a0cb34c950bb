import Mathlib

namespace Mitosis
set_option autoImplicit true

/-! Texts as lines with a separator between them. -/

namespace Lines
variable {α : Type} {sep : α} {f : List α → List α}

theorem intercalate_append {xs ys : List (List α)} (hx : xs ≠ []) (hy : ys ≠ []) :
    [sep].intercalate (xs ++ ys) = [sep].intercalate xs ++ sep :: [sep].intercalate ys := by
  induction xs with
  | nil => exact (hx rfl).elim
  | cons x xs ih =>
    cases xs with
    | nil =>
      cases ys with
      | nil => exact (hy rfl).elim
      | cons y ys => simp
    | cons x' xs =>
      have ih := ih (List.cons_ne_nil _ _)
      simp only [List.cons_append] at ih
      simp only [List.cons_append, List.intercalate_cons_cons, ih, List.append_assoc]

def Complete (sep : α) (l : List α) : Prop := l = [] ∨ ∃ m, l = m ++ [sep]

theorem Complete.snoc (l : List α) : Complete sep (l ++ [sep]) := .inr ⟨l, rfl⟩

variable [BEq α]

def mapLines (sep : α) (f : List α → List α) (l : List α) : List α :=
  [sep].intercalate ((l.splitOn sep).map f)

variable [LawfulBEq α]

theorem mapLines_append_cons (l m : List α) :
    mapLines sep f (l ++ sep :: m) = mapLines sep f l ++ sep :: mapLines sep f m := by
  unfold mapLines
  rw [List.splitOn_append_cons_self, List.map_append]
  apply intercalate_append
  · simp
  · simp

theorem mapLines_line {l : List α} (h : sep ∉ l) : mapLines sep f l = f l := by
  rw [mapLines, List.splitOn_eq_singleton h, List.map_singleton, List.intercalate_singleton]

theorem mapLines_complete {l : List α} (hf : f [] = []) (h : Complete sep l) (m : List α) :
    mapLines sep f (l ++ m) = mapLines sep f l ++ mapLines sep f m := by
  have hnil : mapLines sep f [] = [] := (mapLines_line List.not_mem_nil).trans hf
  rcases h with rfl | ⟨l, rfl⟩
  · rw [hnil, List.nil_append, List.nil_append]
  · rw [List.append_assoc, List.singleton_append, mapLines_append_cons, mapLines_append_cons, hnil,
      List.append_assoc, List.singleton_append]

theorem notMem_of_mem_splitOn {l line : List α} (h : line ∈ l.splitOn sep) : sep ∉ line := by
  induction l generalizing line with
  | nil =>
    rw [List.splitOn_nil, List.mem_singleton] at h
    rw [h]
    exact List.not_mem_nil
  | cons x l ih =>
    rw [List.splitOn_cons_eq_if_modifyHead] at h
    split at h
    next =>
      rcases List.mem_cons.1 h with rfl | h
      · exact List.not_mem_nil
      · exact ih h
    next hx =>
      cases hl : l.splitOn sep with
      | nil => exact (List.splitOn_ne_nil _ _ hl).elim
      | cons line' lines =>
        rw [hl, List.modifyHead_cons] at h
        rw [hl] at ih
        rcases List.mem_cons.1 h with rfl | h
        · intro hm
          rcases List.mem_cons.1 hm with rfl | hm
          · exact hx (beq_self_eq_true _)
          · exact ih (.head _) hm
        · exact ih (.tail _ h)

theorem splitOn_sep {a b : List α} (h : sep ∉ a) :
    (a ++ sep :: b).splitOn sep = a :: b.splitOn sep := by
  rw [List.splitOn_append_cons_self, List.splitOn_eq_singleton h, List.singleton_append]

/-- Between two separators stands a line that is neither the first nor the last one. -/
theorem infix_iff_inner {l line : List α} (h : sep ∉ line) :
    sep :: line ++ [sep] <:+: l ↔ line ∈ (l.splitOn sep).tail.dropLast := by
  constructor
  · rintro ⟨a, b, rfl⟩
    have hl : a ++ (sep :: line ++ [sep]) ++ b = a ++ sep :: (line ++ sep :: b) := by simp
    rw [hl, List.splitOn_append_cons_self, splitOn_sep h]
    obtain ⟨x, xs, ha⟩ := List.exists_cons_of_ne_nil (List.splitOn_ne_nil sep a)
    rw [ha, List.cons_append, List.tail_cons, List.dropLast_append_cons,
      List.dropLast_cons_of_ne_nil (List.splitOn_ne_nil _ _)]
    exact List.mem_append_right _ (.head _)
  · intro hm
    have hl : [sep].intercalate (l.splitOn sep) = l := List.intercalate_splitOn sep
    cases hs : l.splitOn sep with
    | nil => exact (List.splitOn_ne_nil _ _ hs).elim
    | cons x xs =>
      rw [hs, List.tail_cons] at hm
      have hne : xs ≠ [] := by
        rintro rfl
        cases hm
      obtain ⟨ys, zs, hxs⟩ := List.append_of_mem hm
      rw [← hl, hs, ← List.dropLast_append_getLast hne, hxs]
      have hsplit : x :: (ys ++ line :: zs ++ [xs.getLast hne]) =
          x :: ys ++ (line :: (zs ++ [xs.getLast hne])) := by simp
      rw [hsplit, intercalate_append (List.cons_ne_nil _ _) (List.cons_ne_nil _ _)]
      obtain ⟨w, ws, hw⟩ : ∃ w ws, zs ++ [xs.getLast hne] = w :: ws :=
        List.exists_cons_of_ne_nil (by simp)
      rw [hw, List.intercalate_cons_cons]
      exact ⟨[sep].intercalate (x :: ys), [sep].intercalate (w :: ws), by simp⟩

theorem take_of_idxOf {l : List α} {i : Nat} (h : l.idxOf? sep = some i) :
    sep ∉ l.take i ∧ (l.take i).isEmpty = decide (i = 0) ∧
      l.take (i + 1) = l.take i ++ [sep] := by
  obtain ⟨hi, heq, hbefore⟩ := List.idxOf?_eq_some_iff.1 h
  refine ⟨?_, ?_, ?_⟩
  · intro hm
    obtain ⟨j, hj, hsep⟩ := List.mem_iff_getElem.1 hm
    rw [List.length_take] at hj
    rw [List.getElem_take] at hsep
    exact hbefore j (by omega) hsep
  · cases i with
    | zero => rfl
    | succ i =>
      cases l with
      | nil => cases hi
      | cons => rfl
  · rw [List.take_succ_eq_append_getElem hi, heq]

/-- The parts before and behind the first separator. -/
def splitOnce (sep : α) (l : List α) : Option (List α × List α) :=
  (l.idxOf? sep).map fun i => (l.take i, l.drop (i + 1))

theorem splitOnce_some {l : List α} : splitOnce sep l = some (a, b) ↔
    l = a ++ sep :: b ∧ sep ∉ a := by
  constructor
  · intro h
    obtain ⟨i, hi, heq⟩ := Option.map_eq_some_iff.1 h
    obtain ⟨rfl, rfl⟩ := Prod.mk.inj heq
    obtain ⟨ha, -, htake⟩ := take_of_idxOf hi
    refine ⟨?_, ha⟩
    conv => lhs; rw [← List.take_append_drop (i + 1) l, htake]
    rw [List.append_assoc, List.singleton_append]
  · rintro ⟨rfl, ha⟩
    have hi : (a ++ sep :: b).idxOf? sep = some a.length := by
      rw [List.idxOf?_eq_some_iff]
      refine ⟨by simp, by simp, ?_⟩
      intro j hj heq
      rw [List.getElem_append_left hj] at heq
      exact ha (heq ▸ List.getElem_mem hj)
    rw [splitOnce, hi, Option.map_some, List.take_left' rfl, List.drop_append]
    simp

end Lines
end Mitosis
