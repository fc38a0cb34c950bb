import Mathlib

namespace Mitosis
set_option autoImplicit true

/-! The order of decimal renderings as texts, against the order of the numbers. -/

namespace Decimal
open Nat (toDigits ofDigitChars)

def value (l : List Char) : Nat := ofDigitChars 10 l 0

def IsDigits (l : List Char) : Prop := ∀ c ∈ l, c.isDigit = true

theorem value_cons (c : Char) (l : List Char) :
    value (c :: l) = 10 ^ l.length * (c.toNat - 48) + value l := by
  rw [value, Nat.ofDigitChars_cons, Nat.ofDigitChars_eq_ofDigitChars_zero, Nat.mul_zero,
    Nat.zero_add]
  rfl

theorem IsDigits.head (h : IsDigits (c :: l)) : 48 ≤ c.toNat ∧ c.toNat ≤ 57 := by
  have hc := h c List.mem_cons_self
  simp only [Char.isDigit, Bool.and_eq_true, decide_eq_true_eq] at hc
  exact hc

theorem IsDigits.tail (h : IsDigits (c :: l)) : IsDigits l :=
  fun x hx => h x (List.mem_cons_of_mem c hx)

theorem value_lt (h : IsDigits l) : value l < 10 ^ l.length := by
  induction l with
  | nil => exact Nat.one_pos
  | cons c l ih =>
    have hc := h.head
    have hl := ih h.tail
    have hm : 10 ^ l.length * (c.toNat - 48) ≤ 10 ^ l.length * 9 :=
      Nat.mul_le_mul_left _ (by omega)
    rw [value_cons, List.length_cons, Nat.pow_succ]
    omega

/-- Two numbers with the same number of lower digits compare by the first digit. -/
theorem mul_add_lt_iff {p x y u v : Nat} (hu : u < p) (hv : v < p) :
    p * x + u < p * y + v ↔ x < y ∨ x = y ∧ u < v := by
  constructor
  · intro h
    by_contra hn
    rcases Nat.lt_trichotomy x y with hx | rfl | hx
    · exact hn (.inl hx)
    · exact hn (.inr ⟨rfl, by omega⟩)
    · have hm : p * (y + 1) ≤ p * x := Nat.mul_le_mul_left p hx
      rw [Nat.mul_succ] at hm
      omega
  · rintro (hx | ⟨rfl, hu⟩)
    · have hm : p * (x + 1) ≤ p * y := Nat.mul_le_mul_left p hx
      rw [Nat.mul_succ] at hm
      omega
    · omega

theorem char_lt_iff {c d : Char} : c < d ↔ c.toNat < d.toNat := .rfl

/-- Texts of the same length are in the order of their numbers. -/
theorem lt_iff_value (hl : l.length = m.length) (h : IsDigits l) (h' : IsDigits m) :
    l < m ↔ value l < value m := by
  induction l generalizing m with
  | nil =>
    obtain rfl := List.eq_nil_of_length_eq_zero hl.symm
    exact iff_of_false (List.lt_irrefl _) (Nat.lt_irrefl _)
  | cons c l ih =>
    cases m with
    | nil => cases hl
    | cons d m =>
      have hlen : l.length = m.length := Nat.succ.inj hl
      have hc := h.head
      have hd := h'.head
      have hv := value_lt h'.tail
      rw [← hlen] at hv
      rw [List.cons_lt_cons_iff, ih hlen h.tail h'.tail, value_cons, value_cons, ← hlen,
        mul_add_lt_iff (value_lt h.tail) hv, char_lt_iff]
      have he : c = d ↔ c.toNat - 48 = d.toNat - 48 := by
        rw [← Char.toNat_inj]
        omega
      rw [he]
      omega

/-- A shorter text comes before a longer one if it does when zeros are appended to it, or
becomes equal to it. -/
theorem lt_iff_padded (hl : l.length < m.length) (h : IsDigits l) (h' : IsDigits m) :
    l < m ↔ value l * 10 ^ (m.length - l.length) ≤ value m := by
  induction l generalizing m with
  | nil =>
    cases m with
    | nil => cases hl
    | cons => exact iff_of_true (List.nil_lt_cons _ _) ((Nat.zero_mul _).le.trans (Nat.zero_le _))
  | cons c l ih =>
    cases m with
    | nil => cases hl
    | cons d m =>
      have hlen : l.length < m.length := Nat.lt_of_succ_lt_succ hl
      have hc := h.head
      have hd := h'.head
      have hp : 10 ^ m.length = 10 ^ l.length * 10 ^ (m.length - l.length) := by
        rw [← Nat.pow_add, Nat.add_sub_of_le hlen.le]
      have hu : value l * 10 ^ (m.length - l.length) < 10 ^ m.length := by
        rw [hp]
        exact Nat.mul_lt_mul_of_pos_right (value_lt h.tail) (Nat.pow_pos (by omega))
      have hpad : value (c :: l) * 10 ^ (m.length - l.length) =
          10 ^ m.length * (c.toNat - 48) + value l * 10 ^ (m.length - l.length) := by
        rw [value_cons, hp]
        ring
      have he : c = d ↔ c.toNat - 48 = d.toNat - 48 := by
        rw [← Char.toNat_inj]
        omega
      have hlt : 10 ^ m.length * (d.toNat - 48) + value m <
          10 ^ m.length * (c.toNat - 48) + value l * 10 ^ (m.length - l.length) ↔ _ :=
        mul_add_lt_iff (value_lt h'.tail) hu
      have hle := not_congr hlt
      rw [Nat.not_lt] at hle
      rw [List.cons_lt_cons_iff, ih hlen h.tail h'.tail, List.length_cons, List.length_cons,
        Nat.add_sub_add_right, hpad, value_cons, char_lt_iff, he, hle]
      omega

theorem isDigits_toDigits (n : Nat) : IsDigits (toDigits 10 n) :=
  fun _ hc => Nat.isDigit_of_mem_toDigits (by omega) (by omega) hc

theorem value_toDigits (n : Nat) : value (toDigits 10 n) = n := Nat.ofDigitChars_ten_toDigits

def digits (n : Nat) : Nat := (toDigits 10 n).length

theorem digits_mono (h : n ≤ m) : digits n ≤ digits m := by
  apply (Nat.length_toDigits_le_iff (by omega) Nat.length_toDigits_pos).2
  apply h.trans_lt
  exact (Nat.length_toDigits_le_iff (by omega) Nat.length_toDigits_pos).1 le_rfl

/-- The number with the digits of `n`, followed by zeros up to the number of digits of `m`. -/
def padded (n m : Nat) : Nat := n * 10 ^ (digits m - digits n)

theorem toDigits_lt_iff (h : n < m) : toDigits 10 n < toDigits 10 m ↔ padded n m ≤ m := by
  have hd := digits_mono h.le
  rcases Nat.lt_or_eq_of_le hd with hd | hd
  · rw [lt_iff_padded hd (isDigits_toDigits n) (isDigits_toDigits m), value_toDigits,
      value_toDigits]
    rfl
  · rw [lt_iff_value hd (isDigits_toDigits n) (isDigits_toDigits m), value_toDigits,
      value_toDigits, padded, hd, Nat.sub_self, Nat.pow_zero, Nat.mul_one]
    exact iff_of_true h h.le

theorem toDigits_injective (h : toDigits 10 n = toDigits 10 m) : n = m := by
  rw [← value_toDigits n, h, value_toDigits]

/-- The renderings of two integers are in the order of the integers. -/
def InOrder (n m : Int) : Prop :=
  n = m ∨ (n < 0 ↔ 0 ≤ m) ∨
    (0 ≤ n ∧ 0 ≤ m ∧
      padded (min n.natAbs m.natAbs) (max n.natAbs m.natAbs) ≤ max n.natAbs m.natAbs) ∨
    (n < 0 ∧ m < 0 ∧
      max n.natAbs m.natAbs < padded (min n.natAbs m.natAbs) (max n.natAbs m.natAbs))

theorem InOrder.comm : InOrder n m ↔ InOrder m n := by
  unfold InOrder
  rw [Nat.min_comm, Nat.max_comm]
  have h : (n < 0 ↔ 0 ≤ m) ↔ (m < 0 ↔ 0 ≤ n) := by omega
  rw [h]
  tauto

instance : DecidableRel InOrder := by
  unfold InOrder
  infer_instance

theorem toList_toString_of_nonneg {n : Int} (h : 0 ≤ n) :
    (toString n).toList = toDigits 10 n.natAbs := by
  rw [Int.toString_eq_repr, Int.repr_eq_if, if_pos h, Nat.toList_repr]
  congr 1
  omega

theorem toList_toString_of_neg {n : Int} (h : n < 0) :
    (toString n).toList = '-' :: toDigits 10 n.natAbs := by
  rw [Int.toString_eq_repr, Int.repr_eq_if, if_neg (by omega), String.toList_append,
    Nat.toList_repr]
  change '-' :: toDigits 10 (-n).toNat = _
  congr 2
  omega

theorem minus_lt_digits (n : Nat) (l : List Char) : '-' :: l < toDigits 10 n := by
  cases h : toDigits 10 n with
  | nil => exact (Nat.toDigits_ne_nil h).elim
  | cons c m =>
    have hc : IsDigits (c :: m) := h ▸ isDigits_toDigits n
    rw [List.cons_lt_cons_iff, char_lt_iff]
    left
    exact (by decide : ('-').toNat < 48).trans_le hc.head.1

theorem toDigits_gt_iff (h : m < n) : toDigits 10 n < toDigits 10 m ↔ n < padded m n := by
  rw [← Nat.not_le, ← toDigits_lt_iff h]
  have hne : toDigits 10 n ≠ toDigits 10 m := fun he => h.ne' (toDigits_injective he)
  constructor
  · exact fun h' => List.lt_asymm h'
  · intro h'
    exact (List.le_iff_lt_or_eq.1 (List.not_lt.1 h')).resolve_right hne

theorem toString_lt_iff {n m : Int} (h : n < m) : toString n < toString m ↔ InOrder n m := by
  rw [String.lt_iff, InOrder]
  rcases Int.lt_or_le n 0 with hn | hn
  · rw [toList_toString_of_neg hn]
    rcases Int.lt_or_le m 0 with hm | hm
    · have ha : m.natAbs < n.natAbs := by omega
      rw [toList_toString_of_neg hm, List.cons_lt_cons_self, toDigits_gt_iff ha,
        Nat.min_eq_right ha.le, Nat.max_eq_left ha.le]
      omega
    · rw [toList_toString_of_nonneg hm]
      exact iff_of_true (minus_lt_digits _ _) (.inr (.inl (iff_of_true hn hm)))
  · have hm : 0 ≤ m := by omega
    have ha : n.natAbs < m.natAbs := by omega
    rw [toList_toString_of_nonneg hn, toList_toString_of_nonneg hm, toDigits_lt_iff ha,
      Nat.min_eq_left ha.le, Nat.max_eq_right ha.le]
    omega

theorem toString_injective {n m : Int} (h : toString n = toString m) : n = m := by
  have hl := congrArg String.toList h
  rcases Int.lt_or_le n 0 with hn | hn
  · rw [toList_toString_of_neg hn] at hl
    rcases Int.lt_or_le m 0 with hm | hm
    · rw [toList_toString_of_neg hm] at hl
      have ha := toDigits_injective (List.cons.inj hl).2
      omega
    · rw [toList_toString_of_nonneg hm] at hl
      have hlt := minus_lt_digits m.natAbs (toDigits 10 n.natAbs)
      rw [hl] at hlt
      exact (List.lt_irrefl _ hlt).elim
  · rw [toList_toString_of_nonneg hn] at hl
    rcases Int.lt_or_le m 0 with hm | hm
    · rw [toList_toString_of_neg hm] at hl
      have hlt := minus_lt_digits n.natAbs (toDigits 10 m.natAbs)
      rw [hl] at hlt
      exact (List.lt_irrefl _ hlt).elim
    · rw [toList_toString_of_nonneg hm] at hl
      have ha := toDigits_injective hl
      omega

end Decimal
end Mitosis
