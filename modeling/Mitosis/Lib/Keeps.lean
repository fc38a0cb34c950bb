import Mitosis.Lib.Recorded

namespace Mitosis
set_option autoImplicit true

namespace Fallible
variable {C ε : Type} {Ret : C → Type} {α β : Type}

/-- Behind a history that satisfies `P` the program has what it needs, and every result leaves a
history that satisfies `P`. -/
def Keeps (need : History C Ret ε → C → Prop) (P : History C Ret ε → Prop)
    (p : Fallible C Ret ε α) : Prop := ∀ K, P K → Knows need K p fun K _ => P K

namespace Keeps
variable {need : History C Ret ε → C → Prop} {P P' : History C Ret ε → Prop}

theorem pure (a : α) : Keeps need P (Pure.pure a : Fallible C Ret ε α) := fun _ h => h

theorem fail (e : ε) : Keeps need P (Fallible.fail e : Fallible C Ret ε α) := fun _ h => h

theorem bind {p : Fallible C Ret ε β} {f : β → Fallible C Ret ε α} (hp : Keeps need P p)
    (hf : ∀ b, Keeps need P (f b)) : Keeps need P (p >>= f) := by
  intro K h
  rw [knows_bind]
  apply (hp K h).mono
  rintro K' (e | b) h'
  · exact h'
  · exact hf b K' h'

theorem attempt {p : Fallible C Ret ε α} (hp : Keeps need P p) :
    Keeps need P (Fallible.attempt p) := by
  intro K h
  rw [knows_attempt]
  exact hp K h

theorem issue (c : C) (h : ∀ K, P K → need K c ∧ ∀ r, P (⟨c, r⟩ :: K)) :
    Keeps need P (Fallible.issue c : Fallible C Ret ε (Ret c)) := fun K hK => h K hK

theorem okOr (e : ε) (x : Option α) : Keeps need P (Fallible.okOr e x : Fallible C Ret ε α) := by
  cases x with
  | none => exact fail e
  | some a => exact pure a

theorem ofExcept (x : Except ε α) : Keeps need P (Fallible.ofExcept x : Fallible C Ret ε α) := by
  cases x with
  | error e => exact fail e
  | ok a => exact pure a

theorem ite {p q : Fallible C Ret ε α} (b : Prop) [Decidable b] (hp : Keeps need P p)
    (hq : Keeps need P q) : Keeps need P (if b then p else q) := by
  split
  · exact hp
  · exact hq

theorem andThen {p : Fallible C Ret ε β} {f : β → Fallible C Ret ε α} {K : History C Ret ε}
    {post : History C Ret ε → Except ε α → Prop} (hp : Keeps need P p) (h : P K)
    (hok : ∀ K' b, K ⊆ K' → P K' → Knows need K' (f b) post)
    (herr : ∀ K' e, P K' → post K' (.error e)) : Knows need K (p >>= f) post := by
  rw [knows_bind]
  apply Knows.mono (Prog.Knows.extends (hp K h))
  rintro K' (e | b) ⟨hK, h'⟩
  · exact herr K' e h'
  · exact hok K' b hK h'

end Keeps
end Fallible
end Mitosis
