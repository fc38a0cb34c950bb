import Mitosis.Lib.UnixPath
import Mitosis.Registry
import Mitosis.Service.Storage

namespace Mitosis
set_option autoImplicit true

namespace Storage
open UnixPath (IsName Plain)
open Registry.Service (nameValidator)
open Storage.Service (checkAttachmentKey)

theorem nameValidator_chars (h : nameValidator name = true) : name.toList ≠ [] ∧
    ∀ c ∈ name.toList, c ≠ '/' ∧ c ≠ '.' := by
  unfold nameValidator at h
  simp only [Bool.and_eq_true, decide_eq_true_eq, List.all_eq_true, Bool.or_eq_true] at h
  obtain ⟨⟨hl, -⟩, hc⟩ := h
  constructor
  · intro hnil
    rw [String.toList_eq_nil_iff.1 hnil] at hl
    exact absurd hl (by decide)
  · intro c hm
    constructor
    · rintro rfl
      exact absurd (hc '/' hm) (by decide)
    · rintro rfl
      exact absurd (hc '.' hm) (by decide)

theorem nameValidator_isName (h : nameValidator name = true) :
    IsName name.toList ∧ '/' ∉ name.toList := by
  obtain ⟨hne, hc⟩ := nameValidator_chars h
  have hdot : '.' ∉ name.toList := fun hm => (hc _ hm).2 rfl
  refine ⟨⟨hne, ?_, ?_⟩, fun hm => (hc _ hm).1 rfl⟩
  · intro heq
    exact hdot (heq ▸ .head _)
  · intro heq
    exact hdot (heq ▸ .head _)

instance (piece : List Char) : Decidable (IsName piece) :=
  decidable_of_iff (piece ≠ [] ∧ piece ≠ ['.'] ∧ piece ≠ ['.', '.'])
    ⟨fun h => ⟨h.1, h.2.1, h.2.2⟩, fun h => ⟨h.ne_nil, h.ne_dot, h.ne_dots⟩⟩

theorem objectKey_toList (g key : String) :
    (s!"{g}/{key}").toList = g.toList ++ '/' :: key.toList := by
  have heq : s!"{g}/{key}" = g ++ "/" ++ key := rfl
  rw [heq, String.toList_append, String.toList_append, List.append_assoc]
  rfl

section
variable {g key : String}

theorem infix_objectKey_iff (piece : List Char) (hg : '/' ∉ g.toList) (hp : '/' ∉ piece) :
    '/' :: piece ++ ['/'] <:+: (s!"{g}/{key}").toList ↔
      piece ∈ (key.toList.splitOn '/').dropLast := by
  rw [objectKey_toList, Lines.infix_iff_inner hp, Lines.splitOn_sep hg, List.tail_cons]

theorem checkAttachmentKey_iff (hg : '/' ∉ g.toList) : checkAttachmentKey s!"{g}/{key}" = false ↔
    (s!"{g}/{key}").utf8ByteSize < 1024 ∧
      ∀ piece ∈ (key.toList.splitOn '/').dropLast, IsName piece := by
  have hnil : ['/', '/'] <:+: (s!"{g}/{key}").toList ↔
      [] ∈ (key.toList.splitOn '/').dropLast := infix_objectKey_iff [] hg List.not_mem_nil
  have hdot : ['/', '.', '/'] <:+: (s!"{g}/{key}").toList ↔
      ['.'] ∈ (key.toList.splitOn '/').dropLast := infix_objectKey_iff ['.'] hg (by decide)
  have hdots : ['/', '.', '.', '/'] <:+: (s!"{g}/{key}").toList ↔
      ['.', '.'] ∈ (key.toList.splitOn '/').dropLast :=
    infix_objectKey_iff ['.', '.'] hg (by decide)
  unfold checkAttachmentKey
  rw [Bool.or_eq_false_iff, decide_eq_false_iff_not, Nat.not_le]
  apply and_congr Iff.rfl
  have hany : (["/./", "/../", "//"].any fun p =>
      decide (p.toList <:+: (s!"{g}/{key}").toList)) = false ↔
      ¬['/', '.', '/'] <:+: (s!"{g}/{key}").toList ∧
        ¬['/', '.', '.', '/'] <:+: (s!"{g}/{key}").toList ∧
        ¬['/', '/'] <:+: (s!"{g}/{key}").toList := by
    simp
  rw [hany]
  constructor
  · rintro ⟨h₁, h₂, h₃⟩ piece hm
    constructor
    · rintro rfl
      exact h₃ (hnil.2 hm)
    · rintro rfl
      exact h₁ (hdot.2 hm)
    · rintro rfl
      exact h₂ (hdots.2 hm)
  · intro h
    exact ⟨fun hi => (h _ (hdot.1 hi)).ne_dot rfl, fun hi => (h _ (hdots.1 hi)).ne_dots rfl,
      fun hi => (h _ (hnil.1 hi)).ne_nil rfl⟩

/-- The rule that the error of the check states. -/
structure Rule (g key : String) : Prop where
  bytes : (s!"{g}/{key}").utf8ByteSize < 1024
  plain : Plain key.toList

/-- The key leads from the group's directory to the place of its components, and is the shortest
text that does. -/
structure CleanKey (g key : String) : Prop where
  place : UnixPath.normalize ('/' :: (s!"{g}/{key}").toList) =
    g.toList :: key.toList.splitOn '/'
  clean : UnixPath.clean key.toList = key.toList

theorem Rule.cleanKey (hg : nameValidator g = true) (h : Rule g key) : CleanKey g key := by
  obtain ⟨hname, hs⟩ := nameValidator_isName hg
  constructor
  · rw [objectKey_toList]
    exact UnixPath.normalize_plain hname hs h.plain
  · exact h.plain.clean

theorem plain_iff_last : Plain key.toList ↔
    (∀ piece ∈ (key.toList.splitOn '/').dropLast, IsName piece) ∧
      ∀ piece ∈ (key.toList.splitOn '/').getLast?, IsName piece := by
  constructor
  · intro h
    exact ⟨fun piece hm => h piece (List.dropLast_subset _ hm),
      fun piece hm => h piece (List.mem_of_getLast? hm)⟩
  · rintro ⟨hinit, hlast⟩ piece hm
    have hne := List.splitOn_ne_nil '/' key.toList
    rw [← List.dropLast_append_getLast hne] at hm
    rcases List.mem_append.1 hm with hm | hm
    · exact hinit piece hm
    · rw [List.mem_singleton.1 hm]
      exact hlast _ (List.getLast?_eq_some_getLast hne)

/-- The check is the rule, and what it accepts is clean, if and only if the last component of the
key is a name or the key is refused for another reason. -/
theorem check_iff_rule (hg : nameValidator g = true) :
    ((checkAttachmentKey s!"{g}/{key}" = false ↔ Rule g key) ∧
        (checkAttachmentKey s!"{g}/{key}" = false → CleanKey g key)) ↔
      1024 ≤ (s!"{g}/{key}").utf8ByteSize ∨
        (∃ piece ∈ (key.toList.splitOn '/').dropLast, ¬IsName piece) ∨
        ∀ piece ∈ (key.toList.splitOn '/').getLast?, IsName piece := by
  rw [checkAttachmentKey_iff (nameValidator_isName hg).2]
  constructor
  · rintro ⟨hrule, -⟩
    by_contra hn
    simp only [not_or, not_exists, not_and, Nat.not_le, not_not] at hn
    obtain ⟨hb, hinit, hlast⟩ := hn
    exact hlast (plain_iff_last.1 (hrule.1 ⟨hb, hinit⟩).plain).2
  · intro h
    have hrule : (s!"{g}/{key}").utf8ByteSize < 1024 ∧
        (∀ piece ∈ (key.toList.splitOn '/').dropLast, IsName piece) → Rule g key := by
      rintro ⟨hb, hinit⟩
      rcases h with h | ⟨piece, hm, hn⟩ | hlast
      · omega
      · exact (hn (hinit piece hm)).elim
      · exact ⟨hb, plain_iff_last.2 ⟨hinit, hlast⟩⟩
    refine ⟨⟨hrule, ?_⟩, fun ha => (hrule ha).cleanKey hg⟩
    intro hr
    exact ⟨hr.bytes, (plain_iff_last.1 hr.plain).1⟩

end

namespace KeyDemo

def group : String := "lab"

def key : String := "logs/out.txt"

end KeyDemo

/-- A key of two components is accepted, and clean. -/
theorem logs_out : checkAttachmentKey s!"{KeyDemo.group}/{KeyDemo.key}" = false ∧
    Rule KeyDemo.group KeyDemo.key ∧ CleanKey KeyDemo.group KeyDemo.key := by
  have hlast : (KeyDemo.key.toList.splitOn '/').getLast? = some "out.txt".toList := by decide
  have hname : ∀ piece ∈ (KeyDemo.key.toList.splitOn '/').getLast?, IsName piece := by
    intro piece hp
    obtain rfl := Option.some.inj (hlast.symm.trans hp)
    exact ⟨by decide, by decide, by decide⟩
  have hok : checkAttachmentKey s!"{KeyDemo.group}/{KeyDemo.key}" = false := by decide
  have hg : nameValidator KeyDemo.group = true := by decide
  obtain ⟨hrule, hclean⟩ := (check_iff_rule hg).2 (.inr (.inr hname))
  exact ⟨hok, hrule.1 hok, hclean hok⟩

/-- The key that leads out of the group is accepted. -/
theorem parent_accepted : ¬ ∀ g key : String, nameValidator g = true →
    (checkAttachmentKey s!"{g}/{key}" = false ↔ Rule g key) := by
  intro h
  have hr : Rule "lab" ".." := (h "lab" ".." (by decide)).1 (by decide)
  exact (hr.plain ['.', '.'] (by decide)).ne_dots rfl

end Storage
end Mitosis
