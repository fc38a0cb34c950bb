import Mitosis.Lib.Lines

namespace Mitosis
set_option autoImplicit true

/-! Setting the path of a URL with a special scheme, before percent-encoding. -/

namespace UrlPath

/-- What one segment of a path stands for. -/
inductive Segment where
  | here
  | up
  | name (text : List Char)
  deriving DecidableEq

/-- A dot of a dot segment may be percent-encoded. -/
def Segment.of (piece : List Char) : Segment :=
  match piece.map Char.toLower with
  | ['.'] | ['%', '2', 'e'] => .here
  | ['.', '.'] | ['.', '%', '2', 'e'] | ['%', '2', 'e', '.'] | ['%', '2', 'e', '%', '2', 'e'] => .up
  | _ => .name piece

def slash (c : Char) : Char := if c = '\\' then '/' else c

/-- Tabs and line breaks are dropped, and a backslash is a slash. -/
def segments (path : List Char) : List Segment :=
  (((path.filter (· ∉ ['\t', '\n', '\r'])).map slash).splitOn '/').map Segment.of

/-- The names behind a segment. Above the root is the root. -/
def enter (names : List (List Char)) : Segment → List (List Char)
  | .here => names
  | .up => names.dropLast
  | .name text => names ++ [text]

/-- The names that are left of a path. A dot segment at the end leaves an empty one. -/
def setPath (path : List Char) : List (List Char) :=
  let names := (segments path).foldl enter []
  match (segments path).getLast? with
  | some (.name _) => names
  | _ => names ++ [[]]

/-- A text that is one name as it stands. -/
structure Plain (text : List Char) : Prop where
  name : Segment.of text = .name text
  chars : ∀ c ∈ text, c ∉ ['/', '\\', '\t', '\n', '\r']

theorem forall_mem_intercalate {names : List (List Char)} {p : Char → Prop} (hsep : p '/')
    (h : ∀ n ∈ names, ∀ c ∈ n, p c) : ∀ c ∈ ['/'].intercalate names, p c := by
  induction names with
  | nil =>
    intro c hc
    cases hc
  | cons n ns ih =>
    have hn := h n (.head _)
    have ih := ih fun n hm => h n (.tail _ hm)
    cases ns with
    | nil =>
      rw [List.intercalate_singleton]
      exact hn
    | cons n' ns =>
      intro c hc
      rw [List.intercalate_cons_cons, List.append_assoc, List.mem_append, List.singleton_append,
        List.mem_cons] at hc
      rcases hc with hc | rfl | hc
      · exact hn c hc
      · exact hsep
      · exact ih c hc

theorem segments_intercalate {names : List (List Char)} (hne : names ≠ [])
    (h : ∀ n ∈ names, Plain n) :
    segments (['/'].intercalate names) = names.map .name := by
  have hchars : ∀ c ∈ ['/'].intercalate names, c ∉ ['\\', '\t', '\n', '\r'] := by
    apply forall_mem_intercalate
    · decide
    · exact fun n hn c hc hm => (h n hn).chars c hc (.tail _ hm)
  have hfilter : (['/'].intercalate names).filter (· ∉ ['\t', '\n', '\r']) =
      ['/'].intercalate names := by
    rw [List.filter_eq_self]
    exact fun c hc => decide_eq_true fun hm => hchars c hc (.tail _ hm)
  have hslash : (['/'].intercalate names).map slash = ['/'].intercalate names := by
    refine (List.map_congr_left fun c hc => ?_).trans (List.map_id _)
    apply if_neg
    rintro rfl
    exact hchars '\\' hc (.head _)
  rw [segments, hfilter, hslash, List.splitOn_intercalate]
  · exact List.map_congr_left fun n hn => (h n hn).name
  · exact fun n hn hs => (h n hn).chars '/' hs (.head _)
  · exact hne

theorem foldl_enter_name (names ns : List (List Char)) :
    (ns.map Segment.name).foldl enter names = names ++ ns := by
  induction ns generalizing names with
  | nil => exact (List.append_nil names).symm
  | cons n ns ih =>
    rw [List.map_cons, List.foldl_cons, ih]
    exact List.append_assoc _ _ _

/-- A path of plain names is left as it is. -/
theorem setPath_intercalate {names : List (List Char)} (hne : names ≠ [])
    (h : ∀ n ∈ names, Plain n) : setPath (['/'].intercalate names) = names := by
  unfold setPath
  rw [segments_intercalate hne h, foldl_enter_name]
  rcases List.eq_nil_or_concat' names with rfl | ⟨ns, n, rfl⟩
  · exact (hne rfl).elim
  · rw [List.map_append, List.map_singleton, List.getLast?_concat]
    rfl

end UrlPath
end Mitosis
