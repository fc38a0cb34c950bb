import Mitosis.Lib.Lines

namespace Mitosis
set_option autoImplicit true

/-! Paths as texts with the separator `/`, their components and their lexical normal form. -/

namespace UnixPath

inductive Component where
  | rootDir
  | curDir
  | parentDir
  | normal (name : List Char)
  deriving DecidableEq

def isAbsolute (path : List Char) : Bool := path.head? = some '/'

/-- The component that a piece between separators stands for, if any. -/
def ofPiece (piece : List Char) : Option Component :=
  if piece = [] ∨ piece = ['.'] then none
  else if piece = ['.', '.'] then some .parentDir
  else some (.normal piece)

def pieces (path : List Char) : List Component := (path.splitOn '/').filterMap ofPiece

/-- `Path::components`: a dot is kept only at the start of a relative path. -/
def components (path : List Char) : List Component :=
  if isAbsolute path then .rootDir :: pieces path
  else if (path.splitOn '/').head? = some ['.'] then .curDir :: pieces path
  else pieces path

def fileName (path : List Char) : Option (List Char) :=
  match (components path).getLast? with
  | some (.normal name) => some name
  | _ => none

def join (dir path : List Char) : List Char :=
  if isAbsolute path then path
  else if dir = [] ∨ dir.getLast? = some '/' then dir ++ path
  else dir ++ '/' :: path

/-- The names that lead to the place of a path, one component further. -/
def enter (names : List (List Char)) : Component → List (List Char)
  | .rootDir => []
  | .curDir => names
  | .parentDir => names.dropLast
  | .normal name => names ++ [name]

/-- The names that lead from the root to the place of an absolute path. -/
def normalize (path : List Char) : List (List Char) := (components path).foldl enter []

/-- The path is the directory or lies below it. -/
def Inside (dir path : List Char) : Prop := normalize dir <+: normalize path

theorem ofPiece_ne_root (piece : List Char) : ofPiece piece ≠ some .rootDir := by
  unfold ofPiece
  intro h
  split at h
  · cases h
  · split at h <;> cases h

theorem root_notMem_pieces (path : List Char) : .rootDir ∉ pieces path := by
  intro h
  obtain ⟨piece, -, hp⟩ := List.mem_filterMap.1 h
  exact ofPiece_ne_root piece hp

theorem pieces_subset (path : List Char) : pieces path ⊆ components path := by
  unfold components
  split
  · exact List.subset_cons_self _ _
  · split
    · exact List.subset_cons_self _ _
    · exact List.Subset.refl _

theorem pieces_nil : pieces [] = [] := rfl

theorem pieces_append (dir path : List Char) :
    pieces (dir ++ '/' :: path) = pieces dir ++ pieces path := by
  rw [pieces, List.splitOn_append_cons_self, List.filterMap_append]
  rfl

theorem components_join (hd : isAbsolute dir = true) (hp : isAbsolute path = false) :
    components (join dir path) = components dir ++ pieces path := by
  cases dir with
  | nil => cases hd
  | cons c dir =>
    have habs : ∀ l, isAbsolute (c :: dir ++ l) = true := fun _ => hd
    rw [components, components, hd, if_pos rfl, List.cons_append, join, hp]
    simp only [Bool.false_eq_true, if_false, List.cons_ne_nil, false_or]
    split
    next hlast =>
      obtain ⟨dir', hdir⟩ := List.getLast?_eq_some_iff.1 hlast
      rw [habs, if_pos rfl, hdir, pieces_append, pieces_nil, List.append_nil, List.append_assoc,
        List.singleton_append, pieces_append]
    next => rw [habs, if_pos rfl, pieces_append]

theorem ofPiece_parent : ofPiece piece = some .parentDir ↔ piece = ['.', '.'] := by
  constructor
  · intro h
    rw [ofPiece] at h
    split at h
    next => cases h
    next =>
      split at h
      next hp => exact hp
      next => cases h
  · rintro rfl
    rfl

/-- A path has a parent component if two dots stand between separators. -/
theorem parent_mem_components : .parentDir ∈ components path ↔ ['.', '.'] ∈ path.splitOn '/' := by
  have hp : .parentDir ∈ pieces path ↔ ['.', '.'] ∈ path.splitOn '/' := by
    simp only [pieces, List.mem_filterMap, ofPiece_parent, exists_eq_right]
  rw [← hp, components]
  split
  · rw [List.mem_cons, or_iff_right (by decide)]
  · split
    · rw [List.mem_cons, or_iff_right (by decide)]
    · exact Iff.rfl

/-- Without parent components a path leads only further down. -/
theorem prefix_foldl {cs : List Component} (hr : .rootDir ∉ cs) (hp : .parentDir ∉ cs)
    (names : List (List Char)) : names <+: cs.foldl enter names := by
  induction cs generalizing names with
  | nil => exact List.prefix_rfl
  | cons c cs ih =>
    have hcs := ih (fun h => hr (.tail _ h)) (fun h => hp (.tail _ h))
    cases c with
    | rootDir => exact (hr (.head _)).elim
    | parentDir => exact (hp (.head _)).elim
    | curDir => exact hcs names
    | normal name => exact (List.prefix_append names [name]).trans (hcs _)

theorem inside_join (hd : isAbsolute dir = true) (hp : isAbsolute path = false)
    (hc : .parentDir ∉ components path) : Inside dir (join dir path) := by
  rw [Inside, normalize, normalize, components_join hd hp, List.foldl_append]
  exact prefix_foldl (root_notMem_pieces path) (fun h => hc (pieces_subset path h)) _

def Component.text : Component → List Char
  | .rootDir => ['/']
  | .curDir => ['.']
  | .parentDir => ['.', '.']
  | .normal name => name

def cleanStep (out : List Component) : Component → List Component
  | .curDir => out
  | .parentDir => match out.getLast? with
    | some .rootDir => out
    | some (.normal _) => out.dropLast
    | _ => out ++ [.parentDir]
  | c => out ++ [c]

/-- The path without the components that name no further place, a dot if nothing is left. -/
def clean (path : List Char) : List Char :=
  match (components path).foldl cleanStep [] with
  | [] => ['.']
  | out => out.foldl (fun path c => join path c.text) []

structure IsName (piece : List Char) : Prop where
  ne_nil : piece ≠ []
  ne_dot : piece ≠ ['.']
  ne_dots : piece ≠ ['.', '.']

def Plain (path : List Char) : Prop := ∀ piece ∈ path.splitOn '/', IsName piece

theorem ofPiece_name (h : IsName piece) : ofPiece piece = some (.normal piece) := by
  rw [ofPiece, if_neg (not_or.2 ⟨h.ne_nil, h.ne_dot⟩), if_neg h.ne_dots]

namespace Plain

theorem pieces (h : Plain path) : pieces path = (path.splitOn '/').map .normal := by
  rw [UnixPath.pieces, List.filterMap_congr fun piece hm => ofPiece_name (h piece hm)]
  exact congrFun List.filterMap_eq_map' _

theorem isAbsolute (h : Plain path) : isAbsolute path = false := by
  cases path with
  | nil => rfl
  | cons c path =>
    by_cases hc : c = '/'
    · subst hc
      have hm : [] ∈ ('/' :: path).splitOn '/' := by
        have hsplit := Lines.splitOn_sep (b := path) (List.not_mem_nil (a := '/'))
        rw [List.nil_append] at hsplit
        rw [hsplit]
        exact .head _
      exact absurd rfl (h [] hm).ne_nil
    · simpa [UnixPath.isAbsolute] using hc

theorem components (h : Plain path) : components path = (path.splitOn '/').map .normal := by
  have hdot : (path.splitOn '/').head? ≠ some ['.'] := fun hd =>
    (h ['.'] (List.mem_of_head? hd)).ne_dot rfl
  rw [UnixPath.components, h.isAbsolute, if_neg Bool.false_ne_true, if_neg hdot, h.pieces]

end Plain

theorem plain_name (h : IsName name) (hs : '/' ∉ name) : Plain name := by
  intro piece hm
  rw [List.splitOn_eq_singleton hs, List.mem_singleton] at hm
  rw [hm]
  exact h

theorem foldl_enter_normal (names ps : List (List Char)) :
    (ps.map Component.normal).foldl enter names = names ++ ps := by
  induction ps generalizing names with
  | nil => exact (List.append_nil names).symm
  | cons p ps ih =>
    rw [List.map_cons, List.foldl_cons, ih]
    exact List.append_assoc _ _ _

/-- The place of a plain path below a directory of the root. -/
theorem normalize_plain (hd : IsName dir) (hs : '/' ∉ dir) (h : Plain path) :
    normalize ('/' :: (dir ++ '/' :: path)) = dir :: path.splitOn '/' := by
  have hdir := plain_name hd hs
  have hpieces : UnixPath.pieces ('/' :: (dir ++ '/' :: path)) =
      (dir :: path.splitOn '/').map .normal := by
    have hroot := pieces_append [] (dir ++ '/' :: path)
    rw [pieces_append dir path, pieces_nil, hdir.pieces, h.pieces, List.splitOn_eq_singleton hs]
      at hroot
    exact hroot
  rw [normalize, UnixPath.components, isAbsolute, List.head?_cons, decide_eq_true rfl, if_pos rfl,
    hpieces, List.foldl_cons, foldl_enter_normal]
  rfl

theorem foldl_cleanStep_normal (out : List Component) (ps : List (List Char)) :
    (ps.map Component.normal).foldl cleanStep out = out ++ ps.map .normal := by
  induction ps generalizing out with
  | nil => exact (List.append_nil out).symm
  | cons p ps ih =>
    rw [List.map_cons, List.foldl_cons, ih]
    exact List.append_assoc _ _ _

theorem getLast?_intercalate {qs : List (List Char)} {q : List Char} (h : q ≠ []) :
    (['/'].intercalate (qs ++ [q])).getLast? = q.getLast? := by
  by_cases hqs : qs = []
  · rw [hqs, List.nil_append, List.intercalate_singleton]
  · rw [Lines.intercalate_append hqs (List.cons_ne_nil q []), List.intercalate_singleton,
      List.getLast?_append_cons, List.getLast?_cons_of_ne_nil h]

theorem foldl_join (ps : List (List Char)) (h : ∀ p ∈ ps, p ≠ [] ∧ '/' ∉ p) :
    (ps.map Component.normal).foldl (fun path c => join path c.text) [] =
      ['/'].intercalate ps := by
  induction ps using List.reverseRecOn with
  | nil => rfl
  | append_singleton ps p ih =>
    have ih := ih fun p hp => h p (List.mem_append_left _ hp)
    have hp := h p (List.mem_append_right _ (List.mem_singleton_self p))
    have habs : isAbsolute p = false := by
      rw [isAbsolute, decide_eq_false_iff_not]
      exact fun hh => hp.2 (List.mem_of_head? hh)
    rw [List.map_append, List.foldl_append, ih, List.map_singleton, List.foldl_cons,
      List.foldl_nil, Component.text, join, habs, if_neg Bool.false_ne_true]
    rcases List.eq_nil_or_concat' ps with rfl | ⟨qs, q, rfl⟩
    · simp
    · have hq := h q (by simp)
      have hne : ['/'].intercalate (qs ++ [q]) ≠ [] := by
        intro hnil
        have hlast : (['/'].intercalate (qs ++ [q])).getLast? = q.getLast? :=
          getLast?_intercalate hq.1
        rw [hnil, List.getLast?_nil] at hlast
        exact hq.1 (List.getLast?_eq_none_iff.1 hlast.symm)
      have hlast : (['/'].intercalate (qs ++ [q])).getLast? ≠ some '/' := by
        rw [getLast?_intercalate hq.1]
        exact fun hh => hq.2 (List.mem_of_getLast? hh)
      rw [if_neg (not_or.2 ⟨hne, hlast⟩),
        Lines.intercalate_append (List.append_ne_nil_of_right_ne_nil qs (List.cons_ne_nil q []))
          (List.cons_ne_nil p []), List.intercalate_singleton]

theorem Plain.clean (h : Plain path) : clean path = path := by
  have hfold := foldl_cleanStep_normal [] (path.splitOn '/')
  rw [UnixPath.clean, h.components, hfold, List.nil_append]
  split
  next hnil => exact (List.splitOn_ne_nil '/' path (List.map_eq_nil_iff.1 hnil)).elim
  next =>
    rw [foldl_join _ fun p hp => ⟨(h p hp).ne_nil, Lines.notMem_of_mem_splitOn hp⟩]
    exact List.intercalate_splitOn '/'

/-- The names that lead to the place of a path, for a process in the directory `cwd`. -/
def place (cwd path : List Char) : List (List Char) := normalize (join cwd path)

/-- The names lead from the directory further down. -/
def Below (dir names : List (List Char)) : Prop := ∃ ns, ns ≠ [] ∧ names = dir ++ ns

theorem pieces_join (hp : isAbsolute path = false) (dir : List Char) :
    pieces (join dir path) = pieces dir ++ pieces path := by
  rw [join, hp, if_neg Bool.false_ne_true]
  split
  next h =>
    rcases h with rfl | hlast
    · rw [List.nil_append, pieces_nil, List.nil_append]
    · obtain ⟨dir', rfl⟩ := List.getLast?_eq_some_iff.1 hlast
      rw [pieces_append, pieces_nil, List.append_nil, List.append_assoc, List.singleton_append,
        pieces_append]
  next => exact pieces_append dir path

theorem isAbsolute_join (hp : isAbsolute path = false) (dir : List Char) :
    isAbsolute (join dir path) = isAbsolute dir := by
  rw [join, hp, if_neg Bool.false_ne_true]
  cases dir with
  | nil => exact hp
  | cons c dir => split <;> rfl

theorem place_eq (hc : isAbsolute cwd = true) (path : List Char) :
    place cwd path = (pieces path).foldl enter (if isAbsolute path then [] else normalize cwd) := by
  rw [place]
  by_cases hp : isAbsolute path = true
  · rw [join, if_pos hp, if_pos hp, normalize, components, if_pos hp]
    rfl
  · rw [if_neg hp, normalize, components_join hc (Bool.eq_false_of_not_eq_true hp),
      List.foldl_append]
    rfl

theorem place_join (hc : isAbsolute cwd = true) (hp : isAbsolute path = false) (dir : List Char) :
    place cwd (join dir path) = (pieces path).foldl enter (place cwd dir) := by
  rw [place_eq hc, place_eq hc, pieces_join hp, isAbsolute_join hp, List.foldl_append]

theorem place_join_name (hc : isAbsolute cwd = true) (h : IsName name) (hs : '/' ∉ name)
    (dir : List Char) : place cwd (join dir name) = place cwd dir ++ [name] := by
  have hp := plain_name h hs
  rw [place_join hc hp.isAbsolute, hp.pieces, List.splitOn_eq_singleton hs]
  rfl

theorem fileName_of_pieces (h : (pieces path).getLast? = some (.normal name)) :
    fileName path = some name := by
  have hne : pieces path ≠ [] := by
    intro hnil
    rw [hnil] at h
    cases h
  have hl : (components path).getLast? = some (.normal name) := by
    unfold components
    split
    · rw [List.getLast?_cons_of_ne_nil hne, h]
    · split
      · rw [List.getLast?_cons_of_ne_nil hne, h]
      · exact h
  rw [fileName, hl]

theorem fileName_isName (h : fileName path = some name) : IsName name ∧ '/' ∉ name := by
  unfold fileName at h
  split at h
  next n hl =>
    obtain rfl := Option.some.inj h
    have hm : Component.normal n ∈ pieces path := by
      have hm := List.mem_of_getLast? hl
      unfold components at hm
      split at hm
      · exact (List.mem_cons.1 hm).resolve_left nofun
      · split at hm
        · exact (List.mem_cons.1 hm).resolve_left nofun
        · exact hm
    obtain ⟨piece, hs, hp⟩ := List.mem_filterMap.1 hm
    unfold ofPiece at hp
    split at hp
    next => cases hp
    next hne =>
      split at hp
      next => cases hp
      next hdots =>
        cases hp
        exact ⟨⟨fun h => hne (.inl h), fun h => hne (.inr h), hdots⟩,
          Lines.notMem_of_mem_splitOn hs⟩
  next => cases h

end UnixPath
end Mitosis
