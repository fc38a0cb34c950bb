import Mitosis.AttachmentKeys
import Mitosis.Lib.Writers

namespace Mitosis
set_option autoImplicit true

namespace Client
open UnixPath (IsName fileName join place pieces enter)
open Storage.Service (checkAttachmentKey)

structure AttachmentDownloadItem where
  key : String
  url : String
  size : Int

structure RemoteResourceDownloadResp where
  url : String
  size : Int

structure ResourceDownloadInfo where
  size : Int
  localPath : List Char

/-- What the batch downloads read of their arguments behind the request. -/
structure BatchDownloadArgs where
  outputDir : Option (List Char)
  noDownload : Bool
  concurrent : Nat

def outputPath (outputDir : List Char) (key : String) : List Char :=
  join outputDir ((fileName key.toList).getD key.toList)

def prepareDownloads (args : BatchDownloadArgs) (downloads : List AttachmentDownloadItem) :
    List (RemoteResourceDownloadResp × List Char) × List ResourceDownloadInfo :=
  let outputDir := args.outputDir.getD ['.']
  if args.noDownload then ([], [])
  else (downloads.map fun item => (⟨item.url, item.size⟩, outputPath outputDir item.key),
    downloads.map fun item => ⟨item.size, outputPath outputDir item.key⟩)

def batchDownloadAttachmentsByFilter (args : BatchDownloadArgs)
    (downloads : List AttachmentDownloadItem) := prepareDownloads args downloads

def batchDownloadAttachmentsByList (args : BatchDownloadArgs)
    (downloads : List AttachmentDownloadItem) := prepareDownloads args downloads

/-- A download to a path, where `body` is what the store sends for a link. A path without a file name
cannot be created. -/
def fileTask (cwd : List Char) (body : String → List UInt8)
    (d : RemoteResourceDownloadResp × List Char) : Option (List (List Char)) × List UInt8 :=
  ((fileName d.2).map fun _ => place cwd d.2, body d.1.url)

/-- The tasks of `concurrent_download_files` before they start. -/
def concurrentDownloadFiles (cwd : List Char) (body : String → List UInt8)
    (files : List (List Char) → Option (List UInt8))
    (downloads : List (RemoteResourceDownloadResp × List Char)) :
    Writers.State (List (List Char)) UInt8 :=
  Writers.initial files (downloads.map (fileTask cwd body))

/-- The files are written by any interleaving of at most `concurrent` downloads. -/
abbrev Downloaded (concurrent : Nat) :
    Writers.State (List (List Char)) UInt8 → Writers.State (List (List Char)) UInt8 → Prop :=
  Relation.ReflTransGen (Writers.Step 0 concurrent)

structure LosesNone (cwd : List Char) (args : BatchDownloadArgs)
    (items : List AttachmentDownloadItem)
    (result : List (RemoteResourceDownloadResp × List Char) × List ResourceDownloadInfo) :
    Prop where
  distinct : (result.1.map fun d => place cwd d.2).Nodup
  below : ∀ d ∈ result.1, UnixPath.Below (place cwd (args.outputDir.getD ['.'])) (place cwd d.2)
  kept : ∀ body files s, Downloaded args.concurrent
      (concurrentDownloadFiles cwd body files result.1) s →
    (∀ t ∈ s.tasks, t.phase = .done) → ∀ (i : Nat) item, items[i]? = some item →
      ∃ info, result.2[i]? = some info ∧ info.size = item.size ∧
        s.files (place cwd info.localPath) = some (body item.url)

/-- The names to which the output path of a key leads below the output directory: the file name, or
without one the place of the key itself. -/
def target (key : String) : List (List Char) :=
  match fileName key.toList with
  | some name => [name]
  | none => (pieces key.toList).foldl enter []

section
variable {g key : String} {cwd d : List Char}

theorem accepted_split (hg : '/' ∉ g.toList) (h : checkAttachmentKey s!"{g}/{key}" = false) :
    ∃ names last, key.toList.splitOn '/' = names ++ [last] ∧ ∀ name ∈ names, IsName name := by
  have hne := List.splitOn_ne_nil '/' key.toList
  refine ⟨_, _, (List.dropLast_append_getLast hne).symm, ?_⟩
  exact ((Storage.checkAttachmentKey_iff hg).1 h).2

theorem filterMap_names {names : List (List Char)} (h : ∀ name ∈ names, IsName name) :
    names.filterMap UnixPath.ofPiece = names.map .normal := by
  rw [List.filterMap_congr fun name hm => UnixPath.ofPiece_name (h name hm)]
  exact congrFun List.filterMap_eq_map' _

theorem accepted_relative (hg : '/' ∉ g.toList)
    (h : checkAttachmentKey s!"{g}/{key}" = false) : UnixPath.isAbsolute key.toList = false := by
  obtain ⟨names, last, hs, hn⟩ := accepted_split hg h
  rw [UnixPath.isAbsolute, decide_eq_false_iff_not]
  intro hh
  obtain ⟨rest, hkey⟩ := List.head?_eq_some_iff.1 hh
  have hsplit : key.toList.splitOn '/' = [] :: rest.splitOn '/' := by
    rw [hkey]
    exact Lines.splitOn_sep List.not_mem_nil
  cases names with
  | nil =>
    have hlen := congrArg List.length (hsplit.symm.trans hs)
    have hpos := List.length_pos_of_ne_nil (List.splitOn_ne_nil '/' rest)
    simp only [List.length_cons, List.nil_append, List.length_nil] at hlen
    omega
  | cons name names =>
    have hhead : [] = name := (List.cons.inj (hsplit.symm.trans hs)).1
    exact (hn name (.head _)).ne_nil hhead.symm

/-- Without a file name, the key ends in two dots, or has no component. -/
theorem pieces_of_fileName_none (hg : '/' ∉ g.toList)
    (h : checkAttachmentKey s!"{g}/{key}" = false) (hf : fileName key.toList = none) :
    pieces key.toList = [] ∨ ∃ names : List (List Char),
      pieces key.toList = names.map .normal ++ [.parentDir] := by
  obtain ⟨names, last, hs, hn⟩ := accepted_split hg h
  have hp : pieces key.toList = names.map .normal ++ (UnixPath.ofPiece last).toList := by
    rw [pieces, hs, List.filterMap_append, filterMap_names hn]
    cases hl : UnixPath.ofPiece last <;> simp [hl]
  by_cases hdots : last = ['.', '.']
  · subst hdots
    exact .inr ⟨names, hp⟩
  by_cases hname : last = [] ∨ last = ['.']
  · rw [UnixPath.ofPiece, if_pos hname, Option.toList_none, List.append_nil] at hp
    rcases List.eq_nil_or_concat' names with rfl | ⟨names, name, rfl⟩
    · exact .inl hp
    · rw [List.map_append, List.map_singleton] at hp
      rw [UnixPath.fileName_of_pieces (hp ▸ List.getLast?_concat)] at hf
      cases hf
  · have hlast : IsName last :=
      ⟨fun hnil => hname (.inl hnil), fun hdot => hname (.inr hdot), hdots⟩
    rw [UnixPath.ofPiece_name hlast, Option.toList_some] at hp
    rw [UnixPath.fileName_of_pieces (hp ▸ List.getLast?_concat)] at hf
    cases hf

theorem place_outputPath (hg : '/' ∉ g.toList) (h : checkAttachmentKey s!"{g}/{key}" = false)
    (hc : UnixPath.isAbsolute cwd = true) :
    (target key ≠ [] → place cwd (outputPath d key) = place cwd d ++ target key) ∧
      (target key = [] → ¬UnixPath.Below (place cwd d) (place cwd (outputPath d key))) := by
  unfold target outputPath
  cases hf : fileName key.toList with
  | some name =>
    obtain ⟨hn, hs⟩ := UnixPath.fileName_isName hf
    refine ⟨fun _ => UnixPath.place_join_name hc hn hs d, ?_⟩
    intro hnil
    cases hnil
  | none =>
    rw [Option.getD_none, UnixPath.place_join hc (accepted_relative hg h)]
    rcases pieces_of_fileName_none hg h hf with hp | ⟨names, hp⟩
    · rw [hp]
      refine ⟨fun hne => (hne rfl).elim, ?_⟩
      rintro - ⟨ns, hns, heq⟩
      exact hns (List.self_eq_append_right.1 heq)
    · rw [hp, List.foldl_append, List.foldl_append, UnixPath.foldl_enter_normal,
        UnixPath.foldl_enter_normal, List.nil_append]
      change (names.dropLast ≠ [] → (place cwd d ++ names).dropLast = _) ∧
        (names.dropLast = [] → ¬UnixPath.Below _ (place cwd d ++ names).dropLast)
      constructor
      · intro hne
        rw [List.dropLast_append_of_ne_nil]
        · rfl
        · rintro rfl
          exact hne rfl
      · rintro hnil ⟨ns, hns, heq⟩
        have hlen := congrArg List.length heq
        have hlen' := congrArg List.length hnil
        have hpos := List.length_pos_of_ne_nil hns
        simp only [List.length_dropLast, List.length_append, List.length_nil] at hlen hlen'
        omega

variable {args : BatchDownloadArgs} {items : List AttachmentDownloadItem}

theorem prepareDownloads_eq (h : args.noDownload = false) : prepareDownloads args items =
    (items.map fun item =>
        (⟨item.url, item.size⟩, outputPath (args.outputDir.getD ['.']) item.key),
      items.map fun item =>
        ⟨item.size, outputPath (args.outputDir.getD ['.']) item.key⟩) := by
  rw [prepareDownloads, h]
  rfl

theorem distinct_of_nodup {downloads : List (RemoteResourceDownloadResp × List Char)}
    (body : String → List UInt8) (hd : (downloads.map fun d => place cwd d.2).Nodup) :
    Writers.Distinct ((downloads.map (fileTask cwd body)).map Prod.fst) := by
  have hplace : ∀ (i : Nat) p,
      ((downloads.map (fileTask cwd body)).map Prod.fst)[i]? = some (some p) →
        (downloads.map fun d => place cwd d.2)[i]? = some p := by
    intro i p hi
    rw [List.getElem?_map, List.getElem?_map, Option.map_map, Option.map_eq_some_iff] at hi
    obtain ⟨d, hd, hp⟩ := hi
    obtain ⟨-, -, hp⟩ := Option.map_eq_some_iff.1 hp
    rw [List.getElem?_map, hd, Option.map_some, hp]
  intro i j p hi hj
  have hi := hplace i p hi
  have hj := hplace j p hj
  exact (List.getElem?_inj (List.getElem?_eq_some_iff.1 hi).1 hd).1 (hi.trans hj.symm)

theorem kept_of_distinct (h : args.noDownload = false)
    (hd : ((prepareDownloads args items).1.map fun d => place cwd d.2).Nodup)
    {body : String → List UInt8} {files : List (List Char) → Option (List UInt8)}
    {s : Writers.State (List (List Char)) UInt8}
    (hr : Downloaded args.concurrent
      (concurrentDownloadFiles cwd body files (prepareDownloads args items).1) s)
    (hdone : ∀ t ∈ s.tasks, t.phase = .done) {i : Nat} {item : AttachmentDownloadItem}
    (hi : items[i]? = some item) : ∃ info, (prepareDownloads args items).2[i]? = some info ∧
      info.size = item.size ∧ s.files (place cwd info.localPath) = some (body item.url) := by
  rw [prepareDownloads_eq h] at hd hr ⊢
  have hm := List.mem_map_of_mem (f := fileTask cwd body)
    (List.mem_map_of_mem (f := fun item : AttachmentDownloadItem =>
      ((⟨item.url, item.size⟩ : RemoteResourceDownloadResp),
        outputPath (args.outputDir.getD ['.']) item.key)) (List.mem_of_getElem? hi))
  rw [fileTask] at hm
  obtain ⟨p, hp, hf⟩ := Writers.written_of_done (distinct_of_nodup body hd) hr hdone hm
  obtain ⟨-, -, heq⟩ := Option.map_eq_some_iff.1 hp
  refine ⟨⟨item.size, outputPath (args.outputDir.getD ['.']) item.key⟩, ?_, rfl, ?_⟩
  · rw [List.getElem?_map, hi, Option.map_some]
  · rw [heq, hf]

/-- The batch download loses no file if and only if the keys lead to distinct places below the
output directory. -/
theorem losesNone_iff (hg : '/' ∉ g.toList)
    (hk : ∀ item ∈ items, checkAttachmentKey s!"{g}/{item.key}" = false)
    (hc : UnixPath.isAbsolute cwd = true) (h : args.noDownload = false) :
    (LosesNone cwd args items (batchDownloadAttachmentsByFilter args items) ∧
        LosesNone cwd args items (batchDownloadAttachmentsByList args items)) ↔
      (∀ item ∈ items, target item.key ≠ []) ∧ (items.map fun item => target item.key).Nodup := by
  -- the two commands do the same with the response
  have hboth : LosesNone cwd args items (batchDownloadAttachmentsByFilter args items) ∧
      LosesNone cwd args items (batchDownloadAttachmentsByList args items) ↔
        LosesNone cwd args items (prepareDownloads args items) := and_self_iff
  have hplace := fun item hm =>
    place_outputPath (d := args.outputDir.getD ['.']) hg (hk item hm) hc
  have hmap : ((prepareDownloads args items).1.map fun d => place cwd d.2) =
      items.map fun item => place cwd (outputPath (args.outputDir.getD ['.']) item.key) := by
    rw [prepareDownloads_eq h, List.map_map]
    rfl
  have htargets : (∀ item ∈ items, target item.key ≠ []) →
      (items.map fun item => place cwd (outputPath (args.outputDir.getD ['.']) item.key)) =
        (items.map fun item => target item.key).map
          (place cwd (args.outputDir.getD ['.']) ++ ·) := by
    intro hne
    rw [List.map_map]
    exact List.map_congr_left fun item hm => (hplace item hm).1 (hne item hm)
  rw [hboth]
  constructor
  · intro hl
    have hne : ∀ item ∈ items, target item.key ≠ [] := by
      intro item hm hnil
      apply (hplace item hm).2 hnil
      apply hl.below (⟨item.url, item.size⟩, _)
      rw [prepareDownloads_eq h]
      exact List.mem_map_of_mem hm
    have hd := hl.distinct
    rw [hmap, htargets hne] at hd
    exact ⟨hne, hd.of_map _⟩
  · rintro ⟨hne, hnodup⟩
    have hd : ((prepareDownloads args items).1.map fun d => place cwd d.2).Nodup := by
      rw [hmap, htargets hne]
      exact hnodup.map (List.append_right_injective _)
    refine ⟨hd, ?_, ?_⟩
    · rw [prepareDownloads_eq h]
      intro d hm
      obtain ⟨item, hi, rfl⟩ := List.mem_map.1 hm
      exact ⟨_, hne item hi, (hplace item hi).1 (hne item hi)⟩
    · intro body files s hr hdone i item hi
      exact kept_of_distinct h hd hr hdone hi

end

namespace BatchDemo

def group : String := "lab"

def items : List AttachmentDownloadItem := [⟨"a/x.txt", "u1", 1⟩, ⟨"b/y.txt", "u2", 2⟩]

def args : BatchDownloadArgs := ⟨some ['o', 'u', 't'], false, 2⟩

end BatchDemo

/-- Two files of different names are both kept. -/
theorem two_files : LosesNone ['/'] BatchDemo.args BatchDemo.items
      (batchDownloadAttachmentsByFilter BatchDemo.args BatchDemo.items) ∧
    LosesNone ['/'] BatchDemo.args BatchDemo.items
      (batchDownloadAttachmentsByList BatchDemo.args BatchDemo.items) := by
  have hg : '/' ∉ BatchDemo.group.toList := by decide
  have hk : ∀ item ∈ BatchDemo.items,
      checkAttachmentKey s!"{BatchDemo.group}/{item.key}" = false := by decide
  exact (losesNone_iff hg hk rfl rfl).2 ⟨by decide, by decide⟩

/-- Two accepted keys with one file name go to one path. -/
theorem same_file_name : ¬ ∀ (g k l : String) (dir : List Char), k ≠ l →
    checkAttachmentKey s!"{g}/{k}" = false → checkAttachmentKey s!"{g}/{l}" = false →
    outputPath dir k ≠ outputPath dir l := by
  intro h
  exact h "lab" "a/x.txt" "b/x.txt" ['.'] (by decide) (by decide) (by decide) (by decide)

end Client
end Mitosis
