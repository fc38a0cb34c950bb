import Mitosis.Lib.UnixPath
import Mitosis.Lib.UrlPath

namespace Mitosis
set_option autoImplicit true

namespace Client

structure UploadAttachmentArgs where
  localFile : List Char
  groupName : Option (List Char)
  key : Option (List Char)
  smart : Bool

structure DownloadAttachmentArgs where
  groupName : Option (List Char)
  key : List Char
  outputPath : Option (List Char)
  pb : Bool
  smart : Bool

structure GetAttachmentMetaArgs where
  groupName : Option (List Char)
  key : List Char
  smart : Bool

structure DeleteAttachmentArgs where
  groupName : Option (List Char)
  key : List Char
  smart : Bool

/-- What the client asks of the coordinator. -/
inductive Request where
  | getUploadAttachmentResp (groupName key : List Char) (contentLength : Nat)
  | getAttachmentDownloadResp (groupName key : List Char)
  | getAttachment (groupName key : List Char)
  | deleteAttachment (groupName key : List Char) (admin : Bool)
  deriving DecidableEq

/-- The path that the client sets. -/
def Request.path : Request → List Char
  | getUploadAttachmentResp groupName _ _ =>
    "groups".toList ++ '/' :: (groupName ++ '/' :: "attachments".toList)
  | getAttachmentDownloadResp groupName key =>
    "groups".toList ++ '/' :: (groupName ++ '/' ::
      ("download".toList ++ '/' :: ("attachments".toList ++ '/' :: key)))
  | getAttachment groupName key | deleteAttachment groupName key false =>
    "groups".toList ++ '/' :: (groupName ++ '/' :: ("attachments".toList ++ '/' :: key))
  | deleteAttachment groupName key true =>
    "admin".toList ++ '/' :: ("groups".toList ++ '/' ::
      (groupName ++ '/' :: ("attachments".toList ++ '/' :: key)))

/-- A route of the coordinator for a group and a key, with the names before the group and between
the two. For the key `taken` there is a route without a key, which comes first. -/
structure Route where
  before : List (List Char)
  between : List (List Char)
  taken : Option (List Char)

namespace Route

/-- `/groups/{group_name}/attachments/{*key}`, where `query` is taken. -/
def attachments : Route := ⟨["groups".toList], ["attachments".toList], some "query".toList⟩

/-- `/groups/{group_name}/download/attachments/{*key}`, where `list` is taken. -/
def downloads : Route :=
  ⟨["groups".toList], ["download".toList, "attachments".toList], some "list".toList⟩

/-- `/admin/groups/{group_name}/attachments/{*key}` -/
def adminAttachments : Route := ⟨["admin".toList, "groups".toList], ["attachments".toList], none⟩

def path (route : Route) (groupName key : List Char) : List Char :=
  ['/'].intercalate (route.before ++ groupName :: route.between ++ [key])

/-- The group of a path, and the names behind it. Neither `{group_name}` nor `{*key}` is empty. -/
def split (route : Route) (names : List (List Char)) :
    Option (List Char × List (List Char)) := do
  match ← names.dropPrefix? route.before with
  | [] => none
  | groupName :: rest =>
    if groupName = [] then none else return (groupName, ← rest.dropPrefix? route.between)

/-- The group and the key that the handler gets. `decode` takes back the percent-encoding. -/
def read (decode : List Char → Option (List Char)) (route : Route) (names : List (List Char)) :
    Option (List Char × List Char) := do
  let (groupName, rest) ← route.split names
  let key := ['/'].intercalate rest
  if key = [] ∨ route.taken = some key then none else return (← decode groupName, ← decode key)

/-- The group that the handler of the uploads gets. -/
def readUpload (decode : List Char → Option (List Char)) (names : List (List Char)) :
    Option (List Char) := do
  let (groupName, rest) ← attachments.split names
  if rest = [] then decode groupName else none

end Route

/-- The group and the key that the handler of a request gets. The key of an upload is in its
body. -/
def Request.target (decode : List Char → Option (List Char)) (req : Request) :
    Option (List Char × List Char) :=
  let names := UrlPath.setPath req.path
  match req with
  | getUploadAttachmentResp _ key _ => (Route.readUpload decode names).map (·, key)
  | getAttachmentDownloadResp _ _ => Route.downloads.read decode names
  | getAttachment _ _ => Route.attachments.read decode names
  | deleteAttachment _ _ false => Route.attachments.read decode names
  | deleteAttachment _ _ true => Route.adminAttachments.read decode names

def groupKeyParser (username : List Char) (groupName : Option (List Char)) (key : List Char)
    (smart : Bool) : List Char × List Char :=
  match groupName with
  | some g => (key, g)
  | none =>
    if smart then
      match Lines.splitOnce '/' key with
      | some (g, key) => (key, g)
      | none => (key, username)
    else (key, username)

structure InnerDownloadAttachmentArgs where
  groupName : List Char
  key : List Char
  outputPath : List Char
  showPb : Bool

/-- `isDir` tells the directories of the local file system. -/
def parseDownloadAttachmentArgs (isDir : List Char → Bool) (username : List Char)
    (args : DownloadAttachmentArgs) : InnerDownloadAttachmentArgs :=
  let getFname (key : List Char) := (UnixPath.fileName key).getD key
  let parseKey (key : List Char) (smart : Bool) := if smart then getFname key else key
  let (key, groupName) := groupKeyParser username args.groupName args.key args.smart
  let outputPath := match args.outputPath with
    | some dir => if isDir dir then UnixPath.join dir (parseKey key args.smart) else dir
    | none => UnixPath.join [] (parseKey key args.smart)
  { groupName, key, outputPath, showPb := args.pb }

/-- The request of `download_attachment`, and where the file goes. -/
def downloadAttachment (isDir : List Char → Bool) (username : List Char)
    (args : DownloadAttachmentArgs) : Request × List Char :=
  let args := parseDownloadAttachmentArgs isDir username args
  (.getAttachmentDownloadResp args.groupName args.key, args.outputPath)

def getAttachmentDownloadUrl (isDir : List Char → Bool) (username : List Char)
    (args : DownloadAttachmentArgs) : Request :=
  let args := parseDownloadAttachmentArgs isDir username args
  .getAttachmentDownloadResp args.groupName args.key

def groupsAttachmentsGetMetadata (username : List Char) (args : GetAttachmentMetaArgs) : Request :=
  let (key, groupName) := groupKeyParser username args.groupName args.key args.smart
  .getAttachment groupName key

def groupsAttachmentsDelete (username : List Char) (args : DeleteAttachmentArgs) : Request :=
  let (key, groupName) := groupKeyParser username args.groupName args.key args.smart
  .deleteAttachment groupName key false

def adminGroupsAttachmentsDelete (username : List Char) (args : DeleteAttachmentArgs) : Request :=
  let (key, groupName) := groupKeyParser username args.groupName args.key args.smart
  .deleteAttachment groupName key true

inductive UploadError where
  | io
  | custom (msg : String)
  deriving DecidableEq

structure Metadata where
  isDir : Bool
  len : Nat

def getFname (localFile : List Char) : Except UploadError (List Char) :=
  match UnixPath.fileName localFile with
  | some fname => .ok fname
  | none => .error (.custom "Complete key is not provided or local file is invalid")

/-- The request of `upload_attachment`, with `clean` of the crate path-clean and the metadata of the
local files. -/
def uploadAttachment (clean : List Char → List Char)
    (metadata : List Char → Except UploadError Metadata) (username : List Char)
    (args : UploadAttachmentArgs) : Except UploadError Request := do
  let metadata ← metadata args.localFile
  if metadata.isDir then
    throw (.custom "Currently we do not support uploading a directory")
  let (key, groupName) : Option (List Char) × List Char :=
    match args.groupName with
    | some g => (args.key, g)
    | none =>
      match args.smart, args.key with
      | true, some k =>
        match Lines.splitOnce '/' k with
        | some (g, key) => (some key, g)
        | none => (none, k)
      | _, _ => (args.key, username)
  let key ← match key with
    | some k =>
      if k.getLast? = some '/' then (k ++ ·) <$> getFname args.localFile
      else if k = [] then getFname args.localFile
      else .ok k
    | none => getFname args.localFile
  return .getUploadAttachmentResp groupName (clean key) metadata.len

def commands (isDir : List Char → Bool) (username : List Char) (args : DownloadAttachmentArgs) :
    List Request :=
  [(downloadAttachment isDir username args).1, getAttachmentDownloadUrl isDir username args,
    groupsAttachmentsGetMetadata username ⟨args.groupName, args.key, args.smart⟩,
    groupsAttachmentsDelete username ⟨args.groupName, args.key, args.smart⟩,
    adminGroupsAttachmentsDelete username ⟨args.groupName, args.key, args.smart⟩]

/-- On every route the path of a group and a key leads to the key `stored` of the group that an
upload into `owner` gets. -/
def Leads (decode : List Char → Option (List Char)) (owner groupName key stored : List Char) :
    Prop :=
  ∃ g, Route.readUpload decode
      (UrlPath.setPath ("groups".toList ++ '/' :: (owner ++ '/' :: "attachments".toList))) =
        some g ∧
    ∀ route ∈ [Route.downloads, .attachments, .adminAttachments],
      route.read decode (UrlPath.setPath (route.path groupName key)) = some (g, stored)

/-- When the arguments name the attachment that they upload: the paths lead to the key as cleaning
leaves it, and a key without a group in it leads to the group and the name of the file. -/
def Named (decode : List Char → Option (List Char)) (clean : List Char → List Char)
    (username localFile : List Char) (groupName : Option (List Char)) (key : List Char)
    (smart : Bool) : Prop :=
  match groupName, smart, Lines.splitOnce '/' key with
  | none, true, some (g, rest) => Leads decode g g rest (clean rest)
  | none, true, none =>
    ∃ fname, UnixPath.fileName localFile = some fname ∧
      Leads decode key username key (clean fname)
  | none, false, _ => Leads decode username username key (clean key)
  | some g, _, _ => Leads decode g g key (clean key)

/-- The group and the key of the upload under these arguments. -/
def uploadArgs (clean : List Char → List Char) (username localFile : List Char)
    (groupName : Option (List Char)) (key : List Char) (smart : Bool) :
    Option (List Char × List Char) :=
  match groupName, smart, Lines.splitOnce '/' key with
  | none, true, some (g, rest) => some (g, clean rest)
  | none, true, none => (UnixPath.fileName localFile).map fun fname => (key, clean fname)
  | none, false, _ => some (username, clean key)
  | some g, _, _ => some (g, clean key)

section
variable {decode : List Char → Option (List Char)} {clean : List Char → List Char}
  {metadata : List Char → Except UploadError Metadata} {isDir : List Char → Bool}
  {username localFile key : List Char} {args : DownloadAttachmentArgs} {req : Request}

theorem Route.path_download {g k : List Char} :
    (Request.getAttachmentDownloadResp g k).path = Route.downloads.path g k := by
  simp only [Route.path, Route.downloads, List.cons_append, List.nil_append,
    List.intercalate_cons_cons, List.intercalate_singleton, List.append_assoc]
  rfl

theorem Route.path_attachment {g k : List Char} :
    (Request.getAttachment g k).path = Route.attachments.path g k := by
  simp only [Route.path, Route.attachments, List.cons_append, List.nil_append,
    List.intercalate_cons_cons, List.intercalate_singleton, List.append_assoc]
  rfl

theorem Route.path_admin {g k : List Char} :
    (Request.deleteAttachment g k true).path = Route.adminAttachments.path g k := by
  simp only [Route.path, Route.adminAttachments, List.cons_append, List.nil_append,
    List.intercalate_cons_cons, List.intercalate_singleton, List.append_assoc]
  rfl

theorem commands_alike {pair : List Char × List Char} :
    (∀ r ∈ commands isDir username args, r.target decode = some pair) ↔
      ∀ route ∈ [Route.downloads, .attachments, .adminAttachments],
        route.read decode (UrlPath.setPath (route.path
          (groupKeyParser username args.groupName args.key args.smart).2
          (groupKeyParser username args.groupName args.key args.smart).1)) = some pair := by
  simp only [commands, List.forall_mem_cons, List.not_mem_nil, false_implies, implies_true,
    and_true]
  constructor
  · rintro ⟨hdownload, -, hget, -, hadmin⟩
    refine ⟨?_, ?_, ?_⟩
    · rw [← Route.path_download]
      exact hdownload
    · rw [← Route.path_attachment]
      exact hget
    · rw [← Route.path_admin]
      exact hadmin
  · rintro ⟨hdownload, hget, hadmin⟩
    rw [← Route.path_download] at hdownload
    rw [← Route.path_attachment] at hget
    rw [← Route.path_admin] at hadmin
    exact ⟨hdownload, hdownload, hget, hget, hadmin⟩

theorem getFname_ok {fname : List Char} (h : getFname localFile = .ok fname) :
    UnixPath.fileName localFile = some fname := by
  unfold getFname at h
  split at h
  next hf =>
    cases h
    exact hf
  next => cases h

theorem splitOnce_complete {g rest : List Char} (hs : key.getLast? ≠ some '/')
    (h : Lines.splitOnce '/' key = some (g, rest)) :
    rest ≠ [] ∧ rest.getLast? ≠ some '/' := by
  obtain ⟨rfl, -⟩ := Lines.splitOnce_some.1 h
  constructor
  · rintro rfl
    exact hs (List.getLast?_concat)
  · intro hr
    have hne : rest ≠ [] := by
      rintro rfl
      cases hr
    apply hs
    rw [List.getLast?_append_cons, List.getLast?_cons_of_ne_nil hne, hr]

theorem uploadAttachment_args {groupName : Option (List Char)} {smart : Bool} (hk : key ≠ [])
    (hs : key.getLast? ≠ some '/')
    (h : uploadAttachment clean metadata username ⟨localFile, groupName, some key, smart⟩ =
      .ok req) :
    ∃ g k n, uploadArgs clean username localFile groupName key smart = some (g, k) ∧
      req = .getUploadAttachmentResp g k n := by
  unfold uploadAttachment at h
  unfold uploadArgs
  dsimp only at h
  cases hm : metadata localFile with
  | error e =>
    rw [hm] at h
    cases h
  | ok md =>
    simp only [hm, bind, Except.bind] at h
    cases hd : md.isDir with
    | true =>
      rw [hd] at h
      cases h
    | false =>
      simp only [hd, pure, Except.pure] at h
      rw [if_neg Bool.false_ne_true] at h
      cases groupName with
      | some g =>
        simp only [hk, hs, if_false] at h
        cases h
        exact ⟨_, _, _, rfl, rfl⟩
      | none =>
        cases smart with
        | false =>
          simp only [hk, hs, if_false] at h
          cases h
          exact ⟨_, _, _, rfl, rfl⟩
        | true =>
          cases hsplit : Lines.splitOnce '/' key with
          | none =>
            simp only [hsplit] at h
            cases hf : getFname localFile with
            | error e =>
              rw [hf] at h
              cases h
            | ok fname =>
              rw [hf] at h
              cases h
              rw [getFname_ok hf]
              exact ⟨_, _, _, rfl, rfl⟩
          | some parts =>
            obtain ⟨g, rest⟩ := parts
            obtain ⟨hr, hr'⟩ := splitOnce_complete hs hsplit
            simp only [hsplit, hr, hr', if_false] at h
            cases h
            exact ⟨_, _, _, rfl, rfl⟩

theorem Route.plain_groups : UrlPath.Plain "groups".toList := ⟨by decide +kernel, by simp⟩

theorem Route.plain_attachments : UrlPath.Plain "attachments".toList :=
  ⟨by decide +kernel, by simp⟩

theorem Route.plain {route : Route}
    (hr : route ∈ [Route.downloads, .attachments, .adminAttachments]) :
    (∀ n ∈ route.before, UrlPath.Plain n) ∧ ∀ n ∈ route.between, UrlPath.Plain n := by
  simp only [List.mem_cons, List.not_mem_nil, or_false] at hr
  have hdownload : UrlPath.Plain "download".toList := ⟨by decide +kernel, by simp⟩
  have hadmin : UrlPath.Plain "admin".toList := ⟨by decide +kernel, by simp⟩
  rcases hr with rfl | rfl | rfl
  · exact ⟨List.forall_mem_singleton.2 plain_groups,
      List.forall_mem_cons.2 ⟨hdownload, List.forall_mem_singleton.2 plain_attachments⟩⟩
  · exact ⟨List.forall_mem_singleton.2 plain_groups, List.forall_mem_singleton.2 plain_attachments⟩
  · exact ⟨List.forall_mem_cons.2 ⟨hadmin, List.forall_mem_singleton.2 plain_groups⟩,
      List.forall_mem_singleton.2 plain_attachments⟩

theorem Route.path_eq (route : Route) (g key : List Char) :
    route.path g key =
      ['/'].intercalate (route.before ++ g :: (route.between ++ key.splitOn '/')) := by
  have hkey : ['/'].intercalate (key.splitOn '/') = key := List.intercalate_splitOn '/'
  have hne : key.splitOn '/' ≠ [] := List.splitOn_ne_nil '/' key
  have hassoc : route.before ++ g :: (route.between ++ key.splitOn '/') =
      (route.before ++ g :: route.between) ++ key.splitOn '/' := by
    rw [List.append_assoc, List.cons_append]
  rw [hassoc, Lines.intercalate_append (by simp) hne, hkey, path,
    Lines.intercalate_append (by simp) (List.cons_ne_nil _ _), List.intercalate_singleton]

theorem Route.split_append {route : Route} {g : List Char} (hg : g ≠ [])
    (rest : List (List Char)) :
    route.split (route.before ++ g :: (route.between ++ rest)) = some (g, rest) := by
  unfold Route.split
  rw [List.dropPrefix?_append_of_beq _ (beq_self_eq_true _), Option.bind_eq_bind,
    Option.bind_some]
  dsimp only
  rw [if_neg hg, List.dropPrefix?_append_of_beq _ (beq_self_eq_true _)]
  rfl

/-- A plain key is found where it was uploaded, in a plain group. -/
theorem leads_plain {g : List Char} (hg : UrlPath.Plain g) (hne : g ≠ [])
    (hd : decode g = some g) (hk : ∀ piece ∈ key.splitOn '/', UrlPath.Plain piece)
    (hkey : key ≠ []) (hdk : decode key = some key)
    (htaken : key ∉ ["list".toList, "query".toList]) : Leads decode g g key key := by
  refine ⟨g, ?_, fun route hr => ?_⟩
  · have hpath : "groups".toList ++ '/' :: (g ++ '/' :: "attachments".toList) =
        ['/'].intercalate ["groups".toList, g, "attachments".toList] := by
      simp only [List.intercalate_cons_cons, List.intercalate_singleton, List.append_assoc]
      rfl
    have hplain : ∀ n ∈ ["groups".toList, g, "attachments".toList], UrlPath.Plain n := by
      simp only [List.forall_mem_cons]
      exact ⟨Route.plain_groups, hg, Route.plain_attachments, nofun⟩
    have hsplit := Route.attachments.split_append hne []
    rw [hpath, UrlPath.setPath_intercalate (List.cons_ne_nil _ _) hplain, Route.readUpload]
    simp only [Route.attachments, List.append_nil, List.singleton_append] at hsplit ⊢
    rw [hsplit]
    exact hd
  · have hplain : ∀ n ∈ route.before ++ g :: (route.between ++ key.splitOn '/'),
        UrlPath.Plain n := by
      obtain ⟨hbefore, hbetween⟩ := Route.plain hr
      intro n hn
      rw [List.mem_append, List.mem_cons, List.mem_append] at hn
      rcases hn with hn | rfl | hn | hn
      · exact hbefore n hn
      · exact hg
      · exact hbetween n hn
      · exact hk n hn
    have hnot : route.taken ≠ some key := by
      intro hm
      simp only [List.mem_cons, List.not_mem_nil, or_false] at hr
      rcases hr with rfl | rfl | rfl
      · exact htaken (Option.some.inj hm ▸ .head _)
      · exact htaken (Option.some.inj hm ▸ .tail _ (.head _))
      · cases hm
    rw [Route.path_eq, UrlPath.setPath_intercalate (by simp) hplain, Route.read,
      Route.split_append hne]
    simp only [Option.bind_eq_bind, Option.bind_some, List.intercalate_splitOn, hkey, hnot,
      false_or, if_false, hd, hdk]
    rfl

end

namespace NamesDemo

def metadata (_ : List Char) : Except UploadError Metadata := .ok ⟨false, 3⟩

def args : DownloadAttachmentArgs :=
  ⟨none, "lab/logs/out.txt".toList, none, false, true⟩

def request : Request := .getUploadAttachmentResp "lab".toList "logs/out.txt".toList 3

end NamesDemo

end Client
end Mitosis
