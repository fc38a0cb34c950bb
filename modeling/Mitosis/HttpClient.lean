import Mitosis.Entity

namespace Mitosis
set_option autoImplicit true

namespace HttpClient

/-- The address of the coordinator, up to the path, and the rest of a URL. -/
structure Url where
  origin : String
  path : String
  query : Option String
  deriving DecidableEq

inductive Verb where
  | get | post | put | delete
  deriving DecidableEq

/-- A request to the URL of the client, or to one that the method was given. -/
inductive Request where
  | coordinator (verb : Verb) (url : Url)
  | external (verb : Verb) (url : String)
  deriving DecidableEq

/-- How a method makes its request: the path that it sets, the query if it sets one, and the
parameters if it hands some to the request builder. -/
structure Call where
  verb : Verb
  path : String
  query : Option String
  params : Option (List (String × String))

def get (path : String) : Call := ⟨.get, path, none, none⟩

def post (path : String) : Call := ⟨.post, path, none, none⟩

def put (path : String) : Call := ⟨.put, path, none, none⟩

def delete (path : String) : Call := ⟨.delete, path, none, none⟩

/-- `set_query(Some("op=force"))`, if the stop is forced. -/
def Call.op (call : Call) (force : Bool) : Call :=
  if force then { call with query := some "op=force" } else call

def Call.list (call : Call) (key : String) (names : List String) : Call :=
  { call with params := some (names.map (key, ·)) }

def contentSerdeStr : ArtifactContentType → String
  | .result => "result"
  | .execLog => "exec-log"
  | .stdLog => "std-log"

/-- The methods of `MitoHttpClient` that send requests, with the arguments that are part of the
URL. Of `connect` it depends on the stored credential and on the answers which requests it sends. -/
inductive Method where
  | connect (auth login : Bool)
  | getRedisConnectionInfo
  | userAuth
  | userLogin
  | adminChangePassword (username : String)
  | userChangePassword (username : String)
  | adminCreateUser
  | adminDeleteUser (username : String)
  | adminCancelWorkerByUuid (uuid : Uuid) (force : Bool)
  | userCreateGroup
  | getTaskByUuid (uuid : Uuid)
  | getArtifactDownloadResp (uuid : Uuid) (contentType : ArtifactContentType)
  | getAttachmentDownloadResp (groupName key : String)
  | downloadFile (url : String)
  | concurrentDownloadFiles (urls : List String)
  | batchDownloadArtifactsByFilter
  | batchDownloadArtifactsByList
  | batchDownloadAttachmentsByFilter (groupName : String)
  | batchDownloadAttachmentsByList (groupName : String)
  | deleteArtifact (uuid : Uuid) (contentType : ArtifactContentType) (admin : Bool)
  | deleteAttachment (groupName key : String) (admin : Bool)
  | getAttachment (groupName key : String)
  | adminUpdateUserGroupQuota (username : String)
  | adminUpdateGroupStorageQuota (groupName : String)
  | queryTasksByFilter
  | queryAttachmentsByFilter (groupName : String)
  | getWorkerByUuid (uuid : Uuid)
  | queryWorkersByFilter
  | getGroupByName (groupName : String)
  | getUserGroupsRoles
  | userSubmitTask
  | uploadFile (url : String)
  | getUploadArtifactResp (uuid : Uuid)
  | getUploadAttachmentResp (groupName : String)
  | cancelWorkerByUuid (uuid : Uuid) (force : Bool)
  | shutdownWorkersByFilter
  | shutdownWorkersByUuids
  | replaceWorkerTags (uuid : Uuid)
  | replaceWorkerLabels (uuid : Uuid)
  | updateGroupWorkerRoles (uuid : Uuid)
  | removeGroupWorkerRoles (uuid : Uuid) (groups : List String)
  | cancelTaskByUuid (uuid : Uuid)
  | cancelTasksByFilter
  | cancelTasksByUuids
  | updateTaskLabels (uuid : Uuid)
  | changeTask (uuid : Uuid)
  | updateUserGroupRoles (groupName : String)
  | removeUserGroupRoles (groupName : String) (users : List String)
  | batchDeleteArtifactsByFilter
  | batchDeleteArtifactsByList
  | batchDeleteAttachmentsByFilter (groupName : String)
  | batchDeleteAttachmentsByList (groupName : String)
  | batchSubmitTasks
  | adminShutdownCoordinator

/-- What a method does with the URL of the client: it changes it and sends it, sends changed
copies of it, or sends other URLs. -/
inductive Plan where
  | send (call : Call)
  | copies (calls : List Call)
  | external (verb : Verb) (urls : List String)

def Method.plan : Method → Plan
  | connect auth login =>
    .copies ((if auth then [get "auth"] else []) ++ if login then [post "login"] else [])
  | getRedisConnectionInfo => .send (get "redis")
  | userAuth => .send (get "auth")
  | userLogin => .send (post "login")
  | adminChangePassword username => .send (post s!"admin/users/{username}/password")
  | userChangePassword username => .send (post s!"users/{username}/password")
  | adminCreateUser => .send (post "admin/users")
  | adminDeleteUser username => .send (delete s!"admin/users/{username}")
  | adminCancelWorkerByUuid uuid force => .send ((delete s!"admin/workers/{uuid}").op force)
  | userCreateGroup => .send (post "groups")
  | getTaskByUuid uuid => .send (get s!"tasks/{uuid}")
  | getArtifactDownloadResp uuid contentType =>
    .send (get s!"tasks/{uuid}/download/artifacts/{contentSerdeStr contentType}")
  | getAttachmentDownloadResp groupName key =>
    .send (get s!"groups/{groupName}/download/attachments/{key}")
  | downloadFile url => .external .get [url]
  | concurrentDownloadFiles urls => .external .get urls
  | batchDownloadArtifactsByFilter => .send (post "tasks/download/artifacts")
  | batchDownloadArtifactsByList => .send (post "tasks/download/artifacts/list")
  | batchDownloadAttachmentsByFilter groupName =>
    .send (post s!"groups/{groupName}/download/attachments")
  | batchDownloadAttachmentsByList groupName =>
    .send (post s!"groups/{groupName}/download/attachments/list")
  | deleteArtifact uuid contentType admin =>
    if admin then
      .send (delete s!"admin/tasks/{uuid}/artifacts/{contentSerdeStr contentType}")
    else .send (delete s!"tasks/{uuid}/artifacts/{contentSerdeStr contentType}")
  | deleteAttachment groupName key admin =>
    if admin then .send (delete s!"admin/groups/{groupName}/attachments/{key}")
    else .send (delete s!"groups/{groupName}/attachments/{key}")
  | getAttachment groupName key => .send (get s!"groups/{groupName}/attachments/{key}")
  | adminUpdateUserGroupQuota username => .send (post s!"admin/users/{username}/group-quota")
  | adminUpdateGroupStorageQuota groupName =>
    .send (post s!"admin/groups/{groupName}/storage-quota")
  | queryTasksByFilter => .send (post "tasks/query")
  | queryAttachmentsByFilter groupName => .send (post s!"groups/{groupName}/attachments/query")
  | getWorkerByUuid uuid => .send (get s!"workers/{uuid}")
  | queryWorkersByFilter => .send (post "workers/query")
  | getGroupByName groupName => .send (get s!"groups/{groupName}")
  | getUserGroupsRoles => .send (get "users/groups")
  | userSubmitTask => .send (post "tasks")
  | uploadFile url => .external .put [url]
  | getUploadArtifactResp uuid => .send (post s!"tasks/{uuid}/artifacts")
  | getUploadAttachmentResp groupName => .send (post s!"groups/{groupName}/attachments")
  | cancelWorkerByUuid uuid force => .send ((delete s!"workers/{uuid}").op force)
  | shutdownWorkersByFilter => .send (post "workers/shutdown")
  | shutdownWorkersByUuids => .send (post "workers/shutdown/list")
  | replaceWorkerTags uuid => .send (put s!"workers/{uuid}/tags")
  | replaceWorkerLabels uuid => .send (put s!"workers/{uuid}/labels")
  | updateGroupWorkerRoles uuid => .send (put s!"workers/{uuid}/groups")
  | removeGroupWorkerRoles uuid groups =>
    .send ((delete s!"workers/{uuid}/groups").list "groups" groups)
  | cancelTaskByUuid uuid => .send (delete s!"tasks/{uuid}")
  | cancelTasksByFilter => .send (post "tasks/cancel")
  | cancelTasksByUuids => .send (post "tasks/cancel/list")
  | updateTaskLabels uuid => .send (put s!"tasks/{uuid}/labels")
  | changeTask uuid => .send (put s!"tasks/{uuid}")
  | updateUserGroupRoles groupName => .send (put s!"groups/{groupName}/users")
  | removeUserGroupRoles groupName users =>
    .send ((delete s!"groups/{groupName}/users").list "users" users)
  | batchDeleteArtifactsByFilter => .send (post "tasks/delete/artifacts")
  | batchDeleteArtifactsByList => .send (post "tasks/delete/artifacts/list")
  | batchDeleteAttachmentsByFilter groupName =>
    .send (post s!"groups/{groupName}/delete/attachments")
  | batchDeleteAttachmentsByList groupName =>
    .send (post s!"groups/{groupName}/delete/attachments/list")
  | batchSubmitTasks => .send (post "tasks/submit")
  | adminShutdownCoordinator => .send (post "admin/shutdown")

/-- The path that `Url::set_path` makes of its argument, and the query that a list of parameters
is written as. -/
structure Encoding where
  path : String → String
  params : List (String × String) → String

/-- The query behind `.query(&params)`. One that stays empty is dropped. -/
def appendParams (encoding : Encoding) (query : Option String) (params : List (String × String)) :
    Option String :=
  let query := query.filter (· ≠ "")
  if params.isEmpty then query
  else some (query.elim (encoding.params params) fun q => q ++ "&" ++ encoding.params params)

structure Client where
  url : Url
  deriving DecidableEq

namespace Client
variable (encoding : Encoding)

def new (coordinatorAddr : Url) : Client := ⟨{ coordinatorAddr with path := encoding.path "/" }⟩

def set (client : Client) (call : Call) : Client :=
  ⟨{ client.url with path := encoding.path call.path, query := call.query.or client.url.query }⟩

def request (client : Client) (call : Call) : Request :=
  .coordinator call.verb { client.url with
    query := call.params.elim client.url.query (appendParams encoding client.url.query) }

def requests (client : Client) (method : Method) : List Request :=
  match method.plan with
  | .send call => [(client.set encoding call).request encoding call]
  | .copies calls => calls.map fun call => (client.set encoding call).request encoding call
  | .external verb urls => urls.map (.external verb)

/-- The client behind a method, whether its requests succeed or not. -/
def after (client : Client) (method : Method) : Client :=
  match method.plan with
  | .send call => client.set encoding call
  | .copies _ => client
  | .external _ _ => client

def afterAll (client : Client) (methods : List Method) : Client :=
  methods.foldl (after encoding) client

end Client

def Method.forces (method : Method) : Bool :=
  match method.plan with
  | .send call => call.query.isSome
  | _ => false

/-- The method sends the URL of the client, with the query that it finds there. -/
def Method.inherits (method : Method) : Bool :=
  match method.plan with
  | .send call => call.query.isNone
  | .copies calls => !calls.isEmpty
  | .external _ _ => false

theorem Method.query_of_plan {method : Method} (h : method.plan = .send call)
    (hq : call.query = some q) : q = "op=force" := by
  have hop : ∀ (call : Call) force, call.query = none → (call.op force).query = some q →
      q = "op=force" := by
    intro call force hn hs
    cases force with
    | false => cases hn.symm.trans hs
    | true => exact (Option.some.inj hs).symm
  cases method with
  | adminCancelWorkerByUuid | cancelWorkerByUuid =>
    obtain ⟨⟩ := h
    exact hop _ _ rfl hq
  | connect | downloadFile | concurrentDownloadFiles | uploadFile => cases h
  | deleteArtifact _ _ admin | deleteAttachment _ _ admin =>
    cases admin <;> obtain ⟨⟩ := h <;> cases hq
  | _ =>
    obtain ⟨⟩ := h
    cases hq

/-- The requests of `connect` have no query of their own, nor parameters. -/
theorem Method.copies_plain {method : Method} (h : method.plan = .copies calls) :
    ∀ call ∈ calls, call.query = none ∧ call.params = none := by
  cases method with
  | connect auth login =>
    obtain ⟨⟩ := h
    intro call hc
    rcases List.mem_append.1 hc with hc | hc
    · cases auth with
      | false => cases hc
      | true =>
        obtain rfl := List.mem_singleton.1 hc
        exact ⟨rfl, rfl⟩
    · cases login with
      | false => cases hc
      | true =>
        obtain rfl := List.mem_singleton.1 hc
        exact ⟨rfl, rfl⟩
  | deleteArtifact _ _ admin | deleteAttachment _ _ admin => cases admin <;> cases h
  | _ => cases h

namespace Client
variable {encoding : Encoding}

theorem after_query (client : Client) (method : Method) :
    (client.after encoding method).url.query =
      if method.forces then some "op=force" else client.url.query := by
  unfold after Method.forces
  cases hp : method.plan with
  | send call =>
    cases hq : call.query with
    | none => simp only [set, hq, Option.none_or, Option.isSome_none, Bool.false_eq_true, if_false]
    | some q =>
      obtain rfl := Method.query_of_plan hp hq
      simp only [set, hq, Option.some_or, Option.isSome_some, if_true]
  | copies => rfl
  | external => rfl

theorem after_origin (client : Client) (method : Method) :
    (client.after encoding method).url.origin = client.url.origin := by
  unfold after
  cases method.plan <;> rfl

theorem afterAll_origin (encoding : Encoding) (client : Client) (methods : List Method) :
    (client.afterAll encoding methods).url.origin = client.url.origin := by
  induction methods generalizing client with
  | nil => rfl
  | cons method methods ih => exact (ih _).trans (client.after_origin method)

theorem afterAll_query (encoding : Encoding) (client : Client) (methods : List Method) :
    (client.afterAll encoding methods).url.query =
      if methods.any Method.forces then some "op=force" else client.url.query := by
  induction methods generalizing client with
  | nil => rfl
  | cons method methods ih =>
    refine (ih _).trans ?_
    rw [after_query, List.any_cons]
    cases method.forces with
    | false => rfl
    | true =>
      rw [Bool.true_or, if_pos rfl]
      exact ite_self _

theorem appendParams_force (h : appendParams encoding (some "op=force") params =
    appendParams encoding query params) : query = some "op=force" := by
  have hforce : (some "op=force").filter (fun q : String => decide (q ≠ "")) = some "op=force" := rfl
  unfold appendParams at h
  rw [hforce] at h
  dsimp only at h
  cases hp : params.isEmpty with
  | true =>
    rw [hp, if_pos rfl, if_pos rfl] at h
    exact (Option.filter_eq_some_iff.1 h.symm).1
  | false =>
    rw [hp, if_neg Bool.false_ne_true, if_neg Bool.false_ne_true] at h
    have hstr := Option.some.inj h
    cases hq : query.filter (fun q : String => decide (q ≠ "")) with
    | none =>
      rw [hq] at hstr
      have hlen := congrArg String.length hstr
      simp only [Option.elim_some, Option.elim_none, String.length_append] at hlen
      have hforce : "op=force".length = 8 := rfl
      omega
    | some q =>
      rw [hq] at hstr
      have hlist := congrArg String.toList hstr
      simp only [Option.elim_some, String.toList_append, List.append_left_inj] at hlist
      rw [String.toList_inj.1 hlist]
      exact (Option.filter_eq_some_iff.1 hq).1

theorem request_set_eq {client client' : Client} (ho : client.url.origin = client'.url.origin)
    (hq : client.url.query = client'.url.query) (call : Call) :
    (client.set encoding call).request encoding call =
      (client'.set encoding call).request encoding call := by
  simp only [set, request, ho, hq]

theorem requests_congr {client client' : Client} (ho : client.url.origin = client'.url.origin)
    (hq : client.url.query = client'.url.query) (method : Method) :
    client.requests encoding method = client'.requests encoding method := by
  unfold requests
  cases method.plan with
  | send call => exact congrArg (fun r => [r]) (request_set_eq ho hq call)
  | copies calls =>
    apply List.map_congr_left
    intro call _
    exact request_set_eq ho hq call
  | external => rfl

theorem query_of_request_eq {client client' : Client} {call : Call} (hc : call.query = none)
    (hf : client.url.query = some "op=force")
    (h : (client.set encoding call).request encoding call =
      (client'.set encoding call).request encoding call) :
    client'.url.query = some "op=force" := by
  simp only [set, request, hc, Option.none_or, hf, Request.coordinator.injEq, Url.mk.injEq,
    true_and] at h
  cases hp : call.params with
  | none =>
    rw [hp] at h
    exact h.2.symm
  | some params =>
    rw [hp] at h
    exact appendParams_force h.2

theorem requests_eq_iff {client client' : Client} (ho : client.url.origin = client'.url.origin)
    (hf : client.url.query = some "op=force") (method : Method) :
    client.requests encoding method = client'.requests encoding method ↔
      method.inherits = false ∨ client'.url.query = some "op=force" := by
  constructor
  · intro h
    unfold requests at h
    unfold Method.inherits
    cases hp : method.plan with
    | send call =>
      rw [hp] at h
      cases hq : call.query with
      | some q =>
        left
        dsimp only
        rw [hq, Option.isNone_some]
      | none => exact .inr (query_of_request_eq hq hf (List.cons.inj h).1)
    | copies calls =>
      rw [hp] at h
      cases calls with
      | nil => exact .inl rfl
      | cons call calls =>
        obtain ⟨hq, -⟩ := Method.copies_plain hp call (.head _)
        exact .inr (query_of_request_eq hq hf (List.cons.inj h).1)
    | external => exact .inl rfl
  · rintro (h | h)
    · unfold Method.inherits at h
      unfold requests
      cases hp : method.plan with
      | send call =>
        rw [hp] at h
        cases hq : call.query with
        | none =>
          simp only [hq, Option.isNone_none] at h
          cases h
        | some q => simp only [set, request, hq, Option.some_or, ho]
      | copies calls =>
        rw [hp] at h
        cases calls with
        | nil => rfl
        | cons call calls => cases h
      | external => rfl
    · exact requests_congr ho (hf.trans h.symm) method

end Client

theorem requests_alike_iff (encoding : Encoding) (addr : Url) (methods : List Method)
    (method : Method) :
    ((Client.new encoding addr).afterAll encoding methods).requests encoding method =
        (Client.new encoding addr).requests encoding method ↔
      method.inherits = false ∨ methods.any Method.forces = false ∨
        addr.query = some "op=force" := by
  have hquery := (Client.new encoding addr).afterAll_query encoding methods
  have horigin := (Client.new encoding addr).afterAll_origin encoding methods
  cases hany : methods.any Method.forces with
  | true =>
    rw [hany, if_pos rfl] at hquery
    rw [Client.requests_eq_iff horigin hquery]
    simp only [Bool.true_eq_false, false_or]
    rfl
  | false =>
    rw [hany] at hquery
    simp only [true_or, or_true, iff_true]
    exact Client.requests_congr horigin hquery method

/-- The stop of a worker that lets it finish its tasks. -/
def Method.graceful : Method → Bool
  | cancelWorkerByUuid _ force => !force
  | _ => false

/-- One of the parameters of the query is `op=force`. -/
def forced (query : Option String) : Bool :=
  query.any fun q => "op=force".toList ∈ q.toList.splitOn '&'

def Request.forced : Request → Bool
  | coordinator _ url => HttpClient.forced url.query
  | external _ _ => false

/-- A method on a client behind other methods sends the requests of a new client, and a graceful
stop does not send `op=force`. -/
def Independent (encoding : Encoding) (addr : Url) (methods : List Method) (method : Method) :
    Prop :=
  let client := (Client.new encoding addr).afterAll encoding methods
  client.requests encoding method = (Client.new encoding addr).requests encoding method ∧
    (method.graceful = true → ∀ r ∈ client.requests encoding method, r.forced = false)

theorem Method.graceful_inherits {method : Method} (h : method.graceful = true) :
    method.inherits = true := by
  cases method with
  | cancelWorkerByUuid uuid force =>
    cases force with
    | false => rfl
    | true => cases h
  | _ => cases h

theorem Client.graceful_forced {encoding : Encoding} (client : Client) {method : Method}
    (h : method.graceful = true) :
    (∀ r ∈ client.requests encoding method, r.forced = false) ↔
      forced client.url.query = false := by
  cases method with
  | cancelWorkerByUuid uuid force =>
    cases force with
    | false => exact List.forall_mem_singleton
    | true => cases h
  | _ => cases h

/-- The requests of a method do not depend on the calls before it, unless it sends the query that
an earlier method has set or, as a graceful stop, an `op=force` in the address. -/
theorem requests_independent_iff (encoding : Encoding) (addr : Url) (methods : List Method)
    (method : Method) :
    Independent encoding addr methods method ↔
      method.inherits = false ∨
        (methods.any Method.forces = false ∨ addr.query = some "op=force") ∧
          (method.graceful = true → forced addr.query = false) := by
  have hindep := requests_alike_iff encoding addr methods method
  constructor
  · rintro ⟨heq, hgrace⟩
    rcases hindep.1 heq with hi | hq
    · exact .inl hi
    · refine .inr ⟨hq, fun hg => ?_⟩
      rw [heq] at hgrace
      exact (Client.graceful_forced _ hg).1 (hgrace hg)
  · rintro (hi | ⟨hq, hgrace⟩)
    · refine ⟨hindep.2 (.inl hi), fun hg => ?_⟩
      cases hi.symm.trans (Method.graceful_inherits hg)
    · have heq := hindep.2 (.inr hq)
      refine ⟨heq, fun hg => ?_⟩
      rw [heq]
      exact (Client.graceful_forced _ hg).2 (hgrace hg)

/-- A graceful stop behind a forced one is sent as a forced one. -/
theorem graceful_after_forced : let encoding : Encoding := ⟨fun path => "/" ++ path, fun _ => ""⟩
    let client := Client.new encoding ⟨"http://localhost", "", none⟩
    client.requests encoding (.cancelWorkerByUuid 2 false) =
        [.coordinator .delete ⟨"http://localhost", "/workers/2", none⟩] ∧
      (client.afterAll encoding [.cancelWorkerByUuid 1 true]).requests encoding
        (.cancelWorkerByUuid 2 false) =
          [.coordinator .delete ⟨"http://localhost", "/workers/2", some "op=force"⟩] := by
  decide

end HttpClient
end Mitosis
