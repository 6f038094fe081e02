import Scissy.Access.Membership
import Scissy.Access.Session
import Scissy.Interaction.Mediation

/-!
# What a request may do

The rules of the service, as a monitor: for every operation of a request, what the request must ask
for and must have done before (`Job.Authorized`). What it has done are its own events (`Past`): the
answers it got and the worlds in which it got them. Between a check and the operation that relies on
it other threads may have changed the tables, so a rule says that the caller was admitted, not that
it still is.

## Three kinds of evidence

`Past.Saw` says that an operation met a world with some property, and `Past.Got` that it was
answered something. `Past.Knew` is the first one, or that the property holds of all tables: a
request that names something by its number has nothing to look up. A rule that needs evidence of
what a statement has done uses the answer to that statement.

## The rules as they are

The rules follow the handlers. Some are laxer than one would wish, and stand here as the code has
them: anybody may create a group or a repository, the list of repositories opens every one of them,
and the archive download compares the roles the other way round.
-/

open Interaction Interaction.Prog

namespace Scissy

open Repositories (getRepoPath)

/-! ## What a request has done -/

/-- The events of a request so far. -/
abbrev Past := List (Event Op World)

namespace Past

variable (past : Past)

/-- An operation of the request met a world that satisfies `P`. -/
def Saw (P : World → Prop) : Prop := ∃ event ∈ past, P event.before

/-- The tables satisfied `P` when the request looked, or they always do. -/
def Knew (P : Database → Prop) : Prop := (∀ db, P db) ∨ past.Saw fun w ↦ P w.db

/-- The request got this answer to this operation. -/
def Got {β : Type} (op : Op β) (answer : β) : Prop :=
  ∃ e w, (Interp.exec op e w).1 = answer ∧ Event.of op e w ∈ past

/-- As far as the request knows, the group it has inserted has this number. -/
def CreatedGroup (request : Pb.GroupCreate) (grpId : ℤ) : Prop :=
  past.Got (.write (.insertGroup (request.grp.getD []) request.desc)) .done ∧
    past.Saw fun w ↦ ∃ grp, (grpId, grp) ∈ w.db.groups.rows ∧ grp.name = request.grp.getD []

/-- The request has inserted the repository it asks for. -/
def InsertedRepo (request : Pb.RepoCreate) : Prop :=
  past.Got (.write (.insertRepo request.name request.desc request.isPublic)) .done

/-- As far as the request knows, the repository it has inserted has this number. -/
def CreatedRepo (request : Pb.RepoCreate) (repoId : ℤ) : Prop :=
  past.InsertedRepo request ∧ past.Got .lastInsertRowid repoId

/-- The caller was admitted to the group, which the request names. -/
def AdmittedToGroup (session : Session) (msg : Pb.GroupRef) (grpId : ℤ) : Prop :=
  past.Knew (·.NamesGroup msg grpId) ∧ past.Knew fun db ↦ (Gate.group grpId).Admits session db

/-- The caller was admitted to the repository, which the request names. -/
def AdmittedToRepo (session : Session) (msg : Pb.RepoRef) (repoId : ℤ) : Prop :=
  past.Knew (·.NamesRepo msg repoId) ∧ past.Saw fun w ↦ (Gate.repo repoId).Admits session w.db

/-- The request names the user. -/
def NamedUser (msg : Pb.UserRef) (userId : ℤ) : Prop := past.Knew (·.NamesUser msg userId)

/-- The request names the group. -/
def NamedGroup (msg : Pb.GroupRef) (grpId : ℤ) : Prop := past.Knew (·.NamesGroup msg grpId)

end Past

/-- The random generator fills the whole buffer. -/
theorem Past.Got.length_of_drawn {past : Past} {size : ℕ} {drawn : Bytes}
    (h : past.Got (.gnutlsRnd size) (some drawn)) : drawn.length = size := by
  obtain ⟨e, w, hanswer, -⟩ := h
  rw [exec_gnutlsRnd] at hanswer
  dsimp only at hanswer
  split_ifs at hanswer
  rw [← Option.some_inj.mp hanswer, List.length_map, List.length_range]

/-- The user of the login has a password of the supported type, and this is the one. -/
def Database.Verifies (db : Database) (d : Deployment) (request : Pb.UserAuth) : Prop :=
  ∃ id user, (id, user) ∈ db.users.rows ∧ user.login = request.user ∧
    user.passwordType = text "SHA3-512" ∧ d.base16Decode user.passwordHash =
      d.sha3_512 (d.base16Decode user.passwordSalt ++ request.password)

/-- The configured authenticator has accepted the login and the password. -/
def Past.Accepted (past : Past) (d : Deployment) (request : Pb.UserAuth) : Prop :=
  match d.authenticator with
  | .kAuthBuiltin => past.Saw fun w ↦ w.db.Verifies d request
  | .kAuthProcess => past.Got (.authProcess request.user request.password) (some 0)

/-- A request for registration that passes the checks. -/
structure Pb.UserCreate.Admissible (d : Deployment) (request : Pb.UserCreate) : Prop where
  enabled : d.isRegisterEnabled = true
  login_length : request.user.length ≤ 64
  password : Service.userCheckPassword d request.password = none
  login : Service.loginMatch request.user = true
  email : Service.emailMatch request.email = true

/-! ## The rules -/

/-- What a call may write without a session. -/
def Write.Open (d : Deployment) (past : Past) : Rpc → Write → Prop
  | .userCreate request, insertUser login email type salt hash =>
    request.Admissible d ∧ ∃ drawn, past.Got (.gnutlsRnd 16) (some drawn) ∧
      (login, email, type, salt, hash) = (request.user, request.email, text "SHA3-512",
        d.base16Encode drawn, d.base16Encode (d.sha3_512 (drawn ++ request.password)))
  | .userAuth request, insertUserAuth userId token _ =>
    past.Accepted d request ∧ ∃ id drawn, past.Got (.gnutlsRnd 32) (some drawn) ∧
      past.Saw (fun w ↦ ∃ user, (id, user) ∈ w.db.users.rows ∧ user.login = request.user) ∧
      (userId, token) = (Service.castInt id, d.base16Encode drawn)
  | _, _ => False

/-- What a call may write for a session. -/
def Write.Permitted (session : Session) (past : Past) : Rpc → Write → Prop
  | .userAddSshKey request, insertUserSshKey userId keyType key desc =>
    (userId, keyType, key, desc) =
      (session.userId, request.key.type.toInt, request.key.key, request.key.desc.getD [])
  | .userRemoveSshKey request, deleteUserSshKey userId keyId =>
    userId = session.userId ∧ keyId = request.key.keyId.getD 0
  -- the parts of creating a group
  | .groupCreate request, insertGroup name desc =>
    (name, desc) = (request.grp.getD [], request.desc)
  | .groupCreate request, insertGroupUser grpId userId role =>
    past.CreatedGroup request grpId ∧ (userId, role) = (session.userId, Pb.Role.kOwner.toInt)
  | .groupCreate request, deleteGroup grpId => past.CreatedGroup request grpId
  | .groupDelete request, deleteGroup grpId =>
    past.AdmittedToGroup session request.toGroupRef grpId
  | .groupAddUser request, insertGroupUser grpId userId role =>
    past.AdmittedToGroup session request.toGroupRef grpId ∧
      past.NamedUser request.toUserRef userId ∧ role = request.role.toInt
  | .groupRemoveUser request, deleteGroupUser grpId userId =>
    past.AdmittedToGroup session request.toGroupRef grpId ∧
      past.NamedUser request.toUserRef userId
  -- the parts of creating a repository
  | .repoCreate request, insertRepo name desc isPublic =>
    (name, desc, isPublic) = (request.name, request.desc, request.isPublic)
  | .repoCreate request, insertRepoUser repoId userId role =>
    past.CreatedRepo request repoId ∧ (userId, role) = (session.userId, Pb.Role.kOwner.toInt)
  | .repoCreate request, deleteRepoByName name => past.InsertedRepo request ∧ name = request.name
  | .repoUpdate request, updateRepo name desc isPublic repoId =>
    past.AdmittedToRepo session request.toRepoRef repoId ∧
      (name, desc, isPublic) = (request.name, request.desc, request.isPublic)
  | .repoDelete request, deleteRepo repoId =>
    past.AdmittedToRepo session request.toRepoRef repoId
  | .repoAddUser request, insertRepoUser repoId userId role =>
    past.AdmittedToRepo session request.toRepoRef repoId ∧
      past.NamedUser request.toUserRef userId ∧ role = request.role.toInt
  | .repoRemoveUser request, deleteRepoUser repoId userId =>
    past.AdmittedToRepo session request.toRepoRef repoId ∧
      past.NamedUser request.toUserRef userId
  | .repoAddGroup request, insertRepoGroup repoId grpId role =>
    past.AdmittedToRepo session request.toRepoRef repoId ∧
      past.NamedGroup request.toGroupRef grpId ∧ role = request.role.toInt
  | .repoRemoveGroup request, deleteRepoGroup repoId grpId =>
    past.AdmittedToRepo session request.toRepoRef repoId ∧
      past.NamedGroup request.toGroupRef grpId
  | _, _ => False

/-- The repository a view shows. -/
def Rpc.shown : Rpc → Option Pb.RepoRef
  | repoGetInfo request | repoListMembers request | repoListBranches request
  | repoGetTags request => some request.toRepoRef
  | repoGetCommit request => some request.toRepoRef
  | repoGetLog request => some request.toRepoRef
  | repoGetTree request => some request.toRepoRef
  | repoGetBlob request => some request.toRepoRef
  | repoGetPatch request => some request.toRepoRef
  | _ => none

/-- The repository was public, or the caller was a reader. -/
def Past.Readable (past : Past) (thread : Option Session) (repoId : ℤ) : Prop :=
  past.Saw (·.db.isPublic? repoId = some true) ∨
    ∃ session, thread = some session ∧
      past.Saw fun w ↦ .kReader ≤ w.db.reportedRole repoId session.userId

/-- The statement shows how the password of a user is stored. -/
def Query.readsPassword : {β : Type} → Query β → Bool
  | _, builtinAuth _ => true
  | _, _ => false

namespace Op

/-- The operations that need no permission. -/
def free : {β : Type} → Op β → Bool
  | _, query q => !q.readsPassword
  | _, lastInsertRowid | _, gnutlsRnd _ | _, time | _, startTime => true
  | _, _ => false

theorem free_query {β : Type} {q : Query β} (hq : q.readsPassword = false) :
    (query q).free = true := by
  rw [free, hq]
  rfl

/-- What a call from a thread with this session may do. -/
def Authorized (d : Deployment) (thread : Option Session) (past : Past) (rpc : Rpc) :
    {β : Type} → Op β → Prop
  | _, query (.builtinAuth login) =>
    ∃ request, rpc = .userAuth request ∧ login = request.user
  | _, write s =>
    s.Open d past rpc ∨ ∃ session, thread = some session ∧ s.Permitted session past rpc
  | _, authProcess username password =>
    ∃ request, rpc = .userAuth request ∧ (username, password) = (request.user, request.password)
  | _, gitRepositoryInit path => ∃ request repoId, rpc = .repoCreate request ∧
    past.CreatedRepo request repoId ∧ path = getRepoPath d repoId
  | _, rm path => ∃ session request repoId, thread = some session ∧ rpc = .repoDelete request ∧
    past.AdmittedToRepo session request.toRepoRef repoId ∧ path = getRepoPath d repoId
  | _, gitOpen path => ∃ repoId, path = getRepoPath d repoId ∧
    (rpc = .reposList ∧ past.Saw (repoId ∈ ·.db.repos.ids) ∨
      ∃ msg, rpc.shown = some msg ∧ past.Knew (·.NamesRepo msg repoId) ∧
        past.Readable thread repoId)
  | _, openAuthKeys | _, writeAuthKeys _ _ =>
    (∃ request, rpc = .userAddSshKey request) ∨ ∃ request, rpc = .userRemoveSshKey request
  | _, _ => True

/-- What the logout page may do. -/
def LogsOut (session : Session) : {β : Type} → Op β → Prop
  | _, write s => s = .deleteUserAuth session.userId session.token
  | _, _ => False

/-- What the archive download may do. -/
def Downloads (d : Deployment) (session : Session) (past : Past) (location : ArchiveLocation) :
    {β : Type} → Op β → Prop
  | _, gitOpen path => path = getRepoPath d location.repoId ∧
    (past.Saw (·.db.isPublic? location.repoId = some true) ∨ 1 ≤ session.userId ∧
      past.Saw fun w ↦ w.db.reportedRole location.repoId session.userId ≤ .kNone)
  | _, _ => False

end Op

/-! ## What the server serves -/

/-- What a thread of the server works on. -/
inductive Job
  | http (request : HttpRequest)
  | socket (rpc : Rpc)

namespace Job

/-- What the thread runs. -/
def program (d : Deployment) : Job → Server HttpResponse
  | http request => serve d request
  | socket rpc => serveSocket d rpc

/-- The request was identified by its cookies. -/
def Identified (past : Past) (request : HttpRequest) (session : Session) : Prop :=
  past.Knew fun db ↦ db.session request.cookies request.isSsl = session

/-- **The rules of the service.** -/
def Authorized (d : Deployment) (past : Past) {β : Type} (op : Op β) : Job → Prop
  | http request => op.free = true ∨ ∃ session, Identified past request session ∧
    match request.target with
    | .api rpc => op.Authorized d (some session) past rpc
    | .logout => op.LogsOut session
    | .archive location => ∃ l, location = some l ∧ op.Downloads d session past l
  | socket rpc => op.Authorized d none past rpc

end Job

/-- The server with a job for every thread. -/
def System.serving (d : Deployment) (jobs : ℕ → Job) (w : World) : System where
  threads i := (jobs i).program d
  world := w

/-- The status a program has ended with. -/
def endStatus : Server HttpResponse → Option Pb.Status
  | .done (.api reply) => reply.outcome.status
  | _ => none

theorem exists_reply_of_endStatus {p : Server HttpResponse} {status : Pb.Status}
    (h : endStatus p = some status) :
    ∃ reply, p = .done (.api reply) ∧ reply.outcome.status = some status := by
  cases p with
  | done response =>
    cases response with
    | api reply => exact ⟨reply, rfl, h⟩
    | logout | archive => cases h
  | call op next => cases h

/-! ## Requests of two users -/

namespace HttpRequest

/-- A call with the cookies of one of the two users. -/
def ofUser (login : Bytes) (rpc : Rpc) : HttpRequest where
  cookies := { user := some login, token := some (text "t") }
  target := .api rpc

def addsKey : HttpRequest :=
  ofUser (text "u") (.userAddSshKey { key := { type := .kSshKeyRsa, key := text "AAAA" } })

def createsRepo : HttpRequest :=
  ofUser (text "u") (.repoCreate { name := text "r", desc := [], isPublic := false })

/-- Somebody registers. -/
def registers : HttpRequest where
  cookies := {}
  target := .api (.userCreate { user := text "w", password := text "secret", email := text "w@h" })

end HttpRequest

/-- The first threads have a request, and the others a logout without cookies. -/
def Job.first (requests : List HttpRequest) (k : ℕ) : Job :=
  .http (requests.getD k { cookies := {}, target := .logout })

end Scissy
