import Scissy.Interaction.Pool
import Scissy.Server.View

/-!
# The server

What `main` registers: the service under `/api/`, the logout page and the archive download, each
serving one HTTP request, and the service again on the unix socket, where there is no session.
`dispatch` runs the handler of an `Rpc`; `serve` runs a whole HTTP request.

## The system

`System` is the server with its threads, all of which use one database connection. `System.Step` is
everything that can happen to it: a thread takes a request, a thread performs its next operation,
the server is started again, somebody pushes into a repository, or the administrator runs
`scissy-set-admin`. Reachable worlds satisfy the schema (`Reachable.valid`).

`serveAll` serves a sequence of requests, one after the other.

## What arrives

A request arrives with its target taken apart: a call with its message, the logout page, or a
location below the archives, as bytes. The decoding of a message and the routing of a path are done
by mimosa, which is not a part of the repository. Of the headers only the cookies are kept, and
whether the connection is encrypted, which a handler asks for.

## What is answered

A call ends in an `Outcome`, and in the cookies it has added to the response. A handler that
dereferences the null pointer ends in `crash`. What that does to the process is not decided: the
other threads may go on, and the server may be started again at any time.
-/

open Interaction Interaction.Prog

namespace Scissy

open Repositories (getRepoPath)

/-! ## Remote procedure calls -/

/-- A call of the service with its request. -/
inductive Rpc
  | serviceInfo
  | userAuth (request : Pb.UserAuth)
  | userGetSession
  | userCreate (request : Pb.UserCreate)
  | userAddSshKey (request : Pb.UserSshKey)
  | userRemoveSshKey (request : Pb.UserSshKey)
  | userGetSshKeys
  | userSetPassword (request : Pb.UserPasswordChange)
  | groupCreate (request : Pb.GroupCreate)
  | groupDelete (request : Pb.GroupDelete)
  | groupAddUser (request : Pb.GroupAddUser)
  | groupRemoveUser (request : Pb.GroupRemoveUser)
  | groupGetInfo (request : Pb.GroupSelector)
  | groupsList
  | groupListMembers (request : Pb.GroupSelector)
  | repoCreate (request : Pb.RepoCreate)
  | repoUpdate (request : Pb.RepoUpdate)
  | repoDelete (request : Pb.RepoDelete)
  | repoAddUser (request : Pb.RepoAddUser)
  | repoRemoveUser (request : Pb.RepoRemoveUser)
  | repoAddGroup (request : Pb.RepoAddGroup)
  | repoRemoveGroup (request : Pb.RepoRemoveGroup)
  | reposList
  | repoGetInfo (request : Pb.RepoSelector)
  | repoListMembers (request : Pb.RepoSelector)
  | repoListBranches (request : Pb.RepoSelector)
  | repoGetCommit (request : Pb.CommitSelector)
  | repoGetLog (request : Pb.LogSelector)
  | repoGetTree (request : Pb.TreeSelector)
  | repoGetBlob (request : Pb.BlobSelector)
  | repoGetPatch (request : Pb.DiffSelector)
  | repoGetTags (request : Pb.RepoSelector)
  | shellControl (request : Pb.ShellControl)

def Outcome.map {ρ σ : Type} (f : ρ → σ) : Outcome ρ → Outcome σ
  | returned ok response => .returned ok (f response)
  | threw err => .threw err
  | crash => .crash

/-- The status an outcome reports, in the response or in the message thrown. -/
def Outcome.status : Outcome Pb.Message → Option Pb.Status
  | returned _ response => response.status
  | threw err => err.status
  | crash => none

/-- What a call leaves for the client: its outcome and the cookies it added to the response. -/
structure Reply where
  outcome : Outcome Pb.Message
  cookies : List Cookie := []

/-- A handler whose response is one kind of message. -/
def answer {ρ : Type} (message : ρ → Pb.Message) (handler : Server (Outcome ρ)) :
    Server Reply := do
  let outcome ← handler
  return { outcome := outcome.map message }

/-- Run the handler of a call. -/
def dispatch (d : Deployment) (thread : Option Session) : Rpc → Server Reply
  | .serviceInfo => answer .serviceInfo (Service.serviceInfo d)
  | .userAuth request => do
    let (outcome, cookies) ← Service.userAuth d thread request
    return { outcome := outcome.map .session, cookies }
  | .userGetSession => answer .session (Service.userGetSession thread)
  | .userCreate request => answer .statusMsg (Service.userCreate d request)
  | .userAddSshKey request => answer .statusMsg (Service.userAddSshKey d thread request)
  | .userRemoveSshKey request => answer .statusMsg (Service.userRemoveSshKey d thread request)
  | .userGetSshKeys => answer .userSshKeys (Service.userGetSshKeys thread)
  | .userSetPassword request => answer .statusMsg (Service.userSetPassword d thread request)
  | .groupCreate request => answer .groupInfo (Service.groupCreate thread request)
  | .groupDelete request => answer .statusMsg (Service.groupDelete thread request)
  | .groupAddUser request => answer .statusMsg (Service.groupAddUser thread request)
  | .groupRemoveUser request => answer .statusMsg (Service.groupRemoveUser thread request)
  | .groupGetInfo request => answer .groupInfo (Service.groupGetInfo request)
  | .groupsList => answer .groupList Service.groupsList
  | .groupListMembers request => answer .memberList (Service.groupListMembers request)
  | .repoCreate request => answer .repoInfo (Service.repoCreate d thread request)
  | .repoUpdate request => answer .statusMsg (Service.repoUpdate thread request)
  | .repoDelete request => answer .statusMsg (Service.repoDelete d thread request)
  | .repoAddUser request => answer .statusMsg (Service.repoAddUser thread request)
  | .repoRemoveUser request => answer .statusMsg (Service.repoRemoveUser thread request)
  | .repoAddGroup request => answer .statusMsg (Service.repoAddGroup thread request)
  | .repoRemoveGroup request => answer .statusMsg (Service.repoRemoveGroup thread request)
  | .reposList => answer .repoList (Service.reposList d)
  | .repoGetInfo request => answer .repoInfo (Service.repoGetInfo d thread request)
  | .repoListMembers request => answer .memberList (Service.repoListMembers thread request)
  | .repoListBranches request => answer .gitBranches (Service.repoListBranches d thread request)
  | .repoGetCommit request => answer .gitCommit (Service.repoGetCommit d thread request)
  | .repoGetLog request => answer .gitLog (Service.repoGetLog d thread request)
  | .repoGetTree request => answer .gitTree (Service.repoGetTree d thread request)
  | .repoGetBlob request => answer .gitBlob (Service.repoGetBlob d thread request)
  | .repoGetPatch request => answer .gitPatch (Service.repoGetPatch d thread request)
  | .repoGetTags request => answer .gitTags (Service.repoGetTags d thread request)
  | .shellControl request => answer .shellStatus (Service.shellControl d request)

/-! ## Archives -/

/-- The check of the archive download. The call of `repoGetUserRole` stores the user's role in
`role`, the required role, and `user_role` keeps its first value. -/
def accessCheckRepo (session : Session) (repoId : ℤ) (role : Pb.Role) : Server Bool := do
  match ← Db.repoIsPublic repoId with
  | none => return false
  | some isPublic =>
    if isPublic && role = .kReader then return true
    else if session.userId < 1 then return false
    else
      let userRole := Pb.Role.kNone
      let (ok, role) ← Db.repoGetUserRole repoId session.userId
      if !ok then return false
      else return role ≤ userRole

/-- What the location of an archive request matches to. -/
structure ArchiveLocation where
  repoId : ℤ
  revision : Bytes
  dir : Bytes
  format : Bytes

inductive HttpStatus
  | kStatusBadRequest | kStatusForbidden | kStatusNotFound
  deriving DecidableEq

inductive ArchiveResponse
  | error (status : HttpStatus)
  /-- The tree, packed in a format below a directory. -/
  | archive (contentType : Option Bytes) (format : Bytes) (tree : GitTree) (dir : Bytes)

/-- The content type of an archive format, by its first part. -/
def archiveContentType (format : Bytes) : Option Bytes :=
  if [text "tar.xz", text "tar.gz", text "tar.bz2", text "tar.lzma"].contains format then
    some (text "application/x-gtar")
  else if [text "cpio.xz", text "cpio.gz", text "cpio.bz2", text "cpio.lzma"].contains format then
    some (text "application/x-cpio")
  else if format = text "zip" then some (text "application/zip")
  else if format = text "iso" then some (text "application/x-iso9660-image")
  else none

/-- `ArchiveHandler::handle`, from the match of the location on. -/
def archiveHandle (d : Deployment) (cookies : Cookies) (isSsl : Bool) :
    Option ArchiveLocation → Server ArchiveResponse
  | none => return .error .kStatusBadRequest
  | some location => do
    let session ← Session.auth cookies isSsl
    if !(← accessCheckRepo session location.repoId .kReader) then
      return .error .kStatusForbidden
    else match ← issue (.gitOpen (getRepoPath d location.repoId)) with
      | none => return .error .kStatusNotFound
      | some repo =>
        match Service.lookupRevision repo location.revision with
        | none => return .error .kStatusNotFound
        | some commit =>
          match repo.tree commit.treeId [] with
          | none => return .error .kStatusNotFound
          | some tree =>
            return .archive (archiveContentType location.format) location.format tree
              (location.dir ++ text "/")

/-! ## Logout -/

/-- `LogoutHandler::handle`; the cookies it sets are empty and expired. -/
def logoutHandle (cookies : Cookies) (isSsl : Bool) : Server (List Cookie) := do
  let session ← Session.auth cookies isSsl
  let _ ← issue (.write (.deleteUserAuth session.userId session.token))
  let expires := text "Tue Feb 11 21:42:42 CET 2000"
  return [⟨text "user", [], true, isSsl, none, expires⟩,
    ⟨text "token", [], true, isSsl, none, expires⟩]

/-! ## HTTP requests -/

inductive Target
  | api (rpc : Rpc)
  | logout
  | archive (location : Option ArchiveLocation)

structure HttpRequest where
  cookies : Cookies
  isSsl : Bool := false
  target : Target

inductive HttpResponse
  | api (reply : Reply)
  | logout (cookies : List Cookie)
  | archive (response : ArchiveResponse)

/-- `SessionHandler::handle` -/
def sessionHandle (d : Deployment) (cookies : Cookies) (isSsl : Bool) (rpc : Rpc) :
    Server Reply := do
  let session ← Session.auth cookies isSsl
  dispatch d (some session) rpc

/-- Serve an HTTP request. -/
def serve (d : Deployment) (request : HttpRequest) : Server HttpResponse :=
  match request.target with
  | .api rpc => .api <$> sessionHandle d request.cookies request.isSsl rpc
  | .logout => .logout <$> logoutHandle request.cookies request.isSsl
  | .archive location => .archive <$> archiveHandle d request.cookies request.isSsl location

/-- Serve a call that arrives at the unix socket. -/
def serveSocket (d : Deployment) (rpc : Rpc) : Server HttpResponse := .api <$> dispatch d none rpc

/-! ## The system -/

/-- The threads of the server and the world they share. -/
abbrev System := Pool ℕ Op World HttpResponse

/-- `scissy-set-admin` -/
def setAdmin (login : Bytes) (db : Database) : Database :=
  match (db.users.rows.filter (·.2.login = login)).head? with
  | none => db
  | some user => { db with users := db.users.modify user.1 fun u ↦ { u with roleId := 3 } }

namespace System

/-- Give thread `i` a program. -/
def assign (c : System) (i : ℕ) (p : Server HttpResponse) : System :=
  { c with threads := Function.update c.threads i p }

/-- All threads idle. -/
def idle (w : World) : System where
  threads _ := .done (.logout [])
  world := w

/-- One thing that can happen. -/
inductive Step (d : Deployment) : System → System → Prop
  | http (c : System) (i : ℕ) (response : HttpResponse) (request : HttpRequest)
      (h : c.threads i = .done response) : Step d c (c.assign i (serve d request))
  | socket (c : System) (i : ℕ) (response : HttpResponse) (rpc : Rpc)
      (h : c.threads i = .done response) : Step d c (c.assign i (serveSocket d rpc))
  | op (c : System) (i : ℕ) (e : Env) : Step d c (c.step i e)
  /-- The process ends and `main` starts again. -/
  | restart (c : System) (env : ℕ → Env) : Step d c (idle ((genAuthorizedKeys d).run env c.world).2)
  /-- A push changes what is in an existing repository. -/
  | push (c : System) (path : Bytes) (repo repo' : GitRepository)
      (h : c.world.repositories path = some repo) :
      Step d c { c with world := { c.world with
        repositories := Function.update c.world.repositories path (some repo') } }
  | setAdmin (c : System) (login : Bytes) :
      Step d c { c with world := { c.world with db := setAdmin login c.world.db } }

end System

/-- A world some history of the server leads to. -/
def Reachable (d : Deployment) (w : World) : Prop :=
  ∃ c : System, Relation.ReflTransGen (System.Step d) (System.idle .initial) c ∧ c.world = w

theorem valid_setAdmin {db : Database} (login : Bytes) (h : db.Valid) :
    (setAdmin login db).Valid := by
  rw [setAdmin]
  split
  · exact h
  · have hcol (κ : Type) (col : User → κ) (hsame : ∀ u, col { u with roleId := 3 } = col u)
        (i : ℤ) :
        (db.users.modify i fun u ↦ { u with roleId := 3 }).rows.map (fun r ↦ col r.2) =
          db.users.rows.map fun r ↦ col r.2 := by
      rw [Relational.AutoTable.modify_rows, List.map_map]
      refine List.map_congr_left fun r _ ↦ ?_
      simp only [Function.comp, Relational.AutoTable.modifyRow]
      split <;> simp [hsame]
    have hids := Relational.AutoTable.modify_ids (t := db.users)
    exact { h with
      login_unique := by
        rw [Relational.UniqueColumn, hcol _ (·.login) fun _ ↦ rfl]
        exact h.login_unique
      email_unique := by
        rw [Relational.UniqueColumn, hcol _ (·.email) fun _ ↦ rfl]
        exact h.email_unique
      usersSshKeys_user := (hids _ _).symm ▸ h.usersSshKeys_user
      usersAuths_user := (hids _ _).symm ▸ h.usersAuths_user
      groupsUsers_user := (hids _ _).symm ▸ h.groupsUsers_user
      reposUsers_user := (hids _ _).symm ▸ h.reposUsers_user }

theorem System.Step.valid {d : Deployment} {c c' : System} (h : Step d c c')
    (hc : c.world.db.Valid) : c'.world.db.Valid := by
  cases h with
  | http | socket | push => exact hc
  | op i e =>
    exact Pool.run_world_invariant (I := fun w : World ↦ w.db.Valid) exec_valid hc [(i, e)]
  | restart env => exact run_valid _ env hc
  | setAdmin login => exact valid_setAdmin login hc

/-- **Reachable worlds satisfy the schema.** -/
theorem Reachable.valid {d : Deployment} {w : World} (h : Reachable d w) : w.db.Valid := by
  obtain ⟨c, hc, rfl⟩ := h
  induction hc with
  | refl => exact Database.valid_initial
  | tail _ hstep ih => exact hstep.valid ih

/-! ## Requests one after the other -/

/-- A request with the choices of its environment. -/
abbrev Arrival := HttpRequest × (ℕ → Env)

/-- Serve requests one after the other; what was asked and answered, and the world afterwards. -/
def serveAll (d : Deployment) : List Arrival → World → List (HttpRequest × HttpResponse) × World
  | [], w => ([], w)
  | (request, env) :: arrivals, w =>
    let r := (serve d request).run env w
    let rest := serveAll d arrivals r.2
    ((request, r.1) :: rest.1, rest.2)

@[simp] theorem serveAll_nil (d : Deployment) (w : World) : serveAll d [] w = ([], w) := rfl

end Scissy
