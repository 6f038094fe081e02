import Scissy.Relational.Cursor
import Scissy.Server.Db

/-!
# The request handlers

The methods of `Service` that manage users, groups and repositories. A handler is a program that
ends in an `Outcome`. The macros of `service.cc` return from the handler they are expanded in, so
here each one is a program that ends either in a value for the rest of the handler or in the
handler's own outcome, and `Prog.orReturn` is the expansion.

`thread` is `SessionHandler::threadSession()`: the session of the HTTP request the thread is
serving, or the null pointer on a thread that serves the socket.

## Responses

A handler fills the response as it goes, and an early return leaves the rest of it as it is. So the
response of a failing exit is a message with a status and a text and nothing else, and the type of
the response is that of the call. `Pb.HasStatus` says where a message has its status, for the macros
that several types of response share.

## Conditions on result codes

Where the source tests the result code of a statement as a condition, the test is on the code, and
where it compares it with `SQLITE_DONE`, it is on the constructor. Where it looks at nothing, the
answer to the operation is thrown away.
-/

open Interaction Interaction.Prog

namespace Scissy

/-! ## Outcomes -/

/-- How a handler ends. -/
inductive Outcome (ρ : Type)
  /-- The handler returns, with its flag and the response. -/
  | returned (ok : Bool) (response : ρ)
  | threw (err : Pb.StatusMsg)
  /-- A null pointer is dereferenced. -/
  | crash

/-- A check made in the middle of a handler: the handler's own outcome, or a value to go on with. -/
abbrev Check (ρ α : Type) := Except (Outcome ρ) α

namespace Service

variable {ρ : Type}

def throwStatusMsg (status : Pb.Status) (msg : Bytes) : Outcome ρ :=
  .threw { status := some status, msg := some msg }

/-- `set_status`, `set_msg` and `return true`. -/
def reply [Pb.HasStatus ρ] (status : Pb.Status) (msg : Bytes) : Outcome ρ :=
  .returned true (Pb.HasStatus.failure status msg)

/-- `set_status(pb::kSucceed)` and `return true`. -/
def succeed : Outcome Pb.StatusMsg := .returned true { status := some .kSucceed }

/-! ## The macros -/

/-- The static helper `userGetSession`, with its return value. -/
def userGetSessionHelper (session : Session) : Bool × Pb.Session :=
  (true, { user := some session.user, role := some session.role, userId := some session.userId })

/-- `AUTHENTICATE_USER` -/
def authenticateUser (thread : Option Session) : Server (Check ρ Pb.Session) :=
  match thread with
  | none => return .error .crash
  | some threadSession =>
    let (ok, session) := userGetSessionHelper threadSession
    if !ok then return .error (throwStatusMsg .kInvalidSession (text "invalid session"))
    else return .ok session

/-- The common part of the `SET_*_ID` macros: an id wins over a name. -/
def setId (id : Option ℤ) (name : Option Bytes) (getId : Bytes → Server (Option ℤ))
    (unspecified notFound : Outcome ρ) : Server (Check ρ ℤ) :=
  match id, name with
  | some id, _ => return .ok id
  | none, none => return .error unspecified
  | none, some name => do
    match ← getId name with
    | none => return .error notFound
    | some id => return .ok id

/-- `SET_GRP_ID`, which throws where the other two return. -/
def setGrpId (msg : Pb.GroupRef) : Server (Check ρ ℤ) :=
  setId msg.grpId msg.grp Db.groupGetId
    (throwStatusMsg .kFailed (text "need to specify grp or grp_id"))
    (throwStatusMsg .kNotFound (text "group not found"))

/-- `SET_USER_ID` -/
def setUserId [Pb.HasStatus ρ] (msg : Pb.UserRef) : Server (Check ρ ℤ) :=
  setId msg.userId msg.user Db.userGetId
    (reply .kFailed (text "need to specify user or user_id"))
    (reply .kNotFound (text "user not found"))

/-- `SET_REPO_ID` -/
def setRepoId [Pb.HasStatus ρ] (msg : Pb.RepoRef) : Server (Check ρ ℤ) :=
  setId msg.repoId msg.repo Db.repoGetId
    (reply .kFailed (text "need to specify repo or repo_id"))
    (reply .kNotFound (text "repository not found"))

/-- `CHECK_REPO_ROLE` -/
def checkRepoRole [Pb.HasStatus ρ] (repoId userId : ℤ) (roleId : Pb.Role) :
    Server (Check ρ Unit) := do
  let (ok, role) ← Db.repoGetUserRole repoId userId
  if !ok then
    return .error (.returned false (Pb.HasStatus.failure .kFailed (text "database error")))
  else if role < roleId then
    return .error (reply .kInsufficientRight (text "insufficient rights"))
  else return .ok ()

/-- `session.user_id()` -/
def userIdOf (session : Pb.Session) : ℤ := session.userId.getD 0

/-- `session.role()`, as the enumerator's value. -/
def roleOf (session : Pb.Session) : ℤ := session.role.getD 0

/-- `CHECK_PUBLIC_REPO`; the id it sets in the request is its value. -/
def checkPublicRepo [Pb.HasStatus ρ] (thread : Option Session) (msg : Pb.RepoRef) :
    Server (Check ρ ℤ) :=
  (setRepoId msg).andThen fun repoId ↦ do
    match ← Db.repoIsPublic repoId with
    | none => return .error (reply .kNotFound (text "repository not found"))
    | some isPublic =>
      if !isPublic then
        (authenticateUser thread).andThen fun session ↦
        (checkRepoRole repoId (userIdOf session) .kReader).andThen fun () ↦
        return .ok repoId
      else return .ok repoId

/-! ## Service -/

def serviceInfo (d : Deployment) : Server (Outcome Pb.ServiceInfo) := do
  let startTime ← issue .startTime
  return .returned true
    { cloneUser := some d.cloneUser
      cloneHost := some d.cloneHost
      version := some d.version
      startTime := some startTime
      isRegisterEnabled := some d.isRegisterEnabled }

/-! ## Users -/

/-- The complaint about a password, if there is one. -/
def userCheckPassword (d : Deployment) (password : Bytes) : Option Bytes :=
  if password.length < 5 then some (text "password too short (5 characters at least)")
  else if password.length > 32 then some (text "password too long (32 characters at most)")
  else if d.crackPasswords then d.fascistCheck (cStr password)
  else none

def isAlnum (c : UInt8) : Bool :=
  decide (48 ≤ c ∧ c ≤ 57) || decide (65 ≤ c ∧ c ≤ 90) || decide (97 ≤ c ∧ c ≤ 122)

/-- `^[[:alnum:]]+$` -/
def loginMatch (login : Bytes) : Bool := !login.isEmpty && login.all isAlnum

/-- `[-._a-zA-Z0-9]` -/
def isEmailChar (c : UInt8) : Bool := isAlnum c || c = 45 || c = 46 || c = 95

/-- `^[-._a-zA-Z0-9]+@[-._a-zA-Z0-9]+$` -/
def emailMatch (email : Bytes) : Bool :=
  let local' := email.takeWhile isEmailChar
  match email.dropWhile isEmailChar with
  | at' :: domain => !local'.isEmpty && at' = 64 && !domain.isEmpty && domain.all isEmailChar
  | [] => false

def userCreate (d : Deployment) (request : Pb.UserCreate) : Server (Outcome Pb.StatusMsg) :=
  if !d.isRegisterEnabled then return reply .kForbidden (text "registration disabled")
  else if request.user.length > 64 then
    return reply .kFailed (text "login too long (64 characters at most)")
  else match userCheckPassword d request.password with
  | some msg => return reply .kFailed msg
  | none =>
    if !loginMatch request.user then
      return reply .kFailed (text "login contains invalid characters")
    else if !emailMatch request.email then return reply .kFailed (text "invalid email")
    else do
      match ← issue (.gnutlsRnd 16) with
      | none =>
        return reply .kFailed (text "internal error, please contact your administrator")
      | some salt =>
        let hash := d.sha3_512 (salt ++ request.password)
        let err ← issue (.write (.insertUser request.user request.email (text "SHA3-512")
          (d.base16Encode salt) (d.base16Encode hash)))
        if err = .constraint then
          return reply .kFailed (text "failed to register, try another username/email")
        else if err ≠ .done then
          return reply .kFailed (text "failed to register, internal error")
        else return succeed

def userSetPassword (d : Deployment) (thread : Option Session) (request : Pb.UserPasswordChange) :
    Server (Outcome Pb.StatusMsg) :=
  match userCheckPassword d request.newPassword with
  | some msg => return reply .kFailed msg
  | none =>
    (authenticateUser thread).orReturn fun session ↦ do
      match ← Db.userGetId request.user with
      | none => return .returned true { status := some .kNotFound }
      | some _ =>
        if roleOf session ≠ Pb.Role.kOwner.toInt then
          return .returned true { status := some .kForbidden }
        -- the password is not set, and neither is the status
        else return .returned true {}

/-- `BuiltinAuthenticator::auth`; an error carries the message it sets. -/
def builtinAuth (d : Deployment) (request : Pb.UserAuth) : Server (Except (Option Bytes) Unit) := do
  match ← fetch (.builtinAuth request.user) with
  | none => return .error (some (text "user not found"))
  | some (type, salt16, hash16) =>
    if type = text "SHA3-512" then
      if d.base16Decode hash16 ≠ d.sha3_512 (d.base16Decode salt16 ++ request.password) then
        return .error (some (text "invalid password"))
      else return .ok ()
    else
      return .error (some (text "unsupported hash type: " ++ type ++ text " for user "
        ++ request.user))

/-- `ProcessAuthenticator::auth` -/
def processAuth (request : Pb.UserAuth) : Server (Except (Option Bytes) Unit) := do
  match ← issue (.authProcess request.user request.password) with
  | none => return .error (some (text "auth failed"))
  | some status => if status = 0 then return .ok () else return .error none

/-- The configured authenticator. -/
def authenticate (d : Deployment) (request : Pb.UserAuth) : Server (Except (Option Bytes) Unit) :=
  match d.authenticator with
  | .kAuthBuiltin => builtinAuth d request
  | .kAuthProcess => processAuth request

end Service

/-- A cookie of a response. -/
structure Cookie where
  key : Bytes
  value : Bytes
  httpOnly : Bool
  secure : Bool
  path : Option Bytes := none
  expires : Bytes

namespace Service

/-- The two casts of `stmt.bind((int)user_id, …)`. -/
def castInt (n : ℤ) : ℤ := n.bmod (2 ^ 32)

/-- The cookies of a successful `userAuth`. -/
def authCookies (d : Deployment) (session : Session) (user token : Bytes) (now : ℤ) :
    List Cookie :=
  let expires := d.httpTime (now + ((7 * 60 * 60 : UInt32) * d.cookieDuration).toNat)
  [⟨text "user", user, true, session.isSsl, some (text "/"), expires⟩,
    ⟨text "token", token, true, session.isSsl, some (text "/"), expires⟩]

/-- The response and the cookies added to it. -/
def userAuth (d : Deployment) (thread : Option Session) (request : Pb.UserAuth) :
    Server (Outcome Pb.Session × List Cookie) := do
  let failed (msg : Bytes) : Outcome Pb.Session × List Cookie :=
    (.returned true { status := some .kFailed, msg := some msg }, [])
  match ← authenticate d request with
  | .error msg => return (.returned true { status := some .kFailed, msg := msg }, [])
  | .ok () =>
    match ← Db.userGetId request.user with
    | none => return failed (text "2 internal error, please contact your administrator")
    | some userId =>
      match ← issue (.gnutlsRnd 32) with
      | none => return failed (text "internal error, please contact your administrator")
      | some auth =>
        let auth16 := d.base16Encode auth
        let start ← issue .time
        let rc ← issue (.write (.insertUserAuth (castInt userId) auth16 start))
        if rc ≠ .done then
          return failed (text "3 internal error, please contact your administrator")
        else match thread with
          | none => return (.crash, [])
          | some session => do
            let now ← issue .time
            return (.returned true { user := some request.user, status := some .kSucceed },
              authCookies d session request.user auth16 now)

def userGetSession (thread : Option Session) : Server (Outcome Pb.Session) :=
  (authenticateUser thread).orReturn fun session ↦
    return .returned true
      { user := some (session.user.getD [])
        email := some (session.email.getD [])
        role := some (roleOf session)
        userId := some (userIdOf session)
        status := some .kSucceed }

/-- The common part of the two calls below. The result code itself is the condition. -/
def changeSshKeys (d : Deployment) (s : Write) : Server (Outcome Pb.StatusMsg) := do
  let rc ← issue (.write s)
  if !(rc.code ≠ 0) then return reply .kFailed (text "SQL error")
  else
    genAuthorizedKeys d
    return succeed

def userAddSshKey (d : Deployment) (thread : Option Session) (request : Pb.UserSshKey) :
    Server (Outcome Pb.StatusMsg) :=
  (authenticateUser thread).orReturn fun session ↦
    changeSshKeys d (.insertUserSshKey (userIdOf session) request.key.type.toInt request.key.key
      (request.key.desc.getD []))

def userRemoveSshKey (d : Deployment) (thread : Option Session) (request : Pb.UserSshKey) :
    Server (Outcome Pb.StatusMsg) :=
  (authenticateUser thread).orReturn fun session ↦
    changeSshKeys d (.deleteUserSshKey (userIdOf session) (request.key.keyId.getD 0))

def userGetSshKeys (thread : Option Session) : Server (Outcome Pb.UserSshKeys) :=
  (authenticateUser thread).orReturn fun session ↦ do
    let rows ← issue (.query (.userGetSshKeys (userIdOf session)))
    let keys := rows.map fun (keyId, type, key, desc) ↦ { keyId, type, key, desc }
    return .returned true { keys, status := some .kSucceed }

/-! ## Groups -/

def groupCreate (thread : Option Session) (request : Pb.GroupCreate) :
    Server (Outcome Pb.GroupInfo) :=
  (authenticateUser thread).orReturn fun session ↦ do
    let grp := request.grp.getD []
    match ← Db.groupCreate grp request.desc with
    | .error err => return reply .kFailed err
    | .ok () =>
      match ← Db.groupGetId grp with
      | none => return reply .kFailed (text "failed to get group id")
      | some _ =>
        -- asked a second time
        match ← Db.groupGetId grp with
        | none => return reply .kFailed (text "failed to get group id")
        | some grpId =>
          if !(← Db.groupAddUser grpId (userIdOf session) .kOwner) then
            let _ ← Db.groupDelete grpId
            return reply .kFailed (text "failed to set owner")
          else
            return .returned true
              { status := some .kSucceed
                grpId := some grpId
                size := some 1
                grp := some grp
                desc := some request.desc }

def isGroupOwner (session : Pb.Session) (grpId : ℤ) : Server Bool :=
  if roleOf session = Pb.Role.kOwner.toInt then return true
  else do
    match ← Db.groupGetUserRole grpId (userIdOf session) with
    | none => return false
    | some role => return role = Pb.Role.kOwner.toInt

def groupDelete (thread : Option Session) (request : Pb.GroupDelete) :
    Server (Outcome Pb.StatusMsg) :=
  (authenticateUser thread).orReturn fun session ↦
  (setGrpId request.toGroupRef).orReturn fun grpId ↦ do
    if !(← isGroupOwner session grpId) then return reply .kFailed (text "insufficient rights")
    else if !(← Db.groupDelete grpId) then return reply .kFailed (text "failed to delete group")
    else return succeed

def groupAddUser (thread : Option Session) (request : Pb.GroupAddUser) :
    Server (Outcome Pb.StatusMsg) :=
  (authenticateUser thread).orReturn fun session ↦
  (setGrpId request.toGroupRef).orReturn fun grpId ↦
  (setUserId request.toUserRef).orReturn fun userId ↦ do
    if !(← isGroupOwner session grpId) then return reply .kFailed (text "insufficient rights")
    else if !(← Db.groupAddUser grpId userId request.role) then
      return reply .kFailed (text "failed to add user to group")
    else return succeed

def groupRemoveUser (thread : Option Session) (request : Pb.GroupRemoveUser) :
    Server (Outcome Pb.StatusMsg) :=
  (authenticateUser thread).orReturn fun session ↦
  (setGrpId request.toGroupRef).orReturn fun grpId ↦
  (setUserId request.toUserRef).orReturn fun userId ↦ do
    if !(← isGroupOwner session grpId) then return reply .kFailed (text "insufficient rights")
    else
      Db.groupRemoveUser grpId userId
      return succeed

def groupsList : Server (Outcome Pb.GroupList) := do
  let rows ← issue (.query .groupsList)
  let grps := rows.map fun (grp, desc, grpId, size) ↦
    ({ grp := some grp, grpId := some grpId, desc := some desc,
       size := some (UInt32.ofNat size) } : Pb.GroupInfo)
  return .returned true { grps, status := some .kSucceed }

def groupGetInfo (request : Pb.GroupSelector) : Server (Outcome Pb.GroupInfo) := do
  match ← fetch (.groupGetInfo (request.grpId.getD 0) (request.grp.getD [])) with
  | none => return reply .kFailed (text "group not found")
  | some (row, size) =>
    -- a null column is fetched as an empty string or as zero
    let (grp, desc, grpId) := row.getD ([], [], 0)
    return .returned true
      { grp := some grp
        grpId := some grpId
        size := some (UInt32.ofNat size)
        desc := some desc
        status := some .kSucceed }

/-- The parameters are bound again before every step. -/
def groupListMembers (request : Pb.GroupSelector) : Server (Outcome Pb.MemberList) := do
  let rows ← issue (.query (.groupListMembers (request.grpId.getD 0) (request.grp.getD [])))
  let users := (Relational.Stmt.fetchAll rows (.bound [])).map fun (user, userId, role) ↦
    ({ user := some user, userId := some userId, role := some role } : Pb.Member)
  return .returned true { users, status := some .kSucceed }

/-! ## Repository management -/

def repoCreate (d : Deployment) (thread : Option Session) (request : Pb.RepoCreate) :
    Server (Outcome Pb.RepoInfo) :=
  (authenticateUser thread).orReturn fun session ↦ do
    match ← Repositories.create d request.name request.desc request.isPublic (userIdOf session) with
    | .error errmsg => return reply .kFailed errmsg
    | .ok repoId =>
      return .returned true
        { name := some request.name
          desc := some request.desc
          id := some repoId
          isPublic := some request.isPublic
          status := some .kSucceed }

def repoUpdate (thread : Option Session) (request : Pb.RepoUpdate) :
    Server (Outcome Pb.StatusMsg) :=
  (authenticateUser thread).orReturn fun session ↦
  (setRepoId request.toRepoRef).orReturn fun repoId ↦
  (checkRepoRole repoId (userIdOf session) .kOwner).orReturn fun () ↦ do
    let _ ← issue (.write (.updateRepo request.name request.desc request.isPublic repoId))
    return succeed

def repoDelete (d : Deployment) (thread : Option Session) (request : Pb.RepoDelete) :
    Server (Outcome Pb.StatusMsg) :=
  (authenticateUser thread).orReturn fun session ↦
  (setRepoId request.toRepoRef).orReturn fun repoId ↦
  (checkRepoRole repoId (userIdOf session) .kOwner).orReturn fun () ↦ do
    if !(← Repositories.remove d repoId) then return reply .kFailed (text "database error")
    else return succeed

def repoAddUser (thread : Option Session) (request : Pb.RepoAddUser) :
    Server (Outcome Pb.StatusMsg) :=
  (authenticateUser thread).orReturn fun session ↦
  (setRepoId request.toRepoRef).orReturn fun repoId ↦
  (setUserId request.toUserRef).orReturn fun userId ↦
  (checkRepoRole repoId (userIdOf session) .kOwner).orReturn fun () ↦ do
    if !(← Db.repoAddUser repoId userId request.role) then return reply .kFailed []
    else return succeed

def repoRemoveUser (thread : Option Session) (request : Pb.RepoRemoveUser) :
    Server (Outcome Pb.StatusMsg) :=
  (authenticateUser thread).orReturn fun session ↦
  (setRepoId request.toRepoRef).orReturn fun repoId ↦
  (setUserId request.toUserRef).orReturn fun userId ↦
  (checkRepoRole repoId (userIdOf session) .kOwner).orReturn fun () ↦ do
    if !(← Db.repoRemoveUser repoId userId) then return reply .kFailed []
    else return succeed

def repoAddGroup (thread : Option Session) (request : Pb.RepoAddGroup) :
    Server (Outcome Pb.StatusMsg) :=
  (authenticateUser thread).orReturn fun session ↦
  (setRepoId request.toRepoRef).orReturn fun repoId ↦
  (setGrpId request.toGroupRef).orReturn fun grpId ↦
  (checkRepoRole repoId (userIdOf session) .kOwner).orReturn fun () ↦ do
    if !(← Db.repoAddGroup repoId grpId request.role) then return reply .kFailed []
    else return succeed

def repoRemoveGroup (thread : Option Session) (request : Pb.RepoRemoveGroup) :
    Server (Outcome Pb.StatusMsg) :=
  (authenticateUser thread).orReturn fun session ↦
  (setRepoId request.toRepoRef).orReturn fun repoId ↦
  (setGrpId request.toGroupRef).orReturn fun grpId ↦
  (checkRepoRole repoId (userIdOf session) .kOwner).orReturn fun () ↦ do
    if !(← Db.repoRemoveGroup repoId grpId) then return reply .kFailed []
    else return succeed

end Service

end Scissy
