import Scissy.Model.World

/-!
# The database layer

`Db`, `Session`, `Repositories` and `genAuthorizedKeys`: the functions a request handler calls, as
programs over the operations of the world. An out-parameter with a success flag is an `Option` or
an `Except`; `Db.repoGetUserRole` keeps both, because its out-parameter is set even when it fails.

## Queries

A statement that is fetched once is the operation that returns all its rows, followed by the head of
the list (`fetch`). A loop over a statement is a recursion on its rows. So the rows are those of one
moment: what a write of another thread does to a statement that is being stepped through is not
modelled.

## Flags

A function that returns whether its statement was done returns a `Bool`. `groupDelete` returns the
result code itself, which the compiler turns into a `bool`, and no code is zero; here the conversion
is written out.
-/

open Interaction Interaction.Prog

namespace Scissy

/-- A program of the server. -/
abbrev Server (α : Type) := Prog Op α

/-- `std::string::c_str` as a C function sees it. -/
def cStr (s : Bytes) : Bytes := s.takeWhile (· ≠ 0)

/-- The first row of a query: `prepare`, `bind` and one `fetch`. -/
def fetch {β : Type} (q : Query β) : Server (Option β) := do
  let rows ← issue (.query q)
  return rows.head?

namespace Db

/-! ## Users -/

def userGetId (user : Bytes) : Server (Option ℤ) := fetch (.userGetId user)

def userIsAdmin (userId : ℤ) : Server (Option Bool) := fetch (.userIsAdmin userId)

/-! ## Groups -/

/-- The role is cast from the column without a check. -/
def groupGetUserRole (groupId userId : ℤ) : Server (Option ℤ) :=
  fetch (.groupGetUserRole groupId userId)

def groupAddUser (grpId userId : ℤ) (role : Pb.Role) : Server Bool := do
  let rc ← issue (.write (.insertGroupUser grpId userId role.toInt))
  return rc = .done

def groupRemoveUser (grpId userId : ℤ) : Server Unit := do
  let _ ← issue (.write (.deleteGroupUser grpId userId))

def groupCreate (group desc : Bytes) : Server (Except Bytes Unit) := do
  let err ← issue (.write (.insertGroup group desc))
  if err = .constraint then return .error (text "name already used")
  else if err ≠ .done then return .error (text "failed to register, internal error")
  else return .ok ()

def groupGetId (group : Bytes) : Server (Option ℤ) := fetch (.groupGetId group)

/-- The result code itself is returned as the success flag. -/
def groupDelete (grpId : ℤ) : Server Bool := do
  let rc ← issue (.write (.deleteGroup grpId))
  return rc.code ≠ 0

/-! ## Repositories -/

def repoGetId (repo : Bytes) : Server (Option ℤ) := fetch (.repoGetId repo)

def repoAddUser (repoId userId : ℤ) (role : Pb.Role) : Server Bool := do
  let rc ← issue (.write (.insertRepoUser repoId userId role.toInt))
  return rc = .done

def repoRemoveUser (repoId userId : ℤ) : Server Bool := do
  let rc ← issue (.write (.deleteRepoUser repoId userId))
  return rc = .done

def repoAddGroup (repoId groupId : ℤ) (role : Pb.Role) : Server Bool := do
  let rc ← issue (.write (.insertRepoGroup repoId groupId role.toInt))
  return rc = .done

def repoRemoveGroup (repoId groupId : ℤ) : Server Bool := do
  let rc ← issue (.write (.deleteRepoGroup repoId groupId))
  return rc = .done

/-- The loop of `repoGetUserRole` over the fetched rows, from the role found so far. -/
def maxRole : List ℤ → Pb.Role → Bool × Pb.Role
  | [], role => (true, role)
  | role1 :: rows, role =>
    match Pb.Role.ofInt? role1 with
    | none => (false, role)
    | some r => maxRole rows (if role1 > role.toInt then r else role)

def repoGetUserRole (repoId userId : ℤ) : Server (Bool × Pb.Role) := do
  let rows ← issue (.query (.repoGetUserRole repoId userId))
  return maxRole rows .kNone

def repoIsPublic (repoId : ℤ) : Server (Option Bool) := fetch (.repoIsPublic repoId)

end Db

/-! ## Sessions -/

/-- What `find` returns for the two cookies the server sets. -/
structure Cookies where
  user : Option Bytes := none
  token : Option Bytes := none
  deriving DecidableEq

/-- The session of one request; `role` is cast from a column that nothing restricts. -/
structure Session where
  user : Bytes := []
  userId : ℤ := 0
  role : ℤ := 0
  email : Bytes := []
  token : Bytes := []
  /-- Whether the connection the response goes to is encrypted. -/
  isSsl : Bool := false
  deriving DecidableEq

/-- The constructor, which calls `auth`. -/
def Session.auth (cookies : Cookies) (isSsl : Bool) : Server Session :=
  match cookies.user, cookies.token with
  | some user, some token => do
    match ← fetch (.sessionAuth user token) with
    | none => return { isSsl }
    | some (roleId, userId, email) => return { user, userId, role := roleId, email, token, isSsl }
  | _, _ => return { isSsl }

/-! ## Git directories -/

namespace Repositories

/-- `"%s/%x"` -/
def getRepoPath (d : Deployment) (repoId : ℤ) : Bytes :=
  d.repos ++ text "/" ++ Numeral.numeral 16 (repoId % 2 ^ 64).toNat

/-- Everything after the `insert`, once the number of the new repository has been read. -/
def createDirectory (d : Deployment) (name : Bytes) (userId repoId : ℤ) :
    Server (Except Bytes ℤ) := do
  if !(← issue (.gitRepositoryInit (getRepoPath d repoId))) then
    let _ ← issue (.write (.deleteRepoByName name))
    return .error (text "failed to initialize git repository")
  else if !(← Db.repoAddUser repoId userId .kOwner) then
    let _ ← issue (.write (.deleteRepoByName name))
    return .error (text "failed to set owner")
  else return .ok repoId

def create (d : Deployment) (name desc : Bytes) (isPublic : Bool) (userId : ℤ) :
    Server (Except Bytes ℤ) := do
  let err ← issue (.write (.insertRepo name desc isPublic))
  if err = .constraint then return .error (text "name already used")
  else if err ≠ .done then return .error (text "failed to register, internal error")
  else
    let repoId ← issue .lastInsertRowid
    createDirectory d name userId repoId

def remove (d : Deployment) (repoId : ℤ) : Server Bool := do
  let _ ← issue (.write (.deleteRepo repoId))
  issue (.rm (getRepoPath d repoId))
  return true

end Repositories

/-! ## The file of authorized keys -/

def sshKeyTypeName (keyType : ℤ) : Bytes :=
  if keyType = Pb.SshKeyType.kSshKeyRsa.toInt then text "ssh-rsa"
  else if keyType = Pb.SshKeyType.kSshKeyDsa.toInt then text "ssh-dsa"
  else text "unknown"

def newline : UInt8 := 10

/-- What `genAuthorizedKeys` prints for one row, up to the `std::endl`. -/
def authorizedKeysLine (d : Deployment) (userId keyType : ℤ) (key : Bytes) : Bytes :=
  text "command=\"scissy-shell -socket " ++ d.socket
    ++ text " -user-id " ++ Numeral.numeral 10 userId.toNat
    ++ text "\",no-port-forwarding,no-pty,no-X11-forwarding " ++ sshKeyTypeName keyType
    ++ text " " ++ key

/-- The loop of `genAuthorizedKeys`: one flushed line for each row, from the stream's offset on. -/
def writeAuthorizedKeys (d : Deployment) : ℕ → List (ℤ × ℤ × Bytes) → Server Unit
  | _, [] => return ()
  | offset, (userId, keyType, key) :: rows => do
    let line := authorizedKeysLine d userId keyType key ++ [newline]
    issue (.writeAuthKeys offset line)
    writeAuthorizedKeys d (offset + line.length) rows

def genAuthorizedKeys (d : Deployment) : Server Unit := do
  issue .openAuthKeys
  let rows ← issue (.query .genAuthorizedKeys)
  writeAuthorizedKeys d 0 rows

end Scissy
