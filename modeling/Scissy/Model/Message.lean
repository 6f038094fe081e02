import Mathlib.Order.Basic
import Mathlib.Order.BoundedOrder.Basic
import Mathlib.Order.Lattice
import Mathlib.Algebra.Order.Group.Int

/-!
# The messages of the service

The protocol buffers of `service.proto`, as far as a handler reads or writes them. Byte strings
stay byte strings: names, keys and commands come from the network and are compared and
concatenated as they are.

## Fields

A request has been parsed before a handler sees it, so its `required` fields are plain fields and
only its `optional` ones are `Option`s. A response is built by the handler, which may forget a
field, so *every* field of a response is an `Option`, the `required` ones included.

The exception is `RepoUpdate.repo`. It is `required`, but the web client sends `repoUpdate` with the
id alone (`scissy.js`), and `SET_REPO_ID` looks whether the field is set, as it does for the
`optional` fields of the same name.

## Numbers

A field of 32 bits is a `UInt32` where the code computes with it or cuts a longer number down to it:
the limit and the offset of a log, the size of a group. The ids of rows are `int64` columns that
SQLite never lets go out of range, so they are integers. Where the code casts one of them to `int`,
the cast is written out.
-/

namespace Scissy

/-! ## Bytes -/

/-- A C++ `std::string`, or a `bytes` field. -/
abbrev Bytes := List UInt8

/-- The bytes of a string literal of the source, all of which are ASCII. -/
def text (s : String) : Bytes := s.toList.map fun c ↦ c.toNat.toUInt8

namespace Pb

/-! ## Enumerations -/

inductive Status
  | kSucceed | kFailed | kInvalidSession | kNotImplemented | kInsufficientRight | kNotFound
  | kInternalError | kForbidden
  deriving DecidableEq

inductive Role
  | kNone | kReader | kWriter | kOwner
  deriving DecidableEq

namespace Role

/-- The value of the enumerator. -/
def toInt : Role → ℤ
  | kNone => 0
  | kReader => 1
  | kWriter => 2
  | kOwner => 3

/-- `Role_IsValid` together with the cast back. -/
def ofInt? (n : ℤ) : Option Role :=
  if n = 0 then some kNone
  else if n = 1 then some kReader
  else if n = 2 then some kWriter
  else if n = 3 then some kOwner
  else none

theorem toInt_injective : Function.Injective toInt := by
  intro r s h
  cases r <;> cases s <;> simp_all [toInt]

/-- Roles compare as the enumerators do. -/
instance : LinearOrder Role := LinearOrder.lift' toInt toInt_injective

theorem le_iff {r s : Role} : r ≤ s ↔ r.toInt ≤ s.toInt := Iff.rfl

theorem lt_iff {r s : Role} : r < s ↔ r.toInt < s.toInt := Iff.rfl

theorem kNone_le (r : Role) : kNone ≤ r := by cases r <;> decide

theorem le_kOwner (r : Role) : r ≤ kOwner := by cases r <;> decide

instance : OrderBot Role where
  bot := kNone
  bot_le := kNone_le

@[simp] theorem ofInt?_toInt (r : Role) : ofInt? r.toInt = some r := by cases r <;> decide

end Role

inductive SshKeyType
  | kSshKeyRsa | kSshKeyDsa
  deriving DecidableEq

/-- The value of the enumerator. -/
def SshKeyType.toInt : SshKeyType → ℤ
  | kSshKeyRsa => 0
  | kSshKeyDsa => 1

/-! ## Requests -/

structure UserAuth where
  user : Bytes
  password : Bytes

structure UserCreate where
  user : Bytes
  password : Bytes
  email : Bytes

structure UserPasswordChange where
  user : Bytes
  oldPassword : Option Bytes := none
  newPassword : Bytes

/-- The `SshKey` of a request. -/
structure SshKey where
  type : SshKeyType
  key : Bytes
  desc : Option Bytes := none
  keyId : Option ℕ := none

structure UserSshKey where
  key : SshKey

structure GroupCreate where
  grp : Option Bytes := none
  desc : Bytes

/-- How a request names a group: `grp_id` wins over `grp`. -/
structure GroupRef where
  grpId : Option ℤ := none
  grp : Option Bytes := none

/-- How a request names a user: `user_id` wins over `user`. -/
structure UserRef where
  userId : Option ℤ := none
  user : Option Bytes := none

/-- How a request names a repository: `repo_id` wins over `repo`. -/
structure RepoRef where
  repoId : Option ℤ := none
  repo : Option Bytes := none

structure GroupDelete extends GroupRef

structure GroupAddUser extends GroupRef, UserRef where
  role : Role

structure GroupRemoveUser extends GroupRef, UserRef

/-- `GroupSelector` and `GroupMemberSelector`, whose other fields no handler reads. -/
structure GroupSelector extends GroupRef

structure RepoCreate where
  name : Bytes
  desc : Bytes
  isPublic : Bool

/-- `repo` is `required` in `service.proto`, and the web client leaves it out. -/
structure RepoUpdate extends RepoRef where
  name : Bytes
  desc : Bytes
  isPublic : Bool

structure RepoDelete extends RepoRef

structure RepoAddUser extends RepoRef, UserRef where
  role : Role

structure RepoRemoveUser extends RepoRef, UserRef

structure RepoAddGroup extends RepoRef, GroupRef where
  role : Role

structure RepoRemoveGroup extends RepoRef, GroupRef

/-- `RepoSelector`, whose other fields no handler reads. -/
structure RepoSelector extends RepoRef

structure CommitSelector extends RepoRef where
  revision : Bytes

structure LogSelector extends RepoRef where
  revision : Option Bytes := none
  limit : Option UInt32 := none
  offset : Option UInt32 := none

structure TreeSelector extends RepoRef where
  revision : Option Bytes := none
  directory : Option Bytes := none

structure BlobSelector extends RepoRef where
  revision : Option Bytes := none
  path : Option Bytes := none

structure DiffSelector extends RepoRef where
  revisionOld : Option Bytes := none
  revisionNew : Option Bytes := none

structure ShellControl where
  userId : ℤ
  repoName : Bytes

/-! ## Responses -/

structure StatusMsg where
  status : Option Status := none
  msg : Option Bytes := none

structure ServiceInfo where
  cloneUser : Option Bytes := none
  cloneHost : Option Bytes := none
  version : Option Bytes := none
  startTime : Option ℤ := none
  isRegisterEnabled : Option Bool := none

/-- `role` is the enumerator's value: it is cast from a column that nothing restricts. -/
structure Session where
  user : Option Bytes := none
  userId : Option ℤ := none
  email : Option Bytes := none
  status : Option Status := none
  msg : Option Bytes := none
  role : Option ℤ := none

/-- The `SshKey` of a response; `type` is a stored value cast to the enumeration. -/
structure StoredSshKey where
  type : ℤ
  key : Bytes
  desc : Bytes
  keyId : ℤ

structure UserSshKeys where
  keys : List StoredSshKey := []
  status : Option Status := none
  msg : Option Bytes := none

/-- `size` has 32 bits; the number of members is cut to them when it is set. -/
structure GroupInfo where
  grp : Option Bytes := none
  size : Option UInt32 := none
  grpId : Option ℤ := none
  desc : Option Bytes := none
  status : Option Status := none
  msg : Option Bytes := none

structure GroupList where
  grps : List GroupInfo := []
  status : Option Status := none
  msg : Option Bytes := none

/-- A member of a group or repository; `role` is a stored value cast to the enumeration. -/
structure Member where
  user : Option Bytes := none
  userId : Option ℤ := none
  role : Option ℤ := none
  grp : Option Bytes := none
  grpId : Option ℤ := none

structure MemberList where
  status : Option Status := none
  msg : Option Bytes := none
  groups : List Member := []
  users : List Member := []

structure RepoInfo where
  status : Option Status := none
  msg : Option Bytes := none
  id : Option ℤ := none
  name : Option Bytes := none
  desc : Option Bytes := none
  isPublic : Option Bool := none
  lastCommitTime : Option ℕ := none

structure RepoList where
  repos : List RepoInfo := []
  status : Option Status := none
  msg : Option Bytes := none

structure GitBranches where
  status : Option Status := none
  msg : Option Bytes := none
  branches : List Bytes := []

structure GitSignature where
  name : Option Bytes := none
  email : Option Bytes := none
  time : Option ℕ := none

structure GitCommit where
  status : Option Status := none
  id : Option Bytes := none
  parentsId : List Bytes := []
  msg : Option Bytes := none
  time : Option ℕ := none
  commiter : Option GitSignature := none
  author : Option GitSignature := none
  treeId : Option Bytes := none

structure GitLog where
  status : Option Status := none
  msg : Option Bytes := none
  commits : List GitCommit := []

structure GitTreeEntry where
  name : Bytes
  id : Bytes
  type : ℤ
  mode : ℕ

structure GitTree where
  status : Option Status := none
  msg : Option Bytes := none
  entries : List GitTreeEntry := []

structure GitBlob where
  status : Option Status := none
  msg : Option Bytes := none
  isBinary : Option Bool := none
  data : Option Bytes := none
  contentType : Option Bytes := none

structure GitPatch where
  status : Option Status := none
  msg : Option Bytes := none
  data : Option Bytes := none

structure GitTags where
  status : Option Status := none
  msg : Option Bytes := none
  /-- Name and revision. -/
  tags : List (Bytes × Bytes) := []

structure ShellStatus where
  status : Option Status := none
  repoPath : Option Bytes := none
  role : Option Role := none
  isPublic : Option Bool := none
  isAdmin : Option Bool := none

/-- A response on which the macros can call `set_status` and `set_msg`. -/
class HasStatus (ρ : Type) where
  /-- A fresh response with its status and message set. -/
  failure : Status → Bytes → ρ

instance : HasStatus StatusMsg := ⟨fun s m ↦ { status := some s, msg := some m }⟩
instance : HasStatus GroupInfo := ⟨fun s m ↦ { status := some s, msg := some m }⟩
instance : HasStatus MemberList := ⟨fun s m ↦ { status := some s, msg := some m }⟩
instance : HasStatus RepoInfo := ⟨fun s m ↦ { status := some s, msg := some m }⟩
instance : HasStatus GitBranches := ⟨fun s m ↦ { status := some s, msg := some m }⟩
instance : HasStatus GitCommit := ⟨fun s m ↦ { status := some s, msg := some m }⟩
instance : HasStatus GitLog := ⟨fun s m ↦ { status := some s, msg := some m }⟩
instance : HasStatus GitTree := ⟨fun s m ↦ { status := some s, msg := some m }⟩
instance : HasStatus GitBlob := ⟨fun s m ↦ { status := some s, msg := some m }⟩
instance : HasStatus GitPatch := ⟨fun s m ↦ { status := some s, msg := some m }⟩
instance : HasStatus GitTags := ⟨fun s m ↦ { status := some s, msg := some m }⟩

/-- Any response of the service. -/
inductive Message
  | statusMsg (m : StatusMsg)
  | serviceInfo (m : ServiceInfo)
  | session (m : Session)
  | userSshKeys (m : UserSshKeys)
  | groupInfo (m : GroupInfo)
  | groupList (m : GroupList)
  | memberList (m : MemberList)
  | repoInfo (m : RepoInfo)
  | repoList (m : RepoList)
  | gitBranches (m : GitBranches)
  | gitCommit (m : GitCommit)
  | gitLog (m : GitLog)
  | gitTree (m : GitTree)
  | gitBlob (m : GitBlob)
  | gitPatch (m : GitPatch)
  | gitTags (m : GitTags)
  | shellStatus (m : ShellStatus)

/-- The status of a response; `ServiceInfo` has no such field. -/
def Message.status : Message → Option Status
  | statusMsg m => m.status
  | serviceInfo _ => none
  | session m => m.status
  | userSshKeys m => m.status
  | groupInfo m => m.status
  | groupList m => m.status
  | memberList m => m.status
  | repoInfo m => m.status
  | repoList m => m.status
  | gitBranches m => m.status
  | gitCommit m => m.status
  | gitLog m => m.status
  | gitTree m => m.status
  | gitBlob m => m.status
  | gitPatch m => m.status
  | gitTags m => m.status
  | shellStatus m => m.status

/-! ## Fields that are not set -/

/-- The path to a field from the response that contains it. -/
inductive Field
  | status | user | role | cloneUser | cloneHost | version | startTime | isRegisterEnabled | id
  | name | desc | isPublic
  | groups (field : Field)
  | users (field : Field)
  | repos (field : Field)
  deriving DecidableEq

/-- The field, if it is not set. -/
def unset {α : Type} (field : Field) : Option α → List Field
  | none => [field]
  | some _ => []

/-- The `required` fields that are not set. -/
def Member.missing (m : Member) : List Field := unset .role m.role

/-- The `required` fields that are not set. -/
def RepoInfo.missing (m : RepoInfo) : List Field :=
  unset .status m.status ++ unset .id m.id ++ unset .name m.name ++ unset .desc m.desc
    ++ unset .isPublic m.isPublic

/-- What is not set of the status, where a response has one, and the `required` fields of the
response and of the messages in it. Keys, branches, tree entries and tags always have theirs. -/
def Message.missing : Message → List Field
  | serviceInfo m =>
    unset .cloneUser m.cloneUser ++ unset .cloneHost m.cloneHost ++ unset .version m.version
      ++ unset .startTime m.startTime ++ unset .isRegisterEnabled m.isRegisterEnabled
  | session m => unset .status m.status ++ unset .user m.user
  | memberList m =>
    unset .status m.status ++ m.groups.flatMap (fun g ↦ g.missing.map .groups)
      ++ m.users.flatMap fun u ↦ u.missing.map .users
  | repoInfo m => m.missing
  | repoList m => unset .status m.status ++ m.repos.flatMap fun r ↦ r.missing.map .repos
  -- no other response has a required field, but for the status
  | m => unset .status m.status

end Pb

end Scissy
