import Scissy.Server.Service

/-!
# The views

The handlers that show repositories, and `shellControl`, which answers the ssh shell. They write
nothing. All the git views check the right to read, open the repository and compute the response
from it (`gitView`); a repository is read at one moment.

## What git is asked

A view asks libgit2 for objects, one after the other, and stops at the first one that is missing.
A `GitRepository` has an answer for each question, so what follows the opening is a function from a
repository to a response, with the early exits of the handler. The functions that copy a commit or a
signature into a message are those of the source, with their arithmetic.
-/

open Interaction Interaction.Prog

namespace Scissy

open Repositories (getRepoPath)

namespace Service

/-! ## The list of repositories -/

/-- The loop of `reposList`, which opens every repository. -/
def reposListInfos (d : Deployment) :
    List (Bytes × Bytes × ℤ × Bool) → Server (List Pb.RepoInfo)
  | [] => return []
  | (name, desc, id, isPublic) :: rows => do
    let repo ← issue (.gitOpen (getRepoPath d id))
    let infos ← reposListInfos d rows
    let info : Pb.RepoInfo :=
      { name := some name
        id := some id
        desc := some desc
        isPublic := some isPublic
        lastCommitTime := repo.map (·.lastCommitTime) }
    return info :: infos

def reposList (d : Deployment) : Server (Outcome Pb.RepoList) := do
  let rows ← issue (.query .reposList)
  let repos ← reposListInfos d rows
  return .returned true { repos, status := some .kSucceed }

/-! ## One repository -/

def repoGetInfo (d : Deployment) (thread : Option Session) (request : Pb.RepoSelector) :
    Server (Outcome Pb.RepoInfo) :=
  (checkPublicRepo thread request.toRepoRef).orReturn fun repoId ↦ do
    match ← fetch (.repoGetInfo repoId) with
    | none => return reply .kNotFound (text "repository not found")
    | some (name, desc, isPublic) =>
      let repo ← issue (.gitOpen (getRepoPath d repoId))
      return .returned true
        { id := some repoId
          name := some name
          desc := some desc
          isPublic := some isPublic
          lastCommitTime := repo.map (·.lastCommitTime)
          status := some .kSucceed }

def repoListMembers (thread : Option Session) (request : Pb.RepoSelector) :
    Server (Outcome Pb.MemberList) :=
  (checkPublicRepo thread request.toRepoRef).orReturn fun repoId ↦ do
    let groups ← issue (.query (.repoListGroups repoId))
    let users ← issue (.query (.repoListUsers repoId))
    return .returned true
      { groups := groups.map fun (id, name, role) ↦
          { grpId := some id, grp := some name, role := some role }
        users := users.map fun (id, name, role) ↦
          { userId := some id, user := some name, role := some role }
        status := some .kSucceed }

/-! ## Git views -/

variable {ρ : Type}

/-- The common part of the git views: check, open, and show. -/
def gitView [Pb.HasStatus ρ] (d : Deployment) (thread : Option Session) (msg : Pb.RepoRef)
    (view : GitRepository → Outcome ρ) : Server (Outcome ρ) :=
  (checkPublicRepo thread msg).orReturn fun repoId ↦ do
    match ← issue (.gitOpen (getRepoPath d repoId)) with
    | none => return reply .kInternalError (text "internal error")
    | some repo => return view repo

def repoListBranches (d : Deployment) (thread : Option Session) (request : Pb.RepoSelector) :
    Server (Outcome Pb.GitBranches) :=
  gitView d thread request.toRepoRef fun repo ↦
    .returned true { branches := repo.branches, status := some .kSucceed }

/-- `static_cast<uint64_t>(time) * 1000 + offset` -/
def milliseconds (time offset : ℤ) : ℕ := ((time * 1000 + offset) % 2 ^ 64).toNat

def copySignature (src : GitSignature) : Pb.GitSignature where
  name := some src.name
  email := some src.email
  time := some (milliseconds src.time src.offset)

def copyCommit (src : GitCommit) : Pb.GitCommit where
  id := some src.id
  parentsId := src.parents
  treeId := some src.treeId
  msg := some src.message
  time := some (milliseconds src.time src.timeOffset)
  commiter := some (copySignature src.committer)
  author := some (copySignature src.author)

/-- The commit a revision names, by way of its object id. -/
def lookupRevision (repo : GitRepository) (revision : Bytes) : Option GitCommit :=
  (repo.referenceToOid revision).bind repo.commitLookup

def repoGetCommit (d : Deployment) (thread : Option Session) (request : Pb.CommitSelector) :
    Server (Outcome Pb.GitCommit) :=
  gitView d thread request.toRepoRef fun repo ↦
    match lookupRevision repo request.revision with
    | none => reply .kNotFound (text "commit not found")
    | some commit => .returned true { copyCommit commit with status := some .kSucceed }

/-- The loop of `repoGetLog`, from step `i` on. -/
def logCommits (repo : GitRepository) (stop offset : UInt32) : ℕ → List Bytes → List Pb.GitCommit
  | _, [] => []
  | i, oid :: oids =>
    if i < stop.toNat then
      if i < offset.toNat then logCommits repo stop offset (i + 1) oids
      else match repo.commitLookup oid with
        | none => logCommits repo stop offset (i + 1) oids
        | some commit => copyCommit commit :: logCommits repo stop offset (i + 1) oids
    else []

/-- The limit `repoGetLog` uses. -/
def logLimit (d : Deployment) : Option UInt32 → UInt32
  | none => d.gitLogLimit
  | some limit => if limit = 0 ∨ limit > d.gitLogLimit then d.gitLogLimit else limit

def repoGetLog (d : Deployment) (thread : Option Session) (request : Pb.LogSelector) :
    Server (Outcome Pb.GitLog) :=
  gitView d thread request.toRepoRef fun repo ↦
    let log (start : Option Bytes) : Outcome Pb.GitLog :=
      let offset := request.offset.getD 0
      .returned true
        { commits := logCommits repo (logLimit d request.limit + offset) offset 0 (repo.walk start)
          status := some .kSucceed }
    if !repo.canWalk then reply .kInternalError (text "failed to initialize revision walker")
    else match request.revision with
    | none => log none
    | some revision =>
      match repo.referenceToOid revision with
      | none => reply .kNotFound (text "commit not found")
      | some oid => log (some oid)

def repoGetTree (d : Deployment) (thread : Option Session) (request : Pb.TreeSelector) :
    Server (Outcome Pb.GitTree) :=
  gitView d thread request.toRepoRef fun repo ↦
    match lookupRevision repo (request.revision.getD []) with
    | none => reply .kNotFound (text "commit not found")
    | some commit =>
      match repo.tree commit.treeId (request.directory.getD []) with
      | none => reply .kNotFound (text "tree not found")
      | some tree => .returned true { entries := tree.entries, status := some .kSucceed }

def repoGetBlob (d : Deployment) (thread : Option Session) (request : Pb.BlobSelector) :
    Server (Outcome Pb.GitBlob) :=
  gitView d thread request.toRepoRef fun repo ↦
    let path := request.path.getD []
    match lookupRevision repo (request.revision.getD []) with
    | none => reply .kNotFound (text "commit not found")
    | some commit =>
      match repo.tree commit.treeId [] with
      | none => reply .kNotFound (text "tree not found")
      | some tree =>
        match repo.treeEntryByPath tree (cStr path) with
        | none => reply .kNotFound (text "tree entry not found")
        | some entry =>
          match repo.blobLookup entry with
          | none => reply .kNotFound (text "blob not found")
          | some blob =>
            .returned true
              { isBinary := some blob.isBinary
                data := if blob.isBinary then none else some blob.rawContent
                contentType := some (d.mimeType path)
                status := some .kSucceed }

/-- The old commit of a patch: the one asked for, or the first parent if there is one. -/
def oldCommit (repo : GitRepository) (revisionOld : Option Bytes) (commitNew : GitCommit) :
    Option (Option GitCommit) :=
  match revisionOld, commitNew.parents with
  | some revision, _ => (lookupRevision repo revision).map some
  | none, parent :: _ => (repo.commitLookup parent).map some
  | none, [] => some none

def repoGetPatch (d : Deployment) (thread : Option Session) (request : Pb.DiffSelector) :
    Server (Outcome Pb.GitPatch) :=
  gitView d thread request.toRepoRef fun repo ↦
    match lookupRevision repo (request.revisionNew.getD []) with
    | none => reply .kNotFound (text "commit not found")
    | some commitNew =>
      match repo.tree commitNew.treeId [] with
      | none => reply .kNotFound (text "tree not found")
      | some treeNew =>
        match oldCommit repo request.revisionOld commitNew with
        | none => reply .kNotFound (text "commit not found")
        | some commitOld =>
          let treeOld := commitOld.bind fun commit ↦ repo.tree commit.treeId []
          match repo.diffTreeToTree treeOld treeNew with
          | none => throwStatusMsg .kInternalError (text "diff error")
          | some patches =>
            .returned true
              { data := some (patches.flatMap fun patch ↦ cStr (patch.getD []))
                status := some .kSucceed }

def repoGetTags (d : Deployment) (thread : Option Session) (request : Pb.RepoSelector) :
    Server (Outcome Pb.GitTags) :=
  gitView d thread request.toRepoRef fun repo ↦
    .returned true { tags := repo.tags, status := some .kSucceed }

/-! ## The ssh shell -/

def shellControl (d : Deployment) (request : Pb.ShellControl) :
    Server (Outcome Pb.ShellStatus) := do
  match ← Db.repoGetId request.repoName with
  | none => return .returned true { status := some .kNotFound }
  | some repoId =>
    let isAdmin := (← Db.userIsAdmin request.userId).getD false
    let (ok, role) ← Db.repoGetUserRole repoId request.userId
    let isPublic := (← Db.repoIsPublic repoId).getD false
    return .returned true
      { repoPath := some (getRepoPath d repoId)
        role := some (if ok then role else .kNone)
        isPublic := some isPublic
        isAdmin := some isAdmin
        status := some .kSucceed }

end Service

end Scissy
