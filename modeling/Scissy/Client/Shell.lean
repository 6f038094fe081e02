import Scissy.Access.Read
import Scissy.Access.Session

/-!
# The ssh shell

`scissy-shell`, which sshd starts with the forced command of an authorized key: it parses
`SSH_ORIGINAL_COMMAND`, asks the server about the user and the repository over the unix socket, and
executes a git program. The decision is split between `Service::shellControl` and `checkAcl`;
`shellMain_exec_iff` states it in terms of the tables, and compares the right to read
(`Database.shellAllows_iff_canRead`) with the gate of the views.

## Who decides what

The server answers with four facts: the number of the repository, whether the user is an
administrator, the role, and whether the repository is public. The shell compares the role with each
value that is enough, by equality, and the comparisons differ with the action. That these tests come
to an order on roles is `role_tests_iff`, and that the two halves come to one decision is
`aclOf_shellStatus_iff`.

## What ends in what

The shell refuses with the exit status 1, whatever the reason. A program that is executed replaces
the shell, so there is one result for it, with the path of the program and its argument. What git
does then is not a part of the model, and neither is the case that the program cannot be started.
-/

open Relational Interaction Interaction.Prog

namespace Scissy

open Repositories (getRepoPath)

/-! ## Parsing -/

/-- The characters of a C string, without the terminator. -/
def CString : Type := {s : Bytes // (0 : UInt8) ∉ s}

inductive Action
  | kGitUploadPack | kGitReceivePack | kGitUploadArchive
  deriving DecidableEq

/-- The index of an action in the table of programs. -/
def Action.toNat : Action → ℕ
  | kGitUploadPack => 0
  | kGitReceivePack => 1
  | kGitUploadArchive => 2

def quote : UInt8 := 39

def backslash : UInt8 := 92

/-- The loop of `parseCmd`; the flag is `in_quote`. -/
def unquote : Bool → Bytes → Bytes
  | _, [] => []
  | true, c :: cs => if c = quote then unquote false cs else c :: unquote true cs
  | false, c :: cs =>
    if c = quote then unquote true cs
    else if c = backslash then
      match cs with
      | c' :: cs' => c' :: unquote false cs'
      | [] => []
    else c :: unquote false cs

/-- The action and the name of the repository. -/
def parseCmd (cmd : CString) : Option (Action × Bytes) :=
  if (text "git-upload-pack ").isPrefixOf cmd.1 then
    some (.kGitUploadPack, unquote false (cmd.1.drop 16))
  else if (text "git-upload-archive ").isPrefixOf cmd.1 then
    some (.kGitUploadArchive, unquote false (cmd.1.drop 19))
  else if (text "git-receive-pack ").isPrefixOf cmd.1 then
    some (.kGitReceivePack, unquote false (cmd.1.drop 17))
  else none

/-! ## The check -/

/-- The tests `checkAcl` makes on the response: the path, if the user may run the action. -/
def aclOf (action : Action) (response : Pb.ShellStatus) : Option Bytes :=
  let repoPath := response.repoPath.getD []
  let role := response.role.getD .kNone
  if response.status ≠ some .kSucceed then none
  else if response.isAdmin.getD false then some repoPath
  else if (action = .kGitUploadPack ∨ action = .kGitUploadArchive) ∧
      (response.isPublic.getD false ∨ role = .kReader) then some repoPath
  else if role = .kWriter ∨ role = .kOwner then some repoPath
  else none

/-- `checkAcl`, over a channel that delivers the call and its response. -/
def checkAcl (d : Deployment) (userId : ℤ) (action : Action) (repoName : Bytes) :
    Server (Option Bytes) := do
  let reply ← dispatch d none (.shellControl { userId, repoName })
  match reply.outcome with
  | .returned true (.shellStatus response) => return aclOf action response
  -- a handler that returns false, throws or crashes cancels the call
  | _ => return none

/-- The table of `runAction`. -/
def pathes : List Bytes :=
  [text "git-upload-pack", text "git-receive-pack", text "git-upload-archive"]

def Action.program (action : Action) : Bytes := pathes.getD action.toNat []

/-- How the shell ends. -/
inductive ShellResult
  | exit (code : ℤ)
  | exec (program argument : Bytes)
  deriving DecidableEq

/-- `main`, with the option `-user-id` and the variable `SSH_ORIGINAL_COMMAND`. -/
def shellMain (d : Deployment) (userId : ℤ) (cmd : CString) : Server ShellResult :=
  match parseCmd cmd with
  | none => return .exit 1
  | some (action, repoName) => do
    match ← checkAcl d userId action repoName with
    | none => return .exit 1
    | some repoPath => return .exec action.program repoPath

/-! ## What the shell decides -/

/-- The actions that only read. -/
def Action.Reads (action : Action) : Prop := action = .kGitUploadPack ∨ action = .kGitUploadArchive

/-- What a user may do with a repository through the shell. -/
def Database.ShellAllows (db : Database) (userId repoId : ℤ) (repo : Repo) (action : Action) :
    Prop :=
  db.IsAdmin userId ∨
    (action.Reads ∧ (repo.isPublic = true ∨ .kReader ≤ db.reportedRole repoId userId)) ∨
    .kWriter ≤ db.reportedRole repoId userId

theorem program_prefix_of_parseCmd {cmd : CString} {action : Action} {repoName : Bytes}
    (h : parseCmd cmd = some (action, repoName)) : action.program ++ text " " <+: cmd.1 := by
  unfold parseCmd at h
  split_ifs at h with h₁ h₂ h₃ <;>
    obtain ⟨rfl, -⟩ := Prod.mk.inj (Option.some_inj.mp h)
  exacts [List.isPrefixOf_iff_prefix.mp h₁, List.isPrefixOf_iff_prefix.mp h₂,
    List.isPrefixOf_iff_prefix.mp h₃]

variable {w : World} {A : Env → Prop}

theorem userIsAdmin_iff {db : Database} {userId : ℤ} :
    (((db.users.rows.filter (·.1 = userId)).map fun r ↦ decide (r.2.roleId = 3)).head?.getD false) =
      true ↔ db.IsAdmin userId := by
  rw [List.head?_map]
  cases hrow : (db.users.rows.filter (·.1 = userId)).head? with
  | none =>
    refine iff_of_false nofun ?_
    rintro ⟨user, huser, -⟩
    have hsome := AutoTable.head?_filter_id.mpr ⟨huser, rfl⟩
    rw [hrow] at hsome
    cases hsome
  | some r =>
    obtain ⟨id, user⟩ := r
    obtain ⟨hmem, rfl⟩ := AutoTable.head?_filter_id.mp hrow
    rw [Option.map_some, Option.getD_some, decide_eq_true_eq]
    refine ⟨fun h ↦ ⟨user, hmem, h⟩, ?_⟩
    rintro ⟨user', huser', h⟩
    rwa [AutoTable.eq_of_mem_of_mem hmem huser']

/-- The answer of `shellControl`. -/
def shellStatus (d : Deployment) (db : Database) (request : Pb.ShellControl) : Pb.ShellStatus :=
  match ((Query.repoGetId request.repoName).rows 0 db).head? with
  | none => { status := some .kNotFound }
  | some repoId =>
    { repoPath := some (getRepoPath d repoId)
      role := some (db.reportedRole repoId request.userId)
      isPublic := some ((db.isPublic? repoId).getD false)
      isAdmin := some (((Query.userIsAdmin request.userId).rows 0 db).head?.getD false)
      status := some .kSucceed }

theorem shellControl_returns (h : w.db.Valid) (d : Deployment) (request : Pb.ShellControl) :
    (Service.shellControl d request).Returns A w (.returned true (shellStatus d w.db request)) := by
  refine (fetch_returns fun _ ↦ rfl).wp_bind ?_
  rw [shellStatus]
  cases ((Query.repoGetId request.repoName).rows 0 w.db).head? with
  | none => exact ⟨rfl, rfl⟩
  | some repoId =>
    refine (fetch_returns fun _ ↦ rfl).wp_bind ?_
    refine (repoGetUserRole_returns h repoId request.userId).wp_bind ?_
    exact (repoIsPublic_returns repoId).wp_bind ⟨rfl, rfl⟩

theorem role_tests_iff {reads isPublic : Prop} (role : Pb.Role) :
    (reads ∧ (isPublic ∨ role = .kReader)) ∨ role = .kWriter ∨ role = .kOwner ↔
      (reads ∧ (isPublic ∨ .kReader ≤ role)) ∨ .kWriter ≤ role := by
  have hreader : .kReader ≤ role ↔ role = .kReader ∨ role = .kWriter ∨ role = .kOwner := by
    cases role <;> decide
  have hwriter : .kWriter ≤ role ↔ role = .kWriter ∨ role = .kOwner := by
    cases role <;> decide
  rw [hreader, hwriter]
  tauto

theorem ite_some_eq_some_iff {α : Type} (a b c : Prop) [Decidable a] [Decidable b] [Decidable c]
    {x y : α} : (if a then some x else if b then some x else if c then some x else none) = some y ↔
      (a ∨ b ∨ c) ∧ y = x := by
  split_ifs <;> simp [*, eq_comm]

/-- **The four fields of the response recombine to the right decision.** -/
theorem aclOf_shellStatus_iff {db : Database} (h : db.Valid) (d : Deployment) (userId : ℤ)
    (action : Action) (repoName path : Bytes) :
    aclOf action (shellStatus d db { userId, repoName }) = some path ↔
      ∃ repoId repo, (repoId, repo) ∈ db.repos.rows ∧ repo.name = repoName ∧
        db.ShellAllows userId repoId repo action ∧ path = getRepoPath d repoId := by
  rw [shellStatus]
  dsimp only
  cases hname : ((Query.repoGetId repoName).rows 0 db).head? with
  | none =>
    refine iff_of_false nofun ?_
    rintro ⟨repoId, repo, hrepo, rfl, -⟩
    rw [h.head?_repoGetId_iff.mpr ⟨repo, hrepo, rfl⟩] at hname
    cases hname
  | some repoId =>
    obtain ⟨repo, hrepo, rfl⟩ := h.head?_repoGetId_iff.mp hname
    have hallows : aclOf action
        { repoPath := some (getRepoPath d repoId)
          role := some (db.reportedRole repoId userId)
          isPublic := some ((db.isPublic? repoId).getD false)
          isAdmin := some (((Query.userIsAdmin userId).rows 0 db).head?.getD false)
          status := some .kSucceed } = some path ↔
        db.ShellAllows userId repoId repo action ∧ path = getRepoPath d repoId := by
      have hpublic := Database.isPublic?_eq_some_iff.mpr ⟨repo, hrepo, rfl⟩
      have htests : db.ShellAllows userId repoId repo action ↔
          ((Query.userIsAdmin userId).rows 0 db).head?.getD false = true ∨
            (action.Reads ∧ (repo.isPublic = true ∨ db.reportedRole repoId userId = .kReader)) ∨
            db.reportedRole repoId userId = .kWriter ∨ db.reportedRole repoId userId = .kOwner := by
        rw [Database.ShellAllows, ← userIsAdmin_iff, role_tests_iff]
        rfl
      rw [htests, aclOf, hpublic]
      simp only [Option.getD_some, ne_eq, not_true_eq_false, if_false]
      exact ite_some_eq_some_iff _ _ _
    rw [hallows]
    constructor
    · rintro ⟨hallows, hpath⟩
      exact ⟨repoId, repo, hrepo, rfl, hallows, hpath⟩
    · rintro ⟨repoId', repo', hrepo', hname', hallows', hpath⟩
      obtain ⟨rfl, rfl⟩ := Prod.mk.inj (h.repo_eq_of_name hrepo' hrepo hname')
      exact ⟨hallows', hpath⟩

theorem checkAcl_returns (h : w.db.Valid) (d : Deployment) (userId : ℤ) (action : Action)
    (repoName : Bytes) :
    (checkAcl d userId action repoName).Returns A w
      (aclOf action (shellStatus d w.db { userId, repoName })) := by
  rw [checkAcl, dispatch]
  exact (answer_returns (shellControl_returns h d { userId, repoName })).bind (returns_done _)

/-! ## The shell, end to end -/

theorem shellMain_wp (h : w.db.Valid) (d : Deployment) (userId : ℤ) (cmd : CString) :
    (shellMain d userId cmd).wp A
      (fun r v ↦ v = w ∧ ∀ program argument, r = .exec program argument ↔
        ∃ action repoName, parseCmd cmd = some (action, repoName) ∧ program = action.program ∧
          aclOf action (shellStatus d w.db { userId, repoName }) = some argument) w := by
  rw [shellMain]
  cases parseCmd cmd with
  | none => exact ⟨rfl, by simp⟩
  | some p =>
    obtain ⟨action, repoName⟩ := p
    rw [wp_bind]
    refine wp_mono (checkAcl_returns h d userId action repoName) fun r v hr ↦ ?_
    obtain ⟨rfl, rfl⟩ := hr
    cases hacl : aclOf action (shellStatus d v.db { userId, repoName }) with
    | none => exact ⟨rfl, by simp [hacl]⟩
    | some path => exact ⟨rfl, by simp [hacl, eq_comm]⟩

theorem run_shellMain_eq_exec_iff (h : w.db.Valid) (d : Deployment) (env : ℕ → Env) (userId : ℤ)
    (cmd : CString) (program argument : Bytes) :
    ((shellMain d userId cmd).run env w).1 = .exec program argument ↔
      ∃ action repoName repoId repo, parseCmd cmd = some (action, repoName) ∧
        (repoId, repo) ∈ w.db.repos.rows ∧ repo.name = repoName ∧
        w.db.ShellAllows userId repoId repo action ∧
        (program = action.program ∧ program ++ text " " <+: cmd.1) ∧
        argument = getRepoPath d repoId := by
  have hrun := (shellMain_wp (A := fun _ ↦ True) h d userId cmd).run env fun _ ↦ trivial
  rw [hrun.2]
  constructor
  · rintro ⟨action, repoName, hparse, rfl, hacl⟩
    obtain ⟨repoId, repo, hrepo, hname, hallows, hpath⟩ :=
      (aclOf_shellStatus_iff h d userId action repoName argument).mp hacl
    exact ⟨action, repoName, repoId, repo, hparse, hrepo, hname, hallows,
      ⟨rfl, program_prefix_of_parseCmd hparse⟩, hpath⟩
  · rintro ⟨action, repoName, repoId, repo, hparse, hrepo, hname, hallows, ⟨rfl, -⟩, hpath⟩
    exact ⟨action, repoName, hparse, rfl,
      (aclOf_shellStatus_iff h d userId action repoName argument).mpr
        ⟨repoId, repo, hrepo, hname, hallows, hpath⟩⟩

/-- For a user who is no administrator, the right to read is that of the views. -/
theorem Database.shellAllows_iff_canRead {db : Database} {userId repoId : ℤ} {repo : Repo}
    {action : Action} (hadmin : ¬ db.IsAdmin userId) (hreads : action.Reads)
    (hrepo : (repoId, repo) ∈ db.repos.rows) :
    db.ShellAllows userId repoId repo action ↔ db.CanRead userId repoId := by
  have hpublic := isPublic?_eq_some_iff.mpr ⟨repo, hrepo, rfl⟩
  simp only [ShellAllows, hadmin, hreads, true_and, false_or, CanRead, hpublic,
    Option.some.injEq, exists_eq_left']
  -- writers are readers
  refine or_iff_left_of_imp fun hwriter ↦ Or.inr ?_
  exact le_trans (by decide) hwriter

/-- **What the shell executes.** A git program runs exactly when the command names an action and a
repository the user may run it on; it is the program the command starts with, on the directory of
that repository. For a user who is no administrator, reading through the shell and reading through
the views are the same right. -/
theorem shellMain_exec_iff (h : w.db.Valid) (d : Deployment) (env : ℕ → Env) (userId : ℤ)
    (cmd : CString) :
    (∀ program argument, ((shellMain d userId cmd).run env w).1 = .exec program argument ↔
      ∃ action repoName repoId repo, parseCmd cmd = some (action, repoName) ∧
        (repoId, repo) ∈ w.db.repos.rows ∧ repo.name = repoName ∧
        w.db.ShellAllows userId repoId repo action ∧
        (program = action.program ∧ program ++ text " " <+: cmd.1) ∧
        argument = getRepoPath d repoId) ∧
    (¬ w.db.IsAdmin userId → ∀ action repoName repoId repo session env',
      parseCmd cmd = some (action, repoName) → action.Reads →
      (repoId, repo) ∈ w.db.repos.rows → repo.name = repoName → session.userId = userId →
      ((∃ program argument, ((shellMain d userId cmd).run env w).1 = .exec program argument) ↔
        Passes session repoId env' w)) := by
  have hexec := run_shellMain_eq_exec_iff h d env userId cmd
  refine ⟨hexec, ?_⟩
  -- the command names one action and one repository, so only its right is in question
  rintro hadmin action repoName repoId repo session env' hparse hreads hrepo hname rfl
  rw [passes_iff h, ← Database.shellAllows_iff_canRead hadmin hreads hrepo]
  constructor
  · rintro ⟨program, argument, hrun⟩
    obtain ⟨action', repoName', repoId', repo', hparse', hrepo', hname', hallows, -⟩ :=
      (hexec program argument).mp hrun
    obtain ⟨rfl, rfl⟩ := Prod.mk.inj (Option.some_inj.mp (hparse.symm.trans hparse'))
    obtain ⟨rfl, rfl⟩ := Prod.mk.inj (h.repo_eq_of_name hrepo' hrepo (hname'.trans hname.symm))
    exact hallows
  · intro hallows
    exact ⟨_, _, (hexec _ _).mpr ⟨action, repoName, repoId, repo, hparse, hrepo, hname, hallows,
      ⟨rfl, program_prefix_of_parseCmd hparse⟩, rfl⟩⟩

/-- A writer who is no administrator fetches a private repository. -/
theorem shellMain_exec_writer :
    ((shellMain .plain 1 ⟨text "git-upload-pack 'r'", by decide⟩).run (fun _ ↦ {})
        { World.initial with db := .viaGroup .kWriter .kWriter }).1 =
      .exec (text "git-upload-pack") (getRepoPath .plain 1) ∧
    ((∃ program argument, ((shellMain .plain 1 ⟨text "git-upload-pack 'r'", by decide⟩).run
        (fun _ ↦ {}) { World.initial with db := .viaGroup .kWriter .kWriter }).1 =
          .exec program argument) ↔
      Passes { userId := 1 } 1 (fun _ ↦ {})
        { World.initial with db := .viaGroup .kWriter .kWriter }) := by
  have h := shellMain_exec_iff (w := { World.initial with db := .viaGroup .kWriter .kWriter })
    (Database.viaGroup_valid _ _) .plain (fun _ ↦ {}) 1 ⟨text "git-upload-pack 'r'", by decide⟩
  have hparse : parseCmd ⟨text "git-upload-pack 'r'", by decide⟩ =
      some (.kGitUploadPack, text "r") := by decide +kernel
  have hrepo : (1, ⟨text "r", [], false⟩) ∈ (Database.viaGroup .kWriter .kWriter).repos.rows := by
    decide
  refine ⟨(h.1 _ _).mpr ⟨_, _, 1, _, hparse, hrepo, rfl, Or.inr (Or.inr (by decide)), ?_, rfl⟩,
    h.2 (userIsAdmin_iff.not.mp (by decide)) _ _ 1 _ _ _ hparse (Or.inl rfl) hrepo rfl rfl⟩
  exact ⟨by decide, by decide⟩

end Scissy
