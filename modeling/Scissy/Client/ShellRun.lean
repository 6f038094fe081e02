import Scissy.Client.Shell
import Scissy.Security.Mediation

/-!
# The shell while others work

`scissy-shell` makes one call, which the server answers with four queries: for the name, for the
administrators, for the role, and for the public repositories. Other threads act in between, so the
answer may be put together from four states of the tables.

The decision is sound all the same: the shell works on a repository that had the name at some
moment of the call, and for a user who had a ground for the right at some moment of it. And it
overlooks nothing that lasts: one ground that holds for the whole call is enough (`shell_in_run`). A
right whose ground changes during the call may be overlooked.

## Why grounds

A right is a disjunction: the user is an administrator, or the repository is public, or the role is
high enough. Each disjunct is asked by a query of its own. So the answers say of each ground that it
held when it was asked for, and not of the right, which may hold at every moment while no ground
holds for long: a repository is hidden just after its reader was given a role. `Ground` names the
disjuncts (`Database.shellAllows_iff_exists_ground`), and a shell is held to one ground at a time.
-/

open Interaction Interaction.Prog

namespace Scissy

open Repositories (getRepoPath)

/-! ## Grounds -/

/-- Why a user may run an action on a repository. -/
inductive Ground
  | admin
  | isPublic
  | role

def Ground.Holds (db : Database) (userId repoId : ℤ) (action : Action) : Ground → Prop
  | admin => db.IsAdmin userId
  | isPublic => action.Reads ∧ db.isPublic? repoId = some true
  | role => action.Reads ∧ .kReader ≤ db.reportedRole repoId userId ∨
    .kWriter ≤ db.reportedRole repoId userId

theorem Database.shellAllows_iff_exists_ground {db : Database} {userId repoId : ℤ} {repo : Repo}
    {action : Action} (hrepo : (repoId, repo) ∈ db.repos.rows) :
    db.ShellAllows userId repoId repo action ↔
      ∃ ground : Ground, ground.Holds db userId repoId action := by
  have hpublic : db.isPublic? repoId = some repo.isPublic :=
    isPublic?_eq_some_iff.mpr ⟨repo, hrepo, rfl⟩
  rw [ShellAllows]
  constructor
  · rintro (hadmin | ⟨hreads, hvisible | hreader⟩ | hwriter)
    · exact ⟨.admin, hadmin⟩
    · exact ⟨.isPublic, hreads, hpublic.trans (congrArg some hvisible)⟩
    · exact ⟨.role, Or.inl ⟨hreads, hreader⟩⟩
    · exact ⟨.role, Or.inr hwriter⟩
  · rintro ⟨_ | _ | _, hground⟩
    · exact Or.inl hground
    · exact Or.inr (Or.inl ⟨hground.1, Or.inl (Option.some_inj.mp (hpublic.symm.trans hground.2))⟩)
    · exact Or.inr (hground.imp_left fun h ↦ ⟨h.1, Or.inr h.2⟩)

/-- The repository has the name. -/
def Database.HasName (db : Database) (repoId : ℤ) (name : Bytes) : Prop :=
  ∃ repo, (repoId, repo) ∈ db.repos.rows ∧ repo.name = name

/-! ## The call -/

section Call

variable {d : Deployment} {userId : ℤ} {action : Action} {repoName : Bytes} {past : Past}

/-- What the decision says about the states in which it was made. -/
structure Decides (d : Deployment) (userId : ℤ) (action : Action) (repoName : Bytes) (past : Past)
    (decision : Option Bytes) : Prop where
  sound : ∀ path, decision = some path → ∃ repoId, path = getRepoPath d repoId ∧
    past.Saw (·.db.HasName repoId repoName) ∧
    ∃ ground : Ground, past.Saw fun w ↦ ground.Holds w.db userId repoId action
  complete : ∀ repoId (ground : Ground), (∀ event ∈ past, event.before.db.HasName repoId repoName ∧
    ground.Holds event.before.db userId repoId action) → decision = some (getRepoPath d repoId)

/-- The four answers, put together. -/
def answers (path : Bytes) (role : Pb.Role) (isPublic isAdmin : Bool) : Pb.ShellStatus where
  repoPath := some path
  role := some role
  isPublic := some isPublic
  isAdmin := some isAdmin
  status := some .kSucceed

theorem aclOf_answers_iff {path path' : Bytes} {role : Pb.Role} {isPublic isAdmin : Bool} :
    aclOf action (answers path role isPublic isAdmin) = some path' ↔
      (isAdmin = true ∨ (action.Reads ∧ (isPublic = true ∨ .kReader ≤ role)) ∨ .kWriter ≤ role) ∧
        path' = path := by
  rw [← role_tests_iff, aclOf, answers]
  simp only [Option.getD_some, ne_eq, not_true_eq_false, if_false]
  exact ite_some_eq_some_iff _ _ _

/-- Each answer comes from a state of its own. -/
theorem decides_of_answers {repoId : ℤ} {role : Pb.Role} {isPublic isAdmin : Bool}
    (hname : past.Saw (·.db.HasName repoId repoName))
    (hunique : past.Saw fun w ↦ ∀ id, w.db.HasName id repoName → id = repoId)
    (hadmin : past.Saw fun w ↦ isAdmin = true ↔ w.db.IsAdmin userId)
    (hrole : past.Saw fun w ↦ w.db.reportedRole repoId userId = role)
    (hpublic : past.Saw fun w ↦ isPublic = true ↔ w.db.isPublic? repoId = some true) :
    Decides d userId action repoName past
      (aclOf action (answers (getRepoPath d repoId) role isPublic isAdmin)) := by
  constructor
  · intro path hpath
    obtain ⟨hright, rfl⟩ := aclOf_answers_iff.mp hpath
    refine ⟨repoId, rfl, hname, ?_⟩
    rcases hright with rfl | ⟨hreads, rfl | hreader⟩ | hwriter
    · exact ⟨.admin, hadmin.imp fun w h ↦ h.mp rfl⟩
    · exact ⟨.isPublic, hpublic.imp fun w h ↦ ⟨hreads, h.mp rfl⟩⟩
    · exact ⟨.role, hrole.imp fun w h ↦ Or.inl ⟨hreads, h.symm ▸ hreader⟩⟩
    · exact ⟨.role, hrole.imp fun w h ↦ Or.inr (h.symm ▸ hwriter)⟩
  · intro id ground hlasts
    obtain ⟨named, hnamed, huniqueNow⟩ := hunique
    obtain rfl := huniqueNow id (hlasts named hnamed).1
    refine aclOf_answers_iff.mpr ⟨?_, rfl⟩
    cases ground with
    | admin =>
      obtain ⟨event, hmem, hiff⟩ := hadmin
      exact Or.inl (hiff.mpr (hlasts event hmem).2)
    | isPublic =>
      obtain ⟨event, hmem, hiff⟩ := hpublic
      obtain ⟨hreads, hvisible⟩ := (hlasts event hmem).2
      exact Or.inr (Or.inl ⟨hreads, Or.inl (hiff.mpr hvisible)⟩)
    | role =>
      obtain ⟨event, hmem, rfl⟩ := hrole
      exact Or.inr ((hlasts event hmem).2.imp_left fun h ↦ ⟨h.1, Or.inr h.2⟩)

theorem checkAcl_decides (d : Deployment) (userId : ℤ) (action : Action) (repoName : Bytes) :
    (checkAcl d userId action repoName).Obeys (fun w : World ↦ w.db.Valid) (fun _ _ ↦ True)
      (Decides d userId action repoName) [] := by
  rw [checkAcl, dispatch, answer, Service.shellControl]
  simp only [obeys_bind]
  refine fetch_obeys (fun _ _ ↦ trivial) (fun _ _ ↦ rfl) fun row past₁ hreads₁ hsaw₁ ↦ ?_
  cases row with
  | none =>
    refine ⟨(by rintro path ⟨⟩), fun repoId ground hlasts ↦ ?_⟩
    obtain ⟨event, hmem, hvalid, hnone⟩ := hsaw₁
    obtain ⟨repo, hrepo, hname⟩ := (hlasts event hmem).1
    rw [hvalid.head?_repoGetId_iff.mpr ⟨repo, hrepo, hname⟩] at hnone
    cases hnone
  | some repoId =>
    simp only [obeys_bind]
    refine fetch_obeys (fun _ _ ↦ trivial) (fun _ _ ↦ rfl) fun admin past₂ hreads₂ hsaw₂ ↦ ?_
    rw [Db.repoGetUserRole]
    simp only [obeys_bind]
    refine query_obeys (fun _ _ ↦ trivial) fun rows past₃ hreads₃ hsaw₃ ↦ ?_
    rw [obeys_pure, Db.repoIsPublic]
    refine fetch_obeys (fun _ _ ↦ trivial) (fun _ _ ↦ rfl) fun isPublic past₄ hreads₄ hsaw₄ ↦ ?_
    have hsub₃ : past₃ ⊆ past₄ := hreads₄.subset
    have hsub₂ : past₂ ⊆ past₄ := List.Subset.trans hreads₃.subset hsub₃
    have hsub₁ : past₁ ⊆ past₄ := List.Subset.trans hreads₂.subset hsub₂
    -- the loop over the roles ends well
    have hloop : past₃.Saw fun w ↦
        Db.maxRole rows .kNone = (true, w.db.reportedRole repoId userId) := by
      refine hsaw₃.imp fun w hw ↦ ?_
      obtain ⟨hvalid, pick, hrows⟩ := hw
      rw [← hrows]
      exact hvalid.maxRole_userRoleRows repoId userId
    have hok : (Db.maxRole rows .kNone).1 = true := by
      obtain ⟨event, -, hevent⟩ := hloop
      rw [hevent]
    rw [obeys_pure, obeys_pure, if_pos hok]
    refine decides_of_answers ((hsaw₁.mono hsub₁).imp fun w hw ↦ ?_)
      ((hsaw₁.mono hsub₁).imp fun w hw id hname ↦ ?_) ((hsaw₂.mono hsub₂).imp fun w hw ↦ ?_)
      ((hloop.mono hsub₃).imp fun w hw ↦ ?_) (hsaw₄.imp fun w hw ↦ ?_)
    · exact hw.1.head?_repoGetId_iff.mp hw.2
    · exact Option.some_inj.mp ((hw.1.head?_repoGetId_iff.mpr hname).symm.trans hw.2)
    · rw [← userIsAdmin_iff, ← hw.2]
      rfl
    · rw [hw]
    · rw [Database.isPublic?, hw.2]
      cases isPublic <;> simp

/-- The decision a shell ends with. -/
def ShellReport (d : Deployment) (userId : ℤ) (cmd : CString) (past : Past)
    (result : ShellResult) : Prop :=
  match parseCmd cmd with
  | none => result = .exit 1
  | some (action, repoName) => ∃ decision, Decides d userId action repoName past decision ∧
    result = decision.elim (.exit 1) (.exec action.program)

theorem shellMain_reports (d : Deployment) (userId : ℤ) (cmd : CString) :
    (shellMain d userId cmd).Obeys (fun w : World ↦ w.db.Valid) (fun _ _ ↦ True)
      (ShellReport d userId cmd) [] := by
  unfold shellMain ShellReport
  cases parseCmd cmd with
  | none => exact rfl
  | some p =>
    obtain ⟨action, repoName⟩ := p
    rw [obeys_bind]
    refine (checkAcl_decides d userId action repoName).mono fun past decision _ h ↦ ?_
    cases decision with
    | none => exact ⟨none, h, rfl⟩
    | some path => exact ⟨some path, h, rfl⟩

end Call

/-! ## Every interleaving -/

/-- What a thread works on: a job of the server, or a call that a shell waits for. -/
inductive Work
  | serving (job : Job)
  | shell (userId : ℤ) (cmd : CString)

def Work.program (d : Deployment) : Work → Server (HttpResponse ⊕ ShellResult)
  | serving job => .inl <$> job.program d
  | shell userId cmd => .inr <$> shellMain d userId cmd

/-- The server and the shells that call it. -/
def Work.pool (d : Deployment) (works : ℕ → Work) (w : World) :
    Pool ℕ Op World (HttpResponse ⊕ ShellResult) where
  threads k := (works k).program d
  world := w

/-- **The shell among others.** In any interleaving of any number of jobs and shells, a shell that
executes a git program works on a repository that had the name of the command at some moment of the
call, for a user with a ground for the right at some moment of the call. And if the repository has
the name and the user one of the grounds during the whole call, the program is executed. -/
theorem shell_in_run {d : Deployment} {works : ℕ → Work} {w : World} {s : List (ℕ × Env)} {k : ℕ}
    {userId : ℤ} {cmd : CString} {result : ShellResult} (hw : w.db.Valid)
    (hwork : works k = .shell userId cmd)
    (hdone : ((Work.pool d works w).run s).threads k = .done (.inr result)) :
    let past := (Work.pool d works w).events k s
    (∀ program argument, result = .exec program argument → ∃ action repoName repoId,
      parseCmd cmd = some (action, repoName) ∧ program = action.program ∧
      argument = getRepoPath d repoId ∧ Past.Saw past (·.db.HasName repoId repoName) ∧
      ∃ ground : Ground, Past.Saw past fun v ↦ ground.Holds v.db userId repoId action) ∧
    ∀ action repoName repoId (ground : Ground), parseCmd cmd = some (action, repoName) →
      (∀ event ∈ past, event.before.db.HasName repoId repoName ∧
        ground.Holds event.before.db userId repoId action) →
      result = .exec action.program (getRepoPath d repoId) := by
  intro past
  have hobeys : ((Work.pool d works w).threads k).Obeys (fun w : World ↦ w.db.Valid)
      (fun _ _ ↦ True) (fun past r ↦ ∀ result, r = .inr result →
        ShellReport d userId cmd past result) [] := by
    change ((works k).program d).Obeys _ _ _ _
    rw [hwork]
    refine obeys_map.mpr ((shellMain_reports d userId cmd).mono fun _ result _ h ↦ ?_)
    rintro _ ⟨⟩
    exact h
  have hend := (Pool.obeys_run exec_valid hw hobeys s).2
  rw [hdone] at hend
  have hreport : ShellReport d userId cmd past result := hend result rfl
  unfold ShellReport at hreport
  constructor
  · rintro program argument rfl
    cases hparse : parseCmd cmd with
    | none =>
      rw [hparse] at hreport
      cases hreport
    | some p =>
      rw [hparse] at hreport
      obtain ⟨decision, hdecides, hresult⟩ := hreport
      cases decision with
      | none => cases hresult
      | some path =>
        obtain ⟨rfl, rfl⟩ := ShellResult.exec.inj hresult
        obtain ⟨repoId, hpath, hname, hground⟩ := hdecides.sound _ rfl
        exact ⟨p.1, p.2, repoId, rfl, rfl, hpath, hname, hground⟩
  · intro action repoName repoId ground hparse hlasts
    rw [hparse] at hreport
    obtain ⟨decision, hdecides, rfl⟩ := hreport
    rw [hdecides.complete repoId ground hlasts]
    rfl

/-- How a shell has ended. -/
def shellEnd : Server (HttpResponse ⊕ ShellResult) → Option ShellResult
  | .done (.inr result) => some result
  | _ => none

theorem eq_done_of_shellEnd {p : Server (HttpResponse ⊕ ShellResult)} {result : ShellResult}
    (h : shellEnd p = some result) : p = .done (.inr result) := by
  cases p with
  | done r =>
    cases r with
    | inl response => cases h
    | inr result' => exact congrArg (Prog.done ∘ Sum.inr) (Option.some_inj.mp h)
  | call op next => cases h

/-- The second user fetches, while the first one gives a role to the second one and hides the
repository. -/
def fetchesAmid : ℕ → Work
  | 0 => .shell 2 ⟨text "git-upload-pack 'r'", by decide⟩
  | 1 => .serving (.http (.ofUser (text "u") (.repoAddUser {
      repoId := some 1, userId := some 2, role := .kReader })))
  | _ => .serving (.http (.ofUser (text "u") (.repoUpdate {
      repoId := some 1, name := text "r", desc := [], isPublic := false })))

/-- The repository of the first user is public. -/
def World.publicRepo : World :=
  { World.initial with
    db := Write.applyAll 0 .twoSessions [.insertRepo (text "r") [] true, .insertRepoUser 1 1 3] }

theorem World.valid_publicRepo : publicRepo.db.Valid :=
  Write.applyAll_valid 0 Database.valid_twoSessions _

/-- The role is given and the repository hidden between the questions of the shell. -/
theorem shell_in_run_fetchesAmid :
    let s : List (ℕ × Env) := [0, 1, 2, 0, 1, 2, 1, 2, 1, 2, 1, 2, 0, 0].map (·, {})
    let past := (Work.pool .plain fetchesAmid .publicRepo).events 0 s
    ∃ action repoName repoId,
      parseCmd ⟨text "git-upload-pack 'r'", by decide⟩ = some (action, repoName) ∧
      getRepoPath .plain 1 = getRepoPath .plain repoId ∧
      ∃ ground : Ground, Past.Saw past fun v ↦ ground.Holds v.db 2 repoId action := by
  intro s past
  have hdone : ((Work.pool .plain fetchesAmid .publicRepo).run s).threads 0 =
      .done (.inr (.exec (text "git-upload-pack") (getRepoPath .plain 1))) :=
    eq_done_of_shellEnd (by decide +kernel)
  obtain ⟨action, repoName, repoId, hparse, -, hpath, -, hground⟩ :=
    (shell_in_run World.valid_publicRepo rfl hdone).1 _ _ rfl
  exact ⟨action, repoName, repoId, hparse, hpath, hground⟩

/-- At every moment the second user may fetch, and a shell on its own would do it. -/
example :
    let turns (k n : ℕ) : List (ℕ × Env) := List.replicate n (k, {})
    let s := turns 0 3 ++ turns 1 9 ++ turns 2 9 ++ turns 0 1
    let c := Work.pool .plain fetchesAmid .publicRepo
    (∀ n ≤ s.length, aclOf .kGitUploadPack (shellStatus .plain (c.run (s.take n)).world.db
      { userId := 2, repoName := text "r" }) = some (getRepoPath .plain 1)) ∧
    shellEnd ((c.run s).threads 0) = some (.exit 1) := by
  decide +kernel

end Scissy
