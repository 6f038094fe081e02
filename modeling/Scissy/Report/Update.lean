import Scissy.Report.Membership

/-!
# What `repoUpdate` reports

`repoUpdate` resolves the repository, checks that the caller is an owner, and ends with one
statement, whose result it does not look at. So every call that gets as far as the statement
succeeds, and the report is true exactly when SQLite takes the statement (`updateReported_iff`).

## Failing statements

Any of the three statements may fail, and the two `select`s may do so after some of their rows. A
lookup that fails at once ends the call. The roles are different: an error looks like the end of
the result, so the call goes on if it has seen the role of an owner before it
(`Pb.RepoUpdate.ComesTo`). Whether such a call is to succeed is left open (`UpdateReported.made`).

## One statement is not a task

`repoUpdate` has the shape of the membership calls, tests and then a statement, and its script is
made of the same tests. It is not a `Task`, since its statement is no change of a membership. What
the two have in common is the rule for scripts among failing statements (`Script.Concludes.run`).
-/

open Relational Interaction Interaction.Prog

namespace Scissy

namespace Database

/-- SQLite makes the update: there is no error from outside, and no other repository has the new
name. -/
def TakesUpdate (db : Database) (request : Pb.RepoUpdate) (fault : Option SqliteError)
    (repoId : ℤ) : Prop :=
  fault = none ∧ ∀ r ∈ db.repos.rows, r.1 ≠ repoId → r.2.name ≠ request.name

/-- The row of the repository is as requested, and every other row of every table is as before. -/
structure Updated (db : Database) (request : Pb.RepoUpdate) (repoId : ℤ) (db' : Database) :
    Prop where
  row : (repoId, ⟨request.name, request.desc, request.isPublic⟩) ∈ db'.repos.rows
  others : ∀ r : ℤ × Repo, r.1 ≠ repoId → (r ∈ db'.repos.rows ↔ r ∈ db.repos.rows)
  tables : ∀ t ≠ Table.repos, t.Same db db'

end Database

/-- How the request refers to its repository. -/
def Pb.RepoUpdate.lookup (request : Pb.RepoUpdate) : Lookup :=
  ⟨.repo, request.repoId, request.repo⟩

/-- The call gets as far as the statement: the lookup does not fail at once, and the role of an
owner is delivered. -/
def Pb.RepoUpdate.ComesTo (request : Pb.RepoUpdate) (userId : ℤ) (env : ℕ → FailingEnv)
    (db : Database) (repoId : ℤ) : Prop :=
  request.lookup.Finds db repoId ∧ Served env request.lookup.cost ∧
    ∃ n ∈ (env request.lookup.cost).deliver (db.userRoleRows repoId userId), .kOwner ≤ roleOfId n

/-- A success is an update that the caller may make, made as requested, and any other answer is no
change. Such an update is reported as a success, if SQLite takes it and no `select` fails. -/
structure UpdateReported (session : Session) (request : Pb.RepoUpdate) (env : ℕ → FailingEnv)
    (before after : Database) (reply : Reply) : Prop where
  succeeds : reply.Succeeds → ∃ repoId,
    before.OwnsNamed session.userId request.toRepoRef repoId ∧
      before.TakesUpdate request (env (request.lookup.cost + 1)).fault repoId ∧
        before.Updated request repoId after
  fails : ¬ reply.Succeeds → after = before
  made : ∀ repoId, before.OwnsNamed session.userId request.toRepoRef repoId →
    before.TakesUpdate request (env (request.lookup.cost + 1)).fault repoId →
      (∀ i ≤ request.lookup.cost, (env i).served = none) → reply.Succeeds

variable {w : World}

theorem World.write_updateRepo {request : Pb.RepoUpdate} {repoId : ℤ} (e : Env)
    (hrepo : repoId ∈ w.db.repos.ids) :
    let v := (w.write e (.updateRepo request.name request.desc request.isPublic repoId)).2
    w.db.TakesUpdate request e.fault repoId ∧ w.db.Updated request repoId v.db ∨
      ¬ w.db.TakesUpdate request e.fault repoId ∧ v = w := by
  intro v
  by_cases htakes : w.db.TakesUpdate request e.fault repoId
  · obtain ⟨hfault, hname⟩ := htakes
    have hdb : v.db = { w.db with
        repos := w.db.repos.modify repoId fun _ ↦
          ⟨request.name, request.desc, request.isPublic⟩ } := by
      have hfree : ¬ (repoId ∈ w.db.repos.ids ∧
          ∃ r ∈ w.db.repos.rows, r.1 ≠ repoId ∧ r.2.name = request.name) := by
        rintro ⟨-, r, hr, hne, heq⟩
        exact hname r hr hne heq
      simp only [v, World.write, hfault, Write.apply, if_neg hfree]
    refine Or.inl ⟨⟨hfault, hname⟩, ?_, fun r hne ↦ ?_, fun t ht ↦ ?_⟩
    · obtain ⟨repo, hmem⟩ := AutoTable.mem_ids.mp hrepo
      rw [hdb, AutoTable.modify_rows]
      exact List.mem_map.mpr ⟨_, hmem, if_pos rfl⟩
    · rw [hdb, AutoTable.modify_rows, List.mem_map]
      constructor
      · rintro ⟨r', hr', rfl⟩
        rw [AutoTable.modifyRow_fst] at hne
        rwa [AutoTable.modifyRow, if_neg hne]
      · exact fun hr ↦ ⟨r, hr, if_neg hne⟩
    · rw [hdb]
      cases t with
      | repos => exact absurd rfl ht
      | _ => rfl
  · refine Or.inr ⟨htakes, ?_⟩
    rcases World.write_spec (.updateRepo request.name request.desc request.isPublic repoId) e w with
      ⟨-, hfault, heffect, -⟩ | ⟨-, hw⟩
    · exact absurd ⟨hfault, heffect.1 hrepo⟩ htakes
    · exact hw

/-- The statement a call that may update comes to. -/
def Service.updateScript (session : Session) (request : Pb.RepoUpdate) : Script Op ResultCode :=
  .test request.lookup.test fun repoId ↦ .test ((Gate.repo repoId).test session) fun _ ↦
    .act (.write (.updateRepo request.name request.desc request.isPublic repoId))

namespace Service

variable {request : Pb.RepoUpdate} {session : Session} {env : ℕ → FailingEnv} {repoId : ℤ}
  {op : Op ResultCode}

theorem repoUpdate_concludes (d : Deployment) (session : Session) (request : Pb.RepoUpdate) :
    (updateScript session request).Concludes (fun reply ↦ ¬ reply.Succeeds)
      (fun _ _ p ↦ p.Ends Reply.Succeeds) (1 + request.lookup.cost)
      (dispatch d (some session) (.repoUpdate request)) := by
  have hno {o : Outcome Pb.Message} (ho : o.status ≠ some .kSucceed) :
      (done { outcome := o } : Server Reply).Ends fun reply ↦ ¬ reply.Succeeds := ho
  refine setId_concludes (hno (by decide)) (hno (by decide)) fun repoId ↦ ?_
  refine checkRepoRole_concludes session (hno (by decide)) (hno (by decide)) ?_
  exact Script.concludes_act fun rc ↦ rfl

theorem still_updateScript : (updateScript session request).Still FailingOp.mk :=
  ⟨request.lookup.still_test, fun _ ↦ ⟨Gate.still_test _, fun _ ↦ trivial⟩⟩

theorem updateScript_reaches_iff (h : w.db.Valid) :
    (updateScript session request).Reaches (F := Op) FailingOp.mk w op env ↔
      ∃ repoId, request.ComesTo session.userId env w.db repoId ∧
        op = .write (.updateRepo request.name request.desc request.isPublic repoId) := by
  constructor
  · rintro ⟨repoId, hlookup, ⟨⟩, hgate, rfl⟩
    obtain ⟨hfinds, hserved⟩ := Lookup.sees_test.mp hlookup
    rw [Gate.sees_repo_iff h, Lookup.cost_test, Nat.zero_add] at hgate
    exact ⟨repoId, ⟨hfinds, hserved, hgate⟩, rfl⟩
  · rintro ⟨repoId, ⟨hfinds, hserved, hgate⟩, rfl⟩
    refine ⟨repoId, Lookup.sees_test.mpr ⟨hfinds, hserved⟩, (), ?_, rfl⟩
    rwa [Gate.sees_repo_iff h, Lookup.cost_test, Nat.zero_add]

theorem ownsNamed_of_comesTo (h : w.db.Valid)
    (hcomes : request.ComesTo session.userId env w.db repoId) :
    w.db.OwnsNamed session.userId request.toRepoRef repoId := by
  obtain ⟨hfinds, -, n, hn, hle⟩ := hcomes
  refine ⟨hfinds, (h.le_reportedRole_iff (by decide)).mpr ⟨n, ?_, hle⟩⟩
  exact FailingEnv.deliver_subset _ _ hn

theorem comesTo_of_served (h : w.db.Valid)
    (howns : w.db.OwnsNamed session.userId request.toRepoRef repoId)
    (hserved : ∀ i ≤ request.lookup.cost, (env i).served = none) :
    request.ComesTo session.userId env w.db repoId := by
  refine ⟨howns.1, fun i hi ↦ ?_, ?_⟩
  · rw [hserved i hi.le]
    exact Option.some_ne_none 0 ∘ Eq.symm
  · rw [FailingEnv.deliver, hserved _ le_rfl]
    exact (h.le_reportedRole_iff (by decide)).mp howns.2

/-- A call that comes to the statement reports a success whatever the statement does, and no other
call does. -/
theorem repoUpdate_run (h : w.db.Valid) (d : Deployment) (session : Session)
    (request : Pb.RepoUpdate) (env : ℕ → FailingEnv) :
    let r := (failing (dispatch d (some session) (.repoUpdate request))).run env w
    (∃ repoId, request.ComesTo session.userId env w.db repoId ∧ r.1.Succeeds ∧
        r.2 = (w.write (env (request.lookup.cost + 1)).toEnv
          (.updateRepo request.name request.desc request.isPublic repoId)).2) ∨
      (∀ repoId, ¬ request.ComesTo session.userId env w.db repoId) ∧ ¬ r.1.Succeeds ∧ r.2 = w := by
  rcases (repoUpdate_concludes d session request).run still_updateScript env w
    with ⟨op, q, hop, hq, hrun⟩ | ⟨hnone, reply, hreply, hrun⟩
  · obtain ⟨repoId, hcomes, rfl⟩ := (updateScript_reaches_iff h).mp hop
    obtain ⟨reply, rfl, hreply⟩ := exists_of_ends hq
    refine Or.inl ⟨repoId, hcomes, ?_⟩
    rw [failing, hrun, Nat.add_comm request.lookup.cost]
    exact ⟨hreply, rfl⟩
  · refine Or.inr ⟨fun repoId hcomes ↦ ?_, ?_⟩
    · exact hnone _ ((updateScript_reaches_iff h).mpr ⟨repoId, hcomes, rfl⟩)
    · rw [failing, hrun]
      exact ⟨hreply, rfl⟩

end Service

/-- **When `repoUpdate` tells the truth.** Its report is the one it should be exactly when an
update that the call comes to is one that SQLite takes. -/
theorem updateReported_iff (h : w.db.Valid) (d : Deployment) (session : Session)
    (request : Pb.RepoUpdate) (env : ℕ → FailingEnv) :
    let r := (failing (dispatch d (some session) (.repoUpdate request))).run env w
    UpdateReported session request env w.db r.2.db r.1 ↔
      ∀ repoId, request.ComesTo session.userId env w.db repoId →
        w.db.TakesUpdate request (env (request.lookup.cost + 1)).fault repoId := by
  intro r
  have hunique {i j : ℤ} (hi : request.ComesTo session.userId env w.db i)
      (hj : w.db.OwnsNamed session.userId request.toRepoRef j) : i = j :=
    Database.namesRepo_unique (Service.ownsNamed_of_comesTo h hi).1 hj.1
  rcases Service.repoUpdate_run h d session request env with
    ⟨repoId, hcomes, hsucceeds, hr⟩ | ⟨hnone, hfails, hr⟩
  · have howns := Service.ownsNamed_of_comesTo h hcomes
    constructor
    · rintro hreported i hi
      obtain rfl := hunique hi howns
      obtain ⟨j, hj, htakes, -⟩ := hreported.succeeds hsucceeds
      obtain rfl := hunique hi hj
      exact htakes
    · intro htakes
      refine ⟨fun _ ↦ ⟨repoId, howns, htakes repoId hcomes, ?_⟩, absurd hsucceeds,
        fun _ _ _ _ ↦ hsucceeds⟩
      rcases World.write_updateRepo (env (request.lookup.cost + 1)).toEnv
        (h.mem_ids_of_kOwner_le howns.2) with ⟨-, hupdated⟩ | ⟨hrefused, -⟩
      · rw [hr]
        exact hupdated
      · exact absurd (htakes repoId hcomes) hrefused
  · -- the call does not come to its statement, and nothing has been asked of SQLite
    refine iff_of_true ⟨fun hyes ↦ absurd hyes hfails, fun _ ↦ congrArg World.db hr, ?_⟩
      fun repoId hcomes ↦ absurd hcomes (hnone repoId)
    intro repoId howns _ hserved
    exact absurd (Service.comesTo_of_served h howns hserved) (hnone repoId)

/-- Two repositories of one user. -/
def Database.twoRepos : Database :=
  Write.applyAll 0 initial
    [.insertUser (text "u") (text "u@h") [] [] [], .insertRepo (text "r") [] false,
      .insertRepoUser 1 1 3, .insertRepo (text "s") [] false, .insertRepoUser 2 1 3]

theorem Database.twoRepos_valid : Database.twoRepos.Valid :=
  Write.applyAll_valid 0 valid_initial _

/-- A new name that no other repository has. -/
theorem updateReported_fresh :
    let w := { World.initial with db := .twoRepos }
    let request : Pb.RepoUpdate :=
      { repoId := some 1, name := text "t", desc := [], isPublic := true }
    let r := (failing (dispatch .plain (some { userId := 1 }) (.repoUpdate request))).run
      (fun _ ↦ {}) w
    r.1.Succeeds ∧ UpdateReported { userId := 1 } request (fun _ ↦ {}) w.db r.2.db r.1 := by
  intro w request r
  refine ⟨by decide +kernel, ?_⟩
  refine (updateReported_iff Database.twoRepos_valid .plain { userId := 1 } request
    fun _ ↦ {}).mpr ?_
  rintro repoId ⟨hfinds, -⟩
  obtain rfl : 1 = repoId := Lookup.finds_known_iff.mp hfinds
  exact ⟨rfl, by decide +kernel⟩

/-- The name of another repository: nothing happens, and the call succeeds. -/
theorem not_updateReported :
    let w := { World.initial with db := .twoRepos }
    let request : Pb.RepoUpdate :=
      { repoId := some 1, name := text "s", desc := [], isPublic := true }
    let r := (failing (dispatch .plain (some { userId := 1 }) (.repoUpdate request))).run
      (fun _ ↦ {}) w
    r.1.Succeeds ∧ r.2.db.repos.rows = w.db.repos.rows ∧
      ¬ UpdateReported { userId := 1 } request (fun _ ↦ {}) w.db r.2.db r.1 := by
  intro w request r
  have hsucceeds : r.1.Succeeds := by decide +kernel
  refine ⟨hsucceeds, by decide +kernel, fun hreported ↦ ?_⟩
  obtain ⟨repoId, howns, htakes, -⟩ := hreported.succeeds hsucceeds
  -- the other repository has the name
  obtain rfl : repoId = 1 := Database.namesRepo_unique howns.1 (Or.inl rfl)
  exact htakes.2 (2, ⟨text "s", [], false⟩) (by decide +kernel) (by decide) rfl

end Scissy
