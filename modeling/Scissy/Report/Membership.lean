import Scissy.Concurrency.Membership
import Scissy.Model.Failing

/-!
# What the membership calls report

Each of the membership calls makes a promise (`Rpc.Exact`): a success is the change that has been
asked for, by a caller who may have it made, and any other answer is no change. Any statement may
fail here, a `select` too.

`Rpc.exact_iff` says when the promise is kept. It is broken by a failure that makes a difference
(`Rpc.Mishap`). `groupDelete` takes every result code for a success, and `groupRemoveUser` does not
look at the result code, so the caller is told that something has been deleted that is still there
(`Rpc.not_exact`). `groupCreate` gives up when it does not find its group again, and does not look
at the result when it deletes the group, so it may fail and leave a group without an owner.

## Tests that may fail

The calls with one statement come to it by the tests of their scripts. A `select` that fails can
only keep a call from its statement (`Task.admits_of_reaches`), and for the gate of a group it does
so exactly if it fails at once (`Task.reaches_iff`). The gate of a repository is different, for it
reads several roles: an owner whose row has been delivered passes, whatever comes after it.

## When a failure makes no difference

A statement that fails and had nothing to do is no mishap: a user who is no member is removed, or a
group that another call has deleted. Then no change is what was asked for, and a success is right.
So `Rpc.Mishap` asks for a row that the statement would have deleted.
-/

open Relational Interaction Interaction.Prog

namespace Scissy

/-! ## Tests that may fail -/

section Tests

variable {session : Session} {gate : Gate} {l : Lookup} {env : ℕ → FailingEnv} {w : World} {a : ℤ}
  {m n : ℕ}

/-- None of the first `n` operations is a `select` that fails at once. -/
def Served (env : ℕ → FailingEnv) (n : ℕ) : Prop := ∀ i < n, (env i).served ≠ some 0

theorem served_zero : Served env 0 := fun _ hi ↦ absurd hi (Nat.not_lt_zero _)

theorem served_one_iff : Served env 1 ↔ (env 0).served ≠ some 0 := by
  simp [Served]

theorem served_add_iff : Served env (m + n) ↔ Served env m ∧ Served (fun i ↦ env (i + m)) n := by
  constructor
  · exact fun h ↦ ⟨fun i hi ↦ h i (by omega), fun i hi ↦ h (i + m) (by omega)⟩
  · rintro ⟨hm, hn⟩ i hi
    by_cases him : i < m
    · exact hm i him
    · have hrest : (env (i - m + m)).served ≠ some 0 := hn (i - m) (by omega)
      rwa [Nat.sub_add_cancel (not_lt.mp him)] at hrest

namespace Lookup

theorem cost_test (l : Lookup) : l.test.cost = l.cost := by
  obtain ⟨kind, _ | id, _ | name⟩ := l <;> rfl

theorem still_test (l : Lookup) : l.test.Still FailingOp.mk := by
  obtain ⟨kind, _ | id, _ | name⟩ := l
  · trivial
  · exact fun e w ↦ rfl
  · trivial
  · trivial

theorem sees_test : l.test.Sees FailingOp.mk env w a ↔ l.Finds w.db a ∧ Served env l.cost := by
  obtain ⟨kind, _ | id, _ | name⟩ := l
  · exact iff_of_false (by rintro ⟨⟩) fun h ↦ not_finds_missing h.1
  · rw [finds_named_iff]
    refine FailingEnv.head?_deliver_eq_some_iff.trans (and_congr ?_ served_one_iff.symm)
    cases kind <;> rfl
  · exact (Option.some_inj.trans finds_known_iff.symm).trans (and_iff_left served_zero).symm
  · exact (Option.some_inj.trans finds_known_iff.symm).trans (and_iff_left served_zero).symm

end Lookup

namespace Gate

theorem still_test (gate : Gate) : (gate.test session).Still FailingOp.mk := by
  cases gate with
  | group groupId =>
    rw [test]
    split_ifs
    · trivial
    · exact fun e w ↦ rfl
  | repo repoId => exact fun e w ↦ rfl

theorem sees_group_iff {groupId : ℤ} :
    ((group groupId).test session).Sees FailingOp.mk env w () ↔
      (group groupId).Admits session w.db ∧ Served env ((group groupId).cost session) := by
  rw [test, cost, Service.isGroupOwnerCost]
  split_ifs with hrole
  · exact iff_of_true rfl ⟨Or.inl hrole, served_zero⟩
  · rw [Admits, or_iff_right hrole, ← head?_groupGetUserRole_iff]
    refine Option.ite_none_right_eq_some.trans ((and_iff_left rfl).trans ?_)
    exact FailingEnv.head?_deliver_eq_some_iff.trans (and_congr Iff.rfl served_one_iff.symm)

theorem sees_repo_iff (h : w.db.Valid) {repoId : ℤ} :
    ((repo repoId).test session).Sees FailingOp.mk env w () ↔
      ∃ n ∈ (env 0).deliver (w.db.userRoleRows repoId session.userId), .kOwner ≤ roleOfId n := by
  let rows := (env 0).deliver (w.db.userRoleRows repoId session.userId)
  have hroles : ∀ n ∈ rows, n ∈ roleIds := fun n hn ↦
    h.roleIds_of_mem_userRoleRows n ((env 0).deliver_subset _ hn)
  have hsees : ((repo repoId).test session).Sees FailingOp.mk env w () ↔
      (Db.maxRole rows .kNone).1 = true ∧ .kOwner ≤ (Db.maxRole rows .kNone).2 :=
    Option.ite_none_right_eq_some.trans (and_iff_left rfl)
  have hnone : ¬ Pb.Role.kOwner ≤ .kNone := by decide
  obtain ⟨hok, hle⟩ := Db.maxRole_spec hroles .kNone
  rw [hsees, and_iff_right hok, hle, or_iff_right hnone]

theorem admits_of_sees (h : w.db.Valid) (hgate : (gate.test session).Sees FailingOp.mk env w ()) :
    gate.Admits session w.db := by
  cases gate with
  | group groupId => exact (sees_group_iff.mp hgate).1
  | repo repoId =>
    obtain ⟨n, hn, hle⟩ := (sees_repo_iff h).mp hgate
    exact (h.le_reportedRole_iff (by decide)).mpr ⟨n, (env 0).deliver_subset _ hn, hle⟩

end Gate

end Tests

namespace Task

variable {t : Task} {env : ℕ → FailingEnv} {w : World} {op : Op ResultCode}

theorem still_script (t : Task) : t.script.Still FailingOp.mk :=
  ⟨t.target.still_test, fun _ ↦ ⟨t.member.still_test, fun _ ↦ ⟨Gate.still_test _, fun _ ↦ trivial⟩⟩⟩

/-- The statement the call comes to. -/
def Reaches (t : Task) (env : ℕ → FailingEnv) (w : World) (op : Op ResultCode) : Prop :=
  Script.Reaches (F := Op) FailingOp.mk w op t.script env

/-- The statement is not reached without the caller's right. -/
theorem admits_of_reaches (h : w.db.Valid) (hop : t.Reaches env w op) :
    ∃ a b, t.Resolves w.db a b ∧ t.Admits w.db a ∧ op = .write (t.write a b) := by
  obtain ⟨a, ha, b, hb, ⟨⟩, hgate, rfl⟩ := hop
  exact ⟨a, b, ⟨(Lookup.sees_test.mp ha).1, (Lookup.sees_test.mp hb).1⟩,
    Gate.admits_of_sees h hgate, rfl⟩

theorem reaches_iff (hgate : t.gate = .group) : t.Reaches env w op ↔
    ∃ a b, t.Resolves w.db a b ∧ t.Admits w.db a ∧ Served env (t.queries a) ∧
      op = .write (t.write a b) := by
  have hserved (a : ℤ) : Served env (t.queries a) ↔ Served env t.target.cost ∧
      Served (fun i ↦ env (i + t.target.cost)) t.member.cost ∧
      Served (fun i ↦ env (i + t.member.cost + t.target.cost)) ((t.gate a).cost t.session) := by
    have hsum : t.queries a =
        t.target.cost + (t.member.cost + (t.gate a).cost t.session) := by
      rw [queries]
      omega
    rw [hsum, served_add_iff, served_add_iff]
  simp only [hserved, Resolves, Admits, hgate]
  constructor
  · rintro ⟨a, ha, b, hb, ⟨⟩, hopen, rfl⟩
    rw [hgate, Gate.sees_group_iff, Lookup.cost_test, Lookup.cost_test] at hopen
    rw [Lookup.sees_test, Lookup.cost_test] at hb
    obtain ⟨ha, hserveda⟩ := Lookup.sees_test.mp ha
    exact ⟨a, b, ⟨ha, hb.1⟩, hopen.1, ⟨hserveda, hb.2, hopen.2⟩, rfl⟩
  · rintro ⟨a, b, ⟨ha, hb⟩, hadmits, ⟨hserveda, hservedb, hservedgate⟩, rfl⟩
    refine ⟨a, Lookup.sees_test.mpr ⟨ha, hserveda⟩, b, ?_, (), ?_, rfl⟩
    · rw [Lookup.sees_test, Lookup.cost_test]
      exact ⟨hb, hservedb⟩
    · rw [hgate, Gate.sees_group_iff, Lookup.cost_test, Lookup.cost_test]
      exact ⟨hadmits, hservedgate⟩

/-- **What the call does among failing statements.** It comes to its statement and answers to the
result, or it answers with a failure and nothing happens. -/
theorem run_failing (h : w.db.Valid) (d : Deployment) (session : Session) {rpc : Rpc}
    (ht : rpc.task session = some t) (env : ℕ → FailingEnv) :
    (∃ a b reply, t.Resolves w.db a b ∧ t.Admits w.db a ∧
        t.Reaches env w (.write (t.write a b)) ∧
        (reply.Succeeds ↔ (rpc.Checks →
          (w.write (env (t.queries a)).toEnv (t.write a b)).1 = .done)) ∧
        (failing (dispatch d (some session) rpc)).run env w =
          (reply, (w.write (env (t.queries a)).toEnv (t.write a b)).2)) ∨
      (∀ op, ¬ t.Reaches env w op) ∧ ∃ reply : Reply, ¬ reply.Succeeds ∧
        (failing (dispatch d (some session) rpc)).run env w = (reply, w) := by
  have hrun (a : ℤ) := (dispatch_concludes d session ht a).run t.still_script env w
  rcases hrun 0 with ⟨op, -, hop, -⟩ | hnone
  swap
  · exact Or.inr hnone
  obtain ⟨a, b, hres, hadmits, rfl⟩ := admits_of_reaches h hop
  rcases hrun a with ⟨op', q, hop', hanswers, hq⟩ | ⟨hnone, -⟩
  swap
  · exact absurd hop (hnone _)
  obtain ⟨a', b', hres', -, rfl⟩ := admits_of_reaches h hop'
  obtain rfl := hres.1.eq hres'.1
  obtain rfl := hres.2.eq hres'.2
  obtain ⟨reply, rfl, hreply⟩ := exists_of_ends hanswers
  exact Or.inl ⟨a, b, reply, hres, hadmits, hop, hreply, hq⟩

end Task

/-! ## The promise -/

/-- The two databases have the same rows. -/
structure Database.SameRows (db db' : Database) : Prop where
  users : db'.users.rows = db.users.rows
  usersSshKeys : db'.usersSshKeys.rows = db.usersSshKeys.rows
  usersAuths : db'.usersAuths.rows = db.usersAuths.rows
  groups : db'.groups.rows = db.groups.rows
  groupsUsers : db'.groupsUsers.rows = db.groupsUsers.rows
  repos : db'.repos.rows = db.repos.rows
  reposGroups : db'.reposGroups.rows = db.reposGroups.rows
  reposUsers : db'.reposUsers.rows = db.reposUsers.rows

theorem Database.SameRows.refl (db : Database) : db.SameRows db :=
  ⟨rfl, rfl, rfl, rfl, rfl, rfl, rfl, rfl⟩

theorem effect_deleteGroup_self_iff {now g : ℤ} {db : Database} (h : db.Valid) :
    (Write.deleteGroup g).Effect now db db ↔ g ∉ db.groups.ids := by
  refine eq_comm.trans (h.deleteGroups_eq_self_iff.trans ?_)
  simp only [Bool.not_eq_true', decide_eq_false_iff_not, AutoTable.ids, List.mem_map, not_exists,
    not_and]

theorem effect_deleteGroupUser_self_iff {now g u : ℤ} {db : Database} :
    (Write.deleteGroupUser g u).Effect now db db ↔
      (g, u) ∉ db.groupsUsers.rows.map GroupUser.key := by
  have hrows : (Write.deleteGroupUser g u).Effect now db db ↔
      (db.groupsUsers.filter fun r ↦ !decide (r.groupId = g ∧ r.userId = u)) = db.groupsUsers :=
    ⟨fun heq ↦ (congrArg Database.groupsUsers heq).symm, fun heq ↦ by rw [Write.Effect, heq]⟩
  rw [hrows, KeyTable.filter_eq_self_iff]
  simp only [Bool.not_eq_true', decide_eq_false_iff_not, List.mem_map, not_exists, not_and,
    GroupUser.key, Prod.mk.injEq]

namespace Rpc

/-- The caller may have the change made, and nothing else has been changed. -/
def Requested (session : Session) (db db' : Database) : Rpc → Prop
  | groupCreate request => ∃ now db₁,
    (Write.insertGroup (request.grp.getD []) request.desc).Effect now db db₁ ∧
      (Write.insertGroupUser (db.groups.seq + 1) session.userId Pb.Role.kOwner.toInt).Effect now
        db₁ db'
  | rpc => ∃ t a b now, rpc.task session = some t ∧ t.Resolves db a b ∧ t.Admits db a ∧
    (t.write a b).Effect now db db'

/-- A success is the change that has been asked for, and any other answer is no change. -/
def Exact (thread : Option Session) (w : World) (r : Reply × World) (rpc : Rpc) : Prop :=
  (r.1.Succeeds → ∃ session, thread = some session ∧ rpc.Requested session w.db r.2.db) ∧
    (¬ r.1.Succeeds → w.db.SameRows r.2.db)

variable {session : Session} {rpc : Rpc} {t : Task} {env : ℕ → FailingEnv} {w : World}
  {db db' : Database}

theorem requested_iff_of_task (ht : rpc.task session = some t) :
    rpc.Requested session db db' ↔ ∃ a b now, t.Resolves db a b ∧ t.Admits db a ∧
      (t.write a b).Effect now db db' := by
  cases rpc with
  | groupCreate request => cases ht
  | _ =>
    refine ⟨?_, fun ⟨a, b, now, hrest⟩ ↦ ⟨t, a, b, now, ht, hrest⟩⟩
    rintro ⟨t', a, b, now, ht', hrest⟩
    obtain rfl := Option.some_inj.mp (ht.symm.trans ht')
    exact ⟨a, b, now, hrest⟩

theorem write_done_of_not_checks (ht : rpc.task session = some t) (hchecks : ¬ rpc.Checks)
    {e : Env} (hfault : e.fault = none) {a b : ℤ} : (w.write e (t.write a b)).1 = .done := by
  rw [World.write, hfault]
  cases rpc with
  | groupDelete request | groupRemoveUser request =>
    obtain rfl := Option.some_inj.mp ht
    rfl
  | _ => exact absurd trivial hchecks

/-- **A task keeps the promise** unless its statement fails, had something to do, and nobody looks
at the result. -/
theorem exact_task_iff (h : w.db.Valid) (d : Deployment) (ht : rpc.task session = some t) :
    rpc.Exact (some session) w ((failing (dispatch d (some session) rpc)).run env w) ↔
      (¬ rpc.Checks → ∀ a b, t.Resolves w.db a b → t.Reaches env w (.write (t.write a b)) →
        (env (t.queries a)).fault = none ∨ ∃ now, (t.write a b).Effect now w.db w.db) := by
  rcases Task.run_failing h d session ht env with
    ⟨a, b, reply, hres, hadmits, hreaches, hreply, hrun⟩ | ⟨hnone, reply, hreply, hrun⟩
  swap
  · rw [hrun]
    exact iff_of_true ⟨fun hyes ↦ absurd hyes hreply, fun _ ↦ .refl _⟩
      fun _ a b _ hreaches ↦ absurd hreaches (hnone _)
  have hunique {a' b' : ℤ} (hres' : t.Resolves w.db a' b') : a' = a ∧ b' = b :=
    ⟨hres'.1.eq hres.1, hres'.2.eq hres.2⟩
  rw [hrun]
  rcases World.write_spec (t.write a b) (env (t.queries a)).toEnv w with
    ⟨hdone, hfault, heffect, -⟩ | ⟨hno, hw⟩
  · -- the statement has its effect, and the answer is a success
    refine iff_of_true ⟨fun _ ↦ ⟨session, rfl, ?_⟩, fun hfail ↦ ?_⟩ fun _ a' b' hres' _ ↦ ?_
    · exact (requested_iff_of_task ht).mpr ⟨a, b, _, hres, hadmits, heffect⟩
    · exact absurd (hreply.mpr fun _ ↦ hdone) hfail
    · obtain ⟨rfl, -⟩ := hunique hres'
      exact Or.inl hfault
  · rw [hw]
    by_cases hchecks : rpc.Checks
    · have hfail : ¬ reply.Succeeds := fun hyes ↦ hno (hreply.mp hyes hchecks)
      exact iff_of_true ⟨fun hyes ↦ absurd hyes hfail, fun _ ↦ .refl _⟩
        fun hnot ↦ absurd hchecks hnot
    · -- the answer is a success nevertheless
      have hyes : reply.Succeeds := hreply.mpr fun htrue ↦ absurd htrue hchecks
      constructor
      · rintro ⟨hsucceed, -⟩ - a' b' hres' -
        obtain ⟨_, ⟨⟩, hrequested⟩ := hsucceed hyes
        obtain ⟨a'', b'', now, hres'', -, heffect⟩ := (requested_iff_of_task ht).mp hrequested
        obtain ⟨rfl, rfl⟩ := hunique hres'
        obtain ⟨rfl, rfl⟩ := hunique hres''
        exact Or.inr ⟨now, heffect⟩
      · intro hrest
        refine ⟨fun _ ↦ ⟨session, rfl, ?_⟩, fun hfail ↦ absurd hyes hfail⟩
        refine (requested_iff_of_task ht).mpr ?_
        rcases hrest hchecks a b hres hreaches with hfault | ⟨now, heffect⟩
        · exact absurd (write_done_of_not_checks ht hchecks hfault) hno
        · exact ⟨a, b, now, hres, hadmits, heffect⟩

/-! ### Failures that matter -/

/-- A failure that makes a difference: `groupDelete` or `groupRemoveUser` comes to its statement,
has something to delete, and the statement fails; or `groupCreate` inserts its group and does not
find it again, or can neither add the owner nor delete the group. -/
def Mishap (session : Session) (env : ℕ → FailingEnv) (w : World) : Rpc → Prop
  | groupCreate request =>
    ((env 0).fault = none ∧ request.grp.getD [] ∉ w.db.groups.rows.map (·.2.name) ∧
        w.db.groups.seq + 1 ≤ maxRowid) ∧
      (¬ Served (fun i ↦ env (i + 1)) 2 ∨
        ¬ ((env 3).fault = none ∧ session.userId ∈ w.db.users.ids) ∧ (env 4).fault ≠ none)
  | groupDelete request =>
    let target : Lookup := ⟨.group, request.grpId, request.grp⟩
    let n := Service.isGroupOwnerCost session + target.cost
    Served env n ∧ (env n).fault ≠ none ∧
      ∃ g ∈ w.db.groups.ids, target.Finds w.db g ∧ (Gate.group g).Admits session w.db
  | groupRemoveUser request =>
    let target : Lookup := ⟨.group, request.grpId, request.grp⟩
    let member : Lookup := ⟨.user, request.userId, request.user⟩
    let n := Service.isGroupOwnerCost session + member.cost + target.cost
    Served env n ∧ (env n).fault ≠ none ∧
      ∃ g u, (g, u) ∈ w.db.groupsUsers.rows.map GroupUser.key ∧ target.Finds w.db g ∧
        member.Finds w.db u ∧ (Gate.group g).Admits session w.db
  | _ => False

theorem exact_task_iff_not_mishap (h : w.db.Valid) (d : Deployment)
    (ht : rpc.task session = some t) :
    rpc.Exact (some session) w ((failing (dispatch d (some session) rpc)).run env w) ↔
      ¬ rpc.Mishap session env w := by
  rw [exact_task_iff h d ht]
  cases rpc with
  | groupDelete request =>
    obtain rfl := Option.some_inj.mp ht
    constructor
    · rintro hrest ⟨hserved, hfault, g, hg, hfinds, hadmits⟩
      have hmember : Lookup.Finds w.db 0 ⟨.user, some 0, none⟩ := Lookup.finds_known_iff.mpr rfl
      rcases hrest id g 0 ⟨hfinds, hmember⟩
        ((Task.reaches_iff rfl).mpr ⟨g, 0, ⟨hfinds, hmember⟩, hadmits, hserved, rfl⟩) with
        hnone | ⟨now, heffect⟩
      · exact hfault hnone
      · exact (effect_deleteGroup_self_iff h).mp heffect hg
    · rintro hno - g b hres hreaches
      obtain ⟨g', b', hres', hadmits, hserved, -⟩ := (Task.reaches_iff rfl).mp hreaches
      obtain rfl := hres.1.eq hres'.1
      refine or_iff_not_imp_left.mpr fun hfault ↦ ⟨0, (effect_deleteGroup_self_iff h).mpr ?_⟩
      exact fun hg ↦ hno ⟨hserved, hfault, g, hg, hres.1, hadmits⟩
  | groupRemoveUser request =>
    obtain rfl := Option.some_inj.mp ht
    constructor
    · rintro hrest ⟨hserved, hfault, g, u, hrow, hg, hu, hadmits⟩
      rcases hrest id g u ⟨hg, hu⟩
        ((Task.reaches_iff rfl).mpr ⟨g, u, ⟨hg, hu⟩, hadmits, hserved, rfl⟩) with
        hnone | ⟨now, heffect⟩
      · exact hfault hnone
      · exact effect_deleteGroupUser_self_iff.mp heffect hrow
    · rintro hno - g u hres hreaches
      obtain ⟨g', u', hres', hadmits, hserved, -⟩ := (Task.reaches_iff rfl).mp hreaches
      obtain rfl := hres.1.eq hres'.1
      refine or_iff_not_imp_left.mpr fun hfault ↦ ⟨0, effect_deleteGroupUser_self_iff.mpr ?_⟩
      exact fun hrow ↦ hno ⟨hserved, hfault, g, u, hrow, hres.1, hres.2, hadmits⟩
  | groupCreate request => cases ht
  | _ => exact iff_of_true (fun hchecks ↦ absurd trivial hchecks) id

end Rpc

/-! ## The call that creates a group -/

namespace Creation

variable {x : Creation} {env : ℕ → FailingEnv} {e : Env} {w : World} {n : ℤ} {op : Op ResultCode}

/-- The part of the call between the two inserts. -/
def script (x : Creation) : Script Op ResultCode :=
  .test x.lookup.test fun _ ↦ .test x.lookup.test fun n ↦
    .act (.write (.insertGroupUser n x.userId Pb.Role.kOwner.toInt))

/-- The call is over, or it deletes the group and is over then. -/
def Finishes (op : Op ResultCode) (rc : ResultCode) (p : Server Reply) : Prop :=
  rc = .done ∧ p.Ends Reply.Succeeds ∨
    rc ≠ .done ∧ ∃ n userId next,
      op = .write (.insertGroupUser n userId Pb.Role.kOwner.toInt) ∧
        p = .call (.write (.deleteGroup n)) next ∧
          ∀ rc, (next rc).Ends fun reply ↦ ¬ reply.Succeeds

/-- The call as a script. -/
theorem dispatch_concludes (d : Deployment) (session : Session) (request : Pb.GroupCreate) :
    let x : Creation := ⟨session.userId, request.grp.getD [], request.desc⟩
    ∃ next, dispatch d (some session) (.groupCreate request) =
        .call (.write (.insertGroup x.name x.desc)) next ∧
      (∀ rc ≠ .done, (next rc).Ends fun reply ↦ ¬ reply.Succeeds) ∧
      x.script.Concludes (fun reply ↦ ¬ reply.Succeeds) Finishes 2 (next .done) := by
  have hno {o : Outcome Pb.GroupInfo} (ho : (o.map .groupInfo).status ≠ some .kSucceed) :
      (done { outcome := o.map .groupInfo } : Server Reply).Ends fun reply ↦ ¬ reply.Succeeds := ho
  refine ⟨_, rfl, ?_, ?_⟩
  · rintro (_ | _ | err) hrc
    · exact absurd rfl hrc
    · exact hno (by decide)
    · exact hno (by decide)
  · refine Script.concludes_asked (fun rows hrows ↦ ?_) fun rows _ hrows ↦ ?_
    · rw [List.head?_eq_none_iff.mp hrows]
      exact hno (by decide)
    · obtain ⟨rows, rfl⟩ := List.head?_eq_some_iff.mp hrows
      refine Script.concludes_asked (fun rows hrows ↦ ?_) fun rows n hrows ↦ ?_
      · rw [List.head?_eq_none_iff.mp hrows]
        exact hno (by decide)
      · obtain ⟨rows, rfl⟩ := List.head?_eq_some_iff.mp hrows
        refine Script.concludes_act ?_
        rintro (_ | _ | err)
        · exact Or.inl ⟨rfl, rfl⟩
        · exact Or.inr ⟨by decide, n, _, _, rfl, rfl, fun rc ↦ hno (by decide)⟩
        · exact Or.inr ⟨by rintro ⟨⟩, n, _, _, rfl, rfl, fun rc ↦ hno (by decide)⟩

theorem still_script (x : Creation) : x.script.Still FailingOp.mk :=
  ⟨x.lookup.still_test, fun _ ↦ ⟨x.lookup.still_test, fun _ ↦ trivial⟩⟩

theorem reaches_iff (hn : x.lookup.Finds w.db n) :
    Script.Reaches (F := Op) FailingOp.mk w op x.script env ↔
      Served env 2 ∧ op = .write (.insertGroupUser n x.userId Pb.Role.kOwner.toInt) := by
  have hserved : Served env 2 ↔ Served env 1 ∧ Served (fun i ↦ env (i + 1)) 1 :=
    served_add_iff (m := 1) (n := 1)
  rw [hserved]
  constructor
  · rintro ⟨n', hn', n'', hn'', rfl⟩
    rw [Lookup.sees_test] at hn' hn''
    obtain rfl := hn''.1.eq hn
    exact ⟨⟨hn'.2, hn''.2⟩, rfl⟩
  · rintro ⟨⟨hfirst, hsecond⟩, rfl⟩
    exact ⟨n, Lookup.sees_test.mpr ⟨hn, hfirst⟩, n, Lookup.sees_test.mpr ⟨hn, hsecond⟩, rfl⟩

theorem not_sameRows (h : (w.write e (.insertGroup x.name x.desc)).1 = .done) :
    ¬ w.db.SameRows (w.write e (.insertGroup x.name x.desc)).2.db := by
  intro hsame
  have hmem := hsame.groups ▸ (inserted h).mem_rows
  exact AutoTable.seq_succ_notMem_ids (AutoTable.mem_ids_of_mem hmem)

theorem sameRows_deleteGroup (hw : w.db.Valid)
    (h : (w.write e (.insertGroup x.name x.desc)).1 = .done) (e' : Env) (hfault : e'.fault = none) :
    w.db.SameRows ((w.write e (.insertGroup x.name x.desc)).2.write e'
      (.deleteGroup (w.db.groups.seq + 1))).2.db := by
  obtain ⟨-, t, ht, hdb⟩ := World.effect_of_done h
  obtain ⟨hrows, -⟩ := AutoTable.rows_of_insert ht
  have hgroups : (t.filter fun r ↦ !decide (r.1 = w.db.groups.seq + 1)).rows =
      w.db.groups.rows := by
    rw [AutoTable.filter_rows, hrows, List.filter_append, List.filter_eq_self.mpr]
    · simp
    · rintro r hr
      have hne : r.1 ≠ w.db.groups.seq + 1 := fun heq ↦
        AutoTable.seq_succ_notMem_ids (heq ▸ AutoTable.mem_ids_of_mem hr)
      simpa using hne
  have hids : (t.filter fun r ↦ !decide (r.1 = w.db.groups.seq + 1)).ids = w.db.groups.ids :=
    congrArg (List.map Prod.fst) hgroups
  rw [World.write, hfault]
  change w.db.SameRows (Database.deleteGroups (World.write w e _).2.db _)
  rw [hdb, Database.deleteGroups]
  refine ⟨rfl, rfl, rfl, hgroups, ?_, rfl, ?_, rfl⟩
  · rw [KeyTable.filter_rows, hids]
    exact List.filter_eq_self.mpr fun r hr ↦ decide_eq_true (hw.groupsUsers_group r hr)
  · rw [KeyTable.filter_rows, hids]
    exact List.filter_eq_self.mpr fun r hr ↦ decide_eq_true (hw.reposGroups_group r hr)

/-- **What the call does among failing statements.** The group is not inserted; or it is not found
again; or the owner is added; or the group is deleted, if that does not fail as well. -/
theorem run_failing (h : w.db.Valid) (d : Deployment) (session : Session)
    (request : Pb.GroupCreate) (env : ℕ → FailingEnv) :
    let r := (failing (dispatch d (some session) (.groupCreate request))).run env w
    let v := w.write (env 0).toEnv (.insertGroup (request.grp.getD []) request.desc)
    let n := w.db.groups.seq + 1
    let added := v.2.write (env 3).toEnv (.insertGroupUser n session.userId Pb.Role.kOwner.toInt)
    v.1 ≠ .done ∧ ¬ r.1.Succeeds ∧ r.2 = w ∨
      v.1 = .done ∧ ¬ Served (fun i ↦ env (i + 1)) 2 ∧ ¬ r.1.Succeeds ∧ r.2 = v.2 ∨
      v.1 = .done ∧ Served (fun i ↦ env (i + 1)) 2 ∧ added.1 = .done ∧ r.1.Succeeds ∧
        r.2 = added.2 ∨
      v.1 = .done ∧ Served (fun i ↦ env (i + 1)) 2 ∧ added.1 ≠ .done ∧ ¬ r.1.Succeeds ∧
        r.2 = (v.2.write (env 4).toEnv (.deleteGroup n)).2 := by
  intro r v n added
  obtain ⟨next, hcall, hno, hrest⟩ := dispatch_concludes d session request
  have hr : r = (failing (next v.1)).run (fun i ↦ env (i + 1)) v.2 := by
    change (failing (dispatch d (some session) (.groupCreate request))).run env w = _
    rw [hcall]
    rfl
  by_cases hdone : v.1 = .done
  swap
  · obtain ⟨reply, hnext, hreply⟩ := exists_of_ends (hno _ hdone)
    rw [hnext] at hr
    rw [hr]
    exact Or.inl ⟨hdone, hreply, World.write_of_ne_done hdone⟩
  let x : Creation := ⟨session.userId, request.grp.getD [], request.desc⟩
  have hfinds : x.lookup.Finds v.2.db n :=
    (inserted (x := x) hdone).finds (World.write_valid _ _ h)
  rw [hdone] at hr
  refine Or.inr ?_
  rcases hrest.run (still_script x) (fun i ↦ env (i + 1)) v.2 with
    ⟨op, q, hop, hq, hrun⟩ | ⟨hnone, reply, hreply, hrun⟩
  · obtain ⟨hserved, rfl⟩ := (reaches_iff hfinds).mp hop
    have hr' : r = (failing q).run (fun i ↦ env (i + 4)) added.2 := hr.trans hrun
    rcases hq with ⟨hadded, hends⟩ | ⟨hadded, n', userId, next', heq, rfl, hends⟩
    · obtain ⟨reply, rfl, hreply⟩ := exists_of_ends hends
      rw [hr']
      exact Or.inr (Or.inl ⟨hdone, hserved, hadded, hreply, rfl⟩)
    · cases heq
      have hsame : added.2 = v.2 := World.write_of_ne_done hadded
      rw [hsame] at hr'
      obtain ⟨reply, hnext, hreply⟩ := exists_of_ends (hends (v.2.write (env 4).toEnv
        (.deleteGroup n)).1)
      have hr'' : r = (reply, (v.2.write (env 4).toEnv (.deleteGroup n)).2) := by
        rw [hr', failing, translate_call, run_call, failing_exec_write, hnext]
        rfl
      rw [hr'']
      exact Or.inr (Or.inr ⟨hdone, hserved, hadded, hreply, rfl⟩)
  · rw [hr, failing, hrun]
    refine Or.inl ⟨hdone, fun hserved ↦ ?_, hreply, rfl⟩
    exact hnone _ ((reaches_iff hfinds).mpr ⟨hserved, rfl⟩)

/-- **`groupCreate` keeps the promise** unless it loses its group. -/
theorem exact_iff_not_mishap (h : w.db.Valid) (d : Deployment) (session : Session)
    (request : Pb.GroupCreate) :
    (Rpc.groupCreate request).Exact (some session) w
        ((failing (dispatch d (some session) (.groupCreate request))).run env w) ↔
      ¬ (Rpc.groupCreate request).Mishap session env w := by
  let x : Creation := ⟨session.userId, request.grp.getD [], request.desc⟩
  have hinserted (hdone : (w.write (env 0).toEnv (.insertGroup x.name x.desc)).1 = .done) :=
    insertGroup_done_iff.mp hdone
  rcases run_failing h d session request env with ⟨hno, hfail, hw⟩ |
    ⟨hdone, hserved, hfail, hw⟩ | ⟨hdone, hserved, hadded, hyes, hw⟩ |
    ⟨hdone, hserved, hadded, hfail, hw⟩
  · refine iff_of_true ⟨fun hyes ↦ absurd hyes hfail, fun _ ↦ ?_⟩ fun hmishap ↦ ?_
    · rw [hw]
      exact .refl _
    · exact hno (insertGroup_done_iff.mpr hmishap.1)
  · refine iff_of_false (fun hexact ↦ ?_) (not_not.mpr ⟨hinserted hdone, Or.inl hserved⟩)
    have hsame := hexact.2 hfail
    rw [hw] at hsame
    exact not_sameRows (x := x) hdone hsame
  · have hsub := (inserted (x := x) hdone).sub
    obtain ⟨hfault, -, huser, -⟩ := insertGroupUser_done_iff.mp hadded
    refine iff_of_true ⟨fun _ ↦ ⟨session, rfl, 0, _, World.effect_of_done hdone, ?_⟩,
      fun hfail ↦ ?_⟩ ?_
    · rw [hw]
      exact World.effect_of_done hadded
    · exact absurd hyes hfail
    · rintro ⟨-, hnot | ⟨hnot, -⟩⟩
      · exact hnot hserved
      · rw [hsub.users] at huser
        exact hnot ⟨hfault, huser⟩
  · have hins := inserted (x := x) hdone
    have hnot : ¬ ((env 3).fault = none ∧ session.userId ∈ w.db.users.ids) := by
      rintro ⟨hfault, huser⟩
      refine hadded (insertGroupUser_done_iff.mpr ⟨hfault, ?_, ?_, hins.free h⟩)
      · exact AutoTable.mem_ids_of_mem hins.mem_rows
      · rw [hins.sub.users]
        exact huser
    by_cases hfault : (env 4).fault = none
    · refine iff_of_true ⟨fun hyes ↦ absurd hyes hfail, fun _ ↦ ?_⟩ ?_
      · rw [hw]
        exact sameRows_deleteGroup (x := x) h hdone _ hfault
      · rintro ⟨-, hunserved | ⟨-, hfault'⟩⟩
        · exact hunserved hserved
        · exact hfault' hfault
    · -- the group stays, and has no owner
      refine iff_of_false (fun hexact ↦ ?_)
        (not_not.mpr ⟨hinserted hdone, Or.inr ⟨hnot, hfault⟩⟩)
      have hsame := hexact.2 hfail
      rw [hw, World.write_of_fault hfault] at hsame
      exact not_sameRows (x := x) hdone hsame

end Creation

namespace Rpc

variable {rpc : Rpc}

theorem exact_none (d : Deployment) (env : ℕ → FailingEnv) (w : World) (hrpc : rpc.IsMembership) :
    rpc.Exact none w ((failing (dispatch d none rpc)).run env w) := by
  have hrun : (failing (dispatch d none rpc)).run env w = ({ outcome := .crash }, w) := by
    cases rpc with
    | groupCreate | groupDelete | groupAddUser | groupRemoveUser | repoAddUser | repoRemoveUser
    | repoAddGroup | repoRemoveGroup => rfl
    | _ => exact hrpc.elim
  rw [hrun]
  exact ⟨by rintro ⟨⟩, fun _ ↦ .refl _⟩

/-- **The membership calls keep the promise**, as long as no failure makes a difference. -/
theorem exact_iff (d : Deployment) (thread : Option Session) (hrpc : rpc.IsMembership)
    (env : ℕ → FailingEnv) {w : World} (h : w.db.Valid) :
    rpc.Exact thread w ((failing (dispatch d thread rpc)).run env w) ↔
      ∀ session, thread = some session → ¬ rpc.Mishap session env w := by
  cases thread with
  | none => exact iff_of_true (exact_none d env w hrpc) (by rintro session ⟨⟩)
  | some session =>
    have hone : (∀ session', some session = some session' → ¬ rpc.Mishap session' env w) ↔
        ¬ rpc.Mishap session env w :=
      ⟨fun hall ↦ hall session rfl, by rintro hno _ ⟨⟩; exact hno⟩
    rw [hone]
    let call : MembershipCall := ⟨session, rpc, fun i ↦ (env i).toEnv, hrpc⟩
    rcases call.creation_or_task with ⟨request, hrequest⟩ | ⟨t, ht, -⟩
    · obtain rfl : rpc = .groupCreate request := hrequest
      exact Creation.exact_iff_not_mishap h d session request
    · exact exact_task_iff_not_mishap h d ht

/-! ### A deletion that fails -/

/-- A user who owns a group. -/
def ownedGroup : World :=
  { World.initial with
    db := Write.applyAll 0 .initial
      [.insertUser (text "u") (text "u@h") [] [] [], .insertGroup (text "g") [],
        .insertGroupUser 1 1 3] }

theorem ownedGroup_valid : ownedGroup.db.Valid :=
  Write.applyAll_valid 0 Database.valid_initial _

/-- The call of the owner that deletes the group. -/
def deleting (e : FailingEnv) : Reply × World :=
  (failing (dispatch .plain (some { userId := 1 }) (.groupDelete { grpId := some 1 }))).run
    (fun _ ↦ e) ownedGroup

theorem exact_deleting :
    (groupDelete { grpId := some 1 }).Exact (some { userId := 1 }) ownedGroup (deleting {}) := by
  have hrpc : (groupDelete { grpId := some 1 }).IsMembership := trivial
  refine (exact_iff .plain _ hrpc _ ownedGroup_valid).mpr ?_
  rintro session - ⟨-, hfault, -⟩
  exact hfault rfl

/-- **The database is busy** when the statement is issued. The owner is told that the group has
been deleted, and it is still there. -/
theorem not_exact :
    let r := deleting { fault := some .busy }
    r.1.Succeeds ∧ r.2.db.groups.ids = [1] ∧
      ¬ (groupDelete { grpId := some 1 }).Exact (some { userId := 1 }) ownedGroup r := by
  have hyes : (deleting { fault := some .busy }).1.Succeeds := by decide +kernel
  have hids : (deleting { fault := some .busy }).2.db.groups.ids = [1] := by decide +kernel
  refine ⟨hyes, hids, fun hexact ↦ ?_⟩
  obtain ⟨_, ⟨⟩, hrequested⟩ := hexact.1 hyes
  obtain ⟨a, b, now, hres, -, heffect⟩ := (requested_iff_of_task rfl).mp hrequested
  obtain rfl := Lookup.finds_known_iff.mp hres.1
  have hgroups := congrArg (fun db ↦ db.groups.ids) heffect
  rw [hids] at hgroups
  exact absurd hgroups (by decide +kernel)

end Rpc

end Scissy
