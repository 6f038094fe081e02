import Scissy.Authority.Policy
import Scissy.Server.Db

/-!
# The role of a user on a repository

The database as a policy: `repos_users` gives direct roles, `repos_groups` the roles of groups and
`groups_users` the roles in groups. `Database.effectiveRole` is the role the tables describe, over
every path through a group. `Database.reportedRole` is what `Db.repoGetUserRole` computes from
them. Its natural join matches the columns `group_id` *and* `role_id`, so it is the role over the
paths whose two roles are equal (`Database.reportedRole_isRole`), and it never exceeds the
effective role.

## Roles and their numbers

The tables hold numbers, and the server compares values of an enumeration. A `role_id` of a valid
database is one of the four numbers of the table `roles` (`roleIds`), which are the values of the
enumeration, so the order of the roles is that of the numbers. `roleOfId` sends every other number
to `kNone`; in a valid database it never has to.

## One relation for both roles

The two roles are `Policy.IsRole` over the same policy. They differ in the relation between the two
roles of a path that counts: any two, or two equal ones. So neither the loop of the code nor the
lists of paths occur in a comparison of the two, which is a comparison of grants.
-/

open Authority Relational Interaction Interaction.Prog

namespace Scissy

/-! ## Stored roles -/

/-- The role a `role_id` stands for. -/
def roleOfId (n : ℤ) : Pb.Role := (Pb.Role.ofInt? n).getD .kNone

@[simp] theorem roleOfId_toInt (r : Pb.Role) : roleOfId r.toInt = r := by
  rw [roleOfId, Pb.Role.ofInt?_toInt, Option.getD_some]

theorem exists_toInt_of_mem_roleIds {n : ℤ} (h : n ∈ roleIds) : ∃ r : Pb.Role, n = r.toInt := by
  simp only [roleIds, List.mem_cons, List.not_mem_nil, or_false] at h
  rcases h with rfl | rfl | rfl | rfl
  exacts [⟨.kNone, rfl⟩, ⟨.kReader, rfl⟩, ⟨.kWriter, rfl⟩, ⟨.kOwner, rfl⟩]

theorem toInt_mem_roleIds (r : Pb.Role) : r.toInt ∈ roleIds := by cases r <;> decide

theorem Db.maxRole_spec {rows : List ℤ} (h : ∀ n ∈ rows, n ∈ roleIds) (role : Pb.Role) :
    (maxRole rows role).1 = true ∧
      ∀ r, r ≤ (maxRole rows role).2 ↔ r ≤ role ∨ ∃ n ∈ rows, r ≤ roleOfId n := by
  induction rows generalizing role with
  | nil => simp [maxRole]
  | cons n rows ih =>
    obtain ⟨a, rfl⟩ := exists_toInt_of_mem_roleIds (h n List.mem_cons_self)
    have hmax : (if a.toInt > role.toInt then a else role) = max role a := by
      rcases lt_or_ge role a with hlt | hle
      · rw [if_pos (Pb.Role.lt_iff.mp hlt), max_eq_right hlt.le]
      · rw [if_neg (not_lt.mpr (Pb.Role.le_iff.mp hle)), max_eq_left hle]
    obtain ⟨htrue, hle⟩ := ih (fun n hn ↦ h n (List.mem_cons_of_mem _ hn)) (max role a)
    rw [maxRole, Pb.Role.ofInt?_toInt]
    dsimp only
    rw [hmax]
    refine ⟨htrue, fun r ↦ ?_⟩
    rw [hle r, le_max_iff, or_assoc, List.exists_mem_cons_iff, roleOfId_toInt]

/-! ## The policy of a database -/

namespace Database

/-- The direct roles, the roles of groups and the memberships the tables hold. -/
def policy (db : Database) : Policy ℤ ℤ ℤ Pb.Role where
  direct repoId userId r :=
    ∃ row ∈ db.reposUsers.rows, row.repoId = repoId ∧ row.userId = userId ∧ roleOfId row.roleId = r
  onGroup repoId groupId r := ∃ row ∈ db.reposGroups.rows,
    row.repoId = repoId ∧ row.groupId = groupId ∧ roleOfId row.roleId = r
  member groupId userId r := ∃ row ∈ db.groupsUsers.rows,
    row.groupId = groupId ∧ row.userId = userId ∧ roleOfId row.roleId = r

/-- The direct roles of a user. -/
def directRoles (db : Database) (repoId userId : ℤ) : List Pb.Role :=
  (db.reposUsers.rows.filter fun r ↦ decide (r.repoId = repoId ∧ r.userId = userId)).map
    fun r ↦ roleOfId r.roleId

/-- The groups that are on a repository and have a user, with the two rows that say so. -/
def groupPaths (db : Database) (repoId userId : ℤ) : List (RepoGroup × GroupUser) :=
  (join (fun g m ↦ decide (g.groupId = m.groupId)) db.reposGroups.rows db.groupsUsers.rows).filter
    fun p ↦ decide (p.1.repoId = repoId ∧ p.2.userId = userId)

/-- What a path through a group is worth. -/
def pathRole (p : RepoGroup × GroupUser) : Pb.Role :=
  min (roleOfId p.1.roleId) (roleOfId p.2.roleId)

/-- The role the tables give a user on a repository. -/
def effectiveRole (db : Database) (repoId userId : ℤ) : Pb.Role :=
  strongest (db.directRoles repoId userId ++ (db.groupPaths repoId userId).map pathRole)

/-- The role `repoGetUserRole` ends up with. -/
def reportedRole (db : Database) (repoId userId : ℤ) : Pb.Role :=
  (Db.maxRole (db.userRoleRows repoId userId) .kNone).2

variable {db : Database} {repoId userId : ℤ}

theorem exists_mem_directRoles_iff {P : Pb.Role → Prop} :
    (∃ a ∈ db.directRoles repoId userId, P a) ↔ ∃ a, db.policy.direct repoId userId a ∧ P a := by
  simp only [directRoles, List.mem_map, List.mem_filter, decide_eq_true_eq, policy]
  constructor
  · rintro ⟨-, ⟨row, ⟨hrow, hrepo, huser⟩, rfl⟩, hP⟩
    exact ⟨_, ⟨row, hrow, hrepo, huser, rfl⟩, hP⟩
  · rintro ⟨-, ⟨row, hrow, hrepo, huser, rfl⟩, hP⟩
    exact ⟨_, ⟨row, ⟨hrow, hrepo, huser⟩, rfl⟩, hP⟩

theorem mem_groupPaths {p : RepoGroup × GroupUser} :
    p ∈ db.groupPaths repoId userId ↔ p.1 ∈ db.reposGroups.rows ∧ p.2 ∈ db.groupsUsers.rows ∧
      p.1.groupId = p.2.groupId ∧ p.1.repoId = repoId ∧ p.2.userId = userId := by
  obtain ⟨g, m⟩ := p
  simp only [groupPaths, List.mem_filter, mem_join, decide_eq_true_eq, and_assoc]

theorem exists_mem_groupPaths_iff {P : Pb.Role → Pb.Role → Prop} :
    (∃ p ∈ db.groupPaths repoId userId, P (roleOfId p.1.roleId) (roleOfId p.2.roleId)) ↔
      ∃ g a b, db.policy.onGroup repoId g a ∧ db.policy.member g userId b ∧ P a b := by
  constructor
  · rintro ⟨p, hp, hP⟩
    obtain ⟨hg, hm, hgroup, hrepo, huser⟩ := mem_groupPaths.mp hp
    exact ⟨p.2.groupId, _, _, ⟨p.1, hg, hrepo, hgroup, rfl⟩, ⟨p.2, hm, rfl, huser, rfl⟩, hP⟩
  · rintro ⟨g, a, b, ⟨g', hg, hrepo, hgroup, rfl⟩, ⟨m, hm, hgroup', huser, rfl⟩, hP⟩
    exact ⟨(g', m), mem_groupPaths.mpr ⟨hg, hm, hgroup.trans hgroup'.symm, hrepo, huser⟩, hP⟩

/-- The effective role is the policy's role over all paths. -/
theorem effectiveRole_isRole (db : Database) (repoId userId : ℤ) :
    db.policy.IsRole (fun _ _ ↦ True) repoId userId (db.effectiveRole repoId userId) := by
  intro r hr
  have hpaths : (∃ p ∈ db.groupPaths repoId userId, r ≤ pathRole p) ↔
      ∃ g a b, db.policy.onGroup repoId g a ∧ db.policy.member g userId b ∧ r ≤ min a b :=
    exists_mem_groupPaths_iff (P := fun a b ↦ r ≤ min a b)
  rw [effectiveRole, le_strongest_iff hr, Policy.Grants, ← exists_mem_directRoles_iff]
  simp only [List.mem_append, or_and_right, exists_or, true_and, ← hpaths, List.mem_map,
    exists_exists_and_eq_and, pathRole]

theorem mem_userRoleRows {n : ℤ} :
    n ∈ db.userRoleRows repoId userId ↔
      (∃ row ∈ db.reposUsers.rows, row.repoId = repoId ∧ row.userId = userId ∧ row.roleId = n) ∨
        ∃ p ∈ db.groupPaths repoId userId, p.1.roleId = p.2.roleId ∧ p.1.roleId = n := by
  rw [userRoleRows, List.mem_dedup, List.mem_append]
  refine or_congr ?_ ?_
  · simp only [List.mem_map, List.mem_filter, decide_eq_true_eq, and_assoc]
  · -- the natural join compares `role_id` too, so the minimum is that of two equal roles
    simp only [List.mem_map, List.mem_filter, decide_eq_true_eq, Prod.exists, mem_groupPaths,
      reposGroupsNaturalJoinGroupsUsers, mem_join]
    refine exists₂_congr fun g m ↦ ⟨?_, ?_⟩
    · rintro ⟨⟨⟨hg, hm, hgroup, hrole⟩, hrepo, huser⟩, hn⟩
      refine ⟨⟨hg, hm, hgroup, hrepo, huser⟩, hrole, ?_⟩
      rwa [hrole, min_self, ← hrole] at hn
    · rintro ⟨⟨hg, hm, hgroup, hrepo, huser⟩, hrole, hn⟩
      refine ⟨⟨⟨hg, hm, hgroup, hrole⟩, hrepo, huser⟩, ?_⟩
      rwa [hrole, min_self, ← hrole]

theorem Valid.roleIds_of_mem_userRoleRows (h : db.Valid) :
    ∀ n ∈ db.userRoleRows repoId userId, n ∈ roleIds := by
  intro n hn
  rcases mem_userRoleRows.mp hn with ⟨row, hrow, -, -, rfl⟩ | ⟨p, hp, -, rfl⟩
  · exact h.reposUsers_role row hrow
  · exact h.reposGroups_role p.1 (mem_groupPaths.mp hp).1

theorem Valid.roleId_eq_iff (h : db.Valid) {p : RepoGroup × GroupUser}
    (hp : p ∈ db.groupPaths repoId userId) :
    p.1.roleId = p.2.roleId ↔ roleOfId p.1.roleId = roleOfId p.2.roleId := by
  obtain ⟨hg, hm, -⟩ := mem_groupPaths.mp hp
  obtain ⟨a, ha : p.1.roleId = _⟩ := exists_toInt_of_mem_roleIds (h.reposGroups_role p.1 hg)
  obtain ⟨b, hb : p.2.roleId = _⟩ := exists_toInt_of_mem_roleIds (h.groupsUsers_role p.2 hm)
  rw [ha, hb, roleOfId_toInt, roleOfId_toInt, Pb.Role.toInt_injective.eq_iff]

theorem Valid.maxRole_userRoleRows (h : db.Valid) (repoId userId : ℤ) :
    Db.maxRole (db.userRoleRows repoId userId) .kNone = (true, db.reportedRole repoId userId) :=
  Prod.ext (Db.maxRole_spec h.roleIds_of_mem_userRoleRows .kNone).1 rfl

theorem Valid.le_reportedRole_iff (h : db.Valid) {repoId userId : ℤ} {r : Pb.Role}
    (hr : .kNone < r) :
    r ≤ db.reportedRole repoId userId ↔ ∃ n ∈ db.userRoleRows repoId userId, r ≤ roleOfId n :=
  ((Db.maxRole_spec h.roleIds_of_mem_userRoleRows .kNone).2 r).trans (or_iff_right hr.not_ge)

/-- **What the code reports** is the policy's role over the paths whose two roles are equal. -/
theorem reportedRole_isRole (h : db.Valid) (repoId userId : ℤ) :
    db.policy.IsRole Eq repoId userId (db.reportedRole repoId userId) := by
  intro r hr
  have hpaths : (∃ p ∈ db.groupPaths repoId userId,
        roleOfId p.1.roleId = roleOfId p.2.roleId ∧
          r ≤ min (roleOfId p.1.roleId) (roleOfId p.2.roleId)) ↔
      ∃ g a b, db.policy.onGroup repoId g a ∧ db.policy.member g userId b ∧ a = b ∧ r ≤ min a b :=
    exists_mem_groupPaths_iff (P := fun a b ↦ a = b ∧ r ≤ min a b)
  rw [h.le_reportedRole_iff hr, Policy.Grants, ← hpaths]
  simp only [mem_userRoleRows, or_and_right, exists_or]
  refine or_congr ?_ ?_
  · constructor
    · rintro ⟨n, ⟨row, hrow, hrepo, huser, rfl⟩, hr⟩
      exact ⟨_, ⟨row, hrow, hrepo, huser, rfl⟩, hr⟩
    · rintro ⟨a, ⟨row, hrow, hrepo, huser, rfl⟩, hr⟩
      exact ⟨_, ⟨row, hrow, hrepo, huser, rfl⟩, hr⟩
  · constructor
    · rintro ⟨n, ⟨p, hp, hrole, rfl⟩, hr⟩
      refine ⟨p, hp, (h.roleId_eq_iff hp).mp hrole, ?_⟩
      rwa [← hrole, min_self]
    · rintro ⟨p, hp, hrole, hr⟩
      have hrole' := (h.roleId_eq_iff hp).mpr hrole
      refine ⟨_, ⟨p, hp, hrole', rfl⟩, ?_⟩
      rwa [← hrole', min_self] at hr

/-- The code reports at most the effective role. -/
theorem reportedRole_le_effectiveRole (h : db.Valid) (repoId userId : ℤ) :
    db.reportedRole repoId userId ≤ db.effectiveRole repoId userId :=
  (reportedRole_isRole h repoId userId).le (effectiveRole_isRole db repoId userId)
    fun _ hg ↦ hg.imp fun _ ↦ trivial

/-! ## When the report is the effective role -/

/-- Every path with two different roles is worth nothing, or no more than a direct role or a path
with two equal roles. -/
def UnequalPathsCovered (db : Database) (repoId userId : ℤ) : Prop :=
  ∀ p ∈ db.groupPaths repoId userId, p.1.roleId ≠ p.2.roleId →
    pathRole p = .kNone ∨ (∃ a ∈ db.directRoles repoId userId, pathRole p ≤ a) ∨
      ∃ q ∈ db.groupPaths repoId userId, q.1.roleId = q.2.roleId ∧ pathRole p ≤ pathRole q

instance (db : Database) (repoId userId : ℤ) : Decidable (db.UnequalPathsCovered repoId userId) :=
  inferInstanceAs (Decidable (∀ p ∈ db.groupPaths repoId userId, _))

theorem reportedRole_eq_effectiveRole_iff (h : db.Valid) :
    db.reportedRole repoId userId = db.effectiveRole repoId userId ↔
      db.UnequalPathsCovered repoId userId := by
  have hgrants (r : Pb.Role) : db.policy.Grants Eq repoId userId r ↔
      (∃ a ∈ db.directRoles repoId userId, r ≤ a) ∨
        ∃ q ∈ db.groupPaths repoId userId, q.1.roleId = q.2.roleId ∧ r ≤ pathRole q := by
    rw [Policy.Grants, ← exists_mem_directRoles_iff,
      ← exists_mem_groupPaths_iff (P := fun a b ↦ a = b ∧ r ≤ min a b)]
    refine or_congr_right ⟨?_, ?_⟩
    · rintro ⟨q, hq, hrole, hr⟩
      exact ⟨q, hq, (h.roleId_eq_iff hq).mpr hrole, hr⟩
    · rintro ⟨q, hq, hrole, hr⟩
      exact ⟨q, hq, (h.roleId_eq_iff hq).mp hrole, hr⟩
  rw [(reportedRole_isRole h repoId userId).eq_iff (effectiveRole_isRole db repoId userId)]
  constructor
  · intro hpaths p hp hne
    obtain ⟨hg, hm, hgroup, hrepo, huser⟩ := mem_groupPaths.mp hp
    rcases hpaths p.1.groupId _ _ ⟨p.1, hg, hrepo, rfl, rfl⟩ ⟨p.2, hm, hgroup.symm, huser, rfl⟩
      (mt (h.roleId_eq_iff hp).mpr hne) with hnone | hcovered
    · exact Or.inl hnone
    · exact Or.inr ((hgrants _).mp hcovered)
  · rintro hcovered g - - ⟨g', hg, hrepo, hgroup, rfl⟩ ⟨m, hm, hgroup', huser, rfl⟩ hne
    have hp : (g', m) ∈ db.groupPaths repoId userId :=
      mem_groupPaths.mpr ⟨hg, hm, hgroup.trans hgroup'.symm, hrepo, huser⟩
    exact (hcovered _ hp (mt (h.roleId_eq_iff hp).mp hne)).imp_right (hgrants _).mpr

/-- A user in one group that is on one repository, with a role in the group and a role of the
group. -/
def viaGroup (onRepo inGroup : Pb.Role) : Database :=
  Write.applyAll 0 initial
    [.insertUser (text "u") (text "u@h") [] [] [], .insertGroup (text "g") [],
      .insertRepo (text "r") [] false, .insertGroupUser 1 1 inGroup.toInt,
      .insertRepoGroup 1 1 onRepo.toInt]

theorem viaGroup_valid (onRepo inGroup : Pb.Role) : (viaGroup onRepo inGroup).Valid :=
  Write.applyAll_valid 0 valid_initial _

end Database

namespace Db

variable {w : World} {repoId userId : ℤ}

theorem run_repoGetUserRole (h : w.db.Valid) (env : ℕ → Env) :
    (repoGetUserRole repoId userId).run env w = ((true, w.db.reportedRole repoId userId), w) := by
  change (maxRole (w.db.userRoleRows repoId userId) .kNone, w) = _
  rw [h.maxRole_userRoleRows]

/-- **The contract of `repoGetUserRole`.** It returns true and the effective role exactly when no
path through a group is lost by the comparison of its two roles. -/
theorem repoGetUserRole_effectiveRole_iff (h : w.db.Valid) (env : ℕ → Env) (repoId userId : ℤ) :
    ((repoGetUserRole repoId userId).run env w).1 = (true, w.db.effectiveRole repoId userId) ↔
      w.db.UnequalPathsCovered repoId userId := by
  rw [run_repoGetUserRole h, ← Database.reportedRole_eq_effectiveRole_iff h, Prod.mk.injEq]
  exact and_iff_right rfl

theorem repoGetUserRole_effectiveRole_owner :
    ((repoGetUserRole 1 1).run (fun _ ↦ {})
        { World.initial with db := .viaGroup .kOwner .kOwner }).1 =
      (true, (Database.viaGroup .kOwner .kOwner).effectiveRole 1 1) :=
  (repoGetUserRole_effectiveRole_iff (w := { World.initial with db := .viaGroup .kOwner .kOwner })
    (Database.viaGroup_valid _ _) _ 1 1).mpr (by decide)

/-- An owner of a group that reads a repository reads it too, and is reported to have no role. -/
theorem repoGetUserRole_ne_effectiveRole :
    (Database.viaGroup .kReader .kOwner).Valid ∧
      (Database.viaGroup .kReader .kOwner).effectiveRole 1 1 = .kReader ∧
      ((repoGetUserRole 1 1).run (fun _ ↦ {})
        { World.initial with db := .viaGroup .kReader .kOwner }).1 = (true, .kNone) :=
  ⟨Database.viaGroup_valid _ _, by decide, by decide⟩

end Db

end Scissy
