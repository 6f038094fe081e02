import Scissy.Access.Gate
import Scissy.Relational.Cursor

/-!
# What is told about groups

`groupGetInfo` and `groupListMembers` take the number or the name of a group, and ask for the rows
of the join of groups and members with the one or the other. What the request does not name has its
default value, and takes part all the same: the number `0`, which no group has, and the empty name,
which a group can have.

So a question by number is disturbed by the members of a group without a name
(`GroupQuestion.Undisturbed`). `groupGetInfo` counts what the join gives and always has one row to
answer with, so it does not know an empty group, and never says that there is none
(`viewsAgree_iff`). The list of all groups comes from an outer join and knows them all.

## Which row an aggregate shows

`groupGetInfo` selects columns of the group beside a count, without a `group by`. There is one row,
and SQLite may take the columns from any of the rows that were counted. What it takes is up to the
environment, and `ViewsAgree` asks for an answer that is right whatever it takes. If all the rows
are of one group there is no choice. The count is cut to 32 bits when it is put into the answer, in
the list as well as here, so two equal counts stay equal.

## The loop over the members

`groupListMembers` binds its parameters again before every step, which a statement that is running
refuses. That the loop goes through the rows once is a fact about cursors (`Stmt.fetchAll_bound`),
and the rows are then compared with the members of the group.
-/

open Relational Interaction Interaction.Prog

namespace Scissy

/-! ## Questions -/

/-- How a client asks for one group. -/
inductive GroupQuestion
  | byId (grpId : ℤ)
  | byName (grp : Bytes)

namespace GroupQuestion

def request : GroupQuestion → Pb.GroupSelector
  | byId grpId => { grpId := some grpId }
  | byName grp => { grp := some grp }

/-- The group is the one that is asked for. -/
def AsksFor (g : ℤ × Group) : GroupQuestion → Prop
  | byId grpId => g.1 = grpId
  | byName grp => g.2.name = grp

end GroupQuestion

/-- The rows of the members of a group. -/
def Database.membersOf (db : Database) (grpId : ℤ) : List GroupUser :=
  db.groupsUsers.rows.filter fun m ↦ decide (grpId = m.groupId)

/-- Nobody is a member of another group that the default value in the question stands for. -/
def GroupQuestion.Undisturbed (db : Database) : GroupQuestion → Prop
  | byId grpId => ∀ g ∈ db.groups.rows, g.2.name = [] → g.1 ≠ grpId → db.membersOf g.1 = []
  | byName _ => True

/-! ## The join -/

section Join

variable {db : Database} {q : GroupQuestion} {g : ℤ × Group}

/-- The rows that a question selects. -/
def Database.selected (db : Database) (q : GroupQuestion) : List ((ℤ × Group) × GroupUser) :=
  db.groupsNaturalJoinGroupsUsers.filter fun r ↦
    decide (r.1.1 = q.request.grpId.getD 0 ∨ r.1.2.name = q.request.grp.getD [])

theorem mem_selected {m : GroupUser} : (g, m) ∈ db.selected q ↔
    g ∈ db.groups.rows ∧ m ∈ db.membersOf g.1 ∧
      (g.1 = q.request.grpId.getD 0 ∨ g.2.name = q.request.grp.getD []) := by
  rw [Database.selected, List.mem_filter, Database.groupsNaturalJoinGroupsUsers, mem_join,
    Database.membersOf, List.mem_filter, decide_eq_true_eq, decide_eq_true_eq, and_assoc,
    and_assoc]

theorem GroupQuestion.AsksFor.selected (hq : q.AsksFor g) :
    g.1 = q.request.grpId.getD 0 ∨ g.2.name = q.request.grp.getD [] := by
  cases q with
  | byId grpId => exact Or.inl hq
  | byName grp => exact Or.inr hq

theorem GroupQuestion.AsksFor.eq (h : db.Valid) {g' : ℤ × Group} (hg : g ∈ db.groups.rows)
    (hg' : g' ∈ db.groups.rows) (hq : q.AsksFor g) (hq' : q.AsksFor g') : g = g' := by
  cases q with
  | byId grpId => exact List.inj_on_of_nodup_map db.groups.nodup_ids hg hg' (hq.trans hq'.symm)
  | byName grp => exact h.groupName_unique.eq_of_mem hg hg' (hq.trans hq'.symm)

theorem filter_selected (hg : g ∈ db.groups.rows) (hq : q.AsksFor g) :
    ((db.selected q).filter fun r ↦ decide (r.1 = g)) = (db.membersOf g.1).map (Prod.mk g) := by
  have hsingle : db.groups.rows.filter (fun a ↦ decide (a = g)) = [g] := by
    refine UniqueColumn.filter_eq_singleton (f := Prod.fst) db.groups.nodup_ids hg fun a ha ↦ ?_
    rw [decide_eq_true_eq]
    exact ⟨congrArg _, List.inj_on_of_nodup_map db.groups.nodup_ids ha hg⟩
  rw [Database.selected, List.filter_comm, Database.groupsNaturalJoinGroupsUsers,
    filter_join_left _ (fun a ↦ decide (a = g)), hsingle, join_singleton,
    List.filter_eq_self.mpr]
  · rfl
  · intro r hr
    obtain ⟨m, -, rfl⟩ := List.mem_map.mp hr
    exact decide_eq_true hq.selected

/-- **Nothing else is selected** if the question is not disturbed. -/
theorem undisturbed_iff (h : db.Valid) (hg : g ∈ db.groups.rows) (hq : q.AsksFor g) :
    q.Undisturbed db ↔ ∀ r ∈ db.selected q, r.1 = g := by
  have hid {a : ℤ × Group} (ha : a ∈ db.groups.rows) : a.1 = g.1 → a = g :=
    List.inj_on_of_nodup_map db.groups.nodup_ids ha hg
  cases q with
  | byId grpId =>
    obtain rfl : g.1 = grpId := hq
    constructor
    · rintro hno ⟨a, m⟩ hr
      obtain ⟨ha, hm, hask | hname⟩ := mem_selected.mp hr
      · exact hid ha hask
      · by_contra hne
        rw [hno a ha hname (mt (hid ha) hne)] at hm
        exact List.not_mem_nil hm
    · intro hall a ha hname hne
      refine List.eq_nil_iff_forall_not_mem.mpr fun m hm ↦ hne ?_
      exact congrArg Prod.fst (hall (a, m) (mem_selected.mpr ⟨ha, hm, Or.inr hname⟩))
  | byName grp =>
    obtain rfl : g.2.name = grp := hq
    refine iff_of_true trivial ?_
    rintro ⟨a, m⟩ hr
    obtain ⟨ha, -, hzero | hname⟩ := mem_selected.mp hr
    · exact absurd hzero (db.groups.id_pos a ha).ne'
    · exact h.groupName_unique.eq_of_mem ha hg hname

theorem selected_eq (hg : g ∈ db.groups.rows) (hq : q.AsksFor g)
    (hall : ∀ r ∈ db.selected q, r.1 = g) :
    db.selected q = (db.membersOf g.1).map (Prod.mk g) := by
  rw [← filter_selected hg hq]
  exact (List.filter_eq_self.mpr fun r hr ↦ decide_eq_true (hall r hr)).symm

end Join

/-! ## The list and the answer -/

section Views

variable {w : World} {q : GroupQuestion} {g : ℤ × Group} {env env' : ℕ → Env}

/-- The entry of a group in the list. -/
def Database.listed (db : Database) (g : ℤ × Group) : Pb.GroupInfo where
  grp := some g.2.name
  grpId := some g.1
  desc := some g.2.desc
  size := some (UInt32.ofNat (db.membersOf g.1).length)

theorem mem_rows_groupsList {db : Database} (pick : ℕ) {row : Bytes × Bytes × ℤ × ℕ} :
    row ∈ Query.groupsList.rows pick db ↔
      ∃ g ∈ db.groups.rows, (g.2.name, g.2.desc, g.1, (db.membersOf g.1).length) = row := by
  rw [Query.rows, orderBy, List.mem_insertionSort, List.mem_map]
  simp only [Database.membersOf, eq_comm]

theorem groupsList_run (env : ℕ → Env) (w : World) : ∃ grps,
    (Service.groupsList.run env w).1 = .returned true { grps, status := some .kSucceed } ∧
      ∀ info, info ∈ grps ↔ ∃ g ∈ w.db.groups.rows, w.db.listed g = info := by
  refine ⟨_, rfl, fun info ↦ ?_⟩
  rw [List.mem_map, exec_query]
  constructor
  · rintro ⟨row, hrow, rfl⟩
    obtain ⟨g, hg, rfl⟩ := (mem_rows_groupsList (env 0).pick).mp hrow
    exact ⟨g, hg, rfl⟩
  · rintro ⟨g, hg, rfl⟩
    have hrow : (g.2.name, g.2.desc, g.1, (w.db.membersOf g.1).length) ∈
        Query.groupsList.rows (env 0).pick w.db := (mem_rows_groupsList _).mpr ⟨g, hg, rfl⟩
    exact ⟨_, hrow, rfl⟩

/-- What `groupGetInfo` makes of the rows it selects, of which it takes the first three columns
from the row that is picked. -/
def infoOf (rows : List ((ℤ × Group) × GroupUser)) (pick : ℕ) : Pb.GroupInfo :=
  let row := rows[pick % rows.length]?.map fun r ↦ r.1
  { grp := some ((row.map (·.2.name)).getD [])
    grpId := some ((row.map (·.1)).getD 0)
    size := some (UInt32.ofNat rows.length)
    desc := some ((row.map (·.2.desc)).getD [])
    status := some .kSucceed }

/-- `groupGetInfo` always succeeds. -/
theorem groupGetInfo_run (q : GroupQuestion) (env : ℕ → Env) (w : World) :
    ((Service.groupGetInfo q.request).run env w).1 =
      .returned true (infoOf (w.db.selected q) (env 0).pick) := by
  have hrun : ((Service.groupGetInfo q.request).run env w).1 = .returned true
      (let row := ((w.db.selected q)[(env 0).pick % (w.db.selected q).length]?.map fun r ↦
        (r.1.2.name, r.1.2.desc, r.1.1)).getD ([], [], 0)
       { grp := some row.1
         grpId := some row.2.2
         size := some (UInt32.ofNat (w.db.selected q).length)
         desc := some row.2.1
         status := some .kSucceed }) := rfl
  rw [hrun, infoOf]
  cases (w.db.selected q)[(env 0).pick % (w.db.selected q).length]? <;> rfl

theorem infoOf_getElem {rows : List ((ℤ × Group) × GroupUser)} {pick : ℕ}
    (hpick : pick < rows.length) : infoOf rows pick =
      { grp := some rows[pick].1.2.name
        grpId := some rows[pick].1.1
        size := some (UInt32.ofNat rows.length)
        desc := some rows[pick].1.2.desc
        status := some .kSucceed } := by
  rw [infoOf, Nat.mod_eq_of_lt hpick, List.getElem?_eq_getElem hpick]
  rfl

/-- The list and the answer to a question about one group agree, whichever of the selected rows the
answer takes its columns from: the group that is asked for is described as in the list, and the
answer is a failure if there is none. -/
def ViewsAgree (q : GroupQuestion) (w : World) : Prop :=
  ∀ env env' : ℕ → Env, ∃ grps info, (Service.groupsList.run env w).1 =
      .returned true { grps, status := some .kSucceed } ∧
    ((Service.groupGetInfo q.request).run env' w).1 = .returned true info ∧
    (∀ g ∈ w.db.groups.rows, q.AsksFor g → ∃ entry ∈ grps, entry.grpId = some g.1 ∧
      info = { entry with status := some .kSucceed }) ∧
    ((∀ g ∈ w.db.groups.rows, ¬ q.AsksFor g) → info.status ≠ some .kSucceed)

theorem viewsAgree_iff_listed (h : w.db.Valid) : ViewsAgree q w ↔
    ∃ g ∈ w.db.groups.rows, q.AsksFor g ∧ ∀ pick,
      infoOf (w.db.selected q) pick = { w.db.listed g with status := some .kSucceed } := by
  constructor
  · intro hagree
    have hentry (pick : ℕ) : ∃ g ∈ w.db.groups.rows, q.AsksFor g ∧
        infoOf (w.db.selected q) pick = { w.db.listed g with status := some .kSucceed } := by
      obtain ⟨grps, hlist, hgrps⟩ := groupsList_run (fun _ ↦ {}) w
      have hinfo := groupGetInfo_run q (fun _ ↦ { pick }) w
      obtain ⟨grps', info, hlist', hinfo', hfound, hmissing⟩ :=
        hagree (fun _ ↦ {}) fun _ ↦ { pick }
      obtain ⟨-, hgrps'⟩ := Outcome.returned.inj (hlist.symm.trans hlist')
      obtain rfl := congrArg Pb.GroupList.grps hgrps'
      obtain ⟨-, rfl⟩ := Outcome.returned.inj (hinfo.symm.trans hinfo')
      obtain ⟨g, hg, hq⟩ : ∃ g ∈ w.db.groups.rows, q.AsksFor g := by
        by_contra hnone
        exact hmissing (fun g hg hq ↦ hnone ⟨g, hg, hq⟩) rfl
      obtain ⟨entry, hentry, hid, heq⟩ := hfound g hg hq
      obtain ⟨g', hg', rfl⟩ := (hgrps entry).mp hentry
      obtain rfl : g' = g :=
        List.inj_on_of_nodup_map w.db.groups.nodup_ids hg' hg (Option.some_inj.mp hid)
      exact ⟨g', hg', hq, heq⟩
    obtain ⟨g, hg, hq, -⟩ := hentry 0
    refine ⟨g, hg, hq, fun pick ↦ ?_⟩
    obtain ⟨g', hg', hq', heq⟩ := hentry pick
    obtain rfl := hq.eq h hg hg' hq'
    exact heq
  · rintro ⟨g, hg, hq, heq⟩ env env'
    obtain ⟨grps, hlist, hgrps⟩ := groupsList_run env w
    refine ⟨grps, _, hlist, groupGetInfo_run q env' w, fun g' hg' hq' ↦ ?_, fun hnone ↦ ?_⟩
    · obtain rfl := hq.eq h hg hg' hq'
      exact ⟨_, (hgrps _).mpr ⟨g, hg, rfl⟩, rfl, heq _⟩
    · exact absurd hq (hnone g hg)

/-- **When the two views agree**: if the group that is asked for exists and has a member, and
nothing disturbs the question. -/
theorem viewsAgree_iff (h : w.db.Valid) (q : GroupQuestion) :
    ViewsAgree q w ↔
      (∃ g ∈ w.db.groups.rows, q.AsksFor g ∧ w.db.membersOf g.1 ≠ []) ∧ q.Undisturbed w.db := by
  rw [viewsAgree_iff_listed h, ← exists_and_right]
  refine exists_congr fun g ↦ ?_
  rw [and_assoc, and_assoc]
  refine and_congr_right fun hg ↦ and_congr_right fun hq ↦ ?_
  rw [undisturbed_iff h hg hq]
  constructor
  · intro heq
    have hid (pick : ℕ) : (infoOf (w.db.selected q) pick).grpId = some g.1 :=
      congrArg Pb.GroupInfo.grpId (heq pick)
    have hall : ∀ r ∈ w.db.selected q, r.1 = g := by
      intro r hr
      obtain ⟨pick, hpick, rfl⟩ := List.getElem_of_mem hr
      have hsame := hid pick
      rw [infoOf_getElem hpick] at hsame
      exact List.inj_on_of_nodup_map w.db.groups.nodup_ids (mem_selected.mp hr).1 hg
        (Option.some_inj.mp hsame)
    refine ⟨fun hnil ↦ ?_, hall⟩
    have hnone := hid 0
    rw [selected_eq hg hq hall, hnil] at hnone
    exact (w.db.groups.id_pos g hg).ne (Option.some_inj.mp hnone)
  · rintro ⟨hne, hall⟩ pick
    have hpos : 0 < (w.db.membersOf g.1).length := List.length_pos_of_ne_nil hne
    rw [selected_eq hg hq hall, infoOf, List.length_map, List.getElem?_map, Option.map_map,
      List.getElem?_eq_getElem (Nat.mod_lt _ hpos)]
    rfl

/-- A group with a member, and another one without. -/
def Database.twoGroups : Database :=
  Write.applyAll 0 initial
    [.insertUser (text "u") (text "u@h") [] [] [], .insertGroup (text "g") [],
      .insertGroupUser 1 1 3, .insertGroup (text "e") [], .insertGroupUser 2 1 3,
      .deleteGroupUser 2 1]

theorem Database.twoGroups_valid : Database.twoGroups.Valid :=
  Write.applyAll_valid 0 valid_initial _

/-- A group with a member, and a group without a name with another one. -/
def Database.namelessGroup : Database :=
  Write.applyAll 0 initial
    [.insertUser (text "u") (text "u@h") [] [] [], .insertUser (text "v") (text "v@h") [] [] [],
      .insertGroup (text "g") [], .insertGroupUser 1 1 3, .insertGroup [] [],
      .insertGroupUser 2 2 3]

theorem Database.namelessGroup_valid : Database.namelessGroup.Valid :=
  Write.applyAll_valid 0 valid_initial _

theorem viewsAgree_member :
    ViewsAgree (.byName (text "g")) { World.initial with db := .twoGroups } :=
  (viewsAgree_iff Database.twoGroups_valid (.byName (text "g"))).mpr
    ⟨⟨(1, ⟨text "g", []⟩), by decide, rfl, by decide⟩, trivial⟩

/-- The group whose last member has been removed is answered with nothing in it, and so is a name
that no group has. The group with a member may be answered with another one's number. -/
theorem not_viewsAgree :
    let w := { World.initial with db := .twoGroups }
    let v := { World.initial with db := .namelessGroup }
    let answer (q : GroupQuestion) (pick : ℕ) (w : World) :=
      ((Service.groupGetInfo q.request).run (fun _ ↦ { pick }) w).1
    let nothing : Pb.GroupInfo :=
      { grp := some [], grpId := some 0, desc := some [], size := some 0, status := some .kSucceed }
    w.db.Valid ∧ v.db.Valid ∧ answer (.byId 2) 0 w = .returned true nothing ∧
      answer (.byName (text "x")) 0 w = .returned true nothing ∧
      answer (.byId 1) 1 v = .returned true { nothing with grpId := some 2, size := some 2 } ∧
      ¬ ViewsAgree (.byId 2) w ∧ ¬ ViewsAgree (.byName (text "x")) w ∧
      ¬ ViewsAgree (.byId 1) v := by
  intro w v answer nothing
  have hempty : answer (.byId 2) 0 w = .returned true nothing := rfl
  have hmissing : answer (.byName (text "x")) 0 w = .returned true nothing := rfl
  have hother : answer (.byId 1) 1 v =
      .returned true { nothing with grpId := some 2, size := some 2 } := rfl
  refine ⟨Database.twoGroups_valid, Database.namelessGroup_valid, hempty, hmissing, hother,
    fun hagree ↦ ?_, fun hagree ↦ ?_, fun hagree ↦ ?_⟩
  · obtain ⟨grps, info, -, hinfo, hfound, -⟩ := hagree (fun _ ↦ {}) fun _ ↦ {}
    obtain ⟨-, rfl⟩ := Outcome.returned.inj (hempty.symm.trans hinfo)
    obtain ⟨entry, -, hid, heq⟩ := hfound (2, ⟨text "e", []⟩) (by decide) rfl
    have hzero : some 0 = entry.grpId := congrArg Pb.GroupInfo.grpId heq
    exact absurd (hzero.trans hid) (by decide)
  · obtain ⟨grps, info, -, hinfo, -, hnone⟩ := hagree (fun _ ↦ {}) fun _ ↦ {}
    obtain ⟨-, rfl⟩ := Outcome.returned.inj (hmissing.symm.trans hinfo)
    exact hnone (show ∀ g ∈ Database.twoGroups.groups.rows, g.2.name ≠ text "x" by decide) rfl
  · obtain ⟨grps, info, -, hinfo, hfound, -⟩ := hagree (fun _ ↦ {}) fun _ ↦ { pick := 1 }
    obtain ⟨-, rfl⟩ := Outcome.returned.inj (hother.symm.trans hinfo)
    obtain ⟨entry, -, hid, heq⟩ := hfound (1, ⟨text "g", []⟩) (by decide) rfl
    have htwo : some 2 = entry.grpId := congrArg Pb.GroupInfo.grpId heq
    exact absurd (htwo.trans hid) (by decide)

end Views

/-! ## The members -/

section Members

variable {w : World} {q : GroupQuestion} {g : ℤ × Group} {env : ℕ → Env}

/-- The entry of a member in the list. -/
def memberEntry (user : User) (m : GroupUser) : Pb.Member where
  user := some user.login
  userId := some m.userId
  role := some m.roleId

/-- The list has each member of the group once, with the login and the role, and nobody else. -/
def ListsMembers (db : Database) (g : ℤ × Group) (users : List Pb.Member) : Prop :=
  (users.map (·.userId)).Nodup ∧ ∀ entry, entry ∈ users ↔
    ∃ m ∈ db.membersOf g.1, ∃ user, (m.userId, user) ∈ db.users.rows ∧ memberEntry user m = entry

/-- The list that is sent. -/
def Database.memberEntries (db : Database) (q : GroupQuestion) : List Pb.Member :=
  (join (fun r u ↦ decide (r.2.userId = u.1)) (db.selected q) db.users.rows).map fun r ↦
    memberEntry r.2.2 r.1.2

theorem groupListMembers_run (q : GroupQuestion) (env : ℕ → Env) (w : World) :
    ((Service.groupListMembers q.request).run env w).1 =
      .returned true { users := w.db.memberEntries q, status := some .kSucceed } := by
  have hrun : ((Service.groupListMembers q.request).run env w).1 = .returned true
      { users := (Stmt.fetchAll ((join (fun r u ↦ decide (r.2.userId = u.1)) (w.db.selected q)
          w.db.users.rows).map fun r ↦ (r.2.2.login, r.1.2.userId, r.1.2.roleId)) (.bound [])).map
            fun r ↦ { user := some r.1, userId := some r.2.1, role := some r.2.2 }
        status := some .kSucceed } := rfl
  rw [hrun, Stmt.fetchAll_bound, List.map_map]
  rfl

theorem mem_memberEntries {db : Database} {entry : Pb.Member} :
    entry ∈ db.memberEntries q ↔ ∃ r ∈ db.selected q, ∃ user,
      (r.2.userId, user) ∈ db.users.rows ∧ memberEntry user r.2 = entry := by
  rw [Database.memberEntries, List.mem_map]
  constructor
  · rintro ⟨⟨r, u⟩, hmem, rfl⟩
    obtain ⟨hr, hu, hid⟩ := mem_join.mp hmem
    refine ⟨r, hr, u.2, ?_, rfl⟩
    rw [of_decide_eq_true hid]
    exact hu
  · rintro ⟨r, hr, user, huser, rfl⟩
    exact ⟨(r, r.2.userId, user), mem_join.mpr ⟨hr, huser, decide_eq_true rfl⟩, rfl⟩

theorem map_userId_memberEntries {db : Database} (h : db.Valid) :
    (db.memberEntries q).map (·.userId) = (db.selected q).map fun r ↦ some r.2.userId := by
  have honce : ∀ r ∈ db.selected q, ∃ u,
      db.users.rows.filter (fun u ↦ decide (r.2.userId = u.1)) = [u] := by
    rintro ⟨g, m⟩ hr
    obtain ⟨-, hm, -⟩ := mem_selected.mp hr
    obtain ⟨user, huser⟩ := AutoTable.mem_ids.mp
      (h.groupsUsers_user m (List.mem_of_mem_filter hm))
    refine ⟨(m.userId, user), UniqueColumn.filter_eq_singleton (f := Prod.fst)
      db.users.nodup_ids huser fun u _ ↦ ?_⟩
    rw [decide_eq_true_eq, eq_comm]
  rw [Database.memberEntries, List.map_map, ← map_join_of_unique honce]
  rfl

theorem nodup_membersOf (db : Database) (grpId : ℤ) :
    ((db.membersOf grpId).map (·.userId)).Nodup := by
  have hkeys : ((db.membersOf grpId).map GroupUser.key).Nodup :=
    db.groupsUsers.nodup_keys.sublist (List.filter_sublist.map _)
  refine List.Nodup.map_on (fun m hm m' hm' huser ↦ ?_) (List.Nodup.of_map _ hkeys)
  have hgroup : m.groupId = m'.groupId :=
    (of_decide_eq_true (List.mem_filter.mp hm).2).symm.trans
      (of_decide_eq_true (List.mem_filter.mp hm').2)
  exact List.inj_on_of_nodup_map hkeys hm hm' (Prod.ext hgroup huser)

/-- **When the members are listed.** The loop steps through the rows once, and they are the members
of the group exactly if nothing disturbs the question. -/
theorem groupListMembers_iff (h : w.db.Valid) (hg : g ∈ w.db.groups.rows) (hq : q.AsksFor g)
    (env : ℕ → Env) :
    let rows := (Query.groupListMembers (q.request.grpId.getD 0) (q.request.grp.getD [])).rows
      (env 0).pick w.db
    Stmt.fetchAll rows (.bound []) = rows ∧
      ((∃ users, ((Service.groupListMembers q.request).run env w).1 =
          .returned true { users, status := some .kSucceed } ∧ ListsMembers w.db g users) ↔
        q.Undisturbed w.db) := by
  intro rows
  refine ⟨Stmt.fetchAll_bound rows [], ?_⟩
  have hlists : (∃ users, ((Service.groupListMembers q.request).run env w).1 =
      .returned true { users, status := some .kSucceed } ∧ ListsMembers w.db g users) ↔
        ListsMembers w.db g (w.db.memberEntries q) := by
    constructor
    · rintro ⟨users, hrun, hlists⟩
      obtain ⟨-, heq⟩ := Outcome.returned.inj ((groupListMembers_run q env w).symm.trans hrun)
      obtain rfl := congrArg Pb.MemberList.users heq
      exact hlists
    · exact fun hlists ↦ ⟨_, groupListMembers_run q env w, hlists⟩
  rw [hlists, undisturbed_iff h hg hq, ListsMembers, map_userId_memberEntries h]
  constructor
  · rintro ⟨hnodup, hmem⟩ ⟨a, m⟩ hr
    -- a member of another group would be a member of this one too, and be listed twice
    obtain ⟨-, hm, -⟩ := mem_selected.mp hr
    obtain ⟨user, huser⟩ := AutoTable.mem_ids.mp
      (h.groupsUsers_user m (List.mem_of_mem_filter hm))
    obtain ⟨m', hm', user', -, hentry⟩ :=
      (hmem _).mp (mem_memberEntries.mpr ⟨(a, m), hr, user, huser, rfl⟩)
    have hr' : (g, m') ∈ w.db.selected q := mem_selected.mpr ⟨hg, hm', hq.selected⟩
    have hsame := List.inj_on_of_nodup_map hnodup hr' hr (congrArg Pb.Member.userId hentry)
    exact (congrArg Prod.fst hsame).symm
  · intro hall
    rw [selected_eq hg hq hall, List.map_map]
    refine ⟨?_, fun entry ↦ ?_⟩
    · have hnodup := (nodup_membersOf w.db g.1).map (Option.some_injective ℤ)
      rwa [List.map_map] at hnodup
    · rw [mem_memberEntries, selected_eq hg hq hall]
      constructor
      · rintro ⟨r, hr, hrest⟩
        obtain ⟨m, hm, rfl⟩ := List.mem_map.mp hr
        exact ⟨m, hm, hrest⟩
      · rintro ⟨m, hm, hrest⟩
        exact ⟨(g, m), List.mem_map_of_mem hm, hrest⟩

theorem groupListMembers_byName :
    ∃ users, ((Service.groupListMembers { grp := some (text "g") }).run (fun _ ↦ {})
        { World.initial with db := .namelessGroup }).1 =
      .returned true { users, status := some .kSucceed } ∧
        ListsMembers .namelessGroup (1, ⟨text "g", []⟩) users :=
  (groupListMembers_iff (w := { World.initial with db := .namelessGroup })
    (q := .byName (text "g")) Database.namelessGroup_valid
    (show (1, ⟨text "g", []⟩) ∈ Database.namelessGroup.groups.rows by decide) rfl
    fun _ ↦ {}).2.mpr trivial

/-- Asked for by its number, the group has the member of the other one as well. -/
theorem not_groupListMembers :
    let w := { World.initial with db := .namelessGroup }
    w.db.Valid ∧ (1, ⟨text "g", []⟩) ∈ w.db.groups.rows ∧
      ∃ users, ((Service.groupListMembers { grpId := some 1 }).run (fun _ ↦ {}) w).1 =
        .returned true { users, status := some .kSucceed } ∧
          users.map (·.user) = [some (text "u"), some (text "v")] ∧
            ¬ ListsMembers w.db (1, ⟨text "g", []⟩) users := by
  intro w
  refine ⟨Database.namelessGroup_valid, by decide, w.db.memberEntries (.byId 1),
    groupListMembers_run (.byId 1) _ w, rfl, fun hlists ↦ ?_⟩
  obtain ⟨m, hm, user, -, hentry⟩ :=
    (hlists.2 ⟨some (text "v"), some 2, some 3, none, none⟩).mp (List.mem_cons_of_mem _
      (List.mem_singleton_self _))
  have huser : m.userId = 2 := Option.some_inj.mp (congrArg Pb.Member.userId hentry)
  have hone : ∀ m ∈ Database.namelessGroup.membersOf 1, m.userId ≠ 2 := by decide
  exact hone m hm huser

end Members

end Scissy
