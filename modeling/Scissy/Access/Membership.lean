import Scissy.Access.Role
import Scissy.Authority.Membership

/-!
# Memberships as a graph

The rows of `groups`, `groups_users`, `repos_users` and `repos_groups` as groups and links. The
statements of the membership calls are changes of this graph (`Write.graph_apply`), and the right a
handler checks before its statement is a property of the links (`Gate.admits_iff`).

## Three tables, one kind of link

A row of any of the three tables joins two things with a role, and its primary key is the pair. So
the row becomes a `Link` whose kind is the table. What differs between the tables is which of the
two things is a group, since the rows about a group go with it, and what the other one refers to.
Users and repositories are not a part of the graph: no membership call creates or deletes one, and
the graph only needs the sets of their numbers (`schema`).

## Check and write

A handler first passes a `Gate` and then issues a statement, and another call may come in between.
All that can be said about such a pair is in `overtaken`: two changes, of which the first one closes
the gate of the second one. It is a fact about one graph and two changes, with no calls in it, and
the schedules of `MembershipCall.serializable` come down to it.
-/

open Authority Relational Interaction Interaction.Prog

namespace Scissy

/-! ## The graph of a database -/

namespace Database

/-- The rows of the four tables. -/
def graph (db : Database) : Graph Table ℤ ℤ Group where
  groups := {r | r ∈ db.groups.rows}
  links := {l | match l.kind with
    | .groupsUsers => ⟨l.left, l.right, l.role⟩ ∈ db.groupsUsers.rows
    | .reposUsers => ⟨l.left, l.right, l.role⟩ ∈ db.reposUsers.rows
    | .reposGroups => ⟨l.left, l.right, l.role⟩ ∈ db.reposGroups.rows
    | _ => False}

/-- The references of the three tables. -/
def schema (db : Database) : Schema Table ℤ ℤ where
  about k g := k.1 = .groupsUsers ∧ k.2.1 = g ∨ k.1 = .reposGroups ∧ k.2.2 = g
  sound l := l.role ∈ roleIds ∧ match l.kind with
    | .groupsUsers => l.right ∈ db.users.ids
    | .reposUsers => l.left ∈ db.repos.ids ∧ l.right ∈ db.users.ids
    | .reposGroups => l.left ∈ db.repos.ids
    | _ => False

/-- The four tables have the same rows. -/
structure SameMemberships (db db' : Database) : Prop where
  groups : ∀ r, r ∈ db.groups.rows ↔ r ∈ db'.groups.rows
  groupsUsers : ∀ r, r ∈ db.groupsUsers.rows ↔ r ∈ db'.groupsUsers.rows
  reposUsers : ∀ r, r ∈ db.reposUsers.rows ↔ r ∈ db'.reposUsers.rows
  reposGroups : ∀ r, r ∈ db.reposGroups.rows ↔ r ∈ db'.reposGroups.rows

variable {db db' : Database} {g : ℤ}

theorem sameMemberships_of_graph (h : db.graph = db'.graph) : db.SameMemberships db' where
  groups r := Set.ext_iff.mp (congrArg Graph.groups h) r
  groupsUsers r :=
    Set.ext_iff.mp (congrArg Graph.links h) ⟨.groupsUsers, r.groupId, r.userId, r.roleId⟩
  reposUsers r :=
    Set.ext_iff.mp (congrArg Graph.links h) ⟨.reposUsers, r.repoId, r.userId, r.roleId⟩
  reposGroups r :=
    Set.ext_iff.mp (congrArg Graph.links h) ⟨.reposGroups, r.repoId, r.groupId, r.roleId⟩

theorem hasGroup_graph : db.graph.HasGroup g ↔ g ∈ db.groups.ids := AutoTable.mem_ids.symm

theorem Valid.closed_graph (h : db.Valid) : db.graph.Closed db.schema := by
  rintro ⟨kind, left, right, role⟩ hl g (⟨rfl, rfl⟩ | ⟨rfl, rfl⟩)
  · exact hasGroup_graph.mpr (h.groupsUsers_group _ hl)
  · exact hasGroup_graph.mpr (h.reposGroups_group _ hl)

end Database

/-! ## Statements as changes -/

/-- What a statement of the membership calls changes. -/
def Write.change : Write → Option (Change Table ℤ ℤ Group)
  | deleteGroup groupId => some (.delete groupId)
  | insertGroupUser groupId userId roleId => some (.add ⟨.groupsUsers, groupId, userId, roleId⟩)
  | deleteGroupUser groupId userId => some (.remove (.groupsUsers, groupId, userId))
  | insertRepoUser repoId userId roleId => some (.add ⟨.reposUsers, repoId, userId, roleId⟩)
  | deleteRepoUser repoId userId => some (.remove (.reposUsers, repoId, userId))
  | insertRepoGroup repoId groupId roleId => some (.add ⟨.reposGroups, repoId, groupId, roleId⟩)
  | deleteRepoGroup repoId groupId => some (.remove (.reposGroups, repoId, groupId))
  | _ => none

section Apply

variable {db : Database} {now : ℤ}

/-- A table takes a row exactly if no link of its kind has the key. -/
theorem keyFree_iff (db : Database) {ρ : Type} {key : ρ → ℤ × ℤ} (t : KeyTable key) (kind : Table)
    (mk : ℤ → ℤ → ℤ → ρ) (hkey : ∀ left right role, key (mk left right role) = (left, right))
    (hmk : ∀ r, ∃ left right role, mk left right role = r)
    (hmem : ∀ left right role,
      ⟨kind, left, right, role⟩ ∈ db.graph.links ↔ mk left right role ∈ t.rows)
    (left right role : ℤ) :
    (∀ x ∈ db.graph.links, x.key ≠ (kind, left, right)) ↔
      ∃ t', t.insert (mk left right role) = some t' := by
  rw [KeyTable.exists_insert_iff, hkey]
  constructor
  · intro hfree hkeys
    obtain ⟨r, hr, heq⟩ := List.mem_map.mp hkeys
    obtain ⟨left', right', role', rfl⟩ := hmk r
    rw [hkey] at heq
    exact hfree _ ((hmem _ _ _).mpr hr) (congrArg (Prod.mk kind) heq)
  · rintro hfree ⟨kind', left', right', role'⟩ hx heq
    obtain ⟨rfl, hsame⟩ := Prod.mk.inj heq
    have hrow : key (mk left' right' role') = (left, right) := (hkey _ _ _).trans hsame
    exact hfree (List.mem_map.mpr ⟨_, (hmem _ _ _).mp hx, hrow⟩)

theorem takes_groupsUsers_iff {groupId userId roleId : ℤ} :
    db.graph.Takes db.schema ⟨.groupsUsers, groupId, userId, roleId⟩ ↔
      (groupId ∈ db.groups.ids ∧ userId ∈ db.users.ids ∧ roleId ∈ roleIds) ∧
        ∃ t, db.groupsUsers.insert ⟨groupId, userId, roleId⟩ = some t := by
  rw [← keyFree_iff db db.groupsUsers .groupsUsers GroupUser.mk (fun _ _ _ ↦ rfl)
    (fun _ ↦ ⟨_, _, _, rfl⟩) fun _ _ _ ↦ Iff.rfl]
  simp [Graph.Takes, Database.schema, Link.key, Database.hasGroup_graph]
  tauto

theorem takes_reposUsers_iff {repoId userId roleId : ℤ} :
    db.graph.Takes db.schema ⟨.reposUsers, repoId, userId, roleId⟩ ↔
      (repoId ∈ db.repos.ids ∧ userId ∈ db.users.ids ∧ roleId ∈ roleIds) ∧
        ∃ t, db.reposUsers.insert ⟨repoId, userId, roleId⟩ = some t := by
  rw [← keyFree_iff db db.reposUsers .reposUsers RepoUser.mk (fun _ _ _ ↦ rfl)
    (fun _ ↦ ⟨_, _, _, rfl⟩) fun _ _ _ ↦ Iff.rfl]
  simp [Graph.Takes, Database.schema, Link.key]
  tauto

theorem takes_reposGroups_iff {repoId groupId roleId : ℤ} :
    db.graph.Takes db.schema ⟨.reposGroups, repoId, groupId, roleId⟩ ↔
      (repoId ∈ db.repos.ids ∧ groupId ∈ db.groups.ids ∧ roleId ∈ roleIds) ∧
        ∃ t, db.reposGroups.insert ⟨repoId, groupId, roleId⟩ = some t := by
  rw [← keyFree_iff db db.reposGroups .reposGroups RepoGroup.mk (fun _ _ _ ↦ rfl)
    (fun _ ↦ ⟨_, _, _, rfl⟩) fun _ _ _ ↦ Iff.rfl]
  simp [Graph.Takes, Database.schema, Link.key, Database.hasGroup_graph]
  tauto

theorem graph_insertInto {τ : Type} {allowed : Prop} [Decidable allowed] {refused : ResultCode}
    {t? : Option τ} {set : τ → Database} {l : Link Table ℤ ℤ}
    (htakes : db.graph.Takes db.schema l ↔ allowed ∧ ∃ t, t? = some t)
    (hset : ∀ t, t? = some t → (set t).groups = db.groups ∧
      ∀ x, x ∈ (set t).graph.links ↔ x ∈ db.graph.links ∨ x = l) :
    (Write.insertInto db allowed refused t? set).2.graph =
      (Change.add l).apply db.schema db.graph := by
  by_cases h : db.graph.Takes db.schema l
  · obtain ⟨hallowed, t, rfl⟩ := htakes.mp h
    obtain ⟨hgroups, hlinks⟩ := hset t rfl
    rw [Write.insertInto, if_pos hallowed]
    ext x
    · change x ∈ (set t).groups.rows ↔ x ∈ db.groups.rows
      rw [hgroups]
    · exact (hlinks x).trans (or_congr_right (and_iff_left h).symm)
  · have hsame := (Change.apply_add_of_not_takes h).symm
    cases t? with
    | none => exact hsame
    | some t =>
      rw [Write.insertInto]
      split_ifs with hallowed
      · exact absurd (htakes.mpr ⟨hallowed, t, rfl⟩) h
      · exact hsame

/-- **Statements are changes.** -/
theorem Write.graph_apply (h : db.Valid) {s : Write} {c : Change Table ℤ ℤ Group}
    (hc : s.change = some c) (now : ℤ) :
    (s.apply now db).2.graph = c.apply db.schema db.graph := by
  cases s with
  | deleteGroup groupId =>
    obtain rfl := Option.some_inj.mp hc
    have hkept (g : ℤ) (hg : g ∈ db.groups.ids) :
        g ∈ (db.groups.filter fun r ↦ !decide (r.1 = groupId)).ids ↔ g ≠ groupId := by
      simp [AutoTable.mem_ids] at hg ⊢
      tauto
    ext x
    · simp [Database.graph, Change.apply, Write.apply, Database.deleteGroups]
    · obtain ⟨kind, left, right, role⟩ := x
      cases kind <;>
        simp [Database.graph, Change.apply, Write.apply, Database.deleteGroups, Database.schema,
          Link.key]
      · exact fun hl ↦ hkept left (h.groupsUsers_group _ hl)
      · exact fun hl ↦ hkept right (h.reposGroups_group _ hl)
  | insertGroupUser | insertRepoUser | insertRepoGroup =>
    obtain rfl := Option.some_inj.mp hc
    refine graph_insertInto ?_ fun t ht ↦ ⟨rfl, ?_⟩
    · first
      | exact takes_groupsUsers_iff
      | exact takes_reposUsers_iff
      | exact takes_reposGroups_iff
    · rintro ⟨kind, left, right, role⟩
      cases kind <;> simp [Database.graph, (KeyTable.rows_of_insert ht).1]
  | deleteGroupUser | deleteRepoUser | deleteRepoGroup =>
    obtain rfl := Option.some_inj.mp hc
    ext x
    · rfl
    · obtain ⟨kind, left, right, role⟩ := x
      cases kind <;>
        simp [Database.graph, Change.apply, Write.apply, Link.key, imp_iff_not_or]
  | _ => cases hc

end Apply

/-! ## What a handler checks before its statement -/

/-- What the caller has to own. -/
inductive Gate
  | group (groupId : ℤ)
  | repo (repoId : ℤ)

/-- What the handler that issues the statement checks. -/
def Write.gate : Write → Option Gate
  | deleteGroup groupId | insertGroupUser groupId .. | deleteGroupUser groupId .. =>
    some (.group groupId)
  | insertRepoUser repoId .. | deleteRepoUser repoId .. | insertRepoGroup repoId ..
  | deleteRepoGroup repoId .. => some (.repo repoId)
  | _ => none

namespace Gate

/-- The caller passes. -/
def Admits (session : Session) (db : Database) : Gate → Prop
  | group groupId => session.role = Pb.Role.kOwner.toInt ∨ ∃ r ∈ db.groupsUsers.rows,
    r.groupId = groupId ∧ r.userId = session.userId ∧ r.roleId = Pb.Role.kOwner.toInt
  | repo repoId => .kOwner ≤ db.reportedRole repoId session.userId

/-- The same in terms of links. -/
def Opens (session : Session) (G : Graph Table ℤ ℤ Group) : Gate → Prop
  | group groupId => session.role = Pb.Role.kOwner.toInt ∨
    ⟨.groupsUsers, groupId, session.userId, Pb.Role.kOwner.toInt⟩ ∈ G.links
  | repo repoId => ⟨.reposUsers, repoId, session.userId, Pb.Role.kOwner.toInt⟩ ∈ G.links ∨
    ∃ groupId, ⟨.reposGroups, repoId, groupId, Pb.Role.kOwner.toInt⟩ ∈ G.links ∧
      ⟨.groupsUsers, groupId, session.userId, Pb.Role.kOwner.toInt⟩ ∈ G.links

variable {session session' : Session} {db : Database} {G G' : Graph Table ℤ ℤ Group}
  {gate gate' : Gate} {a b : Change Table ℤ ℤ Group}

theorem kOwner_le_roleOfId_iff {n : ℤ} (h : n ∈ roleIds) :
    .kOwner ≤ roleOfId n ↔ n = Pb.Role.kOwner.toInt := by
  obtain ⟨r, rfl⟩ := exists_toInt_of_mem_roleIds h
  rw [roleOfId_toInt, Pb.Role.toInt_injective.eq_iff]
  exact ⟨fun hle ↦ le_antisymm (Pb.Role.le_kOwner r) hle, fun heq ↦ heq.ge⟩

theorem admits_iff (h : db.Valid) : gate.Admits session db ↔ gate.Opens session db.graph := by
  cases gate with
  | group groupId =>
    refine or_congr_right ⟨?_, fun hr ↦ ⟨_, hr, rfl, rfl, rfl⟩⟩
    rintro ⟨row, hrow, rfl, huser, hrole⟩
    rw [← huser, ← hrole]
    exact hrow
  | repo repoId =>
    have hpos : ⊥ < Pb.Role.kOwner := by decide
    refine (Database.reportedRole_isRole h repoId session.userId _ hpos).trans (or_congr ?_ ?_)
    · constructor
      · rintro ⟨-, ⟨row, hrow, rfl, huser, rfl⟩, hrole⟩
        rw [← huser, ← (kOwner_le_roleOfId_iff (h.reposUsers_role _ hrow)).mp hrole]
        exact hrow
      · intro hr
        exact ⟨_, ⟨_, hr, rfl, rfl, rfl⟩, (roleOfId_toInt _).ge⟩
    · constructor
      · rintro ⟨-, -, -, ⟨g, hg, rfl, rfl, rfl⟩, ⟨m, hm, hgroup, huser, rfl⟩, -, hrole⟩
        obtain ⟨hg', hm'⟩ := le_min_iff.mp hrole
        refine ⟨g.groupId, ?_, ?_⟩
        · rw [← (kOwner_le_roleOfId_iff (h.reposGroups_role _ hg)).mp hg']
          exact hg
        · rw [← hgroup, ← huser, ← (kOwner_le_roleOfId_iff (h.groupsUsers_role _ hm)).mp hm']
          exact hm
      · rintro ⟨g, hr, hm⟩
        refine ⟨g, _, _, ⟨_, hr, rfl, rfl, rfl⟩, ⟨_, hm, rfl, rfl, rfl⟩, rfl, ?_⟩
        rw [min_self]
        exact (roleOfId_toInt _).ge

theorem Opens.mono (h : gate.Opens session G) (hsub : G.links ⊆ G'.links) :
    gate.Opens session G' := by
  cases gate with
  | group groupId => exact h.imp_right fun hm ↦ hsub hm
  | repo repoId => exact h.imp (fun hr ↦ hsub hr) fun ⟨g, hr, hm⟩ ↦ ⟨g, hsub hr, hsub hm⟩

/-- The gate of a group is closed by changes of that group only. -/
theorem Opens.apply {g : ℤ} (h : (group g).Opens session G) (hc : ¬ a.About db.schema g) :
    (group g).Opens session (a.apply db.schema G) := by
  refine h.imp_right fun hm ↦ ?_
  rcases Change.mem_links_apply (c := a) (σ := db.schema) hm with hm | rfl | ⟨g', rfl, hg⟩
  · exact hm
  · exact absurd (Or.inl ⟨rfl, rfl⟩) hc
  · rcases hg with ⟨-, rfl⟩ | ⟨⟨⟩, -⟩
    exact absurd rfl hc

/-- The gate belongs to the change. -/
def Guards (gate : Gate) : Change Table ℤ ℤ Group → Prop
  | .insert _ => False
  | .delete g => gate = group g
  | .add _ | .remove _ => True

/-- **A change after its gate has been closed.** The first change of two closes the gate of the
second one, which is made nevertheless. Either that makes no difference, or the other order would
have the same result, or the first change removes a link that the second one adds again or whose
owner removes another link, with which the first gate closes. -/
theorem overtaken {σ : Schema Table ℤ ℤ} (hσ : σ = db.schema) (ha : gate.Guards a)
    (hb : gate'.Guards b) (hG : (a.apply σ G).Closed σ) (hG' : (b.apply σ G).Closed σ)
    (hopen : gate.Opens session G) (hopen' : gate'.Opens session' G)
    (hlost : ¬ gate'.Opens session' (a.apply σ G)) :
    b.apply σ (a.apply σ G) = a.apply σ G ∨
      b.apply σ (a.apply σ G) = a.apply σ (b.apply σ G) ∧
        (gate.Opens session (b.apply σ G) ∨ a.apply σ (b.apply σ G) = b.apply σ G) ∨
      ∃ k, a = .remove k ∧ ((∃ l, b = .add l ∧ l.key = k) ∨
        ∃ k', b = .remove k' ∧ k ≠ k' ∧ ¬ gate.Opens session (b.apply σ G)) := by
  subst hσ
  cases a with
  | insert a => exact ha.elim
  | add l => exact (hlost (hopen'.mono fun x hx ↦ Or.inl hx)).elim
  | delete g =>
    obtain rfl := ha
    by_cases hbg : b.About db.schema g
    · -- nothing happens to a group that has been deleted
      refine Or.inl (Change.apply_of_not_hasGroup hG hbg fun hg ↦ ?_)
      exact (Change.hasGroup_delete.mp hg).2 rfl
    · refine Or.inr (Or.inl ⟨Change.apply_comm ?_ id, Or.inl (hopen.apply hbg)⟩)
      cases b with
      | insert a => exact hb.elim
      | _ => exact id
  | remove k =>
    cases b with
    | insert a => exact hb.elim
    | add l =>
      by_cases hk : l.key = k
      · exact Or.inr (Or.inr ⟨k, rfl, Or.inl ⟨l, rfl, hk⟩⟩)
      · exact Or.inr (Or.inl ⟨Change.apply_comm hk id, Or.inl (hopen.mono fun x hx ↦ Or.inl hx)⟩)
    | remove k' =>
      have hcomm : (Change.remove k').apply db.schema ((Change.remove k).apply db.schema G) =
          (Change.remove k).apply db.schema ((Change.remove k').apply db.schema G) :=
        Change.apply_comm id id
      by_cases hk : k = k'
      · subst hk
        refine Or.inl ?_
        ext x
        · rfl
        · exact and_iff_left_of_imp fun hx ↦ hx.2
      · by_cases hkept : gate.Opens session ((Change.remove k').apply db.schema G)
        · exact Or.inr (Or.inl ⟨hcomm, Or.inl hkept⟩)
        · exact Or.inr (Or.inr ⟨k, rfl, Or.inr ⟨k', rfl, hk, hkept⟩⟩)
    | delete g =>
      obtain rfl := hb
      have habout : (Change.remove k : Change Table ℤ ℤ Group).About db.schema g := by
        by_contra habout
        exact hlost (hopen'.apply habout)
      refine Or.inr (Or.inl ⟨Change.apply_comm id id, Or.inr ?_⟩)
      exact Change.apply_of_not_hasGroup hG' habout fun hg ↦ (Change.hasGroup_delete.mp hg).2 rfl

end Gate

end Scissy
