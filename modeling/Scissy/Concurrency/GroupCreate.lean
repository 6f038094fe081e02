import Scissy.Concurrency.Task

/-!
# The call that creates a group

`groupCreate` inserts the group, looks its number up by the name, and makes the caller an owner. If
that fails it deletes the group again. Once the group is there, the rest of the call
(`Creation.Rest`) is not more than one change of the memberships, `Creation.effect`, whatever else
happens: the new group has no members yet, and the name leads to it as long as it exists
(`Creation.RestAt.settles`).

The rest finds out too late when somebody else has made the caller a member of the new group. Then
it takes the group away again (`Creation.RestAt.quietly_rollback`).

## Why not a task

The other membership calls are tasks: they read, and then they write once. This one writes first,
and what it reads afterwards it has written itself, unless the group has gone. So the call is cut
at its insert. Before it there is nothing; after it there is a program that has one change left to
make, and the evidence for what this change is (`RestAt`) survives whatever the other call does, as
long as the caller is not made a member.

## What two calls know of each other

The numbers of groups are never given twice, so two creations are about different groups, and their
changes commute (`settle_settle_comm`). They meet in the name only: the second insert is refused if
the first group is there, and goes through if the first one has been rolled back.
-/

open Authority Relational Interaction Interaction.Prog

namespace Scissy

/-! ## The steps of the call -/

/-- Who creates a group, and which. -/
structure Creation where
  userId : ℤ
  name : Bytes
  desc : Bytes

/-- The reply to a call whose group exists already. -/
def nameUsed : Reply where
  outcome := (Service.reply .kFailed (text "name already used")).map .groupInfo

namespace Creation

/-- The call of `groupGetId`. -/
def lookup (x : Creation) : Lookup := ⟨.group, none, some x.name⟩

/-- The program makes the creator an owner, or deletes the group again. -/
def Adds (x : Creation) (e e' : Env) (n : ℤ) (p : Server Reply) (env : ℕ → Env) : Prop :=
  env 0 = e ∧ ∃ next, p = .call (.write (.insertGroupUser n x.userId Pb.Role.kOwner.toInt)) next ∧
    ¬ (next .done).Running ∧ ∀ rc ≠ .done,
      (Script.act (Op.write (.deleteGroup n))).Describes e' (next rc) fun i ↦ env (i + 1)

/-- What is left when the group has been inserted. Its number is asked for twice. -/
def Rest (x : Creation) (e e' : Env) (p : Server Reply) (env : ℕ → Env) : Prop :=
  x.lookup.test.Then (fun _ ↦ x.lookup.test.Then (x.Adds e e')) p env

/-- The program is a call of `groupCreate`. -/
def Creates (x : Creation) (p : Server Reply) (env : ℕ → Env) : Prop :=
  ∃ next, p = .call (.write (.insertGroup x.name x.desc)) next ∧ next .constraint = done nameUsed ∧
    (∀ rc ≠ .done, ¬ (next rc).Running) ∧
    x.Rest (env 3) (env 4) (next .done) fun i ↦ env (i + 1)

theorem dispatch_creates (d : Deployment) (session : Session) (request : Pb.GroupCreate)
    (env : ℕ → Env) : Creates ⟨session.userId, request.grp.getD [], request.desc⟩
      (dispatch d (some session) (.groupCreate request)) env := by
  have hdone (o : Outcome Pb.GroupInfo) :
      ¬ (done { outcome := o.map .groupInfo } : Server Reply).Running := not_running_done _
  refine ⟨_, rfl, rfl, ?_, ?_⟩
  · rintro (_ | _ | err) hrc
    · exact absurd rfl hrc
    · exact hdone _
    · exact hdone _
  · refine ⟨_, rfl, fun rows ↦ ?_⟩
    cases rows with
    | nil => exact hdone _
    | cons n rows =>
      refine ⟨_, rfl, fun rows ↦ ?_⟩
      cases rows with
      | nil => exact hdone _
      | cons n rows =>
        refine ⟨rfl, _, rfl, hdone _, ?_⟩
        rintro (_ | _ | err) hrc
        · exact absurd rfl hrc
        · exact ⟨rfl, _, rfl, fun _ ↦ hdone _⟩
        · exact ⟨rfl, _, rfl, fun _ ↦ hdone _⟩

theorem Creates.running {x : Creation} {p : Server Reply} {env : ℕ → Env}
    (h : x.Creates p env) : p.Running := by
  obtain ⟨next, rfl, -⟩ := h
  exact running_call _ next

end Creation

/-! ## The insert of the group -/

section Insert

variable {v w : World} {e : Env} {x : Creation} {n : ℤ}

theorem insertGroup_done_iff {name desc : Bytes} :
    (v.write e (.insertGroup name desc)).1 = .done ↔ e.fault = none ∧
      name ∉ v.db.groups.rows.map (·.2.name) ∧ v.db.groups.seq + 1 ≤ maxRowid := by
  rw [World.write]
  cases e.fault with
  | some err => simp
  | none =>
    refine (Write.insertInto_done_iff (by decide)).trans ?_
    rw [AutoTable.exists_insert_iff]
    exact (and_iff_right rfl).symm

theorem insertGroup_used {name desc : Bytes} (hfault : e.fault = none)
    (hname : name ∈ v.db.groups.rows.map (·.2.name)) (hbound : v.db.groups.seq + 1 ≤ maxRowid) :
    (v.write e (.insertGroup name desc)).1 = .constraint := by
  obtain ⟨t, ht⟩ := (AutoTable.exists_insert_iff (a := ⟨name, desc⟩)).mpr hbound
  rw [World.write, hfault, Write.apply, ht]
  exact congrArg Prod.fst (if_neg (not_not.mpr hname))

/-- The group is there. -/
structure Creation.Inserted (x : Creation) (v w : World) : Prop where
  sub : v.db.SubGroups w.db
  seq : w.db.groups.seq = v.db.groups.seq + 1
  graph : w.db.graph = (Change.insert (v.db.groups.seq + 1, ⟨x.name, x.desc⟩)).apply v.db.schema
    v.db.graph

theorem Creation.inserted (h : (v.write e (.insertGroup x.name x.desc)).1 = .done) :
    x.Inserted v (v.write e (.insertGroup x.name x.desc)).2 := by
  obtain ⟨-, t, ht, hdb⟩ := World.effect_of_done h
  obtain ⟨hrows, hseq⟩ := AutoTable.rows_of_insert ht
  have hmem (r : ℤ × Group) : r ∈ t.rows ↔ r ∈ v.db.groups.rows ∨
      r = (v.db.groups.seq + 1, ⟨x.name, x.desc⟩) := by
    rw [hrows, List.mem_append, List.mem_singleton]
  constructor
  · rw [hdb]
    exact ⟨rfl, rfl, fun r hr ↦ (hmem r).mpr (Or.inl hr)⟩
  · rw [hdb]
    exact hseq
  · rw [hdb]
    ext r
    · exact hmem r
    · rfl

theorem insertGroupUser_done_iff {userId : ℤ} {role : Pb.Role} :
    (v.write e (.insertGroupUser n userId role.toInt)).1 = .done ↔ e.fault = none ∧
      n ∈ v.db.groups.ids ∧ userId ∈ v.db.users.ids ∧
        (n, userId) ∉ v.db.groupsUsers.rows.map GroupUser.key := by
  rw [World.write]
  cases e.fault with
  | some err => simp
  | none =>
    refine (Write.insertInto_done_iff (by decide)).trans ?_
    rw [KeyTable.exists_insert_iff, and_iff_left (toInt_mem_roleIds role), and_assoc]
    exact (and_iff_right rfl).symm

end Insert

/-! ## The rest of the call -/

/-- What statements of the membership calls keep. -/
structure World.Keeps (w v : World) : Prop where
  sub : v.db.SubGroups w.db
  seq : v.db.groups.seq = w.db.groups.seq

theorem World.Keeps.refl (w : World) : w.Keeps w := ⟨⟨rfl, rfl, fun _ hr ↦ hr⟩, rfl⟩

theorem World.write_keeps {s : Write} {c : Change Table ℤ ℤ Group} (hc : s.change = some c)
    (e : Env) (w : World) : w.Keeps (w.write e s).2 := by
  refine ⟨World.write_subGroups hc e w, ?_⟩
  rcases World.write_spec s e w with ⟨-, -, heffect, -⟩ | ⟨-, hw⟩
  · cases s with
    | deleteGroup groupId =>
      rw [show (w.write e (.deleteGroup groupId)).2.db = _ from heffect]
      rfl
    | insertGroupUser | deleteGroupUser | insertRepoUser | deleteRepoUser | insertRepoGroup
    | deleteRepoGroup =>
      exact congrArg AutoTable.seq (heffect.same (t := .groups) (by simp [Write.touches]))
    | _ => cases hc
  · rw [hw]

namespace Creation

variable {x : Creation} {e e' : Env} {v w : World} {n : ℤ} {p : Server Reply} {env : ℕ → Env}

/-- What the rest of the call does to the memberships, if nobody has made the caller a member. -/
def effect (x : Creation) (e e' : Env) (db : Database) (n : ℤ) :
    Option (Change Table ℤ ℤ Group) :=
  if e.fault = none ∧ x.userId ∈ db.users.ids then
    some (.add ⟨.groupsUsers, n, x.userId, Pb.Role.kOwner.toInt⟩)
  else if e'.fault = none then some (.delete n)
  else none

/-- The memberships after a change, if there is one. -/
def settle (σ : Schema Table ℤ ℤ) (G : Graph Table ℤ ℤ Group)
    (c? : Option (Change Table ℤ ℤ Group)) : Graph Table ℤ ℤ Group :=
  c?.elim G (Change.apply σ G)

/-- The caller is not a member of the group. -/
def Free (x : Creation) (db : Database) (n : ℤ) : Prop :=
  (n, x.userId) ∉ db.groupsUsers.rows.map GroupUser.key

/-- The rest of the call, which has read from the state `w`. -/
def RestAt (x : Creation) (e e' : Env) (w : World) (n : ℤ) (p : Server Reply) (env : ℕ → Env) :
    Prop :=
  x.Rest e e' p env ∨ x.lookup.test.Then (x.Adds e e') p env ∨ x.Adds e e' n p env ∨
    (Script.act (Op.write (.deleteGroup n))).Describes e' p env ∧
      ¬ (e.fault = none ∧ x.userId ∈ w.db.users.ids)

theorem Adds.oneChange (h : x.Adds e e' n p env) : p.OneChange := by
  obtain ⟨-, next, rfl, hdone, hnext⟩ := h
  intro rc hrun
  have hrc : rc ≠ .done := fun heq ↦ hdone (heq ▸ hrun)
  refine ⟨fun e₀ w hrc' ↦ ?_, Script.Describes.oneChange (S := .act _) trivial (hnext rc hrc)⟩
  rw [exec_write] at hrc' ⊢
  exact World.write_of_ne_done (hrc' ▸ hrc)

theorem RestAt.oneChange (h : x.RestAt e e' w n p env) : p.OneChange := by
  rcases h with h | h | h | ⟨h, -⟩
  · exact h.oneChange Lookup.reads_test fun _ _ _ h ↦
      h.oneChange Lookup.reads_test fun _ _ _ h ↦ h.oneChange
  · exact h.oneChange Lookup.reads_test fun _ _ _ h ↦ h.oneChange
  · exact h.oneChange
  · exact Script.Describes.oneChange (S := .act _) trivial h

theorem RestAt.running (h : x.RestAt e e' w n p env) : p.Running := by
  rcases h with ⟨next, rfl, -⟩ | ⟨next, rfl, -⟩ | ⟨-, next, rfl, -⟩ | ⟨⟨-, next, rfl, -⟩, -⟩ <;>
    exact running_call _ next

/-- **The evidence is kept**, as for a script. -/
theorem RestAt.quietly {q : Server Reply} {env' : ℕ → Env} (hn : x.lookup.Finds w.db n)
    (hid : n ∈ w.db.groups.ids) (hfree : x.Free w.db n) (h : x.RestAt e e' w n p env)
    (hq : Quietly w p env q env') : x.RestAt e e' w n q env' := by
  refine hq.preserves ?_ h
  rintro β op next env h - hrun
  have heq {m : ℤ} (hm : x.lookup.test.Passes w m) : m = n := (Lookup.passes_test.mp hm).eq hn
  rcases h with h | h | h | ⟨⟨-, next', hcall, hnext⟩, -⟩
  · obtain ⟨m, hm, hrest⟩ := h.step_asked hrun
    exact Or.inr (Or.inl hrest)
  · obtain ⟨m, hm, hrest⟩ := h.step_asked hrun
    exact Or.inr (Or.inr (Or.inl (heq hm ▸ hrest)))
  · obtain ⟨rfl, next', hcall, hdone, hnext⟩ := h
    cases hcall
    have hrc : (w.write (env 0) (.insertGroupUser n x.userId Pb.Role.kOwner.toInt)).1 ≠ .done :=
      fun hrc ↦ hdone (hrc ▸ hrun)
    refine Or.inr (Or.inr (Or.inr ⟨hnext _ hrc, fun hboth ↦ hrc ?_⟩))
    exact insertGroupUser_done_iff.mpr ⟨hboth.1, hid, hboth.2, hfree⟩
  · cases hcall
    exact absurd hrun (hnext _)

theorem about_effect {db : Database} {c : Change Table ℤ ℤ Group}
    (hc : x.effect e e' db n = some c) : c.About db.schema n := by
  rw [effect] at hc
  split_ifs at hc
  · obtain rfl := Option.some_inj.mp hc
    exact Or.inl ⟨rfl, rfl⟩
  · obtain rfl := Option.some_inj.mp hc
    rfl

theorem settle_effect_of_notMem (h : v.db.Valid) (hid : n ∉ v.db.groups.ids) :
    settle v.db.schema v.db.graph (x.effect e e' v.db n) = v.db.graph := by
  cases hc : x.effect e e' v.db n with
  | none => rfl
  | some c =>
    exact Change.apply_of_not_hasGroup h.closed_graph (about_effect hc)
      (mt Database.hasGroup_graph.mp hid)

theorem free_of_notMem (h : v.db.Valid) (hid : n ∉ v.db.groups.ids) : x.Free v.db n := by
  intro hmem
  obtain ⟨r, hr, heq⟩ := List.mem_map.mp hmem
  refine hid ?_
  rw [← (Prod.mk.inj heq).1]
  exact h.groupsUsers_group r hr

/-- The rest of the call leads from `v` to `w` if it is not disturbed. -/
structure Settles (x : Creation) (e e' : Env) (n : ℤ) (v w : World) : Prop where
  keeps : v.Keeps w
  graph : w.db.graph = settle v.db.schema v.db.graph (x.effect e e' v.db n)

theorem settles_delete (h : v.db.Valid) (hno : ¬ (e.fault = none ∧ x.userId ∈ v.db.users.ids)) :
    x.Settles e e' n v (v.write e' (.deleteGroup n)).2 := by
  refine ⟨World.write_keeps rfl e' v, ?_⟩
  rw [effect, if_neg hno]
  rcases World.graph_write h (s := .deleteGroup n) rfl e' with ⟨hfault, hgraph⟩ | ⟨hfault, hw⟩
  · rw [if_pos hfault, hgraph]
    rfl
  · rw [if_neg hfault, hw]
    rfl

theorem settles_of_notMem (h : v.db.Valid) (hid : n ∉ v.db.groups.ids) (hkeeps : v.Keeps w)
    (hgraph : w.db.graph = v.db.graph) : x.Settles e e' n v w :=
  ⟨hkeeps, hgraph.trans (settle_effect_of_notMem h hid).symm⟩

theorem Adds.settles (h : v.db.Valid) (hfree : x.Free v.db n) (hp : x.Adds e e' n p env) :
    x.Settles e e' n v (p.run env v).2 := by
  obtain ⟨rfl, next, rfl, hdone, hnext⟩ := hp
  rw [run_call, exec_write]
  by_cases hrc : (v.write (env 0) (.insertGroupUser n x.userId Pb.Role.kOwner.toInt)).1 = .done
  · obtain ⟨hfault, -, huser, -⟩ := insertGroupUser_done_iff.mp hrc
    obtain ⟨a, ha⟩ := ends_of_not_running hdone
    rw [hrc, ha, run_done]
    refine ⟨World.write_keeps rfl _ v, ?_⟩
    rw [effect, if_pos ⟨hfault, huser⟩]
    exact World.graph_write_of_no_fault h
      (s := .insertGroupUser n x.userId Pb.Role.kOwner.toInt) rfl hfault
  · rw [World.write_of_ne_done hrc, Script.run_act (hnext _ hrc), exec_write]
    by_cases hid : n ∈ v.db.groups.ids
    · refine settles_delete h fun hboth ↦ hrc ?_
      exact insertGroupUser_done_iff.mpr ⟨hboth.1, hid, hboth.2, hfree⟩
    · exact settles_of_notMem h hid (World.write_keeps rfl _ v)
        (World.graph_write_of_notMem h (s := .deleteGroup n) rfl rfl hid _)

/-- **What is left of the call**, in a state in which the caller is not a member of the group. -/
theorem RestAt.settles (hw : w.db.Valid) (h : v.db.Valid) (hsub : v.db.SubGroups w.db)
    (hn : x.lookup.Finds w.db n) (hfree : x.Free v.db n) (hp : x.RestAt e e' w n p env) :
    x.Settles e e' n v (p.run env v).2 := by
  have hlookup {K : ℤ → Server Reply → (ℕ → Env) → Prop} {p : Server Reply} {env : ℕ → Env}
      (hp : x.lookup.test.Then K p env)
      (hK : ∀ p env, K n p env → x.Settles e e' n v (p.run env v).2) :
      x.Settles e e' n v (p.run env v).2 := by
    rcases hp.run Lookup.reads_test v with ⟨m, p', env', hm, hrest, hrun⟩ | ⟨hnone, hrun⟩
    · obtain rfl := ((Lookup.passes_test.mp hm).mono hsub h hw).eq hn
      rw [hrun]
      exact hK p' env' hrest
    · rw [hrun]
      rcases hn.anti hsub h hw with hfound | ⟨-, hid⟩
      · exact absurd (Lookup.passes_test.mpr hfound) (hnone n)
      · exact settles_of_notMem h hid (.refl v) rfl
  rcases hp with hp | hp | hp | ⟨hp, hno⟩
  · exact hlookup hp fun _ _ hp ↦ hlookup hp fun _ _ hp ↦ hp.settles h hfree
  · exact hlookup hp fun _ _ hp ↦ hp.settles h hfree
  · exact hp.settles h hfree
  · rw [hsub.users] at hno
    rw [Script.run_act hp, exec_write]
    exact settles_delete h hno

/-- The rest of the call comes to its rollback when the caller cannot be made an owner. -/
theorem RestAt.quietly_rollback (hw : w.db.Valid) (h : v.db.Valid) (hsub : v.db.SubGroups w.db)
    (hn : x.lookup.Finds w.db n) (hid : n ∈ v.db.groups.ids)
    (hno : (v.write e (.insertGroupUser n x.userId Pb.Role.kOwner.toInt)).1 ≠ .done)
    (hp : x.RestAt e e' w n p env) : ∃ q env', Quietly v p env q env' ∧
      (Script.act (Op.write (.deleteGroup n))).Describes e' q env' := by
  have hfound : x.lookup.test.Passes v n :=
    Lookup.passes_test.mpr ((hn.anti hsub h hw).resolve_right fun hlost ↦ hlost.2 hid)
  have hadds {p : Server Reply} {env : ℕ → Env} (hp : x.Adds e e' n p env) :
      ∃ q env', Quietly v p env q env' ∧
        (Script.act (Op.write (.deleteGroup n))).Describes e' q env' := by
    obtain ⟨rfl, next, rfl, -, hnext⟩ := hp
    have hdeletes := hnext _ hno
    refine ⟨_, _, .step ?_ ?_ (.refl _ _), hdeletes⟩
    · rw [exec_write]
      exact World.write_of_ne_done hno
    · obtain ⟨-, next', hcall, -⟩ := hdeletes
      rw [exec_write, hcall]
      exact running_call _ next'
  have hlookup {K : ℤ → Server Reply → (ℕ → Env) → Prop} {p : Server Reply} {env : ℕ → Env}
      (hp : x.lookup.test.Then K p env) (hrun : ∀ p env, K n p env → p.Running)
      (hK : ∀ p env, K n p env → ∃ q env', Quietly v p env q env' ∧
        (Script.act (Op.write (.deleteGroup n))).Describes e' q env') :
      ∃ q env', Quietly v p env q env' ∧
        (Script.act (Op.write (.deleteGroup n))).Describes e' q env' := by
    obtain ⟨p', env', hrest, hq⟩ := hp.quietly Lookup.reads_test hfound hrun
    obtain ⟨q, env'', hq', hdeletes⟩ := hK p' env' hrest
    exact ⟨q, env'', hq.trans hq', hdeletes⟩
  rcases hp with hp | hp | hp | ⟨hp, -⟩
  · refine hlookup hp ?_ fun _ _ hp ↦ hlookup hp ?_ fun _ _ hp ↦ hadds hp
    · rintro _ _ ⟨next, rfl, -⟩
      exact running_call _ next
    · rintro _ _ ⟨-, next, rfl, -⟩
      exact running_call _ next
  · refine hlookup hp ?_ fun _ _ hp ↦ hadds hp
    rintro _ _ ⟨-, next, rfl, -⟩
    exact running_call _ next
  · exact hadds hp
  · exact ⟨p, env, .refl p env, hp⟩

/-! ## The whole call -/

theorem free_iff {db : Database} :
    x.Free db n ↔ ∀ l ∈ db.graph.links, l.key ≠ (.groupsUsers, n, x.userId) := by
  constructor
  · rintro hfree ⟨kind, left, right, role⟩ hl hkey
    obtain ⟨rfl, hkey⟩ := Prod.mk.inj hkey
    exact hfree (List.mem_map.mpr ⟨_, hl, hkey⟩)
  · intro hlinks hmem
    obtain ⟨r, hr, heq⟩ := List.mem_map.mp hmem
    obtain ⟨hgroup, huser⟩ := Prod.mk.inj heq
    refine hlinks ⟨.groupsUsers, r.groupId, r.userId, r.roleId⟩ hr ?_
    rw [← hgroup, ← huser]
    rfl

theorem Inserted.not_about (h : v.db.Valid) (hv : x.Inserted v w) {l : Link Table ℤ ℤ}
    (hl : l ∈ w.db.graph.links) : ¬ w.db.schema.about l.key (v.db.groups.seq + 1) := by
  intro habout
  rw [hv.graph] at hl
  exact AutoTable.seq_succ_notMem_ids (Database.hasGroup_graph.mp (h.closed_graph l hl _ habout))

theorem Inserted.free (h : v.db.Valid) (hv : x.Inserted v w) : x.Free w.db (v.db.groups.seq + 1) :=
  free_iff.mpr fun l hl hkey ↦ hv.not_about h hl (Or.inl (by rw [hkey]; exact ⟨rfl, rfl⟩))

theorem Inserted.mem_rows (hv : x.Inserted v w) :
    (v.db.groups.seq + 1, ⟨x.name, x.desc⟩) ∈ w.db.groups.rows := by
  have hmem := Set.ext_iff.mp (congrArg Graph.groups hv.graph)
    (v.db.groups.seq + 1, ⟨x.name, x.desc⟩)
  exact hmem.mpr (Or.inr rfl)

theorem Inserted.finds (h : w.db.Valid) (hv : x.Inserted v w) :
    x.lookup.Finds w.db (v.db.groups.seq + 1) :=
  (Lookup.finds_group_iff h).mpr ⟨_, hv.mem_rows, rfl⟩

/-- **What the call does by itself.** -/
theorem Creates.run_spec (h : v.db.Valid) (hp : x.Creates p env) :
    (v.write (env 0) (.insertGroup x.name x.desc)).1 ≠ .done ∧ (p.run env v).2 = v ∨
      (v.write (env 0) (.insertGroup x.name x.desc)).1 = .done ∧
        x.Settles (env 3) (env 4) (v.db.groups.seq + 1)
          (v.write (env 0) (.insertGroup x.name x.desc)).2 (p.run env v).2 := by
  obtain ⟨next, rfl, -, hno, hrest⟩ := hp
  rw [run_call, exec_write]
  by_cases hrc : (v.write (env 0) (.insertGroup x.name x.desc)).1 = .done
  · have hv := inserted hrc
    have h₁ := World.write_valid (.insertGroup x.name x.desc) (env 0) h
    refine Or.inr ⟨hrc, ?_⟩
    rw [hrc]
    exact RestAt.settles h₁ h₁ (World.Keeps.refl _).sub (hv.finds h₁) (hv.free h) (Or.inl hrest)
  · obtain ⟨a, ha⟩ := ends_of_not_running (hno _ hrc)
    rw [ha, run_done, World.write_of_ne_done hrc]
    exact Or.inl ⟨hrc, rfl⟩

/-! ## The call and another change -/

theorem settle_comm {db : Database} {G : Graph Table ℤ ℤ Group} {gate : Gate}
    {c : Change Table ℤ ℤ Group} (hc : gate.Guards c)
    (hadd : ∀ l, c = .add l → l.key ≠ (.groupsUsers, n, x.userId))
    (hremove : c ≠ .remove (.groupsUsers, n, x.userId)) :
    settle db.schema (c.apply db.schema G) (x.effect e e' db n) =
      c.apply db.schema (settle db.schema G (x.effect e e' db n)) := by
  rw [effect, settle, settle]
  split_ifs
  · rw [Option.elim_some, Option.elim_some]
    refine Change.apply_comm ?_ ?_
    · cases c with
      | add l => exact fun hkey ↦ hadd l rfl hkey.symm
      | remove k => exact fun hkey ↦ hremove (congrArg _ hkey.symm)
      | _ => exact id
    · cases c with
      | insert a => exact hc.elim
      | add l => exact hadd l rfl
      | _ => exact id
  · rw [Option.elim_some, Option.elim_some]
    refine Change.apply_comm ?_ ?_
    · cases c <;> exact id
    · cases c with
      | insert a => exact hc.elim
      | _ => exact id
  · rfl

theorem apply_add_settle (hid : n ∈ v.db.groups.ids) (hfree : x.Free v.db n)
    {l : Link Table ℤ ℤ} (hl : l.key = (.groupsUsers, n, x.userId))
    (htakes : ¬ v.db.graph.Takes v.db.schema l) :
    (Change.add l).apply v.db.schema
        (settle v.db.schema v.db.graph (x.effect e e' v.db n)) =
      settle v.db.schema v.db.graph (x.effect e e' v.db n) := by
  refine Change.apply_add_of_not_takes ?_
  rw [effect]
  split_ifs with hboth
  · rintro ⟨-, -, hkey⟩
    refine hkey ⟨.groupsUsers, n, x.userId, Pb.Role.kOwner.toInt⟩ (Or.inr ⟨rfl, ?_⟩) hl.symm
    refine takes_groupsUsers_iff.mpr ⟨⟨hid, hboth.2, toInt_mem_roleIds .kOwner⟩, ?_⟩
    exact KeyTable.exists_insert_iff.mpr hfree
  · rintro ⟨-, hgroups, -⟩
    obtain ⟨a, -, hne⟩ := hgroups n (Or.inl ⟨by rw [hl], by rw [hl]⟩)
    exact hne rfl
  · exact htakes

theorem Settles.links_subset {u : World} (h : u.db.Valid) (hv : x.Inserted u v)
    (hw : x.Settles e e' (u.db.groups.seq + 1) v w) : v.db.graph.links ⊆ w.db.graph.links := by
  intro l hl
  rw [hw.graph, effect]
  split_ifs
  · exact Or.inl hl
  · exact ⟨hl, hv.not_about h hl⟩
  · exact hl

/-- What the call needs to know about a state. -/
structure Agrees (u v : World) : Prop where
  users : v.db.users = u.db.users
  repos : v.db.repos = u.db.repos
  groups : v.db.groups = u.db.groups
  graph : v.db.graph = u.db.graph

theorem Settles.graph_eq {u : World} (hv : x.Inserted u v)
    (hw : x.Settles e e' (u.db.groups.seq + 1) v w) :
    w.db.graph = settle u.db.schema ((Change.insert (u.db.groups.seq + 1, ⟨x.name, x.desc⟩)).apply
      u.db.schema u.db.graph) (x.effect e e' u.db (u.db.groups.seq + 1)) := by
  rw [hw.graph, hv.graph, hv.sub.schema_eq, effect, effect, hv.sub.users]

theorem Creates.graph_run_congr {u : World} (hu : u.db.Valid) (h : v.db.Valid) (huv : Agrees u v)
    (hp : x.Creates p env) : (p.run env v).2.db.graph = (p.run env u).2.db.graph := by
  have hdone : (v.write (env 0) (.insertGroup x.name x.desc)).1 = .done ↔
      (u.write (env 0) (.insertGroup x.name x.desc)).1 = .done := by
    rw [insertGroup_done_iff, insertGroup_done_iff, huv.groups]
  have hschema : v.db.schema = u.db.schema := by
    rw [Database.schema, Database.schema, huv.users, huv.repos]
  rcases hp.run_spec h with ⟨hno, hv⟩ | ⟨hyes, hv⟩
  · rw [hv, ((hp.run_spec hu).resolve_right fun hyes ↦ hno (hdone.mpr hyes.1)).2, huv.graph]
  · obtain ⟨-, hu'⟩ := (hp.run_spec hu).resolve_left fun hno ↦ hno.1 (hdone.mp hyes)
    rw [hv.graph_eq (inserted hyes), hu'.graph_eq (inserted (hdone.mp hyes)), hschema, huv.graph,
      huv.groups, effect, effect, huv.users]

theorem groups_write_of_remove {s : Write} {k : Table × ℤ × ℤ}
    (hs : s.change = some (.remove k)) (e : Env) (w : World) :
    (w.write e s).2.db.groups = w.db.groups := by
  rcases World.write_spec s e w with ⟨-, -, heffect, -⟩ | ⟨-, hw⟩
  · cases s with
    | deleteGroupUser | deleteRepoUser | deleteRepoGroup =>
      exact heffect.same (t := .groups) (by simp [Write.touches])
    | _ => cases hs
  · rw [hw]

/-- **The statement of a task between the insert of a group and the rest of the call.** The result
is that of the task after the call, or the task does nothing before the call. -/
theorem task_between {u v₁ : World} {t : Task} {a b : ℤ} {e₀ : Env} {α : Type} {p₀ : Server α}
    {env₀ : ℕ → Env} (hu : u.db.Valid) (h : v.db.Valid) (hv : x.Inserted u v)
    (hp : t.script.Describes e₀ p₀ env₀) (hres : t.Resolves v.db a b) (hadmits : t.Admits v.db a)
    (hv₁ : x.Settles e e' (u.db.groups.seq + 1) v v₁) (h₁ : v₁.db.Valid)
    (hfree : x.Free (v.write e₀ (t.write a b)).2.db (u.db.groups.seq + 1))
    (hw : x.Settles e e' (u.db.groups.seq + 1) (v.write e₀ (t.write a b)).2 w) :
    w.db.graph = (p₀.run env₀ v₁).2.db.graph ∨
      w.db.graph = v₁.db.graph ∧ Agrees u (p₀.run env₀ u).2 := by
  have hserial := Task.graph_run h h₁ hv₁.keeps.sub hp hres
    (Or.inl (hadmits.mono h h₁ (hv₁.links_subset hu hv)))
  have hschema₁ : v₁.db.schema = v.db.schema := hv₁.keeps.sub.schema_eq.symm
  rcases World.graph_write h (t.change_eq a b) e₀ with ⟨hfault, hgraph⟩ | ⟨hfault, hsame⟩
  swap
  · -- the statement fails wherever it is issued
    refine Or.inl ?_
    rw [hsame] at hw
    rw [hserial, World.write_of_fault hfault, hw.graph, hv₁.graph]
  have hgraph₁ := World.graph_write_of_no_fault h₁ (t.change_eq a b) hfault
  have hkeeps := World.write_keeps (t.change_eq a b) e₀ v
  have hw' : w.db.graph = settle v.db.schema ((t.change a b).apply v.db.schema v.db.graph)
      (x.effect e e' v.db (u.db.groups.seq + 1)) := by
    rw [hw.graph, hgraph, ← hkeeps.sub.schema_eq, effect, effect, ← hkeeps.sub.users]
  rw [hgraph₁, hschema₁, hv₁.graph] at hserial
  by_cases hremove : t.change a b = .remove (.groupsUsers, u.db.groups.seq + 1, x.userId)
  · refine Or.inr ⟨?_, ?_⟩
    · -- the caller is not a member yet
      have hnone : (t.change a b).apply v.db.schema v.db.graph = v.db.graph := by
        rw [hremove]
        ext l
        · rfl
        · exact and_iff_left_of_imp fun hl ↦ free_iff.mp (hv.free hu) l hl
      rw [hw', hnone, hv₁.graph]
    · rcases Task.run_spec hu (Script.at_of_describes hp) with ⟨a', b', hres', -, hrun⟩ | ⟨-, hrun⟩
      · have hres₁ := hres'.mono hv.sub hu h
        obtain rfl := hres.1.eq hres₁.1
        obtain rfl := hres.2.eq hres₁.2
        have hchange := t.change_eq a b
        have hsub := World.write_subGroups hchange e₀ u
        rw [hrun]
        refine ⟨hsub.users.symm, hsub.repos.symm, ?_, ?_⟩
        · rw [hremove] at hchange
          exact groups_write_of_remove hchange e₀ u
        · refine World.graph_write_of_notMem hu hchange ?_ AutoTable.seq_succ_notMem_ids e₀
          rw [hremove]
          exact Or.inl ⟨rfl, rfl⟩
      · rw [hrun]
        exact ⟨rfl, rfl, rfl, rfl⟩
  by_cases hadd : ∃ l, t.change a b = .add l ∧ l.key = (.groupsUsers, u.db.groups.seq + 1, x.userId)
  · obtain ⟨l, hl, hkey⟩ := hadd
    have htakes : ¬ v.db.graph.Takes v.db.schema l := by
      intro htakes
      rw [free_iff, hgraph, hl] at hfree
      exact hfree l (Or.inr ⟨rfl, htakes⟩) hkey
    refine Or.inl ?_
    rw [hw', hserial, hl, Change.apply_add_of_not_takes htakes]
    exact (apply_add_settle (AutoTable.mem_ids_of_mem hv.mem_rows) (hv.free hu) hkey htakes).symm
  · refine Or.inl ?_
    rw [hw', hserial]
    exact settle_comm (t.guards a b) (fun l hl hkey ↦ hadd ⟨l, hl, hkey⟩) hremove

/-! ## Two calls -/

section Two

variable {y : Creation} {f f' : Env} {m : ℤ}

theorem settle_settle_comm {db : Database} {G : Graph Table ℤ ℤ Group} (hnm : n ≠ m) :
    settle db.schema (settle db.schema G (y.effect f f' db m)) (x.effect e e' db n) =
      settle db.schema (settle db.schema G (x.effect e e' db n)) (y.effect f f' db m) := by
  cases hc : y.effect f f' db m with
  | none => rfl
  | some c =>
    rw [effect] at hc
    refine settle_comm (?_ : (Gate.group m).Guards c) ?_ ?_
    · split_ifs at hc <;> obtain rfl := Option.some_inj.mp hc
      · trivial
      · rfl
    · rintro l rfl hkey
      split_ifs at hc
      · obtain rfl := Change.add.inj (Option.some_inj.mp hc)
        exact hnm (Prod.mk.inj (Prod.mk.inj hkey).2).1.symm
      · cases hc
    · rintro rfl
      split_ifs at hc <;> cases hc

theorem settle_insert_comm {db : Database} {G : Graph Table ℤ ℤ Group} {a : ℤ × Group}
    (ha : a.1 ≠ n) :
    settle db.schema ((Change.insert a).apply db.schema G) (x.effect e e' db n) =
      (Change.insert a).apply db.schema (settle db.schema G (x.effect e e' db n)) := by
  rw [effect, settle, settle]
  split_ifs
  · rw [Option.elim_some, Option.elim_some]
    refine Change.apply_comm id ?_
    rintro (⟨-, heq⟩ | ⟨⟨⟩, -⟩)
    exact ha heq.symm
  · rw [Option.elim_some, Option.elim_some]
    exact Change.apply_comm id ha
  · rfl

theorem RestAt.of_users (hp : x.RestAt e e' w n p env) (husers : v.db.users = w.db.users) :
    x.RestAt e e' v n p env := by
  rw [RestAt, husers]
  exact hp

theorem Settles.free_of_ne (hnm : n ≠ m) (hfree : y.Free v.db m)
    (hw : x.Settles e e' n v w) : y.Free w.db m := by
  rw [free_iff, hw.graph, effect]
  rw [free_iff] at hfree
  split_ifs
  · rintro l (hl | ⟨rfl, -⟩) hkey
    · exact hfree l hl hkey
    · exact hnm (Prod.mk.inj (Prod.mk.inj hkey).2).1
  · exact fun l hl ↦ hfree l hl.1
  · exact hfree

/-- **The second call after the first one**, if it inserts its group while the first one is not at
its end. -/
theorem graph_run_second {q : Server Reply} {env₁ : ℕ → Env} {v₁ w₁ : World}
    (h₁ : v₁.db.Valid) (hid : n ∈ v.db.groups.ids) (hv₁ : x.Settles e e' n v v₁)
    (hq : y.Creates q env₁) (hdone : (v.write (env₁ 0) (.insertGroup y.name y.desc)).1 = .done)
    (hw₁ : y.Inserted v w₁) :
    (q.run env₁ v₁).2.db.graph = settle w₁.db.schema
      (settle w₁.db.schema w₁.db.graph (x.effect e e' w₁.db n))
      (y.effect (env₁ 3) (env₁ 4) w₁.db (v.db.groups.seq + 1)) := by
  obtain ⟨hfault, hname, hbound⟩ := insertGroup_done_iff.mp hdone
  have hdone₁ : (v₁.write (env₁ 0) (.insertGroup y.name y.desc)).1 = .done := by
    refine insertGroup_done_iff.mpr ⟨hfault, fun hmem ↦ hname ?_, ?_⟩
    · obtain ⟨r, hr, heq⟩ := List.mem_map.mp hmem
      exact List.mem_map.mpr ⟨r, hv₁.keeps.sub.groups r hr, heq⟩
    · rw [hv₁.keeps.seq]
      exact hbound
  obtain ⟨-, hrun⟩ := (hq.run_spec h₁).resolve_left fun hno ↦ hno.1 hdone₁
  have hne : v.db.groups.seq + 1 ≠ n := fun heq ↦ AutoTable.seq_succ_notMem_ids (heq ▸ hid)
  rw [hrun.graph_eq (inserted hdone₁), hv₁.graph, hv₁.keeps.seq, ← hv₁.keeps.sub.schema_eq,
    ← settle_insert_comm (by exact hne), hw₁.graph, hw₁.sub.schema_eq, effect, effect, effect,
    effect, hw₁.sub.users, hv₁.keeps.sub.users]

/-- The group of a call, as long as nobody else has touched it. -/
structure Fresh (x : Creation) (db : Database) (n : ℤ) : Prop where
  finds : x.lookup.Finds db n
  mem_ids : n ∈ db.groups.ids
  free : x.Free db n

theorem Inserted.fresh (hv : v.db.Valid) (hw : w.db.Valid) (h : x.Inserted v w) :
    x.Fresh w.db (v.db.groups.seq + 1) :=
  ⟨h.finds hw, AutoTable.mem_ids_of_mem h.mem_rows, h.free hv⟩

theorem Fresh.of_inserted (hv : v.db.Valid) (hw : w.db.Valid) (hn : x.Fresh v.db n)
    (h : y.Inserted v w) : x.Fresh w.db n := by
  refine ⟨hn.finds.mono h.sub hv hw, ?_, ?_⟩
  · obtain ⟨grp, hgrp⟩ := AutoTable.mem_ids.mp hn.mem_ids
    exact AutoTable.mem_ids_of_mem (h.sub.groups _ hgrp)
  · rw [free_iff, h.graph]
    exact free_iff.mp hn.free

/-- If a name is free again after the call, the call has taken its own group away. -/
theorem Settles.name_eq {u : World} {name : Bytes} (hv : x.Inserted u v)
    (hw : x.Settles e e' (u.db.groups.seq + 1) v w)
    (hmem : name ∈ v.db.groups.rows.map (·.2.name))
    (hnot : name ∉ w.db.groups.rows.map (·.2.name)) :
    name = x.name ∧ ¬ (e.fault = none ∧ x.userId ∈ v.db.users.ids) := by
  obtain ⟨r, hr, rfl⟩ := List.mem_map.mp hmem
  have hgone : r ∉ w.db.graph.groups := fun hr' ↦ hnot (List.mem_map_of_mem hr')
  rw [hw.graph, effect] at hgone
  split_ifs at hgone with hboth
  · exact absurd hr hgone
  · have hid : r.1 = u.db.groups.seq + 1 := by
      by_contra hne
      exact hgone ⟨hr, hne⟩
    refine ⟨?_, hboth⟩
    obtain ⟨id, grp⟩ := r
    obtain rfl : id = u.db.groups.seq + 1 := hid
    exact congrArg Group.name (AutoTable.eq_of_mem_of_mem hr hv.mem_rows)
  · exact absurd hr hgone

/-- **What is left of two calls**, one after the other. -/
theorem RestAt.graph_run_run {q : Server Reply} {env' : ℕ → Env} (h : w.db.Valid) (hnm : n ≠ m)
    (hn : x.Fresh w.db n) (hm : y.Fresh w.db m) (hp : x.RestAt e e' w n p env)
    (hq : y.RestAt f f' w m q env') :
    (q.run env' (p.run env w).2).2.db.graph = settle w.db.schema
      (settle w.db.schema w.db.graph (x.effect e e' w.db n)) (y.effect f f' w.db m) := by
  have hv := hp.settles h h (World.Keeps.refl w).sub hn.finds hn.free
  have h₁ : (p.run env w).2.db.Valid := run_valid _ _ h
  have hw := hq.settles h h₁ hv.keeps.sub hm.finds (hv.free_of_ne hnm hm.free)
  rw [hw.graph, hv.graph, ← hv.keeps.sub.schema_eq, effect, effect, effect, ← hv.keeps.sub.users]

end Two

end Creation

end Scissy
