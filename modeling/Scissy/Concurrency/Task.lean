import Scissy.Access.Gate
import Scissy.Access.Membership
import Scissy.Interaction.Script

/-!
# Membership calls with one statement

`groupDelete`, `groupAddUser`, `groupRemoveUser`, `repoAddUser`, `repoRemoveUser`, `repoAddGroup`
and `repoRemoveGroup` are of one form, a `Task`: they look up what the request names, ask whether
the caller owns the group or the repository, and issue one statement.

## One script for seven handlers

A task is data: a lookup for the target, perhaps another one, a gate, and a statement. Its `script`
is the sequence of tests that the handler makes. That a handler follows its script is proved once
for each handler (`dispatch_concludes`), together with the answer it gives; everything after that
is about tasks. Where a handler looks up nothing but its target, the second lookup is one whose
number is known, so that all tasks have the same shape.

## Overtaken by another statement

`Task.finish` is about a call that has read from one state and goes on from another one, in which
another membership call may have issued its statement. It leaves the memberships as if it had
started in the new state, unless it has passed its gate before and would not pass it any more.

What a membership call may change under another one is little. Users and repositories stay, and so
do their names. Groups go, and come with new numbers, so a name of a group that was found may lead
nowhere later, and never to another group that had been found before (`Database.SubGroups`).
-/

open Authority Relational Interaction Interaction.Prog

namespace Scissy

/-- The statement a program is about to issue. -/
def nextWrite {α : Type} : Server α → Option Write
  | .call (.write s) _ => some s
  | _ => none

theorem nextWrite_of_act {α : Type} {p : Server α} {env : ℕ → Env} {e : Env} {s : Write}
    (h : (Script.act (Op.write s)).Describes e p env) : nextWrite p = some s := by
  obtain ⟨-, next, rfl, -⟩ := h
  rfl

/-! ## Lookups -/

/-- What a name may be the name of. -/
inductive Named
  | user | repo | group

def Named.getId : Named → Bytes → Query ℤ
  | user => .userGetId
  | repo => .repoGetId
  | group => .groupGetId

/-- How a request refers to a row: an id wins over a name. -/
structure Lookup where
  kind : Named
  id? : Option ℤ
  name? : Option Bytes

namespace Lookup

def test : Lookup → Test Op ℤ
  | ⟨_, some id, _⟩ => .known (some id)
  | ⟨_, none, none⟩ => .known none
  | ⟨kind, none, some name⟩ => .asked (.query (kind.getId name)) List.head?

/-- The number of queries. -/
def cost : Lookup → ℕ
  | ⟨_, none, some _⟩ => 1
  | _ => 0

/-- The row the request refers to. -/
def Finds (db : Database) (id : ℤ) (l : Lookup) : Prop := db.Names l.id? l.name? l.kind.getId id

variable {l : Lookup} {w : World} {db db' : Database} {a b : ℤ} {name : Bytes}

theorem reads_test : l.test.Reads := by
  obtain ⟨kind, _ | id, _ | name⟩ := l
  · trivial
  · cases kind <;> exact fun w ↦ ⟨_, fun e ↦ rfl⟩
  · trivial
  · trivial

theorem finds_known_iff {kind : Named} {id : ℤ} {name? : Option Bytes} :
    Finds db a ⟨kind, some id, name?⟩ ↔ id = a := by
  simp [Finds, Database.Names]

theorem not_finds_missing {kind : Named} : ¬ Finds db a ⟨kind, none, none⟩ := by
  simp [Finds, Database.Names]

theorem finds_named_iff {kind : Named} :
    Finds db a ⟨kind, none, some name⟩ ↔ ((kind.getId name).rows 0 db).head? = some a := by
  simp [Finds, Database.Names]

theorem passes_test : l.test.Passes w a ↔ l.Finds w.db a := by
  obtain ⟨kind, _ | id, _ | name⟩ := l
  · exact iff_of_false nofun not_finds_missing
  · rw [finds_named_iff]
    cases kind <;> exact Test.passes_asked_iff (fun e ↦ rfl) {}
  · exact Option.some_inj.trans finds_known_iff.symm
  · exact Option.some_inj.trans finds_known_iff.symm

theorem Finds.eq (ha : l.Finds db a) (hb : l.Finds db b) : a = b := by
  obtain ⟨kind, _ | id, _ | name⟩ := l
  · exact absurd ha not_finds_missing
  · exact Option.some_inj.mp ((finds_named_iff.mp ha).symm.trans (finds_named_iff.mp hb))
  · exact (finds_known_iff.mp ha).symm.trans (finds_known_iff.mp hb)
  · exact (finds_known_iff.mp ha).symm.trans (finds_known_iff.mp hb)

/-! ### Lookups in two states -/

end Lookup

/-- The same accounts and repositories, and the groups of `db` are groups of `db'`. -/
structure Database.SubGroups (db db' : Database) : Prop where
  users : db'.users = db.users
  repos : db'.repos = db.repos
  groups : ∀ r ∈ db.groups.rows, r ∈ db'.groups.rows

theorem Database.SubGroups.schema_eq {db db' : Database} (h : db.SubGroups db') :
    db'.schema = db.schema := by
  rw [Database.schema, Database.schema, h.users, h.repos]

namespace Lookup

variable {l : Lookup} {db db' : Database} {a : ℤ} {name : Bytes}

theorem finds_group_iff (h : db.Valid) :
    Finds db a ⟨.group, none, some name⟩ ↔ ∃ grp, (a, grp) ∈ db.groups.rows ∧ grp.name = name := by
  rw [finds_named_iff]
  exact h.head?_groupGetId_iff

theorem finds_congr (hsub : db.SubGroups db') (hl : ∀ name, l ≠ ⟨.group, none, some name⟩) :
    l.Finds db a ↔ l.Finds db' a := by
  obtain ⟨_ | _ | _, _ | id, _ | name⟩ := l <;> first
    | rw [finds_known_iff, finds_known_iff]
    | exact iff_of_false not_finds_missing not_finds_missing
    | rw [finds_named_iff, finds_named_iff, Named.getId, Query.rows, Query.rows, hsub.users]
    | rw [finds_named_iff, finds_named_iff, Named.getId, Query.rows, Query.rows, hsub.repos]
    | exact absurd rfl (hl name)

theorem Finds.mono (ha : l.Finds db a) (hsub : db.SubGroups db') (h : db.Valid) (h' : db'.Valid) :
    l.Finds db' a := by
  by_cases hl : ∃ name, l = ⟨.group, none, some name⟩
  · obtain ⟨name, rfl⟩ := hl
    obtain ⟨grp, hr, hname⟩ := (finds_group_iff h).mp ha
    exact (finds_group_iff h').mpr ⟨grp, hsub.groups _ hr, hname⟩
  · exact (finds_congr hsub (not_exists.mp hl)).mp ha

theorem Finds.anti (ha : l.Finds db' a) (hsub : db.SubGroups db') (h : db.Valid) (h' : db'.Valid) :
    l.Finds db a ∨ l.kind = .group ∧ a ∉ db.groups.ids := by
  by_cases hl : ∃ name, l = ⟨.group, none, some name⟩
  · obtain ⟨name, rfl⟩ := hl
    by_cases hid : a ∈ db.groups.ids
    · obtain ⟨grp, hr, hname⟩ := (finds_group_iff h').mp ha
      obtain ⟨grp', hr'⟩ := AutoTable.mem_ids.mp hid
      obtain rfl := AutoTable.eq_of_mem_of_mem hr (hsub.groups _ hr')
      exact Or.inl ((finds_group_iff h).mpr ⟨grp, hr', hname⟩)
    · exact Or.inr ⟨rfl, hid⟩
  · exact Or.inl ((finds_congr hsub (not_exists.mp hl)).mpr ha)

end Lookup

/-! ## Gates -/

namespace Gate

variable {session : Session} {gate : Gate} {w : World}

/-- How a handler asks whether the caller passes. -/
def test (session : Session) : Gate → Test Op Unit
  | group groupId =>
    if session.role = Pb.Role.kOwner.toInt then .known (some ())
    else .asked (.query (.groupGetUserRole groupId session.userId)) fun rows ↦
      if rows.head? = some Pb.Role.kOwner.toInt then some () else none
  | repo repoId => .asked (.query (.repoGetUserRole repoId session.userId)) fun rows ↦
    if (Db.maxRole rows .kNone).1 = true ∧ .kOwner ≤ (Db.maxRole rows .kNone).2 then some ()
    else none

theorem reads_test : (gate.test session).Reads := by
  cases gate with
  | group groupId =>
    rw [test]
    split_ifs
    · trivial
    · exact fun w ↦ ⟨_, fun e ↦ rfl⟩
  | repo repoId => exact fun w ↦ ⟨_, fun e ↦ rfl⟩

theorem head?_groupGetUserRole_iff {db : Database} {groupId userId roleId : ℤ} :
    ((Query.groupGetUserRole groupId userId).rows 0 db).head? = some roleId ↔
      ∃ r ∈ db.groupsUsers.rows, r.groupId = groupId ∧ r.userId = userId ∧ r.roleId = roleId := by
  rw [Query.rows, List.head?_map, Option.map_eq_some_iff]
  have hunique : ∀ r ∈ db.groupsUsers.rows, ∀ r' ∈ db.groupsUsers.rows,
      decide (r.groupId = groupId ∧ r.userId = userId) = true →
      decide (r'.groupId = groupId ∧ r'.userId = userId) = true → r = r' := by
    simp only [decide_eq_true_eq]
    rintro r hr r' hr' ⟨rfl, rfl⟩ ⟨hgroup, huser⟩
    exact KeyTable.eq_of_key_eq hr hr' (Prod.ext hgroup.symm huser.symm)
  simp only [head?_filter_eq_some_iff hunique, decide_eq_true_eq, and_assoc]

theorem passes_test (h : w.db.Valid) :
    (gate.test session).Passes w () ↔ gate.Admits session w.db := by
  cases gate with
  | group groupId =>
    rw [test]
    split_ifs with hrole
    · exact iff_of_true rfl (Or.inl hrole)
    · rw [Admits, or_iff_right hrole, ← head?_groupGetUserRole_iff]
      refine (Test.passes_asked_iff (fun e ↦ rfl) {}).trans ?_
      rw [Option.ite_none_right_eq_some]
      exact and_iff_left rfl
  | repo repoId =>
    refine (Test.passes_asked_iff (b := w.db.userRoleRows repoId session.userId)
      (fun e ↦ rfl) {}).trans ?_
    rw [h.maxRole_userRoleRows, Option.ite_none_right_eq_some]
    exact (and_iff_left rfl).trans (and_iff_right rfl)

end Gate

/-! ## Tasks -/

/-- What a membership call with one statement does. -/
structure Task where
  session : Session
  target : Lookup
  member : Lookup
  gate : ℤ → Gate
  write : ℤ → ℤ → Write
  change : ℤ → ℤ → Change Table ℤ ℤ Group
  change_eq : ∀ a b, (write a b).change = some (change a b)
  gate_eq : ∀ a b, (write a b).gate = some (gate a)
  guards : ∀ a b, (gate a).Guards (change a b)
  /-- The change is about the groups that are looked up. -/
  about : ∀ (db : Database) a b, (target.kind = .group → (change a b).About db.schema a) ∧
    (member.kind = .group → (change a b).About db.schema b)

namespace Task

def script (t : Task) : Script Op ResultCode :=
  .test t.target.test fun a ↦ .test t.member.test fun b ↦ .test ((t.gate a).test t.session) fun _ ↦
    .act (.write (t.write a b))

end Task

namespace Rpc

/-- The task of a call. Where there is no second lookup, nothing is asked. -/
def task (session : Session) : Rpc → Option Task
  | groupDelete request => some
    { session
      target := ⟨.group, request.grpId, request.grp⟩
      member := ⟨.user, some 0, none⟩
      gate := .group
      write groupId _ := .deleteGroup groupId
      change groupId _ := .delete groupId
      change_eq _ _ := rfl
      gate_eq _ _ := rfl
      guards _ _ := rfl
      about _ _ _ := ⟨fun _ ↦ rfl, nofun⟩ }
  | groupAddUser request => some
    { session
      target := ⟨.group, request.grpId, request.grp⟩
      member := ⟨.user, request.userId, request.user⟩
      gate := .group
      write groupId userId := .insertGroupUser groupId userId request.role.toInt
      change groupId userId := .add ⟨.groupsUsers, groupId, userId, request.role.toInt⟩
      change_eq _ _ := rfl
      gate_eq _ _ := rfl
      guards _ _ := trivial
      about _ _ _ := ⟨fun _ ↦ Or.inl ⟨rfl, rfl⟩, nofun⟩ }
  | groupRemoveUser request => some
    { session
      target := ⟨.group, request.grpId, request.grp⟩
      member := ⟨.user, request.userId, request.user⟩
      gate := .group
      write := .deleteGroupUser
      change groupId userId := .remove (.groupsUsers, groupId, userId)
      change_eq _ _ := rfl
      gate_eq _ _ := rfl
      guards _ _ := trivial
      about _ _ _ := ⟨fun _ ↦ Or.inl ⟨rfl, rfl⟩, nofun⟩ }
  | repoAddUser request => some
    { session
      target := ⟨.repo, request.repoId, request.repo⟩
      member := ⟨.user, request.userId, request.user⟩
      gate := .repo
      write repoId userId := .insertRepoUser repoId userId request.role.toInt
      change repoId userId := .add ⟨.reposUsers, repoId, userId, request.role.toInt⟩
      change_eq _ _ := rfl
      gate_eq _ _ := rfl
      guards _ _ := trivial
      about _ _ _ := ⟨nofun, nofun⟩ }
  | repoRemoveUser request => some
    { session
      target := ⟨.repo, request.repoId, request.repo⟩
      member := ⟨.user, request.userId, request.user⟩
      gate := .repo
      write := .deleteRepoUser
      change repoId userId := .remove (.reposUsers, repoId, userId)
      change_eq _ _ := rfl
      gate_eq _ _ := rfl
      guards _ _ := trivial
      about _ _ _ := ⟨nofun, nofun⟩ }
  | repoAddGroup request => some
    { session
      target := ⟨.repo, request.repoId, request.repo⟩
      member := ⟨.group, request.grpId, request.grp⟩
      gate := .repo
      write repoId groupId := .insertRepoGroup repoId groupId request.role.toInt
      change repoId groupId := .add ⟨.reposGroups, repoId, groupId, request.role.toInt⟩
      change_eq _ _ := rfl
      gate_eq _ _ := rfl
      guards _ _ := trivial
      about _ _ _ := ⟨nofun, fun _ ↦ Or.inr ⟨rfl, rfl⟩⟩ }
  | repoRemoveGroup request => some
    { session
      target := ⟨.repo, request.repoId, request.repo⟩
      member := ⟨.group, request.grpId, request.grp⟩
      gate := .repo
      write := .deleteRepoGroup
      change repoId groupId := .remove (.reposGroups, repoId, groupId)
      change_eq _ _ := rfl
      gate_eq _ _ := rfl
      guards _ _ := trivial
      about _ _ _ := ⟨nofun, fun _ ↦ Or.inr ⟨rfl, rfl⟩⟩ }
  | _ => none

end Rpc

/-! ### The handlers follow their scripts -/

/-- The number of queries of `isGroupOwner`. -/
def Service.isGroupOwnerCost (session : Session) : ℕ :=
  if session.role = Pb.Role.kOwner.toInt then 0 else 1

/-- The number of queries. -/
def Gate.cost (session : Session) : Gate → ℕ
  | group _ => Service.isGroupOwnerCost session
  | repo _ => 1

/-- The number of queries of a task, once its target has been looked up. -/
def Task.queries (t : Task) (a : ℤ) : ℕ :=
  (t.gate a).cost t.session + t.member.cost + t.target.cost

/-- The call has succeeded, as far as the client is told. -/
def Reply.Succeeds (reply : Reply) : Prop := reply.outcome.status = some .kSucceed

instance (reply : Reply) : Decidable reply.Succeeds :=
  inferInstanceAs (Decidable (reply.outcome.status = some .kSucceed))

/-- Whether the answer depends on the result of the statement. -/
def Rpc.Checks : Rpc → Prop
  | groupDelete _ | groupRemoveUser _ => False
  | _ => True

/-- What a task answers to the result of its statement. -/
def Rpc.Answers (rpc : Rpc) (_ : Op ResultCode) (rc : ResultCode) (p : Server Reply) : Prop :=
  p.Ends fun reply ↦ reply.Succeeds ↔ (rpc.Checks → rc = .done)

namespace Service

variable {ρ α : Type} {K : ℤ → Script Op ResultCode} {K' : Unit → Script Op ResultCode} {n : ℕ}
  {stop : α → Prop} {final : Op ResultCode → ResultCode → Server α → Prop}
  {k : ℤ → Server (Outcome ρ)} {body : Server (Outcome ρ)} {f : Outcome ρ → Server α}

theorem setId_concludes {kind : Named} {id? : Option ℤ} {name? : Option Bytes}
    {unspecified notFound : Outcome ρ} (hunspecified : (f unspecified).Ends stop)
    (hnotFound : (f notFound).Ends stop)
    (hk : ∀ id, (K id).Concludes stop final n (k id >>= f)) :
    (Script.test (Lookup.test ⟨kind, id?, name?⟩) K).Concludes stop final
      (n + Lookup.cost ⟨kind, id?, name?⟩)
      ((setId id? name? (fun name ↦ fetch (kind.getId name)) unspecified notFound).orReturn k >>=
        f) := by
  obtain _ | id := id?
  · obtain _ | name := name?
    · exact Script.concludes_missing hunspecified
    · refine Script.concludes_asked (fun rows hrows ↦ ?_) fun rows id hrows ↦ ?_
      · rw [List.head?_eq_none_iff.mp hrows]
        exact hnotFound
      · obtain ⟨rows, rfl⟩ := List.head?_eq_some_iff.mp hrows
        exact hk id
  · exact Script.concludes_known (hk id)

/-- What `isGroupOwner` answers to the first role it is told. -/
def ownerAnswer : Option ℤ → Server Bool
  | none => return false
  | some role => return role = Pb.Role.kOwner.toInt

theorem isGroupOwner_concludes (session : Session) {grpId : ℤ} {insufficient : Outcome ρ}
    (hinsufficient : (f insufficient).Ends stop)
    (hbody : (K' ()).Concludes stop final 0 (body >>= f)) :
    (Script.test ((Gate.group grpId).test session) K').Concludes stop final
      ((Gate.group grpId).cost session)
      ((isGroupOwner (userGetSessionHelper session).2 grpId >>= fun owner ↦
        if (!owner) = true then return insufficient else body) >>= f) := by
  rw [Gate.test, Gate.cost, isGroupOwnerCost, isGroupOwner, roleOf_helper]
  split_ifs with howner
  · exact Script.concludes_known hbody
  · let rest (role? : Option ℤ) : Server α :=
      (ownerAnswer role? >>= fun owner ↦
        if (!owner) = true then return insufficient else body) >>= f
    have hrest (role? : Option ℤ) (h : role? ≠ some Pb.Role.kOwner.toInt) :
        rest role? = f insufficient := by
      cases role? with
      | none => rfl
      | some role =>
        have hne : role ≠ Pb.Role.kOwner.toInt := fun heq ↦ h (congrArg some heq)
        change (if (!decide (role = Pb.Role.kOwner.toInt)) = true then return insufficient
          else body) >>= f = f insufficient
        rw [decide_eq_false hne]
        rfl
    refine Script.concludes_asked (fun rows hrows ↦ ?_) fun rows _ hrows ↦ ?_
    · change (rest rows.head?).Ends stop
      rw [hrest _ fun heq ↦ Option.some_ne_none () ((if_pos heq).symm.trans hrows)]
      exact hinsufficient
    · change (K' ()).Concludes stop final 0 (rest rows.head?)
      rw [(Option.ite_none_right_eq_some.mp hrows).1]
      exact hbody

theorem checkRepoRole_concludes (session : Session) [Pb.HasStatus ρ] {repoId : ℤ}
    (hfailed : (f (.returned false
      (Pb.HasStatus.failure .kFailed (text "database error")))).Ends stop)
    (hinsufficient : (f (reply .kInsufficientRight (text "insufficient rights"))).Ends stop)
    (hbody : (K' ()).Concludes stop final 0 (body >>= f)) :
    (Script.test ((Gate.repo repoId).test session) K').Concludes stop final
      ((Gate.repo repoId).cost session)
      ((checkRepoRole repoId (userIdOf (userGetSessionHelper session).2) .kOwner).orReturn
        (fun _ ↦ body) >>= f) := by
  let rest (r : Bool × Pb.Role) : Server α :=
    ((if (!r.1) = true then
        return .error (.returned false (Pb.HasStatus.failure .kFailed (text "database error")))
      else if r.2 < .kOwner then
        return .error (reply .kInsufficientRight (text "insufficient rights"))
      else return .ok () : Server (Check ρ Unit)).orReturn fun _ ↦ body) >>= f
  refine Script.concludes_asked (fun rows hrows ↦ ?_) fun rows _ hrows ↦ ?_
  · change (rest (Db.maxRole rows .kNone)).Ends stop
    by_cases hok : (Db.maxRole rows .kNone).1 = true
    · have hrole : (Db.maxRole rows .kNone).2 < .kOwner := by
        by_contra hrole
        exact Option.some_ne_none () ((if_pos ⟨hok, not_lt.mp hrole⟩).symm.trans hrows)
      simp only [rest, hok, hrole, Bool.not_true, Bool.false_eq_true, if_false, if_true]
      exact hinsufficient
    · simp only [rest, hok, Bool.not_false, if_true]
      exact hfailed
  · change (K' ()).Concludes stop final 0 (rest (Db.maxRole rows .kNone))
    obtain ⟨hok, hrole⟩ := (Option.ite_none_right_eq_some.mp hrows).1
    simp only [rest, hok, hrole.not_gt, Bool.not_true, Bool.false_eq_true, if_false]
    exact hbody

theorem write_concludes {s : Write} {ok : ResultCode → Bool} {no yes : Outcome ρ}
    (hfinal : ∀ rc, final (.write s) rc (f (if ok rc = true then yes else no))) :
    (Script.act (Op.write s)).Concludes stop final 0
      (((issue (.write s) >>= fun rc ↦ return ok rc : Server Bool) >>= fun done ↦
        if (!done) = true then return no else return yes) >>= f) := by
  refine Script.concludes_act fun rc ↦ ?_
  have hrc := hfinal rc
  change final _ rc ((if (!ok rc) = true then return no else return yes) >>= f)
  cases hok : ok rc with
  | true =>
    rw [hok] at hrc
    exact hrc
  | false =>
    rw [hok] at hrc
    exact hrc

end Service

/-- **The handlers follow their scripts**, and fail when a test does. -/
theorem dispatch_concludes (d : Deployment) (session : Session) {rpc : Rpc} {t : Task}
    (ht : rpc.task session = some t) (a : ℤ) :
    t.script.Concludes (fun reply ↦ ¬ reply.Succeeds) rpc.Answers (t.queries a)
      (dispatch d (some session) rpc) := by
  have hno {o : Outcome Pb.Message} (ho : o.status ≠ some .kSucceed) :
      (done { outcome := o } : Server Reply).Ends fun reply ↦ ¬ reply.Succeeds := ho
  have hanswer {s : Write} {ok : ResultCode → Bool} {no : Outcome Pb.StatusMsg}
      (hstatus : (no.map .statusMsg).status ≠ some .kSucceed)
      (hok : ∀ rc, ok rc = true ↔ (rpc.Checks → rc = .done)) (rc : ResultCode) :
      rpc.Answers (.write s) rc
        (done { outcome := (if ok rc = true then Service.succeed else no).map .statusMsg }) := by
    change Outcome.status _ = _ ↔ _
    rw [← hok]
    split_ifs with h
    · exact iff_of_true rfl h
    · exact iff_of_false hstatus h
  have hchecks (htrue : rpc.Checks) (rc : ResultCode) :
      decide (rc = .done) = true ↔ (rpc.Checks → rc = .done) :=
    decide_eq_true_iff.trans (imp_iff_right htrue).symm
  cases rpc with
  | groupDelete request =>
    obtain rfl := Option.some_inj.mp ht
    refine Service.setId_concludes (hno (by decide)) (hno (by decide)) fun grpId ↦ ?_
    refine Script.concludes_known ?_
    refine Service.isGroupOwner_concludes session (hno (by decide)) ?_
    refine Service.write_concludes (hanswer (by decide) fun rc ↦ ?_)
    exact iff_of_true (decide_eq_true rc.code_ne_zero) False.elim
  | groupAddUser request =>
    obtain rfl := Option.some_inj.mp ht
    refine Service.setId_concludes (hno (by decide)) (hno (by decide)) fun grpId ↦ ?_
    refine Service.setId_concludes (hno (by decide)) (hno (by decide)) fun userId ↦ ?_
    refine Service.isGroupOwner_concludes session (hno (by decide)) ?_
    exact Service.write_concludes (hanswer (by decide) (hchecks trivial))
  | groupRemoveUser request =>
    obtain rfl := Option.some_inj.mp ht
    refine Service.setId_concludes (hno (by decide)) (hno (by decide)) fun grpId ↦ ?_
    refine Service.setId_concludes (hno (by decide)) (hno (by decide)) fun userId ↦ ?_
    refine Service.isGroupOwner_concludes session (hno (by decide)) ?_
    exact Script.concludes_act fun rc ↦ iff_of_true rfl False.elim
  | repoAddUser request | repoRemoveUser request =>
    obtain rfl := Option.some_inj.mp ht
    refine Service.setId_concludes (hno (by decide)) (hno (by decide)) fun repoId ↦ ?_
    refine Service.setId_concludes (hno (by decide)) (hno (by decide)) fun userId ↦ ?_
    refine Service.checkRepoRole_concludes session (hno (by decide)) (hno (by decide)) ?_
    exact Service.write_concludes (hanswer (by decide) (hchecks trivial))
  | repoAddGroup request | repoRemoveGroup request =>
    obtain rfl := Option.some_inj.mp ht
    refine Service.setId_concludes (hno (by decide)) (hno (by decide)) fun repoId ↦ ?_
    refine Service.setId_concludes (hno (by decide)) (hno (by decide)) fun grpId ↦ ?_
    refine Service.checkRepoRole_concludes session (hno (by decide)) (hno (by decide)) ?_
    exact Service.write_concludes (hanswer (by decide) (hchecks trivial))
  | _ => cases ht

theorem dispatch_fits (d : Deployment) (session : Session) {rpc : Rpc} {t : Task}
    (ht : rpc.task session = some t) :
    ∃ n, t.script.Fits Env n (dispatch d (some session) rpc) :=
  ⟨t.queries 0, (dispatch_concludes d session ht 0).fits fun _ _ _ h ↦ not_running_of_ends h⟩

/-! ## Statements on the connection -/

section Write

variable {w : World} {s : Write} {c : Change Table ℤ ℤ Group} {g : ℤ}

theorem World.write_subGroups (hc : s.change = some c) (e : Env) (w : World) :
    (w.write e s).2.db.SubGroups w.db := by
  rcases World.write_spec s e w with ⟨-, -, heffect, -⟩ | ⟨-, hw⟩
  · refine ⟨?_, ?_, ?_⟩
    · refine (heffect.same (t := .users) ?_).symm
      cases s <;> simp [Write.touches, Write.change] at hc ⊢
    · refine (heffect.same (t := .repos) ?_).symm
      cases s <;> simp [Write.touches, Write.change] at hc ⊢
    · intro r hr
      cases s with
      | deleteGroup groupId =>
        rw [show (w.write e (.deleteGroup groupId)).2.db = _ from heffect] at hr
        exact List.mem_of_mem_filter hr
      | insertGroupUser | deleteGroupUser | insertRepoUser | deleteRepoUser | insertRepoGroup
      | deleteRepoGroup =>
        rwa [show (World.write w e _).2.db.groups = w.db.groups from
          heffect.same (t := .groups) (by simp [Write.touches])] at hr
      | _ => cases hc
  · rw [hw]
    exact ⟨rfl, rfl, fun r hr ↦ hr⟩

theorem World.graph_write_of_no_fault (h : w.db.Valid) (hc : s.change = some c) {e : Env}
    (hfault : e.fault = none) :
    (w.write e s).2.db.graph = c.apply w.db.schema w.db.graph := by
  rw [World.write, hfault]
  exact Write.graph_apply h hc e.now

/-- The statement has its effect, or fails for a reason outside the tables. -/
theorem World.graph_write (h : w.db.Valid) (hc : s.change = some c) (e : Env) :
    e.fault = none ∧ (w.write e s).2.db.graph = c.apply w.db.schema w.db.graph ∨
      e.fault ≠ none ∧ (w.write e s).2 = w := by
  by_cases hfault : e.fault = none
  · exact Or.inl ⟨hfault, World.graph_write_of_no_fault h hc hfault⟩
  · exact Or.inr ⟨hfault, World.write_of_fault hfault⟩

theorem World.graph_write_of_notMem (h : w.db.Valid) (hc : s.change = some c)
    (habout : c.About w.db.schema g) (hg : g ∉ w.db.groups.ids) (e : Env) :
    (w.write e s).2.db.graph = w.db.graph := by
  rcases World.graph_write h hc e with ⟨-, hgraph⟩ | ⟨-, hw⟩
  · rw [hgraph]
    exact Change.apply_of_not_hasGroup h.closed_graph habout (mt Database.hasGroup_graph.mp hg)
  · rw [hw]

end Write

/-! ## What a task does -/

namespace Task

variable {t : Task} {w w₁ : World} {e : Env} {α : Type} {p p₀ : Server α} {env env₀ : ℕ → Env}
  {a b : ℤ}

/-- The request refers to these rows. -/
def Resolves (t : Task) (db : Database) (a b : ℤ) : Prop :=
  t.target.Finds db a ∧ t.member.Finds db b

/-- The caller passes the gate of the target. -/
def Admits (t : Task) (db : Database) (a : ℤ) : Prop := (t.gate a).Admits t.session db

theorem reads_script (t : Task) : t.script.Reads :=
  ⟨Lookup.reads_test, fun _ ↦ ⟨Lookup.reads_test, fun _ ↦ ⟨Gate.reads_test, fun _ ↦ trivial⟩⟩⟩

theorem leads_iff (h : w.db.Valid) {op : Op ResultCode} :
    t.script.Leads w op ↔
      ∃ a b, t.Resolves w.db a b ∧ t.Admits w.db a ∧ op = .write (t.write a b) := by
  constructor
  · rintro ⟨a, ha, b, hb, ⟨⟩, hgate, rfl⟩
    exact ⟨a, b, ⟨Lookup.passes_test.mp ha, Lookup.passes_test.mp hb⟩,
      (Gate.passes_test h).mp hgate, rfl⟩
  · rintro ⟨a, b, ⟨ha, hb⟩, hadmits, rfl⟩
    exact ⟨a, Lookup.passes_test.mpr ha, b, Lookup.passes_test.mpr hb, (),
      (Gate.passes_test h).mpr hadmits, rfl⟩

/-- **What the call does by itself**, from where it has come to in the state that it has read from.
It issues its statement, or nothing happens. -/
theorem run_spec (h : w.db.Valid) (hp : t.script.At e w p env) :
    (∃ a b, t.Resolves w.db a b ∧ t.Admits w.db a ∧
        (p.run env w).2 = (w.write e (t.write a b)).2) ∨
      (∀ a b, t.Resolves w.db a b → ¬ t.Admits w.db a) ∧ (p.run env w).2 = w := by
  rcases hp.run_spec t.reads_script with ⟨op, hop, hw⟩ | ⟨hnone, hw⟩
  · obtain ⟨a, b, hres, hadmits, rfl⟩ := (leads_iff h).mp hop
    exact Or.inl ⟨a, b, hres, hadmits, hw⟩
  · refine Or.inr ⟨fun a b hres hadmits ↦ ?_, hw⟩
    exact hnone _ ((leads_iff h).mpr ⟨a, b, hres, hadmits, rfl⟩)

theorem Resolves.mono (hres : t.Resolves w.db a b) (hsub : w.db.SubGroups w₁.db) (h : w.db.Valid)
    (h₁ : w₁.db.Valid) : t.Resolves w₁.db a b :=
  ⟨hres.1.mono hsub h h₁, hres.2.mono hsub h h₁⟩

theorem Admits.mono (hadmits : t.Admits w.db a) (h : w.db.Valid) (h₁ : w₁.db.Valid)
    (hlinks : w.db.graph.links ⊆ w₁.db.graph.links) : t.Admits w₁.db a :=
  (Gate.admits_iff h₁).mpr (((Gate.admits_iff h).mp hadmits).mono hlinks)

theorem at_mono (hp : t.script.At e w p env) (hsub : w.db.SubGroups w₁.db) (h : w.db.Valid)
    (h₁ : w₁.db.Valid) (hlinks : w.db.graph.links ⊆ w₁.db.graph.links) :
    t.script.At e w₁ p env := by
  have hfinds {l : Lookup} {a : ℤ} (ha : l.test.Passes w a) : l.test.Passes w₁ a :=
    Lookup.passes_test.mpr ((Lookup.passes_test.mp ha).mono hsub h h₁)
  refine hp.imp_right fun ⟨a, ha, hp⟩ ↦ ⟨a, hfinds ha, hp.imp_right fun ⟨b, hb, hp⟩ ↦
    ⟨b, hfinds hb, hp.imp_right fun ⟨_, hgate, hp⟩ ↦ ⟨(), ?_, hp⟩⟩⟩
  exact (Gate.passes_test h₁).mpr (Admits.mono ((Gate.passes_test h).mp hgate) h h₁ hlinks)

theorem graph_write_of_lost (h : w.db.Valid) (hlost : t.target.kind = .group ∧ a ∉ w.db.groups.ids ∨
    t.member.kind = .group ∧ b ∉ w.db.groups.ids) (e : Env) :
    (w.write e (t.write a b)).2.db.graph = w.db.graph := by
  rcases hlost with ⟨hkind, hid⟩ | ⟨hkind, hid⟩
  · exact World.graph_write_of_notMem h (t.change_eq a b) ((t.about w.db a b).1 hkind) hid e
  · exact World.graph_write_of_notMem h (t.change_eq a b) ((t.about w.db a b).2 hkind) hid e

/-- **The call by itself in a later state.** It does there what its statement does, if the caller
still passes the gate or the statement would change nothing. -/
theorem graph_run (h : w.db.Valid) (h₁ : w₁.db.Valid) (hsub : w₁.db.SubGroups w.db)
    (hp : t.script.Describes e p env) (hres : t.Resolves w.db a b)
    (hgate : t.Admits w₁.db a ∨ (w₁.write e (t.write a b)).2.db.graph = w₁.db.graph) :
    (p.run env w₁).2.db.graph = (w₁.write e (t.write a b)).2.db.graph := by
  rcases run_spec h₁ (Script.at_of_describes hp) with ⟨a', b', hres', -, hw⟩ | ⟨hnone, hw⟩
  · obtain rfl := hres.1.eq (hres'.1.mono hsub h₁ h)
    obtain rfl := hres.2.eq (hres'.2.mono hsub h₁ h)
    rw [hw]
  · rw [hw]
    rcases hres.1.anti hsub h₁ h with ha | hlost
    · rcases hres.2.anti hsub h₁ h with hb | hlost
      · exact (hgate.resolve_left (hnone a b ⟨ha, hb⟩)).symm
      · exact (graph_write_of_lost h₁ (Or.inr hlost) e).symm
    · exact (graph_write_of_lost h₁ (Or.inl hlost) e).symm

/-- The call has looked up its rows and passed its gate in the state `w`. -/
def Admitted (t : Task) (e : Env) (w : World) (a b : ℤ) (p : Server α) (env : ℕ → Env) : Prop :=
  t.Resolves w.db a b ∧ t.Admits w.db a ∧
    (Script.act (Op.write (t.write a b))).Describes e p env

/-- **Overtaken.** The rest of a call that has read from the state `w` does in a later state what
the whole call would do there, unless it has passed its gate and would not pass it any more. -/
theorem finish (h : w.db.Valid) (h₁ : w₁.db.Valid) (hsub : w₁.db.SubGroups w.db)
    (hat : t.script.At e w p env) (hp : t.script.Describes e p₀ env₀) :
    (p.run env w₁).2.db.graph = (p₀.run env₀ w₁).2.db.graph ∨
      ∃ a b, t.Admitted e w a b p env ∧ ¬ t.Admits w₁.db a := by
  -- what is left of the script leads to the statement exactly if the whole script does
  have hrest {T : Script Op ResultCode} (hT : T.Reads) (hd : T.Describes e p env)
      (hto : ∀ op, T.Leads w₁ op → ∃ a b, t.Resolves w.db a b ∧ t.Admits w₁.db a ∧
        op = .write (t.write a b))
      (hfrom : ∀ a b, t.Resolves w₁.db a b → t.Admits w₁.db a →
        T.Leads w₁ (.write (t.write a b))) :
      (p.run env w₁).2.db.graph = (p₀.run env₀ w₁).2.db.graph := by
    rcases Script.run_spec hT hd w₁ with ⟨op, hop, hw⟩ | ⟨hnone, hw⟩
    · obtain ⟨a, b, hres, hadmits, rfl⟩ := hto op hop
      rw [hw, graph_run h h₁ hsub hp hres (Or.inl hadmits)]
      rfl
    · rcases run_spec h₁ (Script.at_of_describes hp) with ⟨a, b, hres, hadmits, -⟩ | ⟨-, hw'⟩
      · exact absurd (hfrom a b hres hadmits) (hnone _)
      · rw [hw, hw']
  have hreads := t.reads_script
  have hmono {l : Lookup} {a : ℤ} (hl : l.Finds w₁.db a) : l.Finds w.db a := hl.mono hsub h₁ h
  rcases hat with hd | ⟨a, ha, hd | ⟨b, hb, hd | ⟨⟨⟩, hgate, hd⟩⟩⟩
  · refine Or.inl (hrest hreads hd (fun op hop ↦ ?_) fun a b hres hadmits ↦ ?_)
    · obtain ⟨a, b, hres, hadmits, rfl⟩ := (leads_iff h₁).mp hop
      exact ⟨a, b, ⟨hmono hres.1, hmono hres.2⟩, hadmits, rfl⟩
    · exact (leads_iff h₁).mpr ⟨a, b, hres, hadmits, rfl⟩
  · refine Or.inl (hrest (hreads.2 a) hd ?_ fun a' b hres hadmits ↦ ?_)
    · rintro op ⟨b, hb, ⟨⟩, hgate, rfl⟩
      exact ⟨a, b, ⟨Lookup.passes_test.mp ha, hmono (Lookup.passes_test.mp hb)⟩,
        (Gate.passes_test h₁).mp hgate, rfl⟩
    · obtain rfl := (Lookup.passes_test.mp ha).eq (hmono hres.1)
      exact ⟨b, Lookup.passes_test.mpr hres.2, (), (Gate.passes_test h₁).mpr hadmits, rfl⟩
  · refine Or.inl (hrest ((hreads.2 a).2 b) hd ?_ fun a' b' hres hadmits ↦ ?_)
    · rintro op ⟨⟨⟩, hgate, rfl⟩
      exact ⟨a, b, ⟨Lookup.passes_test.mp ha, Lookup.passes_test.mp hb⟩,
        (Gate.passes_test h₁).mp hgate, rfl⟩
    · obtain rfl := (Lookup.passes_test.mp ha).eq (hmono hres.1)
      obtain rfl := (Lookup.passes_test.mp hb).eq (hmono hres.2)
      exact ⟨(), (Gate.passes_test h₁).mpr hadmits, rfl⟩
  · have hres : t.Resolves w.db a b := ⟨Lookup.passes_test.mp ha, Lookup.passes_test.mp hb⟩
    by_cases hadmits : t.Admits w₁.db a
    · refine Or.inl ?_
      rw [graph_run h h₁ hsub hp hres (Or.inl hadmits), Script.run_act hd, exec_write]
    · exact Or.inr ⟨a, b, ⟨hres, (Gate.passes_test h).mp hgate, hd⟩, hadmits⟩

/-- **Two statements, the second one after its gate has been closed.** The result is that of one of
the calls after the other, or the first statement removes a membership and the second one adds it
again, or removes another one and would close the gate of the first one. -/
theorem overtaken {t' : Task} {e' : Env} {a' b' : ℤ} (h : w.db.Valid)
    (hp : t.script.Describes e p env) (hp₀ : t'.script.Describes e' p₀ env₀)
    (hres : t.Resolves w.db a b) (hadmits : t.Admits w.db a) (hres' : t'.Resolves w.db a' b')
    (hadmits' : t'.Admits w.db a') (hlost : ¬ t'.Admits (w.write e (t.write a b)).2.db a') :
    let w₁ := (w.write e (t.write a b)).2
    let w₂ := (w.write e' (t'.write a' b')).2
    let graph := (w₁.write e' (t'.write a' b')).2.db.graph
    graph = (p₀.run env₀ w₁).2.db.graph ∨ graph = (p.run env w₂).2.db.graph ∨
      ∃ k, t.change a b = .remove k ∧ ((∃ l, t'.change a' b' = .add l ∧ l.key = k) ∨
        ∃ k', t'.change a' b' = .remove k' ∧ k ≠ k' ∧ ¬ t.Admits w₂.db a) := by
  intro w₁ w₂ graph
  have h₁ : w₁.db.Valid := World.write_valid _ _ h
  have h₂ : w₂.db.Valid := World.write_valid _ _ h
  have hsub₁ : w₁.db.SubGroups w.db := World.write_subGroups (t.change_eq a b) e w
  have hsub₂ : w₂.db.SubGroups w.db := World.write_subGroups (t'.change_eq a' b') e' w
  rcases World.graph_write h (t.change_eq a b) e with ⟨hfault, hgraph₁⟩ | ⟨-, hsame⟩
  swap
  · rw [hsame] at hlost
    exact absurd hadmits' hlost
  rcases World.graph_write h₁ (t'.change_eq a' b') e' with ⟨hfault', hgraph⟩ | ⟨-, hsame⟩
  swap
  · refine Or.inl (graph_run h h₁ hsub₁ hp₀ hres' (Or.inr ?_)).symm
    rw [hsame]
  have hgraph₂ : w₂.db.graph = (t'.change a' b').apply w.db.schema w.db.graph :=
    World.graph_write_of_no_fault h (t'.change_eq a' b') hfault'
  have hschema₁ : w₁.db.schema = w.db.schema := hsub₁.schema_eq.symm
  have hschema₂ : w₂.db.schema = w.db.schema := hsub₂.schema_eq.symm
  have hclosed₁ := h₁.closed_graph
  have hclosed₂ := h₂.closed_graph
  rw [hschema₁, hgraph₁] at hclosed₁
  rw [hschema₂, hgraph₂] at hclosed₂
  rw [hschema₁, hgraph₁] at hgraph
  have hlost' := mt (Gate.admits_iff h₁).mpr hlost
  rw [hgraph₁] at hlost'
  have hcases := Gate.overtaken rfl (t.guards a b) (t'.guards a' b') hclosed₁ hclosed₂
    ((Gate.admits_iff h).mp hadmits) ((Gate.admits_iff h).mp hadmits') hlost'
  rw [← hgraph, ← hgraph₂, ← hgraph₁, ← Gate.admits_iff h₂] at hcases
  rcases hcases with hvoid | ⟨hcomm, hgate⟩ | hanomaly
  · exact Or.inl (graph_run h h₁ hsub₁ hp₀ hres' (Or.inr hvoid)).symm
  · refine Or.inr (Or.inl ?_)
    have hafter := World.graph_write_of_no_fault h₂ (t.change_eq a b) hfault
    rw [hschema₂] at hafter
    rw [← hafter] at hcomm hgate
    exact hcomm.trans (graph_run h h₂ hsub₂ hp hres hgate).symm
  · exact Or.inr (Or.inr hanomaly)

end Task

end Scissy
