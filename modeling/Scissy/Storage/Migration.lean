import Scissy.Server.Footprint
import Scissy.Storage.Fresh
import Scissy.Model.Migration

/-!
# The accounts after the upgrade

The upgrade copies every account, with a type of password that no authenticator takes, and leaves
the rows that refer to them alone (`migrate_spec`). But the clauses it leaves behind name the old
table, and the old table gets no new rows. So a user who registers later can have neither a token
nor a key nor a membership: all is well exactly as long as nobody registers
(`usable_iff_nobodyRegisters`).

## What usable means

An account is usable if the statements are taken that give it a token, a key or a membership which
nobody has. That is a property of the tables and the clauses, and not of a particular call. The old
accounts keep it, since their numbers are in the old table as well. A new one never has it.

## From calls to accounts

A call registers a user, or it leaves the accounts alone (`UpgradedWorld.serve_users`), on an
upgraded database as on any other. Everything else that a call may do there, with its other answers
to other statements, plays no part: `Extends` keeps the two tables of accounts and the clauses, and
every operation respects it.
-/

open Relational Interaction Interaction.Prog

namespace Scissy

variable {π : Type}

/-! ## The copied rows -/

theorem copyUsers_eq (rows : List (ℤ × UserV1 π)) (users : AutoTable User maxRowid)
    (hids : (users.ids ++ rows.map Prod.fst).Nodup)
    (hlogin : (users.rows.map (·.2.login) ++ rows.map (·.2.login)).Nodup)
    (hemail : (users.rows.map (·.2.email) ++ rows.map (·.2.email)).Nodup)
    (hrange : ∀ r ∈ rows, 0 < r.1 ∧ r.1 ≤ maxRowid) :
    ∃ users', copyUsers rows users = some users' ∧
      users'.rows = users.rows ++ rows.map fun r ↦ (r.1, r.2.copied) := by
  induction rows generalizing users with
  | nil => exact ⟨users, rfl, (List.append_nil _).symm⟩
  | cons r rows ih =>
    obtain ⟨userId, user⟩ := r
    have hfresh {κ : Type} {l l' : List κ} {a : κ} (h : (l ++ a :: l').Nodup) : a ∉ l := fun ha ↦
      (List.nodup_append.mp h).2.2 a ha a List.mem_cons_self rfl
    obtain ⟨hpos, hle⟩ := hrange (userId, user) List.mem_cons_self
    obtain ⟨users₁, hinsert, hrows⟩ :=
      AutoTable.exists_insertAs (a := user.copied) (hfresh hids) hpos hle
    rw [List.map_cons, List.append_cons] at hids hlogin hemail
    have hids₁ : users₁.ids = users.ids ++ [userId] := by
      rw [AutoTable.ids, hrows, List.map_append]
      rfl
    obtain ⟨users', hcopy, hrows'⟩ := ih users₁ (by rw [hids₁]; exact hids)
      (by rw [hrows, List.map_append]; exact hlogin) (by rw [hrows, List.map_append]; exact hemail)
      fun r hr ↦ hrange r (List.mem_cons_of_mem _ hr)
    refine ⟨users', ?_, ?_⟩
    · rw [← List.append_cons] at hlogin hemail
      have hfree : freeAccount users user.login user.email = true :=
        decide_eq_true ⟨hfresh hlogin, hfresh hemail⟩
      rw [copyUsers, if_pos hfree, hinsert]
      exact hcopy
    · rw [hrows', hrows, List.append_assoc]
      rfl

/-- **What the script leaves behind.** -/
theorem migrate_spec {v1 : DatabaseV1 π} (h : v1.Valid) :
    ∃ u, v1.migrate = some u ∧ u.users1 = v1.users ∧ (∀ column, u.clauses column = .users1) ∧
      u.db = { v1 with users := u.db.users } ∧
      u.db.users.rows = v1.users.rows.map fun r ↦ (r.1, r.2.copied) := by
  obtain ⟨users, hcopy, hrows⟩ := copyUsers_eq v1.users.rows (.empty maxRowid_nonneg)
    v1.users.nodup_ids h.login_unique h.email_unique
    fun r hr ↦ AutoTable.bounds_of_mem_ids (AutoTable.mem_ids_of_mem hr)
  refine ⟨⟨{ v1 with users }, v1.users, Clauses.modelSql.rename .users .users1⟩, ?_, rfl,
    fun column ↦ rfl, rfl, hrows⟩
  rw [DatabaseV1.migrate, hcopy]
  rfl

/-! ## Usable accounts -/

/-- The accounts, and everything that belongs to them, are the old ones. -/
structure Upgraded.Keeps (v1 : DatabaseV1 π) (u : Upgraded π) : Prop where
  users : u.db.users.rows.map (fun r ↦ (r.1, r.2.login, r.2.email, r.2.roleId)) =
    v1.users.rows.map fun r ↦ (r.1, r.2.login, r.2.email, r.2.roleId)
  usersSshKeys : u.db.usersSshKeys = v1.usersSshKeys ∧
    References u.db.usersSshKeys.rows (·.2.userId) u.db.users.ids
  usersAuths : u.db.usersAuths = v1.usersAuths ∧
    References u.db.usersAuths.rows (·.userId) u.db.users.ids
  groupsUsers : u.db.groupsUsers = v1.groupsUsers ∧
    References u.db.groupsUsers.rows (·.userId) u.db.users.ids
  reposUsers : u.db.reposUsers = v1.reposUsers ∧
    References u.db.reposUsers.rows (·.userId) u.db.users.ids

namespace UpgradedWorld

/-- No password lets a user of the old database in. -/
def NoPassword (v1 : DatabaseV1 π) (w : UpgradedWorld π) : Prop :=
  ∀ d (request : Pb.UserAuth) env, (∃ r ∈ v1.users.rows, r.2.login = request.user) →
    ∃ msg, ((upgraded (Service.builtinAuth d request)).run env w).1 = .error msg

/-- What SQLite answers to a statement, when nothing goes wrong outside the tables. -/
def result (w : UpgradedWorld π) (now : ℤ) (s : Write) : ResultCode :=
  (s.applyIn w.parents now w.db).1

/-- A user can be given tokens, keys and memberships that nobody has. -/
structure CanUse (w : UpgradedWorld π) (userId : ℤ) : Prop where
  token : ∀ now token tsStart, (token, userId) ∉ w.db.usersAuths.rows.map UserAuth.key →
    w.result now (.insertUserAuth userId token tsStart) = .done
  sshKey : ∀ now keyType key desc, w.db.usersSshKeys.seq + 1 ≤ maxRowid →
    (userId, key, keyType) ∉ w.db.usersSshKeys.rows.map (·.2.uniqueKey) →
      w.result now (.insertUserSshKey userId keyType key desc) = .done
  group : ∀ now, ∀ groupId ∈ w.db.groups.ids, ∀ roleId ∈ roleIds,
    (groupId, userId) ∉ w.db.groupsUsers.rows.map GroupUser.key →
      w.result now (.insertGroupUser groupId userId roleId) = .done
  repo : ∀ now, ∀ repoId ∈ w.db.repos.ids, ∀ roleId ∈ roleIds,
    (repoId, userId) ∉ w.db.reposUsers.rows.map RepoUser.key →
      w.result now (.insertRepoUser repoId userId roleId) = .done

/-- Every user who has registered since the upgrade can use the account. -/
def Usable (v1 : DatabaseV1 π) (w : UpgradedWorld π) : Prop :=
  ∀ userId ∈ w.db.users.ids, userId ∉ v1.users.ids → w.CanUse userId

/-! ## Runs of the server -/

variable (d : Deployment)

def serve (w : UpgradedWorld π) (c : RpcCall) : Reply × UpgradedWorld π :=
  (upgraded (dispatch d c.thread c.rpc)).run c.env w

/-- The states before and after each call. -/
def reached : List RpcCall → UpgradedWorld π → List (UpgradedWorld π)
  | [], w => [w]
  | c :: calls, w => w :: reached calls (w.serve d c).2

end UpgradedWorld

/-- `userCreate` gets as far as its statement, if the random generator works. -/
def Pb.UserCreate.Accepted (d : Deployment) (request : Pb.UserCreate) : Prop :=
  d.isRegisterEnabled = true ∧ request.user.length ≤ 64 ∧
    Service.userCheckPassword d request.password = none ∧
    Service.loginMatch request.user = true ∧ Service.emailMatch request.email = true

/-- SQLite inserts the account. -/
def Database.TakesUser (db : Database) (request : Pb.UserCreate) (fault : Option SqliteError) :
    Prop :=
  fault = none ∧ request.user ∉ db.users.rows.map (·.2.login) ∧
    request.email ∉ db.users.rows.map (·.2.email) ∧ db.users.seq + 1 ≤ maxRowid

/-- The call registers a user. -/
def RpcCall.Registers (d : Deployment) (db : Database) (c : RpcCall) : Prop :=
  ∃ request, c.rpc = .userCreate request ∧ request.Accepted d ∧ (c.env 0).rndFails = false ∧
    db.TakesUser request (c.env 1).fault

/-- No call registers a user. -/
def NobodyRegisters (d : Deployment) : List RpcCall → UpgradedWorld π → Prop
  | [], _ => True
  | c :: calls, w => ¬ c.Registers d w.db ∧ NobodyRegisters d calls (w.serve d c).2

/-! ## What a call does to the accounts -/

section Calls

variable {d : Deployment}

theorem upgraded_write_insertUser (w : UpgradedWorld π) (e : Env) (request : Pb.UserCreate)
    (type salt hash : Bytes) :
    let r := w.write e (.insertUser request.user request.email type salt hash)
    w.db.TakesUser request e.fault ∧ r.1 = .done ∧
        r.2.db.users.ids = w.db.users.ids ++ [w.db.users.seq + 1] ∨
      ¬ w.db.TakesUser request e.fault ∧ r.1 ≠ .done ∧ r.2.db.users = w.db.users := by
  intro r
  by_cases hfault : e.fault = none
  · have hr : r.1 = ((Write.insertUser request.user request.email type salt hash).apply e.now
          w.db).1 ∧ r.2.db = ((Write.insertUser request.user request.email type salt hash).apply
          e.now w.db).2 := by
      simp only [r, UpgradedWorld.write, hfault, Write.applyIn, and_self]
    rw [hr.1, hr.2]
    rcases (Write.insertUser request.user request.email type salt hash).apply_spec e.now w.db with
      ⟨hdone, hlogin, hemail, t, ht, hdb⟩ | ⟨hcode, hdb⟩
    · obtain ⟨hrows, hseq⟩ := AutoTable.rows_of_insert ht
      refine Or.inl ⟨⟨hfault, hlogin, hemail, hseq ▸ t.seq_le_bound⟩, hdone, ?_⟩
      rw [hdb, AutoTable.ids, hrows, List.map_append]
      rfl
    · refine Or.inr ⟨?_, hcode, congrArg _ hdb⟩
      rintro ⟨-, hlogin, hemail, hbound⟩
      apply hcode
      simp only [Write.apply, Write.insertInto, hlogin, hemail, not_false_eq_true, and_self,
        if_true, AutoTable.insert, hbound, dite_true]
  · obtain ⟨err, herr⟩ := Option.ne_none_iff_exists'.mp hfault
    have hr : r = (.error err, w) := by
      simp only [r, UpgradedWorld.write, herr]
    rw [hr]
    refine Or.inr ⟨fun htakes ↦ hfault htakes.1, ?_, rfl⟩
    rintro ⟨⟩

theorem userCreate_of_not_accepted {request : Pb.UserCreate} (h : ¬ request.Accepted d) :
    ∃ outcome, Service.userCreate d request = done outcome := by
  by_cases henabled : (!d.isRegisterEnabled) = true
  · exact ⟨_, if_pos henabled⟩
  rw [Service.userCreate, if_neg henabled]
  by_cases hlength : 64 < request.user.length
  · exact ⟨_, if_pos hlength⟩
  rw [if_neg hlength]
  cases hpassword : Service.userCheckPassword d request.password with
  | some msg => exact ⟨_, rfl⟩
  | none =>
    dsimp only
    by_cases hlogin : (!Service.loginMatch request.user) = true
    · exact ⟨_, if_pos hlogin⟩
    rw [if_neg hlogin]
    by_cases hemail : (!Service.emailMatch request.email) = true
    · exact ⟨_, if_pos hemail⟩
    refine absurd ⟨?_, not_lt.mp hlength, hpassword, ?_, ?_⟩ h
    · simpa using henabled
    · simpa using hlogin
    · simpa using hemail

theorem upgraded_userCreate (request : Pb.UserCreate) (env : ℕ → Env) (w : UpgradedWorld π) :
    let v := ((upgraded (Service.userCreate d request)).run env w).2
    let registers := request.Accepted d ∧ (env 0).rndFails = false ∧
      w.db.TakesUser request (env 1).fault
    registers ∧ v.db.users.ids = w.db.users.ids ++ [w.db.users.seq + 1] ∨
      ¬ registers ∧ v.db.users = w.db.users := by
  intro v registers
  by_cases haccepted : request.Accepted d
  · obtain ⟨henabled, hlength, hpassword, hlogin, hemail⟩ := id haccepted
    have hlength' : ¬ 64 < request.user.length := not_lt.mpr hlength
    simp only [v, Service.userCreate, henabled, hlength', hpassword, hlogin, hemail, Bool.not_true,
      Bool.false_eq_true, if_false, issue, call_bind, upgraded, translate_call, run_call]
    by_cases hrnd : (env 0).rndFails = true
    · have hexec : Interp.exec (UpgradedOp.mk (.gnutlsRnd 16)) (env 0) w = (none, w) :=
        Prod.ext (if_pos hrnd) rfl
      rw [hexec]
      refine Or.inr ⟨fun hreg ↦ ?_, rfl⟩
      rw [hreg.2.1] at hrnd
      cases hrnd
    · obtain ⟨salt, hexec⟩ : ∃ salt, Interp.exec (UpgradedOp.mk (.gnutlsRnd 16)) (env 0) w =
          (some salt, w) := ⟨_, Prod.ext (if_neg hrnd) rfl⟩
      have hregisters : registers ↔ w.db.TakesUser request (env 1).fault :=
        ⟨fun h ↦ h.2.2, fun h ↦ ⟨haccepted, Bool.eq_false_of_not_eq_true hrnd, h⟩⟩
      rw [hexec, hregisters]
      simp only [translate_call, run_call, done_bind, upgraded_exec_write, Nat.zero_add]
      have hwrite := upgraded_write_insertUser w (env 1) request (text "SHA3-512")
        (d.base16Encode salt) (d.base16Encode (d.sha3_512 (salt ++ request.password)))
      generalize w.write (env 1) _ = r at hwrite ⊢
      obtain ⟨rc, u⟩ := r
      -- whatever the code is, nothing else happens
      cases rc with
      | done | constraint | error =>
        exact hwrite.imp (fun h ↦ ⟨h.1, h.2.2⟩) fun h ↦ ⟨h.1, h.2.2⟩
  · obtain ⟨outcome, hdone⟩ := userCreate_of_not_accepted haccepted
    refine Or.inr ⟨fun hreg ↦ haccepted hreg.1, ?_⟩
    simp only [v, hdone]
    rfl

theorem upgraded_exec_users {β : Type} (op : Op β) (e : Env) (w : UpgradedWorld π) :
    let v := (Interp.exec (UpgradedOp.mk (π := π) op) e w).2
    v.users1 = w.users1 ∧ v.clauses = w.clauses ∧
      v.db.users = (Interp.exec op e w.toWorld).2.db.users := by
  cases op with
  | write s =>
    rw [upgraded_exec_write, exec_write, UpgradedWorld.write, World.write]
    cases e.fault with
    | some err => exact ⟨rfl, rfl, rfl⟩
    | none => exact ⟨rfl, rfl, s.applyIn_users_eq _ _ _⟩
  | _ => exact ⟨rfl, rfl, rfl⟩

theorem exec_login_unique {β : Type} (op : Op β) (e : Env) {w : World}
    (h : UniqueColumn w.db.users.rows (·.2.login)) :
    UniqueColumn (Interp.exec op e w).2.db.users.rows (·.2.login) := by
  by_cases hop : Resource.table .users ∈ op.touches
  · cases op with
    | write s =>
      rw [exec_write]
      rcases World.write_spec s e w with ⟨-, -, heffect, -⟩ | ⟨-, hw⟩
      · cases s with
        | insertUser =>
          obtain ⟨hlogin, -, t, ht, hdb⟩ := heffect
          rw [hdb]
          dsimp only
          rw [(AutoTable.rows_of_insert ht).1]
          exact h.append_singleton hlogin
        | _ => simp at hop
      · rwa [hw]
    | _ => simp at hop
  · have hsame : (Interp.exec op e w).2.db.users = w.db.users := Op.exec_same hop e w
    rwa [hsame]

/-- `v` has the accounts of `w`, possibly with new ones, and the same old accounts and clauses. -/
structure UpgradedWorld.Extends (w v : UpgradedWorld π) : Prop where
  users1 : v.users1 = w.users1
  clauses : v.clauses = w.clauses
  users : w.db.users.rows ⊆ v.db.users.rows
  login_unique : UniqueColumn w.db.users.rows (·.2.login) →
    UniqueColumn v.db.users.rows (·.2.login)

theorem UpgradedWorld.Extends.refl (w : UpgradedWorld π) : w.Extends w :=
  ⟨rfl, rfl, List.Subset.refl _, id⟩

theorem UpgradedWorld.Extends.trans {u v w : UpgradedWorld π} (h : u.Extends v)
    (h' : v.Extends w) : u.Extends w :=
  ⟨h'.users1.trans h.users1, h'.clauses.trans h.clauses, List.Subset.trans h.users h'.users,
    h'.login_unique ∘ h.login_unique⟩

theorem upgraded_exec_extends {β : Type} (o : UpgradedOp π β) (e : Env) (w : UpgradedWorld π) :
    w.Extends (Interp.exec o e w).2 := by
  obtain ⟨op⟩ := o
  obtain ⟨husers1, hclauses, husers⟩ := upgraded_exec_users op e w
  refine ⟨husers1, hclauses, ?_, fun h ↦ ?_⟩
  · rw [husers]
    obtain ⟨new, hrows, -⟩ := exec_keepsUsers op e w.toWorld
    rw [hrows]
    exact List.subset_append_left _ _
  · rw [husers]
    exact exec_login_unique op e h

theorem UpgradedWorld.serve_extends (w : UpgradedWorld π) (c : RpcCall) :
    w.Extends (w.serve d c).2 :=
  (within_true _).run_rel (R := UpgradedWorld.Extends) .refl .trans
    (fun o _ ↦ upgraded_exec_extends o) c.env w

/-- **What a call does to the accounts.** It registers a user, or it leaves them alone. -/
theorem UpgradedWorld.serve_users (w : UpgradedWorld π) (c : RpcCall) :
    c.Registers d w.db ∧ (w.serve d c).2.db.users.ids = w.db.users.ids ++ [w.db.users.seq + 1] ∨
      ¬ c.Registers d w.db ∧ (w.serve d c).2.db.users = w.db.users := by
  obtain ⟨thread, rpc, env⟩ := c
  by_cases hrpc : ∃ request, rpc = .userCreate request
  · obtain ⟨request, rfl⟩ := hrpc
    have hworld : (w.serve d ⟨thread, .userCreate request, env⟩).2 =
        ((upgraded (Service.userCreate d request)).run env w).2 := by
      obtain ⟨n, hn⟩ := exists_run_bind (upgraded (Service.userCreate d request)) env w
      rw [UpgradedWorld.serve, upgraded, dispatch, answer, translate_bind]
      exact congrArg Prod.snd (hn _)
    rw [hworld]
    rcases upgraded_userCreate request env w with ⟨hreg, hids⟩ | ⟨hno, husers⟩
    · exact Or.inl ⟨⟨request, rfl, hreg⟩, hids⟩
    · refine Or.inr ⟨?_, husers⟩
      rintro ⟨_, ⟨⟩, hreg⟩
      exact hno hreg
  · have hno : ¬ RpcCall.Registers d w.db ⟨thread, rpc, env⟩ := by
      rintro ⟨request, heq, -⟩
      exact hrpc ⟨request, heq⟩
    refine Or.inr ⟨hno, ?_⟩
    have hfootprint : Resource.table .users ∉ rpc.footprint := by
      cases rpc with
      | userCreate request => exact absurd ⟨request, rfl⟩ hrpc
      | _ => simp
    have hwithin : (upgraded (dispatch d thread rpc)).Within
        (fun o : UpgradedOp π _ ↦ Resource.table .users ∉ o.op.touches) _ :=
      (dispatch_within rpc).translate fun op hop hmem ↦ hfootprint (hop.1 hmem)
    refine hwithin.run_rel (R := fun u v : UpgradedWorld π ↦ v.db.users = u.db.users)
      (fun _ ↦ rfl) (fun h h' ↦ h'.trans h) (fun o ho e u ↦ ?_) env w
    exact (upgraded_exec_users o.op e u).2.2.trans (Op.exec_same ho e u.toWorld)

/-! ## Using an account -/

theorem UpgradedWorld.not_canUse {w : UpgradedWorld π}
    (hclauses : ∀ column, w.clauses column = .users1) {userId : ℤ} (hold : userId ∉ w.users1.ids) :
    ¬ w.CanUse userId := by
  intro h
  -- a token nobody has
  obtain ⟨token, htoken⟩ := Infinite.exists_notMem_finset
    (w.db.usersAuths.rows.map (·.token)).toFinset
  have hfresh : (token, userId) ∉ w.db.usersAuths.rows.map UserAuth.key := by
    intro hmem
    obtain ⟨r, hr, hkey⟩ := List.mem_map.mp hmem
    exact htoken (List.mem_toFinset.mpr (List.mem_map.mpr ⟨r, hr, congrArg Prod.fst hkey⟩))
  have hparents : userId ∉ w.parents .usersAuths := by
    rw [UpgradedWorld.parents, hclauses]
    exact hold
  have hdone := h.token 0 token 0 hfresh
  exact hparents ((Write.insertInto_done_iff (by decide)).mp hdone).1

theorem UpgradedWorld.noPassword {v1 : DatabaseV1 π} {w : UpgradedWorld π}
    (hlogin : UniqueColumn w.db.users.rows (·.2.login))
    (hcopied : (v1.users.rows.map fun r ↦ (r.1, r.2.copied)) ⊆ w.db.users.rows) :
    w.NoPassword v1 := by
  rintro d request env ⟨r, hr, hname⟩
  have hmem := hcopied (List.mem_map_of_mem hr)
  have hrow : ((Query.builtinAuth request.user).rows (env 0).pick w.db).head? =
      some (text "NEW-PASS", [], []) := by
    rw [Query.rows, List.head?_map, hlogin.head?_filter.mpr ⟨hmem, hname⟩]
    rfl
  have hrun : ((upgraded (Service.builtinAuth d request)).run env w).1 =
      .error (some (text "unsupported hash type: " ++ text "NEW-PASS" ++ text " for user "
        ++ request.user)) := by
    simp only [Service.builtinAuth, fetch, issue, call_bind, upgraded, translate_call, run_call,
      upgraded_exec_query, done_bind, pure_bind, hrow]
    rw [if_neg (by decide)]
    rfl
  exact ⟨_, hrun⟩

/-- **One run.** Whoever registers cannot use the account, so all accounts can be used exactly when
nobody registers. -/
theorem usable_reached_iff {v1 : DatabaseV1 π} {w : UpgradedWorld π}
    (husers1 : w.users1 = v1.users) (hclauses : ∀ column, w.clauses column = .users1)
    (hids : w.db.users.ids = v1.users.ids) (calls : List RpcCall) :
    (∀ v ∈ UpgradedWorld.reached d calls w, v.Usable v1) ↔ NobodyRegisters d calls w := by
  have hstart : w.Usable v1 := fun userId hnew hold ↦ absurd (hids ▸ hnew) hold
  induction calls generalizing w with
  | nil => exact iff_of_true (fun v hv ↦ List.mem_singleton.mp hv ▸ hstart) trivial
  | cons c calls ih =>
    have hextends := w.serve_extends (d := d) c
    have husers1' : (w.serve d c).2.users1 = v1.users := hextends.users1.trans husers1
    have hclauses' : ∀ column, (w.serve d c).2.clauses column = .users1 := fun column ↦
      (congrFun hextends.clauses column).trans (hclauses column)
    rcases w.serve_users (d := d) c with ⟨hreg, hnew⟩ | ⟨hno, husers⟩
    · -- the new number is that of nobody in the old table
      have hold : w.db.users.seq + 1 ∉ v1.users.ids := hids ▸ AutoTable.seq_succ_notMem_ids
      refine iff_of_false (fun hall ↦ ?_) fun hnobody ↦ hnobody.1 hreg
      have hafter : (w.serve d c).2 ∈ UpgradedWorld.reached d (c :: calls) w := by
        cases calls with
        | nil => exact List.mem_cons_of_mem _ (List.mem_singleton_self _)
        | cons => exact List.mem_cons_of_mem _ List.mem_cons_self
      refine UpgradedWorld.not_canUse hclauses' (husers1' ▸ hold) (hall _ hafter _ ?_ hold)
      rw [hnew]
      exact List.mem_append_right _ (List.mem_singleton_self _)
    · have hids' : (w.serve d c).2.db.users.ids = v1.users.ids := husers ▸ hids
      have hrest := ih husers1' hclauses' hids' fun userId hnew hold ↦ absurd (hids' ▸ hnew) hold
      constructor
      · exact fun hall ↦ ⟨hno, hrest.mp fun v hv ↦ hall v (List.mem_cons_of_mem _ hv)⟩
      · rintro ⟨-, hnobody⟩ v hv
        rcases List.mem_cons.mp hv with rfl | hv
        · exact hstart
        · exact hrest.mpr hnobody v hv

theorem noPassword_reached {v1 : DatabaseV1 π} {w : UpgradedWorld π}
    (hlogin : UniqueColumn w.db.users.rows (·.2.login))
    (hcopied : (v1.users.rows.map fun r ↦ (r.1, r.2.copied)) ⊆ w.db.users.rows)
    (calls : List RpcCall) : ∀ v ∈ UpgradedWorld.reached d calls w, v.NoPassword v1 := by
  induction calls generalizing w with
  | nil =>
    intro v hv
    rw [List.mem_singleton.mp hv]
    exact UpgradedWorld.noPassword hlogin hcopied
  | cons c calls ih =>
    intro v hv
    have hextends := w.serve_extends (d := d) c
    rcases List.mem_cons.mp hv with rfl | hv
    · exact UpgradedWorld.noPassword hlogin hcopied
    · exact ih (hextends.login_unique hlogin) (List.Subset.trans hcopied hextends.users) v hv

end Calls

/-! ## The upgrade -/

theorem Upgraded.keeps {v1 : DatabaseV1 π} (h : v1.Valid) {u : Upgraded π}
    (hdb : u.db = { v1 with users := u.db.users })
    (hrows : u.db.users.rows = v1.users.rows.map fun r ↦ (r.1, r.2.copied)) : u.Keeps v1 := by
  have hids : v1.users.ids ⊆ u.db.users.ids := by
    rw [AutoTable.ids, AutoTable.ids, hrows, List.map_map]
    exact List.Subset.refl _
  refine ⟨?_, ?_, ?_, ?_, ?_⟩
  · rw [hrows, List.map_map]
    rfl
  · rw [hdb]
    exact ⟨rfl, h.usersSshKeys_user.mono hids⟩
  · rw [hdb]
    exact ⟨rfl, h.usersAuths_user.mono hids⟩
  · rw [hdb]
    exact ⟨rfl, h.groupsUsers_user.mono hids⟩
  · rw [hdb]
    exact ⟨rfl, h.reposUsers_user.mono hids⟩

/-- **When the upgrade keeps the accounts usable.** The script succeeds, it keeps the accounts and
what belongs to them, and their passwords let nobody in; and in a run of the server everybody who
has registered can use the account exactly when nobody registers. -/
theorem usable_iff_nobodyRegisters {v1 : DatabaseV1 π} (h : v1.Valid) (d : Deployment) (w : World)
    (calls : List RpcCall) :
    ∃ u, v1.migrate = some u ∧
      ((u.Keeps v1 ∧ ∀ v ∈ UpgradedWorld.reached d calls (u.start w),
          v.NoPassword v1 ∧ v.Usable v1) ↔
        NobodyRegisters d calls (u.start w)) := by
  obtain ⟨u, hmigrate, husers1, hclauses, hdb, hrows⟩ := migrate_spec h
  have hids : u.db.users.ids = v1.users.ids := by
    rw [AutoTable.ids, AutoTable.ids, hrows, List.map_map]
    rfl
  have hlogin : UniqueColumn u.db.users.rows (·.2.login) := by
    rw [UniqueColumn, hrows, List.map_map]
    exact h.login_unique
  have hcopied : (v1.users.rows.map fun r ↦ (r.1, r.2.copied)) ⊆ u.db.users.rows := by
    rw [hrows]
    exact List.Subset.refl _
  have hpassword := noPassword_reached (d := d) (w := u.start w) hlogin hcopied calls
  have husable := usable_reached_iff (d := d) (w := u.start w) husers1 hclauses hids calls
  refine ⟨u, hmigrate, fun hall ↦ husable.mp fun v hv ↦ (hall.2 v hv).2, fun hnobody ↦ ?_⟩
  exact ⟨Upgraded.keeps h hdb hrows, fun v hv ↦ ⟨hpassword v hv, husable.mpr hnobody v hv⟩⟩

/-- A database of version 1 with one user. -/
def DatabaseV1.oneUser : DatabaseV1 Unit where
  users :=
    { rows := [(1, ⟨text "u", text "u@h", 2, ()⟩)]
      seq := 1
      nodup_ids := by decide
      id_pos := by decide
      id_le_seq := by decide
      seq_nonneg := by decide
      seq_le_bound := by decide }
  usersSshKeys := .empty maxRowid_nonneg
  usersAuths := .empty
  groups := .empty maxRowid_nonneg
  groupsUsers := .empty
  repos := .empty maxRowid_nonneg
  reposGroups := .empty
  reposUsers := .empty

theorem DatabaseV1.oneUser_valid : DatabaseV1.oneUser.Valid where
  login_unique := List.nodup_singleton _
  email_unique := List.nodup_singleton _
  usersSshKeys_user := .nil
  usersAuths_user := .nil
  groupsUsers_user := .nil
  reposUsers_user := .nil

/-- The database after the upgrade. -/
def oneUserUpgraded : Upgraded Unit := DatabaseV1.oneUser.migrate.get (by decide)

/-- A call of a user whom an external program has authenticated. -/
def authenticated (user : Bytes) : RpcCall where
  thread := some {}
  rpc := .userAuth { user, password := [] }
  env _ := { exitStatus := some 0 }

/-- The old user logs in. -/
theorem usable_oldUser :
    ∃ u, DatabaseV1.oneUser.migrate = some u ∧ u.Keeps .oneUser ∧
      ∀ v ∈ UpgradedWorld.reached .plain [authenticated (text "u")] (u.start .initial),
        v.NoPassword .oneUser ∧ v.Usable .oneUser := by
  obtain ⟨u, hmigrate, hiff⟩ := usable_iff_nobodyRegisters DatabaseV1.oneUser_valid .plain .initial
    [authenticated (text "u")]
  refine ⟨u, hmigrate, hiff.mpr ⟨?_, trivial⟩⟩
  rintro ⟨request, hrpc, -⟩
  cases hrpc

/-- A new user registers, and cannot log in. -/
theorem not_usable_newUser :
    let request : Pb.UserCreate :=
      { user := text "v", email := text "v@h", password := text "password" }
    let w := oneUserUpgraded.start .initial
    let registered := w.serve .plain ⟨none, .userCreate request, fun _ ↦ {}⟩
    DatabaseV1.oneUser.migrate = some oneUserUpgraded ∧
      registered.1.outcome.status = some .kSucceed ∧
      (w.serve .plain (authenticated (text "u"))).1.outcome.status = some .kSucceed ∧
      (registered.2.serve .plain (authenticated (text "v"))).1.outcome.status = some .kFailed ∧
      ¬ registered.2.Usable .oneUser := by
  intro request w registered
  have hids : registered.2.db.users.ids = [1, 2] := by decide +kernel
  have hclauses : ∀ column, registered.2.clauses column = .users1 := by
    intro column
    cases column <;> decide +kernel
  have husers1 : registered.2.users1.ids = [1] := by decide +kernel
  have hnot : ¬ registered.2.CanUse 2 := by
    apply UpgradedWorld.not_canUse hclauses
    rw [husers1]
    decide
  refine ⟨(Option.some_get _).symm, by decide +kernel, by decide +kernel, by decide +kernel, ?_⟩
  intro husable
  refine hnot (husable 2 ?_ (by decide))
  rw [hids]
  decide

end Scissy
