import Scissy.Security.Attribution
import Scissy.Security.AuthorizedKeys
import Scissy.Session.Registration

/-!
# What holds in every reachable state

The threads of a reachable system are in the middle of jobs that follow the rules
(`System.Lawful`), so an invariant of the world has to be kept by the operations the rules allow,
and by what happens besides: a start, a push, and the administrator (`Reachable.invariant`).

Two invariants follow. Whatever is stored has passed the checks of the request it came with
(`Reachable.wellFormed`). And the server stays in its directory: whatever the requests are, the only
paths it creates, opens or removes are named by a number in hexadecimal, right below the directory
of the repositories (`paths_contained`).

## What has to be shown

For the operations, `OpsKeep`: an operation that the rules allow keeps the invariant, where it may
be assumed that the invariant held whenever the job acted before. The two invariants here do not
need that, for the rules alone say enough about the rows that are inserted and the paths that are
named. For everything else, `RestKeeps`.

## Starts

The threads of a server that is started anew have done nothing, and the world is what the last
server has left. A job of the last one may have ended anywhere. So an invariant of reachable worlds
holds in the middle of every job.
-/

open Relational Interaction Interaction.Prog

namespace Scissy

open Repositories (getRepoPath)

/-! ## The rule for reachable worlds -/

/-- Every thread is in the middle of a job, and what the job has seen satisfies `J`. -/
def System.Lawful (d : Deployment) (J : World → Prop) (c : System) : Prop :=
  (c.world.db.Valid ∧ J c.world) ∧ ∀ k, ∃ (job : Job) (past : Past),
    (c.threads k).Obeys (fun w : World ↦ w.db.Valid)
      (fun past event ↦ job.Authorized d past event.op) anything past ∧
    ∀ event ∈ past, event.before.db.Valid ∧ J event.before

section Rule

variable {d : Deployment} {J : World → Prop}

/-- The operations the rules allow keep the invariant, if it held whenever the job acted before. -/
def OpsKeep (d : Deployment) (J : World → Prop) : Prop :=
  ∀ (job : Job) (past : Past) {β : Type} (op : Op β) (e : Env) (w : World), w.db.Valid → J w →
    job.Authorized d past op → (∀ event ∈ past, event.before.db.Valid ∧ J event.before) →
    J (Interp.exec op e w).2

/-- What happens besides the requests keeps the invariant. -/
structure RestKeeps (J : World → Prop) : Prop where
  start : ∀ w keys, J w → J { w with authKeys := keys }
  push : ∀ w path repo repo', w.repositories path = some repo → J w →
    J { w with repositories := Function.update w.repositories path (some repo') }
  setAdmin : ∀ w login, J w → J { w with db := setAdmin login w.db }

theorem System.Lawful.assign {c : System} (h : c.Lawful d J) (i : ℕ) (job : Job) :
    (c.assign i (job.program d)).Lawful d J := by
  refine ⟨h.1, fun k ↦ ?_⟩
  by_cases hk : k = i
  · subst hk
    refine ⟨job, [], ?_, List.forall_mem_nil _⟩
    have hthread : (c.assign k (job.program d)).threads k = job.program d :=
      Function.update_self _ _ _
    rw [hthread]
    exact job.obeys
  · have hthread : (c.assign i (job.program d)).threads k = c.threads k :=
      Function.update_of_ne hk _ _
    rw [hthread]
    exact h.2 k

theorem System.Lawful.op {c : System} (h : c.Lawful d J) (hops : OpsKeep d J) (i : ℕ) (e : Env) :
    System.Lawful d J (c.step i e) := by
  cases hi : c.threads i with
  | done response => rwa [Pool.step_of_done hi]
  | call op next =>
    obtain ⟨job, past, hobeys, hpast⟩ := h.2 i
    rw [hi] at hobeys
    obtain ⟨hallowed, hnext⟩ := hobeys c.world e h.1.1
    have hworld := Pool.step_world_of_call (e := e) hi
    refine ⟨?_, fun k ↦ ?_⟩
    · rw [hworld]
      exact ⟨exec_valid op e c.world h.1.1, hops job past op e c.world h.1.1 h.1.2 hallowed hpast⟩
    · by_cases hk : k = i
      · subst hk
        refine ⟨job, past ++ [.of op e c.world], ?_, ?_⟩
        · rw [Pool.step_threads_of_call hi]
          exact hnext
        · exact List.forall_mem_append.mpr ⟨hpast, List.forall_mem_singleton.mpr h.1⟩
      · rw [Pool.step_threads_of_ne hk]
        exact h.2 k

theorem System.Step.lawful {c c' : System} (hstep : Step d c c') (hops : OpsKeep d J)
    (hrest : RestKeeps J) (h : c.Lawful d J) : c'.Lawful d J := by
  cases hstep with
  | http i response request hi => exact h.assign i (.http request)
  | socket i response rpc hi => exact h.assign i (.socket rpc)
  | op i e => exact h.op hops i e
  | restart env =>
    have hstarted : ((genAuthorizedKeys d).run env c.world).2 =
        { c.world with authKeys := keyFile d c.world.db } := started_eq env c.world
    rw [hstarted]
    refine ⟨⟨h.1.1, hrest.start _ _ h.1.2⟩, fun k ↦ ⟨.http ⟨{}, false, .logout⟩, [], trivial, ?_⟩⟩
    exact List.forall_mem_nil _
  | push path repo repo' hpath => exact ⟨⟨h.1.1, hrest.push _ _ _ _ hpath h.1.2⟩, h.2⟩
  | setAdmin login => exact ⟨⟨valid_setAdmin login h.1.1, hrest.setAdmin _ _ h.1.2⟩, h.2⟩

theorem System.lawful_of_reachable {c : System}
    (h : Relation.ReflTransGen (System.Step d) (System.idle .initial) c) (hinit : J .initial)
    (hops : OpsKeep d J) (hrest : RestKeeps J) : c.Lawful d J := by
  induction h with
  | refl =>
    exact ⟨⟨Database.valid_initial, hinit⟩, fun _ ↦
      ⟨.http ⟨{}, false, .logout⟩, [], trivial, List.forall_mem_nil _⟩⟩
  | tail _ hstep ih => exact hstep.lawful hops hrest ih

/-- **The rule for reachable worlds.** -/
theorem Reachable.invariant {w : World} (h : Reachable d w) (hinit : J .initial)
    (hops : OpsKeep d J) (hrest : RestKeeps J) : J w := by
  obtain ⟨c, hc, rfl⟩ := h
  exact (System.lawful_of_reachable hc hinit hops hrest).1.2

theorem System.steps_run (c : System) (s : List (ℕ × Env)) :
    Relation.ReflTransGen (System.Step d) c (c.run s) := by
  induction s generalizing c with
  | nil => exact .refl
  | cons p s ih => exact .head (System.Step.op c p.1 p.2) (ih _)

theorem System.steps_serve (request : HttpRequest) (s : List (ℕ × Env)) :
    Relation.ReflTransGen (System.Step d) (System.idle .initial)
      (((System.idle .initial).assign 0 (serve d request)).run s) :=
  .head (System.Step.http _ 0 _ request rfl) (System.steps_run _ s)

end Rule

/-! ## What is stored -/

/-- The account of a registration: salted and hashed, and an ordinary one unless the administrator
has made it an owner. -/
def User.Registered (d : Deployment) (user : User) : Prop :=
  ∃ (request : Pb.UserCreate) (salt : Bytes), request.Admissible d ∧ salt.length = 16 ∧
    (user.login, user.email, user.passwordType, user.passwordSalt, user.passwordHash) =
      (request.user, request.email, text "SHA3-512", d.base16Encode salt,
        d.base16Encode (d.sha3_512 (salt ++ request.password))) ∧
    (user.roleId = 2 ∨ user.roleId = Pb.Role.kOwner.toInt)

/-- What is stored has passed the checks of the request it came with. -/
structure Database.WellFormed (d : Deployment) (db : Database) : Prop where
  users : ∀ row ∈ db.users.rows, row.2.Registered d
  tokens : ∀ row ∈ db.usersAuths.rows, ∃ drawn : Bytes,
    drawn.length = 32 ∧ row.token = d.base16Encode drawn
  sshKeys : ∀ row ∈ db.usersSshKeys.rows, ∃ type : Pb.SshKeyType, row.2.keyType = type.toInt

section WellFormed

variable {d : Deployment} {job : Job} {past : Past}

theorem Job.asked_insertUser {login email type salt hash : Bytes}
    (h : job.Authorized d past (.write (.insertUser login email type salt hash))) :
    ∃ (request : Pb.UserCreate) (drawn : Bytes), request.Admissible d ∧
      past.Got (.gnutlsRnd 16) (some drawn) ∧ (login, email, type, salt, hash) =
        (request.user, request.email, text "SHA3-512", d.base16Encode drawn,
          d.base16Encode (d.sha3_512 (drawn ++ request.password))) := by
  rcases authorized_write h with ⟨rpc, -, hopen⟩ |
    ⟨request, session, rfl, -, ⟨rpc, -, hpermitted⟩ | ⟨-, hlogout⟩⟩
  · cases rpc with
    | userCreate request =>
      obtain ⟨hadmissible, drawn, hdrew, hcols⟩ := hopen
      exact ⟨request, drawn, hadmissible, hdrew, hcols⟩
    | _ => exact hopen.elim
  · cases rpc <;> exact hpermitted.elim
  · cases hlogout

theorem mem_users_setAdmin {login : Bytes} {db : Database} {row : ℤ × User}
    (h : row ∈ (setAdmin login db).users.rows) : row ∈ db.users.rows ∨
      ∃ user, (row.1, user) ∈ db.users.rows ∧ row.2 = { user with roleId := 3 } := by
  rw [setAdmin] at h
  split at h
  · exact Or.inl h
  · rw [AutoTable.modify_rows] at h
    obtain ⟨r, hr, rfl⟩ := List.mem_map.mp h
    rw [AutoTable.modifyRow]
    split_ifs
    · exact Or.inr ⟨r.2, hr, rfl⟩
    · exact Or.inl hr

theorem wellFormed_opsKeep (d : Deployment) : OpsKeep d (·.db.WellFormed d) := by
  intro job past β op e w _ h hallowed _
  cases op with
  | write stmt =>
    rw [exec_write]
    rcases World.write_spec stmt e w with ⟨-, -, heffect, -⟩ | ⟨-, hsame⟩
    swap
    · rwa [hsame]
    refine ⟨fun row hrow ↦ ?_, fun row hrow ↦ ?_, fun row hrow ↦ ?_⟩
    · by_cases hold : row ∈ w.db.users.rows
      · exact h.users row hold
      · obtain ⟨rfl, hrole⟩ := heffect.user_inserted hold hrow
        obtain ⟨request, drawn, hadmissible, hdrew, hcols⟩ := Job.asked_insertUser hallowed
        exact ⟨request, drawn, hadmissible, hdrew.length_of_drawn, hcols, Or.inl hrole⟩
    · by_cases hold : row ∈ w.db.usersAuths.rows
      · exact h.tokens row hold
      · obtain rfl := heffect.token_inserted hold hrow
        obtain ⟨request, -, -, id, drawn, hdrew, -, hcols⟩ := Job.asked_insertUserAuth hallowed
        exact ⟨drawn, hdrew.length_of_drawn, (Prod.mk.inj hcols).2⟩
    · by_cases hold : row ∈ w.db.usersSshKeys.rows
      · exact h.sshKeys row hold
      · obtain rfl := heffect.sshKey_inserted hold hrow
        obtain ⟨request, session, add, -, -, -, hcols⟩ := Job.asked_insertUserSshKey hallowed
        exact ⟨add.key.type, (Prod.mk.inj (Prod.mk.inj hcols).2).1⟩
  | gitRepositoryInit path =>
    rw [exec_gitRepositoryInit_db]
    exact h
  | _ => exact h

theorem wellFormed_restKeeps (d : Deployment) : RestKeeps (·.db.WellFormed d) where
  start _ _ h := h
  push _ _ _ _ _ h := h
  setAdmin w login h := by
    refine ⟨fun row hrow ↦ ?_, ?_, ?_⟩
    · rcases mem_users_setAdmin hrow with hold | ⟨user, hold, hrow⟩
      · exact h.users row hold
      · obtain ⟨request, salt, hadmissible, hlength, hcols, -⟩ := h.users _ hold
        rw [hrow]
        exact ⟨request, salt, hadmissible, hlength, hcols, Or.inr rfl⟩
    all_goals
      dsimp only
      rw [setAdmin]
      split
    · exact h.tokens
    · exact h.tokens
    · exact h.sshKeys
    · exact h.sshKeys

/-- **What is stored is well formed.** In every reachable world, whatever the requests were and
however they were interleaved, every account comes from a request for registration that passes all
the checks, with a salt of 16 drawn bytes and the hash of its password; every token is the code of
32 drawn bytes; and every key has a type of the protocol. With the built-in authenticator, there is
a password of 5 to 32 bytes for every account. -/
theorem Reachable.wellFormed {w : World} (h : Reachable d w) :
    w.db.WellFormed d ∧ (Function.LeftInverse d.base16Decode d.base16Encode →
      ∀ row ∈ w.db.users.rows, ∃ password : Bytes, 5 ≤ password.length ∧ password.length ≤ 32 ∧
        ∀ env, ((Service.builtinAuth d { user := row.2.login, password }).run env w).1 =
          .ok ()) := by
  have hwf : w.db.WellFormed d := h.invariant
    ⟨List.forall_mem_nil _, List.forall_mem_nil _, List.forall_mem_nil _⟩ (wellFormed_opsKeep d)
    (wellFormed_restKeeps d)
  refine ⟨hwf, fun hcodec row hrow ↦ ?_⟩
  obtain ⟨request, salt, hadmissible, -, hcols, -⟩ := hwf.users row hrow
  simp only [Prod.mk.injEq] at hcols
  obtain ⟨-, -, htype, hsalt, hhash⟩ := hcols
  have hlength : 5 ≤ request.password.length ∧ request.password.length ≤ 32 := by
    have hpassword := hadmissible.password
    rw [Service.userCheckPassword] at hpassword
    split_ifs at hpassword <;> omega
  refine ⟨request.password, hlength.1, hlength.2, fun env ↦ ?_⟩
  refine (builtinAuth_ok_iff h.valid hrow request.password env).mpr ⟨htype, ?_⟩
  rw [hsalt, hhash, hcodec, hcodec]

end WellFormed

theorem Reachable.wellFormed_registers :
    let c := (System.idle .initial).assign 0 (serve .builtin .registers)
    let w := Pool.world (c.run (List.replicate 9 (0, {})))
    w.db.WellFormed .builtin ∧
      ∀ row ∈ w.db.users.rows, ∃ password : Bytes, 5 ≤ password.length ∧ password.length ≤ 32 ∧
        ∀ env, ((Service.builtinAuth .builtin { user := row.2.login, password }).run env w).1 =
          .ok () := by
  intro c w
  have hreachable : Reachable .builtin w := ⟨_, System.steps_serve .registers _, rfl⟩
  exact ⟨hreachable.wellFormed.1, hreachable.wellFormed.2 base16_builtin⟩

/-! ## Where the server works -/

/-- A name of hexadecimal digits right below the directory of the repositories. -/
def InRepos (d : Deployment) (path : Bytes) : Prop :=
  ∃ name : Bytes, path = d.repos ++ text "/" ++ name ∧ name ≠ [] ∧ ∀ c ∈ name, Numeral.IsDigit c

/-- The paths an operation works on. -/
def Op.paths : {β : Type} → Op β → List Bytes
  | _, gitRepositoryInit path | _, gitOpen path | _, rm path => [path]
  | _, _ => []

section Paths

variable {d : Deployment}

theorem inRepos_getRepoPath (d : Deployment) (repoId : ℤ) : InRepos d (getRepoPath d repoId) :=
  ⟨_, rfl, Numeral.numeral_ne_nil _, fun _ hc ↦
    Numeral.isDigit_of_mem_numeral (by decide) (by decide) hc⟩

theorem Op.paths_of_free {β : Type} {op : Op β} (h : op.free = true) : op.paths = [] := by
  cases op <;> first | rfl | cases h

theorem Op.LogsOut.paths {β : Type} {op : Op β} {session : Session} (h : op.LogsOut session) :
    op.paths = [] := by
  cases op <;> first | rfl | exact h.elim

theorem Job.inRepos_of_authorized {job : Job} {past : Past} {β : Type} {op : Op β}
    (h : job.Authorized d past op) {path : Bytes} (hpath : path ∈ op.paths) :
    InRepos d path := by
  have hcall {thread : Option Session} {rpc : Rpc} (h : op.Authorized d thread past rpc) :
      InRepos d path := by
    cases op with
    | gitRepositoryInit _ =>
      obtain ⟨_, repoId, -, -, rfl⟩ := h
      exact List.mem_singleton.mp hpath ▸ inRepos_getRepoPath d repoId
    | gitOpen _ =>
      obtain ⟨repoId, rfl, -⟩ := h
      exact List.mem_singleton.mp hpath ▸ inRepos_getRepoPath d repoId
    | rm _ =>
      obtain ⟨_, _, repoId, -, -, -, rfl⟩ := h
      exact List.mem_singleton.mp hpath ▸ inRepos_getRepoPath d repoId
    | _ => cases hpath
  cases job with
  | socket rpc => exact hcall h
  | http request =>
    obtain ⟨cookies, isSsl, target⟩ := request
    rcases h with hfree | ⟨session, -, h⟩
    · rw [Op.paths_of_free hfree] at hpath
      cases hpath
    · cases target with
      | api rpc => exact hcall h
      | logout =>
        rw [Op.LogsOut.paths h] at hpath
        cases hpath
      | archive location =>
        obtain ⟨location, -, h⟩ := h
        cases op with
        | gitOpen _ =>
          obtain ⟨rfl, -⟩ := h
          exact List.mem_singleton.mp hpath ▸ inRepos_getRepoPath d location.repoId
        | gitRepositoryInit _ => exact h.elim
        | rm _ => exact h.elim
        | _ => cases hpath

/-- Every git repository of the world is one of the server's. -/
def World.Contained (d : Deployment) (w : World) : Prop :=
  ∀ path repo, w.repositories path = some repo → InRepos d path

theorem contained_opsKeep (d : Deployment) : OpsKeep d (World.Contained d) := by
  intro job past β op e w _ h hallowed _
  cases op with
  | write stmt =>
    rw [exec_write]
    rcases World.write_spec stmt e w with ⟨-, -, -, hrest⟩ | ⟨-, hsame⟩
    · rw [hrest]
      exact h
    · rwa [hsame]
  | gitRepositoryInit path =>
    change World.Contained d (Op.exec _ e w).2
    rw [Op.exec]
    split_ifs
    · exact h
    · intro p repo hrepo
      by_cases hp : p = path
      · exact hp ▸ Job.inRepos_of_authorized hallowed List.mem_cons_self
      · exact h p repo (by simpa only [if_neg hp] using hrepo)
  | rm path =>
    intro p repo hrepo
    change (if World.under path p then none else w.repositories p) = some repo at hrepo
    split_ifs at hrepo
    exact h p repo hrepo
  | _ => exact h

theorem contained_restKeeps (d : Deployment) : RestKeeps (World.Contained d) where
  start _ _ h := h
  push w path repo repo' hpath h := by
    intro p repo₁ hrepo
    by_cases hp : p = path
    · exact hp ▸ h path repo hpath
    · exact h p repo₁ (by simpa only [Function.update_of_ne hp] using hrepo)
  setAdmin _ _ h := h

/-- **The server stays in its directory.** Whatever the requests are and however they are
interleaved, every git repository there is has a path of hexadecimal digits right below the
directory of the repositories, and no thread ever creates, opens or removes anything else. -/
theorem paths_contained {c : System}
    (h : Relation.ReflTransGen (System.Step d) (System.idle .initial) c) :
    c.world.Contained d ∧ ∀ i {β : Type} (op : Op β) next, c.threads i = .call op next →
      ∀ path ∈ op.paths, InRepos d path := by
  have hlawful := System.lawful_of_reachable (J := World.Contained d) h
    (fun _ _ hnone ↦ by cases hnone) (contained_opsKeep d) (contained_restKeeps d)
  refine ⟨hlawful.1.2, fun i β op next hi path hpath ↦ ?_⟩
  obtain ⟨job, past, hobeys, -⟩ := hlawful.2 i
  rw [hi] at hobeys
  exact Job.inRepos_of_authorized (hobeys c.world {} hlawful.1.1).1 hpath

end Paths

theorem paths_contained_createsRepo :
    let c : System :=
      ((System.idle .initial).assign 0 (serve .plain .createsRepo)).run (List.replicate 4 (0, {}))
    c.world.Contained .plain ∧ ∀ i {β : Type} (op : Op β) next, c.threads i = .call op next →
      ∀ path ∈ op.paths, InRepos .plain path :=
  paths_contained (System.steps_serve .createsRepo _)

end Scissy
