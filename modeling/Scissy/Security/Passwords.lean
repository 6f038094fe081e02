import Mathlib.Data.List.Forall2
import Scissy.Interaction.Lockstep
import Scissy.Security.Attribution

/-!
# What the stored passwords tell

The columns that hold the passwords are read by the built-in authenticator only, and all it does
with them is to accept a login or to refuse it. So two servers that differ in the stored passwords,
but judge the attempts to log in the same, do the same in every run: nobody can tell them apart by
any answer, nor can the file of authorized keys or a repository (`passwords_hidden`).

## Judging the same

A password that is accepted on one server and refused on the other one tells them apart, and that
is what passwords are for. So the two have to agree on the attempts that are made, and on no others:
`SameUser` names the attempts that the jobs of the run make. With an external authenticator nobody
looks at the columns, and there is nothing to agree on.

## The difference in the tables

The two tables of users have the same rows but for three columns. `SameUsers` relates them row by
row, so a statement that selects by other columns selects corresponding rows, and what it shows of
them is the same. A registration adds the same row to both.
-/

open Interaction Interaction.Prog Relational

namespace Scissy

/-! ## Other passwords -/

/-- The operation shows how the password of a user is stored. -/
def Op.readsPassword : {β : Type} → Op β → Bool
  | _, query q => q.readsPassword
  | _, _ => false

/-- What the built-in authenticator says to an attempt to log in as a user with this password. -/
def Deployment.judges (d : Deployment) (request : Pb.UserAuth) :
    Bytes × Bytes × Bytes → Except (Option Bytes) Unit
  | (type, salt16, hash16) =>
    if type = text "SHA3-512" then
      if d.base16Decode hash16 ≠ d.sha3_512 (d.base16Decode salt16 ++ request.password) then
        .error (some (text "invalid password"))
      else .ok ()
    else
      .error (some (text "unsupported hash type: " ++ type ++ text " for user " ++ request.user))

/-- The columns that hold the password. -/
def User.password (user : User) : Bytes × Bytes × Bytes :=
  (user.passwordType, user.passwordSalt, user.passwordHash)

/-- The users have everything in common but their passwords, and those attempts to log in that are
made are judged the same. -/
structure SameUser (d : Deployment) (made : Pb.UserAuth → Prop) (r r' : ℤ × User) : Prop where
  id : r'.1 = r.1
  login : r'.2.login = r.2.login
  email : r'.2.email = r.2.email
  roleId : r'.2.roleId = r.2.roleId
  judged : ∀ request, made request → request.user = r.2.login →
    d.judges request r'.2.password = d.judges request r.2.password

/-- The tables differ in the passwords only. -/
structure SameUsers (d : Deployment) (made : Pb.UserAuth → Prop)
    (users users' : AutoTable User maxRowid) : Prop where
  seq : users'.seq = users.seq
  rows : List.Forall₂ (SameUser d made) users.rows users'.rows

def Database.withUsers (db : Database) (users : AutoTable User maxRowid) : Database :=
  { db with users }

def World.withUsers (w : World) (users : AutoTable User maxRowid) : World :=
  { w with db := w.db.withUsers users }

theorem Database.withUsers_users (db : Database) (users : AutoTable User maxRowid) :
    (db.withUsers users).users = users := rfl

theorem World.withUsers_db (w : World) (users : AutoTable User maxRowid) :
    (w.withUsers users).db = w.db.withUsers users := rfl

/-- The second world is the first one with other passwords. -/
def DiffersInPasswords (d : Deployment) (made : Pb.UserAuth → Prop) (w w' : World) : Prop :=
  ∃ users, SameUsers d made w.db.users users ∧ w' = w.withUsers users

namespace SameUsers

variable {d : Deployment} {made : Pb.UserAuth → Prop} {db : Database}
  {users users' : AutoTable User maxRowid}

theorem col_eq (h : SameUsers d made users users') {γ : Type} (col : ℤ × User → γ)
    (hcol : ∀ r r', SameUser d made r r' → col r' = col r) :
    users'.rows.map col = users.rows.map col :=
  map_eq_of_forall₂ h.rows hcol

theorem ids_eq (h : SameUsers d made users users') : users'.ids = users.ids :=
  h.col_eq _ fun _ _ hr ↦ hr.id

theorem join_left (h : SameUsers d made users users') {β : Type} (rows : List β)
    {on : ℤ × User → β → Bool} (hon : ∀ r r' b, SameUser d made r r' → on r' b = on r b) :
    List.Forall₂ (fun p p' ↦ SameUser d made p.1 p'.1 ∧ p.2 = p'.2) (join on users.rows rows)
      (join on users'.rows rows) := by
  refine forall₂_join h.rows (List.forall₂_same.mpr fun _ _ ↦ rfl) ?_
  rintro r r' b _ hr rfl
  exact hon r r' b hr

theorem join_right (h : SameUsers d made users users') {α γ : Type} (rows : List α) {id : α → ℤ}
    {f : α × ℤ × User → γ} (hf : ∀ a r r', SameUser d made r r' → f (a, r') = f (a, r)) :
    (join (fun a u ↦ decide (id a = u.1)) rows users'.rows).map f =
      (join (fun a u ↦ decide (id a = u.1)) rows users.rows).map f := by
  have hjoin : List.Forall₂ (fun p p' : α × ℤ × User ↦ p.1 = p'.1 ∧ SameUser d made p.2 p'.2)
      (join (fun a u ↦ decide (id a = u.1)) rows users.rows)
      (join (fun a u ↦ decide (id a = u.1)) rows users'.rows) := by
    refine forall₂_join (List.forall₂_same.mpr fun _ _ ↦ rfl) h.rows ?_
    rintro a _ r r' rfl hr
    rw [hr.id]
  refine map_eq_of_forall₂ hjoin ?_
  rintro ⟨a, r⟩ ⟨a', r'⟩ ⟨rfl, hr⟩
  exact hf a r r' hr

theorem query_eq (h : SameUsers d made db.users users) {β : Type} {q : Query β}
    (hq : q.readsPassword = false) (pick : ℕ) :
    q.rows pick (db.withUsers users) = q.rows pick db := by
  cases q with
  | builtinAuth => cases hq
  | userGetId login =>
    exact map_filter_eq_of_forall₂ h.rows (fun _ _ hr ↦ by rw [hr.login]) fun _ _ hr _ ↦ hr.id
  | userIsAdmin userId =>
    exact map_filter_eq_of_forall₂ h.rows (fun _ _ hr ↦ by rw [hr.id])
      fun _ _ hr _ ↦ by rw [hr.roleId]
  | sessionAuth login token =>
    refine map_filter_eq_of_forall₂ (h.join_left db.usersAuths.rows fun r r' a hr ↦ ?_) ?_ ?_
    · rw [hr.id]
    · rintro ⟨r, a⟩ ⟨r', a'⟩ ⟨hr, rfl⟩
      rw [hr.login]
    · rintro ⟨r, a⟩ ⟨r', a'⟩ ⟨hr, rfl⟩ -
      rw [hr.roleId, hr.id, hr.email]
  | groupListMembers grpId grp => exact h.join_right _ fun _ _ _ hr ↦ by rw [hr.login]
  | repoListUsers repoId =>
    exact congrArg (orderBy _) (h.join_right _ fun _ _ _ hr ↦ by rw [hr.login])
  | _ => rfl

theorem judges_eq (h : SameUsers d made db.users users) {request : Pb.UserAuth}
    (hmade : made request) (pick : ℕ) :
    ((Query.builtinAuth request.user).rows pick (db.withUsers users)).map (d.judges request) =
      ((Query.builtinAuth request.user).rows pick db).map (d.judges request) := by
  rw [Query.rows, Query.rows, List.map_map, List.map_map]
  refine map_filter_eq_of_forall₂ h.rows (fun r r' hr ↦ by rw [hr.login]) fun r r' hr hlogin ↦ ?_
  exact hr.judged request hmade (of_decide_eq_true hlogin).symm

theorem insert (h : SameUsers d made users users') (user : User) :
    (users.insert user = none ∧ users'.insert user = none) ∨
      ∃ t t', users.insert user = some t ∧ users'.insert user = some t' ∧
        SameUsers d made t t' := by
  by_cases hbound : users.seq + 1 ≤ maxRowid
  · obtain ⟨t, ht⟩ := AutoTable.exists_insert_iff.mpr hbound
    obtain ⟨t', ht'⟩ := AutoTable.exists_insert_iff.mpr (h.seq.symm ▸ hbound)
    obtain ⟨hrows, hseq⟩ := AutoTable.rows_of_insert ht
    obtain ⟨hrows', hseq'⟩ := AutoTable.rows_of_insert ht'
    refine Or.inr ⟨t, t', ht, ht', by rw [hseq', hseq, h.seq], ?_⟩
    rw [hrows, hrows', h.seq]
    refine List.rel_append h.rows (.cons ?_ .nil)
    exact ⟨rfl, rfl, rfl, rfl, fun _ _ _ ↦ rfl⟩
  · have hnone {t : AutoTable User maxRowid} (hseq : t.seq = users.seq) : t.insert user = none := by
      refine Option.eq_none_iff_forall_ne_some.mpr fun x hx ↦ hbound ?_
      exact hseq ▸ AutoTable.exists_insert_iff.mp ⟨x, hx⟩
    exact Or.inl ⟨hnone rfl, hnone h.seq⟩

theorem apply_eq (h : SameUsers d made db.users users) {s : Write} (hs : Table.users ∉ s.touches)
    (now : ℤ) : s.apply now (db.withUsers users) =
      ((s.apply now db).1, (s.apply now db).2.withUsers users) := by
  have hinsert {τ : Type} {allowed allowed' : Prop} [Decidable allowed] [Decidable allowed']
      (hallowed : allowed' ↔ allowed) (refused : ResultCode) (t : Option τ)
      {set set' : τ → Database} (hset : ∀ x, set' x = (set x).withUsers users) :
      Write.insertInto (db.withUsers users) allowed' refused t set' =
        ((Write.insertInto db allowed refused t set).1,
          (Write.insertInto db allowed refused t set).2.withUsers users) := by
    cases t with
    | none => rfl
    | some x =>
      rw [Write.insertInto, Write.insertInto]
      by_cases hyes : allowed
      · rw [if_pos hyes, if_pos (hallowed.mpr hyes)]
        exact congrArg (Prod.mk ResultCode.done) (hset x)
      · rw [if_neg hyes, if_neg (hyes ∘ hallowed.mp)]
  have huser (userId : ℤ) : userId ∈ (db.withUsers users).users.ids ↔ userId ∈ db.users.ids :=
    iff_of_eq (congrArg (userId ∈ ·) h.ids_eq)
  cases s with
  | insertUser => exact absurd (by simp) hs
  | insertUserAuth userId => exact hinsert (huser userId) _ _ fun _ ↦ rfl
  | insertUserSshKey userId => exact hinsert (and_congr_left' (huser userId)) _ _ fun _ ↦ rfl
  | insertGroupUser groupId userId | insertRepoUser groupId userId =>
    exact hinsert (and_congr_right' (and_congr_left' (huser userId))) _ _ fun _ ↦ rfl
  | insertGroup | insertRepo | insertRepoGroup => exact hinsert Iff.rfl _ _ fun _ ↦ rfl
  | updateRepo name desc isPublic repoId =>
    by_cases htaken : repoId ∈ db.repos.ids ∧ ∃ r ∈ db.repos.rows, r.1 ≠ repoId ∧ r.2.name = name
    · rw [Write.apply, Write.apply, if_pos htaken]
      exact if_pos htaken
    · rw [Write.apply, Write.apply, if_neg htaken]
      exact if_neg htaken
  | _ => rfl

theorem apply_insertUser (h : SameUsers d made db.users users)
    (login email type salt hash : Bytes) (now : ℤ) :
    ∃ users', SameUsers d made
        ((Write.insertUser login email type salt hash).apply now db).2.users users' ∧
      (Write.insertUser login email type salt hash).apply now (db.withUsers users) =
        (((Write.insertUser login email type salt hash).apply now db).1,
          ((Write.insertUser login email type salt hash).apply now db).2.withUsers users') := by
  have hcols : login ∉ (db.withUsers users).users.rows.map (·.2.login) ∧
      email ∉ (db.withUsers users).users.rows.map (·.2.email) ↔
      login ∉ db.users.rows.map (·.2.login) ∧ email ∉ db.users.rows.map (·.2.email) := by
    change login ∉ users.rows.map _ ∧ email ∉ users.rows.map _ ↔ _
    rw [h.col_eq (·.2.login) fun _ _ hr ↦ hr.login, h.col_eq (·.2.email) fun _ _ hr ↦ hr.email]
  simp only [Write.apply, Write.insertInto, Database.withUsers_users]
  rcases h.insert ⟨login, email, type, salt, hash, 2⟩ with ⟨ht, ht'⟩ | ⟨t, t', ht, ht', hsame⟩
  · rw [ht, ht']
    exact ⟨users, h, rfl⟩
  · rw [ht, ht']
    dsimp only
    by_cases hfree : login ∉ db.users.rows.map (·.2.login) ∧ email ∉ db.users.rows.map (·.2.email)
    · rw [if_pos hfree]
      exact ⟨t', hsame, if_pos (hcols.mpr hfree)⟩
    · rw [if_neg hfree]
      exact ⟨users, h, if_neg (hfree ∘ hcols.mp)⟩

end SameUsers

namespace DiffersInPasswords

variable {d : Deployment} {made : Pb.UserAuth → Prop} {w : World}
  {users : AutoTable User maxRowid}

theorem write (h : SameUsers d made w.db.users users) (s : Write) (e : Env) :
    ((w.withUsers users).write e s).1 = (w.write e s).1 ∧
      DiffersInPasswords d made (w.write e s).2 ((w.withUsers users).write e s).2 := by
  obtain ⟨users', hsame, happly⟩ : ∃ users',
      SameUsers d made (s.apply e.now w.db).2.users users' ∧
        s.apply e.now (w.db.withUsers users) =
          ((s.apply e.now w.db).1, (s.apply e.now w.db).2.withUsers users') := by
    by_cases hs : Table.users ∈ s.touches
    · cases s with
      | insertUser login email type salt hash =>
        exact h.apply_insertUser login email type salt hash e.now
      | _ => simp at hs
    · refine ⟨users, ?_, h.apply_eq hs e.now⟩
      have hkept : (s.apply e.now w.db).2.users = w.db.users := by
        rcases s.apply_spec e.now w.db with ⟨-, heffect⟩ | ⟨-, hsame⟩
        · exact heffect.same (t := .users) hs
        · rw [hsame]
      rwa [hkept]
  have hrowid : s.newRowid e.rowid (w.db.withUsers users) = s.newRowid e.rowid w.db := by
    cases s with
    | insertUser => exact congrArg (fun n ↦ some (n + 1)) h.seq
    | _ => rfl
  unfold World.write
  rw [World.withUsers_db, happly, hrowid]
  cases e.fault with
  | some err => exact ⟨rfl, users, h, rfl⟩
  | none => exact ⟨rfl, users', hsame, rfl⟩

theorem conceals {β : Type} {op : Op β} (hop : op.readsPassword = false) :
    Conceals (E := Env) (DiffersInPasswords d made) op := by
  rintro e w _ ⟨users, h, rfl⟩
  cases op with
  | query q => exact ⟨h.query_eq hop e.pick, users, h, rfl⟩
  | write s => exact write h s e
  | gitRepositoryInit path =>
    change (Op.exec _ e (w.withUsers users)).1 = (Op.exec _ e w).1 ∧
      DiffersInPasswords d made (Op.exec _ e w).2 (Op.exec _ e (w.withUsers users)).2
    rw [Op.exec, Op.exec]
    split_ifs <;> exact ⟨rfl, users, h, rfl⟩
  | _ => exact ⟨rfl, users, h, rfl⟩

end DiffersInPasswords

/-! ## The programs of the server -/

section Programs

variable {d : Deployment} {made : Pb.UserAuth → Prop} {request : Pb.UserAuth}

theorem Service.builtinAuth_eq (d : Deployment) (request : Pb.UserAuth) :
    Service.builtinAuth d request = (do
      let rows ← issue (.query (.builtinAuth request.user))
      return ((rows.map (d.judges request)).head?.getD
        (.error (some (text "user not found"))))) := by
  rw [builtinAuth, fetch, LawfulMonad.bind_assoc]
  refine congrArg (issue _ >>= ·) (funext fun rows ↦ ?_)
  cases rows with
  | nil => rfl
  | cons row rows =>
    obtain ⟨type, salt16, hash16⟩ := row
    change (if _ then if _ then _ else _ else _) = done (d.judges request (type, salt16, hash16))
    rw [Deployment.judges]
    split_ifs <;> rfl

theorem authenticate_blind (hmade : d.authenticator = .kAuthBuiltin → made request) :
    (Service.authenticate d request).Blind (DiffersInPasswords d made) := by
  rw [Service.authenticate]
  cases hmethod : d.authenticator with
  | kAuthBuiltin =>
    dsimp only
    rw [Service.builtinAuth_eq]
    rintro e w _ ⟨users, h, rfl⟩
    refine ⟨?_, ⟨users, h, rfl⟩, trivial⟩
    exact congrArg
      (fun verdicts ↦ done (verdicts.head?.getD (.error (some (text "user not found")))))
      (h.judges_eq (hmade hmethod) e.pick)
  | kAuthProcess =>
    refine Within.blind (P := fun op ↦ op.readsPassword = false) (V := fun _ ↦ True) ?_
      fun _ hop ↦ DiffersInPasswords.conceals hop
    refine within_step ⟨rfl, fun _ ↦ trivial⟩ fun status ↦ ?_
    cases status with
    | none => trivial
    | some status => dsimp only; split_ifs <;> trivial

theorem userAuth_blind {thread : Option Session}
    (hmade : d.authenticator = .kAuthBuiltin → made request) :
    (Service.userAuth d thread request).Blind (DiffersInPasswords d made) := by
  refine (authenticate_blind hmade).bind fun r ↦ ?_
  refine Within.blind (P := fun op ↦ op.readsPassword = false) (V := fun _ ↦ True) ?_
    fun _ hop ↦ DiffersInPasswords.conceals hop
  cases r with
  | error msg => trivial
  | ok =>
    refine within_step (fetch_within rfl) fun userId ↦ ?_
    cases userId with
    | none => trivial
    | some userId =>
      refine ⟨rfl, fun auth ↦ ?_⟩
      cases auth with
      | none => trivial
      | some auth =>
        refine ⟨rfl, fun start ↦ ⟨rfl, fun rc ↦ ?_⟩⟩
        change Within _ _ (if _ then _ else _)
        split_ifs
        · trivial
        · cases thread with
          | none => trivial
          | some session => exact ⟨rfl, fun _ ↦ trivial⟩

theorem sessionAuth_blind (cookies : Cookies) (isSsl : Bool) :
    (Session.auth cookies isSsl).Blind (DiffersInPasswords d made) := by
  refine Within.blind (P := fun op ↦ op.readsPassword = false) (V := fun _ ↦ True) ?_
    fun _ hop ↦ DiffersInPasswords.conceals hop
  obtain ⟨user, token⟩ := cookies
  cases user with
  | none => trivial
  | some user =>
    cases token with
    | none => trivial
    | some token =>
      refine within_step (fetch_within rfl) fun row ↦ ?_
      cases row <;> trivial

namespace Job

variable {job : Job}

theorem blind_of_rpc {R : World → World → Prop} {rpc : Rpc} (h : job.rpc? = some rpc)
    (hauth : ∀ cookies isSsl, (Session.auth cookies isSsl).Blind R)
    (hcall : ∀ thread, (dispatch d thread rpc).Blind R) : (job.program d).Blind R := by
  cases job with
  | socket rpc' =>
    cases h
    exact (hcall none).map _
  | http request =>
    obtain ⟨cookies, isSsl, target⟩ := request
    cases target with
    | api rpc' =>
      cases h
      exact ((hauth cookies isSsl).bind fun session ↦ hcall (some session)).map _
    | logout | archive => cases h

theorem asked_readsPassword {past : Past} {β : Type} {op : Op β}
    (h : job.Authorized d past op) (hop : op.readsPassword = true) :
    ∃ request, job.rpc? = some (.userAuth request) := by
  cases op with
  | query q =>
    cases q with
    | builtinAuth login =>
      cases job with
      | socket rpc =>
        obtain ⟨request, rfl, -⟩ := h
        exact ⟨request, rfl⟩
      | http request =>
        obtain ⟨cookies, isSsl, target⟩ := request
        obtain ⟨session, -, h⟩ := h.resolve_left Bool.false_ne_true
        cases target with
        | api rpc =>
          obtain ⟨request, rfl, -⟩ := h
          exact ⟨request, rfl⟩
        | logout => exact h.elim
        | archive location =>
          obtain ⟨_, -, ⟨⟩⟩ := h
    | _ => cases hop
  | _ => cases hop

/-- No job does anything else for other passwords. -/
theorem blind (job : Job) (hmade : ∀ request, job.rpc? = some (.userAuth request) →
      d.authenticator = .kAuthBuiltin → made request) :
    (job.program d).Blind fun w w' ↦ w.db.Valid ∧ DiffersInPasswords d made w w' := by
  by_cases hlogin : ∃ request, job.rpc? = some (.userAuth request)
  · obtain ⟨request, hrpc⟩ := hlogin
    refine Blind.assuming (blind_of_rpc hrpc sessionAuth_blind fun thread ↦ ?_) exec_valid
    exact (userAuth_blind (hmade request hrpc)).bind fun _ ↦ trivial
  · have hobeys : (job.program d).Obeys (fun w : World ↦ w.db.Valid) _ anything [] := job.obeys
    refine hobeys.blind exec_valid fun op past e w hallowed ↦ ?_
    refine DiffersInPasswords.conceals (Bool.eq_false_iff.mpr fun hop ↦ hlogin ?_)
    exact asked_readsPassword hallowed hop

end Job

end Programs

/-! ## Every run -/

section Run

variable {d : Deployment} {jobs : ℕ → Job} {w w' : World}

/-- A job makes this attempt to log in, and the built-in authenticator judges it. -/
def Attempted (d : Deployment) (jobs : ℕ → Job) (request : Pb.UserAuth) : Prop :=
  d.authenticator = .kAuthBuiltin ∧ ∃ k, (jobs k).rpc? = some (.userAuth request)

/-- **What the stored passwords tell.** Take two worlds that differ in the stored passwords only,
and in which the built-in authenticator (if it is in use) judges alike the attempts to log in that
the jobs make. Then in any interleaving the threads do the same in both, so that all answers are
the same, and the worlds differ in the stored passwords only. -/
theorem passwords_hidden (hw : w.db.Valid)
    (h : DiffersInPasswords d (Attempted d jobs) w w') (s : List (ℕ × Env)) :
    (∀ k, ((System.serving d jobs w').run s).threads k =
        ((System.serving d jobs w).run s).threads k) ∧
      DiffersInPasswords d (Attempted d jobs) ((System.serving d jobs w).run s).world
        ((System.serving d jobs w').run s).world := by
  have hblind (k : ℕ) : ((System.serving d jobs w).threads k).Blind
      fun w w' ↦ w.db.Valid ∧ DiffersInPasswords d (Attempted d jobs) w w' :=
    (jobs k).blind fun request hrpc hbuiltin ↦ ⟨hbuiltin, k, hrpc⟩
  have hthreads : (System.serving d jobs w').threads = (System.serving d jobs w).threads := rfl
  obtain ⟨hsame, -, hworld⟩ := Pool.run_blind hthreads ⟨hw, h⟩ hblind s
  exact ⟨congrFun hsame, hworld⟩

end Run

/-- One user, whose password has this hash. -/
def World.oneHash (hash : Bytes) : World :=
  { initial with
    db := Write.applyAll 0 .initial
      [.insertUser (text "u") (text "u@h") (text "SHA3-512") [] hash] }

/-- Somebody guesses the password. -/
def HttpRequest.guesses : HttpRequest where
  cookies := {}
  target := .api (.userAuth { user := text "u", password := text "guess" })

theorem passwords_hidden_guesses :
    let d := { Deployment.plain with authenticator := .kAuthBuiltin }
    let jobs := Job.first [.guesses, .registers]
    let s := ([0, 1].flatMap (List.replicate 9)).map (·, {})
    ((System.serving d jobs (.oneHash (text "b"))).run s).threads 0 =
      ((System.serving d jobs (.oneHash (text "a"))).run s).threads 0 := by
  intro d jobs s
  have hvalid : (World.oneHash (text "a")).db.Valid :=
    Write.applyAll_valid 0 Database.valid_initial _
  have hsame : DiffersInPasswords d (Attempted d jobs) (.oneHash (text "a"))
      (.oneHash (text "b")) := by
    refine ⟨(World.oneHash (text "b")).db.users, ⟨rfl, .cons ⟨rfl, rfl, rfl, rfl, ?_⟩ .nil⟩, rfl⟩
    rintro request ⟨-, k, hrpc⟩ -
    match k with
    | 0 =>
      obtain rfl := Rpc.userAuth.inj (Option.some_inj.mp hrpc)
      decide
    | 1 => cases hrpc
    | k + 2 => cases hrpc
  exact (passwords_hidden hvalid hsame s).1 0

end Scissy
