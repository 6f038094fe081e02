import Scissy.Access.Gate

/-!
# Whom the cookies identify

`Session::auth` joins `users` with `users_auths` and takes the first row with the login and the
token of the cookies. The login is unique and `(token, user_id)` is a primary key, so there is at
most one such row (`Database.Valid.sessionRow_iff`), and the session is a function of the tables
and the cookies (`sessionAuth_returns`).

## What is not checked

Two things that one may expect of a session are absent from the query, and from the function. The
start of the session is not read, so a token does not grow old on the server: that is left to the
browser, which is told when to forget the cookies. And a cookie of the login that differs from that
of the token is not an error: there is no such row, and the request is anonymous.
-/

open Relational Interaction Interaction.Prog

namespace Scissy

namespace Database

/-- A user whose global role is the highest one. -/
def IsAdmin (db : Database) (userId : ℤ) : Prop :=
  ∃ user, (userId, user) ∈ db.users.rows ∧ user.roleId = 3

/-- The token is stored for the user of that login. -/
def Stored (db : Database) (login token : Bytes) (r : (ℤ × User) × UserAuth) : Prop :=
  r.1 ∈ db.users.rows ∧ r.2 ∈ db.usersAuths.rows ∧ r.1.1 = r.2.userId ∧ r.1.2.login = login ∧
    r.2.token = token

/-- The session of a request with these cookies. -/
def session (db : Database) (cookies : Cookies) (isSsl : Bool) : Session :=
  match cookies.user, cookies.token with
  | some user, some token =>
    match ((Query.sessionAuth user token).rows 0 db).head? with
    | none => { isSsl }
    | some (roleId, userId, email) => { user, userId, role := roleId, email, token, isSsl }
  | _, _ => { isSsl }

variable {db : Database} {login token : Bytes}

/-- The query of `Session::auth` finds the row that stores the token. -/
theorem Valid.sessionRow_iff (h : db.Valid) {r : (ℤ × User) × UserAuth} :
    (db.usersNaturalJoinUsersAuths.filter fun r ↦
        decide (r.1.2.login = login ∧ r.2.token = token)).head? = some r ↔
      db.Stored login token r := by
  rw [head?_filter_eq_some_iff, decide_eq_true_eq]
  · obtain ⟨u, a⟩ := r
    rw [usersNaturalJoinUsersAuths, mem_join, decide_eq_true_eq, Stored]
    tauto
  · rintro ⟨u, a⟩ hr ⟨u', a'⟩ hr' hp hp'
    obtain ⟨hu, ha, hid⟩ := mem_join.mp hr
    obtain ⟨hu', ha', hid'⟩ := mem_join.mp hr'
    obtain ⟨hlogin, htoken⟩ := of_decide_eq_true hp
    obtain ⟨hlogin', htoken'⟩ := of_decide_eq_true hp'
    obtain rfl := h.user_eq_of_login hu hu' (hlogin.trans hlogin'.symm)
    have hkey : a.key = a'.key := by
      rw [UserAuth.key, UserAuth.key, ← of_decide_eq_true hid, ← of_decide_eq_true hid']
      exact congrArg (·, u.1) (htoken.trans htoken'.symm)
    rw [KeyTable.eq_of_key_eq ha ha' hkey]

theorem Valid.session_of_stored (h : db.Valid) {r : (ℤ × User) × UserAuth}
    (hr : db.Stored login token r) (isSsl : Bool) :
    db.session { user := some login, token := some token } isSsl =
      ⟨login, r.1.1, r.1.2.roleId, r.1.2.email, token, isSsl⟩ := by
  have hrow := h.sessionRow_iff.mpr hr
  simp only [session, Query.rows, List.head?_map, hrow, Option.map_some]

/-- A session is nobody's, or the one of a stored token. -/
theorem Valid.session_cases (h : db.Valid) (cookies : Cookies) (isSsl : Bool) :
    (db.session cookies isSsl = { isSsl } ∧ ∀ login token r, cookies.user = some login →
        cookies.token = some token → ¬ db.Stored login token r) ∨
      ∃ login token r, cookies = { user := some login, token := some token } ∧
        db.Stored login token r ∧
        db.session cookies isSsl = ⟨login, r.1.1, r.1.2.roleId, r.1.2.email, token, isSsl⟩ := by
  obtain ⟨user, token⟩ := cookies
  cases user with
  | none => exact Or.inl ⟨rfl, nofun⟩
  | some login =>
    cases token with
    | none => exact Or.inl ⟨rfl, fun _ _ _ _ ↦ nofun⟩
    | some token =>
      cases hrow : (db.usersNaturalJoinUsersAuths.filter fun r ↦
        decide (r.1.2.login = login ∧ r.2.token = token)).head? with
      | none =>
        refine Or.inl ⟨?_, ?_⟩
        · simp only [session, Query.rows, List.head?_map, hrow, Option.map_none]
        · rintro _ _ r ⟨⟩ ⟨⟩ hr
          rw [h.sessionRow_iff.mpr hr] at hrow
          cases hrow
      | some r =>
        have hr := h.sessionRow_iff.mp hrow
        exact Or.inr ⟨login, token, r, rfl, hr, h.session_of_stored hr isSsl⟩

theorem Valid.isAdmin_of_session (h : db.Valid) {cookies : Cookies} {isSsl : Bool}
    (hrole : (db.session cookies isSsl).role = Pb.Role.kOwner.toInt) :
    db.IsAdmin (db.session cookies isSsl).userId := by
  rcases h.session_cases cookies isSsl with ⟨hs, -⟩ | ⟨login, token, r, rfl, hr, hs⟩
  · rw [hs] at hrole
    exact absurd hrole (show (0 : ℤ) ≠ 3 by decide)
  · rw [hs] at hrole ⊢
    exact ⟨r.1.2, hr.1, hrole⟩

/-- Two users with a session each. -/
def twoSessions : Database :=
  Write.applyAll 0 initial
    [.insertUser (text "u") (text "u@h") [] [] [], .insertUser (text "v") (text "v@h") [] [] [],
      .insertUserAuth 1 (text "t") 0, .insertUserAuth 2 (text "t") 0]

theorem valid_twoSessions : twoSessions.Valid := Write.applyAll_valid 0 valid_initial _

end Database

namespace World

def twoSessions : World := { initial with db := .twoSessions }

/-- The first user owns a repository, which the second one may write to. -/
def repoOwner : World :=
  { initial with
    db := Write.applyAll 0 .twoSessions
      [.insertRepo (text "r") [] false, .insertRepoUser 1 1 3, .insertRepoUser 1 2 2] }

theorem valid_repoOwner : repoOwner.db.Valid := Write.applyAll_valid 0 Database.valid_twoSessions _

end World

variable {A : Env → Prop} {w : World}

/-- `Session::auth` computes the session of the cookies. -/
theorem sessionAuth_returns (cookies : Cookies) (isSsl : Bool) :
    (Session.auth cookies isSsl).Returns A w (w.db.session cookies isSsl) := by
  obtain ⟨user, token⟩ := cookies
  cases user with
  | none => exact ⟨rfl, rfl⟩
  | some user =>
    cases token with
    | none => exact ⟨rfl, rfl⟩
    | some token =>
      refine (fetch_returns fun _ ↦ rfl).bind ?_
      rw [Database.session]
      dsimp only
      cases ((Query.sessionAuth user token).rows 0 w.db).head? with
      | none => exact ⟨rfl, rfl⟩
      | some row => exact ⟨rfl, rfl⟩

/-- What `Session::auth` has to look up. -/
def Cookies.lookups (cookies : Cookies) : ℕ :=
  if cookies.user.isSome ∧ cookies.token.isSome then 1 else 0

theorem sessionAuth_returnsIn (cookies : Cookies) (isSsl : Bool) :
    (Session.auth cookies isSsl).ReturnsIn w cookies.lookups (w.db.session cookies isSsl) := by
  obtain ⟨user, token⟩ := cookies
  cases user with
  | none => exact returnsIn_done _
  | some user =>
    cases token with
    | none => exact returnsIn_done _
    | some token =>
      refine (fetch_returnsIn fun _ ↦ rfl).bind_done ?_
      rw [Database.session]
      dsimp only
      cases ((Query.sessionAuth user token).rows 0 w.db).head? with
      | none => exact returnsIn_done _
      | some row => exact returnsIn_done _

/-- A call is the handler, run with the session of the cookies after they have been looked up. -/
theorem run_sessionHandle_eq (d : Deployment) (cookies : Cookies) (isSsl : Bool) (rpc : Rpc)
    (env : ℕ → Env) (w : World) :
    (sessionHandle d cookies isSsl rpc).run env w =
      (dispatch d (some (w.db.session cookies isSsl)) rpc).run
        (fun n ↦ env (n + cookies.lookups)) w :=
  (sessionAuth_returnsIn cookies isSsl).run_bind _ env

theorem run_sessionAuth (cookies : Cookies) (isSsl : Bool) (env : ℕ → Env) (w : World) :
    ((Session.auth cookies isSsl).run env w).1 = w.db.session cookies isSsl :=
  congrArg Prod.fst ((sessionAuth_returns (A := fun _ ↦ True) cookies isSsl).run env
    fun _ ↦ trivial)

end Scissy
