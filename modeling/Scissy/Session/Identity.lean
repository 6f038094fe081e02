import Scissy.Session.LifeCycle

/-!
# Whom a login logs in

`userAuth` answers with two cookies, and `userGetSession` tells their bearer who it is. Between the
two the identity is cast, joined and copied: the number of the user is bound as an `int`, the row
of the token is joined with the row of the user, and the helper of `AUTHENTICATE_USER` hands over
the session without its email. `sessionFaithful_iff` says for whom the view is right.

## Two ways to be wrong

The email never gets into the answer, so the view is right about it only where there is nothing to
show. The number is another matter. It is stored as it is and bound as an `int`, so from `2 ^ 31` on
the token is stored for another number, which may be a user's or nobody's. In the first case the
cookies still carry the login of the caller, and nobody is logged in by them, while the token is
good together with the login of the other user. `SessionFaithful` therefore asks for both: that the
bearer is shown the right user, and that the token is good for nobody else.
-/

open Relational Interaction Interaction.Prog

namespace Scissy

/-! ## Cookies -/

/-- The cookies a response sets. -/
def HttpResponse.cookies : HttpResponse → List Cookie
  | api reply => reply.cookies
  | logout cookies => cookies
  | archive _ => []

/-- What the bearer of the cookies sends back. -/
def HttpResponse.sentBack (response : HttpResponse) : Cookies where
  user := (response.cookies.find? (·.key = text "user")).map (·.value)
  token := (response.cookies.find? (·.key = text "token")).map (·.value)

/-- The cookies of `response` show their bearer the user of the row, and the token is good for no
other user. -/
structure SessionFaithful (d : Deployment) (id : ℤ) (user : User) (response : HttpResponse)
    (after : World) : Prop where
  view : ∀ isSsl env,
    ((serve d { cookies := response.sentBack, isSsl, target := .api .userGetSession }).run env
      after).1 = .api { outcome := .returned true (.session
        { user := some user.login
          email := some user.email
          userId := some id
          role := some user.roleId
          status := some .kSucceed }) }
  others : ∀ r ∈ after.db.users.rows, r.2.login ≠ user.login → ∀ isSsl env,
    ((Session.auth { user := some r.2.login, token := response.sentBack.token } isSsl).run env
      after).1.userId ≠ r.1

variable {d : Deployment} {w : World} {login token : Bytes}

/-! ## The number of the user -/

theorem Service.castInt_eq_iff {id : ℤ} (hpos : 0 < id) : castInt id = id ↔ id < 2 ^ 31 := by
  refine ⟨fun h ↦ ?_, castInt_eq hpos⟩
  have hlt : castInt id < (2 ^ 32 + 1) / 2 := Int.bmod_lt (by decide)
  rw [h] at hlt
  exact hlt

/-! ## The row of a new token -/

theorem Database.stored_insert_iff {db : Database} {n start : ℤ} {t : KeyTable UserAuth.key}
    (ht : db.usersAuths.insert ⟨n, token, start⟩ = some t)
    (hfresh : ∀ a ∈ db.usersAuths.rows, a.token ≠ token) {r : (ℤ × User) × UserAuth} :
    ({ db with usersAuths := t } : Database).Stored login token r ↔
      r.1 ∈ db.users.rows ∧ r.2 = ⟨n, token, start⟩ ∧ r.1.1 = n ∧ r.1.2.login = login := by
  have hmem : r.2 ∈ t.rows ∧ r.2.token = token ↔ r.2 = ⟨n, token, start⟩ := by
    rw [(KeyTable.rows_of_insert ht).1, List.mem_append, List.mem_singleton]
    constructor
    · rintro ⟨hr | hr, htoken⟩
      · exact absurd htoken (hfresh _ hr)
      · exact hr
    · intro hr
      exact ⟨Or.inr hr, by rw [hr]⟩
  constructor
  · rintro ⟨hu, ha, hid, hlogin, htoken⟩
    have hr : r.2 = ⟨n, token, start⟩ := hmem.mp ⟨ha, htoken⟩
    exact ⟨hu, hr, by rw [hid, hr], hlogin⟩
  · rintro ⟨hu, hr, hid, hlogin⟩
    obtain ⟨ha, htoken⟩ := hmem.mpr hr
    exact ⟨hu, ha, by rw [hid, hr], hlogin, htoken⟩

/-- **A successful `userAuth`** hands out the login and the token, and stores the token for the
number it has cast. -/
theorem serve_userAuth_issued (h : w.db.Valid) {id : ℤ} {user : User}
    (huser : (id, user) ∈ w.db.users.rows) (cookies : Cookies) (isSsl : Bool)
    {request : Pb.UserAuth} (hlogin : request.user = user.login) (env : ℕ → Env) :
    let arrival : Arrival := ({ cookies, isSsl, target := .api (.userAuth request) }, env)
    let r := (serve d arrival.1).run env w
    Issues user.login token (arrival, r.1) →
      r.1.sentBack = { user := some user.login, token := some token } ∧
        ∃ start t, w.db.usersAuths.insert ⟨Service.castInt id, token, start⟩ = some t ∧
          r.2.db = { w.db with usersAuths := t } := by
  intro arrival r
  have hwp : (serve d arrival.1).wp (fun _ ↦ True) (fun response v ↦
      Issues user.login token (arrival, response) →
        response.sentBack = { user := some user.login, token := some token } ∧
          ∃ start t, w.db.usersAuths.insert ⟨Service.castInt id, token, start⟩ = some t ∧
            v.db = { w.db with usersAuths := t }) w := by
    rw [serve, wp_map, sessionHandle]
    refine (sessionAuth_returns cookies isSsl).wp_bind ?_
    rw [dispatch, wp_bind]
    refine wp_mono (Service.userAuth_wp (w.db.session cookies isSsl) request) ?_
    rintro ⟨outcome, set⟩ u
      (⟨rfl, -⟩ | ⟨id', new, start, now, hid, heffect, rfl, time, rfl⟩) hissues
    · exact absurd hissues not_issues_of_cookies_eq_nil
    · obtain ⟨-, rfl⟩ := (issues_authCookies_iff rfl rfl).mp hissues
      -- the number that is looked up is that of the row
      rw [hlogin, h.head?_userGetId_iff.mpr ⟨user, huser, rfl⟩] at hid
      obtain rfl : id = id' := Option.some_inj.mp hid
      obtain ⟨-, t, ht, hdb⟩ := heffect
      refine ⟨?_, start, t, ht, hdb⟩
      rw [← hlogin]
      rfl
  exact hwp.run env fun _ ↦ trivial

theorem serve_userGetSession (cookies : Cookies) (isSsl : Bool) (env : ℕ → Env) (w : World) :
    ((serve d { cookies, isSsl, target := .api .userGetSession }).run env w).1 =
      .api { outcome := .returned true (.session
        { user := some (w.db.session cookies isSsl).user
          email := some []
          userId := some (w.db.session cookies isSsl).userId
          role := some (w.db.session cookies isSsl).role
          status := some .kSucceed }) } := by
  change ((HttpResponse.api <$> sessionHandle d cookies isSsl .userGetSession).run env w).1 = _
  rw [run_map, run_sessionHandle_eq]
  rfl

/-- **When a login shows the right user.** After a `userAuth` that succeeds with a new token, the
view of the session is that of the row, and the token is good for nobody else, exactly if the email
of the user is empty and the number fits into an `int`. -/
theorem sessionFaithful_iff (h : w.db.Valid) {id : ℤ} {user : User}
    (huser : (id, user) ∈ w.db.users.rows) (d : Deployment) (cookies : Cookies) (isSsl : Bool)
    {request : Pb.UserAuth} (hlogin : request.user = user.login) (env : ℕ → Env) {token : Bytes}
    (hissues : Issues user.login token (({ cookies, isSsl, target := .api (.userAuth request) },
      env), ((serve d { cookies, isSsl, target := .api (.userAuth request) }).run env w).1))
    (hfresh : ∀ a ∈ w.db.usersAuths.rows, a.token ≠ token) :
    let r := (serve d { cookies, isSsl, target := .api (.userAuth request) }).run env w
    SessionFaithful d id user r.1 r.2 ↔ user.email = [] ∧ id < 2 ^ 31 := by
  intro r
  obtain ⟨hcookies, start, t, ht, hdb⟩ := serve_userAuth_issued h huser cookies isSsl hlogin env
    hissues
  change r.1.sentBack = _ at hcookies
  change r.2.db = _ at hdb
  have hafter : r.2.db.Valid := run_valid _ env h
  have hpos : 0 < id := AutoTable.pos_of_mem_ids (AutoTable.mem_ids_of_mem huser)
  have hstored (login : Bytes) (s : (ℤ × User) × UserAuth) : r.2.db.Stored login token s ↔
      s.1 ∈ w.db.users.rows ∧ s.2 = ⟨Service.castInt id, token, start⟩ ∧
        s.1.1 = Service.castInt id ∧ s.1.2.login = login := by
    rw [hdb]
    exact Database.stored_insert_iff ht hfresh
  rw [← Service.castInt_eq_iff hpos]
  constructor
  · rintro ⟨hview, -⟩
    have hmessage := (serve_userGetSession r.1.sentBack false env r.2).symm.trans (hview false env)
    injection hmessage with hreply
    injection hreply with houtcome
    injection houtcome with _ hresponse
    injection hresponse with hsession
    injection hsession with _ hid hemail
    refine ⟨(Option.some_inj.mp hemail).symm, ?_⟩
    -- the pair identifies somebody, and it has the login of the row
    by_contra hne
    have hnone : ¬ r.2.db.Live user.login token := by
      rintro ⟨s, hs⟩
      obtain ⟨hu, -, hn, hsame⟩ := (hstored user.login s).mp hs
      have heq : s.1 = (id, user) := h.user_eq_of_login hu huser hsame
      rw [heq] at hn
      exact hne hn.symm
    rw [hcookies, hafter.session_of_not_live hnone] at hid
    exact hpos.ne (Option.some_inj.mp hid)
  · rintro ⟨hemail, hcast⟩
    have hself : r.2.db.Stored user.login token ((id, user), ⟨Service.castInt id, token, start⟩) :=
      (hstored _ _).mpr ⟨huser, rfl, hcast.symm, rfl⟩
    refine ⟨fun isSsl' env' ↦ ?_, fun s hs hother isSsl' env' ↦ ?_⟩
    · rw [serve_userGetSession, hcookies, hafter.session_of_stored hself, hemail]
    · rw [run_sessionAuth, hcookies]
      have hnone : ¬ r.2.db.Live s.2.login token := by
        rintro ⟨s', hs'⟩
        obtain ⟨hu, -, hn, hsame⟩ := (hstored s.2.login s').mp hs'
        -- the row of the token is that of the user who logged in
        have heq : s'.1 = (id, user) :=
          List.inj_on_of_nodup_map w.db.users.nodup_ids hu huser (hn.trans hcast)
        rw [heq] at hsame
        exact hother hsame.symm
      rw [hafter.session_of_not_live hnone]
      exact (r.2.db.users.id_pos s hs).ne

/-! ## Two databases -/

/-- One user with an email. -/
def Database.oneUser (email : Bytes) : Database :=
  Write.applyAll 0 initial [.insertUser (text "u") email [] [] []]

theorem Database.oneUser_valid (email : Bytes) : (Database.oneUser email).Valid :=
  Write.applyAll_valid 0 valid_initial _

/-- Two users, whose numbers are the same as an `int`. -/
def Database.collidingUsers : Database where
  users :=
    { rows := [(1, ⟨text "u", [], [], [], [], 2⟩),
        (2 ^ 32 + 1, ⟨text "v", text "v@h", [], [], [], 2⟩)]
      seq := 2 ^ 32 + 1
      nodup_ids := by decide
      id_pos := by decide
      id_le_seq := by decide
      seq_nonneg := by decide
      seq_le_bound := by decide }
  usersSshKeys := initial.usersSshKeys
  usersAuths := initial.usersAuths
  groups := initial.groups
  groupsUsers := initial.groupsUsers
  repos := initial.repos
  reposGroups := initial.reposGroups
  reposUsers := initial.reposUsers

def loginRequest (login : Bytes) : HttpRequest where
  cookies := {}
  target := .api (.userAuth { user := login, password := [] })

/-- A login of a user, whose password an external program takes. -/
def logIn (login : Bytes) (db : Database) : HttpResponse × World :=
  (serve .plain (loginRequest login)).run (fun _ ↦ { exitStatus := some 0 })
    { World.initial with db }

/-- The view is right for a user without an email. -/
theorem sessionFaithful_withoutEmail :
    SessionFaithful .plain 1 ⟨text "u", [], [], [], [], 2⟩ (logIn (text "u") (.oneUser [])).1
      (logIn (text "u") (.oneUser [])).2 := by
  have hrow : (1, ⟨text "u", [], [], [], [], 2⟩) ∈
      ({ World.initial with db := .oneUser [] } : World).db.users.rows := by decide
  have hissues : Issues (text "u") (List.replicate 64 48)
      ((loginRequest (text "u"), fun _ ↦ { exitStatus := some 0 }),
        (logIn (text "u") (.oneUser [])).1) :=
    ⟨_, _, rfl, rfl, rfl, rfl, _, List.mem_cons_of_mem _ (List.mem_singleton_self _), rfl,
      by decide +kernel⟩
  exact (sessionFaithful_iff (Database.oneUser_valid []) hrow .plain {} false rfl _ hissues
    (by decide)).mpr ⟨rfl, by decide⟩

/-- The view of an ordinary user lacks the email. And a user whose number does not fit into an
`int` is shown nobody, while the token logs in as somebody else. -/
theorem not_sessionFaithful :
    let u : User := ⟨text "u", text "u@h", [], [], [], 2⟩
    let v : User := ⟨text "v", text "v@h", [], [], [], 2⟩
    let r := logIn (text "u") (.oneUser (text "u@h"))
    let r' := logIn (text "v") .collidingUsers
    ((1, u) ∈ r.2.db.users.rows ∧ r.1.sentBack.user = some (text "u") ∧
        ¬ SessionFaithful .plain 1 u r.1 r.2) ∧
      (2 ^ 32 + 1, v) ∈ r'.2.db.users.rows ∧ r'.1.sentBack.user = some (text "v") ∧
        ((Session.auth { user := some (text "u"), token := r'.1.sentBack.token } false).run
          (fun _ ↦ {}) r'.2).1.userId = 1 ∧ ¬ SessionFaithful .plain (2 ^ 32 + 1) v r'.1 r'.2 := by
  intro u v r r'
  have hother : ((Session.auth { user := some (text "u"), token := r'.1.sentBack.token } false).run
      (fun _ ↦ {}) r'.2).1.userId = 1 := by decide +kernel
  refine ⟨⟨by decide +kernel, by decide +kernel, fun h ↦ ?_⟩, by decide +kernel, by decide +kernel,
    hother, fun h ↦ ?_⟩
  · have hmessage := (serve_userGetSession r.1.sentBack false (fun _ ↦ {}) r.2).symm.trans
      (h.view false fun _ ↦ {})
    injection hmessage with hreply
    injection hreply with houtcome
    injection houtcome with _ hresponse
    injection hresponse with hsession
    injection hsession with _ _ hemail
    exact absurd hemail (by decide)
  · exact h.others (1, ⟨text "u", [], [], [], [], 2⟩) (by decide +kernel) (by decide) false
      (fun _ ↦ {}) hother

end Scissy
