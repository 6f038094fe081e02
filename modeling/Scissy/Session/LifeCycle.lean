import Scissy.Access.Session
import Scissy.Interaction.Since
import Scissy.Security.Escalation

/-!
# The life of a session

A session is a row of `users_auths`. `userAuth` inserts one, `/logout` deletes the one its cookies
identify, and no other request touches the table. So a pair of a login and a token is good exactly
while it has been issued and not been revoked since (`session_lifeCycle`).

Two facts keep the pairs apart. The row is keyed by the user's number and the token, and the login
determines the number; so a `/logout` deletes the row of its own pair, whoever else has the same
token. And a `/logout` whose cookies identify nobody deletes the rows of user `0`, of which there
are none.

## Asked and answered

What has been issued is read off the answers: a `userAuth` for the login has succeeded, and one of
the cookies it has set is the token. What has been revoked cannot be, since `/logout` answers the
same whatever its statement did. So `Revokes` also looks at the environment, and asks for a
statement that was carried out. Where nothing fails it is the request alone.

## Since

The history is a list of requests with their answers, and a pair is live if `Since` holds of its
issues and its revocations. A server that starts without tokens is the case that is stated; in
between the induction needs the pairs that were live before.
-/

open Relational Interaction Interaction.Prog

namespace Scissy

/-! ## What is asked and answered -/

/-- The arrivals of a run, each with its response. -/
def history (d : Deployment) (arrivals : List Arrival) (w : World) :
    List (Arrival × HttpResponse) :=
  arrivals.zip ((serveAll d arrivals w).1.map Prod.snd)

/-- A call of `userAuth` for the login that succeeds and sets the token. -/
def Issues (login token : Bytes) (x : Arrival × HttpResponse) : Prop :=
  ∃ request reply, x.1.1.target = .api (.userAuth request) ∧ request.user = login ∧
    x.2 = .api reply ∧ reply.outcome.status = some .kSucceed ∧
    ∃ c ∈ reply.cookies, c.key = text "token" ∧ c.value = token

/-- A `/logout` that carries the pair, and whose statement, its second operation, is carried
out. -/
def Revokes (login token : Bytes) (x : Arrival × HttpResponse) : Prop :=
  x.1.1.target = .logout ∧ x.1.1.cookies = { user := some login, token := some token } ∧
    (x.1.2 1).fault = none

/-- The pair identifies a user. -/
def Database.Live (db : Database) (login token : Bytes) : Prop := ∃ r, db.Stored login token r

section Steps

variable {db db' : Database} {login token : Bytes}

theorem Database.Valid.live_congr (h : db.Valid) (husers : db.users.rows ⊆ db'.users.rows)
    (hauths : db'.usersAuths = db.usersAuths) : db'.Live login token ↔ db.Live login token := by
  constructor
  · rintro ⟨⟨u, a⟩, hu, ha, hid, hlogin, htoken⟩
    rw [hauths] at ha
    -- the token belongs to an old user, and numbers are not used twice
    obtain ⟨user, huser⟩ := AutoTable.mem_ids.mp (h.usersAuths_user a ha)
    obtain ⟨id, u⟩ := u
    obtain rfl : id = a.userId := hid
    obtain rfl := AutoTable.eq_of_mem_of_mem hu (husers huser)
    exact ⟨⟨(a.userId, u), a⟩, huser, ha, rfl, hlogin, htoken⟩
  · rintro ⟨⟨u, a⟩, hu, ha, hrest⟩
    exact ⟨⟨u, a⟩, husers hu, hauths ▸ ha, hrest⟩

theorem Database.live_insert_iff {id start : ℤ} {user : User}
    {newToken : Bytes} (huser : (id, user) ∈ db.users.rows) {t : KeyTable UserAuth.key}
    (ht : db.usersAuths.insert ⟨id, newToken, start⟩ = some t) :
    ({ db with usersAuths := t } : Database).Live login token ↔
      (user.login = login ∧ newToken = token) ∨ db.Live login token := by
  have hrows := (KeyTable.rows_of_insert ht).1
  constructor
  · rintro ⟨⟨⟨id', u⟩, a⟩, hu, ha, hid, hlogin, htoken⟩
    change a ∈ t.rows at ha
    rw [hrows, List.mem_append, List.mem_singleton] at ha
    rcases ha with ha | rfl
    · exact Or.inr ⟨⟨⟨id', u⟩, a⟩, hu, ha, hid, hlogin, htoken⟩
    · obtain rfl : id' = id := hid
      obtain rfl := AutoTable.eq_of_mem_of_mem huser hu
      exact Or.inl ⟨hlogin, htoken⟩
  · rintro (⟨rfl, rfl⟩ | ⟨⟨u, a⟩, hu, ha, hrest⟩)
    · refine ⟨⟨(id, user), ⟨id, newToken, start⟩⟩, huser, ?_, rfl, rfl, rfl⟩
      change _ ∈ t.rows
      rw [hrows]
      exact List.mem_append_right _ (List.mem_singleton_self _)
    · refine ⟨⟨u, a⟩, hu, ?_, hrest⟩
      change _ ∈ t.rows
      rw [hrows]
      exact List.mem_append_left _ ha

/-- The table after the `delete` of a `/logout`. -/
def Database.logout (db : Database) (s : Session) : Database :=
  { db with
    usersAuths := db.usersAuths.filter fun r ↦ !decide (r.userId = s.userId ∧ r.token = s.token) }

theorem Database.stored_logout_iff {s : Session} {r : (ℤ × User) × UserAuth} :
    (db.logout s).Stored login token r ↔
      db.Stored login token r ∧ ¬ (r.2.userId = s.userId ∧ r.2.token = s.token) := by
  rw [Stored, Stored, logout, KeyTable.filter_rows, List.mem_filter, Bool.not_eq_true',
    decide_eq_false_iff_not]
  tauto

/-- **A logout ends the session of its own cookies**, and no other. -/
theorem Database.Valid.stored_logout_session_iff (h : db.Valid) (cookies : Cookies) (isSsl : Bool)
    {r : (ℤ × User) × UserAuth} : (db.logout (db.session cookies isSsl)).Stored login token r ↔
      db.Stored login token r ∧ cookies ≠ { user := some login, token := some token } := by
  rw [stored_logout_iff]
  refine and_congr_right fun hr ↦ not_congr ?_
  rcases h.session_cases cookies isSsl with ⟨hs, hnone⟩ | ⟨login', token', r', rfl, hr', hs⟩
  · rw [hs]
    refine iff_of_false (fun hzero ↦ ?_) ?_
    · -- nobody has the number of a session without a user
      have hpos : 0 < r.2.userId := AutoTable.pos_of_mem_ids (h.usersAuths_user r.2 hr.2.1)
      rw [hzero.1] at hpos
      exact lt_irrefl _ hpos
    · rintro rfl
      exact hnone _ _ _ rfl rfl hr
  · rw [hs]
    -- the statement goes by number and token, the cookies by login and token
    obtain ⟨hu, ha, hid, rfl, rfl⟩ := hr
    obtain ⟨hu', ha', hid', rfl, rfl⟩ := hr'
    constructor
    · rintro ⟨huser, htoken⟩
      have hsame : r.1 = r'.1 :=
        List.inj_on_of_nodup_map db.users.nodup_ids hu hu' (hid.trans huser)
      rw [hsame, show r.2.token = r'.2.token from htoken]
    · intro hcookies
      obtain ⟨hlogin, htoken⟩ := Cookies.mk.inj hcookies
      have hsame := h.user_eq_of_login hu' hu (Option.some_inj.mp hlogin)
      exact ⟨by rw [← hid, hsame], (Option.some_inj.mp htoken).symm⟩

end Steps

/-! ## Issuing a token -/

namespace Service

variable {A : Env → Prop} {d : Deployment} {w : World}

theorem authenticate_wp (request : Pb.UserAuth) :
    (authenticate d request).wp A (fun _ v ↦ v = w) w := by
  rw [authenticate]
  split
  · refine (fetch_returns fun _ ↦ rfl).wp_bind ?_
    cases ((Query.builtinAuth request.user).rows 0 w.db).head? with
    | none => rfl
    | some row =>
      dsimp only
      split_ifs <;> rfl
  · intro e _
    rw [exec_authProcess]
    cases e.exitStatus with
    | none => rfl
    | some status =>
      change (if status = 0 then _ else _ : Server (Except (Option Bytes) Unit)).wp A _ w
      split_ifs <;> rfl

theorem castInt_eq {id : ℤ} (hpos : 0 < id) (hlt : id < 2 ^ 31) : castInt id = id := by
  rw [castInt, Int.bmod_def]
  omega

/-- **The contract of `userAuth`.** It sets no cookie and changes nothing, or it stores a token for
the user of the request and answers with it. -/
theorem userAuth_wp (session : Session) (request : Pb.UserAuth) :
    (userAuth d (some session) request).wp A (fun r v ↦
      (r.2 = [] ∧ v.db = w.db) ∨ ∃ id token start now,
        ((Query.userGetId request.user).rows 0 w.db).head? = some id ∧
        (Write.insertUserAuth (castInt id) token start).Effect now w.db v.db ∧
        r.1 = .returned true { user := some request.user, status := some .kSucceed } ∧
        ∃ time, r.2 = authCookies d session request.user token time) w := by
  rw [userAuth, wp_bind]
  refine wp_mono (authenticate_wp request) ?_
  rintro r v rfl
  cases r with
  | error msg => exact Or.inl ⟨rfl, rfl⟩
  | ok _ =>
    dsimp only
    refine (fetch_returns fun _ ↦ rfl).wp_bind ?_
    cases ((Query.userGetId request.user).rows 0 v.db).head? with
    | none => exact Or.inl ⟨rfl, rfl⟩
    | some id =>
      dsimp only
      intro e _
      rw [exec_gnutlsRnd]
      dsimp only
      split_ifs
      · exact Or.inl ⟨rfl, rfl⟩
      · intro e _
        refine wp_write (fun e' _ u heffect _ ↦ ?_) fun rc hrc ↦ ?_
        · rw [if_neg (by decide)]
          intro e'' _
          exact Or.inr ⟨id, _, _, _, rfl, heffect, rfl, _, rfl⟩
        · rw [if_pos hrc]
          exact Or.inl ⟨rfl, rfl⟩

end Service

/-! ## One request -/

section Serve

variable {d : Deployment} {w : World} {login token : Bytes}

theorem users_subset_run {α : Type} (p : Server α) (env : ℕ → Env) (w : World) :
    w.db.users.rows ⊆ (p.run env w).2.db.users.rows := by
  obtain ⟨new, hrows, -⟩ := (within_true p).run_rel (R := fun u v ↦ KeepsUsers u.db v.db)
    (fun _ ↦ .refl _) KeepsUsers.trans (fun op _ ↦ exec_keepsUsers op) env w
  rw [hrows]
  exact List.subset_append_left _ _

theorem not_issues_of_target {x : Arrival × HttpResponse}
    (h : ∀ request, x.1.1.target ≠ .api (.userAuth request)) : ¬ Issues login token x := by
  rintro ⟨request, -, htarget, -⟩
  exact h request htarget

theorem not_revokes_of_target {x : Arrival × HttpResponse} (h : x.1.1.target ≠ .logout) :
    ¬ Revokes login token x := fun hx ↦ h hx.1

theorem not_issues_of_cookies_eq_nil {arrival : Arrival} {outcome : Outcome Pb.Message} :
    ¬ Issues login token (arrival, .api { outcome, cookies := [] }) := by
  rintro ⟨request, reply, -, -, hresponse, -, c, hc, -⟩
  obtain rfl := HttpResponse.api.inj hresponse
  cases hc

theorem issues_authCookies_iff {arrival : Arrival} {request : Pb.UserAuth}
    (htarget : arrival.1.target = .api (.userAuth request)) {message : Pb.Session}
    (hstatus : message.status = some .kSucceed) {session : Session} {newToken : Bytes} {time : ℤ} :
    Issues login token (arrival, .api
      { outcome := .returned true (.session message)
        cookies := Service.authCookies d session request.user newToken time }) ↔
      request.user = login ∧ newToken = token := by
  constructor
  · rintro ⟨request', reply, htarget', hlogin, hresponse, -, c, hc, hkey, hvalue⟩
    obtain rfl := HttpResponse.api.inj hresponse
    obtain rfl := Rpc.userAuth.inj (Target.api.inj (htarget.symm.trans htarget'))
    rcases List.mem_pair.mp hc with rfl | rfl
    · exact absurd hkey (show text "user" ≠ text "token" by decide)
    · exact ⟨hlogin, hvalue⟩
  · rintro ⟨rfl, rfl⟩
    exact ⟨request, _, htarget, rfl, rfl, hstatus, _,
      List.mem_cons_of_mem _ (List.mem_singleton_self _), rfl, rfl⟩

/-- A call of `userAuth` makes the pair it issues live. -/
theorem live_userAuth (h : w.db.Valid) (cookies : Cookies) (isSsl : Bool) (request : Pb.UserAuth)
    (env : ℕ → Env) (hids : ∀ id ∈ w.db.users.ids, id < 2 ^ 31) :
    let arrival : Arrival := ({ cookies, isSsl, target := .api (.userAuth request) }, env)
    let r := (serve d arrival.1).run env w
    r.2.db.Live login token ↔ Issues login token (arrival, r.1) ∨ w.db.Live login token := by
  intro arrival r
  have hwp : (serve d arrival.1).wp (fun _ ↦ True) (fun response v ↦
      v.db.Live login token ↔
        Issues login token (arrival, response) ∨ w.db.Live login token) w := by
    rw [serve, wp_map, sessionHandle]
    refine (sessionAuth_returns cookies isSsl).wp_bind ?_
    rw [dispatch, wp_bind]
    refine wp_mono (Service.userAuth_wp (w.db.session cookies isSsl) request) ?_
    rintro ⟨outcome, set⟩ u (⟨rfl, hdb⟩ | ⟨id, newToken, start, now, hid, heffect, rfl, time, rfl⟩)
    · change u.db.Live login token ↔ _
      rw [hdb]
      exact (or_iff_right not_issues_of_cookies_eq_nil).symm
    · obtain ⟨user, huser, hlogin⟩ := h.head?_userGetId_iff.mp hid
      -- the row that is inserted is that of the login, because the cast keeps its number
      have hmem := AutoTable.mem_ids_of_mem huser
      rw [Service.castInt_eq (AutoTable.pos_of_mem_ids hmem) (hids _ hmem)] at heffect
      obtain ⟨-, t, ht, hdb⟩ := heffect
      change u.db.Live login token ↔ _
      rw [hdb, Database.live_insert_iff huser ht, hlogin]
      exact or_congr_left (issues_authCookies_iff rfl rfl).symm
  exact hwp.run env fun _ ↦ trivial

theorem run_fetch_bind {α β : Type} (q : Query β) (k : Option β → Server α) (env : ℕ → Env)
    (w : World) : (fetch q >>= k).run env w =
      (k (q.rows (env 0).pick w.db).head?).run (fun n ↦ env (n + 1)) w := rfl

theorem run_sessionAuth_bind {α : Type} {isSsl : Bool} {k : Session → Server α} {env : ℕ → Env} :
    (Session.auth { user := some login, token := some token } isSsl >>= k).run env w =
      (k (w.db.session { user := some login, token := some token } isSsl)).run
        (fun n ↦ env (n + 1)) w := by
  rw [Session.auth, Database.session]
  dsimp only
  rw [LawfulMonad.bind_assoc, run_fetch_bind, show (Query.sessionAuth login token).rows (env 0).pick
    w.db = (Query.sessionAuth login token).rows 0 w.db from rfl]
  cases ((Query.sessionAuth login token).rows 0 w.db).head? with
  | none => rfl
  | some row => rfl

theorem run_logoutHandle (cookies : Cookies) (isSsl : Bool) (env : ℕ → Env) (w : World) :
    ∃ e, (cookies.user.isSome → cookies.token.isSome → e = env 1) ∧
      ((logoutHandle cookies isSsl).run env w).2.db =
        if e.fault = none then w.db.logout (w.db.session cookies isSsl) else w.db := by
  have hwrite (e : Env) (s : Session) :
      (w.write e (.deleteUserAuth s.userId s.token)).2.db =
        if e.fault = none then w.db.logout s else w.db := by
    rw [World.write]
    cases e.fault with
    | none => rfl
    | some err => rfl
  obtain ⟨user, token⟩ := cookies
  cases user with
  | none => exact ⟨env 0, by simp, hwrite (env 0) _⟩
  | some login =>
    cases token with
    | none => exact ⟨env 0, by simp, hwrite (env 0) _⟩
    | some token =>
      refine ⟨env 1, fun _ _ ↦ rfl, ?_⟩
      rw [← hwrite, logoutHandle, run_sessionAuth_bind]
      rfl

/-- A `/logout` deletes the row of the pair it carries, and no other. -/
theorem stored_logout (h : w.db.Valid) (cookies : Cookies) (isSsl : Bool) (env : ℕ → Env)
    {row : (ℤ × User) × UserAuth} :
    let arrival : Arrival := ({ cookies, isSsl, target := .logout }, env)
    let r := (serve d arrival.1).run env w
    r.2.db.Stored login token row ↔
      w.db.Stored login token row ∧ ¬ Revokes login token (arrival, r.1) := by
  intro arrival r
  obtain ⟨e, he, hdb⟩ := run_logoutHandle cookies isSsl env w
  have hrun : r.2.db = ((logoutHandle cookies isSsl).run env w).2.db :=
    congrArg (·.2.db) (run_map HttpResponse.logout (logoutHandle cookies isSsl) env w)
  have hrevokes : Revokes login token (arrival, r.1) ↔
      cookies = { user := some login, token := some token } ∧ e.fault = none := by
    refine (and_iff_right rfl).trans (and_congr_right ?_)
    rintro rfl
    rw [he rfl rfl]
  rw [hrun, hdb, hrevokes]
  split_ifs with hfault
  · rw [h.stored_logout_session_iff, and_iff_left hfault]
  · rw [and_iff_left (fun hboth ↦ hfault hboth.2)]

/-- **One request** makes a pair live by issuing it, and ends it by revoking it. -/
theorem live_serve_iff (h : w.db.Valid) (hids : ∀ id ∈ w.db.users.ids, id < 2 ^ 31)
    (arrival : Arrival) :
    let r := (serve d arrival.1).run arrival.2 w
    r.2.db.Live login token ↔ Issues login token (arrival, r.1) ∨
      w.db.Live login token ∧ ¬ Revokes login token (arrival, r.1) := by
  intro r
  obtain ⟨⟨cookies, isSsl, target⟩, env⟩ := arrival
  -- all but two kinds of request leave the table alone
  have hother (htable : Resource.table .usersAuths ∉ HttpRequest.footprint ⟨cookies, isSsl, target⟩)
      (hissues : ∀ request, target ≠ .api (.userAuth request)) (hrevokes : target ≠ .logout) :
      r.2.db.Live login token ↔ Issues login token ((⟨cookies, isSsl, target⟩, env), r.1) ∨
        w.db.Live login token ∧ ¬ Revokes login token ((⟨cookies, isSsl, target⟩, env), r.1) := by
    rw [h.live_congr (users_subset_run _ env w) (serve_same htable env w), and_iff_left,
      or_iff_right]
    · exact not_issues_of_target hissues
    · exact not_revokes_of_target hrevokes
  cases target with
  | api rpc =>
    cases rpc with
    | userAuth request =>
      rw [and_iff_left (not_revokes_of_target (by simp))]
      exact live_userAuth h cookies isSsl request env hids
    | _ => exact hother (by simp) (by simp) (by simp)
  | logout =>
    rw [or_iff_right (not_issues_of_target (by simp))]
    simp only [Database.Live, r, stored_logout h, exists_and_right]
  | archive location => exact hother (by simp) (by simp) (by simp)

end Serve

/-! ## Whole runs -/

section Runs

variable {d : Deployment} {w : World} {login token : Bytes}

theorem users_subset_serveAll (d : Deployment) (arrivals : List Arrival) (w : World) :
    w.db.users.rows ⊆ (serveAll d arrivals w).2.db.users.rows := by
  induction arrivals generalizing w with
  | nil => exact List.Subset.refl _
  | cons arrival arrivals ih => exact List.Subset.trans (users_subset_run _ _ w) (ih _)

theorem valid_serveAll (h : w.db.Valid) (arrivals : List Arrival) :
    (serveAll d arrivals w).2.db.Valid := by
  induction arrivals generalizing w with
  | nil => exact h
  | cons arrival arrivals ih =>
    exact ih (run_valid _ arrival.2 h)

/-- After a run a pair is live if the run issued it and did not revoke it since, or if it was live
before and the run did not revoke it. -/
theorem live_serveAll_iff (h : w.db.Valid) (arrivals : List Arrival)
    (hids : ∀ id ∈ (serveAll d arrivals w).2.db.users.ids, id < 2 ^ 31) :
    (serveAll d arrivals w).2.db.Live login token ↔
      Since (Issues login token) (Revokes login token) (history d arrivals w) ∨
        (w.db.Live login token ∧ ∀ x ∈ history d arrivals w, ¬ Revokes login token x) := by
  induction arrivals generalizing w with
  | nil => simp [history, not_since_nil]
  | cons arrival arrivals ih =>
    have hfirst : ∀ id ∈ w.db.users.ids, id < 2 ^ 31 := fun id hid ↦ hids id
      (List.map_subset Prod.fst (users_subset_serveAll d (arrival :: arrivals) w) hid)
    have hrest := ih (run_valid _ arrival.2 h) hids
    exact hrest.trans (since_step (live_serve_iff h hfirst arrival))

theorem Database.Valid.session_of_not_live {db : Database} (h : db.Valid)
    (hlive : ¬ db.Live login token) (isSsl : Bool) :
    db.session { user := some login, token := some token } isSsl = { isSsl } := by
  rcases h.session_cases { user := some login, token := some token } isSsl with
    ⟨hs, -⟩ | ⟨login', token', r, hcookies, hr, -⟩
  · exact hs
  · obtain ⟨hlogin, htoken⟩ := Cookies.mk.inj hcookies
    obtain rfl := Option.some_inj.mp hlogin
    obtain rfl := Option.some_inj.mp htoken
    exact absurd ⟨r, hr⟩ hlive

theorem Database.Valid.session_userId_ne_zero_iff {db : Database} (h : db.Valid) (isSsl : Bool) :
    (db.session { user := some login, token := some token } isSsl).userId ≠ 0 ↔
      db.Live login token := by
  by_cases hlive : db.Live login token
  · refine iff_of_true ?_ hlive
    obtain ⟨r, hr⟩ := hlive
    rw [h.session_of_stored hr]
    exact (AutoTable.pos_of_mem_ids (AutoTable.mem_ids_of_mem hr.1)).ne'
  · refine iff_of_false (not_not.mpr ?_) hlive
    rw [h.session_of_not_live hlive]

theorem Database.Valid.session_congr {db db' : Database} (h : db.Valid) (h' : db'.Valid)
    (isSsl : Bool) (hstored : ∀ r, db'.Stored login token r ↔ db.Stored login token r) :
    db'.session { user := some login, token := some token } isSsl =
      db.session { user := some login, token := some token } isSsl := by
  by_cases hlive : db.Live login token
  · obtain ⟨r, hr⟩ := hlive
    rw [h.session_of_stored hr, h'.session_of_stored ((hstored r).mpr hr)]
  · rw [h.session_of_not_live hlive, h'.session_of_not_live]
    exact fun ⟨r, hr⟩ ↦ hlive ⟨r, (hstored r).mp hr⟩

/-- **The life of a session.** After any sequence of requests to a server without sessions, the
cookies of a login and a token yield a user exactly when a `userAuth` for the login has issued the
token and no `/logout` has revoked the pair since. The user is the one with the login, and a
`/logout` with any other cookies leaves the session as it is. -/
theorem session_lifeCycle (h : w.db.Valid) (hnone : w.db.usersAuths.rows = []) (d : Deployment)
    (arrivals : List Arrival)
    (hids : ∀ id ∈ (serveAll d arrivals w).2.db.users.ids, id < 2 ^ 31)
    (login token : Bytes) (isSsl : Bool) (env : ℕ → Env) :
    let after := (serveAll d arrivals w).2
    let cookies : Cookies := { user := some login, token := some token }
    let session := ((Session.auth cookies isSsl).run env after).1
    (session.userId ≠ 0 ↔
        Since (Issues login token) (Revokes login token) (history d arrivals w)) ∧
      (session.userId ≠ 0 → session.user = login ∧
        ∃ user, (session.userId, user) ∈ after.db.users.rows ∧ user.login = login) ∧
      ∀ cookies' isSsl' env', cookies' ≠ cookies →
        ((Session.auth cookies isSsl).run env
          ((serve d ⟨cookies', isSsl', .logout⟩).run env' after).2).1 = session := by
  intro after cookies session
  have hafter : after.db.Valid := valid_serveAll h arrivals
  have hsession : session = after.db.session cookies isSsl :=
    run_sessionAuth cookies isSsl env after
  have hlive : session.userId ≠ 0 ↔ after.db.Live login token := by
    rw [hsession]
    exact hafter.session_userId_ne_zero_iff isSsl
  refine ⟨?_, fun huser ↦ ?_, fun cookies' isSsl' env' hother ↦ ?_⟩
  · rw [hlive, live_serveAll_iff h arrivals hids]
    -- nothing was live before the run
    refine or_iff_left fun hbefore ↦ ?_
    obtain ⟨⟨r, -, hr, -⟩, -⟩ := hbefore
    rw [hnone] at hr
    cases hr
  · obtain ⟨r, hr⟩ := hlive.mp huser
    rw [hsession, hafter.session_of_stored hr]
    exact ⟨rfl, r.1.2, hr.1, hr.2.2.2.1⟩
  · rw [run_sessionAuth, hsession]
    refine hafter.session_congr (run_valid _ env'
      hafter) isSsl fun r ↦ ?_
    exact (stored_logout hafter cookies' isSsl' env').trans
      (and_iff_left fun hrevokes ↦ hother hrevokes.2.1)

/-- A user registers, and gets a session. -/
theorem session_lifeCycle_first :
    let token := List.replicate 64 48
    let arrivals : List Arrival :=
      [({ cookies := {}, target := .api (.userCreate
          { user := text "u", password := text "secret", email := text "u@h" }) }, fun _ ↦ {}),
        ({ cookies := {}, target := .api (.userAuth
          { user := text "u", password := text "secret" }) }, fun _ ↦ { exitStatus := some 0 })]
    let after := (serveAll .plain arrivals World.initial).2
    let cookies : Cookies := { user := some (text "u"), token := some token }
    ((Session.auth cookies false).run (fun _ ↦ {}) after).1.userId = 1 ∧
      Since (Issues (text "u") token) (Revokes (text "u") token)
        (history .plain arrivals World.initial) := by
  intro token arrivals after cookies
  have huser : ((Session.auth cookies false).run (fun _ ↦ {}) after).1.userId = 1 := by
    decide +kernel
  have hids : ∀ id ∈ after.db.users.ids, id < 2 ^ 31 := by decide +kernel
  exact ⟨huser, (session_lifeCycle Database.valid_initial rfl .plain arrivals hids (text "u") token
    false fun _ ↦ {}).1.mp (by rw [huser]; decide)⟩

end Runs

end Scissy
