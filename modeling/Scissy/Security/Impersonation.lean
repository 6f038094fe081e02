import Scissy.Security.Attribution
import Scissy.Security.Escalation
import Scissy.Session.LifeCycle

/-!
# Nobody is impersonated

A request acts for the user whom its cookies identify. Tokens come only from logins, so behind every
request of a user there is a login that the authenticator accepted, unless the token is older than
the run (`callers_authenticated`). The two may be requests of different threads, with any number of
others between them.

The login is that of the user as long as the numbers of users survive the cast to `int`.

## Two facts together

The rules say that an operation is one that its call allows for the session of the request, and
attribution says where a token comes from. Between them lies the moment at which the session was
read, which is an event of the request. The token was stored at that moment. So it was there at the
start, or it has come in the part of the run up to then, and then with a login.
-/

open Interaction Interaction.Prog

namespace Scissy

section Run

variable {d : Deployment} {jobs : ℕ → Job} {w : World} {s : List (ℕ × Env)} {k : ℕ}

/-! ## Users stay -/

theorem KeepsUsers.mem {db db' : Database} (h : KeepsUsers db db') {row : ℤ × User}
    (hrow : row ∈ db.users.rows) : row ∈ db'.users.rows := by
  obtain ⟨new, hrows, -⟩ := h
  exact hrows ▸ List.mem_append_left new hrow

theorem mem_users_of_saw {row : ℤ × User} {event : Event Op World}
    (hevent : event ∈ (System.serving d jobs w).events k s)
    (hrow : row ∈ event.before.db.users.rows) :
    row ∈ ((System.serving d jobs w).run s).world.db.users.rows := by
  obtain ⟨e, heq⟩ := Pool.exists_eq_of hevent
  have hlater : KeepsUsers event.after.db ((System.serving d jobs w).run s).world.db :=
    (Pool.rel_of_mem_events (R := fun u v : World ↦ KeepsUsers u.db v.db) (fun _ ↦ .refl _)
      KeepsUsers.trans exec_keepsUsers hevent).2
  refine hlater.mem ?_
  rw [heq]
  exact (exec_keepsUsers event.op e event.before).mem hrow

/-! ## Parts of a run -/

theorem LoggedIn.append {s₁ : List (ℕ × Env)} {login : Pb.UserAuth} {id : ℤ} {token : Bytes}
    (h : LoggedIn d jobs w s₁ login id token) (s₂ : List (ℕ × Env)) :
    LoggedIn d jobs w (s₁ ++ s₂) login id token := by
  obtain ⟨k, drawn, hrpc, haccepted, hdrew, hid, htoken⟩ := h
  have hsub : pastOf d jobs w s₁ k ⊆ pastOf d jobs w (s₁ ++ s₂) k := pastOf_subset s₁ s₂
  exact ⟨k, drawn, hrpc, haccepted.mono hsub, hdrew.mono hsub, hid.mono hsub, htoken⟩

/-- A token that a job has met was stored at the start, or comes from a login. -/
theorem loggedIn_of_mem_events (hw : w.db.Valid) {event : Event Op World}
    (hevent : event ∈ (System.serving d jobs w).events k s) {row : UserAuth}
    (hrow : row ∈ event.before.db.usersAuths.rows) : row ∈ w.db.usersAuths.rows ∨
      ∃ login id, LoggedIn d jobs w s login id row.token ∧ row.userId = Service.castInt id := by
  obtain ⟨s₁, s₂, rfl, hbefore⟩ := Pool.exists_prefix_of_mem_events hevent
  refine or_iff_not_imp_left.mpr fun hout ↦ ?_
  rw [← hbefore] at hrow
  obtain ⟨login, id, hlogin, hid⟩ := loggedIn_of_new [] s₁ hw hout hrow
  exact ⟨login, id, hlogin.append s₂, hid⟩

theorem users_of_mem_events {event : Event Op World}
    (h : event ∈ (System.serving d jobs w).events k s) : KeepsUsers w.db event.before.db :=
  (Pool.rel_of_mem_events (R := fun u v : World ↦ KeepsUsers u.db v.db) (fun _ ↦ .refl _)
    KeepsUsers.trans exec_keepsUsers h).1

/-! ## Who acts -/

theorem opens_or_loggedIn (hw : w.db.Valid) {request : HttpRequest} {session : Session}
    (h : Past.Saw ((System.serving d jobs w).events k s) (·.db.Opens request session)) :
    w.db.Opens request session ∨ ∃ login id, LoggedIn d jobs w s login id session.token ∧
      session.userId = Service.castInt id ∧
      ((∀ i ∈ ((System.serving d jobs w).run s).world.db.users.ids, i < 2 ^ 31) →
        login.user = session.user) := by
  obtain ⟨event, hevent, ⟨⟨id, user⟩, row⟩, hcookies, ⟨huser, hrow, hid, hlogin, htoken⟩,
    hsession⟩ := h
  rcases loggedIn_of_mem_events hw hevent hrow with hold | ⟨login, id', hloggedIn, hcast⟩
  · -- the token refers to its user, who has been there from the start
    have hids : id ∈ w.db.users.ids := by
      rw [show id = row.userId from hid]
      exact hw.usersAuths_user row hold
    obtain ⟨user', huser'⟩ := Relational.AutoTable.mem_ids.mp hids
    have hkept := (users_of_mem_events hevent).mem huser'
    obtain rfl := Relational.AutoTable.eq_of_mem_of_mem huser hkept
    exact Or.inl ⟨((id, user), row), hcookies, ⟨huser', hold, hid, hlogin, htoken⟩, hsession⟩
  · refine Or.inr ⟨login, id', htoken ▸ hloggedIn, hsession.symm.trans (hid.trans hcast),
      fun hbound ↦ ?_⟩
    obtain ⟨k', drawn, -, -, -, ⟨event', hevent', user', huser', hlogin'⟩, -⟩ := hloggedIn
    have hin := mem_users_of_saw hevent huser
    have hin' := mem_users_of_saw hevent' huser'
    have hids := Relational.AutoTable.mem_ids_of_mem hin'
    rw [Service.castInt_eq (Relational.AutoTable.pos_of_mem_ids hids) (hbound _ hids)] at hcast
    obtain rfl : id = id' := hid.trans hcast
    obtain rfl := Relational.AutoTable.eq_of_mem_of_mem hin hin'
    exact hlogin'.symm.trans hlogin

/-- **Nobody is impersonated.** In any interleaving of any number of jobs, every operation that
needs a permission is one that its call allows for the session of the request. The session is
anonymous, or the token of the cookies was stored for its user at the start of the run, or the
authenticator has accepted the login of the user, and the token has been drawn for it. -/
theorem callers_authenticated (hw : w.db.Valid) {request : HttpRequest} {rpc : Rpc}
    (hjob : jobs k = .http request) (htarget : request.target = .api rpc) {past later : Past}
    {β : Type} {op : Op β} {e : Env} {v : World}
    (hs : (System.serving d jobs w).events k s = past ++ .of op e v :: later)
    (hfree : op.free = false) :
    ∃ session, Job.Identified past request session ∧ op.Authorized d (some session) past rpc ∧
      (session = { isSsl := request.isSsl } ∨ w.db.Opens request session ∨
        ∃ login id, LoggedIn d jobs w s login id session.token ∧
          session.userId = Service.castInt id ∧
          ((∀ i ∈ ((System.serving d jobs w).run s).world.db.users.ids, i < 2 ^ 31) →
            login.user = session.user)) := by
  have hallowed : (jobs k).Authorized d past op :=
    Pool.allowed_of_events (c := System.serving d jobs w) exec_valid hw (jobs k).obeys hs
  rw [hjob] at hallowed
  obtain ⟨session, hidentified, h⟩ := hallowed.resolve_left (by rw [hfree]; rintro ⟨⟩)
  rw [htarget] at h
  refine ⟨session, hidentified, h, or_iff_not_imp_left.mpr fun hne ↦ ?_⟩
  have hopened := hidentified.opened
    (fun event hmem ↦ serving_valid hw (past_subset hs hmem)) hne
  exact opens_or_loggedIn hw (hopened.mono (past_subset hs))

end Run

theorem callers_authenticated_addsKey :
    let jobs := Job.first [.addsKey]
    let past := (System.serving .plain jobs .twoSessions).events 0 [(0, {})]
    let s := [(0, {}), (0, {})]
    ∃ session, Job.Identified past .addsKey session ∧
      (session = { isSsl := false } ∨ World.twoSessions.db.Opens .addsKey session ∨
        ∃ login id, LoggedIn .plain jobs .twoSessions s login id session.token) := by
  intro jobs past s
  have hs : (System.serving .plain jobs .twoSessions).events 0 s =
      past ++ .of (.write (.insertUserSshKey 1 0 (text "AAAA") [])) {} .twoSessions :: [] := rfl
  have hjob : jobs 0 = .http .addsKey := rfl
  obtain ⟨session, hidentified, -, hsession⟩ :=
    callers_authenticated Database.valid_twoSessions hjob rfl hs rfl
  refine ⟨session, hidentified, hsession.imp_right fun h ↦ h.imp_right ?_⟩
  exact fun ⟨login, id, hlogin, _⟩ ↦ ⟨login, id, hlogin⟩

end Scissy
