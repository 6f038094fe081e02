import Scissy.Security.Escalation
import Scissy.Text.Numeral

/-!
# Registration and login

`userCreate` stores a salt and the hash of the salt followed by the password, both in base 16.
`BuiltinAuthenticator::auth` reads them back, in another file, and hashes again. The two agree as
long as decoding undoes encoding (`run_builtinAuth`).

What is stored for a user stays as it is: no operation of the server changes it, and neither does
the administrator (`System.Step.credentials_subset`). So the password of a registration is good in
every later state, whatever else happened in between (`registration`).

## The library in between

The hash and the two directions of the code are functions of the deployment. Nothing is assumed of
the hash, so a password that collides with that of the registration is good as well, and the
statement says so: a password is taken if and only if it hashes to the same. Of the code it is
assumed that decoding undoes encoding, for without that the salt that is read is not the one that
was drawn.
-/

open Relational Interaction Interaction.Prog

namespace Scissy

/-! ## Stored credentials -/

/-- What the built-in authenticator knows about a user. -/
def User.credentials (user : User) : Bytes × Bytes × Bytes × Bytes :=
  (user.login, user.passwordType, user.passwordSalt, user.passwordHash)

/-- The credentials of all users, with their numbers. -/
def Database.credentials (db : Database) : List (ℤ × Bytes × Bytes × Bytes × Bytes) :=
  db.users.rows.map fun r ↦ (r.1, r.2.credentials)

theorem KeepsUsers.credentials_subset {db db' : Database} (h : KeepsUsers db db') :
    db.credentials ⊆ db'.credentials := by
  obtain ⟨new, hrows, -⟩ := h
  rw [Database.credentials, Database.credentials, hrows, List.map_append]
  exact List.subset_append_left _ _

theorem exec_credentials_subset {β : Type} (op : Op β) (e : Env) (w : World) :
    w.db.credentials ⊆ (Interp.exec op e w).2.db.credentials :=
  (exec_keepsUsers op e w).credentials_subset

theorem credentials_setAdmin (login : Bytes) (db : Database) :
    (setAdmin login db).credentials = db.credentials := by
  rw [setAdmin]
  split
  · rfl
  · rw [Database.credentials, Database.credentials, AutoTable.modify_rows, List.map_map]
    refine List.map_congr_left fun r _ ↦ ?_
    rw [Function.comp_apply, AutoTable.modifyRow]
    split <;> rfl

/-- **No step changes what is stored for a user.** -/
theorem System.Step.credentials_subset {d : Deployment} {c c' : System} (h : Step d c c') :
    c.world.db.credentials ⊆ c'.world.db.credentials := by
  have hop : ∀ {β : Type} (op : Op β) (e : Env) (w : World),
      w.db.credentials ⊆ (Interp.exec op e w).2.db.credentials := exec_credentials_subset
  cases h with
  | http | socket | push => exact List.Subset.refl _
  | op i e =>
    exact Pool.run_world_rel (R := fun u v : World ↦ u.db.credentials ⊆ v.db.credentials)
      (fun _ ↦ List.Subset.refl _) List.Subset.trans hop c [(i, e)]
  | restart env =>
    exact (within_true (genAuthorizedKeys d)).run_rel
      (R := fun u v : World ↦ u.db.credentials ⊆ v.db.credentials) (fun _ ↦ List.Subset.refl _)
      List.Subset.trans (fun op _ ↦ hop op) env c.world
  | setAdmin login => exact (credentials_setAdmin login _).symm ▸ List.Subset.refl _

/-! ## The authenticator -/

variable {d : Deployment} {w : World}

/-- What `BuiltinAuthenticator::auth` answers for a user. -/
theorem builtinAuth_ok_iff (h : w.db.Valid) {id : ℤ} {user : User}
    (huser : (id, user) ∈ w.db.users.rows) (password : Bytes) (env : ℕ → Env) :
    ((Service.builtinAuth d { user := user.login, password }).run env w).1 = .ok () ↔
      user.passwordType = text "SHA3-512" ∧
        d.base16Decode user.passwordHash =
          d.sha3_512 (d.base16Decode user.passwordSalt ++ password) := by
  have hfetch : (fetch (.builtinAuth user.login)).ReturnsIn w 1 _ := fetch_returnsIn fun _ ↦ rfl
  rw [Service.builtinAuth, hfetch.run_bind, h.head?_builtinAuth huser]
  dsimp only
  split_ifs with htype hne
  · refine iff_of_false ?_ fun hboth ↦ hne hboth.2
    rintro ⟨⟩
  · exact iff_of_true rfl ⟨htype, not_ne_iff.mp hne⟩
  · refine iff_of_false ?_ fun hboth ↦ htype hboth.1
    rintro ⟨⟩

theorem run_builtinAuth (h : w.db.Valid)
    (hcodec : Function.LeftInverse d.base16Decode d.base16Encode) {id : ℤ} {login salt hash : Bytes}
    (hmem : (id, login, text "SHA3-512", d.base16Encode salt, d.base16Encode hash) ∈
      w.db.credentials) (password : Bytes) (env : ℕ → Env) :
    ((Service.builtinAuth d { user := login, password }).run env w).1 = .ok () ↔
      d.sha3_512 (salt ++ password) = hash := by
  obtain ⟨⟨_, user⟩, huser, heq⟩ := List.mem_map.mp hmem
  obtain ⟨-, hcredentials⟩ := Prod.mk.inj heq
  obtain ⟨rfl, hpassword⟩ := Prod.mk.inj hcredentials
  obtain ⟨htype, hsaltHash⟩ := Prod.mk.inj hpassword
  obtain ⟨hsalt, hhash⟩ := Prod.mk.inj hsaltHash
  rw [builtinAuth_ok_iff h huser, hsalt, hhash, hcodec salt, hcodec hash]
  exact (and_iff_right htype).trans eq_comm

/-! ## One registration -/

/-- The random generator has handed out the salt. -/
def Draws (events : List (Event Op World)) (salt : Bytes) : Prop :=
  ∃ v u : World, (⟨.gnutlsRnd 16, some salt, v, u⟩ : Event Op World) ∈ events

/-- Salt and hash of the password have been stored under the login. -/
def Stores (d : Deployment) (request : Pb.UserCreate) (salt : Bytes)
    (events : List (Event Op World)) : Prop :=
  ∃ e ∈ events, ∃ id, (id, request.user, text "SHA3-512", d.base16Encode salt,
    d.base16Encode (d.sha3_512 (salt ++ request.password))) ∈ e.after.db.credentials

/-- None of the events has touched the table of users. -/
def KeepsUsersTable (events : List (Event Op World)) : Prop :=
  ∀ e ∈ events, e.after.db.users = e.before.db.users

/-- What a registration with this status has done. -/
def Registration (d : Deployment) (request : Pb.UserCreate) (events : List (Event Op World))
    (status : Option Pb.Status) : Prop :=
  (status = some .kSucceed → ∃ salt, Draws events salt ∧ Stores d request salt events) ∧
    (status ≠ some .kSucceed → KeepsUsersTable events)

variable {rely : {β : Type} → Op β → World → World → Prop} {request : Pb.UserCreate}
  {events events' : List (Event Op World)}

theorem registration_of_failure {status : Pb.Status} (hstatus : status ≠ .kSucceed)
    (h : KeepsUsersTable events) : Registration d request events (some status) :=
  ⟨fun heq ↦ absurd (Option.some_inj.mp heq) hstatus, fun _ ↦ h⟩

theorem Registration.append_left {status : Option Pb.Status}
    (h : Registration d request events' status) (hevents : KeepsUsersTable events) :
    Registration d request (events ++ events') status := by
  refine ⟨fun hstatus ↦ ?_, fun hstatus ↦ ?_⟩
  · obtain ⟨salt, ⟨v, u, hdraw⟩, e, he, hstored⟩ := h.1 hstatus
    exact ⟨salt, ⟨v, u, List.mem_append_right _ hdraw⟩, e, List.mem_append_right _ he, hstored⟩
  · intro e he
    exact (List.mem_append.mp he).elim (hevents e) (h.2 hstatus e)

theorem insertUser_alongside {ρ : Type} (login email type salt hash : Bytes)
    (taken failed done : ρ) (w : World) :
    (do
        let err ← issue (.write (.insertUser login email type salt hash))
        if err = .constraint then return taken
        else if err ≠ .done then return failed
        else return done : Server ρ).Alongside rely (fun events outcome ↦
      (outcome = done ∧ ∃ e ∈ events, ∃ id,
          (id, login, type, salt, hash) ∈ e.after.db.credentials) ∨
        (outcome = taken ∨ outcome = failed) ∧ KeepsUsersTable events) w := by
  intro v e _
  rw [exec_write]
  rcases World.write_spec (.insertUser login email type salt hash) e v with
    ⟨hdone, -, ⟨-, -, t, ht, hdb⟩, -⟩ | ⟨hrc, hv⟩
  · rw [hdone]
    refine Or.inl ⟨rfl, _, List.mem_cons_self, v.db.users.seq + 1, ?_⟩
    rw [Database.credentials, hdb]
    dsimp only
    rw [(AutoTable.rows_of_insert ht).1, List.map_append]
    exact List.mem_append_right _ (List.mem_singleton_self _)
  · have hkeeps : (v.write e (.insertUser login email type salt hash)).2.db.users = v.db.users := by
      rw [hv]
    change (if _ then _ else if _ then _ else _ : Server ρ).Alongside rely _ _
    rw [if_pos hrc]
    split_ifs
    · exact Or.inr ⟨Or.inl rfl, List.forall_mem_singleton.mpr hkeeps⟩
    · exact Or.inr ⟨Or.inr rfl, List.forall_mem_singleton.mpr hkeeps⟩

/-- **The contract of `userCreate`**, whatever else happens between its operations. -/
theorem userCreate_alongside (d : Deployment) (request : Pb.UserCreate) (w : World) :
    (Service.userCreate d request).Alongside rely (fun events outcome ↦
      Registration d request events (outcome.map Pb.Message.statusMsg).status) w := by
  have hfail : Pb.Status.kFailed ≠ .kSucceed := by decide
  have hforbidden : Pb.Status.kForbidden ≠ .kSucceed := by decide
  have hnil : KeepsUsersTable [] := List.forall_mem_nil _
  rw [Service.userCreate]
  cases Service.userCheckPassword d request.password with
  | some msg =>
    dsimp only
    split_ifs
    · exact registration_of_failure hforbidden hnil
    · exact registration_of_failure hfail hnil
    · exact registration_of_failure hfail hnil
  | none =>
    split_ifs
    · exact registration_of_failure hforbidden hnil
    iterate 3 exact registration_of_failure hfail hnil
    intro v e _
    rw [exec_gnutlsRnd]
    cases hdraw : (if e.rndFails then none else some ((List.range 16).map e.random)) with
    | none => exact registration_of_failure hfail (List.forall_mem_singleton.mpr rfl)
    | some salt =>
      refine (insertUser_alongside _ _ _ _ _ _ _ _ v).mono fun events outcome h ↦ ?_
      rcases h with ⟨rfl, e', he', hstored⟩ | ⟨rfl | rfl, hkeeps⟩
      · exact ⟨fun _ ↦ ⟨salt, ⟨v, v, List.mem_cons_self⟩, e', List.mem_cons_of_mem _ he', hstored⟩,
          fun hstatus ↦ absurd rfl hstatus⟩
      · exact registration_of_failure hfail (List.forall_mem_cons.mpr ⟨rfl, hkeeps⟩)
      · exact registration_of_failure hfail (List.forall_mem_cons.mpr ⟨rfl, hkeeps⟩)

theorem serve_userCreate_alongside {p : Server HttpResponse}
    (hp : (∃ cookies isSsl, p = serve d { cookies, isSsl, target := .api (.userCreate request) }) ∨
      p = serveSocket d (.userCreate request)) (w : World) :
    p.Alongside rely (fun events response ↦ ∀ reply, response = .api reply →
      Registration d request events reply.outcome.status) w := by
  have hdispatch (thread : Option Session) (w : World) :
      (dispatch d thread (.userCreate request)).Alongside rely (fun events reply ↦
        Registration d request events reply.outcome.status) w := by
    refine alongside_bind ((userCreate_alongside d request w).mono fun events outcome h _ ↦ ?_)
    rw [← List.append_nil events] at h
    exact h
  rcases hp with ⟨cookies, isSsl, rfl⟩ | rfl
  · change (HttpResponse.api <$> sessionHandle d cookies isSsl _).Alongside rely _ w
    rw [sessionHandle, map_eq_pure_bind, LawfulMonad.bind_assoc]
    have hsession : (Session.auth cookies isSsl).Within (fun op ↦ op.touches = []) fun _ ↦ True :=
      sessionAuth_within cookies isSsl fun _ ↦ rfl
    refine alongside_bind ((hsession.alongside
      (R := fun u v : World ↦ v.db.users = u.db.users) fun op hop e v ↦ ?_).mono ?_)
    · exact Op.exec_same (r := .table .users) (hop ▸ List.not_mem_nil) e v
    rintro events session ⟨-, hevents⟩ v
    refine alongside_bind ((hdispatch (some session) v).mono fun events' reply h _ ↦ ?_)
    rintro _ ⟨⟩
    rw [List.append_nil]
    exact h.append_left hevents
  · rw [serveSocket, map_eq_pure_bind]
    refine alongside_bind ((hdispatch none w).mono fun events reply h _ ↦ ?_)
    rintro _ ⟨⟩
    rw [List.append_nil]
    exact h

/-- **Registration and login agree.** Among any other requests: a `userCreate` that succeeds has
drawn a salt, and in every later state the built-in authenticator takes a password for the login
exactly if it hashes, after the salt, to what the password of the registration does. A `userCreate`
that fails has not touched the table of users, and nothing that can happen changes what is stored
for a user. -/
theorem registration (hcodec : Function.LeftInverse d.base16Decode d.base16Encode) {c : System}
    (hc : c.world.db.Valid) {k : ℕ} {s : List (ℕ × Env)} {reply : Reply}
    (hk : (∃ cookies isSsl,
        c.threads k = serve d { cookies, isSsl, target := .api (.userCreate request) }) ∨
      c.threads k = serveSocket d (.userCreate request))
    (hdone : (c.run s).threads k = .done (.api reply)) :
    (reply.outcome.status = some .kSucceed → ∃ salt, Draws (c.events k s) salt ∧
      ∀ c', Relation.ReflTransGen (System.Step d) (c.run s) c' → ∀ password env,
        ((Service.builtinAuth d { user := request.user, password }).run env c'.world).1 = .ok () ↔
          d.sha3_512 (salt ++ password) = d.sha3_512 (salt ++ request.password)) ∧
    (reply.outcome.status ≠ some .kSucceed → KeepsUsersTable (c.events k s)) ∧
    ∀ c₁ c₂, System.Step d c₁ c₂ → c₁.world.db.credentials ⊆ c₂.world.db.credentials := by
  have halongside : (c.threads k).Alongside (fun _ _ _ ↦ True) _ c.world :=
    serve_userCreate_alongside hk c.world
  have hregistration := Pool.alongside_run (fun _ _ ↦ trivial) (fun _ _ _ _ _ _ ↦ trivial)
    halongside (Pool.undisturbed_true k c s) hdone reply rfl
  refine ⟨fun hstatus ↦ ?_, hregistration.2, fun c₁ c₂ hstep ↦ hstep.credentials_subset⟩
  obtain ⟨salt, hdraws, event, hevent, id, hstored⟩ := hregistration.1 hstatus
  refine ⟨salt, hdraws, fun c' hc' password env ↦ ?_⟩
  -- what was stored is still there when the call has ended
  have hend : event.after.db.credentials ⊆ (c.run s).world.db.credentials :=
    (Pool.rel_of_mem_events (R := fun u v : World ↦ u.db.credentials ⊆ v.db.credentials)
      (fun _ ↦ List.Subset.refl _) List.Subset.trans exec_credentials_subset hevent).2
  have hlater : (c.run s).world.db.credentials ⊆ c'.world.db.credentials ∧ c'.world.db.Valid := by
    induction hc' with
    | refl =>
      exact ⟨List.Subset.refl _, Pool.run_world_invariant (I := fun v : World ↦ v.db.Valid)
        exec_valid hc s⟩
    | tail _ hstep ih =>
      exact ⟨List.Subset.trans ih.1 hstep.credentials_subset, hstep.valid ih.2⟩
  exact run_builtinAuth hlater.2 hcodec (hlater.1 (hend hstored)) password env

/-! ## A deployment -/

def base16Decode : Bytes → Bytes
  | a :: b :: cs => (16 * Numeral.ofDigit a + Numeral.ofDigit b).toUInt8 :: base16Decode cs
  | _ => []

/-- The built-in authenticator, with numerals as the code. -/
def Deployment.builtin : Deployment where
  toConfig := { Deployment.plain.toConfig with authenticator := .kAuthBuiltin }
  toLibraries := { Deployment.plain.toLibraries with base16Decode := Scissy.base16Decode }

theorem base16_builtin :
    Function.LeftInverse Deployment.builtin.base16Decode Deployment.builtin.base16Encode := by
  intro s
  induction s with
  | nil => rfl
  | cons c s ih =>
    have hhigh : Numeral.ofDigit (Numeral.digit (c.toNat / 16)) = c.toNat / 16 :=
      Numeral.ofDigit_digit (by have := c.toNat_lt; omega)
    have hlow : Numeral.ofDigit (Numeral.digit (c.toNat % 16)) = c.toNat % 16 :=
      Numeral.ofDigit_digit (Nat.mod_lt _ (by decide))
    change (16 * Numeral.ofDigit (Numeral.digit (c.toNat / 16)) +
      Numeral.ofDigit (Numeral.digit (c.toNat % 16))).toUInt8 ::
        Deployment.builtin.base16Decode (Deployment.builtin.base16Encode s) = c :: s
    rw [ih, hhigh, hlow, Nat.div_add_mod]
    exact congrArg (· :: s) (UInt8.ofNat_toNat)

/-- A user registers over the socket. From then on the password is good. -/
theorem registration_first :
    let c : System := (System.idle .initial).assign 0 (serveSocket .builtin (.userCreate
      { user := text "u", password := text "secret", email := text "u@h" }))
    ∀ c', Relation.ReflTransGen (System.Step .builtin) (c.run [(0, {}), (0, {})]) c' → ∀ env,
      ((Service.builtinAuth .builtin { user := text "u", password := text "secret" }).run env
        c'.world).1 = .ok () := by
  intro c c' hc' env
  have hdone : (c.run [(0, {}), (0, {})]).threads 0 =
      .done (.api { outcome := .returned true (.statusMsg { status := some .kSucceed }) }) := rfl
  obtain ⟨salt, -, hauth⟩ :=
    (registration base16_builtin Database.valid_initial (Or.inr rfl) hdone).1 rfl
  exact (hauth c' hc' (text "secret") env).mpr rfl

end Scissy
