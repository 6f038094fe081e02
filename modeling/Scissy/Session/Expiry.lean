import Scissy.Server.Service

/-!
# The expiry of a session's cookies

`userAuth` reads the clock and adds the configured duration, which is in hours. It multiplies the
duration by the seconds of seven hours, in unsigned 32-bit arithmetic, so what it adds is seven
times too much or, from `170436` hours on, what is left of that.

`userAuth_run` follows the call through its operations. How the instant is written is up to a
library; `Expires` says that the cookies carry an instant whatever way it is written in.

## Which time

The clock is read by the sixth operation of a call that succeeds, whatever the authenticator is: it
asks one thing of the world, and the statement that stores the token has a time of its own, which is
that of another operation. So the condition is on one number, the duration, and on no time: what is
added to the clock is the configured duration or it is not.
-/

open Interaction Interaction.Prog

namespace Scissy

namespace Service

variable {d : Deployment} {session : Session} {request : Pb.UserAuth} {env : ℕ → Env} {w : World}

/-! ## The product -/

/-- What is added to the time. -/
def cookieSeconds (d : Deployment) : ℕ := ((7 * 60 * 60 : UInt32) * d.cookieDuration).toNat

theorem cookieSeconds_eq : cookieSeconds d = 25200 * d.cookieDuration.toNat % 2 ^ 32 := by
  rw [cookieSeconds, UInt32.toNat_mul]
  rfl

theorem cookieSeconds_eq_iff :
    cookieSeconds d = 3600 * d.cookieDuration.toNat ↔ d.cookieDuration = 0 := by
  have hlt : d.cookieDuration.toNat < 2 ^ 32 := d.cookieDuration.toNat_lt
  rw [cookieSeconds_eq, ← UInt32.toNat_inj, UInt32.toNat_zero]
  omega

/-! ## The cookies -/

theorem authenticate_eq_call (d : Deployment) (request : Pb.UserAuth) :
    ∃ (γ : Type) (op : Op γ) (next : γ → Server (Except (Option Bytes) Unit)),
      authenticate d request = .call op next ∧ (∀ b, ∃ r, next b = done r) ∧
        ∀ e (w : World), (Interp.exec op e w).2 = w := by
  rw [authenticate]
  split
  · refine ⟨_, _, _, rfl, fun rows ↦ ?_, fun _ _ ↦ rfl⟩
    cases rows with
    | nil => exact ⟨_, rfl⟩
    | cons row rows =>
      by_cases htype : row.1 = text "SHA3-512"
      · by_cases hhash : d.base16Decode row.2.2 ≠
          d.sha3_512 (d.base16Decode row.2.1 ++ request.password)
        · exact ⟨_, (if_pos htype).trans (if_pos hhash)⟩
        · exact ⟨_, (if_pos htype).trans (if_neg hhash)⟩
      · exact ⟨_, if_neg htype⟩
  · refine ⟨_, _, _, rfl, fun status? ↦ ?_, fun _ _ ↦ rfl⟩
    cases status? with
    | none => exact ⟨_, rfl⟩
    | some status =>
      by_cases hstatus : status = 0
      · exact ⟨_, if_pos hstatus⟩
      · exact ⟨_, if_neg hstatus⟩

theorem run_authenticate_bind {β : Type} (k : Except (Option Bytes) Unit → Server β) :
    (authenticate d request >>= k).run env w =
      (k ((authenticate d request).run env w).1).run (fun n ↦ env (n + 1)) w := by
  obtain ⟨γ, op, next, hcall, hdone, hsame⟩ := authenticate_eq_call d request
  obtain ⟨r, hr⟩ := hdone (Interp.exec op (env 0) w).1
  rw [hcall, call_bind, run_call, run_call, hsame, hr]
  rfl

/-- The token of a call, in the letters it is stored in. -/
def drawnToken (d : Deployment) (e : Env) : Bytes :=
  d.base16Encode ((List.range 32).map e.random)

/-- The call authenticates, finds the number of the user, draws a token and stores it. -/
def StoresToken (d : Deployment) (request : Pb.UserAuth) (env : ℕ → Env) (w : World) (id : ℤ) :
    Prop :=
  ((authenticate d request).run env w).1 = .ok () ∧
    ((Query.userGetId request.user).rows (env 1).pick w.db).head? = some id ∧
    (env 2).rndFails = false ∧
    (w.write (env 4) (.insertUserAuth (castInt id) (drawnToken d (env 2)) (env 3).now)).1 = .done

/-- **How `userAuth` ends.** It stores a token and asks for the session to add the cookies, with the
time that the sixth operation reads; or it fails. -/
theorem userAuth_run (d : Deployment) (thread : Option Session) (request : Pb.UserAuth)
    (env : ℕ → Env) (w : World) :
    let r := ((userAuth d thread request).run env w).1
    (∃ id, StoresToken d request env w id) ∧ r = thread.elim (.crash, []) (fun session ↦
        (.returned true { user := some request.user, status := some .kSucceed },
          authCookies d session request.user (drawnToken d (env 2)) (env 5).now)) ∨
      (∀ id, ¬ StoresToken d request env w id) ∧
        ∃ msg, r = (.returned true { status := some .kFailed, msg }, []) := by
  intro r
  have hr : r = _ := congrArg Prod.fst (run_authenticate_bind _)
  rw [hr]
  cases hauth : ((authenticate d request).run env w).1 with
  | error msg => exact Or.inr ⟨fun id hid ↦ (by cases hauth.symm.trans hid.1), msg, rfl⟩
  | ok _ =>
    simp only [Db.userGetId, fetch, issue, call_bind, done_bind, run_call, exec_query]
    cases hrow : ((Query.userGetId request.user).rows (env (0 + 1)).pick w.db).head? with
    | none => exact Or.inr ⟨fun id hid ↦ (by cases hrow.symm.trans hid.2.1), _, rfl⟩
    | some id =>
      simp only [pure_bind, run_call, exec_gnutlsRnd]
      by_cases hrnd : (env 2).rndFails = true
      · simp only [hrnd, if_true]
        exact Or.inr ⟨fun id hid ↦ (by cases hrnd.symm.trans hid.2.2.1), _, rfl⟩
      · simp only [hrnd, Bool.false_eq_true, if_false, run_call, exec_time, exec_write,
          Nat.reduceAdd]
        -- the token is stored, or the statement is refused
        by_cases hrc : (w.write (env 4) (.insertUserAuth (castInt id) (d.base16Encode
            ((List.range 32).map (env 2).random)) (env 3).now)).1 = .done
        · simp only [hrc, ne_eq, not_true_eq_false, if_false]
          refine Or.inl ⟨⟨id, hauth, hrow, Bool.eq_false_iff.mpr hrnd, hrc⟩, ?_⟩
          cases thread with
          | none => rfl
          | some session => rfl
        · simp only [hrc, ne_eq, not_false_eq_true, if_true]
          refine Or.inr ⟨fun id' hid ↦ hrc ?_, _, rfl⟩
          obtain rfl : id = id' := Option.some_inj.mp (hrow.symm.trans hid.2.1)
          exact hid.2.2.2

/-- **The cookies of a call.** There are none, or they carry a token and the time that the sixth
operation has read. -/
theorem userAuth_cookies (d : Deployment) (session : Session) (request : Pb.UserAuth)
    (env : ℕ → Env) (w : World) : ∃ token? : Option Bytes, ∀ format : ℤ → Bytes,
      ((userAuth { d with httpTime := format } (some session) request).run env w).1.2 =
        token?.elim [] fun token ↦
          authCookies { d with httpTime := format } session request.user token (env 5).now := by
  -- how instants are written makes no difference to the token
  have hsame (format : ℤ → Bytes) (id : ℤ) :
      StoresToken { d with httpTime := format } request env w id ↔
        StoresToken d request env w id := Iff.rfl
  by_cases hstores : ∃ id, StoresToken d request env w id
  · refine ⟨some (drawnToken d (env 2)), fun format ↦ ?_⟩
    rcases userAuth_run { d with httpTime := format } (some session) request env w with
      ⟨-, hr⟩ | ⟨hno, -⟩
    · exact congrArg Prod.snd hr
    · obtain ⟨id, hid⟩ := hstores
      exact absurd ((hsame format id).mpr hid) (hno id)
  · refine ⟨none, fun format ↦ ?_⟩
    rcases userAuth_run { d with httpTime := format } (some session) request env w with
      ⟨⟨id, hid⟩, -⟩ | ⟨-, msg, hr⟩
    · exact absurd ⟨id, (hsame format id).mp hid⟩ hstores
    · exact congrArg Prod.snd hr

/-- Both cookies of a call carry the instant, whatever way instants are written in. -/
def Expires (d : Deployment) (session : Session) (request : Pb.UserAuth) (env : ℕ → Env)
    (w : World) (instant : ℤ) : Prop :=
  ∀ format : ℤ → Bytes,
    ∀ c ∈ ((userAuth { d with httpTime := format } (some session) request).run env w).1.2,
      c.expires = format instant

theorem expires_iff (hcookies : ((userAuth d (some session) request).run env w).1.2 ≠ [])
    {instant : ℤ} :
    Expires d session request env w instant ↔ (env 5).now + cookieSeconds d = instant := by
  obtain ⟨token?, htoken⟩ := userAuth_cookies d session request env w
  obtain ⟨token, rfl⟩ : ∃ token, token? = some token := by
    cases token? with
    | none => exact absurd (htoken d.httpTime) hcookies
    | some token => exact ⟨token, rfl⟩
  constructor
  · intro hexpires
    have hmem := hexpires (fun t ↦ if t = instant then [] else [0])
    rw [htoken] at hmem
    have hcookie := hmem _ List.mem_cons_self
    by_contra hne
    change (if (env 5).now + (cookieSeconds d : ℤ) = instant then [] else [0]) =
      (if instant = instant then [] else [0] : Bytes) at hcookie
    rw [if_neg hne, if_pos rfl] at hcookie
    cases hcookie
  · rintro rfl format c hc
    rw [htoken] at hc
    rcases List.mem_pair.mp hc with rfl | rfl
    · rfl
    · rfl

/-- **When the cookies expire as configured.** Whatever the time is, they do exactly if the
duration is zero. -/
theorem expires_configured_iff (d : Deployment) (session : Session) (request : Pb.UserAuth)
    (env : ℕ → Env) (w : World)
    (hcookies : ((userAuth d (some session) request).run env w).1.2 ≠ []) :
    Expires d session request env w ((env 5).now + 3600 * d.cookieDuration.toNat) ↔
      d.cookieDuration = 0 := by
  rw [expires_iff hcookies, ← cookieSeconds_eq_iff, add_right_inj]
  norm_cast

/-- An external program lets everybody in, at one time. -/
def atTime (t : ℤ) : ℕ → Env := fun _ ↦ { now := t, exitStatus := some 0 }

/-- The world of one user. -/
def worldOfOneUser : World :=
  { World.initial with
    db := Write.applyAll 0 .initial [.insertUser (text "u") (text "u@h") [] [] []] }

theorem expires_configured_zero :
    Expires { Deployment.plain with cookieDuration := 0 } {} ⟨text "u", []⟩ (atTime 1000)
      worldOfOneUser 1000 :=
  (expires_configured_iff { Deployment.plain with cookieDuration := 0 } {} ⟨text "u", []⟩
    (atTime 1000) worldOfOneUser (by decide +kernel)).mpr rfl

/-- Seven hours are two days and one hour, and a longer duration can be a shorter one. -/
theorem not_expires_configured :
    let expiry (duration : UInt32) (instant : ℤ) : Prop :=
      Expires { Deployment.plain with cookieDuration := duration } {} ⟨text "u", []⟩ (atTime 0)
        worldOfOneUser instant
    ¬ expiry 7 (3600 * 7) ∧ expiry 7 (3600 * 49) ∧
      expiry 170435 4294962000 ∧ expiry 170436 19904 := by
  intro expiry
  have hiff (duration : UInt32) (instant : ℤ)
      (h : ((userAuth { Deployment.plain with cookieDuration := duration } (some {})
        ⟨text "u", []⟩).run (atTime 0) worldOfOneUser).1.2 ≠ []) :
      expiry duration instant ↔
        0 + (cookieSeconds { Deployment.plain with cookieDuration := duration } : ℤ) = instant :=
    expires_iff h
  refine ⟨fun h ↦ ?_, ?_, ?_, ?_⟩
  · exact absurd ((hiff 7 _ (by decide +kernel)).mp h) (by decide)
  · exact (hiff 7 _ (by decide +kernel)).mpr (by decide)
  · exact (hiff 170435 _ (by decide +kernel)).mpr (by decide)
  · exact (hiff 170436 _ (by decide +kernel)).mpr (by decide)

end Service

end Scissy
