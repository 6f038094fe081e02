import Scissy.Report.Acknowledgement

/-!
# Registered once

The login and the address of a user are unique, and no call deletes a user. So a registration is
final: whoever is told that it has succeeded has the account, with the salt and the hash of this
registration, and nobody else is told so for the same login or the same address, however many
registrations are under way (`acknowledged_registration`).

## Why both are unique

The statement that inserts the account is refused if the login or the address is used. Two
registrations that have been carried out are two events, of which one comes first. Accounts stay, so
the second statement meets the account of the first one, and its login and its address are others.
Nothing has to be assumed about when the two calls were answered.
-/

open Interaction Interaction.Prog Relational

namespace Scissy

/-! ## The call -/

section Registers

variable {d : Deployment} {request : Pb.UserCreate} {past : Past}

theorem dispatch_registers (thread : Option Session) (hidle : past.Only fun _ ↦ False) :
    (dispatch d thread (.userCreate request)).Obeys (fun w : World ↦ w.db.Valid)
      (fun _ _ ↦ True) (fun past' reply ↦ reply.outcome.status = some .kSucceed →
        Service.Registers d request past') past := by
  rw [dispatch, answer, obeys_bind]
  refine (Service.userCreate_obeys request hidle).mono fun past' outcome _ h hsucceed ↦ ?_
  rcases h with ⟨hrefuses, -⟩ | ⟨-, hregisters⟩
  · exact absurd hsucceed hrefuses
  · exact hregisters

theorem Job.registers {job : Job} (hjob : job.rpc? = some (.userCreate request)) :
    (job.program d).Obeys (fun w : World ↦ w.db.Valid) (fun _ _ ↦ True)
      (fun past' response ↦ ∀ reply, response = .api reply →
        reply.outcome.status = some .kSucceed → Service.Registers d request past') [] := by
  cases job with
  | http http =>
    obtain ⟨cookies, isSsl, target⟩ := http
    cases target with
    | api rpc =>
      cases hjob
      have hserve : (serve d { cookies, isSsl, target := .api (.userCreate request) }).Obeys
          _ _ _ [] :=
        serve_api_obeys rfl fun session _ hidle ↦ dispatch_registers (some session) hidle
      refine hserve.mono fun past' response _ h reply hreply ↦ ?_
      obtain ⟨-, -, hregisters⟩ := h reply hreply
      exact hregisters
    | logout => cases hjob
    | archive location => cases hjob
  | socket rpc =>
    cases hjob
    change (HttpResponse.api <$> dispatch d none _).Obeys _ _ _ _
    rw [obeys_map]
    refine (dispatch_registers none (List.forall_mem_nil _)).mono fun past' reply _ h ↦ ?_
    rintro _ ⟨⟩
    exact h

end Registers

/-! ## The account -/

section Run

variable {d : Deployment} {jobs : ℕ → Job} {w : World} {s : List (ℕ × Env)} {k : ℕ}
  {request : Pb.UserCreate}

theorem exists_registration
    (h : Service.Registers d request ((System.serving d jobs w).events k s)) :
    ∃ salt id, ∃ event ∈ (System.serving d jobs w).events k s, salt.length = 16 ∧
      (∀ row ∈ event.before.db.users.rows,
        row.2.login ≠ request.user ∧ row.2.email ≠ request.email) ∧
      (id, ⟨request.user, request.email, text "SHA3-512", d.base16Encode salt,
        d.base16Encode (d.sha3_512 (salt ++ request.password)), 2⟩) ∈
          event.after.db.users.rows := by
  obtain ⟨salt, hdrew, e, v, hrc, hevent⟩ := h
  obtain ⟨hlogin, hemail, t, ht, hdb⟩ := World.effect_of_done hrc
  refine ⟨salt, v.db.users.seq + 1, _, hevent, hdrew.length_of_drawn, fun row hrow ↦ ⟨?_, ?_⟩, ?_⟩
  · exact fun heq ↦ hlogin (heq ▸ List.mem_map_of_mem (f := fun r ↦ r.2.login) hrow)
  · exact fun heq ↦ hemail (heq ▸ List.mem_map_of_mem (f := fun r ↦ r.2.email) hrow)
  · change _ ∈ (v.write e _).2.db.users.rows
    rw [hdb]
    exact (AutoTable.rows_of_insert ht).1 ▸ List.mem_append_right _ (List.mem_singleton_self _)

theorem keepsUsers_of_mem_events {event : Event Op World}
    (h : event ∈ (System.serving d jobs w).events k s) :
    KeepsUsers w.db event.before.db ∧
      KeepsUsers event.after.db ((System.serving d jobs w).run s).world.db :=
  Pool.rel_of_mem_events (R := fun u v : World ↦ KeepsUsers u.db v.db) (fun _ ↦ .refl _)
    KeepsUsers.trans exec_keepsUsers h

/-- **Registered once.** In any interleaving of any number of jobs, a registration that reports a
success has an account at the end, with its login, its address, a salt of 16 drawn bytes and the
hash of its password. Nobody had the login or the address before, and no other registration of the
same login or the same address reports a success. -/
theorem acknowledged_registration {reply : Reply} (hw : w.db.Valid)
    (hjob : (jobs k).rpc? = some (.userCreate request))
    (hdone : ((System.serving d jobs w).run s).threads k = .done (.api reply))
    (hsucceed : reply.outcome.status = some .kSucceed) :
    let after := (System.serving d jobs w).run s
    (∃ salt id, salt.length = 16 ∧
      (id, ⟨request.user, request.email, text "SHA3-512", d.base16Encode salt,
        d.base16Encode (d.sha3_512 (salt ++ request.password)), 2⟩) ∈
          after.world.db.users.rows) ∧
    (∀ row ∈ w.db.users.rows, row.2.login ≠ request.user ∧ row.2.email ≠ request.email) ∧
    ∀ k' ≠ k, ∀ request' reply', (jobs k').rpc? = some (.userCreate request') →
      after.threads k' = .done (.api reply') → reply'.outcome.status = some .kSucceed →
      request'.user ≠ request.user ∧ request'.email ≠ request.email := by
  intro after
  have hend := of_done hw rfl (Job.registers hjob) hdone
  obtain ⟨salt, id, event, hevent, hlength, hnew, hin⟩ :=
    exists_registration (hend reply rfl hsucceed)
  obtain ⟨hbefore, hafter⟩ := keepsUsers_of_mem_events hevent
  refine ⟨⟨salt, id, hlength, hafter.mem hin⟩, fun row hrow ↦ hnew row (hbefore.mem hrow), ?_⟩
  intro k' hne request' reply' hjob' hdone' hsucceed'
  have hend' := of_done hw rfl (Job.registers hjob') hdone'
  obtain ⟨salt', id', event', hevent', -, hnew', hin'⟩ :=
    exists_registration (hend' reply' rfl hsucceed')
  -- whichever of the two comes second has met the account of the other one
  rcases Pool.rel_or_rel_of_mem_events (R := fun u v : World ↦ KeepsUsers u.db v.db)
    (fun _ ↦ .refl _) KeepsUsers.trans exec_keepsUsers hne.symm hevent hevent' with hlater | hlater
  · obtain ⟨hlogin, hemail⟩ := hnew' _ (hlater.mem hin)
    exact ⟨hlogin.symm, hemail.symm⟩
  · exact hnew _ (hlater.mem hin')

theorem acknowledged_registration_registers :
    let jobs := Job.first [.registers]
    let s := List.replicate 9 (0, {})
    ∃ (salt : Bytes) (id : ℤ), salt.length = 16 ∧
      (id, ⟨text "w", text "w@h", text "SHA3-512", Deployment.plain.base16Encode salt,
        Deployment.plain.base16Encode (salt ++ text "secret"), 2⟩) ∈
          ((System.serving .plain jobs .twoSessions).run s).world.db.users.rows := by
  intro jobs s
  have hstatus : endStatus (((System.serving .plain jobs .twoSessions).run s).threads 0) =
      some .kSucceed := by decide +kernel
  obtain ⟨reply, hdone, hsucceed⟩ := exists_reply_of_endStatus hstatus
  have hjob : (jobs 0).rpc? = some (.userCreate
      { user := text "w", password := text "secret", email := text "w@h" }) := rfl
  exact (acknowledged_registration Database.valid_twoSessions hjob hdone hsucceed).1

end Run

end Scissy
