import Scissy.Access.Session
import Scissy.Server.Footprint
import Scissy.Text.KeyLine

/-!
# The file of authorized keys

`genAuthorizedKeys` prints one line for each row of `users_ssh_keys`. Whoever authenticates with
the file reads it line by line, and a line whose command is missing or belongs to somebody else
logs in without the restrictions or as somebody else.

A printed line is read as it was meant whatever the key is, because the key comes last
(`read_keyLine`). The file is read as it was meant exactly when no key contains a newline
(`faithful_iff`), which no handler checks. After any sequence of requests the file is the
printout of the table (`serve_rendered`), so the keys that were accepted decide
(`serveAll_faithful`).

## What reading means

`KeyLine.read` takes a line apart into options, a type and a key, as it is done by everybody who
looks for lines of the form that is printed here. It is the meaning that the file has in
`Faithful`, and no more: a line without options is no entry, and which of several entries a reader
chooses is not asked. What an ssh server does with the file is a matter of `Client/Login`.

## Printing and reading back

The lines are written one by one at the offset of a stream that was opened before, over a file that
was truncated before that. As long as one request is served after the other, the file is the
concatenation of the lines. What two requests make of it is `Concurrency/Revocation`.
-/

open Relational Interaction Interaction.Prog

namespace Scissy

variable {A : Env → Prop} {d : Deployment} {w : World}

/-! ## One line -/

/-- The line of a row. -/
def keyLine (d : Deployment) (r : UserSshKey) : Bytes :=
  authorizedKeysLine d r.userId r.keyType r.key

/-- What a row allows: to log in with its key, for the command of its user and nothing else. -/
def keyEntry (d : Deployment) (r : UserSshKey) : KeyLine.Entry where
  options :=
    [text "command=\"scissy-shell -socket " ++ d.socket ++ text " -user-id "
        ++ Numeral.numeral 10 r.userId.toNat ++ text "\"",
      text "no-port-forwarding", text "no-pty", text "no-X11-forwarding"]
  keyType := sshKeyTypeName r.keyType
  key := r.key

theorem notMem_numeral {c : UInt8} (n : ℕ) (h : ¬ Numeral.IsDigit c) :
    c ∉ Numeral.numeral 10 n := by
  intro hc
  exact h (Numeral.isDigit_of_mem_numeral (by decide) (by decide) hc)

theorem sshKeyTypeName_plain (keyType : ℤ) :
    KeyLine.Plain KeyLine.blank (sshKeyTypeName keyType) := by
  rw [sshKeyTypeName]
  split_ifs <;> decide +kernel

/-- A line with a forced command: no forwarding, no terminal, and one key. -/
def commandLine (command keyType key : Bytes) : Bytes :=
  text "command=\"" ++ command ++ text "\",no-port-forwarding,no-pty,no-X11-forwarding " ++ keyType
    ++ text " " ++ key

/-- What such a line says. -/
def commandEntry (command keyType key : Bytes) : KeyLine.Entry where
  options := [text "command=\"" ++ command ++ text "\"", text "no-port-forwarding",
    text "no-pty", text "no-X11-forwarding"]
  keyType := keyType
  key := key

/-- Such a line is read as what it says, whatever the key is. -/
theorem read_commandLine {command keyType key : Bytes} {c : UInt8}
    (hlast : command.getLast? = some c) (hquote : KeyLine.quote ∉ command)
    (hback : c ≠ KeyLine.backslash) (htype : KeyLine.Plain KeyLine.blank keyType) :
    KeyLine.read (commandLine command keyType key) = some (commandEntry command keyType key) := by
  obtain ⟨value, rfl⟩ := List.getLast?_eq_some_iff.mp hlast
  have hvalue : KeyLine.quote ∉ value := fun hmem ↦ hquote (List.mem_append_left _ hmem)
  have hc : c ≠ KeyLine.quote := fun heq ↦
    hquote (heq ▸ List.mem_append_right _ (List.mem_singleton_self c))
  have hoption : text "command=\"" ++ (value ++ [c]) ++ text "\"" =
      KeyLine.quotedOption (text "command=") value c := by
    rw [show text "command=\"" = text "command=" ++ [KeyLine.quote] from rfl, KeyLine.quotedOption]
    simp only [List.append_assoc, List.cons_append, List.nil_append]
    rfl
  have hline : commandLine (value ++ [c]) keyType key =
      KeyLine.quotedOption (text "command=") value c ++
        KeyLine.comma :: (text "no-port-forwarding,no-pty,no-X11-forwarding" ++
          KeyLine.blank :: (keyType ++ KeyLine.blank :: key)) := by
    rw [← hoption, commandLine,
      show text "\",no-port-forwarding,no-pty,no-X11-forwarding " = text "\"" ++ KeyLine.comma ::
        (text "no-port-forwarding,no-pty,no-X11-forwarding" ++ [KeyLine.blank]) from rfl,
      show text " " = [KeyLine.blank] from rfl]
    simp only [List.append_assoc, List.cons_append, List.nil_append]
  rw [hline, KeyLine.read_eq (by decide +kernel) (by decide +kernel) hvalue hc hback
    (by decide +kernel) htype, commandEntry, hoption]
  rfl

/-- The command of a user. -/
def userCommand (d : Deployment) (userId : ℤ) : Bytes :=
  text "scissy-shell -socket " ++ d.socket ++ text " -user-id " ++ Numeral.numeral 10 userId.toNat

theorem keyLine_eq (d : Deployment) (r : UserSshKey) :
    keyLine d r = commandLine (userCommand d r.userId) (sshKeyTypeName r.keyType) r.key := by
  rw [keyLine, authorizedKeysLine, commandLine, userCommand,
    show text "command=\"scissy-shell -socket " =
      text "command=\"" ++ text "scissy-shell -socket " from rfl]
  simp only [List.append_assoc]

theorem keyEntry_eq (d : Deployment) (r : UserSshKey) :
    keyEntry d r = commandEntry (userCommand d r.userId) (sshKeyTypeName r.keyType) r.key := by
  rw [keyEntry, commandEntry, userCommand,
    show text "command=\"scissy-shell -socket " =
      text "command=\"" ++ text "scissy-shell -socket " from rfl]
  simp only [List.append_assoc]

theorem getLast?_userCommand (d : Deployment) (userId : ℤ) :
    ∃ c, (userCommand d userId).getLast? = some c ∧ Numeral.IsDigit c := by
  have hne : Numeral.numeral 10 userId.toNat ≠ [] := Numeral.numeral_ne_nil _
  refine ⟨(Numeral.numeral 10 userId.toNat).getLast hne, ?_, ?_⟩
  · rw [userCommand, List.getLast?_append_of_ne_nil _ hne, List.getLast?_eq_some_getLast hne]
  · exact Numeral.isDigit_of_mem_numeral (by decide) (by decide) (List.getLast_mem hne)

theorem quote_notMem_userCommand (hsocket : KeyLine.quote ∉ d.socket) (userId : ℤ) :
    KeyLine.quote ∉ userCommand d userId := by
  simp only [userCommand, List.mem_append, not_or]
  exact ⟨⟨⟨by decide +kernel, hsocket⟩, by decide +kernel⟩, notMem_numeral _ (by decide)⟩

/-- **A printed line is read as the entry of its row**, whatever the key is. -/
theorem read_keyLine (hsocket : KeyLine.quote ∉ d.socket) (r : UserSshKey) :
    KeyLine.read (keyLine d r) = some (keyEntry d r) := by
  obtain ⟨c, hlast, hdigit⟩ := getLast?_userCommand d r.userId
  rw [keyLine_eq, keyEntry_eq]
  refine read_commandLine hlast (quote_notMem_userCommand hsocket _) ?_
    (sshKeyTypeName_plain r.keyType)
  rintro rfl
  exact absurd hdigit (by decide)

/-! ## The whole file -/

/-- The printout of the table. -/
def keyFile (d : Deployment) (db : Database) : Bytes :=
  TextFile.unlines newline (db.usersSshKeys.rows.map fun r ↦ keyLine d r.2)

/-- The file is the printout of the table. -/
def Rendered (d : Deployment) (w : World) : Prop := w.authKeys = keyFile d w.db

/-- Read line by line, the file has the entries of the rows and no others. -/
def Faithful (d : Deployment) (w : World) : Prop :=
  (TextFile.lines newline w.authKeys).map KeyLine.read =
    w.db.usersSshKeys.rows.map fun r ↦ some (keyEntry d r.2)

/-- No stored key contains a newline. -/
def Database.KeysAreLines (db : Database) : Prop :=
  ∀ r ∈ db.usersSshKeys.rows, newline ∉ r.2.key

instance (db : Database) : Decidable db.KeysAreLines :=
  inferInstanceAs (Decidable (∀ r ∈ db.usersSshKeys.rows, _))

theorem newline_mem_keyLine_iff (hsocket : newline ∉ d.socket) (r : UserSshKey) :
    newline ∈ keyLine d r ↔ newline ∈ r.key := by
  have hnumeral := notMem_numeral r.userId.toNat (c := newline) (by decide)
  have htype : newline ∉ sshKeyTypeName r.keyType := by
    rw [sshKeyTypeName]
    split_ifs <;> decide +kernel
  have hopen : newline ∉ text "command=\"scissy-shell -socket " := by decide
  have huser : newline ∉ text " -user-id " := by decide
  have hclose : newline ∉ text "\",no-port-forwarding,no-pty,no-X11-forwarding " := by decide
  have hblank : newline ∉ text " " := by decide
  simp only [keyLine, authorizedKeysLine, List.mem_append, hsocket, hnumeral, htype, hopen, huser,
    hclose, hblank, false_or]

/-- **When the file says what the table says.** -/
theorem faithful_iff (hquote : KeyLine.quote ∉ d.socket) (hnewline : newline ∉ d.socket)
    (h : Rendered d w) : Faithful d w ↔ w.db.KeysAreLines := by
  rw [Rendered] at h
  rw [Faithful, h, keyFile]
  constructor
  · intro hfaithful r hr
    let printed := w.db.usersSshKeys.rows.map fun r ↦ keyLine d r.2
    have hlength : (TextFile.lines newline (TextFile.unlines newline printed)).length =
        printed.length := by
      simpa only [printed, List.length_map] using congrArg List.length hfaithful
    have hline := TextFile.length_lines_unlines_eq_iff printed |>.mp hlength _
      (List.mem_map_of_mem hr)
    rwa [newline_mem_keyLine_iff hnewline] at hline
  · intro hkeys
    have hlines : ∀ l ∈ w.db.usersSshKeys.rows.map fun r ↦ keyLine d r.2, newline ∉ l := by
      intro l hl
      obtain ⟨r, hr, rfl⟩ := List.mem_map.mp hl
      rw [newline_mem_keyLine_iff hnewline]
      exact hkeys r hr
    rw [TextFile.lines_unlines hlines, List.map_map]
    exact List.map_congr_left fun r _ ↦ read_keyLine hquote r.2

/-! ## Writing the file -/

theorem writeAuthorizedKeys_wp (rows : List (ℤ × ℤ × Bytes)) {offset : ℕ}
    (h : w.authKeys.length = offset) :
    (writeAuthorizedKeys d offset rows).wp A (fun _ v ↦ v = { w with
      authKeys := w.authKeys ++ TextFile.unlines newline
        (rows.map fun r ↦ authorizedKeysLine d r.1 r.2.1 r.2.2) }) w := by
  induction rows generalizing w offset with
  | nil => exact (congrArg (fun keys ↦ { w with authKeys := keys }) (List.append_nil _)).symm
  | cons row rows ih =>
    obtain ⟨userId, keyType, key⟩ := row
    intro e _
    rw [exec_writeAuthKeys, ← h, TextFile.overwrite_length]
    refine wp_mono (ih (by rw [List.length_append])) fun _ v hv ↦ ?_
    rw [hv, List.map_cons, TextFile.unlines_cons]
    simp only [List.append_assoc, List.singleton_append]

/-- `genAuthorizedKeys` prints the table and changes nothing else. -/
theorem genAuthorizedKeys_wp :
    (genAuthorizedKeys d).wp A (fun _ v ↦ v = { w with authKeys := keyFile d w.db }) w := by
  intro e₁ _ e₂ _
  refine wp_mono (writeAuthorizedKeys_wp _ rfl) fun _ v hv ↦ ?_
  rw [hv, keyFile, exec_openAuthKeys, exec_query, Query.rows, List.map_map]
  rfl

theorem changeSshKeys_wp (s : Write) :
    (Service.changeSshKeys d s).wp A (fun _ v ↦ Rendered d v ∧
      (v.db = w.db ∨ ∃ now, s.Effect now w.db v.db)) w := by
  have hrest (rc : ResultCode) (u : World) :
      (if !(rc.code ≠ 0) then return Service.reply .kFailed (text "SQL error") else do
        genAuthorizedKeys d
        return Service.succeed : Server (Outcome Pb.StatusMsg)).wp A
      (fun _ v ↦ v = { u with authKeys := keyFile d u.db }) u := by
    -- the code compares `rc` with zero, and no statement ends with that
    rw [if_neg (by simp [rc.code_ne_zero]), wp_bind]
    exact genAuthorizedKeys_wp
  refine wp_write (fun e _ v heffect _ ↦ ?_) fun rc _ ↦ ?_
  · refine wp_mono (hrest .done v) fun _ u hu ↦ ?_
    rw [hu]
    exact ⟨rfl, Or.inr ⟨e.now, heffect⟩⟩
  · refine wp_mono (hrest rc w) fun _ u hu ↦ ?_
    rw [hu]
    exact ⟨rfl, Or.inl rfl⟩

/-! ## Sequences of requests -/

theorem serve_changeSshKeys (rpc : Rpc) {s : Session → Write}
    (hrpc : ∀ session, dispatch d (some session) rpc =
      answer .statusMsg (Service.changeSshKeys d (s session)))
    (cookies : Cookies) (isSsl : Bool) (env : ℕ → Env) (w : World) :
    let v := ((serve d { cookies, isSsl, target := .api rpc }).run env w).2
    Rendered d v ∧ (v.db = w.db ∨ ∃ session now, (s session).Effect now w.db v.db) := by
  have hwp : (serve d { cookies, isSsl, target := .api rpc }).wp (fun _ ↦ True)
      (fun _ v ↦ Rendered d v ∧
        (v.db = w.db ∨ ∃ session now, (s session).Effect now w.db v.db)) w := by
    rw [serve, wp_map, sessionHandle]
    refine (sessionAuth_returns cookies isSsl).wp_bind ?_
    rw [hrpc, answer, wp_bind]
    refine wp_mono (changeSshKeys_wp (s (w.db.session cookies isSsl))) fun _ u hu ↦ ?_
    exact ⟨hu.1, hu.2.imp_right fun ⟨now, heffect⟩ ↦ ⟨_, now, heffect⟩⟩
  exact hwp.run env fun _ ↦ trivial

/-- The key of a request to add one is a line. -/
def HttpRequest.AddsLine (request : HttpRequest) : Prop :=
  ∀ add, request.target = .api (.userAddSshKey add) → newline ∉ add.key.key

/-- **One request** leaves the file a printout of the table, and every stored key a line if the
key it may add is one. -/
theorem serve_rendered (h : Rendered d w) (request : HttpRequest) (env : ℕ → Env) :
    Rendered d ((serve d request).run env w).2 ∧ (request.AddsLine → w.db.KeysAreLines →
      ((serve d request).run env w).2.db.KeysAreLines) := by
  by_cases hkeys : Resource.authKeys ∈ request.footprint
  · -- one of the two calls that change keys
    obtain ⟨cookies, isSsl, rpc | _ | location⟩ := request
    · cases rpc with
      | userAddSshKey add =>
        obtain ⟨hrendered, hdb⟩ := serve_changeSshKeys (d := d) (.userAddSshKey add)
          (fun _ ↦ rfl) cookies isSsl env w
        refine ⟨hrendered, fun hadd hlines ↦ ?_⟩
        rcases hdb with hdb | ⟨session, now, -, -, t, ht, hdb⟩
        · rwa [hdb]
        · intro r hr
          rw [hdb] at hr
          rw [(AutoTable.rows_of_insert ht).1, List.mem_append, List.mem_singleton] at hr
          rcases hr with hr | rfl
          · exact hlines r hr
          · exact hadd add rfl
      | userRemoveSshKey remove =>
        obtain ⟨hrendered, hdb⟩ := serve_changeSshKeys (d := d) (.userRemoveSshKey remove)
          (fun _ ↦ rfl) cookies isSsl env w
        refine ⟨hrendered, fun _ hlines ↦ ?_⟩
        rcases hdb with hdb | ⟨session, now, hdb⟩
        · rwa [hdb]
        · intro r hr
          rw [hdb] at hr
          exact hlines r ((AutoTable.filter_sublist _).subset hr)
      | _ => simp at hkeys
    · simp at hkeys
    · simp at hkeys
  · -- the other calls touch neither the table nor the file
    have htable : Resource.table .usersSshKeys ∉ request.footprint := by
      obtain ⟨cookies, isSsl, rpc | _ | location⟩ := request
      · cases rpc <;> simp at hkeys ⊢
      · simp
      · simp
    have hsame : ((serve d request).run env w).2.authKeys = w.authKeys := serve_same hkeys env w
    have hsameTable : ((serve d request).run env w).2.db.usersSshKeys = w.db.usersSshKeys :=
      serve_same htable env w
    refine ⟨?_, fun _ hlines r hr ↦ ?_⟩
    · rw [Rendered, hsame, h, keyFile, keyFile, hsameTable]
    · rw [hsameTable] at hr
      exact hlines r hr

/-- The world after a start. -/
def World.started (d : Deployment) (env : ℕ → Env) (w : World) : World :=
  ((genAuthorizedKeys d).run env w).2

theorem started_eq (env : ℕ → Env) (w : World) :
    w.started d env = { w with authKeys := keyFile d w.db } :=
  (genAuthorizedKeys_wp (A := fun _ ↦ True)).run env fun _ ↦ trivial

theorem serveAll_rendered (h : Rendered d w) (arrivals : List Arrival) :
    Rendered d (serveAll d arrivals w).2 ∧
      ((∀ arrival ∈ arrivals, arrival.1.AddsLine) → w.db.KeysAreLines →
        (serveAll d arrivals w).2.db.KeysAreLines) := by
  induction arrivals generalizing w with
  | nil => exact ⟨h, fun _ hlines ↦ hlines⟩
  | cons arrival arrivals ih =>
    obtain ⟨request, env⟩ := arrival
    obtain ⟨hrendered, hlines⟩ := serve_rendered h request env
    obtain ⟨hall, hallLines⟩ := ih hrendered
    refine ⟨hall, fun hadds hw ↦ ?_⟩
    rw [List.forall_mem_cons] at hadds
    exact hallLines hadds.2 (hlines hadds.1 hw)

/-- **The identity of the keys.** After a start and any sequence of requests, the file says what
the table says exactly when no stored key contains a newline. So it does if none of the keys the
requests add contains one, and none was there before. -/
theorem serveAll_faithful (hquote : KeyLine.quote ∉ d.socket) (hnewline : newline ∉ d.socket)
    (env : ℕ → Env) (w : World) (arrivals : List Arrival) :
    let after := (serveAll d arrivals (w.started d env)).2
    (Faithful d after ↔ after.db.KeysAreLines) ∧
      ((∀ arrival ∈ arrivals, arrival.1.AddsLine) → w.db.KeysAreLines → Faithful d after) := by
  intro after
  have hstarted : Rendered d (w.started d env) := by rw [Rendered, started_eq]
  obtain ⟨hrendered, hlines⟩ := serveAll_rendered hstarted arrivals
  have hiff := faithful_iff hquote hnewline hrendered
  refine ⟨hiff, fun hadds hw ↦ hiff.mpr (hlines hadds ?_)⟩
  rwa [started_eq]

/-- Two users, who add a key each. -/
def addsTwoKeys (key key' : Bytes) : List Arrival :=
  let add (login key : Bytes) : Arrival :=
    ({ cookies := { user := some login, token := some (text "t") }
       target := .api (.userAddSshKey { key := { type := .kSshKeyRsa, key } }) }, fun _ ↦ {})
  [add (text "u") key, add (text "v") key']

theorem serveAll_faithful_two :
    Faithful .plain (serveAll .plain (addsTwoKeys (text "AAAA") (text "BBBB"))
      (World.started .plain (fun _ ↦ {}) { World.initial with db := .twoSessions })).2 := by
  refine (serveAll_faithful (by decide) (by decide) _ _ _).2 ?_ (by decide)
  intro arrival harrival add hadd
  rcases List.mem_pair.mp harrival with rfl | rfl
  · cases hadd
    decide
  · cases hadd
    decide

/-- A key with a newline brings a line without a command into the file. -/
theorem not_faithful_newline :
    let after := (serveAll .plain (addsTwoKeys (text "AAAA") (text "BBBB\nssh-rsa CCCC"))
      (World.started .plain (fun _ ↦ {}) { World.initial with db := .twoSessions })).2
    ¬ Faithful .plain after ∧ after.db.usersSshKeys.rows.length = 2 ∧
      text "ssh-rsa CCCC" ∈ TextFile.lines newline after.authKeys := by
  intro after
  have hrows : after.db.usersSshKeys.rows.length = 2 := by decide +kernel
  have hlines : (TextFile.lines newline after.authKeys).length = 3 := by decide +kernel
  refine ⟨fun h ↦ ?_, hrows, by decide +kernel⟩
  -- three lines for two rows
  have hlength := congrArg List.length h
  rw [List.length_map, List.length_map, hrows, hlines] at hlength
  cases hlength

end Scissy
