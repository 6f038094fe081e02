import Scissy.Client.Quoting
import Scissy.Security.AuthorizedKeys
import Scissy.Session.LifeCycle

/-!
# From a key to a repository

What happens to somebody who logs in over ssh and asks for a repository. The ssh server looks for
the key in the file of authorized keys, and runs the command that stands before it; `sh` takes the
command apart, and mimosa its options; `scissy-shell` asks the server, which looks up the user of
the option and decides.

The chain keeps its promise (`ssh_login`): after any sequence of requests, whoever holds a key that
is stored for a user may do what that user may do, and nobody else gets in.

## What is not in the repository

The ssh server, `sh` and mimosa are parameters (`Host`). Nothing is said of how they take texts
apart in general. `Host.Documented` is what is relied on, and it is about texts of one form each:

- a file of lines that start with a forced command in quotes, a list of restrictions and a type
  (`HostLine`): the first line with a key of the client decides, and its command is run;
- a command of plain words, which `sh` splits at the blanks;
- the options of `scissy-shell` in the order in which they are printed.

So the theorem has to show that the file is of this form, whatever keys users have added. It is if
none of them contains a newline, which no handler checks; `not_faithful_newline` is what happens
otherwise.
-/

open Interaction Interaction.Prog

namespace Scissy

open Repositories (getRepoPath)

/-! ## The programs in between -/

/-- A word without meaning to `sh`: letters, digits, and `-`, `.`, `/`, `_`. -/
def IsWord (word : Bytes) : Prop :=
  word ≠ [] ∧ ∀ c ∈ word, Service.isAlnum c = true ∨ c = 45 ∨ c = 46 ∨ c = 47 ∨ c = 95

instance (word : Bytes) : Decidable (IsWord word) := inferInstanceAs (Decidable (_ ∧ ∀ c ∈ word, _))

/-- A line of the file of authorized keys that forces a command. -/
structure HostLine where
  command : Bytes
  keyType : Bytes
  key : Bytes

/-- How the line is written. -/
def HostLine.printed (line : HostLine) : Bytes := commandLine line.command line.keyType line.key

/-- A command without quotes and backslashes, a type that is one word, and a key on the same
line. -/
structure HostLine.WellFormed (line : HostLine) : Prop where
  command_ne_nil : line.command ≠ []
  quote : KeyLine.quote ∉ line.command
  backslash : KeyLine.backslash ∉ line.command
  newline : newline ∉ line.command
  keyType : IsWord line.keyType
  key : Scissy.newline ∉ line.key

/-- What the programs between a client and `scissy-shell` compute. -/
structure Host where
  /-- Whether this type and this text are those of a key the client has proved to hold. -/
  holds : Bytes → Bytes → Bool
  /-- What the ssh server makes of a file of authorized keys: the client is refused, or it is let
  in, for one command or for whatever it asks for. -/
  admits : Bytes → Option (Option Bytes)
  /-- The words of a command. -/
  words : Bytes → List Bytes
  /-- The values of `SOCKET_PATH` and `USER_ID` after the options of a command line. -/
  options : List Bytes → Option (Bytes × ℤ)

/-- What the documentation says. -/
structure Host.Documented (host : Host) : Prop where
  admits : ∀ lines : List HostLine, (∀ line ∈ lines, line.WellFormed) →
    host.admits (TextFile.unlines newline (lines.map HostLine.printed)) =
      (lines.find? fun line ↦ host.holds line.keyType line.key).map fun line ↦ some line.command
  words : ∀ words : List Bytes, words ≠ [] → (∀ word ∈ words, IsWord word) →
    host.words (List.intercalate [KeyLine.blank] words) = words
  options : ∀ socket (userId : ℕ), IsWord socket → userId < 2 ^ 63 →
    host.options [text "scissy-shell", text "-socket", socket, text "-user-id",
      Numeral.numeral 10 userId] = some (socket, (userId : ℤ))

/-- How a login ends. -/
inductive LoginResult
  | refused
  /-- The client gets whatever it asks for. -/
  | unrestricted
  | shell (result : ShellResult)

/-- A client with a key, who asks for `cmd`. -/
def Host.login (host : Host) (d : Deployment) (cmd : CString) (env : ℕ → Env) (w : World) :
    LoginResult :=
  match host.admits w.authKeys with
  | none => .refused
  | some none => .unrestricted
  | some (some command) =>
    match host.options (host.words command) with
    | none => .shell (.exit 1)
    | some (socket, userId) =>
      -- nobody listens at another socket
      if socket = d.socket then .shell ((shellMain d userId cmd).run env w).1
      else .shell (.exit 1)

/-- The stored key the client logs in with: the first one it holds. -/
def Host.keyOf (host : Host) (db : Database) : Option (ℤ × UserSshKey) :=
  db.usersSshKeys.rows.find? fun r ↦ host.holds (sshKeyTypeName r.2.keyType) r.2.key

/-! ## Plain words -/

variable {d : Deployment} {w : World} {host : Host}

theorem IsWord.notMem {word : Bytes} (h : IsWord word) {c : UInt8}
    (hc : ¬ (Service.isAlnum c = true ∨ c = 45 ∨ c = 46 ∨ c = 47 ∨ c = 95)) : c ∉ word :=
  fun hmem ↦ hc (h.2 c hmem)

theorem isWord_numeral (n : ℕ) : IsWord (Numeral.numeral 10 n) := by
  refine ⟨Numeral.numeral_ne_nil n, fun c hc ↦ Or.inl ?_⟩
  have hdigit := Numeral.isDigit_of_mem_numeral (by decide) (by decide) hc
  simp only [Service.isAlnum, Bool.or_eq_true, decide_eq_true_eq, UInt8.le_iff_toNat_le]
  rcases hdigit with ⟨hlow, hhigh⟩ | ⟨hlow, hhigh⟩
  · exact Or.inl (Or.inl ⟨hlow, hhigh⟩)
  · exact Or.inr ⟨hlow, hhigh.trans (by decide)⟩

theorem isWord_sshKeyTypeName (keyType : ℤ) : IsWord (sshKeyTypeName keyType) := by
  rw [sshKeyTypeName]
  split_ifs <;> decide +kernel

/-! ## The command -/

/-- The words of the command of a user. -/
def commandWords (d : Deployment) (userId : ℤ) : List Bytes :=
  [text "scissy-shell", text "-socket", d.socket, text "-user-id",
    Numeral.numeral 10 userId.toNat]

theorem isWord_of_mem_commandWords (hsocket : IsWord d.socket) (userId : ℤ) :
    ∀ word ∈ commandWords d userId, IsWord word := by
  simp only [commandWords, List.forall_mem_cons]
  exact ⟨by decide +kernel, by decide +kernel, hsocket, by decide +kernel, isWord_numeral _,
    List.forall_mem_nil _⟩

theorem userCommand_eq (d : Deployment) (userId : ℤ) :
    userCommand d userId = List.intercalate [KeyLine.blank] (commandWords d userId) := by
  have hopen : text "scissy-shell -socket " =
    text "scissy-shell" ++ KeyLine.blank :: (text "-socket" ++ [KeyLine.blank]) := rfl
  have huser : text " -user-id " = KeyLine.blank :: (text "-user-id" ++ [KeyLine.blank]) := rfl
  rw [userCommand, hopen, huser, commandWords]
  simp [List.intercalate, List.intersperse]

/-- There is nothing in the command but words and blanks. -/
theorem notMem_userCommand (hsocket : IsWord d.socket) (userId : ℤ) {c : UInt8}
    (hblank : c ≠ KeyLine.blank)
    (hc : ¬ (Service.isAlnum c = true ∨ c = 45 ∨ c = 46 ∨ c = 47 ∨ c = 95)) :
    c ∉ userCommand d userId := by
  have hopen : ∀ c ∈ text "scissy-shell -socket ", c = KeyLine.blank ∨
      Service.isAlnum c = true ∨ c = 45 ∨ c = 46 ∨ c = 47 ∨ c = 95 := by decide +kernel
  have huser : ∀ c ∈ text " -user-id ", c = KeyLine.blank ∨
      Service.isAlnum c = true ∨ c = 45 ∨ c = 46 ∨ c = 47 ∨ c = 95 := by decide +kernel
  simp only [userCommand, List.mem_append, not_or]
  refine ⟨⟨⟨fun hmem ↦ ?_, hsocket.notMem hc⟩, fun hmem ↦ ?_⟩, (isWord_numeral _).notMem hc⟩
  · exact (hopen c hmem).elim hblank hc
  · exact (huser c hmem).elim hblank hc

theorem options_userCommand (hhost : host.Documented) (hsocket : IsWord d.socket) {userId : ℤ}
    (hpos : 0 < userId) (hbound : userId ≤ maxRowid) :
    host.options (host.words (userCommand d userId)) = some (d.socket, userId) := by
  have hlt : userId.toNat < 2 ^ 63 := by
    rw [maxRowid] at hbound
    omega
  rw [userCommand_eq, hhost.words (commandWords d userId) (List.cons_ne_nil _ _)
    (isWord_of_mem_commandWords hsocket userId), commandWords, hhost.options d.socket _ hsocket hlt,
    Int.toNat_of_nonneg hpos.le]

/-! ## The login -/

/-- The line of a row. -/
def hostLine (d : Deployment) (r : UserSshKey) : HostLine where
  command := userCommand d r.userId
  keyType := sshKeyTypeName r.keyType
  key := r.key

theorem hostLine_wellFormed (hsocket : IsWord d.socket) {r : UserSshKey} (hkey : newline ∉ r.key) :
    (hostLine d r).WellFormed where
  command_ne_nil := by
    obtain ⟨c, hlast, -⟩ := getLast?_userCommand d r.userId
    intro hnil
    rw [show userCommand d r.userId = [] from hnil] at hlast
    cases hlast
  quote := notMem_userCommand hsocket _ (by decide) (by decide)
  backslash := notMem_userCommand hsocket _ (by decide) (by decide)
  newline := notMem_userCommand hsocket _ (by decide) (by decide)
  keyType := isWord_sshKeyTypeName _
  key := hkey

/-- The ssh server finds the stored key, and runs the command of its user. -/
theorem Host.admits_eq (hhost : host.Documented) (hsocket : IsWord d.socket)
    (hrendered : Rendered d w) (hlines : w.db.KeysAreLines) :
    host.admits w.authKeys = (host.keyOf w.db).map fun r ↦ some (userCommand d r.2.userId) := by
  have hfile : w.authKeys = TextFile.unlines newline
      ((w.db.usersSshKeys.rows.map fun r ↦ hostLine d r.2).map HostLine.printed) := by
    rw [hrendered, keyFile, List.map_map]
    refine congrArg _ (List.map_congr_left fun r _ ↦ ?_)
    exact keyLine_eq d r.2
  rw [hfile, hhost.admits, List.find?_map, keyOf, Option.map_map]
  · rfl
  · rintro line hline
    obtain ⟨r, hr, rfl⟩ := List.mem_map.mp hline
    exact hostLine_wellFormed hsocket (hlines r hr)

/-- **A login is one run of the shell**, for the user of the stored key. -/
theorem Host.login_eq (hhost : host.Documented) (hsocket : IsWord d.socket) (hw : w.db.Valid)
    (hrendered : Rendered d w) (hlines : w.db.KeysAreLines) (cmd : CString) (env : ℕ → Env) :
    host.login d cmd env w = match host.keyOf w.db with
      | none => .refused
      | some r => .shell ((shellMain d r.2.userId cmd).run env w).1 := by
  rw [login, admits_eq hhost hsocket hrendered hlines]
  cases hkey : host.keyOf w.db with
  | none => rfl
  | some r =>
    have hrow : r ∈ w.db.usersSshKeys.rows := List.mem_of_find?_eq_some hkey
    obtain ⟨hpos, hbound⟩ :=
      Relational.AutoTable.bounds_of_mem_ids (hw.usersSshKeys_user r hrow)
    simp only [Option.map_some, options_userCommand hhost hsocket hpos hbound, if_true]

theorem parseCmd_sqQuote (action : Action) (name : CString) :
    parseCmd (action.command (sqQuote name)) = some (action, name.1) := by
  have hspecial : needBsQuote quote = true := by decide
  obtain ⟨pieces, hrender, hdenote⟩ := Quoting.exists_render_eq_wrap hspecial name.1
  have hargument : (sqQuote name).1 = Quoting.render pieces := hrender.symm
  rw [parseCmd_command, hargument, unquote_render, hdenote]

section Rendered

variable (hhost : host.Documented) (hsocket : IsWord d.socket) (hw : w.db.Valid)
  (hrendered : Rendered d w) (hlines : w.db.KeysAreLines)

include hhost hsocket hw hrendered hlines

theorem Host.login_eq_refused_iff (cmd : CString) (env : ℕ → Env) :
    host.login d cmd env w = .refused ↔ ∀ r ∈ w.db.usersSshKeys.rows,
      host.holds (sshKeyTypeName r.2.keyType) r.2.key = false := by
  rw [login_eq hhost hsocket hw hrendered hlines]
  cases hkey : host.keyOf w.db with
  | none =>
    refine iff_of_true rfl fun r hr ↦ ?_
    simpa using List.find?_eq_none.mp hkey r hr
  | some r =>
    refine iff_of_false (by rintro ⟨⟩) fun hnone ↦ ?_
    have hholds := List.find?_some hkey
    rw [hnone r (List.mem_of_find?_eq_some hkey)] at hholds
    cases hholds

theorem Host.login_ne_unrestricted (cmd : CString) (env : ℕ → Env) :
    host.login d cmd env w ≠ .unrestricted := by
  rw [login_eq hhost hsocket hw hrendered hlines]
  cases host.keyOf w.db <;> rintro ⟨⟩

theorem Host.login_eq_exec_iff (cmd : CString) (env : ℕ → Env) (program argument : Bytes) :
    host.login d cmd env w = .shell (.exec program argument) ↔
      ∃ r action repoId repo, host.keyOf w.db = some r ∧
        parseCmd cmd = some (action, repo.name) ∧ (repoId, repo) ∈ w.db.repos.rows ∧
        w.db.ShellAllows r.2.userId repoId repo action ∧ program = action.program ∧
        argument = getRepoPath d repoId := by
  rw [login_eq hhost hsocket hw hrendered hlines]
  cases hkey : host.keyOf w.db with
  | none => exact iff_of_false (by rintro ⟨⟩) (by rintro ⟨r, _, _, _, ⟨⟩, -⟩)
  | some r =>
    have hrun := run_shellMain_eq_exec_iff hw d env r.2.userId cmd program argument
    constructor
    · intro h
      obtain ⟨action, repoName, repoId, repo, hparse, hrepo, rfl, hallows, ⟨hprogram, -⟩, harg⟩ :=
        hrun.mp (LoginResult.shell.inj h)
      exact ⟨r, action, repoId, repo, rfl, hparse, hrepo, hallows, hprogram, harg⟩
    · rintro ⟨_, action, repoId, repo, ⟨⟩, hparse, hrepo, hallows, rfl, harg⟩
      exact congrArg LoginResult.shell (hrun.mpr ⟨action, repo.name, repoId, repo, hparse, hrepo,
        rfl, hallows, ⟨rfl, program_prefix_of_parseCmd hparse⟩, harg⟩)

/-- A client of git asks for a repository by its name. -/
theorem Host.login_command_iff {r : ℤ × UserSshKey} (hkey : host.keyOf w.db = some r)
    (action : Action) {name : CString} {repoId : ℤ} {repo : Repo}
    (hrepo : (repoId, repo) ∈ w.db.repos.rows) (hname : repo.name = name.1) (env : ℕ → Env) :
    host.login d (action.command (sqQuote name)) env w =
        .shell (.exec action.program (getRepoPath d repoId)) ↔
      w.db.ShellAllows r.2.userId repoId repo action := by
  rw [login_eq_exec_iff hhost hsocket hw hrendered hlines]
  constructor
  · rintro ⟨r', action', repoId', repo', hkey', hparse, hrepo', hallows, -⟩
    obtain rfl := Option.some_inj.mp (hkey.symm.trans hkey')
    rw [parseCmd_sqQuote, ← hname] at hparse
    obtain ⟨rfl, hsame⟩ := Prod.mk.inj (Option.some_inj.mp hparse)
    obtain ⟨rfl, rfl⟩ := Prod.mk.inj (hw.repo_eq_of_name hrepo' hrepo hsame.symm)
    exact hallows
  · intro hallows
    refine ⟨r, action, repoId, repo, hkey, ?_, hrepo, hallows, rfl, rfl⟩
    rw [parseCmd_sqQuote, hname]

end Rendered

/-- **From a key to a repository.** After a start and any sequence of requests, none of which adds a
key with a newline in it, a client who holds no stored key is refused, and nobody gets a login
without the forced command. A git program runs exactly if the client holds a stored key and the
command names a repository on which the user of that key may run the program. So a client of git
that asks for a repository by its name, whatever the name is, gets it if the user may have it. -/
theorem ssh_login (hhost : host.Documented) (hsocket : IsWord d.socket) (hw : w.db.Valid)
    (hlines : w.db.KeysAreLines) {arrivals : List Arrival}
    (hadds : ∀ arrival ∈ arrivals, arrival.1.AddsLine) (start env : ℕ → Env) :
    let after := (serveAll d arrivals (w.started d start)).2
    (∀ cmd, host.login d cmd env after = .refused ↔ ∀ r ∈ after.db.usersSshKeys.rows,
      host.holds (sshKeyTypeName r.2.keyType) r.2.key = false) ∧
    (∀ cmd, host.login d cmd env after ≠ .unrestricted) ∧
    (∀ cmd program argument, host.login d cmd env after = .shell (.exec program argument) ↔
      ∃ r action repoId repo, host.keyOf after.db = some r ∧
        parseCmd cmd = some (action, repo.name) ∧ (repoId, repo) ∈ after.db.repos.rows ∧
        after.db.ShellAllows r.2.userId repoId repo action ∧ program = action.program ∧
        argument = getRepoPath d repoId) ∧
    ∀ r action (name : CString) repoId repo, host.keyOf after.db = some r →
      (repoId, repo) ∈ after.db.repos.rows → repo.name = name.1 →
      (host.login d (action.command (sqQuote name)) env after =
          .shell (.exec action.program (getRepoPath d repoId)) ↔
        after.db.ShellAllows r.2.userId repoId repo action) := by
  intro after
  have hvalid : after.db.Valid := valid_serveAll (run_valid _ start hw) arrivals
  have hstarted : Rendered d (w.started d start) := by rw [Rendered, started_eq]
  obtain ⟨hrendered, hkeep⟩ := serveAll_rendered hstarted arrivals
  have hkept : after.db.KeysAreLines := hkeep hadds (by rwa [started_eq])
  exact ⟨fun cmd ↦ Host.login_eq_refused_iff hhost hsocket hvalid hrendered hkept cmd env,
    fun cmd ↦ Host.login_ne_unrestricted hhost hsocket hvalid hrendered hkept cmd env,
    fun cmd ↦ Host.login_eq_exec_iff hhost hsocket hvalid hrendered hkept cmd env,
    fun r action name repoId repo hkey hrepo hname ↦ Host.login_command_iff hhost hsocket hvalid
      hrendered hkept hkey action hrepo hname env⟩

/-! ## A host -/

/-- A client with one key, and programs that do what the documentation says on texts of its
form. -/
def Host.holding (key : Bytes) : Host where
  holds _ key' := key' = key
  admits file :=
    (((TextFile.lines newline file).filterMap KeyLine.read).find? fun entry ↦ entry.key = key).map
      fun entry ↦ entry.valueOf (text "command=")
  words command := command.splitOn KeyLine.blank
  options
    | [_, _, socket, _, userId] => some (socket, Numeral.ofNumeral 10 userId)
    | _ => none

theorem HostLine.WellFormed.newline_notMem {line : HostLine} (h : line.WellFormed) :
    Scissy.newline ∉ line.printed := by
  have hopen : Scissy.newline ∉ text "command=\"" := by decide +kernel
  have hflags : Scissy.newline ∉ text "\",no-port-forwarding,no-pty,no-X11-forwarding " := by
    decide +kernel
  have hblank : Scissy.newline ∉ text " " := by decide +kernel
  have htype : Scissy.newline ∉ line.keyType := h.keyType.notMem (by decide)
  simp only [HostLine.printed, commandLine, List.mem_append, hopen, h.newline, hflags, htype,
    hblank, h.key, or_self, not_false_eq_true]

/-- A line of the form is read as what it says, and its command is the value of its option. -/
theorem HostLine.WellFormed.read {line : HostLine} (h : line.WellFormed) :
    ∃ entry, KeyLine.read line.printed = some entry ∧ entry.key = line.key ∧
      entry.valueOf (text "command=") = some line.command := by
  obtain ⟨value, c, hcommand⟩ : ∃ value c, line.command = value ++ [c] :=
    ⟨_, _, (List.dropLast_append_getLast h.command_ne_nil).symm⟩
  have hlast : line.command.getLast? = some c := List.getLast?_eq_some_iff.mpr ⟨value, hcommand⟩
  have hc : c ∈ line.command := hcommand ▸ List.mem_append_right _ (List.mem_singleton_self c)
  have hquote : c ≠ KeyLine.quote := fun heq ↦ h.quote (heq ▸ hc)
  have hback : c ≠ KeyLine.backslash := fun heq ↦ h.backslash (heq ▸ hc)
  have htype : KeyLine.Plain KeyLine.blank line.keyType := fun c' hc' ↦
    ⟨fun heq ↦ h.keyType.notMem (c := KeyLine.blank) (by decide) (heq ▸ hc'),
      fun heq ↦ h.keyType.notMem (c := KeyLine.quote) (by decide) (heq ▸ hc'),
      fun heq ↦ h.keyType.notMem (c := KeyLine.backslash) (by decide) (heq ▸ hc')⟩
  refine ⟨_, read_commandLine hlast h.quote hback htype, rfl, ?_⟩
  have hvalue : KeyLine.quote ∉ value := fun hmem ↦
    h.quote (hcommand ▸ List.mem_append_left _ hmem)
  have hoption : text "command=\"" ++ line.command ++ text "\"" =
      KeyLine.quotedOption (text "command=") value c := by
    rw [hcommand, show text "command=\"" = text "command=" ++ [KeyLine.quote] from rfl,
      KeyLine.quotedOption]
    simp only [List.append_assoc, List.cons_append, List.nil_append]
    rfl
  rw [commandEntry, hoption, KeyLine.Entry.valueOf_quoted hvalue hquote hback, hcommand]

theorem Host.documented_holding (key : Bytes) : (Host.holding key).Documented where
  admits lines hlines := by
    change ((((TextFile.lines newline _).filterMap KeyLine.read).find? _).map _) = _
    rw [TextFile.lines_unlines (List.forall_mem_map.mpr fun line hline ↦
      (hlines line hline).newline_notMem)]
    induction lines with
    | nil => rfl
    | cons line lines ih =>
      obtain ⟨entry, hread, hkey, hvalue⟩ := (hlines line List.mem_cons_self).read
      have hrest := ih fun line' hline' ↦ hlines line' (List.mem_cons_of_mem line hline')
      rw [List.map_cons, List.filterMap_cons_some hread]
      -- the same test on the entry and on the line
      have hentry : decide (entry.key = key) = decide (line.key = key) := by rw [hkey]
      have hline : (holding key).holds line.keyType line.key = decide (line.key = key) := rfl
      simp only [List.find?_cons, hentry, hline]
      by_cases hfound : line.key = key
      · rw [decide_eq_true hfound]
        exact congrArg some hvalue
      · rw [decide_eq_false hfound]
        exact hrest
  words words hne hwords :=
    List.splitOn_intercalate _ (fun word hword ↦ (hwords word hword).notMem (by decide)) hne
  options socket userId _ _ := by
    change some (socket, ((Numeral.ofNumeral 10 (Numeral.numeral 10 userId) : ℕ) : ℤ)) = _
    rw [Numeral.ofNumeral_numeral (by decide) (by decide)]

theorem ssh_login_twoKeys :
    let after := (serveAll .plain (addsTwoKeys (text "AAAA") (text "BBBB"))
      (World.repoOwner.started .plain fun _ ↦ {})).2
    let push := Action.command .kGitReceivePack (sqQuote ⟨text "r", by decide⟩)
    ((Host.holding (text "BBBB")).login .plain push (fun _ ↦ {}) after =
        .shell (.exec (text "git-receive-pack") (getRepoPath .plain 1)) ↔
      after.db.ShellAllows 2 1 ⟨text "r", [], false⟩ .kGitReceivePack) ∧
    (Host.holding (text "CCCC")).login .plain push (fun _ ↦ {}) after = .refused := by
  intro after push
  have hadds : ∀ arrival ∈ addsTwoKeys (text "AAAA") (text "BBBB"), arrival.1.AddsLine := by
    intro arrival harrival add hadd
    rcases List.mem_pair.mp harrival with rfl | rfl
    · cases hadd
      decide
    · cases hadd
      decide
  have hlogin (key : Bytes) := ssh_login (Host.documented_holding key)
    (show IsWord Deployment.plain.socket by decide +kernel) World.valid_repoOwner
    (by decide +kernel) hadds (fun _ ↦ {}) (fun _ ↦ {})
  constructor
  · exact (hlogin (text "BBBB")).2.2.2 (2, ⟨2, 0, text "BBBB", [], 0⟩) .kGitReceivePack
      ⟨text "r", by decide⟩ 1 ⟨text "r", [], false⟩ (by decide +kernel) (by decide +kernel) rfl
  · exact ((hlogin (text "CCCC")).1 push).mpr (by decide +kernel)

end Scissy
