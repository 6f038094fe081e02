import Scissy.Interaction.Loop
import Mathlib.Data.Int.Order.Basic

/-!
# The upgrade script

`scissy-upgrade` reads the version of the database into a variable, and then runs one script after
another, each of which stores the next version. It knows two constants that are written elsewhere:
the version that the server asks for, and the scripts that there are.

The script counts up to version 1 only, and takes the number of the next script from a variable
that it never sets. It ends for every file (`scissyUpgrade_ends`), but no file that it is meant for
has the version of the server afterwards (`not_upgrades`): a version that its loop starts from is
below 1, and the scripts for these store 1.

## What is kept of a file

Only the version matters to the loop, so a file is its version and whatever else it contains. What
the statements of `migrate-1-2.sql` do to the tables is a parameter here (`DatabaseV1.migrate` says
it for the tables of version 1), and so is whether `sqlite3` reports an error for one of them.

## What is kept of the shell

A variable that is not set counts as 0 in an arithmetic expression, unless the environment has
handed one of this name down to the script, and then it counts as what that says. So its value is a
parameter as well. A command that fails ends the script, wherever it stands, and the file stays as
the commands before have left it.
-/

open Interaction

namespace Scissy

/-! ## The scripts -/

/-- The version the server asks for at its start. -/
def USER_VERSION : ℤ := 2

/-- A database file: its `user_version`, and everything else in it. -/
structure DbFile (γ : Type) where
  userVersion : ℤ
  contents : γ
  deriving DecidableEq

variable {γ : Type}

/-- The server's check at its start. -/
def DbFile.versionCheck (file : DbFile γ) : Bool := decide (file.userVersion = USER_VERSION)

/-- The scripts under `share/scissy/sql`. -/
inductive MigrateScript
  | migrate01 | migrate12
  deriving DecidableEq

/-- The script in the file `migrate-from-next.sql`, if there is such a file. -/
def MigrateScript.find? : ℤ → ℤ → Option MigrateScript
  | 0, 1 => some .migrate01
  | 1, 2 => some .migrate12
  | _, _ => none

/-- What a script does to a file, and whether `sqlite3` reports no error. An error does not undo the
`pragma`, since the shell goes on to the `commit`. -/
def MigrateScript.run (migrate12 : γ → γ × Bool) : MigrateScript → DbFile γ → DbFile γ × Bool
  | .migrate01, file => ({ file with userVersion := 1 }, true)
  | .migrate12, file =>
    ({ userVersion := 2, contents := (migrate12 file.contents).1 }, (migrate12 file.contents).2)

/-! ## The loop -/

/-- What `scissy-upgrade` has done so far: its variables, the database, and the scripts that it has
run, each with the two numbers in its name. -/
structure Upgrade (γ : Type) where
  userVersion : ℤ
  backup : DbFile γ
  db : DbFile γ
  ran : List (ℤ × ℤ)
  deriving DecidableEq

/-- `LAST_VERSION` of the script. -/
def LAST_VERSION : ℤ := 1

namespace Upgrade

/-- Before the loop. -/
def start (file : DbFile γ) : Upgrade γ :=
  { userVersion := file.userVersion, backup := file, db := file, ran := [] }

/-- `[[ "$user_version" -lt $LAST_VERSION ]]` -/
def guard (s : Upgrade γ) : Bool := decide (s.userVersion < LAST_VERSION)

variable (userVersoin : Option ℤ) (migrate12 : γ → γ × Bool)

/-- `$((user_versoin + 1))`. The script never sets a variable of this name, so it has the value that
the script was started with, and counts as 0 without one. -/
def userVersionNext : ℤ := userVersoin.getD 0 + 1

/-- One round of the loop. Without a file to read from, or with an error of `sqlite3`, the script
stops. -/
def round (s : Upgrade γ) : Option (Upgrade γ) :=
  match MigrateScript.find? s.userVersion (userVersionNext userVersoin) with
  | none => none
  | some script =>
    let r := script.run migrate12 s.db
    if r.2 then
      some {
        userVersion := userVersionNext userVersoin
        backup := s.backup
        db := r.1
        ran := s.ran ++ [(s.userVersion, userVersionNext userVersoin)] }
    else
      none

end Upgrade

/-- `scissy-upgrade` ends so on a file: after its last command, or before it. -/
def ScissyUpgrade (userVersoin : Option ℤ) (migrate12 : γ → γ × Bool) (file : DbFile γ)
    (r : Option (Upgrade γ)) : Prop :=
  Ends Upgrade.guard (Upgrade.round userVersoin migrate12) (.start file) r

/-! ## What the script is for -/

/-- The scripts from a version up to the one of the server. -/
def migrations (userVersion : ℤ) : List (ℤ × ℤ) :=
  (List.range (USER_VERSION - userVersion).toNat).map fun (n : ℕ) ↦
    (userVersion + n, userVersion + n + 1)

/-- The script ends, has run all the scripts from the file's version on, each of them once and in
order, and leaves a file that the server accepts. -/
def Upgrades (userVersoin : Option ℤ) (migrate12 : γ → γ × Bool) (file : DbFile γ) : Prop :=
  ∃ s, ScissyUpgrade userVersoin migrate12 file (some s) ∧
    s.ran = migrations file.userVersion ∧ s.db.versionCheck = true

/-! ## What it does -/

variable {userVersoin : Option ℤ} {migrate12 : γ → γ × Bool} {file : DbFile γ} {s s' : Upgrade γ}

theorem Upgrade.round_spec (hguard : s.guard = true)
    (hround : s.round userVersoin migrate12 = some s') :
    s.userVersion = 0 ∧ s' = {
      userVersion := 1, backup := s.backup, db := { s.db with userVersion := 1 },
      ran := s.ran ++ [(0, 1)] } := by
  have hlt : s.userVersion < 1 := of_decide_eq_true hguard
  rw [round] at hround
  split at hround
  · cases hround
  · rename_i script hfind
    unfold MigrateScript.find? at hfind
    split at hfind
    · rename_i hzero hone
      cases hfind
      rw [hzero, hone] at hround
      exact ⟨hzero, (Option.some_inj.mp hround).symm⟩
    · -- `migrate-1-2.sql` is for a version at which the loop has ended
      omega
    · cases hfind

/-- **The script ends.** -/
theorem scissyUpgrade_ends (userVersoin : Option ℤ) (migrate12 : γ → γ × Bool) (file : DbFile γ) :
    ∃ r, ScissyUpgrade userVersoin migrate12 file r := by
  refine exists_ends (fun s ↦ (LAST_VERSION - s.userVersion).toNat) (fun s s' hguard hround ↦ ?_) _
  obtain ⟨hzero, rfl⟩ := Upgrade.round_spec hguard hround
  rw [hzero]
  exact Int.toNat_lt_toNat Int.one_pos |>.mpr Int.one_pos

theorem ScissyUpgrade.backup (h : ScissyUpgrade userVersoin migrate12 file (some s)) :
    s.backup = file := by
  refine h.invariant (I := fun s ↦ s.backup = file) (fun s s' hs hguard hround ↦ ?_) rfl s rfl
  obtain ⟨-, rfl⟩ := Upgrade.round_spec hguard hround
  exact hs

theorem ScissyUpgrade.userVersion_lt (h : ScissyUpgrade userVersoin migrate12 file (some s))
    (hfile : file.userVersion < USER_VERSION) : s.db.userVersion < USER_VERSION := by
  refine h.invariant (I := fun s ↦ s.db.userVersion < USER_VERSION)
    (fun s s' _ hguard hround ↦ ?_) hfile s rfl
  obtain ⟨-, rfl⟩ := Upgrade.round_spec hguard hround
  change (1 : ℤ) < 2
  decide

/-- **No file is upgraded.** The script ends, and the server does not accept what it leaves,
whatever else is in the file, and whatever the name that is not set stands for. -/
theorem not_upgrades (userVersoin : Option ℤ) (migrate12 : γ → γ × Bool) (file : DbFile γ)
    (hfile : file.userVersion < USER_VERSION) :
    (∃ r, ScissyUpgrade userVersoin migrate12 file r) ∧
      ¬ Upgrades userVersoin migrate12 file := by
  refine ⟨scissyUpgrade_ends userVersoin migrate12 file, ?_⟩
  rintro ⟨s, hs, -, hcheck⟩
  exact absurd (of_decide_eq_true hcheck) (Int.ne_of_lt (hs.userVersion_lt hfile))

theorem not_upgrades_zero :
    (∃ r, ScissyUpgrade none (fun c ↦ (c, true)) (⟨0, ()⟩ : DbFile Unit) r) ∧
      ¬ Upgrades none (fun c ↦ (c, true)) (⟨0, ()⟩ : DbFile Unit) :=
  not_upgrades none (fun c ↦ (c, true)) ⟨0, ()⟩ (by decide)

/-- Version 1 is left as it is, and version 0 becomes version 1. -/
theorem not_upgrades_from_one :
    let migrate12 : Unit → Unit × Bool := fun c ↦ (c, true)
    ScissyUpgrade none migrate12 ⟨1, ()⟩ (some (.start ⟨1, ()⟩)) ∧
      ¬ Upgrades none migrate12 ⟨1, ()⟩ ∧
      ScissyUpgrade none migrate12 ⟨0, ()⟩
        (some ⟨1, ⟨0, ()⟩, ⟨1, ()⟩, [(0, 1)]⟩) ∧
      ¬ Upgrades none migrate12 ⟨0, ()⟩ := by
  intro migrate12
  have hone : ScissyUpgrade none migrate12 ⟨1, ()⟩ (some (.start ⟨1, ()⟩)) := ⟨1, by decide⟩
  have hzero : ScissyUpgrade none migrate12 ⟨0, ()⟩ (some ⟨1, ⟨0, ()⟩, ⟨1, ()⟩, [(0, 1)]⟩) :=
    ⟨2, by decide⟩
  refine ⟨hone, ?_, hzero, ?_⟩
  · rintro ⟨s, hs, -, hcheck⟩
    obtain rfl := Option.some_inj.mp (hone.unique hs)
    exact absurd hcheck (by decide)
  · rintro ⟨s, hs, -, hcheck⟩
    obtain rfl := Option.some_inj.mp (hzero.unique hs)
    exact absurd hcheck (by decide)

end Scissy
