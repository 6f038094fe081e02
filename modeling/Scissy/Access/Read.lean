import Scissy.Access.Gate

/-!
# The two gates to the contents of a repository

`CHECK_PUBLIC_REPO` guards the views and `accessCheckRepo` the archives. The second one stores the
user's role in the parameter that holds the required role, and then compares it with the `kNone`
that is still in `user_role`: off the public path it admits exactly the users *without* a role
(`accessCheckRepo_run`). So the gates agree on a private repository for readers only when nobody
asks, and for a higher role only by accident (`gatesAgree_iff`).

## Which role

For a reader the archive is compared with the gate of the views, and that one asks for the role that
`repoGetUserRole` reports. No view asks for more than a reader, so a higher role has no gate to be
compared with. There the measure is the role that the tables give the user (`effectiveRole`). The
two roles differ when a path through a group has two different roles, and then the accident can be
of either kind: the user has a reported role, and an effective one that is too low, or the other way
round.
-/

open Relational Interaction Interaction.Prog

namespace Scissy

variable {w : World}

/-- What `accessCheckRepo` answers. -/
def Database.archiveAccess (db : Database) (session : Session) (repoId : ℤ) (role : Pb.Role) :
    Bool :=
  match db.isPublic? repoId with
  | none => false
  | some isPublic =>
    (isPublic && role = .kReader) ||
      (decide (1 ≤ session.userId) && db.reportedRole repoId session.userId = .kNone)

theorem accessCheckRepo_returns {A : Env → Prop} (h : w.db.Valid) (session : Session) (repoId : ℤ)
    (role : Pb.Role) :
    (accessCheckRepo session repoId role).Returns A w (w.db.archiveAccess session repoId role) := by
  refine (repoIsPublic_returns repoId).wp_bind ?_
  rw [Database.archiveAccess]
  cases w.db.isPublic? repoId with
  | none => exact ⟨rfl, rfl⟩
  | some isPublic =>
    dsimp only
    split_ifs with hpublic huser
    · exact ⟨rfl, by rw [hpublic, Bool.true_or]⟩
    · exact ⟨rfl, by simp [hpublic, huser]⟩
    · refine (repoGetUserRole_returns h repoId session.userId).wp_bind ⟨rfl, ?_⟩
      have hnone (r : Pb.Role) : decide (r ≤ .kNone) = decide (r = .kNone) :=
        decide_eq_decide.mpr le_bot_iff
      simp [hpublic, not_lt.mp huser, hnone]

theorem accessCheckRepo_run (h : w.db.Valid) (env : ℕ → Env) (session : Session) (repoId : ℤ)
    (role : Pb.Role) :
    ((accessCheckRepo session repoId role).run env w).1 =
      w.db.archiveAccess session repoId role :=
  congrArg Prod.fst ((accessCheckRepo_returns (A := fun _ ↦ True) h session repoId role).run env
    fun _ ↦ trivial)

/-- Whether `CHECK_PUBLIC_REPO` lets a session through to a repository. -/
def Passes (session : Session) (repoId : ℤ) (env : ℕ → Env) (w : World) : Prop :=
  ((Service.checkPublicRepo (some session) { repoId := some repoId } :
    Server (Check Pb.RepoInfo ℤ)).run env w).1 = .ok repoId

theorem passes_iff (h : w.db.Valid) (env : ℕ → Env) (session : Session) (repoId : ℤ) :
    Passes session repoId env w ↔ w.db.CanRead session.userId repoId := by
  have hgate : (Service.checkPublicRepo (some session) { repoId := some repoId } :
      Server (Check Pb.RepoInfo ℤ)).Decides (fun _ ↦ True) w
      fun id ↦ w.db.NamesRepo { repoId := some repoId } id ∧ w.db.CanRead session.userId id :=
    Service.checkPublicRepo_decides h session _
  rw [Passes, (wp.run hgate env fun _ ↦ trivial).2 repoId]
  exact and_iff_right (Or.inl rfl)

/-- Without a session one is a reader of public repositories only. -/
theorem Database.Valid.canRead_iff {db : Database} (h : db.Valid) (userId repoId : ℤ) :
    db.CanRead userId repoId ↔ ∃ isPublic, db.isPublic? repoId = some isPublic ∧
      (isPublic = true ∨ 1 ≤ userId ∧ .kReader ≤ db.reportedRole repoId userId) := by
  refine exists_congr fun isPublic ↦ and_congr_right fun _ ↦ or_congr_right ?_
  refine ⟨fun hrole ↦ ⟨?_, hrole⟩, And.right⟩
  by_contra huser
  rw [h.reportedRole_of_notMem_users fun hmem ↦ huser (AutoTable.pos_of_mem_ids hmem)] at hrole
  exact absurd hrole (by decide)

/-- The gate of the archives decides as it should: for readers as the gate of the views does, and
for a higher role by the effective role of the user. -/
def GatesAgree (session : Session) (repoId : ℤ) (role : Pb.Role) (env : ℕ → Env) (w : World) :
    Prop :=
  let archive := ((accessCheckRepo session repoId role).run env w).1
  if role = .kReader then
    (archive = true ↔ ∃ isPublic, w.db.isPublic? repoId = some isPublic ∧
      (isPublic = true ∨ 1 ≤ session.userId ∧
        .kReader ≤ w.db.reportedRole repoId session.userId)) ∧
    (archive = true ↔ Passes session repoId env w)
  else archive = true ↔ 1 ≤ session.userId ∧ role ≤ w.db.effectiveRole repoId session.userId

theorem not_eq_kNone_iff_kReader_le (role : Pb.Role) : ¬ (role = .kNone ↔ .kReader ≤ role) := by
  cases role <;> decide

theorem eq_kNone_iff_le_iff {reported effective required : Pb.Role} :
    (reported = .kNone ↔ required ≤ effective) ↔
      .kNone < reported ∧ effective < required ∨ reported = .kNone ∧ required ≤ effective := by
  have hpos : .kNone < reported ↔ reported ≠ .kNone := bot_lt_iff_ne_bot
  rw [hpos, ← not_le]
  tauto

/-- **When the two gates agree.** On a missing repository and for nobody they always do, for readers
otherwise on a public repository only. For a higher role they do when the user is reported to have a
role and the effective one is not enough, or is reported to have none and the effective one is
enough. -/
theorem gatesAgree_iff (h : w.db.Valid) (env : ℕ → Env) (session : Session) (repoId : ℤ)
    (role : Pb.Role) (hrole : .kReader ≤ role) :
    GatesAgree session repoId role env w ↔
      w.db.isPublic? repoId = none ∨ session.userId < 1 ∨
        (role = .kReader ∧ w.db.isPublic? repoId = some true) ∨
        (role ≠ .kReader ∧
          (.kNone < w.db.reportedRole repoId session.userId ∧
              w.db.effectiveRole repoId session.userId < role ∨
            w.db.reportedRole repoId session.userId = .kNone ∧
              role ≤ w.db.effectiveRole repoId session.userId)) := by
  have hmissing : w.db.isPublic? repoId = none →
      w.db.effectiveRole repoId session.userId = .kNone := fun hnone ↦
    h.effectiveRole_of_notMem_repos (Database.isPublic?_eq_none_iff.mp hnone)
  rw [GatesAgree, passes_iff h, h.canRead_iff, and_self, accessCheckRepo_run h,
    Database.archiveAccess, ← eq_kNone_iff_le_iff]
  -- what is left of the private case, for either kind of role
  have hprivate : (decide (1 ≤ session.userId) &&
      decide (w.db.reportedRole repoId session.userId = .kNone)) = true ↔
      1 ≤ session.userId ∧ w.db.reportedRole repoId session.userId = .kNone := by
    rw [Bool.and_eq_true, decide_eq_true_eq, decide_eq_true_eq]
  have hagree (reaches : Prop) :
      ((1 ≤ session.userId ∧ w.db.reportedRole repoId session.userId = .kNone) ↔
        1 ≤ session.userId ∧ reaches) ↔
      session.userId < 1 ∨ (w.db.reportedRole repoId session.userId = .kNone ↔ reaches) := by
    rw [and_congr_right_iff, imp_iff_not_or, not_le]
  split_ifs with hreader
  · subst hreader
    cases hpublic : w.db.isPublic? repoId with
    | none => simp
    | some isPublic =>
      cases isPublic with
      | true => simp
      | false =>
        have hnever := not_eq_kNone_iff_kReader_le (w.db.reportedRole repoId session.userId)
        simp [hprivate, hnever]
  · cases hpublic : w.db.isPublic? repoId with
    | none =>
      have hbot : ¬ role ≤ .kNone := fun hle ↦ absurd (hrole.trans hle) (by decide)
      simp [hmissing hpublic, hbot]
    | some isPublic =>
      simpa [hprivate, hreader] using
        hagree (role ≤ w.db.effectiveRole repoId session.userId)

/-- A reader is no writer, and the writer whose two roles differ gets in by mistake. -/
theorem gatesAgree_writer :
    GatesAgree { userId := 1 } 1 .kWriter (fun _ ↦ {})
        { World.initial with db := .viaGroup .kReader .kReader } ∧
      GatesAgree { userId := 1 } 1 .kWriter (fun _ ↦ {})
        { World.initial with db := .viaGroup .kOwner .kWriter } := by
  constructor
  · refine (gatesAgree_iff (Database.viaGroup_valid _ _) _ _ 1 .kWriter (by decide)).mpr ?_
    exact Or.inr (Or.inr (Or.inr ⟨by decide, Or.inl (by decide)⟩))
  · refine (gatesAgree_iff (Database.viaGroup_valid _ _) _ _ 1 .kWriter (by decide)).mpr ?_
    exact Or.inr (Or.inr (Or.inr ⟨by decide, Or.inr (by decide)⟩))

/-- A user without a role on a private repository gets its archive, and its owner does not. -/
theorem not_gatesAgree :
    (Database.viaGroup .kNone .kNone).Valid ∧
      ¬ GatesAgree { userId := 1 } 1 .kReader (fun _ ↦ {})
        { World.initial with db := .viaGroup .kNone .kNone } ∧
      (Database.viaGroup .kOwner .kOwner).Valid ∧
      ¬ GatesAgree { userId := 1 } 1 .kReader (fun _ ↦ {})
        { World.initial with db := .viaGroup .kOwner .kOwner } := by
  refine ⟨Database.viaGroup_valid _ _, fun h ↦ ?_, Database.viaGroup_valid _ _, fun h ↦ ?_⟩
  · exact absurd (h.1.mp (by decide)) (by decide)
  · exact absurd (h.1.mpr (by decide)) (by decide)

end Scissy
