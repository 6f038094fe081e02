import Scissy.Server.ArchiveUrl

/-!
# Links to tarballs

The summary page of a repository links each branch and tag to an archive, and the log page each
commit. The pages are templates over what `repoGetInfo`, `repoListBranches`, `repoGetTags` and
`repoGetLog` answer; the texts here are those the browser has, character by character, and the
server is asked for their UTF-8 bytes. How the browser writes the number of a repository is a
parameter: it is the number of a JSON text, and not every number survives there.

A name goes into the link as it is. The handler takes a segment of the path for the revision and one
for the directory, so a branch such as `feature/x`, which git allows, or a repository with a slash
in its name, which `repoCreate` accepts, makes a link that is refused (`tarballWorks_iff`).

## From a name to a link and back

The page shortens the full name of a reference, the template puts the short name twice into a path,
the browser turns the path into bytes, and the handler takes it apart and asks git for the revision.
`TarballWorks` is about the whole way: the handler accepts the location, and reads from it the
number of the repository, the revision that the link was drawn for, and the format. What comes after
that is the handler's, and is the same for a link as for any other location.
-/

open Interaction

namespace Scissy

/-! ## Names of references -/

/-- What git allows as the name of a reference. -/
def RefName (name : List Char) : Prop :=
  (∀ w ∈ ["..", "/.", "//", "@\x7b", ".lock/"], ¬ w.toList <:+: name) ∧
  (∀ w ∈ [".", "/"], ¬ w.toList <+: name) ∧
  (∀ w ∈ [".", "/", ".lock"], ¬ w.toList <:+ name) ∧
  ∀ c ∈ name, ' ' < c ∧ c ≠ '\x7f' ∧ c ∉ "~^:?*[\\".toList

instance (name : List Char) : Decidable (RefName name) :=
  haveI (p : Char → Prop) [DecidablePred p] := List.decidableBAll p name
  inferInstanceAs (Decidable (_ ∧ _))

/-- The references the summary page lists. -/
inductive RefKind
  | heads | tags

/-- The directory of the references of a kind. -/
def RefKind.directory : RefKind → List Char
  | heads => "refs/heads/".toList
  | tags => "refs/tags/".toList

/-- `.`, which matches no line terminator. -/
def dot (c : Char) : Bool := decide (c ∉ ['\n', '\r', '\u2028', '\u2029'])

/-- `"$1"` -/
def firstGroup : Pattern.Captures Char → List Char
  | some w :: _ => w
  | _ => []

/-- `name.replace(/^refs\/heads\/(.*)/, "$1")`, and the same for the tags. -/
def RefKind.shortName (kind : RefKind) (name : List Char) : List Char :=
  (Pattern.seq (.lit kind.directory) (.group (.many dot))).replaceFirst firstGroup name

/-! ## Links -/

/-- The text is the number in decimal digits. -/
def Denotes (digits : List Char) (n : ℤ) : Prop :=
  IsNumber digits ∧ Nat.ofDigitChars 10 digits 0 = n

/-- How the browser writes a number that an answer contains. It is a floating point number there. -/
structure Browser where
  number : ℤ → List Char
  number_eq : ∀ n : ℕ, n ≤ 2 ^ 53 → number n = Nat.toDigits 10 n
  slash_not_mem : ∀ n, '/' ∉ number n

/-- What a page knows of its repository, the number being an `int64`. -/
structure PageRepo where
  id : ℤ
  id_fits : id < 2 ^ 63
  name : List Char

namespace Browser

variable (browser : Browser) (repo : PageRepo)

/-- The link of the templates: the number, the revision, and the name of the repository and the
revision again with `.tar.xz`. -/
def tarballLink (rev : List Char) : List Char :=
  "/repo/archive/".toList ++ (browser.number repo.id ++ ("/".toList ++ (rev ++ ("/".toList ++
    (repo.name ++ "-".toList ++ rev ++ ".tar.xz".toList)))))

/-- The link for `shown` is accepted, and means the revision `rev` of the repository, packed as
`tar.xz`. -/
def TarballWorks (shown rev : List Char) : Prop :=
  ∃ dir, archiveMatch (Utf8.encode (browser.tarballLink repo shown)) =
    some ⟨repo.id, Utf8.encode rev, dir, Utf8.encode "tar.xz".toList⟩

end Browser

/-- The name of a commit. -/
def IsCommitId (oid : List Char) : Prop :=
  oid.length = 40 ∧ ∀ c ∈ oid, c ∈ "0123456789abcdef".toList

instance (oid : List Char) : Decidable (IsCommitId oid) :=
  haveI (p : Char → Prop) [DecidablePred p] := List.decidableBAll p oid
  inferInstanceAs (Decidable (_ ∧ _))

/-! ## When a link works -/

theorem RefKind.shortName_directory (kind : RefKind) (short : List Char) :
    kind.shortName (kind.directory ++ short) = short :=
  Pattern.replaceFirst_lit_group (a := []) (fun _ _ ↦ rfl) ⟨List.forall_mem_nil _, rfl⟩

theorem RefName.short_ne_nil {kind : RefKind} {short : List Char}
    (h : RefName (kind.directory ++ short)) : short ≠ [] := by
  rintro rfl
  refine h.2.2.1 "/" (by decide) ?_
  cases kind <;> decide

theorem isSegment_iff {s : List Char} : IsSegment s ↔ s ≠ [] ∧ '/' ∉ s := by
  refine and_congr_right fun _ ↦ ⟨fun h ↦ Pattern.not_mem_of_class h rfl, fun h c hc ↦ ?_⟩
  exact decide_eq_true (ne_of_mem_of_not_mem hc h)

theorem isSegment_of_isCommitId {oid : List Char} (h : IsCommitId oid) : IsSegment oid := by
  refine isSegment_iff.mpr ⟨List.ne_nil_of_length_pos (h.1 ▸ Nat.succ_pos 39), fun hmem ↦ ?_⟩
  exact absurd (h.2 '/' hmem) (by decide)

namespace Browser

variable {browser : Browser} {repo : PageRepo} {rev : List Char}

theorem denotes_number {n : ℕ} (h : n ≤ 2 ^ 53) : Denotes (browser.number n) n := by
  rw [browser.number_eq n h]
  refine ⟨⟨Nat.toDigits_ne_nil, fun c hc ↦ ?_⟩, congrArg Nat.cast Nat.ofDigitChars_ten_toDigits⟩
  exact Nat.isDigit_of_mem_toDigits (by decide) (by decide) hc

theorem tarballLink_eq (browser : Browser) (repo : PageRepo) (rev : List Char) :
    browser.tarballLink repo rev =
      archiveChars (browser.number repo.id) rev (repo.name ++ "-".toList ++ rev) (.tar .xz) := rfl

/-- Every name has to be one segment, and the number has to be the number. -/
theorem tarballWorks_iff (hrev : rev ≠ []) :
    browser.TarballWorks repo rev rev ↔
      '/' ∉ rev ∧ '/' ∉ repo.name ∧ Denotes (browser.number repo.id) repo.id := by
  constructor
  · rintro ⟨dir, hmatch⟩
    obtain ⟨u, hprint, hu⟩ := exists_archiveUrl hmatch
    obtain ⟨hrepoId, hrevision, -, -⟩ := ArchiveLocation.mk.inj hu
    obtain rfl := Utf8.encode_injective hrevision
    have hslash := (isSegment_iff.mp u.rev_segment).2
    have hchars := Utf8.encode_injective hprint
    rw [tarballLink_eq] at hchars
    -- both texts have the number before their next slash, and then the revision
    obtain ⟨hnum, hrest⟩ := Pattern.append_cons_inj_of_not_mem
      (Pattern.not_mem_of_class u.id_number.2 rfl)
      (browser.slash_not_mem repo.id) (List.append_cancel_left hchars)
    obtain ⟨-, hrest⟩ := Pattern.append_cons_inj_of_not_mem hslash hslash hrest
    obtain ⟨hdir, -⟩ := ArchiveFormat.dot_name_inj hrest
    have hdirSlash := (isSegment_iff.mp u.dir_segment).2
    rw [hdir, List.append_assoc, List.mem_append, not_or] at hdirSlash
    exact ⟨hslash, hdirSlash.1, hnum ▸ ⟨u.id_number, hrepoId⟩⟩
  · rintro ⟨hslash, hname, hnum, hvalue⟩
    have hdir : IsSegment (repo.name ++ "-".toList ++ rev) := by
      refine isSegment_iff.mpr ⟨List.append_ne_nil_of_right_ne_nil _ hrev, ?_⟩
      rw [List.mem_append, List.mem_append, not_or, not_or]
      exact ⟨⟨hname, by decide⟩, hslash⟩
    have hfits : Nat.ofDigitChars 10 (browser.number repo.id) 0 < 2 ^ 63 := by
      have hid := repo.id_fits
      rw [← hvalue] at hid
      exact_mod_cast hid
    let u : ArchiveUrl := ⟨browser.number repo.id, rev, _, .tar .xz, hnum, hfits,
      isSegment_iff.mpr ⟨hrev, hslash⟩, hdir⟩
    have hlocation : u.location =
        ⟨repo.id, Utf8.encode rev, u.location.dir, Utf8.encode "tar.xz".toList⟩ := by
      rw [← hvalue]
      rfl
    exact ⟨u.location.dir, (archiveMatch_print u).trans (congrArg some hlocation)⟩

/-- **When a link works.** Neither the name of the reference nor that of the repository has a slash,
and the browser writes the number of the repository with its digits, as it does up to `2 ^ 53`. -/
theorem tarballs_work_iff (browser : Browser) (repo : PageRepo) :
    (∀ (kind : RefKind) (short : List Char), RefName (kind.directory ++ short) →
      (browser.TarballWorks repo (kind.shortName (kind.directory ++ short)) short ↔
        '/' ∉ short ∧ '/' ∉ repo.name ∧ Denotes (browser.number repo.id) repo.id)) ∧
    ∀ oid : List Char, IsCommitId oid →
      (browser.TarballWorks repo oid oid ↔
        '/' ∉ repo.name ∧ Denotes (browser.number repo.id) repo.id) := by
  refine ⟨fun kind short hname ↦ ?_, fun oid hoid ↦ ?_⟩
  · rw [RefKind.shortName_directory]
    exact tarballWorks_iff hname.short_ne_nil
  · obtain ⟨hne, hslash⟩ := isSegment_iff.mp (isSegment_of_isCommitId hoid)
    rw [tarballWorks_iff hne, and_iff_right hslash]

/-- A browser that writes every number with its digits. -/
def decimal : Browser where
  number n := Nat.toDigits 10 n.toNat
  number_eq _ _ := rfl
  slash_not_mem _ hmem := Bool.noConfusion
    (Nat.isDigit_of_mem_toDigits (by decide) (by decide) hmem : '/'.isDigit = true)

theorem tarballs_work_master :
    let repo : PageRepo := ⟨1, by decide, "scissy".toList⟩
    let oid := "da39a3ee5e6b4b0d3255bfef95601890afd80709".toList
    decimal.TarballWorks repo (RefKind.heads.shortName (RefKind.heads.directory ++ "master".toList))
      "master".toList ∧ decimal.TarballWorks repo oid oid := by
  intro repo oid
  have hname : '/' ∉ repo.name := by decide +kernel
  have hnumber : Denotes (decimal.number repo.id) repo.id := denotes_number (n := 1) (by decide)
  have hmaster : RefName (RefKind.heads.directory ++ "master".toList) := by decide +kernel
  have hslash : '/' ∉ "master".toList := by decide +kernel
  have hoid : IsCommitId oid := by decide +kernel
  exact ⟨((tarballs_work_iff decimal repo).1 .heads "master".toList hmaster).mpr
      ⟨hslash, hname, hnumber⟩,
    ((tarballs_work_iff decimal repo).2 oid hoid).mpr ⟨hname, hnumber⟩⟩

/-- A branch with a slash, and a commit of a repository with a slash. -/
theorem not_tarballs_work :
    let short := "feature/x".toList
    let oid := "da39a3ee5e6b4b0d3255bfef95601890afd80709".toList
    (RefName (RefKind.heads.directory ++ short) ∧
      ¬ decimal.TarballWorks ⟨1, by decide, "scissy".toList⟩
        (RefKind.heads.shortName (RefKind.heads.directory ++ short)) short) ∧
    IsCommitId oid ∧ ¬ decimal.TarballWorks ⟨1, by decide, "a/b".toList⟩ oid oid := by
  intro short oid
  refine ⟨⟨by decide +kernel, ?_⟩, by decide +kernel, ?_⟩
  · rintro ⟨dir, hmatch⟩
    rw [RefKind.shortName_directory, archiveMatch, Utf8.decode_encode, Option.bind_some] at hmatch
    have hnone : archivePattern.fullMatch
        (decimal.tarballLink ⟨1, by decide, "scissy".toList⟩ short) = none := by decide +kernel
    rw [hnone] at hmatch
    cases hmatch
  · rintro ⟨dir, hmatch⟩
    rw [archiveMatch, Utf8.decode_encode, Option.bind_some] at hmatch
    have hnone : archivePattern.fullMatch
        (decimal.tarballLink ⟨1, by decide, "a/b".toList⟩ oid) = none := by decide +kernel
    rw [hnone] at hmatch
    cases hmatch

end Browser

end Scissy
