import Scissy.Server.Http
import Scissy.Text.Pattern
import Scissy.Text.Utf8

/-!
# The locations of archives

`ArchiveHandler::handle` takes the location of a request apart with a regular expression, and
chooses a way to pack the tree by comparing the last group with the names of the formats. The
characters of the expression are those of UTF-8 text, so a location that is not UTF-8 matches
nothing.

`ArchiveUrl` is what such a location says: a number, a revision, a directory and a format. Its
`print` is injective (`ArchiveUrl.print_injective`), although a directory may contain dots and end
in the name of another format: no format's name, with the dot before it, ends in another one's. So
the groups are determined by the location, and the preferences of the matcher decide nothing
(`archiveMatch_spec`).

## Numbers

The first group is a sequence of digits, which the matcher turns into an `int64_t`; a number that
does not fit makes the whole match fail. The expression allows leading zeros. So the number of an
`ArchiveUrl` is its text, and the value is read from the text: two locations can mean the same
archive and be printed from different texts.

## Names of formats

The handler compares the last group with literals, one after the other, and sets the content type,
the container and the compression as it goes. `archiveWriter` has these comparisons as they are.
That they agree with the names of the formats, for every format that the expression lets through,
is `archiveWriter_name`.
-/

open Interaction

namespace Scissy

/-! ## Matching -/

/-- `[^/]` -/
def notSlash (c : Char) : Bool := decide (c ≠ '/')

/-- The regular expression of `ArchiveHandler::handle`. -/
def archivePattern : Pattern Char :=
  .seq (.lit "/repo/archive/".toList) <| .seq (.group (.many1 Char.isDigit)) <|
  .seq (.lit "/".toList) <| .seq (.group (.many1 notSlash)) <|
  .seq (.lit "/".toList) <| .seq (.group (.many1 notSlash)) <|
  .seq (.lit ".".toList) <| .group <| .oneOf "tar.gz".toList
    ["tar.bz2".toList, "tar.xz".toList, "tar.lzma".toList, "cpio.gz".toList, "cpio.bz2".toList,
      "cpio.xz".toList, "cpio.lzma".toList, "zip".toList, "iso".toList]

/-- An `int64_t` argument of a match. -/
def parseInt64 (digits : List Char) : Option ℤ :=
  if Nat.ofDigitChars 10 digits 0 < 2 ^ 63 then some (Nat.ofDigitChars 10 digits 0) else none

/-- The arguments of the match, from what the groups have captured. -/
def archiveArguments : Pattern.Captures Char → Option ArchiveLocation
  | [some id, some rev, some dir, some format] =>
    (parseInt64 id).map fun repoId ↦
      ⟨repoId, Utf8.encode rev, Utf8.encode dir, Utf8.encode format⟩
  | _ => none

/-- `RE2::FullMatch(request.location(), match, &repo_id, &revision, &dir, &format)` -/
def archiveMatch (location : Bytes) : Option ArchiveLocation :=
  (Utf8.decode location).bind fun cs ↦ (archivePattern.fullMatch cs).bind archiveArguments

/-! ## Packing -/

/-- The filters of `archive::Writer`. -/
inductive ArchiveFilter
  | gzip | bzip2 | xz | lzma
  deriving DecidableEq

/-- The formats of `archive::Writer`. -/
inductive ArchiveContainer
  | gnutar | cpio | zip | iso9660
  deriving DecidableEq

/-- What the handler sets before it opens the archive. -/
structure ArchiveWriter where
  contentType : Option Bytes := none
  filter : Option ArchiveFilter := none
  container : Option ArchiveContainer := none
  /-- `archive_write_zip_set_compression_deflate` -/
  deflate : Bool := false
  deriving DecidableEq

/-- The comparisons of the handler. -/
def archiveWriter (format : Bytes) : ArchiveWriter :=
  if format = text "tar.xz" then
    { contentType := text "application/x-gtar", filter := some .xz, container := some .gnutar }
  else if format = text "tar.gz" then
    { contentType := text "application/x-gtar", filter := some .gzip, container := some .gnutar }
  else if format = text "tar.bz2" then
    { contentType := text "application/x-gtar", filter := some .bzip2, container := some .gnutar }
  else if format = text "tar.lzma" then
    { contentType := text "application/x-gtar", filter := some .lzma, container := some .gnutar }
  else if format = text "cpio.xz" then
    { contentType := text "application/x-cpio", filter := some .xz, container := some .cpio }
  else if format = text "cpio.gz" then
    { contentType := text "application/x-cpio", filter := some .gzip, container := some .cpio }
  else if format = text "cpio.bz2" then
    { contentType := text "application/x-cpio", filter := some .bzip2, container := some .cpio }
  else if format = text "cpio.lzma" then
    { contentType := text "application/x-cpio", filter := some .lzma, container := some .cpio }
  else if format = text "zip" then
    { contentType := text "application/zip", container := some .zip, deflate := true }
  else if format = text "iso" then
    { contentType := text "application/x-iso9660-image", container := some .iso9660 }
  else {}

/-! ## What a location says -/

/-- The formats there are. -/
inductive ArchiveFormat
  | tar (filter : ArchiveFilter) | cpio (filter : ArchiveFilter) | zip | iso
  deriving DecidableEq

def ArchiveFilter.suffix : ArchiveFilter → List Char
  | gzip => ".gz".toList
  | bzip2 => ".bz2".toList
  | xz => ".xz".toList
  | lzma => ".lzma".toList

namespace ArchiveFormat

def name : ArchiveFormat → List Char
  | tar filter => "tar".toList ++ filter.suffix
  | cpio filter => "cpio".toList ++ filter.suffix
  | zip => "zip".toList
  | iso => "iso".toList

/-- The content type, the container and the compression that a format names. -/
def writer : ArchiveFormat → ArchiveWriter
  | tar filter =>
    { contentType := text "application/x-gtar", filter, container := some .gnutar }
  | cpio filter => { contentType := text "application/x-cpio", filter, container := some .cpio }
  | zip => { contentType := text "application/zip", container := some .zip, deflate := true }
  | iso => { contentType := text "application/x-iso9660-image", container := some .iso9660 }

/-- The formats in the order of the expression. -/
def all : List ArchiveFormat :=
  [tar .gzip, tar .bzip2, tar .xz, tar .lzma, cpio .gzip, cpio .bzip2, cpio .xz, cpio .lzma, zip,
    iso]

theorem mem_all (f : ArchiveFormat) : f ∈ all := by
  cases f with
  | tar filter | cpio filter => cases filter <;> decide
  | zip | iso => decide

/-- No name ends in another one, with the dot before it. -/
theorem eq_of_name_suffix {f f' : ArchiveFormat} (h : '.' :: f.name <:+ '.' :: f'.name) :
    f = f' := by
  have hall : ∀ f ∈ all, ∀ f' ∈ all, '.' :: f.name <:+ '.' :: f'.name → f = f' := by decide
  exact hall f (mem_all f) f' (mem_all f') h

/-- **The comparisons agree with the names.** -/
theorem archiveWriter_name (f : ArchiveFormat) : archiveWriter (Utf8.encode f.name) = f.writer := by
  have hall : ∀ f ∈ all, archiveWriter (Utf8.encode f.name) = f.writer := by decide
  exact hall f (mem_all f)

end ArchiveFormat

/-- A segment of a path. -/
def IsSegment (s : List Char) : Prop := s ≠ [] ∧ ∀ c ∈ s, notSlash c = true

/-- The text of a location. -/
def archiveChars (id rev dir : List Char) (format : ArchiveFormat) : List Char :=
  "/repo/archive/".toList ++ (id ++ ("/".toList ++ (rev ++ ("/".toList ++
    (dir ++ (".".toList ++ format.name))))))

/-- The number of a repository, in decimal digits. -/
def IsNumber (id : List Char) : Prop := id ≠ [] ∧ ∀ c ∈ id, c.isDigit = true

/-- What the location of an archive says. -/
@[ext]
structure ArchiveUrl where
  id : List Char
  rev : List Char
  dir : List Char
  format : ArchiveFormat
  id_number : IsNumber id
  id_fits : Nat.ofDigitChars 10 id 0 < 2 ^ 63
  rev_segment : IsSegment rev
  dir_segment : IsSegment dir

namespace ArchiveUrl

/-- The location. -/
def print (u : ArchiveUrl) : Bytes := Utf8.encode (archiveChars u.id u.rev u.dir u.format)

/-- What the handler is to read. -/
def location (u : ArchiveUrl) : ArchiveLocation where
  repoId := Nat.ofDigitChars 10 u.id 0
  revision := Utf8.encode u.rev
  dir := Utf8.encode u.dir
  format := Utf8.encode u.format.name

end ArchiveUrl

/-! ## One way to read a location -/

theorem ArchiveFormat.dot_name_inj {dir dir' : List Char} {f f' : ArchiveFormat}
    (h : dir ++ '.' :: f.name = dir' ++ '.' :: f'.name) : dir = dir' ∧ f = f' := by
  have hformat : f = f' := by
    rcases List.append_eq_append_iff.mp h with ⟨c, -, hc⟩ | ⟨c, -, hc⟩
    · exact (eq_of_name_suffix ⟨c, hc.symm⟩).symm
    · exact eq_of_name_suffix ⟨c, hc.symm⟩
  subst hformat
  exact ⟨List.append_cancel_right h, rfl⟩

/-- **A location says one thing.** -/
theorem archiveChars_inj {id rev dir id' rev' dir' : List Char} {f f' : ArchiveFormat}
    (hid : IsNumber id) (hid' : IsNumber id') (hrev : IsSegment rev) (hrev' : IsSegment rev')
    (h : archiveChars id rev dir f = archiveChars id' rev' dir' f') :
    id = id' ∧ rev = rev' ∧ dir = dir' ∧ f = f' := by
  obtain ⟨heqId, h⟩ := Pattern.append_cons_inj_of_not_mem (Pattern.not_mem_of_class hid.2 rfl)
    (Pattern.not_mem_of_class hid'.2 rfl) (List.append_cancel_left h)
  obtain ⟨heqRev, h⟩ := Pattern.append_cons_inj_of_not_mem (Pattern.not_mem_of_class hrev.2 rfl)
    (Pattern.not_mem_of_class hrev'.2 rfl) h
  exact ⟨heqId, heqRev, ArchiveFormat.dot_name_inj h⟩

theorem ArchiveUrl.print_injective : Function.Injective ArchiveUrl.print := by
  intro u u' h
  obtain ⟨hid, hrev, hdir, hformat⟩ := archiveChars_inj u.id_number u'.id_number u.rev_segment
    u'.rev_segment (Utf8.encode_injective h)
  exact ArchiveUrl.ext hid hrev hdir hformat

/-! ## The pattern -/

theorem matches_formats {w : List Char} {a : Pattern.Captures Char} :
    (Pattern.oneOf "tar.gz".toList ["tar.bz2".toList, "tar.xz".toList, "tar.lzma".toList,
      "cpio.gz".toList, "cpio.bz2".toList, "cpio.xz".toList, "cpio.lzma".toList, "zip".toList,
      "iso".toList]).Matches w a ↔ (∃ f : ArchiveFormat, w = f.name) ∧ a = [] := by
  have hnames : ArchiveFormat.all.map ArchiveFormat.name = ["tar.gz".toList, "tar.bz2".toList,
      "tar.xz".toList, "tar.lzma".toList, "cpio.gz".toList, "cpio.bz2".toList, "cpio.xz".toList,
      "cpio.lzma".toList, "zip".toList, "iso".toList] := by decide
  rw [Pattern.matches_oneOf, ← hnames, List.mem_map]
  refine and_congr_left fun _ ↦ ⟨?_, ?_⟩
  · rintro ⟨f, -, rfl⟩
    exact ⟨f, rfl⟩
  · rintro ⟨f, rfl⟩
    exact ⟨f, f.mem_all, rfl⟩

variable {cs : List Char} {a : Pattern.Captures Char}

theorem archivePattern_matches :
    archivePattern.Matches cs a ↔ ∃ id rev dir, ∃ f : ArchiveFormat,
      IsNumber id ∧ IsSegment rev ∧ IsSegment dir ∧ cs = archiveChars id rev dir f ∧
        a = [some id, some rev, some dir, some f.name] := by
  simp only [archivePattern, Pattern.matches_lit_seq, Pattern.matches_many1_seq]
  constructor
  · rintro ⟨_, ⟨id, _, _, hid, ⟨_, ⟨rev, _, _, hrev, ⟨_, ⟨dir, _, _, hdir,
      ⟨_, ⟨b, hf, rfl⟩, rfl⟩, rfl, rfl⟩, rfl⟩, rfl, rfl⟩, rfl⟩, rfl, rfl⟩, rfl⟩
    obtain ⟨⟨f, rfl⟩, rfl⟩ := matches_formats.mp hf
    exact ⟨id, rev, dir, f, hid, hrev, hdir, rfl, rfl⟩
  · rintro ⟨id, rev, dir, f, hid, hrev, hdir, rfl, rfl⟩
    have hf := matches_formats.mpr ⟨⟨f, rfl⟩, rfl⟩
    exact ⟨_, ⟨id, _, _, hid, ⟨_, ⟨rev, _, _, hrev, ⟨_, ⟨dir, _, _, hdir,
      ⟨_, ⟨[], hf, rfl⟩, rfl⟩, rfl, rfl⟩, rfl⟩, rfl, rfl⟩, rfl⟩, rfl, rfl⟩, rfl⟩

theorem archivePattern_fullMatch :
    archivePattern.fullMatch cs = some a ↔ archivePattern.Matches cs a := by
  refine Pattern.fullMatch_eq_some_iff fun a b ha hb ↦ ?_
  obtain ⟨id, rev, dir, f, hid, hrev, -, rfl, rfl⟩ := archivePattern_matches.mp ha
  obtain ⟨id', rev', dir', f', hid', hrev', -, heq, rfl⟩ := archivePattern_matches.mp hb
  obtain ⟨rfl, rfl, rfl, rfl⟩ := archiveChars_inj hid hid' hrev hrev' heq
  rfl

/-! ## The handler -/

theorem archiveMatch_print (u : ArchiveUrl) : archiveMatch u.print = some u.location := by
  have hmatch : archivePattern.fullMatch (archiveChars u.id u.rev u.dir u.format) =
      some [some u.id, some u.rev, some u.dir, some u.format.name] :=
    archivePattern_fullMatch.mpr <| archivePattern_matches.mpr
      ⟨u.id, u.rev, u.dir, u.format, u.id_number, u.rev_segment, u.dir_segment, rfl, rfl⟩
  rw [archiveMatch, ArchiveUrl.print, Utf8.decode_encode, Option.bind_some, hmatch,
    Option.bind_some, archiveArguments, parseInt64, if_pos u.id_fits]
  rfl

theorem exists_archiveUrl {location : Bytes} {l : ArchiveLocation}
    (h : archiveMatch location = some l) :
    ∃ u : ArchiveUrl, u.print = location ∧ u.location = l := by
  obtain ⟨cs, hcs, h⟩ := Option.bind_eq_some_iff.mp h
  obtain ⟨a, ha, h⟩ := Option.bind_eq_some_iff.mp h
  obtain ⟨id, rev, dir, f, hid, hrev, hdir, rfl, rfl⟩ :=
    archivePattern_matches.mp (archivePattern_fullMatch.mp ha)
  obtain ⟨repoId, hrepoId, rfl⟩ := Option.map_eq_some_iff.mp h
  rw [parseInt64] at hrepoId
  split_ifs at hrepoId with hfits
  obtain rfl := Option.some_inj.mp hrepoId
  exact ⟨⟨id, rev, dir, f, hid, hfits, hrev, hdir⟩, Utf8.encode_of_decode hcs, rfl⟩

/-- **Archive locations.** The handler accepts exactly the locations that can be printed, each of
which can be printed in one way; it reads from it what was printed, and packs the tree as the format
says. -/
theorem archiveMatch_spec :
    (∀ location : Bytes, (archiveMatch location).isSome = true ↔
      ∃! u : ArchiveUrl, u.print = location) ∧
    ∀ u : ArchiveUrl, archiveMatch u.print = some u.location ∧
      archiveWriter u.location.format = u.format.writer := by
  refine ⟨fun location ↦ ⟨fun h ↦ ?_, ?_⟩, fun u ↦ ⟨archiveMatch_print u, ?_⟩⟩
  · obtain ⟨l, hl⟩ := Option.isSome_iff_exists.mp h
    obtain ⟨u, rfl, -⟩ := exists_archiveUrl hl
    exact ⟨u, rfl, fun u' hu' ↦ ArchiveUrl.print_injective hu'⟩
  · rintro ⟨u, rfl, -⟩
    rw [archiveMatch_print, Option.isSome_some]
  · exact ArchiveFormat.archiveWriter_name u.format

/-- `ArchiveHandler::handle` -/
def archiveHandler (d : Deployment) (cookies : Cookies) (isSsl : Bool) (location : Bytes) :
    Server ArchiveResponse :=
  archiveHandle d cookies isSsl (archiveMatch location)

end Scissy
