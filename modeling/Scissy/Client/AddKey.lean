import Scissy.Security.AuthorizedKeys
import Scissy.Text.Pattern

/-!
# Adding a key on the settings page

The settings page takes a public key as one line of text, takes it apart with a regular expression,
and asks the server to add it. Texts are those of the browser, lists of UTF-16 code units.

The page and the file of authorized keys spell the types of keys in the same way, so a request that
is sent adds the line that was entered (`addKey_eq_post_iff`). But the expression asks for a space
after the key, where the comment is optional, and the branch for the second type compares with the
first one. What is left is a key of the first type with a comment (`addKeyAgrees_iff`).

## The expression

The pattern is the value of `Text/Pattern` that the literal stands for, with the groups of the
literal, and the controller reads the groups of the match. The expression is anchored at both ends,
and a blank belongs to none of the first two groups. So a text matches in one way at most
(`keyText_inj`), and neither greed nor backtracking has a say in what the groups contain.

## What the page is compared with

A public key is a line of a name, a key and perhaps a comment (`PublicKey`). The page does well if
the row that is stored for its request makes `genAuthorizedKeys` print an entry for just this name
and this key, and if it sends nothing for a text that is no such line. The comment is not a part of
the comparison: it is stored as a description, and the file does not have it.
-/

open Interaction

namespace Scissy

/-! ## The controller -/

/-- A text in the browser. -/
abbrev JsString := List UInt16

/-- A text of ASCII characters in the browser. -/
def jsText (b : Bytes) : JsString := b.map UInt8.toUInt16

/-- The bytes of a text of ASCII characters. -/
def asciiBytes (s : JsString) : Bytes := s.map UInt16.toUInt8

/-- `[A-Za-z0-9+\/=]` -/
def base64Char (c : UInt16) : Bool :=
  decide (65 ≤ c ∧ c ≤ 90 ∨ 97 ≤ c ∧ c ≤ 122 ∨ 48 ≤ c ∧ c ≤ 57 ∨ c = 43 ∨ c = 47 ∨ c = 61)

/-- `.`, which matches no line terminator. -/
def jsDot (c : UInt16) : Bool := decide (c ≠ 10 ∧ c ≠ 13 ∧ c ≠ 0x2028 ∧ c ≠ 0x2029)

/-- `/^(ssh-rsa|ssh-dsa) ([A-Za-z0-9+\/=]+) (.*)?$/` -/
def addKeyPattern : Pattern UInt16 :=
  .seq (.group (.oneOf (jsText (text "ssh-rsa")) [jsText (text "ssh-dsa")])) <|
  .seq (.lit (jsText (text " "))) <| .seq (.group (.many1 base64Char)) <|
  .seq (.lit (jsText (text " "))) <| .opt (.group (.many jsDot))

/-- The key of a `userAddSshKey` request. A field that is undefined is not sent. -/
structure KeyRequest where
  type : Pb.SshKeyType
  key : JsString
  desc : Option JsString
  deriving DecidableEq

/-- What the controller does. -/
inductive AddKey
  /-- `matches[1]` of `null` -/
  | typeError
  | alert (message : JsString)
  | post (request : KeyRequest)
  deriving DecidableEq

/-- `$scope.addKey` -/
def addKey (newKey : JsString) : AddKey :=
  match addKeyPattern.fullMatch newKey with
  | some [some type, some key, desc] =>
    if type = jsText (text "ssh-rsa") then .post ⟨.kSshKeyRsa, key, desc⟩
    else if type = jsText (text "ssh-rsa") then .post ⟨.kSshKeyDsa, key, desc⟩
    else .alert (jsText (text "Invalid type: ") ++ type)
  | _ => .typeError

/-! ## Public keys -/

/-- A line of a public key: the name of a type, the key, and a comment or none. -/
structure PublicKey where
  type : Pb.SshKeyType
  base64 : JsString
  comment : Option JsString
  base64_chars : base64 ≠ [] ∧ ∀ c ∈ base64, base64Char c = true
  comment_line : ∀ c ∈ comment, 10 ∉ c

namespace PublicKey

/-- The name of the type, and the key. -/
def entry (k : PublicKey) : JsString :=
  jsText (sshKeyTypeName k.type.toInt) ++ jsText (text " ") ++ k.base64

/-- The line. -/
def line (k : PublicKey) : JsString :=
  match k.comment with
  | none => k.entry
  | some comment => k.entry ++ jsText (text " ") ++ comment

end PublicKey

/-- The row that is stored for a request, in which nothing but the type and the key come from it. -/
def KeyRequest.Stored (request : KeyRequest) (row : UserSshKey) : Prop :=
  row.keyType = request.type.toInt ∧ row.key = asciiBytes request.key

/-- The page sends a request that adds the key of the line, and none for a text that is no line. -/
def AddKeyAgrees (s : JsString) : Prop :=
  (∀ k : PublicKey, k.line = s → ∃ request, addKey s = .post request ∧
    ∀ (d : Deployment) (row : UserSshKey), request.Stored row →
      asciiBytes k.entry <:+ keyLine d row) ∧
  ((∀ k : PublicKey, k.line ≠ s) → ∀ request, addKey s ≠ .post request)

/-! ## What the expression matches -/

/-- A name of a type, a key and a comment. -/
def keyText (type key comment : JsString) : JsString := type ++ 32 :: (key ++ 32 :: comment)

/-- A group that captures nothing is undefined. -/
def descOf (comment : JsString) : Option JsString := if comment = [] then none else some comment

variable {s : JsString} {a : Pattern.Captures UInt16}

theorem matches_comment {w : JsString} :
    (Pattern.opt (.group (.many jsDot))).Matches w a ↔
      (∀ c ∈ w, jsDot c = true) ∧ a = [descOf w] := by
  by_cases hw : w = []
  · subst hw
    constructor
    · rintro (⟨hne, -⟩ | ⟨-, rfl⟩)
      · exact absurd rfl hne
      · exact ⟨List.forall_mem_nil _, rfl⟩
    · rintro ⟨-, rfl⟩
      exact .inr ⟨rfl, rfl⟩
  · rw [descOf, if_neg hw]
    constructor
    · rintro (⟨-, b, ⟨hdot, rfl⟩, rfl⟩ | ⟨hnil, -⟩)
      · exact ⟨hdot, rfl⟩
      · exact absurd hnil hw
    · rintro ⟨hdot, rfl⟩
      exact .inl ⟨hw, [], ⟨hdot, rfl⟩, rfl⟩

theorem addKeyPattern_matches :
    addKeyPattern.Matches s a ↔ ∃ type key comment,
      type ∈ [jsText (text "ssh-rsa"), jsText (text "ssh-dsa")] ∧
      (key ≠ [] ∧ ∀ c ∈ key, base64Char c = true) ∧ (∀ c ∈ comment, jsDot c = true) ∧
      s = keyText type key comment ∧ a = [some type, some key, descOf comment] := by
  constructor
  · rintro ⟨type, _, _, _, ⟨_, hgroup, rfl⟩, hspace, rfl, rfl⟩
    obtain ⟨htype, rfl⟩ := Pattern.matches_oneOf.mp hgroup
    obtain ⟨_, hgroup', rfl⟩ := Pattern.matches_lit_seq.mp hspace
    obtain ⟨key, _, _, hkey, hspace', rfl, rfl⟩ := Pattern.matches_many1_seq.mp hgroup'
    obtain ⟨comment, hopt, rfl⟩ := Pattern.matches_lit_seq.mp hspace'
    obtain ⟨hcomment, rfl⟩ := matches_comment.mp hopt
    exact ⟨type, key, comment, htype, hkey, hcomment, rfl, rfl⟩
  · rintro ⟨type, key, comment, htype, hkey, hcomment, rfl, rfl⟩
    refine ⟨type, 32 :: (key ++ 32 :: comment), [some type], [some key, descOf comment],
      ⟨[], Pattern.matches_oneOf.mpr ⟨htype, rfl⟩, rfl⟩, ?_, rfl, rfl⟩
    refine Pattern.matches_lit_seq.mpr ⟨key ++ 32 :: comment, ?_, rfl⟩
    refine Pattern.matches_many1_seq.mpr ⟨key, 32 :: comment, _, hkey, ?_, rfl, rfl⟩
    exact Pattern.matches_lit_seq.mpr ⟨comment, matches_comment.mpr ⟨hcomment, rfl⟩, rfl⟩

theorem keyText_inj {type type' key key' comment comment' : JsString} (htype : 32 ∉ type)
    (htype' : 32 ∉ type') (hkey : 32 ∉ key) (hkey' : 32 ∉ key')
    (h : keyText type key comment = keyText type' key' comment') :
    type = type' ∧ key = key' ∧ comment = comment' := by
  obtain ⟨rfl, hrest⟩ := Pattern.append_cons_inj_of_not_mem htype htype' h
  exact ⟨rfl, Pattern.append_cons_inj_of_not_mem hkey hkey' hrest⟩

theorem space_not_mem_type {type : JsString}
    (h : type ∈ [jsText (text "ssh-rsa"), jsText (text "ssh-dsa")]) : 32 ∉ type := by
  rcases List.mem_pair.mp h with rfl | rfl <;> decide

theorem space_not_mem_key {key : JsString} (h : ∀ c ∈ key, base64Char c = true) : 32 ∉ key :=
  Pattern.not_mem_of_class h (by decide)

theorem addKeyPattern_fullMatch :
    addKeyPattern.fullMatch s = some a ↔ addKeyPattern.Matches s a := by
  refine Pattern.fullMatch_eq_some_iff fun a b ha hb ↦ ?_
  obtain ⟨type, key, comment, htype, hkey, -, rfl, rfl⟩ := addKeyPattern_matches.mp ha
  obtain ⟨type', key', comment', htype', hkey', -, heq, rfl⟩ := addKeyPattern_matches.mp hb
  obtain ⟨rfl, rfl, rfl⟩ := keyText_inj (space_not_mem_type htype) (space_not_mem_type htype')
    (space_not_mem_key hkey.2) (space_not_mem_key hkey'.2) heq
  rfl

/-! ## What the controller sends -/

/-- The requests are those for keys of the first type with a comment. -/
theorem addKey_eq_post_iff {request : KeyRequest} :
    addKey s = .post request ↔ ∃ key comment,
      (key ≠ [] ∧ ∀ c ∈ key, base64Char c = true) ∧ (∀ c ∈ comment, jsDot c = true) ∧
      s = keyText (jsText (text "ssh-rsa")) key comment ∧
      request = ⟨.kSshKeyRsa, key, descOf comment⟩ := by
  constructor
  · intro h
    cases hmatch : addKeyPattern.fullMatch s with
    | none =>
      rw [addKey, hmatch] at h
      cases h
    | some a =>
      obtain ⟨type, key, comment, htype, hkey, hcomment, rfl, rfl⟩ :=
        addKeyPattern_matches.mp (addKeyPattern_fullMatch.mp hmatch)
      rw [addKey, hmatch] at h
      rcases List.mem_pair.mp htype with rfl | rfl
      · exact ⟨key, comment, hkey, hcomment, rfl, (AddKey.post.inj h).symm⟩
      · cases h
  · rintro ⟨key, comment, hkey, hcomment, rfl, rfl⟩
    have hmatch := addKeyPattern_fullMatch.mpr (addKeyPattern_matches.mpr
      ⟨_, key, comment, List.mem_cons_self, hkey, hcomment, rfl, rfl⟩)
    rw [addKey, hmatch]
    rfl

/-! ## When the page agrees with the file -/

theorem asciiBytes_jsText (b : Bytes) : asciiBytes (jsText b) = b := by
  rw [asciiBytes, jsText, List.map_map]
  conv_rhs => rw [← List.map_id b]
  exact List.map_congr_left fun c _ ↦ UInt8.toUInt8_toUInt16 c

theorem entry_suffix_keyLine {k : PublicKey} {request : KeyRequest} (htype : request.type = k.type)
    (hkey : request.key = k.base64) (d : Deployment) {row : UserSshKey}
    (hrow : request.Stored row) : asciiBytes k.entry <:+ keyLine d row := by
  have hentry : asciiBytes k.entry = sshKeyTypeName row.keyType ++ text " " ++ row.key := by
    rw [hrow.1, hrow.2, htype, hkey, PublicKey.entry, asciiBytes, List.map_append, List.map_append]
    exact congrArg₂ (· ++ · ++ _) (asciiBytes_jsText _) (asciiBytes_jsText _)
  rw [hentry, keyLine, authorizedKeysLine, List.append_assoc, List.append_assoc, List.append_assoc]
  exact List.suffix_append _ _

namespace PublicKey

theorem type_mem (type : Pb.SshKeyType) : jsText (sshKeyTypeName type.toInt) ∈
    [jsText (text "ssh-rsa"), jsText (text "ssh-dsa")] := by
  cases type <;> decide

theorem type_eq {type : Pb.SshKeyType}
    (h : jsText (sshKeyTypeName type.toInt) = jsText (text "ssh-rsa")) : type = .kSshKeyRsa := by
  cases type with
  | kSshKeyRsa => rfl
  | kSshKeyDsa => exact absurd h (by decide)

theorem entry_eq (k : PublicKey) :
    k.entry = jsText (sshKeyTypeName k.type.toInt) ++ 32 :: k.base64 := by
  rw [entry, List.append_assoc]
  rfl

theorem line_of_none {k : PublicKey} (h : k.comment = none) : k.line = k.entry := by
  rw [line, h]

theorem line_of_some {k : PublicKey} {comment : JsString} (h : k.comment = some comment) :
    k.line = keyText (jsText (sshKeyTypeName k.type.toInt)) k.base64 comment := by
  have hline : k.line = k.entry ++ jsText (text " ") ++ comment := by rw [line, h]
  rw [hline, entry_eq, keyText, List.append_assoc, List.append_assoc]
  rfl

end PublicKey

/-- **When the page agrees with the file.** Exactly if a text that is the line of a key has the
first type, and has a comment, in which there is no line terminator. -/
theorem addKeyAgrees_iff (s : JsString) :
    AddKeyAgrees s ↔ ∀ k : PublicKey, k.line = s →
      k.type = .kSshKeyRsa ∧ ∃ comment, k.comment = some comment ∧
        ∀ c ∈ comment, jsDot c = true := by
  constructor
  · rintro ⟨hsent, -⟩ k hk
    obtain ⟨request, hpost, -⟩ := hsent k hk
    obtain ⟨key, comment, hkey, hdot, rfl, -⟩ := addKey_eq_post_iff.mp hpost
    have htype := space_not_mem_type (PublicKey.type_mem k.type)
    have hrsa : 32 ∉ jsText (text "ssh-rsa") := space_not_mem_type List.mem_cons_self
    have hbase64 := space_not_mem_key k.base64_chars.2
    cases hcomment : k.comment with
    | none =>
      -- there is one space in the line, and the text that is sent has two
      rw [PublicKey.line_of_none hcomment, PublicKey.entry_eq] at hk
      obtain ⟨-, hrest⟩ := Pattern.append_cons_inj_of_not_mem htype hrsa hk
      rw [hrest] at hbase64
      exact absurd (List.mem_append_right key List.mem_cons_self) hbase64
    | some comment' =>
      rw [PublicKey.line_of_some hcomment] at hk
      obtain ⟨hname, -, rfl⟩ := keyText_inj htype hrsa hbase64 (space_not_mem_key hkey.2) hk
      exact ⟨PublicKey.type_eq hname, comment', rfl, hdot⟩
  · intro hall
    refine ⟨fun k hk ↦ ?_, fun hnone request hpost ↦ ?_⟩
    · obtain ⟨htype, comment, hcomment, hdot⟩ := hall k hk
      refine ⟨⟨.kSshKeyRsa, k.base64, descOf comment⟩, ?_, fun d row hrow ↦ ?_⟩
      · refine addKey_eq_post_iff.mpr ⟨k.base64, comment, k.base64_chars, hdot, ?_, rfl⟩
        rw [← hk, PublicKey.line_of_some hcomment, htype]
        rfl
      · exact entry_suffix_keyLine htype.symm rfl d hrow
    · obtain ⟨key, comment, hkey, hdot, rfl, -⟩ := addKey_eq_post_iff.mp hpost
      have hline : ∀ c ∈ some comment, 10 ∉ c := by
        rintro c ⟨⟩
        exact Pattern.not_mem_of_class hdot (by decide)
      exact hnone ⟨.kSshKeyRsa, key, some comment, hkey, hline⟩ (PublicKey.line_of_some rfl)

/-- A key without a comment, and one of the second type. -/
theorem not_addKeyAgrees :
    addKey (jsText (text "ssh-rsa AAAA")) = .typeError ∧
      ¬ AddKeyAgrees (jsText (text "ssh-rsa AAAA")) ∧
      addKey (jsText (text "ssh-dsa AAAA me")) = .alert (jsText (text "Invalid type: ssh-dsa")) ∧
      ¬ AddKeyAgrees (jsText (text "ssh-dsa AAAA me")) := by
  have hrsa : addKey (jsText (text "ssh-rsa AAAA")) = .typeError := by decide +kernel
  have hdsa : addKey (jsText (text "ssh-dsa AAAA me")) =
      .alert (jsText (text "Invalid type: ssh-dsa")) := by decide +kernel
  have hall : (jsText (text "AAAA")).all base64Char = true := by decide
  have hkey : jsText (text "AAAA") ≠ [] ∧ ∀ c ∈ jsText (text "AAAA"), base64Char c = true :=
    ⟨by decide, List.all_eq_true.mp hall⟩
  refine ⟨hrsa, fun h ↦ ?_, hdsa, fun h ↦ ?_⟩
  · obtain ⟨request, hpost, -⟩ := h.1
      ⟨.kSshKeyRsa, jsText (text "AAAA"), none, hkey, by rintro c ⟨⟩⟩ rfl
    rw [hrsa] at hpost
    cases hpost
  · obtain ⟨request, hpost, -⟩ := h.1
      ⟨.kSshKeyDsa, jsText (text "AAAA"), some (jsText (text "me")), hkey, by decide⟩ rfl
    rw [hdsa] at hpost
    cases hpost

end Scissy
