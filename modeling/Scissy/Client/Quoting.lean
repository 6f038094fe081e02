import Scissy.Client.Shell
import Scissy.Text.Quoting

/-!
# The argument of a git command

The loop of `parseCmd` against the quoting of a shell: whichever way git writes the name of a
repository as pieces, the loop reads the name.

## Why more than what git writes

A client of git writes one quoted segment, and escapes the quotes and exclamation marks of the name
outside of it (`sqQuote`). But a client need not be one of git, and the loop is more general: at a
quote it goes on with the other value of its flag. So the theorem is about any sequence of pieces,
bare characters, escaped ones and segments, in any order, and the quoting of git is one case of
it.
-/

open Quoting

namespace Scissy

/-- The command line that starts a git program on an argument. -/
def Action.command (action : Action) (argument : CString) : CString :=
  ⟨action.program ++ text " " ++ argument.1, by
    rw [List.mem_append, not_or]
    refine ⟨?_, argument.2⟩
    cases action <;> decide +kernel⟩

/-- The characters git keeps out of a quoted segment: the quote and the exclamation mark. -/
def needBsQuote (c : UInt8) : Bool := c = quote ∨ c = 33

/-- The name of a repository the way git quotes it. -/
def sqQuote (name : CString) : CString :=
  ⟨wrap quote backslash needBsQuote name.1, fun h ↦ by
    obtain h | h | h := mem_wrap h
    · exact absurd h (by decide)
    · exact absurd h (by decide)
    · exact name.2 h⟩

/-! ## The loop -/

theorem unquote_segment {s : Bytes} (hs : quote ∉ s) (rest : Bytes) :
    unquote true (s ++ quote :: rest) = s ++ unquote false rest := by
  induction s with
  | nil => rw [List.nil_append, unquote, if_pos rfl, List.nil_append]
  | cons c s ih =>
    rw [List.mem_cons, not_or] at hs
    rw [List.cons_append, unquote, if_neg (Ne.symm hs.1), ih hs.2, List.cons_append]

theorem unquote_bare {c : UInt8} (h : c ≠ quote ∧ c ≠ backslash) (rest : Bytes) :
    unquote false (c :: rest) = c :: unquote false rest := by
  cases rest <;> simp [unquote, h.1, h.2]

theorem unquote_escaped (c : UInt8) (rest : Bytes) :
    unquote false (backslash :: c :: rest) = c :: unquote false rest := by
  have hne : backslash ≠ quote := by decide
  rw [unquote, if_neg hne, if_pos rfl]

theorem unquote_opening (rest : Bytes) : unquote false (quote :: rest) = unquote true rest := by
  cases rest <;> simp [unquote]

/-- What the loop does with a piece outside of quotes. -/
theorem unquote_piece (p : Piece quote backslash) (rest : Bytes) :
    unquote false (p.render ++ rest) = p.denote ++ unquote false rest := by
  cases p with
  | bare c h => exact unquote_bare h rest
  | escaped c => exact unquote_escaped c rest
  | quoted s hs =>
    rw [Piece.render, Piece.denote, List.cons_append, unquote_opening, List.append_assoc,
      List.singleton_append, unquote_segment hs]

theorem unquote_render (pieces : List (Piece quote backslash)) :
    unquote false (render pieces) = denote pieces := by
  induction pieces with
  | nil => rfl
  | cons p pieces ih => rw [render_cons, unquote_piece, ih, denote_cons]

/-- The name of the program selects the action, and the loop reads what follows the blank. -/
theorem parseCmd_command (action : Action) (argument : CString) :
    parseCmd (action.command argument) = some (action, unquote false argument.1) := by
  cases action <;> rfl

/-- **`parseCmd` undoes shell quoting.** The command of a git program, with an argument written as
any sequence of pieces, is read as that action on what the pieces stand for. So every name comes
back from the quoting git applies to it. -/
theorem parseCmd_unquotes (action : Action) :
    (∀ (argument : CString) (pieces : List (Piece quote backslash)),
      argument.1 = render pieces →
        parseCmd (action.command argument) = some (action, denote pieces)) ∧
    ∀ name : CString, parseCmd (action.command (sqQuote name)) = some (action, name.1) := by
  have hpieces : ∀ (argument : CString) (pieces : List (Piece quote backslash)),
      argument.1 = render pieces →
        parseCmd (action.command argument) = some (action, denote pieces) := by
    intro argument pieces h
    rw [parseCmd_command, h, unquote_render]
  refine ⟨hpieces, fun name ↦ ?_⟩
  have hquote : needBsQuote quote = true := by decide
  obtain ⟨pieces, hrender, hdenote⟩ := exists_render_eq_wrap hquote name.1
  rw [hpieces (sqQuote name) pieces hrender.symm, hdenote]

/-- A bare character, an escaped quote and a segment with a backslash in it. -/
theorem parseCmd_unquotes_mixed :
    parseCmd (Action.kGitReceivePack.command ⟨text "a\\''b\\c'", by decide +kernel⟩) =
      some (.kGitReceivePack, text "a'b\\c") := by
  have h := (parseCmd_unquotes .kGitReceivePack).1 ⟨text "a\\''b\\c'", by decide +kernel⟩
    [.bare 97 (by decide), .escaped 39, .quoted (text "b\\c") (by decide +kernel)]
    (by decide +kernel)
  rw [h]
  rfl

end Scissy
