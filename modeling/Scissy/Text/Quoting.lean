import Mathlib.Data.List.Basic
import Mathlib.Tactic.Common

/-!
# Quoting for a shell

An argument of a command is written as a sequence of pieces: a bare character, a character after a
backslash, or a segment between two quotes. `render` is the text of the pieces and `denote` is what
they stand for.

`wrap` is the quoting a program applies to a word of its own: the whole word between quotes, with
each special character outside of them, after a backslash. It is one way among many to write the
word, which is what `exists_render_eq_wrap` says.

Which characters may stand bare is not said, since it depends on the shell: a piece is taken for
what it is meant to be. Whoever renders pieces has to know that they are read as such.
-/

namespace Quoting

variable {α : Type*} {quote backslash : α}

/-! ## Pieces -/

/-- A piece of an argument. Between quotes every character but the quote stands for itself. -/
inductive Piece (quote backslash : α) : Type _
  | bare (c : α) (h : c ≠ quote ∧ c ≠ backslash)
  | escaped (c : α)
  | quoted (s : List α) (h : quote ∉ s)

namespace Piece

def render : Piece quote backslash → List α
  | bare c _ => [c]
  | escaped c => [backslash, c]
  | quoted s _ => quote :: (s ++ [quote])

def denote : Piece quote backslash → List α
  | bare c _ => [c]
  | escaped c => [c]
  | quoted s _ => s

end Piece

/-- The text of an argument. -/
def render (pieces : List (Piece quote backslash)) : List α := pieces.flatMap Piece.render

/-- What an argument stands for. -/
def denote (pieces : List (Piece quote backslash)) : List α := pieces.flatMap Piece.denote

variable (p : Piece quote backslash) (pieces : List (Piece quote backslash))

@[simp] theorem render_nil : render ([] : List (Piece quote backslash)) = [] := rfl

@[simp] theorem render_cons : render (p :: pieces) = p.render ++ render pieces :=
  List.flatMap_cons

@[simp] theorem denote_nil : denote ([] : List (Piece quote backslash)) = [] := rfl

@[simp] theorem denote_cons : denote (p :: pieces) = p.denote ++ denote pieces :=
  List.flatMap_cons

/-! ## The quoting of a word -/

variable (quote backslash) (special : α → Bool)

/-- A character between quotes; a special one is left outside of them. -/
def wrapChar (c : α) : List α := if special c then [quote, backslash, c, quote] else [c]

/-- A word between quotes. -/
def wrap (word : List α) : List α :=
  quote :: (word.flatMap (wrapChar quote backslash special) ++ [quote])

variable {quote backslash special}

theorem exists_segment (hquote : special quote = true) (word : List α) :
    ∃ (s : List α) (pieces : List (Piece quote backslash)), quote ∉ s ∧
      word.flatMap (wrapChar quote backslash special) ++ [quote] = s ++ quote :: render pieces ∧
      s ++ denote pieces = word := by
  induction word with
  | nil => exact ⟨[], [], List.not_mem_nil, rfl, rfl⟩
  | cons c word ih =>
    obtain ⟨s, pieces, hs, hrender, hdenote⟩ := ih
    rw [List.flatMap_cons, List.append_assoc, hrender, wrapChar]
    by_cases hc : special c = true
    · -- the segment ends before the character, and the next one is that of the rest
      refine ⟨[], .escaped c :: .quoted s hs :: pieces, List.not_mem_nil, ?_, ?_⟩
      · rw [if_pos hc, render_cons, render_cons]
        simp [Piece.render]
      · rw [denote_cons, denote_cons, ← hdenote]
        rfl
    · refine ⟨c :: s, pieces, ?_, ?_, ?_⟩
      · rw [List.mem_cons, not_or]
        refine ⟨?_, hs⟩
        rintro rfl
        exact hc hquote
      · rw [if_neg hc]
        rfl
      · rw [List.cons_append, hdenote]

/-- The quoting of a word is an argument that stands for the word. -/
theorem exists_render_eq_wrap (hquote : special quote = true) (word : List α) :
    ∃ pieces : List (Piece quote backslash),
      render pieces = wrap quote backslash special word ∧ denote pieces = word := by
  obtain ⟨s, pieces, hs, hrender, hdenote⟩ := exists_segment hquote word
  refine ⟨.quoted s hs :: pieces, ?_, ?_⟩
  · rw [render_cons, wrap, hrender]
    simp [Piece.render]
  · rw [denote_cons, ← hdenote]
    rfl

theorem mem_wrap {word : List α} {c : α} (h : c ∈ wrap quote backslash special word) :
    c = quote ∨ c = backslash ∨ c ∈ word := by
  rw [wrap, List.mem_cons, List.mem_append, List.mem_flatMap, List.mem_singleton] at h
  obtain h | ⟨c', hc', h⟩ | h := h
  · exact Or.inl h
  · rw [wrapChar] at h
    split_ifs at h
    · simp only [List.mem_cons, List.not_mem_nil, or_false] at h
      obtain h | h | rfl | h := h
      · exact Or.inl h
      · exact Or.inr (Or.inl h)
      · exact Or.inr (Or.inr hc')
      · exact Or.inl h
    · rw [List.mem_singleton.mp h]
      exact Or.inr (Or.inr hc')
  · exact Or.inl h

end Quoting
