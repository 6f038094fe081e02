import Mathlib.Data.List.Basic
import Mathlib.Tactic.Common

/-!
# Lines of a file of authorized keys

A line of such a file starts with a field of options, separated by commas, and goes on with the
type of a key and the key. A blank ends the options and a comma separates two of them only outside
of double quotes; a backslash before a quote takes away its meaning.

`read` takes such a line apart; there are also lines without options, and those are no entries to
it. `read_eq` is the case of one quoted option followed by plain ones: whatever stands between the
quotes, as long as it contains no quote and does not end in a backslash, stays inside the one
option. `Entry.valueOf` takes the quotes off again.

## The scanner

The scanner has two flags: whether it is inside of quotes, and whether a backslash stands right
before. It looks for one of two stops, the blank and the comma, and otherwise does the same for
both, so `split` has the stop as an argument. The lemmas follow a text from left to right: plain
text, an opening quote, quoted text, a stop.
-/

namespace KeyLine

def quote : UInt8 := 34

def backslash : UInt8 := 92

def blank : UInt8 := 32

def comma : UInt8 := 44

/-! ## Scanning -/

/-- Whether the text after `c` is inside quotes. -/
def flip (quoted escaped : Bool) (c : UInt8) : Bool :=
  if c = quote ∧ escaped = false then !quoted else quoted

/-- The text before the first `stop` outside of quotes, and what follows the `stop`. The two flags
are whether the text is inside quotes, and whether a backslash stands right before it. -/
def split (stop : UInt8) : Bool → Bool → List UInt8 → List UInt8 × Option (List UInt8)
  | _, _, [] => ([], none)
  | quoted, escaped, c :: cs =>
    if quoted = false ∧ c = stop then ([], some cs)
    else
      (split stop (flip quoted escaped c) (c = backslash) cs).map (c :: ·) id

/-- All the pieces between the `stop`s outside of quotes. -/
def pieces (stop : UInt8) : Bool → Bool → List UInt8 → List (List UInt8)
  | _, _, [] => [[]]
  | quoted, escaped, c :: cs =>
    if quoted = false ∧ c = stop then [] :: pieces stop false false cs
    else
      (pieces stop (flip quoted escaped c) (c = backslash) cs).modifyHead (c :: ·)

/-- What a line says: the options, the type of the key, and the key with its comment. -/
structure Entry where
  options : List (List UInt8)
  keyType : List UInt8
  key : List UInt8
  deriving DecidableEq

/-- Take a line apart. -/
def read (line : List UInt8) : Option Entry :=
  match split blank false false line with
  | (_, none) => none
  | (options, some rest) =>
    match split blank false false rest with
    | (_, none) => none
    | (keyType, some key) => some ⟨pieces comma false false options, keyType, key⟩

/-! ## Plain text and quoted text -/

/-- Text in which nothing has a meaning to the scanner. -/
def Plain (stop : UInt8) (l : List UInt8) : Prop :=
  ∀ c ∈ l, c ≠ stop ∧ c ≠ quote ∧ c ≠ backslash

instance (stop : UInt8) (l : List UInt8) : Decidable (Plain stop l) :=
  inferInstanceAs (Decidable (∀ c ∈ l, _))

variable {stop : UInt8} {l rest : List UInt8}

theorem flip_of_ne {quoted escaped : Bool} {c : UInt8} (h : c ≠ quote) :
    flip quoted escaped c = quoted := by
  rw [flip, if_neg fun hc ↦ h hc.1]

theorem split_plain (h : Plain stop l) :
    split stop false false (l ++ rest) = (split stop false false rest).map (l ++ ·) id := by
  induction l with
  | nil => rfl
  | cons c l ih =>
    obtain ⟨hstop, hquote, hback⟩ := h c List.mem_cons_self
    have hl : Plain stop l := fun c' hc' ↦ h c' (List.mem_cons_of_mem c hc')
    rw [List.cons_append, split, if_neg fun hc ↦ hstop hc.2, flip_of_ne hquote,
      decide_eq_false hback, ih hl]
    rfl

theorem pieces_plain (h : Plain stop l) :
    pieces stop false false (l ++ rest) = (pieces stop false false rest).modifyHead (l ++ ·) := by
  induction l with
  | nil => exact (congrFun List.modifyHead_id _).symm
  | cons c l ih =>
    obtain ⟨hstop, hquote, hback⟩ := h c List.mem_cons_self
    have hl : Plain stop l := fun c' hc' ↦ h c' (List.mem_cons_of_mem c hc')
    rw [List.cons_append, pieces, if_neg fun hc ↦ hstop hc.2, flip_of_ne hquote,
      decide_eq_false hback, ih hl, List.modifyHead_modifyHead]
    rfl

theorem split_quoted (h : quote ∉ l) {c : UInt8} (hquote : c ≠ quote) (hback : c ≠ backslash)
    (escaped : Bool) :
    split stop true escaped (l ++ c :: quote :: rest) =
      (split stop false false rest).map (l ++ c :: quote :: ·) id := by
  -- a backslash in the text changes `escaped`, which no character but a quote looks at
  have hne : ¬ (true = false ∧ c = stop) := fun hc ↦ Bool.noConfusion hc.1
  induction l generalizing escaped with
  | nil =>
    rw [List.nil_append, split, if_neg hne, flip_of_ne hquote, decide_eq_false hback, split,
      if_neg fun hc ↦ Bool.noConfusion hc.1]
    rfl
  | cons c' l ih =>
    rw [List.mem_cons, not_or] at h
    rw [List.cons_append, split, if_neg fun hc ↦ Bool.noConfusion hc.1, flip_of_ne (Ne.symm h.1),
      ih h.2]
    rfl

theorem pieces_quoted (h : quote ∉ l) {c : UInt8} (hquote : c ≠ quote) (hback : c ≠ backslash)
    (escaped : Bool) :
    pieces stop true escaped (l ++ c :: quote :: rest) =
      (pieces stop false false rest).modifyHead (l ++ c :: quote :: ·) := by
  induction l generalizing escaped with
  | nil =>
    rw [List.nil_append, pieces, if_neg fun hc ↦ Bool.noConfusion hc.1, flip_of_ne hquote,
      decide_eq_false hback, pieces, if_neg fun hc ↦ Bool.noConfusion hc.1,
      List.modifyHead_modifyHead]
    rfl
  | cons c' l ih =>
    rw [List.mem_cons, not_or] at h
    rw [List.cons_append, pieces, if_neg fun hc ↦ Bool.noConfusion hc.1,
      flip_of_ne (Ne.symm h.1), ih h.2, List.modifyHead_modifyHead]
    rfl

theorem split_quote (hstop : stop ≠ quote) (cs : List UInt8) :
    split stop false false (quote :: cs) = (split stop true false cs).map (quote :: ·) id := by
  rw [split, if_neg fun hc ↦ hstop hc.2.symm, flip, if_pos ⟨rfl, rfl⟩]
  rfl

theorem pieces_quote (hstop : stop ≠ quote) (cs : List UInt8) :
    pieces stop false false (quote :: cs) =
      (pieces stop true false cs).modifyHead (quote :: ·) := by
  rw [pieces, if_neg fun hc ↦ hstop hc.2.symm, flip, if_pos ⟨rfl, rfl⟩]
  rfl

theorem split_stop (cs : List UInt8) : split stop false false (stop :: cs) = ([], some cs) := by
  rw [split, if_pos ⟨rfl, rfl⟩]

/-! ## Reading -/

/-- An option with a quoted value, whose last character is `c`. -/
def quotedOption (name value : List UInt8) (c : UInt8) : List UInt8 :=
  name ++ quote :: (value ++ [c, quote])

variable {name value flags keyType key : List UInt8} {c : UInt8}

theorem pieces_quotedOption (hname : Plain comma name) (hvalue : quote ∉ value)
    (hquote : c ≠ quote) (hback : c ≠ backslash) :
    pieces comma false false (quotedOption name value c ++ comma :: flags) =
      quotedOption name value c :: pieces comma false false flags := by
  have hassoc : quotedOption name value c ++ comma :: flags =
      name ++ quote :: (value ++ c :: quote :: comma :: flags) := by
    simp only [quotedOption, List.append_assoc, List.cons_append, List.nil_append]
  rw [hassoc, pieces_plain hname, pieces_quote (by decide), pieces_quoted hvalue hquote hback,
    pieces, if_pos ⟨rfl, rfl⟩]
  simp only [List.modifyHead_cons, quotedOption]

/-- **What is printed is read.** A quoted option, plain options, a type and a key. -/
theorem read_eq (hname : Plain blank name) (hname' : Plain comma name) (hvalue : quote ∉ value)
    (hquote : c ≠ quote) (hback : c ≠ backslash) (hflags : Plain blank flags)
    (htype : Plain blank keyType) :
    read (quotedOption name value c ++ comma :: (flags ++ blank :: (keyType ++ blank :: key))) =
      some ⟨quotedOption name value c :: pieces comma false false flags, keyType, key⟩ := by
  have hflags' : Plain blank (comma :: flags) := by
    intro c' hc'
    rcases List.mem_cons.mp hc' with rfl | hc'
    · decide
    · exact hflags c' hc'
  -- the first blank outside of the quotes ends the options, and the next one the type
  have hfield : split blank false false
      (quotedOption name value c ++ comma :: (flags ++ blank :: (keyType ++ blank :: key))) =
        (quotedOption name value c ++ comma :: flags, some (keyType ++ blank :: key)) := by
    have hassoc : quotedOption name value c ++
        comma :: (flags ++ blank :: (keyType ++ blank :: key)) =
          name ++ quote :: (value ++ c :: quote ::
            (comma :: flags ++ blank :: (keyType ++ blank :: key))) := by
      simp only [quotedOption, List.append_assoc, List.cons_append, List.nil_append]
    rw [hassoc, split_plain hname, split_quote (by decide), split_quoted hvalue hquote hback,
      split_plain hflags', split_stop]
    simp only [quotedOption, Prod.map_apply, List.append_assoc, List.cons_append, List.nil_append,
      List.append_nil, id_eq]
  have htype' : split blank false false (keyType ++ blank :: key) = (keyType, some key) := by
    rw [split_plain htype, split_stop, Prod.map_apply, List.append_nil, id_eq]
  rw [read, hfield]
  dsimp only
  rw [htype']
  dsimp only
  rw [pieces_quotedOption hname' hvalue hquote hback]

/-! ## Values -/

/-- The text up to the closing quote; a quote after a backslash stands for itself. -/
def dequote : List UInt8 → List UInt8
  | [] => []
  | [c] => if c = quote then [] else [c]
  | c :: c' :: cs =>
    if c = quote then []
    else if c = backslash ∧ c' = quote then quote :: dequote cs
    else c :: dequote (c' :: cs)

/-- The value of the option with this name. -/
def Entry.valueOf (entry : Entry) (name : List UInt8) : Option (List UInt8) :=
  entry.options.findSome? fun option ↦
    if (name ++ [quote]).isPrefixOf option then some (dequote (option.drop (name.length + 1)))
    else none

theorem dequote_append (hvalue : quote ∉ value) (hquote : c ≠ quote) (hback : c ≠ backslash) :
    dequote (value ++ [c, quote]) = value ++ [c] := by
  induction value with
  | nil => simp [dequote, hquote, hback]
  | cons b value ih =>
    rw [List.mem_cons, not_or] at hvalue
    have hrest := ih hvalue.2
    cases value with
    | nil =>
      rw [List.nil_append] at hrest
      rw [List.cons_append, List.nil_append, dequote, if_neg (Ne.symm hvalue.1),
        if_neg fun h ↦ hquote h.2, hrest]
      rfl
    | cons b' value =>
      rw [List.cons_append] at hrest
      rw [List.cons_append, List.cons_append, dequote, if_neg (Ne.symm hvalue.1),
        if_neg fun h : b = backslash ∧ b' = quote ↦ hvalue.2 (h.2 ▸ List.mem_cons_self), hrest]
      rfl

/-- The value of the first option is what was quoted. -/
theorem Entry.valueOf_quoted {options : List (List UInt8)} (hvalue : quote ∉ value)
    (hquote : c ≠ quote) (hback : c ≠ backslash) :
    Entry.valueOf ⟨quotedOption name value c :: options, keyType, key⟩ name =
      some (value ++ [c]) := by
  have hoption : quotedOption name value c = (name ++ [quote]) ++ (value ++ [c, quote]) := by
    simp only [quotedOption, List.append_assoc, List.cons_append, List.nil_append]
  have hprefix : (name ++ [quote]).isPrefixOf (quotedOption name value c) = true := by
    rw [List.isPrefixOf_iff_prefix, hoption]
    exact List.prefix_append _ _
  have hdrop : (quotedOption name value c).drop (name.length + 1) = value ++ [c, quote] := by
    rw [hoption, show name.length + 1 = (name ++ [quote]).length by simp, List.drop_left]
  rw [valueOf, List.findSome?_cons, if_pos hprefix, hdrop, dequote_append hvalue hquote hback]

end KeyLine
