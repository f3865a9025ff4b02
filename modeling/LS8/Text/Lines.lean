/-
The lines of a text. A line ends at a line feed, and a carriage return right
before the line feed belongs to the end. What stands after the last line
feed is a line if it is not empty, and a carriage return there is part of
it.
-/
namespace LS8.Text

/-- A line that is held backwards, without the carriage return of its end. -/
def dropReturn : List Char → List Char
  | '\r' :: rest => rest
  | line => line

/-- The lines of `text`, given what of the first line has been read, held
backwards. -/
def linesFrom (read : List Char) : List Char → List (List Char)
  | [] => if read.isEmpty then [] else [read.reverse]
  | '\n' :: text => (dropReturn read).reverse :: linesFrom [] text
  | c :: text => linesFrom (c :: read) text

/-- The lines of `text`. -/
def lines (text : List Char) : List (List Char) :=
  linesFrom [] text

-- ======================================================= line by line

/-- A line as it is read: a carriage return at its end belongs to the line
end. -/
def stripReturn (line : List Char) : List Char :=
  (dropReturn line.reverse).reverse

theorem stripReturn_append_return (line : List Char) : stripReturn (line ++ ['\r']) = line := by
  rw [stripReturn, List.reverse_append]
  exact List.reverse_reverse line

/-- Nothing else is taken from a line. -/
theorem stripReturn_cases (line : List Char) :
    line = stripReturn line ∨ line = stripReturn line ++ ['\r'] := by
  unfold stripReturn dropReturn
  split
  · next rest hrest =>
    right
    rw [← List.reverse_reverse line, hrest, List.reverse_cons]
  · left
    rw [List.reverse_reverse]

theorem stripReturn_of_getLast?_ne {line : List Char} (h : line.getLast? ≠ some '\r') :
    stripReturn line = line := by
  rcases stripReturn_cases line with hsame | hreturn
  · exact hsame.symm
  · rw [hreturn, List.getLast?_append] at h
    exact absurd rfl h

theorem linesFrom_append {line : List Char} (h : '\n' ∉ line) :
    ∀ read text, linesFrom read (line ++ text) = linesFrom (line.reverse ++ read) text := by
  induction line with
  | nil =>
      intro read text
      rfl
  | cons c line ih =>
      rw [List.mem_cons, not_or] at h
      obtain ⟨hc, hline⟩ := h
      intro read text
      rw [List.cons_append, linesFrom, ih hline, List.reverse_cons, List.append_assoc]
      · rfl
      · exact fun heq => hc heq.symm

/-- A text is one line without an end, or a line, its line feed and a text. -/
theorem line_induction {motive : List Char → Prop}
    (unended : ∀ line, '\n' ∉ line → motive line)
    (ended : ∀ line text, '\n' ∉ line → motive text → motive (line ++ '\n' :: text))
    (text : List Char) : motive text := by
  by_cases h : '\n' ∈ text
  · obtain ⟨line, rest, htext, hline⟩ := List.eq_append_cons_of_mem h
    rw [htext]
    exact ended line rest hline (line_induction unended ended rest)
  · exact unended text h
termination_by text.length
decreasing_by
  rw [htext, List.length_append, List.length_cons]
  omega

/-- A line feed ends a line. -/
theorem lines_append {line : List Char} (h : '\n' ∉ line) (text : List Char) :
    lines (line ++ '\n' :: text) = stripReturn line :: lines text := by
  rw [lines, linesFrom_append h, List.append_nil]
  rfl

/-- What stands after the last line feed is a line if it is not empty. -/
theorem lines_of_not_mem {line : List Char} (h : '\n' ∉ line) :
    lines line = if line.isEmpty then [] else [line] := by
  have hlines := linesFrom_append h [] []
  rw [List.append_nil, List.append_nil, linesFrom] at hlines
  rw [lines, hlines, List.isEmpty_reverse, List.reverse_reverse]

end LS8.Text
