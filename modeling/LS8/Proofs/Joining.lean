/-
Texts one behind the other, and line ends exchanged.

A text that ends with a line end consists of whole lines. What follows it is
cut into lines as if it stood alone (`Text.lines_append_of_ended`), so
reading the two together is reading the first, and then the second with its
lines counted on.

# Line ends

A carriage return belongs to a line end only right in front of a line feed.
In a text without carriage returns every line feed may therefore be given
one: the lines stay the same (`Text.lines_of_reended`). A line end more or
less at the end of the text makes a blank line more or less at most, and
blank lines hold no byte.
-/
import LS8.Proofs.Assembly
import LS8.Proofs.Grammar

namespace LS8

namespace Text

-- ======================================================== whole lines

/-- The text consists of whole lines: each of them is ended. -/
def Ended (text : List Char) : Prop :=
  text = [] ∨ text.getLast? = some '\n'

instance (text : List Char) : Decidable (Ended text) :=
  inferInstanceAs (Decidable (text = [] ∨ text.getLast? = some '\n'))

theorem Ended.behind {line text : List Char} (h : Ended (line ++ '\n' :: text)) : Ended text := by
  cases text with
  | nil => exact Or.inl rfl
  | cons c text =>
      rcases h with hnil | hlast
      · exact absurd hnil (by simp)
      · right
        rwa [List.getLast?_append, List.getLast?_cons_cons, List.getLast?_cons, Option.some_or,
          ← List.getLast?_cons] at hlast

/-- An unended line is a text of whole lines only if it is empty. -/
theorem Ended.eq_nil {line : List Char} (h : Ended line) (hline : '\n' ∉ line) : line = [] := by
  rcases h with hnil | hlast
  · exact hnil
  · exact absurd (List.mem_of_getLast? hlast) hline

/-- Behind whole lines a text is cut as if it stood alone. -/
theorem lines_append_of_ended {first : List Char} (h : Ended first) (second : List Char) :
    lines (first ++ second) = lines first ++ lines second := by
  induction first using line_induction with
  | unended line hline =>
      rw [h.eq_nil hline]
      rfl
  | ended line text hline ih =>
      rw [List.append_assoc, List.cons_append, lines_append hline, lines_append hline,
        ih h.behind, List.cons_append]

/-- Whole lines are as many as line feeds. -/
theorem length_lines_of_ended {text : List Char} (h : Ended text) :
    (lines text).length = text.count '\n' := by
  induction text using line_induction with
  | unended line hline =>
      rw [h.eq_nil hline]
      rfl
  | ended line text hline ih =>
      rw [lines_append hline, List.length_cons, ih h.behind, List.count_append,
        List.count_eq_zero.2 hline, List.count_cons_self, Nat.zero_add]

-- ========================================================== line ends

/-- `Reended text text'`: the second text is the first with a carriage return
put in front of some of its line feeds. -/
inductive Reended : List Char → List Char → Prop where
  | nil : Reended [] []
  | keep (c : Char) {text text' : List Char} (rest : Reended text text') :
      Reended (c :: text) (c :: text')
  | change {text text' : List Char} (rest : Reended text text') :
      Reended ('\n' :: text) ('\r' :: '\n' :: text')

theorem dropReturn_of_not_mem {read : List Char} (h : '\r' ∉ read) : dropReturn read = read := by
  cases read with
  | nil => rfl
  | cons c read =>
      rw [List.mem_cons, not_or] at h
      unfold dropReturn
      split
      · next heq => exact absurd (List.cons.inj heq).1.symm h.1
      · rfl

theorem linesFrom_of_ne {c : Char} (h : c ≠ '\n') (read text : List Char) :
    linesFrom read (c :: text) = linesFrom (c :: read) text := by
  have hc : '\n' ∉ [c] := by simpa using h.symm
  exact linesFrom_append hc read text

theorem linesFrom_of_reended {text text' : List Char} (h : Reended text text')
    (htext : '\r' ∉ text) :
    ∀ read, '\r' ∉ read → linesFrom read text' = linesFrom read text := by
  induction h with
  | nil =>
      intro read _
      rfl
  | @keep c text text' _ ih =>
      rw [List.mem_cons, not_or] at htext
      intro read hread
      by_cases hc : c = '\n'
      · subst hc
        rw [linesFrom, linesFrom, ih htext.2 [] List.not_mem_nil]
      · rw [linesFrom_of_ne hc, linesFrom_of_ne hc]
        exact ih htext.2 _ (by simp [htext.1, hread])
  | @change text text' _ ih =>
      rw [List.mem_cons, not_or] at htext
      intro read hread
      rw [linesFrom_of_ne (by decide), linesFrom, linesFrom, dropReturn_of_not_mem hread,
        ih htext.2 [] List.not_mem_nil]
      rfl

/-- With other line ends the lines are the same. -/
theorem lines_of_reended {text text' : List Char} (h : Reended text text')
    (htext : '\r' ∉ text) : lines text' = lines text :=
  linesFrom_of_reended h htext [] List.not_mem_nil

/-- The line feeds may stay as they are. -/
theorem Reended.refl (text : List Char) : Reended text text := by
  induction text with
  | nil => exact .nil
  | cons c text ih => exact .keep c ih

theorem Reended.append {first first' second second' : List Char} (h₁ : Reended first first')
    (h₂ : Reended second second') : Reended (first ++ second) (first' ++ second') := by
  induction h₁ with
  | nil => exact h₂
  | keep c _ ih => exact .keep c ih
  | change _ ih => exact .change ih

/-- A line feed at the end ends the last line, or it makes a blank one. -/
theorem lines_concat {text : List Char} (h : '\r' ∉ text) :
    lines (text ++ ['\n']) = lines text ∨ lines (text ++ ['\n']) = lines text ++ [[]] := by
  induction text using line_induction with
  | unended line hline =>
      have hstrip : stripReturn line = line :=
        stripReturn_of_getLast?_ne fun hlast => h (List.mem_of_getLast? hlast)
      rw [lines_append hline, lines_of_not_mem hline, hstrip]
      cases line with
      | nil => exact Or.inr rfl
      | cons c line => exact Or.inl rfl
  | ended line text hline ih =>
      have htext : '\r' ∉ text := fun hmem => h (by simp [hmem])
      rw [List.append_assoc, List.cons_append, lines_append hline, lines_append hline,
        List.cons_append]
      exact (ih htext).imp (congrArg _) (congrArg _)

end Text

namespace Program

open Text

-- ======================================================= texts joined

/-- Later numbers shift the numbers of the code lines. -/
theorem codeLines_add (number m : Nat) (lines : List (List Char)) :
    codeLines (m + number) lines =
      (codeLines number lines).map fun numbered => (numbered.1, m + numbered.2) := by
  induction lines generalizing number with
  | nil => rfl
  | cons line rest ih =>
      unfold codeLines at ih ⊢
      rw [List.zipIdx_cons, List.zipIdx_cons, List.filter_cons, List.filter_cons, Nat.add_assoc,
        ih (number + 1)]
      split <;> rfl

theorem codeLines_append (number : Nat) (first second : List (List Char)) :
    codeLines number (first ++ second) =
      codeLines number first ++ codeLines (number + first.length) second := by
  unfold codeLines
  rw [List.zipIdx_append, List.filter_append]

/-- The bytes of lines one behind the other are those of both. -/
theorem bytes_bytesOf_append (first second : List (List Char)) :
    Program.bytes ⟨bytesOf 1 (first ++ second)⟩ =
      Program.bytes ⟨bytesOf 1 first⟩ ++ Program.bytes ⟨bytesOf 1 second⟩ := by
  rw [bytes_bytesOf, bytes_bytesOf, bytes_bytesOf, codeLines_append, Nat.add_comm, codeLines_add,
    List.map_append, List.map_map]
  rfl

/-- The second lines are counted on. -/
theorem lines_bytesOf_append (first second : List (List Char)) :
    Program.lines ⟨bytesOf 1 (first ++ second)⟩ =
      Program.lines ⟨bytesOf 1 first⟩
        ++ (Program.lines ⟨bytesOf 1 second⟩).map (first.length + ·) := by
  rw [lines_bytesOf, lines_bytesOf, lines_bytesOf, codeLines_append, Nat.add_comm, codeLines_add,
    List.map_append, List.map_map, List.map_map]
  rfl

variable {first second : List Char} {p q : Program}

/-- A fault of the first text is that of both. -/
theorem parse_append_of_error {e : LoadError} (hended : Ended first)
    (h : parse first = .error e) : parse (first ++ second) = .error e := by
  obtain ⟨front, line, rest, hlines, hfront, hfault, rfl⟩ := parse_eq_error_iff.1 h
  refine parse_eq_error_iff.2 ⟨front, line, rest ++ Text.lines second, ?_, hfront, hfault, rfl⟩
  rw [lines_append_of_ended hended, hlines, List.append_assoc, List.cons_append]

/-- A fault behind a program is the fault of the second text, further down. -/
theorem parse_append_of_ok_error {e : LoadError} (hended : Ended first)
    (hfirst : parse first = .ok p) (h : parse second = .error e) :
    ∃ n field, e = .malformed n field
      ∧ parse (first ++ second) = .error (.malformed ((Text.lines first).length + n) field) := by
  obtain ⟨hnone, -⟩ := parse_eq_ok_iff.1 hfirst
  obtain ⟨front, line, rest, hlines, hfront, hfault, rfl⟩ := parse_eq_error_iff.1 h
  refine ⟨_, _, rfl, parse_eq_error_iff.2
    ⟨Text.lines first ++ front, line, rest, ?_, ?_, hfault, ?_⟩⟩
  · rw [lines_append_of_ended hended, hlines, List.append_assoc]
  · rw [List.forall_mem_append]
    exact ⟨hnone, hfront⟩
  · rw [List.length_append, Nat.add_assoc]

/-- Two programs are one. -/
theorem parse_append_of_ok (hended : Ended first) (hfirst : parse first = .ok p)
    (hsecond : parse second = .ok q) :
    ∃ r, parse (first ++ second) = .ok r ∧ r.bytes = p.bytes ++ q.bytes
      ∧ r.lines = p.lines ++ q.lines.map ((Text.lines first).length + ·) := by
  obtain ⟨hnone₁, rfl⟩ := parse_eq_ok_iff.1 hfirst
  obtain ⟨hnone₂, rfl⟩ := parse_eq_ok_iff.1 hsecond
  refine ⟨_, parse_eq_ok_iff.2 ⟨?_, rfl⟩, ?_, ?_⟩
  · rw [lines_append_of_ended hended, List.forall_mem_append]
    exact ⟨hnone₁, hnone₂⟩
  · rw [lines_append_of_ended hended, bytes_bytesOf_append]
  · rw [lines_append_of_ended hended, lines_bytesOf_append]

-- ============================================================ line ends

/-- A blank line behind the others changes nothing. -/
theorem entriesFrom_concat_nil (number : Nat) (lines : List (List Char)) :
    entriesFrom number (lines ++ [[]]) = entriesFrom number lines := by
  have hblank : ¬ Faulty [] := by decide
  rcases exists_first_fault lines with hnone | ⟨front, line, rest, rfl, hfront, hfault⟩
  · have hnone' : ∀ line ∈ lines ++ [[]], ¬ Faulty line := by
      rw [List.forall_mem_append]
      exact ⟨hnone, by simpa using hblank⟩
    have hbytes : bytesOf number (lines ++ [[]]) = bytesOf number lines := by
      unfold bytesOf
      rw [codeLines_append]
      exact congrArg _ (List.append_nil _)
    rw [entriesFrom_of_wellFormed hnone, entriesFrom_of_wellFormed hnone', hbytes]
  · rw [List.append_assoc, List.cons_append, entriesFrom_of_fault hfront hfault,
      entriesFrom_of_fault hfront hfault]

/-- Whether the last line is ended makes no difference. -/
theorem parse_concat {text : List Char} (h : '\r' ∉ text) :
    parse (text ++ ['\n']) = parse text := by
  unfold parse
  rcases lines_concat h with hlines | hlines
  · rw [hlines]
  · rw [hlines, entriesFrom_concat_nil]

/-- Nor does it how the lines are ended. -/
theorem parse_of_reended {text text' ending : List Char} (h : Reended text text')
    (htext : '\r' ∉ text) (hending : ending ∈ [] :: lineEnds) :
    parse (text' ++ ending) = parse text := by
  have hended : '\r' ∉ text ++ ['\n'] := by simp [htext]
  simp only [lineEnds, List.mem_cons, List.not_mem_nil, or_false] at hending
  rcases hending with rfl | rfl | rfl
  · rw [List.append_nil, parse, lines_of_reended h htext]
    rfl
  · have hreended := h.append (.keep '\n' .nil)
    rw [← parse_concat htext, parse, lines_of_reended hreended hended]
    rfl
  · have hreended := h.append (.change .nil)
    rw [← parse_concat htext, parse, lines_of_reended hreended hended]
    rfl

/-- Texts are read line by line.

Behind whole lines a text is read as if it stood alone, with its lines
counted on, unless there is a fault before it. In a text without carriage
returns the line feeds may each be given one, and the last line may be ended
in either way or not at all: what is read is the same. -/
theorem texts_are_read_line_by_line :
    (∀ first second, Ended first →
      let m := (Text.lines first).length
      m = first.count '\n'
      ∧ (∀ e, parse first = .error e → parse (first ++ second) = .error e)
      ∧ (∀ p e, parse first = .ok p → parse second = .error e →
          ∃ n field, e = .malformed n field
            ∧ parse (first ++ second) = .error (.malformed (m + n) field))
      ∧ ∀ p q, parse first = .ok p → parse second = .ok q →
          ∃ r, parse (first ++ second) = .ok r ∧ r.bytes = p.bytes ++ q.bytes
            ∧ r.lines = p.lines ++ q.lines.map (m + ·))
    ∧ ∀ text text', '\r' ∉ text → Reended text text' →
        ∀ ending ∈ [] :: lineEnds, ∀ ending' ∈ [] :: lineEnds,
          parse (text' ++ ending') = parse (text ++ ending) := by
  constructor
  · intro first second hended m
    exact ⟨length_lines_of_ended hended, fun e => parse_append_of_error hended,
      fun p e => parse_append_of_ok_error hended, fun p q => parse_append_of_ok hended⟩
  · intro text text' htext hreended ending hending ending' hending'
    rw [parse_of_reended hreended htext hending',
      parse_of_reended (Reended.refl text) htext hending]

/-- A program of two lines in front of another, and in front of a fault; and
a text in which one of two line feeds is given a carriage return and the last
line is ended. -/
theorem two_programs_are_read_as_one :
    let first := "# one\n1\n".toList
    let second := "\n10".toList
    let faulty := "\n1x\n11".toList
    (Ended first
      ∧ (∃ r, parse (first ++ second) = .ok r ∧ r.bytes = [1] ++ [2] ∧ r.lines = [2] ++ [2 + 2])
      ∧ parse (first ++ faulty) = .error (.malformed (2 + 2) ['1', 'x'])
      ∧ parse (faulty.take 4 ++ first) = .error (.malformed 2 ['1', 'x']))
    ∧ '\r' ∉ second ∧ parse "\r\n10\r\n".toList = parse second := by
  intro first second faulty
  have hended : Ended first := by decide
  have hcut : Ended (faulty.take 4) := by decide
  have hfirst : parse first = .ok ⟨[⟨1, 2⟩]⟩ := by decide +kernel
  have hsecond : parse second = .ok ⟨[⟨2, 2⟩]⟩ := by decide +kernel
  have hfaulty : parse faulty = .error (.malformed 2 ['1', 'x']) := by decide +kernel
  have hreturn : '\r' ∉ second := by decide
  obtain ⟨-, -, -, hok⟩ := texts_are_read_line_by_line.1 first second hended
  obtain ⟨-, -, herror, -⟩ := texts_are_read_line_by_line.1 first faulty hended
  obtain ⟨-, hfault, -⟩ := texts_are_read_line_by_line.1 (faulty.take 4) first hcut
  obtain ⟨n, field, heq, hshifted⟩ := herror _ _ hfirst hfaulty
  obtain ⟨rfl, rfl⟩ := LoadError.malformed.inj heq
  have hends := texts_are_read_line_by_line.2 second "\r\n10".toList hreturn
    (.change (.refl ['1', '0'])) [] (by decide) ['\r', '\n'] (by decide)
  exact ⟨⟨hended, hok _ _ hfirst hsecond, hshifted, hfault _ (by decide +kernel)⟩, hreturn, hends⟩

end Program

end LS8
