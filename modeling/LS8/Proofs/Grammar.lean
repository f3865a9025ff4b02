/-
Which texts are programs, and which program a text is.

A text is a sequence of lines (`Text.Splits`). A line that begins with a
binary digit is a code line, and it is well formed if nothing but binary
digits stands in its first eight places. A text is a program exactly if all
its code lines are well formed, and then each of them is one byte; otherwise
the first that is not is reported, whatever stands behind it.

# What carries the module

Reading goes line by line and passes over the lines in front of a fault, so
it is enough to know what it does to lines without a fault
(`entriesFrom_of_wellFormed`) and to a fault behind such lines
(`entriesFrom_of_fault`). Every list of lines is of one of the two kinds
(`exists_first_fault`).

The value of the digits is a sum of powers of two (`Numeral.valueOfBits`),
and reading them from the left computes it (`ofDigitChars_eq`).
-/
import Mathlib.Order.Bounds.Basic
import Mathlib.Tactic.Ring
import LS8.Program

namespace LS8

-- ================================================================ lines

namespace Text

/-- `Splits text lines`: the text consists of these lines. A line ends at a
line feed, with a carriage return in front of it or without; what stands
behind the last end is a line if there is anything. -/
inductive Splits : List Char → List (List Char) → Prop where
  | none : Splits [] []
  | unended {line : List Char} (nonempty : line ≠ []) (one_line : '\n' ∉ line) :
      Splits line [line]
  | ended {line text : List Char} {lines : List (List Char)} (one_line : '\n' ∉ line)
      (no_return : line.getLast? ≠ some '\r') (rest : Splits text lines) :
      Splits (line ++ '\n' :: text) (line :: lines)
  | returned {line text : List Char} {lines : List (List Char)} (one_line : '\n' ∉ line)
      (rest : Splits text lines) : Splits (line ++ '\r' :: '\n' :: text) (line :: lines)

/-- A text consists of its lines and of no others. -/
theorem splits_iff {text : List Char} {lines : List (List Char)} :
    Splits text lines ↔ lines = Text.lines text := by
  constructor
  · intro h
    induction h with
    | none => rfl
    | @unended line hne hline =>
        rw [lines_of_not_mem hline, if_neg (by rwa [List.isEmpty_iff])]
    | ended hline hreturn _ ih =>
        rw [lines_append hline, stripReturn_of_getLast?_ne hreturn, ih]
    | @returned line text lines hline _ ih =>
        have hreturn : '\n' ∉ line ++ ['\r'] := by simp [hline]
        rw [List.append_cons line '\r', lines_append hreturn, stripReturn_append_return, ih]
  · rintro rfl
    induction text using line_induction with
    | unended line hline =>
        rw [lines_of_not_mem hline]
        cases line with
        | nil => exact .none
        | cons c line => exact .unended (List.cons_ne_nil c line) hline
    | ended line text hline ih =>
        rw [lines_append hline]
        rcases stripReturn_cases line with hsame | hreturn
        · have hlast : line.getLast? ≠ some '\r' := by
            intro hlast
            obtain ⟨front, rfl⟩ := List.getLast?_eq_some_iff.1 hlast
            rw [stripReturn_append_return] at hsame
            exact absurd (congrArg List.length hsame) (by simp)
          rw [← hsame]
          exact .ended hline hlast ih
        · generalize stripReturn line = stripped at hreturn
          subst hreturn
          rw [List.append_assoc]
          exact .returned (fun hmem => hline (List.mem_append_left _ hmem)) ih

/-- A byte below 128 is written for the character of its number alone. -/
theorem toNat_eq_of_mem_utf8 {c : Char} {b : UInt8} (h : b ∈ String.utf8EncodeChar c)
    (hascii : b.toNat < 128) : c.toNat = b.toNat := by
  rw [← Char.toNat_val]
  unfold String.utf8EncodeChar at h
  dsimp only at h
  split at h
  · rw [List.mem_singleton] at h
    rw [h, UInt8.toNat_ofNat']
    omega
  -- all bytes of a longer character are 128 at least
  · split at h
    · simp only [List.mem_cons, List.not_mem_nil, or_false] at h
      rcases h with rfl | rfl <;> rw [UInt8.toNat_ofNat'] at hascii <;> omega
    · split at h
      · simp only [List.mem_cons, List.not_mem_nil, or_false] at h
        rcases h with rfl | rfl | rfl <;> rw [UInt8.toNat_ofNat'] at hascii <;> omega
      · simp only [List.mem_cons, List.not_mem_nil, or_false] at h
        rcases h with rfl | rfl | rfl | rfl <;> rw [UInt8.toNat_ofNat'] at hascii <;> omega

end Text

-- =============================================================== values

namespace Numeral

/-- The number that binary digits stand for: a `1` counts as the power of two
of its place. -/
def valueOfBits : List Char → Nat
  | [] => 0
  | c :: digits => (if c = '1' then 2 ^ digits.length else 0) + valueOfBits digits

theorem valueOfBits_lt (digits : List Char) : valueOfBits digits < 2 ^ digits.length := by
  induction digits with
  | nil => decide
  | cons c digits ih =>
      rw [valueOfBits, List.length_cons, Nat.pow_succ]
      split <;> omega

/-- Reading from the left, what has been read doubles with every digit. -/
theorem ofDigitChars_eq {digits : List Char} (h : ∀ c ∈ digits, c = '0' ∨ c = '1') :
    ∀ read, Nat.ofDigitChars 2 digits read = read * 2 ^ digits.length + valueOfBits digits := by
  induction digits with
  | nil =>
      intro read
      simp [valueOfBits]
  | cons c digits ih =>
      rw [List.forall_mem_cons] at h
      obtain ⟨hc, hdigits⟩ := h
      intro read
      rw [Nat.ofDigitChars_cons, ih hdigits, valueOfBits, List.length_cons, Nat.pow_succ]
      rcases hc with rfl | rfl
      · rw [if_neg (by decide)]
        show (2 * read + 0) * _ + _ = _
        ring
      · rw [if_pos rfl]
        show (2 * read + 1) * _ + _ = _
        ring

theorem isBit_iff {c : Char} : isBit c = true ↔ c = '0' ∨ c = '1' := by
  simp [isBit]

/-- Up to eight binary digits are the byte with their value. -/
theorem byteOfBits?_of_bits {digits : List Char} (hne : digits ≠ []) (hlength : digits.length ≤ 8)
    (h : ∀ c ∈ digits, c = '0' ∨ c = '1') :
    byteOfBits? digits = some (UInt8.ofNat (valueOfBits digits)) := by
  have hbits : digits.all isBit = true :=
    List.all_eq_true.2 fun c hc => isBit_iff.2 (h c hc)
  have hvalue := ofDigitChars_eq h 0
  rw [Nat.zero_mul, Nat.zero_add] at hvalue
  rw [byteOfBits?, if_pos ⟨hne, hlength, hbits⟩, hvalue]

/-- The value of up to eight binary digits is a byte. -/
theorem valueOfBits_lt_size {digits : List Char} (hlength : digits.length ≤ 8) :
    valueOfBits digits < UInt8.size :=
  Nat.lt_of_lt_of_le (valueOfBits_lt digits) (Nat.pow_le_pow_right (by decide) hlength)

end Numeral

namespace Program

open Numeral (valueOfBits)

-- ========================================================== code lines

/-- A line that begins with a binary digit. -/
def IsCodeLine (line : List Char) : Prop :=
  line.head? = some '0' ∨ line.head? = some '1'

/-- Nothing but binary digits stands in the first eight places of a line, or
in all of them if there are fewer. -/
def WellFormed (line : List Char) : Prop :=
  ∀ c ∈ line.take 8, c = '0' ∨ c = '1'

instance (line : List Char) : Decidable (IsCodeLine line) :=
  inferInstanceAs (Decidable (line.head? = some '0' ∨ line.head? = some '1'))

instance (line : List Char) : Decidable (WellFormed line) :=
  inferInstanceAs (Decidable (∀ c ∈ line.take 8, c = '0' ∨ c = '1'))

/-- A code line that is not well formed. -/
def Faulty (line : List Char) : Prop :=
  IsCodeLine line ∧ ¬ WellFormed line

instance (line : List Char) : Decidable (Faulty line) :=
  inferInstanceAs (Decidable (IsCodeLine line ∧ ¬ WellFormed line))

theorem isCode_iff {line : List Char} : isCode line = true ↔ IsCodeLine line := by
  cases line with
  | nil => simp [isCode, IsCodeLine]
  | cons c line => simp [isCode, IsCodeLine, Numeral.isBit_iff]

/-- The byte of a code line is the value of its digits. -/
theorem byteOfBits?_field {line : List Char} (hcode : IsCodeLine line) (h : WellFormed line) :
    Numeral.byteOfBits? (field line) = some (UInt8.ofNat (valueOfBits (line.take 8))) := by
  have hne : field line ≠ [] := by
    cases line with
    | nil => simp [IsCodeLine] at hcode
    | cons c line => exact List.cons_ne_nil _ _
  exact Numeral.byteOfBits?_of_bits hne (List.length_take_le 8 line) h

theorem byteOfBits?_field_eq_none {line : List Char} (h : ¬ WellFormed line) :
    Numeral.byteOfBits? (field line) = none := by
  rw [Numeral.byteOfBits?, if_neg]
  rintro ⟨-, -, hbits⟩
  exact h fun c hc => Numeral.isBit_iff.1 (List.all_eq_true.1 hbits c hc)

/-- The same, measured in bytes: the first eight characters have eight bytes at
most, and all of them are those of binary digits. -/
def WellFormedInBytes (line : List Char) : Prop :=
  let bytes := (line.take 8).flatMap String.utf8EncodeChar
  bytes.length ≤ 8 ∧ ∀ b ∈ bytes, b = '0'.toUInt8 ∨ b = '1'.toUInt8

/-- Whether a field is measured in characters or in bytes makes no difference:
a binary digit is one byte, and any other character has a byte that no binary
digit has. -/
theorem wellFormed_iff_inBytes {line : List Char} : WellFormed line ↔ WellFormedInBytes line := by
  constructor
  · intro h
    unfold WellFormedInBytes
    intro bytes
    have hdigit : ∀ c ∈ line.take 8, String.utf8EncodeChar c = [c.toUInt8] := by
      intro c hc
      rcases h c hc with rfl | rfl <;> rfl
    have hbytes : bytes = (line.take 8).map Char.toUInt8 := by
      rw [List.map_eq_flatMap, List.flatMap_def, ← List.map_congr_left hdigit]
      exact List.flatMap_def
    rw [hbytes, List.length_map]
    refine ⟨List.length_take_le 8 line, fun b hb => ?_⟩
    obtain ⟨c, hc, rfl⟩ := List.mem_map.1 hb
    exact (h c hc).imp (congrArg Char.toUInt8) (congrArg Char.toUInt8)
  · rintro ⟨-, h⟩ c hc
    obtain ⟨b, hb⟩ := List.exists_mem_of_ne_nil _ (String.utf8EncodeChar_ne_nil (c := c))
    rcases h b (List.mem_flatMap.2 ⟨c, hc, hb⟩) with rfl | rfl
    · exact Or.inl (Char.toNat_inj.1 (Text.toNat_eq_of_mem_utf8 hb (by decide)))
    · exact Or.inr (Char.toNat_inj.1 (Text.toNat_eq_of_mem_utf8 hb (by decide)))

-- ====================================================== line after line

/-- The code lines among some lines, with their numbers, of which the first
is `number`. -/
def codeLines (number : Nat) (lines : List (List Char)) : List (List Char × Nat) :=
  (lines.zipIdx number).filter fun numbered => IsCodeLine numbered.1

/-- The bytes of the code lines. -/
def bytesOf (number : Nat) (lines : List (List Char)) : List Entry :=
  (codeLines number lines).map fun (line, n) => ⟨UInt8.ofNat (valueOfBits (line.take 8)), n⟩

theorem codeLines_cons (number : Nat) (line : List Char) (rest : List (List Char)) :
    codeLines number (line :: rest) =
      (if IsCodeLine line then [(line, number)] else []) ++ codeLines (number + 1) rest := by
  unfold codeLines
  rw [List.zipIdx_cons, List.filter_cons]
  by_cases hcode : IsCodeLine line
  · simp only [hcode, decide_true, if_true, List.cons_append, List.nil_append]
  · simp only [hcode, decide_false, Bool.false_eq_true, if_false, List.nil_append]

theorem bytesOf_cons (number : Nat) (line : List Char) (rest : List (List Char)) :
    bytesOf number (line :: rest) =
      (if IsCodeLine line then [⟨UInt8.ofNat (valueOfBits (line.take 8)), number⟩] else [])
        ++ bytesOf (number + 1) rest := by
  unfold bytesOf
  rw [codeLines_cons, List.map_append]
  split <;> rfl

/-- Lines without a fault are read to the end. -/
theorem entriesFrom_of_wellFormed {lines : List (List Char)} (h : ∀ line ∈ lines, ¬ Faulty line) :
    ∀ number, entriesFrom number lines = .ok (bytesOf number lines) := by
  induction lines with
  | nil =>
      intro number
      rfl
  | cons line rest ih =>
      rw [List.forall_mem_cons] at h
      obtain ⟨hline, hrest⟩ := h
      intro number
      rw [entriesFrom, bytesOf_cons, ih hrest]
      by_cases hcode : IsCodeLine line
      · have hformed : WellFormed line := by_contra fun hnot => hline ⟨hcode, hnot⟩
        rw [if_pos (isCode_iff.2 hcode), byteOfBits?_field hcode hformed, if_pos hcode]
        rfl
      · rw [if_neg (fun hyes => hcode (isCode_iff.1 hyes)), if_neg hcode]
        rfl

/-- A fault behind lines without one is reported, and nothing behind it is
looked at. -/
theorem entriesFrom_of_fault {front : List (List Char)} {line : List Char}
    (hfront : ∀ line ∈ front, ¬ Faulty line) (hfault : Faulty line) (rest : List (List Char)) :
    ∀ number, entriesFrom number (front ++ line :: rest) =
      .error (.malformed (number + front.length) (line.take 8)) := by
  induction front with
  | nil =>
      intro number
      rw [List.nil_append, entriesFrom, if_pos (isCode_iff.2 hfault.1),
        byteOfBits?_field_eq_none hfault.2]
      rfl
  | cons first front ih =>
      rw [List.forall_mem_cons] at hfront
      obtain ⟨hfirst, hfront⟩ := hfront
      intro number
      rw [List.cons_append, entriesFrom, ih hfront, List.length_cons, Nat.add_right_comm,
        Nat.add_assoc]
      by_cases hcode : IsCodeLine first
      · have hformed : WellFormed first := by_contra fun hnot => hfirst ⟨hcode, hnot⟩
        rw [if_pos (isCode_iff.2 hcode), byteOfBits?_field hcode hformed]
        rfl
      · rw [if_neg (fun hyes => hcode (isCode_iff.1 hyes))]

/-- Either no line is faulty, or one is the first that is. -/
theorem exists_first_fault (lines : List (List Char)) :
    (∀ line ∈ lines, ¬ Faulty line) ∨
      ∃ front line rest, lines = front ++ line :: rest ∧ (∀ line ∈ front, ¬ Faulty line)
        ∧ Faulty line := by
  cases hfind : lines.find? (fun line => decide (Faulty line)) with
  | none =>
      left
      simpa using hfind
  | some line =>
      right
      obtain ⟨hfault, front, rest, hlines, hfront⟩ := List.find?_eq_some_iff_append.1 hfind
      exact ⟨front, line, rest, hlines, by simpa using hfront, by simpa using hfault⟩

-- ======================================================== whole texts

/-- A text is a program exactly if no line of it is faulty. -/
theorem parse_eq_ok_iff {text : List Char} {p : Program} :
    parse text = .ok p ↔
      (∀ line ∈ Text.lines text, ¬ Faulty line) ∧ p = ⟨bytesOf 1 (Text.lines text)⟩ := by
  constructor
  · intro h
    obtain hnone | ⟨front, line, rest, hlines, hfront, hfault⟩ :=
      exists_first_fault (Text.lines text)
    · rw [parse, entriesFrom_of_wellFormed hnone] at h
      cases h
      exact ⟨hnone, rfl⟩
    · rw [parse, hlines, entriesFrom_of_fault hfront hfault] at h
      cases h
  · rintro ⟨hnone, rfl⟩
    rw [parse, entriesFrom_of_wellFormed hnone]
    rfl

/-- Otherwise the first faulty line is reported. -/
theorem parse_eq_error_iff {text : List Char} {e : LoadError} :
    parse text = .error e ↔
      ∃ front line rest, Text.lines text = front ++ line :: rest
        ∧ (∀ line ∈ front, ¬ Faulty line) ∧ Faulty line
        ∧ e = .malformed (front.length + 1) (line.take 8) := by
  constructor
  · intro h
    obtain hnone | ⟨front, line, rest, hlines, hfront, hfault⟩ :=
      exists_first_fault (Text.lines text)
    · rw [parse, entriesFrom_of_wellFormed hnone] at h
      cases h
    · rw [parse, hlines, entriesFrom_of_fault hfront hfault, Nat.add_comm] at h
      cases h
      exact ⟨front, line, rest, hlines, hfront, hfault, rfl⟩
  · rintro ⟨front, line, rest, hlines, hfront, hfault, rfl⟩
    rw [parse, hlines, entriesFrom_of_fault hfront hfault, Nat.add_comm]
    rfl

-- ==================================================== lines by number

/-- The `n`-th line of a text, counted from 1. -/
def LineAt (text : List Char) (n : Nat) (line : List Char) : Prop :=
  0 < n ∧ (Text.lines text)[n - 1]? = some line

theorem mem_codeLines_iff {text line : List Char} {n : Nat} :
    (line, n) ∈ codeLines 1 (Text.lines text) ↔ LineAt text n line ∧ IsCodeLine line := by
  unfold codeLines
  rw [List.mem_filter, List.mk_mem_zipIdx_iff_le_and_getElem?_sub, decide_eq_true_iff]
  rfl

theorem lines_bytesOf (number : Nat) (lines : List (List Char)) :
    Program.lines ⟨bytesOf number lines⟩ = (codeLines number lines).map Prod.snd := by
  simp [Program.lines, bytesOf, Function.comp_def]

theorem bytes_bytesOf (number : Nat) (lines : List (List Char)) :
    Program.bytes ⟨bytesOf number lines⟩ =
      (codeLines number lines).map fun numbered =>
        UInt8.ofNat (valueOfBits (numbered.1.take 8)) := by
  simp [Program.bytes, bytesOf, Function.comp_def]

/-- The numbers of the code lines go up. -/
theorem pairwise_lt_codeLines (number : Nat) (lines : List (List Char)) :
    ((codeLines number lines).map Prod.snd).Pairwise (· < ·) := by
  have hall : ((lines.zipIdx number).map Prod.snd).Pairwise (· < ·) := by
    rw [List.zipIdx_map_snd]
    exact List.pairwise_lt_range'
  exact hall.sublist (List.filter_sublist.map _)

/-- The first faulty line of a text is the faulty line with the least
number. -/
theorem isLeast_faulty {text line : List Char} {front rest : List (List Char)}
    (hlines : Text.lines text = front ++ line :: rest) (hfront : ∀ line ∈ front, ¬ Faulty line)
    (hfault : Faulty line) :
    LineAt text (front.length + 1) line
      ∧ IsLeast {n | ∃ line, LineAt text n line ∧ Faulty line} (front.length + 1) := by
  have hat : LineAt text (front.length + 1) line := by
    refine ⟨Nat.succ_pos _, ?_⟩
    rw [hlines, Nat.add_sub_cancel]
    simp
  refine ⟨hat, ⟨line, hat, hfault⟩, ?_⟩
  rintro n ⟨other, ⟨hpos, hother⟩, hfaulty⟩
  by_contra hlt
  rw [hlines, List.getElem?_append_left (by omega)] at hother
  exact hfront other (List.mem_of_getElem? hother) hfaulty

/-- Reading a text yields its code lines.

It succeeds exactly if every code line is well formed. The program then has
the numbers of the code lines, ascending, and for each of them the value of
the digits in its first eight places, and it leads from an address back to
the line. Otherwise the faulty line with the least number is reported with
its first eight characters. Characters or bytes, the first eight places are
judged the same. -/
theorem parse_reads_code_lines (text : List Char) :
    (∀ lines, Text.Splits text lines ↔ lines = Text.lines text)
    ∧ ((∃ p, parse text = .ok p) ↔
        ∀ line ∈ Text.lines text, IsCodeLine line → WellFormed line)
    ∧ (∀ line, WellFormed line ↔ WellFormedInBytes line)
    ∧ (∀ p, parse text = .ok p →
        p.lines.Pairwise (· < ·)
        ∧ (∀ n, n ∈ p.lines ↔ ∃ line, LineAt text n line ∧ IsCodeLine line)
        ∧ p.bytes.length = p.lines.length
        ∧ (∀ k n : Nat, p.lines[k]? = some n →
            ∃ line, ∃ byte : UInt8, LineAt text n line ∧ p.bytes[k]? = some byte
              ∧ byte.toNat = valueOfBits (line.take 8))
        ∧ ∀ address : UInt8,
            (address.toNat < p.size →
              ∃ n, p.lines[address.toNat]? = some n ∧ p.sourceLine? address = some n)
            ∧ (p.size ≤ address.toNat → p.sourceLine? address = none))
    ∧ (∀ e, parse text = .error e ↔
        ∃ n line, IsLeast {n | ∃ line, LineAt text n line ∧ Faulty line} n
          ∧ LineAt text n line ∧ e = .malformed n (line.take 8)) := by
  refine ⟨fun lines => Text.splits_iff, ?_, fun line => wellFormed_iff_inBytes, ?_, ?_⟩
  · constructor
    · rintro ⟨p, hparse⟩ line hline hcode
      by_contra hnot
      exact (parse_eq_ok_iff.1 hparse).1 line hline ⟨hcode, hnot⟩
    · intro h
      exact ⟨_, parse_eq_ok_iff.2 ⟨fun line hline hfault => hfault.2 (h line hline hfault.1), rfl⟩⟩
  · intro p hparse
    obtain ⟨-, rfl⟩ := parse_eq_ok_iff.1 hparse
    rw [lines_bytesOf, bytes_bytesOf]
    refine ⟨pairwise_lt_codeLines _ _, ?_, by simp only [List.length_map], ?_, ?_⟩
    · intro n
      simp [mem_codeLines_iff]
    · intro k n hn
      rw [List.getElem?_map, Option.map_eq_some_iff] at hn
      obtain ⟨⟨line, n⟩, hget, rfl⟩ := hn
      obtain ⟨hat, -⟩ := mem_codeLines_iff.1 (List.mem_of_getElem? hget)
      refine ⟨line, UInt8.ofNat (valueOfBits (line.take 8)), hat, ?_, ?_⟩
      · rw [List.getElem?_map, hget]
        rfl
      · exact UInt8.toNat_ofNat_of_lt' (Numeral.valueOfBits_lt_size (List.length_take_le 8 line))
    · intro address
      rw [sourceLine?, lines_bytesOf]
      have hsize : size ⟨bytesOf 1 (Text.lines text)⟩ = (codeLines 1 (Text.lines text)).length := by
        simp [size, bytesOf]
      rw [hsize, ← List.length_map (f := Prod.snd)]
      exact ⟨fun hlt => ⟨_, List.getElem?_eq_getElem hlt, List.getElem?_eq_getElem hlt⟩,
        List.getElem?_eq_none⟩
  · intro e
    rw [parse_eq_error_iff]
    constructor
    · rintro ⟨front, line, rest, hlines, hfront, hfault, rfl⟩
      obtain ⟨hat, hleast⟩ := isLeast_faulty hlines hfront hfault
      exact ⟨_, line, hleast, hat, rfl⟩
    · rintro ⟨n, line, hleast, hat, rfl⟩
      obtain hnone | ⟨front, first, rest, hlines, hfront, hfault⟩ :=
        exists_first_fault (Text.lines text)
      · obtain ⟨faulty, hfaulty, hfault⟩ := hleast.1
        exact absurd hfault (hnone faulty (List.mem_of_getElem? hfaulty.2))
      · obtain ⟨hat', hleast'⟩ := isLeast_faulty hlines hfront hfault
        obtain rfl := hleast.unique hleast'
        obtain rfl := Option.some.inj (hat.2.symm.trans hat'.2)
        exact ⟨front, line, rest, hlines, hfront, hfault, rfl⟩

/-- A text with a remark, both line ends, a blank line and short digits; and
one with two faults, the first of them a letter of two bytes among the
digits. -/
theorem remarked_text_is_read :
    let text := "# two, five\r\n00000010 two\n\n101\r\n".toList
    let faulty := "# é\n01\n1é0\n0x".toList
    (∃ p, parse text = .ok p ∧ p.lines = [2, 4] ∧ p.bytes = [2, 5]
      ∧ (∀ n, n ∈ p.lines ↔ ∃ line, LineAt text n line ∧ IsCodeLine line)
      ∧ (∃ line, ∃ byte : UInt8, LineAt text 4 line ∧ p.bytes[1]? = some byte
          ∧ byte.toNat = valueOfBits (line.take 8))
      ∧ p.sourceLine? 1 = some 4 ∧ p.sourceLine? 2 = none)
    ∧ parse faulty = .error (.malformed 3 ['1', 'é', '0'])
    ∧ IsLeast {n | ∃ line, LineAt faulty n line ∧ Faulty line} 3 := by
  intro text faulty
  have hparse : parse text = .ok ⟨[⟨2, 2⟩, ⟨5, 4⟩]⟩ := by decide +kernel
  have hfault : parse faulty = .error (.malformed 3 ['1', 'é', '0']) := by decide +kernel
  obtain ⟨-, -, -, hread, -⟩ := parse_reads_code_lines text
  obtain ⟨-, hcode, -, hbyte, hsource⟩ := hread _ hparse
  obtain ⟨n, hn, hsource₁⟩ := (hsource 1).1 (by decide)
  obtain ⟨-, -, -, -, herror⟩ := parse_reads_code_lines faulty
  obtain ⟨number, line, hleast, -, heq⟩ := (herror _).1 hfault
  obtain ⟨rfl, -⟩ := LoadError.malformed.inj heq
  cases hn
  exact ⟨⟨_, hparse, rfl, rfl, hcode, hbyte 1 4 rfl, hsource₁, (hsource 2).2 (by decide)⟩,
    hfault, hleast⟩

end Program

end LS8
