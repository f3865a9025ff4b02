/-
From instructions to a program text and back.

A program is assembled into bytes, the bytes are written into a text, the
text is read and loaded, and memory is decoded. Each of the three ways back
undoes its way there, however the text is laid out: code lines may carry
remarks, other lines may stand anywhere between them, and each line ends as
it likes (`Writes`).

# Where an instruction ends

Decoding looks at the bytes from an address on and says how many of them it
took; nothing else says where the next instruction begins. So the bytes are
cut where they were joined, because the length of an instruction is that of
its bytes (`length_encode`) and because fetching is not misled by the bytes
behind them (`fetch_eq_ok_iff`). At the last instruction this includes bytes
that are not there: fewer than three are looked at where addresses end.
-/
import LS8.Proofs.Faults
import LS8.Proofs.Launch

namespace LS8

/-- The bytes of some instructions, one behind the other. -/
def assemble (program : List Instruction) : List UInt8 :=
  program.flatMap Instruction.encode

theorem assemble_cons (i : Instruction) (program : List Instruction) :
    assemble (i :: program) = i.encode ++ assemble program :=
  List.flatMap_cons

theorem assemble_append (first second : List Instruction) :
    assemble (first ++ second) = assemble first ++ assemble second :=
  List.flatMap_append

theorem assemble_concat (program : List Instruction) (i : Instruction) :
    assemble (program ++ [i]) = assemble program ++ i.encode := by
  rw [assemble_append, assemble_cons]
  exact congrArg _ (List.append_nil _)

/-- An instruction stands as far from the start as those in front of it are
long together. -/
theorem length_assemble_middle (front : List Instruction) (i : Instruction)
    (rest : List Instruction) :
    (assemble (front ++ i :: rest)).length =
      (assemble front).length + (i.size + (assemble rest).length) := by
  rw [assemble_append, assemble_cons, List.length_append, List.length_append,
    Instruction.length_encode]

-- ======================================================== lines of a text

namespace Text

/-- The beginning of a line is read as it stands if there is no carriage
return in it. -/
theorem take_stripReturn {line : List Char} {k : Nat} (h : '\r' ∉ line.take k) :
    (stripReturn line).take k = line.take k := by
  rcases stripReturn_cases line with hsame | hreturn
  · rw [← hsame]
  · generalize stripReturn line = stripped at hreturn
    subst hreturn
    rw [List.take_append] at h ⊢
    cases hrest : k - stripped.length with
    | zero => rw [List.take_zero, List.append_nil]
    | succ rest =>
        rw [hrest] at h
        exact absurd (List.mem_append_right _ List.mem_cons_self) h

end Text

namespace Program

open Text

/-- The two ends of a line. -/
def lineEnds : List (List Char) := [['\n'], ['\r', '\n']]

/-- `Writes bytes text`: the text writes the bytes in order, one a line, as
eight binary digits with anything behind them. Lines that begin with no
binary digit may stand anywhere, and the last line need not be ended. -/
inductive Writes : List UInt8 → List Char → Prop where
  | code {byte : UInt8} {bytes : List UInt8} {remark ending text : List Char}
      (remark_line : '\n' ∉ remark) (line_end : ending ∈ lineEnds) (rest : Writes bytes text) :
      Writes (byte :: bytes) ((Numeral.binary8 byte).toList ++ remark ++ ending ++ text)
  | other {line : List Char} {bytes : List UInt8} {ending text : List Char}
      (line_line : '\n' ∉ line) (skipped : line.head? ≠ some '0' ∧ line.head? ≠ some '1')
      (line_end : ending ∈ lineEnds) (rest : Writes bytes text) :
      Writes bytes (line ++ ending ++ text)
  | lastCode {byte : UInt8} {remark : List Char} (remark_line : '\n' ∉ remark) :
      Writes [byte] ((Numeral.binary8 byte).toList ++ remark)
  | lastOther {line : List Char} (line_line : '\n' ∉ line)
      (skipped : line.head? ≠ some '0' ∧ line.head? ≠ some '1') : Writes [] line

/-- Whichever way a line ends, it is a line. If it ends in a line feed
alone, a carriage return of its own is taken for part of the end. -/
theorem lines_of_ended {line ending : List Char} (h : '\n' ∉ line) (hending : ending ∈ lineEnds)
    (text : List Char) :
    Text.lines (line ++ ending ++ text) = line :: Text.lines text
      ∨ Text.lines (line ++ ending ++ text) = stripReturn line :: Text.lines text := by
  simp only [lineEnds, List.mem_cons, List.not_mem_nil, or_false] at hending
  rcases hending with rfl | rfl
  · right
    rw [List.append_assoc]
    exact lines_append h text
  · left
    have hreturn : '\n' ∉ line ++ ['\r'] := by
      rw [List.mem_append, not_or]
      exact ⟨h, by decide⟩
    have hsplit : line ++ ['\r', '\n'] ++ text = line ++ ['\r'] ++ '\n' :: text := by
      rw [List.append_assoc, List.append_assoc]
      rfl
    rw [hsplit, lines_append hreturn, stripReturn_append_return]

-- =========================================================== code lines

/-- Whether a line holds a byte is seen from the part that would be it. -/
theorem isCode_eq_field (line : List Char) : isCode line = isCode (field line) := by
  cases line <;> rfl

theorem isCode_binary8 (byte : UInt8) : isCode (Numeral.binary8 byte).toList = true := by
  have hlength := Numeral.length_binary8 byte
  have hbits : ∀ c ∈ (Numeral.binary8 byte).toList, Numeral.isBit c = true :=
    fun c hc => Numeral.isBit_of_mem_binary8 hc
  cases hdigits : (Numeral.binary8 byte).toList with
  | nil =>
      rw [hdigits] at hlength
      cases hlength
  | cons c digits =>
      rw [hdigits] at hbits
      exact hbits c List.mem_cons_self

/-- The digits of a byte and a remark are one line. -/
theorem not_mem_code {remark : List Char} (h : '\n' ∉ remark) (byte : UInt8) :
    '\n' ∉ (Numeral.binary8 byte).toList ++ remark := by
  rw [List.mem_append, not_or]
  refine ⟨fun hmem => ?_, h⟩
  have hbit := Numeral.isBit_of_mem_binary8 hmem
  cases hbit

theorem field_of_code (byte : UInt8) (remark : List Char) :
    field ((Numeral.binary8 byte).toList ++ remark) = (Numeral.binary8 byte).toList := by
  rw [field, List.take_append_of_le_length (Nat.le_of_eq (Numeral.length_binary8 byte).symm)]
  exact List.take_of_length_le (Nat.le_of_eq (Numeral.length_binary8 byte))

/-- The digits of a byte are read as they stand. -/
theorem field_stripReturn_of_code (byte : UInt8) (remark : List Char) :
    field (stripReturn ((Numeral.binary8 byte).toList ++ remark)) =
      (Numeral.binary8 byte).toList := by
  have hfield := field_of_code byte remark
  unfold field at hfield ⊢
  rw [take_stripReturn, hfield]
  rw [hfield]
  intro hreturn
  have hbit := Numeral.isBit_of_mem_binary8 hreturn
  cases hbit

/-- A line whose first eight characters are the digits of a byte is read as
this byte. -/
theorem entriesFrom_of_field {line : List Char} {byte : UInt8}
    (h : field line = (Numeral.binary8 byte).toList) (number : Nat) (rest : List (List Char)) :
    entriesFrom number (line :: rest) =
      (entriesFrom (number + 1) rest).map (⟨byte, number⟩ :: ·) := by
  have hcode : isCode line = true := by
    rw [isCode_eq_field, h]
    exact isCode_binary8 byte
  simp only [entriesFrom, hcode, if_true, h, Numeral.byteOfBits?_binary8]

theorem isCode_of_skipped {line : List Char}
    (h : line.head? ≠ some '0' ∧ line.head? ≠ some '1') : isCode line = false := by
  cases line with
  | nil => rfl
  | cons c rest =>
      have hzero : (c == '0') = false := beq_eq_false_iff_ne.2 fun hc => h.left (congrArg some hc)
      have hone : (c == '1') = false := beq_eq_false_iff_ne.2 fun hc => h.right (congrArg some hc)
      rw [isCode, Numeral.isBit, hzero, hone, Bool.or_false]

theorem isCode_stripReturn {line : List Char} (h : isCode line = false) :
    isCode (stripReturn line) = false := by
  rcases stripReturn_cases line with hsame | hreturn
  · rwa [← hsame]
  · cases hstrip : stripReturn line with
    | nil => rfl
    | cons c rest =>
        rw [hreturn, hstrip] at h
        exact h

theorem entriesFrom_of_other {line : List Char} (h : isCode line = false) (number : Nat)
    (rest : List (List Char)) :
    entriesFrom number (line :: rest) = entriesFrom (number + 1) rest := by
  simp only [entriesFrom, h, Bool.false_eq_true, if_false]

-- ========================================================= written texts

/-- From a text the bytes are read that it writes. -/
theorem entriesFrom_of_writes {bytes : List UInt8} {text : List Char} (h : Writes bytes text) :
    ∀ number, ∃ entries, entriesFrom number (Text.lines text) = .ok entries
      ∧ entries.map (·.byte) = bytes := by
  induction h with
  | @code byte bytes remark ending text hremark hending _ ih =>
      intro number
      obtain ⟨entries, hentries, hbytes⟩ := ih (number + 1)
      refine ⟨⟨byte, number⟩ :: entries, ?_, congrArg (byte :: ·) hbytes⟩
      rcases lines_of_ended (not_mem_code hremark byte) hending text with hlines | hlines
      · rw [hlines, entriesFrom_of_field (field_of_code byte remark), hentries]
        rfl
      · rw [hlines, entriesFrom_of_field (field_stripReturn_of_code byte remark), hentries]
        rfl
  | @other line bytes ending text hline hskipped hending _ ih =>
      intro number
      obtain ⟨entries, hentries, hbytes⟩ := ih (number + 1)
      have hcode := isCode_of_skipped hskipped
      refine ⟨entries, ?_, hbytes⟩
      rcases lines_of_ended hline hending text with hlines | hlines
      · rw [hlines, entriesFrom_of_other hcode, hentries]
      · rw [hlines, entriesFrom_of_other (isCode_stripReturn hcode), hentries]
  | @lastCode byte remark hremark =>
      intro number
      refine ⟨[⟨byte, number⟩], ?_, rfl⟩
      rw [lines_of_not_mem (not_mem_code hremark byte)]
      cases hempty : ((Numeral.binary8 byte).toList ++ remark).isEmpty with
      | true =>
          have hcode := isCode_binary8 byte
          rw [(List.append_eq_nil_iff.1 (List.isEmpty_iff.1 hempty)).left] at hcode
          cases hcode
      | false =>
          rw [if_neg Bool.false_ne_true, entriesFrom_of_field (field_of_code byte remark)]
          rfl
  | @lastOther line hline hskipped =>
      intro number
      refine ⟨[], ?_, rfl⟩
      rw [lines_of_not_mem hline]
      cases line.isEmpty with
      | true => rfl
      | false => exact entriesFrom_of_other (isCode_of_skipped hskipped) number []

theorem parse_of_writes {bytes : List UInt8} {text : List Char} (h : Writes bytes text) :
    ∃ p, parse text = .ok p ∧ p.bytes = bytes := by
  obtain ⟨entries, hentries, hbytes⟩ := entriesFrom_of_writes h 1
  refine ⟨⟨entries⟩, ?_, hbytes⟩
  rw [parse, hentries]
  rfl

end Program

namespace Machine

-- ====================================================== instructions again

/-- Where memory begins with a program, each instruction of it is fetched
from behind those that stand before it. -/
theorem fetch_of_prefix {m : Machine} {front rest : List Instruction} {i : Instruction}
    (hfull : m.mem.Full) (hholds : assemble (front ++ i :: rest) <+: m.mem.cells.toList)
    (hpc : m.pc.toNat = (assemble front).length) : m.fetch = .ok i := by
  rw [fetch_eq_ok_iff hfull]
  obtain ⟨behind, hcells⟩ := hholds
  rw [assemble_append, assemble_cons, List.append_assoc, List.append_assoc] at hcells
  rw [hpc, ← hcells, List.drop_left]
  exact List.prefix_append _ _

/-- The instructions that memory holds from `address` up to `stop`: the one
that a program counter there would find, then those behind it. -/
def disassemble (m : Machine) (address stop : Nat) : Except Fault (List Instruction) :=
  if address < stop then
    match (m.jump (UInt8.ofNat address)).fetch with
    | .error fault => .error fault
    | .ok i => (m.disassemble (address + i.size) stop).map (i :: ·)
  else .ok []
termination_by stop - address
decreasing_by
  have := i.size_pos
  omega

/-- Where memory begins with a program, the rest of it is found behind any
part of it. -/
theorem disassemble_of_prefix {m : Machine} (hfull : m.mem.Full) (rest : List Instruction) :
    ∀ front, assemble (front ++ rest) <+: m.mem.cells.toList →
      m.disassemble (assemble front).length (assemble (front ++ rest)).length = .ok rest := by
  induction rest with
  | nil =>
      intro front _
      rw [disassemble, List.append_nil, if_neg (Nat.lt_irrefl _)]
  | cons i rest ih =>
      intro front hholds
      have hlength := length_assemble_middle front i rest
      have hroom : (assemble (front ++ i :: rest)).length ≤ 256 :=
        Nat.le_trans hholds.length_le (Nat.le_of_eq hfull)
      have hsize := i.size_pos
      have hpc : (UInt8.ofNat (assemble front).length).toNat = (assemble front).length :=
        UInt8.toNat_ofNat_of_lt' (show _ < 256 by omega)
      have hfetch : (m.jump (UInt8.ofNat (assemble front).length)).fetch = .ok i :=
        fetch_of_prefix hfull hholds hpc
      have hbehind : front ++ [i] ++ rest = front ++ i :: rest := List.append_assoc front [i] rest
      have hnext := ih (front ++ [i]) (by rwa [hbehind])
      rw [hbehind, assemble_concat, List.length_append, Instruction.length_encode] at hnext
      rw [disassemble, if_pos (by omega), hfetch]
      dsimp only
      rw [hnext]
      rfl

-- ============================================================ round trip

/-- Instructions that are assembled, written, read, loaded and decoded are
the instructions that there were, whatever else the text holds. -/
theorem assembled_program_returns {program : List Instruction} {text : List Char}
    (hroom : (assemble program).length ≤ 256) (hwrites : Program.Writes (assemble program) text) :
    ∃ p m, Program.parse text = .ok p
      ∧ p.bytes = assemble program
      ∧ fresh.load p.bytes = .ok m
      ∧ m.mem.cells.toList =
          assemble program ++ List.replicate (256 - (assemble program).length) 0
      ∧ m.disassemble 0 (assemble program).length = .ok program := by
  obtain ⟨p, hparse, hbytes⟩ := Program.parse_of_writes hwrites
  rw [← hbytes] at hroom
  have hboot := boot_eq_ok_iff.2 ⟨hroom, rfl⟩
  refine ⟨p, _, hparse, hbytes, hboot, ?_, ?_⟩
  · rw [hbytes]
    rfl
  · rw [hbytes]
    exact disassemble_of_prefix (hbytes ▸ full_boot hboot) program []
      (List.prefix_append _ _)

/-- A text with both line ends, remarks, a heading and a blank line. -/
theorem printing_eight_returns :
    let program : List Instruction := [.ldi 0 8, .prn 0, .hlt]
    let text := "; prints 8\r\n10000010 ; LDI R0,8\r\n00000000\n00001000\n\n"
      ++ "01000111 ; PRN R0\n00000000\n00000001"
    (assemble program).length ≤ 256 ∧ Program.Writes (assemble program) text.toList
      ∧ ∃ p m, Program.parse text.toList = .ok p
        ∧ p.bytes = assemble program
        ∧ fresh.load p.bytes = .ok m
        ∧ m.mem.cells.toList =
            assemble program ++ List.replicate (256 - (assemble program).length) 0
        ∧ m.disassemble 0 (assemble program).length = .ok program := by
  intro program text
  have hroom : (assemble program).length ≤ 256 := by decide
  have hlines : text.toList =
      "; prints 8".toList ++ ['\r', '\n']
        ++ ((Numeral.binary8 0b10000010).toList ++ " ; LDI R0,8".toList ++ ['\r', '\n']
        ++ ((Numeral.binary8 0).toList ++ [] ++ ['\n']
        ++ ((Numeral.binary8 8).toList ++ [] ++ ['\n']
        ++ ([] ++ ['\n']
        ++ ((Numeral.binary8 0b01000111).toList ++ " ; PRN R0".toList ++ ['\n']
        ++ ((Numeral.binary8 0).toList ++ [] ++ ['\n']
        ++ ((Numeral.binary8 1).toList ++ []))))))) := by
    decide +kernel
  have hwrites : Program.Writes (assemble program) text.toList := by
    rw [hlines]
    apply Program.Writes.other (by decide) (by decide) (by decide)
    apply Program.Writes.code (by decide) (by decide)
    apply Program.Writes.code (by decide) (by decide)
    apply Program.Writes.code (by decide) (by decide)
    apply Program.Writes.other (by decide) (by decide) (by decide)
    apply Program.Writes.code (by decide) (by decide)
    apply Program.Writes.code (by decide) (by decide)
    exact .lastCode (by decide)
  exact ⟨hroom, hwrites, assembled_program_returns hroom hwrites⟩

end Machine

end LS8
