/-
What the trace of a command shows, and that its run takes no notice of it.

A command with a trace makes the attempts that it makes without one
(`Attempts`) and puts out a line for each, in their order: for every step
that goes through, and for the one that does not if the run ends with a
fault.

# Reading a line

What a line shows is what a reader finds in it. Everything but the
instruction stands in fixed columns, so `Row.ofLine?` takes a line apart
without knowing the machine, and `Row.Of` says what it finds is of an
attempt.

# Lines with no instruction

The line is written before the step, from a fetch of its own. A full memory
gives that fetch and the one of the step the same answer, and nothing behind
the fetch fails over decoding (`fetch_error_iff`), so the instruction is
missing from a line exactly if its attempt fails over decoding.
-/
import LS8.Proofs.Command

namespace LS8

open Machine

-- ================================================ hexadecimal numerals

namespace Numeral

/-- The value of an upper-case hexadecimal digit. -/
def hexValue? (c : Char) : Option Nat :=
  if '0' ≤ c ∧ c ≤ '9' then some (c.toNat - '0'.toNat)
  else if 'A' ≤ c ∧ c ≤ 'F' then some (10 + (c.toNat - 'A'.toNat))
  else none

theorem hexValue?_hexDigit {value : Nat} (h : value < 16) :
    hexValue? (hexDigit value) = some value := by
  have hall : ∀ value < 16, hexValue? (hexDigit value) = some value := by decide
  exact hall value h

/-- The byte that two hexadecimal digits stand for. -/
def hexByte? : List Char → Option UInt8
  | [high, low] => do
      let high ← hexValue? high
      let low ← hexValue? low
      return UInt8.ofNat (16 * high + low)
  | _ => none

/-- Two hexadecimal digits stand for the byte that they were written for. -/
theorem hexByte?_hex2 (byte : UInt8) : hexByte? (hex2 byte).toList = some byte := by
  have hlt : byte.toNat < 256 := byte.toNat_lt
  rw [toList_hex2, hexByte?, hexValue?_hexDigit (by omega), hexValue?_hexDigit (by omega)]
  show some (UInt8.ofNat (16 * (byte.toNat / 16) + byte.toNat % 16)) = some byte
  rw [Nat.div_add_mod, UInt8.ofNat_toNat]

/-- The bytes as they stand in a line: a blank between any two of them. -/
def spaced (bytes : List UInt8) : List Char :=
  (" ".intercalate (bytes.map hex2)).toList

theorem spaced_singleton (byte : UInt8) : spaced [byte] = (hex2 byte).toList := by
  rw [spaced, List.map_singleton, String.intercalate_singleton]

theorem spaced_cons_cons (first second : UInt8) (bytes : List UInt8) :
    spaced (first :: second :: bytes)
      = (hex2 first).toList ++ ' ' :: spaced (second :: bytes) := by
  simp only [spaced, List.map_cons, String.intercalate_cons_cons, String.toList_append,
    List.append_assoc]
  rfl

theorem length_spaced (byte : UInt8) (bytes : List UInt8) :
    (spaced (byte :: bytes)).length = 2 + 3 * bytes.length := by
  induction bytes generalizing byte with
  | nil => rw [spaced_singleton, length_hex2, List.length_nil]
  | cons second bytes ih =>
      rw [spaced_cons_cons, List.length_append, length_hex2, List.length_cons, ih,
        List.length_cons]
      omega

/-- The first `count` of the bytes that stand in a line, with one character
between any two of them. -/
def spacedBytes? : Nat → List Char → Option (List UInt8)
  | 0, _ => some []
  | count + 1, line => do
      let byte ← hexByte? (line.take 2)
      let bytes ← spacedBytes? count (line.drop 3)
      return byte :: bytes

/-- Bytes are read back from a line, whatever follows them. -/
theorem spacedBytes?_spaced {bytes : List UInt8} {count : Nat} (hcount : bytes.length = count)
    (back : List Char) : spacedBytes? count (spaced bytes ++ back) = some bytes := by
  subst hcount
  induction bytes with
  | nil => rfl
  | cons first bytes ih =>
      cases bytes with
      | nil =>
          rw [spaced_singleton, List.length_singleton, spacedBytes?,
            List.take_left' (length_hex2 first), hexByte?_hex2]
          rfl
      | cons second bytes =>
          have hdrop : (spaced (first :: second :: bytes) ++ back).drop 3
              = spaced (second :: bytes) ++ back := by
            rw [spaced_cons_cons, toList_hex2]
            rfl
          have htake : (spaced (first :: second :: bytes) ++ back).take 2
              = (hex2 first).toList := by
            rw [spaced_cons_cons, List.append_assoc, List.take_left' (length_hex2 first)]
          rw [List.length_cons, spacedBytes?, htake, hdrop, hexByte?_hex2, ih]
          rfl

theorem not_mem_hex2 (byte : UInt8) : '\n' ∉ (hex2 byte).toList := by
  have hdigit : ∀ value < 16, '\n' ≠ hexDigit value := by decide
  have hlt : byte.toNat < 256 := byte.toNat_lt
  rw [toList_hex2, List.mem_pair, not_or]
  exact ⟨hdigit _ (by omega), hdigit _ (by omega)⟩

theorem not_mem_spaced (bytes : List UInt8) : '\n' ∉ spaced bytes := by
  induction bytes with
  | nil => exact List.not_mem_nil
  | cons first bytes ih =>
      cases bytes with
      | nil =>
          rw [spaced_singleton]
          exact not_mem_hex2 first
      | cons second bytes =>
          rw [spaced_cons_cons, List.mem_append, List.mem_cons]
          rintro (h | h | h)
          · exact not_mem_hex2 first h
          · exact absurd h (by decide)
          · exact ih h

theorem not_mem_decimal (n : Nat) : '\n' ∉ (decimal n).toList := by
  intro h
  exact absurd (isDigit_of_mem_decimal h) (by decide)

end Numeral

/-- A mnemonic is one line. -/
theorem Instruction.not_mem_text (i : Instruction) : '\n' ∉ i.text.toList := by
  cases i with
  | alu op a b =>
      cases op <;>
        simp [text, AluOp.mnemonic, registerText, String.toList_append, Numeral.not_mem_decimal]
  | _ => simp [text, registerText, String.toList_append, Numeral.not_mem_decimal]

-- ============================================================= attempts

namespace Machine

/-- A step that was called on a running machine: the machine that it found,
and what it came to. -/
structure Attempt where
  before : Machine
  result : Except Fault Instruction

/-- `Attempts m out attempts o`: the steps that lead from `m` and `out` to
`o`, one after the other. All go through but the last one if `o` is a
fault. -/
inductive Attempts : Machine → Printer → List Attempt → Outcome Unit → Prop where
  | done (m : Machine) (out : Printer) : Attempts m out [] ⟨.ok (), m, out⟩
  | fault {m m' : Machine} {out out' : Printer} {fault : Fault} (running : m.status = .running)
      (step : m.step out = ⟨.error fault, m', out'⟩) :
      Attempts m out [⟨m, .error fault⟩] ⟨.error fault, m', out'⟩
  | head {m m' : Machine} {out out' : Printer} {i : Instruction} {attempts : List Attempt}
      {o : Outcome Unit} (step : m.step out = ⟨.ok i, m', out'⟩)
      (rest : Attempts m' out' attempts o) : Attempts m out (⟨m, .ok i⟩ :: attempts) o

variable {m m' : Machine} {out out' : Printer} {attempts : List Attempt} {o : Outcome Unit}

/-- Every attempt is a step of a running machine. A full memory stays full
throughout. -/
theorem Attempts.found (h : Attempts m out attempts o) (hfull : m.mem.Full) :
    ∀ a ∈ attempts, a.before.status = .running ∧ a.before.mem.Full
      ∧ ∃ out, (a.before.step out).result = a.result := by
  induction h with
  | done m out => exact fun a ha => absurd ha List.not_mem_nil
  | @fault m m' out out' fault hrun hstep =>
      intro a ha
      rw [List.mem_singleton] at ha
      subst ha
      exact ⟨hrun, hfull, out, congrArg Outcome.result hstep⟩
  | @head m m' out out' i attempts o hstep hrest ih =>
      intro a ha
      rcases List.mem_cons.1 ha with rfl | ha
      · exact ⟨(step_eq_ok_iff.1 hstep).1, hfull, out, congrArg Outcome.result hstep⟩
      · exact ih (full_step hstep hfull) a ha

/-- How many attempts there are decides what they are. -/
theorem Attempts.eq_of_length {second : List Attempt} {o' : Outcome Unit}
    (h : Attempts m out attempts o) (h' : Attempts m out second o')
    (hlength : attempts.length = second.length) : attempts = second := by
  induction h generalizing second with
  | done m out => exact (List.eq_nil_of_length_eq_zero hlength.symm).symm
  | fault hrun hstep =>
      cases h' with
      | done => cases hlength
      | fault _ hstep' =>
          cases hstep.symm.trans hstep'
          rfl
      | head hstep' _ => cases hstep.symm.trans hstep'
  | head hstep _ ih =>
      cases h' with
      | done => cases hlength
      | fault _ hstep' => cases hstep.symm.trans hstep'
      | head hstep' hrest' =>
          cases hstep.symm.trans hstep'
          rw [ih hrest' (Nat.succ.inj hlength)]

/-- How many attempts do not go through in a run with this result. -/
def failures : Except Fault Unit → Nat
  | .ok () => 0
  | .error _ => 1

/-- A trace has an entry for every attempt, and the counter has counted
those that have gone through: below the limit it does not wrap. -/
theorem exists_attempts_runTraced (limit : UInt64) (m : Machine) (out : Printer)
    (entries : Array String) :
    let traced := runTraced limit m out entries
    ∃ attempts, Attempts m out attempts traced.1
      ∧ traced.2.toList = entries.toList ++ attempts.map (·.before.traceEntry)
      ∧ m.cycles.toNat + attempts.length
          = traced.1.machine.cycles.toNat + failures traced.1.result := by
  fun_induction runTraced limit m out entries with
  | case1 m out entries hgo entries' i m' out' hstep _ ih =>
      obtain ⟨attempts, hattempts, hentries, hcount⟩ := ih
      refine ⟨⟨m, .ok i⟩ :: attempts, .head hstep hattempts, ?_, ?_⟩
      · rw [hentries, Array.toList_push, List.append_assoc]
        rfl
      · -- the counter stands below the limit, so one more does not wrap it
        have hnext : m'.cycles.toNat = m.cycles.toNat + 1 := by
          have hroom : m.cycles.toNat < limit.toNat := UInt64.lt_iff_toNat_lt.1 hgo.2
          have hlimit : limit.toNat < UInt64.size := limit.toNat_lt_size
          exact (Passage.single hstep).toNat_cycles (Nat.lt_of_le_of_lt hroom hlimit)
        rw [← hcount, hnext, List.length_cons]
        omega
  | case2 m out entries hgo entries' fault m' out' hstep =>
      refine ⟨[⟨m, .error fault⟩], .fault hgo.1 hstep, Array.toList_push, ?_⟩
      rw [(step_fault hgo.1 hstep).1]
      rfl
  | case3 m out entries hstop =>
      exact ⟨[], .done m out, (List.append_nil _).symm, rfl⟩

end Machine

-- ================================================================ lines

/-- What a reader finds in a line of a trace. -/
structure Row where
  pc : UInt8
  code : List UInt8
  gp : List UInt8
  mnemonic : Option String
  deriving DecidableEq, Repr

namespace Row

/-- What stands behind the registers: nothing, or an instruction behind a
bar. -/
def mnemonicOf? (back : List Char) : Option String :=
  if back = [] then none else some (String.ofList (back.drop 3))

/-- A line of a trace, read by its columns. -/
def ofLine? (line : String) : Option Row := do
  let chars := line.toList
  let pc ← Numeral.hexByte? ((chars.drop 7).take 2)
  let code ← Numeral.spacedBytes? 3 (chars.drop 12)
  let gp ← Numeral.spacedBytes? 8 (chars.drop 23)
  return { pc, code, gp, mnemonic := mnemonicOf? (chars.drop 46) }

/-- The row is that of an attempt. -/
structure Of (row : Row) (a : Machine.Attempt) : Prop where
  pc : row.pc = a.before.pc
  /-- Three bytes from the program counter on, with zeros behind the last
  cell. -/
  code : row.code = (a.before.mem.cells.toList.drop a.before.pc.toNat ++ [0, 0]).take 3
  gp : row.gp = a.before.regs.gp.toList
  undecoded : row.mnemonic = none ↔ ∃ pc e, a.result = .error (.decode pc e)
  decoded : ∀ text, row.mnemonic = some text → ∃ i : Instruction, text = i.text
    ∧ a.before.fetch = .ok i ∧ i.encode = row.code.take i.size
    ∧ ∀ executed, a.result = .ok executed → executed = i

end Row

namespace Machine

variable {m : Machine}

/-- The bytes that a line shows. -/
def shownCode (m : Machine) : List UInt8 :=
  [m.mem.peek (m.pc.toNat + 0), m.mem.peek (m.pc.toNat + 1), m.mem.peek (m.pc.toNat + 2)]

theorem shownCode_eq (hfull : m.mem.Full) :
    m.shownCode = (m.mem.cells.toList.drop m.pc.toNat ++ [0, 0]).take 3 := by
  have hsize : m.mem.cells.size = 256 := hfull
  have hpc : m.pc.toNat < 256 := m.pc.toNat_lt
  have hlength : (m.mem.cells.toList.drop m.pc.toNat).length = 256 - m.pc.toNat := by
    rw [List.length_drop, Array.length_toList, hsize]
  have hcell : ∀ k < 3, (m.mem.cells.toList.drop m.pc.toNat ++ [0, 0])[k]?
      = some (m.mem.peek (m.pc.toNat + k)) := by
    intro k hk
    by_cases hin : m.pc.toNat + k < 256
    · rw [List.getElem?_append_left (by omega), List.getElem?_drop, Array.getElem?_toList,
        ← Memory.read_eq_ok_iff, hfull.read_eq hin]
    · have hpeek : m.mem.peek (m.pc.toNat + k) = 0 := Memory.peek_of_size_le (by omega)
      rw [List.getElem?_append_right (by omega), hlength, hpeek]
      have hlast : k - (256 - m.pc.toNat) = 0 ∨ k - (256 - m.pc.toNat) = 1 := by omega
      rcases hlast with h | h <;> rw [h] <;> rfl
  refine List.ext_getElem? fun k => ?_
  by_cases hk : k < 3
  · rw [List.getElem?_take, if_pos hk, hcell k hk]
    have hk' : k = 0 ∨ k = 1 ∨ k = 2 := by omega
    rcases hk' with rfl | rfl | rfl <;> rfl
  · rw [List.getElem?_take, if_neg hk]
    exact List.getElem?_eq_none (Nat.le_of_not_lt hk)

/-- What stands in a line behind the registers. -/
def shownInstruction (m : Machine) : List Char :=
  match m.fetch with
  | .ok i => " | ".toList ++ i.text.toList
  | .error _ => []

theorem mnemonicOf?_shownInstruction (m : Machine) :
    Row.mnemonicOf? m.shownInstruction = m.fetch.toOption.map Instruction.text := by
  unfold shownInstruction
  cases m.fetch with
  | error fault => rfl
  | ok i => exact congrArg some String.ofList_toList

/-- A line in its parts. -/
theorem toList_traceEntry (m : Machine) :
    m.traceEntry.toList
      = "TRACE: ".toList ++ (Numeral.hex2 m.pc).toList
          ++ " | ".toList ++ Numeral.spaced m.shownCode
          ++ " | ".toList ++ Numeral.spaced m.regs.gp.toList ++ m.shownInstruction := by
  have hline : m.traceLine.toList
      = "TRACE: ".toList ++ (Numeral.hex2 m.pc).toList
          ++ " | ".toList ++ Numeral.spaced m.shownCode
          ++ " | ".toList ++ Numeral.spaced m.regs.gp.toList := by
    simp only [traceLine, String.toList_append]
    rfl
  unfold traceEntry shownInstruction
  cases m.fetch with
  | error fault => rw [hline, List.append_nil]
  | ok i => simp only [String.toList_append, hline, List.append_assoc]

theorem not_mem_traceEntry (m : Machine) : '\n' ∉ m.traceEntry.toList := by
  have hback : '\n' ∉ m.shownInstruction := by
    unfold shownInstruction
    cases m.fetch with
    | error fault => exact List.not_mem_nil
    | ok i =>
        rw [List.mem_append, not_or]
        exact ⟨by decide, i.not_mem_text⟩
  rw [toList_traceEntry]
  simp only [List.mem_append, not_or]
  exact ⟨⟨⟨⟨⟨⟨by decide, Numeral.not_mem_hex2 _⟩, by decide⟩, Numeral.not_mem_spaced _⟩,
    by decide⟩, Numeral.not_mem_spaced _⟩, hback⟩

/-- What a line shows of the machine before the attempt. -/
def row (m : Machine) : Row where
  pc := m.pc
  code := m.shownCode
  gp := m.regs.gp.toList
  mnemonic := m.fetch.toOption.map Instruction.text

/-- A reader finds in a line what was written there. -/
theorem ofLine?_traceEntry (m : Machine) : Row.ofLine? m.traceEntry = some m.row := by
  have hregs : m.regs.gp.toList.length = 8 := m.regs.gp.length_toList
  have hpc : (Numeral.hex2 m.pc).toList.length = 2 := Numeral.length_hex2 m.pc
  have hcode : (Numeral.spaced m.shownCode).length = 8 := Numeral.length_spaced _ _
  have hgp : (Numeral.spaced m.regs.gp.toList).length = 23 := by
    rcases hfile : m.regs.gp.toList with _ | ⟨first, rest⟩
    · rw [hfile] at hregs
      cases hregs
    · rw [hfile, List.length_cons] at hregs
      rw [Numeral.length_spaced]
      omega
  -- The four places of the line where the reader sets in.
  have hat7 : m.traceEntry.toList.drop 7 = (Numeral.hex2 m.pc).toList ++ (" | ".toList
      ++ (Numeral.spaced m.shownCode ++ (" | ".toList ++ (Numeral.spaced m.regs.gp.toList
      ++ m.shownInstruction)))) := by
    rw [toList_traceEntry]
    simp only [List.append_assoc]
    exact List.drop_left' rfl
  have hat12 : m.traceEntry.toList.drop 12 = Numeral.spaced m.shownCode ++ (" | ".toList
      ++ (Numeral.spaced m.regs.gp.toList ++ m.shownInstruction)) := by
    rw [← List.drop_drop (i := 5) (j := 7), hat7, ← List.append_assoc]
    exact List.drop_left' (by rw [List.length_append, hpc]; rfl)
  have hat23 : m.traceEntry.toList.drop 23
      = Numeral.spaced m.regs.gp.toList ++ m.shownInstruction := by
    rw [← List.drop_drop (i := 11) (j := 12), hat12, ← List.append_assoc]
    exact List.drop_left' (by rw [List.length_append, hcode]; rfl)
  have hat46 : m.traceEntry.toList.drop 46 = m.shownInstruction := by
    rw [← List.drop_drop (i := 23) (j := 23), hat23]
    exact List.drop_left' hgp
  unfold Row.ofLine?
  dsimp only
  rw [hat7, List.take_left' hpc, Numeral.hexByte?_hex2, hat12,
    Numeral.spacedBytes?_spaced (show m.shownCode.length = 3 from rfl), hat23,
    Numeral.spacedBytes?_spaced hregs, hat46, mnemonicOf?_shownInstruction]
  rfl

/-- A line shows the attempt before which it is written. -/
theorem row_of_attempt {a : Attempt} {out : Printer} (hrun : a.before.status = .running)
    (hfull : a.before.mem.Full) (hresult : (a.before.step out).result = a.result) :
    a.before.row.Of a where
  pc := rfl
  code := shownCode_eq hfull
  gp := rfl
  undecoded := by
    rw [← hresult, ← fetch_error_iff hrun hfull out]
    unfold row
    dsimp only
    cases a.before.fetch with
    | error fault => exact ⟨fun _ => ⟨fault, rfl⟩, fun _ => rfl⟩
    | ok i => exact ⟨nofun, nofun⟩
  decoded := by
    intro text htext
    unfold row at htext
    dsimp only at htext
    cases hfetch : a.before.fetch with
    | error fault =>
        rw [hfetch] at htext
        cases htext
    | ok i =>
        rw [hfetch] at htext
        cases htext
        refine ⟨i, rfl, rfl, ?_, ?_⟩
        · have hbytes : i.encode <+: a.before.mem.cells.toList.drop a.before.pc.toNat :=
            (fetch_eq_ok_iff hfull).1 hfetch
          show i.encode = a.before.shownCode.take i.size
          rw [shownCode_eq hfull, List.take_take, Nat.min_eq_left i.size_le_three,
            ← Instruction.length_encode]
          exact List.prefix_iff_eq_take.1 (hbytes.trans (List.prefix_append _ _))
        · intro executed hexecuted
          rw [← hresult] at hexecuted
          exact Except.ok.inj ((fetch_of_step_ok hexecuted).symm.trans hfetch)

end Machine

-- ============================================================= commands

namespace CommandLine

variable {m : Machine}

/-- The text of a trace: one entry a line. -/
def traceText (entries : Array String) : String :=
  String.join (entries.toList.map (· ++ "\n"))

theorem execute_traced (options : Options) (out : Printer) (hcycles : m.cycles = 0) :
    (execute { options with trace := true } m out).1
      = (execute { options with trace := false } m out).1 := by
  have hlimit : limit { options with trace := true } = limit { options with trace := false } := rfl
  rw [execute_eq hcycles, execute_eq hcycles, hlimit]

/-- A command with a trace ends as one without, but for the trace in front
of its error output. -/
theorem runProgram_traced {options : Options} {out : Printer}
    (h : (execute { options with trace := true } m out).1
      = (execute { options with trace := false } m out).1) (folder : Folder) (program : Program) :
    let quiet := runProgram folder { options with trace := false } program m out
    runProgram folder { options with trace := true } program m out
      = { quiet with stderr :=
            traceText (execute { options with trace := true } m out).2 ++ quiet.stderr } := by
  intro quiet
  have hnone : (execute { options with trace := false } m out).2 = #[] := rfl
  subst quiet
  unfold runProgram
  generalize execute { options with trace := true } m out = traced at h ⊢
  generalize execute { options with trace := false } m out = quiet at h hnone ⊢
  obtain ⟨o, entries⟩ := traced
  obtain ⟨o', none⟩ := quiet
  dsimp only at h hnone ⊢
  subst h hnone
  rw [show String.join ((#[] : Array String).toList.map (· ++ "\n")) = "" from rfl,
    String.empty_append, String.append_assoc]
  rfl

/-- A trace changes nothing in what a command does, and it has exactly one
line for each attempt, in order: as many as instructions went through, and
one more if the run ends with a fault. A line shows the program counter, the
three bytes there and the registers before the attempt, then the instruction
that the step executes; that is missing exactly if the attempt fails over
decoding. -/
theorem trace_shows_every_attempt (options : Options) (out : Printer) (hfull : m.mem.Full)
    (hcycles : m.cycles = 0) :
    let quiet := execute { options with trace := false } m out
    let traced := execute { options with trace := true } m out
    traced.1 = quiet.1 ∧ quiet.2 = #[]
    ∧ (∃ attempts, Attempts m out attempts traced.1
        ∧ attempts.length = traced.1.machine.cycles.toNat + failures traced.1.result
        ∧ List.Forall₂
            (fun line a => '\n' ∉ line.toList ∧ ∃ row, Row.ofLine? line = some row ∧ row.Of a)
            traced.2.toList attempts)
    ∧ ∀ folder program,
        let ending := runProgram folder { options with trace := false } program m out
        runProgram folder { options with trace := true } program m out
          = { ending with stderr := traceText traced.2 ++ ending.stderr } := by
  intro quiet traced
  have hsame : traced.1 = quiet.1 := execute_traced options out hcycles
  refine ⟨hsame, rfl, ?_, runProgram_traced hsame⟩
  obtain ⟨attempts, hattempts, hlines, hcount⟩ :=
    exists_attempts_runTraced (limit options) m out #[]
  rw [hcycles, UInt64.toNat_zero, Nat.zero_add] at hcount
  refine ⟨attempts, hattempts, hcount, ?_⟩
  have htrace : traced.2.toList = attempts.map (·.before.traceEntry) := hlines
  rw [htrace, List.forall₂_map_left_iff, List.forall₂_same]
  intro a ha
  obtain ⟨hrun, hfull', out', hresult⟩ := hattempts.found hfull a ha
  exact ⟨a.before.not_mem_traceEntry, a.before.row, ofLine?_traceEntry _,
    row_of_attempt hrun hfull' hresult⟩

/-- Jumps to the last address, where an LDI lacks its operands. -/
def overrunning : Machine :=
  { fresh with
    regs := Registers.fresh.set 0 255
    mem := ⟨⟨[Opcode.jmp, 0] ++ List.replicate 253 0 ++ [Opcode.ldi]⟩⟩ }

/-- The line of the attempt that fails shows zeros behind the last cell, and
no instruction. -/
theorem overrunning_shows_two_lines :
    let options : Options := { program := "overrun.ls8" }
    let traced := execute { options with trace := true } overrunning (.unlimited {})
    traced.1 = (execute { options with trace := false } overrunning (.unlimited {})).1
    ∧ ∃ first second, traced.2.toList.map Row.ofLine? = [some first, some second]
      ∧ first.pc = 0 ∧ first.code = [Opcode.jmp, 0, 0] ∧ first.mnemonic = some "JMP R0"
      ∧ second.pc = 255 ∧ second.code = [Opcode.ldi, 0, 0] ∧ second.mnemonic = none := by
  intro options traced
  let out := Printer.unlimited {}
  let once := overrunning.step out
  let failed := once.machine.step once.out
  have hstep : overrunning.step out = ⟨.ok (.jmp 0), once.machine, once.out⟩ :=
    Outcome.eq_of_result (by decide +kernel)
  let fault : Fault := .decode 255 (.truncated Opcode.ldi 3)
  have hruns : once.machine.status = .running := by decide +kernel
  have hfault : once.machine.step once.out = ⟨.error fault, failed.machine, failed.out⟩ :=
    Outcome.eq_of_result (by decide +kernel)
  obtain ⟨hsame, -, ⟨attempts, hattempts, hlength, hlines⟩, -⟩ :=
    trace_shows_every_attempt (m := overrunning) options out (by decide +kernel) rfl
  refine ⟨hsame, ?_⟩
  have htraced : traced.1 = ⟨.error fault, failed.machine, failed.out⟩ := by
    have hrun : overrunning.runLimited (limit options) out
        = ⟨.error fault, failed.machine, failed.out⟩ :=
      (Passage.single hstep).runLimited_fault (by decide) hruns hfault
    have heq : traced.1 = ⟨(overrunning.runLimited (limit options) out).result.map fun _ => (),
        (overrunning.runLimited (limit options) out).machine,
        (overrunning.runLimited (limit options) out).out⟩ := execute_eq rfl
    simp only [hrun, Except.map] at heq
    exact heq
  have hknown : Attempts overrunning out
      [⟨overrunning, .ok (.jmp 0)⟩, ⟨once.machine, .error fault⟩] traced.1 := by
    rw [htraced]
    exact .head hstep (.fault hruns hfault)
  have htwo : attempts.length = 2 := by
    rw [hlength, htraced]
    decide +kernel
  rw [hattempts.eq_of_length hknown htwo] at hlines
  obtain ⟨line₁, rest, ⟨-, first, hread₁, hfirst⟩, hlines, htrace⟩ :=
    List.forall₂_cons_right_iff.1 hlines
  obtain ⟨line₂, rest, ⟨-, second, hread₂, hsecond⟩, hnone, rfl⟩ :=
    List.forall₂_cons_right_iff.1 hlines
  rw [List.forall₂_nil_right_iff] at hnone
  subst hnone
  refine ⟨first, second, ?_, hfirst.pc, hfirst.code.trans (by decide +kernel), ?_,
    hsecond.pc.trans (by decide +kernel), hsecond.code.trans (by decide +kernel),
    hsecond.undecoded.2 ⟨_, _, rfl⟩⟩
  · rw [htrace, List.map_cons, List.map_singleton, hread₁, hread₂]
  · have hsome : first.mnemonic ≠ none := fun hnone => by
      obtain ⟨pc, e, herror⟩ := hfirst.undecoded.1 hnone
      cases herror
    obtain ⟨text, htext⟩ := Option.ne_none_iff_exists'.1 hsome
    obtain ⟨i, rfl, -, -, hexecuted⟩ := hfirst.decoded text htext
    rw [htext, ← hexecuted (.jmp 0) rfl]
    rfl

end CommandLine

end LS8
