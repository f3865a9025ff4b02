/-
Which line of its text a failing program is told about.

A fault leaves the program counter on the instruction that failed, and what
is told is the line that the byte at this address was loaded from. Between
the two stand the program and its run: which line an address belongs to is
settled when the text is read, and no write and no jump changes it.

# From an address to a line

The byte at an address is that of the code line with as many code lines
before it as there are addresses before it (`LoadedFrom`). Remarks and blank
lines count as lines and load nothing. That an address leads to this line and
to no other (`entries_getElem?_eq_some_iff`) is an induction over the lines of
the text, with the number of the first line left open.

# From a run to an address

`FailsAt` is a run that comes to a step that faults, with the machine in front
of that step. The report reads the address off the fault or off the machine
behind it, and both have it from there (`faultAddress_fail`).
-/
import LS8.Proofs.Tracing
import LS8.Proofs.Grammar

namespace LS8

-- ================================================== from addresses to lines

namespace Program

open Numeral (valueOfBits)

/-- How many of these lines are code lines. -/
def codeCount (lines : List (List Char)) : Nat :=
  lines.countP fun line => IsCodeLine line

theorem codeCount_cons (line : List Char) (rest : List (List Char)) :
    codeCount (line :: rest) = (if IsCodeLine line then 1 else 0) + codeCount rest := by
  rw [codeCount, List.countP_cons, Nat.add_comm]
  simp [codeCount]

variable {text line : List Char} {lines : List (List Char)} {number n k : Nat} {byte : UInt8}

theorem le_of_codeLines_getElem? (h : (codeLines number lines)[k]? = some (line, n)) :
    number ≤ n := by
  have hmem := List.mem_of_mem_filter (List.mem_of_getElem? h)
  exact (List.mk_mem_zipIdx_iff_le_and_getElem?_sub.1 hmem).1

/-- Among the code lines a line stands behind those that are before it. -/
theorem codeLines_getElem?_eq_some_iff {j : Nat} :
    (codeLines number lines)[k]? = some (line, number + j) ↔
      lines[j]? = some line ∧ IsCodeLine line ∧ codeCount (lines.take j) = k := by
  induction lines generalizing number j k with
  | nil => simp [codeLines]
  | cons first rest ih =>
      have hlater : ∀ k : Nat, (codeLines (number + 1) rest)[k]? ≠ some (line, number) := by
        intro k h
        have := le_of_codeLines_getElem? h
        omega
      rw [codeLines_cons]
      cases j with
      | zero =>
          rw [List.getElem?_cons_zero, List.take_zero, Nat.add_zero]
          by_cases hcode : IsCodeLine first
          · rw [if_pos hcode, List.singleton_append]
            cases k with
            | zero =>
                rw [List.getElem?_cons_zero]
                constructor
                · rintro ⟨⟩
                  exact ⟨rfl, hcode, rfl⟩
                · rintro ⟨⟨⟩, -, -⟩
                  rfl
            | succ k =>
                rw [List.getElem?_cons_succ]
                exact ⟨fun h => absurd h (hlater k), fun h => nomatch h.2.2⟩
          · rw [if_neg hcode, List.nil_append]
            refine ⟨fun h => absurd h (hlater k), ?_⟩
            rintro ⟨⟨⟩, h, -⟩
            exact absurd h hcode
      | succ j =>
          have hnumber : number + (j + 1) = number + 1 + j := by omega
          rw [List.getElem?_cons_succ, List.take_succ_cons, codeCount_cons, hnumber]
          by_cases hcode : IsCodeLine first
          · rw [if_pos hcode, if_pos hcode, List.singleton_append]
            cases k with
            | zero =>
                have hfirst : number ≠ number + 1 + j := by omega
                have hcount : 1 + codeCount (rest.take j) ≠ 0 := by omega
                rw [List.getElem?_cons_zero]
                exact ⟨fun h => absurd (Prod.mk.inj (Option.some.inj h)).2 hfirst,
                  fun h => absurd h.2.2 hcount⟩
            | succ k => rw [List.getElem?_cons_succ, ih, Nat.add_comm 1, Nat.succ_inj]
          · rw [if_neg hcode, if_neg hcode, List.nil_append, Nat.zero_add, ih]

theorem codeLines_text_getElem?_eq_some_iff :
    (codeLines 1 (Text.lines text))[k]? = some (line, n) ↔
      LineAt text n line ∧ IsCodeLine line ∧ codeCount ((Text.lines text).take (n - 1)) = k := by
  cases n with
  | zero =>
      constructor
      · intro h
        exact absurd (le_of_codeLines_getElem? h) (by decide)
      · intro h
        exact absurd h.1.1 (Nat.lt_irrefl 0)
  | succ j =>
      rw [Nat.add_comm j 1, codeLines_getElem?_eq_some_iff, LineAt, Nat.add_sub_cancel_left,
        and_iff_right (by omega : 0 < 1 + j)]

/-- The `n`-th line of the text, counted from 1, is the code line that
`address` is loaded from, and `byte` is the value of its digits. -/
def LoadedFrom (text : List Char) (address n : Nat) (byte : UInt8) : Prop :=
  ∃ line, LineAt text n line ∧ IsCodeLine line
    ∧ codeCount ((Text.lines text).take (n - 1)) = address ∧ byte.toNat = valueOfBits (line.take 8)

theorem ofNat_valueOfBits_field :
    UInt8.ofNat (valueOfBits (line.take 8)) = byte ↔ byte.toNat = valueOfBits (line.take 8) := by
  have hlt := Numeral.valueOfBits_lt_size (List.length_take_le 8 line)
  rw [← UInt8.toNat_inj, UInt8.toNat_ofNat_of_lt' hlt, eq_comm]

/-- An address leads to the line that it is loaded from, and to no other. -/
theorem entries_getElem?_eq_some_iff {p : Program} (hparse : parse text = .ok p) :
    p.entries[k]? = some ⟨byte, n⟩ ↔ LoadedFrom text k n byte := by
  obtain ⟨-, rfl⟩ := parse_eq_ok_iff.1 hparse
  show ((codeLines 1 (Text.lines text)).map _)[k]? = _ ↔ _
  rw [List.getElem?_map, Option.map_eq_some_iff]
  constructor
  · rintro ⟨⟨line, n⟩, hget, ⟨⟩⟩
    obtain ⟨hat, hcode, hcount⟩ := codeLines_text_getElem?_eq_some_iff.1 hget
    exact ⟨line, hat, hcode, hcount, ofNat_valueOfBits_field.1 rfl⟩
  · rintro ⟨line, hat, hcode, hcount, hbyte⟩
    refine ⟨(line, n), codeLines_text_getElem?_eq_some_iff.2 ⟨hat, hcode, hcount⟩, ?_⟩
    rw [← ofNat_valueOfBits_field.2 hbyte]

end Program

-- ================================================= from runs to addresses

namespace Machine

variable {m last : Machine} {out : Printer} {fault : Fault} {n : Nat} {max : UInt64}

/-- Within the first `n` instructions comes one that faults, and `last` is the
machine in front of it: all before it have gone through. -/
def FailsAt (n : Nat) (m : Machine) (out : Printer) (last : Machine) (fault : Fault) : Prop :=
  ∃ trace out', Passage m out trace last out' ∧ trace.length < n ∧ last.status = .running
    ∧ (last.step out').result = .error fault

theorem faultsWithin_iff_failsAt :
    FaultsWithin n m out fault ↔ ∃ last, FailsAt n m out last fault := by
  constructor
  · rintro ⟨trace, last, out', h⟩
    exact ⟨last, trace, out', h⟩
  · rintro ⟨last, trace, out', h⟩
    exact ⟨trace, last, out', h⟩

/-- Such a run leaves that machine, failed. -/
theorem FailsAt.runLimited (h : FailsAt (m.allowance max) m out last fault) :
    (m.runLimited max out).result = .error fault ∧ (m.runLimited max out).machine = last.fail := by
  obtain ⟨trace, out', hpass, hlt, hruns, hfault⟩ := h
  have hstep := Outcome.eq_of_result hfault
  rw [hpass.runLimited_fault hlt hruns hstep]
  exact ⟨rfl, (step_fault hruns hstep).1⟩

/-- A fault of a machine with a full memory that says where it comes from says
the program counter. -/
theorem pc_of_decode_fault {pc : UInt8} {e : DecodeError} (hfull : m.mem.Full)
    (hruns : m.status = .running) (h : (m.step out).result = .error (.decode pc e)) :
    pc = m.pc := by
  rcases obstacle_or_refused hruns hfull h with hobstacle | ⟨value, text, -, hrefused⟩
  · rcases obstacle_cases hobstacle with ⟨e', heq⟩ | heq | heq | heq
    · cases heq
      rfl
    all_goals cases heq
  · cases hrefused

/-- Whichever it is, it is put down to the program counter. -/
theorem faultAddress_fail (hfull : m.mem.Full) (hruns : m.status = .running)
    (h : (m.step out).result = .error fault) : CommandLine.faultAddress m.fail fault = m.pc := by
  cases fault with
  | decode pc e => exact pc_of_decode_fault hfull hruns h
  | _ => rfl

end Machine

-- ============================================================= commands

/-- No fault has the exit code of a run that halts or uses its limit up. -/
theorem Fault.exitCode_not_mem (fault : Fault) : fault.exitCode ∉ [0, 5] := by
  cases fault with
  | decode pc e => cases e <;> simp [exitCode]
  | _ => simp [exitCode]

namespace CommandLine

open Machine

variable {folder : Folder} {options : Options} {text : String} {program : Program}
  {m last : Machine} {out : Printer} {fault : Fault}

/-- A text that holds a program that fits is executed. -/
theorem run_of_boot {arguments : List String} (refusal : Option String)
    (harguments : Arguments.parse arguments = .execute options) (hdebug : options.debug = false)
    (hread : folder.read options.program = .ok text.toUTF8)
    (hparse : Program.parse text.toList = .ok program)
    (hboot : Machine.boot program.bytes = .ok m) :
    run folder refusal arguments =
      some (runProgram folder options program m { refusal := fun _ _ => refusal }) := by
  have hlaunch : launch options (.ok text.toUTF8) = .execute program m := by
    unfold launch
    rw [Program.ofFile_text, hparse]
    simp only [hdebug, Bool.false_eq_true, if_false, hboot]
  unfold run
  rw [harguments]
  simp only [hread, hlaunch]

/-- What stands in the error output before a fault is reported: the trace if
one is asked for, and the warning if the state file cannot be written. -/
def beforeReport (folder : Folder) (options : Options) (m : Machine) (out : Printer)
    (last : Machine) : String :=
  traceText (execute options m out).2 ++ (dump options last.fail folder).2

/-- With or without a trace, such a run leaves the machine that faulted. -/
theorem execute_of_failsAt (hcycles : m.cycles = 0)
    (h : m.FailsAt (allowed options) out last fault) :
    (execute options m out).1.result = .error fault
      ∧ (execute options m out).1.machine = last.fail := by
  rw [← allowance_limit options hcycles] at h
  obtain ⟨hresult, hmachine⟩ := h.runLimited
  rw [execute_eq hcycles, hresult, hmachine]
  exact ⟨rfl, rfl⟩

/-- The ending of a run that comes to a step that faults. -/
theorem runProgram_of_failsAt (folder : Folder) (program : Program) (hcycles : m.cycles = 0)
    (h : m.FailsAt (allowed options) out last fault) :
    let ending := runProgram folder options program m out
    ending.exitCode = fault.exitCode ∧ ending.folder = (dump options last.fail folder).1
    ∧ ending.stderr = beforeReport folder options m out last
        ++ (errorLine fault.message ++ sourceNote program last.fail fault) := by
  obtain ⟨hresult, hmachine⟩ := execute_of_failsAt hcycles h
  unfold runProgram beforeReport traceText
  generalize execute options m out = executed at hresult hmachine ⊢
  obtain ⟨⟨result, final, out'⟩, entries⟩ := executed
  dsimp only at hresult hmachine
  subst hresult hmachine
  exact ⟨rfl, rfl, rfl⟩

/-- A run that comes to no such step halts or uses its limit up. -/
theorem exitCode_of_not_failsAt (folder : Folder) (program : Program) (hcycles : m.cycles = 0)
    (h : ¬ ∃ last fault, m.FailsAt (allowed options) out last fault) :
    (runProgram folder options program m out).exitCode ∈ [0, 5] := by
  obtain ⟨front, hending, -⟩ := runProgram_eq folder options program out hcycles
  rw [hending]
  cases hresult : (m.runLimited (limit options) out).result with
  | ok n =>
      show (closing program _ (.ok ())).2 ∈ _
      unfold closing
      dsimp only
      split
      · exact List.mem_cons_self
      · exact List.mem_cons_of_mem _ List.mem_cons_self
  | error fault =>
      have hfaults := faultsWithin_iff.2 hresult
      rw [allowance_limit options hcycles] at hfaults
      obtain ⟨last, hlast⟩ := faultsWithin_iff_failsAt.1 hfaults
      exact absurd ⟨last, fault, hlast⟩ h

theorem sourceNote_of_outside (h : program.bytes.length ≤ (faultAddress m fault).toNat) :
    sourceNote program m fault = "" := by
  have hnone : program.sourceLine? (faultAddress m fault) = none := by
    apply List.getElem?_eq_none
    rwa [Program.lines, List.length_map, ← List.length_map (f := Program.Entry.byte)]
  unfold sourceNote
  simp only [hnone]

theorem sourceNote_of_entry {n : Nat} {byte : UInt8}
    (h : program.entries[(faultAddress m fault).toNat]? = some ⟨byte, n⟩) :
    sourceNote program m fault =
      "   at line " ++ Numeral.decimal n ++ " (address "
        ++ Numeral.decimal (faultAddress m fault).toNat ++ ")\n" := by
  have hsome : program.sourceLine? (faultAddress m fault) = some n := by
    rw [Program.sourceLine?, Program.lines, List.getElem?_map, h]
    rfl
  unfold sourceNote
  simp only [hsome]

/-- How a command ends that comes to a step that faults: `last` is the machine
in front of it. That machine is left, failed, and the fault is put down to its
program counter; the machine in the state file stands there too. Behind the
message comes the line that this address was loaded from, if the program
reaches as far. -/
structure PutDownToLine (folder : Folder) (options : Options) (text : String) (program : Program)
    (m : Machine) (out : Printer) (last : Machine) (fault : Fault) (ending : Ending) : Prop where
  machine : (execute options m out).1.machine = last.fail
  address : faultAddress last.fail fault = last.pc
  decode : ∀ pc e, fault = .decode pc e → pc = last.pc
  state : Writable folder options → LeavesState folder options ending last.fail
  inside : last.pc.toNat < program.bytes.length →
    ∃ n byte, Program.LoadedFrom text.toList last.pc.toNat n byte
      ∧ m.mem.cells[last.pc.toNat]? = some byte
      ∧ ending.stderr = beforeReport folder options m out last ++ (errorLine fault.message
          ++ ("   at line " ++ Numeral.decimal n ++ " (address "
            ++ Numeral.decimal last.pc.toNat ++ ")\n"))
  outside : program.bytes.length ≤ last.pc.toNat →
    ending.stderr = beforeReport folder options m out last ++ errorLine fault.message

theorem putDownToLine_of_failsAt (hparse : Program.parse text.toList = .ok program)
    (hboot : Machine.boot program.bytes = .ok m)
    (h : m.FailsAt (allowed options) out last fault) :
    PutDownToLine folder options text program m out last fault
      (runProgram folder options program m out) := by
  have hmachine := (execute_of_failsAt (cycles_boot hboot) h).2
  obtain ⟨-, hfolder, hstderr⟩ := runProgram_of_failsAt folder program (cycles_boot hboot) h
  obtain ⟨trace, out', hpass, -, hruns, hfault⟩ := h
  have hfull : last.mem.Full := hpass.full (full_boot hboot)
  have haddress := faultAddress_fail hfull hruns hfault
  refine ⟨hmachine, haddress, ?_, fun hwritable => leavesState_dump hwritable hfolder, ?_, ?_⟩
  · rintro pc e rfl
    exact pc_of_decode_fault hfull hruns hfault
  · intro hinside
    obtain ⟨⟨byte, n⟩, hentry⟩ : ∃ entry, program.entries[last.pc.toNat]? = some entry := by
      rw [Program.bytes, List.length_map] at hinside
      exact ⟨_, List.getElem?_eq_getElem hinside⟩
    have hcell : m.mem.cells[last.pc.toNat]? = some byte := by
      refine getElem?_boot hboot ?_
      rw [Program.bytes, List.getElem?_map, hentry]
      rfl
    refine ⟨n, byte, (Program.entries_getElem?_eq_some_iff hparse).1 hentry, hcell, ?_⟩
    rw [hstderr, sourceNote_of_entry (by rw [haddress]; exact hentry), haddress]
  · intro houtside
    rw [hstderr, sourceNote_of_outside (by rw [haddress]; exact houtside), String.append_empty]

/-- A fault at run time is put down to the line that its instruction was loaded
from.

A command whose program file holds a program that fits boots it and ends, with
any printer. Its exit code is another than 0 and 5 exactly if it comes to a step
that faults. Wherever in the run that step stands and whatever has been written
before it, the fault is put down to the program counter in front of it; and the
line that is told is the one that this address was loaded from, or none if the
program does not reach as far. -/
theorem fault_is_put_down_to_its_line {arguments : List String}
    (harguments : Arguments.parse arguments = .execute options) (hdebug : options.debug = false)
    (hread : folder.read options.program = .ok text.toUTF8)
    (hparse : Program.parse text.toList = .ok program)
    (hfits : program.bytes.length ≤ Memory.capacity) :
    ∃ m, Machine.boot program.bytes = .ok m
      ∧ (∀ refusal, run folder refusal arguments =
          some (runProgram folder options program m { refusal := fun _ _ => refusal }))
      ∧ ∀ out,
          let ending := runProgram folder options program m out
          (ending.exitCode ∉ [0, 5] ↔ ∃ last fault, m.FailsAt (allowed options) out last fault)
          ∧ ∀ last fault, m.FailsAt (allowed options) out last fault →
              ending.exitCode = fault.exitCode
              ∧ PutDownToLine folder options text program m out last fault ending := by
  have hboot := Machine.boot_eq_ok_iff.2 ⟨hfits, rfl⟩
  have hcycles := cycles_boot hboot
  refine ⟨_, hboot, fun refusal => run_of_boot refusal harguments hdebug hread hparse hboot,
    fun out => ⟨⟨?_, ?_⟩, ?_⟩⟩
  · intro hcode
    by_contra hnone
    exact hcode (exitCode_of_not_failsAt folder program hcycles hnone)
  · rintro ⟨last, fault, hfails⟩
    rw [(runProgram_of_failsAt folder program hcycles hfails).1]
    exact fault.exitCode_not_mem
  · intro last fault hfails
    exact ⟨(runProgram_of_failsAt folder program hcycles hfails).1,
      putDownToLine_of_failsAt hparse hboot hfails⟩

/-- A program that writes a zero over its HLT and comes to it, as a file and in
a machine. -/
def overwritingText : String :=
  "# overwrites its last byte\n10000010 LDI R7,6\n00000111\n00000110\n\n"
    ++ "01000101 PUSH R0\n00000000\n00000001 HLT\n"

def overwriting : Machine :=
  { fresh with mem :=
      ⟨⟨[Opcode.ldi, 7, 6, Opcode.push, 0, Opcode.hlt] ++ List.replicate 250 0⟩⟩ }

theorem parse_overwriting :
    Program.parse overwritingText.toList =
      .ok ⟨[⟨Opcode.ldi, 2⟩, ⟨7, 3⟩, ⟨6, 4⟩, ⟨Opcode.push, 6⟩, ⟨0, 7⟩, ⟨Opcode.hlt, 8⟩]⟩ := by
  decide +kernel

/-- The zero is what fails, and the line that is told is the one with the
HLT. -/
theorem overwritten_halt_is_told :
    let folder := Folder.ofFile "overwrite.ls8" overwritingText.toUTF8
    ∃ ending, run folder none ["overwrite.ls8"] = some ending ∧ ending.exitCode = 1
      ∧ Program.LoadedFrom overwritingText.toList 5 8 Opcode.hlt
      ∧ ending.stderr = "❌ at PC=5: unknown instruction: 0, 0b0\n   at line 8 (address 5)\n" := by
  intro folder
  let out := Printer.unlimited {}
  let once := overwriting.step out
  let twice := once.machine.step once.out
  have hfails : overwriting.FailsAt (allowed { program := "overwrite.ls8" }) out twice.machine
      (.decode 5 (.unknownOpcode 0)) := by
    refine ⟨_, twice.out, .head (i := .ldi 7 6) (Outcome.eq_of_result (by decide +kernel))
      (.single (i := .push 0) (Outcome.eq_of_result (by decide +kernel))), by decide, ?_, ?_⟩
    · decide +kernel
    · decide +kernel
  have hpc : twice.machine.pc = 5 := by decide +kernel
  have harguments :
      Arguments.parse ["overwrite.ls8"] = .execute { program := "overwrite.ls8" } := by
    decide +kernel
  have hread : folder.read "overwrite.ls8" = .ok overwritingText.toUTF8 := rfl
  obtain ⟨m, hboot, hrun, hends⟩ :=
    fault_is_put_down_to_its_line harguments rfl hread parse_overwriting (by decide)
  have hm : m = overwriting := (Machine.boot_eq_ok_iff.1 hboot).2
  subst hm
  obtain ⟨hcode, hline⟩ := (hends out).2 _ _ hfails
  obtain ⟨n, byte, hloaded, -, hstderr⟩ := hline.inside (by rw [hpc]; decide)
  rw [hpc] at hloaded hstderr
  obtain ⟨rfl, rfl⟩ : Opcode.hlt = byte ∧ 8 = n := by
    have hentry := (Program.entries_getElem?_eq_some_iff parse_overwriting).2 hloaded
    exact Program.Entry.mk.inj (Option.some.inj hentry)
  exact ⟨_, hrun none, hcode, hloaded, hstderr.trans (by decide +kernel)⟩

end CommandLine

end LS8
