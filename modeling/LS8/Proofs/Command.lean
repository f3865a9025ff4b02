/-
What a command that runs a program leaves behind: its exit code, its output
and its state file.

A traced run makes the same steps as one without a trace (`runTraced_fst`),
and the counter of a booted machine stands at zero, so the limit is the
number of instructions that may be executed (`execute_eq`). How the run ended
is then what the three verdicts say, and the exit code tells them apart.

# Which faults there are

A booted machine has every cell and its printer takes everything, so only its
program can be at fault (`obstacle_of_faultsWithin`). Of the codes for a fault
that leaves the two for programs.
-/
import LS8.Proofs.Verdicts
import LS8.Proofs.Launch
import LS8.Proofs.Files

namespace LS8

open Machine

-- ============================================================== faults

/-- The fault is that of an opcode that is unknown. -/
def Fault.IsUnknownOpcode : Fault → Prop
  | .decode _ (.unknownOpcode _) => True
  | _ => False

theorem Fault.exitCode_of_obstacle {m : Machine} {fault : Fault} (h : m.obstacle = some fault) :
    (fault.IsUnknownOpcode ∧ fault.exitCode = 1)
    ∨ (¬ fault.IsUnknownOpcode ∧ fault.exitCode = 4) := by
  rcases obstacle_cases h with ⟨e, rfl⟩ | rfl | rfl | rfl
  · cases e with
    | unknownOpcode op => exact Or.inl ⟨trivial, rfl⟩
    | truncated op size => exact Or.inr ⟨id, rfl⟩
  · exact Or.inr ⟨id, rfl⟩
  · exact Or.inr ⟨id, rfl⟩
  · exact Or.inr ⟨id, rfl⟩

/-- A run that lacks neither cells nor room for output faults over what its
program does. -/
theorem Machine.obstacle_of_faultsWithin {n : Nat} {m : Machine} {out : Printer} {fault : Fault}
    (hfull : m.mem.Full) (htakes : out.TakesAll) (h : FaultsWithin n m out fault) :
    ∃ m' : Machine, m'.obstacle = some fault := by
  obtain ⟨trace, m', out', hpass, -, hruns, hfault⟩ := h
  refine ⟨m', ?_⟩
  rcases obstacle_or_refused hruns (hpass.full hfull) hfault with
    hobstacle | ⟨value, text, hoffer, -⟩
  · exact hobstacle
  · rw [(hpass.takesAll htakes).offer_eq value] at hoffer
    cases hoffer

namespace CommandLine

variable {folder : Folder} {options : Options} {program : Program} {m : Machine} {out : Printer}

-- ================================================================ runs

/-- A trace changes nothing in a run. -/
theorem runTraced_fst (limit : UInt64) (m : Machine) (out : Printer) (entries : Array String) :
    (runTraced limit m out entries).1 = runUntil limit m out := by
  fun_induction runTraced limit m out entries with
  | case1 m out entries hgo entries' i m' out' hstep _ ih =>
      rw [ih, runUntil_step hgo.2 hstep]
  | case2 m out entries hgo entries' fault m' out' hstep =>
      rw [runUntil_fault hgo.1 hgo.2 hstep]
  | case3 m out entries hstop => rw [runUntil, dif_neg hstop]

/-- How many instructions a command lets go through. -/
def allowed (options : Options) : Nat :=
  (options.maxCycles.map UInt64.toNat).getD (UInt64.size - 1)

theorem toNat_limit (options : Options) : (limit options).toNat = allowed options := by
  unfold limit allowed
  cases options.maxCycles <;> rfl

theorem allowance_limit (options : Options) (hcycles : m.cycles = 0) :
    m.allowance (limit options) = allowed options := by
  have hsize := (limit options).toNat_lt_size
  rw [toNat_limit] at hsize
  unfold allowance
  rw [hcycles, toNat_limit, UInt64.toNat_zero]
  omega

theorem runLimit_limit (hcycles : m.cycles = 0) : m.runLimit (limit options) = limit options := by
  unfold runLimit
  have hsize := (limit options).toNat_lt_size
  rw [hcycles, UInt64.toNat_zero, Nat.zero_add, Nat.min_eq_left (by omega), UInt64.ofNat_toNat]

/-- With or without a trace, a command does what a run with its limit does. -/
theorem execute_eq (hcycles : m.cycles = 0) :
    let o := m.runLimited (limit options) out
    (execute options m out).1 = ⟨o.result.map fun _ => (), o.machine, o.out⟩ := by
  intro o
  unfold execute
  by_cases htrace : options.trace = true
  · have ho : o = (runUntil (limit options) m out).counted m.cycles := by
      show (runUntil (m.runLimit (limit options)) m out).counted m.cycles = _
      rw [runLimit_limit hcycles]
    rw [if_pos htrace, runTraced_fst, ho]
    rcases runUntil (limit options) m out with ⟨fault | done, m', out'⟩ <;> rfl
  · rw [if_neg htrace]

-- ========================================================== state files

/-- A state file that is asked for can be written. -/
def Writable (folder : Folder) (options : Options) : Prop :=
  ∀ path, options.dumpState = some path → ∀ bytes, ∃ written, folder.write path bytes = .ok written

/-- If a state file was asked for, it has been written, and it holds the
machine; where it is a file of the directory it is read back there. If none
was asked for, the directory is as before. -/
structure LeavesState (folder : Folder) (options : Options) (ending : Ending) (m : Machine) :
    Prop where
  unasked : options.dumpState = none → ending.folder = folder
  written : ∀ path, options.dumpState = some path →
    ∃ bytes, folder.write path bytes = .ok ending.folder ∧ Machine.ofBytes? bytes = some m
      ∧ ∀ place name, folder.resolveTarget path = .ok place → place.IsSlot name →
          ending.folder.read path = .ok bytes

theorem leavesState_dump {ending : Ending} (hwritable : Writable folder options)
    (h : ending.folder = (dump options m folder).1) : LeavesState folder options ending m := by
  constructor
  · intro hnone
    rw [h, dump, hnone]
  · intro path hsome
    obtain ⟨written, hwrite⟩ := hwritable path hsome (stateText m).toUTF8
    have hfolder : ending.folder = written := by
      rw [h, dump, hsome]
      simp only [hwrite]
    rw [hfolder]
    exact ⟨_, hwrite, Machine.ofBytes?_pretty m, fun place name htarget hslot =>
      Folder.read_of_write htarget hslot hwrite⟩

-- ============================================================= endings

/-- What is printed of values: one a line, in decimal. -/
def linesOf (values : List UInt8) : String :=
  String.join (values.map fun value => Numeral.decimal value.toNat ++ "\n")

theorem text_eq_linesOf (printed : Printout) : printed.text = linesOf printed.values.toList := by
  rw [Printout.text, Printout.lines, List.map_map]
  rfl

theorem linesOf_cons (value : UInt8) (values : List UInt8) :
    linesOf (value :: values) = Numeral.decimal value.toNat ++ "\n" ++ linesOf values := by
  rw [linesOf, List.map_cons, String.join_cons]
  rfl

theorem linesOf_append (first second : List UInt8) :
    linesOf (first ++ second) = linesOf first ++ linesOf second := by
  rw [linesOf, List.map_append, String.join_append]
  rfl

/-- The ending of a command is that of the run of its machine. The last lines
of its error output are about this run; before them stand a trace and a
warning at most. -/
theorem runProgram_eq (folder : Folder) (options : Options) (program : Program) (out : Printer)
    (hcycles : m.cycles = 0) :
    let o := m.runLimited (limit options) out
    let last := closing program o.machine (o.result.map fun _ => ())
    ∃ front, runProgram folder options program m out =
        { exitCode := last.2
          stdout := linesOf o.out.printed.values.toList
          stderr := front ++ last.1
          folder := (dump options o.machine folder).1 }
      ∧ (options.trace = false → Writable folder options → front = "") := by
  intro o last
  have hrun : (execute options m out).1 = ⟨o.result.map fun _ => (), o.machine, o.out⟩ :=
    execute_eq hcycles
  have hquiet : options.trace = false → (execute options m out).2 = #[] := by
    intro htrace
    unfold execute
    rw [if_neg (by rw [htrace]; exact Bool.false_ne_true)]
  rcases hexecute : execute options m out with ⟨o', entries⟩
  rw [hexecute] at hrun hquiet
  subst hrun
  refine ⟨String.join (entries.toList.map (· ++ "\n")) ++ (dump options o.machine folder).2, ?_, ?_⟩
  · rw [← text_eq_linesOf]
    unfold runProgram
    rw [hexecute]
  · intro htrace hwritable
    have hwarning : (dump options o.machine folder).2 = "" := by
      unfold dump
      cases hpath : options.dumpState with
      | none => rfl
      | some path =>
          obtain ⟨written, hwrite⟩ := hwritable path hpath (stateText o.machine).toUTF8
          simp only [hwrite]
    have hnone : entries = #[] := hquiet htrace
    rw [hnone, hwarning]
    rfl

/-- The exit code of a command tells how the run has ended. -/
theorem exitCode_iff (folder : Folder) (options : Options)
    (hboot : Machine.boot program.bytes = .ok m) {code : UInt8}
    (hcode : (runProgram folder options program m (.unlimited {})).exitCode = code) :
    (code = 0 ↔ HaltsWithin (allowed options) m (.unlimited {}))
    ∧ (code = 5 ↔ RunsFor (allowed options) m (.unlimited {}))
    ∧ (code = 1 ↔ ∃ fault,
        FaultsWithin (allowed options) m (.unlimited {}) fault ∧ fault.IsUnknownOpcode)
    ∧ (code = 4 ↔ ∃ fault,
        FaultsWithin (allowed options) m (.unlimited {}) fault ∧ ¬ fault.IsUnknownOpcode)
    ∧ code ∈ [0, 5, 1, 4] := by
  have hrun := status_boot hboot
  have hcycles := cycles_boot hboot
  obtain ⟨front, hending, -⟩ := runProgram_eq folder options program (.unlimited {}) hcycles
  rw [hending] at hcode
  rw [← allowance_limit options hcycles, haltsWithin_iff hrun, runsFor_iff]
  simp only [faultsWithin_iff]
  obtain ⟨trace, m', out', hpass, -, -, hleft⟩ :=
    exists_passage_of_run m (limit options) (.unlimited {})
  cases hresult : (m.runLimited (limit options) (.unlimited {})).result with
  | ok k =>
      rw [hresult] at hcode hleft
      simp only at hleft
      rw [hleft] at hcode ⊢
      rcases hpass.status_cases hrun with ⟨hstatus, -⟩ | ⟨hstatus, -⟩
      · have hfive : code = 5 := by
          rw [← hcode]
          simp only [Except.map, closing, hstatus, reduceCtorEq, if_false]
        rw [hfive, hstatus]
        simp
      · have hzero : code = 0 := by
          rw [← hcode]
          simp only [Except.map, closing, hstatus, if_true]
        rw [hzero, hstatus]
        simp
  | error fault =>
      rw [hresult] at hcode
      have hfault : fault.exitCode = code := hcode
      obtain ⟨m₁, hobstacle⟩ := obstacle_of_faultsWithin (full_boot hboot)
        (Printer.takesAll_unlimited {}) (faultsWithin_iff.2 hresult)
      rcases Fault.exitCode_of_obstacle hobstacle with ⟨hunknown, hone⟩ | ⟨hknown, hfour⟩
      · rw [← hfault, hone]
        simp [hunknown]
      · rw [← hfault, hfour]
        simp [hknown]

/-- Both codes of a fault together stand for any fault. -/
theorem exitCode_of_fault_iff (folder : Folder) (options : Options)
    (hboot : Machine.boot program.bytes = .ok m) {code : UInt8}
    (hcode : (runProgram folder options program m (.unlimited {})).exitCode = code) :
    code = 1 ∨ code = 4 ↔ ∃ fault, FaultsWithin (allowed options) m (.unlimited {}) fault := by
  obtain ⟨-, -, hone, hfour, -⟩ := exitCode_iff folder options hboot hcode
  rw [hone, hfour]
  constructor
  · rintro (⟨fault, hfault, -⟩ | ⟨fault, hfault, -⟩)
    · exact ⟨fault, hfault⟩
    · exact ⟨fault, hfault⟩
  · rintro ⟨fault, hfault⟩
    by_cases hunknown : fault.IsUnknownOpcode
    · exact Or.inl ⟨fault, hfault, hunknown⟩
    · exact Or.inr ⟨fault, hfault, hunknown⟩

/-- The command in a directory, with output that is taken. -/
theorem run_of_parse {arguments : List String}
    (hparse : Arguments.parse arguments = .execute options) :
    run folder none arguments =
      match launch options (folder.read options.program) with
      | .refused line exitCode => some { exitCode, stderr := line, folder }
      | .debug _ => none
      | .execute program m => some (runProgram folder options program m (.unlimited {})) := by
  unfold run
  rw [hparse]
  rfl

/-- What the run of a booted machine leaves, by the way in which it ends. -/
theorem left_of_run (options : Options) (out : Printer) (hrun : m.status = .running)
    (hcycles : m.cycles = 0) :
    let n := allowed options
    let final := (m.runLimited (limit options) out).machine
    ∃ trace m' out', Passage m out trace m' out'
      ∧ (trace.length = n ∨ trace.length < n ∧ m'.Stuck out')
      ∧ (m.runLimited (limit options) out).out.printed = out'.printed
      ∧ (HaltsWithin n m out → final = m' ∧ final.status = .halted)
      ∧ (RunsFor n m out → final = m' ∧ final.status = .running ∧ final.cycles.toNat = n)
      ∧ ∀ fault, FaultsWithin n m out fault → final = { m' with status := .failed } := by
  intro n final
  have hallowed : m.allowance (limit options) = n := allowance_limit options hcycles
  obtain ⟨trace, m', out', hpass, hlen, hprinted, hleft⟩ :=
    exists_passage_of_run m (limit options) out
  rw [hallowed] at hlen
  refine ⟨trace, m', out', hpass, hlen, hprinted, ?_, ?_, ?_⟩
  · intro h
    rw [← hallowed] at h
    obtain ⟨⟨k, hok⟩, hstatus⟩ := (haltsWithin_iff hrun).1 h
    rw [hok] at hleft
    exact ⟨hleft, hstatus⟩
  · intro h
    rw [← hallowed] at h
    obtain ⟨⟨k, hok⟩, hstatus⟩ := runsFor_iff.1 h
    rw [hok] at hleft
    refine ⟨hleft, hstatus, ?_⟩
    obtain ⟨whole, m₂, out₂, hwhole, hall, -⟩ := h
    have hroom : m.cycles.toNat + whole.length < UInt64.size := by
      have := (m.runLimit (limit options)).toNat_lt_size
      rw [toNat_runLimit] at this
      omega
    have heq := hwhole.runLimited_eq (Nat.le_of_eq hall) (Or.inr hall)
    show (m.runLimited (limit options) out).machine.cycles.toNat = n
    rw [heq, hwhole.toNat_cycles hroom, hcycles, UInt64.toNat_zero, Nat.zero_add, hall, hallowed]
  · intro fault h
    rw [← hallowed] at h
    rw [faultsWithin_iff.1 h] at hleft
    exact hleft

/-- How a command ends that has booted the machine `m`. The exit code is the
verdict on as many instructions as are allowed, the output is what those
print that go through, and the state file holds the machine that they leave,
with the status that the exit code stands for. -/
structure Ends (folder : Folder) (options : Options) (m : Machine) (ending : Ending) : Prop where
  halts : ending.exitCode = 0 ↔ HaltsWithin (allowed options) m (.unlimited {})
  runs : ending.exitCode = 5 ↔ RunsFor (allowed options) m (.unlimited {})
  unknown : ending.exitCode = 1 ↔
    ∃ fault, FaultsWithin (allowed options) m (.unlimited {}) fault ∧ fault.IsUnknownOpcode
  faults : ending.exitCode = 4 ↔
    ∃ fault, FaultsWithin (allowed options) m (.unlimited {}) fault ∧ ¬ fault.IsUnknownOpcode
  left : ∃ trace m' out' final, Passage m (.unlimited {}) trace m' out'
    ∧ (trace.length = allowed options ∨ trace.length < allowed options ∧ m'.Stuck out')
    ∧ ending.stdout = linesOf (printedBy trace)
    ∧ LeavesState folder options ending final
    ∧ (ending.exitCode = 0 ∨ ending.exitCode = 5 → final = m')
    ∧ (ending.exitCode = 0 → final.status = .halted)
    ∧ (ending.exitCode = 5 → final.status = .running ∧ final.cycles.toNat = allowed options)
    ∧ (ending.exitCode = 1 ∨ ending.exitCode = 4 → final = { m' with status := .failed })

theorem ends_of_boot (hboot : Machine.boot program.bytes = .ok m)
    (hwritable : Writable folder options) :
    Ends folder options m (runProgram folder options program m (.unlimited {})) := by
  have hrun := status_boot hboot
  have hcycles := cycles_boot hboot
  obtain ⟨hzero, hfive, hone, hfour, -⟩ := exitCode_iff folder options hboot rfl
  obtain ⟨front, hending, -⟩ := runProgram_eq folder options program (.unlimited {}) hcycles
  obtain ⟨trace, m', out', hpass, hlen, hprinted, hhalts, hruns, hfaults⟩ :=
    left_of_run options (.unlimited {}) hrun hcycles
  have hstdout : (runProgram folder options program m (.unlimited {})).stdout =
      linesOf (printedBy trace) := by
    rw [hending, hprinted, hpass.values_printed]
    rfl
  refine ⟨hzero, hfive, hone, hfour, trace, m', out', _, hpass, hlen, hstdout,
    leavesState_dump hwritable (congrArg Ending.folder hending), ?_, ?_, ?_, ?_⟩
  · rintro (h0 | h5)
    · exact (hhalts (hzero.1 h0)).1
    · exact (hruns (hfive.1 h5)).1
  · exact fun h0 => (hhalts (hzero.1 h0)).2
  · exact fun h5 => (hruns (hfive.1 h5)).2
  · intro hcode
    obtain ⟨fault, hfault⟩ := (exitCode_of_fault_iff folder options hboot rfl).1 hcode
    exact hfaults fault hfault

/-- What a command that runs a program does is read off the program file and
the limit. A file without text is exit code 2, a text without a program that
fits is exit code 3, and then nothing is printed or written. Every other text
holds a program that is booted, and the command ends as that machine does.
-/
theorem command_ends_as_its_program {arguments : List String}
    (hparse : Arguments.parse arguments = .execute options) (hdebug : options.debug = false)
    (hwritable : Writable folder options) :
    ∃ ending, run folder none arguments = some ending
      ∧ (ending.exitCode = 2 ↔ ¬ ∃ text : String, folder.read options.program = .ok text.toUTF8)
      ∧ (ending.exitCode = 3 ↔
          ∃ text : String, folder.read options.program = .ok text.toUTF8 ∧ Unfit text)
      ∧ (ending.exitCode = 2 ∨ ending.exitCode = 3 → ending.stdout = "" ∧ ending.folder = folder)
      ∧ ending.exitCode ≠ 70
      ∧ ∀ text : String, folder.read options.program = .ok text.toUTF8 → ¬ Unfit text →
          ∃ program m, Program.parse text.toList = .ok program
            ∧ Machine.boot program.bytes = .ok m
            ∧ Ends folder options m ending := by
  have hlaunched := launched hdebug (folder.read options.program)
  rw [run_of_parse hparse]
  generalize launch options (folder.read options.program) = launched at hlaunched ⊢
  cases hlaunched with
  | unreadable h line =>
      have h23 : (2 : UInt8) ≠ 3 := by decide
      have h270 : (2 : UInt8) ≠ 70 := by decide
      refine ⟨_, rfl, ⟨fun _ => h, fun _ => rfl⟩, ?_, fun _ => ⟨rfl, rfl⟩, h270, ?_⟩
      · exact ⟨fun hcode => absurd hcode h23, fun ⟨text, htext, _⟩ => absurd ⟨text, htext⟩ h⟩
      · exact fun text htext => absurd ⟨text, htext⟩ h
  | @unfit text h hunfit line =>
      have h32 : (3 : UInt8) ≠ 2 := by decide
      have h370 : (3 : UInt8) ≠ 70 := by decide
      refine ⟨_, rfl, ?_, ⟨fun _ => ⟨text, h, hunfit⟩, fun _ => rfl⟩, fun _ => ⟨rfl, rfl⟩, h370, ?_⟩
      · exact ⟨fun hcode => absurd hcode h32, fun hnone => absurd ⟨text, h⟩ hnone⟩
      · intro text' htext' hfits
        cases toUTF8_injective (Except.ok.inj (h.symm.trans htext'))
        exact absurd hunfit hfits
  | @booted text program m h hparsed hbooted =>
      -- A run has one of four exit codes, and none of the three is among them.
      obtain ⟨-, -, -, -, hcode⟩ := exitCode_iff folder options hbooted rfl
      have hother : ∀ code, code ∉ [0, 5, 1, 4] →
          (runProgram folder options program m (.unlimited {})).exitCode ≠ code := by
        rintro code hnot rfl
        exact hnot hcode
      refine ⟨_, rfl, ?_, ?_, ?_, hother 70 (by decide), ?_⟩
      · exact ⟨fun h2 => absurd h2 (hother 2 (by decide)), fun hnone => absurd ⟨text, h⟩ hnone⟩
      · refine ⟨fun h3 => absurd h3 (hother 3 (by decide)), ?_⟩
        rintro ⟨text', htext', hunfit⟩
        cases toUTF8_injective (Except.ok.inj (h.symm.trans htext'))
        exact absurd hunfit (not_unfit hparsed hbooted)
      · rintro (h2 | h3)
        · exact absurd h2 (hother 2 (by decide))
        · exact absurd h3 (hother 3 (by decide))
      · intro text' htext' hfits
        cases toUTF8_injective (Except.ok.inj (h.symm.trans htext'))
        exact ⟨program, m, hparsed, hbooted, ends_of_boot hbooted hwritable⟩

/-- A program that prints R0 and halts, as a file and in a machine. -/
def printingText : String := "01000111\n00000000\n00000001\n"

def printing : Machine :=
  { fresh with mem := ⟨⟨[Opcode.prn, 0, Opcode.hlt] ++ List.replicate 253 0⟩⟩ }

theorem boot_printing : Machine.boot [Opcode.prn, 0, Opcode.hlt] = .ok printing :=
  boot_eq_ok_iff.2 ⟨by decide, rfl⟩

theorem parse_printing :
    Program.parse printingText.toList =
      .ok ⟨[⟨Opcode.prn, 1⟩, ⟨0, 2⟩, ⟨Opcode.hlt, 3⟩]⟩ := by
  decide +kernel

theorem passage_printing :
    let out := Printer.unlimited {}
    let printed := printing.step out
    let halted := printed.machine.step printed.out
    Passage printing out [⟨printing, .prn 0⟩, ⟨printed.machine, .hlt⟩] halted.machine halted.out :=
  .head (Outcome.eq_of_result (by decide +kernel))
    (.single (Outcome.eq_of_result (by decide +kernel)))

/-- The HLT is the last instruction that the limit allows. -/
theorem printing_command_halts :
    let folder := Folder.ofFile "print.ls8" printingText.toUTF8
    let arguments := ["-m", "2", "--dump-state", "state.json", "print.ls8"]
    ∃ ending bytes final, run folder none arguments = some ending ∧ ending.exitCode = 0
      ∧ ending.stdout = "0\n" ∧ ending.folder.read "state.json" = .ok bytes
      ∧ Machine.ofBytes? bytes = some final ∧ final.status = .halted := by
  intro folder arguments
  have hparse : Arguments.parse arguments = .execute
      { program := "print.ls8", maxCycles := some 2, dumpState := some "state.json" } := by
    decide +kernel
  have htarget : folder.resolveTarget "state.json" = .ok (.absent .here "state.json") := rfl
  have hwritable : Writable folder
      { program := "print.ls8", maxCycles := some 2, dumpState := some "state.json" } := by
    intro path hpath bytes
    cases hpath
    exact ⟨_, Folder.write_of_slot htarget rfl⟩
  have hfits : ¬ Unfit printingText := not_unfit parse_printing boot_printing
  obtain ⟨ending, hrun, -, -, -, -, hends⟩ := command_ends_as_its_program hparse rfl hwritable
  obtain ⟨program, m, hprogram, hboot, hall⟩ := hends printingText rfl hfits
  obtain ⟨trace, m', out', final, hpass, hlen, hstdout, hstate, -, hhalted, -⟩ := hall.left
  cases parse_printing.symm.trans hprogram
  cases boot_printing.symm.trans hboot
  have hcode : ending.exitCode = 0 :=
    hall.halts.2 ⟨_, _, _, passage_printing, Nat.le_refl 2, _,
      List.mem_cons_of_mem _ List.mem_cons_self, rfl⟩
  have htrace : trace = [⟨printing, .prn 0⟩, ⟨(printing.step (.unlimited {})).machine, .hlt⟩] := by
    have htwo : trace.length = 2 := by
      refine hlen.resolve_right fun hearly => ?_
      exact hpass.not_stuck_of_length_lt passage_printing hearly.1 hearly.2
    obtain ⟨rest, hrest, -⟩ := passage_printing.continues hpass (Nat.le_of_eq htwo.symm)
    have hnil : rest = [] := by
      rw [hrest, List.length_append] at htwo
      exact List.eq_nil_of_length_eq_zero (Nat.add_left_cancel htwo)
    rw [hrest, hnil, List.append_nil]
  obtain ⟨bytes, -, hbytes, hread⟩ := hstate.written "state.json" rfl
  refine ⟨ending, bytes, final, hrun, hcode, ?_, hread _ _ htarget rfl, hbytes, hhalted hcode⟩
  rw [hstdout, htrace]
  decide +kernel

end CommandLine

end LS8
