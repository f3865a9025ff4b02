/-
What the debugger says when continuous execution ends.

A tick that ends execution has made a step that faulted, or has made one that
went through and led to a breakpoint, or has found the machine stopped and
made none. `Stops` has one constructor for each, and `stops` says that there
is no fourth. A reader sees a text only, but the texts of the three kinds begin
as no others do, so the text tells which it was.

# A halt at a breakpoint

A HLT leaves the program counter where it is. If a breakpoint stands there,
execution ends behind the HLT itself, with the notice for a breakpoint: the
machine has halted, and nothing says so. There is no other stop whose notice
gives a reason other than the one it has (`reportsTruly_iff`).
-/
import LS8.Proofs.Ticks

namespace LS8

open Machine

-- =============================================================== notices

namespace Notice

variable {notice : Notice}

/-- The first two letters of the text. -/
def initials : Notice → List Char
  | ready | reset | breakpointRemoved _ => ['R', 'e']
  | loadFailed _ => ['L', 'o']
  | stopped _ => ['C', 'P']
  | executed .. => ['P', 'C']
  | fault _ => ['E', 'r']
  | running => ['R', 'u']
  | finished _ => ['S', 't']
  | atBreakpoint _ => ['B', 'r']
  | breakpointSet _ => ['S', 'e']
  | paused => ['P', 'a']

theorem take_two_append {opening : String} (hlen : 2 ≤ opening.toList.length) (rest : String) :
    (opening ++ rest).toList.take 2 = opening.toList.take 2 := by
  rw [String.toList_append, List.take_append_of_le_length hlen]

theorem take_two_text (notice : Notice) : notice.text.toList.take 2 = notice.initials := by
  cases notice with
  | executed pc i =>
      show ("PC=" ++ _ ++ ": " ++ _).toList.take 2 = _
      rw [String.append_assoc, String.append_assoc]
      exact take_two_append (by decide) _
  | finished n =>
      show ("Stopped after " ++ _ ++ " cycles").toList.take 2 = _
      rw [String.append_assoc]
      exact take_two_append (by decide) _
  | ready | running | reset | paused => rfl
  | _ => exact take_two_append (by decide) _

theorem text_eq_error_iff :
    (∃ words, notice.text = "Error: " ++ words) ↔ ∃ fault, notice = .fault fault := by
  constructor
  · rintro ⟨words, h⟩
    have hinitials : notice.initials = ['E', 'r'] := by
      rw [← take_two_text, h]
      exact take_two_append (by decide) words
    cases notice with
    | fault e => exact ⟨e, rfl⟩
    | _ => cases hinitials
  · rintro ⟨e, rfl⟩
    exact ⟨e.message, rfl⟩

theorem text_eq_breakpoint_iff {pc : UInt8} :
    notice.text = "Breakpoint at PC=" ++ Numeral.decimal pc.toNat ↔ notice = .atBreakpoint pc := by
  constructor
  · intro h
    have hinitials : notice.initials = ['B', 'r'] := by
      rw [← take_two_text, h]
      exact take_two_append (by decide) _
    cases notice with
    | atBreakpoint p =>
        have hdecimal : Numeral.decimal p.toNat = Numeral.decimal pc.toNat :=
          (String.append_right_inj _).1 h
        rw [UInt8.toNat_inj.1 (Numeral.decimal_injective hdecimal)]
    | _ => cases hinitials
  · rintro rfl
    rfl

theorem text_eq_finished_iff {cycles : UInt64} :
    notice.text = "Stopped after " ++ Numeral.decimal cycles.toNat ++ " cycles" ↔
      notice = .finished cycles := by
  constructor
  · intro h
    have hinitials : notice.initials = ['S', 't'] := by
      rw [← take_two_text, h, String.append_assoc]
      exact take_two_append (by decide) _
    cases notice with
    | finished n =>
        have hdecimal : Numeral.decimal n.toNat = Numeral.decimal cycles.toNat :=
          (String.append_right_inj _).1 ((String.append_left_inj _).1 h)
        rw [UInt64.toNat_inj.1 (Numeral.decimal_injective hdecimal)]
    | _ => cases hinitials
  · rintro rfl
    rfl

end Notice

namespace Debugger

variable {d : Debugger} {i : Instruction} {fault : Fault}

-- ============================================================= the stops

/-- The tick makes a step, and the step faults. -/
def Faults (d : Debugger) (fault : Fault) : Prop :=
  d.machine.status = .running ∧ (d.machine.step (.unlimited d.output)).result = .error fault

/-- The tick makes a step, and its instruction goes through. -/
def Executes (d : Debugger) (i : Instruction) : Prop :=
  (d.machine.step (.unlimited d.output)).result = .ok i

instance (d : Debugger) (i : Instruction) : Decidable (d.Executes i) :=
  inferInstanceAs (Decidable (_ = _))

theorem Executes.running (h : d.Executes i) : d.machine.status = .running :=
  (step_eq_ok_iff.1 (Outcome.eq_of_result h)).1

theorem Executes.not_faults (h : d.Executes i) : ¬ ∃ fault, d.Faults fault := by
  rintro ⟨fault, -, hfault⟩
  cases h.symm.trans hfault

/-- How a tick ends execution: what it has done, the notice, and the machine
that it leaves. -/
inductive Stops (d : Debugger) : Prop where
  | faulted (fault : Fault) (faults : d.Faults fault) (notice : d.tick.notice = .fault fault)
  | arrived (i : Instruction) (executes : d.Executes i)
      (breakpoint : d.tick.machine.pc ∈ d.breakpoints)
      (notice : d.tick.notice = .atBreakpoint d.tick.machine.pc)
      (status : d.tick.machine.status = if i = .hlt then .halted else .running)
  | found (stopped : d.machine.status ≠ .running)
      (notice : d.tick.notice = .finished d.machine.cycles) (machine : d.tick.machine = d.machine)

theorem stops (hon : d.running = true) (hoff : d.tick.running = false) : d.Stops := by
  by_cases hrun : d.machine.status = .running
  · rcases hstep : d.machine.step (.unlimited d.output) with ⟨fault | i, m, out⟩
    · refine .faulted fault ⟨hrun, congrArg Outcome.result hstep⟩ ?_
      rw [tick_of_fault hon hrun hstep]
    · have htick := tick_of_ok hon hstep
      have hbreak : m.pc ∈ d.breakpoints := by
        rw [htick] at hoff
        exact not_not.1 (of_decide_eq_false hoff)
      refine .arrived i (congrArg Outcome.result hstep) ?_ ?_ ?_
      · rw [htick]
        exact hbreak
      · rw [htick]
        exact if_pos hbreak
      · rw [htick]
        exact status_step hstep
  · have htick := tick_of_stopped hon hrun
    refine .found hrun ?_ ?_
    · rw [htick]
    · rw [htick]

-- ================================================ what each notice tells

theorem notice_eq_fault_iff (h : d.Stops) : d.tick.notice = .fault fault ↔ d.Faults fault := by
  cases h with
  | faulted fault' hfaults hnotice =>
      rw [hnotice]
      constructor
      · rintro ⟨⟩
        exact hfaults
      · intro hfault
        cases hfaults.2.symm.trans hfault.2
        rfl
  | arrived i hexec hbreak hnotice hstatus =>
      rw [hnotice]
      exact ⟨nofun, fun hfault => absurd ⟨fault, hfault⟩ hexec.not_faults⟩
  | found hstop hnotice hmachine =>
      rw [hnotice]
      exact ⟨nofun, fun hfault => absurd hfault.1 hstop⟩

theorem notice_eq_atBreakpoint_iff (h : d.Stops) {p : UInt8} :
    d.tick.notice = .atBreakpoint p ↔
      (∃ i, d.Executes i) ∧ d.tick.machine.pc = p ∧ p ∈ d.breakpoints := by
  cases h with
  | faulted fault hfaults hnotice =>
      rw [hnotice]
      exact ⟨nofun, fun ⟨⟨i, hexec⟩, _⟩ => absurd ⟨_, hfaults⟩ hexec.not_faults⟩
  | arrived i hexec hbreak hnotice hstatus =>
      rw [hnotice]
      constructor
      · rintro ⟨⟩
        exact ⟨⟨i, hexec⟩, rfl, hbreak⟩
      · rintro ⟨-, rfl, -⟩
        rfl
  | found hstop hnotice hmachine =>
      rw [hnotice]
      exact ⟨nofun, fun ⟨⟨i, hexec⟩, _⟩ => absurd hexec.running hstop⟩

theorem notice_eq_finished_iff (h : d.Stops) {n : UInt64} :
    d.tick.notice = .finished n ↔ d.machine.status ≠ .running ∧ d.machine.cycles = n := by
  cases h with
  | faulted fault hfaults hnotice =>
      rw [hnotice]
      exact ⟨nofun, fun hstop => absurd hfaults.1 hstop.1⟩
  | arrived i hexec hbreak hnotice hstatus =>
      rw [hnotice]
      exact ⟨nofun, fun hstop => absurd hexec.running hstop.1⟩
  | found hstop hnotice hmachine =>
      rw [hnotice]
      constructor
      · rintro ⟨⟩
        exact ⟨hstop, rfl⟩
      · rintro ⟨-, rfl⟩
        rfl

-- ==================================================== the reason it gives

/-- The step is a HLT, and a breakpoint stands where it leaves the machine. -/
def HaltsAtBreakpoint (d : Debugger) : Prop :=
  d.Executes .hlt ∧ d.machine.pc ∈ d.breakpoints

/-- The text gives the reason for which execution has ended, where a machine
that has halted ends execution by that, whatever stands at its program
counter. -/
structure ReportsTruly (d : Debugger) : Prop where
  error : (∃ words, d.tick.notice.text = "Error: " ++ words) ↔ ∃ fault, d.Faults fault
  breakpoint : ∀ p : UInt8,
    d.tick.notice.text = "Breakpoint at PC=" ++ Numeral.decimal p.toNat ↔
      (∃ i, d.Executes i) ∧ d.tick.machine.status = .running
        ∧ d.tick.machine.pc = p ∧ p ∈ d.breakpoints
  finished : ∀ n : UInt64,
    d.tick.notice.text = "Stopped after " ++ Numeral.decimal n.toNat ++ " cycles" ↔
      d.tick.machine.status ≠ .running ∧ (¬ ∃ fault, d.Faults fault) ∧ d.tick.machine.cycles = n

/-- A HLT stays where it is, and the machine has halted. -/
theorem tick_of_hlt (hon : d.running = true) (h : d.Executes .hlt) :
    d.tick.machine.pc = d.machine.pc ∧ d.tick.machine.status = .halted := by
  have hstep := Outcome.eq_of_result h
  obtain ⟨-, -, e, hexec, -, hmachine⟩ := step_eq_ok_iff.1 hstep
  rw [tick_of_ok hon hstep]
  refine ⟨?_, status_step hstep⟩
  rw [hmachine]
  cases hexec
  rfl

/-- An instruction behind which execution ends has led to a breakpoint. -/
theorem Stops.of_executes (h : d.Stops) (hexec : d.Executes i) :
    d.tick.machine.pc ∈ d.breakpoints
      ∧ d.tick.machine.status = if i = .hlt then .halted else .running := by
  cases h with
  | faulted fault hfaults hnotice => exact absurd ⟨fault, hfaults⟩ hexec.not_faults
  | arrived j hexec' hbreak hnotice hstatus =>
      cases hexec.symm.trans hexec'
      exact ⟨hbreak, hstatus⟩
  | found hstop hnotice hmachine => exact absurd hexec.running hstop

/-- A machine that does not run, and no fault: so the tick has found it
stopped, unless its own step was a HLT. -/
theorem stopped_iff (h : d.Stops) (hgo : ∀ i, d.Executes i → d.tick.machine.status = .running)
    {n : UInt64} :
    d.machine.status ≠ .running ∧ d.machine.cycles = n ↔
      d.tick.machine.status ≠ .running ∧ (¬ ∃ fault, d.Faults fault)
        ∧ d.tick.machine.cycles = n := by
  cases h with
  | faulted fault hfaults hnotice =>
      exact ⟨fun hstop => absurd hfaults.1 hstop.1, fun hnone => absurd ⟨fault, hfaults⟩ hnone.2.1⟩
  | arrived i hexec hbreak hnotice hstatus =>
      exact ⟨fun hstop => absurd hexec.running hstop.1, fun hstop => absurd (hgo i hexec) hstop.1⟩
  | found hstop hnotice hmachine =>
      have hnone : ¬ ∃ fault, d.Faults fault := fun ⟨_, hfaults⟩ => hstop hfaults.1
      rw [hmachine]
      exact ⟨fun ⟨_, hcycles⟩ => ⟨hstop, hnone, hcycles⟩, fun ⟨_, _, hcycles⟩ => ⟨hstop, hcycles⟩⟩

theorem reportsTruly_iff (hon : d.running = true) (h : d.Stops) :
    d.ReportsTruly ↔ ¬ d.HaltsAtBreakpoint := by
  constructor
  · rintro htruly ⟨hexec, hbreak⟩
    obtain ⟨hpc, hhalted⟩ := tick_of_hlt hon hexec
    have hnotice : d.tick.notice = .atBreakpoint d.machine.pc :=
      (notice_eq_atBreakpoint_iff h).2 ⟨⟨_, hexec⟩, hpc, hbreak⟩
    have htext := Notice.text_eq_breakpoint_iff.2 hnotice
    cases hhalted.symm.trans ((htruly.breakpoint _).1 htext).2.1
  · intro hnot
    have hgo : ∀ i, d.Executes i → d.tick.machine.status = .running := by
      intro i hexec
      obtain ⟨hbreak, hstatus⟩ := h.of_executes hexec
      have hne : i ≠ .hlt := by
        rintro rfl
        rw [(tick_of_hlt hon hexec).1] at hbreak
        exact hnot ⟨hexec, hbreak⟩
      rw [hstatus, if_neg hne]
    refine ⟨?_, fun p => ?_, fun n => ?_⟩
    · rw [Notice.text_eq_error_iff]
      exact exists_congr fun fault => notice_eq_fault_iff h
    · rw [Notice.text_eq_breakpoint_iff, notice_eq_atBreakpoint_iff h]
      exact ⟨fun ⟨⟨i, hexec⟩, hat⟩ => ⟨⟨i, hexec⟩, hgo i hexec, hat⟩,
        fun ⟨hexec, _, hat⟩ => ⟨hexec, hat⟩⟩
    · rw [Notice.text_eq_finished_iff, notice_eq_finished_iff h]
      exact stopped_iff h hgo

-- =========================================================== the theorem

/-- The notice of a tick that ends execution tells what the tick has done.

It names a fault exactly if the step of this tick has faulted so, wherever
breakpoints stand; a breakpoint exactly if the step went through and led
there; and a number of cycles exactly if the machine was found stopped, with
so many on its counter. One of the three it is.

So the text gives the reason for which execution has ended, with one
exception. A HLT at an address with a breakpoint is told as a stop at that
breakpoint, and the machine has halted. -/
theorem notice_tells_how_execution_ended (hon : d.running = true) (hoff : d.tick.running = false) :
    (∀ fault, d.tick.notice = .fault fault ↔ d.Faults fault)
    ∧ (∀ p, d.tick.notice = .atBreakpoint p ↔
        (∃ i, d.Executes i) ∧ d.tick.machine.pc = p ∧ p ∈ d.breakpoints)
    ∧ (∀ n, d.tick.notice = .finished n ↔ d.machine.status ≠ .running ∧ d.machine.cycles = n)
    ∧ ((∃ fault, d.tick.notice = .fault fault) ∨ (∃ p, d.tick.notice = .atBreakpoint p)
        ∨ ∃ n, d.tick.notice = .finished n)
    ∧ (d.ReportsTruly ↔ ¬ d.HaltsAtBreakpoint)
    ∧ (d.HaltsAtBreakpoint →
        d.tick.notice.text = "Breakpoint at PC=" ++ Numeral.decimal d.machine.pc.toNat
        ∧ d.tick.machine.pc = d.machine.pc ∧ d.tick.machine.status = .halted) := by
  have hstops := stops hon hoff
  refine ⟨fun fault => notice_eq_fault_iff hstops, fun p => notice_eq_atBreakpoint_iff hstops,
    fun n => notice_eq_finished_iff hstops, ?_, reportsTruly_iff hon hstops, ?_⟩
  · cases hstops with
    | faulted fault hfaults hnotice => exact Or.inl ⟨fault, hnotice⟩
    | arrived i hexec hbreak hnotice hstatus => exact Or.inr (Or.inl ⟨_, hnotice⟩)
    | found hstop hnotice hmachine => exact Or.inr (Or.inr ⟨_, hnotice⟩)
  · rintro ⟨hexec, hbreak⟩
    obtain ⟨hpc, hhalted⟩ := tick_of_hlt hon hexec
    have hnotice := (notice_eq_atBreakpoint_iff hstops).2 ⟨⟨_, hexec⟩, hpc, hbreak⟩
    exact ⟨Notice.text_eq_breakpoint_iff.2 hnotice, hpc, hhalted⟩

/-- A fault at a breakpoint is told as a fault, a stop behind the program
that goes around as one at its breakpoint, and a machine that had stopped as
one that has. -/
theorem looping_stop_is_told :
    let faulting : Debugger :=
      { machine := fresh, program := [], breakpoints := [0], running := true }
    let around := looping.run.tick
    let stopped : Debugger :=
      { machine := { halting with status := .halted, cycles := 1 }, program := [], running := true }
    (faulting.running = true ∧ faulting.tick.running = false
      ∧ faulting.tick.machine.pc ∈ faulting.breakpoints
      ∧ faulting.tick.notice = .fault (.decode 0 (.unknownOpcode 0)))
    ∧ (around.running = true ∧ around.tick.running = false
      ∧ around.tick.notice = .atBreakpoint 0 ∧ around.ReportsTruly)
    ∧ (stopped.running = true ∧ stopped.tick.running = false
      ∧ stopped.tick.notice = .finished 1) := by
  intro faulting around stopped
  have hfaulting : faulting.tick.running = false := by decide +kernel
  have haround : around.running = true := by decide +kernel
  have haround' : around.tick.running = false := by decide +kernel
  have hstopped : stopped.tick.running = false := by decide +kernel
  obtain ⟨hfault, -⟩ := notice_tells_how_execution_ended (d := faulting) rfl hfaulting
  obtain ⟨-, hbreak, -, -, htruly, -⟩ := notice_tells_how_execution_ended haround haround'
  obtain ⟨-, -, hfound, -⟩ := notice_tells_how_execution_ended (d := stopped) rfl hstopped
  refine ⟨⟨rfl, hfaulting, by decide +kernel, (hfault _).2 ⟨rfl, by decide +kernel⟩⟩,
    ⟨haround, haround', (hbreak 0).2 ⟨⟨.jmp 0, by decide +kernel⟩, by decide +kernel⟩, ?_⟩,
    rfl, hstopped, (hfound 1).2 ⟨by decide, rfl⟩⟩
  refine htruly.2 fun hhalts => ?_
  exact absurd hhalts.1 (by decide +kernel)

/-- A HLT with a breakpoint on it, run from its own address. -/
def haltingAtBreakpoint : Debugger where
  machine := halting
  program := [Opcode.hlt]
  breakpoints := [0]
  running := true
  notice := .running

/-- This is where one comes to by hand. Execution ends because the machine
has halted, and the text gives a breakpoint as the reason. -/
theorem halt_is_told_as_breakpoint :
    haltingAtBreakpoint = (ofProgram [Opcode.hlt]).toggleBreakpoint.run
    ∧ haltingAtBreakpoint.running = true ∧ haltingAtBreakpoint.tick.running = false
    ∧ haltingAtBreakpoint.Executes .hlt
    ∧ haltingAtBreakpoint.tick.machine.status = .halted
    ∧ haltingAtBreakpoint.tick.notice.text = "Breakpoint at PC=0"
    ∧ ¬ haltingAtBreakpoint.ReportsTruly := by
  have hboot : Machine.boot [Opcode.hlt] = .ok halting := boot_eq_ok_iff.2 ⟨by decide, rfl⟩
  have hloaded : ofProgram [Opcode.hlt] = { machine := halting, program := [Opcode.hlt] } := by
    simp only [ofProgram, bootOrFresh, hboot]
  have htext : haltingAtBreakpoint.tick.notice.text = "Breakpoint at PC=0" := by decide +kernel
  have hhalted : haltingAtBreakpoint.tick.machine.status = .halted := by decide +kernel
  refine ⟨?_, rfl, by decide +kernel, by decide +kernel, hhalted, htext, fun htruly => ?_⟩
  · rw [hloaded]
    rfl
  · cases hhalted.symm.trans ((htruly.breakpoint 0).1 htext).2.1

end Debugger

end LS8
