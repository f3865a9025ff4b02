/-
A debugger over any history of operations.

Whatever is done with a debugger, its machine and its output are what a
number of step calls leave of the program as it was loaded, and of a printer
that had printed nothing. A step makes one call (`step_follows`), a tick one
or none (`tick_follows_or`), a reset goes back to the beginning, and the other
operations leave the machine alone. So `perform_follows` counts the calls of
one operation, and `exists_follows_after` those of a history, by induction
from its end: the last operation is the one that a reset makes forget all
others.

# Direct changes

The machine of a debugger can also be changed directly. That breaks the tie
to the program until the next reset, and nothing else: a breakpoint belongs
to the address where the program counter stood when it was toggled, however
it came there (`mem_breakpoints_iff`), and a reset looks at the program only.
So what is said of breakpoints, of the memory view and of resets holds for
all histories, and what is said of the machine for those without a direct
change since the beginning or the last reset (`Undisturbed`).
-/
import Mathlib.Algebra.Group.Nat.Even
import Mathlib.Data.List.DropRight
import LS8.Debugger.View
import LS8.Proofs.History
import LS8.Proofs.Ticks
import LS8.Proofs.Tracing
import LS8.Proofs.Transactions

namespace LS8

open Machine

-- ======================================================= printed lines

/-- Printed lines are cut where they were joined. -/
theorem lines_linesOf (values : List UInt8) :
    Text.lines (CommandLine.linesOf values).toList =
      values.map fun value => (Numeral.decimal value.toNat).toList := by
  induction values with
  | nil => rfl
  | cons value values ih =>
      have hline : '\n' ∉ (Numeral.decimal value.toNat).toList := Numeral.not_mem_decimal _
      have hstrip : Text.stripReturn (Numeral.decimal value.toNat).toList
          = (Numeral.decimal value.toNat).toList := by
        refine Text.stripReturn_of_getLast?_ne fun hlast => ?_
        exact absurd (Numeral.isDigit_of_mem_decimal (List.mem_of_getLast? hlast)) (by decide)
      have hsplit : (CommandLine.linesOf (value :: values)).toList =
          (Numeral.decimal value.toNat).toList ++ '\n' :: (CommandLine.linesOf values).toList := by
        rw [CommandLine.linesOf_cons, String.toList_append, String.toList_append, List.append_assoc]
        rfl
      rw [hsplit, Text.lines_append hline, hstrip, ih, List.map_cons]

namespace Printout

/-- The bytes of a printout. -/
def bytes (printed : Printout) : List UInt8 :=
  printed.values.toList.flatMap lineBytes

/-- The lines that bytes hold, if they are a text. -/
def linesIn? (bytes : List UInt8) : Option (List String) :=
  (String.fromUTF8? bytes.toByteArray).map fun text =>
    (Text.lines text.toList).map String.ofList

theorem linesIn?_bytes (printed : Printout) : linesIn? printed.bytes = some printed.lines := by
  have htext : String.fromUTF8? printed.bytes.toByteArray =
      some (CommandLine.linesOf printed.values.toList) :=
    fromUTF8?_eq_some_iff.2 (toUTF8_linesOf _).symm
  rw [linesIn?, htext, Option.map_some, lines_linesOf, List.map_map, lines]
  simp only [Function.comp_def, String.ofList_toList]

end Printout

namespace Debugger

variable {d : Debugger} {s : Machine × Printer} {program : List UInt8}

-- ========================================================= operations

/-- What is done with a debugger. Three operations only look at it: what they
show (`Debugger.listing`, `Printout.lines`, `Debugger.screen`) is computed from
it. `interfere` changes its machine directly. -/
inductive Operation where
  | step
  | run
  | tick
  | toggleBreakpoint
  | reset
  | scroll (rows : Int)
  | listing (lines : Nat)
  | outputLines
  | draw (width height : Nat)
  | interfere (change : Machine → Machine)

namespace Operation

/-- How many step calls an operation makes at least. -/
def leastCalls : Operation → Nat
  | step => 1
  | _ => 0

/-- How many step calls an operation makes at most. -/
def mostCalls : Operation → Nat
  | step | tick => 1
  | _ => 0

def isReset : Operation → Bool
  | reset => true
  | _ => false

def isInterference : Operation → Bool
  | interfere _ => true
  | _ => false

end Operation

/-- The debugger that an operation leaves. -/
def perform (d : Debugger) : Operation → Debugger
  | .step => d.step
  | .run => d.run
  | .tick => d.tick
  | .toggleBreakpoint => d.toggleBreakpoint
  | .reset => d.reset
  | .scroll rows => d.scroll rows
  | .listing _ | .outputLines | .draw _ _ => d
  | .interfere change => { d with machine := change d.machine }

/-- The debugger that a history leaves of a new one. -/
def after (program : List UInt8) (history : List Operation) : Debugger :=
  history.foldl perform (ofProgram program)

/-- What has been done since the beginning or the last reset. -/
def sinceReset (history : List Operation) : List Operation :=
  history.rtakeWhile fun op => !op.isReset

/-- How many step calls there can have been since the beginning or the last
reset. -/
structure CallsSince (history : List Operation) (k : Nat) : Prop where
  least : ((sinceReset history).map Operation.leastCalls).sum ≤ k
  most : k ≤ ((sinceReset history).map Operation.mostCalls).sum

/-- The machine has not been changed directly since the beginning or the last
reset. -/
def Undisturbed (history : List Operation) : Prop :=
  ∀ op ∈ sinceReset history, op.isInterference = false

/-- The address where an operation toggles a breakpoint, if it does. -/
def toggledBy (d : Debugger) : Operation → List UInt8
  | .toggleBreakpoint => [d.machine.pc]
  | _ => []

/-- The addresses where breakpoints are toggled, in order. -/
def toggledFrom (d : Debugger) : List Operation → List UInt8
  | [] => []
  | op :: history => d.toggledBy op ++ (d.perform op).toggledFrom history

/-- The addresses where a history toggles breakpoints. -/
def toggled (program : List UInt8) (history : List Operation) : List UInt8 :=
  (ofProgram program).toggledFrom history

theorem after_concat (program : List UInt8) (history : List Operation) (op : Operation) :
    after program (history ++ [op]) = (after program history).perform op := by
  rw [after, List.foldl_append]
  rfl

theorem sinceReset_concat (history : List Operation) (op : Operation) :
    sinceReset (history ++ [op]) = if op.isReset then [] else sinceReset history ++ [op] := by
  unfold sinceReset
  rw [List.rtakeWhile_concat]
  cases op.isReset <;> rfl

theorem callsSince_reset {op : Operation} (history : List Operation) (h : op.isReset = true) :
    CallsSince (history ++ [op]) 0 := by
  have hsince : sinceReset (history ++ [op]) = [] := by rw [sinceReset_concat, if_pos h]
  exact ⟨by rw [hsince]; exact Nat.le_refl 0, Nat.zero_le _⟩

theorem CallsSince.concat {history : List Operation} {op : Operation} {k n : Nat}
    (h : CallsSince history k) (hreset : op.isReset = false) (hleast : op.leastCalls ≤ n)
    (hmost : n ≤ op.mostCalls) : CallsSince (history ++ [op]) (n + k) := by
  obtain ⟨hleast', hmost'⟩ := h
  have hsince : sinceReset (history ++ [op]) = sinceReset history ++ [op] := by
    rw [sinceReset_concat, hreset, if_neg Bool.false_ne_true]
  constructor
  · rw [hsince, List.map_append, List.sum_append, List.map_singleton, List.sum_singleton]
    omega
  · rw [hsince, List.map_append, List.sum_append, List.map_singleton, List.sum_singleton]
    omega

theorem Undisturbed.of_concat {history : List Operation} {op : Operation}
    (h : Undisturbed (history ++ [op])) (hreset : op.isReset = false) :
    Undisturbed history ∧ op.isInterference = false := by
  unfold Undisturbed at h
  rw [sinceReset_concat, hreset, if_neg Bool.false_ne_true] at h
  exact ⟨fun op' hop' => h op' (List.mem_append_left _ hop'),
    h op (List.mem_append_right _ (List.mem_singleton_self op))⟩

-- ============================================================= fields

/-- A breakpoint that is set or removed changes no more than the notice
besides. -/
theorem exists_toggleBreakpoint_eq (d : Debugger) :
    ∃ breakpoints notice, d.toggleBreakpoint = { d with breakpoints, notice } := by
  by_cases hpc : d.machine.pc ∈ d.breakpoints
  · exact ⟨_, _, if_pos hpc⟩
  · exact ⟨_, _, if_neg hpc⟩

theorem program_after (program : List UInt8) (history : List Operation) :
    (after program history).program = program := by
  induction history using List.reverseRecOn with
  | nil => rfl
  | append_singleton history op ih =>
      rw [after_concat]
      cases op with
      | step => exact (sameSetting_step _).program.trans ih
      | tick => exact (sameSetting_tick _).program.trans ih
      | toggleBreakpoint =>
          obtain ⟨_, _, htoggle⟩ := (after program history).exists_toggleBreakpoint_eq
          exact (congrArg Debugger.program htoggle).trans ih
      | _ => exact ih

/-- The memory view never begins behind the last row. -/
theorem memScroll_after_le (program : List UInt8) (history : List Operation) :
    (after program history).memScroll ≤ memoryRows - 1 := by
  induction history using List.reverseRecOn with
  | nil => exact Nat.zero_le _
  | append_singleton history op ih =>
      rw [after_concat]
      cases op with
      | step => exact (sameSetting_step _).memScroll.le.trans ih
      | tick => exact (sameSetting_tick _).memScroll.le.trans ih
      | toggleBreakpoint =>
          obtain ⟨_, _, htoggle⟩ := (after program history).exists_toggleBreakpoint_eq
          exact (congrArg Debugger.memScroll htoggle).le.trans ih
      | scroll rows => exact Nat.min_le_right _ _
      | _ => exact ih

-- ======================================================== the beginning

/-- Where a program begins: in a new machine, which stays empty if the program
does not fit, with nothing printed. -/
def start (program : List UInt8) : Machine × Printer :=
  (fresh.loadOrKeep program, .unlimited {})

theorem bootOrFresh_eq (program : List UInt8) : bootOrFresh program = (start program).1 := rfl

theorem ofProgram_follows (program : List UInt8) : Follows (ofProgram program) (start program) :=
  ⟨bootOrFresh_eq program, Printer.takesAll_unlimited _, rfl⟩

theorem reset_follows (h : d.program = program) : Follows d.reset (start program) := by
  subst h
  exact ⟨bootOrFresh_eq d.program, Printer.takesAll_unlimited _, rfl⟩

/-- What memory holds at the beginning: the program and zeros behind it, or
only zeros if there are more bytes than addresses. -/
def image (program : List UInt8) : List UInt8 :=
  if program.length ≤ Memory.capacity then
    program ++ List.replicate (Memory.capacity - program.length) 0
  else List.replicate Memory.capacity 0

theorem machine_start (program : List UInt8) :
    (start program).1 = { fresh with mem := ⟨⟨image program⟩⟩ } := by
  unfold start loadOrKeep image
  by_cases hfits : program.length ≤ Memory.capacity
  · have hboot : fresh.load program = .ok _ := boot_eq_ok_iff.2 ⟨hfits, rfl⟩
    rw [hboot, if_pos hfits]
  · rw [if_neg hfits]
    rcases hboot : fresh.load program with e | m
    · rfl
    · exact absurd (boot_eq_ok_iff.1 hboot).1 hfits

-- ========================================= operations beside the machine

/-- A step by hand does what a step call does, also on a machine that has
stopped. -/
theorem step_follows (h : Follows d s) : Follows d.step (advance s) := by
  unfold step
  by_cases hrun : d.machine.status = .running
  · have halike := h.alike
    rw [if_pos hrun]
    rcases hstep : d.machine.step (.unlimited d.output) with ⟨fault | i, m, out⟩
    · rw [hstep] at halike
      exact ⟨halike.machine.symm, halike.out.left, halike.out.printed⟩
    · rw [hstep] at halike
      exact ⟨halike.machine.symm, halike.out.left, halike.out.printed⟩
  · rw [if_neg hrun, advance_of_ne_running (by rw [← h.machine]; exact hrun)]
    exact ⟨h.machine, h.takesAll, h.output⟩

/-- A tick makes a step call or leaves the machine alone. -/
theorem tick_follows_or (h : Follows d s) : Follows d.tick s ∨ Follows d.tick (advance s) := by
  cases hon : d.running with
  | false =>
      rw [tick_of_off hon]
      exact Or.inl h
  | true =>
      by_cases hrun : d.machine.status = .running
      · exact Or.inr (tick_follows h hon hrun).1
      · rw [tick_of_stopped hon hrun]
        exact Or.inl ⟨h.machine, h.takesAll, h.output⟩

/-- An operation that is no reset and no direct change makes as many step
calls as it can make. -/
theorem perform_follows {op : Operation} (hreset : op.isReset = false)
    (hinterfere : op.isInterference = false) (h : Follows d s) :
    ∃ n, op.leastCalls ≤ n ∧ n ≤ op.mostCalls ∧ Follows (d.perform op) (advance^[n] s) := by
  have hsame : ∀ {d' : Debugger}, d'.machine = d.machine → d'.output = d.output → Follows d' s :=
    fun hmachine houtput => ⟨hmachine.trans h.machine, h.takesAll, h.output.trans houtput.symm⟩
  cases op with
  | step => exact ⟨1, Nat.le_refl 1, Nat.le_refl 1, step_follows h⟩
  | tick =>
      rcases tick_follows_or h with hstays | hnext
      · exact ⟨0, Nat.le_refl 0, Nat.zero_le 1, hstays⟩
      · exact ⟨1, Nat.zero_le 1, Nat.le_refl 1, hnext⟩
  | reset => cases hreset
  | interfere change => cases hinterfere
  | toggleBreakpoint =>
      obtain ⟨_, _, htoggle⟩ := d.exists_toggleBreakpoint_eq
      have hmachine : d.toggleBreakpoint.machine = d.machine := by rw [htoggle]
      have houtput : d.toggleBreakpoint.output = d.output := by rw [htoggle]
      exact ⟨0, Nat.le_refl 0, Nat.le_refl 0, hsame hmachine houtput⟩
  | _ => exact ⟨0, Nat.le_refl 0, Nat.le_refl 0, hsame rfl rfl⟩

/-- A history without a direct change since the last reset has come to where
step calls lead from the beginning. -/
theorem exists_follows_after (program : List UInt8) (history : List Operation)
    (h : Undisturbed history) :
    ∃ k, CallsSince history k ∧ Follows (after program history) (advance^[k] (start program)) := by
  induction history using List.reverseRecOn with
  | nil => exact ⟨0, ⟨Nat.le_refl 0, Nat.le_refl 0⟩, ofProgram_follows program⟩
  | append_singleton history op ih =>
      rw [after_concat]
      cases hreset : op.isReset with
      | true =>
          have hcalls := callsSince_reset history hreset
          cases op with
          | reset => exact ⟨0, hcalls, reset_follows (program_after program history)⟩
          | _ => cases hreset
      | false =>
          obtain ⟨hbefore, hinterfere⟩ := h.of_concat hreset
          obtain ⟨k, hk, hfollows⟩ := ih hbefore
          obtain ⟨n, hleast, hmost, hnext⟩ := perform_follows hreset hinterfere hfollows
          rw [← Function.iterate_add_apply] at hnext
          exact ⟨n + k, hk.concat hreset hleast hmost, hnext⟩

-- ========================================================== breakpoints

/-- An operation changes whether there is a breakpoint at an address exactly
if it toggles the one there. -/
theorem mem_breakpoints_perform (d : Debugger) (op : Operation) (a : UInt8) :
    a ∈ (d.perform op).breakpoints ↔ (a ∈ d.breakpoints ↔ a ∉ d.toggledBy op) := by
  cases op with
  | toggleBreakpoint =>
      unfold perform toggleBreakpoint toggledBy
      by_cases hpc : d.machine.pc ∈ d.breakpoints
      · by_cases ha : a = d.machine.pc
        · simp [hpc, ha]
        · simp [hpc, ha]
      · by_cases ha : a = d.machine.pc
        · simp [hpc, ha]
        · simp [hpc, ha]
  | step => simp [perform, d.sameSetting_step.breakpoints, toggledBy]
  | tick => simp [perform, d.sameSetting_tick.breakpoints, toggledBy]
  | _ => simp [perform, toggledBy, run, reset, scroll]

/-- An operation toggles at most one breakpoint. -/
theorem odd_count_toggledBy (d : Debugger) (op : Operation) (a : UInt8) :
    Odd ((d.toggledBy op).count a) ↔ a ∈ d.toggledBy op := by
  cases op with
  | toggleBreakpoint =>
      unfold toggledBy
      by_cases ha : a = d.machine.pc
      · simp [ha]
      · simp [ha, Ne.symm ha]
  | _ => simp [toggledBy]

/-- Operations change whether there is a breakpoint at an address exactly if
they toggle the one there an odd number of times. -/
theorem mem_breakpoints_foldl (history : List Operation) (a : UInt8) :
    ∀ d : Debugger, a ∈ (history.foldl perform d).breakpoints ↔
      (a ∈ d.breakpoints ↔ ¬ Odd ((d.toggledFrom history).count a)) := by
  induction history with
  | nil =>
      intro d
      simp [toggledFrom]
  | cons op history ih =>
      intro d
      rw [List.foldl_cons, ih, mem_breakpoints_perform, toggledFrom, List.count_append, Nat.odd_add,
        ← Nat.not_odd_iff_even, odd_count_toggledBy]
      tauto

theorem mem_breakpoints_iff (program : List UInt8) (history : List Operation) (a : UInt8) :
    a ∈ (after program history).breakpoints ↔ Odd ((toggled program history).count a) := by
  have hnone : a ∉ (ofProgram program).breakpoints := List.not_mem_nil
  rw [after, mem_breakpoints_foldl, toggled]
  tauto

-- ========================================================== the theorem

/-- After every history the lines of the printed bytes are the printed values
in decimal, the breakpoints are the addresses where one was toggled an odd
number of times, and the memory view begins with one of its 32 rows. A reset
leads back to the machine, the output and the rest of a new debugger, and
keeps the breakpoints.

After a history without a direct change since the beginning or the last reset
the machine is where step calls lead from the beginning of the program, one
for each step since then and at most one for each tick, and just what these
calls print has been printed. -/
theorem debugging_leaves_program_alone (program : List UInt8) (history : List Operation) :
    let d := after program history
    (Undisturbed history → ∃ k, CallsSince history k
        ∧ d.machine = (advance^[k] (start program)).1
        ∧ d.output.values.toList =
            (List.range k).flatMap fun i => printsAt (advance^[i] (start program)))
    ∧ (start program).1 = { fresh with mem := ⟨⟨image program⟩⟩ }
    ∧ d.output.lines = d.output.values.toList.map (fun value => Numeral.decimal value.toNat)
    ∧ Printout.linesIn? d.output.bytes = some d.output.lines
    ∧ (∀ a, a ∈ d.breakpoints ↔ Odd ((toggled program history).count a))
    ∧ d.memScroll ≤ 31
    ∧ d.reset.machine = (ofProgram program).machine
    ∧ d.reset.output = (ofProgram program).output
    ∧ d.reset.running = (ofProgram program).running
    ∧ d.reset.breakpoints = d.breakpoints := by
  intro d
  refine ⟨?_, machine_start program, rfl, Printout.linesIn?_bytes _,
    mem_breakpoints_iff program history, memScroll_after_le program history, ?_, rfl, rfl, rfl⟩
  · intro hundisturbed
    obtain ⟨k, hk, hfollows⟩ := exists_follows_after program history hundisturbed
    refine ⟨k, hk, hfollows.machine, ?_⟩
    rw [← hfollows.output, values_iterate_advance]
    rfl
  · show bootOrFresh (after program history).program = _
    rw [program_after]
    rfl

/-- A program that prints 8, with a breakpoint that was set where only a
direct change had brought the program counter. -/
theorem printing_eight_stops_at_breakpoint :
    let program := [Opcode.ldi, 0, 8, Opcode.prn, 0, Opcode.hlt]
    let history : List Operation :=
      [.interfere (jump · 3), .toggleBreakpoint, .reset, .run, .tick, .tick, .scroll 1000, .step]
    Undisturbed history
    ∧ (∃ k, 1 ≤ k ∧ k ≤ 3
        ∧ (after program history).machine = (advance^[k] (start program)).1
        ∧ [8] = (List.range k).flatMap fun i => printsAt (advance^[i] (start program)))
    ∧ (after program history).output.lines = ["8"] ∧ 3 ∈ (after program history).breakpoints
    ∧ (after program history).memScroll ≤ 31 := by
  intro program history
  have hundisturbed : Undisturbed history := by
    unfold Undisturbed
    decide
  have hboot : bootOrFresh program = { fresh with mem := ⟨⟨image program⟩⟩ } :=
    (bootOrFresh_eq program).trans (machine_start program)
  have hprinted : (after program history).output.values.toList = [8] := by
    have hreset : after program (history.take 3) =
        { machine := bootOrFresh program, program, breakpoints := [3], notice := .reset } := rfl
    have hlater : after program history =
        (history.drop 3).foldl perform (after program (history.take 3)) := by
      rw [after, after, ← List.foldl_append, List.take_append_drop]
    rw [hlater, hreset, hboot]
    decide +kernel
  have htoggled : toggled program history = [3] := rfl
  obtain ⟨hmachine, -, hlines, -, hbreakpoints, hscroll, -⟩ :=
    debugging_leaves_program_alone program history
  obtain ⟨k, hk, hat, hvalues⟩ := hmachine hundisturbed
  rw [hprinted] at hlines hvalues
  have hbreak : 3 ∈ (after program history).breakpoints := by
    rw [hbreakpoints, htoggled]
    decide
  exact ⟨hundisturbed, ⟨k, hk.least, hk.most, hat, hvalues⟩, hlines, hbreak, hscroll⟩

end Debugger

end LS8
