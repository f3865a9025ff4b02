/-
Continuous execution in the debugger, tick by tick, beside the machine on
its own, step by step.

`Debugger.course` is the machine on its own: `i` steps from where the
debugger stands, each whether or not the one before went through. Ticks
follow this course (`tick_follows`, one tick beside one step) up to the first
step after which they have a reason to end: it faulted, the machine has
halted, or the program counter stands on a breakpoint (`CutAt`).

# Where the tick behind the last one differs

A tick that comes to a fault or to a breakpoint ends execution itself. A
tick that halts the machine away from breakpoints does not: the next one
finds the machine stopped, and that is where execution ends.

Without breakpoints the ticks do what a run without a limit does. The two
are compared by induction on the fuel, and no counter bounds it.
-/
import Mathlib.Order.Bounds.Basic
import Mathlib.Logic.Function.Iterate
import LS8.Debugger
import LS8.Proofs.Printing

namespace LS8

open Machine

namespace Debugger

variable {d : Debugger} {s : Machine × Printer}

-- ============================================================ one tick

/-- Ticks that do not execute do nothing. -/
theorem tick_of_off (hoff : d.running = false) : d.tick = d := by
  unfold tick
  rw [if_neg (by rw [hoff]; exact Bool.false_ne_true)]

theorem iterate_tick_of_off (hoff : d.running = false) (n : Nat) : tick^[n] d = d :=
  Function.iterate_fixed (tick_of_off hoff) n

/-- A tick that finds the machine stopped ends execution. -/
theorem tick_of_stopped (hon : d.running = true) (hstop : d.machine.status ≠ .running) :
    d.tick = { d with running := false, notice := .finished d.machine.cycles } := by
  unfold tick
  rw [if_pos hon, if_neg hstop]

/-- A tick whose instruction goes through ends execution exactly at a
breakpoint. -/
theorem tick_of_ok {i : Instruction} {m : Machine} {out : Printer} (hon : d.running = true)
    (h : d.machine.step (.unlimited d.output) = ⟨.ok i, m, out⟩) :
    d.tick = { d with
      machine := m
      output := out.printed
      running := decide (m.pc ∉ d.breakpoints)
      notice := if m.pc ∈ d.breakpoints then .atBreakpoint m.pc
        else .executed d.machine.pc i } := by
  have hrun : d.machine.status = .running := (step_eq_ok_iff.1 h).1
  unfold tick step checkBreakpoint
  rw [if_pos hon, if_pos hrun]
  simp only [h, hrun, if_true, hon, true_and]
  by_cases hbreak : m.pc ∈ d.breakpoints
  · simp only [hbreak, if_true, not_true, decide_false]
  · simp only [hbreak, if_false, not_false_iff, decide_true]

/-- A tick whose instruction faults ends execution. -/
theorem tick_of_fault {fault : Fault} {m : Machine} {out : Printer} (hon : d.running = true)
    (hrun : d.machine.status = .running)
    (h : d.machine.step (.unlimited d.output) = ⟨.error fault, m, out⟩) :
    d.tick = { d with
      machine := m
      output := out.printed
      running := false
      notice := .fault fault } := by
  unfold tick step checkBreakpoint
  rw [if_pos hon, if_pos hrun]
  simp only [h, hrun, if_true, Bool.false_eq_true, false_and, if_false]

/-- Execution leaves the program, the breakpoints and the memory view
alone. -/
structure SameSetting (d d' : Debugger) : Prop where
  program : d'.program = d.program
  breakpoints : d'.breakpoints = d.breakpoints
  memScroll : d'.memScroll = d.memScroll

theorem sameSetting_step (d : Debugger) : SameSetting d d.step := by
  unfold step
  split
  · split <;> exact ⟨rfl, rfl, rfl⟩
  · exact ⟨rfl, rfl, rfl⟩

theorem sameSetting_tick (d : Debugger) : SameSetting d d.tick := by
  unfold tick
  split
  · split
    · unfold checkBreakpoint
      obtain ⟨hprogram, hbreakpoints, hscroll⟩ := d.sameSetting_step
      split <;> exact ⟨hprogram, hbreakpoints, hscroll⟩
    · exact ⟨rfl, rfl, rfl⟩
  · exact ⟨rfl, rfl, rfl⟩

theorem breakpoints_tick (d : Debugger) : d.tick.breakpoints = d.breakpoints :=
  d.sameSetting_tick.breakpoints

theorem breakpoints_iterate_tick (d : Debugger) (k : Nat) :
    (tick^[k] d).breakpoints = d.breakpoints := by
  induction k with
  | zero => rfl
  | succ k ih => rw [Function.iterate_succ_apply', breakpoints_tick, ih]

/-- Where execution goes on after a tick, there is no breakpoint. -/
theorem pc_tick_not_mem (hon : d.tick.running = true) : d.tick.machine.pc ∉ d.breakpoints := by
  cases hd : d.running with
  | false =>
      rw [tick_of_off hd, hd] at hon
      exact absurd hon Bool.false_ne_true
  | true =>
      by_cases hrun : d.machine.status = .running
      · rcases hstep : d.machine.step (.unlimited d.output) with ⟨fault | i, m, out⟩
        · rw [tick_of_fault hd hrun hstep] at hon
          exact absurd hon Bool.false_ne_true
        · rw [tick_of_ok hd hstep] at hon ⊢
          exact of_decide_eq_true hon
      · rw [tick_of_stopped hd hrun] at hon
        exact absurd hon Bool.false_ne_true

-- ================================================ a tick beside a step

/-- The debugger has the machine, and has printed what the printer has. -/
structure Follows (d : Debugger) (s : Machine × Printer) : Prop where
  machine : d.machine = s.1
  takesAll : s.2.TakesAll
  output : s.2.printed = d.output

/-- What the debugger does with its machine comes to the same. -/
theorem Follows.alike (h : Follows d s) :
    (s.1.step s.2).Alike (d.machine.step (.unlimited d.output)) := by
  rw [h.machine]
  exact s.1.step_alike ⟨h.takesAll, Printer.takesAll_unlimited _, h.output⟩

/-- A tick does what a step does, and ends execution exactly if the step
faults or leads to a breakpoint. -/
theorem tick_follows (h : Follows d s) (hon : d.running = true)
    (hrun : d.machine.status = .running) :
    Follows d.tick (advance s)
    ∧ (d.tick.running = true ↔ ¬ s.1.Stuck s.2 ∧ (advance s).1.pc ∉ d.breakpoints) := by
  have halike := h.alike
  rcases hstep : d.machine.step (.unlimited d.output) with ⟨fault | i, m, out⟩
  · rw [hstep] at halike
    have hstuck : s.1.Stuck s.2 := stuck_of_fault (Outcome.eq_of_result halike.result)
    rw [tick_of_fault hon hrun hstep]
    refine ⟨⟨halike.machine.symm, halike.out.left, halike.out.printed⟩, ?_⟩
    exact ⟨fun hoff => absurd hoff Bool.false_ne_true, fun hgo => absurd hstuck hgo.1⟩
  · rw [hstep] at halike
    have hgo : ¬ s.1.Stuck s.2 := fun hstuck => hstuck i halike.result
    rw [tick_of_ok hon hstep]
    refine ⟨⟨halike.machine.symm, halike.out.left, halike.out.printed⟩, ?_⟩
    show decide (m.pc ∉ d.breakpoints) = true ↔ _
    rw [decide_eq_true_iff, advance, halike.machine]
    exact ⟨fun hpc => ⟨hgo, hpc⟩, fun hpc => hpc.2⟩

-- ============================================================ the course

/-- The machine and a printer for all that is printed, `i` steps on. -/
def course (d : Debugger) (i : Nat) : Machine × Printer :=
  advance^[i] (d.machine, .unlimited d.output)

/-- Execution has a reason to end with the `i`-th step of the course, counted
from one: the step faults, the machine has halted, or a breakpoint stands
where it leads. -/
def CutAt (d : Debugger) : Nat → Prop
  | 0 => False
  | i + 1 => (d.course i).1.Stuck (d.course i).2 ∨ (d.course (i + 1)).1.status = .halted
      ∨ (d.course (i + 1)).1.pc ∈ d.breakpoints

theorem course_succ (d : Debugger) (i : Nat) : d.course (i + 1) = advance (d.course i) :=
  Function.iterate_succ_apply' _ _ _

theorem follows_run (d : Debugger) : Follows d.run (d.course 0) :=
  ⟨rfl, Printer.takesAll_unlimited _, rfl⟩

/-- After `k` ticks execution is on, with the machine of the course, which
runs. -/
structure UnderWay (d : Debugger) (k : Nat) : Prop where
  follows : Follows (tick^[k] d.run) (d.course k)
  on : (tick^[k] d.run).running = true
  runs : (d.course k).1.status = .running

theorem UnderWay.next {k : Nat} (h : d.UnderWay k) :
    Follows (tick^[k + 1] d.run) (d.course (k + 1))
    ∧ ((tick^[k + 1] d.run).running = true ↔
        ¬ (d.course k).1.Stuck (d.course k).2 ∧ (d.course (k + 1)).1.pc ∉ d.breakpoints) := by
  have htick := tick_follows h.follows h.on (by rw [h.follows.machine]; exact h.runs)
  rw [breakpoints_iterate_tick] at htick
  rw [Function.iterate_succ_apply', course_succ]
  exact htick

/-- As long as there is no reason to end, execution is under way. -/
theorem underWay_of_uncut (hrun : d.machine.status = .running) (k : Nat) :
    (∀ i ≤ k, ¬ d.CutAt i) → d.UnderWay k := by
  induction k with
  | zero =>
      intro _
      exact ⟨d.follows_run, rfl, hrun⟩
  | succ k ih =>
      intro huncut
      have hbefore := ih fun i hi => huncut i (Nat.le_succ_of_le hi)
      have hlast : ¬ d.CutAt (k + 1) := huncut (k + 1) (Nat.le_refl _)
      rw [CutAt, not_or, not_or] at hlast
      obtain ⟨hgo, hhalt, hpc⟩ := hlast
      obtain ⟨hfollows, hiff⟩ := hbefore.next
      refine ⟨hfollows, hiff.2 ⟨hgo, hpc⟩, ?_⟩
      rw [course_succ] at hhalt ⊢
      exact status_advance hgo hhalt

/-- The tick beside the first reason to end follows the course too. -/
theorem follows_of_uncut (hrun : d.machine.status = .running) {k : Nat}
    (huncut : ∀ i < k, ¬ d.CutAt i) : Follows (tick^[k] d.run) (d.course k) := by
  cases k with
  | zero => exact d.follows_run
  | succ k => exact (underWay_of_uncut hrun k fun i hi => huncut i (Nat.lt_succ_of_le hi)).next.1

/-- What has been printed along the course is what its steps print. -/
theorem values_course (hrun : d.machine.status = .running) (k : Nat) :
    (∀ i < k, ¬ d.CutAt i) →
      (d.course k).2.printed.values.toList =
        d.output.values.toList ++ (List.range k).flatMap fun i => printsAt (d.course i) := by
  induction k with
  | zero =>
      intro _
      exact (List.append_nil _).symm
  | succ k ih =>
      intro huncut
      have hrunk := (underWay_of_uncut hrun k fun i hi => huncut i (Nat.lt_succ_of_le hi)).runs
      rw [course_succ, values_advance hrunk, ih fun i hi => huncut i (Nat.lt_succ_of_lt hi),
        List.range_succ, List.flatMap_append, List.flatMap_singleton, List.append_assoc]

-- ==================================================== without breakpoints

/-- Ticks have come to an end with this machine and this printout, and stay
there. -/
def Settles (d : Debugger) (m : Machine) (printed : Printout) : Prop :=
  ∃ n, ∀ k ≥ n, (tick^[k] d).running = false ∧ (tick^[k] d).machine = m
    ∧ (tick^[k] d).output = printed

theorem settles_of_off {m : Machine} {printed : Printout} {n : Nat}
    (hoff : (tick^[n] d).running = false) (hmachine : (tick^[n] d).machine = m)
    (houtput : (tick^[n] d).output = printed) : d.Settles m printed := by
  refine ⟨n, fun k hk => ?_⟩
  obtain ⟨more, rfl⟩ := Nat.exists_eq_add_of_le hk
  rw [Nat.add_comm, Function.iterate_add_apply, iterate_tick_of_off hoff]
  exact ⟨hoff, hmachine, houtput⟩

theorem Settles.of_tick {m : Machine} {printed : Printout} (h : d.tick.Settles m printed) :
    d.Settles m printed := by
  obtain ⟨n, hn⟩ := h
  have hlast := hn n (Nat.le_refl n)
  rw [← Function.iterate_succ_apply] at hlast
  exact settles_of_off hlast.1 hlast.2.1 hlast.2.2

theorem settles_of_stopped (hon : d.running = true) (hfollows : Follows d s)
    (hstop : s.1.status ≠ .running) : d.Settles s.1 s.2.printed := by
  have htick := tick_of_stopped hon (by rw [hfollows.machine]; exact hstop)
  apply Settles.of_tick
  rw [htick]
  exact settles_of_off (n := 0) rfl hfollows.machine hfollows.output.symm

/-- Without breakpoints a tick whose instruction goes through lets execution
go on. -/
theorem tick_on_of_ok {i : Instruction} {m : Machine} {out : Printer}
    (hnone : d.breakpoints = []) (hon : d.running = true) (hfollows : Follows d s)
    (h : s.1.step s.2 = ⟨.ok i, m, out⟩) :
    Follows d.tick (m, out) ∧ d.tick.running = true := by
  have hrun : s.1.status = .running := (step_eq_ok_iff.1 h).1
  obtain ⟨hnext, hiff⟩ := tick_follows hfollows hon (by rw [hfollows.machine]; exact hrun)
  have hgo : ¬ s.1.Stuck s.2 := fun hstuck => hstuck i (congrArg Outcome.result h)
  rw [hnone] at hiff
  rw [advance, h] at hnext
  exact ⟨hnext, hiff.2 ⟨hgo, List.not_mem_nil⟩⟩

/-- A run that ends takes the ticks with it. -/
theorem settles_of_runWithin {fuel : Nat} {o : Outcome Unit} (hnone : d.breakpoints = [])
    (hon : d.running = true) (hfollows : Follows d s)
    (h : s.1.runWithin fuel s.2 = some o) : d.Settles o.machine o.out.printed := by
  induction fuel generalizing d s with
  | zero =>
      by_cases hrun : s.1.status = .running
      · rw [runWithin, if_pos hrun] at h
        cases h
      · rw [runWithin_stop s.2 hrun] at h
        cases h
        exact settles_of_stopped hon hfollows hrun
  | succ fuel ih =>
      by_cases hrun : s.1.status = .running
      · rcases hstep : s.1.step s.2 with ⟨fault | i, m, out⟩
        · rw [runWithin_fault hrun hstep] at h
          cases h
          obtain ⟨hnext, hiff⟩ := tick_follows hfollows hon (by rw [hfollows.machine]; exact hrun)
          rw [advance, hstep] at hnext
          have hoff : d.tick.running = false := by
            rw [← Bool.not_eq_true, hiff]
            exact fun hgo => hgo.1 (stuck_of_fault hstep)
          exact Settles.of_tick (settles_of_off (n := 0) hoff hnext.machine hnext.output.symm)
        · rw [runWithin_step hstep] at h
          obtain ⟨hnext, hon'⟩ := tick_on_of_ok hnone hon hfollows hstep
          exact (ih (d.breakpoints_tick.trans hnone) hon' hnext h).of_tick
      · rw [runWithin_stop s.2 hrun] at h
        cases h
        exact settles_of_stopped hon hfollows hrun

/-- Ticks that come to an end take the run with them. -/
theorem exists_runWithin_of_off {k : Nat} (hnone : d.breakpoints = []) (hon : d.running = true)
    (hfollows : Follows d s) (hoff : (tick^[k] d).running = false) :
    ∃ o, s.1.runWithin k s.2 = some o := by
  induction k generalizing d s with
  | zero => exact absurd (hoff.symm.trans hon) Bool.false_ne_true
  | succ k ih =>
      by_cases hrun : s.1.status = .running
      · rcases hstep : s.1.step s.2 with ⟨fault | i, m, out⟩
        · exact ⟨_, runWithin_fault hrun hstep⟩
        · rw [runWithin_step hstep]
          obtain ⟨hnext, hon'⟩ := tick_on_of_ok hnone hon hfollows hstep
          exact ih (d.breakpoints_tick.trans hnone) hon' hnext hoff
      · exact ⟨_, runWithin_stop s.2 hrun⟩

-- ========================================================== the theorem

/-- Ticks are steps, up to the first reason to end.

On a machine that runs, the ticks up to the first step with a reason to end
(`CutAt`) leave what as many steps leave, with just their values printed, and
execution is on before that step. Its tick turns execution off if the step
has faulted or a breakpoint stands where it leads; otherwise the machine has
halted, and the tick behind it turns execution off. All later ticks do
nothing.

So ticks behind the first leave an instruction at a breakpoint alone; the
first always makes progress, wherever it starts; and without breakpoints
ticks come to an end exactly if a run without a limit does, with the machine
and the printout of the run. -/
theorem ticks_are_steps_up_to_cut (d : Debugger) :
    (d.machine.status = .running →
      (∀ k, (∀ i < k, ¬ d.CutAt i) →
        (tick^[k] d.run).machine = (d.course k).1
        ∧ (tick^[k] d.run).output.values.toList =
            d.output.values.toList ++ (List.range k).flatMap fun i => printsAt (d.course i))
      ∧ (∀ k, (∀ i ≤ k, ¬ d.CutAt i) → (tick^[k] d.run).running = true)
      ∧ (∀ i, IsLeast {j | d.CutAt j} (i + 1) →
          let last := tick^[i + 1] d.run
          let ends := (d.course i).1.Stuck (d.course i).2
            ∨ (d.course (i + 1)).1.pc ∈ d.breakpoints
          (ends → last.running = false ∧ ∀ n, tick^[n] last = last)
          ∧ (¬ ends → last.running = true
              ∧ last.tick =
                  { last with running := false, notice := .finished last.machine.cycles }
              ∧ ∀ n, tick^[n] last.tick = last.tick))
      ∧ (d.run.tick.machine.cycles = d.machine.cycles + 1
          ∨ d.run.tick.machine.status = .failed))
    ∧ (∀ k, (tick^[k + 1] d.run).machine.pc ∈ d.breakpoints →
        ∀ n, (tick^[n] (tick^[k + 1] d.run)) = tick^[k + 1] d.run)
    ∧ (d.breakpoints = [] →
        (∀ fuel o, d.machine.runWithin fuel (.unlimited d.output) = some o →
          d.run.Settles o.machine o.out.printed)
        ∧ (∀ o, d.machine.run (.unlimited d.output) = some o →
            d.run.Settles o.machine o.out.printed)
        ∧ ∀ k, (tick^[k] d.run).running = false →
            ∃ o, d.machine.runWithin k (.unlimited d.output) = some o)
    ∧ (d.machine.status ≠ .running →
        d.run.tick = { d with running := false, notice := .finished d.machine.cycles }
        ∧ ∀ n, tick^[n] d.run.tick = d.run.tick) := by
  refine ⟨fun hrun => ⟨?_, ?_, ?_, ?_⟩, ?_, fun hnone => ⟨?_, ?_, ?_⟩, ?_⟩
  · intro k huncut
    have hfollows := follows_of_uncut hrun huncut
    rw [← hfollows.output]
    exact ⟨hfollows.machine, values_course hrun k huncut⟩
  · intro k huncut
    exact (underWay_of_uncut hrun k huncut).on
  · intro i hleast last ends
    have huncut : ∀ j ≤ i, ¬ d.CutAt j := by
      intro j hj hcut
      have := hleast.2 hcut
      omega
    obtain ⟨hfollows, hiff⟩ := (underWay_of_uncut hrun i huncut).next
    rw [← not_or] at hiff
    constructor
    · intro hends
      have hoff : last.running = false := by
        rw [← Bool.not_eq_true, hiff]
        exact not_not_intro hends
      exact ⟨hoff, iterate_tick_of_off hoff⟩
    · intro hgo
      have hon : last.running = true := hiff.2 hgo
      have hhalt : (d.course (i + 1)).1.status = .halted := by
        rcases hleast.1 with hstuck | hhalt | hpc
        · exact absurd (Or.inl hstuck) hgo
        · exact hhalt
        · exact absurd (Or.inr hpc) hgo
      have htick := tick_of_stopped hon (by
        rw [hfollows.machine, hhalt]
        exact Status.noConfusion)
      exact ⟨hon, htick, iterate_tick_of_off (by rw [htick])⟩
  · rcases hstep : d.machine.step (.unlimited d.output) with ⟨fault | i, m, out⟩
    · rw [tick_of_fault (d := d.run) rfl hrun hstep]
      have hfailed : m = { d.machine with status := .failed } := (step_fault hrun hstep).1
      exact Or.inr (congrArg Machine.status hfailed)
    · rw [tick_of_ok (d := d.run) rfl hstep]
      exact Or.inl (cycles_step hstep)
  · intro k hpc n
    refine iterate_tick_of_off ?_ n
    rw [← Bool.not_eq_true]
    intro hon
    rw [Function.iterate_succ_apply'] at hon hpc
    have hmem := pc_tick_not_mem hon
    rw [breakpoints_iterate_tick] at hmem
    exact hmem hpc
  · intro fuel o h
    exact settles_of_runWithin hnone rfl d.follows_run h
  · intro o h
    obtain ⟨o', h', rfl⟩ := Option.map_eq_some_iff.1 h
    exact settles_of_runWithin hnone rfl d.follows_run h'
  · intro k hoff
    exact exists_runWithin_of_off (d := d.run) hnone rfl d.follows_run hoff
  · intro hstop
    have htick : d.run.tick = { d with running := false, notice := .finished d.machine.cycles } :=
      tick_of_stopped rfl hstop
    exact ⟨htick, iterate_tick_of_off (by rw [htick])⟩

/-- A program that prints R0 and begins again, with a breakpoint where it
does. -/
def looping : Debugger where
  machine := { halting with mem := ⟨⟨Opcode.prn :: 0 :: Opcode.jmp :: 0 :: List.replicate 252 0⟩⟩ }
  program := [Opcode.prn, 0, Opcode.jmp, 0]
  breakpoints := [0]

theorem isLeast_cutAt_looping : IsLeast {j | looping.CutAt j} 2 := by
  have hone : ¬ looping.CutAt 1 := by
    rintro (hstuck | hhalt | hpc)
    · exact hstuck (.prn 0) (by decide +kernel)
    · exact absurd hhalt (by decide +kernel)
    · exact absurd hpc (by decide +kernel)
  refine ⟨Or.inr (Or.inr (by decide +kernel)), fun j hj => ?_⟩
  match j with
  | 0 => exact absurd hj id
  | 1 => exact absurd hj hone
  | j + 2 => omega

/-- From a breakpoint to itself it goes around once. A HLT without
breakpoints ends as its run does, and is found stopped when execution is
turned on again. -/
theorem looping_goes_around_once :
    let halted := { halting with status := .halted, cycles := 1, last := some .hlt }
    let once : Debugger := { machine := halting, program := [Opcode.hlt] }
    let done : Debugger := { once with machine := halted }
    (looping.machine.status = .running ∧ IsLeast {j | looping.CutAt j} 2
      ∧ (tick^[2] looping.run).output.values.toList = [0]
      ∧ (tick^[2] looping.run).running = false
      ∧ ∀ n, tick^[n] (tick^[2] looping.run) = tick^[2] looping.run)
    ∧ (once.breakpoints = [] ∧ once.run.Settles halted {})
    ∧ (done.machine.status ≠ .running
      ∧ done.run.tick = { done with running := false, notice := .finished 1 }) := by
  intro halted once done
  obtain ⟨hticks, -, hlast, -⟩ := (ticks_are_steps_up_to_cut looping).1 rfl
  obtain ⟨-, hprinted⟩ := hticks 2 fun i hi hcut => by
    have := isLeast_cutAt_looping.2 hcut
    omega
  obtain ⟨hoff, hstays⟩ := (hlast 1 isLeast_cutAt_looping).1 (Or.inr (by decide +kernel))
  have hhlt : halting.step (.unlimited {}) = ⟨.ok .hlt, halted, .unlimited {}⟩ :=
    step_eq_ok_iff.2 ⟨rfl, by decide +kernel, _, .hlt, rfl, rfl⟩
  have hrun : halting.runWithin 1 (.unlimited {}) = some ⟨.ok (), halted, .unlimited {}⟩ := by
    rw [runWithin_step hhlt, runWithin_stop _ (by decide)]
  have hsettles := ((ticks_are_steps_up_to_cut once).2.2.1 rfl).1 1 _ hrun
  have hstop : done.machine.status ≠ .running := by decide
  have hfound := ((ticks_are_steps_up_to_cut done).2.2.2 hstop).1
  refine ⟨⟨rfl, isLeast_cutAt_looping, ?_, hoff, hstays⟩, ⟨rfl, hsettles⟩, hstop, hfound⟩
  rw [hprinted]
  decide +kernel

end Debugger

end LS8
