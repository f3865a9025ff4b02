/-
Faults are atomic.

A step either goes through or leaves everything but the status as it was:
the registers, the flags, every cell, the counter, the last instruction and
the printout (`step_fault`, which holds because every instruction asks all
it has to ask before its first change). So what a run leaves when it faults
is what its last step that went through has left, with the status changed
(`Breakdown`).

# Which runs

Limited runs, runs without a limit, and these also with any other amount of
fuel: a run that takes more steps than its counter can count has no outcome
of its own, but breaks down no differently.
-/
import LS8.Proofs.Runs

namespace LS8.Machine

-- ========================================================== breakdowns

/-- `Breakdown m out fault o`: steps lead from `m` and `out` to a running
machine whose next step does not go through but comes to `fault`, and `o`
leaves this machine as it was but for the status, and nothing more
printed. -/
def Breakdown {α : Type} (m : Machine) (out : Printer) (fault : Fault) (o : Outcome α) : Prop :=
  ∃ trace m' out', Passage m out trace m' out' ∧ m'.status = .running
    ∧ (m'.step out').result = .error fault
    ∧ o.machine = { m' with status := .failed } ∧ o.out.printed = out'.printed

variable {α : Type} {m m' : Machine} {out out' : Printer} {fault : Fault}

/-- A fault at once. -/
theorem Breakdown.here {o : Outcome α} (hrun : m.status = .running)
    (h : m.step out = ⟨.error fault, o.machine, o.out⟩) : Breakdown m out fault o := by
  obtain ⟨hmachine, hprinted⟩ := step_fault hrun h
  exact ⟨[], m, out, .refl m out, hrun, congrArg Outcome.result h, hmachine, hprinted⟩

/-- A fault behind a passage. -/
theorem Breakdown.behind {o : Outcome α} {trace : List Event}
    (hpass : Passage m out trace m' out') (h : Breakdown m' out' fault o) :
    Breakdown m out fault o := by
  obtain ⟨rest, m₂, out₂, hrest, hfault⟩ := h
  exact ⟨trace ++ rest, m₂, out₂, hpass.append hrest, hfault⟩

/-- A run that ends with a fault has broken down. -/
theorem Ending.breakdown {attempts : Nat} {o : Outcome UInt64} (h : Ending m out attempts o)
    (herror : o.result = .error fault) : Breakdown m out fault o := by
  cases h with
  | stopped hpass hstop => cases herror
  | fault hpass hrun hstep =>
      cases herror
      exact .behind hpass (.here hrun hstep)

/-- So has one whose fuel lets it come to the fault. -/
theorem breakdown_of_runWithin {fuel : Nat} {o : Outcome Unit}
    (h : m.runWithin fuel out = some o) (herror : o.result = .error fault) :
    Breakdown m out fault o := by
  induction fuel generalizing m out with
  | zero =>
      unfold runWithin at h
      split at h
      · cases h
      · cases h
        cases herror
  | succ fuel ih =>
      by_cases hrun : m.status = .running
      · rcases hstep : m.step out with ⟨fault' | i, m', out'⟩
        · rw [runWithin_fault hrun hstep] at h
          cases h
          cases herror
          exact .here hrun hstep
        · rw [runWithin_step hstep] at h
          exact .behind (.single hstep) (ih h)
      · rw [runWithin_stop out hrun] at h
        cases h
        cases herror

-- ============================================================ atomicity

/-- Faults are atomic. A step of a running machine that does not go through
changes the status and nothing else, and nothing is printed; a machine that
has stopped refuses its steps and stays as it is. So whichever run comes to
a fault, it leaves what its last step that went through has left, with the
status changed. -/
theorem faults_are_atomic (m : Machine) (out : Printer) :
    (∀ fault, m.status = .running → (m.step out).result = .error fault →
      (m.step out).machine = { m with status := .failed }
        ∧ (m.step out).out.printed = out.printed)
    ∧ (m.status ≠ .running → m.step out = ⟨.error (.notRunning m.status), m, out⟩)
    ∧ (∀ max fault, (m.runLimited max out).result = .error fault →
        Breakdown m out fault (m.runLimited max out))
    ∧ (∀ o fault, m.run out = some o → o.result = .error fault → Breakdown m out fault o)
    ∧ ∀ fuel o fault, m.runWithin fuel out = some o → o.result = .error fault →
        Breakdown m out fault o := by
  refine ⟨?_, step_of_ne_running out, ?_, ?_, fun fuel o fault => breakdown_of_runWithin⟩
  · intro fault hrun herror
    rcases hstep : m.step out with ⟨fault' | i, m', out'⟩
    · exact step_fault hrun hstep
    · rw [hstep] at herror
      cases herror
  · intro max fault herror
    obtain ⟨attempts, hending⟩ := ending_of_runLimited_error herror
    exact hending.breakdown herror
  · intro o fault hrun herror
    obtain ⟨attempts, -, hending⟩ := ending_of_run hrun
    exact hending.breakdown herror

/-- A machine that stands in front of a PRN. -/
def printing : Machine where
  regs := Registers.fresh
  mem := ⟨⟨[Opcode.prn, 0] ++ List.replicate 254 0⟩⟩
  status := .running
  cycles := 0
  last := none

/-- A printer that refuses the value is not printed on, and the machine is
as it was. Halted, it refuses itself. -/
theorem printing_refused :
    let out := Printer.limited 0 "full"
    let halted := { printing with status := .halted }
    (printing.step out).machine = { printing with status := .failed }
    ∧ (printing.step out).out.printed = {}
    ∧ Breakdown printing out (.output "full") (printing.runLimited 1 out)
    ∧ (∃ o, printing.run out = some o ∧ Breakdown printing out (.output "full") o)
    ∧ halted.step out = ⟨.error (.notRunning .halted), halted, out⟩ := by
  intro out halted
  obtain ⟨hatomic, -, hlimited, hrun, -⟩ := faults_are_atomic printing out
  have hresult : (printing.step out).result = .error (.output "full") := by decide +kernel
  obtain ⟨hmachine, hprinted⟩ := hatomic _ rfl hresult
  have hending := Ending.fault (.refl printing out) rfl (Outcome.eq_of_result hresult)
  have hfault : (printing.runLimited 1 out).result = .error (.output "full") := by
    rw [hending.runLimited_eq (by decide)]
  refine ⟨hmachine, hprinted, hlimited 1 _ hfault, ?_, ?_⟩
  · exact ⟨_, hending.run_eq (by decide), hrun _ _ (hending.run_eq (by decide)) rfl⟩
  · exact (faults_are_atomic halted out).2.1 (by decide)

end LS8.Machine
