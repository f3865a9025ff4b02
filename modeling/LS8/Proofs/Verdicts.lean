/-
The three ways in which a run of at most so many instructions ends, each said
of the steps alone: a HLT is among them (`HaltsWithin`), all of them go
through and the machine still runs (`RunsFor`), or one of them faults
(`FaultsWithin`).

What a run comes to tells which of the three it was, and the other way round
(`haltsWithin_iff`, `runsFor_iff`, `faultsWithin_iff`): so the three exclude
each other, and there is no fourth. A HLT can only be the last instruction,
so the limit leaves it alone if it is the very last that is allowed.
-/
import LS8.Proofs.Printing
import LS8.Proofs.Faults

namespace LS8.Machine

variable {m m' : Machine} {out out' : Printer} {trace : List Event} {max : UInt64}

-- ============================================================ statements

/-- A HLT is executed within the first `n` instructions. -/
def HaltsWithin (n : Nat) (m : Machine) (out : Printer) : Prop :=
  ∃ trace m' out', Passage m out trace m' out' ∧ trace.length ≤ n
    ∧ ∃ e ∈ trace, e.instruction = .hlt

/-- The first `n` instructions go through, and the machine still runs. -/
def RunsFor (n : Nat) (m : Machine) (out : Printer) : Prop :=
  ∃ trace m' out', Passage m out trace m' out' ∧ trace.length = n ∧ m'.status = .running

/-- Within the first `n` instructions one faults. -/
def FaultsWithin (n : Nat) (m : Machine) (out : Printer) (fault : Fault) : Prop :=
  ∃ trace m' out', Passage m out trace m' out' ∧ trace.length < n ∧ m'.status = .running
    ∧ (m'.step out').result = .error fault

-- ================================================== what a passage leaves

/-- A machine that sets out running has halted exactly behind a HLT. -/
theorem Passage.status_cases (h : Passage m out trace m' out') (hrun : m.status = .running) :
    (m'.status = .running ∧ ∀ e ∈ trace, e.instruction ≠ .hlt)
    ∨ (m'.status = .halted ∧ ∃ e ∈ trace, e.instruction = .hlt) := by
  induction h with
  | refl m out => exact Or.inl ⟨hrun, fun e he => by cases he⟩
  | @head m m₁ m₂ out out₁ out₂ i trace hstep hrest ih =>
      have hstatus := status_step hstep
      by_cases hi : i = .hlt
      · rw [if_pos hi] at hstatus
        have hstop : m₁.Stuck out₁ := stuck_of_ne_running (by rw [hstatus]; exact nofun)
        have hnil := hrest.eq_nil_of_stuck hstop
        subst hnil
        cases hrest
        exact Or.inr ⟨hstatus, ⟨m, i⟩, List.mem_cons_self, hi⟩
      · rw [if_neg hi] at hstatus
        rcases ih hstatus with ⟨hruns, hnone⟩ | ⟨hhalted, e, he, hhlt⟩
        · refine Or.inl ⟨hruns, fun e he => ?_⟩
          rcases List.mem_cons.1 he with rfl | he
          · exact hi
          · exact hnone e he
        · exact Or.inr ⟨hhalted, e, List.mem_cons_of_mem _ he, hhlt⟩

/-- A printer that takes everything goes on taking everything. -/
theorem Passage.takesAll (h : Passage m out trace m' out') (htakes : out.TakesAll) :
    out'.TakesAll := by
  have htakes' := takesAll_iterate_advance m htakes trace.length
  rw [h.iterate_advance] at htakes'
  exact htakes'

-- =============================================================== verdicts

/-- A run comes to a machine that has halted exactly if a HLT is among what
it may execute. -/
theorem haltsWithin_iff (hrun : m.status = .running) :
    HaltsWithin (m.allowance max) m out ↔
      (∃ n, (m.runLimited max out).result = .ok n)
        ∧ (m.runLimited max out).machine.status = .halted := by
  constructor
  · rintro ⟨trace, m', out', hpass, hle, e, he, hhlt⟩
    rcases hpass.status_cases hrun with ⟨-, hnone⟩ | ⟨hhalted, -⟩
    · exact absurd hhlt (hnone e he)
    · rw [hpass.runLimited_eq hle (Or.inl (by rw [hhalted]; exact nofun))]
      exact ⟨⟨_, rfl⟩, hhalted⟩
  · rintro ⟨⟨n, hok⟩, hhalted⟩
    obtain ⟨trace, m', out', hpass, hle, ⟨-, heq⟩ | ⟨fault, m'', out'', -, -, -, heq⟩⟩ :=
      runLimited_cases m max out
    · rw [heq] at hhalted
      rcases hpass.status_cases hrun with ⟨hruns, -⟩ | ⟨-, hhlt⟩
      · cases hruns.symm.trans hhalted
      · exact ⟨trace, m', out', hpass, hle, hhlt⟩
    · rw [heq] at hok
      cases hok

/-- It comes to a machine that still runs exactly if all that it may execute
goes through. -/
theorem runsFor_iff :
    RunsFor (m.allowance max) m out ↔
      (∃ n, (m.runLimited max out).result = .ok n)
        ∧ (m.runLimited max out).machine.status = .running := by
  constructor
  · rintro ⟨trace, m', out', hpass, hlen, hruns⟩
    rw [hpass.runLimited_eq (Nat.le_of_eq hlen) (Or.inr hlen)]
    exact ⟨⟨_, rfl⟩, hruns⟩
  · rintro ⟨⟨n, hok⟩, hruns⟩
    obtain ⟨trace, m', out', hpass, hle, ⟨hend, heq⟩ | ⟨fault, m'', out'', -, -, -, heq⟩⟩ :=
      runLimited_cases m max out
    · rw [heq] at hruns
      exact ⟨trace, m', out', hpass, hend.resolve_left (not_not_intro hruns), hruns⟩
    · rw [heq] at hok
      cases hok

/-- And it comes to a fault exactly if something that it may execute faults
so. -/
theorem faultsWithin_iff {fault : Fault} :
    FaultsWithin (m.allowance max) m out fault ↔
      (m.runLimited max out).result = .error fault := by
  constructor
  · rintro ⟨trace, m', out', hpass, hlt, hruns, hfault⟩
    rw [hpass.runLimited_fault hlt hruns (Outcome.eq_of_result hfault)]
  · intro herror
    obtain ⟨trace, m', out', hpass, hle, ⟨-, heq⟩ | ⟨fault', m'', out'', hruns, hlt, hstep, heq⟩⟩ :=
      runLimited_cases m max out
    · rw [heq] at herror
      cases herror
    · rw [heq] at herror
      cases herror
      exact ⟨trace, m', out', hpass, hlt, hruns, congrArg Outcome.result hstep⟩

-- ========================================================= what is left

/-- A run leaves what its passage has come to, failed if the next step
faults, and has printed what the passage has printed. -/
theorem exists_passage_of_run (m : Machine) (max : UInt64) (out : Printer) :
    ∃ trace m' out', Passage m out trace m' out'
      ∧ (trace.length = m.allowance max ∨ trace.length < m.allowance max ∧ m'.Stuck out')
      ∧ (m.runLimited max out).out.printed = out'.printed
      ∧ match (m.runLimited max out).result with
        | .ok _ => (m.runLimited max out).machine = m'
        | .error _ => (m.runLimited max out).machine = { m' with status := .failed } := by
  obtain ⟨trace, m', out', hpass, hle, ⟨hend, heq⟩ | ⟨fault, m'', out'', hruns, hlt, hstep, heq⟩⟩ :=
    runLimited_cases m max out
  · rw [heq]
    refine ⟨trace, m', out', hpass, ?_, rfl, rfl⟩
    rcases Nat.eq_or_lt_of_le hle with hall | hlt
    · exact Or.inl hall
    · exact Or.inr ⟨hlt, stuck_of_ne_running (hend.resolve_right (Nat.ne_of_lt hlt))⟩
  · obtain ⟨hmachine, hprinted⟩ := step_fault hruns hstep
    rw [heq]
    exact ⟨trace, m', out', hpass, Or.inr ⟨hlt, stuck_of_fault hstep⟩, hprinted, hmachine⟩

/-- A run leaves a memory with every cell. -/
theorem full_runLimited (max : UInt64) (out : Printer) (hfull : m.mem.Full) :
    (m.runLimited max out).machine.mem.Full := by
  obtain ⟨trace, m', out', hpass, -, -, hleft⟩ := exists_passage_of_run m max out
  cases hresult : (m.runLimited max out).result with
  | ok n =>
      rw [hresult] at hleft
      exact hleft ▸ hpass.full hfull
  | error fault =>
      rw [hresult] at hleft
      exact hleft ▸ hpass.full hfull

end LS8.Machine
