/-
What runs print, and runs with different printers.

A step prints the register that a PRN names and nothing else, so what a
passage prints can be read off its trace (`Passage.values_printed`).

# Step calls

A step may also be called where it does not go through. `advance` is what
such a call leaves, so its iterates are calls that take no notice of faults.
A passage is so many of them, and so is a limited run, which calls once more
where it faults (`exists_iterate_runLimited`).

# Printers that take everything

Such a printer has no say in a run. Two of them that have printed the same
are alike, and a step that is given the one comes to the same as a step that
is given the other, whatever each was offered before (`step_alike`). So a
run may be given a new printer between any two of its steps. A session does
this at every run, and the debugger at every step.
-/
import LS8.Proofs.Runs

namespace LS8

-- ============================================================= printers

namespace Printer

/-- The printer refuses nothing. -/
def TakesAll (out : Printer) : Prop :=
  ∀ offered value, out.refusal offered value = none

theorem takesAll_unlimited (printed : Printout) : (unlimited printed).TakesAll :=
  fun _ _ => rfl

theorem TakesAll.offer_eq {out : Printer} (h : out.TakesAll) (value : UInt8) :
    out.offer value =
      (.ok (), { out with printed := out.printed.add value, offered := value :: out.offered }) := by
  simp only [offer, h out.offered value]

/-- A printer that takes an offer prints it, whatever its rule is. -/
theorem printed_of_receive {out out' : Printer} {value : Option UInt8}
    (h : out.receive value = (.ok (), out')) :
    out'.printed.values.toList = out.printed.values.toList ++ value.toList := by
  cases value with
  | none =>
      cases h
      exact (List.append_nil _).symm
  | some value =>
      rw [printed_of_offer h, Printout.values_add]
      rfl

/-- Both printers take everything, and they have printed the same. -/
structure Alike (out₁ out₂ : Printer) : Prop where
  left : out₁.TakesAll
  right : out₂.TakesAll
  printed : out₁.printed = out₂.printed

/-- A new printer that takes everything goes on where another one stands. -/
theorem TakesAll.alike_unlimited {out : Printer} (h : out.TakesAll) :
    Alike out (unlimited out.printed) :=
  ⟨h, takesAll_unlimited _, rfl⟩

/-- Printers that are alike take every offer and stay alike. -/
theorem Alike.receive {out₁ out₂ : Printer} (h : Alike out₁ out₂) (value : Option UInt8) :
    ∃ out₁' out₂', out₁.receive value = (.ok (), out₁') ∧ out₂.receive value = (.ok (), out₂')
      ∧ Alike out₁' out₂' := by
  cases value with
  | none => exact ⟨out₁, out₂, rfl, rfl, h⟩
  | some value =>
      refine ⟨_, _, h.left.offer_eq value, h.right.offer_eq value, h.left, h.right, ?_⟩
      exact congrArg (·.add value) h.printed

end Printer

/-- Two outcomes that differ in their printers at most, and these are
alike. -/
structure Outcome.Alike {α : Type} (o₁ o₂ : Outcome α) : Prop where
  result : o₁.result = o₂.result
  machine : o₁.machine = o₂.machine
  out : Printer.Alike o₁.out o₂.out

namespace Machine

variable {m m' : Machine} {out out' out₁ out₂ : Printer}

-- ======================================================= what is printed

/-- The value that an instruction prints, if it prints. -/
def Event.printed (e : Event) : Option UInt8 :=
  match e.instruction with
  | .prn r => some (e.before.regs.get r)
  | _ => none

/-- The values that a passage with this trace prints. -/
def printedBy (trace : List Event) : List UInt8 :=
  trace.filterMap Event.printed

theorem Executes.prints_eq {i : Instruction} {e : Effect} (h : m.Executes i e) :
    e.prints = Event.printed ⟨m, i⟩ := by
  cases h <;> rfl

/-- A step prints what its instruction prints. -/
theorem values_step {i : Instruction} (h : m.step out = ⟨.ok i, m', out'⟩) :
    out'.printed.values.toList
      = out.printed.values.toList ++ (Event.printed ⟨m, i⟩).toList := by
  obtain ⟨-, -, e, hexec, hreceive, -⟩ := step_eq_ok_iff.1 h
  rw [Printer.printed_of_receive hreceive, hexec.prints_eq]

/-- A passage prints what its instructions print, in order. -/
theorem Passage.values_printed {trace : List Event} (h : Passage m out trace m' out') :
    out'.printed.values.toList = out.printed.values.toList ++ printedBy trace := by
  induction h with
  | refl m out => exact (List.append_nil _).symm
  | @head m m₁ m₂ out out₁ out₂ i trace hstep hrest ih =>
      rw [ih, values_step hstep, List.append_assoc]
      congr 1
      unfold printedBy
      rw [List.filterMap_cons]
      cases Event.printed ⟨m, i⟩ <;> rfl

-- ============================================================ step calls

/-- What a step leaves, whether or not it goes through. -/
def advance (s : Machine × Printer) : Machine × Printer :=
  ((s.1.step s.2).machine, (s.1.step s.2).out)

theorem advance_of_step {result : Except Fault Instruction}
    (h : m.step out = ⟨result, m', out'⟩) : advance (m, out) = (m', out') := by
  unfold advance
  rw [h]

/-- A passage is as many calls as it has steps. -/
theorem Passage.iterate_advance {trace : List Event} (h : Passage m out trace m' out') :
    advance^[trace.length] (m, out) = (m', out') := by
  induction h with
  | refl m out => rfl
  | head hstep _ ih =>
      rw [List.length_cons, Function.iterate_succ_apply, advance_of_step hstep, ih]

/-- A run up to a limit is as many calls as the limit allows at most. -/
theorem exists_iterate_runLimited (m : Machine) (max : UInt64) (out : Printer) :
    ∃ k ≤ max.toNat, advance^[k] (m, out)
      = ((m.runLimited max out).machine, (m.runLimited max out).out) := by
  have hallowance : m.allowance max ≤ max.toNat := Nat.min_le_left _ _
  obtain ⟨trace, m', out', hpass, hle, ⟨-, heq⟩ | ⟨fault, m'', out'', -, hlt, hstep, heq⟩⟩ :=
    runLimited_cases m max out
  · refine ⟨trace.length, Nat.le_trans hle hallowance, ?_⟩
    rw [heq, hpass.iterate_advance]
  · refine ⟨trace.length + 1, Nat.le_trans hlt hallowance, ?_⟩
    rw [heq, Function.iterate_succ_apply', hpass.iterate_advance, advance_of_step hstep]

/-- A full memory stays full, whether or not steps go through. -/
theorem full_iterate_advance (m : Machine) (out : Printer) (hfull : m.mem.Full) (k : Nat) :
    (advance^[k] (m, out)).1.mem.Full := by
  induction k generalizing m out with
  | zero => exact hfull
  | succ k ih =>
      rw [Function.iterate_succ_apply]
      rcases hstep : m.step out with ⟨fault | i, m₁, out₁⟩
      · rw [advance_of_step hstep]
        by_cases hrun : m.status = .running
        · rw [(step_fault hrun hstep).1]
          exact ih m.fail out₁ hfull
        · rw [step_of_ne_running out hrun] at hstep
          cases hstep
          exact ih m out hfull
      · rw [advance_of_step hstep]
        exact ih m₁ out₁ (full_step hstep hfull)

/-- The values that the step from here prints. A step that faults prints
none. -/
def printsAt (s : Machine × Printer) : List UInt8 :=
  match (s.1.step s.2).result with
  | .ok i => (Event.printed ⟨s.1, i⟩).toList
  | .error _ => []

theorem values_advance {s : Machine × Printer} (hrun : s.1.status = .running) :
    (advance s).2.printed.values.toList = s.2.printed.values.toList ++ printsAt s := by
  unfold advance printsAt
  rcases hstep : s.1.step s.2 with ⟨fault | i, m, out⟩
  · show out.printed.values.toList = s.2.printed.values.toList ++ []
    rw [(step_fault hrun hstep).2, List.append_nil]
  · exact values_step hstep

/-- A call on a machine that has stopped leaves everything as it is. -/
theorem advance_of_ne_running {s : Machine × Printer} (h : s.1.status ≠ .running) :
    advance s = s := by
  rw [advance, step_of_ne_running s.2 h]

/-- Calls print what the steps print that they make. -/
theorem values_iterate_advance (s : Machine × Printer) (k : Nat) :
    (advance^[k] s).2.printed.values.toList =
      s.2.printed.values.toList ++ (List.range k).flatMap fun i => printsAt (advance^[i] s) := by
  induction k with
  | zero => exact (List.append_nil _).symm
  | succ k ih =>
      have hlast : (advance (advance^[k] s)).2.printed.values.toList =
          (advance^[k] s).2.printed.values.toList ++ printsAt (advance^[k] s) := by
        by_cases hrun : (advance^[k] s).1.status = .running
        · exact values_advance hrun
        · rw [advance_of_ne_running hrun, printsAt, step_of_ne_running _ hrun, List.append_nil]
      rw [Function.iterate_succ_apply', hlast, ih, List.range_succ, List.flatMap_append,
        List.flatMap_singleton, List.append_assoc]

/-- A step that goes through leaves a running machine, or a halted one. -/
theorem status_advance {s : Machine × Printer} (hgo : ¬ s.1.Stuck s.2)
    (hhalt : (advance s).1.status ≠ .halted) : (advance s).1.status = .running := by
  obtain ⟨i, m, out, hstep⟩ := exists_step_of_not_stuck hgo
  unfold advance at hhalt ⊢
  rw [hstep] at hhalt ⊢
  have hstatus : m.status = if i = .hlt then .halted else .running := status_step hstep
  by_cases hi : i = .hlt
  · rw [if_pos hi] at hstatus
    exact absurd hstatus hhalt
  · rw [if_neg hi] at hstatus
    exact hstatus

-- ================================================== printers have no say

/-- A step comes to the same with printers that are alike. -/
theorem step_alike (m : Machine) (h : Printer.Alike out₁ out₂) :
    (m.step out₁).Alike (m.step out₂) := by
  rw [step_eq, step_eq]
  split
  · cases m.attempt with
    | error fault => exact ⟨rfl, rfl, h⟩
    | ok attempted =>
        obtain ⟨i, e⟩ := attempted
        obtain ⟨out₁', out₂', h₁, h₂, halike⟩ := h.receive e.prints
        simp only [h₁, h₂]
        exact ⟨rfl, rfl, halike⟩
  · exact ⟨rfl, rfl, h⟩

/-- So does a run up to a limit. -/
theorem runUntil_alike {limit : UInt64} (h : Printer.Alike out₁ out₂) :
    (runUntil limit m out₁).Alike (runUntil limit m out₂) := by
  fun_induction runUntil limit m out₁ generalizing out₂ with
  | case1 m out₁ hgo i m' out₁' hstep _ ih =>
      have halike := m.step_alike h
      rw [hstep] at halike
      rw [runUntil_step hgo.2 (Outcome.eq_of_result halike.result.symm), ← halike.machine]
      exact ih halike.out
  | case2 m out₁ hgo fault m' out₁' hstep =>
      have halike := m.step_alike h
      rw [hstep] at halike
      rw [runUntil_fault hgo.1 hgo.2 (Outcome.eq_of_result halike.result.symm)]
      exact ⟨rfl, halike.machine, halike.out⟩
  | case3 m out₁ hstop =>
      rw [runUntil, dif_neg hstop]
      exact ⟨rfl, rfl, h⟩

/-- And so does a limited run, which counts the same. -/
theorem runLimited_alike {max : UInt64} (h : Printer.Alike out₁ out₂) :
    (m.runLimited max out₁).Alike (m.runLimited max out₂) := by
  have halike : (runUntil (m.runLimit max) m out₁).Alike (runUntil (m.runLimit max) m out₂) :=
    runUntil_alike h
  refine ⟨?_, halike.machine, halike.out⟩
  simp only [runLimited, Outcome.counted, halike.result, halike.machine]

/-- And so do any number of step calls. -/
theorem iterate_advance_alike (m : Machine) (h : Printer.Alike out₁ out₂) (k : Nat) :
    (advance^[k] (m, out₁)).1 = (advance^[k] (m, out₂)).1
      ∧ Printer.Alike (advance^[k] (m, out₁)).2 (advance^[k] (m, out₂)).2 := by
  induction k with
  | zero => exact ⟨rfl, h⟩
  | succ k ih =>
      obtain ⟨hmachine, hout⟩ := ih
      have halike := (advance^[k] (m, out₁)).1.step_alike hout
      rw [Function.iterate_succ_apply', Function.iterate_succ_apply', advance, advance,
        ← hmachine]
      exact ⟨halike.machine, halike.out⟩

/-- A printer that takes everything is left as one. -/
theorem takesAll_iterate_advance (m : Machine) (h : out.TakesAll) (k : Nat) :
    (advance^[k] (m, out)).2.TakesAll :=
  (iterate_advance_alike m ⟨h, h, rfl⟩ k).2.left

theorem takesAll_runLimited (m : Machine) (max : UInt64) (h : out.TakesAll) :
    (m.runLimited max out).out.TakesAll := by
  have halike : (m.runLimited max out).Alike (m.runLimited max out) := runLimited_alike ⟨h, h, rfl⟩
  exact halike.out.left

end Machine

end LS8
