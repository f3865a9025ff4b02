/-
Passages: stretches of steps that all go through.

A machine and a printer decide every step, so two passages that set out
from the same place take the same way: the shorter is the beginning of the
longer (`Passage.continues`). How many steps go through before one does not
is therefore a number of the starting place alone, its `lifespan`, which is
infinite for a machine that runs forever.

A run that nothing cuts short goes through as many steps as go through and
ends one attempt later or with a machine that has stopped. `Ending` states
this once, for runs with and without a limit.
-/
import Mathlib.Data.ENat.Lattice
import Mathlib.Order.CompletePartialOrder
import LS8.Machine.Run

namespace LS8.Machine

-- ==================================================== where steps end

/-- No step goes through. -/
def Stuck (m : Machine) (out : Printer) : Prop :=
  ∀ i, (m.step out).result ≠ .ok i

theorem stuck_of_ne_running {m : Machine} {out : Printer} (h : m.status ≠ .running) :
    m.Stuck out := by
  intro i
  rw [step_of_ne_running out h]
  intro hok
  cases hok

theorem stuck_of_fault {m m' : Machine} {out out' : Printer} {fault : Fault}
    (h : m.step out = ⟨.error fault, m', out'⟩) : m.Stuck out := by
  intro i
  rw [h]
  intro hok
  cases hok

/-- A running machine that is stuck is about to fault. -/
theorem Stuck.exists_fault {m : Machine} {out : Printer} (h : m.Stuck out) :
    ∃ fault m' out', m.step out = ⟨.error fault, m', out'⟩ := by
  rcases hstep : m.step out with ⟨fault | i, m', out'⟩
  · exact ⟨fault, m', out', rfl⟩
  · exact absurd (congrArg Outcome.result hstep) (h i)

/-- A machine that is not stuck takes a step. -/
theorem exists_step_of_not_stuck {m : Machine} {out : Printer} (h : ¬ m.Stuck out) :
    ∃ i m' out', m.step out = ⟨.ok i, m', out'⟩ := by
  rcases hstep : m.step out with ⟨fault | i, m', out'⟩
  · exact absurd (stuck_of_fault hstep) h
  · exact ⟨i, m', out', rfl⟩

-- ============================================================= passages

/-- An instruction that has gone through, and the machine that it found. -/
structure Event where
  before : Machine
  instruction : Instruction

/-- `Passage m out trace m' out'`: steps that all go through lead from `m`
and `out` to `m'` and `out'`, and `trace` lists them in order. -/
inductive Passage : Machine → Printer → List Event → Machine → Printer → Prop where
  | refl (m : Machine) (out : Printer) : Passage m out [] m out
  | head {m m₁ m₂ : Machine} {out out₁ out₂ : Printer} {i : Instruction} {trace : List Event}
      (step : m.step out = ⟨.ok i, m₁, out₁⟩) (rest : Passage m₁ out₁ trace m₂ out₂) :
      Passage m out (⟨m, i⟩ :: trace) m₂ out₂

namespace Passage

variable {m m₁ m₂ : Machine} {out out₁ out₂ : Printer}

/-- One step that goes through. -/
theorem single {i : Instruction} (h : m.step out = ⟨.ok i, m₁, out₁⟩) :
    Passage m out [⟨m, i⟩] m₁ out₁ :=
  .head h (.refl m₁ out₁)

theorem append {first second : List Event} (h₁ : Passage m out first m₁ out₁)
    (h₂ : Passage m₁ out₁ second m₂ out₂) : Passage m out (first ++ second) m₂ out₂ := by
  induction h₁ with
  | refl m out => exact h₂
  | head hstep _ ih => exact .head hstep (ih h₂)

/-- A passage may be cut where its trace is. -/
theorem exists_of_append {first second : List Event} :
    ∀ {m : Machine} {out : Printer}, Passage m out (first ++ second) m₂ out₂ →
      ∃ m₁ out₁, Passage m out first m₁ out₁ ∧ Passage m₁ out₁ second m₂ out₂ := by
  induction first with
  | nil =>
      intro m out h
      exact ⟨m, out, .refl m out, h⟩
  | cons e first ih =>
      intro m out h
      cases h with
      | head hstep hrest =>
          obtain ⟨m₁, out₁, hfirst, hsecond⟩ := ih hrest
          exact ⟨m₁, out₁, .head hstep hfirst, hsecond⟩

/-- Of two passages from the same place the shorter is the beginning of the
longer. -/
theorem continues {first whole : List Event} (h₁ : Passage m out first m₁ out₁) :
    Passage m out whole m₂ out₂ → first.length ≤ whole.length →
      ∃ rest, whole = first ++ rest ∧ Passage m₁ out₁ rest m₂ out₂ := by
  induction h₁ generalizing whole with
  | refl m out =>
      intro h₂ _
      exact ⟨whole, rfl, h₂⟩
  | head hstep _ ih =>
      intro h₂ hlen
      cases h₂ with
      | refl => simp at hlen
      | head hstep' hrest' =>
          rw [hstep] at hstep'
          cases hstep'
          obtain ⟨rest, rfl, hrest⟩ := ih hrest' (by simpa using hlen)
          exact ⟨rest, rfl, hrest⟩

/-- From where no step goes through, no passage leads on. -/
theorem eq_nil_of_stuck {trace : List Event} (h : Passage m out trace m₁ out₁)
    (hstuck : m.Stuck out) : trace = [] := by
  cases h with
  | refl => rfl
  | head hstep _ => exact absurd (congrArg Outcome.result hstep) (hstuck _)

/-- Where a longer passage leads past, a step goes through. -/
theorem not_stuck_of_length_lt {first whole : List Event} (h₁ : Passage m out first m₁ out₁)
    (h₂ : Passage m out whole m₂ out₂) (hlt : first.length < whole.length) :
    ¬ m₁.Stuck out₁ := by
  intro hstuck
  obtain ⟨rest, rfl, hrest⟩ := h₁.continues h₂ (Nat.le_of_lt hlt)
  rw [hrest.eq_nil_of_stuck hstuck] at hlt
  simp at hlt

/-- Passages from the same place to where no step goes through are one. -/
theorem eq_of_stuck {first second : List Event} (h₁ : Passage m out first m₁ out₁)
    (h₂ : Passage m out second m₂ out₂) (hstuck₁ : m₁.Stuck out₁) (hstuck₂ : m₂.Stuck out₂) :
    first = second := by
  have hlen : first.length = second.length := by
    refine Nat.le_antisymm (Nat.not_lt.1 fun hlt => ?_) (Nat.not_lt.1 fun hlt => ?_)
    · exact h₂.not_stuck_of_length_lt h₁ hlt hstuck₂
    · exact h₁.not_stuck_of_length_lt h₂ hlt hstuck₁
  obtain ⟨rest, rfl, hrest⟩ := h₁.continues h₂ (Nat.le_of_eq hlen)
  rw [hrest.eq_nil_of_stuck hstuck₁, List.append_nil]

/-- The counter goes up by the number of steps, in 64-bit words. -/
theorem cycles_eq {trace : List Event} (h : Passage m out trace m₁ out₁) :
    m₁.cycles = m.cycles + UInt64.ofNat trace.length := by
  induction h with
  | refl m out => simp
  | head hstep _ ih =>
      rw [ih, cycles_step hstep, List.length_cons, UInt64.add_assoc, UInt64.ofNat_add,
        UInt64.add_comm 1]
      rfl

/-- A full memory stays full. -/
theorem full {trace : List Event} (h : Passage m out trace m₁ out₁) (hfull : m.mem.Full) :
    m₁.mem.Full := by
  induction h with
  | refl m out => exact hfull
  | head hstep _ ih => exact ih (full_step hstep hfull)

/-- As long as the counter has room for all steps, it does not wrap. -/
theorem toNat_cycles {trace : List Event} (h : Passage m out trace m₁ out₁)
    (hroom : m.cycles.toNat + trace.length < UInt64.size) :
    m₁.cycles.toNat = m.cycles.toNat + trace.length := by
  rw [h.cycles_eq, UInt64.toNat_add, UInt64.toNat_ofNat_of_lt' (by omega)]
  exact Nat.mod_eq_of_lt hroom

end Passage

/-- From every place as many steps go through as wanted, or as many as there
are until one does not. -/
theorem exists_passage (n : Nat) :
    ∀ (m : Machine) (out : Printer), ∃ trace m' out', Passage m out trace m' out'
      ∧ trace.length ≤ n ∧ (trace.length = n ∨ m'.Stuck out') := by
  induction n with
  | zero =>
      intro m out
      exact ⟨[], m, out, .refl m out, Nat.le_refl 0, Or.inl rfl⟩
  | succ n ih =>
      intro m out
      by_cases hstuck : m.Stuck out
      · exact ⟨[], m, out, .refl m out, Nat.zero_le _, Or.inr hstuck⟩
      · obtain ⟨i, m₁, out₁, hstep⟩ := exists_step_of_not_stuck hstuck
        obtain ⟨trace, m', out', hpass, hle, hend⟩ := ih m₁ out₁
        refine ⟨⟨m, i⟩ :: trace, m', out', .head hstep hpass, ?_, ?_⟩
        · simpa using hle
        · simpa using hend

-- ============================================================= lifespans

/-- How many steps go through before one does not; infinite if they all
do. -/
noncomputable def lifespan (m : Machine) (out : Printer) : ℕ∞ :=
  sSup {n | ∃ trace m' out', Passage m out trace m' out' ∧ n = trace.length}

section

variable {m m' : Machine} {out out' : Printer} {trace : List Event}

theorem Passage.length_le_lifespan (h : Passage m out trace m' out') :
    trace.length ≤ m.lifespan out :=
  le_sSup ⟨trace, m', out', h, rfl⟩

/-- A passage to where no step goes through has the length of the
lifespan. -/
theorem Passage.lifespan_eq (h : Passage m out trace m' out')
    (hstuck : m'.Stuck out') : m.lifespan out = trace.length := by
  refine le_antisymm (sSup_le ?_) h.length_le_lifespan
  rintro _ ⟨whole, m₂, out₂, hwhole, rfl⟩
  by_contra hlt
  have hlt' : trace.length < whole.length := by simpa using hlt
  exact h.not_stuck_of_length_lt hwhole hlt' hstuck

end

-- =============================================================== endings

/-- How a run that nothing cuts short ends, with the number of steps that it
attempts: the machine has stopped, or a step does not go through. -/
inductive Ending (m : Machine) (out : Printer) : Nat → Outcome UInt64 → Prop where
  | stopped {trace : List Event} {m' : Machine} {out' : Printer}
      (passage : Passage m out trace m' out') (stopped : m'.status ≠ .running) :
      Ending m out trace.length ⟨.ok (UInt64.ofNat trace.length), m', out'⟩
  | fault {trace : List Event} {m' m'' : Machine} {out' out'' : Printer} {fault : Fault}
      (passage : Passage m out trace m' out') (running : m'.status = .running)
      (step : m'.step out' = ⟨.error fault, m'', out''⟩) :
      Ending m out (trace.length + 1) ⟨.error fault, m'', out''⟩

end LS8.Machine
