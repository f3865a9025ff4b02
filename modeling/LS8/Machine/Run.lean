/-
Runs: steps repeated until the machine stops, until its counter reaches a
limit, or until a step does not go through.

A limited run ends because every step that goes through brings the counter
one closer to the limit (`cycles_step`), and the limit saturates at the
largest counter value, so the counter never wraps. An unlimited run need not
end. It is given more steps than its counter can count, and has no outcome
if these do not suffice.
-/
import LS8.Machine.Rules
import LS8.Machine.Trace

namespace LS8.Machine

-- ========================================================= limited runs

/-- The counter value at which a run of `max` instructions stops: the
largest one if the sum is larger still. -/
def runLimit (m : Machine) (max : UInt64) : UInt64 :=
  UInt64.ofNat (min (m.cycles.toNat + max.toNat) (UInt64.size - 1))

/-- A step that goes through below the limit comes closer to it. -/
theorem limit_sub_cycles_step {m m' : Machine} {out out' : Printer} {i : Instruction}
    {limit : UInt64} (hlt : m.cycles < limit) (h : m.step out = ⟨.ok i, m', out'⟩) :
    limit.toNat - m'.cycles.toNat < limit.toNat - m.cycles.toNat := by
  have hc : m'.cycles = m.cycles + 1 := cycles_step h
  have := limit.toNat_lt
  have := UInt64.lt_iff_toNat_lt.1 hlt
  have : (m.cycles + 1).toNat = m.cycles.toNat + 1 := by
    rw [UInt64.toNat_add]
    simp only [UInt64.reduceToNat]
    omega
  rw [hc]
  omega

/-- Steps while the machine runs and its counter is below `limit`. -/
def runUntil (limit : UInt64) (m : Machine) (out : Printer) : Outcome Unit :=
  if hgo : m.status = .running ∧ m.cycles < limit then
    match h : m.step out with
    | ⟨.ok _, m', out'⟩ =>
        have := limit_sub_cycles_step hgo.2 h
        runUntil limit m' out'
    | ⟨.error fault, m', out'⟩ => ⟨.error fault, m', out'⟩
  else
    ⟨.ok (), m, out⟩
termination_by limit.toNat - m.cycles.toNat

/-- A step that goes through below the limit leaves the run to go on. -/
theorem runUntil_step {limit : UInt64} {m m' : Machine} {out out' : Printer} {i : Instruction}
    (hlt : m.cycles < limit) (h : m.step out = ⟨.ok i, m', out'⟩) :
    runUntil limit m out = runUntil limit m' out' := by
  have hrun : m.status = .running := (step_eq_ok_iff.1 h).1
  rw [runUntil, dif_pos ⟨hrun, hlt⟩]
  split <;> simp_all

/-- A fault below the limit ends the run. -/
theorem runUntil_fault {limit : UInt64} {m m' : Machine} {out out' : Printer} {fault : Fault}
    (hrun : m.status = .running) (hlt : m.cycles < limit)
    (h : m.step out = ⟨.error fault, m', out'⟩) :
    runUntil limit m out = ⟨.error fault, m', out'⟩ := by
  rw [runUntil, dif_pos ⟨hrun, hlt⟩]
  split <;> simp_all

/-- A machine that has stopped or reached the limit stays. -/
theorem runUntil_stop {limit : UInt64} {m : Machine} (out : Printer)
    (h : m.status ≠ .running ∨ limit ≤ m.cycles) :
    runUntil limit m out = ⟨.ok (), m, out⟩ := by
  rw [runUntil, dif_neg]
  rintro ⟨hrun, hlt⟩
  rcases h with h | h
  · exact h hrun
  · exact absurd (UInt64.lt_iff_toNat_lt.1 hlt) (Nat.not_lt.2 (UInt64.le_iff_toNat_le.1 h))

/-- At most `max` instructions; how many have gone through. -/
def runLimited (m : Machine) (max : UInt64) (out : Printer) : Outcome UInt64 :=
  (runUntil (m.runLimit max) m out).counted m.cycles

-- ========================================================== traced runs

/-- `runUntil` with a trace entry for every attempt, added to `entries`. -/
def runTraced (limit : UInt64) (m : Machine) (out : Printer) (entries : Array String) :
    Outcome Unit × Array String :=
  if hgo : m.status = .running ∧ m.cycles < limit then
    let entries := entries.push m.traceEntry
    match h : m.step out with
    | ⟨.ok _, m', out'⟩ =>
        have := limit_sub_cycles_step hgo.2 h
        runTraced limit m' out' entries
    | ⟨.error fault, m', out'⟩ => (⟨.error fault, m', out'⟩, entries)
  else
    (⟨.ok (), m, out⟩, entries)
termination_by limit.toNat - m.cycles.toNat

-- ======================================================= unlimited runs

/-- Steps while the machine runs, `fuel` of them at most; no outcome if it
still runs then. -/
def runWithin (fuel : Nat) (m : Machine) (out : Printer) : Option (Outcome Unit) :=
  if m.status = .running then
    match fuel with
    | 0 => none
    | fuel + 1 =>
        match m.step out with
        | ⟨.ok _, m, out⟩ => runWithin fuel m out
        | ⟨.error fault, m, out⟩ => some ⟨.error fault, m, out⟩
  else
    some ⟨.ok (), m, out⟩

theorem runWithin_step {fuel : Nat} {m m' : Machine} {out out' : Printer} {i : Instruction}
    (h : m.step out = ⟨.ok i, m', out'⟩) :
    runWithin (fuel + 1) m out = runWithin fuel m' out' := by
  have hrun : m.status = .running := (step_eq_ok_iff.1 h).1
  rw [runWithin, if_pos hrun]
  simp only [h]

theorem runWithin_fault {fuel : Nat} {m m' : Machine} {out out' : Printer} {fault : Fault}
    (hrun : m.status = .running) (h : m.step out = ⟨.error fault, m', out'⟩) :
    runWithin (fuel + 1) m out = some ⟨.error fault, m', out'⟩ := by
  rw [runWithin, if_pos hrun]
  simp only [h]

theorem runWithin_stop {fuel : Nat} {m : Machine} (out : Printer) (h : m.status ≠ .running) :
    runWithin fuel m out = some ⟨.ok (), m, out⟩ := by
  unfold runWithin
  rw [if_neg h]

/-- Instructions until the machine stops; how many have gone through. No
outcome if the machine does not stop within 2^64 of them. -/
def run (m : Machine) (out : Printer) : Option (Outcome UInt64) :=
  (m.runWithin UInt64.size out).map (·.counted m.cycles)

end LS8.Machine
