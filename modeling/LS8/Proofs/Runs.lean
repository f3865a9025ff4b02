/-
Runs are steps repeated.

A limited run executes as many instructions as its limit allows and as go
through, whichever is less (`runLimited_cases`); so it can be cut in two at
any point (`runLimited_cut`), and it agrees with the unlimited run exactly if
its limit lets it make every attempt that the unlimited run makes
(`Ending.runLimited_eq`, `Ending.runLimited_ne`).

# The limit

The limit is a counter value, not a number of instructions. It saturates at
the largest counter value, so a run is allowed `allowance` instructions, and
the counter has room for all of them: along a limited run it never wraps
(`Passage.toNat_cycles`).

An unlimited run has no such guard. A run that faults when its counter
stands at the largest value makes one attempt more than any limited run may
make, which is why attempts are counted here, and not steps.
-/
import LS8.Proofs.Passage

namespace LS8.Machine

variable {m m' : Machine} {out out' : Printer} {trace : List Event}

-- =============================================================== limits

/-- How many instructions a run of at most `max` may execute: `max`, or as
many as the counter has room for. -/
def allowance (m : Machine) (max : UInt64) : Nat :=
  min max.toNat (UInt64.size - 1 - m.cycles.toNat)

theorem toNat_runLimit (m : Machine) (max : UInt64) :
    (m.runLimit max).toNat = m.cycles.toNat + m.allowance max := by
  have := m.cycles.toNat_lt_size
  unfold runLimit allowance
  rw [UInt64.toNat_ofNat_of_lt' (by omega)]
  omega

/-- Below the limit a run takes every step that goes through. -/
theorem Passage.runUntil_eq {limit : UInt64} (h : Passage m out trace m' out')
    (hle : m.cycles.toNat + trace.length ≤ limit.toNat) :
    runUntil limit m out = runUntil limit m' out' := by
  have hlimit := limit.toNat_lt_size
  induction h with
  | refl m out => rfl
  | head hstep hrest ih =>
      rw [List.length_cons] at hle
      have hone := (Passage.single hstep).toNat_cycles (by rw [List.length_singleton]; omega)
      rw [List.length_singleton] at hone
      rw [runUntil_step (UInt64.lt_iff_toNat_lt.2 (by omega)) hstep]
      exact ih (by omega)

-- ======================================================= limited outcomes

/-- Counting from where a passage set out gives its length. -/
theorem Passage.counted (h : Passage m out trace m' out') :
    Outcome.counted ⟨.ok (), m', out'⟩ m.cycles = ⟨.ok (UInt64.ofNat trace.length), m', out'⟩ := by
  have hsub : m'.cycles - m.cycles = UInt64.ofNat trace.length := by
    rw [h.cycles_eq, UInt64.add_comm, UInt64.add_sub_cancel]
  simp only [Outcome.counted, Except.map, hsub]

/-- A passage within the allowance is a whole run if it ends with a machine
that has stopped or uses the allowance up. -/
theorem Passage.runLimited_eq {max : UInt64} (h : Passage m out trace m' out')
    (hle : trace.length ≤ m.allowance max)
    (hend : m'.status ≠ .running ∨ trace.length = m.allowance max) :
    m.runLimited max out = ⟨.ok (UInt64.ofNat trace.length), m', out'⟩ := by
  have hlimit := toNat_runLimit m max
  have hsize := (m.runLimit max).toNat_lt_size
  have hcycles := h.toNat_cycles (by omega)
  have hstop : m'.status ≠ .running ∨ m.runLimit max ≤ m'.cycles := by
    rcases hend with hstopped | hused
    · exact Or.inl hstopped
    · exact Or.inr (UInt64.le_iff_toNat_le.2 (by omega))
  rw [runLimited, h.runUntil_eq (by omega), runUntil_stop out' hstop, h.counted]

/-- A fault behind a passage that does not use the allowance up ends the
run. -/
theorem Passage.runLimited_fault {max : UInt64} {m'' : Machine} {out'' : Printer}
    {fault : Fault} (h : Passage m out trace m' out') (hlt : trace.length < m.allowance max)
    (hrun : m'.status = .running) (hstep : m'.step out' = ⟨.error fault, m'', out''⟩) :
    m.runLimited max out = ⟨.error fault, m'', out''⟩ := by
  have hlimit := toNat_runLimit m max
  have hsize := (m.runLimit max).toNat_lt_size
  have hcycles := h.toNat_cycles (by omega)
  rw [runLimited, h.runUntil_eq (by omega),
    runUntil_fault hrun (UInt64.lt_iff_toNat_lt.2 (by omega)) hstep]
  rfl

/-- What a limited run is: a passage within its allowance, and at the end of
it a machine that has stopped, an allowance that is used up, or a fault. -/
theorem runLimited_cases (m : Machine) (max : UInt64) (out : Printer) :
    ∃ trace m' out', Passage m out trace m' out' ∧ trace.length ≤ m.allowance max ∧
      ((m'.status ≠ .running ∨ trace.length = m.allowance max)
          ∧ m.runLimited max out = ⟨.ok (UInt64.ofNat trace.length), m', out'⟩
        ∨ ∃ fault m'' out'', m'.status = .running ∧ trace.length < m.allowance max
          ∧ m'.step out' = ⟨.error fault, m'', out''⟩
          ∧ m.runLimited max out = ⟨.error fault, m'', out''⟩) := by
  obtain ⟨trace, m', out', hpass, hle, hend⟩ := exists_passage (m.allowance max) m out
  refine ⟨trace, m', out', hpass, hle, ?_⟩
  by_cases hgo : m'.status = .running ∧ trace.length ≠ m.allowance max
  · obtain ⟨hrun, hne⟩ := hgo
    obtain ⟨fault, m'', out'', hstep⟩ := (hend.resolve_left hne).exists_fault
    have hlt : trace.length < m.allowance max := by omega
    exact Or.inr ⟨fault, m'', out'', hrun, hlt, hstep, hpass.runLimited_fault hlt hrun hstep⟩
  · have hstop : m'.status ≠ .running ∨ trace.length = m.allowance max := by
      by_cases hrun : m'.status = .running
      · exact Or.inr (by_contra fun hne => hgo ⟨hrun, hne⟩)
      · exact Or.inl hrun
    exact Or.inl ⟨hstop, hpass.runLimited_eq hle hstop⟩

/-- A run whose allowance covers all attempts ends as if there were no
limit. -/
theorem Ending.runLimited_eq {attempts : Nat} {o : Outcome UInt64} {max : UInt64}
    (h : Ending m out attempts o) (hle : attempts ≤ m.allowance max) :
    m.runLimited max out = o := by
  cases h with
  | stopped hpass hstop => exact hpass.runLimited_eq hle (Or.inl hstop)
  | fault hpass hrun hstep => exact hpass.runLimited_fault hle hrun hstep

/-- A run whose allowance does not cover all attempts ends otherwise: with a
machine that still runs, or without the fault. -/
theorem Ending.runLimited_ne {attempts : Nat} {o : Outcome UInt64} {max : UInt64}
    (h : Ending m out attempts o) (hlt : m.allowance max < attempts) :
    m.runLimited max out ≠ o := by
  intro heq
  obtain ⟨first, m₁, out₁, hfirst, hle, ⟨-, hok⟩ | ⟨fault, m'', out'', -, hlt₁, hstep, hfault⟩⟩ :=
    runLimited_cases m max out
  · rw [heq] at hok
    cases h with
    | stopped hpass hstop =>
        obtain ⟨-, rfl, -⟩ := Outcome.mk.inj hok
        exact hfirst.not_stuck_of_length_lt hpass (by omega) (stuck_of_ne_running hstop)
    | fault hpass hrun hstep => cases hok
  · rw [heq] at hfault
    cases h with
    | stopped hpass hstop => cases hfault
    | fault hpass hrun hstep' =>
        exact hfirst.not_stuck_of_length_lt hpass (by omega) (stuck_of_fault hstep)

/-- A limited run that faults would end so without the limit. -/
theorem ending_of_runLimited_error {max : UInt64} {fault : Fault}
    (h : (m.runLimited max out).result = .error fault) :
    ∃ attempts, Ending m out attempts (m.runLimited max out) := by
  obtain ⟨trace, m', out', hpass, -, ⟨-, hok⟩ | ⟨fault', m'', out'', hrun, -, hstep, hfault⟩⟩ :=
    runLimited_cases m max out
  · rw [hok] at h
    cases h
  · rw [hfault]
    exact ⟨trace.length + 1, .fault hpass hrun hstep⟩

-- ====================================================== unlimited outcomes

theorem Passage.runWithin_eq (fuel : Nat) (h : Passage m out trace m' out') :
    runWithin (trace.length + fuel) m out = runWithin fuel m' out' := by
  induction h with
  | refl m out => rw [List.length_nil, Nat.zero_add]
  | head hstep hrest ih => rw [List.length_cons, Nat.add_right_comm, runWithin_step hstep, ih]

/-- An unlimited run with enough fuel for all attempts has the outcome that
its ending says. -/
theorem Ending.run_eq {attempts : Nat} {o : Outcome UInt64} (h : Ending m out attempts o)
    (hle : attempts ≤ UInt64.size) : m.run out = some o := by
  obtain ⟨spare, hspare⟩ := Nat.exists_eq_add_of_le hle
  unfold run
  cases h with
  | stopped hpass hstop =>
      rw [hspare, hpass.runWithin_eq, runWithin_stop _ hstop, Option.map_some, hpass.counted]
  | fault hpass hrun hstep =>
      rw [hspare, Nat.add_assoc, hpass.runWithin_eq, Nat.add_comm, runWithin_fault hrun hstep,
        Option.map_some]
      rfl

/-- Every outcome of an unlimited run is an ending. -/
theorem ending_of_run {o : Outcome UInt64} (h : m.run out = some o) :
    ∃ attempts, attempts ≤ UInt64.size ∧ Ending m out attempts o := by
  obtain ⟨trace, m', out', hpass, hle, hend⟩ := exists_passage UInt64.size m out
  obtain ⟨spare, hspare⟩ := Nat.exists_eq_add_of_le hle
  by_cases hrun : m'.status = .running
  · cases spare with
    | zero =>
        -- a machine that still runs when the fuel is used up has no outcome
        have hnone : m.run out = none := by
          unfold run
          rw [hspare, hpass.runWithin_eq, runWithin, if_pos hrun, Option.map_none]
        rw [hnone] at h
        cases h
    | succ spare =>
        obtain ⟨fault, m'', out'', hstep⟩ := (hend.resolve_left (by omega)).exists_fault
        have hending : Ending m out (trace.length + 1) ⟨.error fault, m'', out''⟩ :=
          .fault hpass hrun hstep
        have hattempts : trace.length + 1 ≤ UInt64.size := by omega
        rw [hending.run_eq hattempts] at h
        cases h
        exact ⟨_, hattempts, hending⟩
  · have hending := Ending.stopped hpass hrun
    rw [hending.run_eq hle] at h
    cases h
    exact ⟨_, hle, hending⟩

-- ======================================================== runs compared

section

variable {a b c n : UInt64} {m₁ : Machine} {out₁ : Printer}

theorem allowance_le (m : Machine) (h : a.toNat ≤ b.toNat) : m.allowance a ≤ m.allowance b := by
  unfold allowance
  omega

/-- What has faulted within a limit faults alike within a greater one. -/
theorem runLimited_of_error {fault : Fault} (h : (m.runLimited a out).result = .error fault)
    (hle : a.toNat ≤ b.toNat) : m.runLimited b out = m.runLimited a out := by
  obtain ⟨attempts, hending⟩ := ending_of_runLimited_error h
  have hallowed : attempts ≤ m.allowance a := by
    refine Nat.le_of_not_lt fun hlt => ?_
    exact hending.runLimited_ne hlt rfl
  exact hending.runLimited_eq (Nat.le_trans hallowed (allowance_le m hle))

/-- A limited run counts no further than its limit. -/
theorem toNat_cycles_runLimited_le (h : m.runLimited a out = ⟨.ok n, m₁, out₁⟩) :
    m₁.cycles.toNat ≤ m.cycles.toNat + a.toNat := by
  have hsize := (m.runLimit a).toNat_lt_size
  rw [toNat_runLimit] at hsize
  obtain ⟨trace, m', out', hpass, hle, ⟨-, hok⟩ | ⟨fault, m'', out'', -, -, -, hfault⟩⟩ :=
    runLimited_cases m a out
  · rw [h] at hok
    cases hok
    rw [hpass.toNat_cycles (by omega)]
    have : m.allowance a ≤ a.toNat := Nat.min_le_left _ _
    omega
  · rw [h] at hfault
    cases hfault

/-- A run may be cut in two: the second part goes on from where the first
has ended. The limit of the whole need not be the sum of the two, it must
only let the run come as far as they do. -/
theorem runLimited_cut
    (hreach : m.allowance c = min (a.toNat + b.toNat) (UInt64.size - 1 - m.cycles.toNat))
    (h : m.runLimited a out = ⟨.ok n, m₁, out₁⟩) :
    m.runLimited c out =
      { m₁.runLimited b out₁ with result := (m₁.runLimited b out₁).result.map (n + ·) } := by
  have ha : m.allowance a = min a.toNat (UInt64.size - 1 - m.cycles.toNat) := rfl
  have hsize := m.cycles.toNat_lt_size
  obtain ⟨first, m₁', out₁', hfirst, hle, ⟨hend, hok⟩ | ⟨fault, m'', out'', -, -, -, hfault⟩⟩ :=
    runLimited_cases m a out
  · rw [h] at hok
    cases hok
    by_cases hstop : m₁.status = .running
    · have hused : first.length = m.allowance a := hend.resolve_left (not_not_intro hstop)
      have hcycles := hfirst.toNat_cycles (by omega)
      have hb : m₁.allowance b = min b.toNat (UInt64.size - 1 - m₁.cycles.toNat) := rfl
      have hwhole : m.allowance c = first.length + m₁.allowance b := by omega
      obtain ⟨second, m₂, out₂, hsecond, hle₂, hcase⟩ := runLimited_cases m₁ b out₁
      have hpass := hfirst.append hsecond
      have hlen : (first ++ second).length = first.length + second.length := List.length_append
      rcases hcase with ⟨hend₂, hok₂⟩ | ⟨fault, m'', out'', hrun, hlt, hstep, hfault⟩
      · rw [hok₂, hpass.runLimited_eq (by omega) (hend₂.imp_right fun _ => by omega),
          List.length_append, UInt64.ofNat_add]
        rfl
      · rw [hfault, hpass.runLimited_fault (by omega) hrun hstep]
        rfl
    · rw [hfirst.runLimited_eq (by omega) (Or.inl hstop),
        (Passage.refl m₁ out₁).runLimited_eq (Nat.zero_le _) (Or.inl hstop)]
      simp [Except.map]
  · rw [h] at hfault
    cases hfault

/-- Where the counter has room for both limits, their sum comes as far. -/
theorem runLimited_add (hroom : m.cycles.toNat + a.toNat + b.toNat < UInt64.size)
    (h : m.runLimited a out = ⟨.ok n, m₁, out₁⟩) :
    m.runLimited (a + b) out =
      { m₁.runLimited b out₁ with result := (m₁.runLimited b out₁).result.map (n + ·) } := by
  have hsum : (a + b).toNat = a.toNat + b.toNat := by
    rw [UInt64.toNat_add]
    exact Nat.mod_eq_of_lt (show _ < UInt64.size by omega)
  refine runLimited_cut ?_ h
  rw [allowance, hsum]

end

-- ======================================================= the run loops

/-- The run loops are steps repeated.

A run of at most `max` instructions takes as many steps as its allowance and
the lifespan of the machine admit, and counts them without wrapping. It
comes to their number, unless they leave a running machine and the allowance
is not used up: then the next step faults, and the run comes to that fault.

So a run may be cut in two wherever the counter has room for both limits.
And a run without a limit has the outcome of just those limited runs that
are allowed as many instructions as it makes attempts: of all with a limit
that large, provided its counter has room for that many. -/
theorem runs_iterate_step (m : Machine) (out : Printer) :
    (∀ max, ∃ trace m' out', Passage m out trace m' out'
      ∧ (trace.length : ℕ∞) = min (m.allowance max : ℕ∞) (m.lifespan out)
      ∧ m'.cycles.toNat = m.cycles.toNat + trace.length
      ∧ if m'.status = .running ∧ trace.length < m.allowance max then
          ∃ fault m'' out'', m'.step out' = ⟨.error fault, m'', out''⟩
            ∧ m.runLimited max out = ⟨.error fault, m'', out''⟩
        else m.runLimited max out = ⟨.ok (UInt64.ofNat trace.length), m', out'⟩)
    ∧ (∀ a b n m₁ out₁, m.cycles.toNat + a.toNat + b.toNat < UInt64.size →
        m.runLimited a out = ⟨.ok n, m₁, out₁⟩ →
        m.runLimited (a + b) out =
          { m₁.runLimited b out₁ with result := (m₁.runLimited b out₁).result.map (n + ·) })
    ∧ (∀ attempts o, Ending m out attempts o →
        (m.cycles.toNat + attempts ≤ UInt64.size → m.run out = some o)
        ∧ (∀ max, m.runLimited max out = o ↔ attempts ≤ m.allowance max)
        ∧ (m.cycles.toNat + attempts < UInt64.size →
            ∀ max, attempts ≤ max.toNat → m.runLimited max out = o))
    ∧ ∀ o, m.run out = some o → ∃ attempts, Ending m out attempts o := by
  refine ⟨?_, fun a b n m₁ out₁ => runLimited_add, ?_, ?_⟩
  · intro max
    obtain ⟨trace, m', out', hpass, hle, hcase⟩ := runLimited_cases m max out
    have hsize := (m.runLimit max).toNat_lt_size
    rw [toNat_runLimit] at hsize
    refine ⟨trace, m', out', hpass, ?_, hpass.toNat_cycles (by omega), ?_⟩
    · rcases hcase with ⟨hstop | hused, -⟩ | ⟨fault, m'', out'', -, -, hstep, -⟩
      · rw [hpass.lifespan_eq (stuck_of_ne_running hstop)]
        exact (min_eq_right (by exact_mod_cast hle)).symm
      · rw [← hused]
        exact (min_eq_left hpass.length_le_lifespan).symm
      · rw [hpass.lifespan_eq (stuck_of_fault hstep)]
        exact (min_eq_right (by exact_mod_cast hle)).symm
    · rcases hcase with ⟨hend, hok⟩ | ⟨fault, m'', out'', hrun, hlt, hstep, hfault⟩
      · rw [if_neg (fun h => hend.elim (fun hstop => hstop h.1) (fun hused => by omega))]
        exact hok
      · rw [if_pos ⟨hrun, hlt⟩]
        exact ⟨fault, m'', out'', hstep, hfault⟩
  · intro attempts o hending
    refine ⟨fun hroom => hending.run_eq (by omega), fun max => ⟨?_, hending.runLimited_eq⟩, ?_⟩
    · intro heq
      exact Nat.not_lt.1 fun hlt => hending.runLimited_ne hlt heq
    · intro hroom max hmax
      have hallowed : attempts ≤ m.allowance max := by unfold allowance; omega
      exact hending.runLimited_eq hallowed
  · intro o h
    obtain ⟨attempts, -, hending⟩ := ending_of_run h
    exact ⟨attempts, hending⟩

/-- A machine that stands in front of a HLT. -/
def halting : Machine where
  regs := Registers.fresh
  mem := ⟨⟨Opcode.hlt :: List.replicate 255 0⟩⟩
  status := .running
  cycles := 0
  last := none

/-- It stops after one step, run with or without a limit, and stays there. -/
theorem halting_runs_alike :
    let halted := { halting with status := .halted, cycles := 1, last := some .hlt }
    let out := Printer.unlimited {}
    halting.run out = some ⟨.ok 1, halted, out⟩
    ∧ (∀ max, 1 ≤ max.toNat → halting.runLimited max out = ⟨.ok 1, halted, out⟩)
    ∧ halting.runLimited (1 + 1) out =
        { halted.runLimited 1 out with result := (halted.runLimited 1 out).result.map (1 + ·) } := by
  intro halted out
  have hstep : halting.step out = ⟨.ok .hlt, halted, out⟩ :=
    step_eq_ok_iff.2 ⟨rfl, by decide +kernel, _, .hlt, rfl, rfl⟩
  have hending : Ending halting out 1 ⟨.ok 1, halted, out⟩ :=
    .stopped (.single hstep) (by decide)
  obtain ⟨-, hcut, hends, -⟩ := runs_iterate_step halting out
  obtain ⟨hrun, -, hlimited⟩ := hends 1 _ hending
  have hlimited := hlimited (by decide)
  exact ⟨hrun (by decide), hlimited, hcut 1 1 1 _ _ (by decide) (hlimited 1 (by decide))⟩

/-- A running machine in which all is zero, but for a counter that stands at
the largest value. -/
def atLastCount : Machine :=
  { fresh with cycles := UInt64.ofNat (UInt64.size - 1) }

/-- Without a limit it faults at once, and its counter stays where it is. No
limit lets a run come to that fault: there is no room for an attempt, so the
limited run ends before it and nothing has happened. -/
theorem last_count_hides_fault :
    let out := Printer.unlimited {}
    let faulted : Outcome UInt64 :=
      ⟨.error (.decode 0 (.unknownOpcode 0)), atLastCount.fail, out⟩
    atLastCount.mem.Full ∧ atLastCount.lifespan out = 0
    ∧ Ending atLastCount out 1 faulted
    ∧ atLastCount.run out = some faulted
    ∧ faulted.machine.cycles = atLastCount.cycles
    ∧ ∀ max, atLastCount.runLimited max out = ⟨.ok 0, atLastCount, out⟩
        ∧ atLastCount.runLimited max out ≠ faulted := by
  intro out faulted
  have hhere : Passage atLastCount out [] atLastCount out := .refl atLastCount out
  have hrun : atLastCount.status = .running := rfl
  have hfetch : atLastCount.fetch = .error (.decode 0 (.unknownOpcode 0)) := by decide +kernel
  have hattempt : atLastCount.attempt = .error (.decode 0 (.unknownOpcode 0)) := by
    rw [attempt, hfetch]
    rfl
  have hstep : atLastCount.step out =
      ⟨.error (.decode 0 (.unknownOpcode 0)), atLastCount.fail, out⟩ := by
    rw [step_eq, if_pos hrun, hattempt]
  have hending : Ending atLastCount out 1 faulted := .fault hhere hrun hstep
  have hnone : ∀ max, atLastCount.allowance max = 0 := fun max => Nat.min_zero max.toNat
  refine ⟨Array.size_replicate, hhere.lifespan_eq (stuck_of_fault hstep), hending,
    hending.run_eq (by decide), rfl, fun max => ⟨?_, ?_⟩⟩
  · exact hhere.runLimited_eq (Nat.zero_le _) (Or.inr (hnone max).symm)
  · exact hending.runLimited_ne (Nat.lt_one_iff.2 (hnone max))

end LS8.Machine
