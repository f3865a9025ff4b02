/-
Execution without jumps is bounded.

An instruction that goes on behind itself leads to a higher address: it has
at least one byte, and the address behind it must exist. So along a passage
of such instructions the program counter rises with every step
(`Passage.pc_add_length_le`, by induction on the passage), and there are only
256 addresses for it. Nothing is asked of memory, which may change on the
way, in front of the program counter as well as behind it.

# What the bound says of runs

A HLT does not go on, but nothing goes through behind it. So a machine that
still runs after a passage in which control was never transferred cannot
have come far, and a run that may execute 256 instructions either transfers
control or comes to its end (`final_of_logs`). In the latter case the limit
has made no difference (`run_eq_of_stopped`).
-/
import LS8.Proofs.History
import LS8.Proofs.Stepping
import LS8.Proofs.Verdicts

namespace LS8

/-- A jump of any kind, a call or a return. -/
def Instruction.CanTransfer : Instruction → Prop
  | jmp _ | jeq _ | jne _ | call _ | ret => True
  | _ => False

/-- The outcome is the end: the machine has halted, or a fault has failed
it. -/
def Outcome.Final {α : Type} (o : Outcome α) : Prop :=
  match o.result with
  | .ok _ => o.machine.status = .halted
  | .error _ => o.machine.status = .failed

theorem Outcome.Final.ne_running {α : Type} {o : Outcome α} (h : o.Final) :
    o.machine.status ≠ .running := by
  unfold Outcome.Final at h
  split at h
  · rw [h]
    exact nofun
  · rw [h]
    exact nofun

namespace Machine

variable {m m' : Machine} {out out' : Printer} {trace log : List Event} {i : Instruction}
  {max : UInt64}

/-- The instruction has sent control elsewhere than behind itself: it was a
jump that was taken, a call or a return. -/
def Event.Transfers (e : Event) : Prop :=
  e.before.Jumps e.instruction ∧ e.instruction ≠ .hlt

theorem Event.Transfers.canTransfer {e : Event} (h : e.Transfers) :
    e.instruction.CanTransfer := by
  obtain ⟨before, instruction⟩ := e
  obtain ⟨hjumps, hne⟩ := h
  cases instruction with
  | hlt => exact hne rfl
  | jmp r => trivial
  | jeq r => trivial
  | jne r => trivial
  | call r => trivial
  | ret => trivial
  | _ => exact hjumps

-- ============================================================ the measure

/-- Going on leads to a higher address. -/
theorem pc_lt_pc_step (h : m.step out = ⟨.ok i, m', out'⟩) (hgo : ¬ m.Jumps i) :
    m.pc.toNat < m'.pc.toNat := by
  have hpc := pc_step_of_not_jumps h hgo
  have hsize := i.size_pos
  omega

/-- Going on again and again takes an address each time. -/
theorem Passage.pc_add_length_le (h : Passage m out trace m' out')
    (hgo : ∀ e ∈ trace, ¬ e.before.Jumps e.instruction) :
    m.pc.toNat + trace.length ≤ m'.pc.toNat := by
  induction h with
  | refl m out => exact Nat.le_refl _
  | head hstep _ ih =>
      rw [List.forall_mem_cons] at hgo
      obtain ⟨hfirst, hrest⟩ := hgo
      have hlt := pc_lt_pc_step hstep hfirst
      have hle := ih hrest
      rw [List.length_cons]
      omega

/-- A passage with as many steps as there are addresses does not go on all
the way. -/
theorem Passage.exists_jumps (h : Passage m out trace m' out')
    (hlen : Memory.capacity ≤ trace.length) :
    ∃ e ∈ trace, e.before.Jumps e.instruction := by
  by_contra hnone
  have hgo : ∀ e ∈ trace, ¬ e.before.Jumps e.instruction :=
    fun e he hjumps => hnone ⟨e, he, hjumps⟩
  have hpc : m'.pc.toNat < Memory.capacity := m'.pc.toNat_lt
  have hle := h.pc_add_length_le hgo
  omega

/-- Where control was not transferred and the machine still runs, fewer
steps have gone through than there are addresses. -/
theorem Passage.length_lt_of_running (h : Passage m out trace m' out')
    (hnone : ∀ e ∈ trace, ¬ e.Transfers) (hhlt : ∀ e ∈ trace, e.instruction ≠ .hlt) :
    trace.length < Memory.capacity := by
  refine Nat.lt_of_not_le fun hlen => ?_
  obtain ⟨e, he, hjumps⟩ := h.exists_jumps hlen
  exact hnone e he ⟨hjumps, hhlt e he⟩

-- =================================================================== runs

/-- A limited run after which the machine runs no more is a whole run. -/
theorem run_eq_of_stopped (h : (m.runLimited max out).machine.status ≠ .running) :
    m.run out = some (m.runLimited max out) := by
  have hallowed : m.allowance max < UInt64.size :=
    Nat.lt_of_le_of_lt (Nat.min_le_left _ _) max.toNat_lt_size
  obtain ⟨trace, m', out', hpass, hle, ⟨-, hok⟩ | ⟨fault, m'', out'', hrun, hlt, hstep, hfault⟩⟩ :=
    runLimited_cases m max out
  · rw [hok] at h ⊢
    exact (Ending.stopped hpass h).run_eq (by omega)
  · rw [hfault]
    exact (Ending.fault hpass hrun hstep).run_eq (by omega)

/-- A run that may execute as many instructions as there are addresses, and
whose instructions have never transferred control, has come to its end. -/
theorem final_of_logs (hrun : m.status = .running)
    (hroom : m.cycles.toNat + Memory.capacity < UInt64.size)
    (hlogs : Logs m out log (m.runLimited 256 out)) (hnone : ∀ e ∈ log, ¬ e.Transfers) :
    (m.runLimited 256 out).Final := by
  have hallowed : m.allowance 256 = Memory.capacity := by
    have hmax : (256 : UInt64).toNat = Memory.capacity := rfl
    rw [allowance, hmax]
    omega
  obtain ⟨trace, m', out', hpass, hle, ⟨hend, hok⟩ | ⟨fault, m'', out'', hruns, -, hstep, hfault⟩⟩ :=
    runLimited_cases m 256 out
  · rw [hok] at hlogs ⊢
    cases hlogs with
    | fault _ _ hresult => cases hresult
    | through hlog _ =>
        rcases hlog.status_cases hrun with ⟨hruns, hhlt⟩ | ⟨hhalted, -⟩
        · -- the counter tells that the log is as long as the run, hence too long
          exfalso
          have hshort := hlog.length_lt_of_running hnone hhlt
          have hused : trace.length = m.allowance 256 := hend.resolve_left (not_not_intro hruns)
          have hcounted : m'.cycles.toNat = m.cycles.toNat + log.length :=
            hlog.toNat_cycles (by omega)
          have hcounted' : m'.cycles.toNat = m.cycles.toNat + trace.length :=
            hpass.toNat_cycles (by omega)
          omega
        · exact hhalted
  · obtain ⟨rfl, -⟩ := step_fault hruns hstep
    rw [hfault]
    rfl

/-- What a passage has executed was fetched on the way. -/
theorem Passage.exists_fetch (h : Passage m out trace m' out') {e : Event} (he : e ∈ trace) :
    ∃ first out₁, Passage m out first e.before out₁ ∧ e.before.fetch = .ok e.instruction := by
  obtain ⟨first, rest, rfl⟩ := List.append_of_mem he
  obtain ⟨m₁, out₁, hfirst, hrest⟩ := h.exists_of_append
  cases hrest with
  | head hstep _ =>
      exact ⟨first, out₁, hfirst, fetch_of_step_ok (congrArg Outcome.result hstep)⟩

/-- Execution without jumps is bounded.

Every step that goes through leads to a higher address, unless it executes a
HLT, a jump that is taken, a call or a return; so there is one of these among
any 256 steps on end. A run of at most 256 instructions that executes none of
them but a HLT comes to its end, in a machine that has halted or failed, and
a run without a limit comes to the same. In particular it does so if none of
the instructions that the machine gets to can transfer control, whatever they
write into memory, code ahead of them included. -/
theorem execution_without_jumps_is_bounded (m : Machine) (out : Printer)
    (hrun : m.status = .running) (hroom : m.cycles.toNat + 256 < UInt64.size) :
    (∀ trace m₁ out₁ i m₂ out₂, Passage m out trace m₁ out₁ →
        m₁.step out₁ = ⟨.ok i, m₂, out₂⟩ → ¬ m₁.Jumps i → m₁.pc.toNat < m₂.pc.toNat)
    ∧ (∀ before window after m' out', Passage m out (before ++ window ++ after) m' out' →
        window.length = 256 → ∃ e ∈ window, e.before.Jumps e.instruction)
    ∧ (∀ log, Logs m out log (m.runLimited 256 out) → (∀ e ∈ log, ¬ e.Transfers) →
        (m.runLimited 256 out).Final ∧ m.run out = some (m.runLimited 256 out))
    ∧ ((∀ trace m' out' i, Passage m out trace m' out' → m'.fetch = .ok i → ¬ i.CanTransfer) →
        (m.runLimited 256 out).Final ∧ m.run out = some (m.runLimited 256 out)) := by
  have hends : ∀ log, Logs m out log (m.runLimited 256 out) → (∀ e ∈ log, ¬ e.Transfers) →
      (m.runLimited 256 out).Final ∧ m.run out = some (m.runLimited 256 out) := by
    intro log hlogs hnone
    have hfinal := final_of_logs hrun hroom hlogs hnone
    exact ⟨hfinal, run_eq_of_stopped hfinal.ne_running⟩
  refine ⟨fun _ _ _ _ _ _ _ => pc_lt_pc_step, ?_, hends, ?_⟩
  · intro before window after m' out' h hlen
    obtain ⟨m₂, out₂, hfront, -⟩ := h.exists_of_append
    obtain ⟨m₁, out₁, -, hwindow⟩ := hfront.exists_of_append
    exact hwindow.exists_jumps (Nat.le_of_eq hlen.symm)
  · intro hnever
    obtain ⟨log, hlogs⟩ := exists_logs_runLimited m 256 out
    refine hends log hlogs fun e he htransfers => ?_
    obtain ⟨m', out', hpass⟩ : ∃ m' out', Passage m out log m' out' := by
      cases hlogs with
      | through hpass _ => exact ⟨_, _, hpass⟩
      | fault hpass _ _ => exact ⟨_, _, hpass⟩
    obtain ⟨first, out₁, hreached, hfetch⟩ := hpass.exists_fetch he
    exact hnever first _ out₁ _ hreached hfetch htransfers.canTransfer

/-- LDI R7,9; LDI R0,1; PUSH R0. The push writes a HLT right behind itself,
where no instruction was before. -/
def haltingAhead : Machine where
  regs := Registers.fresh
  mem := ⟨⟨[Opcode.ldi, 7, 9, Opcode.ldi, 0, Opcode.hlt, Opcode.push, 0]
    ++ List.replicate 248 0⟩⟩
  status := .running
  cycles := 0
  last := none

/-- The run comes to its end there. -/
theorem haltingAhead_ends :
    haltingAhead.status = .running ∧ haltingAhead.cycles.toNat + 256 < UInt64.size
    ∧ haltingAhead.mem.cells[8]? = some 0
    ∧ ∃ log, Logs haltingAhead (.unlimited {}) log (haltingAhead.runLimited 256 (.unlimited {}))
      ∧ log.map Event.instruction = [.ldi 7 9, .ldi 0 1, .push 0, .hlt]
      ∧ (∀ e ∈ log, ¬ e.Transfers)
      ∧ (haltingAhead.runLimited 256 (.unlimited {})).Final
      ∧ haltingAhead.run (.unlimited {}) = some (haltingAhead.runLimited 256 (.unlimited {})) := by
  obtain ⟨log, m', out', hpass, hnames, hlen, hhalted⟩ :
      ∃ log m' out', Passage haltingAhead (.unlimited {}) log m' out'
        ∧ log.map Event.instruction = [.ldi 7 9, .ldi 0 1, .push 0, .hlt]
        ∧ log.length = 4 ∧ m'.status = .halted := by
    let first := haltingAhead.step (.unlimited {})
    let second := first.machine.step first.out
    let pushed := second.machine.step second.out
    let halted := pushed.machine.step pushed.out
    refine ⟨[⟨haltingAhead, .ldi 7 9⟩, ⟨first.machine, .ldi 0 1⟩, ⟨second.machine, .push 0⟩,
      ⟨pushed.machine, .hlt⟩], halted.machine, halted.out, ?_, rfl, rfl, ?_⟩
    · exact .head (Outcome.eq_of_result (by decide +kernel))
        (.head (Outcome.eq_of_result (by decide +kernel))
          (.head (Outcome.eq_of_result (by decide +kernel))
            (.single (Outcome.eq_of_result (by decide +kernel)))))
    · decide +kernel
  have hnone : ∀ e ∈ log, ¬ e.Transfers := by
    have hstay : ∀ i ∈ [Instruction.ldi 7 9, .ldi 0 1, .push 0, .hlt], ¬ i.CanTransfer := by
      simp only [List.forall_mem_cons]
      exact ⟨id, id, id, id, nofun⟩
    intro e he htransfers
    refine hstay e.instruction ?_ htransfers.canTransfer
    rw [← hnames]
    exact List.mem_map_of_mem he
  have hwhole : haltingAhead.runLimited 256 (.unlimited {}) =
      ⟨.ok (UInt64.ofNat log.length), m', out'⟩ := by
    refine hpass.runLimited_eq ?_ (Or.inl ?_)
    · rw [hlen]
      decide
    · rw [hhalted]
      exact nofun
  have hlogs : Logs haltingAhead (.unlimited {}) log
      (haltingAhead.runLimited 256 (.unlimited {})) := by
    rw [hwhole]
    exact .through hpass rfl
  obtain ⟨-, -, hends, -⟩ :=
    execution_without_jumps_is_bounded haltingAhead (.unlimited {}) rfl (by decide)
  obtain ⟨hfinal, hrun⟩ := hends _ hlogs hnone
  exact ⟨rfl, by decide, by decide +kernel, log, hlogs, hnames, hnone, hfinal, hrun⟩

end Machine

end LS8
