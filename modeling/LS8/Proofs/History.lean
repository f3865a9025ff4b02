/-
What the owner of a machine can bring it to.

The owner loads programs, lets the machine step or run, with a printer that
may be another one each time, and resets it. `History` follows a sequence of
such operations and keeps a log: the instructions that have gone through
since the machine was new or last reset. However the operations went, the
machine then agrees with its log (`AgreesWith`): the flags are those of the
last comparison, the counter is the length of the log, the last instruction
is the last of the log, and the machine has halted exactly if that was a HLT.

# Why nothing else can happen

What goes through is a step, and a step that goes through extends the log by
its instruction (`AgreesWith.step`); a step that does not changes the status
at most, and not to halted (`AgreesWith.fault`). Runs are steps (`Logs`),
loading changes cells that are there, and a reset starts a new log.

The memory stays full all the time, so no operation ever misses a cell.
-/
import LS8.Proofs.Faults
import LS8.Proofs.Runs

namespace LS8.Machine

-- ================================================== the log of an outcome

/-- `Logs m out log o`: the instructions in `log` go through from `m` and
`out` on, and the outcome `o` is what they leave or, if it is a fault, what
the next step leaves, which does not go through. -/
inductive Logs {α : Type} (m : Machine) (out : Printer) (log : List Event) (o : Outcome α) : Prop where
  | through {a : α} (passage : Passage m out log o.machine o.out) (result : o.result = .ok a)
  | fault {m' : Machine} {out' : Printer} {fault : Fault} (passage : Passage m out log m' out')
      (step : m'.step out' = ⟨.error fault, o.machine, o.out⟩) (result : o.result = .error fault)

variable {α : Type} {m m' : Machine} {out out' : Printer} {log trace : List Event}

theorem exists_logs_step (m : Machine) (out : Printer) : ∃ log, Logs m out log (m.step out) := by
  rcases hstep : m.step out with ⟨fault | i, m', out'⟩
  · exact ⟨[], .fault (.refl m out) hstep rfl⟩
  · exact ⟨[⟨m, i⟩], .through (.single hstep) rfl⟩

theorem exists_logs_runLimited (m : Machine) (max : UInt64) (out : Printer) :
    ∃ log, Logs m out log (m.runLimited max out) := by
  obtain ⟨trace, m', out', hpass, -, ⟨-, hok⟩ | ⟨fault, m'', out'', -, -, hstep, hfault⟩⟩ :=
    runLimited_cases m max out
  · rw [hok]
    exact ⟨trace, .through hpass rfl⟩
  · rw [hfault]
    exact ⟨trace, .fault hpass hstep rfl⟩

theorem exists_logs_run {o : Outcome UInt64} (h : m.run out = some o) :
    ∃ log, Logs m out log o := by
  obtain ⟨attempts, -, hending⟩ := ending_of_run h
  cases hending with
  | stopped hpass hstop => exact ⟨_, .through hpass rfl⟩
  | fault hpass hrun hstep => exact ⟨_, .fault hpass hstep rfl⟩

-- ==================================================== what a log accounts for

/-- The operands of a comparison. -/
def Event.compared (e : Event) : Option (UInt8 × UInt8) :=
  match e.instruction with
  | .alu .cmp a b => some (e.before.regs.get a, e.before.regs.get b)
  | _ => none

/-- The operands of the last comparison in a log. -/
def lastCompared (log : List Event) : Option (UInt8 × UInt8) :=
  (log.filterMap Event.compared).getLast?

/-- The last instruction in a log. -/
def lastOf (log : List Event) : Option Instruction :=
  log.getLast?.map (·.instruction)

/-- The flags that a comparison leaves; clear ones without a comparison. -/
def flagsOf : Option (UInt8 × UInt8) → Flags
  | none => Flags.clear
  | some (a, b) => Flags.compare a b

/-- The machine is as its log says. The counter counts in 64-bit words. -/
structure AgreesWith (m : Machine) (log : List Event) : Prop where
  full : m.mem.Full
  flags : m.regs.fl = flagsOf (lastCompared log)
  cycles : m.cycles = UInt64.ofNat log.length
  last : m.last = lastOf log
  halted : m.status = .halted ↔ m.last = some .hlt

/-- A comparison that goes through is the last one. -/
theorem lastCompared_append (log : List Event) (e : Event) :
    lastCompared (log ++ [e]) = e.compared.or (lastCompared log) := by
  unfold lastCompared
  rw [List.filterMap_append, List.getLast?_append]
  congr 1
  cases h : e.compared <;> simp [h]

/-- The flags are clear exactly if nothing has been compared. -/
theorem bits_flagsOf_eq_zero_iff (compared : Option (UInt8 × UInt8)) :
    (flagsOf compared).bits = 0 ↔ compared = none := by
  rcases compared with _ | ⟨a, b⟩
  · simp [flagsOf, Flags.clear]
  · simp only [flagsOf, Flags.compare]
    split
    · simp [Flags.equalBit]
    · split <;> simp [Flags.greaterBit, Flags.lessBit]

theorem bits_flagsOf_mem (compared : Option (UInt8 × UInt8)) :
    (flagsOf compared).bits ∈ [0, Flags.equalBit, Flags.greaterBit, Flags.lessBit] := by
  rcases compared with _ | ⟨a, b⟩
  · simp [flagsOf, Flags.clear]
  · simp only [flagsOf, Flags.compare]
    split
    · simp
    · split <;> simp

namespace AgreesWith

/-- A new machine agrees with an empty log. -/
theorem fresh : AgreesWith Machine.fresh [] where
  full := Array.size_replicate
  flags := rfl
  cycles := rfl
  last := rfl
  halted := by decide

/-- Other cells make no difference if there are as many. -/
theorem withMemory {mem : Memory} (h : AgreesWith m log) (hsize : mem.cells.size = m.mem.cells.size) :
    AgreesWith { m with mem } log where
  full := hsize.trans h.full
  flags := h.flags
  cycles := h.cycles
  last := h.last
  halted := h.halted

/-- A step that goes through extends the log by its instruction. -/
theorem step {i : Instruction} (h : AgreesWith m log) (hstep : m.step out = ⟨.ok i, m', out'⟩) :
    AgreesWith m' (log ++ [⟨m, i⟩]) := by
  have hstatus := status_step hstep
  have hcycles := cycles_step hstep
  have hfull := full_step hstep h.full
  obtain ⟨-, -, e, hexec, -, rfl⟩ := step_eq_ok_iff.1 hstep
  constructor
  · exact hfull
  · rw [lastCompared_append, complete, hexec.fl_eq, h.flags]
    cases i with
    | alu op a b => cases op <;> rfl
    | _ => rfl
  · rw [hcycles, h.cycles, List.length_append, List.length_singleton, UInt64.ofNat_add]
    rfl
  · simp [lastOf, complete]
  · rw [hstatus]
    simp only [complete, Option.some.injEq]
    split <;> simp_all

/-- A step that does not go through leaves the log as it is. -/
theorem fault {fault : Fault} (h : AgreesWith m log)
    (hstep : m.step out = ⟨.error fault, m', out'⟩) : AgreesWith m' log := by
  by_cases hrun : m.status = .running
  · obtain ⟨rfl, -⟩ := step_fault hrun hstep
    refine ⟨h.full, h.flags, h.cycles, h.last, ?_⟩
    -- neither a running nor a failed machine has just executed a HLT
    have hnot : ¬ m.last = some .hlt := fun hlast => by
      rw [h.halted.2 hlast] at hrun
      cases hrun
    exact iff_of_false (by simp [fail]) hnot
  · rw [step_of_ne_running out hrun] at hstep
    cases hstep
    exact h

theorem passage (h : AgreesWith m log) (hpass : Passage m out trace m' out') :
    AgreesWith m' (log ++ trace) := by
  induction hpass generalizing log with
  | refl m out => rwa [List.append_nil]
  | head hstep hrest ih =>
      have := ih (h.step hstep)
      rwa [List.append_assoc] at this

/-- Whatever a step or a run comes to, its log is added. -/
theorem outcome {o : Outcome α} (h : AgreesWith m log) (hlogs : Logs m out trace o) :
    AgreesWith o.machine (log ++ trace) := by
  cases hlogs with
  | through hpass _ => exact h.passage hpass
  | fault hpass hstep _ => exact (h.passage hpass).fault hstep

end AgreesWith

-- ============================================================ operations

/-- What the owner of a machine can do with it. A printer that fails at any
time may be attached to a step or a run. -/
inductive Operation where
  | load (bytes : List UInt8)
  | step (out : Printer)
  | run (out : Printer)
  | runLimited (max : UInt64) (out : Printer)
  | reset

/-- The machine with the program, or as it was if the program does not
fit. -/
def loadOrKeep (m : Machine) (bytes : List UInt8) : Machine :=
  match m.load bytes with
  | .ok loaded => loaded
  | .error _ => m

namespace Operation

/-- The machine after an operation; none if that is a run without end. -/
def perform (m : Machine) : Operation → Option Machine
  | load bytes => some (m.loadOrKeep bytes)
  | step out => some (m.step out).machine
  | run out => (m.run out).map (·.machine)
  | runLimited max out => some (m.runLimited max out).machine
  | reset => some m.reset

/-- The operation lets the machine step or run. -/
def IsExecution : Operation → Prop
  | step _ | run _ | runLimited _ _ => True
  | load _ | reset => False

end Operation

/-- The machine after some operations, one after the other. -/
def performAll (m : Machine) (ops : List Operation) : Option Machine :=
  ops.foldlM Operation.perform m

/-- `History ops log m`: the operations `ops` have brought a new machine to
`m`, and the instructions in `log` have gone through since it was new or
last reset. -/
inductive History : List Operation → List Event → Machine → Prop where
  | start : History [] [] fresh
  | load {ops : List Operation} {log : List Event} {m : Machine} (h : History ops log m)
      (bytes : List UInt8) : History (ops ++ [.load bytes]) log (m.loadOrKeep bytes)
  | step {ops : List Operation} {log events : List Event} {m : Machine} (h : History ops log m)
      (out : Printer) (logs : Logs m out events (m.step out)) :
      History (ops ++ [.step out]) (log ++ events) (m.step out).machine
  | run {ops : List Operation} {log events : List Event} {m : Machine} {o : Outcome UInt64}
      (h : History ops log m) (out : Printer) (outcome : m.run out = some o)
      (logs : Logs m out events o) : History (ops ++ [.run out]) (log ++ events) o.machine
  | runLimited {ops : List Operation} {log events : List Event} {m : Machine}
      (h : History ops log m) (max : UInt64) (out : Printer)
      (logs : Logs m out events (m.runLimited max out)) :
      History (ops ++ [.runLimited max out]) (log ++ events) (m.runLimited max out).machine
  | reset {ops : List Operation} {log : List Event} {m : Machine} (h : History ops log m) :
      History (ops ++ [.reset]) [] m.reset

theorem performAll_concat (m : Machine) (ops : List Operation) (op : Operation) :
    m.performAll (ops ++ [op]) = (m.performAll ops).bind (·.performAll [op]) :=
  List.foldlM_append

theorem performAll_singleton (m : Machine) (op : Operation) :
    m.performAll [op] = op.perform m := by
  simp [performAll]

/-- An operation that ends continues a history. -/
theorem History.exists_concat {ops : List Operation} {op : Operation} (h : History ops log m)
    (hop : op.perform m = some m') : ∃ log', History (ops ++ [op]) log' m' := by
  cases op with
  | load bytes =>
      cases hop
      exact ⟨log, h.load bytes⟩
  | step out =>
      cases hop
      obtain ⟨events, hlogs⟩ := exists_logs_step m out
      exact ⟨log ++ events, h.step out hlogs⟩
  | run out =>
      obtain ⟨o, hrun, rfl⟩ := Option.map_eq_some_iff.1 hop
      obtain ⟨events, hlogs⟩ := exists_logs_run hrun
      exact ⟨log ++ events, h.run out hrun hlogs⟩
  | runLimited max out =>
      cases hop
      obtain ⟨events, hlogs⟩ := exists_logs_runLimited m max out
      exact ⟨log ++ events, h.runLimited max out hlogs⟩
  | reset =>
      cases hop
      exact ⟨[], h.reset⟩

/-- Every sequence of operations that end has a history. -/
theorem exists_history {ops : List Operation} (h : fresh.performAll ops = some m) :
    ∃ log, History ops log m := by
  induction ops using List.reverseRecOn generalizing m with
  | nil =>
      cases h
      exact ⟨[], .start⟩
  | append_singleton ops op ih =>
      rw [performAll_concat, Option.bind_eq_some_iff] at h
      obtain ⟨m₁, hops, hop⟩ := h
      rw [performAll_singleton] at hop
      obtain ⟨log, hhistory⟩ := ih hops
      exact hhistory.exists_concat hop

/-- A history is one of what its operations do. -/
theorem History.performAll_eq {ops : List Operation} (h : History ops log m) :
    fresh.performAll ops = some m := by
  induction h with
  | start => rfl
  | run h out houtcome hlogs ih =>
      rw [performAll_concat, ih, Option.bind_some, performAll_singleton, Operation.perform, houtcome]
      rfl
  | _ =>
      rename_i ih
      rw [performAll_concat, ih, Option.bind_some, performAll_singleton]
      rfl

-- ============================================================= invariant

/-- Loading changes cells that are there, or nothing. -/
theorem AgreesWith.loadOrKeep (h : AgreesWith m log) (bytes : List UInt8) :
    AgreesWith (m.loadOrKeep bytes) log := by
  unfold Machine.loadOrKeep load
  cases hload : m.mem.load 0 bytes with
  | error e => exact h
  | ok mem =>
      obtain ⟨-, hsize, rfl⟩ := Memory.load_eq_ok_iff.1 hload
      exact h.withMemory (Memory.size_overwrite hsize)

/-- A machine with a full memory is new again after a reset. -/
theorem reset_eq_fresh (hfull : m.mem.Full) : m.reset = fresh := by
  have hclear : m.mem.clear = Memory.blank := by
    unfold Memory.clear Memory.blank
    rw [hfull]
  rw [Machine.reset, hclear]
  rfl

/-- Whatever its owner does, a machine agrees with its log. -/
theorem History.agreesWith {ops : List Operation} (h : History ops log m) : AgreesWith m log := by
  induction h with
  | start => exact .fresh
  | load h bytes ih => exact ih.loadOrKeep bytes
  | step h out hlogs ih => exact ih.outcome hlogs
  | run h out houtcome hlogs ih => exact ih.outcome hlogs
  | runLimited h max out hlogs ih => exact ih.outcome hlogs
  | reset h ih =>
      rw [reset_eq_fresh ih.full]
      exact .fresh

-- ============================================== what cannot come up any more

/-- In a full memory there is always something to decode. -/
theorem fetch_ne_memory (hfull : m.mem.Full) (e : MemoryError) : m.fetch ≠ .error (.memory e) := by
  obtain ⟨operands, -, hfetch⟩ := fetch_of_full hfull
  rw [hfetch]
  split <;> simp

theorem step_ne_memory (hfull : m.mem.Full) (out : Printer) (e : MemoryError) :
    (m.step out).result ≠ .error (.memory e) := by
  by_cases hrun : m.status = .running
  · intro herror
    exact (fault_of_full hrun hfull herror).1 e rfl
  · rw [step_of_ne_running out hrun]
    simp

/-- A run of a machine with a full memory ends with a fault of its program
or its printer only. -/
theorem Ending.fault_of_full {attempts : Nat} {o : Outcome UInt64} {fault : Fault}
    (h : Ending m out attempts o) (hfull : m.mem.Full) (herror : o.result = .error fault) :
    (∀ e, fault ≠ .memory e) ∧ ∀ status, fault ≠ .notRunning status := by
  cases h with
  | stopped hpass hstop => cases herror
  | fault hpass hrun hstep =>
      cases herror
      exact Machine.fault_of_full hrun (hpass.full hfull) (congrArg Outcome.result hstep)

/-- A machine that has stopped stays as it is, however it is stepped or
run. -/
theorem performAll_of_ne_running (hstop : m.status ≠ .running) {ops : List Operation}
    (hops : ∀ op ∈ ops, op.IsExecution) : m.performAll ops = some m := by
  induction ops with
  | nil => rfl
  | cons op ops ih =>
      rw [List.forall_mem_cons] at hops
      have hstays : op.perform m = some m := by
        cases op with
        | load bytes => exact hops.1.elim
        | reset => exact hops.1.elim
        | step out => rw [Operation.perform, step_of_ne_running out hstop]
        | run out =>
            have hending := Ending.stopped (.refl m out) hstop
            rw [Operation.perform, hending.run_eq (Nat.zero_le _)]
            rfl
        | runLimited max out =>
            have hrun : m.runLimited max out = ⟨.ok 0, m, out⟩ :=
              (Passage.refl m out).runLimited_eq (Nat.zero_le _) (Or.inl hstop)
            rw [Operation.perform, hrun]
      rw [performAll, List.foldlM_cons, hstays]
      exact ih hops.2

-- ============================================================ the theorem

/-- Whatever its owner does with a machine, it agrees with the log of what
has gone through since it was new or last reset. Every sequence of
operations that end has such a log; as long as the counter can count it,

- there are 256 cells, and no look at them misses one;
- the flags are one of four bytes, clear exactly if nothing has been
  compared, and otherwise those of the last comparison;
- the counter is the length of the log and the last instruction its last;
- the machine has halted exactly if that is a HLT;
- no run ends with a fault over memory or over a machine that does not run;
- a machine that has stopped stays as it is, however it is stepped or run;
- a reset leaves a new machine. -/
theorem reached_machine_agrees_with_log :
    (∀ ops m, fresh.performAll ops = some m ↔ ∃ log, History ops log m)
    ∧ ∀ ops log m, History ops log m → log.length < UInt64.size →
        m.mem.cells.size = 256
        ∧ (∀ e, m.fetch ≠ .error (.memory e))
        ∧ (∀ out e, (m.step out).result ≠ .error (.memory e))
        ∧ m.regs.fl.bits ∈ [0, 1, 2, 4]
        ∧ (m.regs.fl.bits = 0 ↔ ∀ e ∈ log, e.compared = none)
        ∧ (∀ a b, lastCompared log = some (a, b) → m.regs.fl = Flags.compare a b)
        ∧ m.cycles.toNat = log.length
        ∧ m.last = lastOf log
        ∧ (m.last = none ↔ m.cycles = 0)
        ∧ (m.status = .halted ↔ m.last = some .hlt)
        ∧ (∀ max out fault, (m.runLimited max out).result = .error fault →
            (∀ e, fault ≠ .memory e) ∧ ∀ status, fault ≠ .notRunning status)
        ∧ (∀ out o fault, m.run out = some o → o.result = .error fault →
            (∀ e, fault ≠ .memory e) ∧ ∀ status, fault ≠ .notRunning status)
        ∧ (m.status ≠ .running → ∀ later, (∀ op ∈ later, op.IsExecution) →
            m.performAll later = some m)
        ∧ m.reset = fresh := by
  refine ⟨fun ops m => ⟨exists_history, fun ⟨log, h⟩ => h.performAll_eq⟩, ?_⟩
  intro ops log m hhistory hroom
  have hagrees := hhistory.agreesWith
  have hfull := hagrees.full
  have hcycles : m.cycles.toNat = log.length := by
    rw [hagrees.cycles, UInt64.toNat_ofNat_of_lt' hroom]
  refine ⟨hfull, fetch_ne_memory hfull, step_ne_memory hfull, ?_, ?_, ?_, hcycles, hagrees.last, ?_,
    hagrees.halted, ?_, ?_, fun hstop later => performAll_of_ne_running hstop,
    reset_eq_fresh hfull⟩
  · rw [hagrees.flags]
    exact bits_flagsOf_mem _
  · rw [hagrees.flags, bits_flagsOf_eq_zero_iff, lastCompared, List.getLast?_eq_none_iff,
      List.filterMap_eq_nil_iff]
  · intro a b hlast
    rw [hagrees.flags, hlast]
    rfl
  · rw [hagrees.last, lastOf, Option.map_eq_none_iff, List.getLast?_eq_none_iff,
      ← List.length_eq_zero_iff, ← hcycles]
    exact UInt64.toNat_inj (b := 0)
  · intro max out fault herror
    obtain ⟨attempts, hending⟩ := ending_of_runLimited_error herror
    exact hending.fault_of_full hfull herror
  · intro out o fault hrun herror
    obtain ⟨attempts, -, hending⟩ := ending_of_run hrun
    exact hending.fault_of_full hfull herror

/-- A machine with a program that compares R0 with R1 and halts. -/
def comparing : Machine :=
  { fresh with mem := ⟨⟨[Opcode.cmp, 0, 1, Opcode.hlt] ++ List.replicate 252 0⟩⟩ }

theorem loadOrKeep_comparing :
    fresh.loadOrKeep [Opcode.cmp, 0, 1, Opcode.hlt] = comparing := by
  have hboot : fresh.load [Opcode.cmp, 0, 1, Opcode.hlt] = .ok comparing :=
    boot_eq_ok_iff.2 ⟨by decide, rfl⟩
  rw [loadOrKeep, hboot]

/-- The program, loaded and stepped through. -/
theorem comparing_agrees :
    let out := Printer.unlimited {}
    let compared := (fresh.loadOrKeep [Opcode.cmp, 0, 1, Opcode.hlt]).step out
    let halted := compared.machine.step out
    halted.machine.regs.fl = Flags.compare 0 0 ∧ halted.machine.cycles.toNat = 2
    ∧ halted.machine.status = .halted ∧ halted.machine.reset = fresh := by
  have hload := History.start.load [Opcode.cmp, 0, 1, Opcode.hlt]
  rw [loadOrKeep_comparing] at hload ⊢
  intro out compared halted
  have hcmp : compared = ⟨.ok (.alu .cmp 0 1), compared.machine, compared.out⟩ :=
    Outcome.eq_of_result (by decide +kernel)
  have hhlt : halted = ⟨.ok .hlt, halted.machine, halted.out⟩ :=
    Outcome.eq_of_result (by decide +kernel)
  have hlog : History [.load [Opcode.cmp, 0, 1, Opcode.hlt], .step out, .step out]
      [⟨comparing, .alu .cmp 0 1⟩, ⟨compared.machine, .hlt⟩] halted.machine :=
    (hload.step out (.through (.single hcmp) (congrArg Outcome.result hcmp))).step
      out (.through (.single hhlt) (congrArg Outcome.result hhlt))
  have hroom : 2 < UInt64.size := by decide
  obtain ⟨-, -, -, -, -, hflags, hcycles, hlast, -, hhalted, -, -, -, hreset⟩ :=
    reached_machine_agrees_with_log.2 _ _ _ hlog hroom
  exact ⟨hflags 0 0 (by decide +kernel), hcycles, hhalted.2 hlast, hreset⟩

end LS8.Machine
