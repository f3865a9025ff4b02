/-
A run goes on from a machine that was written down.

Every part of a state is a plain value that is read back as the part it was
written for (`LS8.Proofs.Restoring`), and a plain value is read back from
either of its texts. So the two together lose nothing (`read?_written`), and
a run may be interrupted anywhere: the machine is written down, the text is
all that is kept of it, and another one goes on from there.

# What an interrupted run is compared with

One run whose limit comes as far as the two limits do. That is their sum as
long as a limit can be as large, and the largest limit otherwise: the counter
saturates, so neither of them comes any further (`allowance_reach`).

A run may also be interrupted by its own fault. The machine that is written
down has then failed, and the second part does nothing.
-/
import LS8.Proofs.Restoring
import LS8.Proofs.Atomicity

namespace LS8

-- =============================================================== texts

namespace Json

/-- The layouts that a state is written in. -/
inductive Layout where
  /-- One line without blanks, as a session gives it. -/
  | compact
  /-- Many lines, as a command leaves them. -/
  | pretty
  deriving DecidableEq, Repr

/-- The text of a value. -/
def written (value : Json) : Layout → String
  | .compact => value.compact
  | .pretty => value.pretty

/-- What a text stands for: the value that it writes, if that is the value
of something. -/
def read? {α : Type} (ofJson? : Json → Option α) (text : String) : Option α :=
  (parse? text).bind ofJson?

/-- A plain value is read back from either text. -/
theorem parse?_written {value : Json} (h : value.Plain) (layout : Layout) :
    parse? (value.written layout) = some value := by
  cases layout with
  | compact => exact parse?_compact h
  | pretty => exact parse?_pretty h

/-- What is read back from its value is read back from the texts of its
value. -/
theorem read?_written {α : Type} {ofJson? : Json → Option α} {value : Json} {a : α}
    (hplain : value.Plain) (hread : ofJson? value = some a) (layout : Layout) :
    read? ofJson? (value.written layout) = some a := by
  rw [read?, parse?_written hplain, Option.bind_some, hread]

end Json

open Json

namespace Machine

/-- A machine is read back from either text of its state. -/
theorem read?_written (m : Machine) (layout : Layout) :
    read? ofJson? (m.toJson.written layout) = some m :=
  Json.read?_written m.plain_toJson m.ofJson?_toJson layout

-- ==================================================== two parts of a run

/-- What the two parts of a run come to together: the fault of the first, or
all that has gone through in both. -/
def joined : Except Fault UInt64 → Except Fault UInt64 → Except Fault UInt64
  | .error fault, _ => .error fault
  | .ok n, second => second.map (n + ·)

/-- The limit that comes as far as two limits one after the other: their
sum, cut to the largest limit. -/
def reach (a b : UInt64) : UInt64 :=
  UInt64.ofNat (min (a.toNat + b.toNat) (UInt64.size - 1))

variable {m : Machine} {out : Printer} {a b : UInt64}

theorem allowance_reach (m : Machine) (a b : UInt64) :
    m.allowance (reach a b) = min (a.toNat + b.toNat) (UInt64.size - 1 - m.cycles.toNat) := by
  have hreach : (reach a b).toNat = min (a.toNat + b.toNat) (UInt64.size - 1) := by
    apply UInt64.toNat_ofNat_of_lt'
    have : 0 < UInt64.size := by decide
    omega
  rw [allowance, hreach]
  omega

/-- A run that has faulted leaves a machine that goes no further. -/
theorem runLimited_of_faulted {fault : Fault} (h : (m.runLimited a out).result = .error fault) :
    (m.runLimited a out).machine.runLimited b (m.runLimited a out).out =
      ⟨.ok 0, (m.runLimited a out).machine, (m.runLimited a out).out⟩ := by
  obtain ⟨attempts, hending⟩ := ending_of_runLimited_error h
  obtain ⟨trace, m', out', -, -, -, hmachine, -⟩ := hending.breakdown h
  have hstop : (m.runLimited a out).machine.status ≠ .running := by
    rw [hmachine]
    exact nofun
  exact (Passage.refl _ _).runLimited_eq (Nat.zero_le _) (Or.inl hstop)

/-- Two runs, the second from where the first has ended, are one run. -/
theorem runLimited_reach (m : Machine) (a b : UInt64) (out : Printer) :
    let first := m.runLimited a out
    let second := first.machine.runLimited b first.out
    m.runLimited (reach a b) out =
      ⟨joined first.result second.result, second.machine, second.out⟩ := by
  intro first second
  cases hresult : first.result with
  | ok n =>
      have hfirst : m.runLimited a out = ⟨.ok n, first.machine, first.out⟩ :=
        Outcome.eq_of_result hresult
      exact runLimited_cut (allowance_reach m a b) hfirst
  | error fault =>
      have hsecond : second = ⟨.ok 0, first.machine, first.out⟩ := runLimited_of_faulted hresult
      have hle : a.toNat ≤ (reach a b).toNat := by
        have := a.toNat_lt_size
        rw [reach, UInt64.toNat_ofNat_of_lt' (by omega)]
        omega
      rw [runLimited_of_error hresult hle, hsecond]
      exact Outcome.eq_of_result hresult

-- ===================================================== interrupted runs

/-- A run of at most `a` instructions, after which the machine is written
down; then one of at most `b` by the machine that the text stands for, with
the printer as it was left. Nothing if the text stands for no machine. -/
def runInterrupted (layout : Layout) (m : Machine) (a b : UInt64) (out : Printer) :
    Option (Outcome UInt64) :=
  let first := m.runLimited a out
  (read? ofJson? (first.machine.toJson.written layout)).map fun restored =>
    let second := restored.runLimited b first.out
    ⟨joined first.result second.result, second.machine, second.out⟩

/-- Nothing of a state is lost in its texts, whatever the layout: registers,
memories, instructions and machines are read back as they were written. So
an interrupted run comes to what the run comes to without the interruption:
the same result, the same output and the same machine. -/
theorem interrupted_run_resumes (layout : Layout) :
    (∀ regs : Registers, read? Registers.ofJson? (regs.toJson.written layout) = some regs)
    ∧ (∀ mem : Memory, read? Memory.ofJson? (mem.toJson.written layout) = some mem)
    ∧ (∀ i : Instruction, read? Instruction.ofJson? (i.toJson.written layout) = some i)
    ∧ (∀ m : Machine, read? ofJson? (m.toJson.written layout) = some m)
    ∧ ∀ (m : Machine) (a b : UInt64) (out : Printer),
        m.runInterrupted layout a b out = some (m.runLimited (reach a b) out) := by
  refine ⟨?_, ?_, ?_, ?_, ?_⟩
  · intro regs
    exact Json.read?_written regs.plain_toJson regs.ofJson?_toJson layout
  · intro mem
    exact Json.read?_written mem.plain_toJson mem.ofJson?_toJson layout
  · intro i
    exact Json.read?_written i.plain_toJson i.ofJson?_toJson layout
  · intro m
    exact m.read?_written layout
  · intro m a b out
    rw [runInterrupted, read?_written, Option.map_some, runLimited_reach]

end Machine

end LS8
