/-
What a run leaves as it was, and what it has written last.

Every part of a machine is written by a few instructions only: a cell by the
pushes and calls that find the stack pointer right above it, the flags by
comparisons, a register by the instructions that name it as their
destination, and R7 also by those that move the stack. Jumps, PRN and HLT
write none of these.

# From steps to runs

If every step either writes a part of the machine or leaves it, that part is
after a run what was written last, or what it was before
(`Passage.last_written`). So for each part a single step is all there is to
look at. The step is a case split over the rules of execution, and no rule
writes a cell but by a push (`getElem?_push`).
-/
import LS8.Proofs.History
import LS8.Proofs.Stack

namespace LS8

-- ======================================================== instructions

namespace Instruction

/-- The instruction moves the stack pointer, whichever register it names. -/
def MovesStack : Instruction → Prop
  | push _ | pop _ | call _ | ret => True
  | _ => False

/-- The instruction may change the register that the operand byte `r` names:
it names the same one as its destination, or that is R7 and it moves the
stack. -/
def MayChange (i : Instruction) (r : UInt8) : Prop :=
  (∃ d ∈ i.destination, d.toNat % 8 = r.toNat % 8) ∨ (r.toNat % 8 = 7 ∧ i.MovesStack)

/-- The instruction writes no register, no flag and no cell. -/
def WritesNothing : Instruction → Prop
  | jmp _ | jeq _ | jne _ | prn _ | hlt => True
  | _ => False

variable {i : Instruction} {r : UInt8}

theorem index_ne_of_not_mayChange (h : ¬ i.MayChange r) {d : UInt8} (hd : d ∈ i.destination) :
    Registers.index d ≠ Registers.index r := fun heq =>
  h (Or.inl ⟨d, hd, congrArg Fin.val heq⟩)

theorem index_ne_sp_of_not_mayChange (h : ¬ i.MayChange r) (hi : i.MovesStack) :
    Registers.index r ≠ Registers.spIndex := fun heq =>
  h (Or.inr ⟨congrArg Fin.val heq, hi⟩)

end Instruction

namespace Machine

variable {m m' : Machine} {out out' : Printer} {trace : List Event} {i : Instruction}

-- ========================================================= what is written

/-- The value that an instruction pushes, if it pushes one. For a call that
is the address behind it. -/
def Event.pushed (e : Event) : Option UInt8 :=
  match e.instruction with
  | .push r => some (e.before.regs.get r)
  | .call _ => some (e.before.pc + 2)
  | _ => none

/-- The value that an instruction writes into the cell at `a`: what it
pushes, if it finds the stack pointer right above that cell. -/
def Event.storedAt (a : Nat) (e : Event) : Option UInt8 :=
  if e.before.regs.sp.toNat = a + 1 then e.pushed else none

/-- The last value that the instructions of a passage write into the cell at
`a`. -/
def lastStoredAt (a : Nat) (trace : List Event) : Option UInt8 :=
  (trace.filterMap (Event.storedAt a)).getLast?

-- ============================================================ single steps

/-- A push writes the cell below the stack pointer. -/
theorem getElem?_push {value : UInt8} {pushed : Machine} (h : m.push value = .ok pushed)
    (a : Nat) :
    pushed.mem.cells[a]? =
      if m.regs.sp.toNat = a + 1 then some value else m.mem.cells[a]? := by
  obtain ⟨hsp, mem, hwrite, rfl⟩ := push_eq_ok_iff.1 h
  have hbelow := toNat_sub_one_add_one hsp
  have haddress : a = (m.regs.sp - 1).toNat ↔ m.regs.sp.toNat = a + 1 := by omega
  rw [Memory.getElem?_write hwrite]
  simp only [haddress]

/-- A step writes the cell that its instruction writes, and no other. -/
theorem getElem?_step (h : m.step out = ⟨.ok i, m', out'⟩) (a : Nat) :
    m'.mem.cells[a]? = (Event.storedAt a ⟨m, i⟩).or m.mem.cells[a]? := by
  have hnone (hpushed : Event.pushed ⟨m, i⟩ = none) : Event.storedAt a ⟨m, i⟩ = none := by
    rw [Event.storedAt, hpushed, ite_self]
  have hsome {value : UInt8} {pushed : Machine} (hpush : m.push value = .ok pushed)
      (hpushed : Event.pushed ⟨m, i⟩ = some value) :
      pushed.mem.cells[a]? = (Event.storedAt a ⟨m, i⟩).or m.mem.cells[a]? := by
    rw [getElem?_push hpush, Event.storedAt, hpushed]
    split <;> rfl
  obtain ⟨-, -, e, hexec, -, rfl⟩ := step_eq_ok_iff.1 h
  cases hexec with
  | call hback hpush =>
      obtain ⟨-, rfl⟩ := following_eq_ok_iff.1 hback
      rw [Instruction.size_call, UInt8.ofNat_add, UInt8.ofNat_toNat] at hpush
      exact (hsome hpush rfl :)
  | push hnext hpush => exact (hsome hpush rfl :)
  | _ =>
      rw [hnone rfl]
      rfl

/-- A step that compares writes the flags, and no other does. -/
theorem fl_step (h : m.step out = ⟨.ok i, m', out'⟩) :
    m'.regs.fl =
      ((Event.compared ⟨m, i⟩).map fun (a, b) => Flags.compare a b).getD m.regs.fl := by
  obtain ⟨-, -, e, hexec, -, rfl⟩ := step_eq_ok_iff.1 h
  rw [complete, hexec.fl_eq]
  cases i with
  | alu op a b => cases op <;> rfl
  | _ => rfl

/-- A register that the instruction may not change is left alone. -/
theorem get_step (h : m.step out = ⟨.ok i, m', out'⟩) {r : UInt8} (hr : ¬ i.MayChange r) :
    m'.regs.get r = m.regs.get r := by
  have hpushed {value : UInt8} {pushed : Machine} (hpush : m.push value = .ok pushed)
      (hi : i.MovesStack) : pushed.regs.get r = m.regs.get r := by
    obtain ⟨-, mem, -, rfl⟩ := push_eq_ok_iff.1 hpush
    rw [Registers.get_setSp, if_neg (Instruction.index_ne_sp_of_not_mayChange hr hi)]
  obtain ⟨-, -, e, hexec, -, rfl⟩ := step_eq_ok_iff.1 h
  cases hexec with
  | call hback hpush => exact (hpushed hpush trivial :)
  | push hnext hpush => exact (hpushed hpush trivial :)
  | ret htop =>
      show (m.regs.setSp _).get r = _
      rw [Registers.get_setSp, if_neg (Instruction.index_ne_sp_of_not_mayChange hr trivial)]
  | pop hnext htop =>
      show ((m.regs.set _ _).setSp _).get r = _
      rw [Registers.get_setSp, if_neg (Instruction.index_ne_sp_of_not_mayChange hr trivial),
        Registers.get_set, if_neg (Instruction.index_ne_of_not_mayChange hr rfl)]
  | ldi hnext =>
      show (m.regs.set _ _).get r = _
      rw [Registers.get_set, if_neg (Instruction.index_ne_of_not_mayChange hr rfl)]
  | @alu op a b next hnext =>
      cases op with
      | cmp => rfl
      | _ =>
          show (m.regs.set _ _).get r = _
          rw [Registers.get_set, if_neg (Instruction.index_ne_of_not_mayChange hr rfl)]
  | _ => rfl

/-- What an instruction that goes through leaves of the machine `m` in `m'`:
every register that it may not change; and all but the program counter and
the status if it writes nothing. A call has an address to come back to. -/
structure Framed (m : Machine) (i : Instruction) (m' : Machine) : Prop where
  register : ∀ r, m'.regs.get r ≠ m.regs.get r → i.MayChange r
  nothing : i.WritesNothing → m'.regs = { m.regs with pc := m'.pc } ∧ m'.mem = m.mem
    ∧ m'.status = if i = .hlt then .halted else m.status
  back : ∀ r, i = .call r → (m.pc + 2).toNat = m.pc.toNat + 2

theorem framed_step (h : m.step out = ⟨.ok i, m', out'⟩) : Framed m i m' where
  register := fun r hne => by
    by_contra hr
    exact hne (get_step h hr)
  nothing := by
    intro hi
    obtain ⟨-, -, e, hexec, -, rfl⟩ := step_eq_ok_iff.1 h
    cases hexec with
    | call hback hpush => exact hi.elim
    | ret htop => exact hi.elim
    | ldi hnext => exact hi.elim
    | push hnext hpush => exact hi.elim
    | pop hnext htop => exact hi.elim
    | alu hnext => exact hi.elim
    | _ => exact ⟨rfl, rfl, rfl⟩
  back := by
    rintro r rfl
    exact pc_add_two_of_call h

-- ==================================================== from steps to runs

/-- A part of the machine that each step either writes or leaves is after a
passage what was written last, or what it was before. -/
theorem Passage.last_written {α : Type} (part : Machine → α) (written : Event → Option α)
    (hstep : ∀ {m m' : Machine} {out out' : Printer} {i : Instruction},
      m.step out = ⟨.ok i, m', out'⟩ → part m' = (written ⟨m, i⟩).getD (part m))
    (h : Passage m out trace m' out') :
    part m' = (trace.filterMap written).getLast?.getD (part m) := by
  induction h with
  | refl m out => rfl
  | @head m m₁ m₂ out out₁ out₂ i trace hfirst hrest ih =>
      rw [ih, hstep hfirst, List.filterMap_cons]
      cases written ⟨m, i⟩ with
      | none => rfl
      | some value =>
          rw [List.getLast?_cons]
          rfl

theorem Passage.getElem?_eq (h : Passage m out trace m' out') (a : Nat) :
    m'.mem.cells[a]? = (lastStoredAt a trace).or m.mem.cells[a]? := by
  have hlast := h.last_written (fun m => m.mem.cells[a]?) (fun e => (e.storedAt a).map some)
    fun hstep => by
      rw [getElem?_step hstep]
      cases Event.storedAt a _ <;> rfl
  rw [← List.map_filterMap, List.getLast?_map] at hlast
  rw [hlast, lastStoredAt]
  cases (trace.filterMap (Event.storedAt a)).getLast? <;> rfl

/-- Without a push or a call no cell changes. -/
theorem Passage.mem_eq (h : Passage m out trace m' out')
    (hnone : ∀ e ∈ trace, e.pushed = none) : m'.mem = m.mem := by
  have hcells : m'.mem.cells = m.mem.cells := by
    apply Array.ext_getElem?
    intro a
    have hstored : lastStoredAt a trace = none := by
      rw [lastStoredAt, List.getLast?_eq_none_iff, List.filterMap_eq_nil_iff]
      intro e he
      rw [Event.storedAt, hnone e he, ite_self]
    rw [h.getElem?_eq, hstored]
    rfl
  exact congrArg Memory.mk hcells

theorem Passage.fl_eq (h : Passage m out trace m' out') :
    m'.regs.fl =
      ((lastCompared trace).map fun (a, b) => Flags.compare a b).getD m.regs.fl := by
  have hlast := h.last_written (fun m => m.regs.fl)
    (fun e => e.compared.map fun (a, b) => Flags.compare a b) fl_step
  rwa [← List.map_filterMap, List.getLast?_map] at hlast

/-- A register that no instruction may change is left alone. -/
theorem Passage.get_eq (h : Passage m out trace m' out') {r : UInt8}
    (hr : ∀ e ∈ trace, ¬ e.instruction.MayChange r) : m'.regs.get r = m.regs.get r := by
  induction h with
  | refl m out => rfl
  | head hstep hrest ih =>
      rw [List.forall_mem_cons] at hr
      rw [ih hr.2, get_step hstep hr.1]

/-- The frame of a run, however long it is. A cell holds what was last
pushed into it, and the flags are those of the last comparison; where there
was none they are as before, so without a push or a call no cell changes. A
register that no instruction may change is as before; and every single step
of the run leaves what its instruction does not write. -/
theorem passage_changes_what_it_writes (h : Passage m out trace m' out') :
    (∀ a, m'.mem.cells[a]? = (lastStoredAt a trace).or m.mem.cells[a]?)
    ∧ ((∀ e ∈ trace, e.pushed = none) → m'.mem = m.mem)
    ∧ m'.regs.fl = ((lastCompared trace).map fun (a, b) => Flags.compare a b).getD m.regs.fl
    ∧ (∀ r, (∀ e ∈ trace, ¬ e.instruction.MayChange r) → m'.regs.get r = m.regs.get r)
    ∧ ∀ before e after, trace = before ++ e :: after →
        ∃ out₁ m₂ out₂, Passage m out before e.before out₁
          ∧ e.before.step out₁ = ⟨.ok e.instruction, m₂, out₂⟩
          ∧ Passage m₂ out₂ after m' out'
          ∧ Framed e.before e.instruction m₂ := by
  refine ⟨h.getElem?_eq, h.mem_eq, h.fl_eq, fun r => h.get_eq, ?_⟩
  rintro before e after rfl
  obtain ⟨m₁, out₁, hbefore, hafter⟩ := h.exists_of_append
  cases hafter with
  | head hstep hrest => exact ⟨out₁, _, _, hbefore, hstep, hrest, framed_step hstep⟩

/-- A call, a push, a pop into R2 and a RET: what the call and the push have
written is left above the new top of the stack, and R1 is as it was. -/
theorem calling_leaves_what_it_pushed :
    ∃ trace m' out', Passage calling (.unlimited {}) trace m' out'
      ∧ trace.map Event.instruction = [.call 0, .push 1, .pop 2, .ret]
      ∧ m'.mem.cells[243]? = some 2 ∧ m'.mem.cells[242]? = some 9
      ∧ m'.mem.cells[244]? = some 0 ∧ m'.regs.fl = Flags.clear ∧ m'.regs.get 1 = 9 := by
  let called := calling.step (.unlimited {})
  let pushed := called.machine.step called.out
  let popped := pushed.machine.step pushed.out
  let returned := popped.machine.step popped.out
  have hpass : Passage calling (.unlimited {})
      [⟨calling, .call 0⟩, ⟨called.machine, .push 1⟩, ⟨pushed.machine, .pop 2⟩,
        ⟨popped.machine, .ret⟩] returned.machine returned.out :=
    .head (Outcome.eq_of_result (by decide +kernel))
      (.head (Outcome.eq_of_result (by decide +kernel))
        (.head (Outcome.eq_of_result (by decide +kernel))
          (.single (Outcome.eq_of_result (by decide +kernel)))))
  obtain ⟨hcells, -, hflags, hregister, -⟩ := passage_changes_what_it_writes hpass
  refine ⟨_, _, _, hpass, rfl, ?_, ?_, ?_, hflags, ?_⟩
  · rw [hcells]
    decide +kernel
  · rw [hcells]
    decide +kernel
  · rw [hcells]
    decide +kernel
  · have hnames : ∀ e ∈ [(⟨calling, .call 0⟩ : Event), ⟨called.machine, .push 1⟩,
        ⟨pushed.machine, .pop 2⟩, ⟨popped.machine, .ret⟩], ¬ e.instruction.MayChange 1 := by
      simp [Instruction.MayChange, Instruction.destination]
    exact hregister 1 hnames

end Machine

end LS8
