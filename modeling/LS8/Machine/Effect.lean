/-
What an instruction comes to, as a function of the machine alone.

`execute` says what an instruction leaves behind and which value it prints,
or why it cannot go through. The work in place comes to the same
(`Work.run_execute`): the machine that is left behind and the value printed,
or, on a fault of any kind, the machine as it was. So a step commits an
instruction as a whole or not at all (`step_eq`), whatever the printer does,
and a fault changes the status only (`step_fault`).

The reason is one and the same for all thirteen instructions: whatever an
instruction asks, it asks before its first change, and what it asks once
more when the program counter moves (`following`) has the same answer,
because no change that comes before touches the program counter.
-/
import LS8.Machine.Step

namespace LS8

/-- What an instruction leaves behind: the machine, and the value that it
prints. -/
structure Effect where
  machine : Machine
  prints : Option UInt8 := none

namespace Machine

-- ============================================================ execution

/-- The stack grows downwards by `value`. -/
def push (m : Machine) (value : UInt8) : Except Fault Machine :=
  let sp := m.regs.sp
  if sp = 0 then .error .stackOverflow
  else
    match m.mem.write (sp - 1).toNat value with
    | .error e => .error (.memory e)
    | .ok mem => .ok { m with mem, regs := m.regs.setSp (sp - 1) }

/-- What `i` at the program counter leaves behind, or why it cannot go
through. -/
def execute (m : Machine) (i : Instruction) : Except Fault Effect :=
  match i with
  | .hlt => .ok { machine := { m with status := .halted } }
  | .jmp r => .ok { machine := m.jump (m.regs.get r) }
  | .jeq r =>
      if m.regs.fl.isEqual then .ok { machine := m.jump (m.regs.get r) }
      else do
        let next ← m.following i
        return { machine := m.jump next }
  | .jne r =>
      if m.regs.fl.isEqual then do
        let next ← m.following i
        return { machine := m.jump next }
      else .ok { machine := m.jump (m.regs.get r) }
  | .call r => do
      let back ← m.following i
      let m ← m.push back
      return { machine := m.jump (m.regs.get r) }
  | .ret => do
      let back ← m.top
      return { machine := m.shrinkStack.jump back }
  | .ldi r value => do
      let next ← m.following i
      return { machine := (m.setRegister r value).jump next }
  | .prn r => do
      let next ← m.following i
      return { machine := m.jump next, prints := some (m.regs.get r) }
  | .push r => do
      let next ← m.following i
      let m ← m.push (m.regs.get r)
      return { machine := m.jump next }
  | .pop r => do
      let next ← m.following i
      let value ← m.top
      return { machine := (m.setRegister r value).shrinkStack.jump next }
  | .alu op a b => do
      let next ← m.following i
      return { machine := { m with regs := m.regs.operate op a b }.jump next }

/-- The instruction at the program counter and what it leaves behind. -/
def attempt (m : Machine) : Except Fault (Instruction × Effect) := do
  let i ← m.fetch
  let effect ← m.execute i
  return (i, effect)

-- ================================= the address behind, before and after

/-- The address behind an instruction hangs on the program counter alone. -/
theorem following_congr {m m' : Machine} (i : Instruction) (h : m'.pc = m.pc) :
    m'.following i = m.following i := by
  unfold following
  rw [h]

theorem pc_push {m m' : Machine} {value : UInt8} (h : m.push value = .ok m') :
    m'.pc = m.pc := by
  unfold push at h
  dsimp only at h
  split at h
  · cases h
  · split at h
    · cases h
    · cases h
      rfl

theorem pc_operate (regs : Registers) (op : AluOp) (a b : UInt8) :
    (regs.operate op a b).pc = regs.pc := by
  cases op <;> rfl

end Machine

-- ============================================== the work and its effect

namespace Work

open Machine

variable (m : Machine) (out : Printer)

/-- The push in place and the push as a function. -/
theorem run_push (value : UInt8) :
    (push value).run (m, out) = match m.push value with
      | .ok m => .ok () (m, out)
      | .error fault => .error fault (m, out) := by
  rw [push, run_bind, run_machine]
  unfold Machine.push
  by_cases hsp : m.regs.sp = 0
  · simp only [hsp, if_true]
    rfl
  · simp only [hsp, if_false, run_bind, run_ask]
    cases m.mem.write (m.regs.sp - 1).toNat value with
    | error e => rfl
    | ok mem => rfl

theorem run_pop :
    pop.run (m, out) = match m.top with
      | .ok value => .ok value (m.shrinkStack, out)
      | .error fault => .error fault (m, out) := by
  simp only [pop, run_bind, run_ask]
  cases m.top with
  | error fault => rfl
  | ok value => rfl

/-- The work of PRN between its two looks at the address behind it. -/
theorem run_print_register (r : UInt8) :
    (do print ((← machine).regs.get r) : Work Unit).run (m, out) =
      match out.offer (m.regs.get r) with
      | (.ok (), out) => .ok () (m, out)
      | (.error text, out) => .error (.output text) (m, out) := by
  rw [run_bind, run_machine]
  exact run_print ..

/-- The work of PUSH. -/
theorem run_push_register (r : UInt8) :
    (do push ((← machine).regs.get r) : Work Unit).run (m, out) =
      match m.push (m.regs.get r) with
      | .ok m => .ok () (m, out)
      | .error fault => .error fault (m, out) := by
  rw [run_bind, run_machine]
  exact run_push ..

/-- The work of POP, which moves the stack pointer after the load. -/
theorem run_load_top (r : UInt8) :
    (do
        let value ← ask top
        change fun m => m.setRegister r value
        change shrinkStack : Work Unit).run (m, out) =
      match m.top with
      | .ok value => .ok () ((m.setRegister r value).shrinkStack, out)
      | .error fault => .error fault (m, out) := by
  simp only [run_bind, run_ask]
  cases m.top with
  | error fault => rfl
  | ok value => rfl

theorem run_move_behind (i : Instruction) :
    (move i .behind).run (m, out) = match m.following i with
      | .ok next => .ok () (m.jump next, out)
      | .error fault => .error fault (m, out) := by
  simp only [move, run_bind, run_ask]
  cases m.following i with
  | error fault => rfl
  | ok next => rfl

/-- Work between the check that there is an address behind `i` and the move
to it: if the work leaves the program counter alone, the move finds the
address that the check has found. -/
theorem run_onward (i : Instruction) {work : Work Unit}
    (hpc : ∀ {m' out'}, work.run (m, out) = .ok () (m', out') → m'.pc = m.pc) :
    (onward i work >>= move i).run (m, out) = match m.following i with
      | .error fault => .error fault (m, out)
      | .ok next =>
          match work.run (m, out) with
          | .ok () (m, out) => .ok () (m.jump next, out)
          | .error fault s => .error fault s := by
  simp only [onward, run_bind, run_ask]
  cases hnext : m.following i with
  | error fault => rfl
  | ok next =>
      dsimp only
      rcases hwork : work.run (m, out) with ⟨⟨⟩, m', out'⟩ | ⟨fault, s⟩
      · have hnext' : m'.following i = .ok next := by
          rw [following_congr i (hpc hwork), hnext]
        simp only [run_pure, run_move_behind, hnext']
      · rfl

/-- An instruction in place comes to its effect if the printer takes what it
prints. On any fault the machine is left as it was. -/
theorem run_execute (i : Instruction) :
    (execute i).run (m, out) = match m.execute i with
      | .error fault => .error fault (m, out)
      | .ok effect =>
          match out.receive effect.prints with
          | (.ok (), out) => .ok () (effect.machine, out)
          | (.error text, out) => .error (.output text) (m, out) := by
  unfold execute
  cases i with
  | hlt => rfl
  | jmp r => rfl
  | jeq r =>
      simp only [operate, run_bind, run_machine, run_pure, Machine.execute]
      cases m.regs.fl.isEqual with
      | true => rfl
      | false =>
          simp only [Bool.false_eq_true, if_false, run_move_behind]
          cases m.following (.jeq r) <;> rfl
  | jne r =>
      simp only [operate, run_bind, run_machine, run_pure, Machine.execute]
      cases m.regs.fl.isEqual with
      | true =>
          simp only [if_true, run_move_behind]
          cases m.following (.jne r) <;> rfl
      | false => rfl
  | call r =>
      simp only [operate, run_bind, run_ask, Machine.execute]
      cases m.following (.call r) with
      | error fault => rfl
      | ok back =>
          simp only [run_push, bind, Except.bind]
          cases m.push back <;> rfl
  | ret =>
      simp only [operate, run_bind, run_pop, Machine.execute]
      cases m.top <;> rfl
  | ldi r value =>
      rw [operate, run_onward m out _ (by rintro _ _ ⟨⟩; rfl), Machine.execute]
      cases m.following (.ldi r value) <;> rfl
  | prn r =>
      have hpc {m' out'} (h : (do print ((← machine).regs.get r) : Work Unit).run (m, out)
          = .ok () (m', out')) : m'.pc = m.pc := by
        rw [run_print_register] at h
        split at h <;> cases h
        rfl
      rw [operate, run_onward m out _ hpc, run_print_register]
      simp only [Machine.execute]
      cases m.following (.prn r) with
      | error fault => rfl
      | ok next =>
          simp only [bind, Except.bind, pure, Except.pure, Printer.receive]
          rcases out.offer (m.regs.get r) with ⟨_ | _, out'⟩ <;> rfl
  | push r =>
      have hpc {m' out'} (h : (do push ((← machine).regs.get r) : Work Unit).run (m, out)
          = .ok () (m', out')) : m'.pc = m.pc := by
        rw [run_push_register] at h
        split at h
        · next hpush => cases h; exact pc_push hpush
        · cases h
      rw [operate, run_onward m out _ hpc, run_push_register]
      simp only [Machine.execute]
      cases m.following (.push r) with
      | error fault => rfl
      | ok next =>
          simp only [bind, Except.bind]
          cases m.push (m.regs.get r) <;> rfl
  | pop r =>
      have hpc {m' out'} (h : (do
            let value ← ask top
            change fun m => m.setRegister r value
            change shrinkStack : Work Unit).run (m, out) = .ok () (m', out')) :
          m'.pc = m.pc := by
        rw [run_load_top] at h
        split at h <;> cases h
        rfl
      rw [operate, run_onward m out _ hpc, run_load_top]
      simp only [Machine.execute]
      cases m.following (.pop r) with
      | error fault => rfl
      | ok next =>
          simp only [bind, Except.bind]
          cases m.top <;> rfl
  | alu op a b =>
      rw [operate, run_onward m out _ (by rintro _ _ ⟨⟩; exact pc_operate ..), Machine.execute]
      cases m.following (.alu op a b) <;> rfl

end Work

-- ==================================================== steps as commits

namespace Machine

/-- A step commits the effect of an instruction if the printer takes what it
prints. Otherwise only the status changes. -/
theorem step_eq (m : Machine) (out : Printer) :
    m.step out =
      if m.status = .running then
        match m.attempt with
        | .error fault => ⟨.error fault, m.fail, out⟩
        | .ok (i, effect) =>
            match out.receive effect.prints with
            | (.ok (), out) => ⟨.ok i, effect.machine.complete i, out⟩
            | (.error text, out) => ⟨.error (.output text), m.fail, out⟩
      else
        ⟨.error (.notRunning m.status), m, out⟩ := by
  unfold step
  split
  · unfold attempt
    simp only [Work.instruction, Work.run_bind, Work.run_ask]
    cases m.fetch with
    | error fault => rfl
    | ok i =>
        simp only [Work.run_execute]
        cases hexec : m.execute i with
        | error fault => simp only [bind, Except.bind, hexec]
        | ok effect =>
            simp only [bind, Except.bind, pure, Except.pure, hexec]
            rcases out.receive effect.prints with ⟨_ | _, out'⟩ <;> rfl
  · rfl

/-- A fault of a running machine changes the status and nothing else, and
nothing is printed. -/
theorem step_fault {m m' : Machine} {out out' : Printer} {fault : Fault}
    (hrun : m.status = .running) (h : m.step out = ⟨.error fault, m', out'⟩) :
    m' = m.fail ∧ out'.printed = out.printed := by
  rw [step_eq, if_pos hrun] at h
  split at h
  next fault' hattempt =>
    cases h
    exact ⟨rfl, rfl⟩
  next i e hattempt =>
    split at h
    next out₁ hreceive => cases h
    next text out₁ hreceive =>
      cases h
      exact ⟨rfl, Printer.printed_of_receive_error hreceive⟩

/-- A machine that has stopped refuses, and nothing changes. -/
theorem step_of_ne_running {m : Machine} (out : Printer) (h : m.status ≠ .running) :
    m.step out = ⟨.error (.notRunning m.status), m, out⟩ := by
  rw [step_eq, if_neg h]

end Machine

end LS8
