/-
The rules of execution: one for each way in which an instruction goes
through, with all that it takes and all that it leaves. A conditional jump
has two, every other instruction one.

`execute_eq_ok_iff` says that the rules are the instructions, and
`step_eq_ok_iff` what a step adds to them. A fact about every step that goes
through is then a case split on the rules.
-/
import LS8.Machine.Effect

namespace LS8.Machine

-- ================================================== what the parts take

theorem following_eq_ok_iff {m : Machine} {i : Instruction} {next : UInt8} :
    m.following i = .ok next ↔
      m.pc.toNat + i.size < Memory.capacity ∧ next = UInt8.ofNat (m.pc.toNat + i.size) := by
  unfold following
  dsimp only
  split
  next hlt =>
    simp only [Except.ok.injEq, hlt, true_and]
    exact eq_comm
  next hge => simp [hge]

theorem push_eq_ok_iff {m m' : Machine} {value : UInt8} :
    m.push value = .ok m' ↔
      m.regs.sp ≠ 0 ∧ ∃ mem, m.mem.write (m.regs.sp - 1).toNat value = .ok mem
        ∧ m' = { m with mem, regs := m.regs.setSp (m.regs.sp - 1) } := by
  unfold push
  dsimp only
  split
  next hzero => simp [hzero]
  next hne =>
    cases m.mem.write (m.regs.sp - 1).toNat value with
    | error e => simp
    | ok mem => simp [hne, eq_comm]

theorem top_eq_ok_iff {m : Machine} {value : UInt8} :
    m.top = .ok value ↔
      m.regs.sp ≠ 255 ∧ m.mem.cells[m.regs.sp.toNat]? = some value := by
  unfold top
  dsimp only
  split
  next hfull => simp [hfull]
  next hne =>
    rw [← Memory.read_eq_ok_iff]
    cases m.mem.read m.regs.sp.toNat with
    | error e => simp
    | ok value' => simp [hne]

-- ============================================================= the rules

/-- `Executes m i e`: the instruction `i` goes through on the machine `m`
and leaves `e`. -/
inductive Executes (m : Machine) : Instruction → Effect → Prop where
  | hlt : Executes m .hlt { machine := { m with status := .halted } }
  | jmp (r : UInt8) : Executes m (.jmp r) { machine := m.jump (m.regs.get r) }
  | jeqTaken {r : UInt8} (equal : m.regs.fl.isEqual = true) :
      Executes m (.jeq r) { machine := m.jump (m.regs.get r) }
  | jeqPassed {r next : UInt8} (differs : m.regs.fl.isEqual = false)
      (behind : m.following (.jeq r) = .ok next) :
      Executes m (.jeq r) { machine := m.jump next }
  | jneTaken {r : UInt8} (differs : m.regs.fl.isEqual = false) :
      Executes m (.jne r) { machine := m.jump (m.regs.get r) }
  | jnePassed {r next : UInt8} (equal : m.regs.fl.isEqual = true)
      (behind : m.following (.jne r) = .ok next) :
      Executes m (.jne r) { machine := m.jump next }
  | call {r back : UInt8} {pushed : Machine} (behind : m.following (.call r) = .ok back)
      (push : m.push back = .ok pushed) :
      Executes m (.call r) { machine := pushed.jump (pushed.regs.get r) }
  | ret {back : UInt8} (top : m.top = .ok back) :
      Executes m .ret { machine := m.shrinkStack.jump back }
  | ldi {r value next : UInt8} (behind : m.following (.ldi r value) = .ok next) :
      Executes m (.ldi r value) { machine := (m.setRegister r value).jump next }
  | prn {r next : UInt8} (behind : m.following (.prn r) = .ok next) :
      Executes m (.prn r) { machine := m.jump next, prints := some (m.regs.get r) }
  | push {r next : UInt8} {pushed : Machine} (behind : m.following (.push r) = .ok next)
      (push : m.push (m.regs.get r) = .ok pushed) :
      Executes m (.push r) { machine := pushed.jump next }
  | pop {r value next : UInt8} (behind : m.following (.pop r) = .ok next)
      (top : m.top = .ok value) :
      Executes m (.pop r) { machine := (m.setRegister r value).shrinkStack.jump next }
  | alu {op : AluOp} {a b next : UInt8} (behind : m.following (.alu op a b) = .ok next) :
      Executes m (.alu op a b)
        { machine := { m with regs := m.regs.operate op a b }.jump next }

/-- What a binding in `Except` takes to be fine. -/
private theorem bind_eq_ok_iff {α β : Type} {x : Except Fault α} {f : α → Except Fault β}
    {b : β} : (x >>= f) = .ok b ↔ ∃ a, x = .ok a ∧ f a = .ok b := by
  cases x <;> simp [bind, Except.bind]

/-- The rules are the instructions. -/
theorem execute_eq_ok_iff {m : Machine} {i : Instruction} {e : Effect} :
    m.execute i = .ok e ↔ m.Executes i e := by
  constructor
  · intro h
    cases i with
    | hlt => cases h; exact .hlt
    | jmp r => cases h; exact .jmp r
    | jeq r =>
        simp only [execute] at h
        split at h
        next heq => cases h; exact .jeqTaken heq
        next hne =>
          obtain ⟨next, hnext, ⟨⟩⟩ := bind_eq_ok_iff.1 h
          exact .jeqPassed (Bool.eq_false_iff.2 hne) hnext
    | jne r =>
        simp only [execute] at h
        split at h
        next heq =>
          obtain ⟨next, hnext, ⟨⟩⟩ := bind_eq_ok_iff.1 h
          exact .jnePassed heq hnext
        next hne => cases h; exact .jneTaken (Bool.eq_false_iff.2 hne)
    | call r =>
        obtain ⟨back, hback, h⟩ := bind_eq_ok_iff.1 h
        obtain ⟨pushed, hpush, ⟨⟩⟩ := bind_eq_ok_iff.1 h
        exact .call hback hpush
    | ret =>
        obtain ⟨back, hback, ⟨⟩⟩ := bind_eq_ok_iff.1 h
        exact .ret hback
    | ldi r value =>
        obtain ⟨next, hnext, ⟨⟩⟩ := bind_eq_ok_iff.1 h
        exact .ldi hnext
    | prn r =>
        obtain ⟨next, hnext, ⟨⟩⟩ := bind_eq_ok_iff.1 h
        exact .prn hnext
    | push r =>
        obtain ⟨next, hnext, h⟩ := bind_eq_ok_iff.1 h
        obtain ⟨pushed, hpush, ⟨⟩⟩ := bind_eq_ok_iff.1 h
        exact .push hnext hpush
    | pop r =>
        obtain ⟨next, hnext, h⟩ := bind_eq_ok_iff.1 h
        obtain ⟨value, hvalue, ⟨⟩⟩ := bind_eq_ok_iff.1 h
        exact .pop hnext hvalue
    | alu op a b =>
        obtain ⟨next, hnext, ⟨⟩⟩ := bind_eq_ok_iff.1 h
        exact .alu hnext
  · intro h
    cases h with
    | hlt => rfl
    | jmp r => rfl
    | jeqTaken heq => simp only [execute, heq, if_true]
    | jeqPassed hne hnext =>
        simp only [execute, hne, Bool.false_eq_true, if_false, hnext]
        rfl
    | jneTaken hne => simp only [execute, hne, Bool.false_eq_true, if_false]
    | jnePassed heq hnext =>
        simp only [execute, heq, if_true, hnext]
        rfl
    | call hback hpush => exact bind_eq_ok_iff.2 ⟨_, hback, bind_eq_ok_iff.2 ⟨_, hpush, rfl⟩⟩
    | ret hback => exact bind_eq_ok_iff.2 ⟨_, hback, rfl⟩
    | ldi hnext => exact bind_eq_ok_iff.2 ⟨_, hnext, rfl⟩
    | prn hnext => exact bind_eq_ok_iff.2 ⟨_, hnext, rfl⟩
    | push hnext hpush => exact bind_eq_ok_iff.2 ⟨_, hnext, bind_eq_ok_iff.2 ⟨_, hpush, rfl⟩⟩
    | pop hnext hvalue => exact bind_eq_ok_iff.2 ⟨_, hnext, bind_eq_ok_iff.2 ⟨_, hvalue, rfl⟩⟩
    | alu hnext => exact bind_eq_ok_iff.2 ⟨_, hnext, rfl⟩

-- ================================================================ steps

theorem attempt_eq_ok_iff {m : Machine} {i : Instruction} {e : Effect} :
    m.attempt = .ok (i, e) ↔ m.fetch = .ok i ∧ m.Executes i e := by
  rw [← execute_eq_ok_iff]
  constructor
  · intro h
    obtain ⟨j, hfetch, h⟩ := bind_eq_ok_iff.1 h
    obtain ⟨f, hexec, ⟨⟩⟩ := bind_eq_ok_iff.1 h
    exact ⟨hfetch, hexec⟩
  · rintro ⟨hfetch, hexec⟩
    exact bind_eq_ok_iff.2 ⟨i, hfetch, bind_eq_ok_iff.2 ⟨e, hexec, rfl⟩⟩

/-- What it takes for a step to go through, and what it leaves. -/
theorem step_eq_ok_iff {m m' : Machine} {out out' : Printer} {i : Instruction} :
    m.step out = ⟨.ok i, m', out'⟩ ↔
      m.status = .running ∧ m.fetch = .ok i ∧ ∃ e, m.Executes i e
        ∧ out.receive e.prints = (.ok (), out') ∧ m' = e.machine.complete i := by
  rw [step_eq]
  constructor
  · intro h
    split at h
    next hrun =>
      split at h
      next fault hattempt => cases h
      next j e hattempt =>
        split at h
        next out₁ hreceive =>
          cases h
          obtain ⟨hfetch, hexec⟩ := attempt_eq_ok_iff.1 hattempt
          exact ⟨hrun, hfetch, e, hexec, hreceive, rfl⟩
        next text out₁ hreceive => cases h
    next hstop => cases h
  · rintro ⟨hrun, hfetch, e, hexec, hreceive, rfl⟩
    rw [if_pos hrun, attempt_eq_ok_iff.2 ⟨hfetch, hexec⟩]
    simp only [hreceive]

-- ============================================ what no instruction touches

/-- Executing an instruction leaves the counter alone. -/
theorem Executes.cycles_eq {m : Machine} {i : Instruction} {e : Effect}
    (h : m.Executes i e) : e.machine.cycles = m.cycles := by
  cases h with
  | call hback hpush => obtain ⟨-, mem, -, rfl⟩ := push_eq_ok_iff.1 hpush; rfl
  | push hnext hpush => obtain ⟨-, mem, -, rfl⟩ := push_eq_ok_iff.1 hpush; rfl
  | _ => rfl

/-- It leaves as many cells as there were. -/
theorem Executes.size_cells {m : Machine} {i : Instruction} {e : Effect}
    (h : m.Executes i e) : e.machine.mem.cells.size = m.mem.cells.size := by
  cases h with
  | call hback hpush =>
      obtain ⟨-, mem, hwrite, rfl⟩ := push_eq_ok_iff.1 hpush
      exact Memory.size_write hwrite
  | push hnext hpush =>
      obtain ⟨-, mem, hwrite, rfl⟩ := push_eq_ok_iff.1 hpush
      exact Memory.size_write hwrite
  | _ => rfl

/-- Only HLT changes the status. -/
theorem Executes.status_eq {m : Machine} {i : Instruction} {e : Effect}
    (h : m.Executes i e) : e.machine.status = if i = .hlt then .halted else m.status := by
  cases h with
  | call hback hpush => obtain ⟨-, mem, -, rfl⟩ := push_eq_ok_iff.1 hpush; rfl
  | push hnext hpush => obtain ⟨-, mem, -, rfl⟩ := push_eq_ok_iff.1 hpush; rfl
  | _ => rfl

/-- Only a comparison writes the flags. -/
theorem Executes.fl_eq {m : Machine} {i : Instruction} {e : Effect} (h : m.Executes i e) :
    e.machine.regs.fl = match i with
      | .alu .cmp a b => Flags.compare (m.regs.get a) (m.regs.get b)
      | _ => m.regs.fl := by
  cases h with
  | call hback hpush => obtain ⟨-, mem, -, rfl⟩ := push_eq_ok_iff.1 hpush; rfl
  | push hnext hpush => obtain ⟨-, mem, -, rfl⟩ := push_eq_ok_iff.1 hpush; rfl
  | @alu op a b next hnext => cases op <;> rfl
  | _ => rfl

/-- A step that goes through counts one. -/
theorem cycles_step {m m' : Machine} {out out' : Printer} {i : Instruction}
    (h : m.step out = ⟨.ok i, m', out'⟩) : m'.cycles = m.cycles + 1 := by
  obtain ⟨-, -, e, hexec, -, rfl⟩ := step_eq_ok_iff.1 h
  rw [complete, hexec.cycles_eq]

/-- Afterwards the machine still runs, or it has halted. -/
theorem status_step {m m' : Machine} {out out' : Printer} {i : Instruction}
    (h : m.step out = ⟨.ok i, m', out'⟩) :
    m'.status = if i = .hlt then .halted else .running := by
  obtain ⟨hrun, -, e, hexec, -, rfl⟩ := step_eq_ok_iff.1 h
  rw [complete, hexec.status_eq, hrun]

/-- A full memory stays full. -/
theorem full_step {m m' : Machine} {out out' : Printer} {i : Instruction}
    (h : m.step out = ⟨.ok i, m', out'⟩) (hfull : m.mem.Full) : m'.mem.Full := by
  obtain ⟨-, -, e, hexec, -, rfl⟩ := step_eq_ok_iff.1 h
  exact hexec.size_cells.trans hfull

end LS8.Machine
