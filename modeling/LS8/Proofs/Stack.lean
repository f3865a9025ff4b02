/-
The stack in memory is a stack.

As long as R7 is left to the instructions that push and pop, what a program
has pushed and not yet popped stands in memory from the stack pointer up, in
order, whatever else the program does: jump, print, or run code that it has
itself pushed. For the only instructions that write to memory are those that
push, and they write right below the stack pointer.

# The abstract stack

`restack` computes from the instructions of a passage alone what has been
pushed and not yet popped. `StackHolds` says that a machine holds such a
stack; every step keeps this (`StackHolds.step`), and so does every passage
(`StackHolds.passage`).

# Calls

A call that runs code which leaves the abstract stack as it was, and then a
RET, comes back behind the call. Such code may start from any stack and does
not look at what lies below (`restack_append`), so it starts from the empty
one.
-/
import LS8.Proofs.Passage

namespace LS8

-- ==================================================== the stack pointer

theorem Instruction.size_call (r : UInt8) : (call r).size = 2 := by
  simp [size, opcode, Opcode.size, Opcode.call]

/-- The register operand that an instruction writes, if it writes one. -/
def Instruction.destination : Instruction → Option UInt8
  | .ldi r _ => some r
  | .pop r => some r
  | .alu .add r _ => some r
  | .alu .mul r _ => some r
  | _ => none

/-- The instruction does not name R7 as the register to write, so the stack
pointer moves only as far as a push or a pop moves it. -/
def Instruction.SparesStackPointer (i : Instruction) : Prop :=
  ∀ r ∈ i.destination, r.toNat % 8 ≠ 7

instance (i : Instruction) : Decidable i.SparesStackPointer :=
  Option.decidableForallMem i.destination

/-- A write to another register leaves the stack pointer alone. -/
theorem Registers.sp_set_of_ne (regs : Registers) {reg : UInt8} (value : UInt8)
    (h : reg.toNat % 8 ≠ 7) : (regs.set reg value).sp = regs.sp := by
  have hne : index reg ≠ spIndex := by
    intro heq
    exact h (congrArg Fin.val heq)
  rw [sp_set, if_neg hne]

namespace Machine

/-- There is an address below every one but the first. -/
theorem toNat_sub_one_add_one {sp : UInt8} (h : sp ≠ 0) : (sp - 1).toNat + 1 = sp.toNat := by
  have hpos : (1 : UInt8).toNat ≤ sp.toNat :=
    Nat.pos_of_ne_zero fun hzero => h (UInt8.toNat_inj.1 hzero)
  rw [UInt8.toNat_sub_of_le _ _ (UInt8.le_iff_toNat_le.2 hpos)]
  exact Nat.sub_add_cancel hpos

-- =================================================== the abstract stack

/-- What an instruction does to an abstract stack, whose top comes first. It
pops nothing from an empty one. -/
def Event.restack (e : Event) (stack : List UInt8) : Option (List UInt8) :=
  match e.instruction, stack with
  | .push r, stack => some (e.before.regs.get r :: stack)
  | .call _, stack => some ((e.before.pc + 2) :: stack)
  | .pop _, _ :: stack => some stack
  | .ret, _ :: stack => some stack
  | .pop _, [] => none
  | .ret, [] => none
  | _, stack => some stack

/-- What a passage does to an abstract stack. -/
def restack (trace : List Event) (stack : List UInt8) : Option (List UInt8) :=
  trace.foldlM (fun stack e => e.restack stack) stack

theorem restack_cons (e : Event) (trace : List Event) (stack : List UInt8) :
    restack (e :: trace) stack = (e.restack stack).bind (restack trace) :=
  List.foldlM_cons

/-- An instruction looks at no more of the stack than it must. -/
theorem Event.restack_append {e : Event} {stack stack' : List UInt8}
    (h : e.restack stack = some stack') (below : List UInt8) :
    e.restack (stack ++ below) = some (stack' ++ below) := by
  obtain ⟨m, i⟩ := e
  cases i with
  | push r => cases h; rfl
  | call r => cases h; rfl
  | pop r =>
      cases stack with
      | nil => cases h
      | cons top stack => cases h; rfl
  | ret =>
      cases stack with
      | nil => cases h
      | cons top stack => cases h; rfl
  | _ => cases h; rfl

/-- Nor does a passage. -/
theorem restack_append {trace : List Event} {stack stack' : List UInt8}
    (h : restack trace stack = some stack') (below : List UInt8) :
    restack trace (stack ++ below) = some (stack' ++ below) := by
  induction trace generalizing stack with
  | nil =>
      cases h
      rfl
  | cons e trace ih =>
      rw [restack_cons, Option.bind_eq_some_iff] at h
      obtain ⟨stack₁, he, htrace⟩ := h
      rw [restack_cons, Event.restack_append he below]
      exact ih htrace

variable {m m' : Machine} {out out' : Printer} {base : Nat} {stack stack' : List UInt8}

-- ============================================================ invariant

/-- The machine holds the abstract stack: it reaches from the stack pointer
up to where the stack pointer was at `base`, and its values stand there in
order. -/
structure StackHolds (m : Machine) (base : Nat) (stack : List UInt8) : Prop where
  depth : m.regs.sp.toNat + stack.length = base
  cells : ∀ i, i < stack.length → m.mem.cells[m.regs.sp.toNat + i]? = stack[i]?

namespace StackHolds

/-- At the start nothing has been pushed. -/
theorem start (m : Machine) : StackHolds m m.regs.sp.toNat [] where
  depth := rfl
  cells := by
    intro i hi
    cases hi

/-- Only the stack pointer and the memory matter. -/
theorem congr (h : StackHolds m base stack) (hsp : m'.regs.sp = m.regs.sp)
    (hmem : m'.mem = m.mem) : StackHolds m' base stack where
  depth := by
    rw [hsp]
    exact h.depth
  cells := by
    rw [hsp, hmem]
    exact h.cells

/-- A push writes the cell below the top and no cell of the stack. -/
theorem push {value : UInt8} {pushed : Machine} (h : StackHolds m base stack)
    (hpush : m.push value = .ok pushed) : StackHolds pushed base (value :: stack) := by
  obtain ⟨hsp, mem, hwrite, rfl⟩ := push_eq_ok_iff.1 hpush
  have hbelow := toNat_sub_one_add_one hsp
  constructor
  · rw [Registers.sp_setSp, List.length_cons, ← h.depth]
    omega
  · intro i hi
    rw [Registers.sp_setSp, Memory.getElem?_write hwrite]
    cases i with
    | zero => rw [Nat.add_zero, if_pos rfl, List.getElem?_cons_zero]
    | succ i =>
        rw [if_neg (by omega), List.getElem?_cons_succ,
          ← h.cells i (Nat.lt_of_succ_lt_succ hi)]
        congr 1
        omega

/-- The top of the stack is what a pop reads. -/
theorem top_eq {top value : UInt8} (h : StackHolds m base (top :: stack))
    (htop : m.top = .ok value) : value = top := by
  obtain ⟨-, hcell⟩ := top_eq_ok_iff.1 htop
  have := h.cells 0 (Nat.zero_lt_succ _)
  rw [Nat.add_zero, hcell, List.getElem?_cons_zero] at this
  exact Option.some.inj this

/-- A pop leaves what stands above. -/
theorem shrink {top : UInt8} (h : StackHolds m base (top :: stack)) (hsp : m.regs.sp ≠ 255) :
    StackHolds m.shrinkStack base stack := by
  have hmax : m.regs.sp.toNat ≠ 255 := fun hmax => hsp (UInt8.toNat_inj.1 hmax)
  have hlt := m.regs.sp.toNat_lt
  have habove : (m.regs.sp + 1).toNat = m.regs.sp.toNat + 1 := by
    rw [UInt8.toNat_add]
    exact Nat.mod_eq_of_lt (show m.regs.sp.toNat + 1 < 256 by omega)
  have hdepth := h.depth
  rw [List.length_cons] at hdepth
  constructor
  · rw [shrinkStack, Registers.sp_setSp, habove]
    omega
  · intro i hi
    have hcell := h.cells (i + 1) (Nat.succ_lt_succ hi)
    rw [List.getElem?_cons_succ] at hcell
    rw [shrinkStack, Registers.sp_setSp, habove, ← hcell]
    congr 1
    omega

-- ==================================================== steps and passages

/-- A step keeps the stack. -/
theorem step {i : Instruction} (h : StackHolds m base stack)
    (hstep : m.step out = ⟨.ok i, m', out'⟩) (hspares : i.SparesStackPointer)
    (hrestack : Event.restack ⟨m, i⟩ stack = some stack') : StackHolds m' base stack' := by
  obtain ⟨-, -, e, hexec, -, rfl⟩ := step_eq_ok_iff.1 hstep
  cases hexec with
  | call hback hpush =>
      cases hrestack
      obtain ⟨-, rfl⟩ := following_eq_ok_iff.1 hback
      rw [Instruction.size_call, UInt8.ofNat_add, UInt8.ofNat_toNat] at hpush
      exact (h.push hpush).congr rfl rfl
  | push hnext hpush =>
      cases hrestack
      exact (h.push hpush).congr rfl rfl
  | ret htop =>
      cases stack with
      | nil => cases hrestack
      | cons top stack =>
          cases hrestack
          exact (h.shrink (top_eq_ok_iff.1 htop).1).congr rfl rfl
  | @pop r value next hnext htop =>
      cases stack with
      | nil => cases hrestack
      | cons top stack =>
          have hsp : (m.setRegister r value).regs.sp = m.regs.sp :=
            m.regs.sp_set_of_ne value (hspares r rfl)
          have hset : StackHolds (m.setRegister r value) base (top :: stack) := h.congr hsp rfl
          cases hrestack
          refine (hset.shrink ?_).congr rfl rfl
          rw [hsp]
          exact (top_eq_ok_iff.1 htop).1
  | @ldi r value next hnext =>
      cases hrestack
      exact h.congr (m.regs.sp_set_of_ne value (hspares r rfl)) rfl
  | @alu op a b next hnext =>
      cases hrestack
      cases op with
      | add => exact h.congr (m.regs.sp_set_of_ne _ (hspares a rfl)) rfl
      | mul => exact h.congr (m.regs.sp_set_of_ne _ (hspares a rfl)) rfl
      | cmp => exact h.congr rfl rfl
  | _ =>
      cases hrestack
      exact h.congr rfl rfl

/-- So does a passage. -/
theorem passage {trace : List Event} (h : StackHolds m base stack)
    (hpass : Passage m out trace m' out')
    (hspares : ∀ e ∈ trace, e.instruction.SparesStackPointer)
    (hrestack : restack trace stack = some stack') : StackHolds m' base stack' := by
  induction hpass generalizing stack with
  | refl m out =>
      cases hrestack
      exact h
  | head hstep hrest ih =>
      rw [restack_cons, Option.bind_eq_some_iff] at hrestack
      obtain ⟨stack₁, hfirst, hrestack⟩ := hrestack
      rw [List.forall_mem_cons] at hspares
      exact ih (h.step hstep hspares.1 hfirst) hspares.2 hrestack

-- ==================================================== what a pop comes to

variable {top : UInt8}

/-- A POP loads the top of the stack. -/
theorem get_pop {r : UInt8} (h : StackHolds m base (top :: stack))
    (hspares : (Instruction.pop r).SparesStackPointer)
    (hstep : m.step out = ⟨.ok (.pop r), m', out'⟩) : m'.regs.get r = top := by
  obtain ⟨-, -, e, hexec, -, rfl⟩ := step_eq_ok_iff.1 hstep
  cases hexec with
  | @pop _ value next hnext htop =>
      obtain rfl := h.top_eq htop
      have hne : Registers.index r ≠ Registers.spIndex := fun heq =>
        hspares r rfl (congrArg Fin.val heq)
      show ((m.regs.set r value).setSp _).get r = value
      rw [Registers.get_setSp, if_neg hne, Registers.get_set, if_pos rfl]

/-- A RET goes to the top of the stack. -/
theorem pc_ret (h : StackHolds m base (top :: stack))
    (hstep : m.step out = ⟨.ok .ret, m', out'⟩) : m'.pc = top := by
  obtain ⟨-, -, e, hexec, -, rfl⟩ := step_eq_ok_iff.1 hstep
  cases hexec with
  | ret htop => exact h.top_eq htop

end StackHolds

-- ================================================================ calls

/-- A call has an address behind it to come back to. -/
theorem pc_add_two_of_call {r : UInt8} (h : m.step out = ⟨.ok (.call r), m', out'⟩) :
    (m.pc + 2).toNat = m.pc.toNat + 2 := by
  obtain ⟨-, -, e, hexec, -, -⟩ := step_eq_ok_iff.1 h
  cases hexec with
  | call hback hpush =>
      obtain ⟨hlt, -⟩ := following_eq_ok_iff.1 hback
      rw [Instruction.size_call] at hlt
      rw [UInt8.toNat_add]
      exact Nat.mod_eq_of_lt hlt

/-- A call comes back behind itself with the stack pointer where it was, if
the code in between leaves the abstract stack as it was. -/
theorem call_returns {m₁ m₂ m₃ : Machine} {out₁ out₂ out₃ : Printer} {body : List Event}
    {r : UInt8} (hcall : m.step out = ⟨.ok (.call r), m₁, out₁⟩)
    (hbody : Passage m₁ out₁ body m₂ out₂)
    (hspares : ∀ e ∈ body, e.instruction.SparesStackPointer)
    (hbalanced : restack body [] = some [])
    (hret : m₂.step out₂ = ⟨.ok .ret, m₃, out₃⟩) :
    m₃.pc.toNat = m.pc.toNat + 2 ∧ m₃.regs.sp = m.regs.sp := by
  have hentered : StackHolds m₁ m.regs.sp.toNat [m.pc + 2] :=
    (StackHolds.start m).step hcall (by intro r hr; cases hr) rfl
  have hleft : StackHolds m₂ m.regs.sp.toNat [m.pc + 2] :=
    hentered.passage hbody hspares (restack_append hbalanced [m.pc + 2])
  have hback : StackHolds m₃ m.regs.sp.toNat [] :=
    hleft.step hret (by intro r hr; cases hr) rfl
  refine ⟨?_, UInt8.toNat_inj.1 hback.depth⟩
  rw [hleft.pc_ret hret, pc_add_two_of_call hcall]

-- ====================================================== the refinement

/-- The stack in memory refines the abstract stack. After every passage that
leaves R7 to the instructions that push and pop, and that pops nothing from
an empty stack, the stack pointer is as many below its start as values are on
the stack, and memory holds them in order; the next POP loads the top, and
the next RET goes there. And a call with balanced code behind it, then a RET,
comes back behind the call with the stack pointer where it was. -/
theorem stack_refines_list (m : Machine) (out : Printer) :
    (∀ trace m' out' stack, Passage m out trace m' out' →
      (∀ e ∈ trace, e.instruction.SparesStackPointer) → restack trace [] = some stack →
        m'.regs.sp.toNat + stack.length = m.regs.sp.toNat
        ∧ (∀ i, i < stack.length → m'.mem.cells[m'.regs.sp.toNat + i]? = stack[i]?)
        ∧ (∀ r m'' out'' top rest, (Instruction.pop r).SparesStackPointer →
            stack = top :: rest → m'.step out' = ⟨.ok (.pop r), m'', out''⟩ →
            m''.regs.get r = top)
        ∧ ∀ m'' out'' top rest, stack = top :: rest →
            m'.step out' = ⟨.ok .ret, m'', out''⟩ → m''.pc = top)
    ∧ ∀ r m₁ out₁ body m₂ out₂ m₃ out₃, m.step out = ⟨.ok (.call r), m₁, out₁⟩ →
        Passage m₁ out₁ body m₂ out₂ → (∀ e ∈ body, e.instruction.SparesStackPointer) →
        restack body [] = some [] → m₂.step out₂ = ⟨.ok .ret, m₃, out₃⟩ →
        m₃.pc.toNat = m.pc.toNat + 2 ∧ m₃.regs.sp = m.regs.sp := by
  constructor
  · intro trace m' out' stack hpass hspares hrestack
    have hholds := (StackHolds.start m).passage hpass hspares hrestack
    refine ⟨hholds.depth, hholds.cells, ?_, ?_⟩
    · intro r m'' out'' top rest hpop heq hstep
      rw [heq] at hholds
      exact hholds.get_pop hpop hstep
    · intro m'' out'' top rest heq hstep
      rw [heq] at hholds
      exact hholds.pc_ret hstep
  · intro r m₁ out₁ body m₂ out₂ m₃ out₃ hcall hbody hspares hbalanced hret
    exact call_returns hcall hbody hspares hbalanced hret

/-- A machine in front of a call to code that pushes R1, pops it into R2 and
returns. -/
def calling : Machine where
  regs := { gp := #v[4, 9, 0, 0, 0, 0, 0, 244], pc := 0, fl := Flags.clear }
  mem := ⟨⟨[Opcode.call, 0, Opcode.hlt, 0, Opcode.push, 1, Opcode.pop, 2, Opcode.ret]
    ++ List.replicate 247 0⟩⟩
  status := .running
  cycles := 0
  last := none

/-- The value arrives in R2, and the call comes back. -/
theorem calling_comes_back :
    let entered := calling.step (.unlimited {})
    let pushed := entered.machine.step entered.out
    let popped := pushed.machine.step pushed.out
    let returned := popped.machine.step popped.out
    popped.machine.regs.get 2 = 9
    ∧ returned.machine.pc.toNat = 2 ∧ returned.machine.regs.sp = 244 := by
  intro entered pushed popped returned
  have hcall : entered = ⟨.ok (.call 0), entered.machine, entered.out⟩ :=
    Outcome.eq_of_result (by decide +kernel)
  have hpush : pushed = ⟨.ok (.push 1), pushed.machine, pushed.out⟩ :=
    Outcome.eq_of_result (by decide +kernel)
  have hpop : popped = ⟨.ok (.pop 2), popped.machine, popped.out⟩ :=
    Outcome.eq_of_result (by decide +kernel)
  have hret : returned = ⟨.ok .ret, returned.machine, returned.out⟩ :=
    Outcome.eq_of_result (by decide +kernel)
  obtain ⟨hholds, hreturns⟩ := stack_refines_list calling (.unlimited {})
  constructor
  · obtain ⟨-, -, hget, -⟩ := hholds _ _ _ [9, 2] (.head hcall (.single hpush))
      (by simp only [List.forall_mem_cons]; decide) (by decide +kernel)
    exact hget 2 _ _ 9 [2] (by decide) rfl hpop
  · exact hreturns 0 _ _ _ _ _ _ _ hcall (.head hpush (.single hpop))
      (by simp only [List.forall_mem_cons]; decide) (by decide +kernel) hret

end Machine

end LS8
