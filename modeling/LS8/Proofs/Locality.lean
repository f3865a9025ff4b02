/-
Execution depends on the bytes that it reads.

A step call reads the bytes of the instruction at the program counter, only
the first if there is none, and the cell on top of the stack where POP or
RET takes it (`reads`). Two machines with the same registers that agree on
these cells make the same step (`Agree.advance`), and then agree on the cell
that a push has written, too. So runs of two machines stay together as long
as the one reads only where both agree or where it has itself written
(`Agree.iterate`), whatever stands in all other cells and wherever the
counters stand.

# Fewer bytes than are looked at

Fetching looks at three bytes, or at as many as there are up to the last
address, and no more than the instruction has may matter
(`Agree.fetch_eq_ok`). Where there is no instruction, the first byte alone
says why (`obstacle`).
-/
import Mathlib.Data.Set.Insert
import Mathlib.Logic.Function.Iterate
import LS8.Proofs.Faults
import LS8.Proofs.Printing

namespace LS8

-- ============================================================= printers

namespace Printer

/-- Whatever the two printers will be offered, they take the same. -/
def BehavesLike (out₁ out₂ : Printer) : Prop :=
  ∀ later value, out₁.refusal (later ++ out₁.offered) value =
    out₂.refusal (later ++ out₂.offered) value

/-- What the first printer has printed on its way to `out₁'`, the second has
printed on its way to `out₂'`. -/
def PrintSame (out₁ out₁' out₂ out₂' : Printer) : Prop :=
  ∃ printed, out₁'.printed.values.toList = out₁.printed.values.toList ++ printed
    ∧ out₂'.printed.values.toList = out₂.printed.values.toList ++ printed

/-- On the spot both print nothing. -/
theorem PrintSame.refl (out₁ out₂ : Printer) : PrintSame out₁ out₁ out₂ out₂ :=
  ⟨[], (List.append_nil _).symm, (List.append_nil _).symm⟩

theorem PrintSame.trans {out₁ out₁' out₁'' out₂ out₂' out₂'' : Printer}
    (h : PrintSame out₁ out₁' out₂ out₂') (h' : PrintSame out₁' out₁'' out₂' out₂'') :
    PrintSame out₁ out₁'' out₂ out₂'' := by
  obtain ⟨printed, hleft, hright⟩ := h
  obtain ⟨more, hleft', hright'⟩ := h'
  refine ⟨printed ++ more, ?_, ?_⟩
  · rw [hleft', hleft, List.append_assoc]
  · rw [hright', hright, List.append_assoc]

/-- Printers that behave alike answer an offer alike, print the same, and go
on so. -/
theorem BehavesLike.receive {out₁ out₂ : Printer} (h : out₁.BehavesLike out₂)
    (value : Option UInt8) :
    ∃ answer out₁' out₂', out₁.receive value = (answer, out₁')
      ∧ out₂.receive value = (answer, out₂') ∧ out₁'.BehavesLike out₂'
      ∧ PrintSame out₁ out₁' out₂ out₂' := by
  cases value with
  | none => exact ⟨_, out₁, out₂, rfl, rfl, h, .refl out₁ out₂⟩
  | some value =>
      have hnow : out₁.refusal out₁.offered value = out₂.refusal out₂.offered value := h [] value
      have hthen : ∀ later value',
          out₁.refusal (later ++ value :: out₁.offered) value' =
            out₂.refusal (later ++ value :: out₂.offered) value' := by
        intro later value'
        rw [List.append_cons, List.append_cons later value out₂.offered]
        exact h (later ++ [value]) value'
      simp only [Printer.receive, offer, ← hnow]
      cases out₁.refusal out₁.offered value with
      | none =>
          refine ⟨_, _, _, rfl, rfl, hthen, [value], ?_, ?_⟩
          · exact Printout.values_add _ _
          · exact Printout.values_add _ _
      | some text => exact ⟨_, _, _, rfl, rfl, hthen, .refl out₁ out₂⟩

end Printer

namespace Machine

-- ====================================================== reads and writes

/-- The addresses of the cells that the next step call reads. -/
def reads (m : Machine) : List UInt8 :=
  if m.status = .running then
    match m.fetch with
    | .error _ => [m.pc]
    | .ok i =>
        let code := (List.range i.size).map fun k => m.pc + UInt8.ofNat k
        if i.opcode ∈ [Opcode.pop, Opcode.ret] ∧ (m.execute i).isOk then code ++ [m.regs.sp]
        else code
  else []

/-- The address of the cell that `i` writes on the machine, if it writes
one. -/
def target (m : Machine) (i : Instruction) : Option UInt8 :=
  match i with
  | .push _ | .call _ => some (m.regs.sp - 1)
  | _ => none

/-- The address of the cell that the next step call writes, if it writes
one. -/
def writes (s : Machine × Printer) : Option UInt8 :=
  match (s.1.step s.2).result with
  | .ok i => s.1.target i
  | .error _ => none

/-- The addresses in `known` and those that are written in `n` step
calls. -/
def knownAfter (known : Set UInt8) (s : Machine × Printer) (n : Nat) : Set UInt8 :=
  known ∪ {a | ∃ k < n, writes (advance^[k] s) = some a}

theorem knownAfter_zero (known : Set UInt8) (s : Machine × Printer) :
    knownAfter known s 0 = known := by
  simp [knownAfter]

theorem knownAfter_succ (known : Set UInt8) (s : Machine × Printer) (n : Nat) :
    knownAfter known s (n + 1) = knownAfter known s n ∪ {a | writes (advance^[n] s) = some a} := by
  ext a
  simp only [knownAfter, Set.mem_union, Set.mem_ofPred_eq, Nat.lt_succ_iff_lt_or_eq]
  grind

/-- Each byte of an instruction is read. -/
theorem mem_reads_code {m : Machine} {i : Instruction} (hrun : m.status = .running)
    (hfetch : m.fetch = .ok i) {k : Nat} (hk : k < i.size) :
    m.pc + UInt8.ofNat k ∈ m.reads := by
  have hcode : m.pc + UInt8.ofNat k ∈ (List.range i.size).map fun k => m.pc + UInt8.ofNat k :=
    List.mem_map_of_mem (List.mem_range.2 hk)
  rw [reads, if_pos hrun, hfetch]
  dsimp only
  split
  · exact List.mem_append_left _ hcode
  · exact hcode

/-- The first byte is read, whether or not there is an instruction. -/
theorem mem_reads_pc {m : Machine} (hrun : m.status = .running) : m.pc ∈ m.reads := by
  cases hfetch : m.fetch with
  | error fault =>
      rw [reads, if_pos hrun, hfetch]
      exact List.mem_singleton_self _
  | ok i =>
      have hfirst := mem_reads_code hrun hfetch i.size_pos
      have haddress : m.pc + UInt8.ofNat 0 = m.pc := UInt8.add_zero m.pc
      rwa [haddress] at hfirst

/-- POP and RET read the top of the stack. -/
theorem mem_reads_sp {m : Machine} {i : Instruction} {e : Effect} (hrun : m.status = .running)
    (hfetch : m.fetch = .ok i) (hexec : m.Executes i e)
    (hshrink : i.opcode ∈ [Opcode.pop, Opcode.ret]) : m.regs.sp ∈ m.reads := by
  have hok : (m.execute i).isOk = true := by
    rw [execute_eq_ok_iff.2 hexec]
    rfl
  rw [reads, if_pos hrun, hfetch]
  dsimp only
  rw [if_pos ⟨hshrink, hok⟩]
  exact List.mem_append_right _ List.mem_cons_self

-- ============================================================= agreement

/-- The two machines have the same registers and status, and their memories
agree on the `known` addresses. -/
structure Agree (known : Set UInt8) (m₁ m₂ : Machine) : Prop where
  regs : m₁.regs = m₂.regs
  status : m₁.status = m₂.status
  left : m₁.mem.Full
  right : m₂.mem.Full
  cells : ∀ a ∈ known, m₁.mem.cells[a.toNat]? = m₂.mem.cells[a.toNat]?

namespace Agree

variable {known : Set UInt8} {m₁ m₂ : Machine}

theorem pc (h : Agree known m₁ m₂) : m₁.pc = m₂.pc :=
  congrArg Registers.pc h.regs

/-- Machines that agree on the bytes of an instruction fetch it. -/
theorem fetch_eq_ok {i : Instruction} (h : Agree known m₁ m₂) (hrun : m₁.status = .running)
    (hreads : ∀ a ∈ m₁.reads, a ∈ known) (hfetch : m₁.fetch = .ok i) : m₂.fetch = .ok i := by
  have hcode := (fetch_eq_ok_iff h.left).1 hfetch
  have hroom := hcode.length_le
  rw [Instruction.length_encode, List.length_drop, Array.length_toList, h.left] at hroom
  rw [List.prefix_iff_getElem?] at hcode
  rw [fetch_eq_ok_iff h.right, List.prefix_iff_getElem?]
  intro k hk
  have hbyte := hcode k hk
  have hread : m₁.pc + UInt8.ofNat k ∈ known := by
    apply hreads
    apply mem_reads_code hrun hfetch
    rwa [← Instruction.length_encode]
  have haddress : (m₁.pc + UInt8.ofNat k).toNat = m₁.pc.toNat + k := by
    have hlast : m₁.pc.toNat + k < 256 := by
      rw [Instruction.length_encode] at hk
      rw [Memory.capacity] at hroom
      omega
    rw [UInt8.toNat_add, UInt8.toNat_ofNat']
    omega
  have hcell := h.cells _ hread
  rw [haddress] at hcell
  rw [List.getElem?_drop, Array.getElem?_toList] at hbyte ⊢
  rw [← h.pc, ← hcell]
  exact hbyte

/-- What stands in the way of the one stands in the way of the other. -/
theorem obstacle_eq (h : Agree known m₁ m₂) (hpc : m₁.pc ∈ known) :
    m₁.obstacle = m₂.obstacle := by
  have hbyte : m₁.mem.peek m₁.pc.toNat = m₂.mem.peek m₂.pc.toNat := by
    rw [Memory.peek_eq, Memory.peek_eq, h.cells _ hpc, h.pc]
  obtain ⟨regs₁, mem₁, status₁, cycles₁, last₁⟩ := m₁
  obtain ⟨regs₂, mem₂, status₂, cycles₂, last₂⟩ := m₂
  obtain rfl : regs₁ = regs₂ := h.regs
  unfold obstacle
  rw [hbyte]
  rfl

/-- Where memory is left alone, what the memories agreed on stays known. -/
theorem kept {m₁' m₂' : Machine} (h : Agree known m₁ m₂) (hregs : m₁'.regs = m₂'.regs)
    (hstatus : m₁'.status = m₂'.status) (hleft : m₁'.mem = m₁.mem) (hright : m₂'.mem = m₂.mem) :
    Agree (known ∪ {a | (none : Option UInt8) = some a}) m₁' m₂' where
  regs := hregs
  status := hstatus
  left := by
    rw [hleft]
    exact h.left
  right := by
    rw [hright]
    exact h.right
  cells := by
    intro a ha
    rw [hleft, hright]
    exact h.cells a (ha.resolve_right nofun)

/-- A push makes one more cell known. -/
theorem push {value : UInt8} {pushed₁ : Machine} (h : Agree known m₁ m₂)
    (hpush : m₁.push value = .ok pushed₁) :
    ∃ pushed₂, m₂.push value = .ok pushed₂
      ∧ Agree (known ∪ {a | some (m₁.regs.sp - 1) = some a}) pushed₁ pushed₂ := by
  obtain ⟨hsp, mem₁, hwrite₁, rfl⟩ := push_eq_ok_iff.1 hpush
  obtain ⟨mem₂, hwrite₂⟩ := h.right.exists_write (m₁.regs.sp - 1).toNat_lt value
  have hpush₂ : m₂.push value =
      .ok { m₂ with mem := mem₂, regs := m₂.regs.setSp (m₂.regs.sp - 1) } := by
    rw [push_eq_ok_iff, ← h.regs]
    exact ⟨hsp, mem₂, hwrite₂, rfl⟩
  refine ⟨_, hpush₂, ?_, h.status, ?_, ?_, ?_⟩
  · rw [h.regs]
  · exact (Memory.size_write hwrite₁).trans h.left
  · exact (Memory.size_write hwrite₂).trans h.right
  · intro a ha
    rw [Memory.getElem?_write hwrite₁, Memory.getElem?_write hwrite₂]
    by_cases hcell : a.toNat = (m₁.regs.sp - 1).toNat
    · rw [if_pos hcell, if_pos hcell]
    · rw [if_neg hcell, if_neg hcell]
      apply h.cells a
      apply ha.resolve_right
      intro hwritten
      cases hwritten
      exact hcell rfl

/-- Machines that agree on the top of the stack pop the same. -/
theorem top_eq_ok {value : UInt8} (h : Agree known m₁ m₂) (hsp : m₁.regs.sp ∈ known)
    (htop : m₁.top = .ok value) : m₂.top = .ok value := by
  rw [top_eq_ok_iff] at htop ⊢
  rw [← h.regs, ← h.cells _ hsp]
  exact htop

theorem jump (h : Agree known m₁ m₂) (address : UInt8) :
    Agree known (m₁.jump address) (m₂.jump address) :=
  ⟨congrArg (·.jump address) h.regs, h.status, h.left, h.right, h.cells⟩

/-- What an instruction leaves agrees where the memories did, and on what it
writes. -/
theorem executes {i : Instruction} {e₁ : Effect} (h : Agree known m₁ m₂)
    (hexec : m₁.Executes i e₁) (hsp : i.opcode ∈ [Opcode.pop, Opcode.ret] → m₁.regs.sp ∈ known) :
    ∃ e₂, m₂.Executes i e₂ ∧ e₁.prints = e₂.prints
      ∧ Agree (known ∪ {a | m₁.target i = some a}) e₁.machine e₂.machine := by
  -- With the same registers the two differ in nothing that a rule looks at
  -- but the cells, so each rule is applied as it stands.
  obtain ⟨regs, mem₁, status, cycles₁, last₁⟩ := m₁
  obtain ⟨regs₂, mem₂, status₂, cycles₂, last₂⟩ := m₂
  obtain rfl : regs = regs₂ := h.regs
  obtain rfl : status = status₂ := h.status
  cases hexec with
  | hlt => exact ⟨_, .hlt, rfl, h.kept rfl rfl rfl rfl⟩
  | jmp r => exact ⟨_, .jmp r, rfl, h.kept rfl rfl rfl rfl⟩
  | jeqTaken heq => exact ⟨_, .jeqTaken heq, rfl, h.kept rfl rfl rfl rfl⟩
  | jeqPassed hne hnext => exact ⟨_, .jeqPassed hne hnext, rfl, h.kept rfl rfl rfl rfl⟩
  | jneTaken hne => exact ⟨_, .jneTaken hne, rfl, h.kept rfl rfl rfl rfl⟩
  | jnePassed heq hnext => exact ⟨_, .jnePassed heq hnext, rfl, h.kept rfl rfl rfl rfl⟩
  | call hback hpush =>
      obtain ⟨pushed₂, hpush₂, hagree⟩ := h.push hpush
      refine ⟨_, .call hback hpush₂, rfl, ?_⟩
      rw [hagree.regs]
      exact hagree.jump _
  | ret htop =>
      have htop₂ := h.top_eq_ok (hsp (by decide)) htop
      exact ⟨_, .ret htop₂, rfl, h.kept rfl rfl rfl rfl⟩
  | ldi hnext => exact ⟨_, .ldi hnext, rfl, h.kept rfl rfl rfl rfl⟩
  | prn hnext => exact ⟨_, .prn hnext, rfl, h.kept rfl rfl rfl rfl⟩
  | push hnext hpush =>
      obtain ⟨pushed₂, hpush₂, hagree⟩ := h.push hpush
      exact ⟨_, .push hnext hpush₂, rfl, hagree.jump _⟩
  | pop hnext htop =>
      have htop₂ := h.top_eq_ok (hsp (mem_shrinking_iff.2 trivial)) htop
      exact ⟨_, .pop hnext htop₂, rfl, h.kept rfl rfl rfl rfl⟩
  | alu hnext => exact ⟨_, .alu hnext, rfl, h.kept rfl rfl rfl rfl⟩

/-- An attempt at the next instruction comes to the same. -/
theorem attempt (h : Agree known m₁ m₂) (hrun : m₁.status = .running)
    (hreads : ∀ a ∈ m₁.reads, a ∈ known) :
    (∃ fault, m₁.attempt = .error fault ∧ m₂.attempt = .error fault)
    ∨ ∃ i e₁ j e₂, m₁.attempt = .ok (i, e₁) ∧ m₂.attempt = .ok (j, e₂) ∧ e₁.prints = e₂.prints
      ∧ i = j ∧ Agree (known ∪ {a | m₁.target i = some a}) e₁.machine e₂.machine := by
  have hobstacle := h.obstacle_eq (hreads _ (mem_reads_pc hrun))
  have hleft := attempt_cases h.left
  have hright := attempt_cases h.right
  rw [← hobstacle] at hright
  cases hcase : m₁.obstacle with
  | some fault =>
      rw [hcase] at hleft hright
      exact Or.inl ⟨fault, hleft, hright⟩
  | none =>
      rw [hcase] at hleft
      obtain ⟨i, e₁, hattempt⟩ := hleft
      obtain ⟨hfetch, hexec⟩ := attempt_eq_ok_iff.1 hattempt
      have hsp (hshrink : i.opcode ∈ [Opcode.pop, Opcode.ret]) : m₁.regs.sp ∈ known :=
        hreads _ (mem_reads_sp hrun hfetch hexec hshrink)
      obtain ⟨e₂, hexec₂, hprints, hagree⟩ := h.executes hexec hsp
      have hattempt₂ := attempt_eq_ok_iff.2 ⟨h.fetch_eq_ok hrun hreads hfetch, hexec₂⟩
      exact Or.inr ⟨i, e₁, i, e₂, hattempt, hattempt₂, hprints, rfl, hagree⟩

end Agree

-- ============================================================ step calls

/-- Of two machines with the same status, whose printers behave alike, let
attempts come to the same fault or to effects that print the same. Then so do
step calls, and the printers go on behaving alike: the calls end with the same
fault, which leaves all but the status, or both go through. -/
theorem step_of_attempts {s₁ s₂ : Machine × Printer}
    {R : Instruction → Effect → Instruction → Effect → Prop}
    (hstatus : s₁.1.status = s₂.1.status) (hout : s₁.2.BehavesLike s₂.2)
    (hattempt : s₁.1.status = .running →
      (∃ fault, s₁.1.attempt = .error fault ∧ s₂.1.attempt = .error fault)
      ∨ ∃ i e₁ j e₂, s₁.1.attempt = .ok (i, e₁) ∧ s₂.1.attempt = .ok (j, e₂)
        ∧ e₁.prints = e₂.prints ∧ R i e₁ j e₂) :
    ∃ out₁ out₂, out₁.BehavesLike out₂ ∧ Printer.PrintSame s₁.2 out₁ s₂.2 out₂
      ∧ ((∃ fault status, s₁.1.step s₁.2 = ⟨.error fault, { s₁.1 with status }, out₁⟩
            ∧ s₂.1.step s₂.2 = ⟨.error fault, { s₂.1 with status }, out₂⟩)
        ∨ ∃ i e₁ j e₂, s₁.1.step s₁.2 = ⟨.ok i, e₁.machine.complete i, out₁⟩
            ∧ s₂.1.step s₂.2 = ⟨.ok j, e₂.machine.complete j, out₂⟩ ∧ R i e₁ j e₂) := by
  obtain ⟨m₁, out₁⟩ := s₁
  obtain ⟨m₂, out₂⟩ := s₂
  have hnothing := Printer.PrintSame.refl out₁ out₂
  by_cases hrun : m₁.status = .running
  · have hrun₂ : m₂.status = .running := hstatus.symm.trans hrun
    rcases hattempt hrun with
      ⟨fault, hattempt₁, hattempt₂⟩ | ⟨i, e₁, j, e₂, hattempt₁, hattempt₂, hvalue, hR⟩
    · refine ⟨out₁, out₂, hout, hnothing, Or.inl ⟨fault, .failed, ?_, ?_⟩⟩
      · rw [step_eq, if_pos hrun, hattempt₁]
        rfl
      · rw [step_eq, if_pos hrun₂, hattempt₂]
        rfl
    · obtain ⟨answer, out₁', out₂', hreceive₁, hreceive₂, hlike, hprinted⟩ :=
        hout.receive e₁.prints
      rw [hvalue] at hreceive₂
      refine ⟨out₁', out₂', hlike, hprinted, ?_⟩
      rw [step_eq, step_eq, if_pos hrun, if_pos hrun₂, hattempt₁, hattempt₂]
      simp only [hreceive₁, hreceive₂]
      cases answer with
      | error text => exact Or.inl ⟨.output text, .failed, rfl, rfl⟩
      | ok _ => exact Or.inr ⟨i, e₁, j, e₂, rfl, rfl, hR⟩
  · refine ⟨out₁, out₂, hout, hnothing, Or.inl ⟨.notRunning m₂.status, m₂.status, ?_, ?_⟩⟩
    · rw [step_of_ne_running out₁ hrun, ← show m₁.status = m₂.status from hstatus]
    · exact step_of_ne_running out₂ fun hrun₂ => hrun (hstatus.trans hrun₂)

/-- `n` step calls here and there come to the same: the results, what is
printed, and in the end the registers, the status and how far the counter
has gone up. -/
structure SameCalls (n : Nat) (s₁ s₂ : Machine × Printer) : Prop where
  results : ∀ k < n, ((advance^[k] s₁).1.step (advance^[k] s₁).2).result =
    ((advance^[k] s₂).1.step (advance^[k] s₂).2).result
  printed : Printer.PrintSame s₁.2 (advance^[n] s₁).2 s₂.2 (advance^[n] s₂).2
  regs : (advance^[n] s₁).1.regs = (advance^[n] s₂).1.regs
  status : (advance^[n] s₁).1.status = (advance^[n] s₂).1.status
  cycles : (advance^[n] s₁).1.cycles - s₁.1.cycles = (advance^[n] s₂).1.cycles - s₂.1.cycles

/-- One more call. -/
theorem SameCalls.succ {n : Nat} {s₁ s₂ : Machine × Printer} (h : SameCalls n s₁ s₂)
    (hlast : SameCalls 1 (advance^[n] s₁) (advance^[n] s₂)) : SameCalls (n + 1) s₁ s₂ := by
  obtain ⟨hresult, hprinted, hregs, hstatus, hcycles'⟩ := hlast
  have hcycles := h.cycles
  rw [Function.iterate_one] at hprinted hregs hstatus hcycles'
  refine ⟨?_, ?_, ?_, ?_, ?_⟩
  · intro k hk
    rcases Nat.lt_succ_iff_lt_or_eq.1 hk with hlt | rfl
    · exact h.results k hlt
    · exact hresult 0 Nat.one_pos
  all_goals rw [Function.iterate_succ_apply', Function.iterate_succ_apply']
  · exact h.printed.trans hprinted
  · exact hregs
  · exact hstatus
  · grind

/-- The machines agree, and the printers behave alike. -/
structure Together (known : Set UInt8) (s₁ s₂ : Machine × Printer) : Prop where
  machines : Agree known s₁.1 s₂.1
  printers : s₁.2.BehavesLike s₂.2

namespace Together

variable {known : Set UInt8} {s₁ s₂ : Machine × Printer}

/-- What has to be seen of two steps. -/
theorem of_steps {result : Except Fault Instruction} {m₁ m₂ : Machine} {out₁ out₂ : Printer}
    (hstep₁ : s₁.1.step s₁.2 = ⟨result, m₁, out₁⟩) (hstep₂ : s₂.1.step s₂.2 = ⟨result, m₂, out₂⟩)
    (hagree : Agree (known ∪ {a | writes s₁ = some a}) m₁ m₂) (hout : out₁.BehavesLike out₂)
    (hprinted : Printer.PrintSame s₁.2 out₁ s₂.2 out₂)
    (hcycles : m₁.cycles - s₁.1.cycles = m₂.cycles - s₂.1.cycles) :
    SameCalls 1 s₁ s₂
      ∧ Together (known ∪ {a | writes s₁ = some a}) (advance s₁) (advance s₂) := by
  have hnext₁ : advance s₁ = (m₁, out₁) := by
    rw [advance, hstep₁]
  have hnext₂ : advance s₂ = (m₂, out₂) := by
    rw [advance, hstep₂]
  rw [hnext₁, hnext₂]
  refine ⟨⟨?_, ?_, ?_, ?_, ?_⟩, hagree, hout⟩
  · intro k hk
    obtain rfl : k = 0 := Nat.lt_one_iff.1 hk
    show (s₁.1.step s₁.2).result = (s₂.1.step s₂.2).result
    rw [hstep₁, hstep₂]
  all_goals simp only [Function.iterate_one, hnext₁, hnext₂]
  · exact hprinted
  · exact hagree.regs
  · exact hagree.status
  · exact hcycles

/-- Two steps with the same fault, which leaves all but the status. -/
theorem of_faults {fault : Fault} {status : Status} {out₁ out₂ : Printer}
    (h : Agree known s₁.1 s₂.1)
    (hstep₁ : s₁.1.step s₁.2 = ⟨.error fault, { s₁.1 with status }, out₁⟩)
    (hstep₂ : s₂.1.step s₂.2 = ⟨.error fault, { s₂.1 with status }, out₂⟩)
    (hout : out₁.BehavesLike out₂)
    (hprinted : Printer.PrintSame s₁.2 out₁ s₂.2 out₂) :
    SameCalls 1 s₁ s₂
      ∧ Together (known ∪ {a | writes s₁ = some a}) (advance s₁) (advance s₂) := by
  have hwrites : writes s₁ = none := by
    rw [writes, hstep₁]
  refine of_steps hstep₁ hstep₂ ?_ hout hprinted ?_
  · rw [hwrites]
    exact h.kept h.regs rfl rfl rfl
  · exact (UInt64.sub_self _).trans (UInt64.sub_self _).symm

/-- Two steps that go through. -/
theorem of_ok {i : Instruction} {e₁ e₂ : Effect} {out₁ out₂ : Printer}
    (hstep₁ : s₁.1.step s₁.2 = ⟨.ok i, e₁.machine.complete i, out₁⟩)
    (hstep₂ : s₂.1.step s₂.2 = ⟨.ok i, e₂.machine.complete i, out₂⟩)
    (hagree : Agree (known ∪ {a | s₁.1.target i = some a}) e₁.machine e₂.machine)
    (hout : out₁.BehavesLike out₂)
    (hprinted : Printer.PrintSame s₁.2 out₁ s₂.2 out₂) :
    SameCalls 1 s₁ s₂
      ∧ Together (known ∪ {a | writes s₁ = some a}) (advance s₁) (advance s₂) := by
  have hwrites : writes s₁ = s₁.1.target i := by
    rw [writes, hstep₁]
  have hcounted (cycles : UInt64) : cycles + 1 - cycles = 1 := by
    rw [UInt64.add_comm]
    exact UInt64.add_sub_cancel 1 cycles
  refine of_steps hstep₁ hstep₂ ?_ hout hprinted ?_
  · rw [hwrites]
    exact ⟨hagree.regs, hagree.status, hagree.left, hagree.right, hagree.cells⟩
  · rw [cycles_step hstep₁, cycles_step hstep₂, hcounted, hcounted]

/-- Of two that are together, the one reads what both have: they stay
together. -/
theorem advance (h : Together known s₁ s₂) (hreads : ∀ a ∈ s₁.1.reads, a ∈ known) :
    SameCalls 1 s₁ s₂
      ∧ Together (known ∪ {a | writes s₁ = some a}) (advance s₁) (advance s₂) := by
  obtain ⟨hagree, hout⟩ := h
  obtain ⟨out₁, out₂, hlike, hprinted, hsteps⟩ :=
    step_of_attempts hagree.status hout fun hrun => hagree.attempt hrun hreads
  rcases hsteps with
    ⟨fault, status, hstep₁, hstep₂⟩ | ⟨i, e₁, j, e₂, hstep₁, hstep₂, rfl, hnext⟩
  · exact of_faults hagree hstep₁ hstep₂ hlike hprinted
  · exact of_ok hstep₁ hstep₂ hnext hlike hprinted

/-- So do two of which the one reads at every call what both have or what it
has written. -/
theorem iterate (h : Together known s₁ s₂) (n : Nat)
    (hreads : ∀ k < n, ∀ a ∈ (Machine.advance^[k] s₁).1.reads, a ∈ knownAfter known s₁ k) :
    SameCalls n s₁ s₂ ∧ Together (knownAfter known s₁ n) (Machine.advance^[n] s₁)
      (Machine.advance^[n] s₂) := by
  induction n with
  | zero =>
      rw [knownAfter_zero]
      refine ⟨⟨nofun, .refl s₁.2 s₂.2, h.machines.regs, h.machines.status, ?_⟩, h⟩
      exact (UInt64.sub_self _).trans (UInt64.sub_self _).symm
  | succ n ih =>
      obtain ⟨hsame, htogether⟩ := ih fun k hk => hreads k (Nat.lt_succ_of_lt hk)
      obtain ⟨hlast, hnext⟩ := htogether.advance (hreads n (Nat.lt_succ_self n))
      rw [knownAfter_succ, Function.iterate_succ_apply', Function.iterate_succ_apply']
      exact ⟨hsame.succ hlast, hnext⟩

end Together

/-- Two machines with the same registers and status and with printers that
behave alike make the same step calls, as long as the one reads only where
both agree or where it has itself pushed. Afterwards they agree there. So
the bytes that a run does not read have no influence on it, and neither have
the counter and the last instruction. -/
theorem execution_depends_on_what_it_reads {known : Set UInt8} {m₁ m₂ : Machine}
    {out₁ out₂ : Printer} {n : Nat} (hleft : m₁.mem.Full) (hright : m₂.mem.Full)
    (hregs : m₁.regs = m₂.regs) (hstatus : m₁.status = m₂.status)
    (hcells : ∀ a ∈ known, m₁.mem.cells[a.toNat]? = m₂.mem.cells[a.toNat]?)
    (hout : out₁.BehavesLike out₂)
    (hreads : ∀ k < n, ∀ a ∈ (advance^[k] (m₁, out₁)).1.reads,
      a ∈ knownAfter known (m₁, out₁) k) :
    SameCalls n (m₁, out₁) (m₂, out₂)
    ∧ (∀ a ∈ knownAfter known (m₁, out₁) n, (advance^[n] (m₁, out₁)).1.mem.cells[a.toNat]? =
        (advance^[n] (m₂, out₂)).1.mem.cells[a.toNat]?)
    ∧ ∀ mem cycles last, mem.Full →
        (∀ k < n, ∀ a ∈ (advance^[k] (m₁, out₁)).1.reads,
          m₁.mem.cells[a.toNat]? = mem.cells[a.toNat]?) →
        SameCalls n (m₁, out₁) ({ m₁ with mem, cycles, last }, out₁) := by
  have htogether : Together known (m₁, out₁) (m₂, out₂) :=
    ⟨⟨hregs, hstatus, hleft, hright, hcells⟩, hout⟩
  obtain ⟨hsame, hthen⟩ := htogether.iterate n hreads
  refine ⟨hsame, hthen.machines.cells, ?_⟩
  intro mem cycles last hfull hagree
  have hown : Together {a | ∃ k < n, a ∈ (advance^[k] (m₁, out₁)).1.reads} (m₁, out₁)
      ({ m₁ with mem, cycles, last }, out₁) := by
    refine ⟨⟨rfl, rfl, hleft, hfull, ?_⟩, fun _ _ => rfl⟩
    intro a ha
    obtain ⟨k, hk, hread⟩ := ha
    exact hagree k hk a hread
  exact (hown.iterate n fun k hk a ha => Or.inl ⟨k, hk, ha⟩).left

/-- A program that pushes a HLT and jumps to it, with other bytes behind. -/
def pushingHalt (behind : UInt8) : Machine where
  regs := Registers.fresh
  mem := ⟨⟨[Opcode.ldi, 7, 0xF4, Opcode.ldi, 0, Opcode.hlt, Opcode.push, 0, Opcode.jmp, 7]
    ++ List.replicate 246 behind⟩⟩
  status := .running
  cycles := 0
  last := none

/-- The HLT is read where it has been pushed, and a sixth call finds a
machine that has halted. -/
theorem pushed_halt_is_known :
    let known : Set UInt8 := {a | a.toNat < 10}
    let m₁ := pushingHalt 0
    let m₂ := { pushingHalt 0xFF with cycles := 7, last := some .ret }
    let out₁ := Printer.unlimited {}
    let out₂ := Printer.unlimited ⟨#[9]⟩
    m₁.mem.Full ∧ m₂.mem.Full ∧ m₁.regs = m₂.regs ∧ m₁.status = m₂.status
      ∧ (∀ a ∈ known, m₁.mem.cells[a.toNat]? = m₂.mem.cells[a.toNat]?)
      ∧ out₁.BehavesLike out₂
      ∧ (∀ k < 6, ∀ a ∈ (advance^[k] (m₁, out₁)).1.reads, a ∈ knownAfter known (m₁, out₁) k)
      ∧ SameCalls 6 (m₁, out₁) (m₂, out₂)
      ∧ (advance^[6] (m₂, out₂)).1.mem.cells[0xF3]? = some Opcode.hlt
      ∧ (advance^[6] (m₂, out₂)).1.status = .halted := by
  intro known m₁ m₂ out₁ out₂
  have hleft : m₁.mem.Full := by decide +kernel
  have hright : m₂.mem.Full := by decide +kernel
  have hcells : ∀ a ∈ known, m₁.mem.cells[a.toNat]? = m₂.mem.cells[a.toNat]? := by
    intro a ha
    have hcode : a.toNat < 10 := ha
    simp only [m₁, m₂, pushingHalt, List.getElem?_toArray]
    rw [List.getElem?_append_left hcode, List.getElem?_append_left hcode]
  have hout : out₁.BehavesLike out₂ := fun _ _ => rfl
  have hreads : ∀ k < 6, ∀ a ∈ (advance^[k] (m₁, out₁)).1.reads,
      a.toNat < 10 ∨ ∃ j < k, writes (advance^[j] (m₁, out₁)) = some a := by
    decide +kernel
  obtain ⟨hsame, hknown, -⟩ :=
    execution_depends_on_what_it_reads hleft hright rfl rfl hcells hout hreads
  refine ⟨hleft, hright, rfl, rfl, hcells, hout, hreads, hsame, ?_, ?_⟩
  · have hwritten : (0xF3 : UInt8) ∈ knownAfter known (m₁, out₁) 6 :=
      Or.inr ⟨2, by decide, by decide +kernel⟩
    refine (hknown _ hwritten).symm.trans ?_
    decide +kernel
  · rw [← hsame.status]
    decide +kernel

end Machine

end LS8
