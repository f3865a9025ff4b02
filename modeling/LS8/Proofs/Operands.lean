/-
Register operands matter modulo 8.

Whatever an instruction does with a register operand, it does through the
register that the operand names. So an instruction and the same one with its
operands reduced execute alike (`execute_reduce`), and bytes that differ in
register operands only, and there by multiples of 8, are instructions that
reduce to the same (`exists_decode_reduce`).

# Two runs

Let two machines be the same but for some cells, which are congruent modulo
8 (`Akin`). A step call that reads none of these cells but as a register
operand comes to the same here and there up to reduction, and leaves
machines that are akin again; a cell that it writes is the same in both from
then on (`Akin.advance`). By induction on the number of calls this holds of
runs, over the cells that are known to be the same after so many calls
(`knownAfter`, as for machines that agree on what they read).
-/
import LS8.Proofs.Frame
import LS8.Proofs.Locality

namespace LS8

-- ============================================================ reduction

namespace Registers

variable (regs : Registers) (reg value : UInt8)

theorem index_mod : index (reg % 8) = index reg := by
  simp [index, UInt8.toNat_mod]

theorem get_mod : regs.get (reg % 8) = regs.get reg := by
  simp only [get, index_mod]

theorem set_mod : regs.set (reg % 8) value = regs.set reg value := by
  simp only [set, index_mod]

theorem operate_mod (op : AluOp) (a b : UInt8) :
    regs.operate op (a % 8) (b % 8) = regs.operate op a b := by
  simp only [operate, get_mod, set_mod]

end Registers

namespace Instruction

/-- The instruction with every register operand reduced to the number of the
register that it names. The byte that LDI loads is no register operand. -/
def reduce : Instruction → Instruction
  | hlt => hlt
  | ret => ret
  | jmp r => jmp (r % 8)
  | jeq r => jeq (r % 8)
  | jne r => jne (r % 8)
  | call r => call (r % 8)
  | prn r => prn (r % 8)
  | push r => push (r % 8)
  | pop r => pop (r % 8)
  | ldi r value => ldi (r % 8) value
  | alu op a b => alu op (a % 8) (b % 8)

end Instruction

namespace Opcode

/-- What is built of a form is the same up to reduction if the operands are
congruent, and the byte that LDI loads is the same. -/
def Form.Reduces (op : UInt8) : Form → Prop
  | .bare _ => True
  | .unary i => ∀ a a', a % 8 = a' % 8 → (i a').reduce = (i a).reduce
  | .binary i => ∀ a a' b b', a % 8 = a' % 8 → b % 8 = b' % 8 → (op = ldi → b = b') →
      (i a' b').reduce = (i a b).reduce

theorem reduces_of_form? {op : UInt8} {form : Form} (h : form? op = some form) :
    form.Reduces op := by
  have hmem : op ∈ known := Decidable.byContradiction fun hnot => by
    rw [form?_eq_none_iff.2 hnot] at h
    cases h
  simp only [known, List.mem_cons, List.not_mem_nil, or_false] at hmem
  rcases hmem with rfl | rfl | rfl | rfl | rfl | rfl | rfl | rfl | rfl | rfl | rfl | rfl | rfl <;>
    cases Option.some.inj h
  all_goals simp +contextual [Form.Reduces, Instruction.reduce]

end Opcode

namespace Instruction

/-- Bytes that are congruent to those of an instruction are an instruction
that reduces to the same, provided they agree on the opcode and on the byte
that LDI loads. -/
theorem exists_decode_reduce {bytes bytes' : List UInt8} {i : Instruction}
    (hdecode : decode bytes = .ok i) (hmod : bytes.map (· % 8) = bytes'.map (· % 8))
    (hop : bytes.head? = bytes'.head?)
    (hvalue : bytes.head? = some Opcode.ldi → bytes[2]? = bytes'[2]?) :
    ∃ j, decode bytes' = .ok j ∧ j.reduce = i.reduce := by
  rcases bytes with _ | ⟨op, operands⟩
  · cases hdecode
  rcases bytes' with _ | ⟨op', operands'⟩
  · cases hop
  obtain rfl : op = op' := Option.some.inj hop
  obtain ⟨-, hrest⟩ := List.cons.inj hmod
  unfold decode at hdecode ⊢
  dsimp only at hdecode ⊢
  cases hform : Opcode.form? op with
  | none =>
      rw [hform] at hdecode
      cases hdecode
  | some form =>
      have hreduces := Opcode.reduces_of_form? hform
      rw [hform] at hdecode
      cases form with
      | bare j =>
          cases hdecode
          exact ⟨i, rfl, rfl⟩
      | unary f =>
          rcases operands with _ | ⟨a, rest⟩
          · cases hdecode
          rcases operands' with _ | ⟨a', rest'⟩
          · cases hrest
          cases hdecode
          exact ⟨f a', rfl, hreduces a a' (List.cons.inj hrest).1⟩
      | binary f =>
          rcases operands with _ | ⟨a, _ | ⟨b, rest⟩⟩
          · cases hdecode
          · cases hdecode
          rcases operands' with _ | ⟨a', _ | ⟨b', rest'⟩⟩
          · cases hrest
          · cases (List.cons.inj hrest).2
          cases hdecode
          obtain ⟨ha, hrest⟩ := List.cons.inj hrest
          refine ⟨f a' b', rfl, hreduces a a' b b' ha (List.cons.inj hrest).1 fun hldi => ?_⟩
          exact Option.some.inj (hvalue (congrArg some hldi))

end Instruction

/-- The bytes at all addresses are congruent exactly if the cells are. -/
theorem Memory.map_mod_eq_iff {mem₁ mem₂ : Memory} (hleft : mem₁.Full) (hright : mem₂.Full) :
    mem₁.cells.map (· % 8) = mem₂.cells.map (· % 8) ↔
      ∀ a, mem₁.peek a % 8 = mem₂.peek a % 8 := by
  have hpeek (mem : Memory) (a : Nat) :
      mem.peek a % 8 = ((mem.cells.map (· % 8))[a]?).getD 0 := by
    rw [peek_eq, Array.getElem?_map]
    cases mem.cells[a]? <;> rfl
  constructor
  · intro h a
    rw [hpeek, hpeek, h]
  · intro h
    refine Array.ext ?_ fun a h₁ h₂ => ?_
    · rw [Array.size_map, Array.size_map, hleft, hright]
    · have ha := h a
      rw [hpeek, hpeek, Array.getElem?_eq_getElem h₁, Array.getElem?_eq_getElem h₂] at ha
      exact ha

namespace Machine

variable {m m₁ m₂ : Machine} {i j : Instruction} {e : Effect}

/-- An instruction and its reduction execute alike. -/
theorem execute_reduce (m : Machine) (i : Instruction) : m.execute i.reduce = m.execute i := by
  have hfollowing : m.following i.reduce = m.following i := by
    cases i with
    | alu op a b => cases op <;> rfl
    | _ => rfl
  cases i with
  | hlt => rfl
  | ret => rfl
  | _ =>
      simp only [Instruction.reduce] at hfollowing
      simp only [Instruction.reduce, execute, setRegister, Registers.get_mod, Registers.set_mod,
        Registers.operate_mod, hfollowing]

theorem Executes.of_reduce_eq (h : m.Executes i e) (heq : j.reduce = i.reduce) :
    m.Executes j e := by
  rw [← execute_eq_ok_iff] at h ⊢
  rw [← execute_reduce, heq, execute_reduce, h]

theorem storedAt_reduce (m : Machine) (i : Instruction) (a : Nat) :
    Event.storedAt a ⟨m, i.reduce⟩ = Event.storedAt a ⟨m, i⟩ := by
  cases i with
  | push r => simp only [Instruction.reduce, Event.storedAt, Event.pushed, Registers.get_mod]
  | _ => rfl

theorem storedAt_congr (hregs : m₁.regs = m₂.regs) (i : Instruction) (a : Nat) :
    Event.storedAt a ⟨m₁, i⟩ = Event.storedAt a ⟨m₂, i⟩ := by
  simp only [Event.storedAt, Event.pushed, pc, hregs]

-- =================================================== what is read as it is

/-- The addresses of the cells that the next step call reads otherwise than
as register operands: the opcode, the byte that LDI loads, and the value that
POP and RET take. -/
def readsWhole (m : Machine) : List UInt8 :=
  if m.status = .running then
    m.pc :: match m.attempt with
      | .ok (.ldi _ _, _) => [m.pc + 2]
      | .ok (.pop _, _) | .ok (.ret, _) => [m.regs.sp]
      | _ => []
  else []

theorem mem_readsWhole_pc (hrun : m.status = .running) : m.pc ∈ m.readsWhole := by
  rw [readsWhole, if_pos hrun]
  exact List.mem_cons_self

theorem mem_readsWhole_value (hrun : m.status = .running) (h : m.attempt = .ok (i, e))
    (hldi : i.opcode = Opcode.ldi) : m.pc + 2 ∈ m.readsWhole := by
  rw [readsWhole, if_pos hrun, h]
  cases i with
  | ldi r value => exact List.mem_cons_of_mem _ List.mem_cons_self
  | alu op a b => cases op <;> simp +decide [Instruction.opcode] at hldi
  | _ => simp +decide [Instruction.opcode] at hldi

theorem mem_readsWhole_sp (hrun : m.status = .running) (h : m.attempt = .ok (i, e))
    (hshrink : i.opcode ∈ [Opcode.pop, Opcode.ret]) : m.regs.sp ∈ m.readsWhole := by
  rw [readsWhole, if_pos hrun, h]
  rw [mem_shrinking_iff] at hshrink
  cases i with
  | pop r => exact List.mem_cons_of_mem _ List.mem_cons_self
  | ret => exact List.mem_cons_of_mem _ List.mem_cons_self
  | _ => exact hshrink.elim

-- ============================================================= step calls

/-- Two machines with the same registers, status and counter. Their memories
agree on the `known` addresses and are congruent modulo 8 everywhere. The
printers behave alike. -/
structure Akin (known : Set UInt8) (s₁ s₂ : Machine × Printer) : Prop where
  machines : Agree known s₁.1 s₂.1
  cycles : s₁.1.cycles = s₂.1.cycles
  congruent : s₁.1.mem.cells.map (· % 8) = s₂.1.mem.cells.map (· % 8)
  printers : s₁.2.BehavesLike s₂.2

/-- A step call here and there: the results are the same up to reduction, the
same is printed, and what is left is akin, on what has been written too. -/
structure SameCall (known : Set UInt8) (s₁ s₂ : Machine × Printer) : Prop where
  result : (s₁.1.step s₁.2).result.map Instruction.reduce =
    (s₂.1.step s₂.2).result.map Instruction.reduce
  printed : Printer.PrintSame s₁.2 (advance s₁).2 s₂.2 (advance s₂).2
  next : Akin (known ∪ {a | writes s₁ = some a}) (advance s₁) (advance s₂)

namespace Akin

variable {known : Set UInt8} {s₁ s₂ : Machine × Printer}

/-- Where the one fetches an instruction the other fetches one that reduces to
the same. -/
theorem exists_fetch (h : Akin known s₁ s₂) (hfetch : s₁.1.fetch = .ok i)
    (hop : s₁.1.pc ∈ known) (hvalue : i.opcode = Opcode.ldi → s₁.1.pc + 2 ∈ known) :
    ∃ j, s₂.1.fetch = .ok j ∧ j.reduce = i.reduce := by
  have hsize₁ : s₁.1.mem.cells.size = 256 := h.machines.left
  have hsize₂ : s₂.1.mem.cells.size = 256 := h.machines.right
  -- the bytes that are looked at agree wherever the cells do
  have hbyte {k : Nat} (hcell : s₁.1.pc.toNat + k < 256 →
      s₁.1.mem.cells[s₁.1.pc.toNat + k]? = s₂.1.mem.cells[s₁.1.pc.toNat + k]?) (stop : Nat) :
      (s₁.1.mem.cells.extract s₁.1.pc.toNat stop).toList[k]? =
        (s₂.1.mem.cells.extract s₁.1.pc.toNat stop).toList[k]? := by
    rw [Array.getElem?_toList, Array.getElem?_toList, Array.getElem?_extract,
      Array.getElem?_extract, hsize₁, hsize₂]
    split
    · exact hcell (by omega)
    · rfl
  rw [fetch_eq_ok_iff h.machines.left, ← decode_window_eq_ok_iff h.machines.left] at hfetch
  simp only [fetch_eq_ok_iff h.machines.right, ← decode_window_eq_ok_iff h.machines.right,
    ← h.machines.pc]
  refine Instruction.exists_decode_reduce hfetch ?_ ?_ ?_
  · rw [← Array.toList_map, ← Array.toList_map, Array.map_extract, Array.map_extract, h.congruent]
  · rw [List.head?_eq_getElem?, List.head?_eq_getElem?]
    exact hbyte (fun _ => h.machines.cells _ hop) _
  · intro hldi
    refine hbyte (fun hlt => ?_) _
    have haddress : (s₁.1.pc + 2).toNat = s₁.1.pc.toNat + 2 := by
      rw [UInt8.toNat_add]
      exact Nat.mod_eq_of_lt hlt
    have hopcode : i.opcode = Opcode.ldi := by
      obtain ⟨rest, hrest⟩ := Instruction.decode_eq_ok_iff.1 hfetch
      rw [← hrest] at hldi
      exact Option.some.inj hldi
    rw [← haddress]
    exact h.machines.cells _ (hvalue hopcode)

/-- An attempt at the next instruction comes to the same up to reduction. -/
theorem attempt (h : Akin known s₁ s₂) (hrun : s₁.1.status = .running)
    (hreads : ∀ a ∈ s₁.1.readsWhole, a ∈ known) :
    (∃ fault, s₁.1.attempt = .error fault ∧ s₂.1.attempt = .error fault)
    ∨ ∃ i e₁ j e₂, s₁.1.attempt = .ok (i, e₁) ∧ s₂.1.attempt = .ok (j, e₂)
      ∧ e₁.prints = e₂.prints
      ∧ j.reduce = i.reduce ∧ Agree (known ∪ {a | s₁.1.target i = some a}) e₁.machine e₂.machine := by
  have hop := hreads _ (mem_readsWhole_pc hrun)
  have hleft := attempt_cases h.machines.left
  have hright := attempt_cases h.machines.right
  rw [← h.machines.obstacle_eq hop] at hright
  cases hcase : s₁.1.obstacle with
  | some fault =>
      rw [hcase] at hleft hright
      exact Or.inl ⟨fault, hleft, hright⟩
  | none =>
      rw [hcase] at hleft
      obtain ⟨i, e₁, hattempt⟩ := hleft
      obtain ⟨hfetch, hexec⟩ := attempt_eq_ok_iff.1 hattempt
      obtain ⟨j, hfetch₂, hreduce⟩ := h.exists_fetch hfetch hop fun hldi =>
        hreads _ (mem_readsWhole_value hrun hattempt hldi)
      obtain ⟨e₂, hexec₂, hprints, hagree⟩ := h.machines.executes hexec fun hshrink =>
        hreads _ (mem_readsWhole_sp hrun hattempt hshrink)
      have hattempt₂ := attempt_eq_ok_iff.2 ⟨hfetch₂, hexec₂.of_reduce_eq hreduce⟩
      exact Or.inr ⟨i, e₁, j, e₂, hattempt, hattempt₂, hprints, hreduce, hagree⟩

/-- Two calls with the same fault, which leaves all but the status. -/
theorem of_faults {fault : Fault} {status : Status} {out₁ out₂ : Printer} (h : Akin known s₁ s₂)
    (hstep₁ : s₁.1.step s₁.2 = ⟨.error fault, { s₁.1 with status }, out₁⟩)
    (hstep₂ : s₂.1.step s₂.2 = ⟨.error fault, { s₂.1 with status }, out₂⟩)
    (hout : out₁.BehavesLike out₂) (hprinted : Printer.PrintSame s₁.2 out₁ s₂.2 out₂) :
    SameCall known s₁ s₂ := by
  have hwrites : writes s₁ = none := by
    rw [writes, hstep₁]
  constructor
  · rw [hstep₁, hstep₂]
  all_goals rw [advance, advance, hstep₁, hstep₂]
  · exact hprinted
  · rw [hwrites]
    exact ⟨h.machines.kept h.machines.regs rfl rfl rfl, h.cycles, h.congruent, hout⟩

/-- Two calls that go through, with instructions that reduce to the same. -/
theorem of_ok {e₁ e₂ : Effect} {out₁ out₂ : Printer} (h : Akin known s₁ s₂)
    (hstep₁ : s₁.1.step s₁.2 = ⟨.ok i, e₁.machine.complete i, out₁⟩)
    (hstep₂ : s₂.1.step s₂.2 = ⟨.ok j, e₂.machine.complete j, out₂⟩)
    (hreduce : j.reduce = i.reduce)
    (hagree : Agree (known ∪ {a | s₁.1.target i = some a}) e₁.machine e₂.machine)
    (hout : out₁.BehavesLike out₂) (hprinted : Printer.PrintSame s₁.2 out₁ s₂.2 out₂) :
    SameCall known s₁ s₂ := by
  have hwrites : writes s₁ = s₁.1.target i := by
    rw [writes, hstep₁]
  constructor
  · rw [hstep₁, hstep₂]
    exact congrArg Except.ok hreduce.symm
  all_goals rw [Machine.advance, Machine.advance, hstep₁, hstep₂]
  · exact hprinted
  · rw [hwrites]
    refine ⟨⟨hagree.regs, hagree.status, hagree.left, hagree.right, hagree.cells⟩, ?_, ?_, hout⟩
    · rw [cycles_step hstep₁, cycles_step hstep₂, h.cycles]
    · -- what is stored is the same, and what is left was congruent
      refine Array.ext_getElem? fun a => ?_
      have hstored : Event.storedAt a ⟨s₁.1, i⟩ = Event.storedAt a ⟨s₂.1, j⟩ := by
        rw [← storedAt_reduce, ← storedAt_reduce s₂.1, hreduce]
        exact storedAt_congr h.machines.regs _ a
      have hcell := congrArg (·[a]?) h.congruent
      simp only [Array.getElem?_map] at hcell ⊢
      rw [getElem?_step hstep₁, getElem?_step hstep₂, hstored]
      cases Event.storedAt a ⟨s₂.1, j⟩ with
      | none => exact hcell
      | some value => rfl

/-- Of two that are akin, the one reads nothing but what both have otherwise
than as a register operand: the call comes to the same. -/
theorem advance (h : Akin known s₁ s₂) (hreads : ∀ a ∈ s₁.1.readsWhole, a ∈ known) :
    SameCall known s₁ s₂ := by
  obtain ⟨out₁, out₂, hlike, hprinted, hsteps⟩ :=
    step_of_attempts h.machines.status h.printers fun hrun => h.attempt hrun hreads
  rcases hsteps with
    ⟨fault, status, hstep₁, hstep₂⟩ | ⟨i, e₁, j, e₂, hstep₁, hstep₂, hreduce, hagree⟩
  · exact h.of_faults hstep₁ hstep₂ hlike hprinted
  · exact h.of_ok hstep₁ hstep₂ hreduce hagree hlike hprinted

/-- So do any number of calls, as long as the one reads nothing but what both
have or what it has itself written. -/
theorem iterate (h : Akin known s₁ s₂) (n : Nat)
    (hreads : ∀ k < n, ∀ a ∈ (Machine.advance^[k] s₁).1.readsWhole, a ∈ knownAfter known s₁ k) :
    (∀ k < n, SameCall (knownAfter known s₁ k) (Machine.advance^[k] s₁) (Machine.advance^[k] s₂))
    ∧ Printer.PrintSame s₁.2 (Machine.advance^[n] s₁).2 s₂.2 (Machine.advance^[n] s₂).2
    ∧ Akin (knownAfter known s₁ n) (Machine.advance^[n] s₁) (Machine.advance^[n] s₂) := by
  induction n with
  | zero =>
      rw [knownAfter_zero]
      exact ⟨nofun, .refl s₁.2 s₂.2, h⟩
  | succ n ih =>
      obtain ⟨hcalls, hprinted, hakin⟩ := ih fun k hk => hreads k (Nat.lt_succ_of_lt hk)
      have hlast := hakin.advance (hreads n (Nat.lt_succ_self n))
      rw [knownAfter_succ, Function.iterate_succ_apply', Function.iterate_succ_apply']
      refine ⟨?_, hprinted.trans hlast.printed, hlast.next⟩
      intro k hk
      rcases Nat.lt_succ_iff_lt_or_eq.1 hk with hlt | rfl
      · exact hcalls k hlt
      · exact hlast

end Akin

/-- Register operands matter modulo 8, over whole runs.

Two machines with the same registers, status and counter differ in some
`loose` cells only, which are congruent modulo 8. In the first `n` step calls
the one reads a loose cell that it has not written before as a register
operand only, never as an opcode, as the byte that LDI loads or as a value
that POP or RET takes. Then the other makes the same calls: with the same
faults, with instructions that reduce to the same, and with the same output.
It comes to the same registers, status and counter, and to a memory that is
the same but for the loose cells that were never written, and is congruent
there. -/
theorem register_operands_matter_modulo_eight {loose : Set UInt8} {m₁ m₂ : Machine}
    {out₁ out₂ : Printer} {n : Nat} (hleft : m₁.mem.Full) (hright : m₂.mem.Full)
    (hregs : m₁.regs = m₂.regs) (hstatus : m₁.status = m₂.status)
    (hcycles : m₁.cycles = m₂.cycles)
    (hcells : ∀ a ∉ loose, m₁.mem.cells[a.toNat]? = m₂.mem.cells[a.toNat]?)
    (hloose : ∀ a ∈ loose, m₁.mem.peek a.toNat % 8 = m₂.mem.peek a.toNat % 8)
    (hout : out₁.BehavesLike out₂)
    (hreads : ∀ k < n, ∀ a ∈ (advance^[k] (m₁, out₁)).1.readsWhole,
      a ∈ knownAfter looseᶜ (m₁, out₁) k) :
    (∀ k < n, ((advance^[k] (m₁, out₁)).1.step (advance^[k] (m₁, out₁)).2).result.map
        Instruction.reduce =
      ((advance^[k] (m₂, out₂)).1.step (advance^[k] (m₂, out₂)).2).result.map
        Instruction.reduce)
    ∧ Printer.PrintSame out₁ (advance^[n] (m₁, out₁)).2 out₂ (advance^[n] (m₂, out₂)).2
    ∧ (advance^[n] (m₁, out₁)).1.regs = (advance^[n] (m₂, out₂)).1.regs
    ∧ (advance^[n] (m₁, out₁)).1.status = (advance^[n] (m₂, out₂)).1.status
    ∧ (advance^[n] (m₁, out₁)).1.cycles = (advance^[n] (m₂, out₂)).1.cycles
    ∧ (∀ a ∈ knownAfter looseᶜ (m₁, out₁) n, (advance^[n] (m₁, out₁)).1.mem.cells[a.toNat]? =
        (advance^[n] (m₂, out₂)).1.mem.cells[a.toNat]?)
    ∧ ∀ a, (advance^[n] (m₁, out₁)).1.mem.peek a % 8 =
        (advance^[n] (m₂, out₂)).1.mem.peek a % 8 := by
  have hcongruent : m₁.mem.cells.map (· % 8) = m₂.mem.cells.map (· % 8) := by
    rw [Memory.map_mod_eq_iff hleft hright]
    intro a
    by_cases ha : a < 256
    · have haddress : (UInt8.ofNat a).toNat = a := UInt8.toNat_ofNat_of_lt' ha
      by_cases hmem : UInt8.ofNat a ∈ loose
      · rw [← haddress]
        exact hloose _ hmem
      · have hcell := hcells _ hmem
        rw [haddress] at hcell
        rw [Memory.peek_eq, Memory.peek_eq, hcell]
    · have hend : 256 ≤ a := Nat.not_lt.1 ha
      rw [Memory.peek_of_size_le (hleft.trans_le hend), Memory.peek_of_size_le (hright.trans_le hend)]
  have hakin : Akin looseᶜ (m₁, out₁) (m₂, out₂) :=
    ⟨⟨hregs, hstatus, hleft, hright, hcells⟩, hcycles, hcongruent, hout⟩
  obtain ⟨hcalls, hprinted, hthen⟩ := hakin.iterate n hreads
  refine ⟨fun k hk => (hcalls k hk).result, hprinted, hthen.machines.regs,
    hthen.machines.status, hthen.cycles, hthen.machines.cells, ?_⟩
  exact (Memory.map_mod_eq_iff hthen.machines.left hthen.machines.right).1 hthen.congruent

/-- LDI R7,0xF4; PUSH R1; POP R2; HLT, with these operands for the registers,
and R1 at 8. -/
def popping (stack pushed popped : UInt8) : Machine where
  regs := Registers.fresh.set 1 8
  mem := ⟨⟨[Opcode.ldi, stack, 0xF4, Opcode.push, pushed, Opcode.pop, popped, Opcode.hlt]
    ++ List.replicate 248 0⟩⟩
  status := .running
  cycles := 0
  last := none

/-- Other names for the same registers: the same is popped, and the stack
pointer comes back to where it was set. The fifth call finds a machine that
has halted. -/
theorem popping_by_other_names :
    let m₁ := popping 7 1 2
    let m₂ := popping 255 17 250
    let out := Printer.unlimited {}
    let loose : Set UInt8 := {a | a.toNat ∈ [1, 4, 6]}
    m₁.mem.Full ∧ m₂.mem.Full ∧ m₁.regs = m₂.regs ∧ m₁.status = m₂.status
      ∧ m₁.cycles = m₂.cycles
      ∧ (∀ a ∉ loose, m₁.mem.cells[a.toNat]? = m₂.mem.cells[a.toNat]?)
      ∧ (∀ a ∈ loose, m₁.mem.peek a.toNat % 8 = m₂.mem.peek a.toNat % 8)
      ∧ out.BehavesLike out
      ∧ (∀ k < 5, ∀ a ∈ (advance^[k] (m₁, out)).1.readsWhole,
          a ∈ knownAfter looseᶜ (m₁, out) k)
      ∧ (advance^[5] (m₂, out)).1.regs.sp = 0xF4 ∧ (advance^[5] (m₂, out)).1.regs.get 2 = 8
      ∧ (advance^[5] (m₂, out)).1.status = .halted := by
  intro m₁ m₂ out loose
  have hleft : m₁.mem.Full := by decide +kernel
  have hright : m₂.mem.Full := by decide +kernel
  have hfront : ∀ n < 8, n ∉ [1, 4, 6] → m₁.mem.cells[n]? = m₂.mem.cells[n]? := by
    decide +kernel
  have hcells : ∀ n ∉ [1, 4, 6], m₁.mem.cells[n]? = m₂.mem.cells[n]? := by
    intro n hn
    by_cases hlt : n < 8
    · exact hfront n hlt hn
    · have hbehind : 8 ≤ n := Nat.not_lt.1 hlt
      simp only [m₁, m₂, popping, List.getElem?_toArray]
      rw [List.getElem?_append_right hbehind, List.getElem?_append_right hbehind]
      rfl
  have hloose : ∀ n ∈ [1, 4, 6], m₁.mem.peek n % 8 = m₂.mem.peek n % 8 := by
    decide +kernel
  have hreads : ∀ k < 5, ∀ a ∈ (advance^[k] (m₁, out)).1.readsWhole,
      a.toNat ∉ [1, 4, 6] ∨ ∃ j < k, writes (advance^[j] (m₁, out)) = some a := by
    decide +kernel
  obtain ⟨-, -, hregs, hstatus, -⟩ :=
    @register_operands_matter_modulo_eight loose m₁ m₂ out out 5 hleft hright rfl rfl rfl
      (fun a => hcells _) (fun a => hloose _) (fun _ _ => rfl) hreads
  refine ⟨hleft, hright, rfl, rfl, rfl, fun a => hcells _, fun a => hloose _,
    fun _ _ => rfl, hreads, ?_, ?_, ?_⟩
  · rw [← hregs]
    decide +kernel
  · rw [← hregs]
    decide +kernel
  · rw [← hstatus]
    decide +kernel

end Machine

end LS8
