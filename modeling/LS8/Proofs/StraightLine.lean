/-
Straight-line programs compute what their instructions say.

`State.apply` says what each instruction that goes on behind itself does to
eight registers, the flags, the bytes at the addresses and what has been
printed. It knows no program counter and no encoding, so a program means its
instructions applied in order. A machine that holds the assembled program
comes to what the program means (`straight_line_program_computes`).

# The simulation

`Shows` relates a machine to a state. A rule of execution keeps this for
each instruction, aliased registers and R7 included (`Shows.executes`), if
the state admits the instruction: the stack pointer does not leave its
range, and a push writes behind the program. So the code in memory is what
was loaded (`mem_apply`), and what stands behind the instructions that have
been executed is the next one (`Reached.step`).
-/
import Mathlib.Logic.Function.Basic
import LS8.Proofs.Assembly
import LS8.Proofs.Printing

namespace LS8

/-- An instruction that always goes on behind itself. -/
inductive Straight where
  | ldi (reg value : UInt8)
  | prn (reg : UInt8)
  | push (reg : UInt8)
  | pop (reg : UInt8)
  | alu (op : AluOp) (regA regB : UInt8)
  deriving DecidableEq, Repr

namespace Straight

/-- The instruction among all instructions. -/
def instruction : Straight → Instruction
  | ldi reg value => .ldi reg value
  | prn reg => .prn reg
  | push reg => .push reg
  | pop reg => .pop reg
  | alu op regA regB => .alu op regA regB

/-- A straight-line program with a HLT behind it. -/
def halted (program : List Straight) : List Instruction :=
  program.map instruction ++ [.hlt]

/-- The address of the HLT. -/
def stop (program : List Straight) : Nat :=
  (assemble (program.map instruction)).length

theorem halted_middle (front : List Straight) (i : Straight) (rest : List Straight) :
    halted (front ++ i :: rest) = front.map instruction ++ i.instruction :: halted rest := by
  rw [halted, List.map_append, List.append_assoc]
  rfl

theorem length_halted (program : List Straight) :
    (assemble (halted program)).length = stop program + 1 :=
  length_assemble_middle (program.map instruction) .hlt []

theorem stop_middle (front : List Straight) (i : Straight) (rest : List Straight) :
    stop (front ++ i :: rest) = stop front + (i.instruction.size + stop rest) := by
  rw [stop, List.map_append]
  exact length_assemble_middle (front.map instruction) i.instruction (rest.map instruction)

theorem stop_concat (front : List Straight) (i : Straight) :
    stop (front ++ [i]) = stop front + i.instruction.size :=
  stop_middle front i []

/-- Every instruction takes a byte at least. -/
theorem length_le_stop (program : List Straight) : program.length ≤ stop program := by
  induction program with
  | nil => exact Nat.le_refl 0
  | cons i rest ih =>
      have hstop := stop_middle [] i rest
      have hsize := i.instruction.size_pos
      rw [List.length_cons, ← List.nil_append (i :: rest), hstop]
      omega

theorem instruction_ne_hlt (i : Straight) : i.instruction ≠ .hlt := by
  cases i <;> exact nofun

-- ============================================================ reference

/-- Registers are written as numerals. -/
local instance : NeZero 8 :=
  ⟨by decide⟩

/-- What straight-line programs work on. -/
structure State where
  gp : Fin 8 → UInt8
  fl : UInt8
  mem : UInt8 → UInt8
  printed : List UInt8

/-- The register that an operand names. -/
def register (operand : UInt8) : Fin 8 :=
  Fin.ofNat 8 operand.toNat

/-- The flags byte after a comparison: bit 2 says less, bit 1 greater, bit 0
equal. -/
def relation (a b : UInt8) : UInt8 :=
  if a < b then 4 else if b < a then 2 else 1

namespace State

/-- All is zero but memory, which begins with `image`. -/
def start (image : List UInt8) : State where
  gp := fun _ => 0
  fl := 0
  mem := fun address => image.getD address.toNat 0
  printed := []

def get (s : State) (operand : UInt8) : UInt8 :=
  s.gp (register operand)

def put (s : State) (k : Fin 8) (value : UInt8) : State :=
  { s with gp := Function.update s.gp k value }

/-- The stack pointer is R7. -/
def sp (s : State) : UInt8 :=
  s.gp 7

/-- What an instruction does. -/
def apply (s : State) : Straight → State
  | .ldi r value => s.put (register r) value
  | .prn r => { s with printed := s.printed ++ [s.get r] }
  | .push r =>
      { s.put 7 (s.sp - 1) with mem := Function.update s.mem (s.sp - 1) (s.get r) }
  | .pop r =>
      let loaded := s.put (register r) (s.mem s.sp)
      loaded.put 7 (loaded.sp + 1)
  | .alu .add a b => s.put (register a) (s.get a + s.get b)
  | .alu .mul a b => s.put (register a) (s.get a * s.get b)
  | .alu .cmp a b => { s with fl := relation (s.get a) (s.get b) }

/-- What a program computes. -/
def after (image : List UInt8) (program : List Straight) : State :=
  program.foldl apply (start image)

theorem after_concat (image : List UInt8) (program : List Straight) (i : Straight) :
    after image (program ++ [i]) = (after image program).apply i :=
  List.foldl_concat ..

/-- The stack stays in its range, and behind `stop` when it grows. -/
def Admits (stop : Nat) (s : State) : Straight → Prop
  | .push _ => s.sp ≠ 0 ∧ stop < (s.sp - 1).toNat
  | .pop _ => s.sp ≠ 255
  | _ => True

instance (stop : Nat) (s : State) : (i : Straight) → Decidable (s.Admits stop i)
  | .push _ => inferInstanceAs (Decidable (s.sp ≠ 0 ∧ stop < (s.sp - 1).toNat))
  | .pop _ => inferInstanceAs (Decidable (s.sp ≠ 255))
  | .ldi _ _ | .prn _ | .alu _ _ _ => inferInstanceAs (Decidable True)

/-- Every instruction of a program is admitted where its turn comes. -/
def Safe (stop : Nat) : State → List Straight → Prop
  | _, [] => True
  | s, i :: rest => s.Admits stop i ∧ Safe stop (s.apply i) rest

instance decidableSafe (stop : Nat) : (s : State) → (program : List Straight) →
    Decidable (Safe stop s program)
  | _, [] => inferInstanceAs (Decidable True)
  | s, i :: rest =>
      have := decidableSafe stop (s.apply i) rest
      inferInstanceAs (Decidable (s.Admits stop i ∧ Safe stop (s.apply i) rest))

/-- An admitted instruction writes nowhere up to `stop`. -/
theorem mem_apply {stop : Nat} {s : State} {i : Straight} (h : s.Admits stop i) {a : UInt8}
    (ha : a.toNat ≤ stop) : (s.apply i).mem a = s.mem a := by
  cases i with
  | push r =>
      have hne : a ≠ s.sp - 1 := by
        intro heq
        rw [heq] at ha
        exact absurd h.right (Nat.not_lt.2 ha)
      exact Function.update_of_ne hne _ _
  | alu op a b => cases op <;> rfl
  | _ => rfl

end State

end Straight

open Straight

namespace Machine

-- =========================================================== simulation

/-- The machine holds the registers, the flags and the bytes of the state. -/
structure Shows (m : Machine) (s : State) : Prop where
  gp : ∀ k : Fin 8, m.regs.gp[k] = s.gp k
  fl : m.regs.fl.bits = s.fl
  full : m.mem.Full
  cells : ∀ a : UInt8, m.mem.cells[a.toNat]? = some (s.mem a)

/-- A comparison is seen from the three bits. -/
theorem compare_eq_relation (a b : UInt8) : (Flags.compare a b).bits = relation a b := by
  unfold Flags.compare relation
  by_cases heq : a = b
  · have hirrefl : ¬ b < b := UInt8.lt_irrefl b
    rw [if_pos heq, heq, if_neg hirrefl, if_neg hirrefl]
    rfl
  · rw [if_neg heq]
    by_cases hgt : b < a
    · have hlt : ¬ a < b := UInt8.lt_asymm hgt
      rw [if_pos hgt, if_neg hlt, if_pos hgt]
      rfl
    · have hlt : a < b := UInt8.lt_of_le_of_ne (UInt8.not_lt.1 hgt) heq
      rw [if_neg hgt, if_pos hlt]
      rfl

namespace Shows

variable {m : Machine} {s : State}

theorem get (h : m.Shows s) (r : UInt8) : m.regs.get r = s.get r :=
  h.gp (register r)

theorem sp (h : m.Shows s) : m.regs.sp = s.sp :=
  h.gp 7

/-- One register is written in both. -/
theorem put (h : m.Shows s) (k : Fin 8) (value : UInt8) :
    Shows { m with regs := { m.regs with gp := m.regs.gp.set k value } } (s.put k value) where
  gp := by
    intro j
    show (m.regs.gp.set k value)[j] = Function.update s.gp k value j
    by_cases hj : j = k
    · rw [hj, Function.update_self]
      exact Vector.getElem_set_self k.isLt
    · rw [Function.update_of_ne hj, ← h.gp j]
      exact Vector.getElem_set_ne k.isLt j.isLt (fun heq => hj (Fin.ext heq.symm))
  fl := h.fl
  full := h.full
  cells := h.cells

/-- What a state says nothing of does not matter. -/
theorem jump (h : m.Shows s) (address : UInt8) : (m.jump address).Shows s :=
  ⟨h.gp, h.fl, h.full, h.cells⟩

theorem complete (h : m.Shows s) (i : Instruction) : (m.complete i).Shows s :=
  ⟨h.gp, h.fl, h.full, h.cells⟩

/-- A push in both. -/
theorem push (h : m.Shows s) {mem : Memory} {value : UInt8}
    (hwrite : m.mem.write (s.sp - 1).toNat value = .ok mem) :
    Shows { m with mem, regs := m.regs.setSp (s.sp - 1) }
      { s.put 7 (s.sp - 1) with mem := Function.update s.mem (s.sp - 1) value } where
  gp := (h.put 7 (s.sp - 1)).gp
  fl := h.fl
  full := (Memory.size_write hwrite).trans h.full
  cells := by
    intro a
    show mem.cells[a.toNat]? = some (Function.update s.mem (s.sp - 1) value a)
    rw [Memory.getElem?_write hwrite, h.cells]
    by_cases ha : a = s.sp - 1
    · rw [ha, if_pos rfl, Function.update_self]
    · rw [if_neg fun heq => ha (UInt8.toNat_inj.1 heq), Function.update_of_ne ha]

/-- An instruction goes through on a machine that shows a state which admits
it, does there what it does to the state, and prints the same. -/
theorem executes (h : m.Shows s) {i : Straight} {stop : Nat} {next : UInt8}
    (hadmits : s.Admits stop i) (hnext : m.following i.instruction = .ok next) :
    ∃ e, m.Executes i.instruction e ∧ e.machine.Shows (s.apply i) ∧ e.machine.pc = next
      ∧ (s.apply i).printed = s.printed ++ e.prints.toList := by
  have hnothing : s.printed = s.printed ++ [] := (List.append_nil _).symm
  cases i with
  | ldi r value => exact ⟨_, .ldi hnext, (h.put (register r) value).jump next, rfl, hnothing⟩
  | prn r =>
      refine ⟨_, .prn hnext, ⟨h.gp, h.fl, h.full, h.cells⟩, rfl, ?_⟩
      rw [h.get r]
      rfl
  | push r =>
      have hlt : (s.sp - 1).toNat < Memory.capacity := (s.sp - 1).toNat_lt
      obtain ⟨mem, hwrite⟩ := h.full.exists_write hlt (s.get r)
      have hpush : m.push (m.regs.get r) =
          .ok { m with mem, regs := m.regs.setSp (s.sp - 1) } := by
        rw [push_eq_ok_iff, h.sp, h.get r]
        exact ⟨hadmits.left, mem, hwrite, rfl⟩
      exact ⟨_, .push hnext hpush, (h.push hwrite).jump next, rfl, hnothing⟩
  | pop r =>
      have htop : m.top = .ok (s.mem s.sp) := by
        rw [top_eq_ok_iff, h.sp]
        exact ⟨hadmits, h.cells s.sp⟩
      have hloaded := h.put (register r) (s.mem s.sp)
      have hpopped := hloaded.put 7 ((s.put (register r) (s.mem s.sp)).sp + 1)
      rw [← hloaded.sp] at hpopped
      refine ⟨_, .pop hnext htop, ?_, rfl, hnothing⟩
      rw [State.apply, ← hloaded.sp]
      exact hpopped.jump next
  | alu op a b =>
      refine ⟨_, .alu hnext, ?_, rfl, ?_⟩
      · apply Shows.jump
        cases op with
        | add =>
            rw [State.apply, ← h.get a, ← h.get b]
            exact h.put (register a) _
        | mul =>
            rw [State.apply, ← h.get a, ← h.get b]
            exact h.put (register a) _
        | cmp =>
            rw [State.apply, ← h.get a, ← h.get b, ← compare_eq_relation]
            exact ⟨h.gp, rfl, h.full, h.cells⟩
      · cases op <;> exact hnothing

/-- An admitted instruction leaves the code as it is. -/
theorem code_kept {m' : Machine} {i : Straight} {stop : Nat} {code : List UInt8}
    (h : m.Shows s) (h' : m'.Shows (s.apply i)) (hadmits : s.Admits stop i)
    (hstop : code.length ≤ stop + 1) (hcode : code <+: m.mem.cells.toList) :
    code <+: m'.mem.cells.toList := by
  have hroom : code.length ≤ 256 := Nat.le_trans hcode.length_le (Nat.le_of_eq h.full)
  rw [List.prefix_iff_getElem?] at hcode ⊢
  intro k hk
  have haddress : (UInt8.ofNat k).toNat = k :=
    UInt8.toNat_ofNat_of_lt' (Nat.lt_of_lt_of_le hk hroom)
  have hkept : (s.apply i).mem (UInt8.ofNat k) = s.mem (UInt8.ofNat k) := by
    apply State.mem_apply hadmits
    omega
  have hcell := h.cells (UInt8.ofNat k)
  have hcell' := h'.cells (UInt8.ofNat k)
  rw [haddress, ← Array.getElem?_toList] at hcell hcell'
  rw [hcell', hkept, ← hcell]
  exact hcode k hk

end Shows

-- ================================================================ runs

variable {program front rest : List Straight} {image before : List UInt8}
variable {m : Machine} {out : Printer}

/-- The instructions of `front`, with which the program begins, have been
executed: the machine stands behind them and shows what they compute, the
program in memory is as it was loaded, and behind `before` stands what they
print. -/
structure Reached (program : List Straight) (image before : List UInt8) (front : List Straight)
    (m : Machine) (out : Printer) : Prop where
  running : m.status = .running
  pc : m.pc.toNat = stop front
  shows : m.Shows (.after image front)
  code : assemble (halted program) <+: m.mem.cells.toList
  takes : out.TakesAll
  printed : out.printed.values.toList = before ++ (State.after image front).printed

namespace Reached

/-- A machine that has been loaded stands where the program begins. -/
theorem start (hboot : boot image = .ok m) (hcode : assemble (halted program) <+: image)
    (htakes : out.TakesAll) : Reached program image out.printed.values.toList [] m out := by
  have hfull := full_boot hboot
  obtain ⟨hroom, rfl⟩ := boot_eq_ok_iff.1 hboot
  have hshows : Shows { fresh with
      mem := ⟨⟨image ++ List.replicate (Memory.capacity - image.length) 0⟩⟩ } (.start image) := by
    refine ⟨?_, rfl, hfull, ?_⟩
    · intro k
      exact Vector.getElem_replicate k.isLt
    · intro a
      have hlt : a.toNat < Memory.capacity := a.toNat_lt
      show (Array.mk (image ++ List.replicate _ 0))[a.toNat]? = some (image.getD a.toNat 0)
      rw [List.getElem?_toArray, List.getElem?_append, List.getD_eq_getElem?_getD]
      split
      · next hin => rw [List.getElem?_eq_getElem hin, Option.getD_some]
      · next hout =>
        rw [List.getElem?_eq_none (Nat.le_of_not_lt hout), List.getElem?_replicate,
          if_pos (by omega)]
        rfl
  exact ⟨rfl, rfl, hshows, hcode.trans (List.prefix_append _ _), htakes,
    (List.append_nil _).symm⟩

/-- The next instruction goes through, and then it has been executed. -/
theorem step {i : Straight} (h : Reached (front ++ i :: rest) image before front m out)
    (hadmits : (State.after image front).Admits (stop (front ++ i :: rest)) i) :
    ∃ m' out', m.step out = ⟨.ok i.instruction, m', out'⟩
      ∧ Reached (front ++ i :: rest) image before (front ++ [i]) m' out' := by
  have hlength := length_halted (front ++ i :: rest)
  have hstop := stop_middle front i rest
  have hroom : (assemble (halted (front ++ i :: rest))).length ≤ Memory.capacity :=
    Nat.le_trans h.code.length_le (Nat.le_of_eq h.shows.full)
  have hfetch : m.fetch = .ok i.instruction := by
    have hcode := h.code
    rw [halted_middle] at hcode
    exact fetch_of_prefix h.shows.full hcode h.pc
  have hbehind : m.pc.toNat + i.instruction.size < Memory.capacity := by
    rw [h.pc]
    omega
  have hnext := following_eq_ok_iff.2 ⟨hbehind, rfl⟩
  obtain ⟨e, hexec, hshows, hpc, hprinted⟩ := h.shows.executes hadmits hnext
  obtain ⟨out', _, hreceive, -, halike⟩ := Printer.Alike.receive ⟨h.takes, h.takes, rfl⟩ e.prints
  have hstep := step_eq_ok_iff.2 ⟨h.running, hfetch, e, hexec, hreceive, rfl⟩
  refine ⟨_, out', hstep, ?_⟩
  refine ⟨?_, ?_, ?_, ?_, halike.left, ?_⟩
  · rw [status_step hstep, if_neg i.instruction_ne_hlt]
  · rw [stop_concat, ← h.pc]
    show e.machine.pc.toNat = _
    rw [hpc]
    exact UInt8.toNat_ofNat_of_lt' hbehind
  · rw [State.after_concat]
    exact hshows.complete _
  · exact h.shows.code_kept (hshows.complete _) hadmits (Nat.le_of_eq hlength) h.code
  · rw [State.after_concat, hprinted, Printer.printed_of_receive hreceive, h.printed,
      List.append_assoc]

/-- All instructions go through that are left. -/
theorem passage (rest : List Straight) :
    ∀ (front : List Straight) {m : Machine} {out : Printer},
      Reached (front ++ rest) image before front m out →
      State.Safe (stop (front ++ rest)) (.after image front) rest →
      ∃ trace m' out', Passage m out trace m' out' ∧ trace.length = rest.length
        ∧ Reached (front ++ rest) image before (front ++ rest) m' out' := by
  induction rest with
  | nil =>
      intro front m out h _
      refine ⟨[], m, out, .refl m out, rfl, ?_⟩
      rwa [List.append_nil] at h ⊢
  | cons i rest ih =>
      intro front m out h hsafe
      obtain ⟨hadmits, hsafe⟩ := hsafe
      obtain ⟨m₁, out₁, hstep, hnext⟩ := h.step hadmits
      rw [← State.after_concat] at hsafe
      have hbehind : front ++ [i] ++ rest = front ++ i :: rest := List.append_assoc front [i] rest
      rw [← hbehind] at hnext hsafe ⊢
      obtain ⟨trace, m', out', hpass, hlen, hreached⟩ := ih _ hnext hsafe
      exact ⟨⟨m, i.instruction⟩ :: trace, m', out', .head hstep hpass,
        congrArg (· + 1) hlen, hreached⟩

/-- Behind the last instruction the machine halts. -/
theorem halt (h : Reached program image before program m out) :
    ∃ m', m.step out = ⟨.ok .hlt, m', out⟩ ∧ m'.status = .halted ∧ m'.pc = m.pc
      ∧ m'.Shows (.after image program) := by
  have hfetch : m.fetch = .ok .hlt := fetch_of_prefix h.shows.full h.code h.pc
  have hstep : m.step out = ⟨.ok .hlt, _, out⟩ :=
    step_eq_ok_iff.2 ⟨h.running, hfetch, _, .hlt, rfl, rfl⟩
  exact ⟨_, hstep, rfl, rfl, h.shows.gp, h.shows.fl, h.shows.full, h.shows.cells⟩

end Reached

/-- A straight-line program that is assembled with a HLT and anything behind
it, loaded and run comes to what its instructions compute one after the
other, and stops at the HLT. -/
theorem straight_line_program_computes {tail : List UInt8}
    (hroom : (assemble (halted program) ++ tail).length ≤ 256)
    (hsafe : State.Safe (stop program) (.start (assemble (halted program) ++ tail)) program)
    (htakes : out.TakesAll) :
    ∃ m, fresh.load (assemble (halted program) ++ tail) = .ok m
      ∧ ∃ count m' out', m.run out = some ⟨.ok count, m', out'⟩
        ∧ count.toNat = program.length + 1
        ∧ m'.status = .halted
        ∧ m'.pc.toNat = stop program
        ∧ m'.Shows (.after (assemble (halted program) ++ tail) program)
        ∧ out'.printed.values.toList = out.printed.values.toList
            ++ (State.after (assemble (halted program) ++ tail) program).printed := by
  obtain ⟨m, hboot⟩ : ∃ m, boot (assemble (halted program) ++ tail) = .ok m :=
    ⟨_, boot_eq_ok_iff.2 ⟨hroom, rfl⟩⟩
  have hstart := Reached.start hboot (List.prefix_append _ tail) htakes
  obtain ⟨trace, m₁, out₁, hpass, hlen, hreached⟩ := Reached.passage program [] hstart hsafe
  obtain ⟨m', hstep, hhalted, hpc, hshows⟩ := hreached.halt
  have hwhole := hpass.append (.single hstep)
  have hattempts : (trace ++ [Event.mk m₁ .hlt]).length = program.length + 1 := by
    rw [List.length_append, hlen]
    rfl
  have hshort : program.length + 1 ≤ 256 := by
    have hstop := length_halted program
    have hle := length_le_stop program
    rw [List.length_append] at hroom
    omega
  have hending := Ending.stopped hwhole (by rw [hhalted]; exact nofun)
  rw [hattempts] at hending
  refine ⟨m, hboot, _, m', out₁, hending.run_eq ?_, ?_, hhalted, ?_, hshows, hreached.printed⟩
  · exact Nat.le_trans hshort (by decide)
  · exact UInt64.toNat_ofNat_of_lt' (Nat.lt_of_le_of_lt hshort (by decide))
  · rw [hpc]
    exact hreached.pc

/-- Operands beyond 7, one register as both operands, and a pop into R7. -/
theorem aliasing_program_computes :
    let program : List Straight :=
      [.ldi 7 0xF0, .ldi 9 6, .push 9, .alu .mul 1 17, .prn 1, .pop 2, .prn 10, .alu .cmp 2 1,
        .push 1, .pop 15, .prn 7]
    let image := assemble (halted program) ++ [9, 9]
    image.length ≤ 256 ∧ State.Safe (stop program) (.start image) program
      ∧ (Printer.unlimited {}).TakesAll
      ∧ ∃ m, fresh.load image = .ok m
        ∧ ∃ count m' out', m.run (Printer.unlimited {}) = some ⟨.ok count, m', out'⟩
          ∧ count.toNat = 12 ∧ m'.status = .halted ∧ m'.pc.toNat = 26
          ∧ m'.Shows (.after image program) ∧ m'.regs.sp = 37 ∧ m'.regs.fl.isLess = true
          ∧ out'.printed.values.toList = [36, 6, 37] := by
  intro program image
  have hroom : image.length ≤ 256 := by decide
  have hsafe : State.Safe (stop program) (.start image) program := by decide +kernel
  have htakes := Printer.takesAll_unlimited {}
  obtain ⟨m, hload, count, m', out', hrun, hcount, hhalted, hpc, hshows, hprinted⟩ :=
    straight_line_program_computes hroom hsafe htakes
  refine ⟨hroom, hsafe, htakes, m, hload, count, m', out', hrun, hcount, hhalted, hpc, hshows,
    ?_, ?_, ?_⟩
  · rw [hshows.sp]
    decide +kernel
  · rw [Flags.isLess, hshows.fl]
    decide +kernel
  · rw [hprinted]
    decide +kernel

end Machine

end LS8
