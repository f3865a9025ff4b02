/-
When a step does not go through, and with which fault.

What stands in the way of a running machine can be read off its registers
and the byte at its program counter, without decoding or executing anything
(`obstacle`). The causes are looked for in a fixed order: an unknown opcode,
missing operands, no address behind an instruction that goes on there, a
stack that cannot grow, a stack that cannot shrink. If memory is full and
the printer takes what it is offered, a step faults exactly if there is an
obstacle, and with the fault that the obstacle says.

A full memory has all the cells that a step asks for, so no step of such a
machine faults over memory, and an instruction is fetched exactly where its
bytes stand (`fetch_eq_ok_iff`).
-/
import LS8.Machine.Rules
import LS8.Proofs.Decoding

namespace LS8.Machine

-- ============================================================ obstacles

/-- The instruction with this opcode needs an address behind it, to go on
there or to come back to. A conditional jump needs one if it is not
taken. -/
def NeedsFollowing (m : Machine) (op : UInt8) : Prop :=
  op ∈ [Opcode.ldi, Opcode.prn, Opcode.push, Opcode.pop, Opcode.call,
      Opcode.add, Opcode.mul, Opcode.cmp]
    ∨ op = Opcode.jeq ∧ m.regs.fl.isEqual = false
    ∨ op = Opcode.jne ∧ m.regs.fl.isEqual = true

instance (m : Machine) (op : UInt8) : Decidable (m.NeedsFollowing op) :=
  inferInstanceAs (Decidable (_ ∨ _ ∨ _))

/-- In terms of instructions: HLT, JMP, RET and a conditional jump that is
taken need none. -/
theorem needsFollowing_iff {m : Machine} {i : Instruction} :
    m.NeedsFollowing i.opcode ↔ match i with
      | .hlt | .jmp _ | .ret => False
      | .jeq _ => m.regs.fl.isEqual = false
      | .jne _ => m.regs.fl.isEqual = true
      | _ => True := by
  cases i with
  | hlt => simp +decide [NeedsFollowing]
  | ret => simp +decide [NeedsFollowing]
  | alu op a b => cases op <;> simp +decide [NeedsFollowing, Instruction.opcode]
  | _ => simp +decide [NeedsFollowing, Instruction.opcode]

theorem mem_growing_iff {i : Instruction} :
    i.opcode ∈ [Opcode.push, Opcode.call] ↔ match i with
      | .push _ | .call _ => True
      | _ => False := by
  cases i with
  | hlt => simp +decide
  | ret => simp +decide
  | alu op a b => cases op <;> simp +decide [Instruction.opcode]
  | _ => simp +decide [Instruction.opcode]

theorem mem_shrinking_iff {i : Instruction} :
    i.opcode ∈ [Opcode.pop, Opcode.ret] ↔ match i with
      | .pop _ | .ret => True
      | _ => False := by
  cases i with
  | hlt => simp +decide
  | ret => simp +decide
  | alu op a b => cases op <;> simp +decide [Instruction.opcode]
  | _ => simp +decide [Instruction.opcode]

/-- What stands in the way of the next step of a running machine. -/
def obstacle (m : Machine) : Option Fault :=
  let op := m.mem.peek m.pc.toNat
  let size := 1 + (op >>> 6).toNat
  if op ∉ Opcode.known then some (.decode m.pc (.unknownOpcode op))
  else if 256 < m.pc.toNat + size then some (.decode m.pc (.truncated op size))
  else if m.pc.toNat + size = 256 ∧ m.NeedsFollowing op then some (.pcOutOfRange 256)
  else if op ∈ [Opcode.push, Opcode.call] ∧ m.regs.sp = 0 then some .stackOverflow
  else if op ∈ [Opcode.pop, Opcode.ret] ∧ m.regs.sp = 255 then some .stackUnderflow
  else none

-- ============================================================= fetching

/-- What decoding is given: the byte at the program counter, then two more
or as many as there are addresses. -/
theorem fetch_of_full {m : Machine} (hfull : m.mem.Full) :
    ∃ operands : List UInt8, operands.length + 1 = min 3 (256 - m.pc.toNat)
      ∧ m.fetch = match Instruction.decode (m.mem.peek m.pc.toNat :: operands) with
        | .error e => .error (.decode m.pc e)
        | .ok i => .ok i := by
  have hpc : m.pc.toNat < 256 := m.pc.toNat_lt
  have hsize : m.mem.cells.size = 256 := hfull
  have hstop : min (m.pc.toNat + 3) Memory.capacity ≤ Memory.capacity := Nat.min_le_right ..
  unfold fetch
  rw [hfull.slice_eq _ hstop]
  have hlen : (m.mem.cells.extract m.pc.toNat (min (m.pc.toNat + 3) 256)).toList.length
      = min 3 (256 - m.pc.toNat) := by
    rw [Array.length_toList, Array.size_extract, hsize]
    omega
  have hhead : (m.mem.cells.extract m.pc.toNat (min (m.pc.toNat + 3) 256)).toList[0]?
      = some (m.mem.peek m.pc.toNat) := by
    rw [Array.getElem?_toList, Array.getElem?_extract, if_pos (by omega), Nat.add_zero,
      ← Memory.read_eq_ok_iff, hfull.read_eq hpc]
  dsimp only [Memory.capacity]
  rcases hbytes : (m.mem.cells.extract m.pc.toNat (min (m.pc.toNat + 3) 256)).toList with
    _ | ⟨op, operands⟩
  · rw [hbytes] at hhead
    cases hhead
  · rw [hbytes] at hlen hhead
    cases hhead
    exact ⟨operands, hlen, rfl⟩

/-- In a full memory the bytes that are looked at from an address on are an
instruction exactly if its bytes stand there, whatever stands behind them. -/
theorem decode_window_eq_ok_iff {mem : Memory} {i : Instruction} (hfull : mem.Full)
    (address : Nat) :
    Instruction.decode
        (mem.cells.extract address (min (address + 3) Memory.capacity)).toList = .ok i
      ↔ i.encode <+: mem.cells.toList.drop address := by
  rw [Instruction.decode_eq_ok_iff, Array.toList_extract, List.extract_eq_take_drop,
    List.prefix_take_iff, Instruction.length_encode, and_iff_left_iff_imp]
  intro hbytes
  have hroom := hbytes.length_le
  rw [Instruction.length_encode, List.length_drop, Array.length_toList, hfull] at hroom
  have hsize := i.size_le_three
  omega

/-- An instruction is fetched exactly if its bytes stand at the program
counter, whatever stands behind them. -/
theorem fetch_eq_ok_iff {m : Machine} {i : Instruction} (hfull : m.mem.Full) :
    m.fetch = .ok i ↔ i.encode <+: m.mem.cells.toList.drop m.pc.toNat := by
  unfold fetch
  rw [hfull.slice_eq _ (Nat.min_le_right _ _), ← decode_window_eq_ok_iff hfull]
  dsimp only
  cases Instruction.decode _ with
  | error e => exact ⟨nofun, nofun⟩
  | ok j => simp only [Except.ok.injEq]

/-- No opcode announces more than two operands. -/
theorem size_le_three {op : UInt8} (h : op ∈ Opcode.known) : Opcode.size op ≤ 3 := by
  have hall : Opcode.known.all (fun op => decide (Opcode.size op ≤ 3)) = true := by decide
  exact of_decide_eq_true (List.all_eq_true.1 hall op h)

/-- A full memory gives the instruction at the program counter if it begins
with an opcode and ends where the addresses end at the latest. -/
theorem fetch_cases {m : Machine} (hfull : m.mem.Full) {op : UInt8}
    (hop : m.mem.peek m.pc.toNat = op) :
    if op ∉ Opcode.known then m.fetch = .error (.decode m.pc (.unknownOpcode op))
    else if 256 < m.pc.toNat + Opcode.size op then
      m.fetch = .error (.decode m.pc (.truncated op (Opcode.size op)))
    else ∃ i, m.fetch = .ok i ∧ i.opcode = op := by
  obtain ⟨operands, hlen, hfetch⟩ := fetch_of_full hfull
  rw [hop] at hfetch
  by_cases hknown : op ∈ Opcode.known
  · have hthree := size_le_three hknown
    have hdecode := Instruction.decode_known operands hknown
    rw [if_neg (not_not_intro hknown)]
    by_cases hfits : m.pc.toNat + Opcode.size op ≤ 256
    · rw [if_neg (by omega)]
      rw [if_pos (by omega)] at hdecode
      obtain ⟨i, hi, hopcode⟩ := hdecode
      exact ⟨i, by rw [hfetch, hi], hopcode⟩
    · rw [if_pos (by omega)]
      rw [if_neg (by omega)] at hdecode
      rw [hfetch, hdecode]
  · rw [if_pos hknown, hfetch, Instruction.decode_unknown operands hknown]

-- ============================================================ executing

theorem following_of_fits {m : Machine} {i : Instruction} (hfits : m.pc.toNat + i.size ≤ 256) :
    if m.pc.toNat + i.size = 256 then m.following i = .error (.pcOutOfRange 256)
    else ∃ next, m.following i = .ok next := by
  unfold following
  dsimp only [Memory.capacity]
  split
  next hend => rw [hend]; rfl
  next hne => exact ⟨_, if_pos (by omega)⟩

theorem exists_push {m : Machine} (hfull : m.mem.Full) (hsp : m.regs.sp ≠ 0) (value : UInt8) :
    ∃ pushed, m.push value = .ok pushed := by
  obtain ⟨mem, hmem⟩ := hfull.exists_write (m.regs.sp - 1).toNat_lt value
  exact ⟨_, push_eq_ok_iff.2 ⟨hsp, mem, hmem, rfl⟩⟩

theorem exists_top {m : Machine} (hfull : m.mem.Full) (hsp : m.regs.sp ≠ 255) :
    ∃ value, m.top = .ok value := by
  have hread := hfull.read_eq m.regs.sp.toNat_lt
  exact ⟨_, top_eq_ok_iff.2 ⟨hsp, Memory.read_eq_ok_iff.1 hread⟩⟩

/-- An instruction that needs an address behind it asks for it first. -/
theorem execute_of_following_error {m : Machine} {i : Instruction} {fault : Fault}
    (hneeds : m.NeedsFollowing i.opcode) (h : m.following i = .error fault) :
    m.execute i = .error fault := by
  rw [needsFollowing_iff] at hneeds
  cases i with
  | hlt => exact hneeds.elim
  | jmp r => exact hneeds.elim
  | ret => exact hneeds.elim
  | jeq r =>
      dsimp only at hneeds
      simp only [execute, hneeds, Bool.false_eq_true, if_false, h]
      rfl
  | jne r =>
      dsimp only at hneeds
      simp only [execute, hneeds, if_true, h]
      rfl
  | _ =>
      simp only [execute, h]
      rfl

/-- PUSH and CALL ask next whether the stack can grow. -/
theorem execute_of_full_stack {m : Machine} {i : Instruction} {next : UInt8}
    (hgrow : i.opcode ∈ [Opcode.push, Opcode.call]) (hsp : m.regs.sp = 0)
    (h : m.following i = .ok next) : m.execute i = .error .stackOverflow := by
  have hpush (value : UInt8) : m.push value = .error .stackOverflow := if_pos hsp
  rw [mem_growing_iff] at hgrow
  cases i with
  | push r => simp only [execute, h, bind, Except.bind, hpush]
  | call r => simp only [execute, h, bind, Except.bind, hpush]
  | _ => exact hgrow.elim

/-- POP and RET ask next whether the stack can shrink; RET needs no address
behind it. -/
theorem execute_of_empty_stack {m : Machine} {i : Instruction}
    (hshrink : i.opcode ∈ [Opcode.pop, Opcode.ret]) (hsp : m.regs.sp = 255)
    (h : m.NeedsFollowing i.opcode → ∃ next, m.following i = .ok next) :
    m.execute i = .error .stackUnderflow := by
  have htop : m.top = .error .stackUnderflow := if_pos hsp
  rw [mem_shrinking_iff] at hshrink
  cases i with
  | pop r =>
      obtain ⟨next, hnext⟩ := h (needsFollowing_iff.2 trivial)
      simp only [execute, hnext, bind, Except.bind, htop]
  | ret => simp only [execute, bind, Except.bind, htop]
  | _ => exact hshrink.elim

/-- Nothing else can stand in the way. -/
theorem exists_execute {m : Machine} {i : Instruction} (hfull : m.mem.Full)
    (hnext : m.NeedsFollowing i.opcode → ∃ next, m.following i = .ok next)
    (hgrow : i.opcode ∈ [Opcode.push, Opcode.call] → m.regs.sp ≠ 0)
    (hshrink : i.opcode ∈ [Opcode.pop, Opcode.ret] → m.regs.sp ≠ 255) :
    ∃ e, m.Executes i e := by
  rw [needsFollowing_iff] at hnext
  rw [mem_growing_iff] at hgrow
  rw [mem_shrinking_iff] at hshrink
  cases i with
  | hlt => exact ⟨_, .hlt⟩
  | jmp r => exact ⟨_, .jmp r⟩
  | jeq r =>
      cases heq : m.regs.fl.isEqual with
      | true => exact ⟨_, .jeqTaken heq⟩
      | false =>
          obtain ⟨next, hnext⟩ := hnext heq
          exact ⟨_, .jeqPassed heq hnext⟩
  | jne r =>
      cases heq : m.regs.fl.isEqual with
      | true =>
          obtain ⟨next, hnext⟩ := hnext heq
          exact ⟨_, .jnePassed heq hnext⟩
      | false => exact ⟨_, .jneTaken heq⟩
  | call r =>
      obtain ⟨back, hback⟩ := hnext trivial
      obtain ⟨pushed, hpush⟩ := exists_push hfull (hgrow trivial) back
      exact ⟨_, .call hback hpush⟩
  | push r =>
      obtain ⟨next, hnext⟩ := hnext trivial
      obtain ⟨pushed, hpush⟩ := exists_push hfull (hgrow trivial) (m.regs.get r)
      exact ⟨_, .push hnext hpush⟩
  | ret =>
      obtain ⟨back, htop⟩ := exists_top hfull (hshrink trivial)
      exact ⟨_, .ret htop⟩
  | pop r =>
      obtain ⟨next, hnext⟩ := hnext trivial
      obtain ⟨value, htop⟩ := exists_top hfull (hshrink trivial)
      exact ⟨_, .pop hnext htop⟩
  | ldi r value =>
      obtain ⟨next, hnext⟩ := hnext trivial
      exact ⟨_, .ldi hnext⟩
  | prn r =>
      obtain ⟨next, hnext⟩ := hnext trivial
      exact ⟨_, .prn hnext⟩
  | alu op a b =>
      obtain ⟨next, hnext⟩ := hnext trivial
      exact ⟨_, .alu hnext⟩

/-- PUSH and CALL need an address behind them. -/
theorem NeedsFollowing.of_growing {m : Machine} {i : Instruction}
    (h : i.opcode ∈ [Opcode.push, Opcode.call]) : m.NeedsFollowing i.opcode := by
  rw [mem_growing_iff] at h
  rw [needsFollowing_iff]
  cases i with
  | push r => trivial
  | call r => trivial
  | _ => exact h.elim

/-- The obstacles behind decoding. -/
theorem execute_cases {m : Machine} {i : Instruction} (hfull : m.mem.Full)
    (hfits : m.pc.toNat + i.size ≤ 256) :
    if m.pc.toNat + i.size = 256 ∧ m.NeedsFollowing i.opcode then
      m.execute i = .error (.pcOutOfRange 256)
    else if i.opcode ∈ [Opcode.push, Opcode.call] ∧ m.regs.sp = 0 then
      m.execute i = .error .stackOverflow
    else if i.opcode ∈ [Opcode.pop, Opcode.ret] ∧ m.regs.sp = 255 then
      m.execute i = .error .stackUnderflow
    else ∃ e, m.execute i = .ok e := by
  have hfollowing := following_of_fits hfits
  by_cases hlast : m.pc.toNat + i.size = 256 ∧ m.NeedsFollowing i.opcode
  · rw [if_pos hlast.1] at hfollowing
    rw [if_pos hlast]
    exact execute_of_following_error hlast.2 hfollowing
  rw [if_neg hlast]
  have hnext (hneeds : m.NeedsFollowing i.opcode) : ∃ next, m.following i = .ok next := by
    rwa [if_neg fun hend => hlast ⟨hend, hneeds⟩] at hfollowing
  by_cases hgrow : i.opcode ∈ [Opcode.push, Opcode.call] ∧ m.regs.sp = 0
  · rw [if_pos hgrow]
    obtain ⟨next, hnext⟩ := hnext (.of_growing hgrow.1)
    exact execute_of_full_stack hgrow.1 hgrow.2 hnext
  rw [if_neg hgrow]
  by_cases hshrink : i.opcode ∈ [Opcode.pop, Opcode.ret] ∧ m.regs.sp = 255
  · rw [if_pos hshrink]
    exact execute_of_empty_stack hshrink.1 hshrink.2 hnext
  rw [if_neg hshrink]
  simp only [execute_eq_ok_iff]
  exact exists_execute hfull hnext (fun hop hsp => hgrow ⟨hop, hsp⟩)
    (fun hop hsp => hshrink ⟨hop, hsp⟩)

-- ================================================================ steps

/-- A running machine attempts what its obstacle allows. -/
theorem attempt_cases {m : Machine} (hfull : m.mem.Full) :
    match m.obstacle with
    | some fault => m.attempt = .error fault
    | none => ∃ i e, m.attempt = .ok (i, e) := by
  unfold obstacle
  generalize hop : m.mem.peek m.pc.toNat = op
  dsimp only
  rw [← Opcode.size_eq_shift]
  have hfetch := fetch_cases hfull hop
  by_cases hknown : op ∉ Opcode.known
  · rw [if_pos hknown] at hfetch ⊢
    rw [attempt, hfetch]
    rfl
  rw [if_neg hknown] at hfetch ⊢
  by_cases hlong : 256 < m.pc.toNat + Opcode.size op
  · rw [if_pos hlong] at hfetch ⊢
    rw [attempt, hfetch]
    rfl
  rw [if_neg hlong] at hfetch ⊢
  obtain ⟨i, hi, rfl⟩ := hfetch
  have hexec := execute_cases hfull (Nat.not_lt.1 hlong)
  rw [Instruction.size] at hexec
  have hattempt : m.attempt = m.execute i >>= fun e => .ok (i, e) := by
    rw [attempt, hi]
    rfl
  rw [hattempt]
  split at hexec
  next hlast => rw [if_pos hlast, hexec]; rfl
  next hlast =>
    rw [if_neg hlast]
    split at hexec
    next hgrow => rw [if_pos hgrow, hexec]; rfl
    next hgrow =>
      rw [if_neg hgrow]
      split at hexec
      next hshrink => rw [if_pos hshrink, hexec]; rfl
      next hshrink =>
        rw [if_neg hshrink]
        obtain ⟨e, he⟩ := hexec
        exact ⟨i, e, by rw [he]; rfl⟩

/-- An obstacle is never over memory, and the only address that is missed is
the first one that does not exist. -/
theorem obstacle_cases {m : Machine} {fault : Fault} (h : m.obstacle = some fault) :
    (∃ e, fault = .decode m.pc e) ∨ fault = .pcOutOfRange 256 ∨ fault = .stackOverflow
      ∨ fault = .stackUnderflow := by
  unfold obstacle at h
  dsimp only at h
  split at h
  · cases h; exact Or.inl ⟨_, rfl⟩
  split at h
  · cases h; exact Or.inl ⟨_, rfl⟩
  split at h
  · cases h; exact Or.inr (Or.inl rfl)
  split at h
  · cases h; exact Or.inr (Or.inr (Or.inl rfl))
  split at h
  · cases h; exact Or.inr (Or.inr (Or.inr rfl))
  · cases h

/-- A running machine with a full memory faults over an obstacle, or because
the printer refuses. -/
theorem obstacle_or_refused {m : Machine} {out : Printer} {fault : Fault}
    (hrun : m.status = .running) (hfull : m.mem.Full) (h : (m.step out).result = .error fault) :
    m.obstacle = some fault
      ∨ ∃ value text, (out.offer value).1 = .error text ∧ fault = .output text := by
  have hattempt := attempt_cases hfull
  rw [step_eq, if_pos hrun] at h
  cases hobstacle : m.obstacle with
  | some fault' =>
      simp only [hobstacle] at hattempt
      rw [hattempt] at h
      cases h
      exact Or.inl rfl
  | none =>
      simp only [hobstacle] at hattempt
      obtain ⟨i, e, hattempt⟩ := hattempt
      rw [hattempt] at h
      dsimp only at h
      split at h
      next out' hreceive => cases h
      next text out' hreceive =>
        cases h
        cases hprints : e.prints with
        | none =>
            rw [hprints] at hreceive
            cases hreceive
        | some value =>
            rw [hprints] at hreceive
            exact Or.inr ⟨value, text, congrArg Prod.fst hreceive, rfl⟩

/-- Such a machine never faults over memory or because it is not running. -/
theorem fault_of_full {m : Machine} {out : Printer} {fault : Fault}
    (hrun : m.status = .running) (hfull : m.mem.Full) (h : (m.step out).result = .error fault) :
    (∀ e, fault ≠ .memory e) ∧ ∀ status, fault ≠ .notRunning status := by
  rcases obstacle_or_refused hrun hfull h with hobstacle | ⟨value, text, -, rfl⟩
  · rcases obstacle_cases hobstacle with ⟨e, rfl⟩ | rfl | rfl | rfl <;> simp
  · simp

/-- What a step that goes through executes is what has been fetched. -/
theorem fetch_of_step_ok {m : Machine} {out : Printer} {i : Instruction}
    (h : (m.step out).result = .ok i) : m.fetch = .ok i := by
  obtain ⟨-, hfetch, -⟩ := step_eq_ok_iff.1 (Outcome.eq_of_result h)
  exact hfetch

/-- Behind the fetch nothing fails over decoding. -/
theorem execute_ne_decode {m : Machine} {i : Instruction} (hfull : m.mem.Full)
    (hfetch : m.fetch = .ok i) (pc : UInt8) (e : DecodeError) :
    m.execute i ≠ .error (.decode pc e) := by
  have hfits : m.pc.toNat + i.size ≤ 256 := by
    have hroom := ((fetch_eq_ok_iff hfull).1 hfetch).length_le
    have hsize : m.mem.cells.size = 256 := hfull
    rw [Instruction.length_encode, List.length_drop, Array.length_toList, hsize] at hroom
    have hpc := m.pc.toNat_lt
    omega
  have hcases := execute_cases hfull hfits
  intro herror
  rw [herror] at hcases
  split at hcases
  · cases hcases
  split at hcases
  · cases hcases
  split at hcases
  · cases hcases
  · obtain ⟨effect, heffect⟩ := hcases
    cases heffect

/-- A running machine with a full memory fetches nothing exactly if its step
fails over decoding, whatever its printer does. -/
theorem fetch_error_iff {m : Machine} (hrun : m.status = .running) (hfull : m.mem.Full)
    (out : Printer) : (∃ fault, m.fetch = .error fault) ↔
      ∃ pc e, (m.step out).result = .error (.decode pc e) := by
  rw [step_eq, if_pos hrun]
  -- the fetch of the step is this one, so its answer settles what the step can say
  cases hfetch : m.fetch with
  | error fault =>
      have hattempt : m.attempt = .error fault := by
        rw [attempt, hfetch]
        rfl
      obtain ⟨operands, -, hdecode⟩ := fetch_of_full hfull
      rw [hfetch] at hdecode
      rw [hattempt]
      refine ⟨fun _ => ?_, fun _ => ⟨fault, rfl⟩⟩
      split at hdecode
      · next e _ =>
        cases hdecode
        exact ⟨m.pc, e, rfl⟩
      · cases hdecode
  | ok i =>
      have hattempt : m.attempt = m.execute i >>= fun e => .ok (i, e) := by
        rw [attempt, hfetch]
        rfl
      constructor
      · rintro ⟨fault, hfault⟩
        cases hfault
      rintro ⟨pc, e, hresult⟩
      exfalso
      have hne := execute_ne_decode hfull hfetch pc e
      rw [hattempt] at hresult
      cases hexecute : m.execute i with
      | error fault =>
          rw [hexecute] at hne hresult
          cases hresult
          exact hne rfl
      | ok effect =>
          rw [hexecute] at hresult
          dsimp only [bind, Except.bind] at hresult
          split at hresult <;> cases hresult

/-- A step of a running machine with a full memory and a printer that takes
what it is offered faults exactly if there is an obstacle, and with the
fault that the obstacle says. In particular no step of such a machine misses
a cell, and the program counter is never sent further than one address past
the last. -/
theorem step_error_iff {m : Machine} {out : Printer} (hrun : m.status = .running)
    (hfull : m.mem.Full) (htakes : ∀ value, (out.offer value).1 = .ok ()) :
    (∀ fault, (m.step out).result = .error fault ↔ m.obstacle = some fault)
    ∧ ((∃ i, (m.step out).result = .ok i) ↔ m.obstacle = none)
    ∧ (∀ e, (m.step out).result ≠ .error (.memory e))
    ∧ ∀ next, (m.step out).result = .error (.pcOutOfRange next) → next = 256 := by
  have hattempt := attempt_cases hfull
  cases hobstacle : m.obstacle with
  | some fault =>
      simp only [hobstacle] at hattempt
      have hstep : (m.step out).result = .error fault := by
        rw [step_eq, if_pos hrun, hattempt]
      have hcases := obstacle_cases hobstacle
      rw [hstep]
      refine ⟨fun fault' => ?_, ?_, ?_, ?_⟩
      · simp
      · simp
      · rintro e ⟨⟩
        simp at hcases
      · rintro next ⟨⟩
        simpa using hcases
  | none =>
      simp only [hobstacle] at hattempt
      obtain ⟨i, e, hattempt⟩ := hattempt
      have hreceive : (out.receive e.prints).1 = .ok () := by
        cases e.prints with
        | none => rfl
        | some value => exact htakes value
      have hstep : (m.step out).result = .ok i := by
        rw [step_eq, if_pos hrun, hattempt]
        dsimp only
        rcases hout : out.receive e.prints with ⟨_ | _, out'⟩
        · rw [hout] at hreceive
          cases hreceive
        · rfl
      rw [hstep]
      simp

/-- PUSH at the last place where it fits, with the stack pointer at 0: the
missing address comes first. -/
def pushAtTheTop : Machine where
  regs := { Registers.fresh with pc := 254 }
  mem := ⟨⟨List.replicate 254 0 ++ [Opcode.push, 3]⟩⟩
  status := .running
  cycles := 0
  last := none

theorem pushAtTheTop_out_of_range :
    (pushAtTheTop.step (.unlimited {})).result = .error (.pcOutOfRange 256) :=
  ((step_error_iff rfl (by decide +kernel) fun _ => rfl).1 (.pcOutOfRange 256)).2
    (by decide +kernel)

end LS8.Machine
