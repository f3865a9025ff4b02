/-
The listing says what execution will do.

A sweep and a step find out independently how long an instruction is. They
agree because both look at the bytes of one instruction: what is fetched at
the program counter is what stands in the current row (`ahead_of_fetch`),
and a step that goes on behind its instruction leads to where the sweep goes
on (`pc_step_of_not_jumps`).

# The rows ahead

In front of the program counter rows are cut so that one begins there, and
nothing else of them matters to what follows: from the program counter on the
listing is a sweep of its own (`ahead_eq_sweep`), which looks at no byte
before it (`sweep_congr`). So a step that goes on and leaves memory alone
takes one row from those ahead (`entries_ahead_step`), and a passage of such
steps as many as it is long (`Passage.entries_ahead`), by induction on the
passage. The mark of the current row moves with the program counter, so rows
are compared by what else they show (`Row.entry`).
-/
import LS8.Proofs.Frame
import LS8.Proofs.Listing

namespace LS8

-- ========================================================== two kinds of rows

/-- No mnemonic begins with the letters of a data row. -/
theorem Instruction.text_ne_data (i : Instruction) (digits : String) :
    i.text ≠ "db " ++ digits := by
  intro h
  have hfirst := congrArg (fun text => text.toList.head?) h
  cases i with
  | alu op a b => cases op <;> simp [text, AluOp.mnemonic, String.toList_append] at hfirst
  | _ => simp [text, String.toList_append] at hfirst

namespace Listing

variable {mem mem' : Memory} {pc pc' a : Nat} {row : Row}

/-- The row shows a byte that begins no instruction. -/
def Row.IsData (row : Row) : Prop :=
  ∃ digits, row.text = "db " ++ digits

/-- What a row shows besides the mark of the program counter. -/
def Row.entry (row : Row) : Nat × String :=
  (row.address, row.text)

-- ================================================= the sweep from a point on

theorem add_rowSize_le (h : a < pc) : a + rowSize mem pc a ≤ pc := by
  unfold rowSize
  split <;> omega

theorem rowSize_of_le (h : pc ≤ a) : rowSize mem pc a = sizeAt mem a := by
  unfold rowSize
  rw [if_neg (by omega)]

theorem le_address_of_mem_sweep : ∀ row ∈ sweep mem pc a, a ≤ row.address := by
  fun_induction sweep mem pc a with
  | case1 a hlt ih =>
      rw [List.forall_mem_cons]
      exact ⟨Nat.le_refl a, fun row hrow => Nat.le_trans (Nat.le_add_right _ _) (ih row hrow)⟩
  | case2 a hge => exact fun row hrow => absurd hrow List.not_mem_nil

/-- A sweep from before the program counter comes to it. -/
theorem exists_front (mem : Memory) (ha : a ≤ pc) (hpc : pc < Memory.capacity) :
    ∃ front, sweep mem pc a = front ++ sweep mem pc pc ∧ ∀ row ∈ front, row.address < pc := by
  fun_induction sweep mem pc a with
  | case1 a hlt ih =>
      rcases Nat.eq_or_lt_of_le ha with rfl | hbefore
      · refine ⟨[], ?_, fun row hrow => absurd hrow List.not_mem_nil⟩
        rw [List.nil_append, sweep_of_lt hpc]
      · obtain ⟨front, hfront, hrows⟩ := ih (add_rowSize_le hbefore)
        rw [hfront]
        exact ⟨_ :: front, rfl, List.forall_mem_cons.2 ⟨hbefore, hrows⟩⟩
  | case2 a hge => exact absurd (Nat.lt_of_le_of_lt ha hpc) hge

/-- A sweep looks at no byte before the one that it begins with. -/
theorem sweep_congr (h : mem'.cells.toList.drop a = mem.cells.toList.drop a) :
    sweep mem' pc a = sweep mem pc a := by
  fun_induction sweep mem pc a with
  | case1 a hlt ih =>
      have hat : instructionAt? mem' a = instructionAt? mem a := by
        simp only [instructionAt?, Array.toList_extract, List.extract_eq_take_drop, h]
      have hcell : mem'.peek a = mem.peek a := by
        have hhead := congrArg List.head? h
        rw [List.head?_drop, List.head?_drop, Array.getElem?_toList, Array.getElem?_toList] at hhead
        rw [Memory.peek_eq, Memory.peek_eq, hhead]
      have htext : textAt mem' a = textAt mem a := by simp only [textAt, hat, hcell]
      have hsize : sizeAt mem' a = sizeAt mem a := by simp only [sizeAt, hat]
      have hspan : rowSize mem' pc a = rowSize mem pc a := by rw [rowSize, hsize, rowSize]
      rw [sweep_of_lt hlt, htext, hspan, ih]
      rw [← List.drop_drop, ← List.drop_drop, h]
  | case2 a hge => exact sweep_of_le (Nat.not_lt.1 hge)

/-- Behind the program counter it matters only for the mark. -/
theorem entries_sweep_congr (ha : pc ≤ a) (ha' : pc' ≤ a) :
    (sweep mem pc' a).map Row.entry = (sweep mem pc a).map Row.entry := by
  fun_induction sweep mem pc a with
  | case1 a hlt ih =>
      have hnext := ih (Nat.le_trans ha (Nat.le_add_right _ _))
        (Nat.le_trans ha' (Nat.le_add_right _ _))
      rw [rowSize_of_le ha] at hnext ⊢
      rw [sweep_of_lt hlt, rowSize_of_le ha', List.map_cons, List.map_cons, hnext]
      rfl
  | case2 a hge => rw [sweep_of_le (Nat.not_lt.1 hge)]

end Listing

namespace Machine

open Listing

variable {m m' : Machine} {out out' : Printer} {trace : List Event} {i : Instruction}

-- ============================================================ rows ahead

/-- The rows of the listing from the program counter on. -/
def ahead (m : Machine) : List Row :=
  m.listing.filter fun row => m.pc.toNat ≤ row.address

theorem ahead_eq_sweep (m : Machine) : m.ahead = sweep m.mem m.pc.toNat m.pc.toNat := by
  obtain ⟨front, hlisting, hfront⟩ :=
    exists_front m.mem (Nat.zero_le m.pc.toNat) m.pc.toNat_lt
  have hnone : front.filter (fun row => m.pc.toNat ≤ row.address) = [] := by
    rw [List.filter_eq_nil_iff]
    intro row hrow
    simpa using hfront row hrow
  unfold ahead listing
  rw [hlisting, List.filter_append, hnone, List.nil_append, List.filter_eq_self]
  exact fun row hrow => decide_eq_true (le_address_of_mem_sweep row hrow)

/-- The rows ahead depend on no byte before the program counter, and on
nothing but memory behind it. -/
theorem ahead_congr (hpc : m'.pc = m.pc)
    (hcells : ∀ a, m.pc.toNat ≤ a → m'.mem.cells[a]? = m.mem.cells[a]?) : m'.ahead = m.ahead := by
  have hdrop : m'.mem.cells.toList.drop m.pc.toNat = m.mem.cells.toList.drop m.pc.toNat := by
    refine List.ext_getElem? fun k => ?_
    rw [List.getElem?_drop, List.getElem?_drop, Array.getElem?_toList, Array.getElem?_toList]
    exact hcells _ (Nat.le_add_right _ _)
  rw [ahead_eq_sweep, ahead_eq_sweep, hpc, sweep_congr hdrop]

/-- The first row ahead is the current one. -/
theorem ahead_eq_cons (m : Machine) :
    m.ahead = ⟨m.pc.toNat, textAt m.mem m.pc.toNat, true⟩
      :: sweep m.mem m.pc.toNat (m.pc.toNat + sizeAt m.mem m.pc.toNat) := by
  have hpc : m.pc.toNat < Memory.capacity := m.pc.toNat_lt
  rw [ahead_eq_sweep, sweep_of_lt hpc, rowSize_of_le (Nat.le_refl _), decide_eq_true rfl]

/-- The whole listing has the current row once, and from there on the rows
ahead. -/
theorem exists_currentAt (hfull : m.mem.Full) :
    ∃ k current, CurrentAt m.listing m.pc.toNat k current ∧ m.listing.drop k = m.ahead := by
  have hpc : m.pc.toNat < Memory.capacity := m.pc.toNat_lt
  obtain ⟨front, hlisting, -⟩ := exists_front m.mem (Nat.zero_le m.pc.toNat) hpc
  rw [← ahead_eq_sweep] at hlisting
  obtain ⟨k, current, hcurrent⟩ := exists_currentAt_sweep hfull (Nat.zero_le m.pc.toNat) hpc
  have hmarked : (sweep m.mem m.pc.toNat 0)[front.length]?
      = some ⟨m.pc.toNat, textAt m.mem m.pc.toNat, true⟩ := by
    rw [hlisting, List.getElem?_append_right (Nat.le_refl _), Nat.sub_self, ahead_eq_cons]
    rfl
  obtain rfl : front.length = k := hcurrent.only front.length _ hmarked rfl
  refine ⟨front.length, current, hcurrent, ?_⟩
  show (sweep m.mem m.pc.toNat 0).drop front.length = m.ahead
  rw [hlisting, List.drop_left]

theorem instructionAt?_pc (hfull : m.mem.Full) :
    instructionAt? m.mem m.pc.toNat = m.fetch.toOption := by
  ext i
  rw [instructionAt?_eq_some_iff hfull, Holds, ← fetch_eq_ok_iff hfull]
  cases m.fetch <;> simp [Except.toOption]

/-- What is fetched is what the current row shows, and the next row begins
behind it. -/
theorem ahead_of_fetch (hfull : m.mem.Full) (hfetch : m.fetch = .ok i) :
    m.ahead = ⟨m.pc.toNat, i.text, true⟩
      :: sweep m.mem m.pc.toNat (m.pc.toNat + i.size) := by
  have hat : instructionAt? m.mem m.pc.toNat = some i := by
    rw [instructionAt?_pc hfull, hfetch]
    rfl
  have htext : textAt m.mem m.pc.toNat = i.text := by simp only [textAt, hat]
  have hsize : sizeAt m.mem m.pc.toNat = i.size := by simp only [sizeAt, hat]
  rw [ahead_eq_cons, htext, hsize]

/-- The current row shows a byte and no instruction exactly if nothing is
fetched. -/
theorem isData_iff (hfull : m.mem.Full) {current : Row}
    (h : current.text = textAt m.mem m.pc.toNat) :
    current.IsData ↔ ∃ fault, m.fetch = .error fault := by
  rw [Row.IsData, h, textAt, instructionAt?_pc hfull]
  cases m.fetch with
  | error fault => exact ⟨fun _ => ⟨fault, rfl⟩, fun _ => ⟨_, rfl⟩⟩
  | ok i =>
      constructor
      · rintro ⟨digits, htext⟩
        exact absurd htext (i.text_ne_data digits)
      · rintro ⟨fault, hfault⟩
        cases hfault

-- ============================================================= going on

/-- The instruction does not go on behind itself: it stops the machine, jumps,
calls or returns. -/
def Jumps (m : Machine) : Instruction → Prop
  | .hlt | .jmp _ | .call _ | .ret => True
  | .jeq _ => m.regs.fl.isEqual = true
  | .jne _ => m.regs.fl.isEqual = false
  | _ => False

/-- Every other instruction leads to the address behind its bytes. -/
theorem pc_step_of_not_jumps (h : m.step out = ⟨.ok i, m', out'⟩) (hgo : ¬ m.Jumps i) :
    m'.pc.toNat = m.pc.toNat + i.size := by
  have hbehind {next : UInt8} (hnext : m.following i = .ok next) :
      next.toNat = m.pc.toNat + i.size := by
    obtain ⟨hlt, rfl⟩ := following_eq_ok_iff.1 hnext
    exact UInt8.toNat_ofNat_of_lt' hlt
  obtain ⟨-, -, e, hexec, -, rfl⟩ := step_eq_ok_iff.1 h
  cases hexec with
  | hlt => exact absurd trivial hgo
  | jmp r => exact absurd trivial hgo
  | jeqTaken hequal => exact absurd hequal hgo
  | jneTaken hdiffers => exact absurd hdiffers hgo
  | call hback hpush => exact absurd trivial hgo
  | ret htop => exact absurd trivial hgo
  | jeqPassed hdiffers hnext => exact hbehind hnext
  | jnePassed hequal hnext => exact hbehind hnext
  | ldi hnext => exact hbehind hnext
  | prn hnext => exact hbehind hnext
  | push hnext hpush => exact hbehind hnext
  | pop hnext htop => exact hbehind hnext
  | alu hnext => exact hbehind hnext

/-- The instruction goes on behind itself and writes no memory. -/
structure Event.GoesOn (e : Event) : Prop where
  not_jumps : ¬ e.before.Jumps e.instruction
  not_push : ∀ r, e.instruction ≠ .push r

theorem Event.GoesOn.pushed_eq {e : Event} (h : e.GoesOn) : e.pushed = none := by
  obtain ⟨before, instruction⟩ := e
  cases instruction with
  | push r => exact absurd rfl (h.not_push r)
  | call r => exact absurd trivial h.not_jumps
  | _ => rfl

/-- What a row shows of an instruction that has gone through. -/
def Event.entry (e : Event) : Nat × String :=
  (e.before.pc.toNat, e.instruction.text)

/-- Going on takes one row from those ahead. -/
theorem entries_ahead_step (hfull : m.mem.Full) (h : m.step out = ⟨.ok i, m', out'⟩)
    (hgo : Event.GoesOn ⟨m, i⟩) :
    m.ahead.map Row.entry = Event.entry ⟨m, i⟩ :: m'.ahead.map Row.entry := by
  have hfetch : m.fetch = .ok i := fetch_of_step_ok (congrArg Outcome.result h)
  have hpc := pc_step_of_not_jumps h hgo.not_jumps
  have hmem : m'.mem = m.mem := (Passage.single h).mem_eq fun e he => by
    rw [List.mem_singleton.1 he]
    exact hgo.pushed_eq
  rw [ahead_of_fetch hfull hfetch, ahead_eq_sweep m', hmem, hpc, List.map_cons,
    entries_sweep_congr (Nat.le_refl _) (Nat.le_add_right m.pc.toNat i.size)]
  rfl

/-- Going on again and again takes them one by one. -/
theorem Passage.entries_ahead (h : Passage m out trace m' out') (hfull : m.mem.Full)
    (hgo : ∀ e ∈ trace, e.GoesOn) :
    m.ahead.map Row.entry = trace.map Event.entry ++ m'.ahead.map Row.entry := by
  induction h with
  | refl m out => rfl
  | head hstep _ ih =>
      rw [List.forall_mem_cons] at hgo
      obtain ⟨hfirst, hrest⟩ := hgo
      rw [entries_ahead_step hfull hstep hfirst, ih (full_step hstep hfull) hrest, List.map_cons,
        List.cons_append]

end Machine

namespace Debugger

open Listing Machine

/-- A listing with room for a row at every address is the whole listing. -/
theorem listing_of_capacity_le (d : Debugger) (hfull : d.machine.mem.Full) {lines : Nat}
    (hlines : Memory.capacity ≤ lines) : d.listing lines = d.machine.listing := by
  have htiles : Tiles d.machine.mem d.machine.pc.toNat 0 d.machine.listing :=
    tiles_sweep hfull (Nat.zero_le _)
  have hlength := htiles.length_add_le
  have hstart : d.machine.listing.length - lines = 0 := by omega
  simp only [listing, window, hstart, Nat.min_zero, List.drop_zero]
  exact List.take_of_length_le (by omega)

/-- The listing agrees with execution.

The current row of a running machine shows the instruction that is fetched
and that the next step executes if it goes through, and it is a data row
exactly if that step fails over decoding. From it on the rows are those
ahead, which no byte before the program counter has a part in. If the step
goes through and goes on behind its instruction, the next row begins where
the program counter then is. And as long as instructions go on and push
nothing, execution visits the rows ahead one after the other. -/
theorem listing_agrees_with_execution (d : Debugger) (hrun : d.machine.status = .running)
    (hfull : d.machine.mem.Full) :
    let m := d.machine
    let rows := d.listing 256
    rows = m.listing
    ∧ (∃ k current, CurrentAt rows m.pc.toNat k current
        ∧ rows.drop k = m.ahead
        ∧ (∀ i, m.fetch = .ok i → current.text = i.text)
        ∧ (∀ out i, (m.step out).result = .ok i → m.fetch = .ok i)
        ∧ (∀ out, current.IsData ↔ ∃ pc e, (m.step out).result = .error (.decode pc e))
        ∧ ∀ out i m' out', m.step out = ⟨.ok i, m', out'⟩ → ¬ m.Jumps i →
            ∃ next, rows[k + 1]? = some next ∧ next.address = m'.pc.toNat)
    ∧ (∀ m' : Machine, m'.pc = m.pc →
        (∀ a, m.pc.toNat ≤ a → m'.mem.cells[a]? = m.mem.cells[a]?) → m'.ahead = m.ahead)
    ∧ ∀ out trace m' out', Passage m out trace m' out' → (∀ e ∈ trace, e.GoesOn) →
        m.ahead.map Row.entry = trace.map Event.entry ++ m'.ahead.map Row.entry := by
  intro m rows
  have hrows : rows = m.listing := d.listing_of_capacity_le hfull (Nat.le_refl _)
  obtain ⟨k, current, hcurrent, hdrop⟩ := exists_currentAt (m := m) hfull
  have hahead (j : Nat) : m.listing[k + j]? = m.ahead[j]? := by rw [← hdrop, List.getElem?_drop]
  have hfirst : m.ahead[0]? = some current := (hahead 0).symm.trans hcurrent.get
  refine ⟨hrows, ⟨k, current, ?_⟩, fun m' => ahead_congr, fun out trace m' out' h =>
    h.entries_ahead hfull⟩
  rw [hrows]
  refine ⟨hcurrent, hdrop, ?_, fun out i => fetch_of_step_ok, ?_, ?_⟩
  · intro i hfetch
    rw [ahead_of_fetch hfull hfetch] at hfirst
    cases hfirst
    rfl
  · intro out
    rw [ahead_eq_cons] at hfirst
    cases hfirst
    rw [isData_iff hfull rfl, fetch_error_iff hrun hfull out]
  · intro out i m' out' hstep hgo
    have hpc := pc_step_of_not_jumps hstep hgo
    have hroom : m.pc.toNat + i.size < Memory.capacity := hpc ▸ m'.pc.toNat_lt
    have hfetch : m.fetch = .ok i := fetch_of_step_ok (congrArg Outcome.result hstep)
    rw [hahead 1, ahead_of_fetch hfull hfetch, sweep_of_lt hroom]
    exact ⟨_, rfl, hpc.symm⟩

/-- An LDI with a PRN inside it, at which the program counter is; behind it a
CMP and a HLT. -/
def withinLdi : Debugger where
  machine :=
    { fresh with
      regs := { Registers.fresh with pc := 1 }
      mem := ⟨⟨[Opcode.ldi, Opcode.prn, 0, Opcode.cmp, 0, 0, Opcode.hlt]
        ++ List.replicate 249 0⟩⟩ }
  program := []

/-- The PRN and the CMP are the rows ahead, and execution visits both. -/
theorem withinLdi_visits_two_rows :
    withinLdi.machine.status = .running ∧ withinLdi.machine.mem.Full
    ∧ ∃ trace m' out', Passage withinLdi.machine (.unlimited {}) trace m' out'
      ∧ trace.map Event.instruction = [.prn 0, .alu .cmp 0 0]
      ∧ withinLdi.machine.ahead.map Row.entry
          = (1, "PRN R0") :: (3, "CMP R0,R0") :: m'.ahead.map Row.entry
      ∧ ∃ k current next, (withinLdi.listing 256)[k]? = some current ∧ current.text = "PRN R0"
        ∧ ¬ current.IsData ∧ (withinLdi.listing 256)[k + 1]? = some next ∧ next.address = 3 := by
  have hfull : withinLdi.machine.mem.Full := by decide +kernel
  let printed := withinLdi.machine.step (.unlimited {})
  let compared := printed.machine.step printed.out
  have hprint : withinLdi.machine.step (.unlimited {})
      = ⟨.ok (.prn 0), printed.machine, printed.out⟩ :=
    Outcome.eq_of_result (by decide +kernel)
  have hcompare : printed.machine.step printed.out
      = ⟨.ok (.alu .cmp 0 0), compared.machine, compared.out⟩ :=
    Outcome.eq_of_result (by decide +kernel)
  obtain ⟨-, ⟨k, current, hcurrent, -, htext, hfetch, hdata, hnext⟩, -, hvisits⟩ :=
    listing_agrees_with_execution withinLdi rfl hfull
  have hpass := Passage.head hprint (.single hcompare)
  have hentries := hvisits _ _ _ _ hpass (by
    rw [List.forall_mem_cons, List.forall_mem_singleton]
    exact ⟨⟨id, nofun⟩, ⟨id, nofun⟩⟩)
  have hshown : current.text = "PRN R0" :=
    htext _ (hfetch (.unlimited {}) _ (congrArg Outcome.result hprint))
  have hcode : ¬ current.IsData := by
    rw [hdata (.unlimited {}), hprint]
    rintro ⟨pc, e, herror⟩
    cases herror
  obtain ⟨next, hk, haddress⟩ := hnext _ _ _ _ hprint id
  have hpc : printed.machine.pc = 3 := by decide +kernel
  rw [hpc] at haddress
  refine ⟨rfl, hfull, _, _, _, hpass, rfl, ?_, k, current, next, hcurrent.get, hshown, hcode, hk,
    haddress⟩
  have hfirst : Event.entry ⟨withinLdi.machine, .prn 0⟩ = (1, "PRN R0") := by decide +kernel
  have hsecond : Event.entry ⟨printed.machine, .alu .cmp 0 0⟩ = (3, "CMP R0,R0") := by
    rw [Event.entry, hpc]
    decide +kernel
  rw [hentries, List.map_cons, List.map_singleton, hfirst, hsecond, List.cons_append,
    List.singleton_append]

end Debugger

end LS8
