/-
Sessions over any history of loads, steps, runs and resets.

A session stands on its last good program: what it holds is what a number of
step calls leave of the machine that was booted from this program, and of a
printer that had printed nothing (`Stands`). Every operation keeps this
(`Stands.perform`): a good load and a reset set out anew, a step is one call
more, a run is as many more as its limit at most, and a text that does not
load leaves the session alone.

# Reading a session

What is read of a session is read of its fields, so a session that is left
alone reads the same. The machine that step calls leave has every cell, so
its memory is read as a whole. The output is digits and line feeds, which
are a byte each, so no byte of it is lost when it becomes a text.
-/
import LS8.Proofs.Sessions

namespace LS8

open Machine CommandLine

-- =============================================================== texts

/-- A text of ASCII characters has a byte for each of them. -/
theorem toUTF8_of_ascii {text : List Char} (h : ∀ c ∈ text, c.toNat ≤ 127) :
    (String.ofList text).toUTF8 = (text.map Char.toUInt8).toByteArray := by
  rw [String.toUTF8, String.toByteArray_ofList]
  induction text with
  | nil => rfl
  | cons c text ih =>
      rw [List.forall_mem_cons] at h
      have hchar : String.utf8EncodeChar c = [c.toUInt8] := if_pos h.1
      rw [List.utf8Encode_cons, List.utf8Encode_singleton, hchar, ih h.2,
        ← List.toByteArray_append]
      rfl

/-- The bytes of a printed line: decimal digits and a line feed. -/
def lineBytes (value : UInt8) : List UInt8 :=
  (Nat.toDigits 10 value.toNat).map Char.toUInt8 ++ [10]

theorem toUTF8_line (value : UInt8) :
    (Numeral.decimal value.toNat ++ "\n").toUTF8 = (lineBytes value).toByteArray := by
  have hascii : ∀ c ∈ Nat.toDigits 10 value.toNat ++ ['\n'], c.toNat ≤ 127 := by
    intro c hc
    rcases List.mem_append.1 hc with hdigit | hend
    · have hnine : c.isDigit = true := Nat.isDigit_of_mem_toDigits (by decide) (by decide) hdigit
      rw [Char.isDigit, Bool.and_eq_true, decide_eq_true_iff, decide_eq_true_iff] at hnine
      exact Nat.le_trans (UInt32.le_iff_toNat_le.1 hnine.2) (by decide)
    · rw [List.mem_singleton.1 hend]
      decide
  have htext : Numeral.decimal value.toNat ++ "\n"
      = String.ofList (Nat.toDigits 10 value.toNat ++ ['\n']) := by
    rw [← String.toList_inj]
    simp only [String.toList_append, String.toList_ofList, Numeral.decimal, Nat.toList_repr]
    rfl
  rw [htext, toUTF8_of_ascii hascii, List.map_append]
  rfl

/-- Printed lines are their bytes, one line after the other. -/
theorem toUTF8_linesOf (values : List UInt8) :
    (linesOf values).toUTF8 = (values.flatMap lineBytes).toByteArray := by
  induction values with
  | nil => rfl
  | cons value values ih =>
      have happend : (linesOf (value :: values)).toUTF8
          = (Numeral.decimal value.toNat ++ "\n").toUTF8 ++ (linesOf values).toUTF8 := by
        rw [linesOf_cons]
        exact String.toByteArray_append
      rw [happend, toUTF8_line, ih, ← List.toByteArray_append]
      rfl

namespace Session

variable {s s' : Session} {bytes : List UInt8} {n : Nat}

-- =========================================================== histories

/-- What a host program does with a session. -/
inductive Operation where
  | load (text : String)
  | step
  | run (max : UInt32)
  | reset

/-- The session that an operation leaves, whether or not it is refused. -/
def perform (s : Session) : Operation → Session
  | .load text => (s.load text).2
  | .step => s.step.2
  | .run max => (s.run max).2
  | .reset => s.reset

/-- The session that a history leaves of a new one. -/
def after (history : List Operation) : Session :=
  history.foldl perform {}

/-- The bytes that a text is loaded as, if it loads: it holds a program, and
there is an address for each byte. -/
def bytesOf? (text : String) : Option (List UInt8) :=
  match Program.parse text.toList with
  | .ok program => if program.bytes.length ≤ Memory.capacity then some program.bytes else none
  | .error _ => none

/-- The program that an operation loads. -/
def Operation.loaded? : Operation → Option (List UInt8)
  | .load text => bytesOf? text
  | _ => none

/-- The program that was loaded last; no bytes before the first. -/
def lastProgram (history : List Operation) : List UInt8 :=
  (history.filterMap Operation.loaded?).getLast?.getD []

/-- How many step calls there have been at most since the program was loaded
or started over, given how many there had been before the operation. -/
def callsAfter (n : Nat) : Operation → Nat
  | .load text => if (bytesOf? text).isSome then 0 else n
  | .step => n + 1
  | .run max => n + max.toNat
  | .reset => 0

def callsSince (history : List Operation) : Nat :=
  history.foldl callsAfter 0

theorem after_concat (history : List Operation) (op : Operation) :
    after (history ++ [op]) = (after history).perform op := by
  rw [after, List.foldl_append]
  rfl

theorem callsSince_concat (history : List Operation) (op : Operation) :
    callsSince (history ++ [op]) = callsAfter (callsSince history) op := by
  rw [callsSince, List.foldl_append]
  rfl

theorem lastProgram_concat (history : List Operation) (op : Operation) :
    lastProgram (history ++ [op]) = op.loaded?.getD (lastProgram history) := by
  unfold lastProgram
  rw [List.filterMap_append, List.getLast?_append]
  cases hloaded : op.loaded? with
  | none => simp [hloaded]
  | some bytes => simp [hloaded]

-- ============================================================== loading

/-- A text that does not load leaves the session alone. -/
theorem load_of_none (s : Session) {text : String} (h : bytesOf? text = none) :
    ∃ e, s.load text = (.error e, s) := by
  have hunfit : Unfit text := by
    unfold bytesOf? at h
    split at h
    · next program hparse =>
      split at h
      · cases h
      · next hlong => exact Or.inr ⟨program, hparse, Nat.lt_of_not_le hlong⟩
    · next e hparse => exact Or.inl ⟨e, hparse⟩
  obtain ⟨e, herror⟩ := s.load_of_unfit hunfit
  refine ⟨e, ?_⟩
  unfold load at herror ⊢
  cases htext : ofText text with
  | error e' =>
      rw [htext] at herror
      cases herror
      rfl
  | ok loaded =>
      rw [htext] at herror
      cases herror

/-- A text that loads replaces all of it. -/
theorem load_of_some (s : Session) {text : String} (h : bytesOf? text = some bytes) :
    ∃ m, Machine.boot bytes = .ok m
      ∧ s.load text = (.ok bytes.length, { machine := m, program := bytes }) := by
  unfold bytesOf? at h
  split at h
  · next program hparse =>
    split at h
    · next hroom =>
      cases h
      have hboot := boot_eq_ok_iff.2 ⟨hroom, rfl⟩
      exact ⟨_, hboot, s.load_of_boot hparse hboot⟩
    · cases h
  · cases h

-- ============================================================= standing

/-- The session stands on the program `bytes`, at most `n` step calls behind
its beginning. -/
structure Stands (s : Session) (bytes : List UInt8) (n : Nat) : Prop where
  program : s.program = bytes
  reached : ∃ m, Machine.boot bytes = .ok m ∧ ∃ k ≤ n, ∃ out,
    Machine.advance^[k] (m, .unlimited {}) = (s.machine, out) ∧ out.printed = s.printed

/-- The beginning of a program. -/
theorem stands_of_boot {m : Machine} (h : Machine.boot bytes = .ok m) (n : Nat) :
    Stands { machine := m, program := bytes } bytes n :=
  ⟨rfl, m, h, 0, Nat.zero_le n, .unlimited {}, rfl, rfl⟩

/-- Further calls, with a new printer, go on where the session stands. -/
theorem Stands.further {j c : Nat} {out' : Printer} (h : Stands s bytes n) (hle : j ≤ c)
    (hgo : Machine.advance^[j] (s.machine, .unlimited s.printed) = (s'.machine, out'))
    (hprinted : out'.printed = s'.printed) (hprogram : s'.program = s.program) :
    Stands s' bytes (n + c) := by
  obtain ⟨m, hboot, k, hk, out, hreach, hout⟩ := h.reached
  have htakes : out.TakesAll := by
    have htakes := takesAll_iterate_advance m (Printer.takesAll_unlimited {}) k
    rw [hreach] at htakes
    exact htakes
  -- the calls so far have left `out`; the session goes on with a new printer like it
  have halike := iterate_advance_alike s.machine htakes.alike_unlimited j
  rw [hout, hgo] at halike
  refine ⟨hprogram.trans h.program, m, hboot, j + k, by omega, _, ?_,
    halike.2.printed.trans hprinted⟩
  rw [Function.iterate_add_apply, hreach]
  exact Prod.ext halike.1 rfl

/-- A session that is started over is at the beginning of its program. -/
theorem Stands.reset_eq (h : Stands s bytes n) :
    ∃ m, Machine.boot bytes = .ok m ∧ s.reset = { machine := m, program := bytes } := by
  obtain ⟨m, hboot, -⟩ := h.reached
  refine ⟨m, hboot, ?_⟩
  unfold reset
  rw [h.program, hboot]

/-- Every operation leaves a session that stands. -/
theorem Stands.perform (h : Stands s bytes n) (op : Operation) :
    Stands (s.perform op) (op.loaded?.getD bytes) (callsAfter n op) := by
  cases op with
  | load text =>
      cases hbytes : bytesOf? text with
      | none =>
          obtain ⟨e, hload⟩ := s.load_of_none hbytes
          simp only [Session.perform, Operation.loaded?, callsAfter, hbytes, hload]
          exact h
      | some loaded =>
          obtain ⟨m, hboot, hload⟩ := s.load_of_some hbytes
          simp only [Session.perform, Operation.loaded?, callsAfter, hbytes, hload]
          exact stands_of_boot hboot 0
  | step => exact h.further (j := 1) (Nat.le_refl 1) rfl rfl rfl
  | run max =>
      obtain ⟨j, hle, hgo⟩ :=
        exists_iterate_runLimited s.machine max.toUInt64 (.unlimited s.printed)
      exact h.further (UInt32.toNat_toUInt64 max ▸ hle) hgo rfl rfl
  | reset =>
      obtain ⟨m, hboot, hreset⟩ := h.reset_eq
      rw [Session.perform, hreset]
      exact stands_of_boot hboot 0

/-- So a session stands after every history. -/
theorem stands_after (history : List Operation) :
    Stands (after history) (lastProgram history) (callsSince history) := by
  induction history using List.reverseRecOn with
  | nil =>
      have hboot : Machine.boot [] = .ok fresh := boot_eq_ok_iff.2 ⟨by decide, rfl⟩
      exact stands_of_boot hboot 0
  | append_singleton history op ih =>
      rw [after_concat, lastProgram_concat, callsSince_concat]
      exact ih.perform op

/-- Operations that load nothing leave the last program what it is. -/
theorem lastProgram_append_of_none (history : List Operation) {rest : List Operation}
    (h : ∀ op ∈ rest, op.loaded? = none) : lastProgram (history ++ rest) = lastProgram history := by
  unfold lastProgram
  rw [List.filterMap_append, List.filterMap_eq_nil_iff.2 h, List.append_nil]

/-- A reset goes back to where the last good load left the session. -/
theorem reset_after_load (before : List Operation) {text : String} {rest : List Operation}
    (hloads : bytesOf? text = some bytes) (hrest : ∀ op ∈ rest, op.loaded? = none) :
    (after (before ++ .load text :: rest)).reset = after (before ++ [.load text]) := by
  have hlast : lastProgram (before ++ .load text :: rest) = bytes := by
    rw [List.append_cons, lastProgram_append_of_none _ hrest, lastProgram_concat]
    show (bytesOf? text).getD _ = bytes
    rw [hloads]
    rfl
  obtain ⟨m, hboot, hreset⟩ := (stands_after (before ++ .load text :: rest)).reset_eq
  rw [hlast] at hboot hreset
  obtain ⟨m', hboot', hload⟩ := (after before).load_of_some hloads
  cases hboot.symm.trans hboot'
  rw [hreset, after_concat, perform, hload]

-- ============================================================== reading

theorem Stands.full (h : Stands s bytes n) : s.machine.mem.Full := by
  obtain ⟨m, hboot, k, -, out, hreach, -⟩ := h.reached
  have hfull := full_iterate_advance m (.unlimited {}) (full_boot hboot) k
  rw [hreach] at hfull
  exact hfull

/-- The memory is read as a whole, and cell by cell it reads the same. -/
structure ReadsMemory (s : Session) (cells : List UInt8) : Prop where
  bytes : s.bytes = .ok cells
  length : cells.length = Memory.capacity
  byteAt : ∀ a < Memory.capacity, cells[a]? = some (s.byteAt a)
  beyond : ∀ a, Memory.capacity ≤ a → s.byteAt a = 0

theorem readsMemory_of_full (hfull : s.machine.mem.Full) :
    s.ReadsMemory s.machine.mem.cells.toList where
  bytes := by
    have hall : s.machine.mem.cells.extract 0 Memory.capacity = s.machine.mem.cells := by
      rw [← hfull, Array.extract_size]
    rw [bytes, hfull.slice_eq 0 (Nat.le_refl _), hall]
  length := by
    rw [Array.length_toList]
    exact hfull
  byteAt a ha := by
    rw [Array.getElem?_toList, ← Memory.read_eq_ok_iff, hfull.read_eq ha]
    rfl
  beyond a ha := by
    have hsize : s.machine.mem.cells.size = Memory.capacity := hfull
    exact Memory.peek_of_size_le (hsize ▸ ha)

/-- The bytes that a session has printed. -/
def outputBytes (s : Session) : ByteArray :=
  (s.printed.values.toList.flatMap lineBytes).toByteArray

theorem toUTF8_output (s : Session) : s.output.toUTF8 = s.outputBytes := by
  rw [output, text_eq_linesOf, toUTF8_linesOf]
  rfl

/-- After every history a session stands on the program that was loaded last,
not further behind its beginning than steps have been called since this load
or the last reset. A text is refused exactly if it holds no program that fits,
and then the session is left alone; any other text, and a reset, set out anew.
Its memory and its output are read without loss. -/
theorem session_stands_on_last_good_program (history : List Operation) :
    let s := after history
    s.Stands (lastProgram history) (callsSince history)
    ∧ (∃ m, Machine.boot (lastProgram history) = .ok m
        ∧ s.reset = { machine := m, program := lastProgram history, printed := {} })
    ∧ (∀ before text rest, history = before ++ .load text :: rest → bytesOf? text ≠ none →
        (∀ op ∈ rest, op.loaded? = none) → s.reset = after (before ++ [.load text]))
    ∧ (∀ text, bytesOf? text = none → ∃ e, s.load text = (.error e, s))
    ∧ (∀ text bytes, bytesOf? text = some bytes → ∃ m, Machine.boot bytes = .ok m
        ∧ s.load text = (.ok bytes.length, { machine := m, program := bytes, printed := {} }))
    ∧ (∃ cells, s.ReadsMemory cells)
    ∧ s.output.toUTF8 = s.outputBytes ∧ String.fromUTF8? s.outputBytes = some s.output := by
  intro s
  have hstands := stands_after history
  refine ⟨hstands, hstands.reset_eq, ?_, fun text => s.load_of_none,
    fun text bytes => s.load_of_some, ⟨_, readsMemory_of_full hstands.full⟩, s.toUTF8_output,
    fromUTF8?_eq_some_iff.2 s.toUTF8_output.symm⟩
  rintro before text rest rfl hloads hrest
  obtain ⟨bytes, hbytes⟩ := Option.ne_none_iff_exists'.1 hloads
  exact reset_after_load before hbytes hrest

/-- Between a run to the end and a step that faults, a text does not load. -/
theorem printing_survives_bad_text :
    let s := after [.load printingText, .run 5, .load "01x", .step]
    s.Stands [Opcode.prn, 0, Opcode.hlt] 6 ∧ s.output = "0\n" ∧ s.machine.status = .halted
    ∧ (∃ e, s.load "01x" = (.error e, s)) ∧ s.reset = after [.load printingText]
    ∧ ∃ cells, s.ReadsMemory cells := by
  intro s
  have hbad : bytesOf? "01x" = none := by decide +kernel
  have hgood : bytesOf? printingText = some [Opcode.prn, 0, Opcode.hlt] := by decide +kernel
  have hrest : ∀ op ∈ [.run 5, .load "01x", .step], Operation.loaded? op = none := by
    intro op hop
    simp only [List.mem_cons, List.not_mem_nil, or_false] at hop
    rcases hop with rfl | rfl | rfl
    · rfl
    · exact hbad
    · rfl
  let loaded : Session := { machine := CommandLine.printing, program := [Opcode.prn, 0, Opcode.hlt] }
  have hloaded : after [.load printingText] = loaded :=
    congrArg Prod.snd (load_of_boot {} parse_printing boot_printing)
  have hs : s = (loaded.run 5).2.step.2 := by
    obtain ⟨e, hload⟩ := load_of_none (loaded.run 5).2 hbad
    show (((after [.load printingText]).run 5).2.load "01x").2.step.2 = _
    rw [hloaded, hload]
  obtain ⟨hstands, -, hreset, hrefused, -, hmemory, -⟩ :=
    session_stands_on_last_good_program [.load printingText, .run 5, .load "01x", .step]
  refine ⟨?_, ?_, ?_, hrefused "01x" hbad, ?_, hmemory⟩
  · have hlast : lastProgram [.load printingText, .run 5, .load "01x", .step]
        = [Opcode.prn, 0, Opcode.hlt] := by
      decide +kernel
    have hcalls : callsSince [.load printingText, .run 5, .load "01x", .step] = 6 := by
      decide +kernel
    rw [← hlast, ← hcalls]
    exact hstands
  · rw [hs]
    decide +kernel
  · rw [hs]
    decide +kernel
  · exact hreset [] printingText _ rfl (by rw [hgood]; exact Option.some_ne_none _) hrest

end Session

end LS8
