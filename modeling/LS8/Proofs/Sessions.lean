/-
A session and a command agree on what a program does.

A session runs in pieces: each run has a limit of its own and a new printer,
which goes on where the last one stood. As long as the counter has room for
all limits together, the pieces come to what one run with the sum of the
limits comes to (`runs_match`, by induction on the pieces): a piece that ends
well is followed by the others (`runLimited_add`), and a fault in one of them
is the fault of the whole run (`runLimited_of_error`).

A command is such a run of a machine booted from the same bytes, and a sum
that a command can be given as its limit leaves the room (`agrees_of_boot`).

# What a piece returns

The counter of the machine that it leaves, whatever the pieces before it
were. The counter of a booted machine stands at zero, so this is the number
of the instructions since then (`exists_passage_of_runs`).
-/
import LS8.Session
import LS8.Proofs.Command

namespace LS8

open Machine

namespace Session

-- ======================================================= one run of many

/-- Runs with these limits, one after the other, up to the first that is
refused: what each of them comes to, and the session that they leave. -/
def runs (s : Session) : List UInt32 → List (Except SessionError UInt64) × Session
  | [] => ([], s)
  | max :: rest =>
      match s.run max with
      | (.ok n, s') => (.ok n :: (runs s' rest).1, (runs s' rest).2)
      | (.error e, s') => ([.error e], s')

/-- The sum of the limits. -/
def total (limits : List UInt32) : Nat :=
  (limits.map UInt32.toNat).sum

/-- The results and the session are those of a single run. -/
structure Match (results : List (Except SessionError UInt64)) (last : Session)
    (o : Outcome UInt64) : Prop where
  machine : last.machine = o.machine
  printed : last.printed = o.out.printed
  refused : ∀ e, .error e ∈ results ↔ ∃ fault, e = .fault fault ∧ o.result = .error fault

variable {s s' : Session} {max : UInt32} {limits : List UInt32}

theorem runs_cons_ok {n : UInt64} (h : s.run max = (.ok n, s')) :
    s.runs (max :: limits) = (.ok n :: (s'.runs limits).1, (s'.runs limits).2) := by
  rw [runs, h]

theorem runs_cons_error {e : SessionError} (h : s.run max = (.error e, s')) :
    s.runs (max :: limits) = ([.error e], s') := by
  rw [runs, h]

/-- A run of a session is a run of its machine. -/
theorem run_eq {result : Except Fault UInt64} {m₁ : Machine} {out₁ : Printer}
    (h : s.machine.runLimited max.toUInt64 (.unlimited s.printed) = ⟨result, m₁, out₁⟩) :
    s.run max = ((result.mapError .fault).map fun _ => m₁.cycles,
      { s with machine := m₁, printed := out₁.printed }) := by
  unfold run advance
  rw [h]

/-- Runs come to what one run with the sum of their limits comes to. -/
theorem runs_match (limits : List UInt32) :
    ∀ s : Session, s.machine.cycles.toNat + total limits < UInt64.size →
      Match (s.runs limits).1 (s.runs limits).2
        (s.machine.runLimited (UInt64.ofNat (total limits)) (.unlimited s.printed)) := by
  induction limits with
  | nil =>
      intro s _
      have hnone : s.machine.runLimited (UInt64.ofNat (total [])) (.unlimited s.printed) =
          ⟨.ok 0, s.machine, .unlimited s.printed⟩ :=
        (Passage.refl s.machine (.unlimited s.printed)).runLimited_eq (Nat.zero_le _)
          (Or.inr (Nat.zero_min _).symm)
      rw [hnone]
      refine ⟨rfl, rfl, fun e => ⟨fun hmem => absurd hmem List.not_mem_nil, ?_⟩⟩
      rintro ⟨fault, -, hfault⟩
      cases hfault
  | cons max limits ih =>
      intro s hroom
      have htotal : total (max :: limits) = max.toUInt64.toNat + total limits := by
        rw [UInt32.toNat_toUInt64]
        rfl
      rw [htotal] at hroom
      have hsum : UInt64.ofNat (total (max :: limits)) =
          max.toUInt64 + UInt64.ofNat (total limits) := by
        rw [htotal, UInt64.ofNat_add, UInt64.ofNat_toNat]
      have hrest : (UInt64.ofNat (total limits)).toNat = total limits :=
        UInt64.toNat_ofNat_of_lt' (by omega)
      have htakes := Printer.takesAll_unlimited s.printed
      rcases ho : s.machine.runLimited max.toUInt64 (.unlimited s.printed) with
        ⟨fault | n, m₁, out₁⟩
      · have hle : max.toUInt64.toNat ≤ (UInt64.ofNat (total (max :: limits))).toNat := by
          rw [UInt64.toNat_ofNat_of_lt' (by omega)]
          omega
        have hlong := runLimited_of_error (congrArg Outcome.result ho) hle
        rw [ho] at hlong
        rw [runs_cons_error (run_eq ho), hlong]
        exact ⟨rfl, rfl, fun e => by simp⟩
      · have hcycles := toNat_cycles_runLimited_le ho
        have hrest' := ih { s with machine := m₁, printed := out₁.printed } (by
          show m₁.cycles.toNat + total limits < UInt64.size
          omega)
        have htakes₁ := takesAll_runLimited s.machine max.toUInt64 htakes
        rw [ho] at htakes₁
        have halike : (m₁.runLimited (UInt64.ofNat (total limits)) out₁).Alike
            (m₁.runLimited (UInt64.ofNat (total limits)) (.unlimited out₁.printed)) :=
          runLimited_alike htakes₁.alike_unlimited
        rw [runs_cons_ok (run_eq ho), hsum, runLimited_add (by omega) ho]
        refine ⟨hrest'.machine.trans halike.machine.symm,
          hrest'.printed.trans halike.out.printed.symm, fun e => ?_⟩
        rw [List.mem_cons, hrest'.refused, ← halike.result]
        cases (m₁.runLimited (UInt64.ofNat (total limits)) out₁).result <;> simp [Except.map]

-- ============================================================= counting

/-- A result is the counter of the machine that the run has left, and no run
before was refused. -/
theorem of_runs_getElem? {n : UInt64} (limits : List UInt32) :
    ∀ (s : Session) (i : Nat), (s.runs limits).1[i]? = some (.ok n) →
      (∀ e, .error e ∉ (s.runs (limits.take (i + 1))).1)
        ∧ n = (s.runs (limits.take (i + 1))).2.machine.cycles := by
  induction limits with
  | nil =>
      intro s i h
      cases h
  | cons max limits ih =>
      intro s i h
      rcases ho : s.machine.runLimited max.toUInt64 (.unlimited s.printed) with
        ⟨fault | k, m₁, out₁⟩
      · rw [runs_cons_error (run_eq ho)] at h
        cases i <;> cases h
      · rw [List.take_succ_cons, runs_cons_ok (run_eq ho)]
        rw [runs_cons_ok (run_eq ho)] at h
        cases i with
        | zero =>
            cases h
            refine ⟨fun e hmem => ?_, rfl⟩
            cases List.mem_singleton.1 hmem
        | succ i =>
            obtain ⟨hnone, hcount⟩ := ih _ i h
            refine ⟨fun e hmem => ?_, hcount⟩
            rcases List.mem_cons.1 hmem with hfirst | hlater
            · cases hfirst
            · exact hnone e hlater

theorem total_take_le (limits : List UInt32) (k : Nat) : total (limits.take k) ≤ total limits := by
  have hsplit : total limits = total (limits.take k) + total (limits.drop k) := by
    unfold total
    rw [← List.sum_append, ← List.map_append, List.take_append_drop]
  omega

/-- A result is the number of the instructions from where the session set
out. -/
theorem exists_passage_of_runs {n : UInt64} {i : Nat} (hcycles : s.machine.cycles = 0)
    (hroom : total limits < UInt64.size) (h : (s.runs limits).1[i]? = some (.ok n)) :
    ∃ trace out', Passage s.machine (.unlimited s.printed) trace
        (s.runs (limits.take (i + 1))).2.machine out'
      ∧ n.toNat = trace.length := by
  obtain ⟨hnone, rfl⟩ := of_runs_getElem? limits s i h
  have hle := total_take_le limits (i + 1)
  have hmatch := runs_match (limits.take (i + 1)) s (by rw [hcycles]; simp; omega)
  rw [hmatch.machine]
  obtain ⟨trace, m', out', hpass, hlen, ⟨-, hok⟩ | ⟨fault, m'', out'', -, -, -, hfault⟩⟩ :=
    runLimited_cases s.machine (UInt64.ofNat (total (limits.take (i + 1)))) (.unlimited s.printed)
  · rw [hok]
    refine ⟨trace, out', hpass, ?_⟩
    have hsize := (s.machine.runLimit (UInt64.ofNat (total (limits.take (i + 1))))).toNat_lt_size
    rw [toNat_runLimit] at hsize
    show m'.cycles.toNat = trace.length
    rw [hpass.toNat_cycles (by omega), hcycles, UInt64.toNat_zero, Nat.zero_add]
  · refine absurd ?_ (hnone (.fault fault))
    rw [hmatch.refused]
    exact ⟨fault, rfl, congrArg Outcome.result hfault⟩

-- ============================================================== loading

open CommandLine

theorem ofText_of_parse {text : String} {program : Program}
    (hparse : Program.parse text.toList = .ok program) :
    ofText text = ((Machine.boot program.bytes).mapError .memory).map fun machine =>
      { machine, program := program.bytes } := by
  unfold ofText
  rw [hparse]
  show ((Machine.boot program.bytes).mapError SessionError.memory >>= fun machine =>
    pure ({ machine, program := program.bytes } : Session)) = _
  cases Machine.boot program.bytes <;> rfl

/-- A session refuses a text that holds no program that fits. -/
theorem load_of_unfit (s : Session) {text : String} (h : Unfit text) :
    ∃ e, (s.load text).1 = .error e := by
  unfold load
  rcases h with ⟨e, herror⟩ | ⟨program, hparse, hlong⟩
  · have htext : ofText text = .error (.load e) := by
      unfold ofText
      rw [herror]
      rfl
    rw [htext]
    exact ⟨.load e, rfl⟩
  · rw [ofText_of_parse hparse]
    cases hboot : Machine.boot program.bytes with
    | ok m => exact absurd (boot_eq_ok_iff.1 hboot).1 (Nat.not_le.2 hlong)
    | error e => exact ⟨.memory e, rfl⟩

/-- It boots every other. -/
theorem load_of_boot (s : Session) {text : String} {program : Program} {m : Machine}
    (hparse : Program.parse text.toList = .ok program)
    (hboot : Machine.boot program.bytes = .ok m) :
    s.load text = (.ok program.bytes.length, { machine := m, program := program.bytes }) := by
  unfold load
  rw [ofText_of_parse hparse, hboot]
  rfl

-- ============================================================= agreement

/-- What runs of a session have come to agrees with how a command has ended
that booted the machine `m` from the same text. -/
structure Agrees (folder : Folder) (options : Options) (program : Program) (m : Machine)
    (results : List (Except SessionError UInt64)) (last : Session) (ending : Ending) : Prop where
  output : last.output = ending.stdout
  machine : (execute options m (.unlimited {})).1.machine = last.machine
  full : last.machine.mem.Full
  state : Writable folder options → LeavesState folder options ending last.machine
  fails : (∃ e, .error e ∈ results) ↔ ending.exitCode = 1 ∨ ending.exitCode = 4
  report : ∀ e, .error e ∈ results → ∃ fault front, e = .fault fault
    ∧ ending.stderr = front ++ errorLine e.message ++ sourceNote program last.machine fault
    ∧ (options.trace = false → Writable folder options → front = "")

/-- A command with the sum of the limits is one run of the machine. -/
theorem agrees_of_boot {folder : Folder} {options : Options} {program : Program} {m : Machine}
    (hboot : Machine.boot program.bytes = .ok m)
    (hmax : options.maxCycles.map UInt64.toNat = some (total limits))
    (hmachine : s.machine = m) (hprinted : s.printed = {}) :
    Agrees folder options program m (s.runs limits).1 (s.runs limits).2
      (runProgram folder options program m (.unlimited {})) := by
  have hcycles := cycles_boot hboot
  have hlimit : (limit options).toNat = total limits := by
    rw [toNat_limit, allowed, hmax]
    rfl
  have hsize := (limit options).toNat_lt_size
  have hmatch := runs_match limits s (by rw [hmachine, hcycles, UInt64.toNat_zero]; omega)
  rw [← hlimit, UInt64.ofNat_toNat, hmachine, hprinted] at hmatch
  obtain ⟨front, hending, hquiet⟩ :=
    runProgram_eq folder options program (.unlimited {}) hcycles
  have hfaults : ∀ fault, FaultsWithin (allowed options) m (.unlimited {}) fault ↔
      (m.runLimited (limit options) (.unlimited {})).result = .error fault := by
    intro fault
    rw [← allowance_limit options hcycles]
    exact faultsWithin_iff
  constructor
  · rw [hending, Session.output, hmatch.printed, text_eq_linesOf]
  · rw [execute_eq hcycles, hmatch.machine]
  · rw [hmatch.machine]
    exact full_runLimited (limit options) (.unlimited {}) (full_boot hboot)
  · intro hwritable
    rw [hmatch.machine]
    exact leavesState_dump hwritable (congrArg Ending.folder hending)
  · rw [exitCode_of_fault_iff folder options hboot rfl]
    constructor
    · rintro ⟨e, hmem⟩
      obtain ⟨fault, -, hfault⟩ := (hmatch.refused e).1 hmem
      exact ⟨fault, (hfaults fault).2 hfault⟩
    · rintro ⟨fault, hfault⟩
      exact ⟨_, (hmatch.refused _).2 ⟨fault, rfl, (hfaults fault).1 hfault⟩⟩
  · intro e hmem
    obtain ⟨fault, rfl, hfault⟩ := (hmatch.refused e).1 hmem
    refine ⟨fault, front, rfl, ?_, hquiet⟩
    rw [hending, hfault, hmatch.machine, String.append_assoc]
    rfl

/-- A session that is run in pieces and a command that is given the sum of
their limits agree on every program text: what the one does not load, the
other ends on with exit code 3; of what both load they make the same output,
the same machine and the same fault, and whatever piece of the session is not
refused counts the instructions since the loading. -/
theorem pieces_agree_with_command {folder : Folder} {options : Options} {arguments : List String}
    {text : String} (limits : List UInt32)
    (hparse : Arguments.parse arguments = .execute options) (hdebug : options.debug = false)
    (hread : folder.read options.program = .ok text.toUTF8)
    (hmax : options.maxCycles.map UInt64.toNat = some (total limits)) (before : Session) :
    ∃ ending, CommandLine.run folder none arguments = some ending
      ∧ ((∃ e, (before.load text).1 = .error e) ↔ ending.exitCode = 3)
      ∧ ∀ size s, before.load text = (.ok size, s) →
          ∃ program m, launch options (folder.read options.program) = .execute program m
            ∧ Agrees folder options program m (s.runs limits).1 (s.runs limits).2 ending
            ∧ ∀ i n, (s.runs limits).1[i]? = some (.ok n) →
                ∃ trace out', Passage m (.unlimited {}) trace
                    (s.runs (limits.take (i + 1))).2.machine out'
                  ∧ n.toNat = trace.length := by
  have hlaunched := launched hdebug (folder.read options.program)
  rw [run_of_parse hparse]
  generalize launch options (folder.read options.program) = launched at hlaunched ⊢
  cases hlaunched with
  | unreadable h line => exact absurd ⟨text, hread⟩ h
  | @unfit text' h hunfit line =>
      cases toUTF8_injective (Except.ok.inj (h.symm.trans hread))
      obtain ⟨e, herror⟩ := load_of_unfit before hunfit
      refine ⟨_, rfl, ⟨fun _ => rfl, fun _ => ⟨e, herror⟩⟩, fun size s hload => ?_⟩
      rw [hload] at herror
      cases herror
  | @booted text' program m h hparsed hbooted =>
      cases toUTF8_injective (Except.ok.inj (h.symm.trans hread))
      have hload := load_of_boot before hparsed hbooted
      have hroom : total limits < UInt64.size := by
        have hsize := (limit options).toNat_lt_size
        rw [toNat_limit, allowed, hmax] at hsize
        exact hsize
      refine ⟨_, rfl, ?_, fun size s hload' => ?_⟩
      · obtain ⟨-, -, -, -, hcode⟩ := exitCode_iff folder options hbooted rfl
        refine ⟨fun ⟨e, herror⟩ => ?_, fun h3 => ?_⟩
        · rw [hload] at herror
          cases herror
        · rw [h3] at hcode
          exact absurd hcode (by decide)
      · cases hload.symm.trans hload'
        exact ⟨program, m, rfl, agrees_of_boot hbooted hmax rfl rfl, fun i n hget =>
          exists_passage_of_runs (cycles_boot hbooted) hroom hget⟩

/-- A program that prints R0 and goes on to where there is no instruction. -/
def strayingText : String := "01000111\n00000000\n"

def straying : Machine :=
  { fresh with mem := ⟨⟨[Opcode.prn, 0] ++ List.replicate 254 0⟩⟩ }

theorem boot_straying : Machine.boot [Opcode.prn, 0] = .ok straying :=
  boot_eq_ok_iff.2 ⟨by decide, rfl⟩

theorem parse_straying :
    Program.parse strayingText.toList = .ok ⟨[⟨Opcode.prn, 1⟩, ⟨0, 2⟩]⟩ := by
  decide +kernel

/-- Three pieces, of which the second is empty and the last faults with room
left. -/
theorem straying_pieces_agree :
    let folder := Folder.ofFile "stray.ls8" strayingText.toUTF8
    let fault := Fault.decode 2 (.unknownOpcode 0)
    ∃ ending s note, CommandLine.run folder none ["-m", "6", "stray.ls8"] = some ending
      ∧ Session.load {} strayingText = (.ok 2, s)
      ∧ (s.runs [1, 0, 5]).1 = [.ok 1, .ok 1, .error (.fault fault)]
      ∧ (s.runs [1, 0, 5]).2.output = "0\n" ∧ ending.stdout = "0\n"
      ∧ (ending.exitCode = 1 ∨ ending.exitCode = 4)
      ∧ ending.stderr = errorLine fault.message ++ note := by
  intro folder fault
  have hparse : Arguments.parse ["-m", "6", "stray.ls8"] = .execute
      { program := "stray.ls8", maxCycles := some 6 } := by
    decide +kernel
  let s : Session := { machine := straying, program := [Opcode.prn, 0] }
  have hload : Session.load {} strayingText = (.ok 2, s) :=
    load_of_boot {} parse_straying boot_straying
  obtain ⟨ending, hrun, -, hagrees⟩ := pieces_agree_with_command [1, 0, 5] hparse rfl
    (rfl : folder.read "stray.ls8" = .ok strayingText.toUTF8) (by decide) {}
  obtain ⟨program, m, -, hall, -⟩ := hagrees _ _ hload
  have hresults : (s.runs [1, 0, 5]).1 = [.ok 1, .ok 1, .error (.fault fault)] := by
    decide +kernel
  have houtput : (s.runs [1, 0, 5]).2.output = "0\n" := by
    decide +kernel
  have hmem : .error (.fault fault) ∈ (s.runs [1, 0, 5]).1 := by
    rw [hresults]
    exact List.mem_cons_of_mem _ (List.mem_cons_of_mem _ List.mem_cons_self)
  obtain ⟨fault', front, -, hstderr, hquiet⟩ := hall.report _ hmem
  have hfront : front = "" := hquiet rfl fun path hpath => (by cases hpath)
  rw [hfront, String.empty_append] at hstderr
  exact ⟨ending, s, _, hrun, hload, hresults, houtput, hall.output.symm.trans houtput,
    hall.fails.1 ⟨_, hmem⟩, hstderr⟩

end Session

end LS8
