/-
What runs print, and what becomes of a run whose printer fills up.

A run prints the lines of the PRNs that go through in it and no other text,
however it ends (`Logs.text_printed`).

# Printers that fill up

Such a printer takes so many lines more and refuses all others. Beside a
printer that takes everything it makes no difference up to the first line
that it refuses, and that is where the run ends (`Passage.beside`, by
induction on the passage, with the room that is left as the index). A PRN
has asked whatever else it has to ask before it offers its line, so the
machine is left as the PRN found it, and no line is lost or printed twice.

# Faults with room left

A printer that takes everything is not what a step faults over. So the fault
is the machine's own, and comes up with any printer
(`step_fault_of_takesAll`).
-/
import LS8.Proofs.History
import LS8.Proofs.Command

namespace LS8

open CommandLine

-- ================================================================ texts

/-- More values are more lines behind those that are there. -/
theorem Printout.text_of_values {before after : Printout} {values : List UInt8}
    (h : after.values.toList = before.values.toList ++ values) :
    after.text = before.text ++ linesOf values := by
  rw [text_eq_linesOf, h, linesOf_append, ← text_eq_linesOf]

-- ============================================================= printers

namespace Printer

/-- The printer takes `room` lines more, whatever they are, and refuses all
others. -/
def FillsUpAfter (out : Printer) (room : Nat) : Prop :=
  ∀ later value, out.refusal (later ++ out.offered) value = none ↔ later.length < room

theorem fillsUpAfter_limited (room : Nat) (text : String) :
    (limited room text).FillsUpAfter room := by
  intro later value
  show (if (later ++ []).length < room then none else some text) = none ↔ _
  rw [List.append_nil]
  split <;> simp_all

variable {full full' out out' : Printer} {room : Nat}

/-- As long as there is room, a line is taken. -/
theorem FillsUpAfter.offer_ok (h : full.FillsUpAfter (room + 1)) (value : UInt8) :
    ∃ full', full.offer value = (.ok (), full') ∧ full'.FillsUpAfter room
      ∧ full'.printed = full.printed.add value := by
  have htakes : full.refusal full.offered value = none :=
    (h [] value).2 (Nat.zero_lt_succ room)
  refine ⟨{ full with printed := full.printed.add value, offered := value :: full.offered },
    ?_, ?_, rfl⟩
  · rw [offer, htakes]
  · intro later value'
    have hlater := h (later ++ [value]) value'
    rw [List.append_assoc, List.length_append, List.length_singleton,
      Nat.add_lt_add_iff_right] at hlater
    exact hlater

/-- Without room it is refused. -/
theorem FillsUpAfter.offer_error (h : full.FillsUpAfter 0) (value : UInt8) :
    ∃ text full', full.offer value = (.error text, full') ∧ full'.printed = full.printed := by
  cases hrefusal : full.refusal full.offered value with
  | none => exact absurd ((h [] value).1 hrefusal) (Nat.lt_irrefl 0)
  | some text =>
      refine ⟨text, { full with offered := value :: full.offered }, ?_, rfl⟩
      rw [offer, hrefusal]

/-- `full` has room for `room` lines more, `out` for any number, and both
have printed the same. -/
structure Beside (room : Nat) (full out : Printer) : Prop where
  takesAll : out.TakesAll
  fills : full.FillsUpAfter room
  printed : full.printed = out.printed

/-- What there is room for is taken by both. -/
theorem Beside.receive {value : Option UInt8} (h : Beside room full out)
    (hroom : value.toList.length ≤ room) (hreceive : out.receive value = (.ok (), out')) :
    ∃ full', full.receive value = (.ok (), full')
      ∧ Beside (room - value.toList.length) full' out' := by
  cases value with
  | none =>
      cases hreceive
      exact ⟨full, rfl, h⟩
  | some value =>
      obtain ⟨room, rfl⟩ := Nat.exists_eq_add_of_le' hroom
      obtain ⟨full', hoffer, hfills, hprinted⟩ := h.fills.offer_ok value
      rw [Printer.receive, h.takesAll.offer_eq value] at hreceive
      cases hreceive
      refine ⟨full', hoffer, h.takesAll, hfills, ?_⟩
      rw [hprinted, h.printed]

end Printer

namespace Machine

open Printer

variable {m m' : Machine} {out out' full : Printer} {room : Nat} {trace : List Event}

-- ============================================================ one output

theorem printedBy_cons (e : Event) (trace : List Event) :
    printedBy (e :: trace) = e.printed.toList ++ printedBy trace := by
  rw [printedBy, List.filterMap_cons]
  cases e.printed <;> rfl

theorem printedBy_append (first second : List Event) :
    printedBy (first ++ second) = printedBy first ++ printedBy second :=
  List.filterMap_append

/-- Only a PRN prints. -/
theorem Event.exists_of_printed {e : Event} {value : UInt8} (h : e.printed = some value) :
    ∃ r, e = ⟨e.before, .prn r⟩ ∧ value = e.before.regs.get r := by
  obtain ⟨m, i⟩ := e
  cases i with
  | prn r =>
      cases h
      exact ⟨r, rfl, rfl⟩
  | _ => cases h

/-- A run prints the lines of the PRNs that go through in it, and nothing
else. -/
theorem Logs.text_printed {α : Type} {o : Outcome α} (h : Logs m out trace o) :
    o.out.printed.text = out.printed.text ++ linesOf (printedBy trace) := by
  cases h with
  | through hpass _ => exact Printout.text_of_values hpass.values_printed
  | @fault m₁ out₁ fault hpass hstep _ =>
      have hlast : o.out.printed = out₁.printed := by
        by_cases hrun : m₁.status = .running
        · exact (step_fault hrun hstep).2
        · rw [step_of_ne_running out₁ hrun] at hstep
          cases hstep
          rfl
      rw [hlast]
      exact Printout.text_of_values hpass.values_printed

-- =========================================================== single steps

/-- A step whose line there is room for goes through with both printers. -/
theorem step_beside {i : Instruction} (h : Beside room full out)
    (hroom : (Event.printed ⟨m, i⟩).toList.length ≤ room)
    (hstep : m.step out = ⟨.ok i, m', out'⟩) :
    ∃ full', m.step full = ⟨.ok i, m', full'⟩
      ∧ Beside (room - (Event.printed ⟨m, i⟩).toList.length) full' out' := by
  obtain ⟨hrun, hfetch, e, hexec, hreceive, hleft⟩ := step_eq_ok_iff.1 hstep
  rw [← hexec.prints_eq] at hroom ⊢
  obtain ⟨full', hreceive', hbeside⟩ := h.receive hroom hreceive
  exact ⟨full', step_eq_ok_iff.2 ⟨hrun, hfetch, e, hexec, hreceive', hleft⟩, hbeside⟩

/-- A step whose line there is no room for leaves the machine as it was, but
for the status. -/
theorem step_refused {i : Instruction} {value : UInt8} (h : full.FillsUpAfter 0)
    (hprints : Event.printed ⟨m, i⟩ = some value) (hstep : m.step out = ⟨.ok i, m', out'⟩) :
    ∃ text full', m.step full = ⟨.error (.output text), m.fail, full'⟩
      ∧ full'.printed = full.printed := by
  obtain ⟨hrun, hfetch, e, hexec, -, -⟩ := step_eq_ok_iff.1 hstep
  obtain ⟨text, full', hoffer, hprinted⟩ := h.offer_error value
  refine ⟨text, full', ?_, hprinted⟩
  rw [step_eq, if_pos hrun, attempt_eq_ok_iff.2 ⟨hfetch, hexec⟩]
  simp only [hexec.prints_eq, hprints, Printer.receive, hoffer]

/-- What a step faults over with a printer that takes everything, it faults
over with every printer. -/
theorem step_fault_of_takesAll {fault : Fault} (htakes : out.TakesAll)
    (h : m.step out = ⟨.error fault, m', out'⟩) (full : Printer) :
    m.step full = ⟨.error fault, m', full⟩ ∧ out' = out := by
  by_cases hrun : m.status = .running
  · rw [step_eq, if_pos hrun] at h ⊢
    cases hattempt : m.attempt with
    | error fault' =>
        rw [hattempt] at h
        cases h
        exact ⟨rfl, rfl⟩
    | ok attempted =>
        obtain ⟨out₁, -, htaken, -, -⟩ := (Alike.mk htakes htakes rfl).receive attempted.2.prints
        rw [hattempt] at h
        simp only [htaken] at h
        cases h
  · rw [step_of_ne_running out hrun] at h
    cases h
    exact ⟨step_of_ne_running full hrun, rfl⟩

-- ============================================================== passages

/-- `RefusedAt m full room trace last text full'`: on the way along `trace`
the printer `full` takes `room` lines and refuses the next, with `text`. The
machine is `last` there, and `full'` the printer afterwards. -/
inductive RefusedAt (m : Machine) (full : Printer) (room : Nat) (trace : List Event) :
    Machine → String → Printer → Prop where
  | intro {before after : List Event} {r : UInt8} {last : Machine} {text : String}
      {full₁ full' : Printer} (split : trace = before ++ ⟨last, .prn r⟩ :: after)
      (used : (printedBy before).length = room) (passage : Passage m full before last full₁)
      (running : last.status = .running)
      (step : last.step full₁ = ⟨.error (.output text), last.fail, full'⟩)
      (printed : full'.printed = full₁.printed) : RefusedAt m full room trace last text full'

/-- A refusal further on, seen from one step before. -/
theorem RefusedAt.behind {i : Instruction} {m₁ last : Machine} {full₁ full' : Printer}
    {text : String} (hstep : m.step full = ⟨.ok i, m₁, full₁⟩)
    (h : RefusedAt m₁ full₁ room trace last text full') :
    RefusedAt m full ((Event.printed ⟨m, i⟩).toList.length + room) (⟨m, i⟩ :: trace) last text
      full' := by
  obtain ⟨hsplit, hused, hpass, hrun, hlast, hprinted⟩ := h
  refine .intro (congrArg _ hsplit) ?_ (.head hstep hpass) hrun hlast hprinted
  rw [printedBy_cons, List.length_append, hused]

/-- Along a passage, both printers take what there is room for, or the first
line that there is no room for is refused. -/
theorem Passage.beside (hpass : Passage m out trace m' out') :
    ∀ {room : Nat} {full : Printer}, Beside room full out →
      ((printedBy trace).length ≤ room ∧ ∃ full', Passage m full trace m' full'
        ∧ Beside (room - (printedBy trace).length) full' out')
      ∨ (room < (printedBy trace).length
          ∧ ∃ last text full', RefusedAt m full room trace last text full') := by
  induction hpass with
  | refl m out =>
      intro room full h
      exact Or.inl ⟨Nat.zero_le room, full, .refl m full, h⟩
  | @head m m₁ m₂ out out₁ out₂ i trace hstep hrest ih =>
      intro room full h
      rw [printedBy_cons, List.length_append]
      by_cases hroom : (Event.printed ⟨m, i⟩).toList.length ≤ room
      · obtain ⟨full₁, hstep', hbeside⟩ := step_beside h hroom hstep
        rcases ih hbeside with ⟨hle, full', hpass', hend⟩ | ⟨hlt, last, text, full', hrefused⟩
        · refine Or.inl ⟨by omega, full', .head hstep' hpass', ?_⟩
          rwa [Nat.sub_sub] at hend
        · refine Or.inr ⟨by omega, last, text, full', ?_⟩
          have hbehind := hrefused.behind hstep'
          rwa [Nat.add_sub_cancel' hroom] at hbehind
      · -- one line at most is printed, so there is one and no room for it
        cases hprints : Event.printed ⟨m, i⟩ with
        | none =>
            rw [hprints] at hroom
            exact absurd (Nat.zero_le room) hroom
        | some value =>
            rw [hprints] at hroom
            obtain rfl : room = 0 := Nat.lt_one_iff.1 (Nat.lt_of_not_le hroom)
            obtain ⟨r, hprn, -⟩ := Event.exists_of_printed hprints
            obtain ⟨text, full', hrefused, hprinted⟩ := step_refused h.fills hprints hstep
            have hrun : m.status = .running := (step_eq_ok_iff.1 hstep).1
            refine Or.inr ⟨Nat.add_pos_left Nat.one_pos _, m, text, full', ?_⟩
            have hsplit : ⟨m, i⟩ :: trace = [] ++ ⟨m, .prn r⟩ :: trace :=
              congrArg (· :: trace) hprn
            exact .intro hsplit rfl (.refl m full) hrun hrefused hprinted

-- ================================================================== runs

/-- What a run comes to with a printer that has room for `room` lines
(`cut`), beside what it comes to with one that takes everything (`o`): the
same if `trace`, which goes through there, prints no more lines than that;
otherwise the refusal of the next line, with the machine as it was before
that PRN. -/
structure CutBy (start : Printout) (room : Nat) (trace : List Event) (o cut : Outcome UInt64) :
    Prop where
  same : (printedBy trace).length ≤ room →
    cut.result = o.result ∧ cut.machine = o.machine ∧ cut.out.printed = o.out.printed
  refused : room < (printedBy trace).length →
    (∃ text, cut.result = .error (.output text))
    ∧ cut.out.printed.text = start.text ++ linesOf ((printedBy trace).take room)
    ∧ ∃ before last r after, trace = before ++ ⟨last, .prn r⟩ :: after
        ∧ (printedBy before).length = room ∧ cut.machine = { last with status := .failed }

theorem CutBy.of_same {start : Printout} {o cut : Outcome UInt64}
    (hle : (printedBy trace).length ≤ room) (hresult : cut.result = o.result)
    (hmachine : cut.machine = o.machine) (hprinted : cut.out.printed = o.out.printed) :
    CutBy start room trace o cut where
  same := fun _ => ⟨hresult, hmachine, hprinted⟩
  refused := fun hlt => absurd hle (Nat.not_le.2 hlt)

theorem CutBy.of_refused {o : Outcome UInt64} {last : Machine} {text : String} {full' : Printer}
    (hlt : room < (printedBy trace).length) (h : RefusedAt m full room trace last text full') :
    CutBy full.printed room trace o ⟨.error (.output text), last.fail, full'⟩ where
  same := fun hle => absurd hle (Nat.not_le.2 hlt)
  refused := by
    intro _
    obtain ⟨hsplit, hused, hpass, hrun, hstep, hprinted⟩ := h
    refine ⟨⟨text, rfl⟩, ?_, _, last, _, _, hsplit, hused, rfl⟩
    rw [hsplit, printedBy_append, ← hused, List.take_left]
    dsimp only
    rw [hprinted]
    exact Printout.text_of_values hpass.values_printed

/-- A passage that is cut is shorter. -/
theorem RefusedAt.exists_fault {last : Machine} {text : String} {full' : Printer}
    (h : RefusedAt m full room trace last text full') :
    ∃ before full₁, before.length < trace.length ∧ Passage m full before last full₁
      ∧ last.status = .running
      ∧ last.step full₁ = ⟨.error (.output text), last.fail, full'⟩ := by
  obtain ⟨hsplit, -, hpass, hrun, hstep, -⟩ := h
  refine ⟨_, _, ?_, hpass, hrun, hstep⟩
  rw [hsplit, List.length_append, List.length_cons]
  omega

theorem runLimited_cutBy (max : UInt64) (h : Beside room full out) :
    ∃ trace, Logs m out trace (m.runLimited max out)
      ∧ CutBy out.printed room trace (m.runLimited max out) (m.runLimited max full) := by
  obtain ⟨trace, m', out', hpass, hle, hcase⟩ := runLimited_cases m max out
  refine ⟨trace, ?_, ?_⟩
  · rcases hcase with ⟨-, hok⟩ | ⟨fault, m'', out'', -, -, hstep, hfault⟩
    · rw [hok]
      exact .through hpass rfl
    · rw [hfault]
      exact .fault hpass hstep rfl
  · rcases hpass.beside h with
      ⟨hroom, full', hpass', hbeside⟩ | ⟨hlt, last, text, full', hrefused⟩
    · rcases hcase with ⟨hend, hok⟩ | ⟨fault, m'', out'', hrun, hlt, hstep, hfault⟩
      · rw [hok, hpass'.runLimited_eq hle hend]
        exact .of_same hroom rfl rfl hbeside.printed
      · obtain ⟨hstep', rfl⟩ := step_fault_of_takesAll hbeside.takesAll hstep full'
        rw [hfault, hpass'.runLimited_fault hlt hrun hstep']
        exact .of_same hroom rfl rfl hbeside.printed
    · obtain ⟨before, full₁, hshort, hbefore, hrun, hstep⟩ := hrefused.exists_fault
      rw [hbefore.runLimited_fault (by omega) hrun hstep, ← h.printed]
      exact .of_refused hlt hrefused

theorem run_cutBy {o : Outcome UInt64} (h : Beside room full out) (hrun : m.run out = some o) :
    ∃ trace cut, Logs m out trace o ∧ m.run full = some cut
      ∧ CutBy out.printed room trace o cut := by
  obtain ⟨attempts, hattempts, hending⟩ := ending_of_run hrun
  have hrefusal {trace last text full'} (hlt : room < (printedBy trace).length)
      (hle : trace.length ≤ attempts) (hrefused : RefusedAt m full room trace last text full') :
      ∃ cut, m.run full = some cut ∧ CutBy out.printed room trace o cut := by
    obtain ⟨before, full₁, hshort, hbefore, hruns, hstep⟩ := hrefused.exists_fault
    refine ⟨_, (Ending.fault hbefore hruns hstep).run_eq (by omega), ?_⟩
    rw [← h.printed]
    exact .of_refused hlt hrefused
  cases hending with
  | @stopped trace m' out' hpass hstop =>
      rcases hpass.beside h with
        ⟨hroom, full', hpass', hbeside⟩ | ⟨hlt, last, text, full', hrefused⟩
      · have hcut := (Ending.stopped hpass' hstop).run_eq hattempts
        exact ⟨trace, _, .through hpass rfl, hcut, .of_same hroom rfl rfl hbeside.printed⟩
      · obtain ⟨cut, hcut, hcutBy⟩ := hrefusal hlt (Nat.le_refl _) hrefused
        exact ⟨trace, cut, .through hpass rfl, hcut, hcutBy⟩
  | @fault trace m' m'' out' out'' fault hpass hruns hstep =>
      rcases hpass.beside h with
        ⟨hroom, full', hpass', hbeside⟩ | ⟨hlt, last, text, full', hrefused⟩
      · obtain ⟨hstep', rfl⟩ := step_fault_of_takesAll hbeside.takesAll hstep full'
        have hcut := (Ending.fault hpass' hruns hstep').run_eq hattempts
        exact ⟨trace, _, .fault hpass hstep rfl, hcut, .of_same hroom rfl rfl hbeside.printed⟩
      · obtain ⟨cut, hcut, hcutBy⟩ := hrefusal hlt (Nat.le_succ _) hrefused
        exact ⟨trace, cut, .fault hpass hstep rfl, hcut, hcutBy⟩

/-- A run prints a line for each PRN that goes through in it, in order: the
decimal of the register as the PRN found it. It prints nothing else,
whatever the printer and however the run ends.

With a printer that fills up after `room` lines, the run is what it is with
one that takes everything, as long as there are no more lines than that. If
there are more, just the first `room` are printed, the run ends with the
refusal of the next, and the machine is the one that came to the PRN of that
line, failed. -/
theorem run_ends_where_printer_fills_up (m : Machine) (out : Printer) :
    (∀ max, ∃ trace, Logs m out trace (m.runLimited max out)
      ∧ (m.runLimited max out).out.printed.text =
          out.printed.text ++ linesOf (printedBy trace))
    ∧ (∀ o, m.run out = some o → ∃ trace, Logs m out trace o
        ∧ o.out.printed.text = out.printed.text ++ linesOf (printedBy trace))
    ∧ ∀ room full, out.TakesAll → full.FillsUpAfter room → full.printed = out.printed →
        (∀ max, ∃ trace, Logs m out trace (m.runLimited max out)
          ∧ CutBy out.printed room trace (m.runLimited max out) (m.runLimited max full))
        ∧ ∀ o, m.run out = some o → ∃ trace cut, Logs m out trace o
            ∧ m.run full = some cut ∧ CutBy out.printed room trace o cut := by
  refine ⟨?_, ?_, ?_⟩
  · intro max
    obtain ⟨trace, hlogs⟩ := exists_logs_runLimited m max out
    exact ⟨trace, hlogs, hlogs.text_printed⟩
  · intro o hrun
    obtain ⟨trace, hlogs⟩ := exists_logs_run hrun
    exact ⟨trace, hlogs, hlogs.text_printed⟩
  · intro room full htakes hfills hprinted
    have hbeside : Beside room full out := ⟨htakes, hfills, hprinted⟩
    exact ⟨fun max => runLimited_cutBy max hbeside, fun o hrun => run_cutBy hbeside hrun⟩

/-- A program that prints R0 twice and halts. -/
def printingTwice : Machine where
  regs := { Registers.fresh with gp := #v[7, 0, 0, 0, 0, 0, 0, 0] }
  mem := ⟨⟨[Opcode.prn, 0, Opcode.prn, 0, Opcode.hlt] ++ List.replicate 251 0⟩⟩
  status := .running
  cycles := 0
  last := none

/-- With room for one line the second PRN is refused. With room for two the
printer makes no difference. -/
theorem second_line_refused :
    let out := Printer.unlimited {}
    let once := printingTwice.step out
    let twice := once.machine.step once.out
    let halted := twice.machine.step twice.out
    out.TakesAll ∧ printingTwice.run out = some ⟨.ok 3, halted.machine, halted.out⟩
    ∧ (let full := Printer.limited 1 "full"
      full.FillsUpAfter 1 ∧ full.printed = out.printed
      ∧ ∃ cut, printingTwice.run full = some cut
        ∧ (∃ text, cut.result = .error (.output text)) ∧ cut.out.printed.text = "7\n"
        ∧ cut.machine = { once.machine with status := .failed })
    ∧ (let full := Printer.limited 2 "full"
      full.FillsUpAfter 2 ∧ full.printed = out.printed
      ∧ ∃ cut, printingTwice.run full = some cut
        ∧ cut.result = .ok 3 ∧ cut.machine = halted.machine) := by
  intro out once twice halted
  have htakes : out.TakesAll := takesAll_unlimited {}
  have hpass : Passage printingTwice out
      [⟨printingTwice, .prn 0⟩, ⟨once.machine, .prn 0⟩, ⟨twice.machine, .hlt⟩]
      halted.machine halted.out :=
    .head (Outcome.eq_of_result (by decide +kernel))
      (.head (Outcome.eq_of_result (by decide +kernel))
        (.single (Outcome.eq_of_result (by decide +kernel))))
  have hstop : halted.machine.status ≠ .running := by decide +kernel
  have hstuck : halted.machine.Stuck halted.out := stuck_of_ne_running hstop
  have hrun : printingTwice.run out = some ⟨.ok 3, halted.machine, halted.out⟩ :=
    (Ending.stopped hpass hstop).run_eq (by decide)
  have htrace {trace : List Event}
      (hlogs : Logs printingTwice out trace
        (⟨.ok 3, halted.machine, halted.out⟩ : Outcome UInt64)) :
      trace = [⟨printingTwice, .prn 0⟩, ⟨once.machine, .prn 0⟩, ⟨twice.machine, .hlt⟩] := by
    cases hlogs with
    | through hother _ =>
        dsimp only at hother
        exact hother.eq_of_stuck hpass hstuck hstuck
    | fault _ _ hresult => cases hresult
  obtain ⟨-, -, hcuts⟩ := run_ends_where_printer_fills_up printingTwice out
  refine ⟨htakes, hrun, ⟨fillsUpAfter_limited 1 "full", rfl, ?_⟩,
    ⟨fillsUpAfter_limited 2 "full", rfl, ?_⟩⟩
  · obtain ⟨trace, cut, hlogs, hcut, hcutBy⟩ :=
      (hcuts 1 _ htakes (fillsUpAfter_limited 1 "full") rfl).2 _ hrun
    cases htrace hlogs
    obtain ⟨hresult, htext, before, last, r, after, hsplit, hused, hmachine⟩ :=
      hcutBy.refused (by decide +kernel)
    refine ⟨cut, hcut, hresult, ?_, ?_⟩
    · rw [htext]
      decide +kernel
    · match before with
      | [] => exact absurd hused (by decide)
      | [_] =>
          simp only [List.cons_append, List.nil_append, List.cons.injEq, Event.mk.injEq] at hsplit
          obtain ⟨-, ⟨hlast, -⟩, -⟩ := hsplit
          rw [hmachine, hlast]
      | [_, _] =>
          simp only [List.cons_append, List.nil_append, List.cons.injEq, Event.mk.injEq,
            reduceCtorEq, and_false, false_and] at hsplit
      | _ :: _ :: _ :: before =>
          simp only [List.cons_append, List.cons.injEq, List.nil_eq, List.append_eq_nil_iff,
            reduceCtorEq, and_false] at hsplit
  · obtain ⟨trace, cut, hlogs, hcut, hcutBy⟩ :=
      (hcuts 2 _ htakes (fillsUpAfter_limited 2 "full") rfl).2 _ hrun
    cases htrace hlogs
    obtain ⟨hresult, hmachine, -⟩ := hcutBy.same (by decide +kernel)
    dsimp only at hresult hmachine
    exact ⟨cut, hcut, hresult, hmachine⟩

end Machine

end LS8
