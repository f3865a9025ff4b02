/-
What becomes of a program file before anything is executed.

A file that holds no text is refused with exit code 2. A text that holds no
program, or one with more bytes than there are addresses, is refused with
exit code 3. In every other case a machine is booted that runs and holds the
program. `Launched` has one constructor for each of the three, and `launched`
says that there is no fourth.

# Which text a file holds

A file has at most one text (`toUTF8_injective`), so what is said of a text
of the file is said of the file.
-/
import LS8.CommandLine
import LS8.Proofs.Restoring

namespace LS8

-- =============================================================== texts

/-- Bytes are a text exactly if they are the bytes of one. -/
theorem fromUTF8?_eq_some_iff {bytes : ByteArray} {text : String} :
    String.fromUTF8? bytes = some text ↔ bytes = text.toUTF8 := by
  constructor
  · intro h
    unfold String.fromUTF8? at h
    split at h
    · cases h
      rfl
    · cases h
  · rintro rfl
    exact Machine.fromUTF8?_toUTF8 text

theorem toUTF8_injective {first second : String} (h : first.toUTF8 = second.toUTF8) :
    first = second := by
  have hread := Machine.fromUTF8?_toUTF8 first
  rw [h, Machine.fromUTF8?_toUTF8] at hread
  exact (Option.some.inj hread).symm

namespace Program

/-- What is wrong with a text is a line of it. -/
theorem exitCode_of_entriesFrom {lines : List (List Char)} {e : LoadError} :
    ∀ {number : Nat}, entriesFrom number lines = .error e → e.exitCode = 3 := by
  induction lines with
  | nil =>
      intro number h
      cases h
  | cons line rest ih =>
      intro number h
      unfold entriesFrom at h
      split at h
      · split at h
        · cases h
          rfl
        · cases hrest : entriesFrom (number + 1) rest with
          | error e' =>
              rw [hrest] at h
              cases h
              exact ih hrest
          | ok entries =>
              rw [hrest] at h
              cases h
      · exact ih h

theorem exitCode_of_parse {text : List Char} {e : LoadError} (h : parse text = .error e) :
    e.exitCode = 3 := by
  unfold parse at h
  cases hentries : entriesFrom 1 (Text.lines text) with
  | error e' =>
      rw [hentries] at h
      cases h
      exact exitCode_of_entriesFrom hentries
  | ok entries =>
      rw [hentries] at h
      cases h

/-- A file with a text holds the program of the text. -/
theorem ofFile_text (path text : String) :
    ofFile path (.ok text.toUTF8) = parse text.toList := by
  simp only [ofFile, Machine.fromUTF8?_toUTF8]

/-- A file without one is refused. -/
theorem ofFile_of_no_text (path : String) {contents : Except FileFailure ByteArray}
    (h : ¬ ∃ text : String, contents = .ok text.toUTF8) :
    ∃ failure, ofFile path contents = .error (.unreadable path failure) := by
  cases contents with
  | error failure => exact ⟨failure, rfl⟩
  | ok bytes =>
      cases htext : String.fromUTF8? bytes with
      | none => exact ⟨.notText, by simp only [ofFile, htext]⟩
      | some text => exact absurd ⟨text, by rw [fromUTF8?_eq_some_iff.1 htext]⟩ h

end Program

-- ============================================================= machines

namespace Machine

theorem full_boot {bytes : List UInt8} {m : Machine} (h : boot bytes = .ok m) : m.mem.Full := by
  obtain ⟨hroom, rfl⟩ := boot_eq_ok_iff.1 h
  have hlen : bytes.length + (Memory.capacity - bytes.length) = Memory.capacity :=
    Nat.add_sub_of_le hroom
  simp only [Memory.Full, List.size_toArray, List.length_append, List.length_replicate, hlen]

/-- Each byte is loaded at its place. -/
theorem getElem?_boot {bytes : List UInt8} {m : Machine} (h : boot bytes = .ok m) {a : Nat}
    {byte : UInt8} (hbyte : bytes[a]? = some byte) : m.mem.cells[a]? = some byte := by
  obtain ⟨-, rfl⟩ := boot_eq_ok_iff.1 h
  obtain ⟨hlt, -⟩ := List.getElem?_eq_some_iff.1 hbyte
  rw [← Array.getElem?_toList]
  show (bytes ++ List.replicate _ 0)[a]? = some byte
  rw [List.getElem?_append_left hlt, hbyte]

theorem status_boot {bytes : List UInt8} {m : Machine} (h : boot bytes = .ok m) :
    m.status = .running := by
  obtain ⟨-, rfl⟩ := boot_eq_ok_iff.1 h
  rfl

theorem cycles_boot {bytes : List UInt8} {m : Machine} (h : boot bytes = .ok m) :
    m.cycles = 0 := by
  obtain ⟨-, rfl⟩ := boot_eq_ok_iff.1 h
  rfl

end Machine

-- ============================================================= launching

namespace CommandLine

/-- The text holds no program, or one with more bytes than there are
addresses. -/
def Unfit (text : String) : Prop :=
  (∃ e, Program.parse text.toList = .error e)
    ∨ ∃ program, Program.parse text.toList = .ok program ∧ Memory.capacity < program.bytes.length

/-- How a launch goes that does not open the debugger. -/
inductive Launched (contents : Except FileFailure ByteArray) : Launch → Prop where
  | unreadable (h : ¬ ∃ text : String, contents = .ok text.toUTF8) (line : String) :
      Launched contents (.refused line 2)
  | unfit {text : String} (h : contents = .ok text.toUTF8) (unfit : Unfit text) (line : String) :
      Launched contents (.refused line 3)
  | booted {text : String} {program : Program} {m : Machine} (h : contents = .ok text.toUTF8)
      (parsed : Program.parse text.toList = .ok program)
      (booted : Machine.boot program.bytes = .ok m) : Launched contents (.execute program m)

theorem launched {options : Options} (hdebug : options.debug = false)
    (contents : Except FileFailure ByteArray) : Launched contents (launch options contents) := by
  unfold launch
  by_cases htext : ∃ text : String, contents = .ok text.toUTF8
  · obtain ⟨text, rfl⟩ := htext
    rw [Program.ofFile_text]
    cases hparse : Program.parse text.toList with
    | error e =>
        simp only [Program.exitCode_of_parse hparse]
        exact .unfit rfl (Or.inl ⟨e, hparse⟩) _
    | ok program =>
        simp only [hdebug, Bool.false_eq_true, if_false]
        cases hboot : Machine.boot program.bytes with
        | ok m => exact .booted rfl hparse hboot
        | error e =>
            have hlong : Memory.capacity < program.bytes.length := by
              refine Nat.lt_of_not_le fun hroom => ?_
              have hok := Machine.boot_eq_ok_iff.2 ⟨hroom, rfl⟩
              rw [hboot] at hok
              cases hok
            exact .unfit rfl (Or.inr ⟨program, hparse, hlong⟩) _
  · obtain ⟨failure, hfile⟩ := Program.ofFile_of_no_text options.program htext
    rw [hfile]
    exact .unreadable htext _

/-- A program that boots is not unfit. -/
theorem not_unfit {text : String} {program : Program} {m : Machine}
    (hparse : Program.parse text.toList = .ok program)
    (hboot : Machine.boot program.bytes = .ok m) : ¬ Unfit text := by
  rintro (⟨e, herror⟩ | ⟨program', hparse', hlong⟩)
  · cases hparse.symm.trans herror
  · cases hparse.symm.trans hparse'
    exact Nat.not_lt.2 (Machine.boot_eq_ok_iff.1 hboot).1 hlong

end CommandLine

end LS8
