/-
Decoding: which bytes are an instruction, and why others are not.

The table of forms is read once. It knows the thirteen opcodes and no other
byte (`form?_eq_none_iff`), and what it builds from an opcode and operands
is encoded as just these bytes (`Form.Encodes`). Decoding then finds the one
instruction whose bytes come first (`decode_eq_ok_iff`), and fails in one of
two ways, in this order: the first byte is no opcode, or operands are
missing (`decode_eq_error_iff`).
-/
import LS8.Instruction.Code

namespace LS8

-- ============================================================== opcodes

namespace Opcode

/-- The opcodes. -/
def known : List UInt8 :=
  [hlt, ret, prn, push, pop, call, jmp, jeq, jne, ldi, add, mul, cmp]

/-- No other byte has a form. -/
theorem form?_eq_none_iff {op : UInt8} : form? op = none ↔ op ∉ known := by
  constructor
  · intro hnone hmem
    have hsome : known.all (fun op => (form? op).isSome) = true := by decide
    have := List.all_eq_true.1 hsome op hmem
    rw [hnone] at this
    cases this
  · intro hmem
    simp only [known, List.mem_cons, List.not_mem_nil, or_false, not_or] at hmem
    simp only [form?, hmem, if_false]

/-- What is built of a form for the opcode `op` has `op` as its first byte
and the operands behind it. -/
def Form.Encodes (op : UInt8) : Form → Prop
  | .bare i => i.encode = [op]
  | .unary i => ∀ a, (i a).encode = [op, a]
  | .binary i => ∀ a b, (i a b).encode = [op, a, b]

theorem encodes_of_form? {op : UInt8} {form : Form} (h : form? op = some form) :
    form.Encodes op := by
  have hmem : op ∈ known := Decidable.byContradiction fun hnot => by
    rw [form?_eq_none_iff.2 hnot] at h
    cases h
  simp only [known, List.mem_cons, List.not_mem_nil, or_false] at hmem
  rcases hmem with rfl | rfl | rfl | rfl | rfl | rfl | rfl | rfl | rfl | rfl | rfl | rfl | rfl <;>
    cases Option.some.inj h
  all_goals
    dsimp only [Form.Encodes]
    intros
    rfl

/-- The two high bits of an opcode are the number of operands. -/
theorem size_eq_shift (op : UInt8) : size op = 1 + (op >>> 6).toNat := by
  rw [size, UInt8.toNat_shiftRight, Nat.shiftRight_eq_div_pow]
  rfl

end Opcode

-- ============================================================= decoding

namespace Instruction

/-- The first byte of an instruction is its opcode, and says how many there
are. -/
theorem size_of_encode {i : Instruction} {op : UInt8} {operands : List UInt8}
    (h : i.encode = op :: operands) : i.opcode = op ∧ Opcode.size op = operands.length + 1 := by
  obtain ⟨hop, -⟩ := List.cons.inj h
  refine ⟨hop, ?_⟩
  rw [← hop, ← List.length_cons (a := op), ← h, length_encode, size]

/-- Decoding finds the instruction whose bytes come first. -/
theorem decode_eq_ok_iff {bytes : List UInt8} {i : Instruction} :
    decode bytes = .ok i ↔ i.encode <+: bytes := by
  constructor
  · intro h
    unfold decode at h
    split at h
    next => cases h
    next op operands =>
      split at h
      next => cases h
      next j hform =>
        cases h
        rw [Opcode.encodes_of_form? hform]
        exact ⟨_, rfl⟩
      next j a rest hform =>
        cases h
        rw [Opcode.encodes_of_form? hform]
        exact ⟨rest, rfl⟩
      next j a b rest hform =>
        cases h
        rw [Opcode.encodes_of_form? hform]
        exact ⟨rest, rfl⟩
      next => cases h
      next => cases h
  · rintro ⟨rest, rfl⟩
    exact decode_encode i rest

/-- Bytes that do not begin with an opcode are no instruction, however many
they are. -/
theorem decode_unknown {op : UInt8} (operands : List UInt8) (h : op ∉ Opcode.known) :
    decode (op :: operands) = .error (.unknownOpcode op) := by
  simp only [decode, Opcode.form?_eq_none_iff.2 h]

/-- Bytes that begin with an opcode are an instruction with this opcode,
provided they are enough. -/
theorem decode_known {op : UInt8} (operands : List UInt8) (h : op ∈ Opcode.known) :
    if Opcode.size op ≤ operands.length + 1 then
      ∃ i, decode (op :: operands) = .ok i ∧ i.opcode = op
    else decode (op :: operands) = .error (.truncated op (Opcode.size op)) := by
  cases hform : Opcode.form? op with
  | none => exact absurd h (Opcode.form?_eq_none_iff.1 hform)
  | some form =>
      have hencodes := Opcode.encodes_of_form? hform
      cases form with
      | bare i =>
          obtain ⟨hop, hsize⟩ := size_of_encode hencodes
          rw [if_pos (by simp [hsize])]
          exact ⟨i, by simp only [decode, hform], hop⟩
      | unary i =>
          obtain ⟨-, hsize⟩ := size_of_encode (hencodes 0)
          cases operands with
          | nil =>
              rw [if_neg (by simp [hsize])]
              simp only [decode, hform]
          | cons a rest =>
              rw [if_pos (by simp [hsize])]
              exact ⟨i a, by simp only [decode, hform], (size_of_encode (hencodes a)).1⟩
      | binary i =>
          obtain ⟨-, hsize⟩ := size_of_encode (hencodes 0 0)
          rcases operands with _ | ⟨a, _ | ⟨b, rest⟩⟩
          · rw [if_neg (by simp [hsize])]
            simp only [decode, hform]
          · rw [if_neg (by simp [hsize])]
            simp only [decode, hform]
          · rw [if_pos (by simp [hsize])]
            exact ⟨i a b, by simp only [decode, hform], (size_of_encode (hencodes a b)).1⟩

-- ==================================================== the two tables

/-- The bytes that have a form are those that instructions begin with. -/
theorem mem_known_iff {op : UInt8} : op ∈ Opcode.known ↔ ∃ i : Instruction, i.opcode = op := by
  constructor
  · intro h
    have henough : Opcode.size op ≤ ([0, 0, 0] : List UInt8).length + 1 := by
      have := op.toNat_lt
      simp only [Opcode.size, List.length_cons, List.length_nil]
      omega
    have hdecode := decode_known [0, 0, 0] h
    rw [if_pos henough] at hdecode
    obtain ⟨i, -, hop⟩ := hdecode
    exact ⟨i, hop⟩
  · rintro ⟨i, rfl⟩
    refine Decidable.byContradiction fun hnot => ?_
    have hback := decode_encode i []
    rw [encode, List.cons_append, decode_unknown _ hnot] at hback
    cases hback

/-- An instruction is found exactly if its bytes are the first of as many as
it takes. -/
theorem decode_eq_ok_iff_take {bytes : List UInt8} {i : Instruction} :
    decode bytes = .ok i ↔ i.size ≤ bytes.length ∧ bytes.take i.size = i.encode := by
  rw [decode_eq_ok_iff, List.prefix_iff_eq_take, length_encode]
  constructor
  · intro h
    have hlength := congrArg List.length h
    rw [length_encode, List.length_take] at hlength
    exact ⟨by omega, h.symm⟩
  · rintro ⟨-, h⟩
    exact h.symm

/-- The ways to be no instruction exclude each other: there are no bytes, or
the first is no opcode, or it is one that needs more bytes than there are. -/
theorem decode_eq_error_iff {bytes : List UInt8} {e : DecodeError} :
    decode bytes = .error e ↔
      bytes = [] ∧ e = .truncated 0 1
      ∨ ∃ op, bytes.head? = some op ∧
          (op ∉ Opcode.known ∧ e = .unknownOpcode op
          ∨ op ∈ Opcode.known ∧ bytes.length < Opcode.size op
            ∧ e = .truncated op (Opcode.size op)) := by
  cases bytes with
  | nil => simp [decode, eq_comm]
  | cons op operands =>
      simp only [reduceCtorEq, false_and, false_or, List.head?_cons, Option.some.injEq,
        exists_eq_left', List.length_cons]
      by_cases hknown : op ∈ Opcode.known
      · have hdecode := decode_known operands hknown
        split at hdecode
        · next henough =>
          obtain ⟨i, hok, -⟩ := hdecode
          simp [hok, hknown, Nat.not_lt.2 henough]
        · next hshort => simp [hdecode, hknown, Nat.lt_of_not_le hshort, eq_comm]
      · simp [decode_unknown operands hknown, hknown, eq_comm]

/-- Decoding is the inverse of encoding.

An instruction is found in front of anything exactly if its bytes stand
there, and these are as many as the two high bits of its opcode say. Bytes
that are no instruction begin with a byte that is no opcode, however many
they are, or with an opcode that needs more of them, or there are none. -/
theorem decode_inverts_encode :
    (∀ i rest, decode (encode i ++ rest) = .ok i)
    ∧ (∀ i, (encode i).length = size i ∧ size i = Opcode.size (opcode i)
        ∧ Opcode.size (opcode i) = 1 + (opcode i >>> 6).toNat)
    ∧ (∀ bytes i, decode bytes = .ok i ↔
        size i ≤ bytes.length ∧ bytes.take (size i) = encode i)
    ∧ (∀ bytes op, decode bytes = .error (.unknownOpcode op) ↔
        bytes.head? = some op ∧ ∀ i, opcode i ≠ op)
    ∧ (∀ bytes op needed, decode bytes = .error (.truncated op needed) ↔
        bytes = [] ∧ op = 0 ∧ needed = 1
        ∨ bytes.head? = some op ∧ (∃ i, opcode i = op) ∧ needed = Opcode.size op
          ∧ bytes.length < needed) := by
  refine ⟨decode_encode, fun i => ⟨length_encode i, rfl, Opcode.size_eq_shift _⟩,
    fun bytes i => decode_eq_ok_iff_take, ?_, ?_⟩
  · intro bytes op
    rw [decode_eq_error_iff, ← not_exists, ← mem_known_iff]
    simp only [reduceCtorEq, and_false, false_or, or_false, DecodeError.unknownOpcode.injEq]
    constructor
    · rintro ⟨first, hfirst, hnot, rfl⟩
      exact ⟨hfirst, hnot⟩
    · rintro ⟨hfirst, hnot⟩
      exact ⟨op, hfirst, hnot, rfl⟩
  · intro bytes op needed
    rw [decode_eq_error_iff, ← mem_known_iff]
    simp only [reduceCtorEq, and_false, false_or, DecodeError.truncated.injEq]
    constructor
    · rintro (hnone | ⟨first, hfirst, hknown, hshort, rfl, rfl⟩)
      · exact Or.inl hnone
      · exact Or.inr ⟨hfirst, hknown, rfl, hshort⟩
    · rintro (hnone | ⟨hfirst, hknown, rfl, hshort⟩)
      · exact Or.inl hnone
      · exact Or.inr ⟨op, hfirst, hknown, hshort, rfl, rfl⟩

end Instruction

end LS8
