/-
A machine is restored from its state.

Every part is read back from what is written for it: bytes and words by
their numbers, a structure by the names of its fields (`fields?_ofFields`,
for any names that differ), an alternative by its name. A state is a plain
value, so it is also read back from its texts, and a file that holds one of
these holds the machine (`ofBytes?_pretty`).
-/
import LS8.Snapshot
import LS8.Proofs.Reading

namespace LS8

-- ============================================================== values

namespace Json

@[simp]
theorem byte?_byte (value : UInt8) : (byte value).byte? = some value := by
  rw [byte, byte?, if_pos value.toNat_lt_size, UInt8.ofNat_toNat]

@[simp]
theorem word?_word (value : UInt64) : (word value).word? = some value := by
  rw [word, word?, if_pos value.toNat_lt_size, UInt64.ofNat_toNat]

@[simp]
theorem bytes?_map_byte (bytes : List UInt8) :
    (array (bytes.map byte)).bytes? = some bytes := by
  have hread : (fun value => (byte value).byte?) = some := funext byte?_byte
  rw [bytes?, List.mapM_map]
  show bytes.mapM (fun value => (byte value).byte?) = some bytes
  rw [hread]
  exact (List.mapM_pure (f := id)).trans (congrArg some (List.map_id bytes))

-- ====================================================== fields by names

variable {fields : List (String × Json)}

/-- Of several fields with different names one has the name of a given
one. -/
theorem filter_eq_singleton (h : (fields.map Prod.fst).Nodup) {field : String × Json}
    (hmem : field ∈ fields) : fields.filter (fun other => other.1 = field.1) = [field] := by
  induction fields with
  | nil => cases hmem
  | cons first rest ih =>
      rw [List.map_cons, List.nodup_cons] at h
      obtain ⟨hfirst, hrest⟩ := h
      have hdiffers : ∀ other ∈ rest, other.1 ≠ first.1 := by
        intro other hother heq
        exact hfirst (heq ▸ List.mem_map_of_mem hother)
      rcases List.mem_cons.1 hmem with rfl | hlater
      · rw [List.filter_cons_of_pos (by simp), List.filter_eq_nil_iff.2]
        intro other hother
        simp [hdiffers other hother]
      · rw [List.filter_cons_of_neg (by simp [(hdiffers field hlater).symm]), ih hrest hlater]

theorem member?_ofFields (h : (fields.map Prod.fst).Nodup) {field : String × Json}
    (hmem : field ∈ fields) :
    member? (fields.map fun field => (some field.1, field.2)) field.1 = some (some field.2) := by
  have hfilter := filter_eq_singleton h hmem
  unfold member?
  rw [List.filter_map]
  simp only [Function.comp_def, Option.some.injEq, hfilter]
  rfl

/-- The fields of a structure are found by their names. -/
theorem fields?_ofFields {names : List String} (hnames : fields.map Prod.fst = names)
    (h : names.Nodup) :
    (ofFields fields).fields? names = some (fields.map fun field => some field.2) := by
  subst hnames
  have hnamed : (fields.map fun field => ((some field.1 : Option String), field.2)).all
      (·.1.isSome) = true := by
    simp
  have hall : ∀ part : List (String × Json), (∀ field ∈ part, field ∈ fields) →
      (part.map Prod.fst).mapM (member? (fields.map fun field => (some field.1, field.2))) =
        some (part.map fun field => some field.2) := by
    intro part hpart
    induction part with
    | nil => rfl
    | cons field part ih =>
        obtain ⟨hfield, hrest⟩ := List.forall_mem_cons.1 hpart
        rw [List.map_cons, List.mapM_cons, member?_ofFields h hfield, ih hrest]
        rfl
  show (if _ then _ else _) = _
  rw [if_pos hnamed]
  exact hall fields fun _ hmem => hmem

-- ========================================================= plain values

theorem plain_text (content : String) : (text content).Plain :=
  .scalar fun _ h => by cases h

theorem plain_byte (value : UInt8) : (byte value).Plain :=
  .scalar fun _ h => by cases h

theorem plain_word (value : UInt64) : (word value).Plain :=
  .scalar fun _ h => by cases h

theorem plain_null : (Json.scalar .null).Plain :=
  .scalar fun _ h => by cases h

theorem plain_bytes (bytes : List UInt8) : (array (bytes.map byte)).Plain := by
  refine .array fun item hitem => ?_
  obtain ⟨value, -, rfl⟩ := List.mem_map.1 hitem
  exact plain_byte value

theorem plain_ofFields (h : ∀ field ∈ fields, field.2.Plain) : (ofFields fields).Plain := by
  refine .object fun member hmember => ?_
  obtain ⟨field, hfield, rfl⟩ := List.mem_map.1 hmember
  exact h field hfield

end Json

open Json

-- ========================================================= instructions

theorem AluOp.ofJson?_toJson (op : AluOp) : AluOp.ofJson? op.toJson = some op := by
  cases op <;> rfl

namespace Instruction

theorem ofRegister?_ofFields (instruction : UInt8 → Instruction) (r : UInt8) :
    ofRegister? instruction (.ofFields [("reg", .byte r)]) = some (instruction r) := by
  have hfields : (ofFields [("reg", .byte r)]).fields? ["reg"] = some [some (.byte r)] :=
    fields?_ofFields rfl (by decide)
  simp only [ofRegister?, hfields, byte?_byte, Option.map_some]

theorem ofJson?_toJson (i : Instruction) : ofJson? i.toJson = some i := by
  cases i with
  | hlt => rfl
  | ret => rfl
  | jmp r => exact ofRegister?_ofFields jmp r
  | jeq r => exact ofRegister?_ofFields jeq r
  | jne r => exact ofRegister?_ofFields jne r
  | call r => exact ofRegister?_ofFields call r
  | prn r => exact ofRegister?_ofFields prn r
  | push r => exact ofRegister?_ofFields push r
  | pop r => exact ofRegister?_ofFields pop r
  | ldi r v =>
      have hfields : (ofFields (ldi r v).operandFields).fields? ["reg", "value"] =
          some [some (.byte r), some (.byte v)] := fields?_ofFields rfl (by decide)
      show ofOperands? "Ldi" (ofFields (ldi r v).operandFields) = some (ldi r v)
      simp only [ofOperands?, hfields, byte?_byte]
      rfl
  | alu op a b =>
      have hfields : (ofFields (alu op a b).operandFields).fields? ["op", "reg_a", "reg_b"] =
          some [some op.toJson, some (.byte a), some (.byte b)] := fields?_ofFields rfl (by decide)
      show ofOperands? "Alu" (ofFields (alu op a b).operandFields) = some (alu op a b)
      simp only [ofOperands?, hfields, byte?_byte, AluOp.ofJson?_toJson]
      rfl

theorem plain_toJson (i : Instruction) : i.toJson.Plain := by
  have hoperands : ∀ field ∈ i.operandFields, field.2.Plain := by
    cases i <;> simp [operandFields, plain_byte, AluOp.toJson, plain_text]
  unfold toJson
  split
  · exact plain_text i.name
  · refine plain_ofFields fun field hfield => ?_
    rw [List.mem_singleton.1 hfield]
    exact plain_ofFields hoperands

end Instruction

-- ================================================== registers and memory

namespace Registers

theorem ofBytes?_toList (gp : Vector UInt8 8) : ofBytes? gp.toList = some gp := by
  obtain ⟨⟨bytes⟩, hsize⟩ := gp
  exact dif_pos hsize

theorem ofJson?_toJson (regs : Registers) : ofJson? regs.toJson = some regs := by
  have hfields : regs.toJson.fields? ["gp", "pc", "fl"] =
      some [some (.array (regs.gp.toList.map .byte)), some (.byte regs.pc),
        some (.byte regs.fl.bits)] := fields?_ofFields rfl (by decide)
  simp only [ofJson?, hfields, bytes?_map_byte, byte?_byte, Option.bind_eq_bind, Option.bind_some,
    ofBytes?_toList]
  rfl

theorem plain_toJson (regs : Registers) : regs.toJson.Plain := by
  refine plain_ofFields ?_
  simp [plain_bytes, plain_byte]

end Registers

namespace Memory

theorem ofJson?_toJson (mem : Memory) : ofJson? mem.toJson = some mem := by
  have hfields : mem.toJson.fields? ["cells"] =
      some [some (.array (mem.cells.toList.map .byte))] := fields?_ofFields rfl (by decide)
  simp only [ofJson?, hfields, bytes?_map_byte, Option.map_some]

theorem plain_toJson (mem : Memory) : mem.toJson.Plain := by
  refine plain_ofFields ?_
  simp [plain_bytes]

end Memory

-- ============================================================== machines

theorem Status.ofJson?_toJson (status : Status) : Status.ofJson? status.toJson = some status := by
  cases status <;> rfl

namespace Machine

theorem lastOfJson?_toJson (i : Instruction) : lastOfJson? (some i.toJson) = some (some i) := by
  have hnull : i.toJson = .scalar .null → False := by
    intro h
    cases i <;> cases h
  rw [lastOfJson?, Instruction.ofJson?_toJson]
  · rfl
  · exact hnull

/-- A machine is read back from its state. -/
theorem ofJson?_toJson (m : Machine) : ofJson? m.toJson = some m := by
  obtain ⟨regs, mem, status, cycles, last⟩ := m
  cases last with
  | none =>
      have hfields : (Machine.mk regs mem status cycles none).toJson.fields?
            ["regs", "mem", "state", "cycles", "last_instr"] =
          some [some regs.toJson, some mem.toJson, some status.toJson, some (.word cycles),
            some (.scalar .null)] := fields?_ofFields rfl (by decide)
      simp only [ofJson?, hfields, Registers.ofJson?_toJson, Memory.ofJson?_toJson,
        Status.ofJson?_toJson, word?_word]
      rfl
  | some i =>
      have hfields : (Machine.mk regs mem status cycles (some i)).toJson.fields?
            ["regs", "mem", "state", "cycles", "last_instr"] =
          some [some regs.toJson, some mem.toJson, some status.toJson, some (.word cycles),
            some i.toJson] := fields?_ofFields rfl (by decide)
      simp only [ofJson?, hfields, Registers.ofJson?_toJson, Memory.ofJson?_toJson,
        Status.ofJson?_toJson, word?_word, lastOfJson?_toJson]
      rfl

theorem plain_toJson (m : Machine) : m.toJson.Plain := by
  refine plain_ofFields ?_
  simp only [List.forall_mem_cons, List.not_mem_nil, false_imp_iff, implies_true, and_true]
  refine ⟨m.regs.plain_toJson, m.mem.plain_toJson, plain_text _, plain_word _, ?_⟩
  cases m.last with
  | none => exact plain_null
  | some i => exact i.plain_toJson

-- ================================================================ files

/-- The machine that a file holds: the state that its text writes. -/
def ofBytes? (bytes : ByteArray) : Option Machine :=
  ((String.fromUTF8? bytes).bind Json.parse?).bind ofJson?

/-- A text is the text of its bytes. -/
theorem fromUTF8?_toUTF8 (text : String) : String.fromUTF8? text.toUTF8 = some text := by
  unfold String.fromUTF8?
  exact dif_pos text.isValidUTF8

/-- A machine is read back from a file with its state. -/
theorem ofBytes?_pretty (m : Machine) : ofBytes? m.toJson.pretty.toUTF8 = some m := by
  rw [ofBytes?, fromUTF8?_toUTF8, Option.bind_some, parse?_pretty m.plain_toJson,
    Option.bind_some, ofJson?_toJson]

end Machine

end LS8
