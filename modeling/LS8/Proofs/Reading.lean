/-
A value is read back from its texts.

The reader is compared with the words of a value wherever these stand: inside
open containers, and before any other words (`valueFrom_tokens`). What is
left of a container behind one of its parts is the same for every part
(`itemTail`, `memberTail`), so an induction over the parts closes it. At the
end no container is open and no word is left.

A comma in an object stands before a name and a colon, and in an array before
a value. The reader tells the two apart by the colon, which stands behind no
value of an array (`tokens_append_ne_name`).
-/
import LS8.Json.Reader
import LS8.Proofs.Words

namespace LS8.Json

-- ==================================================== values and parts

/-- What holds of a value if it holds of its parts holds of every value. -/
@[elab_as_elim]
theorem induction {motive : Json → Prop} (scalar : ∀ s, motive (.scalar s))
    (array : ∀ items, (∀ item ∈ items, motive item) → motive (.array items))
    (object : ∀ members, (∀ member ∈ members, motive member.2) → motive (.object members)) :
    ∀ value, motive value
  | .scalar s => scalar s
  | .array items => array items fun item _ => induction scalar array object item
  | .object members => object members fun member _ => induction scalar array object member.2
termination_by value => sizeOf value
decreasing_by
  · have := List.sizeOf_lt_of_mem ‹item ∈ items›
    simp only [Json.array.sizeOf_spec]
    omega
  · have := List.sizeOf_lt_of_mem ‹member ∈ members›
    cases member
    simp only [Json.object.sizeOf_spec, Prod.mk.sizeOf_spec] at *
    omega

/-- A value without numbers that are kept as their literals. -/
inductive Plain : Json → Prop where
  | scalar {s : Scalar} (h : s.IsPlain) : Plain (.scalar s)
  | array {items : List Json} (h : ∀ item ∈ items, Plain item) : Plain (.array items)
  | object {members : List (Option String × Json)} (h : ∀ member ∈ members, Plain member.2) :
      Plain (.object members)

/-- The words behind an item, up to the end of the array. -/
def itemTail : List Json → List Token → List Token
  | [], rest => .closeArray :: rest
  | item :: items, rest => .comma :: (item.tokens ++ itemTail items rest)

/-- The words behind a member, up to the end of the object. -/
def memberTail : List (Option String × Json) → List Token → List Token
  | [], rest => .closeObject :: rest
  | (name, value) :: members, rest =>
      .comma :: .scalar (.text name) :: .colon :: (value.tokens ++ memberTail members rest)

theorem itemTokens_append (items : List Json) :
    ∀ (item : Json) (rest : List Token),
      itemTokens (item :: items) ++ .closeArray :: rest = item.tokens ++ itemTail items rest := by
  induction items with
  | nil =>
      intro item rest
      rw [itemTokens, itemTail]
  | cons next items ih =>
      intro item rest
      rw [itemTokens, itemTail, List.append_assoc, List.cons_append, ih]
      exact List.cons_ne_nil _ _

theorem memberTokens_append (members : List (Option String × Json)) :
    ∀ (name : Option String) (value : Json) (rest : List Token),
      memberTokens ((name, value) :: members) ++ .closeObject :: rest =
        .scalar (.text name) :: .colon :: (value.tokens ++ memberTail members rest) := by
  induction members with
  | nil =>
      intro name value rest
      rw [memberTokens, memberTail]
      rfl
  | cons next members ih =>
      intro name value rest
      rw [memberTokens, memberTail]
      · simp only [List.cons_append, List.append_assoc, ih]
      · exact List.cons_ne_nil _ _

theorem tokens_array_append (items : List Json) (rest : List Token) :
    (array items).tokens ++ rest = .openArray :: (itemTokens items ++ .closeArray :: rest) := by
  rw [tokens, List.append_assoc, List.cons_append]
  rfl

theorem tokens_object_append (members : List (Option String × Json)) (rest : List Token) :
    (object members).tokens ++ rest =
      .openObject :: (memberTokens members ++ .closeObject :: rest) := by
  rw [tokens, List.append_assoc, List.cons_append]
  rfl

-- ========================================================= words of values

/-- No value begins with the end of an array. -/
theorem tokens_append_ne_close (value : Json) (rest tail : List Token) :
    value.tokens ++ rest ≠ .closeArray :: tail := by
  intro h
  cases value with
  | scalar s => cases h
  | array items => cases (tokens_array_append items rest).symm.trans h
  | object members => cases (tokens_object_append members rest).symm.trans h

/-- A value is no name of a member. -/
theorem tokens_append_ne_name (value : Json) {rest : List Token}
    (hrest : ∀ tail, rest ≠ .colon :: tail) (name : Option String) (tail : List Token) :
    value.tokens ++ rest ≠ .scalar (.text name) :: .colon :: tail := by
  intro h
  cases value with
  | scalar s => exact hrest tail (List.cons.inj h).2
  | array items => cases (tokens_array_append items rest).symm.trans h
  | object members => cases (tokens_object_append members rest).symm.trans h

theorem itemTail_ne_colon (items : List Json) (rest tail : List Token) :
    itemTail items rest ≠ .colon :: tail := by
  intro h
  cases items <;> cases h

-- ============================================================= reading

/-- The words of the value are read as the value wherever they stand. -/
def Reads (value : Json) : Prop :=
  ∀ stack rest, valueFrom stack (value.tokens ++ rest) = closeFrom stack value rest

theorem closeFrom_itemTail {items : List Json} (h : ∀ item ∈ items, Reads item) :
    ∀ (value : Json) (read : List Json) (stack : List Frame) (rest : List Token),
      closeFrom (.array read :: stack) value (itemTail items rest) =
        closeFrom stack (.array (read.reverse ++ value :: items)) rest := by
  induction items with
  | nil =>
      intro value read stack rest
      rw [itemTail, closeFrom, List.reverse_cons]
  | cons item items ih =>
      obtain ⟨hitem, hitems⟩ := List.forall_mem_cons.1 h
      intro value read stack rest
      rw [itemTail, closeFrom, hitem, ih hitems, List.reverse_cons, List.append_assoc]
      · rfl
      · exact tokens_append_ne_name item (itemTail_ne_colon items rest)

theorem closeFrom_memberTail {members : List (Option String × Json)}
    (h : ∀ member ∈ members, Reads member.2) :
    ∀ (name : Option String) (value : Json) (read : List (Option String × Json))
      (stack : List Frame) (rest : List Token),
      closeFrom (.object read name :: stack) value (memberTail members rest) =
        closeFrom stack (.object (read.reverse ++ (name, value) :: members)) rest := by
  induction members with
  | nil =>
      intro name value read stack rest
      rw [memberTail, closeFrom, List.reverse_cons]
  | cons member members ih =>
      obtain ⟨hmember, hmembers⟩ := List.forall_mem_cons.1 h
      intro name value read stack rest
      rw [memberTail, closeFrom, hmember, ih hmembers, List.reverse_cons, List.append_assoc]
      rfl

/-- The words of a value are read as this value. -/
theorem valueFrom_tokens (value : Json) : Reads value := by
  induction value using Json.induction with
  | scalar s =>
      intro stack rest
      exact valueFrom.eq_1 stack s rest
  | array items ih =>
      intro stack rest
      rw [tokens_array_append]
      cases items with
      | nil => exact valueFrom.eq_2 stack rest
      | cons item items =>
          obtain ⟨hitem, hitems⟩ := List.forall_mem_cons.1 ih
          rw [itemTokens_append, valueFrom, hitem, closeFrom_itemTail hitems]
          · rfl
          · exact tokens_append_ne_close item _
  | object members ih =>
      intro stack rest
      rw [tokens_object_append]
      cases members with
      | nil => exact valueFrom.eq_4 stack rest
      | cons member members =>
          obtain ⟨hmember, hmembers⟩ := List.forall_mem_cons.1 ih
          rw [memberTokens_append, valueFrom, hmember, closeFrom_memberTail hmembers]
          rfl

theorem ofTokens?_tokens (value : Json) : ofTokens? value.tokens = some value := by
  have h := valueFrom_tokens value [] []
  rw [List.append_nil, closeFrom] at h
  exact h

-- ============================================================== texts

/-- Before words that stand apart and do not begin with a scalar, the words
of the value stand apart. -/
def StandsApart (value : Json) : Prop :=
  ∀ rest : List Token, (∀ s, rest.head? ≠ some (.scalar s)) → Token.Apart rest →
    Token.Apart (value.tokens ++ rest)

theorem head?_itemTail (items : List Json) (rest : List Token) (s : Scalar) :
    (itemTail items rest).head? ≠ some (.scalar s) := by
  intro h
  cases items <;> cases h

theorem head?_memberTail (members : List (Option String × Json)) (rest : List Token)
    (s : Scalar) : (memberTail members rest).head? ≠ some (.scalar s) := by
  intro h
  cases members <;> cases h

theorem apart_itemTail {items : List Json} (h : ∀ item ∈ items, StandsApart item)
    {rest : List Token} (hrest : Token.Apart rest) : Token.Apart (itemTail items rest) := by
  induction items with
  | nil => exact hrest
  | cons item items ih =>
      obtain ⟨hitem, hitems⟩ := List.forall_mem_cons.1 h
      exact hitem _ (head?_itemTail items rest) (ih hitems)

/-- A name is a plain scalar, and a colon stands behind it. -/
theorem apart_name (name : Option String) {rest : List Token} (h : Token.Apart rest) :
    Token.Apart (.scalar (.text name) :: .colon :: rest) := by
  refine ⟨?_, ?_, h⟩
  · intro literal hnumber
    cases hnumber
  · intro s hscalar
    cases hscalar

theorem apart_memberTail {members : List (Option String × Json)}
    (h : ∀ member ∈ members, StandsApart member.2) {rest : List Token}
    (hrest : Token.Apart rest) : Token.Apart (memberTail members rest) := by
  induction members with
  | nil => exact hrest
  | cons member members ih =>
      obtain ⟨hmember, hmembers⟩ := List.forall_mem_cons.1 h
      exact apart_name member.1 (hmember _ (head?_memberTail members rest) (ih hmembers))

/-- The words of a plain value stand apart. -/
theorem Plain.standsApart {value : Json} (hplain : value.Plain) : StandsApart value := by
  induction value using Json.induction with
  | scalar s =>
      cases hplain with
      | scalar hs => exact fun rest hhead hrest => ⟨hs, hhead, hrest⟩
  | array items ih =>
      cases hplain with
      | array hitems =>
          intro rest _ hrest
          have hparts : ∀ item ∈ items, StandsApart item := fun item hitem =>
            ih item hitem (hitems item hitem)
          rw [tokens_array_append]
          cases items with
          | nil => exact hrest
          | cons item items =>
              obtain ⟨hfirst, htail⟩ := List.forall_mem_cons.1 hparts
              rw [itemTokens_append]
              exact hfirst _ (head?_itemTail items rest) (apart_itemTail htail hrest)
  | object members ih =>
      cases hplain with
      | object hmembers =>
          intro rest _ hrest
          have hparts : ∀ member ∈ members, StandsApart member.2 := fun member hmember =>
            ih member hmember (hmembers member hmember)
          rw [tokens_object_append]
          cases members with
          | nil => exact hrest
          | cons member members =>
              obtain ⟨hfirst, htail⟩ := List.forall_mem_cons.1 hparts
              rw [memberTokens_append]
              exact apart_name member.1
                (hfirst _ (head?_memberTail members rest) (apart_memberTail htail hrest))

theorem Plain.apart_tokens {value : Json} (hplain : value.Plain) : Token.Apart value.tokens := by
  have h := hplain.standsApart [] (fun _ hs => by cases hs) trivial
  rwa [List.append_nil] at h

/-- A text that spells the words of a value is read as this value. -/
theorem parse?_of_spelled {value : Json} {text : String}
    (h : Token.Spelled value.tokens text.toList) : parse? text = some value := by
  rw [parse?, Token.lex?_of_spelled h, Option.bind_some, ofTokens?_tokens]

/-- A plain value is read back from its lines. -/
theorem parse?_pretty {value : Json} (h : value.Plain) : parse? value.pretty = some value :=
  parse?_of_spelled (Token.spelled_pretty 0 h.apart_tokens)

/-- So it is from its text without blanks. -/
theorem parse?_compact {value : Json} (h : value.Plain) : parse? value.compact = some value :=
  parse?_of_spelled (Token.spelled_compact h.apart_tokens)

end LS8.Json
