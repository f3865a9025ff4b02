/-
The words that a value is written in, read back.

A text spells a list of words if it is these words one after the other, with
blanks anywhere between them, and if a word that could go on (a name or a
number) ends where it stands (`Spelled`). Both layouts of a value are such
texts, and from such a text the lexer reads just these words
(`lex?_of_spelled`).

# Which words

All but numbers with a sign, a fraction or an exponent. Their literal is
kept as it was read, and nothing that the library writes has one.

A string is written with an escape for every character that needs one, and
every character is read back alike, whatever stands around it
(`exists_part`). Only the units of surrogate pairs depend on what follows
them, and a control character is written as a unit that is no such half.
-/
import LS8.Json.Lexer
import LS8.Json.Printer

namespace LS8

/-- The scalar is not a number that is kept as its literal. -/
def Scalar.IsPlain (s : Scalar) : Prop :=
  ∀ literal, s ≠ .number literal

-- ============================================================== strings

namespace StringPart

/-- The part is read as the character, whatever follows it. -/
def Means (part : StringPart) (c : Char) : Prop :=
  ∀ parts, assemble? (part :: parts) = (assemble? parts).map (c :: ·)

theorem char_means (c : Char) : (char c).Means c :=
  fun _ => rfl

/-- A unit below the surrogates does not wait for another one. -/
theorem unit_means (number : Nat) (h : number < 0xD800) :
    (unit number).Means (Char.ofNat number) := by
  have hhigh : isHigh number = false := by
    simp only [isHigh, Bool.and_eq_false_iff, decide_eq_false_iff_not]
    omega
  have hlow : isLow number = false := by
    simp only [isLow, Bool.and_eq_false_iff, decide_eq_false_iff_not]
    omega
  intro parts
  match parts with
  | unit low :: parts => rw [assemble?, hhigh, hlow]; rfl
  | [] => simp [assemble?, hhigh, hlow]
  | char c :: parts => simp [assemble?, hhigh, hlow]

/-- The digits of a control character are four and give its number. -/
theorem unit?_of_control : ∀ n < 32,
    (Numeral.padLeft '0' 4 (Numeral.hex n)).toList.length = 4
    ∧ unit? (Numeral.padLeft '0' 4 (Numeral.hex n)).toList = some n := by
  decide +kernel

/-- A backslash and a letter. -/
theorem scan_letter {letter c : Char} (h : escaped? letter = some c) (text : List Char) :
    scan ('\\' :: letter :: text) = (scan text).map fun read => (char c :: read.1, read.2) := by
  rw [scan]
  · rw [h]
    cases scan text <;> rfl
  · rintro a b c' d rest rfl -
    cases h

/-- A backslash, a u and four digits. -/
theorem scan_unit {digits : List Char} {number : Nat} (hlength : digits.length = 4)
    (h : unit? digits = some number) (text : List Char) :
    scan ('\\' :: 'u' :: digits ++ text) =
      (scan text).map fun read => (unit number :: read.1, read.2) := by
  match digits with
  | [a, b, c, d] =>
      show scan ('\\' :: 'u' :: a :: b :: c :: d :: text) = _
      rw [scan, h]
      cases scan text <;> rfl

/-- A character that stands for itself. -/
theorem scan_self {c : Char} (hquote : c ≠ '"') (hslash : c ≠ '\\') (hcontrol : ¬ c.toNat < 32)
    (text : List Char) :
    scan (c :: text) = (scan text).map fun read => (char c :: read.1, read.2) := by
  rw [scan, if_neg (not_or.2 ⟨hslash, hcontrol⟩)]
  · cases scan text <;> rfl
  · exact hquote
  · exact fun _ _ _ _ _ h _ => hslash h
  · exact fun _ _ h _ => hslash h

/-- How a character is written is read as a part that means it. -/
theorem exists_part (c : Char) :
    ∃ part : StringPart, part.Means c ∧ ∀ text,
      scan ((Scalar.escape c).toList ++ text) =
        (scan text).map fun read => (part :: read.1, read.2) := by
  unfold Scalar.escape
  split
  · exact ⟨char '"', char_means _, scan_letter rfl⟩
  · exact ⟨char '\\', char_means _, scan_letter rfl⟩
  · exact ⟨char '\n', char_means _, scan_letter rfl⟩
  · exact ⟨char '\r', char_means _, scan_letter rfl⟩
  · exact ⟨char '\t', char_means _, scan_letter rfl⟩
  · exact ⟨char '\x08', char_means _, scan_letter rfl⟩
  · exact ⟨char '\x0c', char_means _, scan_letter rfl⟩
  · rename_i hquote hslash _ _ _ _ _
    split
    · rename_i hcontrol
      obtain ⟨hlength, hunit⟩ := unit?_of_control c.toNat hcontrol
      refine ⟨unit c.toNat, ?_, fun text => ?_⟩
      · have hmeans := unit_means c.toNat (by omega)
        rwa [Char.ofNat_toNat] at hmeans
      · rw [String.toList_append]
        exact scan_unit hlength hunit text
    · rename_i hcontrol
      refine ⟨char c, char_means c, fun text => ?_⟩
      rw [String.toList_singleton]
      exact scan_self hquote hslash hcontrol text

/-- A string is read back, up to its closing quote. -/
theorem exists_parts (content text : List Char) :
    ∃ parts, assemble? parts = some content
      ∧ scan (content.flatMap (fun c => (Scalar.escape c).toList) ++ '"' :: text) =
          some (parts, text) := by
  induction content with
  | nil => exact ⟨[], rfl, rfl⟩
  | cons c content ih =>
      obtain ⟨parts, hmeans, hscan⟩ := ih
      obtain ⟨part, hpart, hfirst⟩ := exists_part c
      refine ⟨part :: parts, ?_, ?_⟩
      · rw [hpart, hmeans]
        rfl
      · rw [List.flatMap_cons, List.append_assoc, hfirst, hscan]
        rfl

end StringPart

-- ============================================================== numbers

namespace Scalar

/-- No zero stands in front of other digits. -/
theorem head?_toDigits_ne_zero {n : Nat} (h : 0 < n) :
    (Nat.toDigits 10 n).head? ≠ some '0' := by
  have hsingle : ∀ d < 10, 0 < d → [d.digitChar].head? ≠ some '0' := by decide
  induction n using Nat.strongRecOn with
  | ind n ih =>
      by_cases hlt : n < 10
      · rw [Nat.toDigits_of_lt_base hlt]
        exact hsingle n hlt h
      · have hfront := ih (n / 10) (by omega) (by omega)
        rw [Nat.toDigits_of_base_le (by decide) (Nat.le_of_not_lt hlt)]
        cases hcons : Nat.toDigits 10 (n / 10) with
        | nil => exact absurd hcons Nat.toDigits_ne_nil
        | cons c digits =>
            rw [hcons] at hfront
            exact hfront

theorem isInteger_toDigits (n : Nat) : isInteger (Nat.toDigits 10 n) = true := by
  rcases Nat.eq_zero_or_pos n with rfl | hpos
  · rfl
  · have hhead := head?_toDigits_ne_zero hpos
    have hdigits : (Nat.toDigits 10 n).all Char.isDigit = true :=
      List.all_eq_true.2 fun c hc => Nat.isDigit_of_mem_toDigits (by decide) (by decide) hc
    unfold isInteger
    split
    · exact absurd ‹_› Nat.toDigits_ne_nil
    · rfl
    · rename_i c digits _ hcons
      rw [hcons] at hhead hdigits
      rw [hdigits, Bool.and_true, bne_iff_ne]
      rintro rfl
      exact hhead rfl

theorem ofNumber?_toDigits (n : Nat) : ofNumber? (Nat.toDigits 10 n) = some (.integer n) := by
  unfold ofNumber?
  rw [if_pos (isInteger_toDigits n), Nat.ofDigitChars_ten_toDigits]

end Scalar

-- ================================================================ words

namespace Token

/-- The characters that no word goes on with. -/
def breaks : List Char :=
  [' ', '\n', '\t', '\r', '[', ']', '\x7b', '\x7d', ',', ':']

/-- A word that could go on ends here: a character follows that it does not
go on with, or nothing. -/
def Breaks (text : List Char) : Prop :=
  ∀ c ∈ text.head?, c ∈ breaks

/-- What is taken from a word and a text behind it is the word, if the word
is all of that kind and breaks off. -/
theorem takeWhile_of_breaks {p : Char → Bool} {word text : List Char}
    (hword : ∀ c ∈ word, p c = true) (hp : ∀ c ∈ breaks, p c = false) (h : Breaks text) :
    (word ++ text).takeWhile p = word := by
  rw [List.takeWhile_append_of_pos hword]
  cases text with
  | nil => exact List.append_nil word
  | cons c text => rw [List.takeWhile_cons, hp c (h c rfl)]; exact List.append_nil word

theorem dropWhile_of_breaks {p : Char → Bool} {word text : List Char}
    (hword : ∀ c ∈ word, p c = true) (hp : ∀ c ∈ breaks, p c = false) (h : Breaks text) :
    (word ++ text).dropWhile p = text := by
  rw [List.dropWhile_append_of_pos hword]
  cases text with
  | nil => rfl
  | cons c text => rw [List.dropWhile_cons, hp c (h c rfl)]; rfl

theorem mem_breaks_of_isBlank {c : Char} (h : isBlank c = true) : c ∈ breaks := by
  simp only [isBlank, Bool.or_eq_true, beq_iff_eq] at h
  rcases h with ((rfl | rfl) | rfl) | rfl <;> decide

theorem mem_breaks_of_ofMark? {c : Char} {token : Token} (h : ofMark? c = some token) :
    c ∈ breaks := by
  unfold ofMark? at h
  split at h <;> first | decide | cases h

/-- A character that a word goes on with is neither blank nor a mark. -/
theorem of_goes_on {p : Char → Bool} {c : Char} (hp : ∀ c ∈ breaks, p c = false)
    (hc : p c = true) : isBlank c = false ∧ ofMark? c = none := by
  have hmem : c ∉ breaks := fun hmem => by
    rw [hp c hmem] at hc
    cases hc
  constructor
  · rw [← Bool.not_eq_true]
    exact fun hblank => hmem (mem_breaks_of_isBlank hblank)
  · cases hmark : ofMark? c with
    | none => rfl
    | some token => exact absurd (mem_breaks_of_ofMark? hmark) hmem

-- ======================================================== words one by one

theorem lex?_blank {c : Char} (h : isBlank c = true) (text : List Char) :
    lex? (c :: text) = lex? text := by
  rw [lex?, if_pos h]

theorem lex?_mark {c : Char} {token : Token} (h : ofMark? c = some token) (text : List Char) :
    lex? (c :: text) = (lex? text).map (token :: ·) := by
  have hblank : isBlank c = false := by
    unfold ofMark? at h
    split at h <;> first | rfl | cases h
  rw [lex?, hblank, h]
  rfl

/-- A name is read up to where it breaks off. -/
theorem lex?_name {c : Char} {letters text : List Char} {s : Scalar}
    (hc : c.isAlpha = true) (hdigit : (c.isDigit || c == '-') = false)
    (hletters : ∀ c ∈ letters, c.isAlpha = true)
    (hname : Scalar.ofName? (c :: letters) = some s) (hbreaks : Breaks text) :
    lex? (c :: letters ++ text) = (lex? text).map (scalar s :: ·) := by
  have hnone : ∀ c ∈ breaks, c.isAlpha = false := by simp [breaks]
  obtain ⟨hblank, hmark⟩ := of_goes_on hnone hc
  have hquote : c ≠ '"' := by
    rintro rfl
    cases hc
  rw [List.cons_append, lex?, hblank, hmark]
  simp only [Bool.false_eq_true, if_false, hquote, hdigit,
    takeWhile_of_breaks hletters hnone hbreaks, dropWhile_of_breaks hletters hnone hbreaks, hname]

/-- So is a number. -/
theorem lex?_integer (n : Nat) {text : List Char} (hbreaks : Breaks text) :
    lex? (Nat.toDigits 10 n ++ text) = (lex? text).map (scalar (.integer n) :: ·) := by
  have hnone : ∀ c ∈ breaks, Scalar.isNumeral c = false := by simp [breaks, Scalar.isNumeral]
  have hdigits : ∀ c ∈ Nat.toDigits 10 n, c.isDigit = true := fun c hc =>
    Nat.isDigit_of_mem_toDigits (by decide) (by decide) hc
  have hnumber := Scalar.ofNumber?_toDigits n
  cases hcons : Nat.toDigits 10 n with
  | nil => exact absurd hcons Nat.toDigits_ne_nil
  | cons c digits =>
      rw [hcons] at hdigits hnumber
      have hnumeral : ∀ d ∈ c :: digits, Scalar.isNumeral d = true := fun d hd => by
        rw [Scalar.isNumeral, hdigits d hd]
        rfl
      obtain ⟨hc, hrest⟩ := List.forall_mem_cons.1 hnumeral
      obtain ⟨hblank, hmark⟩ := of_goes_on hnone hc
      have hquote : c ≠ '"' := by
        rintro rfl
        cases hc
      have hdigit : (c.isDigit || c == '-') = true := by
        rw [hdigits c List.mem_cons_self]
        rfl
      rw [List.cons_append, lex?, hblank, hmark]
      simp only [Bool.false_eq_true, if_false, hquote, hdigit, if_true,
        takeWhile_of_breaks hrest hnone hbreaks, dropWhile_of_breaks hrest hnone hbreaks, hnumber]

/-- A string is read up to its closing quote, whatever follows. -/
theorem lex?_string (quoted text : List Char) {parts : List StringPart}
    (h : StringPart.scan (quoted ++ text) = some (parts, text)) :
    lex? ('"' :: quoted ++ text) =
      (lex? text).map
        (scalar (.text ((StringPart.assemble? parts).map String.ofList)) :: ·) := by
  rw [List.cons_append, lex?]
  simp only [show isBlank '"' = false from rfl, show ofMark? '"' = none from rfl,
    Bool.false_eq_true, if_false, if_true]
  split
  · rename_i hnone
    rw [h] at hnone
    cases hnone
  · rename_i hsome
    rw [h] at hsome
    cases hsome
    rfl

/-- The word for a scalar is read as this scalar. -/
theorem lex?_scalar {s : Scalar} (hplain : s.IsPlain) {text : List Char} (hbreaks : Breaks text) :
    lex? (s.word.toList ++ text) = (lex? text).map (scalar s :: ·) := by
  match s with
  | .null =>
      show lex? ('n' :: ['u', 'l', 'l'] ++ text) = _
      exact lex?_name rfl rfl (by simp) rfl hbreaks
  | .bool true =>
      show lex? ('t' :: ['r', 'u', 'e'] ++ text) = _
      exact lex?_name rfl rfl (by simp) rfl hbreaks
  | .bool false =>
      show lex? ('f' :: ['a', 'l', 's', 'e'] ++ text) = _
      exact lex?_name rfl rfl (by simp) rfl hbreaks
  | .integer n =>
      rw [Scalar.word, Numeral.decimal, Nat.toList_repr]
      exact lex?_integer n hbreaks
  | .number literal => exact absurd rfl (hplain literal)
  | .text none =>
      have hscan : StringPart.scan ("\\ud800\"".toList ++ text) = some ([.unit 0xD800], text) := rfl
      exact lex?_string _ text hscan
  | .text (some content) =>
      obtain ⟨parts, hmeans, hscan⟩ := StringPart.exists_parts content.toList text
      have hword : (Scalar.text (some content)).word.toList =
          '"' :: (content.toList.flatMap fun c => (Scalar.escape c).toList) ++ ['"'] := by
        simp only [Scalar.word, String.toList_append, String.toList_join, List.flatMap_map]
        rfl
      have hread := lex?_string
        ((content.toList.flatMap fun c => (Scalar.escape c).toList) ++ ['"']) text
        (by rw [List.append_assoc]; exact hscan)
      rw [hmeans, Option.map_some, String.ofList_toList] at hread
      rw [hword]
      exact hread

-- ====================================================== texts of words

/-- The text spells the words: blanks may stand anywhere between them, and a
scalar breaks off. -/
inductive Spelled : List Token → List Char → Prop where
  | nil : Spelled [] []
  | blank {c : Char} {tokens : List Token} {text : List Char} (blank : isBlank c = true)
      (rest : Spelled tokens text) : Spelled tokens (c :: text)
  | mark {c : Char} {token : Token} {tokens : List Token} {text : List Char}
      (mark : ofMark? c = some token) (rest : Spelled tokens text) :
      Spelled (token :: tokens) (c :: text)
  | scalar {s : Scalar} {tokens : List Token} {text : List Char} (plain : s.IsPlain)
      (breaks : Breaks text) (rest : Spelled tokens text) :
      Spelled (.scalar s :: tokens) (s.word.toList ++ text)

/-- From a text that spells words these words are read. -/
theorem lex?_of_spelled {tokens : List Token} {text : List Char} (h : Spelled tokens text) :
    lex? text = some tokens := by
  induction h with
  | nil => rw [lex?]
  | blank hblank _ ih => rw [lex?_blank hblank, ih]
  | mark hmark _ ih => rw [lex?_mark hmark, ih, Option.map_some]
  | scalar hplain hbreaks _ ih => rw [lex?_scalar hplain hbreaks, ih, Option.map_some]

theorem Spelled.blanks {blanks text : List Char} {tokens : List Token}
    (hblanks : ∀ c ∈ blanks, isBlank c = true) (h : Spelled tokens text) :
    Spelled tokens (blanks ++ text) := by
  induction blanks with
  | nil => exact h
  | cons c blanks ih =>
      obtain ⟨hc, hrest⟩ := List.forall_mem_cons.1 hblanks
      exact .blank hc (ih hrest)

-- ============================================================== layouts

/-- No scalar stands next to another one, and all are plain. -/
def Apart : List Token → Prop
  | [] => True
  | .scalar s :: rest => s.IsPlain ∧ (∀ s', rest.head? ≠ some (.scalar s')) ∧ Apart rest
  | _ :: rest => Apart rest

theorem breaks_cons {c : Char} (h : c ∈ breaks) (text : List Char) : Breaks (c :: text) := by
  intro d hd
  cases hd
  exact h

theorem toList_newLine (depth : Nat) :
    (newLine depth).toList = '\n' :: List.replicate (2 * depth) ' ' := by
  simp only [newLine, String.toList_append, String.toList_ofList]
  rfl

theorem Spelled.newLine {depth : Nat} {tokens : List Token} {text : List Char}
    (h : Spelled tokens text) : Spelled tokens ((newLine depth).toList ++ text) := by
  rw [toList_newLine]
  exact .blank rfl (h.blanks fun c hc => by rw [List.eq_of_mem_replicate hc]; rfl)

theorem breaks_pretty {tokens : List Token} (depth : Nat)
    (h : ∀ s, tokens.head? ≠ some (.scalar s)) : Breaks (pretty depth tokens).toList := by
  fun_cases pretty depth tokens
  case case1 =>
    intro c hc
    cases hc
  case case10 s rest => exact absurd rfl (h s)
  all_goals
    simp only [String.toList_append, toList_newLine]
    exact breaks_cons (by decide) _

/-- The lines of words that stand apart spell these words. -/
theorem spelled_pretty {tokens : List Token} (depth : Nat) (h : Apart tokens) :
    Spelled tokens (pretty depth tokens).toList := by
  fun_induction pretty depth tokens with
  | case1 => exact .nil
  | case2 depth rest ih | case3 depth rest ih =>
      rw [String.toList_append]
      exact .mark rfl (.mark rfl (ih h))
  | case4 depth rest _ ih | case5 depth rest _ ih =>
      rw [String.toList_append, String.toList_append]
      exact .mark rfl (ih h).newLine
  | case6 depth rest ih | case7 depth rest ih =>
      rw [String.toList_append, String.toList_append, List.append_assoc]
      exact .newLine (.mark rfl (ih h))
  | case8 depth rest ih =>
      rw [String.toList_append, String.toList_append]
      exact .mark rfl (ih h).newLine
  | case9 depth rest ih =>
      rw [String.toList_append]
      exact .mark rfl (.blank rfl (ih h))
  | case10 depth s rest ih =>
      obtain ⟨hplain, hnext, hrest⟩ := h
      rw [String.toList_append]
      exact .scalar hplain (breaks_pretty depth hnext) (ih hrest)

theorem toList_compact_cons (token : Token) (tokens : List Token) :
    (compact (token :: tokens)).toList = token.word.toList ++ (compact tokens).toList := by
  rw [compact, List.map_cons, String.join_cons, String.toList_append]
  rfl

/-- Every word but a scalar is a mark. -/
theorem exists_mark {token : Token} (h : ∀ s, token ≠ .scalar s) :
    ∃ c, token.word.toList = [c] ∧ ofMark? c = some token := by
  cases token with
  | openArray => exact ⟨'[', rfl, rfl⟩
  | closeArray => exact ⟨']', rfl, rfl⟩
  | openObject => exact ⟨'\x7b', rfl, rfl⟩
  | closeObject => exact ⟨'\x7d', rfl, rfl⟩
  | comma => exact ⟨',', rfl, rfl⟩
  | colon => exact ⟨':', rfl, rfl⟩
  | scalar s => exact absurd rfl (h s)

theorem breaks_compact {tokens : List Token} (h : ∀ s, tokens.head? ≠ some (.scalar s)) :
    Breaks (compact tokens).toList := by
  cases tokens with
  | nil =>
      intro c hc
      cases hc
  | cons token tokens =>
      obtain ⟨c, hword, hmark⟩ := exists_mark fun s hs => h s (congrArg some hs)
      rw [toList_compact_cons, hword]
      exact breaks_cons (mem_breaks_of_ofMark? hmark) _

/-- So do the words with nothing between them. -/
theorem spelled_compact {tokens : List Token} (h : Apart tokens) :
    Spelled tokens (compact tokens).toList := by
  fun_induction Apart tokens with
  | case1 => exact .nil
  | case2 s rest ih =>
      obtain ⟨hplain, hnext, hrest⟩ := h
      rw [toList_compact_cons]
      exact .scalar hplain (breaks_compact hnext) (ih hrest)
  | case3 token rest hmark ih =>
      obtain ⟨c, hword, hc⟩ := exists_mark hmark
      rw [toList_compact_cons, hword]
      exact .mark hc (ih h)

end Token

end LS8
