/-
The numerals that the machine's texts are written in: decimal, two-digit
hexadecimal, and binary with or without leading zeros; and the one numeral
that is read back, up to eight binary digits.

All of them are the digit list `Nat.toDigits` of a base, brought to a width
with `leftpad`, so what a reader needs to know about one (its length, that
reading undoes it) is a fact about digit lists and is proved once.
-/
namespace LS8.Numeral

/-- `text` brought to `width` characters with `fill` in front; a text that
is already as wide is left alone. -/
def padLeft (fill : Char) (width : Nat) (text : String) : String :=
  String.ofList (text.toList.leftpad width fill)

/-- Decimal, as many digits as needed. -/
def decimal (n : Nat) : String :=
  n.repr

/-- Decimal, at least three digits: how the debugger writes an address. -/
def decimal3 (n : Nat) : String :=
  padLeft '0' 3 (decimal n)

/-- Two upper-case hexadecimal digits. -/
def hex2 (byte : UInt8) : String :=
  padLeft '0' 2 (String.ofList ((Nat.toDigits 16 byte.toNat).map Char.toUpper))

/-- Lower-case hexadecimal, as many digits as needed. -/
def hex (n : Nat) : String :=
  String.ofList (Nat.toDigits 16 n)

/-- Binary, as many digits as needed. -/
def binary (byte : UInt8) : String :=
  String.ofList (Nat.toDigits 2 byte.toNat)

/-- Exactly eight binary digits. -/
def binary8 (byte : UInt8) : String :=
  padLeft '0' 8 (binary byte)

/-- A binary digit. -/
def isBit (c : Char) : Bool :=
  c == '0' || c == '1'

/-- The byte that one to eight binary digits stand for; nothing else
stands for a byte. -/
def byteOfBits? (digits : List Char) : Option UInt8 :=
  if digits ≠ [] ∧ digits.length ≤ 8 ∧ digits.all isBit then
    some (UInt8.ofNat (Nat.ofDigitChars 2 digits 0))
  else
    none

/-- The number that a digit list of any length stands for in base ten. -/
def ofDecimal? (digits : List Char) : Option Nat :=
  if digits ≠ [] ∧ digits.all Char.isDigit then
    some (Nat.ofDigitChars 10 digits 0)
  else
    none

-- ==================================================== reading what is written

/-- The upper-case hexadecimal digit with this value. -/
def hexDigit (value : Nat) : Char :=
  (Nat.digitChar value).toUpper

theorem toList_hex2 (byte : UInt8) :
    (hex2 byte).toList = [hexDigit (byte.toNat / 16), hexDigit (byte.toNat % 16)] := by
  have hlt : byte.toNat < 256 := byte.toNat_lt
  have htoList : (hex2 byte).toList
      = ((Nat.toDigits 16 byte.toNat).map Char.toUpper).leftpad 2 '0' := by
    simp only [hex2, padLeft, String.toList_ofList]
  rw [htoList]
  by_cases hsmall : byte.toNat < 16
  · rw [Nat.toDigits_of_lt_base hsmall, Nat.div_eq_of_lt hsmall, Nat.mod_eq_of_lt hsmall]
    rfl
  · rw [Nat.toDigits_of_base_le (by decide) (Nat.le_of_not_lt hsmall),
      Nat.toDigits_of_lt_base (by omega)]
    rfl

theorem length_hex2 (byte : UInt8) : (hex2 byte).toList.length = 2 := by
  rw [toList_hex2]
  rfl

/-- A decimal numeral is written in decimal digits. -/
theorem isDigit_of_mem_decimal {n : Nat} {c : Char} (h : c ∈ (decimal n).toList) :
    c.isDigit = true := by
  rw [decimal, Nat.toList_repr] at h
  exact Nat.isDigit_of_mem_toDigits (by decide) (by decide) h

/-- A decimal numeral stands for the number that it was written for. -/
theorem ofDigitChars_decimal (n : Nat) : Nat.ofDigitChars 10 (decimal n).toList 0 = n := by
  rw [decimal, Nat.toList_repr, Nat.ofDigitChars_ten_toDigits]

theorem decimal_injective {n k : Nat} (h : decimal n = decimal k) : n = k := by
  rw [← ofDigitChars_decimal n, h, ofDigitChars_decimal]

theorem isBit_of_mem_toDigits {n : Nat} {c : Char} (h : c ∈ Nat.toDigits 2 n) :
    isBit c = true := by
  have hdigit : ∀ d < 2, isBit d.digitChar = true := by decide
  induction n using Nat.strongRecOn with
  | ind n ih =>
      by_cases hlt : n < 2
      · rw [Nat.toDigits_of_lt_base hlt, List.mem_singleton] at h
        rw [h]
        exact hdigit n hlt
      · rw [Nat.toDigits_of_base_le (by decide) (Nat.le_of_not_lt hlt), List.mem_append,
          List.mem_singleton] at h
        rcases h with h | rfl
        · exact ih (n / 2) (by omega) h
        · exact hdigit (n % 2) (Nat.mod_lt n (by decide))

theorem toList_binary8 (byte : UInt8) :
    (binary8 byte).toList =
      List.replicate (8 - (Nat.toDigits 2 byte.toNat).length) '0' ++ Nat.toDigits 2 byte.toNat := by
  simp only [binary8, padLeft, binary, String.toList_ofList, List.leftpad]

theorem length_binary8 (byte : UInt8) : (binary8 byte).toList.length = 8 := by
  have hdigits : (Nat.toDigits 2 byte.toNat).length ≤ 8 :=
    (Nat.length_toDigits_le_iff (by decide) (by decide)).2 byte.toNat_lt
  rw [toList_binary8, List.length_append, List.length_replicate]
  omega

theorem isBit_of_mem_binary8 {byte : UInt8} {c : Char} (h : c ∈ (binary8 byte).toList) :
    isBit c = true := by
  rw [toList_binary8, List.mem_append] at h
  rcases h with h | h
  · rw [List.eq_of_mem_replicate h]
    rfl
  · exact isBit_of_mem_toDigits h

/-- Zeros in front change nothing. -/
theorem ofDigitChars_replicate_append (b k : Nat) (digits : List Char) :
    Nat.ofDigitChars b (List.replicate k '0' ++ digits) 0 = Nat.ofDigitChars b digits 0 := by
  induction k with
  | zero => rfl
  | succ k ih =>
      rw [List.replicate_succ, List.cons_append, Nat.ofDigitChars_cons]
      exact ih

/-- Eight binary digits stand for the byte that they were written for. -/
theorem byteOfBits?_binary8 (byte : UInt8) : byteOfBits? (binary8 byte).toList = some byte := by
  have hlength := length_binary8 byte
  have hbits : (binary8 byte).toList.all isBit = true :=
    List.all_eq_true.2 fun c hc => isBit_of_mem_binary8 hc
  have hne : (binary8 byte).toList ≠ [] := List.ne_nil_of_length_pos (by omega)
  have hvalue : Nat.ofDigitChars 2 (binary8 byte).toList 0 = byte.toNat := by
    rw [toList_binary8, ofDigitChars_replicate_append,
      Nat.ofDigitChars_toDigits (by decide) (by decide)]
  rw [byteOfBits?, if_pos ⟨hne, Nat.le_of_eq hlength, hbits⟩, hvalue, UInt8.ofNat_toNat]

theorem toList_decimal3 (n : Nat) :
    (decimal3 n).toList =
      List.replicate (3 - (Nat.toDigits 10 n).length) '0' ++ Nat.toDigits 10 n := by
  simp only [decimal3, padLeft, decimal, Nat.toList_repr, String.toList_ofList, List.leftpad]

theorem length_decimal3 {n : Nat} (h : n < 1000) : (decimal3 n).toList.length = 3 := by
  have hdigits : (Nat.toDigits 10 n).length ≤ 3 :=
    (Nat.length_toDigits_le_iff (by decide) (by decide)).2 h
  rw [toList_decimal3, List.length_append, List.length_replicate]
  omega

theorem isDigit_of_mem_decimal3 {n : Nat} {c : Char} (h : c ∈ (decimal3 n).toList) :
    c.isDigit = true := by
  rw [toList_decimal3, List.mem_append] at h
  rcases h with h | h
  · rw [List.eq_of_mem_replicate h]
    rfl
  · exact Nat.isDigit_of_mem_toDigits (by decide) (by decide) h

/-- At least three decimal digits stand for the number that they were written
for. -/
theorem ofDecimal?_decimal3 (n : Nat) : ofDecimal? (decimal3 n).toList = some n := by
  have hdigits : (decimal3 n).toList.all Char.isDigit = true :=
    List.all_eq_true.2 fun c hc => isDigit_of_mem_decimal3 hc
  have hne : (decimal3 n).toList ≠ [] := by
    rw [toList_decimal3]
    exact List.append_ne_nil_of_right_ne_nil _ Nat.toDigits_ne_nil
  have hvalue : Nat.ofDigitChars 10 (decimal3 n).toList 0 = n := by
    rw [toList_decimal3, ofDigitChars_replicate_append, Nat.ofDigitChars_ten_toDigits]
  rw [ofDecimal?, if_pos ⟨hne, hdigits⟩, hvalue]

end LS8.Numeral
