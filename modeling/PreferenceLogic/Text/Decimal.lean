import PreferenceLogic.Text.Blank

/-!
# Decimal numerals

Definitions:
* `Text.decimal`: the decimal digits of a number.
* `Text.readDecimal?`: reads a numeral, an optional plus sign before one or more digits.

Results:
* `Text.readDecimal?_decimal`: a written number reads back.
-/

namespace PreferenceLogic.Text

/-- The decimal digits of a number, without leading zeros. -/
def decimal (n : Nat) : Text := Nat.toDigits 10 n

/-- The number that a text of one or more decimal digits denotes. Leading zeros are allowed. -/
def readDigits? (t : Text) : Option Nat :=
  if t ≠ [] ∧ t.all Char.isDigit then some (Nat.ofDigitChars 10 t 0) else none

/-- The number that a numeral denotes: an optional plus sign, then one or more digits. -/
def readDecimal? : Text → Option Nat
  | '+' :: t => readDigits? t
  | t => readDigits? t

theorem isDigit_of_mem_decimal {n : Nat} {c : Char} (h : c ∈ decimal n) : c.isDigit :=
  Nat.isDigit_of_mem_toDigits (by decide) (by decide) h

theorem decimal_ne_nil (n : Nat) : decimal n ≠ [] := Nat.toDigits_ne_nil

theorem readDigits?_decimal (n : Nat) : readDigits? (decimal n) = some n := by
  have hall : (decimal n).all Char.isDigit := by
    simpa using fun c hc => isDigit_of_mem_decimal hc
  simp [readDigits?, decimal_ne_nil, hall]
  simp [decimal, Nat.ofDigitChars_toDigits]

theorem readDecimal?_decimal (n : Nat) : readDecimal? (decimal n) = some n := by
  unfold readDecimal?
  split
  · rename_i t ht
    have : ('+' : Char).isDigit := isDigit_of_mem_decimal (n := n) (by simp [ht])
    exact absurd this (by decide)
  · exact readDigits?_decimal n

end PreferenceLogic.Text
