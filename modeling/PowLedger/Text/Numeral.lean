import PowLedger.Text.Reader

/-!
# Numerals

A numeral is a number in decimal digits, with a plus sign in front or without, to be kept in a word
of limited size. It is read from the left, and the first digit that is none or makes the number too
large decides why it is refused.
-/

namespace PowLedger

/-- Why a text is not a number of a given width. -/
inductive NumeralFault where
  | empty
  | badDigit
  | tooLarge
  deriving DecidableEq

/-- A numeral fault in words. -/
def NumeralFault.message : NumeralFault → String
  | .empty => "cannot parse integer from empty string"
  | .badDigit => "invalid digit found in string"
  | .tooLarge => "number too large to fit in target type"

namespace Numeral

/-- The number that digits spell, read on from `acc`; it must stay below `bound`. -/
def readDigits (bound acc : Nat) : List Char → Except NumeralFault Nat
  | [] => .ok acc
  | c :: cs =>
    if isDecimal c then
      let n := 10 * acc + (c.toNat - 48)
      if n < bound then readDigits bound n cs else .error .tooLarge
    else .error .badDigit

/-- The number below `bound` that a text is. -/
def read (bound : Nat) (text : String) : Except NumeralFault Nat :=
  match text.toList with
  | [] => .error .empty
  | '+' :: c :: cs => readDigits bound 0 (c :: cs)
  | cs => readDigits bound 0 cs

end Numeral

end PowLedger
