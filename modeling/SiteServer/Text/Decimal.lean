import SiteServer.Text.Basic

/-!
# Decimal numbers

Writing a natural number in decimal, with leading zeros where a width is asked for, and reading one.
-/

namespace SiteServer.Decimal

/-- The decimal digits of a number. -/
def write (n : Nat) : Text :=
  Nat.toDigits 10 n

/-- The digits of a number, with zeros in front up to `width` characters. -/
def writePadded (width n : Nat) : Text :=
  (write n).leftpad width '0'

/-- The value of a decimal digit. -/
def digit (c : Char) : Nat :=
  c.toNat - '0'.toNat

/-- The value of a text of decimal digits. -/
def value (digits : Text) : Nat :=
  digits.foldl (fun n c => 10 * n + digit c) 0

/-- The number that a text of at least one decimal digit stands for. -/
def read? (text : Text) : Option Nat :=
  if text ≠ [] ∧ text.all Char.isDigit then some (value text) else none

end SiteServer.Decimal
