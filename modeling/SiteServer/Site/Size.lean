import SiteServer.Text.Decimal
import SiteServer.Text.Rounding

/-!
# Displayed sizes

A listing shows a size in bytes below one kibibyte, and above that in kibibytes or mebibytes with
one decimal.  The quotient is that of the double nearest to the size, its decimal the nearest one,
and both roundings send a tie to the even side.
-/

namespace SiteServer.Size

/-- Bytes in a kibibyte. -/
def kibi : Nat := 1024

/-- Bytes in a mebibyte. -/
def mebi : Nat := 1024 * 1024

/-- The tenths of a unit that a size comes to. -/
def tenths (size unit : Nat) : Nat :=
  Rounding.nearestEven (10 * Rounding.toDouble size) unit

/-- A number of tenths with one decimal. -/
def writeTenths (n : Nat) : Text :=
  Decimal.write (n / 10) ++ '.' :: Decimal.write (n % 10)

/-- A size as a listing shows it. -/
def text (size : Nat) : Text :=
  if size < kibi then Decimal.write size ++ ['b']
  else if size < mebi then writeTenths (tenths size kibi) ++ ['k']
  else writeTenths (tenths size mebi) ++ ['m']

end SiteServer.Size
