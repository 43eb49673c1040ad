import Interpolation.Text.Utf8

/-!
# Numerals

Decimal numerals of natural numbers and integers, and hexadecimal ones in lower case, without
leading zeros.
-/

namespace Interpolation.Numeral

def decimal (n : Nat) : Text :=
  Nat.toDigits 10 n

def signed : Int → Text
  | .ofNat n => decimal n
  | .negSucc n => '-' :: decimal (n + 1)

def hexadecimal (n : Nat) : Text :=
  Nat.toDigits 16 n

end Interpolation.Numeral
