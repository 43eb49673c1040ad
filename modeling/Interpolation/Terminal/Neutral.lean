import Interpolation.Text.Numeral

/-!
# Text that cannot steer a terminal

The characters by which a text could open a control sequence, ring the bell or wipe what stands
before it are written as escapes: a few of ASCII with two hexadecimal digits, and those of the upper
range of controls as `\u{…}`. All else stands for itself.
-/

namespace Interpolation.Terminal

def neutralize (c : Char) : Text :=
  if c = '\x1b' then "\\x1b".toList
  else if c = '\x07' then "\\x07".toList
  else if c = '\x08' then "\\x08".toList
  else if c = '\x0c' then "\\x0c".toList
  else if c = '\x7f' then "\\x7f".toList
  else if '\x80' ≤ c ∧ c ≤ '\x9f' then
    ['\\', 'u', '{'] ++ Numeral.hexadecimal c.toNat ++ ['}']
  else [c]

def neutral (t : Text) : Text :=
  t.flatMap neutralize

end Interpolation.Terminal
