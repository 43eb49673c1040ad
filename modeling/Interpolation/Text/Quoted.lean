import Interpolation.Text.Numeral
import Interpolation.Text.Unprintable

/-!
# Quoted text

A text between double quotes on one line. Quotes, backslashes and a few controls have short escapes,
every other unprintable character is written as `\u{…}` with its code point in hexadecimal, and all
else stands for itself.
-/

namespace Interpolation.Quoted

def escape (c : Char) : Text :=
  if c = '\u0000' then ['\\', '0']
  else if c = '\t' then ['\\', 't']
  else if c = '\n' then ['\\', 'n']
  else if c = '\r' then ['\\', 'r']
  else if c = '"' then ['\\', '"']
  else if c = '\\' then ['\\', '\\']
  else if Unprintable.contains c then
    ['\\', 'u', '{'] ++ Numeral.hexadecimal c.toNat ++ ['}']
  else [c]

def write (t : Text) : Text :=
  '"' :: t.flatMap escape ++ ['"']

end Interpolation.Quoted
