import FeaturePress.Text.Unprintable

/-! Quoted texts: a text between double quotes in which every character can be told from its
neighbours. Quotes and backslashes are escaped, four controls have names, and other characters
without a glyph of their own are shown by code.
-/

namespace FeaturePress.Text.Quoted

/-- The quotation mark around and inside quoted texts. -/
def mark : Char := '\x22'

/-- The hexadecimal digits of a code, in small letters and without leading zeros. -/
def hexDigits (n : Nat) : Text :=
  Nat.toDigits 16 n

/-- How one character is written between the marks. -/
def escape (c : Char) : Text :=
  if c = '\x00' then ['\\', '0']
  else if c = '\t' then ['\\', 't']
  else if c = '\r' then ['\\', 'r']
  else if c = '\n' then ['\\', 'n']
  else if c = mark then ['\\', mark]
  else if c = '\\' then ['\\', '\\']
  else if isUnprintable c then "\\u\x7b".toList ++ hexDigits c.toNat ++ ['\x7d']
  else [c]

/-- The quoted form of a text. -/
def encode (text : Text) : Text :=
  mark :: text.flatMap escape ++ [mark]

end FeaturePress.Text.Quoted
