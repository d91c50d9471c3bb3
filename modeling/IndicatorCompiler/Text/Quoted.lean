/-!
# String literals of the script

A string is written between double quotes.  The quote and the backslash are escaped, line feed,
carriage return and tab have short escapes, and the other controls below U+0020 are written with
four hexadecimal digits; everything else stands for itself.
-/

namespace IndicatorCompiler.Text

/-- One hexadecimal digit. -/
def hexDigit (n : Nat) : Char := Nat.digitChar n

/-- The written form of one character inside a literal. -/
def quotedChar (c : Char) : List Char :=
  if c = '"' then ['\\', '"']
  else if c = '\\' then ['\\', '\\']
  else if c = '\n' then ['\\', 'n']
  else if c = '\r' then ['\\', 'r']
  else if c = '\t' then ['\\', 't']
  else if c.toNat < 0x20 then
    ['\\', 'u', '0', '0', hexDigit (c.toNat / 16), hexDigit (c.toNat % 16)]
  else [c]

/-- The characters of a literal between its quotes. -/
def quotedChars (text : List Char) : List Char := text.flatMap quotedChar

/-- The literal of a string. -/
def quote (s : String) : String := String.ofList ('"' :: (quotedChars s.toList ++ ['"']))

end IndicatorCompiler.Text
