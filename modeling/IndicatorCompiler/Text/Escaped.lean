import IndicatorCompiler.Text.Unicode

/-!
# Escaped text

The unambiguous written form of a character or a string: NUL, tab, line feed, carriage return, the
backslash and the surrounding quote have short escapes; characters that are drawn on their
neighbour, that can be shown as nothing or that have no printed form are written by code point;
everything else stands for itself.
-/

namespace IndicatorCompiler.Text

/-- Lower-case hexadecimal digits without leading zeros. -/
def hexDigits (n : Nat) : String := String.ofList (Nat.toDigits 16 n)

/-- A reader could not tell the character from its printed form. -/
def needsCode (c : Char) : Bool :=
  Unicode.isOverlaid c || Unicode.isIgnorable c || !Unicode.isPrintable c

/-- The escaped form of `c` between `quote` marks. -/
def escapedChar (quote : Char) (c : Char) : String :=
  if c = '\x00' then "\\0"
  else if c = '\t' then "\\t"
  else if c = '\r' then "\\r"
  else if c = '\n' then "\\n"
  else if c = '\\' then "\\\\"
  else if c = quote then String.ofList ['\\', c]
  else if needsCode c then
    "\\u\x7b" ++ hexDigits c.toNat ++ "\x7d"
  else c.toString

/-- A character in single quotes. -/
def showChar (c : Char) : String := "'" ++ escapedChar '\'' c ++ "'"

/-- A string in double quotes. -/
def showString (s : String) : String :=
  "\"" ++ s.toList.foldl (fun text c => text ++ escapedChar '"' c) "" ++ "\""

end IndicatorCompiler.Text
