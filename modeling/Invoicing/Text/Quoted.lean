import Invoicing.Text.Printable

/-!
# Quoted text

A text in quotes that shows every character: single quotes, or double ones where that saves
escaping, a backslash before quotes and backslashes, and numbers for what cannot be printed.
-/

namespace Invoicing.Text

/-- The last `width` hexadecimal digits of a number, in small letters. -/
def hexDigits : Nat → Nat → List Char
  | 0, _ => []
  | width + 1, n => hexDigits width (n / 16) ++ [Nat.digitChar (n % 16)]

/-- A number in hexadecimal, in small letters, filled up with zeros to a width. -/
def hexPadded (width n : Nat) : String := String.ofList (hexDigits width n)

/-- How one character is written between quotes `quote`. -/
def quotedChar (quote c : Char) : String :=
  if c = '\\' then "\\\\"
  else if c = quote then String.ofList ['\\', quote]
  else if c = '\t' then "\\t"
  else if c = '\n' then "\\n"
  else if c = '\r' then "\\r"
  else if isPrintable c then String.singleton c
  else if c.toNat ≤ 0xff then "\\x" ++ hexPadded 2 c.toNat
  else if c.toNat ≤ 0xffff then "\\u" ++ hexPadded 4 c.toNat
  else "\\U" ++ hexPadded 8 c.toNat

/-- Double quotes are taken for a text with single but no double quotes inside. -/
def quoteFor (s : String) : Char :=
  if s.toList.contains '\'' && !s.toList.contains '"' then '"' else '\''

def quoted (s : String) : String :=
  let quote := quoteFor s
  String.singleton quote ++ String.join (s.toList.map (quotedChar quote)) ++ String.singleton quote

end Invoicing.Text
