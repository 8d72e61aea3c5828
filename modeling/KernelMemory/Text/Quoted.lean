import KernelMemory.Text.CodePoints

/-!
# Quoted text

Text between double quotes, written so that every character can be told on a
screen: quotes and backslashes are escaped, the common control characters have
short names, and whatever shows no mark of its own, or would combine with the
quote before it, is written by its code point.
-/

namespace KernelMemory.Text

/-- A character by its code point in lower-case hexadecimal. -/
def codePointEscape (c : Char) : List Char :=
  ['\\', 'u', '{'] ++ Nat.toDigits 16 c.toNat ++ ['}']

/-- How a character is written between double quotes. -/
def quotedChar (c : Char) : List Char :=
  if c = '\x00' then ['\\', '0']
  else if c = '\t' then ['\\', 't']
  else if c = '\r' then ['\\', 'r']
  else if c = '\n' then ['\\', 'n']
  else if c = '"' then ['\\', '"']
  else if c = '\\' then ['\\', '\\']
  else if isExtender c then codePointEscape c
  else if isVisible c then [c]
  else codePointEscape c

/-- The quoted form of `text`. -/
def quoted (text : String) : String :=
  String.ofList (['"'] ++ text.toList.flatMap quotedChar ++ ['"'])

end KernelMemory.Text
