import InstructionSet.Text.Invisible

/-!
# Quoted text in messages

A text from a document is shown between double quotes, with everything that would not show
on a page written as an escape.
-/

namespace InstructionSet.Text

/-- A code point in lower-case hexadecimal between braces. -/
def codePoint (c : Char) : List Char :=
  ['\\', 'u', '{'] ++ Nat.toDigits 16 c.toNat ++ ['}']

/-- How `c` is written between double quotes. A single quote stands for itself. -/
def quotedChar (c : Char) : List Char :=
  if c = '\x00' then ['\\', '0']
  else if c = '\t' then ['\\', 't']
  else if c = '\r' then ['\\', 'r']
  else if c = '\n' then ['\\', 'n']
  else if c = '"' then ['\\', '"']
  else if c = '\\' then ['\\', '\\']
  else if isInvisible c then codePoint c
  else [c]

def quoted (text : String) : String :=
  String.ofList ('"' :: text.toList.flatMap quotedChar ++ ['"'])

end InstructionSet.Text
