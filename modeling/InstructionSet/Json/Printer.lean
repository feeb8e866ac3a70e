import InstructionSet.Json.Number

/-!
# Writing JSON text

The compact form has no blanks. The pretty form has one item or member on a line, indented by
two spaces for each container around it.
-/

namespace InstructionSet.Json

/-- Lower-case hexadecimal digit of a number below sixteen. -/
def hexDigit (n : Nat) : Char := (Nat.toDigits 16 n).headD '0'

/-- How `c` is written between quotes: quotes, backslashes and controls as escapes. -/
def escapedChar (c : Char) : List Char :=
  if c = '"' then ['\\', '"']
  else if c = '\\' then ['\\', '\\']
  else if c = '\x08' then ['\\', 'b']
  else if c = '\x0c' then ['\\', 'f']
  else if c = '\n' then ['\\', 'n']
  else if c = '\r' then ['\\', 'r']
  else if c = '\t' then ['\\', 't']
  else if c.toNat < 0x20 then
    ['\\', 'u', '0', '0', hexDigit (c.toNat / 16), hexDigit (c.toNat % 16)]
  else [c]

def escaped (text : String) : List Char :=
  '"' :: text.toList.flatMap escapedChar ++ ['"']

/-- Values without parts have the same text in both forms. -/
def Value.atomChars : Value → List Char
  | .null => "null".toList
  | .bool true => "true".toList
  | .bool false => "false".toList
  | .number n => n.chars
  | .text s => escaped s
  | .array _ => ['[', ']']
  | .object _ => ['{', '}']

mutual

def Value.compactChars : Value → List Char
  | .array items => '[' :: compactItems items ++ [']']
  | .object members => '{' :: compactMembers members ++ ['}']
  | atom => atom.atomChars

def compactItems : List Value → List Char
  | [] => []
  | [item] => item.compactChars
  | item :: next :: rest => item.compactChars ++ ',' :: compactItems (next :: rest)

def compactMembers : List (String × Value) → List Char
  | [] => []
  | [(key, value)] => escaped key ++ ':' :: value.compactChars
  | (key, value) :: next :: rest =>
      escaped key ++ ':' :: value.compactChars ++ ',' :: compactMembers (next :: rest)

end

def Value.compact (v : Value) : String := String.ofList v.compactChars

/-- A new line inside `depth` containers. -/
def newLine (depth : Nat) : List Char := '\n' :: List.replicate (2 * depth) ' '

mutual

def Value.prettyChars (depth : Nat) : Value → List Char
  | .array (item :: items) =>
      '[' :: prettyItems (depth + 1) (item :: items) ++ newLine depth ++ [']']
  | .object (member :: members) =>
      '{' :: prettyMembers (depth + 1) (member :: members) ++ newLine depth ++ ['}']
  | atom => atom.atomChars

def prettyItems (depth : Nat) : List Value → List Char
  | [] => []
  | [item] => newLine depth ++ item.prettyChars depth
  | item :: next :: rest =>
      newLine depth ++ item.prettyChars depth ++ ',' :: prettyItems depth (next :: rest)

def prettyMembers (depth : Nat) : List (String × Value) → List Char
  | [] => []
  | [(key, value)] => newLine depth ++ escaped key ++ ':' :: ' ' :: value.prettyChars depth
  | (key, value) :: next :: rest =>
      newLine depth ++ escaped key ++ ':' :: ' ' :: value.prettyChars depth ++
        ',' :: prettyMembers depth (next :: rest)

end

def Value.pretty (v : Value) : String := String.ofList (v.prettyChars 0)

end InstructionSet.Json
