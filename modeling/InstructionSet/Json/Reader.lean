import InstructionSet.Json.Number

/-!
# Reading JSON text

One pass over the characters. A scanner gathers characters to tokens, and each token moves an
outline of the value that is being read: the containers still open and what may come next.
-/

namespace InstructionSet.Json

inductive Token where
  | openArray
  | closeArray
  | openObject
  | closeObject
  | comma
  | colon
  | text (value : String)
  | atom (value : Value)

/-- What the scanner has read of the token it is in. Gathered characters stand last first. -/
inductive Scanner where
  | idle
  | word (seen : List Char)
  | text (seen : List Char)
  | escape (seen : List Char)
  /-- In the digits of a sixteen-bit unit; `high` is the first half of a surrogate pair. -/
  | unit (seen : List Char) (high : Option Nat) (digits : List Nat)
  | pair (seen : List Char) (high : Nat)
  | pairEscape (seen : List Char) (high : Nat)

namespace Scanner

def isBlank (c : Char) : Bool := c == ' ' || c == '\t' || c == '\n' || c == '\r'

/-- Numbers and the words `true`, `false` and `null` are made of these. -/
def isWordChar (c : Char) : Bool := c.isAlphanum || c == '+' || c == '-' || c == '.'

def punctuation? : Char → Option Token
  | '[' => some .openArray
  | ']' => some .closeArray
  | '{' => some .openObject
  | '}' => some .closeObject
  | ',' => some .comma
  | ':' => some .colon
  | _ => none

def atom? (word : List Char) : Option Value :=
  if word = "null".toList then some .null
  else if word = "true".toList then some (.bool true)
  else if word = "false".toList then some (.bool false)
  else (Number.ofChars? word).map .number

def unescape? : Char → Option Char
  | '"' => some '"'
  | '\\' => some '\\'
  | '/' => some '/'
  | 'b' => some '\x08'
  | 'f' => some '\x0c'
  | 'n' => some '\n'
  | 'r' => some '\r'
  | 't' => some '\t'
  | _ => none

def hexDigit? (c : Char) : Option Nat :=
  if c.isDigit then some (c.toNat - '0'.toNat)
  else if 'a' ≤ c ∧ c ≤ 'f' then some (c.toNat - 'a'.toNat + 10)
  else if 'A' ≤ c ∧ c ≤ 'F' then some (c.toNat - 'A'.toNat + 10)
  else none

def isHigh (unit : Nat) : Bool := 0xd800 ≤ unit && unit < 0xdc00

def isLow (unit : Nat) : Bool := 0xdc00 ≤ unit && unit < 0xe000

/-- The scanner after a whole unit. Halves of a pair are taken in order or not at all. -/
def afterUnit? (seen : List Char) (high : Option Nat) (unit : Nat) : Option Scanner :=
  match high with
  | none =>
      if isHigh unit then some (.pair seen unit)
      else if isLow unit then none
      else some (.text (Char.ofNat unit :: seen))
  | some high =>
      if isLow unit then
        some (.text (Char.ofNat (0x10000 + (high - 0xd800) * 0x400 + (unit - 0xdc00)) :: seen))
      else none

/-- The token that ends where no further character belongs to it. -/
def flush? : Scanner → Option (List Token)
  | .idle => some []
  | .word seen => (atom? seen.reverse).map fun value => [.atom value]
  | _ => none

/-- A character that belongs to no word. -/
def delimiter? (c : Char) : Option (Scanner × List Token) :=
  if isBlank c then some (.idle, [])
  else if c = '"' then some (.text [], [])
  else (punctuation? c).map fun token => (.idle, [token])

/-- The scanner after `c`, and the tokens that `c` completes. -/
def step? (c : Char) : Scanner → Option (Scanner × List Token)
  | .idle => if isWordChar c then some (.word [c], []) else delimiter? c
  | .word seen =>
      if isWordChar c then some (.word (c :: seen), [])
      else do
        let tokens ← flush? (.word seen)
        let (scanner, more) ← delimiter? c
        return (scanner, tokens ++ more)
  | .text seen =>
      if c = '"' then some (.idle, [.text (String.ofList seen.reverse)])
      else if c = '\\' then some (.escape seen, [])
      else if c.toNat < 0x20 then none
      else some (.text (c :: seen), [])
  | .escape seen =>
      if c = 'u' then some (.unit seen none [], [])
      else (unescape? c).map fun d => (.text (d :: seen), [])
  | .unit seen high digits => do
      let digit ← hexDigit? c
      match digits with
      | [x, y, z] =>
          (afterUnit? seen high (((x * 16 + y) * 16 + z) * 16 + digit)).map fun s => (s, [])
      | digits => some (.unit seen high (digits ++ [digit]), [])
  | .pair seen high => if c = '\\' then some (.pairEscape seen high, []) else none
  | .pairEscape seen high => if c = 'u' then some (.unit seen (some high) [], []) else none

end Scanner

/-- A container that is still open. -/
inductive Frame where
  /-- The items so far, last first. -/
  | array (items : List Value)
  /-- The members so far, and the key of the member whose value is to come. -/
  | object (members : List (String × Value)) (name : String)

/-- What may come next, and the containers around it, innermost first. -/
inductive Outline where
  /-- A value, or the end of the array just opened if `closes`. -/
  | value (around : List Frame) (closes : Bool)
  /-- A key, or the end of the object just opened if `closes`. -/
  | key (members : List (String × Value)) (around : List Frame) (closes : Bool)
  /-- The colon after a key. -/
  | colon (name : String) (members : List (String × Value)) (around : List Frame)
  /-- What goes on after a whole value. -/
  | after (value : Value) (around : List Frame)

/-- The most containers that may be open at once. -/
def depthLimit : Nat := 127

/-- The outline after one more token. A repeated key keeps its place and takes the later value. -/
def Outline.feed? : Outline → Token → Option Outline
  | .value around _, .text s => some (.after (.text s) around)
  | .value around _, .atom v => some (.after v around)
  | .value around _, .openArray =>
      if around.length < depthLimit then some (.value (.array [] :: around) true) else none
  | .value around _, .openObject =>
      if around.length < depthLimit then some (.key [] around true) else none
  | .value (.array items :: around) true, .closeArray =>
      some (.after (.array items.reverse) around)
  | .key members around _, .text s => some (.colon s members around)
  | .key members around true, .closeObject => some (.after (.object members) around)
  | .colon name members around, .colon => some (.value (.object members name :: around) false)
  | .after v (.array items :: around), .comma =>
      some (.value (.array (v :: items) :: around) false)
  | .after v (.array items :: around), .closeArray =>
      some (.after (.array (v :: items).reverse) around)
  | .after v (.object members name :: around), .comma =>
      some (.key (Entries.put (name, v) members) around false)
  | .after v (.object members name :: around), .closeObject =>
      some (.after (.object (Entries.put (name, v) members)) around)
  | _, _ => none

structure Reader where
  scanner : Scanner
  outline : Outline

namespace Reader

def start : Reader := ⟨.idle, .value [] false⟩

def read? (r : Reader) (c : Char) : Option Reader := do
  let (scanner, tokens) ← r.scanner.step? c
  let outline ← tokens.foldlM Outline.feed? r.outline
  return ⟨scanner, outline⟩

/-- The value read, if the text ends here. -/
def finish? (r : Reader) : Option Value := do
  let tokens ← r.scanner.flush?
  match ← tokens.foldlM Outline.feed? r.outline with
  | .after v [] => some v
  | _ => none

end Reader

/-- The value that `text` denotes; `none` if it is not the text of one value. -/
def parse? (text : String) : Option Value := do
  let r ← text.toList.foldlM Reader.read? Reader.start
  r.finish?

end InstructionSet.Json
