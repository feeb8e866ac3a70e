/-!
# Replacement of a token in a text

Occurrences are found from left to right and do not overlap. What is written in their place
is not read again, so a replacement never meets itself.
-/

namespace InstructionSet.Text

/-- The work of `replace` on characters; `skip` counts the characters of an occurrence that are
still to be passed over. -/
def replaceFrom (token value : List Char) : Nat → List Char → List Char
  | _, [] => []
  | skip + 1, _ :: rest => replaceFrom token value skip rest
  | 0, c :: rest =>
      if token.isPrefixOf (c :: rest) then
        value ++ replaceFrom token value (token.length - 1) rest
      else
        c :: replaceFrom token value 0 rest

/-- `text` with every occurrence of the nonempty `token` given up for `value`. -/
def replace (token value text : String) : String :=
  String.ofList (replaceFrom token.toList value.toList 0 text.toList)

@[simp] theorem toList_replace (token value text : String) :
    (replace token value text).toList =
      replaceFrom token.toList value.toList 0 text.toList := by
  simp [replace]

@[simp] theorem replaceFrom_nil (token value : List Char) (skip : Nat) :
    replaceFrom token value skip [] = [] := by
  cases skip <;> rfl

end InstructionSet.Text
