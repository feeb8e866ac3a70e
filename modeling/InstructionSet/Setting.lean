/-!
# Settings of a partial record

A partial record may leave a key out, clear it, or give it a value. Laid over another record, it
changes what it mentions, clearings included, and keeps the rest.
-/

namespace InstructionSet

inductive Setting (α : Type) where
  | absent
  | cleared
  | given (value : α)
  deriving Repr, DecidableEq, Inhabited

namespace Setting

variable {α : Type}

def value? : Setting α → Option α
  | .given value => some value
  | _ => none

def isPresent : Setting α → Bool
  | .absent => false
  | _ => true

/-- `entry` laid over `base`. -/
def onto (entry base : Setting α) : Setting α :=
  match entry with
  | .absent => base
  | present => present

/-- The value, or `default` where none is given. -/
def getD (setting : Setting α) (default : α) : α := setting.value?.getD default

@[simp] theorem absent_onto (base : Setting α) : absent.onto base = base := rfl

@[simp] theorem cleared_onto (base : Setting α) : cleared.onto base = cleared := rfl

@[simp] theorem given_onto (value : α) (base : Setting α) :
    (given value).onto base = given value := rfl

@[simp] theorem onto_absent (entry : Setting α) : entry.onto absent = entry := by
  cases entry <;> rfl

theorem onto_assoc (a b c : Setting α) : (a.onto b).onto c = a.onto (b.onto c) := by
  cases a <;> rfl

end Setting

end InstructionSet
