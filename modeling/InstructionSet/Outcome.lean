import InstructionSet.Error

/-!
# Outcomes and warnings

An outcome is a result or an error, together with the warnings given on the way. An error ends
what follows but takes no warning back.
-/

namespace InstructionSet

inductive Warning where
  | opcodeRedefined (opcode document : String)
  | classUndefined (opcode className : String)
  | nestedMarkers (opcode : String) (variation : Nat)
  | variantsUnused (opcode : String)
  deriving DecidableEq, Repr

namespace Warning

def message : Warning → String
  | .opcodeRedefined _ _ => "opcode redefined; later definition wins"
  | .classUndefined _ _ => "opcode references an undefined class"
  | .nestedMarkers _ _ => "variant markers inside a variant are ignored"
  | .variantsUnused _ => "variants listed on a non-variant opcode are ignored"

/-- What the warning is about, in named parts. -/
def details : Warning → List (String × String)
  | .opcodeRedefined opcode document => [("opcode", opcode), ("document", document)]
  | .classUndefined opcode className => [("opcode", opcode), ("class", className)]
  | .nestedMarkers opcode variation =>
      [("opcode", opcode), ("variation", toString variation)]
  | .variantsUnused opcode => [("opcode", opcode)]

/-- The warning on one line. -/
def text (w : Warning) : String :=
  String.join (w.message :: w.details.map fun (name, value) => s!" {name}={value}")

end Warning

structure Outcome (α : Type) where
  warnings : List Warning
  result : Except Error α

namespace Outcome

variable {α β : Type}

def bind (x : Outcome α) (f : α → Outcome β) : Outcome β :=
  match x.result with
  | .ok a =>
      let y := f a
      ⟨x.warnings ++ y.warnings, y.result⟩
  | .error e => ⟨x.warnings, .error e⟩

instance : Monad Outcome where
  pure a := ⟨[], .ok a⟩
  bind := bind

def ofExcept (result : Except Error α) : Outcome α := ⟨[], result⟩

instance : MonadLift (Except Error) Outcome := ⟨ofExcept⟩

def warn (w : Warning) : Outcome Unit := ⟨[w], .ok ()⟩

/-- Gives the warning if the condition holds. -/
def warnIf (condition : Bool) (w : Warning) : Outcome Unit :=
  if condition then warn w else pure ()

@[simp] theorem pure_warnings (a : α) : (pure a : Outcome α).warnings = [] := rfl

@[simp] theorem pure_result (a : α) : (pure a : Outcome α).result = .ok a := rfl

@[simp] theorem ofExcept_warnings (x : Except Error α) : (ofExcept x).warnings = [] := rfl

@[simp] theorem ofExcept_result (x : Except Error α) : (ofExcept x).result = x := rfl

@[simp] theorem liftM_eq (x : Except Error α) : (liftM x : Outcome α) = ofExcept x := rfl

@[simp] theorem warnIf_warnings (condition : Bool) (w : Warning) :
    (warnIf condition w).warnings = if condition then [w] else [] := by
  cases condition <;> rfl

@[simp] theorem warnIf_result (condition : Bool) (w : Warning) :
    (warnIf condition w).result = .ok () := by
  cases condition <;> rfl

theorem bind_def (x : Outcome α) (f : α → Outcome β) : x >>= f = x.bind f := rfl

protected theorem id_map (x : Outcome α) : id <$> x = x := by
  rcases x with ⟨warnings, _ | _⟩ <;> simp [Functor.map, bind]

protected theorem pure_bind (a : α) (f : α → Outcome β) : pure a >>= f = f a := by
  simp [bind_def, bind]

protected theorem bind_assoc {γ : Type} (x : Outcome α) (f : α → Outcome β) (g : β → Outcome γ) :
    x >>= f >>= g = x >>= fun a => f a >>= g := by
  rcases x with ⟨warnings, _ | a⟩
  · rfl
  · cases h : (f a).result <;> simp [bind_def, bind, h]

instance : LawfulMonad Outcome :=
  LawfulMonad.mk' Outcome Outcome.id_map Outcome.pure_bind Outcome.bind_assoc

@[simp] theorem ofExcept_ok_bind (a : α) (f : α → Outcome β) : ofExcept (.ok a) >>= f = f a :=
  Outcome.pure_bind a f

/-- Warnings have no influence on a result. -/
@[simp] theorem bind_result (x : Outcome α) (f : α → Outcome β) :
    (x >>= f).result = x.result >>= fun a => (f a).result := by
  rcases x with ⟨warnings, _ | _⟩ <;> rfl

theorem bind_of_ok {x : Outcome α} {a : α} (h : x.result = .ok a) (f : α → Outcome β) :
    x >>= f = ⟨x.warnings ++ (f a).warnings, (f a).result⟩ := by
  rw [bind_def, bind, h]

end Outcome

end InstructionSet
