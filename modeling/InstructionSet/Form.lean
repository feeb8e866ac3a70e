import InstructionSet.Comparison
import InstructionSet.Opcode
import InstructionSet.Table
import InstructionSet.Text.Replace

/-!
# Expansion of forms

A template becomes one form for each comparison and type, for each type, or a single form.
Registers are rendered first. The forms come one at a time, and the sequence that is left can be
kept and gone on with any number of times.
-/

namespace InstructionSet

namespace Template

def registerToken : String := "\x7br\x7d"

def floatRegisterToken : String := "\x7bf\x7d"

def comparisonToken : String := "\x7bc\x7d"

def typeToken : String := "\x7bt\x7d"

def intFitToken : String := "\x7bfi\x7d"

def floatFitToken : String := "\x7bff\x7d"

/-- Registers are rendered without a number. -/
def renderRegisters (template : String) : String :=
  Text.replace floatRegisterToken "f<N>" (Text.replace registerToken "r<N>" template)

/-- A comparison's form may bring in registers of its own. -/
def renderComparison (template form type : String) : String :=
  renderRegisters (Text.replace typeToken type (Text.replace comparisonToken form template))

/-- Stands for a fit size that is not declared. -/
def noFitSize : String := "??"

def intFit (fitSize : Option UInt32) : String :=
  (fitSize.map fun size => toString size.toNat).getD noFitSize

def floatFit (fitSize : Option UInt32) : String :=
  (fitSize.map fun size => toString size.toNat ++ ".0").getD noFitSize

def renderType (template : String) (fitSize : Option UInt32) (type : String) : String :=
  Text.replace floatFitToken (floatFit fitSize)
    (Text.replace intFitToken (intFit fitSize) (Text.replace typeToken type template))

end Template

/-- What the forms of an opcode or variant depend on. -/
structure Mnemonic where
  form : String
  comparison : Bool
  fitSize : Option UInt32
  types : List String
  deriving Repr, DecidableEq

def Opcode.mnemonic (o : Opcode) : Mnemonic where
  form := o.traits.form
  comparison := o.traits.comparison
  fitSize := o.traits.fitSize
  types := o.shape.types

def Variant.mnemonic (v : Variant) : Mnemonic where
  form := v.traits.form
  comparison := v.traits.comparison
  fitSize := v.traits.fitSize
  types := v.shape.types

/-- A sequence of forms, which is gone through one form at a time. -/
inductive Forms where
  /-- `current` is the comparison that is gone through, with those of its types still to come. -/
  | byComparison (template : String) (current : Option (Comparison × List String))
      (rest : List Comparison)
  | byType (template : String) (fitSize : Option UInt32) (types : List String)
  | single (template : String)
  | finished
  deriving Repr, DecidableEq

namespace Forms

/-- Passes over comparisons without types. -/
def nextByComparison (template : String) :
    Option (Comparison × List String) → List Comparison → Option String × Forms
  | some (c, type :: types), rest =>
      (some (Template.renderComparison template c.form type),
        .byComparison template (some (c, types)) rest)
  | current, [] => (none, .byComparison template current [])
  | _, c :: rest => nextByComparison template (some (c, c.types)) rest

/-- The next form, if there is one, and the sequence after it. -/
def next : Forms → Option String × Forms
  | .byComparison template current rest => nextByComparison template current rest
  | .byType template fitSize [] => (none, .byType template fitSize [])
  | .byType template fitSize (type :: types) =>
      (some (Template.renderType template fitSize type), .byType template fitSize types)
  | .single template => (some template, .finished)
  | .finished => (none, .finished)

/-- The forms of a comparison for some of its types. -/
def ofComparison (template : String) (current : Comparison × List String) : List String :=
  current.2.map (Template.renderComparison template current.1.form)

/-- All forms still to come. -/
def toList : Forms → List String
  | .byComparison template current rest =>
      (current.toList ++ rest.map fun c => (c, c.types)).flatMap (ofComparison template)
  | .byType template fitSize types => types.map (Template.renderType template fitSize)
  | .single template => [template]
  | .finished => []

/-- One step over comparisons, which may pass over any number of them. -/
theorem nextByComparison_spec (template : String) (current : Option (Comparison × List String))
    (rest : List Comparison) :
    let forms := (byComparison template current rest).toList
    let step := nextByComparison template current rest
    step.1 = forms.head? ∧ step.2.toList = forms.tail := by
  induction rest generalizing current with
  | nil =>
      rcases current with _ | ⟨c, _ | ⟨type, types⟩⟩ <;>
        simp [nextByComparison, toList, ofComparison]
  | cons c rest ih =>
      rcases current with _ | ⟨d, _ | ⟨type, types⟩⟩
      · simpa [nextByComparison, toList] using ih (some (c, c.types))
      · simpa [nextByComparison, toList, ofComparison] using ih (some (c, c.types))
      · simp [nextByComparison, toList, ofComparison]

theorem next_fst (f : Forms) : f.next.1 = f.toList.head? := by
  cases f with
  | byComparison template current rest => exact (nextByComparison_spec template current rest).1
  | byType template fitSize types => cases types <;> simp [next, toList]
  | single template => simp [next, toList]
  | finished => simp [next, toList]

theorem toList_next (f : Forms) : f.next.2.toList = f.toList.tail := by
  cases f with
  | byComparison template current rest => exact (nextByComparison_spec template current rest).2
  | byType template fitSize types => cases types <;> simp [next, toList]
  | single template => simp [next, toList]
  | finished => simp [next, toList]

/-- What `next` gives while there are forms. -/
def next? (f : Forms) : Option (String × Forms) := f.next.1.map fun form => (form, f.next.2)

theorem toList_of_next?_some {f g : Forms} {form : String} (h : f.next? = some (form, g)) :
    f.toList = form :: g.toList := by
  rw [next?, Option.map_eq_some_iff] at h
  obtain ⟨x, hx, hstep⟩ := h
  obtain ⟨rfl, rfl⟩ := Prod.mk.inj hstep
  obtain ⟨forms, hforms⟩ := List.head?_eq_some_iff.mp (f.next_fst.symm.trans hx)
  rw [toList_next, hforms, List.tail_cons]

theorem toList_of_next?_none {f : Forms} (h : f.next? = none) : f.toList = [] := by
  rw [next?, Option.map_eq_none_iff, next_fst] at h
  exact List.head?_eq_none_iff.mp h

/-- The forms that are given until there are none. -/
def collect (f : Forms) : List String :=
  match _h : f.next? with
  | some (form, g) => form :: g.collect
  | none => []
termination_by f.toList.length
decreasing_by simp [toList_of_next?_some _h]

@[simp] theorem collect_eq_toList (f : Forms) : f.collect = f.toList := by
  induction f using collect.induct with
  | case1 f form g h ih =>
      rw [collect, h, toList_of_next?_some h]
      simp only [ih]
  | case2 f h => rw [collect, h, toList_of_next?_none h]

end Forms

/-- The forms of `m`. Comparisons are taken in the order of their table. -/
def Mnemonic.expand (m : Mnemonic) (comparisons : Table Comparison) : Forms :=
  let template := Template.renderRegisters m.form
  if m.comparison then .byComparison template none comparisons.entries
  else if m.types.isEmpty then .single template
  else .byType template m.fitSize m.types

def Mnemonic.forms (m : Mnemonic) (comparisons : Table Comparison) : List String :=
  (m.expand comparisons).collect

end InstructionSet
