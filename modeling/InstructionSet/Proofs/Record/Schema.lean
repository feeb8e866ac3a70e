import InstructionSet.Json.Schema
import InstructionSet.Proofs.Entries
import Mathlib.Data.List.Nodup
import Mathlib.Logic.Equiv.Defs
import Mathlib.Logic.Function.Basic

/-!
# Schemas of partial records

A partial record is nothing but the settings of its fields. Its schema lists the fields in order,
each with the key and the kind of value that it has in a document.
-/

namespace InstructionSet

/-- What a field holds. `nested` stands for a record of the schema itself. -/
inductive Schema.Kind where
  | text
  | flag
  | uint32
  | nested
  | list (item : Kind)

/-- The values of a kind, where records are of type `D`. -/
def Schema.Kind.Data (D : Type) : Kind → Type
  | text => String
  | flag => Bool
  | uint32 => UInt32
  | nested => D
  | list item => List (item.Data D)

structure Schema (D : Type) where
  Field : Type
  [decEq : DecidableEq Field]
  fields : List Field
  mem_fields : ∀ f, f ∈ fields
  key : Field → String
  nodup_keys : (fields.map key).Nodup
  kind : Field → Schema.Kind
  /-- A record is determined by its settings, and any settings make up a record. -/
  settings : D ≃ ((f : Field) → Setting ((kind f).Data D))

attribute [instance] Schema.decEq

namespace Schema

variable {D : Type} (S : Schema D)

/-- The type of the values that a field holds. -/
abbrev Data (f : S.Field) : Type := (S.kind f).Data D

def keys : List String := S.fields.map S.key

def get (r : D) (f : S.Field) : Setting (S.Data f) := S.settings r f

/-- The record with one field set anew. -/
def set (r : D) (f : S.Field) (setting : Setting (S.Data f)) : D :=
  S.settings.symm (Function.update (S.settings r) f setting)

/-- Laying a record over another lays each setting over the other's. -/
def Overlays (onto : D → D → D) : Prop :=
  ∀ entry template f, S.get (onto entry template) f = (S.get entry f).onto (S.get template f)

/-- No field of the record is present. -/
def Blank (r : D) : Prop := ∀ f, S.get r f = .absent

variable {S} {r s : D}

theorem ext (h : ∀ f, S.get r f = S.get s f) : r = s := by
  apply S.settings.injective
  funext f
  exact h f

@[simp] theorem get_set_self (r : D) (f : S.Field) (setting : Setting (S.Data f)) :
    S.get (S.set r f setting) f = setting := by
  simp [get, set]

theorem get_set_of_ne {f g : S.Field} (h : g ≠ f) (r : D) (setting : Setting (S.Data f)) :
    S.get (S.set r f setting) g = S.get r g := by
  simp [get, set, h]

/-- Settings that are chosen field by field make up a record. -/
theorem exists_get {p : (f : S.Field) → Setting (S.Data f) → Prop}
    (h : ∀ f, ∃ setting, p f setting) : ∃ r, ∀ f, p f (S.get r f) := by
  choose settings hsettings using h
  refine ⟨S.settings.symm settings, ?_⟩
  intro f
  simpa [get] using hsettings f

theorem key_injective : S.key.Injective := by
  intro f g h
  exact List.inj_on_of_nodup_map S.nodup_keys (S.mem_fields f) (S.mem_fields g) h

theorem mem_keys_iff {key : String} : key ∈ S.keys ↔ ∃ f, S.key f = key := by
  simp [keys, S.mem_fields]

end Schema

end InstructionSet
