import InstructionSet.Opcode
import InstructionSet.Proofs.Unique

/-!
# Shapes as normal forms

Sizes that count as types are named in decimal and stand in front, and a type that has the name of
a size is not listed once more. A shape that is built again from what it says of sizes and types
stays as it is.
-/

namespace InstructionSet

/-! ## Sizes among types -/

/-- The name of a size among types. -/
def sizeName (size : UInt32) : String := toString size.toNat

theorem toList_sizeName (size : UInt32) : (sizeName size).toList = Nat.toDigits 10 size.toNat :=
  Nat.toList_repr

theorem sizeName_injective : Function.Injective sizeName := by
  intro size other h
  have hdigits : Nat.toDigits 10 size.toNat = Nat.toDigits 10 other.toNat := by
    rw [← toList_sizeName, h, toList_sizeName]
  apply UInt32.toNat_inj.mp
  calc
    size.toNat = Nat.ofDigitChars 10 (Nat.toDigits 10 size.toNat) 0 :=
      Nat.ofDigitChars_ten_toDigits.symm
    _ = Nat.ofDigitChars 10 (Nat.toDigits 10 other.toNat) 0 := by rw [hdigits]
    _ = other.toNat := Nat.ofDigitChars_ten_toDigits

theorem associateSizetype_eq_unique (sizes : List UInt32) (types : List String) :
    associateSizetype sizes types = unique (sizes.map sizeName ++ types) := rfl

/-- No size is lost in front, since no two sizes have one name. -/
theorem associateSizetype_eq_append (sizes : List UInt32) (types : List String) :
    associateSizetype sizes types =
      (unique sizes).map sizeName ++ (unique types).filter (· ∉ sizes.map sizeName) := by
  rw [associateSizetype_eq_unique, unique_append_eq_filter, unique_map sizeName_injective]

theorem associateSizetype_associateSizetype (sizes : List UInt32) (types : List String) :
    associateSizetype sizes (associateSizetype sizes types) = associateSizetype sizes types := by
  simp only [associateSizetype_eq_unique]
  rw [unique_append_unique, unique_append_append]

/-- `names` are the sizes and types under one name each, in the order of first occurrences with the
sizes before the types. -/
structure Associated (sizes : List UInt32) (types names : List String) : Prop where
  nodup : names.Nodup
  mem_iff : ∀ name, name ∈ names ↔ (∃ size ∈ sizes, sizeName size = name) ∨ name ∈ types
  ordered : names.Pairwise fun x y =>
    (sizes.map sizeName ++ types).idxOf x < (sizes.map sizeName ++ types).idxOf y
  sizes_first : names =
    sizes.eraseDups.map sizeName ++ types.eraseDups.filter (· ∉ sizes.map sizeName)

theorem associated_associateSizetype (sizes : List UInt32) (types : List String) :
    Associated sizes types (associateSizetype sizes types) where
  nodup := nodup_unique _
  mem_iff name := by
    rw [associateSizetype_eq_unique, mem_unique, List.mem_append, List.mem_map]
  ordered := pairwise_idxOf_unique _
  sizes_first := by
    rw [associateSizetype_eq_append, unique_eq_eraseDups, unique_eq_eraseDups]

/-! ## Shapes built again -/

/-- The draft with what a shape says of sizes and types. A shape without sizes leaves the sizes and
`sizetype` of the draft as they are. -/
def Opcode.Draft.withShape (d : Draft) : PlainShape → Draft
  | .sized sizes types sizetype =>
      { d with
        sizes := .given sizes
        types := .given types
        sizetype := .given sizetype
        isUnsized := .given false }
  | .unsized types => { d with types := .given types, isUnsized := .given true }

namespace PlainShape

/-- Nothing can be dropped from the lists of the shape, or put in front of its types. -/
def Normal : PlainShape → Prop
  | sized sizes types sizetype =>
      sizes.Nodup ∧ types.Nodup ∧ (sizetype → sizes.map sizeName <+: types)
  | unsized types => types.Nodup

theorem normal_ofDraft (d : Opcode.Draft) : (ofDraft d).Normal := by
  rw [ofDraft]
  split
  · exact nodup_unique _
  · split
    · refine ⟨nodup_unique _, nodup_unique _, fun _ => ?_⟩
      rw [associateSizetype_eq_append, unique_unique]
      exact List.prefix_append _ _
    · exact ⟨nodup_unique _, nodup_unique _, nofun⟩

theorem Normal.nodup_types {shape : PlainShape} (h : shape.Normal) : shape.types.Nodup := by
  cases shape with
  | sized sizes types sizetype => exact h.2.1
  | unsized types => exact h

theorem nodup_types_ofDraft (d : Opcode.Draft) : (ofDraft d).types.Nodup :=
  (normal_ofDraft d).nodup_types

theorem Normal.ofDraft_withShape {shape : PlainShape} (h : shape.Normal) (d : Opcode.Draft) :
    ofDraft (d.withShape shape) = shape := by
  cases shape with
  | unsized types => exact congrArg unsized (unique_of_nodup h)
  | sized sizes types sizetype =>
      obtain ⟨hsizes, htypes, hprefix⟩ := h
      cases sizetype with
      | false =>
          change sized (unique sizes) (unique types) false = _
          rw [unique_of_nodup hsizes, unique_of_nodup htypes]
      | true =>
          change sized (unique sizes) (associateSizetype (unique sizes) types) true = _
          obtain ⟨rest, rfl⟩ := hprefix rfl
          rw [unique_of_nodup hsizes, associateSizetype_eq_unique, unique_append_append,
            unique_of_nodup htypes]

/-- Sizes are associated with types once and for all: repeated sizes make no difference, and neither
does associating them again. A draft that is given what its own shape, or that of another draft,
says of sizes and types has that shape. -/
theorem normal_forms :
    (∀ (sizes : List UInt32) (types : List String),
      Associated sizes types (associateSizetype sizes types) ∧
      associateSizetype (unique sizes) types = associateSizetype sizes types ∧
      associateSizetype sizes (associateSizetype sizes types) = associateSizetype sizes types) ∧
    ∀ d other : Opcode.Draft, ofDraft (other.withShape (ofDraft d)) = ofDraft d := by
  constructor
  · intro sizes types
    refine ⟨associated_associateSizetype sizes types, ?_,
      associateSizetype_associateSizetype sizes types⟩
    exact unique_map_unique_append sizeName sizes types
  · exact fun d other => (normal_ofDraft d).ofDraft_withShape other

/-- A type that has the name of a size does not stand for a second one. -/
example : associateSizetype [8, 16, 8] ["16", "F", "08", "F"] = ["8", "16", "F", "08"] := by
  decide +kernel

end PlainShape

end InstructionSet
