import InstructionSet.Proofs.Definition.Compile
import InstructionSet.Proofs.Unique

/-!
# What variants inherit

An opcode hands its types down with its sizes among them if `sizetype` applies to it. A variant to
which `sizetype` applies puts its own sizes in front of the types once more. Where it keeps sizes
and types, this changes nothing.
-/

namespace InstructionSet

/-! ## Types with sizes among them -/

namespace Opcode.Draft

/-- The draft has sizes, and they count as types. -/
def associates (d : Draft) : Bool := !d.isUnsized.getD false && d.sizetype.getD false

/-- The sizes under the names that they have as types. -/
def sizeNames (d : Draft) : List String :=
  (d.sizes.getD []).map fun size => toString size.toNat

end Opcode.Draft

namespace PlainShape

variable {d d' : Opcode.Draft}

theorem types_ofDraft (d : Opcode.Draft) :
    (ofDraft d).types =
      if d.associates then unique (d.sizeNames ++ d.types.getD [])
      else unique (d.types.getD []) := by
  cases hunsized : d.isUnsized.getD false with
  | true => simp [ofDraft, hunsized, types, Opcode.Draft.associates]
  | false =>
      cases hsizetype : d.sizetype.getD false with
      | true =>
          simp [ofDraft, hunsized, hsizetype, types, Opcode.Draft.associates, associateSizetype,
            unique_map_unique_append, Opcode.Draft.sizeNames]
      | false => simp [ofDraft, hunsized, hsizetype, types, Opcode.Draft.associates]

/-- Nothing but the fields of sizes and types has a part in the shape. -/
theorem ofDraft_congr (hunsized : d.isUnsized = d'.isUnsized) (hsizes : d.sizes = d'.sizes)
    (hsizetype : d.sizetype = d'.sizetype) (htypes : (ofDraft d).types = (ofDraft d').types) :
    ofDraft d = ofDraft d' := by
  revert htypes
  rw [ofDraft, ofDraft, hunsized, hsizes, hsizetype]
  split
  · exact congrArg unsized
  · split
    · exact congrArg fun types => sized _ types true
    · exact congrArg fun types => sized _ types false

end PlainShape

/-! ## What is handed down -/

namespace Opcode.Draft

theorem seed_eq (d : Draft) :
    d.seed = { d.unmarked with
      types := if d.associates then .given (PlainShape.ofDraft d).types else d.types } := by
  rw [seed, PlainShape.ofDraft]
  cases hunsized : d.isUnsized.getD false with
  | true => simp [associates, hunsized, unmarked]
  | false =>
      cases hsizetype : d.sizetype.getD false <;>
        simp [associates, hunsized, hsizetype, unmarked, PlainShape.types]

@[simp] theorem sizes_inherit_seed (q p : Draft) :
    (q.inherit p.seed).sizes = (q.inherit p).sizes := by
  rw [seed_eq]
  rfl

@[simp] theorem sizetype_inherit_seed (q p : Draft) :
    (q.inherit p.seed).sizetype = (q.inherit p).sizetype := by
  rw [seed_eq]
  rfl

@[simp] theorem isUnsized_inherit_seed (q p : Draft) :
    (q.inherit p.seed).isUnsized = (q.inherit p).isUnsized := by
  rw [seed_eq]
  rfl

theorem unique_seed_types (d : Draft) :
    unique (d.seed.types.getD []) = (PlainShape.ofDraft d).types := by
  have htypes := PlainShape.types_ofDraft d
  rw [seed_eq]
  cases hassociates : d.associates with
  | true =>
      rw [hassociates, if_pos rfl] at htypes
      change unique (PlainShape.ofDraft d).types = _
      rw [htypes, unique_unique]
  | false =>
      rw [hassociates] at htypes
      exact htypes.symm

/-- The types that a variant starts from: its own, or those of the opcode. -/
def startingTypes (q p : Draft) : List String :=
  if q.types.isPresent then (q.types.getD []).eraseDups else (PlainShape.ofDraft p).types

theorem unique_types_inherit (q p : Draft) :
    unique ((q.inherit p.seed).types.getD []) = q.startingTypes p := by
  have htypes : (q.inherit p.seed).types = q.types.onto p.seed.types := rfl
  rw [htypes, startingTypes]
  cases q.types with
  | absent => exact unique_seed_types p
  | cleared => rfl
  | given own => exact unique_eq_eraseDups own

theorem types_inherit (q p : Draft) :
    (PlainShape.ofDraft (q.inherit p.seed)).types =
      if (q.inherit p).associates then ((q.inherit p).sizeNames ++ q.startingTypes p).eraseDups
      else q.startingTypes p := by
  have hassociates : (q.inherit p.seed).associates = (q.inherit p).associates := by
    simp [associates]
  have hsizeNames : (q.inherit p.seed).sizeNames = (q.inherit p).sizeNames := by
    simp [sizeNames]
  rw [PlainShape.types_ofDraft, hassociates, hsizeNames, ← unique_append_unique,
    unique_types_inherit, unique_eq_eraseDups]

/-- The draft of a variant says nothing of sizes and types. -/
structure KeepsShape (q : Draft) : Prop where
  sizes : q.sizes = .absent
  types : q.types = .absent
  sizetype : q.sizetype = .absent
  isUnsized : q.isUnsized = .absent

/-- Sizes that are among the types already are not put there twice. -/
theorem KeepsShape.ofDraft_inherit {q : Draft} (h : q.KeepsShape) (p : Draft) :
    PlainShape.ofDraft (q.inherit p.seed) = PlainShape.ofDraft (q.inherit p) := by
  have hp : PlainShape.ofDraft (q.inherit p) = PlainShape.ofDraft p := by
    simp [PlainShape.ofDraft, inherit, onto, unmarked, h.sizes, h.types, h.sizetype, h.isUnsized]
  have hassociates : (q.inherit p).associates = p.associates := by
    simp [associates, inherit, onto, unmarked, h.sizetype, h.isUnsized]
  have hsizeNames : (q.inherit p).sizeNames = p.sizeNames := by
    simp [sizeNames, inherit, onto, unmarked, h.sizes]
  have hstart : q.startingTypes p = (PlainShape.ofDraft p).types := by
    rw [startingTypes, h.types]
    rfl
  apply PlainShape.ofDraft_congr (by simp) (by simp) (by simp)
  rw [types_inherit, hp, hassociates, hsizeNames, hstart]
  split
  · rename_i hassociated
    rw [PlainShape.types_ofDraft, if_pos hassociated, ← unique_eq_eraseDups, unique_append_unique,
      unique_append_append]
  · rfl

end Opcode.Draft

/-! ## Variants -/

namespace Catalog

variable {c : Catalog} {id : String} {p q : Opcode.Draft}

/-- What a variant inherits can be checked as an opcode, for no check looks at the types. -/
theorem opcode_inherit_eq_ok {classes : Table Descriptor}
    (h : (q.inherit p.seed).Valid c.operands) :
    (c.opcode classes id (q.inherit p)).result = .ok
      { name := id
        layout := (q.inherit p.seed).layout
        shape := .plain (.ofDraft (q.inherit p))
        traits := .ofDraft (q.inherit p.seed) } := by
  rw [opcode_eq_ok_iff]
  rw [Opcode.Draft.seed_eq] at h ⊢
  exact ⟨rfl, ⟨h.opA_ne, h.opB_ne, h.fits, h.hasVariants⟩, fun hvariant => nomatch hvariant⟩

/-- The types of a variant are its own, or those of its opcode where it has none, with its sizes
in front if `sizetype` applies to it. A variant that says nothing of sizes and types is what the
opcode would be under the draft that the two make together. -/
theorem types_of_variant {place : Nat} {v : Variant}
    (h : (c.variant id p.seed place q).result = .ok v) :
    v.shape.types =
        (if (q.inherit p).isUnsized.getD false = false ∧ (q.inherit p).sizetype.getD false = true
          then ((q.inherit p).sizeNames ++ q.startingTypes p).eraseDups
          else q.startingTypes p) ∧
      (q.KeepsShape → v.shape = .ofDraft (q.inherit p) ∧
        ∀ classes, (c.opcode classes id (q.inherit p)).result = .ok
          { name := v.name, layout := v.layout, shape := .plain v.shape, traits := v.traits }) := by
  obtain ⟨rfl, hvalid⟩ := variant_eq_ok_iff.mp h
  constructor
  · have htypes := q.types_inherit p
    simp only [Opcode.Draft.associates, Bool.and_eq_true, Bool.not_eq_true'] at htypes
    exact htypes
  · intro hkeeps
    have hshape := hkeeps.ofDraft_inherit p
    refine ⟨hshape, fun classes => ?_⟩
    rw [opcode_inherit_eq_ok hvalid, ← hshape]
    rfl

/-- Two operands that fill the operand byte. -/
def pair : Catalog where
  levels := .empty
  operands := .ofList [{ name := "r", bits := 4 }, { name := "v", bits := 4 }]

/-- An opcode that counts its size among its types. -/
def sizedOpcode : Opcode.Draft where
  opA := .given "v"
  opB := .given "r"
  sizes := .given [8]
  types := .given ["B", "8"]
  sizetype := .given true

/-- The size of the opcode stands behind that of a variant. A variant of another form keeps it. -/
theorem types_of_variant_resized :
    (∃ v, (pair.variant "ADD" sizedOpcode.seed 0 { sizes := .given [16, 32, 16] }).result = .ok v ∧
      v.shape.types = ["16", "32", "8", "B"]) ∧
    ∃ v, (pair.variant "ADD" sizedOpcode.seed 1 { form := .given "adc" }).result = .ok v ∧
      v.shape = .sized [8] ["8", "B"] true := by
  constructor
  · let q : Opcode.Draft := { sizes := .given [16, 32, 16] }
    have h : (pair.variant "ADD" sizedOpcode.seed 0 q).result =
        .ok ((q.inherit sizedOpcode.seed).variantOf "ADD" 0) := rfl
    refine ⟨_, h, ?_⟩
    rw [(types_of_variant h).1]
    decide +kernel
  · let q : Opcode.Draft := { form := .given "adc" }
    have h : (pair.variant "ADD" sizedOpcode.seed 1 q).result =
        .ok ((q.inherit sizedOpcode.seed).variantOf "ADD" 1) := rfl
    refine ⟨_, h, ?_⟩
    rw [((types_of_variant h).2 ⟨rfl, rfl, rfl, rfl⟩).1]
    decide +kernel

end Catalog

end InstructionSet
