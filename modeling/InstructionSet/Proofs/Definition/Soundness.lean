import InstructionSet.Definition.Source
import InstructionSet.Proofs.Definition.Compile
import InstructionSet.Proofs.Opcode.Members
import InstructionSet.Proofs.Opcode.Shape

/-!
# Soundness of compiled definitions

Whatever compiling lets through keeps all rules, across its six tables and down to each variant.
-/

namespace InstructionSet

/-- A variant is a definition of its own that shares the opcode's name and tells its place. -/
structure Variant.Sound (operands : Table Operand) (name : String) (place : Nat) (v : Variant) :
    Prop where
  name : v.name = name
  variation : v.variation = place
  layout : v.layout.Fits operands
  types : v.shape.types.Nodup
  plain : v.json.member? "shape" ≠ some (.text "variant_bearing")

structure Opcode.Sound (operands : Table Operand) (o : Opcode) : Prop where
  layout : o.layout.Fits operands
  types : o.shape.types.Nodup
  unnumbered : o.json.member? "variation" = none
  variants : ∀ vs, o.shape = .variantBearing vs →
    1 ≤ vs.length ∧ vs.length ≤ 16 ∧
      ∀ (place : Nat) (v : Variant), vs[place]? = some v → v.Sound operands o.name place

structure Definition.Sound (d : Definition) : Prop where
  types : d.types.names.Nodup
  classes : d.classes.names.Nodup
  operands : d.operands.names.Nodup
  levels : d.levels.names.Nodup
  comparisons : d.comparisons.names.Nodup
  opcodes : d.opcodes.names.Nodup
  comparison : ∀ c ∈ d.comparisons.entries, c.Fits d.levels d.operands
  opcode : ∀ o ∈ d.opcodes.entries, o.Sound d.operands

/-! ## Opcodes and their variants -/

namespace Opcode.Draft

variable {operands : Table Operand} {d : Draft}

theorem nodup_types_shape (d : Draft) (id : String) : (d.shape id).types.Nodup := by
  rw [shape]
  split
  · exact List.nodup_nil
  · exact PlainShape.nodup_types_ofDraft d

theorem sound_variantOf (h : d.Valid operands) (id : String) (place : Nat) :
    (d.variantOf id place).Sound operands id place where
  name := rfl
  variation := rfl
  layout := h.fits
  types := PlainShape.nodup_types_ofDraft d
  plain := by
    rcases (d.variantOf id place).member?_shape with hshape | hshape <;> simp [hshape]

/-- A variant-bearing opcode takes its variants from the drafts it lists, in their order. -/
theorem sound_opcode (h : d.DeeplyValid operands) (id : String) :
    (d.opcode id).Sound operands where
  layout := h.valid.fits
  types := d.nodup_types_shape id
  unnumbered := (d.opcode id).member?_variation
  variants := by
    intro vs hvs
    have hvariant : d.variant.getD false = true := by
      by_contra hplain
      simp [opcode, shape, hplain] at hvs
    have hlist : vs = d.seed.variantsFrom id 0 (d.variants.getD []) := by
      simpa [opcode, shape, hvariant] using hvs.symm
    have hlength : vs.length = (d.variants.getD []).length := by
      simp [hlist, variantsFrom]
    obtain ⟨hmin, hmax⟩ := h.valid.hasVariants hvariant
    refine ⟨hlength ▸ hmin, hlength ▸ hmax, fun place v hv => ?_⟩
    rw [hlist, variantsFrom, List.getElem?_map, List.getElem?_zipIdx] at hv
    cases hentry : (d.variants.getD [])[place]? with
    | none => simp [hentry] at hv
    | some entry =>
        have hv' : (entry.inherit d.seed).variantOf id place = v := by simpa [hentry] using hv
        have hvalid := h.variants hvariant entry (List.mem_of_getElem? hentry)
        exact hv' ▸ sound_variantOf hvalid id place

end Opcode.Draft

/-! ## Definitions -/

namespace Declarations

theorem sound_definition {r : Declarations} (h : r.Valid) : r.definition.Sound where
  types := Table.nodup _
  classes := Table.nodup _
  operands := Table.nodup _
  levels := Table.nodup _
  comparisons := Table.nodup _
  opcodes := Table.nodup _
  comparison := by
    intro c hc
    obtain ⟨entry, hentry, rfl⟩ := List.mem_map.mp (Table.mem_of_mem_ofList hc)
    exact (h.comparisons entry hentry).fits entry.1
  opcode := by
    intro o ho
    obtain ⟨entry, hentry, rfl⟩ := List.mem_map.mp (Table.mem_of_mem_ofList ho)
    exact Opcode.Draft.sound_opcode (h.opcodes entry hentry) entry.1

/-- Two opcodes with extension words and variants, one of them declared twice, and a comparison
at a level that takes over what the one before it has. -/
def layered : Declarations where
  types := [⟨"B", .null⟩, ⟨"W", .null⟩]
  operands := [{ name := "r", bits := 4 }, { name := "v", bits := 4, kind := some "variant" },
    { name := "i8", bits := 8 }]
  levels := [("L0", { sizes := [8], types := ["B"] }), ("L1", { sizes := [16], types := ["W"] })]
  comparisonTemplate := { level := .given "L1", opA := .given "r", opB := .given "r" }
  comparisons := [("EQ", { sizes := .given [16, 8, 16], types := .given ["W", "B"] })]
  opcodeTemplate := { opA := .given "r", opB := .given "r", sizes := .given [8] }
  opcodes := [("MOVE", { types := .given ["B", "B"], sizetype := .given true }),
    ("PICK", {
      opA := .given "v"
      extwords := .given [["i8", "i8"], ["r", "r", "i8"]]
      variant := .given true
      variants := .given [{ form := .given "pick" }, { opA := .given "r", opB := .given "v" }] }),
    ("MOVE", { isUnsized := .given true })]

end Declarations

namespace Definition

/-- Compiled definitions are sound, from whatever declarations and whatever documents. -/
theorem sound_of_eq_ok :
    (∀ (r : Declarations) (d : Definition), r.compile.result = .ok d → d.Sound) ∧
      ∀ (store : Store) (d : Definition), (ofStore store).result = .ok d → d.Sound := by
  have hcompile (r : Declarations) (d : Definition) (h : r.compile.result = .ok d) :
      d.Sound := by
    obtain ⟨rfl, hvalid⟩ := Declarations.compile_eq_ok_iff.mp h
    exact Declarations.sound_definition hvalid
  refine ⟨hcompile, fun store d h => ?_⟩
  rw [ofStore, Outcome.bind_result] at h
  obtain ⟨r, _, hr⟩ := bind_eq_ok_iff.mp h
  exact hcompile r d hr

theorem sound_layered : ∃ d, Declarations.layered.compile.result = .ok d ∧ d.Sound := by
  have hok : (failure? Declarations.layered.compile.result).isNone = true := by decide +kernel
  obtain ⟨d, hd⟩ := failure?_eq_none_iff.mp (Option.isNone_iff_eq_none.mp hok)
  exact ⟨d, hd, sound_of_eq_ok.1 Declarations.layered d hd⟩

end Definition

end InstructionSet
