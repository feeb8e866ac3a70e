import InstructionSet.Definition
import InstructionSet.Proofs.Catalog.Comparison

/-!
# Compiling

What declarations compile to is a function of the merged drafts. Compiling gives it exactly if all
drafts are valid.
-/

namespace InstructionSet

/-! ## What merged drafts describe -/

namespace Opcode.Draft

/-- The merged draft of a variant that an opcode lists. -/
def inherit (entry seed : Draft) : Draft := (entry.onto seed).unmarked

/-- The variant that a merged draft describes. -/
def variantOf (d : Draft) (id : String) (variation : Nat) : Variant where
  name := id
  variation
  layout := d.layout
  shape := .ofDraft d
  traits := .ofDraft d

/-- The variants from number `start` on that the drafts in a list describe. -/
def variantsFrom (seed : Draft) (id : String) (start : Nat) (entries : List Draft) :
    List Variant :=
  (entries.zipIdx start).map fun (entry, variation) =>
    (entry.inherit seed).variantOf id variation

def shape (d : Draft) (id : String) : Shape :=
  if d.variant.getD false then .variantBearing (d.seed.variantsFrom id 0 (d.variants.getD []))
  else .plain (.ofDraft d)

/-- The opcode that a merged draft describes. -/
def opcode (d : Draft) (id : String) : Opcode where
  name := id
  layout := d.layout
  shape := d.shape id
  traits := .ofDraft d

/-- The merged draft of an opcode is valid, and so are its variants if it is marked as variant. -/
structure DeeplyValid (operands : Table Operand) (d : Draft) : Prop where
  valid : d.Valid operands
  variants : d.variant.getD false = true →
    ∀ entry ∈ d.variants.getD [], (entry.inherit d.seed).Valid operands

end Opcode.Draft

namespace Declarations

/-- The merged drafts of all comparisons. -/
def mergedComparisons (r : Declarations) : List (String × Comparison.Draft) :=
  r.comparisons.map fun (id, entry) => (id, entry.onto r.comparisonTemplate)

/-- The merged drafts of all opcodes. -/
def mergedOpcodes (r : Declarations) : List (String × Opcode.Draft) :=
  r.opcodes.map fun (id, entry) => (id, entry.onto r.opcodeTemplate)

/-- The definition that declarations describe, whether valid or not. -/
def definition (r : Declarations) : Definition where
  types := .ofList r.types
  classes := .ofList r.classes
  operands := .ofList r.operands
  levels := Level.accumulate r.levels
  comparisons := .ofList (r.mergedComparisons.map fun (id, d) => d.comparison id)
  opcodes := .ofList (r.mergedOpcodes.map fun (id, d) => d.opcode id)

structure Valid (r : Declarations) : Prop where
  comparisons : ∀ entry ∈ r.mergedComparisons, entry.2.Valid r.catalog
  opcodes : ∀ entry ∈ r.mergedOpcodes, entry.2.DeeplyValid r.catalog.operands

end Declarations

/-! ## What compiling gives -/

namespace Catalog

variable {c : Catalog} {id : String}

theorem variant_result (seed entry : Opcode.Draft) (variation : Nat) :
    (c.variant id seed variation entry).result =
      (c.layout (entry.inherit seed)).mapError (Breach.error (.variant id variation)) >>=
        fun layout => .ok { (entry.inherit seed).variantOf id variation with layout } := by
  simp only [variant, Outcome.bind_result, Outcome.warnIf_result, Outcome.liftM_eq,
    Outcome.ofExcept_result, Outcome.pure_result]
  rfl

theorem variant_eq_ok_iff {seed entry : Opcode.Draft} {variation : Nat} {v : Variant} :
    (c.variant id seed variation entry).result = .ok v ↔
      v = (entry.inherit seed).variantOf id variation ∧
        (entry.inherit seed).Valid c.operands := by
  rw [variant_result, bind_eq_ok_iff]
  constructor
  · rintro ⟨layout, hlayout, h⟩
    obtain ⟨rfl, hvalid⟩ := layout_eq_ok_iff.mp (mapError_eq_ok_iff.mp hlayout)
    exact ⟨(Except.ok.inj h).symm, hvalid⟩
  · rintro ⟨rfl, hvalid⟩
    exact ⟨_, mapError_eq_ok_iff.mpr (layout_eq_ok_iff.mpr ⟨rfl, hvalid⟩), rfl⟩

theorem variantsFrom_eq_ok_iff {seed : Opcode.Draft} {start : Nat} {entries : List Opcode.Draft}
    {vs : List Variant} :
    (c.variantsFrom id seed start entries).result = .ok vs ↔
      vs = seed.variantsFrom id start entries ∧
        ∀ entry ∈ entries, (entry.inherit seed).Valid c.operands := by
  induction entries generalizing start vs with
  | nil =>
      rw [variantsFrom, Outcome.pure_result, Except.ok.injEq]
      simp [Opcode.Draft.variantsFrom, eq_comm]
  | cons entry rest ih =>
      simp only [variantsFrom, Outcome.bind_result, bind_eq_ok_iff, Outcome.pure_result,
        Except.ok.injEq, ih, variant_eq_ok_iff, List.forall_mem_cons]
      constructor
      · rintro ⟨v, ⟨rfl, hvalid⟩, more, ⟨rfl, hrest⟩, rfl⟩
        exact ⟨rfl, hvalid, hrest⟩
      · rintro ⟨rfl, hvalid, hrest⟩
        exact ⟨_, ⟨rfl, hvalid⟩, _, ⟨rfl, hrest⟩, rfl⟩

theorem shape_eq_ok_iff {d : Opcode.Draft} {shape : Shape} :
    (c.shape id d).result = .ok shape ↔
      shape = d.shape id ∧ (d.variant.getD false = true →
        ∀ entry ∈ d.variants.getD [], (entry.inherit d.seed).Valid c.operands) := by
  rw [Catalog.shape, Opcode.Draft.shape]
  by_cases hvariant : d.variant.getD false = true
  · simp only [hvariant, if_true, forall_const, variants, Outcome.bind_result, bind_eq_ok_iff,
      Outcome.pure_result, Except.ok.injEq, variantsFrom_eq_ok_iff]
    constructor
    · rintro ⟨vs, ⟨rfl, hvalid⟩, rfl⟩
      exact ⟨rfl, hvalid⟩
    · rintro ⟨rfl, hvalid⟩
      exact ⟨_, ⟨rfl, hvalid⟩, rfl⟩
  · simp only [hvariant, Bool.false_eq_true, if_false, false_implies, and_true,
      Outcome.bind_result, Outcome.warnIf_result, Outcome.pure_result]
    exact ⟨fun h => (Except.ok.inj h).symm, fun h => h ▸ rfl⟩

theorem opcode_result (classes : Table Descriptor) (d : Opcode.Draft) :
    (c.opcode classes id d).result =
      (c.layout d).mapError (Breach.error (.opcode id)) >>= fun layout =>
        (c.shape id d).result >>= fun shape =>
          .ok { d.opcode id with layout, shape } := by
  simp only [opcode, Outcome.bind_result, Outcome.liftM_eq, Outcome.ofExcept_result]
  cases d.className.value? <;>
    simp only [Outcome.bind_result, Outcome.warnIf_result, Outcome.pure_result] <;> rfl

theorem opcode_eq_ok_iff {classes : Table Descriptor} {d : Opcode.Draft} {o : Opcode} :
    (c.opcode classes id d).result = .ok o ↔ o = d.opcode id ∧ d.DeeplyValid c.operands := by
  rw [opcode_result]
  simp only [bind_eq_ok_iff, mapError_eq_ok_iff, layout_eq_ok_iff, shape_eq_ok_iff,
    Except.ok.injEq]
  constructor
  · rintro ⟨layout, ⟨rfl, hvalid⟩, shape, ⟨rfl, hvariants⟩, rfl⟩
    exact ⟨rfl, hvalid, hvariants⟩
  · rintro ⟨rfl, hvalid, hvariants⟩
    exact ⟨_, ⟨rfl, hvalid⟩, _, ⟨rfl, hvariants⟩, rfl⟩

end Catalog

namespace Declarations

variable {r : Declarations}

theorem compile_result (r : Declarations) :
    r.compile.result =
      (r.mergedComparisons.mapM fun entry =>
        (r.catalog.comparison entry.1 entry.2).mapError (Breach.error (.comparison entry.1))) >>=
        fun comparisons =>
          (r.mergedOpcodes.mapM fun entry =>
            (r.catalog.opcode (.ofList r.classes) entry.1 entry.2).result) >>=
            fun opcodes => .ok { r.definition with
              comparisons := .ofList comparisons, opcodes := .ofList opcodes } := by
  simp only [compile, Outcome.bind_result, Outcome.liftM_eq, Outcome.ofExcept_result,
    Outcome.pure_result, result_mapM, mergedComparisons, mergedOpcodes, List.mapM_map]
  rfl

/-- Compiling succeeds exactly on valid declarations, with the definition that they describe. -/
theorem compile_eq_ok_iff {d : Definition} :
    r.compile.result = .ok d ↔ d = r.definition ∧ r.Valid := by
  have hcomparison (entry : String × Comparison.Draft) (x : Comparison) :
      (r.catalog.comparison entry.1 entry.2).mapError (Breach.error (.comparison entry.1)) =
        .ok x ↔ x = entry.2.comparison entry.1 ∧ entry.2.Valid r.catalog := by
    rw [mapError_eq_ok_iff, Catalog.comparison_eq_ok_iff]
  have hopcode (entry : String × Opcode.Draft) (o : Opcode) :
      (r.catalog.opcode (.ofList r.classes) entry.1 entry.2).result = .ok o ↔
        o = entry.2.opcode entry.1 ∧ entry.2.DeeplyValid r.catalog.operands :=
    Catalog.opcode_eq_ok_iff
  rw [compile_result]
  simp only [bind_eq_ok_iff, mapM_eq_ok_iff_map hcomparison, mapM_eq_ok_iff_map hopcode,
    Except.ok.injEq]
  constructor
  · rintro ⟨comparisons, ⟨rfl, hcomparisons⟩, opcodes, ⟨rfl, hopcodes⟩, rfl⟩
    exact ⟨rfl, hcomparisons, hopcodes⟩
  · rintro ⟨rfl, hcomparisons, hopcodes⟩
    exact ⟨_, ⟨rfl, hcomparisons⟩, _, ⟨rfl, hopcodes⟩, rfl⟩

end Declarations

end InstructionSet
