import InstructionSet.Proofs.Catalog.Layout

/-!
# Comparisons

The checks of a comparison accept its draft exactly if it refers to a level and two operands of
the catalog and asks nothing of the level that the level does not have.
-/

namespace InstructionSet

/-- A comparison fits the tables that it refers to. Its level has all of its sizes and types. -/
structure Comparison.Fits (levels : Table Level) (operands : Table Operand) (c : Comparison) :
    Prop where
  level : ∃ level, levels.get? c.level = some level ∧
    (∀ size ∈ c.sizes, size ∈ level.sizes) ∧ ∀ type ∈ c.types, type ∈ level.types
  opA : c.opA ∈ operands.names
  opB : c.opB ∈ operands.names
  sizes_ne : c.sizes ≠ []
  sizes_nodup : c.sizes.Nodup
  types_nodup : c.types.Nodup

namespace Comparison.Draft

/-- What the draft says, with each size and type once. -/
def comparison (d : Draft) (id : String) : Comparison where
  name := id
  level := d.level.getD ""
  opA := d.opA.getD ""
  opB := d.opB.getD ""
  sizes := unique (d.sizes.getD [])
  types := unique (d.types.getD [])
  form := d.form.getD ""
  description := d.description.value?

/-- What the checks of a comparison ask of its merged draft. -/
structure Valid (c : Catalog) (d : Draft) : Prop where
  level_ne : d.level.getD "" ≠ ""
  opA_ne : d.opA.getD "" ≠ ""
  opB_ne : d.opB.getD "" ≠ ""
  fits : ∀ id, (d.comparison id).Fits c.levels c.operands

end Comparison.Draft

namespace Catalog

variable {c : Catalog} {level : Level}

theorem level_eq_ok_iff {name : Setting String} :
    c.level name = .ok level ↔
      name.getD "" ≠ "" ∧ c.levels.get? (name.getD "") = some level := by
  rw [Catalog.level]
  split
  · rename_i h
    simp [h]
  · rename_i h
    cases hget : c.levels.get? (name.getD "") with
    | none => simp
    | some found =>
        rw [Except.ok.injEq, Option.some.injEq]
        exact ⟨fun hfound => ⟨h, hfound⟩, And.right⟩

theorem checkSizes_eq_ok_iff {sizes : List UInt32} :
    checkSizes level sizes = .ok () ↔ sizes ≠ [] ∧ ∀ size ∈ sizes, size ∈ level.sizes := by
  rw [checkSizes]
  by_cases hempty : sizes = []
  · simp [hempty]
  · have hne : ¬sizes.isEmpty = true := by rwa [List.isEmpty_iff]
    rw [if_neg hne]
    split
    · rename_i size hfind
      simp only [reduceCtorEq, false_iff, not_and]
      intro _ hall
      have hsize := hall size (List.mem_of_find?_eq_some hfind)
      have hunsupported := List.find?_some hfind
      simp [Level.supportsSize, hsize] at hunsupported
    · rename_i hfind
      simpa [hempty, Level.supportsSize] using hfind

theorem checkTypes_eq_ok_iff {types : List String} :
    checkTypes level types = .ok () ↔ ∀ type ∈ types, type ∈ level.types := by
  rw [checkTypes]
  split
  · rename_i type hfind
    simp only [reduceCtorEq, false_iff]
    intro hall
    have htype := hall type (List.mem_of_find?_eq_some hfind)
    have hunsupported := List.find?_some hfind
    simp [Level.supportsType, htype] at hunsupported
  · rename_i hfind
    simpa [Level.supportsType] using hfind

/-- The checks accept exactly the valid drafts and answer with what the draft says. -/
theorem comparison_eq_ok_iff {id : String} {d : Comparison.Draft} {x : Comparison} :
    c.comparison id d = .ok x ↔ x = d.comparison id ∧ d.Valid c := by
  rw [comparison]
  constructor
  · intro h
    obtain ⟨level, hlevel, h⟩ := bind_eq_ok_iff.mp h
    obtain ⟨opA, hA, h⟩ := bind_eq_ok_iff.mp h
    obtain ⟨opB, hB, h⟩ := bind_eq_ok_iff.mp h
    obtain ⟨_, hsizes, h⟩ := bind_eq_ok_iff.mp h
    obtain ⟨_, htypes, h⟩ := bind_eq_ok_iff.mp h
    obtain ⟨hneL, hgetL⟩ := level_eq_ok_iff.mp hlevel
    obtain ⟨hneA, hgetA⟩ := operand_eq_ok_iff.mp hA
    obtain ⟨hneB, hgetB⟩ := operand_eq_ok_iff.mp hB
    obtain ⟨hsizesNe, hsizesAll⟩ := checkSizes_eq_ok_iff.mp hsizes
    have hnameL : level.name = d.level.getD "" := Table.name_of_get? hgetL
    have hnameA : opA.name = d.opA.getD "" := Table.name_of_get? hgetA
    have hnameB : opB.name = d.opB.getD "" := Table.name_of_get? hgetB
    refine ⟨?_, hneL, hneA, hneB, fun id => ?_⟩
    · rw [← Except.ok.inj h, hnameL, hnameA, hnameB]
      rfl
    · exact ⟨⟨level, hgetL, hsizesAll, checkTypes_eq_ok_iff.mp htypes⟩,
        Table.mem_names_iff.mpr ⟨opA, hgetA⟩, Table.mem_names_iff.mpr ⟨opB, hgetB⟩, hsizesNe,
        nodup_unique _, nodup_unique _⟩
  · rintro ⟨rfl, hneL, hneA, hneB, hfits⟩
    obtain ⟨level, hgetL, hsizes, htypes⟩ := (hfits id).level
    obtain ⟨opA, hgetA⟩ := Table.mem_names_iff.mp (hfits id).opA
    obtain ⟨opB, hgetB⟩ := Table.mem_names_iff.mp (hfits id).opB
    refine bind_eq_ok_iff.mpr ⟨level, level_eq_ok_iff.mpr ⟨hneL, hgetL⟩, ?_⟩
    refine bind_eq_ok_iff.mpr ⟨opA, operand_eq_ok_iff.mpr ⟨hneA, hgetA⟩, ?_⟩
    refine bind_eq_ok_iff.mpr ⟨opB, operand_eq_ok_iff.mpr ⟨hneB, hgetB⟩, ?_⟩
    refine bind_eq_ok_iff.mpr
      ⟨(), checkSizes_eq_ok_iff.mpr ⟨(hfits id).sizes_ne, hsizes⟩, ?_⟩
    refine bind_eq_ok_iff.mpr ⟨(), checkTypes_eq_ok_iff.mpr htypes, ?_⟩
    have hnameL : level.name = d.level.getD "" := Table.name_of_get? hgetL
    have hnameA : opA.name = d.opA.getD "" := Table.name_of_get? hgetA
    have hnameB : opB.name = d.opB.getD "" := Table.name_of_get? hgetB
    rw [hnameL, hnameA, hnameB]
    rfl

end Catalog

end InstructionSet
