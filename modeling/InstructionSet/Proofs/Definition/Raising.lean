import InstructionSet.Proofs.Definition.Soundness
import InstructionSet.Proofs.Level

/-!
# Raising a level

A comparison that fits a level fits every level that is declared after it. Levels that are
declared after all others change nothing but the table of levels.
-/

namespace InstructionSet

namespace Comparison

/-- A comparison fits any level that has all that its own level has. -/
theorem Fits.raise {levels levels' : Table Level} {operands : Table Operand} {c : Comparison}
    (h : c.Fits levels operands) {high : String}
    (hlevel : ∀ level, levels.get? c.level = some level →
      ∃ above, levels'.get? high = some above ∧ above.tally.Extends level.tally) :
    Fits levels' operands { c with level := high } := by
  obtain ⟨level, hget, hsizes, htypes⟩ := h.level
  obtain ⟨above, habove, hextends⟩ := hlevel level hget
  exact {
    level := ⟨above, habove, fun size hsize => hextends.sizes.subset (hsizes size hsize),
      fun type htype => hextends.types.subset (htypes type htype)⟩
    opA := h.opA
    opB := h.opB
    sizes_ne := h.sizes_ne
    sizes_nodup := h.sizes_nodup
    types_nodup := h.types_nodup }

theorem Draft.Valid.raise {c : Catalog} {d : Draft} (h : d.Valid c) {high : String}
    (hne : high ≠ "")
    (hlevel : ∀ level, c.levels.get? (d.level.getD "") = some level →
      ∃ above, c.levels.get? high = some above ∧ above.tally.Extends level.tally) :
    Draft.Valid c { d with level := .given high } where
  level_ne := hne
  opA_ne := h.opA_ne
  opB_ne := h.opB_ne
  fits id := (h.fits id).raise hlevel

/-- A comparison stays valid while its level can be looked up. -/
theorem Draft.Valid.of_levels {c : Catalog} {levels : Table Level} {d : Draft} (h : d.Valid c)
    (hlevel : ∀ name level, c.levels.get? name = some level → levels.get? name = some level) :
    d.Valid { c with levels } where
  level_ne := h.level_ne
  opA_ne := h.opA_ne
  opB_ne := h.opB_ne
  fits id := (h.fits id).raise fun level hget => ⟨level, hlevel _ level hget, .refl _⟩

end Comparison

/-- The comparison is the same but for its level. -/
theorem Catalog.comparison_raised {declared : List (String × Level.Draft)}
    {operands : Table Operand} {id low high : String} {f : Comparison.Draft} {x : Comparison}
    (hnodup : (declared.map Prod.fst).Nodup)
    (horder : [low, high].Sublist (declared.map Prod.fst)) (hne : high ≠ "")
    (h : Catalog.comparison ⟨Level.accumulate declared, operands⟩ id
      { f with level := .given low } = .ok x) :
    Catalog.comparison ⟨Level.accumulate declared, operands⟩ id
      { f with level := .given high } = .ok { x with level := high } := by
  obtain ⟨rfl, hvalid⟩ := comparison_eq_ok_iff.mp h
  exact comparison_eq_ok_iff.mpr ⟨rfl, hvalid.raise hne fun _ hlow =>
    Level.exists_get?_of_later hnodup horder hlow⟩

namespace Declarations

variable {r : Declarations} {more : List (String × Level.Draft)}

theorem Valid.append_levels (h : r.Valid) (hnodup : (more.map Prod.fst).Nodup)
    (hnew : ∀ name ∈ more.map Prod.fst, name ∉ r.levels.map Prod.fst) :
    Valid { r with levels := r.levels ++ more } where
  comparisons entry hentry := (h.comparisons entry hentry).of_levels fun _ _ hlevel =>
    Level.get?_accumulate_append hnodup hnew hlevel
  opcodes := h.opcodes

/-- A comparison that is accepted at a level is accepted, with that level, at each one declared
later. So levels can be appended to declarations that compile, and only the table of levels is
another, in which they follow those that are there. -/
theorem comparison_raised_and_levels_appended :
    (∀ (declared : List (String × Level.Draft)) (operands : Table Operand) (id : String)
      (f : Comparison.Draft) (low high : String) (x : Comparison),
      (declared.map Prod.fst).Nodup → [low, high].Sublist (declared.map Prod.fst) → high ≠ "" →
        Catalog.comparison ⟨Level.accumulate declared, operands⟩ id
          { f with level := .given low } = .ok x →
        Catalog.comparison ⟨Level.accumulate declared, operands⟩ id
          { f with level := .given high } = .ok { x with level := high }) ∧
    ∀ (r : Declarations) (more : List (String × Level.Draft)) (d : Definition),
      r.compile.result = .ok d → (more.map Prod.fst).Nodup →
      (∀ name ∈ more.map Prod.fst, name ∉ r.levels.map Prod.fst) →
        ∃ levels, (compile { r with levels := r.levels ++ more }).result =
            .ok { d with levels } ∧
          levels.entries =
            d.levels.entries ++ Level.snapshots (Level.Tally.addAll {} r.levels) more := by
  refine ⟨fun declared operands id f low high x => Catalog.comparison_raised,
    fun r more d h hnodup hnew => ?_⟩
  obtain ⟨rfl, hvalid⟩ := compile_eq_ok_iff.mp h
  exact ⟨Level.accumulate (r.levels ++ more),
    compile_eq_ok_iff.mpr ⟨rfl, hvalid.append_levels hnodup hnew⟩,
    Level.entries_accumulate_append hnodup hnew⟩

/-- A comparison of bytes, without a level. -/
def byteComparison : Comparison.Draft where
  opA := .given "r"
  opB := .given "v"
  sizes := .given [8, 8]
  types := .given ["B"]

/-- Two more levels, of which the first repeats a size. -/
def moreLevels : List (String × Level.Draft) :=
  [("L2", { sizes := [8, 32], addr := some 4 }), ("L3", { types := ["D"] })]

theorem comparison_raised_and_levels_appended_layered :
    (∃ x : Comparison, x.level = "L0" ∧ x.sizes = [8] ∧
      layered.catalog.comparison "EQ" { byteComparison with level := .given "L1" } =
        .ok { x with level := "L1" }) ∧
      ∃ d levels, layered.compile.result = .ok d ∧
        (compile { layered with levels := layered.levels ++ moreLevels }).result =
          .ok { d with levels } ∧
        levels.entries = d.levels.entries ++
          [{ name := "L2", sizes := [8, 16, 32], types := ["B", "W"], addr := 4 },
            { name := "L3", sizes := [8, 16, 32], types := ["B", "W", "D"], addr := 4 }] := by
  obtain ⟨hraised, happended⟩ := comparison_raised_and_levels_appended
  refine ⟨⟨_, rfl, rfl, hraised layered.levels _ "EQ" byteComparison "L0" "L1" _ (by decide)
    (.refl _) (by decide) rfl⟩, ?_⟩
  have hok : (failure? layered.compile.result).isNone = true := by decide +kernel
  obtain ⟨d, hd⟩ := failure?_eq_none_iff.mp (Option.isNone_iff_eq_none.mp hok)
  obtain ⟨levels, hcompile, hlevels⟩ :=
    happended layered moreLevels d hd (by decide) (by decide)
  exact ⟨d, levels, hd, hcompile, hlevels⟩

end Declarations

end InstructionSet
