import InstructionSet.Declarations.Load
import InstructionSet.Proofs.Outcome

/-!
# What loading gives

Each part of the declarations comes from one document. The opcodes are set apart, since they may
come from further documents.
-/

namespace InstructionSet.Declarations

variable {store : Store} {r : Declarations}

/-- The parts of `r` that are read from one document of `store` each. -/
structure LoadsApart (store : Store) (r : Declarations) : Prop where
  types : ∃ d, store typesName = .ok d ∧ descriptors d typesName = .ok r.types
  classes : ∃ d, store classesName = .ok d ∧ descriptors d classesName = .ok r.classes
  operands : ∃ d, store operandsName = .ok d ∧ operandList d = .ok r.operands
  levels : ∃ d, store levelsName = .ok d ∧ levelList d = .ok r.levels
  comparisons : ∃ d, store comparisonsName = .ok d ∧
    d.record templateKey Comparison.Draft.reading = .ok r.comparisonTemplate ∧
    comparisonList d = .ok r.comparisons
  opcodeTemplate : ∃ d, store opcodesName = .ok d ∧
    d.record templateKey Opcode.Draft.reading = .ok r.opcodeTemplate

/-- If all parts can be read, the warnings are those given on opcodes. -/
theorem load_eq_of_loadsApart (h : LoadsApart store r) {d : Document}
    (hd : store opcodesName = .ok d) (hopcodes : (opcodeList store d).result = .ok r.opcodes) :
    load store = ⟨(opcodeList store d).warnings, .ok r⟩ := by
  obtain ⟨types, htypes, htypeList⟩ := h.types
  obtain ⟨classes, hclasses, hclassList⟩ := h.classes
  obtain ⟨operands, hoperands, hoperandList⟩ := h.operands
  obtain ⟨levels, hlevels, hlevelList⟩ := h.levels
  obtain ⟨comparisons, hcomparisons, hcomparisonTemplate, hcomparisonList⟩ := h.comparisons
  obtain ⟨opcodes, hstore, htemplate⟩ := h.opcodeTemplate
  obtain rfl : opcodes = d := Except.ok.inj (hstore.symm.trans hd)
  simp only [load, Outcome.liftM_eq, htypes, hclasses, hoperands, hlevels, hcomparisons, hd,
    hcomparisonTemplate, hcomparisonList, htemplate, Outcome.ofExcept_ok_bind, htypeList,
    hclassList, hoperandList, hlevelList]
  rw [Outcome.bind_of_ok hopcodes]
  simp

theorem load_eq_ok_iff :
    (load store).result = .ok r ↔ LoadsApart store r ∧
      ∃ d, store opcodesName = .ok d ∧ (opcodeList store d).result = .ok r.opcodes := by
  constructor
  · intro h
    simp only [load, Outcome.liftM_eq, Outcome.bind_result, bind_eq_ok_iff,
      Outcome.ofExcept_result, Outcome.pure_result, Except.ok.injEq] at h
    obtain ⟨types, htypes, classes, hclasses, operands, hoperands, levels, hlevels, comparisons,
      hcomparisons, opcodes, hopcodes, _, hcomparisonTemplate, _, hcomparisonList, _, htemplate,
      _, hopcodeList, _, htypeList, _, hclassList, _, hoperandList, _, hlevelList, rfl⟩ := h
    exact ⟨⟨⟨types, htypes, htypeList⟩, ⟨classes, hclasses, hclassList⟩,
      ⟨operands, hoperands, hoperandList⟩, ⟨levels, hlevels, hlevelList⟩,
      ⟨comparisons, hcomparisons, hcomparisonTemplate, hcomparisonList⟩,
      ⟨opcodes, hopcodes, htemplate⟩⟩, opcodes, hopcodes, hopcodeList⟩
  · rintro ⟨h, d, hd, hopcodes⟩
    rw [load_eq_of_loadsApart h hd hopcodes]

/-- Loading that succeeds warns of nothing but the opcodes. -/
theorem warnings_load (h : (load store).result = .ok r) {d : Document}
    (hd : store opcodesName = .ok d) :
    (load store).warnings = (opcodeList store d).warnings := by
  obtain ⟨hapart, d', hd', hopcodes⟩ := load_eq_ok_iff.mp h
  obtain rfl : d' = d := Except.ok.inj (hd'.symm.trans hd)
  rw [load_eq_of_loadsApart hapart hd hopcodes]

theorem fragmentNames_eq {d : Document} {listed : Option (List String)}
    (hd : store opcodesName = .ok d) (hlisted : d.nameList fragmentsKey = .ok listed) :
    fragmentNames store = listed.getD [] := by
  rw [fragmentNames, hd, ok_bind, hlisted]
  cases listed <;> rfl

end InstructionSet.Declarations
