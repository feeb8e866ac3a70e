import InstructionSet.Proofs.Declarations.Load
import InstructionSet.Proofs.Document

/-!
# The order of loading

Loading takes its steps in a fixed order, and the first that fails gives the error. Comparisons
and opcodes come before the descriptions that they build on, so an error in the latter is not
always the one that is reported.
-/

namespace InstructionSet.Declarations

/-- A step of loading: a document is looked up, or a part of a document is read. -/
inductive Step where
  | document (name : String)
  | types
  | classes
  | operands
  | levels
  | comparisonTemplate
  | comparisons
  | opcodeTemplate
  | opcodeMapping
  | fragmentList
  | opcodeSource
  | inlineOpcodes
  | fragment (name : String)

namespace Step

/-- The error in which the step ends if it is taken by itself. -/
def error? (store : Store) : Step → Option Error
  | document name => failure? (store name)
  | types => failure? (store typesName >>= fun d => descriptors d typesName)
  | classes => failure? (store classesName >>= fun d => descriptors d classesName)
  | operands => failure? (store operandsName >>= operandList)
  | levels => failure? (store levelsName >>= levelList)
  | comparisonTemplate => failure? (store comparisonsName >>= fun d =>
      d.record templateKey Comparison.Draft.reading)
  | comparisons => failure? (store comparisonsName >>= comparisonList)
  | opcodeTemplate => failure? (store opcodesName >>= fun d =>
      d.record templateKey Opcode.Draft.reading)
  | opcodeMapping => failure? (store opcodesName >>= fun d => d.optionalMapping opcodesName)
  | fragmentList => failure? (store opcodesName >>= fun d => d.nameList fragmentsKey)
  | opcodeSource => failure? (store opcodesName >>= fun d =>
      if (d.value? opcodesName).isNone && (d.value? fragmentsKey).isNone then
        d.fail (.namesMissing fragmentsKey)
      else (.ok () : Except Error Unit))
  | inlineOpcodes => failure? (store opcodesName >>= fun d => do
      opcodeEntries d ((← d.optionalMapping opcodesName).getD []))
  | fragment name => failure? (store name >>= fun d => do
      opcodeEntries d (← d.mapping opcodesName))

end Step

/-- The required documents are looked up before anything is read. -/
def documentSteps : List Step := requiredNames.map .document

def descriptionSteps : List Step := [.types, .classes, .operands, .levels]

def comparisonSteps : List Step := [.comparisonTemplate, .comparisons]

/-- The opcode document is read before its fragments, which follow as they are listed. -/
def opcodeListSteps (store : Store) : List Step :=
  [.opcodeMapping, .fragmentList, .opcodeSource, .inlineOpcodes] ++
    (fragmentNames store).map .fragment

def opcodeSteps (store : Store) : List Step := .opcodeTemplate :: opcodeListSteps store

/-- What is laid over templates. -/
def templatedSteps (store : Store) : List Step := comparisonSteps ++ opcodeSteps store

/-- All steps as they are taken. -/
def steps (store : Store) : List Step :=
  documentSteps ++ (templatedSteps store ++ descriptionSteps)

/-- All steps in the order in which what they read is built on. -/
def pipeline (store : Store) : List Step :=
  documentSteps ++ (descriptionSteps ++ templatedSteps store)

/-! ## Opcodes -/

variable {store : Store}

theorem declareAll_result (document : String) (known : Table (String × Opcode.Draft))
    (entries : List (String × Opcode.Draft)) :
    (declareAll document known entries).result = .ok (entries.foldl Table.insert known) := by
  induction entries generalizing known with
  | nil => rfl
  | cons entry rest ih =>
      rw [declareAll, Outcome.bind_result, Outcome.warnIf_result, List.foldl_cons, ← ih]
      rfl

theorem failure?_declareFragment (known : Table (String × Opcode.Draft)) (name : String) :
    failure? (declareFragment store known name).result = (Step.fragment name).error? store := by
  simp only [declareFragment, Outcome.liftM_eq, Outcome.bind_result, Outcome.ofExcept_result,
    declareAll_result, Step.error?]
  exact failure?_bind_congr fun d => failure?_bind_congr fun members => failure?_bind_ok _ _

theorem failure?_foldlM_declareFragment (names : List String)
    (known : Table (String × Opcode.Draft)) :
    failure? (names.foldlM (declareFragment store) known).result =
      (names.map Step.fragment).findSome? (Step.error? store) := by
  induction names generalizing known with
  | nil => rfl
  | cons name names ih =>
      rw [List.foldlM_cons, Outcome.bind_result, List.map_cons, findSome?_cons_eq_or,
        ← failure?_declareFragment known]
      exact failure?_bind fun next => ih next

theorem failure?_opcodeList {d : Document} (hd : store opcodesName = .ok d) :
    failure? (opcodeList store d).result =
      (opcodeListSteps store).findSome? (Step.error? store) := by
  simp only [opcodeList, Outcome.liftM_eq, Outcome.bind_result, Outcome.ofExcept_result,
    opcodeListSteps, List.cons_append, List.nil_append, findSome?_cons_eq_or]
  simp only [Step.error?, hd, ok_bind]
  refine failure?_bind_of fun inline hinline => failure?_bind_of fun listed hlisted => ?_
  have hmapping : (d.value? opcodesName).isNone = inline.isNone := by
    rw [Document.optionalMapping_eq_ok_iff.mp hinline, Option.isNone_map]
  have hlist : (d.value? fragmentsKey).isNone = listed.isNone := by
    rw [Document.nameList_eq_ok_iff.mp hlisted, Option.isNone_map]
  rw [hmapping, hlist, hinline, ok_bind, fragmentNames_eq hd hlisted]
  by_cases hsource : (inline.isNone && listed.isNone) = true
  · rw [if_pos hsource, if_pos hsource]
    rfl
  · rw [if_neg hsource, if_neg hsource]
    simp only [Outcome.bind_result, Outcome.ofExcept_result, declareAll_result,
      Outcome.pure_result]
    refine failure?_bind fun entries => ?_
    rw [ok_bind, failure?_bind_ok, failure?_foldlM_declareFragment]

/-! ## All steps -/

theorem failure?_load (store : Store) :
    failure? (load store).result = (steps store).findSome? (Step.error? store) := by
  simp only [load, Outcome.liftM_eq, Outcome.bind_result, Outcome.ofExcept_result,
    Outcome.pure_result, steps, documentSteps, requiredNames, templatedSteps, comparisonSteps,
    opcodeSteps, descriptionSteps, List.map_cons, List.map_nil, List.cons_append, List.nil_append,
    List.findSome?_append, findSome?_cons_eq_or, List.findSome?_nil, Option.or_none]
  refine failure?_bind_of fun types htypes => failure?_bind_of fun classes hclasses => ?_
  refine failure?_bind_of fun operands hoperands => failure?_bind_of fun levels hlevels => ?_
  refine failure?_bind_of fun comparisons hcomparisons => failure?_bind_of fun opcodes hd => ?_
  rw [← failure?_opcodeList hd]
  simp only [Step.error?, htypes, hclasses, hoperands, hlevels, hcomparisons, hd, ok_bind]
  refine failure?_bind fun _ => failure?_bind fun _ => failure?_bind fun _ => ?_
  refine failure?_bind fun _ => failure?_bind fun _ => failure?_bind fun _ => ?_
  exact failure?_bind fun _ => failure?_bind_ok _ _

theorem mem_steps_iff_mem_pipeline {step : Step} : step ∈ steps store ↔ step ∈ pipeline store := by
  simp only [steps, pipeline, List.mem_append, or_comm]

/-- The two orders report one error unless descriptions and templated parts are both at fault. -/
theorem findSome?_steps_eq_pipeline
    (h : (∃ step ∈ documentSteps, step.error? store ≠ none) ∨
      (∀ step ∈ descriptionSteps, step.error? store = none) ∨
      ∀ step ∈ templatedSteps store, step.error? store = none) :
    (steps store).findSome? (Step.error? store) =
      (pipeline store).findSome? (Step.error? store) := by
  simp only [steps, pipeline, List.findSome?_append]
  rcases h with ⟨step, hmem, hfail⟩ | h | h
  · cases hdocuments : documentSteps.findSome? (Step.error? store) with
    | none => exact absurd (List.findSome?_eq_none_iff.mp hdocuments step hmem) hfail
    | some e => rfl
  · rw [List.findSome?_eq_none_iff.mpr h, Option.or_none, Option.none_or]
  · rw [List.findSome?_eq_none_iff.mpr h, Option.or_none, Option.none_or]

/-- Loading fails as the first of its steps that fails, and only then. If the documents are there,
a failure among the comparisons and opcodes is reported, whatever else is wrong. It is the first
in the order of the pipeline unless the descriptions are at fault too. -/
theorem load_error_iff_first_step (store : Store) :
    (∀ e, (load store).result = .error e ↔
      ∃ before step after, steps store = before ++ step :: after ∧
        (∀ earlier ∈ before, earlier.error? store = none) ∧ step.error? store = some e) ∧
    ((∃ r, (load store).result = .ok r) ↔
      ∀ step ∈ pipeline store, step.error? store = none) ∧
    (∀ e, (∀ step ∈ documentSteps, step.error? store = none) →
      (templatedSteps store).findSome? (Step.error? store) = some e →
        (load store).result = .error e) ∧
    ((∃ step ∈ documentSteps, step.error? store ≠ none) ∨
      (∀ step ∈ descriptionSteps, step.error? store = none) ∨
      (∀ step ∈ templatedSteps store, step.error? store = none) →
        failure? (load store).result = (pipeline store).findSome? (Step.error? store)) := by
  refine ⟨fun e => ?_, ?_, fun e hdocuments hfirst => ?_, fun h => ?_⟩
  · rw [← failure?_eq_some_iff, failure?_load, List.findSome?_eq_some_iff]
    refine exists_congr fun before => exists_congr fun step => exists_congr fun after => ?_
    exact and_congr_right fun _ => and_comm
  · rw [← failure?_eq_none_iff, failure?_load, List.findSome?_eq_none_iff]
    simp only [mem_steps_iff_mem_pipeline]
  · rw [← failure?_eq_some_iff, failure?_load, steps, List.findSome?_append,
      List.findSome?_append, List.findSome?_eq_none_iff.mpr hdocuments, hfirst]
    rfl
  · rw [failure?_load, findSome?_steps_eq_pipeline h]

/-- Required documents that hold nothing of what is read from them. -/
def undescribed : Store := fun name =>
  if name ∈ requiredNames then .ok ⟨name, [("note", .null)]⟩
  else .error (.load name .noSuchDocument)

theorem load_error_iff_first_step_undescribed :
    (∀ step ∈ documentSteps, step.error? undescribed = none) ∧
      (load undescribed).result =
        .error (.load comparisonsName (.templateMissing templateKey)) := by
  have hdocuments : ∀ step ∈ documentSteps, step.error? undescribed = none :=
    List.findSome?_eq_none_iff.mp rfl
  exact ⟨hdocuments, (load_error_iff_first_step undescribed).2.2.1 _ hdocuments rfl⟩

/-- The types are at fault and come first in the pipeline, but the comparisons are reported. -/
theorem types_reported_after_comparisons :
    (∀ step ∈ documentSteps, step.error? undescribed = none) ∧
      (pipeline undescribed).findSome? (Step.error? undescribed) =
        some (.load typesName (.mappingMissing typesName)) ∧
      (load undescribed).result = .error (.load comparisonsName (.templateMissing templateKey)) :=
  ⟨List.findSome?_eq_none_iff.mp rfl, rfl, rfl⟩

end InstructionSet.Declarations
