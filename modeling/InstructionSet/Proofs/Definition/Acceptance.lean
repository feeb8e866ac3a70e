import InstructionSet.Proofs.Definition.Compile

/-!
# Acceptance and blame

Compiling makes its checks in a fixed order: the comparisons as they are declared, then the
opcodes, each before its variants. It succeeds if they all pass and otherwise ends in the error of
the first that does not.
-/

namespace InstructionSet

/-- One check: what it is about, and the rule that it finds broken. -/
structure Check where
  subject : Subject
  breach? : Option Breach

namespace Check

def of {α : Type} (subject : Subject) (verdict : Except Breach α) : Check :=
  ⟨subject, failure? verdict⟩

def Passes (c : Check) : Prop := c.breach? = none

/-- The error in which a check that does not pass ends a compilation. -/
def error? (c : Check) : Option Error := c.breach?.map (Breach.error c.subject)

theorem error?_eq_none_iff {c : Check} : c.error? = none ↔ c.Passes :=
  Option.map_eq_none_iff

theorem error?_of {α : Type} (subject : Subject) (verdict : Except Breach α) :
    (of subject verdict).error? = failure? (verdict.mapError (Breach.error subject)) :=
  (failure?_mapError verdict _).symm

theorem passes_of_iff {α : Type} {subject : Subject} {verdict : Except Breach α} :
    (of subject verdict).Passes ↔ ∃ a, verdict = .ok a :=
  failure?_eq_none_iff

end Check

namespace Catalog

/-- The checks of the variants from number `start` on. -/
def variantChecks (c : Catalog) (id : String) (seed : Opcode.Draft) (start : Nat)
    (entries : List Opcode.Draft) : List Check :=
  (entries.zipIdx start).map fun (entry, variation) =>
    .of (.variant id variation) (c.layout (entry.onto seed).unmarked)

/-- The checks of an opcode: that of its own merged draft, and those of its variants. -/
def opcodeChecks (c : Catalog) (id : String) (d : Opcode.Draft) : List Check :=
  .of (.opcode id) (c.layout d) ::
    if d.variant.getD false then c.variantChecks id d.seed 0 (d.variants.getD []) else []

end Catalog

namespace Declarations

/-- All checks of a compilation in their order. An id declared twice is checked twice. -/
def checks (r : Declarations) : List Check :=
  (r.comparisons.map fun (id, entry) =>
    .of (.comparison id) (r.catalog.comparison id (entry.onto r.comparisonTemplate))) ++
    r.opcodes.flatMap fun (id, entry) =>
      r.catalog.opcodeChecks id (entry.onto r.opcodeTemplate)

end Declarations

/-- Every merged draft passes the check that is made of it. -/
structure Declarations.Accepted (r : Declarations) : Prop where
  comparisons : ∀ id entry, (id, entry) ∈ r.comparisons →
    ∃ x, r.catalog.comparison id (entry.onto r.comparisonTemplate) = .ok x
  opcodes : ∀ id entry, (id, entry) ∈ r.opcodes →
    ∃ l, r.catalog.layout (entry.onto r.opcodeTemplate) = .ok l
  variants : ∀ id entry, (id, entry) ∈ r.opcodes →
    (entry.onto r.opcodeTemplate).variant.getD false = true →
      ∀ variant ∈ (entry.onto r.opcodeTemplate).variants.getD [],
        ∃ l, r.catalog.layout (variant.onto (entry.onto r.opcodeTemplate).seed).unmarked = .ok l

/-! ## The error of each part is that of its first check -/

namespace Catalog

variable (c : Catalog) (id : String)

theorem failure?_variant (seed entry : Opcode.Draft) (variation : Nat) :
    failure? (c.variant id seed variation entry).result =
      (Check.of (.variant id variation) (c.layout (entry.onto seed).unmarked)).error? := by
  rw [variant_result, Check.error?_of, failure?_bind_ok]
  rfl

theorem failure?_variantsFrom (seed : Opcode.Draft) (start : Nat)
    (entries : List Opcode.Draft) :
    failure? (c.variantsFrom id seed start entries).result =
      (c.variantChecks id seed start entries).findSome? Check.error? := by
  induction entries generalizing start with
  | nil => rfl
  | cons entry rest ih =>
      rw [variantsFrom, Outcome.bind_result, variantChecks, List.zipIdx_cons, List.map_cons,
        findSome?_cons_eq_or, ← failure?_variant]
      refine failure?_bind fun v => ?_
      rw [Outcome.bind_result]
      exact (failure?_bind_ok _ _).trans (ih (start + 1))

theorem failure?_shape (d : Opcode.Draft) :
    failure? (c.shape id d).result =
      (if d.variant.getD false then c.variantChecks id d.seed 0 (d.variants.getD [])
        else []).findSome? Check.error? := by
  rw [shape]
  split
  · rw [Outcome.bind_result, ← failure?_variantsFrom]
    exact failure?_bind_ok _ _
  · rw [Outcome.bind_result, Outcome.warnIf_result]
    rfl

theorem failure?_opcode (classes : Table Descriptor) (d : Opcode.Draft) :
    failure? (c.opcode classes id d).result =
      (c.opcodeChecks id d).findSome? Check.error? := by
  rw [opcode_result, opcodeChecks, findSome?_cons_eq_or, Check.error?_of, ← failure?_shape]
  exact failure?_bind fun layout => failure?_bind_ok _ _

end Catalog

namespace Declarations

theorem failure?_compile (r : Declarations) :
    failure? r.compile.result = r.checks.findSome? Check.error? := by
  have hcomparisons : failure? (r.mergedComparisons.mapM fun entry =>
      (r.catalog.comparison entry.1 entry.2).mapError (Breach.error (.comparison entry.1))) =
        (r.comparisons.map fun (id, entry) => Check.of (.comparison id)
          (r.catalog.comparison id (entry.onto r.comparisonTemplate))).findSome?
            Check.error? := by
    rw [failure?_mapM, mergedComparisons, List.findSome?_map, List.findSome?_map]
    congr 1
    funext entry
    exact (Check.error?_of _ _).symm
  have hopcodes : failure? (r.mergedOpcodes.mapM fun entry =>
      (r.catalog.opcode (.ofList r.classes) entry.1 entry.2).result) =
        (r.opcodes.flatMap fun (id, entry) =>
          r.catalog.opcodeChecks id (entry.onto r.opcodeTemplate)).findSome? Check.error? := by
    rw [failure?_mapM, mergedOpcodes, List.findSome?_map, findSome?_flatMap]
    congr 1
    funext entry
    exact Catalog.failure?_opcode _ _ _ _
  rw [compile_result, checks, List.findSome?_append, ← hcomparisons, ← hopcodes]
  exact failure?_bind fun comparisons => failure?_bind_ok _ _

end Declarations

/-! ## All checks together -/

theorem Catalog.forall_opcodeChecks_iff (c : Catalog) (id : String) (d : Opcode.Draft) :
    (∀ check ∈ c.opcodeChecks id d, check.Passes) ↔
      (∃ l, c.layout d = .ok l) ∧ (d.variant.getD false = true →
        ∀ variant ∈ d.variants.getD [], ∃ l, c.layout (variant.onto d.seed).unmarked = .ok l) := by
  rw [opcodeChecks, List.forall_mem_cons, Check.passes_of_iff]
  refine and_congr_right fun _ => ?_
  by_cases hvariant : d.variant.getD false = true
  · simp only [hvariant, if_true, forall_const, variantChecks, List.forall_mem_map,
      Prod.forall, Check.passes_of_iff]
    constructor
    · intro h variant hmem
      obtain ⟨variation, hlt, rfl⟩ := List.getElem_of_mem hmem
      exact h _ variation (List.mk_mem_zipIdx_iff_getElem?.mpr (List.getElem?_eq_getElem hlt))
    · intro h variant variation hmem
      exact h variant (List.fst_mem_of_mem_zipIdx hmem)
  · simp [hvariant]

namespace Declarations

theorem forall_checks_iff (r : Declarations) :
    (∀ check ∈ r.checks, check.Passes) ↔ r.Accepted := by
  simp only [checks, List.forall_mem_append, List.forall_mem_map, List.forall_mem_flatMap,
    Catalog.forall_opcodeChecks_iff, Check.passes_of_iff, Prod.forall]
  constructor
  · rintro ⟨hcomparisons, hopcodes⟩
    exact ⟨hcomparisons, fun id entry h => (hopcodes id entry h).1,
      fun id entry h => (hopcodes id entry h).2⟩
  · intro h
    exact ⟨h.comparisons, fun id entry hmem =>
      ⟨h.opcodes id entry hmem, h.variants id entry hmem⟩⟩

/-- Compiling succeeds exactly if every comparison passes its check and every opcode passes its
own, along with each variant that it lists if it is marked as variant. If compiling fails, it
fails with the error of the first check that does not pass. -/
theorem compile_ok_iff_and_error_iff (r : Declarations) :
    ((∃ d, r.compile.result = .ok d) ↔ r.Accepted) ∧
      ∀ e, r.compile.result = .error e ↔
        ∃ before check breach after, r.checks = before ++ check :: after ∧
          (∀ earlier ∈ before, earlier.Passes) ∧ check.breach? = some breach ∧
            e = .violation ⟨check.subject, breach⟩ := by
  constructor
  · rw [← forall_checks_iff, ← failure?_eq_none_iff, failure?_compile,
      List.findSome?_eq_none_iff]
    simp only [Check.error?_eq_none_iff]
  · intro e
    rw [← failure?_eq_some_iff, failure?_compile, List.findSome?_eq_some_iff]
    constructor
    · rintro ⟨before, check, after, hchecks, hcheck, hbefore⟩
      obtain ⟨breach, hbreach, rfl⟩ := Option.map_eq_some_iff.mp hcheck
      exact ⟨before, check, breach, after, hchecks,
        fun earlier h => Check.error?_eq_none_iff.mp (hbefore earlier h), hbreach, rfl⟩
    · rintro ⟨before, check, breach, after, hchecks, hbefore, hbreach, rfl⟩
      exact ⟨before, check, after, hchecks, Option.map_eq_some_iff.mpr ⟨breach, hbreach, rfl⟩,
        fun earlier h => Check.error?_eq_none_iff.mpr (hbefore earlier h)⟩

end Declarations

end InstructionSet
