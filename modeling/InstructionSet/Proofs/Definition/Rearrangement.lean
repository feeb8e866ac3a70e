import InstructionSet.Proofs.Declarations.Distinct
import InstructionSet.Proofs.Definition.Acceptance
import InstructionSet.Proofs.Definition.Source
import InstructionSet.Proofs.Table

/-!
# Declarations in another order

Types, classes, operands and opcodes of distinct names can be declared in any order. Nothing that
is looked up depends on it, and no opcode has an influence on another.
-/

namespace InstructionSet

/-! ## Tables that follow an order -/

/-- Two tables hold the same entries, each in the order of a list of the same names. -/
structure Table.Follow {α β : Type} [Named α] [Named β] (xs ys : List α) (s t : Table β) :
    Prop where
  perm : s.entries.Perm t.entries
  order : ∃ f : α → β, (∀ x, Named.name (f x) = Named.name x) ∧
    s.entries = xs.map f ∧ t.entries = ys.map f

namespace Table

variable {α β : Type} [Named α] [Named β] {xs ys : List α}

theorem follow_ofList_map {f : α → β} (hf : ∀ x, Named.name (f x) = Named.name x)
    (hnodup : (xs.map Named.name).Nodup) (h : xs.Perm ys) :
    Follow xs ys (.ofList (xs.map f)) (.ofList (ys.map f)) := by
  have hentries (list : List α) (hlist : (list.map Named.name).Nodup) :
      (ofList (list.map f)).entries = list.map f := by
    have hnames : (list.map f).map Named.name = list.map Named.name := by
      rw [List.map_map]
      exact List.map_congr_left fun x _ => hf x
    exact entries_ofList_of_nodup (hnames ▸ hlist)
  have hxs := hentries xs hnodup
  have hys := hentries ys ((h.map Named.name).nodup_iff.mp hnodup)
  refine ⟨?_, f, hf, hxs, hys⟩
  rw [hxs, hys]
  exact h.map f

theorem follow_ofList (hnodup : (xs.map Named.name).Nodup) (h : xs.Perm ys) :
    Follow xs ys (.ofList xs) (.ofList ys) := by
  simpa only [List.map_id] using follow_ofList_map (f := id) (fun _ => rfl) hnodup h

end Table

/-! ## Checks against equal lookups -/

namespace Catalog

variable {c c' : Catalog} (h : ∀ name, c'.operands.get? name = c.operands.get? name)

include h

theorem operand_congr (side : OperandSide) : c'.operand side = c.operand side := by
  funext name
  simp only [operand, h]

theorem extensionOperands_congr (word : Nat) (words : List (List String)) :
    c'.extensionOperands word words = c.extensionOperands word words := by
  induction words generalizing word with
  | nil => rfl
  | cons names words ih =>
      have hoperand : c'.wordOperand word = c.wordOperand word := by
        funext name
        simp only [wordOperand, h]
      simp only [extensionOperands, wordOperands, hoperand, ih]

theorem comparison_congr (hlevels : c'.levels = c.levels) : c'.comparison = c.comparison := by
  funext id d
  simp only [comparison, level, hlevels, operand_congr h]

theorem layout_congr : c'.layout = c.layout := by
  funext d
  simp only [layout, operand_congr h, extensionOperands_congr h]

theorem opcodeChecks_congr : c'.opcodeChecks = c.opcodeChecks := by
  funext id d
  simp only [opcodeChecks, variantChecks, layout_congr h]

end Catalog

/-! ## Rearranged declarations -/

namespace Declarations

/-- The same declarations, with types, classes, operands and opcodes in another order. -/
structure Rearranges (r s : Declarations) : Prop where
  types : r.types.Perm s.types
  classes : r.classes.Perm s.classes
  operands : r.operands.Perm s.operands
  levels : s.levels = r.levels
  comparisonTemplate : s.comparisonTemplate = r.comparisonTemplate
  comparisons : s.comparisons = r.comparisons
  opcodeTemplate : s.opcodeTemplate = r.opcodeTemplate
  opcodes : r.opcodes.Perm s.opcodes

/-- Each opcode is described by its own entry alone. -/
theorem definition_opcodes (r : Declarations) : r.definition.opcodes =
    .ofList (r.opcodes.map fun (id, entry) => (entry.onto r.opcodeTemplate).opcode id) := by
  rw [definition, mergedOpcodes, List.map_map]
  rfl

end Declarations

/-- Two definitions from declarations in different orders. -/
structure Definition.Rearranged (r s : Declarations) (d e : Definition) : Prop where
  types : Table.Follow r.types s.types d.types e.types
  classes : Table.Follow r.classes s.classes d.classes e.classes
  operands : Table.Follow r.operands s.operands d.operands e.operands
  levels : e.levels = d.levels
  comparisons : e.comparisons = d.comparisons
  opcodes : Table.Follow r.opcodes s.opcodes d.opcodes e.opcodes
  lookup : ∀ name, e.opcode? name = d.opcode? name
  forms : ∀ m : Mnemonic, m.forms e.comparisons = m.forms d.comparisons

namespace Declarations.Rearranges

variable {r s : Declarations} (h : r.Rearranges s) (hr : r.Distinct)

include h hr

theorem get?_operands (name : String) :
    s.catalog.operands.get? name = r.catalog.operands.get? name :=
  Table.get?_ofList_of_perm hr.operands h.operands name

/-- Only the opcodes have an influence on the order of checks, and none on a check. -/
theorem checks_eq : s.checks =
    (r.comparisons.map fun (id, entry) =>
      .of (.comparison id) (r.catalog.comparison id (entry.onto r.comparisonTemplate))) ++
      s.opcodes.flatMap fun (id, entry) =>
        r.catalog.opcodeChecks id (entry.onto r.opcodeTemplate) := by
  have hget := h.get?_operands hr
  have hlevels : s.catalog.levels = r.catalog.levels := congrArg Level.accumulate h.levels
  rw [checks, Catalog.comparison_congr hget hlevels, Catalog.opcodeChecks_congr hget,
    h.comparisons, h.comparisonTemplate, h.opcodeTemplate]

theorem checks_perm : r.checks.Perm s.checks := by
  rw [h.checks_eq hr]
  exact .append_left _ (h.opcodes.flatMap_right _)

theorem compile_ok_iff :
    (∃ d, r.compile.result = .ok d) ↔ ∃ e, s.compile.result = .ok e := by
  rw [(compile_ok_iff_and_error_iff r).1, (compile_ok_iff_and_error_iff s).1, ← forall_checks_iff,
    ← forall_checks_iff]
  simp only [(h.checks_perm hr).mem_iff]

theorem failure?_compile_eq (hopcodes : s.opcodes = r.opcodes) :
    failure? s.compile.result = failure? r.compile.result := by
  rw [failure?_compile, failure?_compile, h.checks_eq hr, hopcodes, checks]

theorem rearranged_definition : Definition.Rearranged r s r.definition s.definition := by
  have hopcodes : Table.Follow r.opcodes s.opcodes r.definition.opcodes s.definition.opcodes := by
    rw [definition_opcodes, definition_opcodes, h.opcodeTemplate]
    exact Table.follow_ofList_map (fun _ => rfl) hr.opcodes h.opcodes
  have hcomparisons : s.definition.comparisons = r.definition.comparisons := by
    simp only [definition, mergedComparisons, h.comparisons, h.comparisonTemplate]
  exact {
    types := Table.follow_ofList hr.types h.types
    classes := Table.follow_ofList hr.classes h.classes
    operands := Table.follow_ofList hr.operands h.operands
    levels := congrArg Level.accumulate h.levels
    comparisons := hcomparisons
    opcodes := hopcodes
    lookup := Table.get?_eq_of_perm hopcodes.perm
    forms := fun m => congrArg m.forms hcomparisons }

theorem rearranged_of_compile {d e : Definition} (hd : r.compile.result = .ok d)
    (he : s.compile.result = .ok e) : Definition.Rearranged r s d e := by
  obtain ⟨rfl, -⟩ := compile_eq_ok_iff.mp hd
  obtain ⟨rfl, -⟩ := compile_eq_ok_iff.mp he
  exact h.rearranged_definition hr

end Declarations.Rearranges

namespace Declarations

/-- Declarations from texts that can be compiled can also be in any other order. -/
theorem Rearranges.compile_of_texts {store : Store} {r s : Declarations} {d : Definition}
    (h : r.Rearranges s) (hstore : store.ReadsTexts) (hr : (load store).result = .ok r)
    (hd : r.compile.result = .ok d) :
    ∃ e, s.compile.result = .ok e ∧ Definition.Rearranged r s d e := by
  have hdistinct := distinct_of_texts hstore hr
  obtain ⟨e, he⟩ := (h.compile_ok_iff hdistinct).mp ⟨d, hd⟩
  exact ⟨e, he, h.rearranged_of_compile hdistinct hd he⟩

/-- Loaded declarations have distinct names if no document has a key twice, and none has that was
read from a text. Distinct declarations can be rearranged: compiling succeeds in one order if it
does in the other, and then the tables follow the order while all that is looked up in them stays.
If the opcodes keep their order, the error stays too. -/
theorem compile_rearranged :
    (∀ store, Store.Keyed store → ∀ r, (load store).result = .ok r → r.Distinct) ∧
    (∀ store, Store.ReadsTexts store → Store.Keyed store) ∧
    ∀ r s : Declarations, r.Distinct → r.Rearranges s →
      ((∃ d, r.compile.result = .ok d) ↔ ∃ e, s.compile.result = .ok e) ∧
      (∀ d e, r.compile.result = .ok d → s.compile.result = .ok e →
        Definition.Rearranged r s d e) ∧
      (s.opcodes = r.opcodes →
        ∀ e, r.compile.result = .error e ↔ s.compile.result = .error e) := by
  refine ⟨fun store hstore r => distinct_of_load hstore, fun store => Store.ReadsTexts.keyed,
    fun r s hr h => ?_⟩
  refine ⟨h.compile_ok_iff hr, fun d e => h.rearranged_of_compile hr, fun hopcodes e => ?_⟩
  rw [← failure?_eq_some_iff, ← failure?_eq_some_iff, h.failure?_compile_eq hr hopcodes]

/-- The same with types, classes and operands in reverse, and with other opcodes. -/
def reversed (r : Declarations) (opcodes : List (String × Opcode.Draft)) : Declarations :=
  { r with
    types := r.types.reverse
    classes := r.classes.reverse
    operands := r.operands.reverse
    opcodes }

theorem rearranges_reversed (r : Declarations) {opcodes : List (String × Opcode.Draft)}
    (h : r.opcodes.Perm opcodes) : r.Rearranges (r.reversed opcodes) where
  types := r.types.reverse_perm.symm
  classes := r.classes.reverse_perm.symm
  operands := r.operands.reverse_perm.symm
  levels := rfl
  comparisonTemplate := rfl
  comparisons := rfl
  opcodeTemplate := rfl
  opcodes := h

/-- Two types, two operands and two opcodes, one of which bears variants. -/
def assorted : Store :=
  smallStore [("B", .null), ("W", .null)]
    [("r", .object [("bits", Json.ofNat 4)]),
      ("v", .object [("bits", Json.ofNat 4), ("type", .text "variant")])]
    [("MOVE", .object [("form", .text "mov")]),
      ("PICK", .object [("opA", .text "v"), ("variant", .bool true),
        ("variants", .array [.object [("form", .text "first")], .object []])])]

/-- The opcodes change places. Without a template the first of them is at fault in any order of
the operands. -/
theorem compile_rearranged_assorted :
    ∃ r, (load assorted).result = .ok r ∧ r.Distinct ∧
      (∃ d e, r.compile.result = .ok d ∧
        (r.reversed r.opcodes.reverse).compile.result = .ok e ∧
        Definition.Rearranged r (r.reversed r.opcodes.reverse) d e ∧
        d.opcodes.names = ["MOVE", "PICK"] ∧ e.opcodes.names = ["PICK", "MOVE"]) ∧
      let bare : Declarations := { r with opcodeTemplate := {} }
      (bare.reversed bare.opcodes).compile.result =
        .error (.violation ⟨.opcode "MOVE", .operandMissing .a⟩) := by
  obtain ⟨hloaded, -, hrearranged⟩ := compile_rearranged
  have hkeyed : Store.Keyed assorted := keyed_smallStore (by decide +kernel)
  have hr := hloaded assorted hkeyed _ rfl
  refine ⟨_, rfl, hr, ⟨_, _, rfl, rfl, ?_, by decide +kernel, by decide +kernel⟩, ?_⟩
  · exact (hrearranged _ _ hr (rearranges_reversed _ (List.reverse_perm _).symm)).2.1 _ _ rfl rfl
  · intro bare
    have hbare : bare.Distinct :=
      ⟨hr.types, hr.classes, hr.operands, hr.levels, hr.comparisons, hr.opcodes⟩
    have hkept := (hrearranged bare _ hbare (rearranges_reversed bare (.refl _))).2.2 rfl
    exact (hkept _).mp rfl

end Declarations

end InstructionSet
