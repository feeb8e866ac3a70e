import InstructionSet.Proofs.Declarations.Fragments
import InstructionSet.Proofs.Definition.Soundness
import InstructionSet.Proofs.Definition.Source
import InstructionSet.Proofs.Table

/-!
# Warnings of undefined classes

A run that succeeds warns once of every opcode whose own class is not defined, in the order of the
opcodes, and of no other class. The classes of variants are not looked up.
-/

namespace InstructionSet

namespace Warning

/-- The opcode and the class that a warning of an undefined class names. -/
def undefinedClass? : Warning → Option (String × String)
  | .classUndefined opcode className => some (opcode, className)
  | _ => none

theorem undefinedClass?_eq_some_iff {w : Warning} {opcode className : String} :
    w.undefinedClass? = some (opcode, className) ↔ w = .classUndefined opcode className := by
  cases w <;> simp [undefinedClass?]

theorem classUndefined_mem_iff {warnings : List Warning} {opcode className : String} :
    classUndefined opcode className ∈ warnings ↔
      (opcode, className) ∈ warnings.filterMap undefinedClass? := by
  simp [undefinedClass?_eq_some_iff]

end Warning

/-- The opcode with its class, if it has one that is not in the table. -/
def Opcode.undefinedClass? (classes : Table Descriptor) (o : Opcode) : Option (String × String) :=
  o.traits.className.bind fun className =>
    if classes.contains className then none else some (o.name, className)

/-- The opcodes of undefined classes, each with its class. -/
def Definition.undefinedClasses (d : Definition) : List (String × String) :=
  d.opcodes.entries.filterMap (Opcode.undefinedClass? d.classes)

/-! ## Compiling -/

namespace Catalog

variable (c : Catalog) (id : String)

theorem undefinedClass?_variant (seed entry : Opcode.Draft) (variation : Nat) :
    ∀ w ∈ (c.variant id seed variation entry).warnings, w.undefinedClass? = none := by
  rw [variant]
  refine forall_warnings_bind ?_ fun _ => forall_warnings_bind ?_ fun _ => ?_
  · rw [Outcome.warnIf_warnings]
    split <;> simp [Warning.undefinedClass?]
  · simp
  · simp

theorem undefinedClass?_variantsFrom (seed : Opcode.Draft) (start : Nat)
    (entries : List Opcode.Draft) :
    ∀ w ∈ (c.variantsFrom id seed start entries).warnings, w.undefinedClass? = none := by
  induction entries generalizing start with
  | nil => simp [variantsFrom]
  | cons entry rest ih =>
      rw [variantsFrom]
      refine forall_warnings_bind (c.undefinedClass?_variant id seed entry start) fun _ =>
        forall_warnings_bind (ih (start + 1)) fun _ => ?_
      simp

/-- Nothing that is found out about variants concerns a class. -/
theorem undefinedClass?_shape (d : Opcode.Draft) :
    ∀ w ∈ (c.shape id d).warnings, w.undefinedClass? = none := by
  rw [shape]
  split
  · refine forall_warnings_bind (c.undefinedClass?_variantsFrom id d.seed 0 _) fun _ => ?_
    simp
  · refine forall_warnings_bind ?_ fun _ => ?_
    · rw [Outcome.warnIf_warnings]
      split <;> simp [Warning.undefinedClass?]
    · simp

theorem undefinedClasses_opcode {classes : Table Descriptor} {d : Opcode.Draft} {o : Opcode}
    (h : (c.opcode classes id d).result = .ok o) :
    (c.opcode classes id d).warnings.filterMap Warning.undefinedClass? =
      (o.undefinedClass? classes).toList := by
  obtain ⟨rfl, hvalid⟩ := opcode_eq_ok_iff.mp h
  have hlayout : c.layout d = .ok d.layout := layout_eq_ok_iff.mpr ⟨rfl, hvalid.valid⟩
  have hshape : (c.shape id d).result = .ok (d.shape id) :=
    shape_eq_ok_iff.mpr ⟨rfl, hvalid.variants⟩
  have hnone : (c.shape id d).warnings.filterMap Warning.undefinedClass? = [] :=
    List.filterMap_eq_nil_iff.mpr (c.undefinedClass?_shape id d)
  have hclass : (d.opcode id).traits.className = d.className.value? := rfl
  simp only [opcode, Outcome.liftM_eq, hlayout, Except.mapError, Outcome.ofExcept_ok_bind,
    Opcode.undefinedClass?, hclass]
  cases d.className.value? with
  | none =>
      dsimp only
      rw [Outcome.bind_of_ok hshape]
      simpa using hnone
  | some className =>
      dsimp only
      rw [Outcome.bind_of_ok (Outcome.warnIf_result _ _), Outcome.bind_of_ok hshape]
      cases hknown : classes.contains className <;>
        simp [hknown, hnone, Warning.undefinedClass?, Opcode.Draft.opcode]

end Catalog

namespace Declarations

/-- Only the opcodes are warned of, each in its turn. -/
theorem warnings_compile {r : Declarations} {d : Definition} (h : r.compile.result = .ok d) :
    r.compile.warnings = r.mergedOpcodes.flatMap fun entry =>
      (r.catalog.opcode (.ofList r.classes) entry.1 entry.2).warnings := by
  simp only [compile, Outcome.bind_result, Outcome.liftM_eq, Outcome.ofExcept_result,
    bind_eq_ok_iff] at h
  obtain ⟨comparisons, hcomparisons, opcodes, hopcodes, -⟩ := h
  simp only [compile, Outcome.liftM_eq, hcomparisons, Outcome.ofExcept_ok_bind]
  rw [Outcome.bind_of_ok hopcodes, Outcome.pure_warnings, List.append_nil, warnings_mapM hopcodes,
    mergedOpcodes, List.flatMap_map]

/-- Opcodes of distinct ids are all in the table, in the order of declaration. -/
theorem entries_opcodes {r : Declarations} (h : (r.opcodes.map Prod.fst).Nodup) :
    r.definition.opcodes.entries = r.mergedOpcodes.map fun (id, d) => d.opcode id := by
  have hnames : (r.mergedOpcodes.map fun (id, d) => d.opcode id).map Named.name =
      r.opcodes.map Prod.fst := by
    rw [mergedOpcodes, List.map_map, List.map_map]
    rfl
  exact Table.entries_ofList_of_nodup (hnames ▸ h)

theorem undefinedClasses_compile {r : Declarations} {d : Definition}
    (h : r.compile.result = .ok d) (hids : (r.opcodes.map Prod.fst).Nodup) :
    r.compile.warnings.filterMap Warning.undefinedClass? = d.undefinedClasses := by
  obtain ⟨rfl, hvalid⟩ := compile_eq_ok_iff.mp h
  rw [warnings_compile h, Definition.undefinedClasses, entries_opcodes hids,
    List.filterMap_flatMap, List.filterMap_map, List.filterMap_eq_flatMap_toList]
  refine List.flatMap_congr fun entry hentry => ?_
  exact r.catalog.undefinedClasses_opcode entry.1
    (Catalog.opcode_eq_ok_iff.mpr ⟨rfl, hvalid.opcodes entry hentry⟩)

/-- The ids of opcodes that are loaded are distinct, and no class is remarked on. -/
theorem opcodes_of_load {store : Store} {r : Declarations} (h : (load store).result = .ok r) :
    (r.opcodes.map Prod.fst).Nodup ∧
      (load store).warnings.filterMap Warning.undefinedClass? = [] := by
  obtain ⟨-, d, hd, hopcodes⟩ := load_eq_ok_iff.mp h
  obtain ⟨s, hs⟩ := exists_sources hd hopcodes
  rw [((s.load_eq_ok_iff hs r).mp h).2, warnings_load h s.document_eq, s.opcodeList_eq hs]
  refine ⟨nodup_settledOpcodes s.members, List.filterMap_eq_nil_iff.mpr fun w hw => ?_⟩
  obtain ⟨⟨e, i⟩, -, hw⟩ := List.mem_filterMap.mp hw
  dsimp only at hw
  split at hw
  · rw [← Option.some.inj hw]
    rfl
  · cases hw

end Declarations

/-! ## Runs on documents -/

namespace Definition

theorem mem_undefinedClasses_iff {d : Definition} {id className : String} :
    (id, className) ∈ d.undefinedClasses ↔
      ∃ o ∈ d.opcodes.entries, o.name = id ∧ o.traits.className = some className ∧
        className ∉ d.classes.names := by
  rw [undefinedClasses, List.mem_filterMap]
  refine exists_congr fun o => and_congr_right fun _ => ?_
  rw [Opcode.undefinedClass?, ← Table.contains_iff]
  cases o.traits.className with
  | none => simp
  | some other =>
      rw [Option.bind_some]
      simp only [Option.some.injEq]
      by_cases hknown : d.classes.contains other
      · rw [if_pos hknown]
        exact ⟨nofun, fun ⟨_, hother, hunknown⟩ => absurd hknown (hother ▸ hunknown)⟩
      · rw [if_neg hknown, Option.some.injEq, Prod.mk.injEq]
        exact ⟨fun ⟨hid, hother⟩ => ⟨hid, hother, hother ▸ hknown⟩,
          fun ⟨hid, hother, _⟩ => ⟨hid, hother⟩⟩

theorem undefinedClasses_ofStore {store : Store} {d : Definition}
    (h : (ofStore store).result = .ok d) :
    (ofStore store).warnings.filterMap Warning.undefinedClass? = d.undefinedClasses := by
  rw [ofStore, Outcome.bind_result, bind_eq_ok_iff] at h
  obtain ⟨r, hload, hcompile⟩ := h
  obtain ⟨hids, hwarnings⟩ := Declarations.opcodes_of_load hload
  rw [ofStore, Outcome.bind_of_ok hload, List.filterMap_append, hwarnings, List.nil_append,
    Declarations.undefinedClasses_compile hcompile hids]

theorem name_of_mem_variants {operands : Table Operand} {o : Opcode} (ho : o.Sound operands)
    {v : Variant} (hv : v ∈ o.shape.variants) : v.name = o.name := by
  cases hshape : o.shape with
  | plain shape =>
      rw [hshape] at hv
      cases hv
  | variantBearing vs =>
      rw [hshape] at hv
      obtain ⟨place, hlt, rfl⟩ := List.getElem_of_mem hv
      exact ((ho.variants vs hshape).2.2 place _ (List.getElem?_eq_getElem hlt)).name

/-- A run that succeeds warns of the opcodes whose own class is not defined, of each once and in
their order. An undefined class of a variant is warned of exactly if its opcode has it too. -/
theorem classUndefined_iff {store : Store} {d : Definition} (h : (ofStore store).result = .ok d) :
    (ofStore store).warnings.filterMap Warning.undefinedClass? = d.undefinedClasses ∧
    (∀ id className, .classUndefined id className ∈ (ofStore store).warnings ↔
      ∃ o ∈ d.opcodes.entries, o.name = id ∧ o.traits.className = some className ∧
        className ∉ d.classes.names) ∧
    (∀ o ∈ d.opcodes.entries, ∀ v ∈ o.shape.variants, ∀ className,
      v.traits.className = some className → className ∉ d.classes.names →
        (.classUndefined v.name className ∈ (ofStore store).warnings ↔
          o.traits.className = some className)) ∧
    ∀ r, (Declarations.load store).result = .ok r → d.opcodes.names = r.opcodes.map Prod.fst := by
  have hwarnings := undefinedClasses_ofStore h
  have hiff (id className : String) :
      .classUndefined id className ∈ (ofStore store).warnings ↔
        ∃ o ∈ d.opcodes.entries, o.name = id ∧ o.traits.className = some className ∧
          className ∉ d.classes.names := by
    rw [Warning.classUndefined_mem_iff, hwarnings, mem_undefinedClasses_iff]
  obtain ⟨r, hload, hvalid, rfl⟩ := ofStore_eq_ok_iff.mp h
  refine ⟨hwarnings, hiff, fun o ho v hv className _ hunknown => ?_, fun r' hr' => ?_⟩
  · have hname := name_of_mem_variants ((Declarations.sound_definition hvalid).opcode o ho) hv
    rw [hiff, hname]
    constructor
    · rintro ⟨other, hother, hsame, hclass, -⟩
      rwa [← List.inj_on_of_nodup_map r.definition.opcodes.nodup hother ho hsame]
    · exact fun hclass => ⟨o, ho, rfl, hclass, hunknown⟩
  · obtain rfl : r = r' := Except.ok.inj (hload.symm.trans hr')
    rw [Table.names, Declarations.entries_opcodes (Declarations.opcodes_of_load hload).1,
      Declarations.mergedOpcodes, List.map_map, List.map_map]
    rfl

/-- Two opcodes of undefined classes, one with a variant of yet another and one that takes a
defined class for its variant. -/
def classless : Store :=
  Declarations.smallStore [] [("r", .object [("bits", Json.ofNat 4)])] [
    ("MOVE", .object [("class", .text "ghost")]),
    ("PICK", .object [("class", .text "phantom"), ("variant", .bool true),
      ("variants", .array [.object [("class", .text "alu")], .object [("class", .text "ghost")],
        .object []])])]

theorem classUndefined_classless :
    ∃ d, (ofStore classless).result = .ok d ∧
      d.undefinedClasses = [("MOVE", "ghost"), ("PICK", "phantom")] ∧
      (ofStore classless).warnings.filterMap Warning.undefinedClass? = d.undefinedClasses ∧
      .classUndefined "PICK" "ghost" ∉ (ofStore classless).warnings := by
  obtain ⟨hwarnings, hiff, -, -⟩ := @classUndefined_iff classless _ rfl
  refine ⟨_, rfl, ?_, hwarnings, ?_⟩
  · decide +kernel
  · rw [hiff]
    decide +kernel

/-- A variant has a class that is not defined, and nothing is said about it. -/
theorem variant_class_unnoticed :
    let entry := Json.Value.object [("variant", .bool true),
      ("variants", .array [.object [("class", .text "ghost")]])]
    let s := Declarations.smallStore [] [("r", .object [("bits", Json.ofNat 4)])] [("PICK", entry)]
    ∃ d, (ofStore s).result = .ok d ∧
      (∃ o ∈ d.opcodes.entries, ∃ v ∈ o.shape.variants, v.traits.className = some "ghost") ∧
      "ghost" ∉ d.classes.names ∧ (ofStore s).warnings = [] := by
  intro entry s
  refine ⟨_, rfl, ⟨_, List.mem_cons_self, _, List.mem_cons_self, rfl⟩, ?_, ?_⟩
  · decide +kernel
  · decide +kernel

end Definition

end InstructionSet
