import InstructionSet.Proofs.Definition.Compile
import InstructionSet.Proofs.Form.Expansion
import InstructionSet.Proofs.Json.Members
import InstructionSet.Report
import Mathlib.Data.List.Forall2
import Mathlib.Data.List.Nodup

/-!
# The two reports

The text report and the JSON report are written apart from each other. What the text report lists
is what the groups of forms in the JSON report spell out, and what it counts are the tables there.
-/

namespace InstructionSet

open Json (Value)

/-! ## Written groups -/

/-- A reader of `v` finds the opcode of the group, its forms, and its variation if it has one. -/
structure FormGroup.ReadsBack (g : FormGroup) (v : Value) : Prop where
  opcode : v.member? "opcode" = some (.text g.opcode)
  variation : v.member? "variation" = g.variation.map Json.ofNat
  forms : v.member? "forms" = some (Json.ofTexts g.forms)

theorem FormGroup.keyed_json (g : FormGroup) : g.json.keyed := by
  obtain ⟨opcode, variation, forms⟩ := g
  have htexts : (Json.ofTexts forms).keyed :=
    Value.keyed_array.mpr (List.forall_mem_map.mpr fun _ _ => rfl)
  cases variation <;> simp [json, Json.member?, Json.ofNat, htexts, Value.keyed, Json.keyedMembers]

theorem FormGroup.readsBack (g : FormGroup) : g.ReadsBack g.json.asRead := by
  rw [Value.asRead_of_keyed g.keyed_json]
  obtain ⟨opcode, variation, forms⟩ := g
  cases variation <;> exact ⟨rfl, rfl, rfl⟩

/-! ## Lines -/

/-- The lines of a listing that show a group. The number of a variant stands before each form. -/
def FormGroup.lines (g : FormGroup) : List String :=
  let number := match g.variation with
    | some variation => "[" ++ toString variation ++ "] "
    | none => ""
  g.forms.map fun form => "\t" ++ number ++ form

/-- Lines as they stand in a text, the last one ended too. -/
def textOfLines (lines : List String) : String := String.join (lines.map fun line => line ++ "\n")

theorem textOfLines_append (first rest : List String) :
    textOfLines (first ++ rest) = textOfLines first ++ textOfLines rest := by
  rw [textOfLines, List.map_append, String.join_append]
  rfl

namespace Definition

variable (d : Definition)

/-- An opcode's part of the listing: its heading, then the lines of the groups that name it. -/
def block (o : Opcode) : List String :=
  o.heading :: (d.formGroups.filter fun g => g.opcode = o.name).flatMap FormGroup.lines

/-- The keys of the tables in a written definition, each with the label of its count. -/
def tableLabels : List (String × String) :=
  [("types", "TypeDefs"), ("classes", "ClassDefs"), ("operands", "OperandDefs"),
    ("levels", "LevelDefs"), ("comparisons", "ComparisonDefs"), ("opcodes", "OpcodeDefs")]

/-! ## Groups and blocks -/

theorem opcode_of_mem_opcodeGroups {o : Opcode} {g : FormGroup} (h : g ∈ d.opcodeGroups o) :
    g.opcode = o.name := by
  unfold opcodeGroups at h
  split at h
  · rw [List.mem_singleton.mp h]
  · obtain ⟨v, -, rfl⟩ := List.mem_map.mp h
    rfl

theorem filter_opcodeGroups_self (o : Opcode) :
    ((d.opcodeGroups o).filter fun g => g.opcode = o.name) = d.opcodeGroups o :=
  List.filter_eq_self.mpr fun _ hg => decide_eq_true (d.opcode_of_mem_opcodeGroups hg)

theorem filter_opcodeGroups_of_ne {o other : Opcode} (h : other.name ≠ o.name) :
    ((d.opcodeGroups other).filter fun g => g.opcode = o.name) = [] := by
  refine List.filter_eq_nil_iff.mpr fun g hg => ?_
  rw [d.opcode_of_mem_opcodeGroups hg]
  simpa using h

/-- Opcodes of distinct names have their groups apart. -/
theorem filter_flatMap_opcodeGroups {opcodes : List Opcode}
    (h : (opcodes.map Named.name).Nodup) {o : Opcode} (ho : o ∈ opcodes) :
    ((opcodes.flatMap d.opcodeGroups).filter fun g => g.opcode = o.name) = d.opcodeGroups o := by
  have hothers {others : List Opcode} (hne : o.name ∉ others.map Named.name) :
      ((others.flatMap d.opcodeGroups).filter fun g => g.opcode = o.name) = [] := by
    rw [List.filter_flatMap, List.flatMap_eq_nil_iff]
    intro other hother
    exact d.filter_opcodeGroups_of_ne fun e => hne (e ▸ List.mem_map_of_mem hother)
  obtain ⟨before, after, rfl⟩ := List.append_of_mem ho
  rw [List.map_append, List.map_cons, List.nodup_middle, List.nodup_cons, List.mem_append,
    not_or] at h
  rw [List.flatMap_append, List.flatMap_cons, List.filter_append, List.filter_append,
    hothers h.1.1, hothers h.1.2, filter_opcodeGroups_self, List.nil_append, List.append_nil]

theorem filter_formGroups {o : Opcode} (ho : o ∈ d.opcodes.entries) :
    (d.formGroups.filter fun g => g.opcode = o.name) = d.opcodeGroups o :=
  d.filter_flatMap_opcodeGroups d.opcodes.nodup ho

/-- The two loops over an opcode's forms give the same lines. -/
theorem lines_opcodeGroups (o : Opcode) :
    (d.opcodeGroups o).flatMap FormGroup.lines = d.formLines o := by
  unfold opcodeGroups formLines
  split
  · simp [FormGroup.lines]
  · rw [List.flatMap_map]
    refine List.flatMap_congr fun v _ => List.map_congr_left fun form _ => ?_
    have htab : "\t[" = "\t" ++ "[" := rfl
    change "\t" ++ ("[" ++ toString v.variation ++ "] ") ++ form =
      "\t[" ++ toString v.variation ++ "] " ++ form
    simp only [htab, String.append_assoc]

theorem block_eq {o : Opcode} (ho : o ∈ d.opcodes.entries) :
    d.block o = o.heading :: d.formLines o := by
  rw [block, d.filter_formGroups ho, lines_opcodeGroups]

theorem listingLines_eq : d.listingLines = d.opcodes.entries.flatMap d.block :=
  List.flatMap_congr fun _ ho => (d.block_eq ho).symm

theorem lines_formGroups :
    d.formGroups.flatMap FormGroup.lines = d.opcodes.entries.flatMap d.formLines := by
  rw [formGroups, List.flatMap_assoc]
  exact List.flatMap_congr fun o _ => d.lines_opcodeGroups o

/-! ## Counts -/

/-- Each count is the length of the array that the table is written as. -/
theorem counts_eq : d.counts = tableLabels.map fun (key, label) =>
    ((d.json.elements key).length, label) := by
  simp [counts, tableLabels, json, Json.Value.elements, Json.Value.member?, Entries.get?_cons,
    Table.size]

/-! ## Agreement -/

theorem nodup_keys_reportJson : d.reportJson.keys.Nodup := by
  change ["fingerprint", "definition", "forms"].Nodup
  decide

theorem forall₂_readsBack :
    List.Forall₂ FormGroup.ReadsBack d.formGroups (d.reportJson.asRead.elements "forms") := by
  rw [Value.elements_asRead d.nodup_keys_reportJson rfl, List.map_map,
    List.forall₂_map_right_iff, List.forall₂_same]
  exact fun g _ => g.readsBack

/-- The full text report is the quiet one and a block for each opcode, in the order of the table.
The form lines of the blocks are those of the groups in the JSON report, one after the other. A
plain opcode has one group, and any other has one for each variant. The counts are the lengths of
the arrays in the JSON report, from which the groups can be read back. -/
theorem report_eq_quiet_append_blocks (d : Definition) :
    d.report false = d.report true ++ textOfLines (d.opcodes.entries.flatMap d.block) ∧
    (d.opcodes.entries.flatMap fun o => (d.block o).tail) =
      d.formGroups.flatMap FormGroup.lines ∧
    (∀ o ∈ d.opcodes.entries, (d.formGroups.filter fun g => g.opcode = o.name) =
      match o.shape with
      | .plain _ => [⟨o.name, none, (Instruction.opcode o).listed d.comparisons.entries⟩]
      | .variantBearing variants => variants.map fun v =>
          ⟨o.name, some v.variation, (Instruction.variant v).listed d.comparisons.entries⟩) ∧
    d.report true = textOfLines ("Parsed:" ::
      tableLabels.map (fun (key, label) =>
        "\t" ++ toString (d.json.elements key).length ++ " " ++ label) ++
      ["Fingerprint: " ++ d.fingerprint.text]) ∧
    d.reportJson.member? "definition" = some d.json ∧
    d.reportJson.elements "forms" = d.formGroups.map FormGroup.json ∧
    List.Forall₂ FormGroup.ReadsBack d.formGroups (d.reportJson.asRead.elements "forms") := by
  refine ⟨?_, ?_, fun o ho => ?_, ?_, rfl, rfl, d.forall₂_readsBack⟩
  · rw [← listingLines_eq]
    exact textOfLines_append d.summaryLines d.listingLines
  · rw [lines_formGroups]
    refine List.flatMap_congr fun o ho => ?_
    rw [d.block_eq ho, List.tail_cons]
  · rw [d.filter_formGroups ho, opcodeGroups]
    cases o.shape <;> simp only [Opcode.forms_eq_listed, Variant.forms_eq_listed]
  · change textOfLines d.summaryLines = _
    rw [summaryLines, counts_eq, List.map_map]
    rfl

end Definition

/-- A plain opcode with two types, one of comparisons without any, and one with variants, of which
the first has no forms. -/
def Declarations.listed : Declarations where
  operands := [{ name := "r", bits := 4 }]
  opcodeTemplate := { opA := .given "r", opB := .given "r" }
  opcodes := [
    ("ADD", { types := .given ["B", "W"], form := .given "add.\x7bt\x7d \x7br\x7d" }),
    ("BR", { comparison := .given true, form := .given "b\x7bc\x7d" }),
    ("SEL", {
      fitsize := .given 8
      variant := .given true
      variants := .given [{ comparison := .given true }, { form := .given "sel" }] })]

theorem Definition.report_eq_quiet_append_blocks_listed :
    ∃ d, Declarations.listed.compile.result = .ok d ∧
      d.report false = d.report true ++ textOfLines ["ADD", "\tadd.B r<N>", "\tadd.W r<N>",
        "BR (comparison)", "SEL (fit-size)", "\t[1] sel"] ∧
      ∃ o ∈ d.opcodes.entries, o.name = "SEL" ∧
        (d.formGroups.filter fun g => g.opcode = o.name) =
          [⟨"SEL", some 0, []⟩, ⟨"SEL", some 1, ["sel"]⟩] := by
  let d := Declarations.listed.definition
  obtain ⟨htext, -, hgroups, -⟩ := report_eq_quiet_append_blocks d
  have hblocks : d.opcodes.entries.flatMap d.block = ["ADD", "\tadd.B r<N>", "\tadd.W r<N>",
      "BR (comparison)", "SEL (fit-size)", "\t[1] sel"] := by decide +kernel
  have hsel : d.opcodes.entries[2] ∈ d.opcodes.entries := List.getElem_mem _
  refine ⟨d, rfl, ?_, _, hsel, rfl, ?_⟩
  · rw [htext, hblocks]
  · exact (hgroups _ hsel).trans (by decide +kernel)

end InstructionSet
