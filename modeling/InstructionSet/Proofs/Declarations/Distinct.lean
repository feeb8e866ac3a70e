import InstructionSet.Proofs.Declarations.Fragments
import InstructionSet.Proofs.Operand
import InstructionSet.Proofs.Store

/-!
# Distinct names

Declarations that are loaded name nothing twice. A mapping has each key once, and an opcode that
is declared again takes the place of the earlier one.
-/

namespace InstructionSet

/-- No list of declarations has a name twice. -/
structure Declarations.Distinct (r : Declarations) : Prop where
  types : (r.types.map Named.name).Nodup
  classes : (r.classes.map Named.name).Nodup
  operands : (r.operands.map Named.name).Nodup
  levels : (r.levels.map Named.name).Nodup
  comparisons : (r.comparisons.map Named.name).Nodup
  opcodes : (r.opcodes.map Named.name).Nodup

namespace Document

variable {d : Document} {key : String} {members : List (String × Json.Value)}

theorem nodup_entryMembers (hd : d.Keyed) (h : d.mapping key = .ok members) :
    ((entryMembers members).map Prod.fst).Nodup := by
  have hkeyed := keyed_value? hd (mapping_eq_ok_iff.mp h)
  exact (Json.Value.keyed_object.mp hkeyed).1.sublist (List.filter_sublist.map Prod.fst)

theorem nodup_map_fst_of_entries {α : Type} {reading : String → Json.Reading α}
    {list : List (String × α)} (hd : d.Keyed) (hmapping : d.mapping key = .ok members)
    (h : d.entries key members reading = .ok list) : (list.map Prod.fst).Nodup := by
  rw [map_fst_of_entries h]
  exact nodup_entryMembers hd hmapping

end Document

namespace Declarations

variable {d : Document}

theorem nodup_names_of_descriptors {key : String} {list : List Descriptor} (hd : d.Keyed)
    (h : descriptors d key = .ok list) : (list.map Named.name).Nodup := by
  obtain ⟨members, hmembers, hlist⟩ := bind_eq_ok_iff.mp h
  rw [← Except.ok.inj hlist, List.map_map]
  exact Document.nodup_entryMembers hd hmembers

theorem nodup_names_of_operandList {list : List Operand} (hd : d.Keyed)
    (h : operandList d = .ok list) : (list.map Named.name).Nodup := by
  obtain ⟨members, hmembers, h⟩ := bind_eq_ok_iff.mp h
  obtain ⟨entries, hentries, hlist⟩ := bind_eq_ok_iff.mp h
  have hnames : entries.map (fun entry => entry.2.name) = entries.map Prod.fst := by
    refine List.map_congr_left fun entry hentry => ?_
    obtain ⟨member, -, hid, hread⟩ := Document.exists_reading_of_mem_entries hentries hentry
    exact (Operand.eq_of_reading hread).1.trans hid
  rw [← Except.ok.inj hlist, List.map_map]
  exact hnames ▸ Document.nodup_map_fst_of_entries hd hmembers hentries

theorem nodup_names_of_levelList {list : List (String × Level.Draft)} (hd : d.Keyed)
    (h : levelList d = .ok list) : (list.map Named.name).Nodup := by
  obtain ⟨members, hmembers, hentries⟩ := bind_eq_ok_iff.mp h
  exact Document.nodup_map_fst_of_entries hd hmembers hentries

theorem nodup_names_of_comparisonList {list : List (String × Comparison.Draft)} (hd : d.Keyed)
    (h : comparisonList d = .ok list) : (list.map Named.name).Nodup := by
  obtain ⟨members, hmembers, hentries⟩ := bind_eq_ok_iff.mp h
  exact Document.nodup_map_fst_of_entries hd hmembers hentries

theorem nodup_names_of_opcodeList {store : Store} {opcodes : List (String × Opcode.Draft)}
    (hd : store opcodesName = .ok d) (h : (opcodeList store d).result = .ok opcodes) :
    (opcodes.map Named.name).Nodup := by
  obtain ⟨s, hs⟩ := exists_sources hd h
  obtain rfl : s.document = d := Except.ok.inj (s.document_eq.symm.trans hd)
  rw [s.opcodeList_eq hs] at h
  exact Except.ok.inj h ▸ nodup_settledOpcodes s.members

theorem distinct_of_load {store : Store} {r : Declarations} (hstore : store.Keyed)
    (h : (load store).result = .ok r) : r.Distinct := by
  obtain ⟨hapart, d, hd, hopcodes⟩ := load_eq_ok_iff.mp h
  obtain ⟨types, htypes, htypeList⟩ := hapart.types
  obtain ⟨classes, hclasses, hclassList⟩ := hapart.classes
  obtain ⟨operands, hoperands, hoperandList⟩ := hapart.operands
  obtain ⟨levels, hlevels, hlevelList⟩ := hapart.levels
  obtain ⟨comparisons, hcomparisons, -, hcomparisonList⟩ := hapart.comparisons
  exact {
    types := nodup_names_of_descriptors (hstore _ _ htypes) htypeList
    classes := nodup_names_of_descriptors (hstore _ _ hclasses) hclassList
    operands := nodup_names_of_operandList (hstore _ _ hoperands) hoperandList
    levels := nodup_names_of_levelList (hstore _ _ hlevels) hlevelList
    comparisons := nodup_names_of_comparisonList (hstore _ _ hcomparisons) hcomparisonList
    opcodes := nodup_names_of_opcodeList hd hopcodes }

theorem distinct_of_texts {store : Store} {r : Declarations} (hstore : store.ReadsTexts)
    (h : (load store).result = .ok r) : r.Distinct :=
  distinct_of_load hstore.keyed h

end Declarations

end InstructionSet
