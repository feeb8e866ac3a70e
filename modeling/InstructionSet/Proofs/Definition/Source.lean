import InstructionSet.Definition.Source
import InstructionSet.Proofs.Declarations.Load
import InstructionSet.Proofs.Definition.Compile
import InstructionSet.Proofs.Document
import InstructionSet.Proofs.Operand
import InstructionSet.Proofs.Store

/-!
# Definitions and the documents they come from

A definition from a store is the one that the loaded declarations describe. What it takes over
as the documents give it has distinct keys if they do.
-/

namespace InstructionSet

namespace Declarations

variable {store : Store} {r : Declarations}

/-- Every operand that is loaded was read from a member of the mapping of operands. -/
theorem LoadsApart.exists_reading (h : LoadsApart store r) {x : Operand} (hx : x ∈ r.operands) :
    ∃ d members member, store operandsName = .ok d ∧
      d.value? operandsName = some (.object members) ∧ member ∈ members ∧
        Operand.reading member.1 member.2 = .ok x := by
  obtain ⟨d, hd, hoperands⟩ := h.operands
  rw [operandList, bind_eq_ok_iff] at hoperands
  obtain ⟨members, hmembers, hoperands⟩ := hoperands
  obtain ⟨entries, hentries, hlist⟩ := bind_eq_ok_iff.mp hoperands
  rw [← Except.ok.inj hlist] at hx
  obtain ⟨entry, hentry, rfl⟩ := List.mem_map.mp hx
  obtain ⟨member, hmember, -, hreading⟩ :=
    Document.exists_reading_of_mem_entries hentries hentry
  exact ⟨d, members, member, hd, Document.mapping_eq_ok_iff.mp hmembers,
    (List.mem_filter.mp hmember).1, hreading⟩

theorem keyed_of_mem_descriptors {d : Document} {key : String} {list : List Descriptor}
    (hd : d.Keyed) (h : descriptors d key = .ok list) : ∀ x ∈ list, x.body.keyed := by
  rw [descriptors, bind_eq_ok_iff] at h
  obtain ⟨members, hmembers, hlist⟩ := h
  have hkeyed := Document.keyed_value? hd (Document.mapping_eq_ok_iff.mp hmembers)
  rw [← Except.ok.inj hlist, List.forall_mem_map]
  exact fun member hmember =>
    (Json.Value.keyed_object.mp hkeyed).2 member (List.mem_filter.mp hmember).1

theorem LoadsApart.keyed_attributes (h : LoadsApart store r) (hstore : Store.Keyed store) :
    ∀ x ∈ r.operands, (Json.Value.object x.attributes).keyed := by
  intro x hx
  obtain ⟨d, members, member, hd, hmembers, hmember, hreading⟩ := h.exists_reading hx
  obtain ⟨-, parts, hparts, hattributes⟩ := Operand.eq_of_reading hreading
  have hkeyed := Document.keyed_value? (hstore _ _ hd) hmembers
  have hentry := (Json.Value.keyed_object.mp hkeyed).2 member hmember
  rw [hparts] at hentry
  exact hattributes ▸ Json.Value.keyed_of_sublist hentry List.filter_sublist

/-- The documents of a small set with one class, whose opcodes take operands called `r` by
default. -/
def smallSet (types operands opcodes : List (String × Json.Value)) :
    List (String × List (String × Json.Value)) :=
  let base := Json.Value.object [("opA", .text "r"), ("opB", .text "r")]
  [(typesName, [(typesName, .object types)]),
    (classesName, [(classesName, .object [("alu", .object [])])]),
    (operandsName, [(operandsName, .object operands)]),
    (levelsName, [(levelsName, .object [])]),
    (comparisonsName, [(templateKey, .object []), (comparisonsName, .object [])]),
    (opcodesName, [(templateKey, base), (opcodesName, .object opcodes)])]

def smallStore (types operands opcodes : List (String × Json.Value)) : Store := fun name =>
  match Entries.get? name (smallSet types operands opcodes) with
  | some members => .ok ⟨name, members⟩
  | none => .error (.load name .noSuchDocument)

theorem keyed_smallStore {types operands opcodes : List (String × Json.Value)}
    (h : (smallSet types operands opcodes).all fun document =>
      (Json.Value.object document.2).keyed) :
    Store.Keyed (smallStore types operands opcodes) := by
  intro name d hd
  unfold smallStore at hd
  split at hd <;> cases hd
  rename_i members hmembers
  exact List.all_eq_true.mp h _ (Entries.mem_of_get? hmembers)

end Declarations

namespace Definition

variable {store : Store} {d : Definition}

theorem ofStore_eq_ok_iff :
    (ofStore store).result = .ok d ↔
      ∃ r, (Declarations.load store).result = .ok r ∧ r.Valid ∧ d = r.definition := by
  rw [ofStore, Outcome.bind_result, bind_eq_ok_iff]
  simp only [Declarations.compile_eq_ok_iff, and_comm]

theorem regular_of_mem_operands (h : (ofStore store).result = .ok d) :
    ∀ x ∈ d.operands.entries, x.Regular := by
  obtain ⟨r, hload, -, rfl⟩ := ofStore_eq_ok_iff.mp h
  intro x hx
  obtain ⟨-, -, member, -, -, -, hreading⟩ :=
    (Declarations.load_eq_ok_iff.mp hload).1.exists_reading (Table.mem_of_mem_ofList hx)
  exact Operand.regular_of_reading hreading

/-- Descriptors and attributes have no key twice in an object. -/
structure Keyed (d : Definition) : Prop where
  types : ∀ x ∈ d.types.entries, x.body.keyed
  classes : ∀ x ∈ d.classes.entries, x.body.keyed
  operands : ∀ x ∈ d.operands.entries, (Json.Value.object x.attributes).keyed

theorem keyed_of_ofStore (hstore : Store.Keyed store) (h : (ofStore store).result = .ok d) :
    d.Keyed := by
  obtain ⟨r, hload, -, rfl⟩ := ofStore_eq_ok_iff.mp h
  obtain ⟨hapart, -⟩ := Declarations.load_eq_ok_iff.mp hload
  obtain ⟨types, htypes, htypeList⟩ := hapart.types
  obtain ⟨classes, hclasses, hclassList⟩ := hapart.classes
  exact {
    types := fun x hx => Declarations.keyed_of_mem_descriptors (hstore _ _ htypes) htypeList x
      (Table.mem_of_mem_ofList hx)
    classes := fun x hx => Declarations.keyed_of_mem_descriptors (hstore _ _ hclasses) hclassList
      x (Table.mem_of_mem_ofList hx)
    operands := fun x hx => hapart.keyed_attributes hstore x (Table.mem_of_mem_ofList hx) }

/-- The definition was compiled from texts, in memory or below a directory. -/
inductive FromTexts : Definition → Prop
  | memory {s : MemoryStore} {d : Definition} (h : (ofStore s.load).result = .ok d) : FromTexts d
  | directory {files : Files} {root : String} {d : Definition}
      (h : (ofDirectory files root).result = .ok d) : FromTexts d

namespace FromTexts

theorem exists_store (h : d.FromTexts) :
    ∃ store, Store.ReadsTexts store ∧ (ofStore store).result = .ok d := by
  cases h with
  | memory h => exact ⟨_, .memory _, h⟩
  | directory h =>
      rw [ofDirectory, Outcome.bind_result, bind_eq_ok_iff] at h
      obtain ⟨s, -, hd⟩ := h
      exact ⟨s.load, .directory s, hd⟩

theorem keyed (h : d.FromTexts) : d.Keyed := by
  obtain ⟨store, hstore, hd⟩ := h.exists_store
  exact keyed_of_ofStore hstore.keyed hd

theorem regular (h : d.FromTexts) : ∀ x ∈ d.operands.entries, x.Regular := by
  obtain ⟨store, -, hd⟩ := h.exists_store
  exact regular_of_mem_operands hd

end FromTexts

end Definition

end InstructionSet
