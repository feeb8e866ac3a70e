import InstructionSet.Builder
import InstructionSet.Proofs.Declarations.Fragments
import InstructionSet.Proofs.Operand
import InstructionSet.Proofs.Store

/-!
# Document sets that are built

A builder holds what its calls have added, the last value of each name. The documents that it
writes are loaded as just that: end markers are no entries, and the opcodes are found in the
fragment.
-/

namespace InstructionSet.Builder

/-! ## What calls add -/

namespace Call

def entry? (kind : Kind) : Call → Option (String × Json.Value)
  | .entry other name value => if other = kind then some (name, value) else none
  | _ => none

def comparisonTemplate? : Call → Option Json.Value
  | .comparisonTemplate value => some value
  | _ => none

def opcodeTemplate? : Call → Option Json.Value
  | .opcodeTemplate value => some value
  | _ => none

end Call

/-- The entries of one kind, as they are written to a mapping. -/
def mapping (b : Builder) : Kind → List (String × Json.Value)
  | .scalarType => b.types
  | .opcodeClass => b.classes
  | .operand => b.operands
  | .level => b.levels
  | .comparison => b.comparisons
  | .opcode => b.opcodes

theorem mapping_call (b : Builder) (c : Call) (kind : Kind) :
    (b.call c).mapping kind = Entries.putAll (c.entry? kind).toList (b.mapping kind) := by
  cases c with
  | entry other name value => cases other <;> cases kind <;> rfl
  | comparisonTemplate value => cases kind <;> rfl
  | opcodeTemplate value => cases kind <;> rfl
  | fragment name => cases kind <;> rfl

theorem mapping_foldl_call (b : Builder) (calls : List Call) (kind : Kind) :
    (calls.foldl call b).mapping kind =
      Entries.putAll (calls.filterMap (Call.entry? kind)) (b.mapping kind) := by
  induction calls generalizing b with
  | nil => rfl
  | cons c rest ih =>
      rw [List.foldl_cons, ih, mapping_call, ← Entries.putAll_append]
      cases h : c.entry? kind <;> simp [h]

/-- A part that some calls set is as the last of them has it. -/
theorem foldl_call_eq_getLastD {α : Type} {part : Builder → α} {given? : Call → Option α}
    (hcall : ∀ b c, part (call b c) = (given? c).getD (part b)) (b : Builder)
    (calls : List Call) :
    part (calls.foldl call b) = (calls.filterMap given?).getLastD (part b) := by
  induction calls generalizing b with
  | nil => rfl
  | cons c rest ih =>
      rw [List.foldl_cons, ih, hcall]
      cases h : given? c with
      | none => rw [List.filterMap_cons_none h, Option.getD_none]
      | some value => rw [List.filterMap_cons_some h, List.getLastD_cons, Option.getD_some]

theorem comparisonTemplate_call (b : Builder) (c : Call) :
    (b.call c).comparisonTemplate = c.comparisonTemplate?.getD b.comparisonTemplate := by
  cases c with
  | entry kind name value => cases kind <;> rfl
  | comparisonTemplate value => rfl
  | opcodeTemplate value => rfl
  | fragment name => rfl

theorem opcodeTemplate_call (b : Builder) (c : Call) :
    (b.call c).opcodeTemplate = c.opcodeTemplate?.getD b.opcodeTemplate := by
  cases c with
  | entry kind name value => cases kind <;> rfl
  | comparisonTemplate value => rfl
  | opcodeTemplate value => rfl
  | fragment name => rfl

/-- What the documents of a set hold. -/
structure Contents where
  entries : Kind → List (String × Json.Value)
  comparisonTemplate : Json.Value
  opcodeTemplate : Json.Value

def contents (b : Builder) : Contents where
  entries kind := Document.entryMembers (b.mapping kind)
  comparisonTemplate := b.comparisonTemplate
  opcodeTemplate := b.opcodeTemplate

/-- Of each kind the entries that are added, each name at its first place with its last value, and
the templates that are given last. -/
def Contents.ofCalls (calls : List Call) : Contents where
  entries kind := Document.entryMembers (Entries.settled (calls.filterMap (Call.entry? kind)))
  comparisonTemplate := (calls.filterMap Call.comparisonTemplate?).getLastD (.object [])
  opcodeTemplate := (calls.filterMap Call.opcodeTemplate?).getLastD (.object [])

theorem mapping_of_calls (calls : List Call) (kind : Kind) :
    (calls.foldl call empty).mapping kind =
      Entries.settled (calls.filterMap (Call.entry? kind)) := by
  have hempty : empty.mapping kind = [] := by cases kind <;> rfl
  rw [mapping_foldl_call, hempty, Entries.putAll_eq_settled]

theorem contents_of_calls (calls : List Call) :
    (calls.foldl call empty).contents = .ofCalls calls := by
  rw [contents, foldl_call_eq_getLastD comparisonTemplate_call,
    foldl_call_eq_getLastD opcodeTemplate_call]
  simp only [mapping_of_calls]
  rfl

/-! ## What the contents are read as -/

namespace Contents

/-- Every value can be read as a record of its kind. -/
structure Readable (c : Contents) : Prop where
  operands : ∀ entry ∈ c.entries .operand, ∃ x, Operand.reading entry.1 entry.2 = .ok x
  levels : ∀ entry ∈ c.entries .level, ∃ x, Level.Draft.reading entry.2 = .ok x
  comparisonTemplate : ∃ x, Comparison.Draft.reading c.comparisonTemplate = .ok x
  comparisons : ∀ entry ∈ c.entries .comparison, ∃ x, Comparison.Draft.reading entry.2 = .ok x
  opcodeTemplate : ∃ x, Opcode.Draft.reading c.opcodeTemplate = .ok x
  opcodes : ∀ entry ∈ c.entries .opcode, ∃ x, Opcode.Draft.reading entry.2 = .ok x

/-- The declarations are the contents, each value read as a record of its kind. -/
structure ReadAs (c : Contents) (r : Declarations) : Prop where
  types : r.types = (c.entries .scalarType).map fun (name, body) => { name, body }
  classes : r.classes = (c.entries .opcodeClass).map fun (name, body) => { name, body }
  operands : List.Forall₂ (fun entry x => x.name = entry.1 ∧
    Operand.reading entry.1 entry.2 = .ok x) (c.entries .operand) r.operands
  levels : List.Forall₂ (fun entry x => x.1 = entry.1 ∧
    Level.Draft.reading entry.2 = .ok x.2) (c.entries .level) r.levels
  comparisonTemplate : Comparison.Draft.reading c.comparisonTemplate = .ok r.comparisonTemplate
  comparisons : List.Forall₂ (fun entry x => x.1 = entry.1 ∧
    Comparison.Draft.reading entry.2 = .ok x.2) (c.entries .comparison) r.comparisons
  opcodeTemplate : Opcode.Draft.reading c.opcodeTemplate = .ok r.opcodeTemplate
  opcodes : List.Forall₂ (fun entry x => x.1 = entry.1 ∧
    Opcode.Draft.reading entry.2 = .ok x.2) (c.entries .opcode) r.opcodes

/-- Records that can be read one by one can be read under their names. -/
theorem exists_named {α : Type} {reading : Json.Reading α} {entries : List (String × Json.Value)}
    (h : ∀ entry ∈ entries, ∃ x, reading entry.2 = .ok x) :
    ∃ list : List (String × α), List.Forall₂ (fun entry x => x.1 = entry.1 ∧
      reading entry.2 = .ok x.2) entries list :=
  exists_forall₂ fun entry hentry =>
    let ⟨x, hx⟩ := h entry hentry
    ⟨(entry.1, x), rfl, hx⟩

theorem Readable.exists_readAs {c : Contents} (h : c.Readable) : ∃ r, c.ReadAs r := by
  obtain ⟨operands, hoperands⟩ : ∃ operands : List Operand, List.Forall₂ (fun entry x =>
      x.name = entry.1 ∧ Operand.reading entry.1 entry.2 = .ok x) (c.entries .operand) operands :=
    exists_forall₂ fun entry hentry =>
      let ⟨x, hx⟩ := h.operands entry hentry
      ⟨x, (Operand.eq_of_reading hx).1, hx⟩
  obtain ⟨levels, hlevels⟩ := exists_named h.levels
  obtain ⟨comparisonTemplate, hcomparisonTemplate⟩ := h.comparisonTemplate
  obtain ⟨comparisons, hcomparisons⟩ := exists_named h.comparisons
  obtain ⟨opcodeTemplate, hopcodeTemplate⟩ := h.opcodeTemplate
  obtain ⟨opcodes, hopcodes⟩ := exists_named h.opcodes
  exact ⟨⟨_, _, operands, levels, comparisonTemplate, comparisons, opcodeTemplate, opcodes⟩, rfl,
    rfl, hoperands, hlevels, hcomparisonTemplate, hcomparisons, hopcodeTemplate, hopcodes⟩

end Contents

/-! ## What the documents are loaded as -/

variable {b : Builder}

theorem nodup_names (h : b.fragment ∉ Declarations.requiredNames) :
    (b.documents.map Prod.fst).Nodup := by
  change (Declarations.requiredNames ++ [b.fragment]).Nodup
  refine List.nodup_append.mpr ⟨by decide, List.nodup_singleton _, ?_⟩
  rintro name hname _ hfragment rfl
  exact h (List.mem_singleton.mp hfragment ▸ hname)

/-- No document takes the place of another. -/
theorem load_of_getElem? (h : b.fragment ∉ Declarations.requiredNames) (place : Nat)
    {name : String} {value : Json.Value} (hplace : b.documents[place]? = some (name, value)) :
    b.build.load name = Document.parse name value.compact := by
  have hbuild : b.build = .ofValues b.documents :=
    (MemoryStore.foldl_insertValue b.documents).trans
      (congrArg MemoryStore.ofValues (Entries.settled_of_nodup (nodup_names h)))
  rw [hbuild, MemoryStore.load_ofValues_of_get?]
  exact Entries.get?_of_mem (nodup_names h) (List.mem_of_getElem? hplace)

/-- No document takes the place of another, and each is parsed to the value that it is written
from. -/
structure Intact (b : Builder) : Prop where
  fragment : b.fragment ∉ Declarations.requiredNames
  parses : ∀ document ∈ b.documents, Json.parse? document.2.compact = some document.2

/-- Each document is loaded with the members that it is written with. -/
theorem Intact.load_document (hb : b.Intact) (place : Nat) {name : String}
    {member : String × Json.Value} {members : List (String × Json.Value)}
    (h : b.documents[place]? = some (name, document (member :: members))) :
    b.build.load name = .ok ⟨name, member :: members⟩ := by
  rw [load_of_getElem? hb.fragment place h, Document.parse, hb.parses _ (List.mem_of_getElem? h)]
  rfl

/-! ### Mappings that end in a marker -/

section

open Declarations

variable {d : Document} {key : String} {entries : List (String × Json.Value)}
  (h : d.value? key = some (terminated entries))

include h

theorem entries_terminated {α : Type} {reading : String → Json.Reading α}
    {list : List (String × α)}
    (hlist : List.Forall₂ (fun entry x => x.1 = entry.1 ∧ reading entry.1 entry.2 = .ok x.2)
      (Document.entryMembers entries) list) :
    (d.mapping key >>= fun members => d.entries key members reading) = .ok list := by
  rw [Document.mapping_eq_ok_iff.mpr h, ok_bind, Document.entries_eq_ok_iff,
    Document.entryMembers_put_endMarker]
  exact hlist

theorem descriptors_terminated :
    descriptors d key = .ok ((Document.entryMembers entries).map fun (name, body) =>
      { name, body }) := by
  rw [descriptors, Document.mapping_eq_ok_iff.mpr h, ok_bind, Document.entryMembers_put_endMarker]
  rfl

end

/-- An operand is named by its entry. -/
theorem operandList_terminated {d : Document} {entries : List (String × Json.Value)}
    {list : List Operand} (h : d.value? Declarations.operandsName = some (terminated entries))
    (hlist : List.Forall₂ (fun entry x => x.name = entry.1 ∧
      Operand.reading entry.1 entry.2 = .ok x) (Document.entryMembers entries) list) :
    Declarations.operandList d = .ok list := by
  have hentries := entries_terminated h (List.forall₂_map_right_iff.mpr hlist :
    List.Forall₂ _ _ (list.map fun x => (x.name, x)))
  rw [Declarations.operandList, ← bind_assoc, hentries, ok_bind, List.map_map]
  exact congrArg Except.ok (List.map_id list)

/-! ### All documents -/

section

open Declarations

variable (hb : b.Intact) {r : Declarations}

/-- The opcodes come from the fragment alone. -/
def opcodeSources : OpcodeSources b.build.load where
  document := ⟨opcodesName, [(templateKey, b.opcodeTemplate),
    (fragmentsKey, .array [.text b.fragment])]⟩
  inline := none
  listed := some [b.fragment]
  fragments := [(⟨b.fragment, [(opcodesName, terminated b.opcodes)]⟩,
    Entries.put (Document.endMarker, .null) b.opcodes)]
  document_eq := hb.load_document 5 rfl
  inline_eq := rfl
  listed_eq := rfl
  some_source := .inr nofun
  supplied := .cons ⟨hb.load_document 6 rfl, rfl⟩ .nil

theorem members_opcodeSources :
    (opcodeSources hb).members = Document.entryMembers b.opcodes := by
  have hinline : Document.entryMembers [] = [] := rfl
  rw [OpcodeSources.members_eq]
  simp [opcodeSources, Document.entryMembers_put_endMarker, hinline]

theorem opcodeList_build (h : b.contents.ReadAs r) (hnodup : (b.opcodes.map Prod.fst).Nodup) :
    opcodeList b.build.load (opcodeSources hb).document = ⟨[], .ok r.opcodes⟩ := by
  have hmembers := members_opcodeSources hb
  obtain ⟨hopcodes, hreadable⟩ := (opcodeEntries_eq_ok_iff (opcodeSources hb).document).mp
    (Document.entries_eq_ok_iff.mpr h.opcodes)
  have hids : ((opcodeSources hb).members.map Prod.fst).Nodup :=
    hmembers ▸ hnodup.sublist (List.filter_sublist.map Prod.fst)
  have hread : (opcodeSources hb).Readable := fun member hmember =>
    hreadable member (hmembers ▸ hmember)
  rw [OpcodeSources.opcodeList_of_nodup _ hread hids, hmembers, hopcodes]
  rfl

theorem loadsApart_build (hb : b.Intact) (h : b.contents.ReadAs r) :
    LoadsApart b.build.load r where
  types := ⟨_, hb.load_document 0 rfl, h.types ▸ descriptors_terminated rfl⟩
  classes := ⟨_, hb.load_document 1 rfl, h.classes ▸ descriptors_terminated rfl⟩
  operands := ⟨_, hb.load_document 2 rfl, operandList_terminated rfl h.operands⟩
  levels := ⟨_, hb.load_document 3 rfl, entries_terminated rfl h.levels⟩
  comparisons := ⟨_, hb.load_document 4 rfl,
    Document.record_eq_ok_iff.mpr ⟨_, rfl, h.comparisonTemplate⟩,
    entries_terminated rfl h.comparisons⟩
  opcodeTemplate := ⟨_, hb.load_document 5 rfl,
    Document.record_eq_ok_iff.mpr ⟨_, rfl, h.opcodeTemplate⟩⟩

/-- What is built is loaded as what it holds. -/
theorem load_build (hb : b.Intact) (h : b.contents.ReadAs r)
    (hnodup : (b.opcodes.map Prod.fst).Nodup) : load b.build.load = ⟨[], .ok r⟩ := by
  have hopcodes := opcodeList_build hb h hnodup
  rw [load_eq_of_loadsApart (loadsApart_build hb h) (opcodeSources hb).document_eq
    (congrArg Outcome.result hopcodes), hopcodes]

end

/-- Whatever calls are made, what is built is loaded as what they have added, if all of it can be
read and no required document has the name of the fragment. The texts of the documents have to be
parsed to the values that they are written from. -/
theorem load_of_calls (calls : List Call) :
    let b := calls.foldl call empty
    b.fragment ∉ Declarations.requiredNames →
      (∀ document ∈ b.documents, Json.parse? document.2.compact = some document.2) →
        (Contents.ofCalls calls).Readable →
          ∃ r, Declarations.load b.build.load = ⟨[], .ok r⟩ ∧
            (Contents.ofCalls calls).ReadAs r := by
  intro b hfragment hparse hreadable
  obtain ⟨r, hr⟩ := hreadable.exists_readAs
  have hnodup : (b.opcodes.map Prod.fst).Nodup := by
    have hmapping : b.opcodes = _ := mapping_of_calls calls .opcode
    exact hmapping ▸ Entries.nodup_map_name_settled _
  exact ⟨r, load_build ⟨hfragment, hparse⟩ ((contents_of_calls calls).symm ▸ hr) hnodup, hr⟩

/-- Calls for two opcodes in a fragment of another name. The first opcode and the template are given
again, and an entry has the name of the end marker. -/
def sampleCalls : List Call :=
  [.fragment "core", .entry .operand "r" (.object [("bits", Json.ofNat 4)]),
    .entry .opcode "MOVE" (.object []), .entry .opcode "_end" (.text "none"),
    .opcodeTemplate .null, .entry .level "L0" (.object [("sizes", .array [Json.ofNat 8])]),
    .entry .opcode "STOP" (.object [("unsized", .bool true)]),
    .entry .opcode "MOVE" (.object [("form", .text "mov")]),
    .opcodeTemplate (.object [("opA", .text "r"), ("opB", .text "r")]),
    .entry .scalarType "B" .null]

theorem load_of_calls_sampleCalls :
    (∃ r, Declarations.load (sampleCalls.foldl call empty).build.load = ⟨[], .ok r⟩ ∧
      (Contents.ofCalls sampleCalls).ReadAs r) ∧
      (Contents.ofCalls sampleCalls).entries .opcode =
        [("MOVE", .object [("form", .text "mov")]), ("STOP", .object [("unsized", .bool true)])] ∧
      (Contents.ofCalls sampleCalls).opcodeTemplate =
        .object [("opA", .text "r"), ("opB", .text "r")] := by
  refine ⟨load_of_calls sampleCalls (by decide) (fun document hdocument => ?_) ?_, rfl, rfl⟩
  · have hwritten : ∀ document ∈ (sampleCalls.foldl call empty).documents,
        document.2.keyed ∧ document.2.readable Json.depthLimit := by decide +kernel
    obtain ⟨hkeyed, hreadable⟩ := hwritten document hdocument
    exact Json.parse?_compact_of_keyed hkeyed hreadable
  · exact {
      operands := List.forall_mem_singleton.mpr ⟨_, rfl⟩
      levels := List.forall_mem_singleton.mpr ⟨_, rfl⟩
      comparisonTemplate := ⟨_, rfl⟩
      comparisons := List.forall_mem_nil _
      opcodeTemplate := ⟨_, rfl⟩
      opcodes := List.forall_mem_cons.mpr ⟨⟨_, rfl⟩, List.forall_mem_singleton.mpr ⟨_, rfl⟩⟩ }

end InstructionSet.Builder
