import InstructionSet.Declarations.Load
import InstructionSet.Proofs.Document
import InstructionSet.Proofs.Entries

/-!
# Opcodes from several documents

The opcode document and its fragments are read as one sequence of entries. How it is divided
among the documents shows in the warnings only.
-/

namespace InstructionSet

/-- An opcode's entry in the document that declares it. -/
structure OpcodeEntry where
  document : String
  id : String
  value : Json.Value

namespace OpcodeEntry

def member (e : OpcodeEntry) : String × Json.Value := (e.id, e.value)

/-- The entries among the members of a mapping. -/
def ofMembers (d : Document) (members : List (String × Json.Value)) : List OpcodeEntry :=
  (Document.entryMembers members).map fun (id, value) => ⟨d.name, id, value⟩

/-- One warning for each entry whose id occurs before, which names the later document. -/
def redefinitions (entries : List OpcodeEntry) : List Warning :=
  entries.zipIdx.filterMap fun (e, i) =>
    if e.id ∈ (entries.take i).map id then some (.opcodeRedefined e.id e.document) else none

/-- `redefinitions` for entries that follow on ids already seen. -/
def redefinitionsAfter (seen : List String) : List OpcodeEntry → List Warning
  | [] => []
  | e :: rest =>
      (if e.id ∈ seen then [.opcodeRedefined e.id e.document] else []) ++
        redefinitionsAfter (seen ++ [e.id]) rest

theorem redefinitionsAfter_eq (seen : List String) (entries : List OpcodeEntry) :
    redefinitionsAfter seen entries =
      entries.zipIdx.filterMap fun (e, i) =>
        if e.id ∈ seen ++ (entries.take i).map id then some (.opcodeRedefined e.id e.document)
        else none := by
  induction entries generalizing seen with
  | nil => rfl
  | cons e rest ih =>
      rw [redefinitionsAfter, ih, List.zipIdx_cons, List.zipIdx_succ, List.filterMap_cons,
        List.filterMap_map]
      simp only [Function.comp_def, List.take_succ_cons, List.map_cons, List.append_assoc,
        List.singleton_append, List.take_zero, List.map_nil, List.append_nil]
      split <;> rfl

theorem redefinitionsAfter_of_nodup {seen : List String} {entries : List OpcodeEntry}
    (h : (seen ++ entries.map id).Nodup) : redefinitionsAfter seen entries = [] := by
  induction entries generalizing seen with
  | nil => rfl
  | cons e rest ih =>
      have hseen : e.id ∉ seen := fun hmem =>
        (List.nodup_append.mp h).2.2 _ hmem _ List.mem_cons_self rfl
      rw [redefinitionsAfter, if_neg hseen, List.nil_append, ih]
      rwa [List.append_assoc]

/-- Nothing is redefined if all ids are different. -/
theorem redefinitions_of_nodup {entries : List OpcodeEntry} (h : (entries.map id).Nodup) :
    redefinitions entries = [] :=
  (redefinitionsAfter_eq [] entries).symm.trans (redefinitionsAfter_of_nodup h)

end OpcodeEntry

namespace Declarations

/-- The member's value can be read as a draft. -/
def IsReadable (member : String × Json.Value) : Prop :=
  ∃ draft, Opcode.Draft.reading member.2 = .ok draft

/-- The draft that a member is read as, if it can be read. -/
def decoded (member : String × Json.Value) : String × Opcode.Draft :=
  (member.1, match Opcode.Draft.reading member.2 with
    | .ok draft => draft
    | .error _ => {})

/-- Adds one entry to the opcodes declared so far. -/
def declare (known : Table (String × Opcode.Draft)) (e : OpcodeEntry) :
    Outcome (Table (String × Opcode.Draft)) := do
  Outcome.warnIf (known.contains e.id) (.opcodeRedefined e.id e.document)
  return known.insert (decoded e.member)

theorem declareAll_eq_foldlM (d : Document) (known : Table (String × Opcode.Draft))
    (members : List (String × Json.Value)) :
    declareAll d.name known (members.map decoded) =
      (members.map fun (id, value) => OpcodeEntry.mk d.name id value).foldlM declare known := by
  induction members generalizing known with
  | nil => rfl
  | cons member rest ih =>
      rw [List.map_cons, List.map_cons, List.foldlM_cons, declareAll]
      simp only [ih, declare, bind_assoc, pure_bind]
      rfl

/-- A run over entries warns of those seen before and inserts all of them. -/
theorem foldlM_declare (entries : List OpcodeEntry) {known : Table (String × Opcode.Draft)}
    {seen : List String} (h : ∀ id, id ∈ known.names ↔ id ∈ seen) :
    entries.foldlM declare known =
      ⟨OpcodeEntry.redefinitionsAfter seen entries,
        .ok ((entries.map fun e => decoded e.member).foldl Table.insert known)⟩ := by
  -- The warnings depend on the ids in the table alone, not on their places.
  induction entries generalizing known seen with
  | nil => rfl
  | cons e rest ih =>
      have hstep : ∀ id, id ∈ (known.insert (decoded e.member)).names ↔ id ∈ seen ++ [e.id] := by
        intro id
        rw [Table.mem_names_insert, h]
        simp [decoded, OpcodeEntry.member]
      have hdeclare : declare known e =
          ⟨if e.id ∈ seen then [.opcodeRedefined e.id e.document] else [],
            .ok (known.insert (decoded e.member))⟩ := by
        have hseen : known.contains e.id = decide (e.id ∈ seen) := by
          rw [Bool.eq_iff_iff, Table.contains_iff, h, decide_eq_true_iff]
        rw [declare, hseen, Outcome.bind_of_ok (Outcome.warnIf_result _ _), Outcome.warnIf_warnings]
        simp
      rw [List.foldlM_cons, hdeclare, Outcome.bind_of_ok rfl, ih hstep]
      rfl

/-- The opcodes that a run over all entries leaves. -/
def settledOpcodes (members : List (String × Json.Value)) : List (String × Opcode.Draft) :=
  (Entries.settled members).map decoded

theorem settled_map_decoded (members : List (String × Json.Value)) :
    Entries.settled (members.map decoded) = settledOpcodes members :=
  Entries.settled_map (f := decoded) (fun _ => rfl) members

theorem foldlM_declare_empty (entries : List OpcodeEntry) :
    (do
      let known ← entries.foldlM declare .empty
      return known.entries) =
      (⟨OpcodeEntry.redefinitions entries, .ok (settledOpcodes (entries.map OpcodeEntry.member))⟩ :
        Outcome (List (String × Opcode.Draft))) := by
  have hseen : ∀ id, id ∈ (Table.empty : Table (String × Opcode.Draft)).names ↔ id ∈ [] :=
    fun _ => Iff.rfl
  have hopcodes : (entries.map fun e => decoded e.member) =
      (entries.map OpcodeEntry.member).map decoded := by
    rw [List.map_map]
    rfl
  rw [foldlM_declare entries hseen, Outcome.bind_of_ok rfl, OpcodeEntry.redefinitionsAfter_eq,
    hopcodes]
  simp only [Outcome.pure_warnings, Outcome.pure_result, Table.entries_foldl_insert,
    List.append_nil, List.nil_append]
  rw [show (Table.empty : Table (String × Opcode.Draft)).entries = [] from rfl,
    Entries.putAll_eq_settled, settled_map_decoded]
  rfl

end Declarations

end InstructionSet
