import InstructionSet.Proofs.Declarations.Load
import InstructionSet.Proofs.Declarations.Opcodes

/-!
# Fragments

The opcodes of a set are those of the opcode document and of the fragments that it lists, run
together. Later entries overwrite earlier ones in their places.
-/

namespace InstructionSet.Declarations

/-- The fragment called `name` loads, and declares opcodes by the members of a mapping. -/
def Supplies (store : Store) (name : String)
    (fragment : Document × List (String × Json.Value)) : Prop :=
  store name = .ok fragment.1 ∧ fragment.1.value? opcodesName = some (.object fragment.2)

/-- The documents that opcodes are loaded from, with the members of their mappings. -/
structure OpcodeSources (store : Store) where
  document : Document
  inline : Option (List (String × Json.Value))
  listed : Option (List String)
  fragments : List (Document × List (String × Json.Value))
  document_eq : store opcodesName = .ok document
  inline_eq : document.value? opcodesName = inline.map .object
  listed_eq : document.value? fragmentsKey =
    listed.map fun names => .array (names.map .text)
  some_source : inline ≠ none ∨ listed ≠ none
  supplied : List.Forall₂ (Supplies store) (listed.getD []) fragments

namespace OpcodeSources

variable {store : Store}

/-- The inline entries, followed by those of the fragments in the order in which they are
listed. -/
def entries (s : OpcodeSources store) : List OpcodeEntry :=
  OpcodeEntry.ofMembers s.document (s.inline.getD []) ++
    s.fragments.flatMap fun fragment => OpcodeEntry.ofMembers fragment.1 fragment.2

/-- The ids and values of all entries, wherever they are declared. -/
def members (s : OpcodeSources store) : List (String × Json.Value) :=
  s.entries.map OpcodeEntry.member

/-- Every entry can be read. -/
def Readable (s : OpcodeSources store) : Prop :=
  ∀ member ∈ s.members, IsReadable member

end OpcodeSources

theorem map_member_ofMembers (d : Document) (members : List (String × Json.Value)) :
    (OpcodeEntry.ofMembers d members).map OpcodeEntry.member = Document.entryMembers members := by
  simp [OpcodeEntry.ofMembers, OpcodeEntry.member, Function.comp_def]

theorem opcodeEntries_eq_ok_iff (d : Document) {members : List (String × Json.Value)}
    {drafts : List (String × Opcode.Draft)} :
    opcodeEntries d members = .ok drafts ↔
      drafts = (Document.entryMembers members).map decoded ∧
        ∀ member ∈ Document.entryMembers members, IsReadable member := by
  rw [opcodeEntries, Document.entries]
  refine mapM_eq_ok_iff_map fun member draft => ?_
  cases h : Opcode.Draft.reading member.2 with
  | ok value => simp [decoded, IsReadable, h, eq_comm]
  | error mismatch => simp [IsReadable, h, Document.fail]

theorem declareFragment_eq {store : Store} {name : String}
    {fragment : Document × List (String × Json.Value)} (h : Supplies store name fragment)
    (hread : ∀ member ∈ Document.entryMembers fragment.2, IsReadable member)
    (known : Table (String × Opcode.Draft)) :
    declareFragment store known name =
      (OpcodeEntry.ofMembers fragment.1 fragment.2).foldlM declare known := by
  have hmapping := Document.mapping_eq_ok_iff.mpr h.2
  have hentries := (opcodeEntries_eq_ok_iff fragment.1).mpr ⟨rfl, hread⟩
  simp only [declareFragment, Outcome.liftM_eq, h.1, hmapping, hentries, Outcome.ofExcept_ok_bind,
    declareAll_eq_foldlM, OpcodeEntry.ofMembers]

/-- A run over fragments is one over all of their entries. -/
theorem foldlM_declareFragment {store : Store} {names : List String}
    {fragments : List (Document × List (String × Json.Value))}
    (h : List.Forall₂ (Supplies store) names fragments)
    (hread : ∀ fragment ∈ fragments, ∀ member ∈ Document.entryMembers fragment.2,
      IsReadable member)
    (known : Table (String × Opcode.Draft)) :
    names.foldlM (declareFragment store) known =
      (fragments.flatMap fun fragment =>
        OpcodeEntry.ofMembers fragment.1 fragment.2).foldlM declare known := by
  induction h generalizing known with
  | nil => rfl
  | cons hhead hrest ih =>
      rw [List.forall_mem_cons] at hread
      rw [List.foldlM_cons, List.flatMap_cons, List.foldlM_append,
        declareFragment_eq hhead hread.1]
      exact bind_congr fun known => ih hread.2 known

namespace OpcodeSources

variable {store : Store} (s : OpcodeSources store)

theorem members_eq :
    s.members = Document.entryMembers (s.inline.getD []) ++
      s.fragments.flatMap fun fragment => Document.entryMembers fragment.2 := by
  simp [members, entries, map_member_ofMembers, List.map_flatMap]

/-- The loader keeps the last entry of each id at its first place, and warns of every other. -/
theorem opcodeList_eq (h : s.Readable) :
    opcodeList store s.document =
      ⟨OpcodeEntry.redefinitions s.entries, .ok (settledOpcodes s.members)⟩ := by
  have hinline := Document.optionalMapping_eq_ok_iff.mpr s.inline_eq
  have hlisted := Document.nameList_eq_ok_iff.mpr s.listed_eq
  have hsome : ¬((s.inline.isNone && s.listed.isNone) = true) := by
    have hsource := s.some_source
    cases hi : s.inline <;> cases hl : s.listed <;> simp_all
  rw [Readable, members_eq, List.forall_mem_append] at h
  have hentries := (opcodeEntries_eq_ok_iff s.document).mpr ⟨rfl, h.1⟩
  have hfragments := foldlM_declareFragment s.supplied fun fragment hf member hm =>
    h.2 member (List.mem_flatMap.mpr ⟨fragment, hf, hm⟩)
  simp only [opcodeList, Outcome.liftM_eq, hinline, hlisted, Outcome.ofExcept_ok_bind, hentries,
    declareAll_eq_foldlM, hfragments]
  rw [if_neg hsome, members, ← foldlM_declare_empty, entries, List.foldlM_append, bind_assoc]
  rfl

/-- Opcodes of distinct ids are all kept, without a warning. -/
theorem opcodeList_of_nodup (h : s.Readable) (hnodup : (s.members.map Prod.fst).Nodup) :
    opcodeList store s.document = ⟨[], .ok (s.members.map decoded)⟩ := by
  have hids : (s.entries.map OpcodeEntry.id).Nodup := by
    rwa [members, List.map_map] at hnodup
  rw [s.opcodeList_eq h, OpcodeEntry.redefinitions_of_nodup hids, settledOpcodes,
    Entries.settled_of_nodup hnodup]

/-! ### All entries inline -/

/-- The opcode document with the settled entries of all documents in its own mapping. -/
def mergedDocument : Document :=
  ⟨s.document.name, (opcodesName, .object (Entries.settled s.members)) ::
    s.document.members.filter fun member => member.1 ∉ [opcodesName, fragmentsKey]⟩

def mergedStore : Store := fun name =>
  if name = opcodesName then .ok s.mergedDocument else store name

theorem value?_mergedDocument {key : String} (h : key ∉ [opcodesName, fragmentsKey]) :
    s.mergedDocument.value? key = s.document.value? key := by
  have hne : opcodesName ≠ key := fun e => h (e ▸ List.mem_cons_self)
  rw [Document.value?, mergedDocument, Entries.get?_cons, if_neg hne]
  exact Entries.get?_filter (p := fun key => key ∉ [opcodesName, fragmentsKey])
    (decide_eq_true h) _

theorem mergedStore_of_ne {name : String} (h : name ≠ opcodesName) :
    s.mergedStore name = store name :=
  if_neg h

/-- The merged document is the only source of opcodes in its store. -/
def merged : OpcodeSources s.mergedStore where
  document := s.mergedDocument
  inline := some (Entries.settled s.members)
  listed := none
  fragments := []
  document_eq := if_pos rfl
  inline_eq := by
    rw [Document.value?, mergedDocument, Entries.get?_cons, if_pos rfl]
    rfl
  listed_eq := by
    have hne : opcodesName ≠ fragmentsKey := by decide
    rw [Document.value?, mergedDocument, Entries.get?_cons, if_neg hne, Option.map_none,
      Entries.get?_eq_none_iff]
    simp
  some_source := .inl (Option.some_ne_none _)
  supplied := .nil

theorem ne_endMarker_of_mem_members {member : String × Json.Value} (h : member ∈ s.members) :
    member.1 ≠ Document.endMarker := by
  rw [members_eq, List.mem_append, List.mem_flatMap] at h
  rcases h with h | ⟨fragment, _, h⟩
  · simpa using (List.mem_filter.mp h).2
  · simpa using (List.mem_filter.mp h).2

theorem members_merged : s.merged.members = Entries.settled s.members := by
  have hentries : Document.entryMembers (Entries.settled s.members) =
      Entries.settled s.members := by
    refine List.filter_eq_self.mpr fun member hmember => ?_
    simpa using s.ne_endMarker_of_mem_members (Entries.mem_of_mem_settled hmember)
  rw [members_eq]
  simpa [merged] using hentries

theorem record_mergedDocument {α : Type} (reading : Json.Reading α) :
    s.mergedDocument.record templateKey reading = s.document.record templateKey reading := by
  have hvalue : s.mergedDocument.value? templateKey = s.document.value? templateKey :=
    s.value?_mergedDocument (by decide)
  rw [Document.record, Document.record, hvalue]
  rfl

theorem readable_merged (h : s.Readable) : s.merged.Readable := by
  rw [Readable, members_merged]
  exact fun member hmember => h member (Entries.mem_of_mem_settled hmember)

/-- Nothing but the documents of opcodes makes a difference between the two stores. -/
theorem load_mergedStore (h : s.Readable) : (load s.mergedStore).result = (load store).result := by
  have hopcodes : (opcodeList s.mergedStore s.mergedDocument).result =
      (opcodeList store s.document).result := by
    rw [s.opcodeList_eq h]
    refine (congrArg Outcome.result (s.merged.opcodeList_eq (s.readable_merged h))).trans ?_
    rw [members_merged, settledOpcodes,
      Entries.settled_of_nodup (Entries.nodup_map_name_settled s.members)]
    rfl
  have hne : ∀ name ∈ [typesName, classesName, operandsName, levelsName, comparisonsName],
      s.mergedStore name = store name := fun name hname =>
    s.mergedStore_of_ne fun e => absurd (e ▸ hname) (by decide)
  simp only [List.forall_mem_cons] at hne
  obtain ⟨htypes, hclasses, hoperands, hlevels, hcomparisons, -⟩ := hne
  have hdocument : s.mergedStore opcodesName = .ok s.mergedDocument := if_pos rfl
  simp only [load, Outcome.liftM_eq, Outcome.bind_result, Outcome.ofExcept_result, htypes,
    hclasses, hoperands, hlevels, hcomparisons, hdocument, s.document_eq, ok_bind,
    record_mergedDocument, hopcodes]

end OpcodeSources

/-! ### Loading -/

theorem exists_supplied_of_foldlM {store : Store} {names : List String}
    {known final : Table (String × Opcode.Draft)}
    (h : (names.foldlM (declareFragment store) known).result = .ok final) :
    ∃ fragments, List.Forall₂ (Supplies store) names fragments ∧
      ∀ fragment ∈ fragments, ∀ member ∈ Document.entryMembers fragment.2,
        IsReadable member := by
  induction names generalizing known with
  | nil => exact ⟨[], .nil, by simp⟩
  | cons name names ih =>
      rw [List.foldlM_cons, Outcome.bind_result, bind_eq_ok_iff] at h
      obtain ⟨next, hnext, hrest⟩ := h
      simp only [declareFragment, Outcome.liftM_eq, Outcome.bind_result, Outcome.ofExcept_result,
        bind_eq_ok_iff] at hnext
      obtain ⟨d, hd, members, hmembers, drafts, hdrafts, -⟩ := hnext
      obtain ⟨fragments, hsupplied, hread⟩ := ih hrest
      exact ⟨(d, members) :: fragments,
        .cons ⟨hd, Document.mapping_eq_ok_iff.mp hmembers⟩ hsupplied,
        List.forall_mem_cons.mpr ⟨((opcodeEntries_eq_ok_iff d).mp hdrafts).2, hread⟩⟩

/-- Opcodes that are loaded have sources. -/
theorem exists_sources {store : Store} {d : Document} {opcodes : List (String × Opcode.Draft)}
    (hd : store opcodesName = .ok d) (h : (opcodeList store d).result = .ok opcodes) :
    ∃ s : OpcodeSources store, s.Readable := by
  simp only [opcodeList, Outcome.liftM_eq, Outcome.bind_result, Outcome.ofExcept_result,
    bind_eq_ok_iff] at h
  obtain ⟨inline, hinline, listed, hlisted, h⟩ := h
  by_cases hsource : (inline.isNone && listed.isNone) = true
  · rw [if_pos hsource] at h
    simp [bind_eq_ok_iff, Document.fail] at h
  · rw [if_neg hsource] at h
    simp only [Outcome.bind_result, Outcome.ofExcept_result, bind_eq_ok_iff] at h
    obtain ⟨drafts, hdrafts, known, -, final, hfinal, -⟩ := h
    obtain ⟨fragments, hsupplied, hread⟩ := exists_supplied_of_foldlM hfinal
    let s : OpcodeSources store :=
      { document := d, inline, listed, fragments, document_eq := hd
        inline_eq := Document.optionalMapping_eq_ok_iff.mp hinline
        listed_eq := Document.nameList_eq_ok_iff.mp hlisted
        some_source := by
          cases inline <;> cases listed <;> simp_all
        supplied := hsupplied }
    refine ⟨s, ?_⟩
    rw [OpcodeSources.Readable, s.members_eq, List.forall_mem_append]
    refine ⟨((opcodeEntries_eq_ok_iff d).mp hdrafts).2, fun member hmember => ?_⟩
    obtain ⟨fragment, hfragment, hmember⟩ := List.mem_flatMap.mp hmember
    exact hread fragment hfragment member hmember

theorem forall₂_settledOpcodes {members : List (String × Json.Value)}
    (h : ∀ member ∈ members, IsReadable member) :
    List.Forall₂ (fun member (opcode : String × Opcode.Draft) =>
      opcode.1 = member.1 ∧ Opcode.Draft.reading member.2 = .ok opcode.2)
      (Entries.settled members) (settledOpcodes members) := by
  rw [settledOpcodes, List.forall₂_map_right_iff, List.forall₂_same]
  intro member hmember
  obtain ⟨draft, hdraft⟩ := h member (Entries.mem_of_mem_settled hmember)
  simp [decoded, hdraft]

theorem nodup_settledOpcodes (members : List (String × Json.Value)) :
    ((settledOpcodes members).map Prod.fst).Nodup := by
  rw [settledOpcodes, List.map_map]
  exact Entries.nodup_map_name_settled members

/-- What is loaded from sources that can be read. -/
theorem OpcodeSources.load_eq_ok_iff {store : Store} (s : OpcodeSources store) (h : s.Readable)
    (r : Declarations) :
    (load store).result = .ok r ↔ LoadsApart store r ∧ r.opcodes = settledOpcodes s.members := by
  rw [Declarations.load_eq_ok_iff, s.document_eq]
  constructor
  · rintro ⟨hapart, d, hd, hopcodes⟩
    rw [← Except.ok.inj hd, s.opcodeList_eq h] at hopcodes
    exact ⟨hapart, (Except.ok.inj hopcodes).symm⟩
  · rintro ⟨hapart, hopcodes⟩
    exact ⟨hapart, s.document, rfl, by rw [s.opcodeList_eq h, hopcodes]⟩

/-- Whatever loads has sources of opcodes that can be read. Their entries, run together, are
loaded with the last value of each id at its first place, and with one warning for each entry
whose id occurs before. Whether the settled entries stand inline, or the same entries in other
documents, makes no difference to the opcodes. -/
theorem load_concatenates (store : Store) :
    (∀ r, (load store).result = .ok r → ∃ s : OpcodeSources store, s.Readable) ∧
    ∀ s : OpcodeSources store, s.Readable →
      ∃ opcodes : List (String × Opcode.Draft),
        List.Forall₂ (fun member opcode =>
          opcode.1 = member.1 ∧ Opcode.Draft.reading member.2 = .ok opcode.2)
          (Entries.settled s.members) opcodes ∧
        (opcodes.map Prod.fst).Nodup ∧
        opcodeList store s.document = ⟨OpcodeEntry.redefinitions s.entries, .ok opcodes⟩ ∧
        (∀ r, (load store).result = .ok r ↔ LoadsApart store r ∧ r.opcodes = opcodes) ∧
        (∀ r, (load store).result = .ok r →
          (load store).warnings = OpcodeEntry.redefinitions s.entries) ∧
        (load s.mergedStore).result = (load store).result ∧
        ∀ (store' : Store) (s' : OpcodeSources store'), s'.members = s.members →
          (opcodeList store' s'.document).result = .ok opcodes ∧
          ∀ r, (load store').result = .ok r ↔ LoadsApart store' r ∧ r.opcodes = opcodes := by
  refine ⟨fun r h => ?_, fun s h => ⟨settledOpcodes s.members, forall₂_settledOpcodes h,
    nodup_settledOpcodes s.members, s.opcodeList_eq h, s.load_eq_ok_iff h, fun r hr => ?_,
    s.load_mergedStore h, fun store' s' hmembers => ?_⟩⟩
  · obtain ⟨-, d, hd, hopcodes⟩ := load_eq_ok_iff.mp h
    exact exists_sources hd hopcodes
  · rw [warnings_load hr s.document_eq, s.opcodeList_eq h]
  · have h' : s'.Readable := by rw [OpcodeSources.Readable, hmembers]; exact h
    refine ⟨?_, fun r => ?_⟩
    · rw [s'.opcodeList_eq h', hmembers]
    · rw [s'.load_eq_ok_iff h', hmembers]

/-- Documents of a set that lists the opcode document among its fragments, and another twice. -/
def overlapping : List (String × List (String × Json.Value)) :=
  let form text := Json.Value.object [("form", .text text)]
  [(typesName, [(typesName, .object [])]), (classesName, [(classesName, .object [])]),
    (operandsName, [(operandsName, .object [])]), (levelsName, [(levelsName, .object [])]),
    (comparisonsName, [(templateKey, .object []), (comparisonsName, .object [])]),
    (opcodesName, [(templateKey, .object []),
      (opcodesName, .object [("A", form "a1"), ("B", .object [])]),
      (fragmentsKey, .array [.text "more", .text opcodesName, .text "more"])]),
    ("more", [(opcodesName,
      .object [("C", .object []), (Document.endMarker, .null), ("A", form "a2")])])]

def overlappingStore : Store := fun name =>
  match Entries.get? name overlapping with
  | some members => .ok ⟨name, members⟩
  | none => .error (.load name .noSuchDocument)

theorem load_concatenates_overlapping :
    ∃ (s : OpcodeSources overlappingStore) (r : Declarations), s.Readable ∧
      (load overlappingStore).result = .ok r ∧ (load s.mergedStore).result = .ok r ∧
      r.opcodes.map (fun (id, draft) => (id, draft.form)) =
        [("A", .given "a2"), ("B", .absent), ("C", .absent)] ∧
      OpcodeEntry.redefinitions s.entries =
        [.opcodeRedefined "A" "more", .opcodeRedefined "A" opcodesName,
          .opcodeRedefined "B" opcodesName, .opcodeRedefined "C" "more",
          .opcodeRedefined "A" "more"] := by
  obtain ⟨hexists, hsources⟩ := load_concatenates overlappingStore
  obtain ⟨r, hr, hforms⟩ : ∃ r, (load overlappingStore).result = .ok r ∧
      r.opcodes.map (fun (id, draft) => (id, draft.form)) =
        [("A", .given "a2"), ("B", .absent), ("C", .absent)] := ⟨_, rfl, rfl⟩
  obtain ⟨s, hs⟩ := hexists r hr
  obtain ⟨_, -, -, -, -, hwarnings, hmerged, -⟩ := hsources s hs
  refine ⟨s, r, hs, hr, hmerged.trans hr, hforms, (hwarnings r hr).symm.trans ?_⟩
  decide +kernel

end InstructionSet.Declarations
