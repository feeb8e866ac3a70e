import InstructionSet.Definition.Source
import InstructionSet.Proofs.Declarations.Load
import InstructionSet.Proofs.Relocation
import InstructionSet.Proofs.Store

/-!
# What loading reads

Loading reads some members of some documents, and of mappings only the entries. Stores that agree
on these are loaded alike, whatever else their documents hold.
-/

namespace InstructionSet

namespace Document

/-- The entries of a mapping. Any other value is left as it is. -/
def withoutEnd : Json.Value → Json.Value
  | .object members => .object (entryMembers members)
  | v => v

theorem withoutEnd_eq_self {v : Json.Value} (h : ∀ members, v ≠ .object members) :
    withoutEnd v = v := by
  cases v with
  | object members => exact absurd rfl (h members)
  | _ => rfl

theorem exists_object_of_withoutEnd {v : Json.Value} {entries : List (String × Json.Value)}
    (h : withoutEnd v = .object entries) :
    ∃ members, v = .object members ∧ entryMembers members = entries := by
  cases v with
  | object members => exact ⟨members, rfl, Json.Value.object.inj h⟩
  | _ => cases h

/-- Both documents have the same value under `key`, or neither has one. -/
def SameValue (key : String) (d e : Document) : Prop := d.value? key = e.value? key

/-- The values under `key` differ in end markers at most. -/
def SameEntries (key : String) (d e : Document) : Prop :=
  (d.value? key).map withoutEnd = (e.value? key).map withoutEnd

section

variable {ρ : Relocation} {d e : Document} {key : String}

theorem results_fail {α β : Type} {R : α → β → Prop} (hname : e.name = ρ.name d.name)
    {f : LoadFault} (hf : f ≠ .noSuchDocument) : ρ.Results R (d.fail f) (e.fail f) := by
  rw [fail, fail, hname]
  exact .fault d.name hf

theorem results_parse (ρ : Relocation) (name text : String) :
    ρ.Results (fun d e => e.name = ρ.name d.name ∧ e.members = d.members)
      (parse name text) (parse (ρ.name name) text) := by
  unfold parse
  split
  · unfold ofValue
    split
    · split
      · exact .ok ⟨rfl, rfl⟩
      · exact .fault name nofun
    · exact .fault name nofun
  · exact .fault name nofun

/-- Documents of the same members are read alike in every respect. -/
theorem sameValue_of_members (h : e.members = d.members) (key : String) : d.SameValue key e := by
  rw [SameValue, value?, value?, h]

theorem sameEntries_of_members (h : e.members = d.members) (key : String) :
    d.SameEntries key e :=
  congrArg (Option.map withoutEnd) (sameValue_of_members h key)

/-- The values under `key` are both missing, both mappings, or one value that is no mapping. -/
theorem SameEntries.cases (h : SameEntries key d e) :
    (d.value? key = none ∧ e.value? key = none) ∨
      (∃ members others, d.value? key = some (.object members) ∧
        e.value? key = some (.object others) ∧ entryMembers members = entryMembers others) ∨
      ∃ v, (∀ members, v ≠ .object members) ∧ d.value? key = some v ∧ e.value? key = some v := by
  unfold SameEntries at h
  cases hd : d.value? key with
  | none =>
      rw [hd, Option.map_none, eq_comm, Option.map_eq_none_iff] at h
      exact .inl ⟨rfl, h⟩
  | some v =>
      rw [hd, Option.map_some, eq_comm, Option.map_eq_some_iff] at h
      obtain ⟨w, hw, hsame⟩ := h
      rw [hw]
      by_cases hobject : ∃ members, v = .object members
      · obtain ⟨members, rfl⟩ := hobject
        obtain ⟨others, rfl, hentries⟩ := exists_object_of_withoutEnd hsame
        exact .inr (.inl ⟨members, others, rfl, rfl, hentries.symm⟩)
      · have hv : ∀ members, v ≠ .object members := fun members e => hobject ⟨members, e⟩
        rw [withoutEnd_eq_self hv] at hsame
        have hw : ∀ members, w ≠ .object members := fun members e =>
          hv _ (hsame.symm.trans (congrArg withoutEnd e))
        rw [withoutEnd_eq_self hw] at hsame
        exact .inr (.inr ⟨v, hv, rfl, congrArg some hsame⟩)

theorem results_optionalMapping (hname : e.name = ρ.name d.name) (h : SameEntries key d e) :
    ρ.Results (fun members others => members.isNone = others.isNone ∧
        entryMembers (members.getD []) = entryMembers (others.getD []))
      (d.optionalMapping key) (e.optionalMapping key) := by
  unfold optionalMapping
  obtain ⟨hd, he⟩ | ⟨members, others, hd, he, hsame⟩ | ⟨v, hv, hd, he⟩ := h.cases
  · rw [hd, he]
    exact .ok ⟨rfl, rfl⟩
  · rw [hd, he]
    exact .ok ⟨rfl, hsame⟩
  · rw [hd, he]
    split
    · rename_i heq
      cases heq
    · rename_i heq
      exact absurd (Option.some.inj heq) (hv _)
    · exact results_fail hname nofun

theorem results_mapping (hname : e.name = ρ.name d.name) (h : SameEntries key d e) :
    ρ.Results (fun members others => entryMembers members = entryMembers others)
      (d.mapping key) (e.mapping key) := by
  refine (results_optionalMapping hname h).bind fun members others hsame => ?_
  cases members <;> cases others
  · exact results_fail hname nofun
  · cases hsame.1
  · cases hsame.1
  · exact .ok hsame.2

variable {α : Type}

theorem results_entries (hname : e.name = ρ.name d.name)
    {members others : List (String × Json.Value)}
    (h : entryMembers members = entryMembers others) (reading : String → Json.Reading α) :
    ρ.Results Eq (d.entries key members reading) (e.entries key others reading) := by
  rw [entries, entries, h]
  refine Relocation.Results.mapM (fun (id, value) => ?_) _
  dsimp only
  cases reading id value with
  | ok entry => exact .ok rfl
  | error mismatch => exact results_fail hname nofun

theorem results_record (hname : e.name = ρ.name d.name) (h : SameValue key d e)
    (reading : Json.Reading α) : ρ.Results Eq (d.record key reading) (e.record key reading) := by
  rw [record, record, ← h]
  cases d.value? key with
  | none => exact results_fail hname nofun
  | some v =>
      dsimp only
      cases reading v with
      | ok r => exact .ok rfl
      | error mismatch => exact results_fail hname nofun

theorem results_nameList (hname : e.name = ρ.name d.name) (h : SameValue key d e) :
    ρ.Results Eq (d.nameList key) (e.nameList key) := by
  rw [nameList, nameList, ← h]
  cases d.value? key with
  | none => exact .ok rfl
  | some v =>
      dsimp only
      cases Json.Reading.list .text v with
      | ok names => exact .ok rfl
      | error mismatch => exact results_fail hname nofun

end

end Document

namespace Declarations

open Relocation

section

variable {ρ : Relocation} {d e : Document}

theorem results_descriptors (hname : e.name = ρ.name d.name) {key : String}
    (h : d.SameEntries key e) : ρ.Results Eq (descriptors d key) (descriptors e key) := by
  refine (Document.results_mapping hname h).bind fun members others hsame => ?_
  rw [hsame]
  exact .ok rfl

theorem results_operandList (hname : e.name = ρ.name d.name)
    (h : d.SameEntries operandsName e) : ρ.Results Eq (operandList d) (operandList e) := by
  refine (Document.results_mapping hname h).bind fun members others hsame => ?_
  refine (Document.results_entries hname hsame _).bind ?_
  rintro entries _ rfl
  exact .ok rfl

theorem results_levelList (hname : e.name = ρ.name d.name)
    (h : d.SameEntries levelsName e) : ρ.Results Eq (levelList d) (levelList e) :=
  (Document.results_mapping hname h).bind fun _ _ hsame => Document.results_entries hname hsame _

theorem results_comparisonList (hname : e.name = ρ.name d.name)
    (h : d.SameEntries comparisonsName e) :
    ρ.Results Eq (comparisonList d) (comparisonList e) :=
  (Document.results_mapping hname h).bind fun _ _ hsame => Document.results_entries hname hsame _

theorem results_opcodeEntries (hname : e.name = ρ.name d.name)
    {members others : List (String × Json.Value)}
    (h : Document.entryMembers members = Document.entryMembers others) :
    ρ.Results Eq (opcodeEntries d members) (opcodeEntries e others) :=
  Document.results_entries hname h _

theorem outcomes_declareAll (document : String) (known : Table (String × Opcode.Draft))
    (entries : List (String × Opcode.Draft)) :
    ρ.Outcomes Eq (declareAll document known entries)
      (declareAll (ρ.name document) known entries) := by
  induction entries generalizing known with
  | nil => exact .pure rfl
  | cons entry rest ih =>
      exact (Outcomes.warnIf _ (.opcodeRedefined entry.1 document)).bind fun _ _ _ =>
        ih (known.insert entry)

end

/-! ## Loading -/

/-- A document of one store is read as that of another, under its name there. -/
def SameDocument (ρ : Relocation) (same : Document → Document → Prop) (s t : Store)
    (name : String) : Prop :=
  ρ.Results (fun d e => e.name = ρ.name d.name ∧ same d e) (s name) (t name)

/-- Two stores give the same to read, as far as loading reads on. -/
structure ReadAlike (ρ : Relocation) (s t : Store) : Prop where
  types : SameDocument ρ (Document.SameEntries typesName) s t typesName
  classes : SameDocument ρ (Document.SameEntries classesName) s t classesName
  operands : SameDocument ρ (Document.SameEntries operandsName) s t operandsName
  levels : SameDocument ρ (Document.SameEntries levelsName) s t levelsName
  comparisons : SameDocument ρ (fun d e => d.SameValue templateKey e ∧
    d.SameEntries comparisonsName e) s t comparisonsName
  opcodes : SameDocument ρ (fun d e => d.SameValue templateKey e ∧
    d.SameEntries opcodesName e ∧ d.SameValue fragmentsKey e) s t opcodesName
  fragments : ∀ name ∈ fragmentNames s,
    SameDocument ρ (Document.SameEntries opcodesName) s t name

variable {ρ : Relocation} {s t : Store}

theorem outcomes_declareFragment {name other : String}
    (h : ρ.Results (fun d e => e.name = ρ.name d.name ∧ d.SameEntries opcodesName e)
      (s name) (t other)) (known : Table (String × Opcode.Draft)) :
    ρ.Outcomes Eq (declareFragment s known name) (declareFragment t known other) := by
  refine Outcomes.ofExcept_bind h fun d e ⟨hname, hmapping⟩ => ?_
  refine Outcomes.ofExcept_bind (Document.results_mapping hname hmapping)
    fun members others hentries => ?_
  refine Outcomes.ofExcept_bind (results_opcodeEntries hname hentries) ?_
  rintro entries _ rfl
  rw [hname]
  exact outcomes_declareAll d.name known entries

theorem outcomes_opcodeList {d e : Document} (hd : s opcodesName = .ok d)
    (hname : e.name = ρ.name d.name) (hinline : d.SameEntries opcodesName e)
    (hlisted : d.SameValue fragmentsKey e)
    (hfragments : ∀ name ∈ fragmentNames s,
      SameDocument ρ (Document.SameEntries opcodesName) s t name) :
    ρ.Outcomes Eq (opcodeList s d) (opcodeList t e) := by
  refine Outcomes.ofExcept_bind (Document.results_optionalMapping hname hinline)
    fun inline others ⟨hnone, hentries⟩ => ?_
  refine Outcomes.ofExcept_bind (Document.results_nameList hname hlisted).attach ?_
  rintro listed _ ⟨hlist, rfl⟩
  rw [fragmentNames_eq hd hlist] at hfragments
  have hrest : ρ.Outcomes Eq
      (do
        let entries ← opcodeEntries d (inline.getD [])
        let known ← declareAll d.name .empty entries
        let known ← (listed.getD []).foldlM (declareFragment s) known
        return known.entries)
      (do
        let entries ← opcodeEntries e (others.getD [])
        let known ← declareAll e.name .empty entries
        let known ← (listed.getD []).foldlM (declareFragment t) known
        return known.entries) := by
    refine Outcomes.ofExcept_bind (results_opcodeEntries hname hentries) ?_
    rintro entries _ rfl
    rw [hname]
    refine (outcomes_declareAll d.name _ entries).bind ?_
    rintro known _ rfl
    refine (Outcomes.foldlM (fun name hmem known =>
      outcomes_declareFragment (hfragments name hmem) known) known).bind ?_
    rintro known _ rfl
    exact .pure rfl
  have hfail : ρ.Results (fun _ _ => True) (d.fail (.namesMissing fragmentsKey) : Except Error Unit)
      (e.fail (.namesMissing fragmentsKey) : Except Error Unit) :=
    Document.results_fail hname nofun
  rw [← hnone]
  split
  · exact Outcomes.ofExcept_bind hfail fun _ _ _ => hrest
  · exact hrest

/-- The opcodes may come from whatever documents there are, if they are the same in the end. -/
theorem outcomes_load_of_opcodes
    (htypes : SameDocument ρ (Document.SameEntries typesName) s t typesName)
    (hclasses : SameDocument ρ (Document.SameEntries classesName) s t classesName)
    (hoperands : SameDocument ρ (Document.SameEntries operandsName) s t operandsName)
    (hlevels : SameDocument ρ (Document.SameEntries levelsName) s t levelsName)
    (hcomparisons : SameDocument ρ (fun d e => d.SameValue templateKey e ∧
      d.SameEntries comparisonsName e) s t comparisonsName)
    (hopcodes : SameDocument ρ (fun d e => d.SameValue templateKey e ∧
      ρ.Outcomes Eq (opcodeList s d) (opcodeList t e)) s t opcodesName) :
    ρ.Outcomes Eq (load s) (load t) := by
  refine Outcomes.ofExcept_bind htypes fun types types' htypes => ?_
  refine Outcomes.ofExcept_bind hclasses fun classes classes' hclasses => ?_
  refine Outcomes.ofExcept_bind hoperands fun operands operands' hoperands => ?_
  refine Outcomes.ofExcept_bind hlevels fun levels levels' hlevels => ?_
  refine Outcomes.ofExcept_bind hcomparisons fun comparisons comparisons' hc => ?_
  refine Outcomes.ofExcept_bind hopcodes fun opcodes opcodes' ho => ?_
  obtain ⟨hcname, hctemplate, hcentries⟩ := hc
  obtain ⟨honame, hotemplate, holist⟩ := ho
  -- Both runs have read all documents; from here on they go through the same values.
  refine Outcomes.ofExcept_bind (Document.results_record hcname hctemplate _) ?_
  rintro comparisonTemplate _ rfl
  refine Outcomes.ofExcept_bind (results_comparisonList hcname hcentries) ?_
  rintro comparisonEntries _ rfl
  refine Outcomes.ofExcept_bind (Document.results_record honame hotemplate _) ?_
  rintro opcodeTemplate _ rfl
  refine holist.bind ?_
  rintro opcodeEntries _ rfl
  refine Outcomes.ofExcept_bind (results_descriptors htypes.1 htypes.2) ?_
  rintro typeList _ rfl
  refine Outcomes.ofExcept_bind (results_descriptors hclasses.1 hclasses.2) ?_
  rintro classList _ rfl
  refine Outcomes.ofExcept_bind (results_operandList hoperands.1 hoperands.2) ?_
  rintro operandEntries _ rfl
  refine Outcomes.ofExcept_bind (results_levelList hlevels.1 hlevels.2) ?_
  rintro levelEntries _ rfl
  exact .pure rfl

theorem outcomes_load (h : ReadAlike ρ s t) : ρ.Outcomes Eq (load s) (load t) := by
  refine outcomes_load_of_opcodes h.types h.classes h.operands h.levels h.comparisons ?_
  refine h.opcodes.attach.mono fun d e ⟨hd, hname, htemplate, hentries, hlisted⟩ => ?_
  exact ⟨hname, htemplate, outcomes_opcodeList hd hname hentries hlisted h.fragments⟩

end Declarations

/-! ## Stores in memory -/

/-- What the document called `name` has under `key`, if there is such a document. -/
def Store.held? (s : Store) (name key : String) : Option Json.Value :=
  match s name with
  | .ok d => d.value? key
  | .error _ => none

theorem Store.held?_of_ok {s : Store} {name : String} {d : Document} (h : s name = .ok d)
    (key : String) : s.held? name key = d.value? key := by
  rw [Store.held?, h]

namespace MemoryStore

open Declarations

theorem name_of_load {s : MemoryStore} {name : String} {d : Document}
    (h : s.load name = .ok d) : d.name = name := by
  unfold load at h
  split at h
  · exact Document.name_of_parse h
  · cases h

/-- Two stores have all documents that loading asks for, and in these they agree on everything
that it reads. -/
structure AgreeOnRead (s t : MemoryStore) : Prop where
  loads : ∀ name ∈ requiredNames ++ fragmentNames s.load,
    (∃ d, s.load name = .ok d) ∧ ∃ e, t.load name = .ok e
  mappings : ∀ name ∈ requiredNames, (s.load.held? name name).map Document.withoutEnd =
    (t.load.held? name name).map Document.withoutEnd
  templates : ∀ name ∈ [comparisonsName, opcodesName],
    s.load.held? name templateKey = t.load.held? name templateKey
  listed : s.load.held? opcodesName fragmentsKey = t.load.held? opcodesName fragmentsKey
  fragments : ∀ name ∈ fragmentNames s.load,
    (s.load.held? name opcodesName).map Document.withoutEnd =
      (t.load.held? name opcodesName).map Document.withoutEnd

namespace AgreeOnRead

variable {s t : MemoryStore}

theorem sameDocument (h : AgreeOnRead s t) {same : Document → Document → Prop} {name : String}
    (hname : name ∈ requiredNames ++ fragmentNames s.load)
    (hsame : ∀ d e, s.load name = .ok d → t.load name = .ok e → same d e) :
    SameDocument .identity same s.load t.load name := by
  obtain ⟨⟨d, hd⟩, e, he⟩ := h.loads name hname
  rw [SameDocument, hd, he]
  exact .ok ⟨(name_of_load he).trans (name_of_load hd).symm, hsame d e hd he⟩

/-- The mapping of a required document, which is called like the document. -/
theorem sameEntries (h : AgreeOnRead s t) {name : String} (hname : name ∈ requiredNames)
    {d e : Document} (hd : s.load name = .ok d) (he : t.load name = .ok e) :
    d.SameEntries name e := by
  have hmapping := h.mappings name hname
  rwa [Store.held?_of_ok hd, Store.held?_of_ok he] at hmapping

theorem sameTemplate (h : AgreeOnRead s t) {name : String}
    (hname : name ∈ [comparisonsName, opcodesName]) {d e : Document}
    (hd : s.load name = .ok d) (he : t.load name = .ok e) : d.SameValue templateKey e := by
  have htemplate := h.templates name hname
  rwa [Store.held?_of_ok hd, Store.held?_of_ok he] at htemplate

theorem readAlike (h : AgreeOnRead s t) : ReadAlike .identity s.load t.load := by
  have hrequired {name : String} (hname : name ∈ requiredNames) :
      name ∈ requiredNames ++ fragmentNames s.load := List.mem_append_left _ hname
  have hmapping {name : String} (hname : name ∈ requiredNames) :
      SameDocument .identity (Document.SameEntries name) s.load t.load name :=
    h.sameDocument (hrequired hname) fun d e hd he => h.sameEntries hname hd he
  have hcomparisons : comparisonsName ∈ requiredNames := by decide
  have hopcodes : opcodesName ∈ requiredNames := by decide
  exact {
    types := hmapping (by decide)
    classes := hmapping (by decide)
    operands := hmapping (by decide)
    levels := hmapping (by decide)
    comparisons := h.sameDocument (hrequired hcomparisons) fun d e hd he =>
      ⟨h.sameTemplate (by decide) hd he, h.sameEntries hcomparisons hd he⟩
    opcodes := h.sameDocument (hrequired hopcodes) fun d e hd he => by
      have hlisted := h.listed
      rw [Store.held?_of_ok hd, Store.held?_of_ok he] at hlisted
      exact ⟨h.sameTemplate (by decide) hd he, h.sameEntries hopcodes hd he, hlisted⟩
    fragments := fun name hname =>
      h.sameDocument (List.mem_append_right _ hname) fun d e hd he => by
        have hmapping := h.fragments name hname
        rwa [Store.held?_of_ok hd, Store.held?_of_ok he] at hmapping }

end AgreeOnRead

/-- Stores that agree on what is read give the same declarations and the same definition, or the
same errors, with the same warnings. Other documents, other members, and end markers have no
influence. -/
theorem ofStore_eq_of_agreeOnRead {s t : MemoryStore} (h : AgreeOnRead s t) :
    Declarations.load s.load = Declarations.load t.load ∧
      Definition.ofStore s.load = Definition.ofStore t.load := by
  have hload : Declarations.load t.load = Declarations.load s.load :=
    (outcomes_load h.readAlike).eq_of_identity
  refine ⟨hload.symm, ?_⟩
  rw [Definition.ofStore, Definition.ofStore, hload]

/-- A small set with a fragment. -/
def tidy : List (String × Json.Value) :=
  let document members := Json.Value.object [("data", .object members)]
  let base := Json.Value.object [("opA", .text "r"), ("opB", .text "r")]
  [("types", document [("types", .object [("B", .null)])]),
    ("classes", document [("classes", .object [])]),
    ("operands", document [("operands", .object [("r", .object [("bits", Json.ofNat 4)])])]),
    ("levels", document [("levels", .object [])]),
    ("comparisons", document [("default", .object []), ("comparisons", .object [])]),
    ("opcodes", document [("default", base), ("opcodedefs", .array [.text "more"])]),
    ("more", document [("opcodes", .object [("ADD", .object []), ("SUB", .object [])])])]

/-- The same set with end markers in several places, further members, and one more document. The
fragment lists a fragment of its own, which is not there. -/
def cluttered : List (String × Json.Value) :=
  let document members :=
    Json.Value.object [("version", .text "2"), ("data", .object (("note", .null) :: members))]
  let base := Json.Value.object [("opA", .text "r"), ("opB", .text "r")]
  [("spare", .array []),
    ("types", document [("types", .object [("_end", .text "B"), ("B", .null)])]),
    ("classes", document [("classes", .object [("_end", .object [])])]),
    ("operands", document [("operands", .object [("r", .object [("bits", Json.ofNat 4)])])]),
    ("levels", document [("levels", .object [("_end", .null)])]),
    ("comparisons", document [("comparisons", .object [("_end", .bool true)]),
      ("default", .object [])]),
    ("opcodes", document [("opcodedefs", .array [.text "more"]), ("default", base)]),
    ("more", document [
      ("opcodes", .object [("ADD", .object []), ("_end", .array []), ("SUB", .object [])]),
      ("default", .bool false), ("opcodedefs", .array [.text "absent"])])]

theorem ofStore_eq_of_agreeOnRead_cluttered :
    AgreeOnRead (ofValues tidy) (ofValues cluttered) ∧
      ∃ d, (Definition.ofStore (ofValues tidy).load).result = .ok d ∧
        d.opcodes.names = ["ADD", "SUB"] ∧
        (Definition.ofStore (ofValues cluttered).load).result = .ok d := by
  have hs := @load_ofValues tidy (by decide)
  have ht := @load_ofValues cluttered (by decide)
  have hfragments : fragmentNames (ofValues tidy).load = ["more"] := by
    rw [hs]
    rfl
  have hok : ∀ name ∈ requiredNames ++ ["more"],
      (failure? ((ofValues tidy).load name)).isNone ∧
        (failure? ((ofValues cluttered).load name)).isNone := by
    rw [hs, ht]
    decide
  have h : AgreeOnRead (ofValues tidy) (ofValues cluttered) := by
    refine ⟨fun name hname => ?_, ?_, ?_, ?_, ?_⟩
    · obtain ⟨htidy, hcluttered⟩ := hok name (hfragments ▸ hname)
      exact ⟨failure?_eq_none_iff.mp (Option.isNone_iff_eq_none.mp htidy),
        failure?_eq_none_iff.mp (Option.isNone_iff_eq_none.mp hcluttered)⟩
    · rw [hs, ht]
      simp only [requiredNames, List.forall_mem_cons]
      exact ⟨rfl, rfl, rfl, rfl, rfl, rfl, nofun⟩
    · rw [hs, ht]
      simp only [List.forall_mem_cons]
      exact ⟨rfl, rfl, nofun⟩
    · rw [hs, ht]
      rfl
    · rw [hfragments, hs, ht]
      simp only [List.forall_mem_cons]
      exact ⟨rfl, nofun⟩
  refine ⟨h, ?_⟩
  rw [← (ofStore_eq_of_agreeOnRead h).2, hs]
  exact ⟨_, rfl, rfl, rfl⟩

end MemoryStore

end InstructionSet
