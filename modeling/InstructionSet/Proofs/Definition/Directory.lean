import InstructionSet.Proofs.Declarations.Reading

/-!
# Directories and memory

A directory gives the definition that a memory store of the same texts gives. Errors and warnings
call documents by their paths instead of their names, and a document that is not there is called
a missing file.
-/

namespace InstructionSet

/-- The fault of a store in the words of a directory. -/
def LoadFault.onDisk : LoadFault → LoadFault
  | .noSuchDocument => .noSuchFile
  | f => f

namespace DirectoryStore

/-- At the path of the document called `name` there is a file if and only if `m` has a text under
that name, and then it holds this text. -/
structure Mirrors (s : DirectoryStore) (m : MemoryStore) (name : String) : Prop where
  present : ∀ text, m.get? name = some text →
    s.files (s.documentPath name) = some (.file text.toUTF8)
  missing : m.get? name = none → ∀ bytes, s.files (s.documentPath name) ≠ some (.file bytes)

/-- Documents are called by their paths. -/
def relocation (s : DirectoryStore) : Relocation where
  name := s.documentPath
  fault := LoadFault.onDisk
  fault_eq f hf := by cases f <;> first | rfl | exact absurd rfl hf

end DirectoryStore

/-! ## Documents -/

namespace DirectoryStore

open Declarations

variable {s : DirectoryStore} {m : MemoryStore}

theorem fromUTF8?_toUTF8 (text : String) : String.fromUTF8? text.toUTF8 = some text :=
  dif_pos text.isValidUTF8

theorem Mirrors.results_load {name : String} (h : s.Mirrors m name) :
    s.relocation.Results (fun d e => e.name = s.documentPath d.name ∧ e.members = d.members)
      (m.load name) (s.load name) := by
  unfold MemoryStore.load load
  dsimp only
  cases htext : m.get? name with
  | some text =>
      rw [h.present text htext]
      dsimp only
      rw [fromUTF8?_toUTF8]
      exact Document.results_parse s.relocation name text
  | none =>
      have hmissing := h.missing htext
      cases hfile : s.files (s.documentPath name) with
      | none => exact .error (.load name .noSuchDocument)
      | some node =>
          cases node with
          | file bytes => exact absurd hfile (hmissing bytes)
          | directory => exact .error (.load name .noSuchDocument)

theorem readAlike_of_mirrors
    (h : ∀ name ∈ requiredNames ++ fragmentNames m.load, s.Mirrors m name) :
    ReadAlike s.relocation m.load s.load := by
  rw [List.forall_mem_append] at h
  obtain ⟨hrequired, hfragments⟩ := h
  have hmapping {name : String} (hname : s.Mirrors m name) (key : String) :
      SameDocument s.relocation (Document.SameEntries key) m.load s.load name :=
    hname.results_load.mono fun d e hde => ⟨hde.1, Document.sameEntries_of_members hde.2 key⟩
  exact {
    types := hmapping (hrequired _ (by decide)) typesName
    classes := hmapping (hrequired _ (by decide)) classesName
    operands := hmapping (hrequired _ (by decide)) operandsName
    levels := hmapping (hrequired _ (by decide)) levelsName
    comparisons := (hrequired comparisonsName (by decide)).results_load.mono fun d e hde =>
      ⟨hde.1, Document.sameValue_of_members hde.2 templateKey,
        Document.sameEntries_of_members hde.2 comparisonsName⟩
    opcodes := (hrequired opcodesName (by decide)).results_load.mono fun d e hde =>
      ⟨hde.1, Document.sameValue_of_members hde.2 templateKey,
        Document.sameEntries_of_members hde.2 opcodesName,
        Document.sameValue_of_members hde.2 fragmentsKey⟩
    fragments := fun name hname => hmapping (hfragments name hname) opcodesName }

end DirectoryStore

/-! ## Compiling -/

section

variable {ρ : Relocation}

/-- Broken rules are told without a document. -/
theorem results_mapError {α : Type} (subject : Subject) (verdict : Except Breach α) :
    ρ.Results Eq (verdict.mapError (Breach.error subject))
      (verdict.mapError (Breach.error subject)) := by
  cases verdict with
  | ok a => exact .ok rfl
  | error breach => exact .error (breach.error subject)

open Relocation

namespace Catalog

variable (c : Catalog) (id : String)

theorem outcomes_variant (seed entry : Opcode.Draft) (variation : Nat) :
    ρ.Outcomes Eq (c.variant id seed variation entry) (c.variant id seed variation entry) := by
  refine (Outcomes.warnIf _ (.nestedMarkers id variation)).bind fun _ _ _ => ?_
  refine Outcomes.ofExcept_bind (results_mapError _ _) ?_
  rintro layout _ rfl
  exact .pure rfl

theorem outcomes_variantsFrom (seed : Opcode.Draft) (start : Nat)
    (entries : List Opcode.Draft) :
    ρ.Outcomes Eq (c.variantsFrom id seed start entries)
      (c.variantsFrom id seed start entries) := by
  induction entries generalizing start with
  | nil => exact .pure rfl
  | cons entry rest ih =>
      refine (c.outcomes_variant id seed entry start).bind ?_
      rintro v _ rfl
      refine (ih (start + 1)).bind ?_
      rintro more _ rfl
      exact .pure rfl

theorem outcomes_shape (d : Opcode.Draft) :
    ρ.Outcomes Eq (c.shape id d) (c.shape id d) := by
  unfold shape
  split
  · refine (c.outcomes_variantsFrom id d.seed 0 _).bind ?_
    rintro variants _ rfl
    exact .pure rfl
  · exact (Outcomes.warnIf _ (.variantsUnused id)).bind fun _ _ _ => .pure rfl

theorem outcomes_opcode (classes : Table Descriptor) (d : Opcode.Draft) :
    ρ.Outcomes Eq (c.opcode classes id d) (c.opcode classes id d) := by
  refine Outcomes.ofExcept_bind (results_mapError _ _) ?_
  rintro layout _ rfl
  have hshape : ρ.Outcomes Eq
      (do
        let shape ← c.shape id d
        return { name := id, layout, shape, traits := .ofDraft d : Opcode })
      (do
        let shape ← c.shape id d
        return { name := id, layout, shape, traits := .ofDraft d : Opcode }) := by
    refine (c.outcomes_shape id d).bind ?_
    rintro shape _ rfl
    exact .pure rfl
  cases d.className.value? with
  | none => exact hshape
  | some className =>
      exact (Outcomes.warnIf _ (.classUndefined id className)).bind fun _ _ _ => hshape

end Catalog

/-- Compiling has nothing to do with documents. -/
theorem Declarations.outcomes_compile (r : Declarations) :
    ρ.Outcomes Eq r.compile r.compile := by
  refine Outcomes.ofExcept_bind (Results.mapM (fun entry => results_mapError _ _) _) ?_
  rintro comparisons _ rfl
  refine (Outcomes.mapM (fun entry => r.catalog.outcomes_opcode _ _ _) _).bind ?_
  rintro opcodes _ rfl
  exact .pure rfl

end

/-! ## Definitions -/

namespace Definition

open MemoryStore Declarations

section

variable {files : Files} {root : String} {s : DirectoryStore} {m : MemoryStore}

theorem outcomes_ofDirectory (hopen : DirectoryStore.mk? files root = .ok s)
    (h : ∀ name ∈ requiredNames ++ fragmentNames m.load, s.Mirrors m name) :
    s.relocation.Outcomes Eq (ofStore m.load) (ofDirectory files root) := by
  have hdirectory : ofDirectory files root = ofStore s.load := by
    rw [ofDirectory, hopen]
    rfl
  rw [hdirectory]
  refine (outcomes_load (DirectoryStore.readAlike_of_mirrors h)).bind ?_
  rintro r _ rfl
  exact r.outcomes_compile

/-- A directory gives the definition that a memory store of the same texts gives, and fails where
that fails, for the same reason. What can be told in other words is a document: it goes by its
path, and a missing one is a missing file. Only the documents that loading asks for have to be
the same. -/
theorem ofDirectory_agrees (hopen : DirectoryStore.mk? files root = .ok s)
    (h : ∀ name ∈ requiredNames ++ fragmentNames m.load, s.Mirrors m name) :
    (∀ d, (ofDirectory files root).result = .ok d ↔ (ofStore m.load).result = .ok d) ∧
    (∀ v, (ofDirectory files root).result = .error (.violation v) ↔
      (ofStore m.load).result = .error (.violation v)) ∧
    (∀ directory fault, (ofDirectory files root).result = .error (.path directory fault) ↔
      (ofStore m.load).result = .error (.path directory fault)) ∧
    (∀ document fault, (ofDirectory files root).result = .error (.load document fault) ↔
      ∃ name cause, (ofStore m.load).result = .error (.load name cause) ∧
        document = s.documentPath name ∧ fault = cause.onDisk) := by
  have hresult := (outcomes_ofDirectory hopen h).result
  exact ⟨fun _ => hresult.ok_iff, fun _ => hresult.error_iff_of_ne_load nofun,
    fun _ _ => hresult.error_iff_of_ne_load nofun, fun _ _ => hresult.load_iff⟩

end

/-- The place of a document in the directory `defs`. -/
def filePath (name : String) : String := "defs/" ++ name ++ ".json"

theorem filePath_injective : Function.Injective filePath := fun a b h => by
  rwa [filePath, filePath, String.append_left_inj, String.append_right_inj] at h

/-- Written documents as the files of the directory `defs`. -/
def filed (documents : List (String × Json.Value)) : Files := fun path =>
  (Entries.get? path (documents.map fun (name, value) =>
    (filePath name, FileNode.file value.compact.toUTF8))).or
      (if path = "defs" then some .directory else none)

theorem mirrors_filed (documents : List (String × Json.Value)) {name : String}
    (hpath : joinPath "defs" (name ++ ".json") = filePath name) :
    DirectoryStore.Mirrors ⟨filed documents, "defs"⟩ (ofValues documents) name := by
  have hfile : filed documents (joinPath "defs" (name ++ ".json")) =
      ((Entries.get? name documents).map fun value => .file value.compact.toUTF8).or
        (if filePath name = "defs" then some .directory else none) := by
    rw [hpath, filed, ← Entries.get?_mapKeys filePath_injective]
  constructor
  · intro text h
    rw [get?_ofValues, Option.map_eq_some_iff] at h
    obtain ⟨value, hvalue, rfl⟩ := h
    rw [hvalue] at hfile
    exact hfile
  · intro h bytes hbytes
    rw [get?_ofValues, Option.map_eq_none_iff] at h
    rw [h] at hfile
    have hnode := hfile.symm.trans hbytes
    split at hnode <;> cases hnode

/-- The small set with its fragment, and without it. -/
theorem ofDirectory_agrees_filed :
    (∃ d, (ofStore (ofValues tidy).load).result = .ok d ∧ d.opcodes.names = ["ADD", "SUB"] ∧
      (ofDirectory (filed tidy) "defs").result = .ok d) ∧
    (ofStore (ofValues tidy.dropLast).load).result = .error (.load "more" .noSuchDocument) ∧
    (ofDirectory (filed tidy.dropLast) "defs").result =
      .error (.load "defs/more.json" .noSuchFile) := by
  have hpaths : ∀ name ∈ requiredNames ++ ["more"],
      joinPath "defs" (name ++ ".json") = filePath name := by decide +kernel
  have hwhole := @load_ofValues tidy (by decide)
  have hlacking := @load_ofValues tidy.dropLast (by decide)
  have hlisted : fragmentNames (ofValues tidy).load = ["more"] ∧
      fragmentNames (ofValues tidy.dropLast).load = ["more"] := by
    rw [hwhole, hlacking]
    exact ⟨rfl, rfl⟩
  have hopen {documents : List (String × Json.Value)}
      (h : filed documents "defs" = some .directory) :
      DirectoryStore.mk? (filed documents) "defs" = .ok ⟨filed documents, "defs"⟩ := by
    rw [DirectoryStore.mk?, h]
  obtain ⟨hok, -⟩ := ofDirectory_agrees (hopen (by rfl)) fun name hname =>
    mirrors_filed tidy (hpaths name (hlisted.1 ▸ hname))
  obtain ⟨-, -, -, hload⟩ := ofDirectory_agrees (hopen (by rfl)) fun name hname =>
    mirrors_filed tidy.dropLast (hpaths name (hlisted.2 ▸ hname))
  have hmissing :
      (ofStore (ofValues tidy.dropLast).load).result = .error (.load "more" .noSuchDocument) := by
    rw [hlacking]
    rfl
  refine ⟨?_, hmissing, (hload _ _).mpr ⟨_, _, hmissing, (hpaths "more" (by decide)).symm, rfl⟩⟩
  simp only [hok]
  rw [hwhole]
  exact ⟨_, rfl, rfl, rfl⟩

end Definition

end InstructionSet
