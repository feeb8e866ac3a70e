import InstructionSet.Proofs.Json.Reader
import InstructionSet.Proofs.Json.RoundTrip
import InstructionSet.Store.Directory

/-!
# Documents of stores

Documents that were read from texts have no key twice in an object, in memory as in a directory.
-/

namespace InstructionSet

/-- No object within the document has a key twice. -/
def Document.Keyed (d : Document) : Prop := (Json.Value.object d.members).keyed

def Store.Keyed (store : Store) : Prop := ∀ name d, store name = .ok d → d.Keyed

theorem Document.keyed_value? {d : Document} (h : d.Keyed) {key : String} {v : Json.Value}
    (hv : d.value? key = some v) : v.keyed :=
  (Json.Value.keyed_object.mp h).2 _ (Entries.mem_of_get? hv)

theorem Document.keyed_of_parse {name text : String} {d : Document}
    (h : parse name text = .ok d) : d.Keyed := by
  unfold parse at h
  split at h
  · rename_i v hparse
    have hkeyed := Json.keyed_of_parse? hparse
    unfold ofValue at h
    split at h
    · split at h <;> cases h
      rename_i hdata
      exact (Json.Value.keyed_object.mp hkeyed).2 _ (Entries.mem_of_get? hdata)
    · cases h
  · cases h

theorem Document.name_of_parse {name text : String} {d : Document}
    (h : parse name text = .ok d) : d.name = name := by
  unfold parse at h
  split at h
  · unfold ofValue at h
    split at h
    · split at h <;> cases h
      rfl
    · cases h
  · cases h

theorem MemoryStore.keyed_load (s : MemoryStore) : Store.Keyed s.load := by
  intro name d h
  unfold load at h
  split at h
  · exact Document.keyed_of_parse h
  · cases h

theorem DirectoryStore.keyed_load (s : DirectoryStore) : Store.Keyed s.load := by
  intro name d h
  unfold load at h
  dsimp only at h
  split at h
  · split at h
    · exact Document.keyed_of_parse h
    · cases h
  · cases h

/-- A store that reads its documents from texts: those in memory, or those of files. -/
inductive Store.ReadsTexts : Store → Prop
  | memory (s : MemoryStore) : ReadsTexts s.load
  | directory (s : DirectoryStore) : ReadsTexts s.load

theorem Store.ReadsTexts.keyed {store : Store} (h : store.ReadsTexts) : store.Keyed := by
  cases h with
  | memory s => exact s.keyed_load
  | directory s => exact s.keyed_load

namespace MemoryStore

/-- Documents written from values. -/
def ofValues (documents : List (String × Json.Value)) : MemoryStore :=
  ⟨documents.map fun (name, value) => (name, value.compact)⟩

theorem get?_ofValues (documents : List (String × Json.Value)) (name : String) :
    (ofValues documents).get? name = (Entries.get? name documents).map Json.Value.compact :=
  Entries.get?_map name Json.Value.compact documents

/-- A document that is written is loaded as its text is parsed. -/
theorem load_ofValues_of_get? {documents : List (String × Json.Value)} {name : String}
    {value : Json.Value} (h : Entries.get? name documents = some value) :
    (ofValues documents).load name = Document.parse name value.compact := by
  rw [load, get?_ofValues, h, Option.map_some]

/-- Written documents are loaded as their values are read. -/
theorem load_ofValues {documents : List (String × Json.Value)}
    (h : ∀ document ∈ documents, document.2.readable Json.depthLimit) :
    (ofValues documents).load = fun name =>
      match Entries.get? name documents with
      | some value => Document.ofValue name value.asRead
      | none => .error (.load name .noSuchDocument) := by
  funext name
  cases hvalue : Entries.get? name documents with
  | none => rw [load, get?_ofValues, hvalue, Option.map_none]
  | some value =>
      have hparse := Json.parse?_compact (h _ (Entries.mem_of_get? hvalue))
      rw [load_ofValues_of_get? hvalue, Document.parse, hparse]

/-- Of values put one after the other, the last of each name is written. -/
theorem foldl_insertValue (documents : List (String × Json.Value)) :
    documents.foldl (fun s document => s.insertValue document.1 document.2) {} =
      ofValues (Entries.settled documents) := by
  have htexts (s : MemoryStore) (list : List (String × Json.Value)) :
      (list.foldl (fun s document => s.insertValue document.1 document.2) s).texts =
        Entries.putAll (list.map fun (name, value) => (name, value.compact)) s.texts := by
    induction list generalizing s with
    | nil => rfl
    | cons document rest ih => exact ih _
  refine congrArg MemoryStore.mk ((htexts {} documents).trans ?_)
  rw [Entries.putAll_eq_settled]
  refine Entries.settled_map ?_ documents
  exact fun _ => rfl

end MemoryStore

end InstructionSet
