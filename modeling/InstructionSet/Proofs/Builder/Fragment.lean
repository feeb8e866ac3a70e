import InstructionSet.Proofs.Builder
import InstructionSet.Proofs.Declarations.Reading

/-!
# The name of the fragment

A builder writes its opcodes to a document whose name can be chosen. Under the name of a required
document they take its place, and the set cannot be loaded. Under any other name they are loaded
alike.
-/

namespace InstructionSet

/-! ## What is read of a written document -/

namespace Builder

open Declarations

/-- The text of a document is read member by member. -/
theorem parse_document (name : String) (members : List (String × Json.Value)) :
    Document.parse name (document members).compact =
      match members.mapM (Json.rereadMember? (Json.depthLimit - 2)) with
      | some read => Document.ofValue name (document (Entries.putAll read []))
      | none => .error (.load name .notJson) := by
  have hroom : 0 < Json.depthLimit ∧ 0 < Json.depthLimit - 1 := by decide
  have hlimit : Json.depthLimit - 1 - 1 = Json.depthLimit - 2 := rfl
  rw [Document.parse, Json.parse?_compact_eq_reread?, document, Json.Value.reread?_object,
    if_pos hroom.1, List.mapM_cons, List.mapM_nil, Json.rereadMember?, Json.Value.reread?_object,
    if_pos hroom.2, hlimit]
  cases members.mapM (Json.rereadMember? (Json.depthLimit - 2)) <;> rfl

/-- The fragment is written last, so it is there whatever its name. -/
theorem load_fragment (b : Builder) :
    b.build.load b.fragment =
      Document.parse b.fragment (document [(opcodesName, terminated b.opcodes)]).compact := by
  rw [build, MemoryStore.foldl_insertValue]
  apply MemoryStore.load_ofValues_of_get?
  rw [← Entries.putAll_eq_settled, ← List.dropLast_append_getLast (l := b.documents) nofun,
    Entries.putAll_append_singleton, Entries.get?_put]
  exact if_pos rfl

/-- A fragment has nothing but opcodes. -/
theorem value?_fragment {b : Builder} {d : Document} (h : b.build.load b.fragment = .ok d)
    {key : String} (hkey : key ≠ opcodesName) : d.value? key = none := by
  rw [load_fragment, parse_document, List.mapM_cons, List.mapM_nil, Json.rereadMember?] at h
  cases hread : (terminated b.opcodes).reread? (Json.depthLimit - 2) with
  | none =>
      rw [hread] at h
      cases h
  | some read =>
      rw [hread] at h
      obtain rfl : ⟨b.fragment, [(opcodesName, read)]⟩ = d := Except.ok.inj h
      rw [Document.value?, Entries.get?_cons, if_neg (Ne.symm hkey)]
      rfl

/-- The template may be too deep to be read, whatever name the fragment has. -/
theorem load_opcodeDocument (b : Builder) {name : String} (h : name ∉ requiredNames) :
    (b.call (.fragment name)).build.load opcodesName =
      match b.opcodeTemplate.reread? (Json.depthLimit - 2) with
      | some read => .ok ⟨opcodesName, [(templateKey, read),
          (fragmentsKey, .array [.text name])]⟩
      | none => .error (.load opcodesName .notJson) := by
  have hlisted : Json.rereadMember? (Json.depthLimit - 2) (fragmentsKey, .array [.text name]) =
      some (fragmentsKey, .array [.text name]) := rfl
  refine (load_of_getElem? h 5 rfl).trans ?_
  dsimp only [call]
  rw [parse_document, List.mapM_cons, List.mapM_cons, List.mapM_nil, hlisted, Json.rereadMember?]
  cases b.opcodeTemplate.reread? (Json.depthLimit - 2) <;> rfl

end Builder

namespace Declarations

/-- Loading takes something else than opcodes from every required document. -/
theorem LoadsApart.exists_value {store : Store} {r : Declarations} (h : LoadsApart store r)
    {name : String} (hname : name ∈ requiredNames) :
    ∃ d key v, store name = .ok d ∧ key ≠ opcodesName ∧ d.value? key = some v := by
  have hmapping {d : Document} {key : String} {α : Type} {x : α}
      {f : List (String × Json.Value) → Except Error α} (hf : (d.mapping key >>= f) = .ok x) :
      ∃ v, d.value? key = some v := by
    obtain ⟨members, hmembers, -⟩ := bind_eq_ok_iff.mp hf
    exact ⟨_, Document.mapping_eq_ok_iff.mp hmembers⟩
  simp only [requiredNames, List.mem_cons, List.not_mem_nil, or_false] at hname
  rcases hname with rfl | rfl | rfl | rfl | rfl | rfl
  · obtain ⟨d, hd, htypes⟩ := h.types
    obtain ⟨v, hv⟩ := hmapping htypes
    exact ⟨d, typesName, v, hd, by decide, hv⟩
  · obtain ⟨d, hd, hclasses⟩ := h.classes
    obtain ⟨v, hv⟩ := hmapping hclasses
    exact ⟨d, classesName, v, hd, by decide, hv⟩
  · obtain ⟨d, hd, hoperands⟩ := h.operands
    obtain ⟨v, hv⟩ := hmapping hoperands
    exact ⟨d, operandsName, v, hd, by decide, hv⟩
  · obtain ⟨d, hd, hlevels⟩ := h.levels
    obtain ⟨v, hv⟩ := hmapping hlevels
    exact ⟨d, levelsName, v, hd, by decide, hv⟩
  · obtain ⟨d, hd, htemplate, -⟩ := h.comparisons
    obtain ⟨v, hv, -⟩ := Document.record_eq_ok_iff.mp htemplate
    exact ⟨d, templateKey, v, hd, by decide, hv⟩
  · obtain ⟨d, hd, htemplate⟩ := h.opcodeTemplate
    obtain ⟨v, hv, -⟩ := Document.record_eq_ok_iff.mp htemplate
    exact ⟨d, templateKey, v, hd, by decide, hv⟩

/-- All opcodes come from one fragment. -/
theorem opcodeList_eq_declareFragment {store : Store} {d : Document} {fragment : String}
    (hinline : d.value? opcodesName = none)
    (hlisted : d.value? fragmentsKey = some (.array [.text fragment])) :
    opcodeList store d = do
      let known ← declareFragment store .empty fragment
      return known.entries := by
  have hmapping : d.optionalMapping opcodesName = .ok none := by
    rw [Document.optionalMapping, hinline]
  have hnames : d.nameList fragmentsKey = .ok (some [fragment]) := by
    rw [Document.nameList, hlisted]
    rfl
  have hentries : opcodeEntries d [] = .ok [] := rfl
  simp only [opcodeList, Outcome.liftM_eq, hmapping, hnames, Outcome.ofExcept_ok_bind,
    Option.getD_none, Option.getD_some, hentries, declareAll, pure_bind, List.foldlM_cons,
    List.foldlM_nil, bind_pure]
  rfl

end Declarations

/-! ## Two names -/

/-- The document called `name` is called `other`. -/
def Relocation.renamed (name other : String) : Relocation :=
  { identity with name := fun document => if document = name then other else document }

theorem Relocation.renamed_of_ne {name other document : String} (h : document ≠ name) :
    (renamed name other).name document = document := if_neg h

namespace Builder

open Declarations Relocation

variable (b : Builder) {f g : String}

theorem results_load_fragment (f g : String) :
    (renamed f g).Results
      (fun d e => e.name = (renamed f g).name d.name ∧ d.SameEntries opcodesName e)
      ((b.call (.fragment f)).build.load f) ((b.call (.fragment g)).build.load g) := by
  have hparse := Document.results_parse (renamed f g) f
    (document [(opcodesName, terminated b.opcodes)]).compact
  have hname : (renamed f g).name f = g := if_pos rfl
  have hf := load_fragment (b.call (.fragment f))
  have hg := load_fragment (b.call (.fragment g))
  rw [hname] at hparse
  exact hf ▸ hg ▸ hparse.mono fun d e hde =>
    ⟨hde.1, Document.sameEntries_of_members hde.2 opcodesName⟩

section

variable (hf : f ∉ requiredNames) (hg : g ∉ requiredNames)

include hf hg

/-- A required document that does not tell the fragment's name. -/
theorem sameMembers_of_getElem? (place : Nat) {name : String} {value : Json.Value}
    (hname : name ∈ requiredNames)
    (hplace : (b.call (.fragment f)).documents[place]? = some (name, value))
    (hplace' : (b.call (.fragment g)).documents[place]? = some (name, value)) :
    SameDocument (renamed f g) (fun d e => e.members = d.members)
      (b.call (.fragment f)).build.load (b.call (.fragment g)).build.load name := by
  have hne : name ≠ f := fun e => hf (e ▸ hname)
  have hparse := Document.results_parse (renamed f g) name value.compact
  rw [SameDocument, load_of_getElem? hf place hplace, load_of_getElem? hg place hplace']
  rwa [renamed_of_ne hne] at hparse

/-- The opcode document names the fragment, and leads to the same opcodes by either name. -/
theorem sameOpcodes :
    SameDocument (renamed f g)
      (fun d e => d.SameValue templateKey e ∧
        (renamed f g).Outcomes Eq (opcodeList (b.call (.fragment f)).build.load d)
          (opcodeList (b.call (.fragment g)).build.load e))
      (b.call (.fragment f)).build.load (b.call (.fragment g)).build.load opcodesName := by
  have hname : (renamed f g).name opcodesName = opcodesName :=
    renamed_of_ne fun e => hf (e ▸ by decide)
  rw [SameDocument, b.load_opcodeDocument hf, b.load_opcodeDocument hg]
  cases b.opcodeTemplate.reread? (Json.depthLimit - 2) with
  | none =>
      -- Both runs end here, with an error on a document that keeps its name.
      have hfault : (renamed f g).Results (fun _ _ : Document => False)
          (.error (.load opcodesName .notJson))
          (.error (.load ((renamed f g).name opcodesName) .notJson)) :=
        .fault opcodesName LoadFault.noConfusion
      rw [hname] at hfault
      exact hfault.mono fun _ _ h => h.elim
  | some read =>
      refine .ok ⟨hname.symm, rfl, ?_⟩
      rw [opcodeList_eq_declareFragment rfl rfl, opcodeList_eq_declareFragment rfl rfl]
      refine (outcomes_declareFragment (b.results_load_fragment f g) .empty).bind ?_
      rintro known _ rfl
      exact .pure rfl

/-- The name of the fragment shows in errors and warnings only. -/
theorem outcomes_load_renamed :
    (renamed f g).Outcomes Eq (load (b.call (.fragment f)).build.load)
      (load (b.call (.fragment g)).build.load) := by
  have hmapping (place : Nat) {name : String} {value : Json.Value} (hname : name ∈ requiredNames)
      (hplace : (b.call (.fragment f)).documents[place]? = some (name, value))
      (hplace' : (b.call (.fragment g)).documents[place]? = some (name, value)) :
      SameDocument (renamed f g) (Document.SameEntries name)
        (b.call (.fragment f)).build.load (b.call (.fragment g)).build.load name :=
    (b.sameMembers_of_getElem? hf hg place hname hplace hplace').mono fun d e hde =>
      ⟨hde.1, Document.sameEntries_of_members hde.2 name⟩
  have hcomparisons : SameDocument (renamed f g)
      (fun d e => d.SameValue templateKey e ∧ d.SameEntries comparisonsName e)
      (b.call (.fragment f)).build.load (b.call (.fragment g)).build.load comparisonsName :=
    (b.sameMembers_of_getElem? hf hg 4 (by decide) rfl rfl).mono fun d e hde =>
      ⟨hde.1, Document.sameValue_of_members hde.2 templateKey,
        Document.sameEntries_of_members hde.2 comparisonsName⟩
  -- Five documents are written alike; the fragment's name stands in the opcode document only.
  exact outcomes_load_of_opcodes (hmapping 0 (by decide) rfl rfl) (hmapping 1 (by decide) rfl rfl)
    (hmapping 2 (by decide) rfl rfl) (hmapping 3 (by decide) rfl rfl) hcomparisons
    (b.sameOpcodes hf hg)

end

/-- With its opcodes in the place of a required document no set can be loaded. -/
theorem load_ne_ok_of_required {b : Builder} (h : b.fragment ∈ requiredNames) (r : Declarations) :
    (load b.build.load).result ≠ .ok r := by
  intro hr
  obtain ⟨d, key, v, hd, hkey, hv⟩ := (load_eq_ok_iff.mp hr).1.exists_value h
  rw [value?_fragment hd hkey] at hv
  cases hv

/-- Two names of which both or neither are names of required documents make no difference: a set
is loaded as the same declarations, or not at all. In the place of a required document it never is
loaded. -/
theorem load_renamed (h : f ∈ requiredNames ↔ g ∈ requiredNames) :
    (∀ r, (load (b.call (.fragment g)).build.load).result = .ok r ↔
      (load (b.call (.fragment f)).build.load).result = .ok r) ∧
    (f ∈ requiredNames → ∃ e, (load (b.call (.fragment f)).build.load).result = .error e) := by
  by_cases hf : f ∈ requiredNames
  · have hfails := load_ne_ok_of_required (b := b.call (.fragment f)) hf
    have hfails' := load_ne_ok_of_required (b := b.call (.fragment g)) (h.mp hf)
    refine ⟨fun r => iff_of_false (hfails' r) (hfails r), fun _ => ?_⟩
    cases hresult : (load (b.call (.fragment f)).build.load).result with
    | ok r => exact absurd hresult (hfails r)
    | error e => exact ⟨e, rfl⟩
  · have houtcomes := b.outcomes_load_renamed hf (mt h.mpr hf)
    exact ⟨fun r => houtcomes.result.ok_iff, fun hmem => absurd hmem hf⟩

/-- A valid set of one opcode. -/
def stopOnly : Builder := minimal.add .opcode "STOP" (.object [("unsized", .bool true)])

theorem load_renamed_stopOnly :
    ("core" ∈ requiredNames ↔ "more" ∈ requiredNames) ∧
      ∃ r, (load (stopOnly.call (.fragment "core")).build.load).result = .ok r ∧
        (load (stopOnly.call (.fragment "more")).build.load).result = .ok r ∧
        r.opcodes.map Prod.fst = ["STOP"] := by
  have hnames : "core" ∈ requiredNames ↔ "more" ∈ requiredNames := by decide
  obtain ⟨hsame, -⟩ := stopOnly.load_renamed hnames
  obtain ⟨r, hr, hopcodes⟩ :
      ∃ r, (load (stopOnly.call (.fragment "core")).build.load).result = .ok r ∧
        r.opcodes.map Prod.fst = ["STOP"] := by
    rw [build, MemoryStore.foldl_insertValue, MemoryStore.load_ofValues (by decide +kernel)]
    exact ⟨_, rfl, rfl⟩
  exact ⟨hnames, r, hr, (hsame r).mpr hr, hopcodes⟩

/-- A fragment that is called like the document of types leaves the set without types. -/
theorem types_missing_stopOnly :
    (∃ r, (load (stopOnly.call (.fragment "core")).build.load).result = .ok r) ∧
      (load (stopOnly.call (.fragment typesName)).build.load).result =
        .error (.load typesName (.mappingMissing typesName)) := by
  rw [build, MemoryStore.foldl_insertValue, MemoryStore.load_ofValues (by decide +kernel),
    build, MemoryStore.foldl_insertValue, MemoryStore.load_ofValues (by decide +kernel)]
  exact ⟨⟨_, rfl⟩, rfl⟩

end Builder

end InstructionSet
