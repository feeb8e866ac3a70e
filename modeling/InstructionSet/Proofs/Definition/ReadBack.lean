import InstructionSet.Proofs.Definition.Source
import InstructionSet.Proofs.Json.RoundTrip
import InstructionSet.Proofs.Opcode.Members
import InstructionSet.Proofs.Report

/-!
# What the written form of a definition reads back as

Every entry and every variant is written as an object without repeated keys, unless an operand
has an attribute called `name`. A reader that keeps the last value of a repeated key then finds
that attribute in place of the operand's name, and all else as it was.
-/

namespace InstructionSet

open Json (Value)

/-! ## Keys of records -/

theorem Descriptor.nodup_keys_json (x : Descriptor) : x.json.keys.Nodup := by
  have hkeys : x.json.keys = ["name", "descriptor"] := rfl
  rw [hkeys]
  decide

theorem Level.nodup_keys_json (x : Level) : x.json.keys.Nodup := by
  have hkeys : x.json.keys = ["name", "sizes", "types", "addr"] := rfl
  rw [hkeys]
  decide

theorem Comparison.nodup_keys_json (x : Comparison) : x.json.keys.Nodup := by
  have hsublist : x.json.keys.Sublist
      ["name", "level", "opA", "opB", "sizes", "types", "form", "description"] :=
    (List.Sublist.refl ["name", "level", "opA", "opB", "sizes", "types", "form"]).append
      (Json.keys_member?_sublist "description" .text x.description)
  exact hsublist.nodup (by decide)

theorem Opcode.nodup_keys_json (x : Opcode) : x.json.keys.Nodup :=
  x.keys_json_sublist.nodup (by decide)

theorem Variant.nodup_keys_json (x : Variant) : x.json.keys.Nodup :=
  x.keys_json_sublist.nodup (by decide)

namespace Operand

/-- The members of a written operand that are no attributes. -/
def fixedMembers (x : Operand) : List (String × Value) :=
  ("name", .text x.name) :: ("bits", Json.ofUInt32 x.bits) :: Json.member? "type" .text x.kind

theorem json_eq (x : Operand) : x.json = .object (x.fixedMembers ++ x.attributes) := rfl

theorem keys_fixedMembers_sublist (x : Operand) :
    (x.fixedMembers.map Prod.fst).Sublist ("name" :: fixedKeys) :=
  ((Json.keys_member?_sublist "type" .text x.kind).cons_cons "bits").cons_cons "name"

theorem nodup_keys_fixedMembers (x : Operand) : (x.fixedMembers.map Prod.fst).Nodup :=
  x.keys_fixedMembers_sublist.nodup (by decide)

/-- The only key that can be repeated is that of the name. -/
theorem nodup_keys_json_iff {x : Operand} (hx : x.Regular)
    (hattributes : (x.attributes.map Prod.fst).Nodup) :
    x.json.keys.Nodup ↔ "name" ∉ x.attributes.map Prod.fst := by
  rw [json_eq, Value.keys, List.map_append, List.nodup_append]
  constructor
  · rintro ⟨-, -, hapart⟩ hname
    exact hapart "name" List.mem_cons_self "name" hname rfl
  · intro hname
    refine ⟨x.nodup_keys_fixedMembers, hattributes, ?_⟩
    rintro key hkey _ hother rfl
    rcases List.mem_cons.mp (x.keys_fixedMembers_sublist.subset hkey) with rfl | hfixed
    · exact hname hother
    · exact hx key hfixed hother

/-- What a reader takes for the name: an attribute that is called so comes later. -/
def nameAsRead (x : Operand) : Value :=
  ((Entries.get? "name" x.attributes).map Value.asRead).getD (.text x.name)

theorem member?_asRead_json {x : Operand} (hattributes : (x.attributes.map Prod.fst).Nodup)
    (key : String) :
    x.json.asRead.member? key =
      ((Entries.get? key x.attributes).or (Entries.get? key x.fixedMembers)).map Value.asRead :=
  Value.member?_asRead_append x.nodup_keys_fixedMembers hattributes key

theorem member?_name_asRead {x : Operand} (hattributes : (x.attributes.map Prod.fst).Nodup) :
    x.json.asRead.member? "name" = some x.nameAsRead := by
  rw [member?_asRead_json hattributes, nameAsRead, fixedMembers, Entries.get?_cons]
  cases Entries.get? "name" x.attributes <;> rfl

theorem member?_bits_asRead {x : Operand} (hattributes : (x.attributes.map Prod.fst).Nodup)
    (hx : x.Regular) : x.json.asRead.member? "bits" = some (Json.ofUInt32 x.bits) := by
  have hnone : Entries.get? "bits" x.attributes = none :=
    Entries.get?_eq_none_iff.mpr (hx "bits" (by decide))
  rw [member?_asRead_json hattributes, hnone]
  rfl

theorem member?_type_asRead {x : Operand} (hattributes : (x.attributes.map Prod.fst).Nodup)
    (hx : x.Regular) : x.json.asRead.member? "type" = x.kind.map .text := by
  have hnone : Entries.get? "type" x.attributes = none :=
    Entries.get?_eq_none_iff.mpr (hx "type" (by decide))
  rw [member?_asRead_json hattributes, hnone, fixedMembers]
  cases x.kind <;> rfl

end Operand

/-! ## Definitions -/

/-- An object that begins with its name and repeats no key keeps it. -/
theorem Json.Value.member?_name_asRead {name : String} {members : List (String × Value)}
    (h : (object (("name", .text name) :: members)).keys.Nodup) :
    (object (("name", .text name) :: members)).asRead.member? "name" = some (.text name) := by
  rw [member?_asRead h, member?, Entries.get?_cons]
  rfl

namespace Definition

/-- The objects that entries and variants are written as. -/
def records (d : Definition) : List Value :=
  d.types.entries.map Descriptor.json ++ d.classes.entries.map Descriptor.json ++
    d.operands.entries.map Operand.json ++ d.levels.entries.map Level.json ++
      d.comparisons.entries.map Comparison.json ++
        d.opcodes.entries.flatMap fun o => o.json :: o.shape.variants.map Variant.json

theorem nodup_keys_records_iff (d : Definition) :
    (∀ v ∈ d.records, v.keys.Nodup) ↔ ∀ x ∈ d.operands.entries, x.json.keys.Nodup := by
  simp only [records, List.forall_mem_append, List.forall_mem_map, List.forall_mem_flatMap,
    List.forall_mem_cons]
  constructor
  · rintro ⟨⟨⟨⟨-, hoperands⟩, -⟩, -⟩, -⟩
    exact hoperands
  · intro hoperands
    exact ⟨⟨⟨⟨⟨fun x _ => x.nodup_keys_json, fun x _ => x.nodup_keys_json⟩, hoperands⟩,
      fun x _ => x.nodup_keys_json⟩, fun x _ => x.nodup_keys_json⟩,
      fun o _ => ⟨o.nodup_keys_json, fun v _ => v.nodup_keys_json⟩⟩

/-- What the tables become for a reader of `v`: names in their order, and of the operands also
widths and kinds. -/
structure ReadsBack (d : Definition) (v : Value) : Prop where
  types : v.column "types" "name" = d.types.names.map fun name => some (.text name)
  classes : v.column "classes" "name" = d.classes.names.map fun name => some (.text name)
  operands : v.column "operands" "name" = d.operands.entries.map fun x => some x.nameAsRead
  bits : v.column "operands" "bits" =
    d.operands.entries.map fun x => some (Json.ofUInt32 x.bits)
  kinds : v.column "operands" "type" = d.operands.entries.map fun x => x.kind.map .text
  levels : v.column "levels" "name" = d.levels.names.map fun name => some (.text name)
  comparisons : v.column "comparisons" "name" =
    d.comparisons.names.map fun name => some (.text name)
  opcodes : v.column "opcodes" "name" = d.opcodes.names.map fun name => some (.text name)

theorem nodup_keys_json (d : Definition) : d.json.keys.Nodup := by
  change ["types", "classes", "operands", "levels", "comparisons", "opcodes"].Nodup
  decide

/-- A table whose entries keep their names. -/
theorem column_name {d : Definition} {α : Type} [Named α] {t : Table α} {json : α → Value}
    {table : String} (htable : d.json.member? table = some (.array (t.entries.map json)))
    (hname : ∀ x ∈ t.entries, (json x).asRead.member? "name" = some (.text (Named.name x))) :
    d.json.asRead.column table "name" = t.names.map fun name => some (.text name) := by
  rw [Value.column_asRead d.nodup_keys_json htable, Table.names, List.map_map, List.map_map,
    List.map_inj_left]
  exact hname

theorem readsBack {d : Definition} (hd : d.Keyed) (hregular : ∀ x ∈ d.operands.entries, x.Regular) :
    d.ReadsBack d.json.asRead := by
  have hattributes (x : Operand) (hx : x ∈ d.operands.entries) :
      (x.attributes.map Prod.fst).Nodup :=
    (Value.keyed_object.mp (hd.operands x hx)).1
  have hcolumn (key : String) : d.json.asRead.column "operands" key =
      d.operands.entries.map fun x => x.json.asRead.member? key := by
    rw [Value.column_asRead d.nodup_keys_json rfl, List.map_map]
    rfl
  exact {
    types := column_name rfl fun x _ => Value.member?_name_asRead x.nodup_keys_json
    classes := column_name rfl fun x _ => Value.member?_name_asRead x.nodup_keys_json
    operands := by
      rw [hcolumn, List.map_inj_left]
      exact fun x hx => Operand.member?_name_asRead (hattributes x hx)
    bits := by
      rw [hcolumn, List.map_inj_left]
      exact fun x hx => Operand.member?_bits_asRead (hattributes x hx) (hregular x hx)
    kinds := by
      rw [hcolumn, List.map_inj_left]
      exact fun x hx => Operand.member?_type_asRead (hattributes x hx) (hregular x hx)
    levels := column_name rfl fun x _ => Value.member?_name_asRead x.nodup_keys_json
    comparisons := column_name rfl fun x _ => Value.member?_name_asRead x.nodup_keys_json
    opcodes := column_name rfl fun x _ => Value.member?_name_asRead x.nodup_keys_json }

theorem nodup_keys_records_iff_name {d : Definition} (hd : d.Keyed)
    (hregular : ∀ x ∈ d.operands.entries, x.Regular) :
    (∀ v ∈ d.records, v.keys.Nodup) ↔
      ∀ x ∈ d.operands.entries, "name" ∉ x.attributes.map Prod.fst := by
  rw [nodup_keys_records_iff]
  exact forall₂_congr fun x hx => Operand.nodup_keys_json_iff (hregular x hx)
    (Value.keyed_object.mp (hd.operands x hx)).1

namespace FromTexts

variable {d : Definition}

theorem readsBack (h : d.FromTexts) : d.ReadsBack d.json.asRead :=
  Definition.readsBack h.keyed h.regular

theorem nodup_keys_records_iff (h : d.FromTexts) :
    (∀ v ∈ d.records, v.keys.Nodup) ↔
      ∀ x ∈ d.operands.entries, "name" ∉ x.attributes.map Prod.fst :=
  nodup_keys_records_iff_name h.keyed h.regular

end FromTexts

theorem member?_definition_asRead (d : Definition) :
    d.reportJson.asRead.member? "definition" = some d.json.asRead := by
  rw [Value.member?_asRead d.nodup_keys_reportJson]
  rfl

/-- The pretty report reads back with the same definition as the compact text. -/
theorem member?_definition_of_parse? {d : Definition}
    (h : d.reportJson.readable Json.depthLimit) :
    ∃ v, Json.parse? d.reportJson.pretty = some v ∧ v.member? "definition" = some d.json.asRead :=
  ⟨_, Json.parse?_pretty h, d.member?_definition_asRead⟩

/-- Definitions from documents are written without repeated keys exactly if no operand has an
attribute called `name`. They read back with all names, widths and kinds, except that such an
attribute hides the operand's name. This holds of the compact text and of the report. -/
theorem readsBack_of_ofStore {store : Store} {d : Definition} (hstore : Store.Keyed store)
    (h : (ofStore store).result = .ok d) :
    ((∀ v ∈ d.records, v.keys.Nodup) ↔
      ∀ x ∈ d.operands.entries, "name" ∉ x.attributes.map Prod.fst) ∧
    d.ReadsBack d.json.asRead ∧
    (d.json.asRead.column "operands" "name" =
        d.operands.names.map (fun name => some (.text name)) ↔
      ∀ x ∈ d.operands.entries, x.nameAsRead = .text x.name) ∧
    (d.json.readable Json.depthLimit → Json.parse? d.canonical = some d.json.asRead) ∧
    (d.reportJson.readable Json.depthLimit →
      ∃ v, Json.parse? d.reportJson.pretty = some v ∧
        v.member? "definition" = some d.json.asRead) := by
  have hd := keyed_of_ofStore hstore h
  have hregular := regular_of_mem_operands h
  have hreads := readsBack hd hregular
  refine ⟨nodup_keys_records_iff_name hd hregular, hreads, ?_, Json.parse?_compact,
    member?_definition_of_parse?⟩
  rw [hreads.operands, Table.names, List.map_map, List.map_inj_left]
  simp only [Function.comp_apply, Option.some.injEq]
  exact Iff.rfl

/-- An operand whose entry gives another name as an attribute, beside one that does not. -/
def renamed : Store :=
  let entry (more : List (String × Value)) := Value.object (("bits", Json.ofNat 4) :: more)
  Declarations.smallStore [] [("r", entry [("name", .text "other")]), ("s", entry [])] []

theorem readsBack_renamed :
    Store.Keyed renamed ∧ ∃ d, (ofStore renamed).result = .ok d ∧
      (¬∀ v ∈ d.records, v.keys.Nodup) ∧
      ∃ v, Json.parse? d.canonical = some v ∧
        v.column "operands" "bits" = [some (Json.ofNat 4), some (Json.ofNat 4)] := by
  have hstore : Store.Keyed renamed := Declarations.keyed_smallStore (by decide +kernel)
  obtain ⟨hkeys, hreads, -, hcompact, -⟩ := readsBack_of_ofStore hstore rfl
  refine ⟨hstore, _, rfl, fun hdistinct => ?_, _, hcompact (by decide +kernel), hreads.bits⟩
  exact absurd (hkeys.mp hdistinct _ List.mem_cons_self) (by decide)

/-- The name of an operand is lost to such a reader. -/
theorem name_hidden_renamed :
    ∃ d, (ofStore renamed).result = .ok d ∧ (∃ v ∈ d.records, ¬v.keys.Nodup) ∧
      d.operands.names = ["r", "s"] ∧ ∃ v, Json.parse? d.canonical = some v ∧
        v.column "operands" "name" = [some (.text "other"), some (.text "s")] := by
  refine ⟨_, rfl, ?_, rfl, _, Json.parse?_compact (by decide +kernel), rfl⟩
  exact ⟨_, .tail _ List.mem_cons_self, by decide⟩

end Definition

end InstructionSet
