import InstructionSet.Fingerprint
import InstructionSet.Proofs.Definition.Source
import InstructionSet.Proofs.Json.Printer
import Mathlib.Data.Option.Basic

/-!
# What the canonical text keeps

Nothing that a compiled definition holds is lost in its canonical text, although fields without
a value are left out of it and attributes stand among the fixed members of an operand.
-/

namespace InstructionSet

/-! ## Records -/

theorem Descriptor.json_injective : Function.Injective Descriptor.json := by
  rintro ⟨name, body⟩ ⟨name', body'⟩ h
  simpa [Descriptor.json] using h

theorem Level.json_injective : Function.Injective Level.json := by
  rintro ⟨name, sizes, types, addr⟩ ⟨name', sizes', types', addr'⟩ h
  simpa [Level.json, Json.ofSizes_injective.eq_iff, Json.ofTexts_injective.eq_iff,
    Json.ofUInt32_injective.eq_iff] using h

theorem Comparison.json_injective : Function.Injective Comparison.json := by
  rintro ⟨name, level, opA, opB, sizes, types, form, description⟩
    ⟨name', level', opA', opB', sizes', types', form', description'⟩ h
  simpa [Comparison.json, Json.ofSizes_injective.eq_iff, Json.ofTexts_injective.eq_iff,
    (Json.member?_injective "description" Json.text_injective).eq_iff] using h

/-- The kind of an operand stands out from its attributes, as none of them has its key. -/
theorem Operand.json_injective {x y : Operand} (hx : "type" ∉ x.attributes.map Prod.fst)
    (hy : "type" ∉ y.attributes.map Prod.fst) (h : x.json = y.json) : x = y := by
  obtain ⟨name, bits, kind, attributes⟩ := x
  obtain ⟨name', bits', kind', attributes'⟩ := y
  simp only [json, Json.Value.object.injEq, List.cons_append, List.cons.injEq, Prod.mk.injEq,
    true_and, Json.Value.text.injEq, Json.ofUInt32_injective.eq_iff] at h
  obtain ⟨rfl, rfl, hrest⟩ := h
  obtain ⟨hkind, rfl⟩ := Json.append_inj_of_keys ["type"]
    (Json.keys_member?_sublist "type" _ _).subset (Json.keys_member?_sublist "type" _ _).subset
    (List.disjoint_singleton.mpr hx) (List.disjoint_singleton.mpr hy) hrest
  rw [Json.member?_injective "type" Json.text_injective hkind]

theorem Layout.members_injective : Function.Injective Layout.members := by
  rintro ⟨opA, opB, extWords⟩ ⟨opA', opB', extWords'⟩ h
  simp only [members, List.cons_append, List.nil_append, List.cons.injEq, Prod.mk.injEq, true_and,
    Json.Value.text.injEq] at h
  obtain ⟨rfl, rfl, hwords⟩ := h
  suffices extWords = extWords' by rw [this]
  cases extWords <;> cases extWords' <;>
    simp_all [Json.ofTexts_injective.eq_iff, Json.ofTexts_injective.list_map.eq_iff]

theorem PlainShape.members_injective : Function.Injective PlainShape.members := by
  intro s s' h
  cases s <;> cases s' <;>
    simp_all [members, Json.ofSizes_injective.eq_iff, Json.ofTexts_injective.eq_iff]

namespace Traits

theorem get?_members (t : Traits) :
    Entries.get? "comparison" t.members = some (.bool t.comparison) ∧
      Entries.get? "form" t.members = some (.text t.form) ∧
      Entries.get? "fitsize" t.members = t.fitSize.map Json.ofUInt32 ∧
      Entries.get? "class" t.members = t.className.map .text ∧
      Entries.get? "description" t.members = t.description.map .text := by
  simp [members, Entries.get?_append, Entries.get?_cons, Json.get?_member?]

theorem members_injective : Function.Injective Traits.members := by
  intro t t' h
  obtain ⟨hcomparison, hform, hfitSize, hclassName, hdescription⟩ := t.get?_members
  obtain ⟨hcomparison', hform', hfitSize', hclassName', hdescription'⟩ := t'.get?_members
  rw [h] at hcomparison hform hfitSize hclassName hdescription
  cases t
  cases t'
  simp only [mk.injEq]
  refine ⟨?_, ?_, ?_, ?_, ?_⟩
  · simpa using hcomparison.symm.trans hcomparison'
  · simpa using hform.symm.trans hform'
  · exact Option.map_injective Json.ofUInt32_injective (hfitSize.symm.trans hfitSize')
  · exact Option.map_injective Json.text_injective (hclassName.symm.trans hclassName')
  · exact Option.map_injective Json.text_injective (hdescription.symm.trans hdescription')

end Traits

/-- No part of a written opcode runs on into the next. -/
theorem parts_inj {l l' : Layout} {shape shape' : List (String × Json.Value)} {t t' : Traits}
    (hshape : (shape.map Prod.fst).Sublist Shape.keys)
    (hshape' : (shape'.map Prod.fst).Sublist Shape.keys)
    (h : l.members ++ shape ++ t.members = l'.members ++ shape' ++ t'.members) :
    l = l' ∧ shape = shape' ∧ t = t' := by
  have hfirst {l : Layout} {shape : List (String × Json.Value)}
      (hshape : (shape.map Prod.fst).Sublist Shape.keys) :
      (l.members ++ shape).map Prod.fst ⊆ Layout.keys ++ Shape.keys := by
    rw [List.map_append]
    exact (l.keys_members_sublist.append hshape).subset
  have htraits (t : Traits) : (t.members.map Prod.fst).Disjoint (Layout.keys ++ Shape.keys) :=
    List.disjoint_of_subset_left t.keys_members_sublist.subset
      (List.disjoint_left.mpr (by decide))
  have hshapes {shape : List (String × Json.Value)}
      (hshape : (shape.map Prod.fst).Sublist Shape.keys) :
      (shape.map Prod.fst).Disjoint Layout.keys :=
    List.disjoint_of_subset_left hshape.subset (List.disjoint_left.mpr (by decide))
  obtain ⟨hbefore, hmembers⟩ := Json.append_inj_of_keys (Layout.keys ++ Shape.keys)
    (hfirst hshape) (hfirst hshape') (htraits t) (htraits t') h
  obtain ⟨hlayout, hsame⟩ := Json.append_inj_of_keys Layout.keys l.keys_members_sublist.subset
    l'.keys_members_sublist.subset (hshapes hshape) (hshapes hshape') hbefore
  exact ⟨Layout.members_injective hlayout, hsame, Traits.members_injective hmembers⟩

theorem Variant.json_injective : Function.Injective Variant.json := by
  rintro ⟨name, variation, layout, shape, traits⟩ ⟨name', variation', layout', shape', traits'⟩ h
  simp only [json, Json.Value.object.injEq, List.cons_append, List.nil_append, List.cons.injEq,
    Prod.mk.injEq, true_and, Json.Value.text.injEq, Json.ofNat_injective.eq_iff] at h
  obtain ⟨rfl, rfl, hrest⟩ := h
  obtain ⟨rfl, hshape, rfl⟩ := parts_inj shape.keys_members_sublist shape'.keys_members_sublist
    hrest
  rw [PlainShape.members_injective hshape]

theorem Shape.members_injective : Function.Injective Shape.members := by
  intro s s' h
  cases s with
  | plain shape =>
      cases s' with
      | plain shape' => rw [PlainShape.members_injective h]
      | variantBearing variants => cases shape <;> simp [members, PlainShape.members] at h
  | variantBearing variants =>
      cases s' with
      | plain shape' => cases shape' <;> simp [members, PlainShape.members] at h
      | variantBearing variants' =>
          simp only [members, List.cons.injEq, Prod.mk.injEq, true_and, and_true,
            Json.Value.array.injEq] at h
          rw [Variant.json_injective.list_map h]

theorem Opcode.json_injective : Function.Injective Opcode.json := by
  rintro ⟨name, layout, shape, traits⟩ ⟨name', layout', shape', traits'⟩ h
  simp only [json, Json.Value.object.injEq, List.cons_append, List.cons.injEq,
    Prod.mk.injEq, true_and, Json.Value.text.injEq] at h
  obtain ⟨rfl, hrest⟩ := h
  obtain ⟨rfl, hshape, rfl⟩ := parts_inj shape.keys_members_sublist shape'.keys_members_sublist
    hrest
  rw [Shape.members_injective hshape]

/-! ## Definitions -/

/-- Lists whose elements can be told apart after `f` can be told apart too. -/
theorem eq_of_map_eq {α β : Type} {f : α → β} {p : α → Prop}
    (hf : ∀ {x y}, p x → p y → f x = f y → x = y) {xs ys : List α} (hxs : ∀ x ∈ xs, p x)
    (hys : ∀ y ∈ ys, p y) (h : xs.map f = ys.map f) : xs = ys := by
  induction xs generalizing ys with
  | nil => simpa using h.symm
  | cons x xs ih =>
      obtain ⟨y, ys, rfl⟩ := List.exists_cons_of_ne_nil fun hnil : ys = [] => by simp [hnil] at h
      rw [List.forall_mem_cons] at hxs hys
      rw [List.map_cons, List.map_cons, List.cons.injEq] at h
      rw [hf hxs.1 hys.1 h.1, ih hxs.2 hys.2 h.2]

theorem Table.eq_of_entries_eq {α : Type} [Named α] {s t : Table α} (h : s.entries = t.entries) :
    s = t := by
  obtain ⟨entries, index, rfl, nodup⟩ := s
  obtain ⟨entries', index', rfl, nodup'⟩ := t
  obtain rfl : entries = entries' := h
  rfl

namespace Definition

/-- Equal texts come from one value, whose arrays hold the entries of the tables. -/
theorem eq_of_json_eq {d e : Definition} (hd : ∀ x ∈ d.operands.entries, x.Regular)
    (he : ∀ x ∈ e.operands.entries, x.Regular) (h : d.json = e.json) : d = e := by
  simp only [json, Json.Value.object.injEq, List.cons.injEq, Prod.mk.injEq, true_and, and_true,
    Json.Value.array.injEq] at h
  obtain ⟨htypes, hclasses, hoperands, hlevels, hcomparisons, hopcodes⟩ := h
  have hregular {x y : Operand} (hx : x.Regular) (hy : y.Regular) (h : x.json = y.json) : x = y :=
    Operand.json_injective (hx "type" (by decide)) (hy "type" (by decide)) h
  cases d
  cases e
  simp only [mk.injEq]
  exact ⟨Table.eq_of_entries_eq (Descriptor.json_injective.list_map htypes),
    Table.eq_of_entries_eq (Descriptor.json_injective.list_map hclasses),
    Table.eq_of_entries_eq (eq_of_map_eq hregular hd he hoperands),
    Table.eq_of_entries_eq (Level.json_injective.list_map hlevels),
    Table.eq_of_entries_eq (Comparison.json_injective.list_map hcomparisons),
    Table.eq_of_entries_eq (Opcode.json_injective.list_map hopcodes)⟩

/-- Definitions from stores that have one canonical text are one definition: all tables agree,
in every field of every entry and in the order of entries and of keys. -/
theorem eq_of_canonical_eq {s t : Store} {d e : Definition} (hd : (ofStore s).result = .ok d)
    (he : (ofStore t).result = .ok e) (h : d.canonical = e.canonical) : d = e :=
  eq_of_json_eq (regular_of_mem_operands hd) (regular_of_mem_operands he)
    (Json.Value.compact_injective h)

/-- The set is written twice, in one case with what it has by default. -/
theorem eq_of_canonical_eq_defaults :
    let operands : List (String × Json.Value) :=
      [("r", .object [("bits", Json.ofNat 4), ("doc", .object [("b", .null), ("a", .null)])])]
    let entry (more : List (String × Json.Value)) : List (String × Json.Value) :=
      [("MOVE", .object (("form", .text "move {r}") :: more))]
    let s := Declarations.smallStore [] operands (entry [])
    let t := Declarations.smallStore [] operands (entry [("opB", .text "r"), ("class", .null)])
    ∃ d e, (ofStore s).result = .ok d ∧ (ofStore t).result = .ok e ∧
      d.canonical = e.canonical ∧ d = e := by
  intro operands entry s t
  obtain ⟨d, e, hd, he, hjson⟩ : ∃ d e, (ofStore s).result = .ok d ∧
      (ofStore t).result = .ok e ∧ d.json = e.json := ⟨_, _, rfl, rfl, rfl⟩
  have h : d.canonical = e.canonical := congrArg Json.Value.compact hjson
  exact ⟨d, e, hd, he, h, eq_of_canonical_eq hd he h⟩

end Definition

end InstructionSet
