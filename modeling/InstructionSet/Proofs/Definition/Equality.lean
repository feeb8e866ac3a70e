import InstructionSet.Fingerprint
import InstructionSet.Proofs.Definition.Canonical

/-!
# Equality and fingerprints

Equality of definitions disregards what the canonical text shows: the order of keys and the sign
of zeros. Equal definitions that agree in these too have one text and one fingerprint.
-/

namespace InstructionSet

open Json (Value)

/-- Entries of equal lists that are arranged alike. -/
theorem eq_of_list_beq {α : Type} [BEq α] {json : α → Value} {xs ys : List α}
    (heq : ∀ x ∈ xs, ∀ y, x == y → (json x).arrangement = (json y).arrangement → x = y)
    (h : xs == ys)
    (harrangement : xs.map (Value.arrangement ∘ json) = ys.map (Value.arrangement ∘ json)) :
    xs = ys := by
  induction xs generalizing ys with
  | nil => simpa using harrangement.symm
  | cons x xs ih =>
      obtain ⟨y, ys, rfl⟩ := List.exists_cons_of_ne_nil fun hnil : ys = [] => by
        simp [hnil] at harrangement
      rw [List.forall_mem_cons] at heq
      rw [List.cons_beq_cons, Bool.and_eq_true] at h
      rw [List.map_cons, List.map_cons, List.cons.injEq] at harrangement
      rw [heq.1 y h.1 harrangement.1, ih heq.2 h.2 harrangement.2]

theorem Descriptor.beq_iff {x y : Descriptor} :
    x == y ↔ x.name = y.name ∧ x.body.same y.body := by
  cases x
  cases y
  change (_ == _ && Value.same _ _) = true ↔ _
  rw [Bool.and_eq_true, beq_iff_eq]

theorem Descriptor.eq_of_beq {x y : Descriptor} (hx : x.body.keyed) (h : x == y)
    (harrangement : x.json.arrangement = y.json.arrangement) : x = y := by
  obtain ⟨hname, hsame⟩ := beq_iff.mp h
  simp only [json, Value.arrangement_object, List.map_cons, List.map_nil, Value.object.injEq,
    List.cons.injEq, Prod.mk.injEq, true_and, and_true] at harrangement
  have hbody := Value.eq_of_same hx hsame harrangement.2
  cases x
  cases y
  simp_all

theorem Operand.beq_iff {x y : Operand} :
    x == y ↔ x.name = y.name ∧ x.bits = y.bits ∧ x.kind = y.kind ∧
      (Value.object x.attributes).same (.object y.attributes) := by
  change (_ == _ && _ == _ && _ == _ && Value.same _ _) = true ↔ _
  simp only [Bool.and_eq_true, beq_iff_eq, and_assoc]

theorem Operand.eq_of_beq {x y : Operand} (hx : (Value.object x.attributes).keyed) (h : x == y)
    (harrangement : x.json.arrangement = y.json.arrangement) : x = y := by
  obtain ⟨hname, hbits, hkind, hsame⟩ := beq_iff.mp h
  have hattributes : (Value.object x.attributes).arrangement =
      (Value.object y.attributes).arrangement := by
    simpa [json, hname, hbits, hkind] using harrangement
  have hobject := Value.eq_of_same hx hsame hattributes
  cases x
  cases y
  simp_all

namespace Definition

theorem beq_iff {d e : Definition} :
    d == e ↔ d.types.entries == e.types.entries ∧ d.classes.entries == e.classes.entries ∧
      d.operands.entries == e.operands.entries ∧ d.levels.entries = e.levels.entries ∧
        d.comparisons.entries = e.comparisons.entries ∧ d.opcodes.entries = e.opcodes.entries := by
  change (d.types.entries == e.types.entries && d.classes.entries == e.classes.entries &&
    d.operands.entries == e.operands.entries && d.levels.entries == e.levels.entries &&
      d.comparisons.entries == e.comparisons.entries && d.opcodes.entries == e.opcodes.entries) =
        true ↔ _
  simp only [Bool.and_eq_true, beq_iff_eq, and_assoc]

/-- Equal definitions that are arranged alike are the same. -/
theorem eq_of_beq {d e : Definition} (hd : d.Keyed) (h : d == e)
    (harrangement : d.json.arrangement = e.json.arrangement) : d = e := by
  obtain ⟨htypes, hclasses, hoperands, hlevels, hcomparisons, hopcodes⟩ := beq_iff.mp h
  simp only [json, Value.arrangement_object, Value.arrangement_array, List.map_cons, List.map_nil,
    List.map_map, Value.object.injEq, List.cons.injEq, Prod.mk.injEq, true_and, and_true,
    Value.array.injEq] at harrangement
  have htypeTable : d.types = e.types := Table.eq_of_entries_eq <|
    eq_of_list_beq (fun x hx _ => Descriptor.eq_of_beq (hd.types x hx)) htypes harrangement.1
  have hclassTable : d.classes = e.classes := Table.eq_of_entries_eq <|
    eq_of_list_beq (fun x hx _ => Descriptor.eq_of_beq (hd.classes x hx)) hclasses
      harrangement.2.1
  have hoperandTable : d.operands = e.operands := Table.eq_of_entries_eq <|
    eq_of_list_beq (fun x hx _ => Operand.eq_of_beq (hd.operands x hx)) hoperands
      harrangement.2.2.1
  cases d
  cases e
  simp only [mk.injEq]
  exact ⟨htypeTable, hclassTable, hoperandTable, Table.eq_of_entries_eq hlevels,
    Table.eq_of_entries_eq hcomparisons, Table.eq_of_entries_eq hopcodes⟩

theorem canonical_eq_iff {d e : Definition} (hd : d.Keyed) (h : d == e) :
    d.canonical = e.canonical ↔ d.json.arrangement = e.json.arrangement := by
  constructor
  · intro hcanonical
    rw [Value.compact_injective hcanonical]
  · intro harrangement
    rw [eq_of_beq hd h harrangement]

theorem FromTexts.canonical_eq_iff {d e : Definition} (hd : d.FromTexts) (h : d == e) :
    d.canonical = e.canonical ↔ d.json.arrangement = e.json.arrangement :=
  Definition.canonical_eq_iff hd.keyed h

/-- Equal definitions have one canonical text exactly if their keys stand in one order and their
zeros have one sign, and then they have one fingerprint. -/
theorem canonical_eq_iff_of_beq {d e : Definition} (hd : d.Keyed) (h : d == e) :
    (d.canonical = e.canonical ↔ d.json.arrangement = e.json.arrangement) ∧
      (d.json.arrangement = e.json.arrangement → d.fingerprint = e.fingerprint) := by
  refine ⟨canonical_eq_iff hd h, fun harrangement => ?_⟩
  rw [eq_of_beq hd h harrangement]

/-- An attribute before the width and after it. -/
theorem canonical_eq_iff_of_beq_entry :
    let doc : String × Value := ("doc", .object [("b", .null), ("a", .null)])
    let width : String × Value := ("bits", Json.ofNat 4)
    let s := Declarations.smallStore [] [("r", .object [width, doc])] []
    let t := Declarations.smallStore [] [("r", .object [doc, width])] []
    ∃ d e, (ofStore s).result = .ok d ∧ (ofStore t).result = .ok e ∧ d.Keyed ∧ d == e ∧
      d.canonical = e.canonical ∧ d.json.arrangement = e.json.arrangement ∧
        d.fingerprint = e.fingerprint := by
  intro doc width s t
  have hs : Store.Keyed s := Declarations.keyed_smallStore (by decide +kernel)
  obtain ⟨d, e, hd, he, hbeq, hjson⟩ : ∃ d e, (ofStore s).result = .ok d ∧
      (ofStore t).result = .ok e ∧ d == e ∧ d.json = e.json :=
    ⟨_, _, rfl, rfl, by decide +kernel, rfl⟩
  have hkeyed := keyed_of_ofStore hs hd
  have hcanonical : d.canonical = e.canonical := congrArg Value.compact hjson
  obtain ⟨htext, hfingerprint⟩ := canonical_eq_iff_of_beq hkeyed hbeq
  have harrangement := htext.mp hcanonical
  exact ⟨d, e, hd, he, hkeyed, hbeq, hcanonical, harrangement, hfingerprint harrangement⟩

/-- Two orders of the keys in one descriptor. -/
theorem fingerprint_ne_of_beq :
    let kind : String × Value := ("kind", .text "float")
    let width : String × Value := ("bits", Json.ofNat 32)
    let s := Declarations.smallStore [("F", .object [kind, width])] [] []
    let t := Declarations.smallStore [("F", .object [width, kind])] [] []
    ∃ d e, (ofStore s).result = .ok d ∧ (ofStore t).result = .ok e ∧ d == e ∧
      d.canonical ≠ e.canonical ∧ d.fingerprint ≠ e.fingerprint := by
  intro kind width s t
  obtain ⟨d, e, hd, he, hbeq, hfingerprint⟩ : ∃ d e, (ofStore s).result = .ok d ∧
      (ofStore t).result = .ok e ∧ d == e ∧ d.fingerprint ≠ e.fingerprint :=
    ⟨_, _, rfl, rfl, by decide +kernel, by decide +kernel⟩
  have hcanonical : d.canonical ≠ e.canonical := fun h =>
    hfingerprint (congrArg Fingerprint.ofText h)
  exact ⟨d, e, hd, he, hbeq, hcanonical, hfingerprint⟩

end Definition

end InstructionSet
