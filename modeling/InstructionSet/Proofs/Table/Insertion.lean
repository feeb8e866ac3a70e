import InstructionSet.Proofs.Definition.Equality
import InstructionSet.Proofs.Table
import Mathlib.Data.Finset.Card

/-!
# Tables as maps that remember the order of insertion

The index of a table is always in step with its entries. What a run of insertions leaves is a map
from each name to the entry inserted last under it, in the order in which the names came first.
-/

namespace InstructionSet

/-- Entries that compare equal have one name. -/
class LawfulNamed (α : Type) [Named α] [BEq α] : Prop where
  name_eq_of_beq : ∀ {x y : α}, x == y → Named.name x = Named.name y

namespace LawfulNamed

instance {α : Type} [Named α] [BEq α] [LawfulBEq α] : LawfulNamed α :=
  ⟨fun h => congrArg Named.name (eq_of_beq h)⟩

instance : LawfulNamed Descriptor := ⟨fun h => (Descriptor.beq_iff.mp h).1⟩

instance : LawfulNamed Operand := ⟨fun h => (Operand.beq_iff.mp h).1⟩

end LawfulNamed

namespace Table

variable {α : Type} [Named α]

/-! ## The index -/

/-- No two entries have one name, and every name leads to its entry. -/
structure Coherent (t : Table α) : Prop where
  nodup : t.names.Nodup
  mem_index_iff : ∀ name place, (name, place) ∈ t.index ↔
    ∃ entry, t.entries[place]? = some entry ∧ Named.name entry = name
  place?_eq_some_iff : ∀ name place, t.place? name = some place ↔ (name, place) ∈ t.index
  contains_eq : ∀ name, t.contains name = (t.get? name).isSome

theorem mem_index_iff_getElem? (t : Table α) {name : String} {place : Nat} :
    (name, place) ∈ t.index ↔
      ∃ entry, t.entries[place]? = some entry ∧ Named.name entry = name := by
  rw [t.index_eq, List.mem_zipIdx_iff_getElem?, List.getElem?_map, Option.map_eq_some_iff]

theorem map_fst_index (t : Table α) : t.index.map Prod.fst = t.names := by
  rw [t.index_eq, List.zipIdx_map_fst, names]

theorem coherent (t : Table α) : t.Coherent where
  nodup := t.nodup
  mem_index_iff _ _ := t.mem_index_iff_getElem?
  place?_eq_some_iff name place := by
    constructor
    · exact Entries.mem_of_get?
    · apply Entries.get?_of_mem
      rw [map_fst_index]
      exact t.nodup
  contains_eq := t.contains_eq_isSome_get?

/-! ## Runs of insertions -/

theorem ofList_append_singleton (inserted : List α) (entry : α) :
    ofList (inserted ++ [entry]) = (ofList inserted).insert entry :=
  List.foldl_concat ..

/-- The entry inserted last under `name`. -/
def latest? (name : String) (inserted : List α) : Option α :=
  inserted.reverse.find? fun entry => Named.name entry = name

theorem latest?_append_singleton (name : String) (inserted : List α) (entry : α) :
    latest? name (inserted ++ [entry]) =
      if Named.name entry = name then some entry else latest? name inserted := by
  rw [latest?, latest?, List.reverse_append]
  by_cases h : Named.name entry = name <;> simp [h]

/-- The table holds what was inserted. -/
structure Records (inserted : List α) (t : Table α) : Prop where
  /-- Names keep the order in which they came first. -/
  names : t.names = (inserted.map Named.name).eraseDups
  get? : ∀ name, t.get? name = latest? name inserted

namespace Records

variable {inserted : List α} {t : Table α}

theorem empty : Records [] (empty : Table α) where
  names := rfl
  get? _ := rfl

/-- One insertion replaces the entry of its name or comes last. -/
theorem insert (h : Records inserted t) (entry : α) :
    Records (inserted ++ [entry]) (t.insert entry) where
  names := by
    have hnames := h.names
    rw [Table.names] at hnames ⊢
    rw [entries_insert, Entries.map_name_put, hnames, List.map_append, List.map_singleton,
      eraseDups_append_singleton]
    simp only [List.mem_eraseDups]
  get? name := by
    rw [get?_eq_find?, entries_insert, Entries.find?_put, ← get?_eq_find?, h.get?,
      latest?_append_singleton]

theorem exchange (h : Records inserted t) (entry : α) :
    (t.exchange entry).1 = latest? (Named.name entry) inserted :=
  h.get? _

theorem foldl (h : Records inserted t) (entries : List α) :
    Records (inserted ++ entries) (entries.foldl Table.insert t) := by
  induction entries generalizing inserted t with
  | nil => rwa [List.append_nil]
  | cons entry entries ih =>
      rw [List.append_cons]
      exact ih (h.insert entry)

theorem ofList (inserted : List α) : Records inserted (ofList inserted) :=
  empty.foldl inserted

theorem size (h : Records inserted t) :
    t.size = (inserted.map Named.name).toFinset.card := by
  have hlength : t.size = t.names.length := by rw [Table.size, Table.names, List.length_map]
  have hset : t.names.toFinset = (inserted.map Named.name).toFinset := by
    ext name
    rw [h.names, List.mem_toFinset, List.mem_toFinset, List.mem_eraseDups]
  have hnodup : t.names.Nodup := t.nodup
  rw [hlength, ← hset, List.toFinset_card_of_nodup hnodup]

end Records

/-! ## Tables that answer alike -/

/-- The same is found in lists of equal entries. -/
theorem find?_beq [BEq α] [LawfulNamed α] {xs ys : List α} (h : xs == ys) (name : String) :
    Entries.find? name xs == Entries.find? name ys := by
  induction xs generalizing ys with
  | nil =>
      cases ys with
      | nil => rfl
      | cons y ys => cases h
  | cons x xs ih =>
      cases ys with
      | nil => cases h
      | cons y ys =>
          rw [List.cons_beq_cons, Bool.and_eq_true] at h
          rw [Entries.find?, Entries.find?, LawfulNamed.name_eq_of_beq h.1]
          split
          · exact h.1
          · exact ih h.2

theorem get?_beq [BEq α] [LawfulNamed α] {s t : Table α} (h : s == t) (name : String) :
    s.get? name == t.get? name := by
  rw [get?_eq_find?, get?_eq_find?]
  exact find?_beq h name

theorem contains_eq_of_beq [BEq α] [LawfulNamed α] {s t : Table α} (h : s == t)
    (name : String) : s.contains name = t.contains name := by
  have hget := get?_beq h name
  rw [contains_eq_isSome_get?, contains_eq_isSome_get?]
  cases hs : s.get? name <;> cases ht : t.get? name <;> simp_all

theorem get?_ofList_of_perm_entries {t : Table α} {collected : List α}
    (h : collected.Perm t.entries) (name : String) :
    (ofList collected).get? name = t.get? name := by
  rw [get?_ofList_of_perm t.nodup h.symm, get?_eq_find?, get?_eq_find?,
    entries_ofList_of_nodup t.nodup]

theorem contains_ofList_of_perm_entries {t : Table α} {collected : List α}
    (h : collected.Perm t.entries) (name : String) :
    (ofList collected).contains name = t.contains name := by
  rw [contains_eq_isSome_get?, contains_eq_isSome_get?, get?_ofList_of_perm_entries h]

/-- A run of insertions leaves a map in the order of insertion, and each insertion gives back the
entry of its name. Equal tables answer alike, and so does a table that is collected again from its
entries in any order. -/
theorem refines_ordered_map :
    (∀ inserted : List α,
      Coherent (ofList inserted) ∧ Records inserted (ofList inserted) ∧
        (ofList inserted).size = (inserted.map Named.name).toFinset.card ∧
        ∀ entry, (ofList inserted).exchange entry =
          (latest? (Named.name entry) inserted, ofList (inserted ++ [entry]))) ∧
    (∀ [BEq α] [LawfulNamed α] (s t : Table α), s == t →
      ∀ name, (s.get? name == t.get? name) ∧ s.contains name = t.contains name) ∧
    ∀ (t : Table α) (collected : List α), collected.Perm t.entries →
      ∀ name, (ofList collected).get? name = t.get? name ∧
        (ofList collected).contains name = t.contains name := by
  refine ⟨?_, ?_, ?_⟩
  · intro inserted
    have hrecords := Records.ofList inserted
    refine ⟨coherent _, hrecords, hrecords.size, ?_⟩
    intro entry
    apply Prod.ext
    · exact hrecords.exchange entry
    · exact (ofList_append_singleton inserted entry).symm
  · intro _ _ s t h name
    exact ⟨get?_beq h name, contains_eq_of_beq h name⟩
  · intro t collected h name
    exact ⟨get?_ofList_of_perm_entries h name, contains_ofList_of_perm_entries h name⟩

/-- A type that is declared again keeps its place, and the order of members does not count. -/
theorem refines_ordered_map_redeclared :
    let bits : String × Json.Value := ("bits", .number (.integer 8))
    let signed : String × Json.Value := ("signed", .bool true)
    let byte : Descriptor := ⟨"u8", .null⟩
    let s := ofList [byte, ⟨"i8", .object [signed, bits]⟩]
    let t := ofList [⟨"u8", .bool true⟩, ⟨"i8", .object [bits, signed]⟩, byte]
    let collected := [⟨"i8", .object [bits, signed]⟩, byte]
    s.exchange ⟨"u8", .bool true⟩ =
        (some byte, ofList [byte, ⟨"i8", .object [signed, bits]⟩, ⟨"u8", .bool true⟩]) ∧
      s == t ∧ (∀ name, (s.get? name == t.get? name) ∧ s.contains name = t.contains name) ∧
      collected.Perm t.entries ∧
      ∀ name, (ofList collected).get? name = t.get? name ∧
        (ofList collected).contains name = t.contains name := by
  intro bits signed byte s t collected
  have hequal : s == t := rfl
  have hcollected : collected.Perm t.entries := List.Perm.swap ..
  exact ⟨(refines_ordered_map.1 _).2.2.2 _, hequal, refines_ordered_map.2.1 s t hequal,
    hcollected, refines_ordered_map.2.2 t collected hcollected⟩

end Table

end InstructionSet
