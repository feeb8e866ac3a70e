import InstructionSet.Operand
import InstructionSet.Proofs.Opcode.Members
import InstructionSet.Proofs.Outcome

/-!
# Entries of operands

What an operand takes over from its entry, and what of it can be told from the object that it is
written as.
-/

namespace InstructionSet.Operand

/-- The keys that the width and the kind are read from. -/
def fixedKeys : List String := ["bits", "type"]

/-- The members of an entry that become attributes. -/
def attributesOf (members : List (String × Json.Value)) : List (String × Json.Value) :=
  members.filter fun member => member.1 ∉ fixedKeys

/-- One more member is an attribute, or sets the width or the kind. -/
theorem Entry.attributes_of_read {e e' : Entry} {member : String × Json.Value}
    (h : e.read member.1 member.2 = .ok e') :
    e'.attributes = e.attributes ++ attributesOf [member] := by
  rw [Entry.read] at h
  split at h
  · rename_i hbits
    obtain ⟨bits, -, rfl⟩ := map_eq_ok_iff.mp h
    simp [attributesOf, fixedKeys, hbits]
  · split at h
    · rename_i htype
      obtain ⟨kind, -, rfl⟩ := map_eq_ok_iff.mp h
      simp [attributesOf, fixedKeys, htype]
    · rename_i hbits htype
      rw [← Except.ok.inj h]
      simp [attributesOf, fixedKeys, hbits, htype]

theorem Entry.attributes_of_foldlM {e e' : Entry} {members : List (String × Json.Value)}
    (h : members.foldlM (fun (e : Entry) member => e.read member.1 member.2) e = .ok e') :
    e'.attributes = e.attributes ++ attributesOf members := by
  induction members generalizing e with
  | nil =>
      rw [← Except.ok.inj h]
      simp [attributesOf]
  | cons member rest ih =>
      rw [List.foldlM_cons, bind_eq_ok_iff] at h
      obtain ⟨next, hnext, hrest⟩ := h
      rw [ih hrest, Entry.attributes_of_read hnext, List.append_assoc, attributesOf, attributesOf,
        ← List.filter_append, List.singleton_append, attributesOf]

/-- An operand has the name that it is read under and the attributes that its entry holds. -/
theorem eq_of_reading {name : String} {v : Json.Value} {x : Operand}
    (h : reading name v = .ok x) :
    x.name = name ∧ ∃ members, v = .object members ∧ x.attributes = attributesOf members := by
  cases v with
  | object members =>
      rw [reading, bind_eq_ok_iff] at h
      obtain ⟨e, he, hx⟩ := h
      split at hx
      · rw [← Except.ok.inj hx]
        exact ⟨rfl, members, rfl, by simpa using Entry.attributes_of_foldlM he⟩
      · cases hx
  | _ => simp [reading] at h

/-- No attribute has a key that the width or the kind is read from. -/
def Regular (x : Operand) : Prop := ∀ key ∈ fixedKeys, key ∉ x.attributes.map Prod.fst

theorem regular_of_reading {name : String} {v : Json.Value} {x : Operand}
    (h : reading name v = .ok x) : x.Regular := by
  obtain ⟨-, members, -, hattributes⟩ := eq_of_reading h
  intro key hkey hmem
  obtain ⟨member, hmember, rfl⟩ := List.mem_map.mp hmem
  rw [hattributes] at hmember
  simpa [hkey] using (List.mem_filter.mp hmember).2

end InstructionSet.Operand
