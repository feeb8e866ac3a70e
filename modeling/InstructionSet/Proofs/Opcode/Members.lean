import InstructionSet.Opcode
import InstructionSet.Proofs.Json.Members
import Mathlib.Data.List.Sublists

/-!
# Members of written opcodes

The keys of each part of an opcode, in the order in which they are written. No two parts have one
in common.
-/

namespace InstructionSet

namespace Layout

def keys : List String := ["opA", "opB", "ext_words"]

theorem keys_members_sublist (l : Layout) : (l.members.map Prod.fst).Sublist keys := by
  rw [members, List.map_append]
  refine List.Sublist.append (List.Sublist.refl ["opA", "opB"]) ?_
  split <;> simp

theorem get?_members (l : Layout) {key : String} (h : key ∉ keys) :
    Entries.get? key l.members = none :=
  Entries.get?_eq_none_iff.mpr fun hkey => h (l.keys_members_sublist.subset hkey)

end Layout

namespace Shape

def keys : List String := ["shape", "sizes", "types", "sizetype", "variants"]

end Shape

theorem PlainShape.keys_members_sublist (s : PlainShape) :
    (s.members.map Prod.fst).Sublist Shape.keys := by
  cases s <;> simp [members, Shape.keys]

theorem Shape.keys_members_sublist (s : Shape) : (s.members.map Prod.fst).Sublist keys := by
  cases s with
  | plain shape => exact shape.keys_members_sublist
  | variantBearing variants => simp [members, keys]

namespace Traits

def keys : List String := ["comparison", "form", "fitsize", "class", "description"]

theorem keys_members_sublist (t : Traits) : (t.members.map Prod.fst).Sublist keys := by
  simp only [members, List.map_append]
  exact (((List.Sublist.refl ["comparison", "form"]).append
    (Json.keys_member?_sublist "fitsize" _ _)).append
      (Json.keys_member?_sublist "class" _ _)).append
        (Json.keys_member?_sublist "description" _ _)

end Traits

/-- The keys of a written opcode that may stand in a variant too. -/
def Opcode.partKeys : List String := Layout.keys ++ Shape.keys ++ Traits.keys

theorem keys_parts_sublist (l : Layout) {shape : List (String × Json.Value)}
    (hshape : (shape.map Prod.fst).Sublist Shape.keys) (t : Traits) :
    ((l.members ++ shape ++ t.members).map Prod.fst).Sublist Opcode.partKeys := by
  simp only [List.map_append]
  exact (l.keys_members_sublist.append hshape).append t.keys_members_sublist

theorem Opcode.keys_json_sublist (o : Opcode) : o.json.keys.Sublist ("name" :: partKeys) :=
  (keys_parts_sublist o.layout o.shape.keys_members_sublist o.traits).cons_cons "name"

theorem Variant.keys_json_sublist (v : Variant) :
    v.json.keys.Sublist ("name" :: "variation" :: Opcode.partKeys) :=
  ((keys_parts_sublist v.layout v.shape.keys_members_sublist v.traits).cons_cons
    "variation").cons_cons "name"

/-- An opcode that is no variant is written without a number. -/
theorem Opcode.member?_variation (o : Opcode) : o.json.member? "variation" = none :=
  Entries.get?_eq_none_iff.mpr fun hkey =>
    absurd (o.keys_json_sublist.subset hkey) (by decide)

/-- A variant is written with the shape of a plain opcode. -/
theorem Variant.member?_shape (v : Variant) :
    v.json.member? "shape" = some (.text "sized") ∨
      v.json.member? "shape" = some (.text "unsized") := by
  have hlayout : Entries.get? "shape" v.layout.members = none :=
    v.layout.get?_members (by decide)
  cases hshape : v.shape with
  | sized sizes types sizetype =>
      left
      simp [Variant.json, Json.Value.member?, Entries.get?_append, Entries.get?_cons, hlayout,
        hshape, PlainShape.members]
  | unsized types =>
      right
      simp [Variant.json, Json.Value.member?, Entries.get?_append, Entries.get?_cons, hlayout,
        hshape, PlainShape.members]

end InstructionSet
