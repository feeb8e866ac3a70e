import InstructionSet.Json.Value
import InstructionSet.Proofs.Entries
import Mathlib.Data.List.Forall2

/-!
# Structure of JSON values

Values that are read have no key twice in an object. Of such values, equality tells everything
apart but the order of members and the sign of zeros.
-/

namespace InstructionSet.Json

/-- Induction over a value, its items and the values of its members. -/
@[elab_as_elim]
theorem Value.inductionOn {motive : Value → Prop} (v : Value) (null : motive .null)
    (bool : ∀ b, motive (.bool b)) (number : ∀ n, motive (.number n))
    (text : ∀ s, motive (.text s))
    (array : ∀ items : List Value, (∀ item ∈ items, motive item) → motive (.array items))
    (object : ∀ members : List (String × Value), (∀ member ∈ members, motive member.2) →
      motive (.object members)) : motive v :=
  @Value.rec motive (fun items => ∀ item ∈ items, motive item)
    (fun members => ∀ member ∈ members, motive member.2) (fun member => motive member.2)
    null bool number text array object (by simp)
    (fun _ _ hitem hitems => List.forall_mem_cons.mpr ⟨hitem, hitems⟩) (by simp)
    (fun _ _ hmember hmembers => List.forall_mem_cons.mpr ⟨hmember, hmembers⟩)
    (fun _ _ hvalue => hvalue) v

/-! ## Distinct keys -/

mutual

/-- No object within the value has a key twice. -/
def Value.keyed : Value → Bool
  | .array items => keyedItems items
  | .object members => decide (members.map Prod.fst).Nodup && keyedMembers members
  | _ => true

def keyedItems : List Value → Bool
  | [] => true
  | item :: rest => item.keyed && keyedItems rest

def keyedMembers : List (String × Value) → Bool
  | [] => true
  | (_, value) :: rest => value.keyed && keyedMembers rest

end

theorem keyedItems_iff {items : List Value} :
    keyedItems items ↔ ∀ item ∈ items, item.keyed := by
  induction items with
  | nil => simp [keyedItems]
  | cons item rest ih => rw [keyedItems, Bool.and_eq_true, ih, List.forall_mem_cons]

theorem keyedMembers_iff {members : List (String × Value)} :
    keyedMembers members ↔ ∀ member ∈ members, member.2.keyed := by
  induction members with
  | nil => simp [keyedMembers]
  | cons member rest ih => rw [keyedMembers, Bool.and_eq_true, ih, List.forall_mem_cons]

@[simp] theorem Value.keyed_array {items : List Value} :
    (array items).keyed ↔ ∀ item ∈ items, item.keyed := by
  rw [keyed, keyedItems_iff]

@[simp] theorem Value.keyed_object {members : List (String × Value)} :
    (object members).keyed ↔
      (members.map Prod.fst).Nodup ∧ ∀ member ∈ members, member.2.keyed := by
  rw [keyed, Bool.and_eq_true, decide_eq_true_iff, keyedMembers_iff]

/-- Objects stay free of repeated keys if members are left out. -/
theorem Value.keyed_of_sublist {members kept : List (String × Value)}
    (h : (object members).keyed) (hkept : kept.Sublist members) : (object kept).keyed := by
  rw [keyed_object] at h ⊢
  exact ⟨h.1.sublist (hkept.map Prod.fst), fun member hmember => h.2 member (hkept.subset hmember)⟩

theorem Value.keyed_put {members : List (String × Value)} (h : (object members).keyed)
    {member : String × Value} (hmember : member.2.keyed) :
    (object (Entries.put member members)).keyed := by
  rw [keyed_object] at h ⊢
  refine ⟨Entries.nodup_map_name_put member h.1, fun other hother => ?_⟩
  rcases Entries.mem_of_mem_put hother with rfl | hold
  · exact hmember
  · exact h.2 other hold

/-! ## Equality -/

theorem sameItems_iff {xs ys : List Value} :
    sameItems xs ys ↔ List.Forall₂ (fun x y => x.same y) xs ys := by
  induction xs generalizing ys with
  | nil => cases ys <;> simp [sameItems]
  | cons x xs ih =>
      cases ys with
      | nil => simp [sameItems]
      | cons y ys => rw [sameItems, Bool.and_eq_true, ih, List.forall₂_cons]

theorem sameMembers_iff {xs ys : List (String × Value)} :
    sameMembers xs ys ↔
      ∀ member ∈ xs, ∃ y, Entries.get? member.1 ys = some y ∧ member.2.same y := by
  induction xs with
  | nil => simp [sameMembers]
  | cons x xs ih =>
      rw [sameMembers, Bool.and_eq_true, ih, List.forall_mem_cons]
      refine and_congr_left fun _ => ?_
      cases Entries.get? x.1 ys <;> simp

@[simp] theorem Value.same_array {xs ys : List Value} :
    (array xs).same (array ys) ↔ List.Forall₂ (fun x y => x.same y) xs ys := by
  rw [same, sameItems_iff]

@[simp] theorem Value.same_object {xs ys : List (String × Value)} :
    (object xs).same (object ys) ↔ xs.length = ys.length ∧
      ∀ member ∈ xs, ∃ y, Entries.get? member.1 ys = some y ∧ member.2.same y := by
  rw [same, Bool.and_eq_true, beq_iff_eq, sameMembers_iff]

/-! ## Arrangement -/

def Number.isMinusZero : Number → Bool
  | .integer _ => false
  | .real x => x.negative && x.coefficient == 0

mutual

/-- What equality disregards: where the members of objects stand, and which zeros are negative.
All else is blanked out. -/
def Value.arrangement : Value → Value
  | .number n => .bool n.isMinusZero
  | .array items => .array (arrangedItems items)
  | .object members => .object (arrangedMembers members)
  | _ => .null

def arrangedItems : List Value → List Value
  | [] => []
  | item :: rest => item.arrangement :: arrangedItems rest

def arrangedMembers : List (String × Value) → List (String × Value)
  | [] => []
  | (key, value) :: rest => (key, value.arrangement) :: arrangedMembers rest

end

theorem arrangedItems_eq_map (items : List Value) :
    arrangedItems items = items.map Value.arrangement := by
  induction items with
  | nil => rfl
  | cons item rest ih => rw [arrangedItems, ih, List.map_cons]

theorem arrangedMembers_eq_map (members : List (String × Value)) :
    arrangedMembers members = members.map fun member => (member.1, member.2.arrangement) := by
  induction members with
  | nil => rfl
  | cons member rest ih => rw [arrangedMembers, ih, List.map_cons]

@[simp] theorem Value.arrangement_array (items : List Value) :
    (array items).arrangement = .array (items.map arrangement) := by
  rw [arrangement, arrangedItems_eq_map]

@[simp] theorem Value.arrangement_object (members : List (String × Value)) :
    (object members).arrangement =
      .object (members.map fun member => (member.1, member.2.arrangement)) := by
  rw [arrangement, arrangedMembers_eq_map]

theorem Number.eq_of_same {m n : Number} (hsame : m.same n)
    (hzero : m.isMinusZero = n.isMinusZero) : m = n := by
  cases m with
  | integer m =>
      cases n with
      | integer n => simpa [same] using hsame
      | real y => cases hsame
  | real x =>
      cases n with
      | integer n => cases hsame
      | real y =>
          obtain ⟨negative, coefficient, exponent, trimmed⟩ := x
          obtain ⟨negative', coefficient', exponent', trimmed'⟩ := y
          simp only [same, Decimal.sameValue, Bool.or_eq_true, Bool.and_eq_true,
            beq_iff_eq] at hsame
          rcases hsame with hsame | ⟨rfl, rfl⟩
          · rw [hsame]
          · have hexponent : exponent = 0 := by simpa using trimmed
            have hexponent' : exponent' = 0 := by simpa using trimmed'
            simp_all [isMinusZero]

namespace Value

/-- Equal values whose members stand in one order are the same value. -/
theorem eq_of_same {v w : Value} (hv : v.keyed) (hsame : v.same w)
    (harrangement : v.arrangement = w.arrangement) : v = w := by
  induction v using Value.inductionOn generalizing w with
  | null => cases w <;> simp_all [same]
  | bool b => cases w <;> simp_all [same]
  | number m =>
      cases w with
      | number n =>
          rw [Number.eq_of_same hsame (by simpa [arrangement] using harrangement)]
      | _ => simp [same] at hsame
  | text s => cases w <;> simp_all [same]
  | array xs ih =>
      cases w with
      | array ys =>
          rw [keyed_array] at hv
          rw [same_array] at hsame
          simp only [arrangement_array, array.injEq] at harrangement ⊢
          induction hsame with
          | nil => rfl
          | cons hsame _ ihrest =>
              rw [List.forall_mem_cons] at ih hv
              rw [List.map_cons, List.map_cons, List.cons.injEq] at harrangement
              rw [ih.1 hv.1 hsame harrangement.1, ihrest ih.2 hv.2 harrangement.2]
      | _ => simp [same] at hsame
  | object xs ih =>
      cases w with
      | object ys =>
          rw [keyed_object] at hv
          rw [same_object] at hsame
          simp only [arrangement_object, object.injEq] at harrangement ⊢
          have hkeys : xs.map Prod.fst = ys.map Prod.fst := by
            simpa [Function.comp_def] using congrArg (List.map Prod.fst) harrangement
          refine Entries.eq_of_get?_eq hkeys hv.1 fun key => ?_
          have hget : (Entries.get? key xs).map arrangement =
              (Entries.get? key ys).map arrangement := by
            rw [← Entries.get?_map, harrangement, Entries.get?_map]
          cases hx : Entries.get? key xs with
          | none =>
              rw [hx] at hget
              exact (Option.map_eq_none_iff.mp hget.symm).symm
          | some x =>
              have hmem := Entries.mem_of_get? hx
              obtain ⟨y, hy, hxy⟩ := hsame.2 _ hmem
              rw [hx, hy] at hget
              obtain rfl : x = y := ih _ hmem (hv.2 _ hmem) hxy (Option.some.inj hget)
              rw [hy]
      | _ => simp [same] at hsame

end Value

end InstructionSet.Json
