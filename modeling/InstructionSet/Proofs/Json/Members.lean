import InstructionSet.Json.Members
import InstructionSet.Proofs.Json.Value

/-!
# Members of written records

How the members of an object can be told apart, and what is left of them for a reader that keeps
the last value of a repeated key.
-/

namespace InstructionSet.Json

/-- The value under `key` if the value is an object. -/
def Value.member? (v : Value) (key : String) : Option Value :=
  match v with
  | .object members => Entries.get? key members
  | _ => none

/-- The keys of an object, as often as they occur. -/
def Value.keys : Value → List String
  | .object members => members.map Prod.fst
  | _ => []

theorem keys_member?_sublist {α : Type} (key : String) (encode : α → Value) (value : Option α) :
    ((member? key encode value).map Prod.fst).Sublist [key] := by
  cases value <;> simp [member?]

theorem get?_member? {α : Type} (key other : String) (encode : α → Value) (value : Option α) :
    Entries.get? key (member? other encode value) =
      if other = key then value.map encode else none := by
  cases value <;> simp [member?, Entries.get?_cons]

/-! ## Members told apart -/

theorem ofUInt32_injective : Function.Injective ofUInt32 := by
  intro m n h
  simpa [ofUInt32, Int.natCast_inj, UInt32.toNat_inj] using h

theorem ofNat_injective : Function.Injective ofNat := by
  intro m n h
  simpa [ofNat, Int.natCast_inj] using h

theorem text_injective : Function.Injective Value.text := fun _ _ h => Value.text.inj h

theorem ofTexts_injective : Function.Injective ofTexts := fun _ _ h =>
  text_injective.list_map (Value.array.inj h)

theorem ofSizes_injective : Function.Injective ofSizes := fun _ _ h =>
  ofUInt32_injective.list_map (Value.array.inj h)

theorem member?_injective {α : Type} (key : String) {encode : α → Value}
    (hencode : Function.Injective encode) : Function.Injective (member? key encode) := by
  intro x y h
  cases x <;> cases y <;> simp_all [member?, hencode.eq_iff]

/-- Two runs of members, of which the first has all members under certain keys. -/
theorem append_inj_of_keys (keys : List String) {l l' r r' : List (String × Value)}
    (hl : l.map Prod.fst ⊆ keys) (hl' : l'.map Prod.fst ⊆ keys)
    (hr : (r.map Prod.fst).Disjoint keys) (hr' : (r'.map Prod.fst).Disjoint keys)
    (h : l ++ r = l' ++ r') : l = l' ∧ r = r' := by
  have hfilter {l r : List (String × Value)} (hl : l.map Prod.fst ⊆ keys)
      (hr : (r.map Prod.fst).Disjoint keys) :
      (l ++ r).filter (fun member => member.1 ∈ keys) = l := by
    rw [List.filter_append, List.filter_eq_self.mpr, List.filter_eq_nil_iff.mpr, List.append_nil]
    · exact fun member hmember => by simpa using hr (List.mem_map_of_mem hmember)
    · exact fun member hmember => by simpa using hl (List.mem_map_of_mem hmember)
  have hfirst : l = l' := by rw [← hfilter hl hr, h, hfilter hl' hr']
  exact ⟨hfirst, List.append_cancel_left (hfirst ▸ h)⟩

/-! ## Repeated keys -/

mutual

/-- What a reader leaves of the value that keeps the last value of a repeated key. -/
def Value.asRead : Value → Value
  | .array items => .array (readItems items)
  | .object members => .object (Entries.putAll (readMembers members) [])
  | atom => atom

def readItems : List Value → List Value
  | [] => []
  | item :: rest => item.asRead :: readItems rest

def readMembers : List (String × Value) → List (String × Value)
  | [] => []
  | (key, value) :: rest => (key, value.asRead) :: readMembers rest

end

theorem readItems_eq_map (items : List Value) : readItems items = items.map Value.asRead := by
  induction items with
  | nil => rfl
  | cons item rest ih => rw [readItems, ih, List.map_cons]

theorem readMembers_eq_map (members : List (String × Value)) :
    readMembers members = members.map fun member => (member.1, member.2.asRead) := by
  induction members with
  | nil => rfl
  | cons member rest ih => rw [readMembers, ih, List.map_cons]

namespace Value

@[simp] theorem asRead_array (items : List Value) :
    (array items).asRead = .array (items.map asRead) := by
  rw [asRead, readItems_eq_map]

@[simp] theorem asRead_object (members : List (String × Value)) :
    (object members).asRead =
      .object (Entries.putAll (members.map fun member => (member.1, member.2.asRead)) []) := by
  rw [asRead, readMembers_eq_map]

/-- A reader changes nothing about a value without repeated keys. -/
theorem asRead_of_keyed {v : Value} (h : v.keyed) : v.asRead = v := by
  induction v using Value.inductionOn with
  | array items ih =>
      rw [keyed_array] at h
      have hitems : items.map asRead = items :=
        (List.map_congr_left fun item hitem => ih item hitem (h item hitem)).trans
          (List.map_id items)
      rw [asRead_array, hitems]
  | object members ih =>
      rw [keyed_object] at h
      have hmembers : (members.map fun member => (member.1, member.2.asRead)) = members := by
        refine (List.map_congr_left fun member hmember => ?_).trans (List.map_id members)
        rw [ih member hmember (h.2 member hmember)]
        rfl
      rw [asRead_object, hmembers, Entries.putAll_eq_append h.1, List.nil_append]
  | _ => rfl

/-- Members without repetition that follow on others overrule them. -/
theorem member?_asRead_append {first rest : List (String × Value)}
    (hfirst : (first.map Prod.fst).Nodup) (hrest : (rest.map Prod.fst).Nodup) (key : String) :
    (object (first ++ rest)).asRead.member? key =
      ((Entries.get? key rest).or (Entries.get? key first)).map asRead := by
  have hkeys (members : List (String × Value)) :
      (members.map fun member => (member.1, member.2.asRead)).map Prod.fst =
        members.map Prod.fst := by
    simp [Function.comp_def]
  have hget (members : List (String × Value)) :
      Entries.get? key (members.map fun member => (member.1, member.2.asRead)) =
        (Entries.get? key members).map asRead :=
    Entries.get?_map key asRead members
  rw [asRead_object, List.map_append, Entries.putAll_append, member?,
    Entries.get?_putAll (by rwa [hkeys]), Entries.get?_putAll (by rwa [hkeys]), hget, hget]
  cases Entries.get? key rest <;> simp

theorem member?_asRead {v : Value} (h : v.keys.Nodup) (key : String) :
    v.asRead.member? key = (v.member? key).map asRead := by
  cases v with
  | object members =>
      have happend := @member?_asRead_append members [] h List.nodup_nil key
      rw [List.append_nil, Entries.get?_nil, Option.none_or] at happend
      exact happend
  | array items =>
      rw [asRead_array]
      rfl
  | _ => rfl

/-- The items of the array under `key`. -/
def elements (v : Value) (key : String) : List Value :=
  match v.member? key with
  | some (.array items) => items
  | _ => []

theorem elements_asRead {v : Value} (h : v.keys.Nodup) {key : String} {items : List Value}
    (hitems : v.member? key = some (.array items)) :
    v.asRead.elements key = items.map asRead := by
  rw [elements, member?_asRead h, hitems, Option.map_some, asRead_array]

/-- What each object of the array under `table` has under `key`. -/
def column (v : Value) (table key : String) : List (Option Value) :=
  (v.elements table).map (·.member? key)

theorem column_asRead {v : Value} (h : v.keys.Nodup) {table : String} {items : List Value}
    (hitems : v.member? table = some (.array items)) (key : String) :
    v.asRead.column table key = items.map fun item => item.asRead.member? key := by
  rw [column, elements_asRead h hitems, List.map_map]
  rfl

end Value

end InstructionSet.Json
