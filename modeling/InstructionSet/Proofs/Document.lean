import InstructionSet.Document
import InstructionSet.Proofs.Outcome

/-!
# What documents are read as

Each reader succeeds on documents of one form, and then gives what the form holds.
-/

namespace InstructionSet

theorem Json.Reading.list_text_eq_ok_iff {v : Json.Value} {texts : List String} :
    list text v = .ok texts ↔ v = .array (texts.map .text) := by
  cases v with
  | array items =>
      rw [list, mapM_eq_ok_iff, Json.Value.array.injEq]
      induction items generalizing texts with
      | nil => cases texts <;> simp
      | cons item items ih =>
          cases texts with
          | nil => simp
          | cons t texts =>
              rw [List.forall₂_cons, ih, List.map_cons, List.cons.injEq]
              cases item <;> simp [text]
  | _ => simp [list]

namespace Document

variable {d : Document} {key : String}

theorem optionalMapping_eq_ok_iff {members : Option (List (String × Json.Value))} :
    d.optionalMapping key = .ok members ↔ d.value? key = members.map .object := by
  unfold optionalMapping
  split <;> rename_i h <;> cases members <;> simp_all [fail]

theorem mapping_eq_ok_iff {members : List (String × Json.Value)} :
    d.mapping key = .ok members ↔ d.value? key = some (.object members) := by
  rw [mapping, bind_eq_ok_iff]
  simp only [optionalMapping_eq_ok_iff]
  constructor
  · rintro ⟨_ | found, h, hok⟩
    · simp [fail] at hok
    · rwa [← Except.ok.inj hok]
  · exact fun h => ⟨some members, h, rfl⟩

theorem nameList_eq_ok_iff {names : Option (List String)} :
    d.nameList key = .ok names ↔
      d.value? key = names.map fun names => .array (names.map .text) := by
  unfold nameList
  cases hv : d.value? key with
  | none => cases names <;> simp
  | some v =>
      cases names with
      | none => cases hlist : Json.Reading.list .text v <;> simp [hlist, fail]
      | some names =>
          rw [Option.map_some, Option.some.injEq, ← Json.Reading.list_text_eq_ok_iff]
          cases hlist : Json.Reading.list .text v <;> simp [hlist, fail]

theorem record_eq_ok_iff {α : Type} {reading : Json.Reading α} {r : α} :
    d.record key reading = .ok r ↔ ∃ v, d.value? key = some v ∧ reading v = .ok r := by
  rw [record]
  cases d.value? key with
  | none => simp [fail]
  | some v => cases hread : reading v <;> simp [hread, fail]

/-- Entries are read one for one from the members of a mapping, each under its id. -/
theorem entries_eq_ok_iff {α : Type} {members : List (String × Json.Value)}
    {reading : String → Json.Reading α} {list : List (String × α)} :
    d.entries key members reading = .ok list ↔
      List.Forall₂ (fun member entry => entry.1 = member.1 ∧
        reading member.1 member.2 = .ok entry.2) (entryMembers members) list := by
  rw [entries, mapM_eq_ok_iff]
  refine Iff.of_eq (congrArg (fun R => List.Forall₂ R (entryMembers members) list) ?_)
  funext member entry
  cases hread : reading member.1 member.2 with
  | ok value => simp [hread, Prod.ext_iff, eq_comm]
  | error mismatch => simp [hread, fail]

/-- Every entry was read from a member, under its id. -/
theorem exists_reading_of_mem_entries {α : Type} {members : List (String × Json.Value)}
    {reading : String → Json.Reading α} {list : List (String × α)}
    (h : d.entries key members reading = .ok list) {entry : String × α} (hentry : entry ∈ list) :
    ∃ member ∈ entryMembers members, member.1 = entry.1 ∧
      reading member.1 member.2 = .ok entry.2 := by
  obtain ⟨member, hmember, hid, hread⟩ := exists_of_mem_forall₂ (entries_eq_ok_iff.mp h) hentry
  exact ⟨member, hmember, hid.symm, hread⟩

theorem entryMembers_cons (member : String × Json.Value) (rest : List (String × Json.Value)) :
    entryMembers (member :: rest) =
      if member.1 = endMarker then entryMembers rest else member :: entryMembers rest := by
  by_cases h : member.1 = endMarker <;> simp [entryMembers, h]

/-- An end marker makes no difference to entries, wherever it is put. -/
theorem entryMembers_put_endMarker (value : Json.Value) (members : List (String × Json.Value)) :
    entryMembers (Entries.put (endMarker, value) members) = entryMembers members := by
  induction members with
  | nil => rfl
  | cons member rest ih =>
      rw [Entries.put, Named.name_pair, Named.name_pair, entryMembers_cons member]
      split
      · rw [entryMembers_cons, if_pos rfl]
      · rename_i hother
        rw [entryMembers_cons, if_neg hother, ih]

theorem map_fst_of_entries {α : Type} {members : List (String × Json.Value)}
    {reading : String → Json.Reading α} {list : List (String × α)}
    (h : d.entries key members reading = .ok list) :
    list.map Prod.fst = (entryMembers members).map Prod.fst := by
  rw [entries_eq_ok_iff] at h
  generalize entryMembers members = kept at h ⊢
  induction h with
  | nil => rfl
  | cons hentry _ ih => rw [List.map_cons, List.map_cons, hentry.1, ih]

end Document

end InstructionSet
