import InstructionSet.Proofs.Entries
import InstructionSet.Table

/-!
# Tables of distinct names

Of entries with distinct names a table holds all, in their order. What is looked up in it depends
on the entries alone.
-/

namespace InstructionSet.Table

variable {α : Type} [Named α]

theorem entries_ofList_of_nodup {entries : List α} (h : (entries.map Named.name).Nodup) :
    (ofList entries).entries = entries := by
  rw [entries_ofList, Entries.putAll_eq_append h, List.nil_append]

theorem get?_eq_some_iff {t : Table α} {name : String} {entry : α} :
    t.get? name = some entry ↔ entry ∈ t.entries ∧ Named.name entry = name := by
  rw [get?_eq_find?, Entries.find?_eq_some_iff t.nodup]

theorem get?_eq_of_perm {s t : Table α} (h : s.entries.Perm t.entries) (name : String) :
    t.get? name = s.get? name := by
  rw [get?_eq_find?, get?_eq_find?, Entries.find?_eq_of_perm s.nodup h]

theorem get?_ofList_of_perm {xs ys : List α} (hnodup : (xs.map Named.name).Nodup)
    (h : xs.Perm ys) (name : String) : (ofList ys).get? name = (ofList xs).get? name := by
  refine get?_eq_of_perm ?_ name
  rw [entries_ofList_of_nodup hnodup,
    entries_ofList_of_nodup ((h.map Named.name).nodup_iff.mp hnodup)]
  exact h

/-- Of the entries of one name the last one counts. -/
theorem get?_ofList_of_last {before after : List α} {entry : α}
    (h : Named.name entry ∉ after.map Named.name) :
    (ofList (before ++ entry :: after)).get? (Named.name entry) = some entry := by
  have hafter : after.reverse.find? (fun other => Named.name other = Named.name entry) = none := by
    simpa using h
  rw [get?_eq_find?, entries_ofList, Entries.find?_putAll, List.reverse_append, List.reverse_cons,
    List.append_assoc, List.find?_append, hafter, Option.none_or]
  simp

end InstructionSet.Table
