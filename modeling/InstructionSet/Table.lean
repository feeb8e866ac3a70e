import InstructionSet.Entries

/-!
# Tables of named entries

A table is filled by insertion: it holds one entry under a name, the last inserted, at the place
where the name was first seen. Names are looked up in an index, which is kept in step with the
entries.
-/

namespace InstructionSet

structure Table (α : Type) [Named α] where
  entries : List α
  /-- Each name with the place of its entry. -/
  index : List (String × Nat)
  index_eq : index = (entries.map Named.name).zipIdx
  nodup : (entries.map Named.name).Nodup
  deriving Repr

namespace Table

variable {α : Type} [Named α]

def empty : Table α := ⟨[], [], rfl, List.nodup_nil⟩

instance : Inhabited (Table α) := ⟨empty⟩

/-- The index is left out of account. -/
instance [BEq α] : BEq (Table α) := ⟨fun s t => s.entries == t.entries⟩

def size (t : Table α) : Nat := t.entries.length

def isEmpty (t : Table α) : Bool := t.entries.isEmpty

def names (t : Table α) : List String := t.entries.map Named.name

/-- The place of an entry according to the index. -/
def place? (t : Table α) (name : String) : Option Nat := Entries.get? name t.index

def get? (t : Table α) (name : String) : Option α := (t.place? name).bind (t.entries[·]?)

def contains (t : Table α) (name : String) : Bool := (t.place? name).isSome

theorem place?_eq (t : Table α) (name : String) :
    t.place? name = Entries.place? name t.entries := by
  rw [place?, t.index_eq, Entries.get?_zipIdx]
  cases Entries.place? name t.entries <;> simp

/-- The index leads to the entry that a search through all entries finds. -/
theorem get?_eq_find? (t : Table α) (name : String) :
    t.get? name = Entries.find? name t.entries := by
  rw [get?, place?_eq, Entries.find?_eq_bind_place?]

theorem name_of_get? {t : Table α} {name : String} {entry : α} (h : t.get? name = some entry) :
    Named.name entry = name :=
  Entries.name_of_find? (t.get?_eq_find? name ▸ h)

theorem contains_iff (t : Table α) (name : String) : t.contains name ↔ name ∈ t.names := by
  rw [contains, place?_eq, Option.isSome_iff_ne_none, Ne, Entries.place?_eq_none_iff,
    Decidable.not_not, names]

theorem contains_eq_isSome_get? (t : Table α) (name : String) :
    t.contains name = (t.get? name).isSome := by
  rw [Bool.eq_iff_iff, contains_iff, get?_eq_find?, Entries.find?_isSome_iff, names]

theorem mem_names_iff {t : Table α} {name : String} :
    name ∈ t.names ↔ ∃ entry, t.get? name = some entry := by
  rw [← contains_iff, contains_eq_isSome_get?, Option.isSome_iff_exists]

theorem names_set (t : Table α) {entry : α} {place : Nat}
    (h : t.place? (Named.name entry) = some place) :
    (t.entries.set place entry).map Named.name = t.entries.map Named.name := by
  rw [place?_eq] at h
  have hname := Entries.getElem?_of_place? h
  obtain ⟨hlt, heq⟩ := List.getElem?_eq_some_iff.mp hname
  rw [List.map_set, ← heq, List.set_getElem_self]

theorem nodup_append (t : Table α) {entry : α} (h : t.place? (Named.name entry) = none) :
    ((t.entries ++ [entry]).map Named.name).Nodup := by
  rw [place?_eq, Entries.place?_eq_none_iff] at h
  rw [List.map_append]
  refine List.nodup_append.mpr ⟨t.nodup, by simp, ?_⟩
  intro name hname other hother e
  have hentry : other = Named.name entry := by simpa using hother
  exact h (hentry ▸ e ▸ hname)

/-- An entry whose name is known overwrites the one at its place; any other opens a place. -/
def insert (t : Table α) (entry : α) : Table α :=
  match h : t.place? (Named.name entry) with
  | some place =>
      { entries := t.entries.set place entry
        index := t.index
        index_eq := by rw [t.names_set h, t.index_eq]
        nodup := by rw [t.names_set h]; exact t.nodup }
  | none =>
      { entries := t.entries ++ [entry]
        index := t.index ++ [(Named.name entry, t.entries.length)]
        index_eq := by simp [t.index_eq, List.zipIdx_append]
        nodup := t.nodup_append h }

/-- Inserts `entry` and gives back the entry that it replaced. -/
def exchange (t : Table α) (entry : α) : Option α × Table α :=
  (t.get? (Named.name entry), t.insert entry)

def ofList (entries : List α) : Table α := entries.foldl insert empty

theorem entries_insert (t : Table α) (entry : α) :
    (t.insert entry).entries = Entries.put entry t.entries := by
  rw [Entries.put_eq_match_place?, ← place?_eq, insert]
  split <;> rename_i h <;> simp [h]

theorem mem_names_insert {t : Table α} {entry : α} {name : String} :
    name ∈ (t.insert entry).names ↔ name ∈ t.names ∨ name = Named.name entry := by
  rw [names, entries_insert, Entries.map_name_put]
  split
  · rename_i h
    exact ⟨.inl, fun h' => h'.elim id fun e => e ▸ h⟩
  · simp [names]

theorem entries_foldl_insert (entries : List α) (t : Table α) :
    (entries.foldl insert t).entries = Entries.putAll entries t.entries := by
  induction entries generalizing t with
  | nil => rfl
  | cons entry rest ih => rw [List.foldl_cons, ih, entries_insert, Entries.putAll_cons]

theorem entries_ofList (entries : List α) :
    (ofList entries).entries = Entries.putAll entries [] :=
  entries_foldl_insert entries empty

theorem mem_of_mem_ofList {entries : List α} {entry : α} (h : entry ∈ (ofList entries).entries) :
    entry ∈ entries := by
  rw [entries_ofList] at h
  exact (Entries.mem_of_mem_putAll h).resolve_right List.not_mem_nil

end Table

end InstructionSet
