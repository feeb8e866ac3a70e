import InstructionSet.Level
import InstructionSet.Proofs.Table

/-!
# What levels add up to

Each level is the tally of a beginning of the declarations. A tally only grows, so a level has all
that the levels before it have. Levels that are declared later do not change a level, but a later
declaration of its name puts another level in its place.
-/

namespace InstructionSet.Level

namespace Tally

/-- The tally after further declarations. -/
def addAll (t : Tally) (declared : List (String × Draft)) : Tally :=
  declared.foldl (fun t entry => t.add entry.2) t

@[simp] theorem addAll_nil (t : Tally) : t.addAll [] = t := rfl

@[simp] theorem addAll_cons (t : Tally) (entry : String × Draft) (rest : List (String × Draft)) :
    t.addAll (entry :: rest) = (t.add entry.2).addAll rest := rfl

theorem addAll_append (t : Tally) (first later : List (String × Draft)) :
    t.addAll (first ++ later) = (t.addAll first).addAll later :=
  List.foldl_append

/-- `t'` has all that `t` has at the same places, and its addresses are no smaller. -/
structure Extends (t' t : Tally) : Prop where
  sizes : t.sizes <+: t'.sizes
  types : t.types <+: t'.types
  addr : t.addr ≤ t'.addr

theorem Extends.refl (t : Tally) : t.Extends t :=
  ⟨List.prefix_refl _, List.prefix_refl _, UInt32.le_refl _⟩

theorem Extends.trans {t t' t'' : Tally} (h : t''.Extends t') (h' : t'.Extends t) :
    t''.Extends t :=
  ⟨h'.sizes.trans h.sizes, h'.types.trans h.types, UInt32.le_trans h'.addr h.addr⟩

theorem addr_add (t : Tally) (d : Draft) :
    (t.add d).addr = if t.addr ≤ d.addr.getD 0 then d.addr.getD 0 else t.addr := rfl

theorem extends_add (t : Tally) (d : Draft) : (t.add d).Extends t where
  sizes := prefix_appendNew _ _
  types := prefix_appendNew _ _
  addr := by
    rw [addr_add]
    split
    · assumption
    · exact UInt32.le_refl _

theorem extends_addAll (t : Tally) (declared : List (String × Draft)) :
    (t.addAll declared).Extends t := by
  induction declared generalizing t with
  | nil => exact .refl t
  | cons entry rest ih => exact (ih (t.add entry.2)).trans (t.extends_add entry.2)

/-- The tally of the declarations: what any of them declares, in the order of the first
occurrences, and the greatest of their addresses, which is 0 if they have none. -/
structure Sums (t : Tally) (declared : List (String × Draft)) : Prop where
  sizes : t.sizes = (declared.flatMap fun entry => entry.2.sizes).eraseDups
  types : t.types = (declared.flatMap fun entry => entry.2.types).eraseDups
  addr_mem : t.addr ∈ 0 :: declared.filterMap fun entry => entry.2.addr
  le_addr : ∀ addr ∈ declared.filterMap fun entry => entry.2.addr, addr ≤ t.addr

theorem le_addr_add (t : Tally) {d : Draft} {addr : UInt32} (h : d.addr = some addr) :
    addr ≤ (t.add d).addr := by
  rw [addr_add, h, Option.getD_some]
  split
  · exact UInt32.le_refl addr
  · rename_i hlt
    exact UInt32.le_of_lt (UInt32.not_le.mp hlt)

theorem sums_nil : Sums {} [] where
  sizes := rfl
  types := rfl
  addr_mem := List.mem_cons_self
  le_addr := by simp

theorem Sums.add {t : Tally} {declared : List (String × Draft)} (h : t.Sums declared)
    (entry : String × Draft) : (t.add entry.2).Sums (declared ++ [entry]) where
  sizes := by
    have hnew : (t.add entry.2).sizes = appendNew t.sizes entry.2.sizes := rfl
    rw [hnew, h.sizes, appendNew_eraseDups, List.flatMap_append, List.flatMap_singleton]
  types := by
    have hnew : (t.add entry.2).types = appendNew t.types entry.2.types := rfl
    rw [hnew, h.types, appendNew_eraseDups, List.flatMap_append, List.flatMap_singleton]
  addr_mem := by
    rw [addr_add, List.filterMap_append, ← List.cons_append]
    split
    · cases haddr : entry.2.addr with
      | none => simp
      | some addr => simp [haddr]
    · exact List.mem_append_left _ h.addr_mem
  le_addr := by
    intro addr haddr
    rw [List.filterMap_append] at haddr
    rcases List.mem_append.mp haddr with hold | hnew
    · exact UInt32.le_trans (h.le_addr addr hold) (t.extends_add entry.2).addr
    · apply le_addr_add
      simpa using hnew

theorem sums_addAll (declared : List (String × Draft)) : (addAll {} declared).Sums declared := by
  induction declared using List.reverseRecOn with
  | nil => exact sums_nil
  | append_singleton declared entry ih =>
      rw [addAll_append]
      exact ih.add entry

end Tally

/-! ## The level of each declaration -/

/-- What a level has. -/
def tally (level : Level) : Tally := { level with }

theorem snapshots_append (t : Tally) (first later : List (String × Draft)) :
    snapshots t (first ++ later) = snapshots t first ++ snapshots (t.addAll first) later := by
  induction first generalizing t with
  | nil => rfl
  | cons entry first ih =>
      obtain ⟨name, d⟩ := entry
      rw [List.cons_append, snapshots, snapshots, ih, Tally.addAll_cons, List.cons_append]

theorem map_name_snapshots (t : Tally) (declared : List (String × Draft)) :
    (snapshots t declared).map Named.name = declared.map Named.name := by
  induction declared generalizing t with
  | nil => rfl
  | cons entry rest ih =>
      obtain ⟨name, d⟩ := entry
      rw [snapshots, List.map_cons, List.map_cons, ih]
      rfl

theorem exists_prefix_of_mem_snapshots {t : Tally} {declared : List (String × Draft)}
    {level : Level} (h : level ∈ snapshots t declared) :
    ∃ first, first <+: declared ∧ level = (t.addAll first).level level.name := by
  induction declared generalizing t with
  | nil => cases h
  | cons entry rest ih =>
      obtain ⟨name, d⟩ := entry
      rcases List.mem_cons.mp h with rfl | hrest
      · exact ⟨[(name, d)], List.prefix_append [(name, d)] rest, rfl⟩
      · obtain ⟨first, hfirst, hlevel⟩ := ih hrest
        exact ⟨(name, d) :: first, List.cons_prefix_cons.mpr ⟨rfl, hfirst⟩, hlevel⟩

/-- A level has all that was there before, and no more than all declarations together. -/
theorem extends_of_mem_snapshots {t : Tally} {declared : List (String × Draft)} {level : Level}
    (h : level ∈ snapshots t declared) :
    level.tally.Extends t ∧ (t.addAll declared).Extends level.tally := by
  obtain ⟨first, ⟨rest, rfl⟩, hlevel⟩ := exists_prefix_of_mem_snapshots h
  have htally : level.tally = t.addAll first := congrArg Level.tally hlevel
  rw [htally, Tally.addAll_append]
  exact ⟨t.extends_addAll first, Tally.extends_addAll _ rest⟩

theorem getElem?_snapshots (t : Tally) (declared : List (String × Draft)) (place : Nat) :
    (snapshots t declared)[place]? = declared[place]?.map fun entry =>
      (t.addAll (declared.take (place + 1))).level entry.1 := by
  induction declared generalizing t place with
  | nil => rfl
  | cons entry rest ih =>
      obtain ⟨name, d⟩ := entry
      cases place with
      | zero => rfl
      | succ place =>
          rw [snapshots, List.getElem?_cons_succ, List.getElem?_cons_succ, ih,
            List.take_succ_cons, Tally.addAll_cons]

/-- Each level has all that the levels before it have. -/
theorem pairwise_snapshots (t : Tally) (declared : List (String × Draft)) :
    (snapshots t declared).Pairwise fun low high => high.tally.Extends low.tally := by
  induction declared generalizing t with
  | nil => exact .nil
  | cons entry rest ih =>
      obtain ⟨name, d⟩ := entry
      apply List.Pairwise.cons
      · intro high hhigh
        exact (extends_of_mem_snapshots hhigh).1
      · exact ih (t.add d)

/-! ## The table of levels -/

theorem names_accumulate (declared : List (String × Draft)) :
    (accumulate declared).names = (declared.map Named.name).eraseDups := by
  rw [Table.names, accumulate, Table.entries_ofList, Entries.map_name_putAll, map_name_snapshots]

/-- Levels of new names follow those that are there. -/
theorem entries_accumulate_append {first later : List (String × Draft)}
    (hnodup : (later.map Named.name).Nodup)
    (hnew : ∀ name ∈ later.map Named.name, name ∉ first.map Named.name) :
    (accumulate (first ++ later)).entries =
      (accumulate first).entries ++ snapshots (Tally.addAll {} first) later := by
  have hentries (declared : List (String × Draft)) :
      (accumulate declared).entries = Entries.putAll (snapshots {} declared) [] :=
    Table.entries_ofList _
  have hnames : (((accumulate first).entries ++
      snapshots (Tally.addAll {} first) later).map Named.name).Nodup := by
    rw [List.map_append, map_name_snapshots]
    refine List.nodup_append.mpr ⟨(accumulate first).nodup, hnodup, ?_⟩
    rintro name hname _ hlater rfl
    have hknown : name ∈ (accumulate first).names := hname
    rw [names_accumulate, List.mem_eraseDups] at hknown
    exact hnew name hlater hknown
  rw [hentries, snapshots_append, Entries.putAll_append, ← hentries,
    Entries.putAll_eq_append hnames]

/-- A level that is there is found whatever is declared later. -/
theorem get?_accumulate_append {first later : List (String × Draft)} {name : String}
    {level : Level} (hnodup : (later.map Named.name).Nodup)
    (hnew : ∀ name ∈ later.map Named.name, name ∉ first.map Named.name)
    (h : (accumulate first).get? name = some level) :
    (accumulate (first ++ later)).get? name = some level := by
  rw [Table.get?_eq_some_iff, entries_accumulate_append hnodup hnew, List.mem_append]
  exact (Table.get?_eq_some_iff.mp h).imp_left .inl

/-- A level that is declared later has all that an earlier one has. -/
theorem exists_get?_of_later {declared : List (String × Draft)} {low high : String}
    {level : Level} (hnodup : (declared.map Named.name).Nodup)
    (horder : [low, high].Sublist (declared.map Named.name))
    (hlow : (accumulate declared).get? low = some level) :
    ∃ above, (accumulate declared).get? high = some above ∧
      above.tally.Extends level.tally := by
  obtain ⟨earlier, later, hsplit, hearlier, hlater⟩ := List.cons_sublist_iff.mp horder
  obtain ⟨first, rest, rfl, rfl, rfl⟩ := List.map_eq_append_iff.mp hsplit
  rw [List.map_append, List.nodup_append] at hnodup
  obtain ⟨-, hrest, hdisjoint⟩ := hnodup
  have hnew : ∀ name ∈ rest.map Named.name, name ∉ first.map Named.name :=
    fun name hname hfirst => hdisjoint name hfirst name hname rfl
  have hknown : low ∈ (accumulate first).names := by
    rwa [names_accumulate, List.mem_eraseDups]
  obtain ⟨found, hfound⟩ := Table.mem_names_iff.mp hknown
  obtain rfl : found = level :=
    Option.some.inj ((get?_accumulate_append hrest hnew hfound).symm.trans hlow)
  have hfirst := Table.mem_of_mem_ofList (Table.get?_eq_some_iff.mp hfound).1
  obtain ⟨above, habove, hhigh⟩ : ∃ above ∈ snapshots (Tally.addAll {} first) rest,
      Named.name above = high := by
    rw [← List.mem_map, map_name_snapshots]
    exact hlater.mem List.mem_cons_self
  refine ⟨above, ?_, ?_⟩
  · rw [Table.get?_eq_some_iff, entries_accumulate_append hrest hnew, List.mem_append]
    exact ⟨.inr habove, hhigh⟩
  · exact (extends_of_mem_snapshots habove).1.trans (extends_of_mem_snapshots hfirst).2

/-- Of the declarations of one name the last one counts. -/
theorem get?_accumulate_last {before after : List (String × Draft)} {name : String} {d : Draft}
    (h : name ∉ after.map Named.name) :
    (accumulate (before ++ (name, d) :: after)).get? name =
      some ((Tally.addAll {} (before ++ [(name, d)])).level name) := by
  rw [accumulate, snapshots_append, snapshots, Tally.addAll_append]
  apply Table.get?_ofList_of_last
  rw [map_name_snapshots]
  exact h

/-- What accumulation makes of declarations. -/
structure Accumulates (declared : List (String × Draft)) : Prop where
  length : (snapshots {} declared).length = declared.length
  /-- The level of a declaration sums up all declarations up to it. -/
  sums : ∀ (place : Nat) (level : Level), (snapshots {} declared)[place]? = some level →
    declared[place]?.map Named.name = some level.name ∧
      level.tally.Sums (declared.take (place + 1))
  grows : (snapshots {} declared).Pairwise fun low high => high.tally.Extends low.tally
  names : (accumulate declared).names = (declared.map Named.name).eraseDups
  /-- Under each name there is the level of its last declaration. -/
  last : ∀ before name d after, declared = before ++ (name, d) :: after →
    name ∉ after.map Named.name →
      (accumulate declared).get? name = (snapshots {} declared)[before.length]?
  ordered : (declared.map Named.name).Nodup →
    (accumulate declared).entries.Pairwise fun low high => high.tally.Extends low.tally

/-- The level of a declaration is the sum of the declarations up to it. The table has one level
for each name, at the place of the first declaration and from the last one. -/
theorem accumulates (declared : List (String × Draft)) : Accumulates declared where
  length := by
    have hnames := congrArg List.length (map_name_snapshots {} declared)
    simpa using hnames
  sums := by
    intro place level h
    rw [getElem?_snapshots] at h
    obtain ⟨entry, hentry, rfl⟩ := Option.map_eq_some_iff.mp h
    rw [hentry]
    exact ⟨rfl, Tally.sums_addAll _⟩
  grows := pairwise_snapshots {} declared
  names := names_accumulate declared
  last := by
    rintro before name d after rfl h
    rw [get?_accumulate_last h, getElem?_snapshots, List.take_length_add_append]
    simp
  ordered := by
    intro h
    rw [accumulate, Table.entries_ofList_of_nodup]
    · exact pairwise_snapshots {} declared
    · rwa [map_name_snapshots]

/-- A name that is declared again keeps its place, before levels that have less. -/
example :
    (accumulate [("L0", { sizes := [8] }), ("L1", { sizes := [16, 8], addr := some 2 }),
        ("L0", { types := ["B"], addr := some 1 })]).entries =
      [⟨"L0", [8, 16], ["B"], 2⟩, ⟨"L1", [8, 16], [], 2⟩] := by
  decide +kernel

end InstructionSet.Level
