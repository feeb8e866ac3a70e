import InstructionSet.Entries
import InstructionSet.Proofs.Unique

/-!
# Entries put one after the other

What is left is settled by the sequence alone: every name has the place where it was first seen
and the entry that came last.
-/

namespace InstructionSet.Entries

variable {α β : Type} [Named α] [Named β]

/-- The last entry of each name, in the order in which the names were first seen. -/
def settled (list : List α) : List α :=
  (list.map Named.name).eraseDups.filterMap fun name =>
    list.reverse.find? fun entry => Named.name entry = name

theorem find?_eq_none_iff {name : String} {list : List α} :
    find? name list = none ↔ name ∉ list.map Named.name := by
  rw [← Option.not_isSome_iff_eq_none, find?_isSome_iff]

/-- Entries of the same names at the same places are equal if each name is found alike. -/
theorem eq_of_find?_eq {xs ys : List α} (hnames : xs.map Named.name = ys.map Named.name)
    (hnodup : (xs.map Named.name).Nodup) (hfind : ∀ name, find? name xs = find? name ys) :
    xs = ys := by
  induction xs generalizing ys with
  | nil => simpa using hnames.symm
  | cons x xs ih =>
      cases ys with
      | nil => simp at hnames
      | cons y ys =>
          rw [List.map_cons, List.map_cons, List.cons.injEq] at hnames
          rw [List.map_cons, List.nodup_cons] at hnodup
          obtain rfl : x = y := by
            have hhead := hfind (Named.name x)
            simpa [find?, hnames.1] using hhead
          rw [ih hnames.2 hnodup.2 fun name => ?_]
          by_cases hname : Named.name x = name
          · have hxs : name ∉ xs.map Named.name := hname ▸ hnodup.1
            have hys : name ∉ ys.map Named.name := hnames.2 ▸ hxs
            rw [find?_eq_none_iff.mpr hxs, find?_eq_none_iff.mpr hys]
          · have htail := hfind name
            simpa [find?, hname] using htail

/-- Under a name that occurs once there is the one entry of this name. -/
theorem find?_eq_some_iff {list : List α} (h : (list.map Named.name).Nodup) {name : String}
    {entry : α} : find? name list = some entry ↔ entry ∈ list ∧ Named.name entry = name := by
  induction list with
  | nil => simp [find?]
  | cons old rest ih =>
      rw [List.map_cons, List.nodup_cons] at h
      rw [find?, List.mem_cons]
      split
      · rename_i hold
        rw [Option.some.injEq]
        constructor
        · rintro rfl
          exact ⟨.inl rfl, hold⟩
        · rintro ⟨rfl | hmem, hname⟩
          · rfl
          · exact absurd (hold.trans hname.symm ▸ List.mem_map_of_mem hmem) h.1
      · rename_i hold
        rw [ih h.2]
        constructor
        · exact And.imp_left .inr
        · rintro ⟨rfl | hmem, hname⟩
          · exact absurd hname hold
          · exact ⟨hmem, hname⟩

/-- The order of entries has no influence on what is found. -/
theorem find?_eq_of_perm {xs ys : List α} (hnodup : (xs.map Named.name).Nodup) (h : xs.Perm ys)
    (name : String) : find? name ys = find? name xs := by
  refine Option.ext fun entry => ?_
  rw [find?_eq_some_iff hnodup, find?_eq_some_iff ((h.map Named.name).nodup_iff.mp hnodup),
    h.mem_iff]

theorem find?_eq_map_get? {γ : Type} (key : String) (members : List (String × γ)) :
    find? key members = (get? key members).map fun value => (key, value) := by
  cases h : find? key members with
  | none => simp [get?, h]
  | some member =>
      obtain rfl : member.1 = key := name_of_find? h
      simp [get?, h]

/-- Members of the same keys at the same places are equal if they give each key one value. -/
theorem eq_of_get?_eq {γ : Type} {xs ys : List (String × γ)}
    (hkeys : xs.map Prod.fst = ys.map Prod.fst) (hnodup : (xs.map Prod.fst).Nodup)
    (hget : ∀ key, get? key xs = get? key ys) : xs = ys :=
  eq_of_find?_eq hkeys hnodup fun key => by
    rw [find?_eq_map_get?, find?_eq_map_get?, hget]

theorem mem_of_get? {γ : Type} {key : String} {members : List (String × γ)} {value : γ}
    (h : get? key members = some value) : (key, value) ∈ members := by
  induction members with
  | nil => cases h
  | cons member rest ih =>
      rw [get?_cons] at h
      split at h
      · rename_i hkey
        rw [← hkey, ← Option.some.inj h]
        exact List.mem_cons_self
      · exact List.mem_cons_of_mem _ (ih h)

theorem get?_of_mem {γ : Type} {key : String} {members : List (String × γ)} {value : γ}
    (hnodup : (members.map Prod.fst).Nodup) (h : (key, value) ∈ members) :
    get? key members = some value :=
  Option.map_eq_some_iff.mpr ⟨(key, value), (find?_eq_some_iff hnodup).mpr ⟨h, rfl⟩, rfl⟩

theorem get?_mapKeys {γ δ : Type} {f : String → String} (hf : f.Injective) (g : γ → δ)
    (key : String) (members : List (String × γ)) :
    get? (f key) (members.map fun member => (f member.1, g member.2)) =
      (get? key members).map g := by
  induction members with
  | nil => rfl
  | cons member rest ih =>
      rw [List.map_cons, get?_cons, get?_cons, ih]
      simp only [hf.eq_iff]
      split <;> rfl

theorem get?_map {γ δ : Type} (key : String) (f : γ → δ) (members : List (String × γ)) :
    get? key (members.map fun member => (member.1, f member.2)) = (get? key members).map f :=
  get?_mapKeys Function.injective_id f key members

theorem get?_put {γ : Type} (key : String) (member : String × γ) (members : List (String × γ)) :
    get? key (put member members) =
      if member.1 = key then some member.2 else get? key members := by
  rw [get?, find?_put, apply_ite (Option.map Prod.snd)]
  rfl

/-- What is put last is found first. -/
theorem get?_putAll {γ : Type} {list start : List (String × γ)} {key : String}
    (h : (list.map Prod.fst).Nodup) :
    get? key (putAll list start) = (get? key list).or (get? key start) := by
  induction list generalizing start with
  | nil => rfl
  | cons member rest ih =>
      rw [List.map_cons, List.nodup_cons] at h
      rw [putAll_cons, ih h.2, get?_cons, get?_put]
      by_cases hkey : member.1 = key
      · have hrest : get? key rest = none := get?_eq_none_iff.mpr (hkey ▸ h.1)
        simp [hkey, hrest]
      · simp [hkey]

theorem putAll_append_singleton (list start : List α) (entry : α) :
    putAll (list ++ [entry]) start = put entry (putAll list start) :=
  putAll_append list [entry] start

theorem nodup_map_name_putAll (list : List α) {start : List α}
    (h : (start.map Named.name).Nodup) : ((putAll list start).map Named.name).Nodup := by
  induction list generalizing start with
  | nil => exact h
  | cons entry rest ih => exact ih (nodup_map_name_put entry h)

theorem map_name_putAll (list : List α) :
    (putAll list []).map Named.name = (list.map Named.name).eraseDups := by
  induction list using List.reverseRecOn with
  | nil => rfl
  | append_singleton list entry ih =>
      rw [putAll_append_singleton, map_name_put, ih, List.map_append, List.map_singleton,
        eraseDups_append_singleton]
      simp only [List.mem_eraseDups]

theorem find?_putAll (name : String) (list : List α) :
    find? name (putAll list []) = list.reverse.find? fun entry => Named.name entry = name := by
  induction list using List.reverseRecOn with
  | nil => rfl
  | append_singleton list entry ih =>
      rw [putAll_append_singleton, find?_put, ih, List.reverse_append]
      by_cases h : Named.name entry = name <;> simp [h]

section

variable {f : String → Option α}
  (hf : ∀ {name entry}, f name = some entry → Named.name entry = name)

include hf

theorem map_name_filterMap {names : List String} (h : ∀ name ∈ names, (f name).isSome) :
    (names.filterMap f).map Named.name = names := by
  induction names with
  | nil => rfl
  | cons name names ih =>
      rw [List.forall_mem_cons] at h
      obtain ⟨entry, hentry⟩ := Option.isSome_iff_exists.mp h.1
      rw [List.filterMap_cons_some hentry, List.map_cons, hf hentry, ih h.2]

theorem find?_filterMap {name : String} {names : List String}
    (h : (f name).isSome → name ∈ names) : find? name (names.filterMap f) = f name := by
  induction names with
  | nil =>
      have hnone : f name = none := by simpa using h
      rw [hnone]
      rfl
  | cons other names ih =>
      cases hother : f other with
      | none =>
          rw [List.filterMap_cons_none hother]
          refine ih fun hname => (List.mem_cons.mp (h hname)).resolve_left fun e => ?_
          rw [e, hother] at hname
          simp at hname
      | some entry =>
          rw [List.filterMap_cons_some hother, find?, hf hother]
          by_cases e : other = name
          · rw [if_pos e, ← e, hother]
          · rw [if_neg e]
            exact ih fun hname => (List.mem_cons.mp (h hname)).resolve_left (Ne.symm e)

end

theorem isSome_last_iff {name : String} {list : List α} :
    (list.reverse.find? fun entry => Named.name entry = name).isSome ↔
      name ∈ (list.map Named.name).eraseDups := by
  simp

theorem name_of_last {name : String} {list : List α} {entry : α}
    (h : (list.reverse.find? fun entry => Named.name entry = name) = some entry) :
    Named.name entry = name := by
  simpa using List.find?_some h

theorem map_name_settled (list : List α) :
    (settled list).map Named.name = (list.map Named.name).eraseDups :=
  map_name_filterMap name_of_last fun _ h => isSome_last_iff.mpr h

theorem find?_settled (name : String) (list : List α) :
    find? name (settled list) = list.reverse.find? fun entry => Named.name entry = name :=
  find?_filterMap name_of_last isSome_last_iff.mp

/-- Putting entries one after the other settles them. -/
theorem putAll_eq_settled (list : List α) : putAll list [] = settled list :=
  eq_of_find?_eq ((map_name_putAll list).trans (map_name_settled list).symm)
    (nodup_map_name_putAll list List.nodup_nil)
    fun name => (find?_putAll name list).trans (find?_settled name list).symm

/-- Entries of new names are put behind those that are there. -/
theorem putAll_eq_append {list start : List α} (h : ((start ++ list).map Named.name).Nodup) :
    putAll list start = start ++ list := by
  induction list using List.reverseRecOn with
  | nil => rw [putAll_nil, List.append_nil]
  | append_singleton list entry ih =>
      rw [← List.append_assoc, List.map_append, List.nodup_append] at h
      have hnew : place? (Named.name entry) (start ++ list) = none :=
        place?_eq_none_iff.mpr fun hmem => h.2.2 _ hmem _ (by simp) rfl
      rw [putAll_append_singleton, ih h.1, put_eq_match_place?, hnew, List.append_assoc]

/-- Entries of names that are all different are settled already. -/
theorem settled_of_nodup {list : List α} (h : (list.map Named.name).Nodup) :
    settled list = list :=
  (putAll_eq_settled list).symm.trans (putAll_eq_append h)

theorem nodup_map_name_settled (list : List α) : ((settled list).map Named.name).Nodup :=
  putAll_eq_settled list ▸ nodup_map_name_putAll list List.nodup_nil

section

variable {f : α → β} (hf : ∀ entry, Named.name (f entry) = Named.name entry)

include hf

theorem put_map (entry : α) (list : List α) :
    put (f entry) (list.map f) = (put entry list).map f := by
  induction list with
  | nil => rfl
  | cons old rest ih =>
      rw [List.map_cons, put, put, hf, hf, ih]
      split <;> rfl

/-- Entries can be settled before or after they are changed into others of the same names. -/
theorem settled_map (list : List α) : settled (list.map f) = (settled list).map f := by
  rw [← putAll_eq_settled, ← putAll_eq_settled]
  induction list using List.reverseRecOn with
  | nil => rfl
  | append_singleton list entry ih =>
      rw [List.map_append, List.map_singleton, putAll_append_singleton, putAll_append_singleton,
        ih, put_map hf]

end

theorem mem_of_mem_settled {entry : α} {list : List α} (h : entry ∈ settled list) :
    entry ∈ list := by
  rw [← putAll_eq_settled] at h
  exact (mem_of_mem_putAll h).resolve_right List.not_mem_nil

/-- Members of other keys can be left out. -/
theorem get?_filter {γ : Type} {p : String → Bool} {key : String} (hp : p key)
    (members : List (String × γ)) :
    get? key (members.filter fun member => p member.1) = get? key members := by
  induction members with
  | nil => rfl
  | cons member rest ih =>
      rw [List.filter_cons, get?_cons]
      by_cases hkey : member.1 = key
      · rw [hkey, if_pos hp, get?_cons, if_pos hkey, if_pos rfl]
      · rw [if_neg hkey, ← ih]
        split
        · rw [get?_cons, if_neg hkey]
        · rfl

end InstructionSet.Entries
