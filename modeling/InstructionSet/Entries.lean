/-!
# Lists of named entries

A list whose entries have names works as a map that remembers the order of declaration: a name
is looked up at its first place, and an entry put under a name already there takes that place.
-/

namespace InstructionSet

class Named (α : Type) where
  name : α → String

/-- A pair is named by its first component. -/
instance {β : Type} : Named (String × β) := ⟨Prod.fst⟩

@[simp] theorem Named.name_pair {β : Type} (pair : String × β) : Named.name pair = pair.1 := rfl

namespace Entries

variable {α : Type} [Named α]

def find? (name : String) : List α → Option α
  | [] => none
  | entry :: rest => if Named.name entry = name then some entry else find? name rest

/-- Puts `entry` in the place of the first entry of its name, or at the end. -/
def put (entry : α) : List α → List α
  | [] => [entry]
  | old :: rest =>
      if Named.name old = Named.name entry then entry :: rest else old :: put entry rest

/-- Puts the entries one after the other. -/
def putAll (entries : List α) (start : List α) : List α :=
  entries.foldl (fun list entry => put entry list) start

/-- The value paired with `key`. -/
def get? {β : Type} (key : String) (members : List (String × β)) : Option β :=
  (find? key members).map Prod.snd

@[simp] theorem get?_nil {β : Type} (key : String) :
    get? key ([] : List (String × β)) = none := rfl

theorem get?_cons {β : Type} (key : String) (pair : String × β) (rest : List (String × β)) :
    get? key (pair :: rest) = if pair.1 = key then some pair.2 else get? key rest := by
  by_cases h : pair.1 = key <;> simp [get?, find?, h]

theorem get?_append {β : Type} (key : String) (first rest : List (String × β)) :
    get? key (first ++ rest) = (get? key first).or (get? key rest) := by
  induction first with
  | nil => rfl
  | cons pair first ih =>
      rw [List.cons_append, get?_cons, get?_cons, ih]
      split <;> rfl

@[simp] theorem putAll_nil (start : List α) : putAll [] start = start := rfl

@[simp] theorem putAll_cons (entry : α) (rest start : List α) :
    putAll (entry :: rest) start = putAll rest (put entry start) := rfl

theorem putAll_append (first rest start : List α) :
    putAll (first ++ rest) start = putAll rest (putAll first start) :=
  List.foldl_append

theorem find?_isSome_iff (name : String) (list : List α) :
    (find? name list).isSome ↔ name ∈ list.map Named.name := by
  induction list with
  | nil => simp [find?]
  | cons old rest ih =>
      by_cases h : Named.name old = name
      · simp [find?, h]
      · simp [find?, h, Ne.symm h, ih]

theorem name_of_find? {name : String} {list : List α} {entry : α}
    (h : find? name list = some entry) : Named.name entry = name := by
  induction list with
  | nil => simp [find?] at h
  | cons old rest ih =>
      by_cases hn : Named.name old = name
      · simp only [find?, hn, if_true, Option.some.injEq] at h
        exact h ▸ hn
      · simp only [find?, hn, if_false] at h
        exact ih h

theorem get?_eq_none_iff {β : Type} {key : String} {members : List (String × β)} :
    get? key members = none ↔ key ∉ members.map Prod.fst := by
  rw [get?, Option.map_eq_none_iff, ← Option.not_isSome_iff_eq_none, find?_isSome_iff]
  rfl

/-- The place of the first entry called `name`. -/
def place? (name : String) (list : List α) : Option Nat :=
  (list.map Named.name).findIdx? fun other => decide (other = name)

theorem place?_cons (name : String) (old : α) (rest : List α) :
    place? name (old :: rest) =
      if Named.name old = name then some 0 else (place? name rest).map (· + 1) := by
  simp [place?, List.findIdx?_cons]

theorem place?_eq_none_iff {name : String} {list : List α} :
    place? name list = none ↔ name ∉ list.map Named.name := by
  unfold place?
  rw [List.findIdx?_eq_none_iff]
  constructor
  · intro h hmem
    simpa using h name hmem
  · intro h other hother
    have hne : other ≠ name := fun e => h (e ▸ hother)
    simpa using hne

theorem getElem?_of_place? {name : String} {list : List α} {place : Nat}
    (h : place? name list = some place) : (list.map Named.name)[place]? = some name := by
  obtain ⟨hlt, heq, _⟩ := List.findIdx?_eq_some_iff_getElem.mp h
  rw [List.getElem?_eq_getElem hlt]
  simpa using heq

/-- An index that pairs every name with its place gives the place of a name. -/
theorem get?_zipIdx (name : String) (list : List α) (start : Nat) :
    get? name ((list.map Named.name).zipIdx start) = (place? name list).map (start + ·) := by
  induction list generalizing start with
  | nil => rfl
  | cons old rest ih =>
      rw [place?_cons, List.map_cons, List.zipIdx_cons, get?_cons, ih]
      by_cases h : Named.name old = name
      · simp [h]
      · simp only [h, if_false, Option.map_map]
        congr 1
        funext place
        simp only [Function.comp_apply]
        omega

theorem find?_eq_bind_place? (name : String) (list : List α) :
    find? name list = (place? name list).bind (list[·]?) := by
  induction list with
  | nil => rfl
  | cons old rest ih =>
      rw [place?_cons]
      by_cases h : Named.name old = name
      · simp [find?, h]
      · simp only [find?, h, if_false, ih, Option.bind_map]
        rfl

/-- Putting an entry overwrites the place of its name, or opens a new place. -/
theorem put_eq_match_place? (entry : α) (list : List α) :
    put entry list =
      match place? (Named.name entry) list with
      | some place => list.set place entry
      | none => list ++ [entry] := by
  induction list with
  | nil => rfl
  | cons old rest ih =>
      rw [place?_cons]
      by_cases h : Named.name old = Named.name entry
      · simp [put, h]
      · simp only [put, h, if_false, ih]
        cases place? (Named.name entry) rest <;> rfl

/-- The entry put last under a name is the one found. -/
theorem find?_put (name : String) (entry : α) (list : List α) :
    find? name (put entry list) =
      if Named.name entry = name then some entry else find? name list := by
  induction list with
  | nil => simp [put, find?]
  | cons old rest ih =>
      by_cases h : Named.name old = Named.name entry
      · by_cases hn : Named.name entry = name <;> simp [put, find?, h, hn]
      · by_cases hn : Named.name entry = name
        · have ho : Named.name old ≠ name := fun e => h (e.trans hn.symm)
          simp [put, find?, ih, hn, ho]
        · simp [put, find?, h, ih, hn]

/-- A name keeps its place, and a new one comes last. -/
theorem map_name_put (entry : α) (list : List α) :
    (put entry list).map Named.name =
      if Named.name entry ∈ list.map Named.name then list.map Named.name
      else list.map Named.name ++ [Named.name entry] := by
  induction list with
  | nil => simp [put]
  | cons old rest ih =>
      by_cases h : Named.name old = Named.name entry
      · simp [put, h]
      · have h' : ¬Named.name entry = Named.name old := fun e => h e.symm
        simp only [put, h, if_false, List.map_cons, ih, List.mem_cons, h', false_or]
        split <;> simp

theorem mem_of_mem_put {entry other : α} {list : List α} (h : other ∈ put entry list) :
    other = entry ∨ other ∈ list := by
  induction list with
  | nil => exact .inl (List.mem_singleton.mp h)
  | cons old rest ih =>
      rw [put] at h
      split at h
      · exact (List.mem_cons.mp h).imp_right (List.mem_cons_of_mem old)
      · rcases List.mem_cons.mp h with rfl | hrest
        · exact .inr List.mem_cons_self
        · exact (ih hrest).imp_right (List.mem_cons_of_mem old)

theorem mem_of_mem_putAll {entries start : List α} {entry : α}
    (h : entry ∈ putAll entries start) : entry ∈ entries ∨ entry ∈ start := by
  induction entries generalizing start with
  | nil => exact .inr h
  | cons first rest ih =>
      rcases ih h with hrest | hput
      · exact .inl (List.mem_cons_of_mem first hrest)
      · rcases mem_of_mem_put hput with rfl | hstart
        · exact .inl List.mem_cons_self
        · exact .inr hstart

theorem nodup_map_name_put (entry : α) {list : List α} (h : (list.map Named.name).Nodup) :
    ((put entry list).map Named.name).Nodup := by
  rw [map_name_put]
  split
  · exact h
  · rename_i hnew
    refine List.nodup_append.mpr ⟨h, by simp, ?_⟩
    intro name hname other hother e
    have hentry : other = Named.name entry := by simpa using hother
    exact hnew (hentry ▸ e ▸ hname)

end Entries

end InstructionSet
