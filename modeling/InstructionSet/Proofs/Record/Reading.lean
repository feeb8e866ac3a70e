import InstructionSet.Proofs.Json.Value
import InstructionSet.Proofs.Outcome
import InstructionSet.Proofs.Record.Drafts

/-!
# Reading of records

A value is read as a record exactly if its keys are those of the schema and each of its values has
the form of its field. The settings of the record then tell the value apart: what is missing,
what is null, and what has a value.
-/

namespace InstructionSet

open Json (Value Reading)

/-! ## Values of a kind -/

namespace Json.Reading

theorem text_eq_ok_iff {v : Value} {s : String} : text v = .ok s ↔ v = .text s := by
  cases v <;> simp [text]

theorem flag_eq_ok_iff {v : Value} {b : Bool} : flag v = .ok b ↔ v = .bool b := by
  cases v <;> simp [flag]

theorem ofNat_toNat_eq_iff {i : Int} (h : 0 ≤ i ∧ i < UInt32.size) {n : UInt32} :
    UInt32.ofNat i.toNat = n ↔ i = n.toNat := by
  have hlt : i.toNat < UInt32.size := by omega
  constructor
  · intro hn
    rw [← hn, UInt32.toNat_ofNat_of_lt' hlt]
    omega
  · intro hi
    rw [hi, Int.toNat_natCast, UInt32.ofNat_toNat]

theorem uint32_eq_ok_iff {v : Value} {n : UInt32} :
    uint32 v = .ok n ↔ v = .number (.integer n.toNat) := by
  cases v with
  | number m =>
      cases m with
      | integer i =>
          rw [uint32, Value.number.injEq, Number.integer.injEq]
          split
          · rename_i h
            rw [Except.ok.injEq, ofNat_toNat_eq_iff h]
          · rename_i h
            have hn := n.toNat_lt
            have hsize : UInt32.size = 2 ^ 32 := rfl
            simp only [reduceCtorEq, false_iff]
            omega
      | real x => simp [uint32]
  | _ => simp [uint32]

theorem list_eq_ok_iff {α : Type} {item : Reading α} {v : Value} {xs : List α} :
    list item v = .ok xs ↔
      ∃ items, v = .array items ∧ List.Forall₂ (fun w x => item w = .ok x) items xs := by
  cases v with
  | array items => simp [list, mapM_eq_ok_iff]
  | _ => simp [list]

end Json.Reading

namespace Schema.Kind

variable {D : Type}

/-- Values of a kind are read where `record` reads records. -/
def reading (record : Reading D) : (k : Kind) → Reading (k.Data D)
  | text => Reading.text
  | flag => Reading.flag
  | uint32 => Reading.uint32
  | nested => record
  | list item => Reading.list (item.reading record)

/-- The value `v` has the form of a kind and stands for `x`. Which records values stand for is
told by `R`. -/
def Denotes (R : Value → D → Prop) : (k : Kind) → Value → k.Data D → Prop
  | text, v, s => v = .text s
  | flag, v, b => v = .bool b
  | uint32, v, n => v = .number (.integer (UInt32.toNat n))
  | nested, v, r => R v r
  | list item, v, xs => ∃ items, v = .array items ∧ List.Forall₂ (item.Denotes R) items xs

theorem reading_eq_ok_iff {record : Reading D} {k : Kind} {v : Value} {x : k.Data D} :
    k.reading record v = .ok x ↔ k.Denotes (fun w r => record w = .ok r) v x := by
  induction k generalizing v with
  | text => exact Reading.text_eq_ok_iff
  | flag => exact Reading.flag_eq_ok_iff
  | uint32 => exact Reading.uint32_eq_ok_iff
  | nested => rfl
  | list item ih =>
      have hitem : (fun w x => item.reading record w = .ok x) =
          item.Denotes fun w r => record w = .ok r := by
        funext w x
        exact propext ih
      refine Reading.list_eq_ok_iff.trans ?_
      rw [hitem]
      rfl

end Schema.Kind

/-! ## Settings -/

/-- What a setting tells of the value that a document has for its field, if it has one. Values
other than null have the form `R`. -/
structure Setting.Tells {α : Type} (R : Value → α → Prop) (found : Option Value)
    (setting : Setting α) : Prop where
  absent_iff : setting = .absent ↔ found = none
  cleared_iff : setting = .cleared ↔ found = some .null
  given_iff : ∀ x, setting = .given x ↔ ∃ v, found = some v ∧ v ≠ .null ∧ R v x

namespace Json.Reading

variable {α : Type} {reading : Reading α}

/-- The setting of a field from the value found for it. A field without a value stays as it is. -/
def settle (reading : Reading α) (start : Setting α) :
    Option Value → Except Json.Mismatch (Setting α)
  | none => .ok start
  | some v => reading.setting v

theorem setting_eq_ok_iff {v : Value} (hv : v ≠ .null) {setting : Setting α} :
    reading.setting v = .ok setting ↔ ∃ x, setting = .given x ∧ reading v = .ok x := by
  have hsetting : reading.setting v = (reading v).map .given := by
    cases v with
    | null => exact absurd rfl hv
    | _ => rfl
  rw [hsetting, map_eq_ok_iff]
  constructor
  · intro ⟨x, hx, h⟩
    exact ⟨x, h.symm, hx⟩
  · intro ⟨x, h, hx⟩
    exact ⟨x, hx, h.symm⟩

theorem settle_eq_ok_iff {found : Option Value} {setting : Setting α} :
    reading.settle .absent found = .ok setting ↔
      setting.Tells (fun v x => reading v = .ok x) found := by
  cases found with
  | none =>
      constructor
      · intro h
        obtain rfl := Except.ok.inj h
        exact ⟨by simp, by simp, by simp⟩
      · intro h
        rw [h.absent_iff.mpr rfl]
        rfl
  | some v =>
      by_cases hv : v = .null
      · subst v
        constructor
        · intro h
          obtain rfl := Except.ok.inj h
          exact ⟨by simp, by simp, by simp⟩
        · intro h
          rw [h.cleared_iff.mpr rfl]
          rfl
      · rw [settle, setting_eq_ok_iff hv]
        constructor
        · intro ⟨x, hsetting, hx⟩
          subst setting
          refine ⟨by simp, by simp [hv], ?_⟩
          intro y
          simp [hv, hx]
        · intro h
          cases setting with
          | absent => simpa using h.absent_iff
          | cleared => simpa [hv] using h.cleared_iff
          | given x => simpa [hv] using h.given_iff x

theorem exists_settle_iff {found : Option Value} :
    (∃ setting, reading.settle .absent found = .ok setting) ↔
      ∀ v, found = some v → v = .null ∨ ∃ x, reading v = .ok x := by
  cases found with
  | none => simp [settle]
  | some v =>
      by_cases hv : v = .null
      · subst v
        simp [settle, setting]
      · simp only [settle, setting_eq_ok_iff hv, Option.some.injEq, forall_eq', hv, false_or]
        constructor
        · intro ⟨_, x, _, hx⟩
          exact ⟨x, hx⟩
        · intro ⟨x, hx⟩
          exact ⟨_, x, rfl, hx⟩

end Json.Reading

/-! ## Members one after the other -/

/-- Keys that are paired with items, as far as there are any, have them by place. -/
theorem Entries.get?_zip_map {F α : Type} [DecidableEq F] {key : F → String}
    (hkey : key.Injective) {fields : List F} {f : F} (hf : f ∈ fields) (items : List α) :
    get? (key f) ((fields.map key).zip items) = items[fields.idxOf f]? := by
  induction fields generalizing items with
  | nil => cases hf
  | cons g fields ih =>
      cases items with
      | nil => rfl
      | cons item items =>
          rw [List.map_cons, List.zip_cons_cons, get?_cons]
          by_cases hg : g = f
          · simp [hg]
          · have hfields : f ∈ fields := (List.mem_cons.mp hf).resolve_left (Ne.symm hg)
            rw [if_neg fun h => hg (hkey h), ih hfields, List.idxOf_cons_ne _ hg,
              List.getElem?_cons_succ]

namespace Schema

variable {D : Type} {S : Schema D} {record : Reading D} {put : D → String → Reading D}

/-- Putting a value into a record sets the field of the key, and fails if there is none. -/
structure Puts (S : Schema D) (record : Reading D) (put : D → String → Reading D) : Prop where
  known : ∀ r f v, put r (S.key f) v =
    (Reading.setting ((S.kind f).reading record) v).map (S.set r f)
  unknown : ∀ r key v, key ∉ S.keys → ∃ e, put r key v = .error e

/-- To settle the fields from members is to set the field of the first member, and then to settle
them from the rest. -/
theorem settled_cons_iff {f : S.Field} {v : Value} {rest : List (String × Value)}
    (hrest : Entries.get? (S.key f) rest = none) {start r : D} :
    (∀ g, ((S.kind g).reading record).settle (S.get start g)
        (Entries.get? (S.key g) ((S.key f, v) :: rest)) = .ok (S.get r g)) ↔
      ∃ setting, ((S.kind f).reading record).setting v = .ok setting ∧
        ∀ g, ((S.kind g).reading record).settle (S.get (S.set start f setting) g)
          (Entries.get? (S.key g) rest) = .ok (S.get r g) := by
  have hother {g : S.Field} (hg : g ≠ f) :
      Entries.get? (S.key g) ((S.key f, v) :: rest) = Entries.get? (S.key g) rest := by
    rw [Entries.get?_cons, if_neg fun h => hg (key_injective h.symm)]
  have hself : Entries.get? (S.key f) ((S.key f, v) :: rest) = some v := by
    rw [Entries.get?_cons, if_pos rfl]
  constructor
  · intro h
    have hsetting := h f
    rw [hself] at hsetting
    refine ⟨S.get r f, hsetting, ?_⟩
    intro g
    by_cases hg : g = f
    · subst g
      rw [hrest, get_set_self]
      rfl
    · rw [get_set_of_ne hg, ← hother hg]
      exact h g
  · intro ⟨setting, hsetting, h⟩ g
    have hsettled := h g
    by_cases hg : g = f
    · subst g
      rw [hrest, get_set_self] at hsettled
      rw [hself, ← hsettled]
      exact hsetting
    · rw [get_set_of_ne hg] at hsettled
      rw [hother hg, hsettled]

theorem Puts.foldlM_eq_ok_iff (h : S.Puts record put) {members : List (String × Value)}
    (hnodup : (members.map Prod.fst).Nodup) {start r : D} :
    members.foldlM (fun r member => put r member.1 member.2) start = .ok r ↔
      (∀ member ∈ members, member.1 ∈ S.keys) ∧
        ∀ f, ((S.kind f).reading record).settle (S.get start f)
          (Entries.get? (S.key f) members) = .ok (S.get r f) := by
  induction members generalizing start with
  | nil =>
      rw [List.foldlM_nil]
      constructor
      · intro hr
        obtain rfl := Except.ok.inj hr
        exact ⟨by simp, fun f => rfl⟩
      · intro hr
        exact congrArg Except.ok (ext fun f => Except.ok.inj (hr.2 f))
  | cons member rest ih =>
      obtain ⟨key, v⟩ := member
      rw [List.map_cons, List.nodup_cons] at hnodup
      rw [List.foldlM_cons, bind_eq_ok_iff, List.forall_mem_cons]
      simp only [ih hnodup.2]
      by_cases hkey : key ∈ S.keys
      · obtain ⟨f, rfl⟩ := mem_keys_iff.mp hkey
        rw [settled_cons_iff (Entries.get?_eq_none_iff.mpr hnodup.1), h.known]
        constructor
        · intro ⟨between, hput, hknown, hsettled⟩
          obtain ⟨setting, hsetting, rfl⟩ := map_eq_ok_iff.mp hput
          exact ⟨⟨hkey, hknown⟩, setting, hsetting, hsettled⟩
        · intro ⟨⟨_, hknown⟩, setting, hsetting, hsettled⟩
          exact ⟨_, map_eq_ok_iff.mpr ⟨setting, hsetting, rfl⟩, hknown, hsettled⟩
      · obtain ⟨e, he⟩ := h.unknown start key v hkey
        simp [he, hkey]

/-! ## Whole records -/

/-- A value that a record may be given as: an object of known keys, or an array of the values of
its first fields. -/
def Shaped (S : Schema D) : Value → Prop
  | .object members => ∀ member ∈ members, member.1 ∈ S.keys
  | .array items => items.length ≤ S.fields.length
  | _ => False

/-- The value found for a field: under its key in an object, at its place in an array. -/
def found? (S : Schema D) (f : S.Field) : Value → Option Value
  | .object members => Entries.get? (S.key f) members
  | .array items => items[S.fields.idxOf f]?
  | _ => none

/-- Each setting of the record tells of the value found for its field. -/
def Told (S : Schema D) (R : Value → D → Prop) (v : Value) (r : D) : Prop :=
  ∀ f, (S.get r f).Tells ((S.kind f).Denotes R) (S.found? f v)

theorem settle_eq_ok_iff_tells {f : S.Field} {found : Option Value}
    {setting : Setting (S.Data f)} :
    ((S.kind f).reading record).settle .absent found = .ok setting ↔
      setting.Tells ((S.kind f).Denotes fun w r => record w = .ok r) found := by
  have hkind : (fun v x => (S.kind f).reading record v = .ok x) =
      (S.kind f).Denotes fun w r => record w = .ok r := by
    funext v x
    exact propext Kind.reading_eq_ok_iff
  rw [Reading.settle_eq_ok_iff, hkind]

theorem nodup_zip_keys (S : Schema D) (items : List Value) :
    ((S.keys.zip items).map Prod.fst).Nodup := by
  rw [List.zip_eq_zip_take_min, List.map_fst_zip (by simp)]
  exact S.nodup_keys.sublist (List.take_sublist _ _)

theorem Puts.record_eq_ok_iff (h : S.Puts record put) {expected : String} {blank : D}
    (hblank : S.Blank blank) {v : Value} (hv : v.keyed) {r : D} :
    Reading.record expected S.keys blank put v = .ok r ↔
      S.Shaped v ∧ S.Told (fun w r => record w = .ok r) v r := by
  cases v with
  | object members =>
      have hmembers := Value.keyed_object.mp hv
      refine (h.foldlM_eq_ok_iff hmembers.1).trans ?_
      simp only [hblank _, settle_eq_ok_iff_tells]
      rfl
  | array items =>
      rw [Reading.record, bind_eq_ok_iff]
      have hfound (f : S.Field) : Entries.get? (S.key f) (S.keys.zip items) =
          S.found? f (.array items) :=
        Entries.get?_zip_map key_injective (S.mem_fields f) items
      have hlength : S.keys.length = S.fields.length := List.length_map _
      simp only [h.foldlM_eq_ok_iff (S.nodup_zip_keys items), hblank _, settle_eq_ok_iff_tells,
        hfound, hlength]
      constructor
      · intro ⟨last, ⟨_, htold⟩, hok⟩
        split at hok
        · cases hok
        · rename_i hshaped
          obtain rfl := Except.ok.inj hok
          exact ⟨Nat.le_of_not_lt hshaped, htold⟩
      · intro ⟨hshaped, htold⟩
        refine ⟨r, ⟨fun member hmember => ?_, htold⟩, if_neg (Nat.not_lt.mpr hshaped)⟩
        exact (List.of_mem_zip hmember).1
  | _ => simp [Reading.record, Shaped]

/-! ## Exactness -/

/-- A value is read as a record exactly if it is shaped like one and each value found in it is null
or has the form of its field. The record then tells what was found. An array is read like the
object of the first keys and its items. -/
structure ReadsExactly (S : Schema D) (reading : Reading D) (v : Value) : Prop where
  accepted : (∃ r, reading v = .ok r) ↔
    S.Shaped v ∧ ∀ f found, S.found? f v = some found →
      found = .null ∨ ∃ x, (S.kind f).Denotes (fun w r => reading w = .ok r) found x
  told : ∀ r, reading v = .ok r → S.Told (fun w r => reading w = .ok r) v r
  array : ∀ items, v = .array items → items.length ≤ S.fields.length →
    reading v = reading (.object (S.keys.zip items))

theorem Puts.readsExactly {reading : Reading D} {expected : String} {blank : D}
    (h : S.Puts reading put) (hblank : S.Blank blank)
    (hreading : reading = Reading.record expected S.keys blank put) {v : Value} (hv : v.keyed) :
    S.ReadsExactly reading v where
  accepted := by
    have hok (r : D) : reading v = .ok r ↔ S.Shaped v ∧
        S.Told (fun w r => reading w = .ok r) v r := by
      conv_lhs => rw [hreading]
      exact h.record_eq_ok_iff hblank hv
    simp only [hok, exists_and_left, and_congr_right_iff]
    intro _
    simp only [← Kind.reading_eq_ok_iff, ← Reading.exists_settle_iff, settle_eq_ok_iff_tells]
    constructor
    · intro ⟨r, htold⟩ f
      exact ⟨S.get r f, htold f⟩
    · exact exists_get
  told := by
    intro r hr
    rw [hreading] at hr
    exact ((h.record_eq_ok_iff hblank hv).mp hr).2
  array := by
    intro items hitems hlength
    subst v
    have hkeys : ¬S.keys.length < items.length := by
      rw [keys, List.length_map]
      exact Nat.not_lt.mpr hlength
    rw [hreading, Reading.record, Reading.record]
    simp only [if_neg hkeys]
    exact bind_pure _

end Schema

end InstructionSet
