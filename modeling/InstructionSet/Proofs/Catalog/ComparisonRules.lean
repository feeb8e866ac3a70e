import InstructionSet.Proofs.Catalog.Comparison
import InstructionSet.Proofs.Catalog.Rules
import InstructionSet.Proofs.Unique

/-!
# Rules of a comparison

The checks of a comparison are a list of rules as well, with one for each size and each type that
the draft lists. Repetitions are dropped before a check looks for an offender. It still blames the
first offender of the list as it is written.
-/

namespace InstructionSet

namespace Rule

/-- The breach of the first broken rule. -/
theorem findSome?_breach?_eq_some_iff {rules : List Rule} {breach : Breach} :
    rules.findSome? breach? = some breach ↔
      ∃ before rule after, rules = before ++ rule :: after ∧ (∀ earlier ∈ before, earlier.kept) ∧
        rule.kept = false ∧ rule.breach = breach := by
  rw [List.findSome?_eq_some_iff]
  simp only [breach?_eq_some_iff, breach?_eq_none_iff]
  constructor
  · rintro ⟨before, rule, after, hrules, hrule, hbefore⟩
    exact ⟨before, rule, after, hrules, hbefore, hrule⟩
  · rintro ⟨before, rule, after, hrules, hbefore, hrule⟩
    exact ⟨before, rule, after, hrules, hrule, hbefore⟩

/-- One rule for each element is broken first where an element does not keep it first. -/
theorem findSome?_breach?_map {α : Type} (category : Category) (breach : α → Breach)
    (kept : α → Bool) (xs : List α) :
    (xs.map fun x => (⟨category, breach x, kept x⟩ : Rule)).findSome? breach? =
      (xs.find? fun x => !kept x).map breach := by
  induction xs with
  | nil => rfl
  | cons x xs ih =>
      rw [List.map_cons, findSome?_cons_eq_or, ih, List.find?_cons]
      cases kept x <;> simp [Rule.breach?]

end Rule

/-- What is said of a comparison that breaks a rule. -/
theorem Breach.message_error_comparison (breach : Breach) (id : String) :
    (breach.error (.comparison id)).message =
      s!"{breach.category.heading}: comparison '{id}' " ++
        s!"[comparison.{breach.rule}]: {breach.message}" := by
  have hmessage : (breach.error (.comparison id)).message =
      breach.category.heading ++ ": " ++ ("comparison '" ++ id ++ "'" ++ " [" ++
        ("comparison" ++ "." ++ breach.rule) ++ "]: " ++ breach.message) := rfl
  -- the pieces of the two texts end at different characters
  have hsubject : ": comparison '" = ": " ++ "comparison '" := by decide
  have hquote : "' " = "'" ++ " " := by decide
  have hbracket : " [" = " " ++ "[" := by decide
  have hscope : "[comparison." = "[" ++ "comparison" ++ "." := by decide
  rw [hmessage, hsubject, hquote, hbracket, hscope]
  simp only [toString, String.append_assoc]

namespace Level

/-- The level called `name` has the size. -/
def hasSizeIn (levels : Table Level) (name : String) (size : UInt32) : Bool :=
  (levels.get? name).any fun level => size ∈ level.sizes

/-- The level called `name` has the type. -/
def hasTypeIn (levels : Table Level) (name type : String) : Bool :=
  (levels.get? name).any fun level => type ∈ level.types

end Level

namespace Comparison.Draft

/-- A level is named, and the name is known. -/
def levelRules (levels : Table Level) (name : String) : List Rule :=
  [⟨.referential, .levelMissing, name ≠ ""⟩,
    ⟨.referential, .levelUnknown name, name ∈ levels.names⟩]

/-- There are sizes, and the level called `name` has them all. -/
def sizeRules (levels : Table Level) (name : String) (sizes : List UInt32) : List Rule :=
  ⟨.subset, .sizesMissing, sizes ≠ []⟩ ::
    sizes.map fun size => ⟨.subset, .sizeUnsupported size name, Level.hasSizeIn levels name size⟩

def typeRules (levels : Table Level) (name : String) (types : List String) : List Rule :=
  types.map fun type => ⟨.subset, .typeUnsupported type name, Level.hasTypeIn levels name type⟩

/-- The rules of a comparison in the order in which they are checked. -/
def rules (c : Catalog) (d : Draft) : List Rule :=
  let level := d.level.getD ""
  levelRules c.levels level ++ Operand.sideRules c.operands .a (d.opA.getD "") ++
    Operand.sideRules c.operands .b (d.opB.getD "") ++
    sizeRules c.levels level (d.sizes.getD []) ++ typeRules c.levels level (d.types.getD [])

theorem category_of_mem_rules {c : Catalog} {d : Draft} {rule : Rule} (h : rule ∈ d.rules c) :
    rule.breach.category = rule.category := by
  simp only [rules, levelRules, sizeRules, typeRules, Operand.sideRules, List.mem_append,
    List.mem_map, List.mem_cons, List.not_mem_nil, or_false] at h
  obtain ((((rfl | rfl) | rfl | rfl) | rfl | rfl) | rfl | ⟨_, -, rfl⟩) | ⟨_, -, rfl⟩ := h <;> rfl

/-- The draft refers to a level and two operands, and the level has all that the draft lists. -/
structure Supported (c : Catalog) (d : Draft) : Prop where
  level_ne : d.level.getD "" ≠ ""
  opA_ne : d.opA.getD "" ≠ ""
  opA : d.opA.getD "" ∈ c.operands.names
  opB_ne : d.opB.getD "" ≠ ""
  opB : d.opB.getD "" ∈ c.operands.names
  sizes_ne : d.sizes.getD [] ≠ []
  level : ∃ level, c.levels.get? (d.level.getD "") = some level ∧
    (∀ size ∈ d.sizes.getD [], size ∈ level.sizes) ∧ ∀ type ∈ d.types.getD [], type ∈ level.types

theorem valid_iff_supported {c : Catalog} {d : Draft} : d.Valid c ↔ d.Supported c := by
  have hsizes : unique (d.sizes.getD []) = [] ↔ d.sizes.getD [] = [] := by
    simp only [List.eq_nil_iff_forall_not_mem, mem_unique]
  constructor
  · intro h
    obtain ⟨level, hget, hall, htypes⟩ := (h.fits "").level
    simp only [comparison, mem_unique] at hall htypes
    exact ⟨h.level_ne, h.opA_ne, (h.fits "").opA, h.opB_ne, (h.fits "").opB,
      mt hsizes.mpr (h.fits "").sizes_ne, level, hget, hall, htypes⟩
  · intro h
    refine ⟨h.level_ne, h.opA_ne, h.opB_ne, ?_⟩
    intro id
    obtain ⟨level, hget, hall, htypes⟩ := h.level
    refine ⟨⟨level, hget, ?_, ?_⟩, h.opA, h.opB, mt hsizes.mp h.sizes_ne, nodup_unique _,
      nodup_unique _⟩
    · intro size hsize
      exact hall size ((mem_unique _ _).mp hsize)
    · intro type htype
      exact htypes type ((mem_unique _ _).mp htype)

end Comparison.Draft

/-! ## The breach of each check is that of its first broken rule -/

namespace Catalog

open Comparison.Draft

variable {c : Catalog} {level : Level}

theorem failure?_level (name : Setting String) :
    failure? (c.level name) = (levelRules c.levels (name.getD "")).findSome? Rule.breach? := by
  rw [Catalog.level]
  split
  · rename_i h
    simp [h, levelRules, Rule.breach?, failure?]
  · rename_i h
    have hne : name.getD "" ≠ "" := h
    cases hget : c.levels.get? (name.getD "") with
    | none => simp [levelRules, Rule.breach?, failure?, hne, Table.mem_names_iff, hget]
    | some level => simp [levelRules, Rule.breach?, failure?, hne, Table.mem_names_iff, hget]

theorem failure?_checkSizes {name : String} (h : c.levels.get? name = some level)
    (sizes : List UInt32) :
    failure? (checkSizes level (unique sizes)) =
      (sizeRules c.levels name sizes).findSome? Rule.breach? := by
  have hname : level.name = name := Table.name_of_get? h
  have hsupports : (fun size => !level.supportsSize size) =
      fun size => !Level.hasSizeIn c.levels name size := by
    funext size
    simp [Level.supportsSize, Level.hasSizeIn, h]
  rw [checkSizes, sizeRules, findSome?_cons_eq_or, Rule.findSome?_breach?_map, hname, hsupports,
    find?_unique]
  cases sizes with
  | nil => rfl
  | cons size sizes =>
      have hne : unique (size :: sizes) ≠ [] :=
        List.ne_nil_of_mem ((mem_unique _ _).mpr List.mem_cons_self)
      rw [if_neg (mt List.isEmpty_iff.mp hne)]
      cases (size :: sizes).find? fun size => !Level.hasSizeIn c.levels name size <;>
        simp [failure?, Rule.breach?]

theorem failure?_checkTypes {name : String} (h : c.levels.get? name = some level)
    (types : List String) :
    failure? (checkTypes level (unique types)) =
      (typeRules c.levels name types).findSome? Rule.breach? := by
  have hname : level.name = name := Table.name_of_get? h
  have hsupports : (fun type => !level.supportsType type) =
      fun type => !Level.hasTypeIn c.levels name type := by
    funext type
    simp [Level.supportsType, Level.hasTypeIn, h]
  rw [checkTypes, typeRules, Rule.findSome?_breach?_map, hname, hsupports, find?_unique]
  cases types.find? fun type => !Level.hasTypeIn c.levels name type <;> simp [failure?]

/-- The checks of a comparison end in the breach of its first broken rule. -/
theorem failure?_comparison (id : String) (d : Comparison.Draft) :
    failure? (c.comparison id d) = (d.rules c).findSome? Rule.breach? := by
  rw [comparison, Comparison.Draft.rules]
  simp only [List.findSome?_append, Option.or_assoc]
  rw [← failure?_level, ← failure?_operand, ← failure?_operand]
  refine failure?_bind_of ?_
  intro level hlevel
  have hget : c.levels.get? (d.level.getD "") = some level := (level_eq_ok_iff.mp hlevel).2
  rw [← failure?_checkSizes hget, ← failure?_checkTypes hget]
  refine failure?_bind ?_
  intro opA
  refine failure?_bind ?_
  intro opB
  refine failure?_bind ?_
  intro _
  exact failure?_bind_ok _ _

/-! ## Acceptance and blame -/

/-- A comparison is accepted exactly if it names a level and two operands that are known and lists
sizes, all of them and all of its types among those of the level. It then says what its draft says,
each size and type at its first place. Otherwise the first rule that it breaks is told of it, for a
size or a type by naming the first one in the list that the level does not have. -/
theorem comparison_ok_iff_and_breach_iff (c : Catalog) (id : String) (d : Comparison.Draft) :
    (∀ x, (c.comparison id d).mapError (Breach.error (.comparison id)) = .ok x ↔
      x = {
        name := id
        level := d.level.getD ""
        opA := d.opA.getD ""
        opB := d.opB.getD ""
        sizes := (d.sizes.getD []).eraseDups
        types := (d.types.getD []).eraseDups
        form := d.form.getD ""
        description := d.description.value? } ∧ d.Supported c) ∧
    (∀ e, (c.comparison id d).mapError (Breach.error (.comparison id)) = .error e ↔
      ∃ before rule after, d.rules c = before ++ rule :: after ∧
        (∀ earlier ∈ before, earlier.kept) ∧ rule.kept = false ∧
          e = .violation ⟨.comparison id, rule.breach⟩ ∧ rule.breach.category = rule.category ∧
            e.message = s!"{rule.category.heading}: comparison '{id}' " ++
              s!"[comparison.{rule.breach.rule}]: {rule.breach.message}") ∧
    (∀ size level, (Breach.sizeUnsupported size level).message =
      s!"size {size.toNat} is incompatible with level '{level}'") ∧
    ∀ type level, (Breach.typeUnsupported type level).message =
      s!"type '{type}' is incompatible with level '{level}'" := by
  refine ⟨?_, ?_, fun _ _ => rfl, fun _ _ => rfl⟩
  · intro x
    rw [mapError_eq_ok_iff, comparison_eq_ok_iff, valid_iff_supported, Comparison.Draft.comparison,
      unique_eq_eraseDups, unique_eq_eraseDups]
  · intro e
    rw [← failure?_eq_some_iff, failure?_mapError, failure?_comparison, Option.map_eq_some_iff]
    simp only [Rule.findSome?_breach?_eq_some_iff]
    constructor
    · rintro ⟨_, ⟨before, rule, after, hrules, hbefore, hbroken, rfl⟩, rfl⟩
      have hcategory : rule.breach.category = rule.category :=
        category_of_mem_rules (c := c) (d := d) (by simp [hrules])
      have hmessage := rule.breach.message_error_comparison id
      rw [hcategory] at hmessage
      exact ⟨before, rule, after, hrules, hbefore, hbroken, rfl, hcategory, hmessage⟩
    · rintro ⟨before, rule, after, hrules, hbefore, hbroken, rfl, -⟩
      exact ⟨rule.breach, ⟨before, rule, after, hrules, hbefore, hbroken, rfl⟩, rfl⟩

end Catalog

end InstructionSet
