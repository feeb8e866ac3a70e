import InstructionSet.Proofs.Catalog.Layout

/-!
# Rules in their order

The checks of an opcode are a list of rules on the names that its draft gives. They accept a draft
that keeps them all, and otherwise blame the first that it breaks.
-/

namespace InstructionSet

/-- A rule as it applies to a draft: whether the draft keeps it, and what its breach is. -/
structure Rule where
  category : Category
  breach : Breach
  kept : Bool
  deriving DecidableEq, Repr

namespace Rule

def breach? (rule : Rule) : Option Breach := if rule.kept then none else some rule.breach

theorem breach?_eq_none_iff {rule : Rule} : rule.breach? = none ↔ rule.kept := by
  rw [breach?]
  split <;> simp_all

theorem breach?_eq_some_iff {rule : Rule} {breach : Breach} :
    rule.breach? = some breach ↔ rule.kept = false ∧ rule.breach = breach := by
  rw [breach?]
  split <;> simp_all

end Rule

/-! ## The rules of an opcode -/

namespace Operand

/-- The combined width of the operands called `names`. -/
def totalBitsIn (operands : Table Operand) (names : List String) : Nat :=
  (names.map (bitsIn operands)).sum

/-- An operand is named on `side`, and the name is known. -/
def sideRules (operands : Table Operand) (side : OperandSide) (name : String) : List Rule :=
  [⟨.referential, .operandMissing side, name ≠ ""⟩,
    ⟨.referential, .operandUnknown side name, name ∈ operands.names⟩]

/-- The names in extension word number `word` are known, and their operands fill it. -/
def wordRules (operands : Table Operand) (word : Nat) (names : List String) : List Rule :=
  names.map (fun name =>
    ⟨.referential, .wordOperandUnknown word name, name ∈ operands.names⟩) ++
    [⟨.budget, .wordBudget word (totalBitsIn operands names), totalBitsIn operands names = 16⟩]

end Operand

namespace Opcode.Draft

open Operand

/-- The rules of an opcode or variant in the order in which they are checked. -/
def rules (operands : Table Operand) (d : Draft) : List Rule :=
  let l := d.layout
  let base := totalBitsIn operands [l.opA, l.opB]
  let selectors := l.all.countP (isSelectorIn operands)
  let count := (d.variants.getD []).length
  sideRules operands .a l.opA ++ sideRules operands .b l.opB ++
    [⟨.budget, .operandBudget l.opA l.opB base, base = 8⟩] ++
    l.extWords.zipIdx.flatMap (fun (names, word) => wordRules operands word names) ++
    [⟨.variant, .selectorsMultiple selectors, selectors ≤ 1⟩,
      ⟨.variant, .variantsMissing, d.variant.getD false → 1 ≤ count⟩,
      ⟨.variant, .variantsTooMany count, d.variant.getD false → count ≤ 16⟩]

end Opcode.Draft

/-! ## The breach of each check is that of its first broken rule -/

namespace Catalog

open Operand

variable {c : Catalog}

theorem failure?_operand (side : OperandSide) (name : Setting String) :
    failure? (c.operand side name) =
      (sideRules c.operands side (name.getD "")).findSome? Rule.breach? := by
  rw [operand]
  split
  · rename_i h
    simp [h, sideRules, Rule.breach?, failure?]
  · rename_i h
    have hne : name.getD "" ≠ "" := h
    cases hget : c.operands.get? (name.getD "") with
    | none =>
        have hunknown : name.getD "" ∉ c.operands.names := by
          simp [Table.mem_names_iff, hget]
        simp [sideRules, Rule.breach?, failure?, hne, hunknown]
    | some o =>
        have hknown : name.getD "" ∈ c.operands.names := Table.mem_names_iff.mpr ⟨o, hget⟩
        simp [sideRules, Rule.breach?, failure?, hne, hknown]

theorem failure?_checkBase {a b : String} {opA opB : Operand}
    (hA : c.operands.get? a = some opA) (hB : c.operands.get? b = some opB) :
    failure? (checkBase opA opB) =
      (⟨.budget, .operandBudget a b (totalBitsIn c.operands [a, b]),
        totalBitsIn c.operands [a, b] = 8⟩ : Rule).breach? := by
  have hwidth : width [opA, opB] = totalBitsIn c.operands [a, b] := width_eq_sum (by simp [hA, hB])
  have hnameA : opA.name = a := Table.name_of_get? hA
  have hnameB : opB.name = b := Table.name_of_get? hB
  rw [checkBase, hwidth, hnameA, hnameB, baseOperandBits, Rule.breach?]
  split <;> simp_all [failure?]

theorem failure?_wordOperand (word : Nat) (name : String) :
    failure? (c.wordOperand word name) =
      (⟨.referential, .wordOperandUnknown word name, name ∈ c.operands.names⟩ : Rule).breach? := by
  rw [wordOperand, Rule.breach?]
  cases hget : c.operands.get? name with
  | none => simp [failure?, Table.mem_names_iff, hget]
  | some o => simp [failure?, Table.mem_names_iff, hget]

theorem failure?_wordOperands (word : Nat) (names : List String) :
    failure? (c.wordOperands word names) =
      (wordRules c.operands word names).findSome? Rule.breach? := by
  rw [wordOperands, wordRules, List.findSome?_append, List.findSome?_map]
  have hmapM : (names.findSome? fun name => failure? (c.wordOperand word name)) =
      failure? (names.mapM (c.wordOperand word)) := (failure?_mapM _ _).symm
  simp only [Function.comp_def, ← failure?_wordOperand, hmapM]
  refine failure?_bind_of fun operands h => ?_
  have hwidth : width operands = totalBitsIn c.operands names :=
    width_eq_sum (mapM_wordOperand_eq_ok_iff.mp h)
  rw [hwidth, extensionWordBits, List.findSome?_singleton, Rule.breach?]
  split <;> simp_all [failure?]

theorem failure?_extensionOperands (start : Nat) (words : List (List String)) :
    failure? (c.extensionOperands start words) =
      ((words.zipIdx start).flatMap fun (names, word) =>
        wordRules c.operands word names).findSome? Rule.breach? := by
  induction words generalizing start with
  | nil => rfl
  | cons names words ih =>
      rw [extensionOperands, List.zipIdx_cons, List.flatMap_cons, List.findSome?_append,
        ← failure?_wordOperands, ← ih]
      exact failure?_bind fun operands => failure?_bind_ok _ _

theorem failure?_checkSelectors {names : List String} {operands : List Operand}
    (h : names.map c.operands.get? = operands.map some) :
    failure? (checkSelectors operands) =
      (⟨.variant, .selectorsMultiple (names.countP (isSelectorIn c.operands)),
        names.countP (isSelectorIn c.operands) ≤ 1⟩ : Rule).breach? := by
  simp only [checkSelectors, countP_isSelector h, Rule.breach?]
  split
  · rename_i hmany
    simp [failure?, Nat.not_le.mpr hmany]
  · rename_i hfew
    simp [failure?, Nat.not_lt.mp hfew]

theorem failure?_checkVariants (d : Opcode.Draft) :
    failure? (checkVariants d) =
      [(⟨.variant, .variantsMissing,
          d.variant.getD false → 1 ≤ (d.variants.getD []).length⟩ : Rule),
        ⟨.variant, .variantsTooMany (d.variants.getD []).length,
          d.variant.getD false → (d.variants.getD []).length ≤ 16⟩].findSome? Rule.breach? := by
  simp only [checkVariants, variantLimit]
  by_cases hvariant : d.variant.getD false = true
  · by_cases hzero : (d.variants.getD []).length = 0
    · simp [hvariant, hzero, failure?, Rule.breach?]
    · have hsome : 1 ≤ (d.variants.getD []).length := Nat.one_le_iff_ne_zero.mpr hzero
      by_cases hmany : 16 < (d.variants.getD []).length
      · simp [hvariant, hzero, hsome, hmany, failure?, Rule.breach?]
      · simp [hvariant, hzero, hsome, hmany, Nat.not_lt.mp hmany, failure?, Rule.breach?]
  · simp [hvariant, failure?, Rule.breach?]

/-- The checks of an opcode end in the breach of its first broken rule. -/
theorem failure?_layout (d : Opcode.Draft) :
    failure? (c.layout d) = (d.rules c.operands).findSome? Rule.breach? := by
  have hsideA : failure? (c.operand .a d.opA) =
      (sideRules c.operands .a d.layout.opA).findSome? Rule.breach? := failure?_operand .a d.opA
  have hsideB : failure? (c.operand .b d.opB) =
      (sideRules c.operands .b d.layout.opB).findSome? Rule.breach? := failure?_operand .b d.opB
  rw [layout, Opcode.Draft.rules]
  simp only [List.findSome?_append, Option.or_assoc]
  rw [← hsideA, ← hsideB]
  refine failure?_bind_of fun opA hA => failure?_bind_of fun opB hB => ?_
  have hgetA : c.operands.get? d.layout.opA = some opA := (operand_eq_ok_iff.mp hA).2
  have hgetB : c.operands.get? d.layout.opB = some opB := (operand_eq_ok_iff.mp hB).2
  rw [List.findSome?_singleton, ← failure?_checkBase hgetA hgetB, ← failure?_extensionOperands]
  refine failure?_bind fun _ => failure?_bind_of fun extension hextension => ?_
  have hwords : d.layout.extWords.flatten.map c.operands.get? = extension.map some :=
    (extensionOperands_eq_ok_iff.mp hextension).1
  have hall : d.layout.all.map c.operands.get? = (opA :: opB :: extension).map some := by
    simp only [Layout.all, List.map_cons, hgetA, hgetB, hwords]
  rw [findSome?_cons_eq_or, ← failure?_checkSelectors hall, ← failure?_checkVariants]
  exact failure?_bind fun _ => failure?_bind_ok _ _

end Catalog

theorem Opcode.Draft.category_of_mem_rules {operands : Table Operand} {d : Opcode.Draft}
    {rule : Rule} (h : rule ∈ d.rules operands) : rule.breach.category = rule.category := by
  simp only [rules, Operand.sideRules, Operand.wordRules, List.mem_append, List.mem_flatMap,
    List.mem_map, List.mem_cons, List.not_mem_nil, or_false] at h
  obtain (((((rfl | rfl) | rfl | rfl) | rfl) | ⟨_, -, ⟨_, -, rfl⟩ | rfl⟩) |
    rfl | rfl | rfl) := h <;> rfl

/-! ## Sums in 64 bits -/

namespace Catalog

/-- The combined width of operands, added up in 64 bits. -/
def width64 (operands : List Operand) : UInt64 :=
  operands.foldl (fun total operand => total + operand.bits.toUInt64) 0

theorem toNat_foldl_bits (operands : List Operand) (start : UInt64)
    (h : start.toNat + operands.length * (2 ^ 32 - 1) < 2 ^ 64) :
    (operands.foldl (fun total operand => total + operand.bits.toUInt64) start).toNat =
      operands.foldl (fun total operand => total + operand.bits.toNat) start.toNat := by
  induction operands generalizing start with
  | nil => rfl
  | cons operand rest ih =>
      rw [List.length_cons, Nat.add_one_mul] at h
      have hbits : operand.bits.toNat < 2 ^ 32 := operand.bits.toNat_lt
      have hstep : (start + operand.bits.toUInt64).toNat = start.toNat + operand.bits.toNat := by
        rw [UInt64.toNat_add, UInt32.toNat_toUInt64]
        omega
      rw [List.foldl_cons, List.foldl_cons, ih _ (by omega), hstep]

/-- Fewer than 2 ^ 32 widths of 32 bits do not exceed 64 bits. -/
theorem toNat_width64 {operands : List Operand} (h : operands.length < 2 ^ 32) :
    (width64 operands).toNat = width operands :=
  toNat_foldl_bits operands 0 (by simp only [UInt64.toNat_zero]; omega)

/-! ## Acceptance and blame -/

/-- An opcode is accepted exactly if its operands are known, fill the operand byte and each
extension word, one at most is a selector, and it lists from one to sixteen variants if it is
marked as variant. Its layout then holds the names that it gives. Otherwise the first rule that it
breaks is told of `subject`. Widths can be added up in 64 bits. -/
theorem layout_ok_iff_and_breach_iff (c : Catalog) (subject : Subject) (d : Opcode.Draft) :
    (∀ l, (c.layout d).mapError (Breach.error subject) = .ok l ↔
      l = d.layout ∧ d.Valid c.operands) ∧
    (∀ e, (c.layout d).mapError (Breach.error subject) = .error e ↔
      ∃ before rule after, d.rules c.operands = before ++ rule :: after ∧
        (∀ earlier ∈ before, earlier.kept) ∧ rule.kept = false ∧
          e = .violation ⟨subject, rule.breach⟩ ∧ rule.breach.category = rule.category) ∧
    ∀ operands : List Operand, operands.length < 2 ^ 32 →
      (width64 operands).toNat = width operands := by
  refine ⟨fun l => mapError_eq_ok_iff.trans layout_eq_ok_iff, fun e => ?_,
    fun operands h => toNat_width64 h⟩
  rw [← failure?_eq_some_iff, failure?_mapError, failure?_layout, Option.map_eq_some_iff]
  simp only [List.findSome?_eq_some_iff]
  constructor
  · rintro ⟨breach, ⟨before, rule, after, hrules, hrule, hbefore⟩, rfl⟩
    obtain ⟨hbroken, rfl⟩ := Rule.breach?_eq_some_iff.mp hrule
    have hmem : rule ∈ d.rules c.operands := by simp [hrules]
    exact ⟨before, rule, after, hrules,
      fun earlier h => Rule.breach?_eq_none_iff.mp (hbefore earlier h), hbroken, rfl,
      Opcode.Draft.category_of_mem_rules hmem⟩
  · rintro ⟨before, rule, after, hrules, hbefore, hbroken, rfl, -⟩
    exact ⟨rule.breach, ⟨before, rule, after, hrules, Rule.breach?_eq_some_iff.mpr ⟨hbroken, rfl⟩,
      fun earlier h => Rule.breach?_eq_none_iff.mpr (hbefore earlier h)⟩, rfl⟩

/-- Operands of the widest kind there is, beside some that fit. -/
def mixed : Catalog where
  levels := .empty
  operands := .ofList [{ name := "r", bits := 4 },
    { name := "v", bits := 4, kind := some "variant" }, { name := "i8", bits := 8 },
    { name := "huge", bits := 4294967295 }]

/-- The second word names an operand that is not there and is too short, the third is empty, there
are two selectors, and no variants are listed. -/
def flawed : Opcode.Draft where
  opA := .given "v"
  opB := .given "r"
  extwords := .given [["i8", "v", "r"], ["huge", "ghost"], []]
  variant := .given true

theorem layout_ok_iff_and_breach_iff_flawed :
    (∀ l, mixed.layout flawed ≠ .ok l) ∧
      (mixed.layout flawed).mapError (Breach.error (.variant "SEL" 3)) =
        .error (.violation ⟨.variant "SEL" 3, .wordOperandUnknown 1 "ghost"⟩) ∧
      mixed.operands.entries.length < 2 ^ 32 ∧
      (width64 mixed.operands.entries).toNat = width mixed.operands.entries := by
  obtain ⟨-, hbreach, hwidth⟩ := layout_ok_iff_and_breach_iff mixed (.variant "SEL" 3) flawed
  have herror := (hbreach (.violation ⟨.variant "SEL" 3, .wordOperandUnknown 1 "ghost"⟩)).mpr
    ⟨(flawed.rules mixed.operands).take 10, ⟨.referential, .wordOperandUnknown 1 "ghost", false⟩,
      (flawed.rules mixed.operands).drop 11, by decide +kernel, by decide +kernel, rfl, rfl, rfl⟩
  have hlength : mixed.operands.entries.length < 2 ^ 32 := by decide +kernel
  refine ⟨fun l hl => ?_, herror, hlength, hwidth _ hlength⟩
  rw [hl] at herror
  cases herror

end Catalog

end InstructionSet
