import InstructionSet.Catalog
import InstructionSet.Proofs.Outcome
import Mathlib.Algebra.GroupWithZero.Nat

/-!
# Operand layouts

The checks of an opcode accept its draft exactly if the operands it names fit together, and then
the layout holds these names.
-/

namespace InstructionSet

/-! ## Operands under their names -/

namespace Operand

/-- The width of the operand called `name`; no operand has no width. -/
def bitsIn (operands : Table Operand) (name : String) : Nat :=
  (operands.get? name).elim 0 fun operand => operand.bits.toNat

def isSelectorIn (operands : Table Operand) (name : String) : Bool :=
  (operands.get? name).any fun operand => operand.kind = some "variant"

theorem isSelector_eq (operand : Operand) :
    operand.isSelector = decide (operand.kind = some "variant") := by
  rw [isSelector, selectorKind, Bool.eq_iff_iff, beq_iff_eq, decide_eq_true_iff]

end Operand

namespace Catalog

variable {c : Catalog} {names : List String} {operands : List Operand}

/-- Operands looked up one by one have the widths of their names. -/
theorem width_eq_sum (h : names.map c.operands.get? = operands.map some) :
    width operands = (names.map (Operand.bitsIn c.operands)).sum := by
  have hsum : names.map (Operand.bitsIn c.operands) =
      (names.map c.operands.get?).map fun found => found.elim 0 fun o => o.bits.toNat := by
    rw [List.map_map]
    rfl
  rw [hsum, h, List.map_map, width, List.sum_eq_foldl, List.foldl_map]
  rfl

theorem countP_isSelector (h : names.map c.operands.get? = operands.map some) :
    operands.countP Operand.isSelector = names.countP (Operand.isSelectorIn c.operands) := by
  have hcount : names.countP (Operand.isSelectorIn c.operands) =
      (names.map c.operands.get?).countP fun found =>
        found.any fun o => o.kind = some "variant" := by
    rw [List.countP_map]
    rfl
  rw [hcount, h, List.countP_map]
  congr 1
  funext operand
  exact operand.isSelector_eq

/-- Names can be looked up together exactly if the table has them all. -/
theorem exists_map_get?_iff :
    (∃ operands : List Operand, names.map c.operands.get? = operands.map some) ↔
      ∀ name ∈ names, name ∈ c.operands.names := by
  induction names with
  | nil => simp
  | cons name names ih =>
      rw [List.forall_mem_cons, ← ih]
      constructor
      · rintro ⟨operands, h⟩
        cases operands with
        | nil => simp at h
        | cons operand operands =>
            obtain ⟨hhead, htail⟩ := List.cons.inj h
            exact ⟨Table.mem_names_iff.mpr ⟨operand, hhead⟩, operands, htail⟩
      · rintro ⟨hname, operands, h⟩
        obtain ⟨operand, hoperand⟩ := Table.mem_names_iff.mp hname
        exact ⟨operand :: operands, by rw [List.map_cons, List.map_cons, hoperand, h]⟩

/-! ## What each check accepts -/

theorem operand_eq_ok_iff {side : OperandSide} {name : Setting String} {o : Operand} :
    c.operand side name = .ok o ↔
      name.getD "" ≠ "" ∧ c.operands.get? (name.getD "") = some o := by
  rw [operand]
  split
  · rename_i h
    simp [h]
  · rename_i h
    cases hget : c.operands.get? (name.getD "") with
    | none => simp
    | some found =>
        rw [Except.ok.injEq, Option.some.injEq]
        exact ⟨fun hfound => ⟨h, hfound⟩, And.right⟩

theorem checkBase_eq_ok_iff {opA opB : Operand} :
    checkBase opA opB = .ok () ↔ width [opA, opB] = 8 := by
  rw [checkBase, baseOperandBits]
  split <;> simp [*]

theorem wordOperand_eq_ok_iff {word : Nat} {name : String} {o : Operand} :
    c.wordOperand word name = .ok o ↔ c.operands.get? name = some o := by
  rw [wordOperand]
  cases c.operands.get? name <;> simp

theorem mapM_wordOperand_eq_ok_iff {word : Nat} :
    names.mapM (c.wordOperand word) = .ok operands ↔
      names.map c.operands.get? = operands.map some := by
  rw [mapM_eq_ok_iff]
  simp only [wordOperand_eq_ok_iff]
  rw [← List.forall₂_eq_eq_eq, List.forall₂_map_left_iff, List.forall₂_map_right_iff]

theorem wordOperands_eq_ok_iff {word : Nat} :
    c.wordOperands word names = .ok operands ↔
      names.map c.operands.get? = operands.map some ∧
        (names.map (Operand.bitsIn c.operands)).sum = 16 := by
  rw [wordOperands, bind_eq_ok_iff, extensionWordBits]
  constructor
  · rintro ⟨found, hfound, hwidth⟩
    split at hwidth
    · rename_i h16
      obtain rfl := Except.ok.inj hwidth
      have hnames := mapM_wordOperand_eq_ok_iff.mp hfound
      exact ⟨hnames, (width_eq_sum hnames).symm.trans h16⟩
    · cases hwidth
  · rintro ⟨hnames, h16⟩
    refine ⟨operands, mapM_wordOperand_eq_ok_iff.mpr hnames, ?_⟩
    rw [if_pos ((width_eq_sum hnames).trans h16)]

/-- Each word is full, and the operands of all words are listed one after the other. -/
theorem extensionOperands_eq_ok_iff {word : Nat} {words : List (List String)} :
    c.extensionOperands word words = .ok operands ↔
      words.flatten.map c.operands.get? = operands.map some ∧
        ∀ names ∈ words, (names.map (Operand.bitsIn c.operands)).sum = 16 := by
  induction words generalizing word operands with
  | nil =>
      rw [extensionOperands, Except.ok.injEq]
      constructor
      · rintro rfl
        simp
      · rintro ⟨h, _⟩
        simpa using h
  | cons names words ih =>
      rw [extensionOperands, bind_eq_ok_iff, List.flatten_cons, List.map_append,
        List.forall_mem_cons]
      constructor
      · rintro ⟨first, hfirst, hrest⟩
        obtain ⟨more, hmore, happend⟩ := bind_eq_ok_iff.mp hrest
        obtain rfl := Except.ok.inj happend
        obtain ⟨hnames, h16⟩ := wordOperands_eq_ok_iff.mp hfirst
        obtain ⟨hwords, hfull⟩ := ih.mp hmore
        exact ⟨by rw [hnames, hwords, List.map_append], h16, hfull⟩
      · rintro ⟨hmap, h16, hfull⟩
        obtain ⟨first, more, rfl, hfirst, hmore⟩ := List.map_eq_append_iff.mp hmap.symm
        exact ⟨first, wordOperands_eq_ok_iff.mpr ⟨hfirst.symm, h16⟩,
          bind_eq_ok_iff.mpr ⟨more, ih.mpr ⟨hmore.symm, hfull⟩, rfl⟩⟩

theorem checkSelectors_eq_ok_iff :
    checkSelectors operands = .ok () ↔ operands.countP Operand.isSelector ≤ 1 := by
  simp only [checkSelectors]
  split
  · simpa using ‹1 < operands.countP Operand.isSelector›
  · simpa using ‹¬1 < operands.countP Operand.isSelector›

theorem checkVariants_eq_ok_iff {d : Opcode.Draft} :
    checkVariants d = .ok () ↔
      (d.variant.getD false = true →
        1 ≤ (d.variants.getD []).length ∧ (d.variants.getD []).length ≤ 16) := by
  simp only [checkVariants, variantLimit]
  by_cases hvariant : d.variant.getD false = true
  · simp only [hvariant, if_true, forall_const]
    by_cases hzero : (d.variants.getD []).length = 0
    · simp [hzero]
    · rw [if_neg hzero]
      by_cases hmany : 16 < (d.variants.getD []).length
      · simp only [hmany, if_true, reduceCtorEq, false_iff]
        omega
      · simp only [hmany, if_false, true_iff]
        omega
  · simp [hvariant]

end Catalog

/-! ## Layouts -/

/-- The operands that an opcode or variant names fit together. One named twice counts twice. -/
structure Layout.Fits (operands : Table Operand) (l : Layout) : Prop where
  known : ∀ name ∈ l.all, name ∈ operands.names
  base : Operand.bitsIn operands l.opA + Operand.bitsIn operands l.opB = 8
  words : ∀ word ∈ l.extWords, (word.map (Operand.bitsIn operands)).sum = 16
  selectors : l.all.countP (Operand.isSelectorIn operands) ≤ 1

namespace Opcode.Draft

/-- The operand names that the draft gives. -/
def layout (d : Draft) : Layout where
  opA := d.opA.getD ""
  opB := d.opB.getD ""
  extWords := d.extwords.getD []

/-- A draft marked as variant lists from one to sixteen variants. -/
def HasVariants (d : Draft) : Prop :=
  d.variant.getD false = true →
    1 ≤ (d.variants.getD []).length ∧ (d.variants.getD []).length ≤ 16

/-- What the checks of an opcode ask of its merged draft. -/
structure Valid (operands : Table Operand) (d : Draft) : Prop where
  opA_ne : d.layout.opA ≠ ""
  opB_ne : d.layout.opB ≠ ""
  fits : d.layout.Fits operands
  hasVariants : d.HasVariants

end Opcode.Draft

namespace Catalog

variable {c : Catalog}

/-- The operands of both sides and of the words, for a layout whose names are all known. -/
theorem fits_iff {l : Layout} {opA opB : Operand} {extension : List Operand}
    (hA : c.operands.get? l.opA = some opA) (hB : c.operands.get? l.opB = some opB)
    (hwords : l.extWords.flatten.map c.operands.get? = extension.map some) :
    l.Fits c.operands ↔
      width [opA, opB] = 8 ∧
        (∀ word ∈ l.extWords, (word.map (Operand.bitsIn c.operands)).sum = 16) ∧
          (opA :: opB :: extension).countP Operand.isSelector ≤ 1 := by
  have hall : l.all.map c.operands.get? = (opA :: opB :: extension).map some := by
    simp only [Layout.all, List.map_cons, hA, hB, hwords]
  have hbase : width [opA, opB] =
      Operand.bitsIn c.operands l.opA + Operand.bitsIn c.operands l.opB := by
    simp [width, Operand.bitsIn, hA, hB]
  rw [hbase, countP_isSelector hall]
  constructor
  · exact fun h => ⟨h.base, h.words, h.selectors⟩
  · exact fun h => ⟨exists_map_get?_iff.mp ⟨_, hall⟩, h.1, h.2.1, h.2.2⟩

/-- The checks accept exactly the valid drafts and answer with the operand names. -/
theorem layout_eq_ok_iff {d : Opcode.Draft} {l : Layout} :
    c.layout d = .ok l ↔ l = d.layout ∧ d.Valid c.operands := by
  rw [layout]
  constructor
  · intro h
    obtain ⟨opA, hA, h⟩ := bind_eq_ok_iff.mp h
    obtain ⟨opB, hB, h⟩ := bind_eq_ok_iff.mp h
    obtain ⟨_, hbase, h⟩ := bind_eq_ok_iff.mp h
    obtain ⟨extension, hextension, h⟩ := bind_eq_ok_iff.mp h
    obtain ⟨_, hselectors, h⟩ := bind_eq_ok_iff.mp h
    obtain ⟨_, hvariants, h⟩ := bind_eq_ok_iff.mp h
    obtain ⟨hneA, hgetA⟩ := operand_eq_ok_iff.mp hA
    obtain ⟨hneB, hgetB⟩ := operand_eq_ok_iff.mp hB
    obtain ⟨hwords, hfull⟩ := extensionOperands_eq_ok_iff.mp hextension
    refine ⟨?_, hneA, hneB, ?_, checkVariants_eq_ok_iff.mp hvariants⟩
    · have hnameA : opA.name = d.opA.getD "" := Table.name_of_get? hgetA
      have hnameB : opB.name = d.opB.getD "" := Table.name_of_get? hgetB
      rw [← Except.ok.inj h, hnameA, hnameB]
      rfl
    · exact (fits_iff hgetA hgetB hwords).mpr
        ⟨checkBase_eq_ok_iff.mp hbase, hfull, checkSelectors_eq_ok_iff.mp hselectors⟩
  · rintro ⟨rfl, hneA, hneB, hfits, hvariants⟩
    obtain ⟨operands, hall⟩ := exists_map_get?_iff.mpr hfits.known
    obtain ⟨opA, rest, rfl, hgetA, hrest⟩ := List.map_eq_cons_iff.mp hall.symm
    obtain ⟨opB, extension, rfl, hgetB, hwords⟩ := List.map_eq_cons_iff.mp hrest
    obtain ⟨hbase, hfull, hselectors⟩ := (fits_iff hgetA.symm hgetB.symm hwords.symm).mp hfits
    refine bind_eq_ok_iff.mpr ⟨opA, operand_eq_ok_iff.mpr ⟨hneA, hgetA.symm⟩, ?_⟩
    refine bind_eq_ok_iff.mpr ⟨opB, operand_eq_ok_iff.mpr ⟨hneB, hgetB.symm⟩, ?_⟩
    refine bind_eq_ok_iff.mpr ⟨(), checkBase_eq_ok_iff.mpr hbase, ?_⟩
    refine bind_eq_ok_iff.mpr
      ⟨extension, extensionOperands_eq_ok_iff.mpr ⟨hwords.symm, hfull⟩, ?_⟩
    refine bind_eq_ok_iff.mpr ⟨(), checkSelectors_eq_ok_iff.mpr hselectors, ?_⟩
    refine bind_eq_ok_iff.mpr ⟨(), checkVariants_eq_ok_iff.mpr hvariants, ?_⟩
    have hnameA : opA.name = d.opA.getD "" := Table.name_of_get? hgetA.symm
    have hnameB : opB.name = d.opB.getD "" := Table.name_of_get? hgetB.symm
    rw [hnameA, hnameB]
    rfl

end Catalog

end InstructionSet
