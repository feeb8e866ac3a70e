import InstructionSet.Proofs.Definition.Inheritance
import InstructionSet.Proofs.Record.Drafts

/-!
# Cleared fields

A field that an entry clears is as good as one that neither the entry nor the template mentions.
Only laying records over one another tells the two apart. Whatever is made of a merged draft looks
at the values of its settings alone, also by way of the variants that inherit them.
-/

namespace InstructionSet

/-! ## Records of the same values -/

namespace Setting

variable {α : Type} {s t : Setting α}

theorem getD_congr (h : s.value? = t.value?) (default : α) : s.getD default = t.getD default := by
  rw [getD, getD, h]

theorem value?_onto_congr (entry : Setting α) (h : s.value? = t.value?) :
    (entry.onto s).value? = (entry.onto t).value? := by
  cases entry with
  | absent => exact h
  | _ => rfl

end Setting

namespace Schema

variable {D : Type} {S : Schema D} {r s : D} {onto : D → D → D}

/-- The records have the same values. A field without one may be absent or cleared. -/
def Alike (S : Schema D) (r s : D) : Prop := ∀ f, (S.get r f).value? = (S.get s f).value?

theorem Alike.set (h : S.Alike r s) {f : S.Field} {x y : Setting (S.Data f)}
    (hxy : x.value? = y.value?) : S.Alike (S.set r f x) (S.set s f y) := by
  intro g
  by_cases hg : g = f
  · subst g
    rw [get_set_self, get_set_self, hxy]
  · rw [get_set_of_ne hg, get_set_of_ne hg, h g]

theorem Overlays.alike (h : S.Overlays onto) (entry : D) {template template' : D}
    (halike : S.Alike template template') :
    S.Alike (onto entry template) (onto entry template') := by
  intro f
  rw [h, h]
  exact Setting.value?_onto_congr _ (halike f)

/-- To clear a field in the entry leaves what is left if entry and template do not have it. -/
theorem Overlays.alike_cleared (h : S.Overlays onto) (entry template : D) (f : S.Field) :
    S.Alike (onto (S.set entry f .cleared) template)
      (onto (S.set entry f .absent) (S.set template f .absent)) := by
  intro g
  rw [h, h]
  by_cases hg : g = f
  · subst g
    simp only [get_set_self]
    rfl
  · simp only [get_set_of_ne hg]

end Schema

/-! ## Comparisons -/

namespace Catalog

theorem operand_eq_of_value? (c : Catalog) (side : OperandSide) {s t : Setting String}
    (h : s.value? = t.value?) : c.operand side s = c.operand side t := by
  rw [operand, operand, Setting.getD_congr h]

theorem comparison_eq_of_alike (c : Catalog) (id : String) {d e : Comparison.Draft}
    (h : Comparison.Draft.schema.Alike d e) : c.comparison id d = c.comparison id e := by
  have hlevel : d.level.value? = e.level.value? := h Comparison.Field.level
  have hopA : d.opA.value? = e.opA.value? := h Comparison.Field.opA
  have hopB : d.opB.value? = e.opB.value? := h Comparison.Field.opB
  have hsizes : d.sizes.value? = e.sizes.value? := h Comparison.Field.sizes
  have htypes : d.types.value? = e.types.value? := h Comparison.Field.types
  have hform : d.form.value? = e.form.value? := h Comparison.Field.form
  have hdescription : d.description.value? = e.description.value? :=
    h Comparison.Field.description
  simp only [comparison, level, c.operand_eq_of_value? _ hopA, c.operand_eq_of_value? _ hopB,
    Setting.getD, hlevel, hsizes, htypes, hform, hdescription]

end Catalog

/-! ## Opcodes and their variants -/

namespace Opcode.Draft

variable {d e : Draft}

theorem ofDraft_eq_of_alike (h : schema.Alike d e) :
    PlainShape.ofDraft d = PlainShape.ofDraft e := by
  have hsizes : d.sizes.value? = e.sizes.value? := h Field.sizes
  have htypes : d.types.value? = e.types.value? := h Field.types
  have hsizetype : d.sizetype.value? = e.sizetype.value? := h Field.sizetype
  have hunsized : d.isUnsized.value? = e.isUnsized.value? := h Field.isUnsized
  rw [PlainShape.ofDraft, PlainShape.ofDraft, Setting.getD_congr hsizes,
    Setting.getD_congr htypes, Setting.getD_congr hsizetype, Setting.getD_congr hunsized]

theorem traits_eq_of_alike (h : schema.Alike d e) : Traits.ofDraft d = Traits.ofDraft e := by
  have hcomparison : d.comparison.value? = e.comparison.value? := h Field.comparison
  have hform : d.form.value? = e.form.value? := h Field.form
  have hfitsize : d.fitsize.value? = e.fitsize.value? := h Field.fitsize
  have hclass : d.className.value? = e.className.value? := h Field.className
  have hdescription : d.description.value? = e.description.value? := h Field.description
  simp only [Traits.ofDraft, Setting.getD, hcomparison, hform, hfitsize, hclass, hdescription]

theorem associates_eq_of_alike (h : schema.Alike d e) : d.associates = e.associates := by
  have hsizetype : d.sizetype.value? = e.sizetype.value? := h Field.sizetype
  have hunsized : d.isUnsized.value? = e.isUnsized.value? := h Field.isUnsized
  simp only [associates, Setting.getD, hsizetype, hunsized]

theorem unmarked_eq_set (d : Draft) :
    d.unmarked = schema.set (schema.set d Field.variant .absent) Field.variants .absent := rfl

theorem seed_eq_set (d : Draft) :
    d.seed = schema.set d.unmarked Field.types
      (if d.associates then .given (PlainShape.ofDraft d).types else d.types) :=
  d.seed_eq

theorem alike_unmarked (h : schema.Alike d e) : schema.Alike d.unmarked e.unmarked := by
  rw [unmarked_eq_set, unmarked_eq_set]
  exact (h.set rfl).set rfl

/-- Drafts of the same values hand the same values down. -/
theorem alike_seed (h : schema.Alike d e) : schema.Alike d.seed e.seed := by
  rw [seed_eq_set, seed_eq_set, associates_eq_of_alike h, ofDraft_eq_of_alike h]
  apply (alike_unmarked h).set
  have htypes : d.types.value? = e.types.value? := h Field.types
  cases e.associates with
  | true => rfl
  | false => exact htypes

theorem alike_inherit (entry : Draft) (h : schema.Alike d e) :
    schema.Alike (entry.inherit d) (entry.inherit e) :=
  alike_unmarked (overlays_onto.alike entry h)

end Opcode.Draft

namespace Catalog

variable (c : Catalog) (id : String) {d e : Opcode.Draft}

theorem checkVariants_eq_of_alike (h : Opcode.Draft.schema.Alike d e) :
    checkVariants d = checkVariants e := by
  have hvariant : d.variant.value? = e.variant.value? := h Opcode.Field.variant
  have hvariants : d.variants.value? = e.variants.value? := h Opcode.Field.variants
  rw [checkVariants, checkVariants, Setting.getD_congr hvariant, Setting.getD_congr hvariants]

theorem layout_eq_of_alike (h : Opcode.Draft.schema.Alike d e) : c.layout d = c.layout e := by
  have hopA : d.opA.value? = e.opA.value? := h Opcode.Field.opA
  have hopB : d.opB.value? = e.opB.value? := h Opcode.Field.opB
  have hextwords : d.extwords.value? = e.extwords.value? := h Opcode.Field.extwords
  simp only [layout, c.operand_eq_of_value? _ hopA, c.operand_eq_of_value? _ hopB,
    Setting.getD_congr hextwords, checkVariants_eq_of_alike h]

theorem variant_eq_of_alike (variation : Nat) (entry : Opcode.Draft)
    (h : Opcode.Draft.schema.Alike d e) :
    c.variant id d variation entry = c.variant id e variation entry := by
  have hinherit : Opcode.Draft.schema.Alike (entry.onto d).unmarked (entry.onto e).unmarked :=
    Opcode.Draft.alike_inherit entry h
  simp only [variant, c.layout_eq_of_alike hinherit, Opcode.Draft.ofDraft_eq_of_alike hinherit,
    Opcode.Draft.traits_eq_of_alike hinherit]

theorem variantsFrom_eq_of_alike (start : Nat) (entries : List Opcode.Draft)
    (h : Opcode.Draft.schema.Alike d e) :
    c.variantsFrom id d start entries = c.variantsFrom id e start entries := by
  induction entries generalizing start with
  | nil => rfl
  | cons entry entries ih =>
      rw [variantsFrom, variantsFrom, c.variant_eq_of_alike id start entry h]
      simp only [ih]

theorem shape_eq_of_alike (h : Opcode.Draft.schema.Alike d e) : c.shape id d = c.shape id e := by
  have hvariant : d.variant.value? = e.variant.value? := h Opcode.Field.variant
  have hvariants : d.variants.value? = e.variants.value? := h Opcode.Field.variants
  rw [shape, shape, variants, variants, Setting.getD_congr hvariant,
    Setting.getD_congr hvariants, hvariants, Opcode.Draft.ofDraft_eq_of_alike h,
    c.variantsFrom_eq_of_alike id 0 _ (Opcode.Draft.alike_seed h)]

/-- An opcode depends on the values of its merged draft, and not on how fields without one are
set. -/
theorem opcode_eq_of_alike (classes : Table Descriptor) (h : Opcode.Draft.schema.Alike d e) :
    c.opcode classes id d = c.opcode classes id e := by
  have hclass : d.className.value? = e.className.value? := h Opcode.Field.className
  simp only [opcode, hclass, c.layout_eq_of_alike h, c.shape_eq_of_alike id h,
    Opcode.Draft.traits_eq_of_alike h]

end Catalog

namespace Declarations

/-- An entry that clears a field compiles like one without the field, against a template without
it: to the same definition or error, and with the same warnings. -/
theorem compile_cleared :
    (∀ (r : Declarations) (template entry : Opcode.Draft) (id : String) (f : Opcode.Field),
      compile { r with
        opcodeTemplate := template
        opcodes := [(id, Opcode.Draft.schema.set entry f .cleared)] } =
      compile { r with
        opcodeTemplate := Opcode.Draft.schema.set template f .absent
        opcodes := [(id, Opcode.Draft.schema.set entry f .absent)] }) ∧
    ∀ (r : Declarations) (template entry : Comparison.Draft) (id : String)
      (f : Comparison.Field),
      compile { r with
        comparisonTemplate := template
        comparisons := [(id, Comparison.Draft.schema.set entry f .cleared)] } =
      compile { r with
        comparisonTemplate := Comparison.Draft.schema.set template f .absent
        comparisons := [(id, Comparison.Draft.schema.set entry f .absent)] } := by
  constructor
  · intro r template entry id f
    have halike := Opcode.Draft.overlays_onto.alike_cleared entry template f
    simp only [compile, List.mapM_cons, List.mapM_nil,
      Catalog.opcode_eq_of_alike _ _ _ halike]
    rfl
  · intro r template entry id f
    have halike := Comparison.Draft.overlays_onto.alike_cleared entry template f
    simp only [compile, List.mapM_cons, List.mapM_nil,
      Catalog.comparison_eq_of_alike _ _ halike]
    rfl

end Declarations

end InstructionSet
