import InstructionSet.Proofs.Record.Drafts
import Mathlib.Data.List.Induction

/-!
# Records in layers

Records that are laid over one another one by one leave in each field what the last of them says
that says anything of it. So a group of layers can be laid down as one, and a layer without
settings or laid down twice makes no difference.
-/

namespace InstructionSet

namespace Setting

variable {α : Type}

theorem onto_self (setting : Setting α) : setting.onto setting = setting := by
  cases setting <;> rfl

/-- The last setting that is present. -/
def last (settings : List (Setting α)) : Setting α :=
  (settings.reverse.find? isPresent).getD .absent

theorem last_singleton (setting : Setting α) : last [setting] = setting := by
  cases setting <;> rfl

theorem last_append_singleton (settings : List (Setting α)) (setting : Setting α) :
    last (settings ++ [setting]) = setting.onto (last settings) := by
  cases setting <;> simp [last, isPresent, List.find?_cons]

theorem foldl_onto (base : Setting α) (settings : List (Setting α)) :
    settings.foldl (fun base setting => setting.onto base) base = last (base :: settings) := by
  induction settings using List.reverseRecOn with
  | nil => exact (last_singleton base).symm
  | append_singleton settings setting ih =>
      rw [List.foldl_append, ih, List.foldl_cons, List.foldl_nil, ← List.cons_append,
        last_append_singleton]

example : (last [.given 16, .cleared, .absent] : Setting Nat) = .cleared := rfl

end Setting

namespace Schema

variable {D : Type} {S : Schema D} {onto : D → D → D}

/-- How records act as layers. The record that is laid over stands first. -/
structure Layers (S : Schema D) (onto : D → D → D) (blank : D) : Prop where
  assoc : ∀ a b c, onto (onto c b) a = onto c (onto b a)
  onto_blank : ∀ a, onto a blank = a
  blank_onto : ∀ a, onto blank a = a
  self : ∀ a, onto a a = a
  /-- Of the template and the entries the last that mentions a field settles it. -/
  get_merged : ∀ (template : D) (entries : List D) (f : S.Field),
    S.get (entries.foldl (fun merged entry => onto entry merged) template) f =
      Setting.last ((template :: entries).map fun r => S.get r f)

theorem Overlays.get_foldl (h : S.Overlays onto) (template : D) (entries : List D)
    (f : S.Field) :
    S.get (entries.foldl (fun merged entry => onto entry merged) template) f =
      (entries.map fun r => S.get r f).foldl (fun base setting => setting.onto base)
        (S.get template f) := by
  induction entries generalizing template with
  | nil => rfl
  | cons entry entries ih =>
      rw [List.foldl_cons, ih, h, List.map_cons, List.foldl_cons]

theorem Overlays.layers (h : S.Overlays onto) {blank : D} (hblank : S.Blank blank) :
    S.Layers onto blank where
  assoc a b c := by
    apply ext
    intro f
    rw [h, h, h, h, Setting.onto_assoc]
  onto_blank a := by
    apply ext
    intro f
    rw [h, hblank, Setting.onto_absent]
  blank_onto a := by
    apply ext
    intro f
    rw [h, hblank, Setting.absent_onto]
  self a := by
    apply ext
    intro f
    rw [h, Setting.onto_self]
  get_merged template entries f := by
    rw [h.get_foldl, Setting.foldl_onto, List.map_cons]

end Schema

/-- Drafts are layers, in which the last setting that is present wins. Variant markers can be
taken off before or after an entry is laid over its template. -/
theorem layers_of_drafts :
    Comparison.Draft.schema.Layers Comparison.Draft.onto {} ∧
      Opcode.Draft.schema.Layers Opcode.Draft.onto {} ∧
        ∀ entry template : Opcode.Draft,
          (entry.onto template).unmarked = entry.unmarked.onto template.unmarked := by
  refine ⟨Comparison.Draft.overlays_onto.layers Comparison.Draft.blank_default,
    Opcode.Draft.overlays_onto.layers Opcode.Draft.blank_default, ?_⟩
  intro entry template
  rfl

end InstructionSet
