import InstructionSet.Proofs.Form.Expansion
import InstructionSet.Proofs.Text.Replace
import Mathlib.Data.List.Forall2

/-!
# Tokens left in forms

No register token is left in a form, unless the name of a type brings one to a place where registers
have been rendered before. Of the tokens for fit sizes none is left where types are filled in.
-/

namespace InstructionSet

namespace Template

inductive Token where
  | register
  | floatRegister
  | comparison
  | type
  | intFit
  | floatFit
  deriving DecidableEq, Repr

namespace Token

def name : Token → List Char
  | register => ['r']
  | floatRegister => ['f']
  | comparison => ['c']
  | type => ['t']
  | intFit => ['f', 'i']
  | floatFit => ['f', 'f']

def text : Token → String
  | register => registerToken
  | floatRegister => floatRegisterToken
  | comparison => comparisonToken
  | type => typeToken
  | intFit => intFitToken
  | floatFit => floatFitToken

theorem toList_text (t : Token) : t.text.toList = Text.braced t.name := by cases t <;> rfl

theorem braceFree_name (t : Token) : Text.BraceFree t.name := by cases t <;> decide

theorem name_injective : Function.Injective name := by
  intro t u h
  cases t <;> cases u <;> first | rfl | cases h

def OccursIn (t : Token) (text : String) : Prop := t.text.toList <:+: text.toList

instance (t : Token) (text : String) : Decidable (t.OccursIn text) :=
  inferInstanceAs (Decidable (t.text.toList <:+: text.toList))

variable {t u : Token} {value text : String}

theorem not_occursIn_replace (hvalue : Text.Inert value.toList t.name) :
    ¬t.OccursIn (Text.replace t.text value text) := by
  rw [OccursIn, Text.toList_replace, toList_text]
  exact Text.onePass_replaceFrom.not_infix List.mem_cons_self (List.forall_mem_singleton.mpr hvalue)

theorem occursIn_of_replace (hvalue : Text.Inert value.toList u.name)
    (h : u.OccursIn (Text.replace t.text value text)) : u.OccursIn text := by
  rw [OccursIn, Text.toList_replace, toList_text, toList_text] at h
  rw [OccursIn, toList_text]
  exact Text.onePass_replaceFrom.infix_of_infix (List.forall_mem_singleton.mpr hvalue) h

/-- Replacing one token makes no difference to another. -/
theorem occursIn_replace_iff (hne : t ≠ u) (hvalue : Text.Inert value.toList u.name) :
    u.OccursIn (Text.replace t.text value text) ↔ u.OccursIn text := by
  refine ⟨occursIn_of_replace hvalue, fun h => ?_⟩
  rw [OccursIn, toList_text] at h
  rw [OccursIn, Text.toList_replace, toList_text, toList_text]
  exact Text.onePass_replaceFrom.infix_pass_of_infix u.braceFree_name
    (List.forall_mem_singleton.mpr ⟨t.braceFree_name, name_injective.ne hne⟩) h

def registers : List Token := [register, floatRegister]

def fits : List Token := [intFit, floatFit]

/-! ## What is written for tokens -/

theorem inert_registers (t : Token) :
    Text.Inert "r<N>".toList t.name ∧ Text.Inert "f<N>".toList t.name := by
  cases t <;> exact ⟨⟨by decide, by decide⟩, ⟨by decide, by decide⟩⟩

/-- No token has a digit in its name. -/
theorem inert_of_digit {c : Char} {rest : List Char} (hc : c.isDigit)
    (h : Text.BraceFree (c :: rest)) (t : Token) : Text.Inert (c :: rest) t.name := by
  refine Text.inert_of_head h fun hmem => ?_
  have hname : t.name.all fun d => !d.isDigit := by cases t <;> rfl
  simpa [hc] using List.all_eq_true.mp hname c hmem

theorem inert_decimal (n : Nat) (ending : List Char) (hending : Text.BraceFree ending)
    (t : Token) : Text.Inert ((toString n).toList ++ ending) t.name := by
  have htoString : (toString n).toList = Nat.toDigits 10 n := Nat.toList_repr
  have hdigits : ∀ c ∈ Nat.toDigits 10 n, c.isDigit := fun _ hc =>
    Nat.isDigit_of_mem_toDigits (by decide) (by decide) hc
  obtain ⟨c, rest, hcons⟩ := List.exists_cons_of_ne_nil (Nat.toDigits_ne_nil (n := n) (b := 10))
  have hfree : Text.BraceFree (Nat.toDigits 10 n ++ ending) := by
    constructor
    · exact fun h => (List.mem_append.mp h).elim (fun h => absurd (hdigits _ h) (by decide))
        hending.opening
    · exact fun h => (List.mem_append.mp h).elim (fun h => absurd (hdigits _ h) (by decide))
        hending.closing
  rw [htoString, hcons, List.cons_append]
  rw [hcons, List.cons_append] at hfree
  exact inert_of_digit (hdigits c (hcons ▸ List.mem_cons_self)) hfree t

theorem inert_noFitSize (t : Token) : Text.Inert noFitSize.toList t.name := by
  cases t <;> exact ⟨by decide, by decide⟩

theorem inert_intFit (fitSize : Option UInt32) (t : Token) :
    Text.Inert (Template.intFit fitSize).toList t.name := by
  cases fitSize with
  | none => exact t.inert_noFitSize
  | some size =>
      have h := inert_decimal size.toNat [] (by decide) t
      rwa [List.append_nil] at h

theorem inert_floatFit (fitSize : Option UInt32) (t : Token) :
    Text.Inert (Template.floatFit fitSize).toList t.name := by
  cases fitSize with
  | none => exact t.inert_noFitSize
  | some size =>
      have h := inert_decimal size.toNat ".0".toList (by decide) t
      rwa [← String.toList_append] at h

/-- A name without braces completes a register token only in the braces of a template. -/
theorem inert_type {type : String} (hfree : Text.BraceFree type.toList)
    (hname : type ∉ ["", "r", "f"]) (ht : t ∈ registers) : Text.Inert type.toList t.name := by
  have hletter : ∃ c, t.name = [c] ∧ c ∈ ['r', 'f'] := by
    simp only [registers, List.mem_cons, List.not_mem_nil, or_false] at ht
    rcases ht with rfl | rfl
    · exact ⟨'r', rfl, by decide⟩
    · exact ⟨'f', rfl, by decide⟩
  obtain ⟨c, hc, hmem⟩ := hletter
  refine ⟨hfree, fun hpart => hname ?_⟩
  rw [hc] at hpart
  rw [← String.ofList_toList (s := type)]
  rcases List.sublist_singleton.mp hpart.sublist with h | h
  · rw [h]
    exact List.mem_cons_self
  · rw [h]
    have hletters : ∀ c ∈ ['r', 'f'], String.ofList [c] ∈ ["", "r", "f"] :=
      List.forall_mem_cons.mpr ⟨by decide, List.forall_mem_singleton.mpr (by decide)⟩
    exact hletters c hmem

end Token

/-! ## Rendering -/

open Token

theorem renderRegisters_eq (text : String) :
    renderRegisters text = Text.replace Token.floatRegister.text "f<N>"
      (Text.replace Token.register.text "r<N>" text) := rfl

theorem not_occursIn_renderRegisters {t : Token} (ht : t ∈ registers) (text : String) :
    ¬t.OccursIn (renderRegisters text) := by
  simp only [registers, List.mem_cons, List.not_mem_nil, or_false] at ht
  rcases ht with rfl | rfl
  · exact fun h => not_occursIn_replace (inert_registers register).1
      (occursIn_of_replace (t := floatRegister) (inert_registers register).2 h)
  · exact not_occursIn_replace (inert_registers floatRegister).2

/-- Fit sizes neither bring nor take register tokens. -/
theorem occursIn_renderType_iff {t : Token} (ht : t ∈ registers) (template : String)
    (fitSize : Option UInt32) (type : String) :
    t.OccursIn (renderType template fitSize type) ↔
      t.OccursIn (Text.replace typeToken type template) := by
  have hne : ∀ t ∈ registers, Token.intFit ≠ t ∧ Token.floatFit ≠ t := by decide
  have hfloat (text : String) :
      t.OccursIn (Text.replace Token.floatFit.text (floatFit fitSize) text) ↔ t.OccursIn text :=
    occursIn_replace_iff (hne t ht).2 (inert_floatFit fitSize t)
  have hint (text : String) :
      t.OccursIn (Text.replace Token.intFit.text (intFit fitSize) text) ↔ t.OccursIn text :=
    occursIn_replace_iff (hne t ht).1 (inert_intFit fitSize t)
  exact (hfloat _).trans (hint _)

theorem not_occursIn_renderType {t : Token} (ht : t ∈ fits) (template : String)
    (fitSize : Option UInt32) (type : String) : ¬t.OccursIn (renderType template fitSize type) := by
  simp only [fits, List.mem_cons, List.not_mem_nil, or_false] at ht
  rcases ht with rfl | rfl
  · exact fun h => not_occursIn_replace (inert_intFit fitSize .intFit)
      (occursIn_of_replace (t := .floatFit) (inert_floatFit fitSize .intFit) h)
  · exact not_occursIn_replace (inert_floatFit fitSize .floatFit)

end Template

namespace Instruction

open Template

variable (x : Instruction) (comparisons : Table Comparison)

theorem forms_of_comparison (hc : x.traits.comparison = true) :
    x.forms comparisons = comparisons.entries.flatMap fun c =>
      c.types.map (renderComparison (renderRegisters x.traits.form) c.form) := by
  rw [forms_eq_listed]
  exact if_pos hc

theorem forms_of_types (hc : x.traits.comparison = false) (htypes : x.types ≠ []) :
    x.forms comparisons =
      x.types.map (renderType (renderRegisters x.traits.form) x.traits.fitSize) := by
  rw [forms_eq_listed, listed]
  simp only [hc, if_pos htypes]
  cases x.traits.fitSize <;> rfl

theorem forms_single (hc : x.traits.comparison = false) (htypes : x.types = []) :
    x.forms comparisons = [renderRegisters x.traits.form] := by
  rw [forms_eq_listed, listed]
  simp [hc, htypes]

/-- Register tokens are rendered in all forms of comparisons and in single forms. The form of a type
has one exactly if the template has it with the type in place, which needs a name with braces, an
empty name, or a name that is the letter of a register. -/
theorem registers_rendered :
    ((x.traits.comparison ∨ x.types = []) →
      ∀ form ∈ x.forms comparisons, ∀ t ∈ Token.registers, ¬t.OccursIn form) ∧
    (x.traits.comparison = false → x.types ≠ [] →
      List.Forall₂ (fun type form => ∀ t ∈ Token.registers,
        (t.OccursIn form ↔
          t.OccursIn (Text.replace typeToken type (renderRegisters x.traits.form))) ∧
        (Text.BraceFree type.toList → type ∉ ["", "r", "f"] → ¬t.OccursIn form))
        x.types (x.forms comparisons)) := by
  constructor
  · intro h form hform t ht
    cases hc : x.traits.comparison with
    | true =>
        rw [x.forms_of_comparison comparisons hc] at hform
        obtain ⟨c, -, hform⟩ := List.mem_flatMap.mp hform
        obtain ⟨type, -, rfl⟩ := List.mem_map.mp hform
        exact not_occursIn_renderRegisters ht _
    | false =>
        have htypes : x.types = [] := h.resolve_left (by simp [hc])
        rw [x.forms_single comparisons hc htypes, List.mem_singleton] at hform
        exact hform ▸ not_occursIn_renderRegisters ht _
  · intro hc htypes
    rw [x.forms_of_types comparisons hc htypes, List.forall₂_map_right_iff, List.forall₂_same]
    intro type _ t ht
    have hiff := occursIn_renderType_iff ht (renderRegisters x.traits.form) x.traits.fitSize type
    refine ⟨hiff, fun hfree hname hform => ?_⟩
    exact not_occursIn_renderRegisters ht x.traits.form
      (Token.occursIn_of_replace (t := .type) (Token.inert_type hfree hname ht) (hiff.mp hform))

/-- A move for two types, of which the second brings a token of its own. -/
theorem registers_rendered_move :
    let x : Instruction := .opcode (.ofMnemonic
      ⟨"mv.\x7b\x7bt\x7d\x7d \x7br\x7d", false, some 8, ["W", "L\x7bf\x7d"]⟩)
    x.traits.comparison = false ∧ x.types ≠ [] ∧
      x.forms .empty = ["mv.\x7bW\x7d r<N>", "mv.\x7bL\x7bf\x7d\x7d r<N>"] ∧
      (∀ t ∈ Token.registers, ¬t.OccursIn "mv.\x7bW\x7d r<N>") ∧
      Token.floatRegister.OccursIn "mv.\x7bL\x7bf\x7d\x7d r<N>" := by
  intro x
  have hforms : x.forms .empty = ["mv.\x7bW\x7d r<N>", "mv.\x7bL\x7bf\x7d\x7d r<N>"] :=
    (x.forms_of_types .empty rfl (List.cons_ne_nil _ _)).trans (by decide +kernel)
  have h := (x.registers_rendered .empty).2 rfl (List.cons_ne_nil _ _)
  have htypes : x.types = ["W", "L\x7bf\x7d"] := rfl
  rw [hforms, htypes, List.forall₂_cons, List.forall₂_cons] at h
  obtain ⟨hfirst, hsecond, -⟩ := h
  exact ⟨rfl, List.cons_ne_nil _ _, hforms,
    fun t ht => (hfirst t ht).2 (by decide) (by decide),
    (hsecond .floatRegister (by decide)).1.mpr (by decide +kernel)⟩

/-- The token that a type brings is left as it is. -/
theorem register_left_in_typed_form :
    let x : Instruction := .opcode (.ofMnemonic ⟨"ld.{t}", false, none, ["{r}"]⟩)
    x.forms .empty = ["ld.{r}"] ∧ Token.register.OccursIn "ld.{r}" := by
  intro x
  have htypes : x.types ≠ [] := List.cons_ne_nil _ _
  constructor
  · rw [x.forms_of_types .empty rfl htypes]
    decide +kernel
  · decide

/-- Each type has its form, and no token for a fit size is left in it, whatever the type is called
and whatever the fit size is. -/
theorem fits_rendered (hc : x.traits.comparison = false) (htypes : x.types ≠ []) :
    (x.forms comparisons).length = x.types.length ∧
      ∀ form ∈ x.forms comparisons, ∀ t ∈ Token.fits, ¬t.OccursIn form := by
  rw [x.forms_of_types comparisons hc htypes]
  refine ⟨List.length_map _, fun form hform t ht => ?_⟩
  obtain ⟨type, -, rfl⟩ := List.mem_map.mp hform
  exact not_occursIn_renderType ht _ _ _

/-- Types that complete tokens with the template, or bring parts of them. -/
theorem fits_rendered_nested :
    let x : Instruction := .opcode (.ofMnemonic
      ⟨"imm.\x7b\x7bt\x7d\x7d #\x7bf\x7bt\x7d", false, some 16,
        ["fi", "\x7bff", "i\x7d\x7bfi\x7d"]⟩)
    x.traits.comparison = false ∧ x.types ≠ [] ∧
      x.forms .empty =
        ["imm.16 #\x7bffi", "imm.\x7b16.0 #\x7bf\x7bff", "imm.\x7bi\x7d16\x7d #1616"] ∧
      ∀ form ∈ x.forms .empty, ∀ t ∈ Token.fits, ¬t.OccursIn form := by
  intro x
  have htypes : x.types ≠ [] := List.cons_ne_nil _ _
  refine ⟨rfl, htypes, ?_, (x.fits_rendered .empty rfl htypes).2⟩
  rw [x.forms_of_types .empty rfl htypes]
  decide +kernel

end Instruction

end InstructionSet
