import InstructionSet.Proofs.Form.Tokens
import Mathlib.Algebra.GroupWithZero.Nat
import Mathlib.Algebra.Order.BigOperators.Group.List
import Mathlib.Algebra.Order.Group.Nat

/-!
# Forms of well-formed templates

Tokens are replaced one after the other, each in what the replacements before it have left. If
templates and forms of comparisons are put together from tokens and texts without braces, and types
have no braces in their names, this is the same as rendering them piece by piece.
-/

namespace InstructionSet

namespace Template

structure Literal where
  text : String
  braceFree : Text.BraceFree text.toList

inductive Piece where
  | literal (l : Literal)
  | token (t : Token)

/-- The piece with `value` in place of tokens. -/
def Piece.render (value : Token → String) : Piece → String
  | literal l => l.text
  | token t => value t

def render (value : Token → String) (pieces : List Piece) : String :=
  String.join (pieces.map (Piece.render value))

/-- The template that is put together from `pieces`. -/
def spell (pieces : List Piece) : String := render Token.text pieces

theorem render_cons (value : Token → String) (p : Piece) (pieces : List Piece) :
    render value (p :: pieces) = p.render value ++ render value pieces := by
  rw [render, List.map_cons, String.join_cons, render]

theorem render_append (value : Token → String) (pieces more : List Piece) :
    render value (pieces ++ more) = render value pieces ++ render value more := by
  rw [render, List.map_append, String.join_append, render, render]

/-! ## Replacement in pieces -/

section

variable {t u : Token} {value : String}

theorem replace_eq_append_iff {text first rest : String} :
    Text.replace t.text value text = first ++ Text.replace t.text value rest ↔
      Text.replaceFrom (Text.braced t.name) value.toList 0 text.toList =
        first.toList ++ Text.replaceFrom (Text.braced t.name) value.toList 0 rest.toList := by
  rw [← String.toList_inj, String.toList_append, Text.toList_replace, Text.toList_replace,
    t.toList_text]

theorem replace_append_of_braceFree {first : String} (h : Text.BraceFree first.toList)
    (rest : String) :
    Text.replace t.text value (first ++ rest) = first ++ Text.replace t.text value rest := by
  rw [replace_eq_append_iff, String.toList_append,
    Text.onePass_replaceFrom.append_of_not_mem h.opening]

theorem replace_self_append (rest : String) :
    Text.replace t.text value (t.text ++ rest) = value ++ Text.replace t.text value rest := by
  rw [replace_eq_append_iff, String.toList_append, t.toList_text,
    Text.replaceFrom_token_append (Text.braced_ne_nil t.name)]

theorem replace_append_of_ne (h : t ≠ u) (rest : String) :
    Text.replace t.text value (u.text ++ rest) = u.text ++ Text.replace t.text value rest := by
  rw [replace_eq_append_iff, String.toList_append, u.toList_text]
  exact Text.onePass_replaceFrom.braced_append u.braceFree_name
    (List.forall_mem_singleton.mpr ⟨t.braceFree_name, Token.name_injective.ne h⟩) rest.toList

@[simp] theorem replace_empty : Text.replace t.text value "" = "" := rfl

theorem replace_of_braceFree {text : String} (h : Text.BraceFree text.toList) :
    Text.replace t.text value text = text := by
  have happend := @replace_append_of_braceFree t value text h ""
  rwa [replace_empty, String.append_empty] at happend

@[simp] theorem replace_self : Text.replace t.text value t.text = value := by
  have happend := @replace_self_append t value ""
  rwa [replace_empty, String.append_empty, String.append_empty] at happend

theorem replace_of_ne (h : t ≠ u) : Text.replace t.text value u.text = u.text := by
  have happend := @replace_append_of_ne t u value h ""
  rwa [replace_empty, String.append_empty] at happend

end

/-- The text is put together from pieces. -/
def WellFormed (text : String) : Prop := ∃ pieces, text = spell pieces

section

variable {t : Token} {value text : String}

theorem Literal.wellFormed (l : Literal) : WellFormed l.text :=
  ⟨[.literal l], by simp [spell, render, Piece.render]⟩

theorem Token.wellFormed (t : Token) : WellFormed t.text :=
  ⟨[.token t], by simp [spell, render, Piece.render]⟩

theorem WellFormed.render {value : Token → String} (h : ∀ u, WellFormed (value u))
    (pieces : List Piece) : WellFormed (render value pieces) := by
  induction pieces with
  | nil => exact ⟨[], rfl⟩
  | cons p pieces ih =>
      have hp : WellFormed (p.render value) := by
        cases p with
        | literal l => exact l.wellFormed
        | token u => exact h u
      obtain ⟨first, hfirst⟩ := hp
      obtain ⟨rest, hrest⟩ := ih
      exact ⟨first ++ rest, by rw [render_cons, hfirst, hrest, spell, spell, spell, render_append]⟩

/-- No token lies across the end of a well-formed text. -/
theorem WellFormed.replace_append (h : WellFormed text) (rest : String) :
    Text.replace t.text value (text ++ rest) =
      Text.replace t.text value text ++ Text.replace t.text value rest := by
  obtain ⟨pieces, rfl⟩ := h
  induction pieces with
  | nil => simp [spell, Template.render]
  | cons p pieces ih =>
      rw [spell, render_cons, String.append_assoc]
      rw [spell] at ih
      cases p with
      | literal l =>
          rw [Piece.render, replace_append_of_braceFree l.braceFree,
            replace_append_of_braceFree l.braceFree, ih, String.append_assoc]
      | token u =>
          by_cases hu : t = u
          · subst hu
            rw [Piece.render, replace_self_append, replace_self_append, ih, String.append_assoc]
          · rw [Piece.render, replace_append_of_ne hu, replace_append_of_ne hu, ih,
              String.append_assoc]

end

theorem wellFormed_of_braceFree {text : String} (h : Text.BraceFree text.toList) :
    WellFormed text :=
  Literal.wellFormed ⟨text, h⟩

/-- What `f` does to a template it does to each piece by itself. -/
structure Piecewise (f : String → String) : Prop where
  wellFormed : ∀ {text}, WellFormed text → WellFormed (f text)
  render : ∀ {value : Token → String}, (∀ t, WellFormed (value t)) → ∀ pieces,
    f (render value pieces) = Template.render (fun t => f (value t)) pieces

namespace Piecewise

theorem comp {f g : String → String} (hf : Piecewise f) (hg : Piecewise g) :
    Piecewise fun text => f (g text) where
  wellFormed h := hf.wellFormed (hg.wellFormed h)
  render h pieces := by rw [hg.render h, hf.render fun t => hg.wellFormed (h t)]

theorem spell {f : String → String} (hf : Piecewise f) (pieces : List Piece) :
    f (spell pieces) = Template.render (fun t => f t.text) pieces :=
  hf.render Token.wellFormed pieces

theorem replace (t : Token) {value : String} (hvalue : WellFormed value) :
    Piecewise (Text.replace t.text value) := by
  have hrender {ρ : Token → String} (h : ∀ u, WellFormed (ρ u)) (pieces : List Piece) :
      Text.replace t.text value (Template.render ρ pieces) =
        Template.render (fun u => Text.replace t.text value (ρ u)) pieces := by
    induction pieces with
    | nil => rfl
    | cons p pieces ih =>
        rw [render_cons, render_cons]
        cases p with
        | literal l =>
            rw [Piece.render, Piece.render, replace_append_of_braceFree l.braceFree, ih]
        | token u => rw [Piece.render, Piece.render, (h u).replace_append, ih]
  refine ⟨?_, hrender⟩
  rintro _ ⟨pieces, rfl⟩
  rw [Template.spell, hrender Token.wellFormed]
  refine .render (fun u => ?_) pieces
  by_cases hu : t = u
  · subst hu
    rwa [replace_self]
  · rw [replace_of_ne hu]
    exact u.wellFormed

end Piecewise

/-! ## The kinds of forms -/

namespace Token

/-- Registers are rendered in all forms. -/
def single : Token → String
  | register => "r<N>"
  | floatRegister => "f<N>"
  | t => t.text

/-- What the form of a comparison is rendered by. -/
def withType (type : String) : Token → String
  | .type => type
  | t => t.single

/-- What a template is rendered by for a type of a comparison with the form `form`. -/
def compared (form : List Piece) (type : String) : Token → String
  | comparison => render (withType type) form
  | t => t.withType type

/-- What a template is rendered by for a type of the opcode. -/
def typed (fitSize : Option UInt32) (type : String) : Token → String
  | .type => type
  | intFit => Template.intFit fitSize
  | floatFit => Template.floatFit fitSize
  | t => t.single

end Token

/-! ## Rendering piece by piece -/

theorem braceFree_registers :
    Text.BraceFree "r<N>".toList ∧ Text.BraceFree "f<N>".toList := by decide

theorem renderComparison_eq (template form type : String) :
    renderComparison template form type = renderRegisters (Text.replace Token.type.text type
      (Text.replace Token.comparison.text form template)) := rfl

theorem renderType_eq (template : String) (fitSize : Option UInt32) (type : String) :
    renderType template fitSize type = Text.replace Token.floatFit.text (floatFit fitSize)
      (Text.replace Token.intFit.text (intFit fitSize)
        (Text.replace Token.type.text type template)) := rfl

theorem piecewise_renderRegisters : Piecewise renderRegisters := by
  rw [funext renderRegisters_eq]
  exact (Piecewise.replace .floatRegister (wellFormed_of_braceFree braceFree_registers.2)).comp
    (.replace .register (wellFormed_of_braceFree braceFree_registers.1))

theorem renderRegisters_text (t : Token) : renderRegisters t.text = t.single := by
  cases t <;> decide +kernel

/-- Where registers have been rendered, the tokens of other kinds are found as before. -/
theorem replace_single {t : Token} (ht : t ∉ Token.registers) (value : String) (u : Token) :
    Text.replace t.text value u.single = if u = t then value else u.single := by
  split
  · rename_i h
    subst h
    have htext : u.single = u.text := by cases u <;> first | rfl | exact absurd (by decide) ht
    rw [htext, replace_self]
  · rename_i h
    cases u with
    | register => exact replace_of_braceFree braceFree_registers.1
    | floatRegister => exact replace_of_braceFree braceFree_registers.2
    | _ => exact replace_of_ne (Ne.symm h)

theorem renderRegisters_of_braceFree {text : String} (h : Text.BraceFree text.toList) :
    renderRegisters text = text := by
  rw [renderRegisters_eq, replace_of_braceFree h, replace_of_braceFree h]

theorem renderRegisters_single (t : Token) : renderRegisters t.single = t.single := by
  cases t <;> decide +kernel

section

variable {type : String} (htype : Text.BraceFree type.toList)

include htype

/-- In the form of a comparison, types and registers are rendered. -/
theorem renderRegisters_replace_type (form : List Piece) :
    renderRegisters (Text.replace Token.type.text type (spell form)) =
      render (Token.withType type) form := by
  have htoken (t : Token) : renderRegisters (Text.replace Token.type.text type t.text) =
      t.withType type := by
    by_cases h : t = .type
    · rw [h, replace_self, renderRegisters_of_braceFree htype]
      rfl
    · rw [replace_of_ne (Ne.symm h), renderRegisters_text]
      cases t <;> first | rfl | exact absurd rfl h
  have hpiecewise :
      Piecewise fun text => renderRegisters (Text.replace Token.type.text type text) :=
    piecewise_renderRegisters.comp (.replace .type (wellFormed_of_braceFree htype))
  rw [hpiecewise.spell, funext htoken]

theorem renderComparison_spell (pieces form : List Piece) :
    renderComparison (renderRegisters (spell pieces)) (spell form) type =
      render (Token.compared form type) pieces := by
  have htoken (t : Token) :
      renderComparison (renderRegisters t.text) (spell form) type = t.compared form type := by
    rw [renderRegisters_text, renderComparison_eq, replace_single (by decide)]
    by_cases hcomparison : t = .comparison
    · rw [if_pos hcomparison, renderRegisters_replace_type htype, hcomparison]
      rfl
    · rw [if_neg hcomparison, replace_single (by decide)]
      by_cases h : t = .type
      · rw [if_pos h, renderRegisters_of_braceFree htype, h]
        rfl
      · rw [if_neg h, renderRegisters_single]
        cases t <;> first | rfl | contradiction
  have hpiecewise : Piecewise fun text =>
      renderComparison (renderRegisters text) (spell form) type :=
    (piecewise_renderRegisters.comp (.replace .type (wellFormed_of_braceFree htype))).comp
      ((Piecewise.replace .comparison ⟨form, rfl⟩).comp piecewise_renderRegisters)
  rw [hpiecewise.spell, funext htoken]

theorem renderType_spell (fitSize : Option UInt32) (pieces : List Piece) :
    renderType (renderRegisters (spell pieces)) fitSize type =
      render (Token.typed fitSize type) pieces := by
  have hint := (Token.inert_intFit fitSize .type).braceFree
  have hfloat := (Token.inert_floatFit fitSize .type).braceFree
  have htoken (t : Token) :
      renderType (renderRegisters t.text) fitSize type = t.typed fitSize type := by
    rw [renderRegisters_text, renderType_eq, replace_single (by decide)]
    by_cases h : t = .type
    · rw [if_pos h, replace_of_braceFree htype, replace_of_braceFree htype, h]
      rfl
    rw [if_neg h, replace_single (by decide)]
    by_cases hintFit : t = .intFit
    · rw [if_pos hintFit, replace_of_braceFree hint, hintFit]
      rfl
    rw [if_neg hintFit, replace_single (by decide)]
    by_cases hfloatFit : t = .floatFit
    · rw [if_pos hfloatFit, hfloatFit]
      rfl
    · rw [if_neg hfloatFit]
      cases t <;> first | rfl | contradiction
  have hpiecewise : Piecewise fun text => renderType (renderRegisters text) fitSize type :=
    ((Piecewise.replace .floatFit (wellFormed_of_braceFree hfloat)).comp
      ((Piecewise.replace .intFit (wellFormed_of_braceFree hint)).comp
        (.replace .type (wellFormed_of_braceFree htype)))).comp piecewise_renderRegisters
  rw [hpiecewise.spell, funext htoken]

end

theorem renderRegisters_spell (pieces : List Piece) :
    renderRegisters (spell pieces) = render Token.single pieces := by
  rw [piecewise_renderRegisters.spell, funext renderRegisters_text]

/-! ## Types told apart by their forms -/

theorem length_render (value : Token → String) (pieces : List Piece) :
    (render value pieces).length = (pieces.map fun p => (p.render value).length).sum := by
  rw [render, String.length_join, List.map_map]
  rfl

theorem length_render_typed_lt {type other : String} (hlt : type.length < other.length)
    {pieces : List Piece} (h : .token .type ∈ pieces) (fitSize : Option UInt32) :
    (render (Token.typed fitSize type) pieces).length <
      (render (Token.typed fitSize other) pieces).length := by
  rw [length_render, length_render]
  refine List.sum_lt_sum _ _ (fun p _ => ?_) ⟨_, h, hlt⟩
  cases p with
  | literal l => exact le_rfl
  | token t =>
      cases t with
      | type => exact hlt.le
      | _ => exact le_rfl

/-- Where pieces are as long in one rendering as in the other, they can be compared one by one. -/
theorem render_eq_of_mem {value other : Token → String}
    (hlength : ∀ p : Piece, (p.render value).length = (p.render other).length)
    {pieces : List Piece} (h : render value pieces = render other pieces) {p : Piece}
    (hp : p ∈ pieces) : p.render value = p.render other := by
  induction pieces with
  | nil => cases hp
  | cons q pieces ih =>
      rw [render_cons, render_cons, ← String.toList_inj, String.toList_append,
        String.toList_append] at h
      obtain ⟨hq, hrest⟩ := List.append_inj h (hlength q)
      rcases List.mem_cons.mp hp with rfl | hp
      · exact String.toList_inj.mp hq
      · exact ih (String.toList_inj.mp hrest) hp

theorem render_typed_injective {pieces : List Piece} (h : .token .type ∈ pieces)
    (fitSize : Option UInt32) :
    Function.Injective fun type => render (Token.typed fitSize type) pieces := by
  intro type other heq
  have hlength : type.length = other.length := by
    rcases Nat.lt_trichotomy type.length other.length with hlt | hlength | hlt
    · exact absurd (congrArg String.length heq) (length_render_typed_lt hlt h fitSize).ne
    · exact hlength
    · exact absurd (congrArg String.length heq) (length_render_typed_lt hlt h fitSize).ne'
  refine render_eq_of_mem (fun p => ?_) heq h
  cases p with
  | literal l => rfl
  | token t =>
      cases t with
      | type => exact hlength
      | _ => rfl

end Template

namespace Instruction

open Template

/-- From a template and forms of comparisons that are put together from pieces, all forms are
rendered piece by piece. What a comparison brings is rendered too, but a further comparison in it
is not, and fit sizes are filled in for types of the opcode only, whose forms tell them apart. -/
theorem forms_of_pieces (x : Instruction) (comparisons : Table Comparison) (pieces : List Piece)
    (parts : Comparison → List Piece) (hform : x.traits.form = spell pieces)
    (hparts : ∀ c ∈ comparisons.entries, c.form = spell (parts c))
    (htypes : ∀ type ∈ x.types, Text.BraceFree type.toList)
    (hcomparisons : ∀ c ∈ comparisons.entries, ∀ type ∈ c.types, Text.BraceFree type.toList) :
    (x.forms comparisons =
      if x.traits.comparison then
        comparisons.entries.flatMap fun c => c.types.map fun type =>
          render (Token.compared (parts c) type) pieces
      else if x.types = [] then [render Token.single pieces]
      else x.types.map fun type => render (Token.typed x.traits.fitSize type) pieces) ∧
    (x.traits.comparison = false → .token .type ∈ pieces →
      ∀ (i j : Nat) (hi : i < x.types.length) (hj : j < x.types.length),
        x.types[i] ≠ x.types[j] → (x.forms comparisons)[i]? ≠ (x.forms comparisons)[j]?) := by
  have htyped (hc : x.traits.comparison = false) (hne : x.types ≠ []) : x.forms comparisons =
      x.types.map fun type => render (Token.typed x.traits.fitSize type) pieces := by
    rw [x.forms_of_types comparisons hc hne, hform]
    exact List.map_congr_left fun type htype => renderType_spell (htypes type htype) _ _
  constructor
  · cases hc : x.traits.comparison with
    | true =>
        rw [x.forms_of_comparison comparisons hc, hform, if_pos rfl]
        refine List.flatMap_congr fun c hmem => List.map_congr_left fun type htype => ?_
        rw [hparts c hmem, renderComparison_spell (hcomparisons c hmem type htype)]
    | false =>
        rw [if_neg Bool.false_ne_true]
        split
        · rename_i hne
          rw [x.forms_single comparisons hc hne, hform, renderRegisters_spell]
        · rename_i hne
          exact htyped hc hne
  · intro hc hpiece i j hi hj hij h
    have hne : x.types ≠ [] := List.ne_nil_of_length_pos (Nat.zero_lt_of_lt hi)
    rw [htyped hc hne, List.getElem?_map, List.getElem?_map, List.getElem?_eq_getElem hi,
      List.getElem?_eq_getElem hj] at h
    exact hij (render_typed_injective hpiece x.traits.fitSize (Option.some.inj h))

/-- The template `b{c}.{t} {r},#{fi}`. -/
def branchPieces : List Piece :=
  [.literal ⟨"b", by decide⟩, .token .comparison, .literal ⟨".", by decide⟩, .token .type,
    .literal ⟨" ", by decide⟩, .token .register, .literal ⟨",#", by decide⟩, .token .intFit]

/-- The form `lt{t}{c}{f}{ff}` of a comparison. -/
def nestedPieces : List Piece :=
  [.literal ⟨"lt", by decide⟩, .token .type, .token .comparison, .token .floatRegister,
    .token .floatFit]

/-- One template for a comparison with tokens in its form, and for two types of an opcode. -/
theorem forms_of_pieces_branch :
    let c : Comparison := ⟨"LT", "L0", "r", "r", [8], ["B"], spell nestedPieces, none⟩
    let x (comparison : Bool) : Instruction :=
      .opcode (.ofMnemonic ⟨spell branchPieces, comparison, some 8, ["B", "W"]⟩)
    (x true).forms (.ofList [c]) = ["bltB\x7bc\x7df<N>\x7bff\x7d.B r<N>,#\x7bfi\x7d"] ∧
      (x false).forms (.ofList [c]) = ["b\x7bc\x7d.B r<N>,#8", "b\x7bc\x7d.W r<N>,#8"] ∧
      ((x false).forms (.ofList [c]))[0]? ≠ ((x false).forms (.ofList [c]))[1]? := by
  intro c x
  have hentries : (Table.ofList [c]).entries = [c] := rfl
  have hparts : ∀ d ∈ (Table.ofList [c]).entries, d.form = spell nestedPieces :=
    hentries ▸ List.forall_mem_singleton.mpr rfl
  have htypes : ∀ type ∈ ["B", "W"], Text.BraceFree type.toList := by decide
  have hcomparisons : ∀ d ∈ (Table.ofList [c]).entries, ∀ type ∈ d.types,
      Text.BraceFree type.toList :=
    hentries ▸ List.forall_mem_singleton.mpr (by decide)
  have hforms (comparison : Bool) := forms_of_pieces (x comparison) (.ofList [c]) branchPieces
    (fun _ => nestedPieces) rfl hparts htypes hcomparisons
  refine ⟨(hforms true).1.trans ?_, (hforms false).1.trans ?_, ?_⟩
  · decide +kernel
  · decide +kernel
  · exact (hforms false).2 rfl (by simp [branchPieces]) 0 1 (by decide) (by decide) (by decide)

end Instruction

end InstructionSet
