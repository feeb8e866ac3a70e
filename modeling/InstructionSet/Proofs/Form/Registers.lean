import InstructionSet.Proofs.Form.Tokens

/-!
# Registers in one pass

Registers are rendered by two replacements. Neither writes anything that the other could take for a
token or a part of one, so both together are one pass over the template, in whatever order they
come, and there is nothing left for a second rendering.
-/

namespace InstructionSet

namespace Template

/-- A pass from left to right that renders a register where it meets one, and copies everything
else. -/
def scanRegisters : List Char → List Char
  | '{' :: 'r' :: '}' :: rest => "r<N>".toList ++ scanRegisters rest
  | '{' :: 'f' :: '}' :: rest => "f<N>".toList ++ scanRegisters rest
  | c :: rest => c :: scanRegisters rest
  | [] => []

namespace Token

variable {t u : Token} {v w : String}

theorem replace_of_not_occursIn {text : String} (h : ¬t.OccursIn text) :
    Text.replace t.text v text = text := by
  rw [← String.toList_inj, Text.toList_replace, Text.replaceFrom_of_not_infix h]

theorem onePass_replace_replace (hne : t ≠ u) (hv : Text.Inert v.toList u.name) :
    Text.OnePass [(u.name, w.toList), (t.name, v.toList)] fun text =>
      (Text.replace u.text w (Text.replace t.text v (String.ofList text))).toList := by
  simp only [Text.toList_replace, String.toList_ofList, toList_text]
  exact Text.onePass_replaceFrom.cons u.braceFree_name
    (List.forall_mem_singleton.mpr ⟨t.braceFree_name, name_injective.ne hne⟩)
    (List.forall_mem_singleton.mpr hv)

/-- Two tokens can be replaced in either order. -/
theorem replace_comm (hne : t ≠ u) (hv : Text.Inert v.toList u.name)
    (hw : Text.Inert w.toList t.name) (text : String) :
    Text.replace u.text w (Text.replace t.text v text) =
      Text.replace t.text v (Text.replace u.text w text) := by
  have hfirst := (onePass_replace_replace (w := w) hne hv).perm (.swap _ _ _)
  have hsecond := onePass_replace_replace (w := v) hne.symm hw
  have heq := congrFun (hfirst.eq hsecond) text.toList
  rwa [String.ofList_toList, String.toList_inj] at heq

end Token

theorem onePass_scanRegisters :
    Text.OnePass [(Token.floatRegister.name, "f<N>".toList), (Token.register.name, "r<N>".toList)]
      scanRegisters where
  nil := rfl
  token := List.forall_mem_cons.mpr ⟨fun _ => rfl, List.forall_mem_singleton.mpr fun _ => rfl⟩
  copied c rest h := by
    have hfloat := h _ List.mem_cons_self
    have hregister := h _ (List.mem_cons_of_mem _ List.mem_cons_self)
    rw [scanRegisters]
    · rintro after rfl rfl
      exact hregister (List.prefix_append _ after)
    · rintro after rfl rfl
      exact hfloat (List.prefix_append _ after)

theorem renderRegisters_eq_scan (text : String) :
    renderRegisters text = String.ofList (scanRegisters text.toList) := by
  have hreplace := Token.onePass_replace_replace (t := .register) (w := "f<N>") (by decide)
    (Token.inert_registers .floatRegister).1
  have heq := congrFun (hreplace.eq onePass_scanRegisters) text.toList
  rw [String.ofList_toList] at heq
  rw [renderRegisters_eq, ← heq, String.ofList_toList]

theorem renderRegisters_renderRegisters (text : String) :
    renderRegisters (renderRegisters text) = renderRegisters text := by
  have hregister : ¬Token.register.OccursIn (renderRegisters text) :=
    not_occursIn_renderRegisters (by decide) text
  have hfloatRegister : ¬Token.floatRegister.OccursIn (renderRegisters text) :=
    not_occursIn_renderRegisters (by decide) text
  rw [renderRegisters_eq (renderRegisters text), Token.replace_of_not_occursIn hregister,
    Token.replace_of_not_occursIn hfloatRegister]

/-- Whatever a template looks like, rendering leaves no register in it and none for a second time,
may take the kinds of registers in either order, and is a single pass from left to right. -/
theorem registers_rendered_in_one_pass (text : String) :
    (∀ t ∈ Token.registers, ¬t.OccursIn (renderRegisters text)) ∧
    renderRegisters (renderRegisters text) = renderRegisters text ∧
    Text.replace registerToken "r<N>" (Text.replace floatRegisterToken "f<N>" text) =
      renderRegisters text ∧
    renderRegisters text = String.ofList (scanRegisters text.toList) := by
  refine ⟨fun t ht => not_occursIn_renderRegisters ht text, renderRegisters_renderRegisters text,
    ?_, renderRegisters_eq_scan text⟩
  exact Token.replace_comm (t := .floatRegister) (u := .register) (by decide)
    (Token.inert_registers .register).2 (Token.inert_registers .floatRegister).1 text

/-- Braces that do not pair up around a register are copied. -/
example : renderRegisters "\x7b\x7br\x7d\x7b\x7bf\x7dr\x7d\x7br" =
    "\x7br<N>\x7bf<N>r\x7d\x7br" := by
  decide +kernel

end Template

end InstructionSet
