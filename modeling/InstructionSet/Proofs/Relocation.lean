import InstructionSet.Outcome

/-!
# Runs that differ in the names of documents

Errors and warnings call documents by the names that a store gives them. Two runs are compared up
to these names: step by step they give related results, the one's error or warning where the other
has it.
-/

namespace InstructionSet

/-- How another store calls documents, and the faults that it finds in them. Only a document that
is not there may be told of in other words. -/
structure Relocation where
  name : String → String
  fault : LoadFault → LoadFault
  fault_eq : ∀ f, f ≠ .noSuchDocument → fault f = f

variable {α β γ δ : Type} {ρ : Relocation}

def Error.relocate (ρ : Relocation) : Error → Error
  | .load document fault => .load (ρ.name document) (ρ.fault fault)
  | e => e

def Warning.relocate (ρ : Relocation) : Warning → Warning
  | .opcodeRedefined opcode document => .opcodeRedefined opcode (ρ.name document)
  | w => w

namespace Relocation

/-- Nothing is called otherwise. -/
def identity : Relocation := ⟨id, id, fun _ _ => rfl⟩

theorem error_identity (e : Error) : e.relocate identity = e := by cases e <;> rfl

theorem warning_identity (w : Warning) : w.relocate identity = w := by cases w <;> rfl

/-- Related values, or an error and the same error relocated. -/
inductive Results (ρ : Relocation) (R : α → β → Prop) : Except Error α → Except Error β → Prop where
  | ok {a : α} {b : β} (related : R a b) : Results ρ R (.ok a) (.ok b)
  | error (e : Error) : Results ρ R (.error e) (.error (e.relocate ρ))

/-- Related results, after warnings of which one run's are those of the other relocated. -/
structure Outcomes (ρ : Relocation) (R : α → β → Prop) (x : Outcome α) (y : Outcome β) :
    Prop where
  warnings : y.warnings = x.warnings.map (Warning.relocate ρ)
  result : ρ.Results R x.result y.result

/-! ## Steps in sequence -/

variable {R : α → β → Prop} {Q : γ → δ → Prop}

theorem Results.bind {x : Except Error α} {y : Except Error β} (h : ρ.Results R x y)
    {f : α → Except Error γ} {g : β → Except Error δ}
    (hfg : ∀ a b, R a b → ρ.Results Q (f a) (g b)) : ρ.Results Q (x >>= f) (y >>= g) := by
  cases h with
  | ok related => exact hfg _ _ related
  | error e => exact .error e

/-- The same fault is found in a document under either name. -/
theorem Results.fault (name : String) {f : LoadFault} (hf : f ≠ .noSuchDocument) :
    ρ.Results R (.error (.load name f)) (.error (.load (ρ.name name) f)) := by
  have hrelocate : Error.load (ρ.name name) f = (Error.load name f).relocate ρ := by
    rw [Error.relocate, ρ.fault_eq f hf]
  rw [hrelocate]
  exact .error _

theorem Results.mono {R' : α → β → Prop} {x : Except Error α} {y : Except Error β}
    (h : ρ.Results R x y) (hR : ∀ a b, R a b → R' a b) : ρ.Results R' x y := by
  cases h with
  | ok related => exact .ok (hR _ _ related)
  | error e => exact .error e

/-- What follows a step may use that the step gave its value. -/
theorem Results.attach {x : Except Error α} {y : Except Error β} (h : ρ.Results R x y) :
    ρ.Results (fun a b => x = .ok a ∧ R a b) x y := by
  cases h with
  | ok related => exact .ok ⟨rfl, related⟩
  | error e => exact .error e

theorem Results.ok_iff {x y : Except Error α} (h : ρ.Results Eq x y) {a : α} :
    y = .ok a ↔ x = .ok a := by
  cases h with
  | ok related => rw [related]
  | error e => exact iff_of_false nofun nofun

theorem Results.error_iff {x : Except Error α} {y : Except Error β} (h : ρ.Results R x y)
    {e : Error} : y = .error e ↔ ∃ cause, x = .error cause ∧ e = cause.relocate ρ := by
  cases h with
  | ok related => exact iff_of_false nofun nofun
  | error cause =>
      constructor
      · rintro ⟨⟩
        exact ⟨cause, rfl, rfl⟩
      · rintro ⟨_, ⟨⟩, rfl⟩
        rfl

/-- Only documents are called otherwise. -/
theorem Results.error_iff_of_ne_load {x : Except Error α} {y : Except Error β}
    (h : ρ.Results R x y) {e : Error} (he : ∀ document fault, e ≠ .load document fault) :
    y = .error e ↔ x = .error e := by
  rw [h.error_iff]
  constructor
  · rintro ⟨cause, hx, rfl⟩
    cases cause with
    | load document fault => exact absurd rfl (he _ _)
    | _ => exact hx
  · intro hx
    refine ⟨e, hx, ?_⟩
    cases e with
    | load document fault => exact absurd rfl (he _ _)
    | _ => rfl

theorem Results.load_iff {x : Except Error α} {y : Except Error β} (h : ρ.Results R x y)
    {document : String} {fault : LoadFault} :
    y = .error (.load document fault) ↔ ∃ name cause,
      x = .error (.load name cause) ∧ document = ρ.name name ∧ fault = ρ.fault cause := by
  rw [h.error_iff]
  constructor
  · rintro ⟨cause, hx, hcause⟩
    cases cause <;> cases hcause
    exact ⟨_, _, hx, rfl, rfl⟩
  · rintro ⟨name, cause, hx, rfl, rfl⟩
    exact ⟨_, hx, rfl⟩

theorem Results.mapM {f g : α → Except Error β} (h : ∀ a, ρ.Results Eq (f a) (g a))
    (list : List α) : ρ.Results Eq (list.mapM f) (list.mapM g) := by
  induction list with
  | nil => exact .ok rfl
  | cons a rest ih =>
      rw [List.mapM_cons, List.mapM_cons]
      refine (h a).bind ?_
      rintro b _ rfl
      refine ih.bind ?_
      rintro bs _ rfl
      exact .ok rfl

namespace Outcomes

theorem pure {a : α} {b : β} (related : R a b) : ρ.Outcomes R (pure a) (pure b) :=
  ⟨rfl, .ok related⟩

theorem ofExcept {x : Except Error α} {y : Except Error β} (h : ρ.Results R x y) :
    ρ.Outcomes R (.ofExcept x) (.ofExcept y) :=
  ⟨rfl, h⟩

theorem warnIf (condition : Bool) (w : Warning) :
    ρ.Outcomes Eq (.warnIf condition w) (.warnIf condition (w.relocate ρ)) := by
  cases condition <;> exact ⟨rfl, .ok rfl⟩

theorem bind {x : Outcome α} {y : Outcome β} (h : ρ.Outcomes R x y) {f : α → Outcome γ}
    {g : β → Outcome δ} (hfg : ∀ a b, R a b → ρ.Outcomes Q (f a) (g b)) :
    ρ.Outcomes Q (x >>= f) (y >>= g) := by
  obtain ⟨xs, x⟩ := x
  obtain ⟨ys, y⟩ := y
  obtain ⟨rfl, hresult⟩ := h
  cases hresult with
  | ok related =>
      obtain ⟨hwarnings, hrest⟩ := hfg _ _ related
      rw [Outcome.bind_of_ok rfl, Outcome.bind_of_ok rfl]
      exact ⟨by rw [hwarnings, List.map_append], hrest⟩
  | error e => exact ⟨rfl, .error e⟩

theorem ofExcept_bind {x : Except Error α} {y : Except Error β} (h : ρ.Results R x y)
    {f : α → Outcome γ} {g : β → Outcome δ} (hfg : ∀ a b, R a b → ρ.Outcomes Q (f a) (g b)) :
    ρ.Outcomes Q (.ofExcept x >>= f) (.ofExcept y >>= g) :=
  (ofExcept h).bind hfg

theorem mapM {f g : α → Outcome β} (h : ∀ a, ρ.Outcomes Eq (f a) (g a)) (list : List α) :
    ρ.Outcomes Eq (list.mapM f) (list.mapM g) := by
  induction list with
  | nil => exact pure rfl
  | cons a rest ih =>
      rw [List.mapM_cons, List.mapM_cons]
      refine (h a).bind ?_
      rintro b _ rfl
      refine ih.bind ?_
      rintro bs _ rfl
      exact pure rfl

theorem foldlM {f g : β → α → Outcome β} {list : List α}
    (h : ∀ a ∈ list, ∀ b, ρ.Outcomes Eq (f b a) (g b a)) (start : β) :
    ρ.Outcomes Eq (list.foldlM f start) (list.foldlM g start) := by
  induction list generalizing start with
  | nil => exact pure rfl
  | cons a rest ih =>
      rw [List.forall_mem_cons] at h
      rw [List.foldlM_cons, List.foldlM_cons]
      refine (h.1 start).bind ?_
      rintro next _ rfl
      exact ih h.2 next

/-- Runs that call documents alike are the same. -/
theorem eq_of_identity {x y : Outcome α} (h : identity.Outcomes Eq x y) : y = x := by
  obtain ⟨xs, x⟩ := x
  obtain ⟨ys, y⟩ := y
  obtain ⟨rfl, hresult⟩ := h
  rw [List.map_congr_left fun w _ => warning_identity w, List.map_id']
  cases hresult with
  | ok related => rw [related]
  | error e => rw [error_identity]

end Outcomes

end Relocation

end InstructionSet
