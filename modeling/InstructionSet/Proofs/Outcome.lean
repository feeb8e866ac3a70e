import InstructionSet.Outcome
import Mathlib.Data.List.Forall2

/-!
# Steps in sequence

A sequence of steps succeeds if each of its steps does, and otherwise fails as the first of them
that fails.
-/

namespace InstructionSet

variable {ε α β : Type}

/-- The error that a step ends in. -/
def failure? : Except ε α → Option ε
  | .ok _ => none
  | .error e => some e

theorem failure?_eq_none_iff {x : Except ε α} : failure? x = none ↔ ∃ a, x = .ok a := by
  cases x <;> simp [failure?]

theorem failure?_eq_some_iff {x : Except ε α} {e : ε} : failure? x = some e ↔ x = .error e := by
  cases x <;> simp [failure?]

@[simp] theorem failure?_mapError {ε' : Type} (x : Except ε α) (f : ε → ε') :
    failure? (x.mapError f) = (failure? x).map f := by
  cases x <;> rfl

theorem mapError_eq_ok_iff {ε' : Type} {x : Except ε α} {f : ε → ε'} {a : α} :
    x.mapError f = .ok a ↔ x = .ok a := by
  cases x <;> simp [Except.mapError]

theorem map_eq_ok_iff {x : Except ε α} {f : α → β} {b : β} :
    x.map f = .ok b ↔ ∃ a, x = .ok a ∧ f a = b := by
  cases x <;> simp [Except.map]

theorem bind_eq_ok_iff {x : Except ε α} {f : α → Except ε β} {b : β} :
    x >>= f = .ok b ↔ ∃ a, x = .ok a ∧ f a = .ok b := by
  cases x <;> simp [bind, Except.bind]

theorem bind_eq_error_iff {x : Except ε α} {f : α → Except ε β} {e : ε} :
    x >>= f = .error e ↔ x = .error e ∨ ∃ a, x = .ok a ∧ f a = .error e := by
  cases x <;> simp [bind, Except.bind]

theorem ok_bind (a : α) (f : α → Except ε β) : (Except.ok a >>= f) = f a := rfl

/-- What follows a step shows its own failure only if the step has none. -/
theorem failure?_bind_of {x : Except ε α} {f : α → Except ε β} {e : Option ε}
    (h : ∀ a, x = .ok a → failure? (f a) = e) : failure? (x >>= f) = (failure? x).or e := by
  cases x with
  | ok a => exact (h a rfl).trans Option.none_or.symm
  | error _ => rfl

theorem failure?_bind {x : Except ε α} {f : α → Except ε β} {e : Option ε}
    (h : ∀ a, failure? (f a) = e) : failure? (x >>= f) = (failure? x).or e :=
  failure?_bind_of fun a _ => h a

theorem failure?_bind_ok (x : Except ε α) (f : α → β) :
    failure? (x >>= fun a => .ok (f a)) = failure? x := by
  cases x <;> rfl

theorem failure?_bind_congr {γ : Type} {x : Except ε α} {f : α → Except ε β}
    {g : α → Except ε γ} (h : ∀ a, failure? (f a) = failure? (g a)) :
    failure? (x >>= f) = failure? (x >>= g) := by
  cases x with
  | ok a => exact h a
  | error _ => rfl

theorem mapM_eq_ok_iff {f : α → Except ε β} {xs : List α} {ys : List β} :
    xs.mapM f = .ok ys ↔ List.Forall₂ (fun x y => f x = .ok y) xs ys := by
  induction xs generalizing ys with
  | nil =>
      rw [List.mapM_nil, List.forall₂_nil_left_iff]
      exact ⟨fun h => (Except.ok.inj h).symm, fun h => congrArg Except.ok h.symm⟩
  | cons x xs ih =>
      rw [List.mapM_cons, bind_eq_ok_iff, List.forall₂_cons_left_iff]
      constructor
      · rintro ⟨y, hy, hrest⟩
        obtain ⟨zs, hzs, hcons⟩ := bind_eq_ok_iff.mp hrest
        exact ⟨y, zs, hy, ih.mp hzs, (Except.ok.inj hcons).symm⟩
      · rintro ⟨y, zs, hy, hzs, rfl⟩
        exact ⟨y, hy, bind_eq_ok_iff.mpr ⟨zs, ih.mpr hzs, rfl⟩⟩

theorem exists_forall₂ {R : α → β → Prop} {xs : List α} (h : ∀ x ∈ xs, ∃ y, R x y) :
    ∃ ys, List.Forall₂ R xs ys := by
  induction xs with
  | nil => exact ⟨[], .nil⟩
  | cons x xs ih =>
      rw [List.forall_mem_cons] at h
      obtain ⟨y, hxy⟩ := h.1
      obtain ⟨ys, hys⟩ := ih h.2
      exact ⟨y :: ys, .cons hxy hys⟩

/-- Whatever stands in the second list is related to something in the first. -/
theorem exists_of_mem_forall₂ {R : α → β → Prop} {xs : List α} {ys : List β}
    (h : List.Forall₂ R xs ys) {y : β} (hy : y ∈ ys) : ∃ x ∈ xs, R x y := by
  induction h with
  | nil => cases hy
  | cons hxy _ ih =>
      rcases List.mem_cons.mp hy with rfl | hrest
      · exact ⟨_, List.mem_cons_self, hxy⟩
      · obtain ⟨x, hx, hRxy⟩ := ih hrest
        exact ⟨x, List.mem_cons_of_mem _ hx, hRxy⟩

/-- Steps that compute a function under a condition do so in sequence. -/
theorem mapM_eq_ok_iff_map {f : α → Except ε β} {g : α → β} {p : α → Prop}
    (h : ∀ x y, f x = .ok y ↔ y = g x ∧ p x) {xs : List α} {ys : List β} :
    xs.mapM f = .ok ys ↔ ys = xs.map g ∧ ∀ x ∈ xs, p x := by
  rw [mapM_eq_ok_iff]
  simp only [h]
  induction xs generalizing ys with
  | nil => simp
  | cons x xs ih =>
      rw [List.forall₂_cons_left_iff, List.forall_mem_cons, List.map_cons]
      constructor
      · rintro ⟨y, zs, ⟨rfl, hx⟩, hzs, rfl⟩
        obtain ⟨rfl, hxs⟩ := ih.mp hzs
        exact ⟨rfl, hx, hxs⟩
      · rintro ⟨rfl, hx, hxs⟩
        exact ⟨_, _, ⟨rfl, hx⟩, ih.mpr ⟨rfl, hxs⟩, rfl⟩

theorem findSome?_cons_eq_or (f : α → Option β) (x : α) (xs : List α) :
    (x :: xs).findSome? f = (f x).or (xs.findSome? f) := by
  rw [List.findSome?_cons]
  cases f x <;> rfl

theorem findSome?_flatMap {γ : Type} (f : β → Option γ) (g : α → List β) (xs : List α) :
    (xs.flatMap g).findSome? f = xs.findSome? fun x => (g x).findSome? f := by
  rw [← List.head?_filterMap, List.filterMap_flatMap, List.head?_flatMap]
  simp only [List.head?_filterMap]

/-- The error of a sequence is that of its first step with one. -/
theorem failure?_mapM (f : α → Except ε β) (xs : List α) :
    failure? (xs.mapM f) = xs.findSome? fun x => failure? (f x) := by
  induction xs with
  | nil => rfl
  | cons x xs ih =>
      rw [List.mapM_cons, findSome?_cons_eq_or, ← ih]
      exact failure?_bind fun y => failure?_bind_ok _ _

theorem Outcome.bind_of_error {x : Outcome α} {e : Error} (h : x.result = .error e)
    (f : α → Outcome β) : x >>= f = ⟨x.warnings, .error e⟩ := by
  rw [bind_def, bind, h]

/-- What follows without a warning of its own adds none. -/
theorem Outcome.warnings_bind_pure (x : Outcome α) (f : α → β) :
    (x >>= fun a => pure (f a)).warnings = x.warnings := by
  obtain ⟨warnings, e | a⟩ := x
  · rfl
  · exact List.append_nil warnings

theorem result_mapM (f : α → Outcome β) (xs : List α) :
    (xs.mapM f).result = xs.mapM fun x => (f x).result := by
  induction xs with
  | nil => rfl
  | cons x xs ih => simp only [List.mapM_cons, Outcome.bind_result, ih]; rfl

/-- A sequence that succeeds gives the warnings of its steps, one after the other. -/
theorem warnings_mapM {f : α → Outcome β} {xs : List α} {ys : List β}
    (h : (xs.mapM f).result = .ok ys) :
    (xs.mapM f).warnings = xs.flatMap fun x => (f x).warnings := by
  induction xs generalizing ys with
  | nil => rfl
  | cons x xs ih =>
      rw [List.mapM_cons, Outcome.bind_result, bind_eq_ok_iff] at h
      obtain ⟨y, hy, h⟩ := h
      rw [Outcome.bind_result, bind_eq_ok_iff] at h
      obtain ⟨zs, hzs, -⟩ := h
      rw [List.mapM_cons, Outcome.bind_of_ok hy, Outcome.bind_of_ok hzs, ih hzs, List.flatMap_cons]
      simp

/-- Warnings of two steps, whether they succeed or not. -/
theorem forall_warnings_bind {p : Warning → Prop} {x : Outcome α} {f : α → Outcome β}
    (hx : ∀ w ∈ x.warnings, p w) (hf : ∀ a, ∀ w ∈ (f a).warnings, p w) :
    ∀ w ∈ (x >>= f).warnings, p w := by
  obtain ⟨warnings, e | a⟩ := x
  · exact hx
  · exact List.forall_mem_append.mpr ⟨hx, hf a⟩

end InstructionSet
