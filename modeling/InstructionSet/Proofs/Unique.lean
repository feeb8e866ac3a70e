import InstructionSet.Unique
import Mathlib.Data.List.Basic
import Mathlib.Data.List.Induction

/-!
# First occurrences

What is left of a list without its repetitions, and in which order. Repetitions can be dropped early
or late: in the part that is appended, and before the elements are mapped to others.
-/

namespace InstructionSet

section

variable {α : Type} [BEq α]

theorem appendNew_cons (known : List α) (x : α) (new : List α) :
    appendNew known (x :: new) = appendNew (appendNew known [x]) new :=
  appendNew_append known [x] new

theorem unique_append (xs ys : List α) : unique (xs ++ ys) = appendNew (unique xs) ys :=
  appendNew_append [] xs ys

end

variable {α β : Type} [BEq α] [LawfulBEq α] [BEq β] [LawfulBEq β]

theorem eraseDups_append_singleton (xs : List α) (x : α) :
    (xs ++ [x]).eraseDups = if x ∈ xs then xs.eraseDups else xs.eraseDups ++ [x] := by
  rw [List.eraseDups_append]
  by_cases h : x ∈ xs
  · have hnone : [x].removeAll xs = [] := by simp [List.removeAll, h]
    rw [hnone, if_pos h, List.eraseDups_nil, List.append_nil]
  · have hsome : [x].removeAll xs = [x] := by simp [List.removeAll, h]
    rw [hsome, if_neg h, List.eraseDups_cons, List.filter_nil, List.eraseDups_nil]

theorem appendNew_singleton (known : List α) (x : α) :
    appendNew known [x] = if x ∈ known then known else known ++ [x] := by
  simp [appendNew]

theorem unique_append_singleton (list : List α) (x : α) :
    unique (list ++ [x]) = if x ∈ list then unique list else unique list ++ [x] := by
  rw [unique_append, appendNew_singleton]
  simp only [mem_unique]

theorem unique_eq_eraseDups (list : List α) : unique list = list.eraseDups := by
  induction list using List.reverseRecOn with
  | nil => rfl
  | append_singleton list x ih =>
      rw [unique_append_singleton, eraseDups_append_singleton, ih]

theorem unique_of_nodup {list : List α} (h : list.Nodup) : unique list = list := by
  induction list using List.reverseRecOn with
  | nil => rfl
  | append_singleton list x ih =>
      obtain ⟨hlist, -, hdisjoint⟩ := List.nodup_append.mp h
      have hx : x ∉ list := fun hmem => hdisjoint x hmem x List.mem_cons_self rfl
      rw [unique_append_singleton, if_neg hx, ih hlist]

/-- First occurrences keep their order. -/
theorem pairwise_idxOf_unique (list : List α) :
    (unique list).Pairwise fun x y => list.idxOf x < list.idxOf y := by
  induction list using List.reverseRecOn with
  | nil => exact .nil
  | append_singleton list z ih =>
      have hkept : (unique list).Pairwise fun x y =>
          (list ++ [z]).idxOf x < (list ++ [z]).idxOf y := by
        apply ih.imp_of_mem
        intro x y hx hy hlt
        rw [mem_unique] at hx hy
        rwa [List.idxOf_append_of_mem hx, List.idxOf_append_of_mem hy]
      have hlast : ∀ x ∈ unique list, z ∉ list →
          (list ++ [z]).idxOf x < (list ++ [z]).idxOf z := by
        intro x hx hz
        rw [mem_unique] at hx
        have hlt := List.idxOf_lt_length_iff.mpr hx
        rw [List.idxOf_append_of_mem hx, List.idxOf_append_of_notMem hz]
        omega
      rw [unique_append_singleton]
      split
      · exact hkept
      · rename_i hz
        apply List.pairwise_append.mpr
        refine ⟨hkept, List.pairwise_singleton _ z, fun x hx => ?_⟩
        exact List.forall_mem_singleton.mpr (hlast x hx hz)

/-- What comes later adds what was not there before. -/
theorem unique_append_eq_filter [DecidableEq α] (xs ys : List α) :
    unique (xs ++ ys) = unique xs ++ (unique ys).filter (· ∉ xs) := by
  induction ys using List.reverseRecOn with
  | nil => simp [unique]
  | append_singleton ys y ih =>
      rw [← List.append_assoc, unique_append_singleton, unique_append_singleton, ih]
      by_cases hxs : y ∈ xs <;> by_cases hys : y ∈ ys <;> simp [hxs, hys]

theorem unique_map {f : α → β} (hf : f.Injective) (list : List α) :
    unique (list.map f) = (unique list).map f := by
  induction list using List.reverseRecOn with
  | nil => rfl
  | append_singleton list x ih =>
      rw [List.map_append, List.map_singleton, unique_append_singleton, unique_append_singleton,
        ih]
      simp only [List.mem_map_of_injective hf]
      split
      · rfl
      · rw [List.map_append, List.map_singleton]

theorem appendNew_eraseDups (xs ys : List α) :
    appendNew xs.eraseDups ys = (xs ++ ys).eraseDups := by
  rw [← unique_eq_eraseDups, ← unique_eq_eraseDups, unique_append]

theorem appendNew_of_subset {known new : List α} (h : new ⊆ known) :
    appendNew known new = known := by
  induction new with
  | nil => rfl
  | cons x new ih =>
      have hx : x ∈ known := h List.mem_cons_self
      rw [appendNew_cons, appendNew_singleton, if_pos hx]
      exact ih fun y hy => h (List.mem_cons_of_mem x hy)

/-- What is new among the images is told by the elements that are new. -/
theorem appendNew_map_appendNew (f : α → β) (known : List β) (xs ys : List α) :
    appendNew known ((appendNew xs ys).map f) =
      appendNew (appendNew known (xs.map f)) (ys.map f) := by
  induction ys generalizing xs with
  | nil => rfl
  | cons y ys ih =>
      rw [appendNew_cons, ih, List.map_cons, appendNew_cons _ (f y), appendNew_singleton]
      split
      · rename_i hy
        have himage : f y ∈ appendNew known (xs.map f) :=
          (mem_appendNew _ _ _).mpr (.inr (List.mem_map_of_mem hy))
        rw [appendNew_singleton, if_pos himage]
      · rw [List.map_append, appendNew_append, List.map_singleton]

theorem appendNew_map_unique (f : α → β) (known : List β) (xs : List α) :
    appendNew known ((unique xs).map f) = appendNew known (xs.map f) :=
  appendNew_map_appendNew f known [] xs

theorem unique_map_unique_append (f : α → β) (xs : List α) (ys : List β) :
    unique ((unique xs).map f ++ ys) = unique (xs.map f ++ ys) := by
  rw [unique_append, unique_append]
  exact congrArg (appendNew · ys) (appendNew_map_unique f [] xs)

theorem appendNew_unique (known xs : List α) :
    appendNew known (unique xs) = appendNew known xs := by
  simpa using appendNew_map_unique id known xs

theorem unique_append_unique (xs ys : List α) : unique (xs ++ unique ys) = unique (xs ++ ys) := by
  rw [unique_append, unique_append, appendNew_unique]

theorem unique_unique (xs : List α) : unique (unique xs) = unique xs :=
  appendNew_unique [] xs

/-- What was put in front once need not be put there again. -/
theorem unique_append_append (xs ys : List α) : unique (xs ++ (xs ++ ys)) = unique (xs ++ ys) := by
  have hxs : xs ⊆ unique xs := fun x hx => (mem_unique xs x).mpr hx
  rw [unique_append, appendNew_append, appendNew_of_subset hxs, unique_append]

/-- The first element with a property is the first of its kind. -/
theorem find?_unique (p : α → Bool) (list : List α) : (unique list).find? p = list.find? p := by
  induction list using List.reverseRecOn with
  | nil => rfl
  | append_singleton list x ih =>
      rw [unique_append_singleton, List.find?_append, ← ih]
      split
      · rename_i hx
        cases hp : p x with
        | false => simp [hp]
        | true =>
            have hfound : ((unique list).find? p).isSome :=
              List.find?_isSome.mpr ⟨x, (mem_unique list x).mpr hx, hp⟩
            rw [Option.or_of_isSome hfound]
      · rw [List.find?_append]

end InstructionSet
