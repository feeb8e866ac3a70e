/-!
# Lists without repetition

Of equal elements the first stays.
-/

namespace InstructionSet

section

variable {α : Type} [BEq α]

/-- `known`, followed by the elements of `new` that do not occur before. -/
def appendNew (known new : List α) : List α :=
  new.foldl (fun list x => if list.contains x then list else list ++ [x]) known

/-- The elements in the order of their first occurrence. -/
def unique (list : List α) : List α := appendNew [] list

@[simp] theorem appendNew_nil (known : List α) : appendNew known [] = known := rfl

theorem appendNew_append (known xs ys : List α) :
    appendNew known (xs ++ ys) = appendNew (appendNew known xs) ys :=
  List.foldl_append

/-- What is known stays where it is. -/
theorem prefix_appendNew (known new : List α) : known <+: appendNew known new := by
  induction new generalizing known with
  | nil => exact List.prefix_refl known
  | cons x new ih =>
      refine List.IsPrefix.trans ?_ (ih (if known.contains x then known else known ++ [x]))
      split
      · exact List.prefix_refl known
      · exact List.prefix_append known [x]

end

section

variable {α : Type} [BEq α] [LawfulBEq α]

theorem mem_appendNew (known new : List α) (x : α) :
    x ∈ appendNew known new ↔ x ∈ known ∨ x ∈ new := by
  induction new generalizing known with
  | nil => simp
  | cons y new ih =>
      have h : appendNew known (y :: new) =
          appendNew (if known.contains y then known else known ++ [y]) new := rfl
      rw [h, ih]
      by_cases hy : y ∈ known
      · have hxy : x = y → x ∈ known := fun e => e ▸ hy
        simp only [List.contains_iff_mem, hy, if_true, List.mem_cons]
        constructor
        · exact fun h => h.imp_right .inr
        · rintro (h | h | h)
          · exact .inl h
          · exact .inl (hxy h)
          · exact .inr h
      · simp [hy, or_assoc]

theorem nodup_appendNew {known : List α} (h : known.Nodup) (new : List α) :
    (appendNew known new).Nodup := by
  induction new generalizing known with
  | nil => exact h
  | cons y new ih =>
      have hs : appendNew known (y :: new) =
          appendNew (if known.contains y then known else known ++ [y]) new := rfl
      rw [hs]
      by_cases hy : y ∈ known
      · simpa [hy] using ih h
      · have hk : (known ++ [y]).Nodup :=
          List.nodup_append.mpr ⟨h, by simp, fun a ha b hb e => hy (by simp_all)⟩
        simpa [hy] using ih hk

theorem mem_unique (list : List α) (x : α) : x ∈ unique list ↔ x ∈ list := by
  simp [unique, mem_appendNew]

theorem nodup_unique (list : List α) : (unique list).Nodup :=
  nodup_appendNew List.nodup_nil list

end

end InstructionSet
