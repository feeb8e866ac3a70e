import InstructionSet.Form
import Mathlib.Data.List.Induction
import Mathlib.Logic.Function.Iterate

/-!
# Forms one at a time

Callers hold any number of iterators over the forms of opcodes and variants, which they begin, copy
and advance in any order. Every answer is an entry of the list that the traits and types spell out,
at the place that counts how often the iterator, or one that it was copied from, was advanced.
-/

namespace InstructionSet

/-! ### What has forms -/

/-- An opcode, or a variant of one. -/
inductive Instruction where
  | opcode (o : Opcode)
  | variant (v : Variant)
  deriving Repr, DecidableEq

namespace Instruction

def traits : Instruction → Traits
  | opcode o => o.traits
  | variant v => v.traits

/-- The types that forms are made for. An opcode that bears variants has none of its own. -/
def types : Instruction → List String
  | opcode o =>
      match o.shape with
      | .plain shape => shape.types
      | .variantBearing _ => []
  | variant v => v.shape.types

def mnemonic : Instruction → Mnemonic
  | opcode o => o.mnemonic
  | variant v => v.mnemonic

/-- Forms depend on nothing but three traits and the types. -/
theorem mnemonic_eq (x : Instruction) : x.mnemonic =
    { form := x.traits.form
      comparison := x.traits.comparison
      fitSize := x.traits.fitSize
      types := x.types } := by
  cases x with
  | opcode o =>
      rcases o with ⟨name, layout, shape, traits⟩
      cases shape <;> rfl
  | variant v => rfl

def forms (x : Instruction) (comparisons : Table Comparison) : List String :=
  x.mnemonic.forms comparisons

/-- The forms, spelled out from the traits and types. -/
def listed (x : Instruction) (comparisons : List Comparison) : List String :=
  let template := Template.renderRegisters x.traits.form
  let fits := match x.traits.fitSize with
    | some size => (toString size.toNat, toString size.toNat ++ ".0")
    | none => ("??", "??")
  if x.traits.comparison then
    comparisons.flatMap fun c => c.types.map fun type =>
      Template.renderRegisters
        (Text.replace "\x7bt\x7d" type (Text.replace "\x7bc\x7d" c.form template))
  else if x.types ≠ [] then
    x.types.map fun type =>
      Text.replace "\x7bff\x7d" fits.2 (Text.replace "\x7bfi\x7d" fits.1
        (Text.replace "\x7bt\x7d" type template))
  else [template]

variable (x : Instruction)

/-- The state that iterators begin in holds the forms in the order they are spelled out. -/
theorem toList_expand (comparisons : Table Comparison) :
    (x.mnemonic.expand comparisons).toList = x.listed comparisons.entries := by
  rw [mnemonic_eq]
  unfold Mnemonic.expand listed
  by_cases hc : x.traits.comparison
  · simp only [hc, if_true, Forms.toList, Option.toList_none, List.nil_append,
      List.flatMap_map]
    rfl
  · by_cases ht : x.types = []
    · simp [hc, ht, Forms.toList]
    · cases hf : x.traits.fitSize <;>
        simp [hc, ht, Forms.toList, Template.renderType, Template.intFit, Template.floatFit,
          Template.typeToken, Template.intFitToken, Template.floatFitToken, Template.noFitSize]

theorem forms_eq_listed (comparisons : Table Comparison) :
    x.forms comparisons = x.listed comparisons.entries := by
  rw [forms, Mnemonic.forms, Forms.collect_eq_toList, toList_expand]

theorem listed_filter_types (hc : x.traits.comparison) (comparisons : List Comparison) :
    x.listed (comparisons.filter fun c => c.types ≠ []) = x.listed comparisons := by
  simp only [listed, hc, if_true]
  induction comparisons with
  | nil => rfl
  | cons c comparisons ih => by_cases ht : c.types = [] <;> simp_all

end Instruction

theorem Opcode.forms_eq_listed (o : Opcode) (comparisons : Table Comparison) :
    o.mnemonic.forms comparisons = (Instruction.opcode o).listed comparisons.entries :=
  (Instruction.opcode o).forms_eq_listed comparisons

theorem Variant.forms_eq_listed (v : Variant) (comparisons : Table Comparison) :
    v.mnemonic.forms comparisons = (Instruction.variant v).listed comparisons.entries :=
  (Instruction.variant v).forms_eq_listed comparisons

/-- A plain opcode with `m` for a mnemonic. -/
def Opcode.ofMnemonic (m : Mnemonic) : Opcode where
  name := "OP"
  layout := ⟨"r", "r", []⟩
  shape := .plain (.unsized m.types)
  traits := ⟨m.comparison, m.form, m.fitSize, none, none⟩

/-! ### Calls -/

/-- What a caller asks for. Iterators are numbered in the order in which they were made. -/
inductive Call where
  | expand (x : Instruction) (comparisons : Table Comparison)
  | clone (i : Nat)
  | next (i : Nat)

inductive Answer where
  | made (i : Nat)
  | form (form : Option String)
  | missing
  deriving Repr, DecidableEq

/-- A kind of iterator with states `σ`: how one is begun and how it is advanced. -/
structure Iteration (σ : Type) where
  start : Instruction → Table Comparison → σ
  next : σ → Option String × σ

namespace Iteration

variable {σ τ : Type}

/-- The answer to a call, and the iterators after it. -/
def step (it : Iteration σ) (pool : List σ) : Call → Answer × List σ
  | .expand x comparisons => (.made pool.length, pool ++ [it.start x comparisons])
  | .clone i =>
      match pool[i]? with
      | some s => (.made pool.length, pool ++ [s])
      | none => (.missing, pool)
  | .next i =>
      match pool[i]? with
      | some s => (.form (it.next s).1, pool.set i (it.next s).2)
      | none => (.missing, pool)

/-- The iterators that `calls` leave. -/
def run (it : Iteration σ) (calls : List Call) : List σ :=
  calls.foldl (fun pool call => (it.step pool call).2) []

/-- The answer to `call` after `calls`. -/
def answer (it : Iteration σ) (calls : List Call) (call : Call) : Answer :=
  (it.step (it.run calls) call).1

theorem run_append_singleton (it : Iteration σ) (calls : List Call) (call : Call) :
    it.run (calls ++ [call]) = (it.step (it.run calls) call).2 := by
  simp [run]

/-- The states of one kind of iterator, read through `view`, are those of another. -/
structure Viewed (it : Iteration σ) (as : Iteration τ) (view : σ → τ) : Prop where
  start : ∀ x comparisons, view (it.start x comparisons) = as.start x comparisons
  next_fst : ∀ s, (it.next s).1 = (as.next (view s)).1
  next_snd : ∀ s, view (it.next s).2 = (as.next (view s)).2

variable {it : Iteration σ} {as : Iteration τ} {view : σ → τ}

theorem Viewed.step (h : it.Viewed as view) (pool : List σ) (call : Call) :
    (it.step pool call).1 = (as.step (pool.map view) call).1 ∧
      (it.step pool call).2.map view = (as.step (pool.map view) call).2 := by
  cases call with
  | expand x comparisons => simp [Iteration.step, h.start]
  | clone i => cases hi : pool[i]? <;> simp [Iteration.step, hi]
  | next i => cases hi : pool[i]? <;> simp [Iteration.step, hi, h.next_fst, h.next_snd]

theorem Viewed.run (h : it.Viewed as view) (calls : List Call) :
    (it.run calls).map view = as.run calls := by
  induction calls using List.reverseRecOn with
  | nil => rfl
  | append_singleton calls call ih =>
      rw [run_append_singleton, run_append_singleton, (h.step _ call).2, ih]

theorem Viewed.answer (h : it.Viewed as view) (calls : List Call) (call : Call) :
    it.answer calls call = as.answer calls call := by
  rw [Iteration.answer, (h.step _ call).1, h.run, Iteration.answer]

/-- A call leaves every iterator as it was, save the one that it advances. -/
theorem getElem?_step (it : Iteration σ) {pool : List σ} {call : Call} {i : Nat}
    (hi : i < pool.length) (hcall : call ≠ .next i) : (it.step pool call).2[i]? = pool[i]? := by
  cases call with
  | expand x comparisons => simp [step, List.getElem?_append_left hi]
  | clone j => cases hj : pool[j]? <;> simp [step, hj, List.getElem?_append_left hi]
  | next j =>
      have hne : j ≠ i := fun h => hcall (h ▸ rfl)
      cases hj : pool[j]? <;> simp [step, hj, List.getElem?_set_ne hne]

theorem length_le_step (it : Iteration σ) (pool : List σ) (call : Call) :
    pool.length ≤ (it.step pool call).2.length := by
  cases call with
  | expand x comparisons => simp [step]
  | clone j => cases hj : pool[j]? <;> simp [step, hj]
  | next j => cases hj : pool[j]? <;> simp [step, hj]

/-- However others are advanced in between, an iterator goes on where it was. -/
theorem getElem?_run_append (it : Iteration σ) {calls more : List Call} {i : Nat}
    (hi : i < (it.run calls).length) (hmore : .next i ∉ more) :
    i < (it.run (calls ++ more)).length ∧ (it.run (calls ++ more))[i]? = (it.run calls)[i]? := by
  induction more using List.reverseRecOn with
  | nil => simpa using hi
  | append_singleton more call ih =>
      simp only [List.mem_append, List.mem_singleton, not_or] at hmore
      obtain ⟨hlt, heq⟩ := ih hmore.1
      rw [← List.append_assoc, run_append_singleton]
      exact ⟨Nat.lt_of_lt_of_le hlt (it.length_le_step _ call),
        (it.getElem?_step hlt (Ne.symm hmore.2)).trans heq⟩

theorem answer_next_append (it : Iteration σ) {calls more : List Call} {i : Nat}
    (hi : i < (it.run calls).length) (hmore : .next i ∉ more) :
    it.answer (calls ++ more) (.next i) = it.answer calls (.next i) := by
  have h := (it.getElem?_run_append hi hmore).2
  simp only [answer, step, h]
  cases (it.run calls)[i]? <;> rfl

end Iteration

/-! ### Forms as a list with a position -/

/-- A list of forms, and how often it was advanced. -/
structure Cursor where
  forms : List String
  advanced : Nat
  deriving Repr, DecidableEq

/-- The forms that a cursor has not come to. -/
def Cursor.left (c : Cursor) : List String := c.forms.drop c.advanced

namespace Iteration

/-- The iterators that forms are read from. -/
def lazy : Iteration Forms where
  start x := x.mnemonic.expand
  next := Forms.next

/-- Each answers with the entry at its count. A copy takes the count over, and counts on its
own from there. -/
def cursors : Iteration Cursor where
  start x comparisons := ⟨x.listed comparisons.entries, 0⟩
  next c := (c.forms[c.advanced]?, { c with advanced := c.advanced + 1 })

/-- Each is the list of what it still has to give. -/
def lists : Iteration (List String) where
  start x comparisons := x.listed comparisons.entries
  next forms := (forms.head?, forms.tail)

theorem viewed_lazy : lazy.Viewed lists Forms.toList where
  start := Instruction.toList_expand
  next_fst := Forms.next_fst
  next_snd := Forms.toList_next

theorem viewed_cursors : cursors.Viewed lists Cursor.left where
  start _ _ := rfl
  next_fst c := by simp [cursors, lists, Cursor.left]
  next_snd c := by simp [cursors, lists, Cursor.left]

end Iteration

theorem Forms.toList_iterate_next (f : Forms) (k : Nat) :
    ((fun g : Forms => g.next.2)^[k] f).toList = f.toList.drop k := by
  induction k with
  | zero => rfl
  | succ k ih => rw [Function.iterate_succ_apply', toList_next, ih, List.tail_drop]

/-- The forms of an opcode or variant are given one at a time in the order they are spelled out, and
none after the last. All iterators of a run answer as cursors in lists do, and none is moved by
another. What is made for comparisons has no forms from comparisons without types, and none at all
without comparisons. -/
theorem Forms.refine_listed :
    (∀ (x : Instruction) (comparisons : Table Comparison) (k : Nat),
      ((fun f : Forms => f.next.2)^[k] (x.mnemonic.expand comparisons)).next.1 =
        (x.listed comparisons.entries)[k]?) ∧
    (∀ (calls : List Call) (call : Call),
      Iteration.lazy.answer calls call = Iteration.cursors.answer calls call) ∧
    (∀ (calls more : List Call) (i : Nat), i < (Iteration.lazy.run calls).length →
      Call.next i ∉ more →
      Iteration.lazy.answer (calls ++ more) (.next i) = Iteration.lazy.answer calls (.next i)) ∧
    ∀ x : Instruction, x.traits.comparison →
      (∀ comparisons : List Comparison,
        x.listed (comparisons.filter fun c => c.types ≠ []) = x.listed comparisons) ∧
      x.listed [] = [] := by
  refine ⟨fun x comparisons k => ?_, fun calls call => ?_, fun calls more i hi hmore => ?_,
    fun x hc => ⟨x.listed_filter_types hc, by simp [Instruction.listed, hc]⟩⟩
  · rw [next_fst, toList_iterate_next, Instruction.toList_expand, List.head?_drop]
  · rw [Iteration.viewed_lazy.answer, Iteration.viewed_cursors.answer]
  · exact Iteration.lazy.answer_next_append hi hmore

/-- One iterator over the branches on three comparisons, of which the second has no types; it is
advanced once and then copied. -/
def Call.branches : List Call :=
  let comparison name form types : Comparison := ⟨name, "L0", "r", "r", [8], types, form, none⟩
  [.expand (.opcode (.ofMnemonic ⟨"b\x7bc\x7d.\x7bt\x7d \x7br\x7d", true, none, []⟩))
      (.ofList [comparison "EQ" "eq" ["B", "W"], comparison "GT" "gt" [],
        comparison "LT" "lt" ["B"]]),
    .next 0, .clone 0]

/-- The copy runs out of forms, and the first goes on with its second form. -/
theorem Forms.refine_listed_branches :
    let more := List.replicate 3 (Call.next 1)
    0 < (Iteration.lazy.run Call.branches).length ∧ Call.next 0 ∉ more ∧
      Iteration.lazy.answer (Call.branches ++ more) (.next 0) = .form (some "beq.W r<N>") ∧
      Iteration.lazy.answer (Call.branches ++ more) (.next 1) = .form none := by
  intro more
  have hi : 0 < (Iteration.lazy.run Call.branches).length := by decide +kernel
  have hmore : Call.next 0 ∉ more := by simp [more]
  obtain ⟨-, hcursors, hframe, -⟩ := refine_listed
  refine ⟨hi, hmore, (hframe _ more 0 hi hmore).trans ?_, (hcursors _ _).trans ?_⟩
  · decide +kernel
  · decide +kernel

end InstructionSet
