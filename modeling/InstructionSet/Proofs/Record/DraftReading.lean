import InstructionSet.Proofs.Record.Reading

/-!
# Reading of drafts

The entries of comparisons and opcodes are read by their schemas. Those of opcodes may list
variants, which are read as opcodes are, to any depth.
-/

namespace InstructionSet

open Json (Value Reading)

namespace Comparison.Draft

theorem puts_put (record : Reading Draft) : schema.Puts record put where
  known r f v := by
    cases f <;> rfl
  unknown r key v hkey := by
    rw [keys_schema] at hkey
    unfold put
    split
    case h_8 => exact ⟨_, rfl⟩
    all_goals exact absurd (by decide) hkey

end Comparison.Draft

namespace Opcode.Draft

/-- Reads the value of any field into the draft. -/
def putMember (d : Draft) (key : String) (value : Value) : Except Json.Mismatch Draft :=
  if key = "variants" then (readVariants value).map fun variants => { d with variants }
  else d.put key value

theorem readDrafts_eq_mapM (items : List Value) : readDrafts items = items.mapM reading := by
  induction items with
  | nil => rfl
  | cons item items ih => rw [readDrafts, List.mapM_cons, ih]

theorem readVariants_eq_setting (v : Value) :
    readVariants v = Reading.setting (.list reading) v := by
  cases v with
  | array items =>
      rw [readVariants, readDrafts_eq_mapM]
      rfl
  | _ => rfl

theorem readMembers_eq_foldlM (d : Draft) (members : List (String × Value)) :
    readMembers d members =
      members.foldlM (fun d member => d.putMember member.1 member.2) d := by
  induction members generalizing d with
  | nil => rfl
  | cons member members ih =>
      rw [readMembers, List.foldlM_cons, putMember]
      simp only [ih]
      split <;> rfl

theorem readItems_eq_foldlM (d : Draft) (keys : List String) (items : List Value) :
    readItems d keys items =
      (keys.zip items).foldlM (fun d member => d.putMember member.1 member.2) d := by
  induction keys generalizing d items with
  | nil => cases items <;> rfl
  | cons key keys ih =>
      cases items with
      | nil => rfl
      | cons item items =>
          rw [readItems, List.zip_cons_cons, List.foldlM_cons, putMember]
          simp only [ih]
          split <;> rfl

theorem reading_eq_record :
    reading = Reading.record "struct OpcodeFields" schema.keys {} putMember := by
  funext v
  cases v with
  | object members => exact readMembers_eq_foldlM {} members
  | array items =>
      rw [reading, readItems_eq_foldlM]
      rfl
  | _ => rfl

theorem puts_putMember : schema.Puts reading putMember where
  known r f v := by
    cases f with
    | variants =>
        change (readVariants v).map _ = _
        rw [readVariants_eq_setting]
        rfl
    | _ => rfl
  unknown r key v hkey := by
    have hvariants : key ≠ "variants" := by
      intro h
      subst key
      exact hkey (by decide)
    rw [putMember, if_neg hvariants]
    rw [keys_schema] at hkey
    unfold put
    split
    case h_14 => exact ⟨_, rfl⟩
    all_goals exact absurd (by decide) hkey

end Opcode.Draft

/-- Drafts are read exactly by their schemas. No key stands twice in an object that was read. -/
theorem drafts_read_exactly {v : Value} (hv : v.keyed) :
    Comparison.Draft.schema.ReadsExactly Comparison.Draft.reading v ∧
      Opcode.Draft.schema.ReadsExactly Opcode.Draft.reading v := by
  constructor
  · exact (Comparison.Draft.puts_put _).readsExactly Comparison.Draft.blank_default rfl hv
  · exact Opcode.Draft.puts_putMember.readsExactly Opcode.Draft.blank_default
      Opcode.Draft.reading_eq_record hv

/-- The first eight fields of an opcode, without types of its own and with two variants. -/
def selection : List Value :=
  [.text "v", .text "r", .array [.number (.integer 8)], .null, .bool true, .bool false, .bool true,
    .array [.object [("form", .text "s0"), ("class", .null)], .array [.text "w"]]]

/-- What the values say as an opcode: the types are cleared, the other fields up to the variants
are set, and all that follow are open. -/
def selected : Opcode.Draft where
  opA := .given "v"
  opB := .given "r"
  sizes := .given [8]
  types := .cleared
  sizetype := .given true
  isUnsized := .given false
  variant := .given true
  variants := .given [{ form := .given "s0", className := .cleared }, { opA := .given "w" }]

/-- Eight values are too many for a comparison. -/
theorem drafts_read_exactly_selection :
    (Value.array selection).keyed ∧
      (¬∃ d, Comparison.Draft.reading (.array selection) = .ok d) ∧
      Opcode.Draft.reading (.array selection) = .ok selected ∧
      selected.types = .cleared ∧ selected.extwords = .absent ∧
      Opcode.Draft.reading (.object (Opcode.Draft.schema.keys.zip selection)) = .ok selected := by
  have hkeyed : (Value.array selection).keyed := by decide
  have hread : Opcode.Draft.reading (.array selection) = .ok selected := rfl
  obtain ⟨hcomparison, hopcode⟩ := drafts_read_exactly hkeyed
  have htold := hopcode.told selected hread
  refine ⟨hkeyed, ?_, hread, ?_, ?_, ?_⟩
  · intro hd
    have hlength : selection.length ≤ Comparison.Field.all.length :=
      (hcomparison.accepted.mp hd).1
    exact absurd hlength (by decide)
  · exact (htold Opcode.Field.types).cleared_iff.mpr rfl
  · exact (htold Opcode.Field.extwords).absent_iff.mpr rfl
  · rw [← hread]
    exact (hopcode.array selection rfl (by decide)).symm

end InstructionSet
