import InstructionSet.Proofs.Definition.Compile

/-!
# Variants as siblings

The variants of an opcode do not depend on one another. Each is what the opcode would make of its
draft if it listed no other, but for the number that tells its place.
-/

namespace InstructionSet

namespace Opcode.Draft

/-- The draft with another list of variants. -/
def listing (d : Draft) (entries : List Draft) : Draft := { d with variants := .given entries }

/-- Markers on the draft of a variant are lost on the way. -/
theorem inherit_unmarked (entry seed : Draft) : entry.unmarked.inherit seed = entry.inherit seed :=
  rfl

/-- Warnings of the markers in a list of variants, the first of which has number `start`. -/
def markerWarnings (id : String) (start : Nat) (entries : List Draft) : List Warning :=
  (entries.zipIdx start).flatMap fun (entry, variation) =>
    if entry.isMarked then [.nestedMarkers id variation] else []

theorem markerWarnings_cons (id : String) (start : Nat) (entry : Draft) (entries : List Draft) :
    markerWarnings id start (entry :: entries) =
      (if entry.isMarked then [.nestedMarkers id start] else []) ++
        markerWarnings id (start + 1) entries := by
  rw [markerWarnings, List.zipIdx_cons, List.flatMap_cons, markerWarnings]

end Opcode.Draft

namespace Catalog

variable {c : Catalog} {id : String} {seed : Opcode.Draft}

/-! ## One variant -/

theorem variant_eq_error_iff {entry : Opcode.Draft} {variation : Nat} {e : Error} :
    (c.variant id seed variation entry).result = .error e ↔
      ∃ breach, c.layout (entry.inherit seed) = .error breach ∧
        e = .violation ⟨.variant id variation, breach⟩ := by
  rw [variant_result]
  cases hlayout : c.layout (entry.inherit seed) with
  | ok layout => simp [Except.mapError, bind, Except.bind]
  | error breach => simp [Except.mapError, bind, Except.bind, Breach.error, eq_comm]

theorem variant_warnings (c : Catalog) (id : String) (seed : Opcode.Draft) (variation : Nat)
    (entry : Opcode.Draft) :
    (c.variant id seed variation entry).warnings =
      if entry.isMarked then [.nestedMarkers id variation] else [] := by
  rw [variant, Outcome.bind_of_ok (Outcome.warnIf_result _ _), Outcome.warnIf_warnings]
  simp only [Outcome.liftM_eq, Outcome.warnings_bind_pure, Outcome.ofExcept_warnings,
    List.append_nil]

/-! ## All variants -/

theorem exists_variantsFrom_iff {start : Nat} {entries : List Opcode.Draft} :
    (∃ vs, (c.variantsFrom id seed start entries).result = .ok vs) ↔
      ∀ entry ∈ entries, (entry.inherit seed).Valid c.operands := by
  simp only [variantsFrom_eq_ok_iff, exists_eq_left]

/-- Resolution ends at the first draft that breaks a rule, with the number of this draft. -/
theorem variantsFrom_eq_error_iff {start : Nat} {entries : List Opcode.Draft} {e : Error} :
    (c.variantsFrom id seed start entries).result = .error e ↔
      ∃ before entry after breach, entries = before ++ entry :: after ∧
        (∀ earlier ∈ before, (earlier.inherit seed).Valid c.operands) ∧
          c.layout (entry.inherit seed) = .error breach ∧
            e = .violation ⟨.variant id (start + before.length), breach⟩ := by
  induction entries generalizing start with
  | nil => simp [variantsFrom]
  | cons first rest ih =>
      simp only [variantsFrom, Outcome.bind_result, bind_eq_error_iff, variant_eq_error_iff,
        variant_eq_ok_iff, ih, Outcome.pure_result, reduceCtorEq, and_false, exists_false, or_false]
      constructor
      · intro h
        rcases h with ⟨breach, hbreach, rfl⟩ |
          ⟨v, ⟨-, hvalid⟩, before, entry, after, breach, rfl, hbefore, hentry, rfl⟩
        · exact ⟨[], first, rest, breach, rfl, by simp, hbreach, rfl⟩
        · refine ⟨first :: before, entry, after, breach, rfl, ?_, hentry, ?_⟩
          · exact List.forall_mem_cons.mpr ⟨hvalid, hbefore⟩
          · rw [List.length_cons, Nat.add_assoc, Nat.add_comm 1]
      · rintro ⟨before, entry, after, breach, hentries, hbefore, hentry, rfl⟩
        cases before with
        | nil =>
            obtain ⟨rfl, rfl⟩ := List.cons.inj hentries
            exact .inl ⟨breach, hentry, rfl⟩
        | cons other before =>
            obtain ⟨rfl, rfl⟩ := List.cons.inj hentries
            rw [List.forall_mem_cons] at hbefore
            refine .inr
              ⟨_, ⟨rfl, hbefore.1⟩, before, entry, after, breach, rfl, hbefore.2, hentry, ?_⟩
            rw [List.length_cons, Nat.add_assoc, Nat.add_comm 1]

/-- Markers are remarked on up to the draft that resolution ends at. -/
theorem variantsFrom_warnings (c : Catalog) (id : String) (seed : Opcode.Draft) (start : Nat)
    (entries : List Opcode.Draft) :
    ∃ read rest, entries = read ++ rest ∧
      (c.variantsFrom id seed start entries).warnings =
        Opcode.Draft.markerWarnings id start read ∧
      (∀ vs, (c.variantsFrom id seed start entries).result = .ok vs → rest = []) ∧
      ∀ variation breach, (c.variantsFrom id seed start entries).result =
        .error (.violation ⟨.variant id variation, breach⟩) →
          start + read.length = variation + 1 := by
  induction entries generalizing start with
  | nil => exact ⟨[], [], rfl, rfl, fun _ _ => rfl, by simp [variantsFrom]⟩
  | cons first rest ih =>
      have hmarkers := c.variant_warnings id seed start first
      rw [variantsFrom]
      cases hfirst : (c.variant id seed start first).result with
      | error e =>
          rw [Outcome.bind_of_error hfirst, hmarkers]
          refine ⟨[first], rest, rfl, ?_, by simp, ?_⟩
          · rw [Opcode.Draft.markerWarnings_cons]
            simp [Opcode.Draft.markerWarnings]
          · intro variation breach h
            obtain ⟨_, -, rfl⟩ := variant_eq_error_iff.mp hfirst
            cases h
            rfl
      | ok v =>
          obtain ⟨read, unread, rfl, hwarnings, hok, herror⟩ := ih (start + 1)
          rw [Outcome.bind_of_ok hfirst, hmarkers]
          refine ⟨first :: read, unread, rfl, ?_, ?_, ?_⟩
          · rw [Outcome.warnings_bind_pure, hwarnings, Opcode.Draft.markerWarnings_cons]
          · intro vs h
            rw [Outcome.bind_result, bind_eq_ok_iff] at h
            obtain ⟨more, hmore, -⟩ := h
            exact hok more hmore
          · intro variation breach h
            rw [Outcome.bind_result, bind_eq_error_iff] at h
            rcases h with h | ⟨more, -, h⟩
            · have hplace := herror variation breach h
              rw [List.length_cons]
              omega
            · cases h

/-- Drafts that inherit alike give the same variants or the same error. -/
theorem variantsFrom_congr {start : Nat} {xs ys : List Opcode.Draft}
    (h : xs.map (·.inherit seed) = ys.map (·.inherit seed)) :
    (c.variantsFrom id seed start xs).result = (c.variantsFrom id seed start ys).result := by
  induction xs generalizing start ys with
  | nil =>
      obtain rfl := List.map_eq_nil_iff.mp h.symm
      rfl
  | cons x xs ih =>
      obtain ⟨y, ys, rfl, hhead, htail⟩ := List.map_eq_cons_iff.mp h.symm
      simp only [variantsFrom, Outcome.bind_result, variant_result, hhead, ih htail.symm]

/-! ## Each draft by itself -/

variable {d entry : Opcode.Draft}

theorem variants_singleton_result :
    (c.variants id (d.listing [entry])).result =
      (c.variant id d.seed 0 entry).result >>= fun v => .ok [v] := by
  have h : c.variants id (d.listing [entry]) = c.variantsFrom id d.seed 0 [entry] := rfl
  rw [h, variantsFrom, Outcome.bind_result]
  rfl

theorem variants_singleton_eq_ok_iff {vs : List Variant} :
    (c.variants id (d.listing [entry])).result = .ok vs ↔
      vs = [(entry.inherit d.seed).variantOf id 0] ∧ (entry.inherit d.seed).Valid c.operands := by
  rw [variants_singleton_result, bind_eq_ok_iff]
  simp only [variant_eq_ok_iff, Except.ok.injEq]
  constructor
  · rintro ⟨v, ⟨rfl, hvalid⟩, rfl⟩
    exact ⟨rfl, hvalid⟩
  · rintro ⟨rfl, hvalid⟩
    exact ⟨_, ⟨rfl, hvalid⟩, rfl⟩

theorem exists_variants_singleton_iff :
    (∃ vs, (c.variants id (d.listing [entry])).result = .ok vs) ↔
      (entry.inherit d.seed).Valid c.operands := by
  simp only [variants_singleton_eq_ok_iff, exists_eq_left]

theorem variants_singleton_eq_error_iff {breach : Breach} :
    (c.variants id (d.listing [entry])).result = .error (.violation ⟨.variant id 0, breach⟩) ↔
      c.layout (entry.inherit d.seed) = .error breach := by
  rw [variants_singleton_result, bind_eq_error_iff]
  simp [variant_eq_error_iff]

/-- What a draft becomes among the variants of an opcode is what it becomes as the only one. -/
structure Independent (c : Catalog) (id : String) (d : Opcode.Draft) : Prop where
  accepted : (∃ vs, (c.variants id d).result = .ok vs) ↔
    ∀ entry ∈ d.variants.getD [], ∃ vs, (c.variants id (d.listing [entry])).result = .ok vs
  numbered : ∀ vs, (c.variants id d).result = .ok vs →
    vs.length = (d.variants.getD []).length ∧
      ∀ (place : Nat) (entry : Opcode.Draft), (d.variants.getD [])[place]? = some entry →
        ∃ v, (c.variants id (d.listing [entry])).result = .ok [v] ∧
          vs[place]? = some { v with variation := place }
  /-- The first draft that fails by itself is blamed, under its number. -/
  blamed : ∀ e, (c.variants id d).result = .error e ↔
    ∃ before entry after breach, d.variants.getD [] = before ++ entry :: after ∧
      (∀ earlier ∈ before, ∃ vs, (c.variants id (d.listing [earlier])).result = .ok vs) ∧
        (c.variants id (d.listing [entry])).result =
          .error (.violation ⟨.variant id 0, breach⟩) ∧
          e = .violation ⟨.variant id before.length, breach⟩
  /-- A draft may stand anywhere, among other drafts. -/
  moved : ∀ entries vs vs', (c.variants id d).result = .ok vs →
    (c.variants id (d.listing entries)).result = .ok vs' →
      ∀ place place' : Nat, entries[place']? = (d.variants.getD [])[place]? →
        vs'[place']? = vs[place]?.map fun v => { v with variation := place' }
  unmarked : ∀ entries,
    entries.map Opcode.Draft.unmarked = (d.variants.getD []).map Opcode.Draft.unmarked →
      (c.variants id (d.listing entries)).result = (c.variants id d).result
  /-- Markers are remarked on up to the draft that is blamed. -/
  warned : ∃ read rest, d.variants.getD [] = read ++ rest ∧
    (c.variants id d).warnings = Opcode.Draft.markerWarnings id 0 read ∧
    (∀ vs, (c.variants id d).result = .ok vs → rest = []) ∧
    ∀ variation breach, (c.variants id d).result =
      .error (.violation ⟨.variant id variation, breach⟩) → read.length = variation + 1

theorem getElem?_variantsFrom (id : String) (entries : List Opcode.Draft) (place : Nat) :
    (seed.variantsFrom id 0 entries)[place]? =
      entries[place]?.map fun entry => (entry.inherit seed).variantOf id place := by
  rw [Opcode.Draft.variantsFrom, List.getElem?_map, List.getElem?_zipIdx, Option.map_map,
    Nat.zero_add]
  rfl

/-- Nothing passes from one variant to the next: a list of variants is resolved exactly if each of
them is by itself, into the same variants but for their numbers. Otherwise the first that is not
resolved by itself is blamed. Markers on the draft of a variant give rise to a warning only. -/
theorem variants_independent (c : Catalog) (id : String) (d : Opcode.Draft) :
    c.Independent id d where
  accepted := by
    simp only [exists_variants_singleton_iff]
    exact exists_variantsFrom_iff
  numbered := by
    intro vs h
    obtain ⟨rfl, hvalid⟩ := variantsFrom_eq_ok_iff.mp h
    refine ⟨by simp [Opcode.Draft.variantsFrom], ?_⟩
    intro place entry hentry
    have hentry' := hvalid entry (List.mem_of_getElem? hentry)
    refine ⟨_, variants_singleton_eq_ok_iff.mpr ⟨rfl, hentry'⟩, ?_⟩
    rw [getElem?_variantsFrom, hentry]
    rfl
  blamed := by
    intro e
    simp only [exists_variants_singleton_iff, variants_singleton_eq_error_iff]
    rw [variants, variantsFrom_eq_error_iff]
    simp only [Nat.zero_add]
  moved := by
    intro entries vs vs' h h' place place' hplace
    obtain ⟨rfl, -⟩ := variantsFrom_eq_ok_iff.mp h
    obtain ⟨rfl, -⟩ := variantsFrom_eq_ok_iff.mp h'
    have hentries : (d.listing entries).variants.getD [] = entries := rfl
    rw [getElem?_variantsFrom, getElem?_variantsFrom, hentries, hplace, Option.map_map]
    rfl
  unmarked := by
    intro entries h
    have hinherit (entries : List Opcode.Draft) :
        (entries.map Opcode.Draft.unmarked).map (·.inherit d.seed) =
          entries.map (·.inherit d.seed) := by
      simp only [List.map_map, Function.comp_def, Opcode.Draft.inherit_unmarked]
    apply variantsFrom_congr
    have hlist := congrArg (List.map (·.inherit d.seed)) h
    rwa [hinherit, hinherit] at hlist
  warned := by
    obtain ⟨read, rest, hentries, hwarnings, hok, herror⟩ :=
      c.variantsFrom_warnings id d.seed 0 (d.variants.getD [])
    refine ⟨read, rest, hentries, hwarnings, hok, ?_⟩
    intro variation breach h
    rw [← herror variation breach h, Nat.zero_add]

end Catalog

end InstructionSet
