import InstructionSet.Text.Replace
import Mathlib.Data.List.Infix

/-!
# Replacement of names in braces

Tokens are names in braces, so no token begins within another, and replacing one leaves all others
as they stand. What is written in its place gives a new token only if it has a brace, or is a part
of the name of that token. Replacing some tokens one after the other is then the same as going
through the text once.
-/

namespace InstructionSet.Text

def braced (name : List Char) : List Char := '{' :: (name ++ ['}'])

structure BraceFree (text : List Char) : Prop where
  opening : '{' ∉ text
  closing : '}' ∉ text

instance (text : List Char) : Decidable (BraceFree text) :=
  decidable_of_iff ('{' ∉ text ∧ '}' ∉ text)
    ⟨fun h => ⟨h.1, h.2⟩, fun h => ⟨h.opening, h.closing⟩⟩

/-- Wherever `value` is written, it takes no part in a `name` in braces. -/
structure Inert (value name : List Char) : Prop where
  braceFree : BraceFree value
  not_part : ¬value <:+: name

theorem inert_of_head {c : Char} {value name : List Char} (h : BraceFree (c :: value))
    (hc : c ∉ name) : Inert (c :: value) name :=
  ⟨h, fun hpart => hc (hpart.subset List.mem_cons_self)⟩

section

variable {name other : List Char}

theorem braced_ne_nil (name : List Char) : braced name ≠ [] := List.cons_ne_nil _ _

theorem eq_of_prefix_braced_append (hname : '}' ∉ name) (hother : '}' ∉ other) {rest : List Char}
    (h : braced name <+: braced other ++ rest) : name = other := by
  rw [braced, braced, List.cons_append, List.cons_prefix_cons, List.append_assoc,
    List.singleton_append] at h
  obtain ⟨after, hafter⟩ := h.2
  rw [List.append_assoc, List.singleton_append] at hafter
  have htake (l r : List Char) (hl : '}' ∉ l) : (l ++ '}' :: r).takeWhile (· ≠ '}') = l := by
    rw [List.takeWhile_append_of_pos]
    · simp
    · exact fun c hc => by simpa using fun e : c = '}' => hl (e ▸ hc)
  rw [← htake name after hname, hafter, htake other rest hother]

theorem infix_of_infix_append {first rest : List Char} (hfirst : '{' ∉ first)
    (h : braced name <:+: first ++ rest) : braced name <:+: rest := by
  induction first with
  | nil => exact h
  | cons c first ih =>
      obtain ⟨hc, hfirst⟩ := not_or.mp (mt List.mem_cons.mpr hfirst)
      rcases List.infix_cons_iff.mp h with h | h
      · exact absurd (List.cons_prefix_cons.mp h).1 hc
      · exact ih hfirst h

end

/-! ## One occurrence after the other -/

section

variable {token value : List Char}

theorem replaceFrom_eq_drop (skip : Nat) (text : List Char) :
    replaceFrom token value skip text = replaceFrom token value 0 (text.drop skip) := by
  induction skip generalizing text with
  | zero => rfl
  | succ skip ih =>
      cases text with
      | nil => simp
      | cons c rest => rw [replaceFrom, List.drop_succ_cons, ih]

theorem replaceFrom_token_append (htoken : token ≠ []) (rest : List Char) :
    replaceFrom token value 0 (token ++ rest) = value ++ replaceFrom token value 0 rest := by
  obtain ⟨c, token, rfl⟩ := List.exists_cons_of_ne_nil htoken
  have hprefix : (c :: token).isPrefixOf (c :: (token ++ rest)) :=
    List.isPrefixOf_iff_prefix.mpr (List.prefix_append (c :: token) rest)
  rw [List.cons_append, replaceFrom, if_pos hprefix, replaceFrom_eq_drop]
  simp

theorem replaceFrom_cons {c : Char} {rest : List Char} (h : ¬token <+: c :: rest) :
    replaceFrom token value 0 (c :: rest) = c :: replaceFrom token value 0 rest := by
  rw [replaceFrom, if_neg fun hprefix => h (List.isPrefixOf_iff_prefix.mp hprefix)]

theorem replaceFrom_of_not_infix {text : List Char} (h : ¬token <:+: text) :
    replaceFrom token value 0 text = text := by
  induction text with
  | nil => rfl
  | cons c rest ih =>
      obtain ⟨hstart, hrest⟩ := not_or.mp (mt List.infix_cons_iff.mpr h)
      rw [replaceFrom_cons hstart, ih hrest]

end

/-! ## Passes -/

/-- `f` goes through a text once, from left to right. Where it meets a name of `table` in braces it
writes the value that stands beside the name, and everything else it copies. -/
structure OnePass (table : List (List Char × List Char)) (f : List Char → List Char) : Prop where
  nil : f [] = []
  token : ∀ entry ∈ table, ∀ rest, f (braced entry.1 ++ rest) = entry.2 ++ f rest
  copied : ∀ c rest, (∀ entry ∈ table, ¬braced entry.1 <+: c :: rest) → f (c :: rest) = c :: f rest

/-- The order in which a pass goes through a text, over a token at once or over a character at
which no token begins. -/
theorem pass_induction (table : List (List Char × List Char)) {motive : List Char → Prop}
    (nil : motive [])
    (token : ∀ entry ∈ table, ∀ rest, motive rest → motive (braced entry.1 ++ rest))
    (copied : ∀ c rest, (∀ entry ∈ table, ¬braced entry.1 <+: c :: rest) → motive rest →
      motive (c :: rest))
    (text : List Char) : motive text := by
  induction hn : text.length using Nat.strong_induction_on generalizing text with
  | _ n ih =>
      subst hn
      cases text with
      | nil => exact nil
      | cons c rest =>
          by_cases h : ∃ entry ∈ table, braced entry.1 <+: c :: rest
          · obtain ⟨entry, hentry, after, hafter⟩ := h
            rw [← hafter] at ih ⊢
            refine token entry hentry after (ih _ ?_ after rfl)
            rw [List.length_append]
            exact Nat.lt_add_of_pos_left (List.length_pos_iff.mpr (braced_ne_nil entry.1))
          · have hnone : ∀ entry ∈ table, ¬braced entry.1 <+: c :: rest :=
              fun entry hentry hprefix => h ⟨entry, hentry, hprefix⟩
            exact copied c rest hnone (ih _ (Nat.lt_succ_self _) rest rfl)

theorem onePass_replaceFrom {name value : List Char} :
    OnePass [(name, value)] (replaceFrom (braced name) value 0) where
  nil := rfl
  token := List.forall_mem_singleton.mpr (replaceFrom_token_append (braced_ne_nil name))
  copied _ _ h := replaceFrom_cons (h (name, value) List.mem_cons_self)

namespace OnePass

variable {table : List (List Char × List Char)} {f g : List Char → List Char}
  {name other value text : List Char}

/-- The table says all about a pass. -/
theorem eq (hf : OnePass table f) (hg : OnePass table g) : f = g := by
  funext text
  induction text using pass_induction table with
  | nil => rw [hf.nil, hg.nil]
  | token entry hentry rest ih => rw [hf.token entry hentry, hg.token entry hentry, ih]
  | copied c rest hc ih => rw [hf.copied c rest hc, hg.copied c rest hc, ih]

/-- The order of the table does not matter. -/
theorem perm {table' : List (List Char × List Char)} (hf : OnePass table f)
    (h : table.Perm table') : OnePass table' f where
  nil := hf.nil
  token entry hentry := hf.token entry (h.mem_iff.mpr hentry)
  copied c rest hc := hf.copied c rest fun entry hentry => hc entry (h.mem_iff.mp hentry)

/-! ### Tokens apart -/

theorem append_of_not_mem (hf : OnePass table f) {first : List Char} (h : '{' ∉ first)
    (rest : List Char) : f (first ++ rest) = first ++ f rest := by
  induction first with
  | nil => rfl
  | cons c first ih =>
      obtain ⟨hc, hfirst⟩ := not_or.mp (mt List.mem_cons.mpr h)
      have hnone : ∀ entry ∈ table, ¬braced entry.1 <+: c :: (first ++ rest) :=
        fun _ _ hprefix => hc (List.cons_prefix_cons.mp hprefix).1
      rw [List.cons_append, hf.copied c _ hnone, ih hfirst, List.cons_append]

/-- Another token is copied. -/
theorem braced_append (hf : OnePass table f) (hother : BraceFree other)
    (htable : ∀ entry ∈ table, BraceFree entry.1 ∧ entry.1 ≠ other) (rest : List Char) :
    f (braced other ++ rest) = braced other ++ f rest := by
  have hnone : ∀ entry ∈ table, ¬braced entry.1 <+: braced other ++ rest := by
    intro entry hentry h
    obtain ⟨hfree, hne⟩ := htable entry hentry
    exact hne (eq_of_prefix_braced_append hfree.closing hother.closing h)
  have hbody : '{' ∉ other ++ ['}'] := by simpa using hother.opening
  exact (hf.copied _ _ hnone).trans (congrArg (List.cons '{') (hf.append_of_not_mem hbody rest))

/-! ### Tokens after a pass -/

/-- Up to its closing brace, the rest of a token stood in the text before. -/
theorem prefix_of_prefix (hf : OnePass table f) {rest : List Char}
    (hvalues : ∀ entry ∈ table, '}' ∉ entry.2 ∧ ¬entry.2 <:+: rest)
    (h : rest ++ ['}'] <+: f text) : rest ++ ['}'] <+: text := by
  induction text using pass_induction table generalizing rest with
  | nil => simp [hf.nil] at h
  | token entry hentry after ih =>
      obtain ⟨hvalue, hrest⟩ := hvalues entry hentry
      rw [hf.token entry hentry] at h
      have hprefix := List.prefix_append entry.2 (f after)
      -- The value ends before the closing brace or contains it.
      by_cases hlength : entry.2.length ≤ rest.length
      · have hpart : entry.2 <+: rest ++ ['}'] :=
          List.prefix_of_prefix_length_le hprefix h (by simp; omega)
        exact absurd (List.prefix_of_prefix_length_le hpart (List.prefix_append _ _)
          hlength).isInfix hrest
      · have hpart : rest ++ ['}'] <+: entry.2 :=
          List.prefix_of_prefix_length_le h hprefix (by simp; omega)
        exact absurd (hpart.subset (List.mem_append_right _ List.mem_cons_self)) hvalue
  | copied c after hc ih =>
      rw [hf.copied c after hc] at h
      cases rest with
      | nil => exact List.cons_prefix_cons.mpr ⟨(List.cons_prefix_cons.mp h).1, List.nil_prefix⟩
      | cons d rest =>
          obtain ⟨rfl, hcopied⟩ := List.cons_prefix_cons.mp h
          refine List.cons_prefix_cons.mpr ⟨rfl, ih (fun entry hentry => ?_) hcopied⟩
          obtain ⟨hvalue, hrest⟩ := hvalues entry hentry
          exact ⟨hvalue, fun hpart => hrest (hpart.trans (List.suffix_cons d rest).isInfix)⟩

/-- No token begins at a character that is copied unless it did before. -/
theorem prefix_cons_of_prefix_cons (hf : OnePass table f)
    (hvalues : ∀ entry ∈ table, Inert entry.2 name) {c : Char} {rest : List Char}
    (h : braced name <+: c :: f rest) : braced name <+: c :: rest := by
  obtain ⟨rfl, hbody⟩ := List.cons_prefix_cons.mp h
  refine List.cons_prefix_cons.mpr ⟨rfl, hf.prefix_of_prefix (fun entry hentry => ?_) hbody⟩
  exact ⟨(hvalues entry hentry).braceFree.closing, (hvalues entry hentry).not_part⟩

/-- A pass gives no tokens but those that the values bring with them. -/
theorem infix_of_infix (hf : OnePass table f) (hvalues : ∀ entry ∈ table, Inert entry.2 name)
    (h : braced name <:+: f text) : braced name <:+: text := by
  induction text using pass_induction table with
  | nil => rwa [hf.nil] at h
  | token entry hentry after ih =>
      rw [hf.token entry hentry] at h
      have hafter := infix_of_infix_append (hvalues entry hentry).braceFree.opening h
      exact (ih hafter).trans (List.suffix_append _ after).isInfix
  | copied c after hc ih =>
      rw [hf.copied c after hc] at h
      rcases List.infix_cons_iff.mp h with h | h
      · exact (hf.prefix_cons_of_prefix_cons hvalues h).isInfix
      · exact (ih h).trans (List.suffix_cons c after).isInfix

/-- No occurrence of a token that is rendered is left. -/
theorem not_infix (hf : OnePass table f) (hname : (name, value) ∈ table)
    (hvalues : ∀ entry ∈ table, Inert entry.2 name) : ¬braced name <:+: f text := by
  intro h
  induction text using pass_induction table with
  | nil => simp [hf.nil, braced] at h
  | token entry hentry after ih =>
      rw [hf.token entry hentry] at h
      exact ih (infix_of_infix_append (hvalues entry hentry).braceFree.opening h)
  | copied c after hc ih =>
      rw [hf.copied c after hc] at h
      rcases List.infix_cons_iff.mp h with h | h
      · exact hc _ hname (hf.prefix_cons_of_prefix_cons hvalues h)
      · exact ih h

/-- A pass takes no other token away. -/
theorem infix_pass_of_infix (hf : OnePass table f) (hname : BraceFree name)
    (htable : ∀ entry ∈ table, BraceFree entry.1 ∧ entry.1 ≠ name)
    (h : braced name <:+: text) : braced name <:+: f text := by
  induction text using pass_induction table with
  | nil => simp [braced] at h
  | token entry hentry after ih =>
      obtain ⟨hfree, hne⟩ := htable entry hentry
      have hbody : '{' ∉ entry.1 ++ ['}'] := by simpa using hfree.opening
      rw [hf.token entry hentry]
      rcases List.infix_cons_iff.mp h with h | h
      · exact absurd (eq_of_prefix_braced_append hname.closing hfree.closing h) (Ne.symm hne)
      · exact (ih (infix_of_infix_append hbody h)).trans (List.suffix_append entry.2 _).isInfix
  | copied c after hc ih =>
      rcases List.infix_cons_iff.mp h with ⟨rest, hrest⟩ | h
      · rw [← hrest, hf.braced_append hname htable]
        exact (List.prefix_append _ _).isInfix
      · rw [hf.copied c after hc]
        exact (ih h).trans (List.suffix_cons c _).isInfix

/-! ### Passes in sequence -/

/-- Replacing one more token after a pass is the same as having it in the table. -/
theorem cons (hf : OnePass table f) (hname : BraceFree name)
    (htable : ∀ entry ∈ table, BraceFree entry.1 ∧ entry.1 ≠ name)
    (hvalues : ∀ entry ∈ table, Inert entry.2 name) :
    OnePass ((name, value) :: table) fun text => replaceFrom (braced name) value 0 (f text) where
  nil := by rw [hf.nil, replaceFrom_nil]
  token := by
    refine List.forall_mem_cons.mpr ⟨fun rest => ?_, fun entry hentry rest => ?_⟩
    · rw [hf.braced_append hname htable, replaceFrom_token_append (braced_ne_nil name)]
    · rw [hf.token entry hentry,
        onePass_replaceFrom.append_of_not_mem (hvalues entry hentry).braceFree.opening]
  copied c rest h := by
    obtain ⟨hfirst, htable⟩ := List.forall_mem_cons.mp h
    have hprefix : ¬braced name <+: c :: f rest := fun hprefix =>
      hfirst (hf.prefix_cons_of_prefix_cons hvalues hprefix)
    rw [hf.copied c rest htable, replaceFrom_cons hprefix]

end OnePass

end InstructionSet.Text
