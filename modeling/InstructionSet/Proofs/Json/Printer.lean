import InstructionSet.Json.Printer
import InstructionSet.Proofs.Json.Number
import InstructionSet.Proofs.Json.Value

/-!
# Compact text tells values apart

A text of a value shows where the value ends, so that no two values have the same text, not even
two that a reader takes for equal.
-/

namespace InstructionSet.Json

/-! ### Texts -/

namespace Scanner

/-- The text that the scanner is in the middle of, and what follows it. -/
def textEnd? : Scanner → List Char → Option (String × List Char)
  | _, [] => none
  | scanner, c :: rest =>
      match scanner.step? c with
      | some (.idle, [.text s]) => some (s, rest)
      | some (next, []) => textEnd? next rest
      | _ => none

theorem textEnd?_cons {scanner : Scanner} (next : Scanner) {c : Char}
    (h : scanner.step? c = some (next, [])) (rest : List Char) :
    textEnd? scanner (c :: rest) = textEnd? next rest := by
  rw [textEnd?, h]
  cases next <;> rfl

theorem hexDigit?_hexDigit {n : Nat} (h : n < 16) : hexDigit? (hexDigit n) = some n := by
  have hall : ∀ n < 16, hexDigit? (hexDigit n) = some n := by decide
  exact hall n h

/-- An escape of two characters. -/
theorem textEnd?_escape {seen rest : List Char} {mark c : Char} (hu : mark ≠ 'u')
    (h : unescape? mark = some c) :
    textEnd? (.text seen) ('\\' :: mark :: rest) = textEnd? (.text (c :: seen)) rest := by
  rw [textEnd?_cons (.escape seen) (by simp [step?]),
    textEnd?_cons (.text (c :: seen)) (by simp [step?, hu, h])]

theorem afterUnit?_toNat {c : Char} (seen : List Char) (h : c.toNat < 256) :
    afterUnit? seen none c.toNat = some (.text (c :: seen)) := by
  have hhigh : isHigh c.toNat = false := by
    simp only [isHigh, Bool.and_eq_false_iff, decide_eq_false_iff_not]
    omega
  have hlow : isLow c.toNat = false := by
    simp only [isLow, Bool.and_eq_false_iff, decide_eq_false_iff_not]
    omega
  simp [afterUnit?, hhigh, hlow, Char.ofNat_toNat]

/-- A character by its number, for numbers of at most two digits. -/
theorem textEnd?_unit {seen rest : List Char} {c : Char} (h : c.toNat < 256) :
    textEnd? (.text seen)
        ('\\' :: 'u' :: '0' :: '0' :: hexDigit (c.toNat / 16) :: hexDigit (c.toNat % 16) :: rest) =
      textEnd? (.text (c :: seen)) rest := by
  have hzero : hexDigit? '0' = some 0 := by decide
  have hhigh := hexDigit?_hexDigit (n := c.toNat / 16) (by omega)
  have hlow := hexDigit?_hexDigit (n := c.toNat % 16) (by omega)
  have hvalue : c.toNat / 16 * 16 + c.toNat % 16 = c.toNat := by omega
  have hafter := afterUnit?_toNat seen h
  rw [textEnd?_cons (.escape seen) (by simp [step?]),
    textEnd?_cons (.unit seen none []) (by simp [step?]),
    textEnd?_cons (.unit seen none [0]) (by simp [step?, hzero]),
    textEnd?_cons (.unit seen none [0, 0]) (by simp [step?, hzero]),
    textEnd?_cons (.unit seen none [0, 0, c.toNat / 16]) (by simp [step?, hhigh]),
    textEnd?_cons (.text (c :: seen)) (by simp [step?, hlow, hvalue, hafter])]

/-- The scanner gathers a character from the way it is written. -/
theorem textEnd?_escapedChar (seen : List Char) (c : Char) (rest : List Char) :
    textEnd? (.text seen) (escapedChar c ++ rest) = textEnd? (.text (c :: seen)) rest := by
  by_cases hmark : c ∈ ['"', '\\', '\x08', '\x0c', '\n', '\r', '\t']
  · simp only [List.mem_cons, List.not_mem_nil, or_false] at hmark
    rcases hmark with rfl | rfl | rfl | rfl | rfl | rfl | rfl <;>
      exact textEnd?_escape (by decide) rfl
  · simp only [List.mem_cons, List.not_mem_nil, or_false, not_or] at hmark
    by_cases hcontrol : c.toNat < 0x20
    · simp only [escapedChar, hmark, hcontrol, if_false, if_true]
      exact textEnd?_unit (by omega)
    · simp only [escapedChar, hmark, hcontrol, if_false]
      exact textEnd?_cons _ (by simp [step?, hmark, hcontrol]) rest

theorem textEnd?_flatMap (seen text rest : List Char) :
    textEnd? (.text seen) (text.flatMap escapedChar ++ '"' :: rest) =
      some (String.ofList (seen.reverse ++ text), rest) := by
  induction text generalizing seen with
  | nil => simp [textEnd?, step?]
  | cons c text ih =>
      rw [List.flatMap_cons, List.append_assoc, textEnd?_escapedChar, ih]
      simp

end Scanner

/-- What begins with a text between quotes shows where the text ends. -/
theorem escaped_append_inj {s t : String} {r r' : List Char}
    (h : escaped s ++ r = escaped t ++ r') : s = t ∧ r = r' := by
  have hend (s : String) (r : List Char) :
      Scanner.textEnd? (.text []) (s.toList.flatMap escapedChar ++ '"' :: r) = some (s, r) := by
    rw [Scanner.textEnd?_flatMap]
    simp
  simp only [escaped, List.cons_append, List.append_assoc, List.nil_append, List.cons.injEq,
    true_and] at h
  have hboth := (hend s r).symm.trans (h ▸ hend t r')
  simpa using hboth

/-! ### Words -/

/-- No word goes on in `rest`. -/
def Ends (rest : List Char) : Prop := ∀ c ∈ rest.head?, ¬Scanner.isWordChar c

theorem ends_cons {c : Char} (h : Scanner.isWordChar c = false) (rest : List Char) :
    Ends (c :: rest) := by
  simp [Ends, h]

theorem Ends.append {first rest : List Char} (hfirst : Ends first) (hrest : Ends rest) :
    Ends (first ++ rest) := by
  cases first with
  | nil => exact hrest
  | cons c first => exact hfirst

theorem takeWhile_isWordChar {word rest : List Char} (hword : ∀ c ∈ word, Scanner.isWordChar c)
    (hrest : Ends rest) : (word ++ rest).takeWhile Scanner.isWordChar = word := by
  rw [List.takeWhile_append_of_pos hword]
  cases rest with
  | nil => simp
  | cons c rest => simp [List.takeWhile_cons_of_neg (hrest c rfl)]

theorem word_append_inj {w w' r r' : List Char} (hw : ∀ c ∈ w, Scanner.isWordChar c)
    (hw' : ∀ c ∈ w', Scanner.isWordChar c) (hr : Ends r) (hr' : Ends r')
    (h : w ++ r = w' ++ r') : w = w' ∧ r = r' := by
  have hword : w = w' := by
    rw [← takeWhile_isWordChar hw hr, h, takeWhile_isWordChar hw' hr']
  exact ⟨hword, List.append_cancel_left (hword ▸ h)⟩

/-- The value that a word gives, its digits taken as they are. -/
def spelledWord? (word : List Char) : Option Value :=
  if word = "null".toList then some .null
  else if word = "true".toList then some (.bool true)
  else if word = "false".toList then some (.bool false)
  else (Number.spelled? word).map .number

namespace Value

/-- How a value begins that is no single word. -/
def opening? : Value → Option Char
  | .text _ => some '"'
  | .array _ => some '['
  | .object _ => some '\x7b'
  | _ => none

theorem spelledWord?_compactChars {v : Value} (h : v.opening? = none) :
    spelledWord? v.compactChars = some v := by
  cases v with
  | null => rfl
  | bool b => cases b <;> rfl
  | number n =>
      have hchars : n.chars = (Value.number n).compactChars := rfl
      have hspelled := Number.spelled?_chars n
      have hne (word : List Char) (hword : Number.spelled? word = none) : n.chars ≠ word := by
        rintro rfl
        rw [hword] at hspelled
        cases hspelled
      rw [← hchars, spelledWord?, if_neg (hne _ rfl), if_neg (hne _ rfl), if_neg (hne _ rfl),
        hspelled, Option.map_some]
  | text s => cases h
  | array items => cases h
  | object members => cases h

theorem isWordChar_of_mem_compactChars {v : Value} (h : v.opening? = none) :
    ∀ c ∈ v.compactChars, Scanner.isWordChar c := by
  cases v with
  | null => exact List.all_eq_true.mp (by decide)
  | bool b => cases b <;> exact List.all_eq_true.mp (by decide)
  | number n => exact Number.isWordChar_of_mem_chars n
  | text s => cases h
  | array items => cases h
  | object members => cases h

theorem word_inj {v w : Value} (hv : v.opening? = none) (hw : w.opening? = none)
    (h : v.compactChars = w.compactChars) : v = w :=
  Option.some.inj
    ((spelledWord?_compactChars hv).symm.trans (h ▸ spelledWord?_compactChars hw))

/-- A text begins with the character that opens its value, or with one of a word. -/
theorem exists_compactChars_eq_cons (v : Value) :
    ∃ c rest, v.compactChars = c :: rest ∧
      (v.opening? = some c ∨ v.opening? = none ∧ Scanner.isWordChar c) := by
  cases hopening : v.opening? with
  | none =>
      have hword := isWordChar_of_mem_compactChars hopening
      cases hchars : v.compactChars with
      | nil =>
          have hspelled := spelledWord?_compactChars hopening
          rw [hchars] at hspelled
          cases hspelled
      | cons c rest =>
          rw [hchars, List.forall_mem_cons] at hword
          exact ⟨c, rest, rfl, .inr ⟨rfl, hword.1⟩⟩
  | some c =>
      cases v with
      | text s => exact ⟨'"', _, rfl, .inl hopening.symm⟩
      | array items => exact ⟨'[', _, by rw [compactChars]; rfl, .inl hopening.symm⟩
      | object members => exact ⟨'\x7b', _, by rw [compactChars]; rfl, .inl hopening.symm⟩
      | _ => cases hopening

end Value

/-! ### Items and members -/

/-- How a member is written. -/
def memberChars (member : String × Value) : List Char :=
  escaped member.1 ++ ':' :: member.2.compactChars

theorem compactItems_eq (items : List Value) :
    compactItems items = [','].intercalate (items.map Value.compactChars) := by
  induction items with
  | nil => rfl
  | cons item rest ih =>
      cases rest with
      | nil => simp [compactItems]
      | cons next rest => simp [compactItems, ih]

theorem compactMembers_eq (members : List (String × Value)) :
    compactMembers members = [','].intercalate (members.map memberChars) := by
  induction members with
  | nil => rfl
  | cons member rest ih =>
      cases rest with
      | nil => simp [compactMembers, memberChars]
      | cons next rest => simp [compactMembers, memberChars, ih]

/-- The text of `x` can be told from what follows it. -/
def Recovers {α : Type} (chars : α → List Char) (x : α) : Prop :=
  ∀ (y : α) (r s : List Char), Ends r → Ends s → chars x ++ r = chars y ++ s → x = y ∧ r = s

section

variable {α : Type} {chars : α → List Char} {close : Char}

theorem intercalate_cons_append (x : α) (xs : List α) (r : List Char) :
    [','].intercalate ((x :: xs).map chars) ++ close :: r =
      chars x ++ if xs = [] then close :: r
        else ',' :: ([','].intercalate (xs.map chars) ++ close :: r) := by
  cases xs <;> simp

/-- Texts with commas between them, up to the mark that closes the list. -/
theorem intercalate_append_inj (hclose : Scanner.isWordChar close = false) (hcomma : close ≠ ',')
    (hopen : ∀ x, ∃ c rest, chars x = c :: rest ∧ c ≠ close) {xs ys : List α}
    (hxs : ∀ x ∈ xs, Recovers chars x) {r s : List Char}
    (h : [','].intercalate (xs.map chars) ++ close :: r =
      [','].intercalate (ys.map chars) ++ close :: s) : xs = ys ∧ r = s := by
  have hends (zs : List α) (t : List Char) : Ends (if zs = [] then close :: t
      else ',' :: ([','].intercalate (zs.map chars) ++ close :: t)) := by
    split
    · exact ends_cons hclose t
    · exact ends_cons (by decide) _
  -- A list that is closed at once differs from every other in its first character.
  have hnil (x : α) (zs : List α) (t u : List Char) :
      close :: t ≠ [','].intercalate ((x :: zs).map chars) ++ close :: u := by
    obtain ⟨c, rest, hchars, hc⟩ := hopen x
    rw [intercalate_cons_append, hchars]
    intro e
    exact hc (List.cons.inj e).1.symm
  induction xs generalizing ys with
  | nil =>
      cases ys with
      | nil => simpa using h
      | cons y ys => exact absurd h (hnil y ys r s)
  | cons x xs ih =>
      cases ys with
      | nil => exact absurd h.symm (hnil x xs s r)
      | cons y ys =>
          rw [List.forall_mem_cons] at hxs
          rw [intercalate_cons_append, intercalate_cons_append] at h
          obtain ⟨rfl, hrest⟩ := hxs.1 y _ _ (hends xs r) (hends ys s) h
          by_cases hx : xs = [] <;> by_cases hy : ys = []
          · rw [if_pos hx, if_pos hy] at hrest
            exact ⟨by rw [hx, hy], (List.cons.inj hrest).2⟩
          · rw [if_pos hx, if_neg hy] at hrest
            exact absurd (List.cons.inj hrest).1 hcomma
          · rw [if_neg hx, if_pos hy] at hrest
            exact absurd (List.cons.inj hrest).1.symm hcomma
          · rw [if_neg hx, if_neg hy] at hrest
            obtain ⟨rfl, hrs⟩ := ih hxs.2 (List.cons.inj hrest).2
            exact ⟨rfl, hrs⟩

end

theorem recovers_memberChars {member : String × Value}
    (h : Recovers Value.compactChars member.2) : Recovers memberChars member := by
  intro other r s hr hs heq
  simp only [memberChars, List.append_assoc, List.cons_append] at heq
  obtain ⟨hkey, hvalue⟩ := escaped_append_inj heq
  obtain ⟨hsame, hrs⟩ := h other.2 r s hr hs (List.cons.inj hvalue).2
  exact ⟨Prod.ext hkey hsame, hrs⟩

namespace Value

theorem compactChars_array (items : List Value) :
    (array items).compactChars = '[' :: ([','].intercalate (items.map compactChars) ++ [']']) := by
  rw [compactChars, compactItems_eq, List.cons_append]

theorem compactChars_object (members : List (String × Value)) :
    (object members).compactChars =
      '\x7b' :: ([','].intercalate (members.map memberChars) ++ ['\x7d']) := by
  rw [compactChars, compactMembers_eq, List.cons_append]

theorem opening?_eq_of_append {v w : Value} {r s : List Char}
    (h : v.compactChars ++ r = w.compactChars ++ s) : v.opening? = w.opening? := by
  obtain ⟨c, rest, hv, hvc⟩ := v.exists_compactChars_eq_cons
  obtain ⟨d, rest', hw, hwd⟩ := w.exists_compactChars_eq_cons
  rw [hv, hw, List.cons_append, List.cons_append, List.cons.injEq] at h
  obtain ⟨rfl, -⟩ := h
  have hnot (u : Value) (hu : u.opening? = some c) : ¬Scanner.isWordChar c := by
    cases u <;> simp only [opening?, Option.some.injEq, reduceCtorEq] at hu <;> subst hu <;> decide
  rcases hvc with hvc | ⟨hvc, hword⟩ <;> rcases hwd with hwd | ⟨hwd, hword'⟩
  · rw [hvc, hwd]
  · exact absurd hword' (hnot v hvc)
  · exact absurd hword (hnot w hwd)
  · rw [hvc, hwd]

/-- No text begins with the mark that closes an array. -/
theorem exists_compactChars_eq_cons_ne (v : Value) :
    ∃ c rest, v.compactChars = c :: rest ∧ c ≠ ']' := by
  obtain ⟨c, rest, hchars, hc⟩ := v.exists_compactChars_eq_cons
  refine ⟨c, rest, hchars, ?_⟩
  rintro rfl
  rcases hc with hopening | ⟨-, hword⟩
  · cases v <;> simp [opening?] at hopening
  · exact absurd hword (by decide)

/-- The text of a value can be told from what follows it. -/
theorem recovers_compactChars (v : Value) : Recovers compactChars v := by
  have hword {v : Value} (hv : v.opening? = none) : Recovers compactChars v := by
    intro w r s hr hs h
    have hw : w.opening? = none := opening?_eq_of_append h ▸ hv
    obtain ⟨hchars, hrs⟩ := word_append_inj (isWordChar_of_mem_compactChars hv)
      (isWordChar_of_mem_compactChars hw) hr hs h
    exact ⟨word_inj hv hw hchars, hrs⟩
  induction v using Value.inductionOn with
  | null => exact hword rfl
  | bool b => exact hword rfl
  | number n => exact hword rfl
  | text s =>
      intro w r r' hr hr' h
      have hopening := opening?_eq_of_append h
      cases w with
      | text t =>
          obtain ⟨rfl, hrest⟩ := escaped_append_inj h
          exact ⟨rfl, hrest⟩
      | _ => cases hopening
  | array items ih =>
      intro w r r' hr hr' h
      have hopening := opening?_eq_of_append h
      cases w with
      | array items' =>
          simp only [compactChars_array, List.cons_append, List.append_assoc, List.nil_append,
            List.cons.injEq, true_and] at h
          obtain ⟨rfl, hrest⟩ := intercalate_append_inj (by decide) (by decide)
            exists_compactChars_eq_cons_ne ih h
          exact ⟨rfl, hrest⟩
      | _ => cases hopening
  | object members ih =>
      intro w r r' hr hr' h
      have hopening := opening?_eq_of_append h
      cases w with
      | object members' =>
          simp only [compactChars_object, List.cons_append, List.append_assoc, List.nil_append,
            List.cons.injEq, true_and] at h
          obtain ⟨rfl, hrest⟩ := intercalate_append_inj (by decide) (by decide)
            (fun member => ⟨'"', _, rfl, by decide⟩)
            (fun member hmember => recovers_memberChars (ih member hmember)) h
          exact ⟨rfl, hrest⟩
      | _ => cases hopening

/-- Two values with one compact text are the same, down to the order of members. -/
theorem compact_injective : Function.Injective compact := by
  intro v w h
  have hchars : v.compactChars ++ [] = w.compactChars ++ [] := by
    rw [String.ofList_injective h]
  exact (recovers_compactChars v w [] [] (by simp [Ends]) (by simp [Ends]) hchars).1

end Value

end InstructionSet.Json
