import InstructionSet.Json.Reader
import Mathlib.Algebra.Ring.Nat
import Mathlib.Data.List.TakeDrop

/-!
# What the text of a number spells out

A reader rounds what it reads to a double. Taken digit by digit instead, the text of a number
gives the number back.
-/

namespace InstructionSet

namespace Decimal

theorem trim_zero (exponent : Int) : trim 0 exponent = (0, 0) := by
  rw [trim, if_pos rfl]

/-- Zeros at the end of a coefficient count as powers of ten. -/
theorem trim_mul_pow (coefficient k : Nat) (exponent : Int) :
    trim (coefficient * 10 ^ k) exponent = trim coefficient (exponent + k) := by
  rcases Nat.eq_zero_or_pos coefficient with rfl | hpos
  · rw [Nat.zero_mul, trim_zero, trim_zero]
  · induction k generalizing exponent with
    | zero => simp
    | succ k ih =>
        have hne : coefficient * 10 ^ k * 10 ≠ 0 :=
          Nat.ne_of_gt (Nat.mul_pos (Nat.mul_pos hpos (Nat.pow_pos (by decide))) (by decide))
        rw [Nat.pow_succ, ← Nat.mul_assoc, trim, if_neg hne, if_pos (Nat.mul_mod_left _ 10),
          Nat.mul_div_cancel _ (by decide), ih]
        congr 1
        omega

theorem trim_eq_self (x : Decimal) :
    trim x.coefficient x.exponent = (x.coefficient, x.exponent) := by
  rcases x.trimmed with h | ⟨hcoefficient, hexponent⟩
  · have hne : x.coefficient ≠ 0 := fun e => h (by rw [e])
    rw [trim, if_neg hne, if_neg h]
  · rw [hcoefficient, hexponent, trim_zero]

theorem ofParts_eq {x : Decimal} {coefficient : Nat} {exponent : Int}
    (h : trim coefficient exponent = trim x.coefficient x.exponent) :
    ofParts x.negative coefficient exponent = x := by
  rw [trim_eq_self] at h
  obtain ⟨negative, c, e, trimmed⟩ := x
  simp only [ofParts, h]

/-- A number written with a point: there are digits on both sides, and they have the value of
`digits` at the power `exponent`. -/
structure Pointed (digits : List Char) (exponent : Int) (whole fraction : List Char) : Prop where
  whole_ne : whole ≠ []
  fraction_ne : fraction ≠ []
  isDigit : ∀ c ∈ whole ++ fraction, c.isDigit
  value : trim (Nat.ofDigitChars 10 (whole ++ fraction) 0) (-fraction.length) =
    trim (Nat.ofDigitChars 10 digits 0) exponent

section

variable {digits : List Char} (hne : digits ≠ []) (hdigits : ∀ c ∈ digits, c.isDigit)
  {exponent : Int}

include hne hdigits

theorem pointed_of_nonneg (h : 0 ≤ exponent) :
    Pointed digits exponent (digits ++ List.replicate exponent.toNat '0') ['0'] where
  whole_ne := by simp [hne]
  fraction_ne := by simp
  isDigit := by
    simp only [List.mem_append, List.mem_replicate, List.mem_singleton]
    rintro c ((hc | ⟨-, rfl⟩) | rfl)
    · exact hdigits c hc
    · decide
    · decide
  value := by
    have hcoefficient : Nat.ofDigitChars 10
        (digits ++ List.replicate exponent.toNat '0' ++ ['0']) 0 =
          Nat.ofDigitChars 10 digits 0 * 10 ^ (exponent.toNat + 1) := by
      rw [List.append_assoc, ← List.replicate_succ', Nat.ofDigitChars_append,
        Nat.ofDigitChars_replicate_zero, Nat.mul_comm]
    rw [hcoefficient, trim_mul_pow, List.length_singleton]
    congr 1
    omega

theorem pointed_of_inside (h : exponent < 0) (hpoint : 0 < (digits.length : Int) + exponent) :
    Pointed digits exponent (digits.take ((digits.length : Int) + exponent).toNat)
      (digits.drop ((digits.length : Int) + exponent).toNat) where
  whole_ne := by
    rw [Ne, List.take_eq_nil_iff]
    have hpos : ((digits.length : Int) + exponent).toNat ≠ 0 := by omega
    simp [hne, hpos]
  fraction_ne := by
    rw [Ne, List.drop_eq_nil_iff]
    omega
  isDigit := by rwa [List.take_append_drop]
  value := by
    rw [List.take_append_drop, List.length_drop]
    congr 1
    omega

theorem pointed_of_nonpos (hpoint : (digits.length : Int) + exponent ≤ 0) :
    Pointed digits exponent ['0']
      (List.replicate (-((digits.length : Int) + exponent)).toNat '0' ++ digits) where
  whole_ne := by simp
  fraction_ne := by simp [hne]
  isDigit := by
    simp only [List.mem_append, List.mem_replicate, List.mem_singleton]
    rintro c (rfl | ⟨-, rfl⟩ | hc)
    · decide
    · decide
    · exact hdigits c hc
  value := by
    rw [← List.append_assoc, Nat.ofDigitChars_append, Nat.ofDigitChars_append,
      Nat.ofDigitChars_replicate_zero, List.length_append, List.length_replicate]
    have hzero : Nat.ofDigitChars 10 ['0'] 0 = 0 := rfl
    rw [hzero, Nat.mul_zero]
    congr 1
    omega

theorem exists_pointed (exponent : Int) :
    ∃ whole fraction, positional digits exponent = whole ++ '.' :: fraction ∧
      Pointed digits exponent whole fraction := by
  rw [positional]
  by_cases h : 0 ≤ exponent
  · refine ⟨_, _, ?_, pointed_of_nonneg hne hdigits h⟩
    rw [if_pos h]
  · by_cases hpoint : 0 < (digits.length : Int) + exponent
    · refine ⟨_, _, ?_, pointed_of_inside hne hdigits (by omega) hpoint⟩
      rw [if_neg h, if_pos hpoint]
    · refine ⟨_, _, ?_, pointed_of_nonpos hne hdigits (by omega)⟩
      rw [if_neg h, if_neg hpoint]
      simp

end

end Decimal

namespace Json.Number

theorem digits?_append {run rest : List Char} (hne : run ≠ []) (hrun : ∀ c ∈ run, c.isDigit)
    (hrest : ∀ c ∈ rest.head?, ¬c.isDigit) : digits? (run ++ rest) = some (run, rest) := by
  have hdrop : rest.dropWhile Char.isDigit = rest := by
    cases rest with
    | nil => rfl
    | cons c rest => exact List.dropWhile_cons_of_neg (hrest c rfl)
  have htake : rest.takeWhile Char.isDigit = [] := by
    cases rest with
    | nil => rfl
    | cons c rest => exact List.takeWhile_cons_of_neg (hrest c rfl)
  have hspan : (run ++ rest).span Char.isDigit = (run, rest) := by
    rw [List.span_eq_takeWhile_dropWhile, List.takeWhile_append_of_pos hrun,
      List.dropWhile_append_of_pos hrun, htake, hdrop, List.append_nil]
  rw [digits?, hspan]
  cases run with
  | nil => exact absurd rfl hne
  | cons c run => rfl

theorem digits?_self {run : List Char} (hne : run ≠ []) (hrun : ∀ c ∈ run, c.isDigit) :
    digits? run = some (run, []) := by
  simpa using @digits?_append run [] hne hrun (by simp)

theorem isDigit_of_mem_toDigits {n : Nat} : ∀ c ∈ Nat.toDigits 10 n, c.isDigit :=
  fun _ hc => Nat.isDigit_of_mem_toDigits (by decide) (by decide) hc

/-- The number that the digits of `text` give, however large or small it is. -/
def spelledMagnitude? (negative : Bool) (text : List Char) : Option Number := do
  let (whole, rest) ← digits? text
  if rest = [] then
    let magnitude : Int := Nat.ofDigitChars 10 whole 0
    some (.integer (if negative then -magnitude else magnitude))
  else
    let (fraction, rest) ← fraction? rest
    let power ← power? rest
    some (.real (.ofParts negative (Nat.ofDigitChars 10 (whole ++ fraction) 0)
      (power - fraction.length)))

def spelled? : List Char → Option Number
  | '-' :: rest => spelledMagnitude? true rest
  | text => spelledMagnitude? false text

theorem spelledMagnitude?_toDigits (negative : Bool) (n : Nat) :
    spelledMagnitude? negative (Nat.toDigits 10 n) =
      some (.integer (if negative then -(n : Int) else n)) := by
  rw [spelledMagnitude?, digits?_self Nat.toDigits_ne_nil isDigit_of_mem_toDigits]
  simp

/-- Digits with a fraction or a power of ten give a real number. -/
theorem spelledMagnitude?_eq_real (negative : Bool) {text whole fraction rest rest' : List Char}
    {power : Int} (hwhole : digits? text = some (whole, rest)) (hne : rest ≠ [])
    (hfraction : fraction? rest = some (fraction, rest')) (hpower : power? rest' = some power) :
    spelledMagnitude? negative text =
      some (.real (.ofParts negative (Nat.ofDigitChars 10 (whole ++ fraction) 0)
        (power - fraction.length))) := by
  simp [spelledMagnitude?, hwhole, hne, hfraction, hpower]

theorem spelledMagnitude?_pointed (negative : Bool) {digits : List Char} {exponent : Int}
    {whole fraction : List Char} (h : Decimal.Pointed digits exponent whole fraction) :
    spelledMagnitude? negative (whole ++ '.' :: fraction) =
      some (.real (.ofParts negative (Nat.ofDigitChars 10 (whole ++ fraction) 0)
        (-fraction.length))) := by
  have hdigits := List.forall_mem_append.mp h.isDigit
  have hwhole : digits? (whole ++ '.' :: fraction) = some (whole, '.' :: fraction) :=
    digits?_append h.whole_ne hdigits.1 (by simp)
  have hfraction : fraction? ('.' :: fraction) = some (fraction, []) :=
    digits?_self h.fraction_ne hdigits.2
  rw [spelledMagnitude?_eq_real negative hwhole (by simp) hfraction rfl, Int.zero_sub]

/-- How a power of ten is written after the digits that it scales. -/
def powerChars (power : Int) : List Char :=
  'e' :: (if power < 0 then '-' else '+') :: Nat.toDigits 10 power.natAbs

theorem power?_powerChars (power : Int) : power? (powerChars power) = some power := by
  have hdigits := digits?_self (Nat.toDigits_ne_nil (n := power.natAbs)) isDigit_of_mem_toDigits
  rw [powerChars]
  split
  · simp only [power?, true_or, if_true, hdigits, Nat.ofDigitChars_ten_toDigits]
    congr 1
    omega
  · simp only [power?, true_or, if_true, hdigits, Nat.ofDigitChars_ten_toDigits,
      Bool.false_eq_true, if_false]
    congr 1
    omega

theorem scientific_cons (first : Char) (fraction : List Char) (exponent : Int) :
    Decimal.scientific (first :: fraction) exponent =
      first :: ((if fraction.isEmpty then [] else '.' :: fraction) ++
        powerChars (fraction.length + exponent)) := by
  have hpower : ((first :: fraction).length : Int) + exponent - 1 = fraction.length + exponent := by
    rw [List.length_cons]
    omega
  simp only [Decimal.scientific, hpower, powerChars]
  simp

theorem spelledMagnitude?_scientific (negative : Bool) {digits : List Char} (hne : digits ≠ [])
    (hdigits : ∀ c ∈ digits, c.isDigit) (exponent : Int) :
    spelledMagnitude? negative (Decimal.scientific digits exponent) =
      some (.real (.ofParts negative (Nat.ofDigitChars 10 digits 0) exponent)) := by
  obtain ⟨first, fraction, rfl⟩ := List.exists_cons_of_ne_nil hne
  rw [List.forall_mem_cons] at hdigits
  obtain ⟨power, hpower⟩ : ∃ power : Int, power = fraction.length + exponent := ⟨_, rfl⟩
  have hexponent : power - fraction.length = exponent := by omega
  have hread := power?_powerChars power
  have hmark : ∀ c ∈ (powerChars power).head?, ¬c.isDigit := by simp [powerChars]
  have hwhole (rest : List Char) (hrest : ∀ c ∈ rest.head?, ¬c.isDigit) :
      digits? (first :: rest) = some ([first], rest) :=
    @digits?_append [first] rest (by simp) (by simpa using hdigits.1) hrest
  rw [scientific_cons, ← hpower, ← hexponent]
  by_cases hempty : fraction = []
  · subst hempty
    exact spelledMagnitude?_eq_real negative (hwhole _ hmark) (by simp [powerChars]) rfl hread
  · have hfraction : fraction? ('.' :: (fraction ++ powerChars power)) =
        some (fraction, powerChars power) :=
      digits?_append hempty hdigits.2 hmark
    rw [List.isEmpty_eq_false_iff.mpr hempty]
    exact spelledMagnitude?_eq_real negative (hwhole _ (by simp)) (by simp) hfraction hread

theorem spelledMagnitude?_magnitude (x : Decimal) :
    spelledMagnitude? x.negative x.magnitude = some (.real x) := by
  rw [Decimal.magnitude]
  by_cases hzero : x.coefficient = 0
  · have hexponent : x.exponent = 0 := by
      rcases x.trimmed with h | h
      · simp [hzero] at h
      · exact h.2
    have htrim : Decimal.trim 0 (-1) = Decimal.trim x.coefficient x.exponent := by
      rw [hzero, Decimal.trim_zero, Decimal.trim_zero]
    rw [if_pos hzero, ← Decimal.ofParts_eq htrim]
    rfl
  · have hvalue : Nat.ofDigitChars 10 (Nat.toDigits 10 x.coefficient) 0 = x.coefficient :=
      Nat.ofDigitChars_ten_toDigits
    rw [if_neg hzero]
    dsimp only
    split
    · obtain ⟨whole, fraction, heq, hpointed⟩ := Decimal.exists_pointed
        (Nat.toDigits_ne_nil (n := x.coefficient)) isDigit_of_mem_toDigits x.exponent
      rw [heq, spelledMagnitude?_pointed x.negative hpointed, Decimal.ofParts_eq]
      rw [hpointed.value, hvalue]
    · rw [spelledMagnitude?_scientific x.negative Nat.toDigits_ne_nil isDigit_of_mem_toDigits,
        hvalue, Decimal.ofParts_eq rfl]

/-- A minus sign alone is never taken for a digit. -/
theorem spelled?_eq_spelledMagnitude? {text : List Char} {n : Number} {negative : Bool}
    (h : spelledMagnitude? negative text = some n) :
    spelled? text = spelledMagnitude? false text := by
  unfold spelled?
  split
  · simp [spelledMagnitude?, digits?] at h
  · rfl

/-- The text of a number spells that number out. -/
theorem spelled?_chars (n : Number) : spelled? n.chars = some n := by
  cases n with
  | integer n =>
      rw [chars]
      split
      · have hvalue : -(n.natAbs : Int) = n := by omega
        rw [spelled?, spelledMagnitude?_toDigits, if_pos rfl, hvalue]
      · have hvalue : (n.natAbs : Int) = n := by omega
        rw [spelled?_eq_spelledMagnitude? (spelledMagnitude?_toDigits false n.natAbs),
          spelledMagnitude?_toDigits, if_neg Bool.false_ne_true, hvalue]
  | real x =>
      have hmagnitude := spelledMagnitude?_magnitude x
      rw [chars, Decimal.chars]
      split
      · rename_i hnegative
        rw [spelled?, ← hnegative, hmagnitude]
      · rename_i hpositive
        have hfalse : x.negative = false := by simpa using hpositive
        rw [spelled?_eq_spelledMagnitude? hmagnitude, ← hfalse, hmagnitude]

/-! ### Characters of numbers -/

theorem isWordChar_of_isDigit {c : Char} (h : c.isDigit) : Scanner.isWordChar c := by
  simp [Scanner.isWordChar, Char.isAlphanum, h]

theorem isWordChar_of_mem_toDigits {n : Nat} : ∀ c ∈ Nat.toDigits 10 n, Scanner.isWordChar c :=
  fun c hc => isWordChar_of_isDigit (isDigit_of_mem_toDigits c hc)

theorem isWordChar_of_mem_powerChars {power : Int} :
    ∀ c ∈ powerChars power, Scanner.isWordChar c := by
  simp only [powerChars, List.forall_mem_cons]
  refine ⟨by decide, ?_, isWordChar_of_mem_toDigits⟩
  split <;> decide

theorem isWordChar_of_mem_scientific {digits : List Char} (hne : digits ≠ [])
    (hdigits : ∀ c ∈ digits, c.isDigit) (exponent : Int) :
    ∀ c ∈ Decimal.scientific digits exponent, Scanner.isWordChar c := by
  obtain ⟨first, fraction, rfl⟩ := List.exists_cons_of_ne_nil hne
  rw [List.forall_mem_cons] at hdigits
  rw [scientific_cons, List.forall_mem_cons, List.forall_mem_append]
  refine ⟨isWordChar_of_isDigit hdigits.1, ?_, isWordChar_of_mem_powerChars⟩
  split
  · simp
  · rw [List.forall_mem_cons]
    exact ⟨by decide, fun c hc => isWordChar_of_isDigit (hdigits.2 c hc)⟩

theorem isWordChar_of_mem_magnitude (x : Decimal) : ∀ c ∈ x.magnitude, Scanner.isWordChar c := by
  have hne := Nat.toDigits_ne_nil (b := 10) (n := x.coefficient)
  rw [Decimal.magnitude]
  split
  · exact List.all_eq_true.mp (by decide)
  · dsimp only
    split
    · obtain ⟨whole, fraction, heq, hpointed⟩ :=
        Decimal.exists_pointed hne isDigit_of_mem_toDigits x.exponent
      have hdigits := List.forall_mem_append.mp hpointed.isDigit
      rw [heq, List.forall_mem_append, List.forall_mem_cons]
      exact ⟨fun c hc => isWordChar_of_isDigit (hdigits.1 c hc), by decide,
        fun c hc => isWordChar_of_isDigit (hdigits.2 c hc)⟩
    · exact isWordChar_of_mem_scientific hne isDigit_of_mem_toDigits x.exponent

/-- A number is written as one word. -/
theorem isWordChar_of_mem_chars (n : Number) : ∀ c ∈ n.chars, Scanner.isWordChar c := by
  cases n with
  | integer n =>
      rw [chars]
      split
      · exact List.forall_mem_cons.mpr ⟨by decide, isWordChar_of_mem_toDigits⟩
      · exact isWordChar_of_mem_toDigits
  | real x =>
      rw [chars, Decimal.chars]
      split
      · exact List.forall_mem_cons.mpr ⟨by decide, isWordChar_of_mem_magnitude x⟩
      · exact isWordChar_of_mem_magnitude x

end Json.Number

end InstructionSet
