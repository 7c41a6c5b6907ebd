import Mathlib.Algebra.Order.Field.Rat
import Mathlib.Data.List.DropRight
import Mathlib.Tactic.FieldSimp
import Mathlib.Tactic.Linarith
import Mathlib.Tactic.Ring

/-!
# Decimal numerals

Numerals as lists of digits, and what they stand for: whole numbers, and decimal fractions
with a point. `Nat.toDigits 10` writes a number in its one numeral without leading zeros
(`isNumeral_toDigits`); the first digits of a numeral are the number with the last ones cut
off (`numeralValue_take`); zeros at the end of a fraction stand for nothing
(`fractionValue_rdropWhile`).
-/

namespace GatewayConsole

/-! ## Whole numbers -/

/-- Digits, with no zero in front of others. -/
structure IsNumeral (cs : List Char) : Prop where
  digits : ∀ c ∈ cs, c.isDigit = true
  ne_nil : cs ≠ []
  head : cs.head? = some '0' → cs = ['0']

/-- The number that the digits stand for. -/
def numeralValue (cs : List Char) : Nat := Nat.ofDigitChars 10 cs 0

theorem digitChar_ne_zero {n : Nat} (hpos : 0 < n) (hlt : n < 10) : Nat.digitChar n ≠ '0' := by
  intro heq
  have hvalue := Nat.toNat_digitChar_sub_48_of_lt_ten hlt
  rw [heq] at hvalue
  exact Nat.ne_of_lt hpos hvalue

/-- The first digit of a positive number. -/
theorem head_toDigits_ne_zero {n : Nat} (hpos : 0 < n) :
    (Nat.toDigits 10 n).head? ≠ some '0' := by
  induction n using Nat.strong_induction_on with
  | _ n ih =>
      rw [Nat.toDigits_eq_if (by decide)]
      split
      · rename_i hlt
        intro heq
        exact digitChar_ne_zero hpos hlt (Option.some.inj heq)
      · rename_i hge
        rw [List.head?_append_of_ne_nil _ Nat.toDigits_ne_nil]
        exact ih (n / 10) (by omega) (by omega)

theorem isNumeral_toDigits (n : Nat) : IsNumeral (Nat.toDigits 10 n) where
  digits _ hc := Nat.isDigit_of_mem_toDigits (by decide) (by decide) hc
  ne_nil := Nat.toDigits_ne_nil
  head hzero := by
    rcases Nat.eq_zero_or_pos n with rfl | hpos
    · exact Nat.toDigits_zero 10
    · exact absurd hzero (head_toDigits_ne_zero hpos)

@[simp] theorem numeralValue_toDigits (n : Nat) : numeralValue (Nat.toDigits 10 n) = n :=
  Nat.ofDigitChars_ten_toDigits

theorem numeralValue_append (cs ds : List Char) :
    numeralValue (cs ++ ds) = 10 ^ ds.length * numeralValue cs + numeralValue ds := by
  rw [numeralValue, Nat.ofDigitChars_append, Nat.ofDigitChars_eq_ofDigitChars_zero]
  rfl

theorem numeralValue_lt :
    ∀ {cs : List Char}, (∀ c ∈ cs, c.isDigit = true) → numeralValue cs < 10 ^ cs.length
  | [], _ => Nat.one_pos
  | c :: cs, h => by
      have hrest := numeralValue_lt fun d hd => h d (List.mem_cons_of_mem c hd)
      have hc : c.toNat ≤ 57 := (Char.isDigit_iff_toNat.mp (h c List.mem_cons_self)).2
      have hone : numeralValue [c] ≤ 9 := by
        have hsub : c.toNat - 48 ≤ 9 := by omega
        simpa [numeralValue, Nat.ofDigitChars_cons] using hsub
      calc numeralValue (c :: cs) = 10 ^ cs.length * numeralValue [c] + numeralValue cs :=
            numeralValue_append [c] cs
        _ < 10 ^ cs.length * numeralValue [c] + 10 ^ cs.length := by omega
        _ = 10 ^ cs.length * (numeralValue [c] + 1) := (Nat.mul_succ _ _).symm
        _ ≤ 10 ^ cs.length * 10 := Nat.mul_le_mul_left _ (by omega)
        _ = 10 ^ (c :: cs).length := (Nat.pow_succ ..).symm

/-- The first digits stand for the number with the last ones cut off. -/
theorem numeralValue_take {cs : List Char} (h : ∀ c ∈ cs, c.isDigit = true) (j : Nat) :
    numeralValue (cs.take j) = numeralValue cs / 10 ^ (cs.length - j) := by
  have hrest : numeralValue (cs.drop j) < 10 ^ (cs.length - j) := by
    rw [← List.length_drop]
    exact numeralValue_lt fun c hc => h c (List.mem_of_mem_drop hc)
  have hsplit := numeralValue_append (cs.take j) (cs.drop j)
  rw [List.take_append_drop, List.length_drop] at hsplit
  rw [hsplit, Nat.mul_add_div (Nat.pow_pos (by decide)), Nat.div_eq_of_lt hrest, Nat.add_zero]

/-! ## Numerals of a width -/

/-- `n` in at least `width` digits. -/
def padded (width n : Nat) : List Char := (Nat.toDigits 10 n).leftpad width '0'

theorem padded_digits (width n : Nat) : ∀ c ∈ padded width n, c.isDigit = true := by
  intro c hc
  rcases List.mem_append.mp hc with hzero | hdigit
  · obtain rfl := (List.mem_replicate.mp hzero).2
    decide
  · exact (isNumeral_toDigits n).digits c hdigit

theorem length_padded {width n : Nat} (hwidth : 0 < width) (h : n < 10 ^ width) :
    (padded width n).length = width := by
  have hle := (Nat.length_toDigits_le_iff (n := n) (k := width) (b := 10) (by decide) hwidth).mpr h
  rw [padded, List.length_leftpad, max_eq_left hle]

theorem numeralValue_zeros (k : Nat) : numeralValue (List.replicate k '0') = 0 := by
  induction k with
  | zero => rfl
  | succ k ih =>
      rw [List.replicate_succ', numeralValue_append, ih, Nat.mul_zero]
      rfl

@[simp] theorem numeralValue_padded (width n : Nat) : numeralValue (padded width n) = n := by
  rw [padded, List.leftpad, numeralValue_append, numeralValue_zeros, Nat.mul_zero, Nat.zero_add,
    numeralValue_toDigits]

theorem padded_inj {width m n : Nat} (h : padded width m = padded width n) : m = n := by
  rw [← numeralValue_padded width m, h, numeralValue_padded]

/-! ## Fractions -/

/-- What the digits stand for behind a decimal point. -/
def fractionValue (cs : List Char) : ℚ := numeralValue cs / 10 ^ cs.length

@[simp] theorem fractionValue_nil : fractionValue [] = 0 := by
  simp [fractionValue, numeralValue]

theorem fractionValue_append_zero (cs : List Char) :
    fractionValue (cs ++ ['0']) = fractionValue cs := by
  have hvalue : numeralValue (cs ++ ['0']) = 10 * numeralValue cs := numeralValue_append cs ['0']
  rw [fractionValue, fractionValue, hvalue, List.length_append, List.length_singleton, pow_succ]
  push_cast
  field_simp

/-- Zeros at the end of a fraction stand for nothing. -/
theorem fractionValue_rdropWhile (cs : List Char) :
    fractionValue (cs.rdropWhile (· = '0')) = fractionValue cs := by
  induction cs using List.reverseRecOn with
  | nil => rfl
  | append_singleton cs c ih =>
      rw [List.rdropWhile_concat]
      split
      · rename_i hc
        obtain rfl : c = '0' := of_decide_eq_true hc
        rw [ih, fractionValue_append_zero]
      · rfl

/-! ## Decimals -/

/-- A numeral, and a fraction behind a point where there is one. -/
def decimalText (whole fraction : List Char) : List Char :=
  if fraction = [] then whole else whole ++ '.' :: fraction

@[simp] theorem decimalText_nil (whole : List Char) : decimalText whole [] = whole := rfl

theorem mem_decimalText {whole fraction : List Char} {c : Char}
    (h : c ∈ decimalText whole fraction) : c ∈ whole ∨ c = '.' ∨ c ∈ fraction := by
  unfold decimalText at h
  split at h
  · exact Or.inl h
  · rcases List.mem_append.mp h with hc | hc
    · exact Or.inl hc
    · exact Or.inr (List.mem_cons.mp hc)

/-- Well written: no zero in front of the whole or at the end of the fraction. -/
def IsDecimal (cs : List Char) : Prop :=
  ∃ whole fraction, cs = decimalText whole fraction ∧ IsNumeral whole
    ∧ (∀ c ∈ fraction, c.isDigit = true) ∧ fraction.getLast? ≠ some '0'

/-- What a decimal stands for. -/
def decimalValue (cs : List Char) : ℚ :=
  numeralValue (cs.takeWhile (· ≠ '.')) + fractionValue ((cs.dropWhile (· ≠ '.')).drop 1)

theorem decimalValue_decimalText {whole fraction : List Char}
    (h : ∀ c ∈ whole, c.isDigit = true) :
    decimalValue (decimalText whole fraction) = numeralValue whole + fractionValue fraction := by
  have hpoint : ∀ c ∈ whole, decide (c ≠ '.') = true := by
    intro c hc
    refine decide_eq_true fun heq => ?_
    have := h c hc
    rw [heq] at this
    cases this
  unfold decimalText
  split
  · rename_i hnil
    subst hnil
    rw [decimalValue, List.takeWhile_eq_self_iff.mpr hpoint, List.dropWhile_eq_nil_iff.mpr hpoint,
      List.drop_nil]
  · rw [decimalValue, List.takeWhile_append_of_pos hpoint, List.dropWhile_append_of_pos hpoint]
    simp

end GatewayConsole
