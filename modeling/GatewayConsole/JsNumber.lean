import GatewayConsole.BigInt
import GatewayConsole.Rounding

/-!
# `Number` of a string

What `Number(s)` reads: a decimal literal of any size is rounded once, to the nearest
`number` and to the even one of two that are equally near. Whole numbers up to `2^53` come
through as they are: `number_toString`.
-/

namespace GatewayConsole

/-- Whole numbers below `2^53` are `number`s. -/
theorem roundDouble_natCast {n : Nat} (h : n < 2 ^ 53) : roundDouble n = .finite n := by
  have hn : |(n : ℤ)| ≤ 2 ^ 53 := by
    rw [Nat.abs_cast]
    exact_mod_cast h.le
  have hsmall : |(n : ℚ)| ≤ 2 ^ 1000 := by
    have hle : (n : ℚ) ≤ 2 ^ 53 := by exact_mod_cast h.le
    rw [Nat.abs_cast]
    exact hle.trans (pow_le_pow_right₀ (by norm_num) (by decide))
  rw [roundDouble_eq hsmall]
  exact_mod_cast congrArg Double.finite (nearest_intCast hn)

/-! ## Literals -/

/-- The exponent behind a decimal literal. -/
def exponent? : List Char → Option ℤ
  | [] => some 0
  | c :: cs =>
      if c = 'e' ∨ c = 'E' then
        match cs with
        | '+' :: ds => (digitsValue 10 ds).map Int.ofNat
        | '-' :: ds => (digitsValue 10 ds).map fun n => -Int.ofNat n
        | ds => (digitsValue 10 ds).map Int.ofNat
      else none

/-- A decimal literal without a sign, by its exact value. -/
def decimalLiteral? (cs : List Char) : Option ℚ :=
  let whole := cs.takeWhile Char.isDigit
  let rest := cs.dropWhile Char.isDigit
  let fraction := match rest with
    | '.' :: rest => rest.takeWhile Char.isDigit
    | _ => []
  let rest := match rest with
    | '.' :: rest => rest.dropWhile Char.isDigit
    | _ => rest
  if whole = [] ∧ fraction = [] then none
  else
    (exponent? rest).map fun e =>
      (numeralValue (whole ++ fraction) : ℚ) * 10 ^ (e - (fraction.length : ℤ))

/-- A literal without a sign. -/
def unsignedLiteral (cs : List Char) (negative : Bool) : Double :=
  if cs = "Infinity".toList then .infinite negative
  else
    match decimalLiteral? cs with
    | some q => roundDouble (if negative then -q else q)
    | none => .nan

/-- `Number(s)` of a string. -/
def number (s : String) : Double :=
  let text := (trim s).toList
  match nonDecimal? text with
  | some (some n) => roundDouble n
  | some none => .nan
  | none =>
      match text with
      | [] => .finite 0
      | '+' :: cs => unsignedLiteral cs false
      | '-' :: cs => unsignedLiteral cs true
      | cs => unsignedLiteral cs false

/-- A decimal numeral is read as its number. -/
theorem number_toString {n : Nat} (h : n < 2 ^ 53) : number (toString n) = .finite n := by
  have hdigits : ∀ c ∈ (toString n).toList, c.isDigit = true := by
    rw [toList_toString]
    exact (isNumeral_toDigits n).digits
  have hliteral : decimalLiteral? (Nat.toDigits 10 n) = some (n : ℚ) := by
    have hall := (isNumeral_toDigits n).digits
    simp [decimalLiteral?, List.takeWhile_eq_self_iff.mpr hall,
      List.dropWhile_eq_nil_iff.mpr hall, exponent?]
  have hunsigned : unsignedLiteral (Nat.toDigits 10 n) false = .finite n := by
    have hword : Nat.toDigits 10 n ≠ "Infinity".toList := by
      intro heq
      have := (isNumeral_toDigits n).digits 'I' (by rw [heq]; decide)
      cases this
    rw [unsignedLiteral, if_neg hword, hliteral]
    exact roundDouble_natCast h
  unfold number
  rw [trim_of_isDigit hdigits]
  simp only [nonDecimal?_of_isDigit hdigits]
  have hne := (isNumeral_toDigits n).ne_nil
  rw [toList_toString] at hdigits ⊢
  generalize Nat.toDigits 10 n = cs at hdigits hunsigned hne
  split
  · exact absurd rfl hne
  · have := hdigits _ List.mem_cons_self
    cases this
  · have := hdigits _ List.mem_cons_self
    cases this
  · exact hunsigned

end GatewayConsole
