import GatewayConsole.BigInt

/-!
# What the sender page shows of an amount

`formatWei` of `admin-ui/admin/lib/format.js`. The fraction is printed with `10^18` added, so
that its zeros in front are kept, and cut out of the text by position; then the zeros at its
end are stripped. `formatWei_exact` says that what is left is the amount in ETH, cut off
behind the sixth digit.
-/

namespace GatewayConsole

/-- `s.slice(start, stop)` of a text in ASCII. -/
def slice (s : String) (start stop : Nat) : String :=
  String.ofList ((s.toList.take stop).drop start)

/-- `s.replace(/0+$/, "")`. -/
def stripZeros (s : String) : String := String.ofList (s.toList.rdropWhile (· = '0'))

def weiPerEth : Int := 10 ^ 18

def formatWei (weiStr : Option String) : String :=
  match weiStr with
  | none | some "" => "—"
  | some weiStr =>
      match bigIntOfString weiStr with
      | none => weiStr
      | some v =>
          let whole := v.tdiv weiPerEth
          let frac := v.tmod weiPerEth
          if frac = 0 then toString whole ++ " ETH"
          else
            let fracStr := stripZeros (slice (toString (frac + weiPerEth)) 1 7)
            toString whole ++ (if fracStr = "" then "" else "." ++ fracStr) ++ " ETH"

/-- The number in front of the unit. -/
def ethText (shown : String) : List Char := shown.toList.takeWhile (· ≠ ' ')

/-- The amount that a text shows, in ETH. -/
def ethValue (shown : String) : ℚ := decimalValue (ethText shown)

/-! ## The six digits -/

/-- The six digits that are cut out, before their zeros are stripped. -/
def sixDigits (frac : Nat) : List Char := ((Nat.toDigits 10 (frac + 10 ^ 18)).take 7).drop 1

theorem sixDigits_digits (frac : Nat) : ∀ c ∈ sixDigits frac, c.isDigit = true :=
  fun _ hc => (isNumeral_toDigits _).digits _ (List.mem_of_mem_take (List.mem_of_mem_drop hc))

/-- Below `10^18` the numeral of the sum has nineteen digits, the first one a one. -/
theorem length_toDigits_sum {frac : Nat} (h : frac < 10 ^ 18) :
    (Nat.toDigits 10 (frac + 10 ^ 18)).length = 19 := by
  have hle := (Nat.length_toDigits_le_iff (n := frac + 10 ^ 18) (k := 19) (b := 10) (by decide)
    (by decide)).mpr (by omega)
  have hgt := (Nat.length_toDigits_le_iff (n := frac + 10 ^ 18) (k := 18) (b := 10) (by decide)
    (by decide)).not.mpr (by omega)
  omega

theorem length_sixDigits {frac : Nat} (h : frac < 10 ^ 18) : (sixDigits frac).length = 6 := by
  rw [sixDigits, List.length_drop, List.length_take, length_toDigits_sum h]
  rfl

/-- They stand for the fraction, cut off behind the sixth digit. -/
theorem numeralValue_sixDigits {frac : Nat} (h : frac < 10 ^ 18) :
    numeralValue (sixDigits frac) = frac / 10 ^ 12 := by
  have hdigits := (isNumeral_toDigits (frac + 10 ^ 18)).digits
  have hlength := length_toDigits_sum h
  have hseven := numeralValue_take hdigits 7
  have hone := numeralValue_take hdigits 1
  rw [hlength, numeralValue_toDigits] at hseven hone
  have hsplit := numeralValue_append ((Nat.toDigits 10 (frac + 10 ^ 18)).take 1) (sixDigits frac)
  have htake : (Nat.toDigits 10 (frac + 10 ^ 18)).take 1 ++ sixDigits frac
      = (Nat.toDigits 10 (frac + 10 ^ 18)).take 7 := by
    have := List.take_append_drop 1 ((Nat.toDigits 10 (frac + 10 ^ 18)).take 7)
    rwa [List.take_take] at this
  rw [htake, hseven, hone, length_sixDigits h] at hsplit
  omega

/-! ## The text -/

/-- The fraction as it is shown. -/
def shownFraction (v : Nat) : List Char := (sixDigits (v % 10 ^ 18)).rdropWhile (· = '0')

theorem shownFraction_digits (v : Nat) : ∀ c ∈ shownFraction v, c.isDigit = true :=
  fun _ hc => sixDigits_digits _ _ ((List.rdropWhile_prefix _ _).subset hc)

theorem shownFraction_last (v : Nat) : (shownFraction v).getLast? ≠ some '0' := by
  intro hlast
  have hne : shownFraction v ≠ [] := by
    rintro hnil
    rw [hnil] at hlast
    cases hlast
  have hnot := List.rdropWhile_last_not (· = '0') (sixDigits (v % 10 ^ 18)) hne
  rw [List.getLast?_eq_some_getLast hne] at hlast
  exact hnot (decide_eq_true (Option.some.inj hlast))

theorem fractionValue_shownFraction (v : Nat) :
    fractionValue (shownFraction v) = ((v % 10 ^ 18 / 10 ^ 12 : Nat) : ℚ) / 10 ^ 6 := by
  have hlt : v % 10 ^ 18 < 10 ^ 18 := Nat.mod_lt _ (by decide)
  rw [shownFraction, fractionValue_rdropWhile, fractionValue, numeralValue_sixDigits hlt,
    length_sixDigits hlt]

theorem shownFraction_of_whole {v : Nat} (h : v % 10 ^ 18 = 0) : shownFraction v = [] := by
  have hzeros : (sixDigits 0).all (· = '0') = true := by decide
  rw [shownFraction, h, List.rdropWhile_eq_nil_iff]
  exact List.all_eq_true.mp hzeros

/-- The amount in whole ETH and the rest, as `formatWei` computes them. -/
theorem formatWei_toString (v : Nat) :
    formatWei (some (toString v))
      = if v % 10 ^ 18 = 0 then toString (v / 10 ^ 18) ++ " ETH"
        else toString (v / 10 ^ 18)
          ++ (if String.ofList (shownFraction v) = "" then ""
            else "." ++ String.ofList (shownFraction v)) ++ " ETH" := by
  have hne : toString v ≠ "" := Nat.repr_ne_empty
  have hwhole : (v : Int).tdiv weiPerEth = ((v / 10 ^ 18 : Nat) : Int) := (Int.ofNat_tdiv v _).symm
  have hfrac : (v : Int).tmod weiPerEth = ((v % 10 ^ 18 : Nat) : Int) := (Int.ofNat_tmod v _).symm
  have hsum : ((v % 10 ^ 18 : Nat) : Int) + weiPerEth = ((v % 10 ^ 18 + 10 ^ 18 : Nat) : Int) := rfl
  have hcut : stripZeros (slice (toString (v % 10 ^ 18 + 10 ^ 18)) 1 7)
      = String.ofList (shownFraction v) := by
    rw [stripZeros, slice, String.toList_ofList, toList_toString]
    rfl
  unfold formatWei
  split
  · rename_i hnone
    cases hnone
  · rename_i hempty
    exact absurd (Option.some.inj hempty) hne
  · rename_i hsome
    obtain rfl := Option.some.inj hsome
    simp only [bigIntOfString_toString, hwhole, hfrac, hsum, Int.natCast_eq_zero]
    have hint : ∀ n : Nat, toString (n : Int) = toString n := fun _ => rfl
    rw [hint, hint, hcut]

/-- What is shown of the numeral of an amount. -/
theorem toList_formatWei (v : Nat) :
    (formatWei (some (toString v))).toList
      = decimalText (Nat.toDigits 10 (v / 10 ^ 18)) (shownFraction v) ++ " ETH".toList := by
  rw [formatWei_toString]
  split
  · rename_i hzero
    rw [shownFraction_of_whole hzero, decimalText_nil, String.toList_append, toList_toString]
  · by_cases hnil : shownFraction v = []
    · rw [hnil, if_pos rfl, String.toList_append, String.toList_append, toList_toString,
        String.toList_empty, List.append_nil, decimalText_nil]
    · have hempty : String.ofList (shownFraction v) ≠ "" := by
        intro heq
        refine hnil ?_
        rw [← String.toList_ofList (l := shownFraction v), heq]
        rfl
      have hpoint : ("." ++ String.ofList (shownFraction v)).toList = '.' :: shownFraction v := by
        have hdot : ".".toList = ['.'] := rfl
        rw [String.toList_append, hdot, String.toList_ofList, List.singleton_append]
      rw [if_neg hempty, String.toList_append, String.toList_append, hpoint, toList_toString,
        decimalText, if_neg hnil]

theorem ethText_formatWei (v : Nat) :
    ethText (formatWei (some (toString v)))
      = decimalText (Nat.toDigits 10 (v / 10 ^ 18)) (shownFraction v) := by
  have hunit : ∀ c ∈ decimalText (Nat.toDigits 10 (v / 10 ^ 18)) (shownFraction v),
      decide (c ≠ ' ') = true := by
    intro c hc
    refine decide_eq_true ?_
    rintro rfl
    rcases mem_decimalText hc with hdigit | hpoint | hdigit
    · exact absurd ((isNumeral_toDigits _).digits _ hdigit) (by decide)
    · cases hpoint
    · exact absurd (shownFraction_digits _ _ hdigit) (by decide)
  have hrest : " ETH".toList.takeWhile (· ≠ ' ') = [] := rfl
  rw [ethText, toList_formatWei, List.takeWhile_append_of_pos hunit, hrest, List.append_nil]

/-- The amount in ETH, cut off behind the sixth digit. -/
theorem ethValue_formatWei (v : Nat) :
    ethValue (formatWei (some (toString v))) = ((v / 10 ^ 12 : Nat) : ℚ) / 10 ^ 6 := by
  have hmicro : v / 10 ^ 12 = 10 ^ 6 * (v / 10 ^ 18) + v % 10 ^ 18 / 10 ^ 12 := by omega
  rw [ethValue, ethText_formatWei, decimalValue_decimalText (isNumeral_toDigits _).digits,
    numeralValue_toDigits, fractionValue_shownFraction, hmicro]
  push_cast
  ring

/-- What is shown of every amount: a numeral in ETH, well written, and which number. -/
structure ShowsExactly (shown : Nat → String) : Prop where
  unit : ∀ v, (shown v).toList = ethText (shown v) ++ " ETH".toList
  written : ∀ v, IsDecimal (ethText (shown v))
  value : ∀ v, ethValue (shown v) = ((v / 10 ^ 12 : Nat) : ℚ) / 10 ^ 6
  neverMore : ∀ v : Nat, ethValue (shown v) ≤ v / 10 ^ 18
  shortBy : ∀ v : Nat, (v : ℚ) / 10 ^ 18 - ethValue (shown v) < 1 / 10 ^ 6
  monotone : Monotone fun v => ethValue (shown v)

/-- **The display cuts off behind the sixth digit and changes nothing else.** -/
theorem formatWei_exact : ShowsExactly fun v => formatWei (some (toString v)) where
  unit v := by rw [ethText_formatWei, toList_formatWei]
  written v := by
    rw [ethText_formatWei]
    exact ⟨_, _, rfl, isNumeral_toDigits _, shownFraction_digits v, shownFraction_last v⟩
  value := ethValue_formatWei
  neverMore v := by
    have hle : ((v / 10 ^ 12 : Nat) : ℚ) * 10 ^ 12 ≤ v := by
      exact_mod_cast Nat.div_mul_le_self v (10 ^ 12)
    rw [ethValue_formatWei]
    linarith
  shortBy v := by
    have hlt : (v : ℚ) < (((v / 10 ^ 12 : Nat) : ℚ) + 1) * 10 ^ 12 := by
      exact_mod_cast Nat.lt_mul_of_div_lt (Nat.lt_succ_self _) (by decide)
    rw [ethValue_formatWei]
    linarith
  monotone v w hle := by
    have hdiv : ((v / 10 ^ 12 : Nat) : ℚ) ≤ ((w / 10 ^ 12 : Nat) : ℚ) := by
      exact_mod_cast Nat.div_le_div_right hle
    simp only [ethValue_formatWei]
    linarith

end GatewayConsole
