import GatewayConsole.Js
import GatewayConsole.Numeral

/-!
# `BigInt` of a string

The literals that `BigInt(s)` and `Number(s)` share, by the value of their digits in a base,
and `BigInt(s)` on the two kinds of string that the program gives it: decimal numerals, and
the hex text of a buffer.
-/

namespace GatewayConsole

/-- The value of a digit, in any base up to 16. -/
def digitValue (c : Char) : Option Nat :=
  if '0' ≤ c ∧ c ≤ '9' then some (c.toNat - '0'.toNat)
  else if 'a' ≤ c ∧ c ≤ 'f' then some (c.toNat - 'a'.toNat + 10)
  else if 'A' ≤ c ∧ c ≤ 'F' then some (c.toNat - 'A'.toNat + 10)
  else none

/-- One more digit behind a number. -/
def pushDigit (base : Nat) (n : Nat) (c : Char) : Option Nat :=
  match digitValue c with
  | some d => if d < base then some (base * n + d) else none
  | none => none

/-- The value of one digit or more; none where a character is no digit of the base. -/
def digitsValue (base : Nat) : List Char → Option Nat
  | [] => none
  | cs => cs.foldlM (pushDigit base) 0

/-- The literals with a prefix, `0x`, `0o` or `0b`. -/
def nonDecimal? : List Char → Option (Option Nat)
  | '0' :: 'x' :: cs | '0' :: 'X' :: cs => some (digitsValue 16 cs)
  | '0' :: 'o' :: cs | '0' :: 'O' :: cs => some (digitsValue 8 cs)
  | '0' :: 'b' :: cs | '0' :: 'B' :: cs => some (digitsValue 2 cs)
  | _ => none

/-- `BigInt(s)` of a string; none where it throws. -/
def bigIntOfString (s : String) : Option Int :=
  let text := (trim s).toList
  match nonDecimal? text with
  | some value => value.map Int.ofNat
  | none =>
      match text with
      | [] => some 0
      | '+' :: cs => (digitsValue 10 cs).map Int.ofNat
      | '-' :: cs => (digitsValue 10 cs).map fun n => -Int.ofNat n
      | cs => (digitsValue 10 cs).map Int.ofNat

theorem digitValue_of_isDigit {c : Char} (h : c.isDigit = true) :
    digitValue c = some (c.toNat - '0'.toNat) ∧ c.toNat - '0'.toNat < 10 := by
  have hle := Char.isDigit_iff_toNat.mp h
  refine ⟨if_pos ⟨hle.1, hle.2⟩, ?_⟩
  have h9 : c.toNat ≤ 57 := hle.2
  show c.toNat - 48 < 10
  omega

theorem isSpace_of_isDigit {c : Char} (h : c.isDigit = true) : isSpace c = false := by
  have hall : ∀ n < 58, (Char.ofNat n).isDigit = true → isSpace (Char.ofNat n) = false := by
    decide
  have hle : c.toNat ≤ 57 := (Char.isDigit_iff_toNat.mp h).2
  have := hall c.toNat (by omega)
  rw [Char.ofNat_toNat] at this
  exact this h

/-! ## Decimal numerals -/

theorem foldlM_pushDigit :
    ∀ {cs : List Char} (n : Nat), (∀ c ∈ cs, c.isDigit = true) →
      cs.foldlM (pushDigit 10) n = some (Nat.ofDigitChars 10 cs n)
  | [], n, _ => by rw [Nat.ofDigitChars_nil]; rfl
  | c :: cs, n, h => by
      obtain ⟨hvalue, hlt⟩ := digitValue_of_isDigit (h c List.mem_cons_self)
      have hpush : pushDigit 10 n c = some (10 * n + (c.toNat - '0'.toNat)) := by
        rw [pushDigit, hvalue]
        exact if_pos hlt
      rw [List.foldlM_cons, hpush, Nat.ofDigitChars_cons]
      exact foldlM_pushDigit _ fun d hd => h d (List.mem_cons_of_mem c hd)

theorem digitsValue_of_isDigit {cs : List Char} (hne : cs ≠ [])
    (h : ∀ c ∈ cs, c.isDigit = true) : digitsValue 10 cs = some (numeralValue cs) := by
  cases cs with
  | nil => exact absurd rfl hne
  | cons c cs => exact foldlM_pushDigit 0 h

theorem trim_of_isDigit {s : String} (h : ∀ c ∈ s.toList, c.isDigit = true) : trim s = s :=
  trim_eq_self (fun c hc => isSpace_of_isDigit (h c (List.mem_of_mem_head? hc)))
    fun c hc => isSpace_of_isDigit (h c (List.mem_of_mem_getLast? hc))

/-- Behind a first digit there is no letter of a prefix. -/
theorem nonDecimal?_of_isDigit {cs : List Char} (h : ∀ c ∈ cs, c.isDigit = true) :
    nonDecimal? cs = none := by
  unfold nonDecimal?
  split
  all_goals first
    | rfl
    | cases h _ (List.mem_cons_of_mem _ List.mem_cons_self)

/-- A string of digits is read as a decimal numeral. -/
theorem bigIntOfString_of_isDigit {s : String} (hne : s ≠ "")
    (h : ∀ c ∈ s.toList, c.isDigit = true) :
    bigIntOfString s = some (Int.ofNat (numeralValue s.toList)) := by
  have hlist : s.toList ≠ [] := fun hnil => hne (String.toList_eq_nil_iff.mp hnil)
  have hvalue := digitsValue_of_isDigit hlist h
  unfold bigIntOfString
  rw [trim_of_isDigit h]
  simp only [nonDecimal?_of_isDigit h]
  generalize s.toList = cs at hlist h hvalue
  split
  · exact absurd rfl hlist
  · have := h _ List.mem_cons_self
    cases this
  · have := h _ List.mem_cons_self
    cases this
  · rw [hvalue]
    rfl

theorem toList_toString (n : Nat) : (toString n).toList = Nat.toDigits 10 n := Nat.toList_repr

theorem bigIntOfString_toString (n : Nat) : bigIntOfString (toString n) = some (n : Int) := by
  have hdigits : ∀ c ∈ (toString n).toList, c.isDigit = true := by
    rw [toList_toString]
    exact (isNumeral_toDigits n).digits
  have hne : toString n ≠ "" := Nat.repr_ne_empty
  rw [bigIntOfString_of_isDigit hne hdigits, toList_toString, numeralValue_toDigits]
  rfl

/-! ## The hex text of a buffer -/

/-- `buf.toString("hex")`. -/
def bufferHex (buf : List UInt8) : List Char :=
  buf.flatMap fun byte => [hexDigit (byte.toNat / 16), hexDigit (byte.toNat % 16)]

/-- The number that the bytes stand for, the first one the highest. -/
def bigEndianValue (buf : List UInt8) : Nat := buf.foldl (fun n byte => 256 * n + byte.toNat) 0

theorem pushDigit_hexDigit (n : Nat) {d : Nat} (h : d < 16) :
    pushDigit 16 n (hexDigit d) = some (16 * n + d) := by
  have hall : ∀ d < 16, digitValue (hexDigit d) = some d := by decide
  rw [pushDigit, hall d h]
  exact if_pos h

/-- Each byte is read back from its two digits. -/
theorem foldlM_bufferHex :
    ∀ (buf : List UInt8) (n : Nat), (bufferHex buf).foldlM (pushDigit 16) n
      = some (buf.foldl (fun n byte => 256 * n + byte.toNat) n)
  | [], _ => rfl
  | byte :: buf, n => by
      have hlt : byte.toNat < 256 := byte.toNat_lt
      have hhigh := pushDigit_hexDigit n (d := byte.toNat / 16) (by omega)
      have hlow := pushDigit_hexDigit (16 * n + byte.toNat / 16) (d := byte.toNat % 16)
        (Nat.mod_lt _ (by decide))
      have hbyte : 16 * (16 * n + byte.toNat / 16) + byte.toNat % 16 = 256 * n + byte.toNat := by
        omega
      have hhex : bufferHex (byte :: buf)
          = hexDigit (byte.toNat / 16) :: hexDigit (byte.toNat % 16) :: bufferHex buf := rfl
      rw [hhex, List.foldlM_cons, hhigh, Option.bind_eq_bind, Option.bind_some, List.foldlM_cons,
        hlow, hbyte]
      exact foldlM_bufferHex buf (256 * n + byte.toNat)

end GatewayConsole
