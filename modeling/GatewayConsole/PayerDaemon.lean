import GatewayConsole.BigInt

/-!
# The escrow amounts of the payer daemon

`bigEndianBytesToDecimal` of `providers/payerDaemon/client.ts`. The daemon sends an amount as the
bytes of a number, in which zeros may come first and of which there may be any number. It
goes through hex text and a `BigInt` to a decimal numeral, and stays what it is:
`decimal_exact`.
-/

namespace GatewayConsole

/-- `bigEndianBytesToDecimal(buf)`; none where `BigInt` throws. -/
def bigEndianBytesToDecimal (buf : List UInt8) : Option String :=
  if buf.length = 0 then some "0"
  else (bigIntOfString ("0x" ++ String.ofList (bufferHex buf))).map toString

/-! ## The literal -/

theorem mem_bufferHex {buf : List UInt8} {c : Char} (h : c ∈ bufferHex buf) :
    ∃ d < 16, c = hexDigit d := by
  obtain ⟨byte, -, hc⟩ := List.mem_flatMap.mp h
  have hlt : byte.toNat < 256 := byte.toNat_lt
  rcases List.mem_cons.mp hc with rfl | hc
  · exact ⟨_, by omega, rfl⟩
  · obtain rfl := List.mem_singleton.mp hc
    exact ⟨_, Nat.mod_lt _ (by decide), rfl⟩

/-- The literal of a buffer that is not empty is read as the number of its bytes. -/
theorem bigIntOfString_bufferHex {buf : List UInt8} (hne : buf ≠ []) :
    bigIntOfString ("0x" ++ String.ofList (bufferHex buf))
      = some (Int.ofNat (bigEndianValue buf)) := by
  have hspace : ∀ d < 16, isSpace (hexDigit d) = false := by decide
  have hzerox : "0x".toList = ['0', 'x'] := rfl
  have hlist : ("0x" ++ String.ofList (bufferHex buf)).toList = '0' :: 'x' :: bufferHex buf := by
    rw [String.toList_append, hzerox, String.toList_ofList]
    rfl
  have htrim : trim ("0x" ++ String.ofList (bufferHex buf))
      = "0x" ++ String.ofList (bufferHex buf) := by
    refine trim_eq_self (fun c hc => ?_) fun c hc => ?_
    · rw [hlist] at hc
      obtain rfl : '0' = c := Option.some.inj hc
      rfl
    · have hmem := List.mem_of_mem_getLast? hc
      rw [hlist, List.mem_cons, List.mem_cons] at hmem
      rcases hmem with rfl | rfl | hmem
      · rfl
      · rfl
      · obtain ⟨d, hd, rfl⟩ := mem_bufferHex hmem
        exact hspace d hd
  have hdigits : digitsValue 16 (bufferHex buf) = some (bigEndianValue buf) := by
    rw [bigEndianValue, ← foldlM_bufferHex]
    cases buf with
    | nil => exact absurd rfl hne
    | cons byte buf => rfl
  simp only [bigIntOfString, htrim, hlist, nonDecimal?, hdigits, Option.map_some]

theorem bigEndianBytesToDecimal_eq (buf : List UInt8) :
    bigEndianBytesToDecimal buf = some (toString (bigEndianValue buf)) := by
  cases buf with
  | nil => rfl
  | cons byte buf =>
      rw [bigEndianBytesToDecimal, if_neg (by simp), bigIntOfString_bufferHex (by simp)]
      rfl

theorem bigEndianValue_zeros (k : Nat) (buf : List UInt8) :
    bigEndianValue (List.replicate k 0 ++ buf) = bigEndianValue buf := by
  induction k with
  | zero => rfl
  | succ k ih =>
      rw [List.replicate_succ, List.cons_append, ← ih]
      rfl

/-- **The numeral of an amount is that of its bytes.** It has no zero in front but that of
zero itself; zero bytes in front change nothing, and two buffers give the same text exactly
when they stand for the same number. -/
theorem decimal_exact (buf : List UInt8) :
    (∃ s, bigEndianBytesToDecimal buf = some s ∧ IsNumeral s.toList
        ∧ numeralValue s.toList = bigEndianValue buf)
      ∧ (∀ k, bigEndianBytesToDecimal (List.replicate k 0 ++ buf) = bigEndianBytesToDecimal buf)
      ∧ ∀ buf', bigEndianBytesToDecimal buf = bigEndianBytesToDecimal buf'
        ↔ bigEndianValue buf = bigEndianValue buf' := by
  refine ⟨⟨_, bigEndianBytesToDecimal_eq buf, ?_, ?_⟩, fun k => ?_, fun buf' => ?_⟩
  · rw [toList_toString]
    exact isNumeral_toDigits _
  · rw [toList_toString, numeralValue_toDigits]
  · rw [bigEndianBytesToDecimal_eq, bigEndianBytesToDecimal_eq, bigEndianValue_zeros]
  · rw [bigEndianBytesToDecimal_eq, bigEndianBytesToDecimal_eq, Option.some.injEq]
    refine ⟨fun h => ?_, fun h => congrArg toString h⟩
    have hlist := congrArg String.toList h
    rw [toList_toString, toList_toString] at hlist
    rw [← numeralValue_toDigits (bigEndianValue buf), hlist, numeralValue_toDigits]

end GatewayConsole
