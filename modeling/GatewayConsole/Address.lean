import GatewayConsole.Js

/-!
# The `:address` parameter

`ParamsSchema` of the handlers that take an address, `handleGetOrch` and
`handleResolverRefreshOne`. It accepts every spelling of an address, in any mix of
letter cases; what it accepts has no character whose case mapping leaves ASCII.
-/

namespace GatewayConsole

def isHexDigit (c : Char) : Bool :=
  ('a' ≤ c && c ≤ 'f') || ('A' ≤ c && c ≤ 'F') || ('0' ≤ c && c ≤ '9')

/-- `/^0x[a-fA-F0-9]{40}$/`. -/
def isEthAddress (s : String) : Bool :=
  match s.toList with
  | '0' :: 'x' :: digits => digits.length = 40 && digits.all isHexDigit
  | _ => false

/-- An issue of a `ZodError`; `message` is none where the text is the validator's own. -/
structure ZodIssue where
  path : List String
  message : Option String
deriving Repr, DecidableEq

/-- `ParamsSchema.parse(req.params ?? {})`: the one key `address`, and no other. -/
def parseAddressParams (params : List (String × String)) : Except (List ZodIssue) String :=
  let unknown : List ZodIssue :=
    if params.all (·.1 = "address") then [] else [{ path := [], message := none }]
  match params.lookup "address" with
  | none => .error ({ path := ["address"], message := none } :: unknown)
  | some address =>
      if isEthAddress address then
        if unknown = [] then .ok address else .error unknown
      else
        .error ({ path := ["address"], message := some "Expected 0x-prefixed 40-hex address" }
          :: unknown)

theorem parseAddressParams_single {address : String} (h : isEthAddress address = true) :
    parseAddressParams [("address", address)] = .ok address := by
  simp [parseAddressParams, h]

theorem parseAddressParams_ok {params : List (String × String)} {address : String}
    (h : parseAddressParams params = .ok address) :
    params.lookup "address" = some address ∧ isEthAddress address = true := by
  unfold parseAddressParams at h
  cases hl : params.lookup "address" with
  | none => rw [hl] at h; cases h
  | some a =>
      simp only [hl] at h
      split at h
      · rename_i ha
        split at h
        · obtain rfl := Except.ok.inj h
          exact ⟨rfl, ha⟩
        · cases h
      · cases h

/-! ## Letter case -/

theorem isHexDigit_lt {c : Char} (h : isHexDigit c = true) : c.toNat < 128 := by
  simp only [isHexDigit, Bool.or_eq_true, Bool.and_eq_true, decide_eq_true_eq] at h
  rcases h with (h | h) | h
  · exact Nat.lt_of_le_of_lt (show c.toNat ≤ 102 from h.2) (by omega)
  · exact Nat.lt_of_le_of_lt (show c.toNat ≤ 70 from h.2) (by omega)
  · exact Nat.lt_of_le_of_lt (show c.toNat ≤ 57 from h.2) (by omega)

theorem isHexDigit_toLower {c : Char} (h : isHexDigit c = true) :
    isHexDigit c.toLower = true ∧ c.toLower ≠ 'k' := by
  have hall : ∀ n < 128, isHexDigit (Char.ofNat n) = true →
      isHexDigit (Char.ofNat n).toLower = true ∧ (Char.ofNat n).toLower ≠ 'k' := by decide
  have := hall c.toNat (isHexDigit_lt h)
  rw [Char.ofNat_toNat] at this
  exact this h

theorem toList_of_isEthAddress {a : String} (h : isEthAddress a = true) :
    ∃ digits, a.toList = '0' :: 'x' :: digits ∧ digits.length = 40
      ∧ ∀ c ∈ digits, isHexDigit c = true := by
  unfold isEthAddress at h
  split at h
  · rename_i digits heq
    simp only [Bool.and_eq_true, decide_eq_true_eq, List.all_eq_true] at h
    exact ⟨digits, heq, h.1, h.2⟩
  · cases h

theorem isEthAddress_ascii {a : String} (h : isEthAddress a = true) :
    ∀ c ∈ a.toList, c.toNat < 128 ∧ c.toLower ≠ 'k' := by
  obtain ⟨digits, heq, -, hhex⟩ := toList_of_isEthAddress h
  intro c hc
  rw [heq, List.mem_cons, List.mem_cons] at hc
  rcases hc with rfl | rfl | hc
  · decide
  · decide
  · exact ⟨isHexDigit_lt (hhex c hc), (isHexDigit_toLower (hhex c hc)).2⟩

theorem asciiLower_idem (s : String) : asciiLower (asciiLower s) = asciiLower s := by
  simp only [asciiLower, String.toList_ofList, List.map_map]
  exact congrArg String.ofList (List.map_congr_left fun c _ => toLower_idem c)

section Case

variable [Unicode]

theorem toLowerCase_address {a : String} (h : isEthAddress a = true) :
    toLowerCase a = asciiLower a :=
  Unicode.ascii a fun c hc => (isEthAddress_ascii h c hc).1

/-- A string lower-cases to the same as an accepted address exactly when it differs from
it in the case of ASCII letters alone. -/
theorem toLowerCase_eq_address_iff {a x : String} (h : isEthAddress a = true) :
    toLowerCase x = toLowerCase a ↔ asciiLower x = asciiLower a :=
  toLowerCase_eq_iff (isEthAddress_ascii h)

/-- What lower-casing maps to an accepted address has no upper-case letter. -/
theorem asciiLower_of_toLowerCase_eq {a x : String} (h : isEthAddress a = true)
    (hx : toLowerCase x = a) : asciiLower a = a := by
  have hascii : ∀ c ∈ x.toList, c.toNat < 128 := by
    refine Unicode.ascii_inv x fun c hc => ?_
    rw [hx] at hc
    refine ⟨(isEthAddress_ascii h c hc).1, ?_⟩
    rintro rfl
    exact (isEthAddress_ascii h 'k' hc).2 (by decide)
  rw [← hx, Unicode.ascii x hascii, asciiLower_idem]

end Case

end GatewayConsole
