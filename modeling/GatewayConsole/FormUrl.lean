import GatewayConsole.BigInt
import GatewayConsole.Varint

/-!
# Texts in a URL

The bytes of a text in UTF-8, each as its character where that may stand for itself and else
as a percent sign with two digits. A part of a path keeps what `encodeURIComponent` keeps. A
name or a value of a query string keeps less, and has a plus sign for a space; `=` stands
between the two and `&` between pairs, and neither comes out of an escape.

`unescape_escaped` reads the bytes back, for any choice of what is kept; `readForm_formText`
reads back the pairs of a query string.
-/

namespace GatewayConsole

/-! ## Escapes -/

/-- A byte as a percent sign and its two digits. -/
def escape (b : UInt8) : List Char :=
  ['%', (hexDigit (b.toNat / 16)).toUpper, (hexDigit (b.toNat % 16)).toUpper]

/-- A byte as its character, if that is kept. -/
def escapeUnless (keeps : Char → Bool) (b : UInt8) : List Char :=
  if b.toNat < 128 ∧ keeps (Char.ofNat b.toNat) = true then [Char.ofNat b.toNat] else escape b

/-- The bytes of a text with escapes; a percent sign without two digits is itself. -/
def unescape : List Char → Bytes
  | '%' :: high :: low :: cs =>
      match digitValue high, digitValue low with
      | some h, some l => UInt8.ofNat (16 * h + l) :: unescape cs
      | _, _ => String.utf8EncodeChar '%' ++ unescape (high :: low :: cs)
  | c :: cs => String.utf8EncodeChar c ++ unescape cs
  | [] => []

theorem unescape_cons {c : Char} (h : c ≠ '%') (cs : List Char) :
    unescape (c :: cs) = String.utf8EncodeChar c ++ unescape cs := by
  rw [unescape]
  exact fun _ _ _ hpercent _ => h hpercent

theorem utf8EncodeChar_ascii :
    ∀ n < 128, String.utf8EncodeChar (Char.ofNat n) = [UInt8.ofNat n] := by
  decide

theorem digitValue_toUpper : ∀ d < 16, digitValue (hexDigit d).toUpper = some d := by decide

theorem unescape_escape (b : UInt8) (cs : List Char) :
    unescape (escape b ++ cs) = b :: unescape cs := by
  have hlt : b.toNat < 256 := b.toNat_lt
  have hhigh := digitValue_toUpper (b.toNat / 16) (by omega)
  have hlow := digitValue_toUpper (b.toNat % 16) (by omega)
  have hbyte : 16 * (b.toNat / 16) + b.toNat % 16 = b.toNat := by omega
  rw [escape, List.cons_append, List.cons_append, List.cons_append, List.nil_append, unescape,
    hhigh, hlow]
  simp only [hbyte, UInt8.ofNat_toNat]

theorem unescape_escapeUnless {keeps : Char → Bool} (hkeeps : keeps '%' = false) (b : UInt8)
    (cs : List Char) : unescape (escapeUnless keeps b ++ cs) = b :: unescape cs := by
  unfold escapeUnless
  split
  · rename_i hkept
    have hne : Char.ofNat b.toNat ≠ '%' := by
      intro hpercent
      rw [hpercent, hkeeps] at hkept
      exact Bool.false_ne_true hkept.2
    rw [List.singleton_append, unescape_cons hne, utf8EncodeChar_ascii _ hkept.1,
      UInt8.ofNat_toNat, List.singleton_append]
  · exact unescape_escape b cs

theorem mem_escapeUnless {keeps : Char → Bool} {b : UInt8} {c : Char}
    (h : c ∈ escapeUnless keeps b) : keeps c = true ∨ c = '%' ∨ c.isAlphanum = true := by
  have hdigits : ∀ d < 16, (hexDigit d).toUpper.isAlphanum = true := by decide
  have hlt : b.toNat < 256 := b.toNat_lt
  unfold escapeUnless at h
  split at h
  · rename_i hkept
    exact .inl (List.mem_singleton.mp h ▸ hkept.2)
  · simp only [escape, List.mem_cons, List.not_mem_nil, or_false] at h
    rcases h with rfl | rfl | rfl
    · exact .inr (.inl rfl)
    · exact .inr (.inr (hdigits _ (by omega)))
    · exact .inr (.inr (hdigits _ (by omega)))

/-! ## A part of a path -/

/-- What `encodeURIComponent` leaves as it is. -/
def uriKeeps (c : Char) : Bool := c.isAlphanum || "-_.!~*'()".toList.contains c

def encodeURIComponent (s : String) : List Char := (utf8 s).flatMap (escapeUnless uriKeeps)

/-- What a name or a value keeps. -/
def formKeeps (c : Char) : Bool := c.isAlphanum || "*-._".toList.contains c

/-- A space is a plus sign. -/
def formByte (b : UInt8) : List Char := if b = 0x20 then ['+'] else escapeUnless formKeeps b

def formEncode (s : String) : List Char := (utf8 s).flatMap formByte

def plusToSpace (c : Char) : Char := if c = '+' then ' ' else c

def formDecode (cs : List Char) : String := bufferToString (unescape (cs.map plusToSpace))

theorem mem_formByte {b : UInt8} {c : Char} (h : c ∈ formByte b) :
    c = '+' ∨ formKeeps c = true ∨ c = '%' := by
  unfold formByte at h
  split at h
  · exact .inl (List.mem_singleton.mp h)
  · rcases mem_escapeUnless h with hkept | hpercent | halnum
    · exact .inr (.inl hkept)
    · exact .inr (.inr hpercent)
    · exact .inr (.inl (by rw [formKeeps, halnum, Bool.true_or]))

theorem not_mem_formEncode {c : Char} (hplus : c ≠ '+') (hkeeps : formKeeps c = false)
    (hpercent : c ≠ '%') (s : String) : c ∉ formEncode s := by
  intro h
  obtain ⟨b, -, hb⟩ := List.mem_flatMap.mp h
  rcases mem_formByte hb with rfl | hkept | rfl
  · exact hplus rfl
  · exact Bool.false_ne_true (hkeeps.symm.trans hkept)
  · exact hpercent rfl

theorem map_plusToSpace_escapeUnless (b : UInt8) :
    (escapeUnless formKeeps b).map plusToSpace = escapeUnless formKeeps b := by
  refine (List.map_congr_left fun c hc => ?_).trans (List.map_id _)
  have hne : c ≠ '+' := by
    rintro rfl
    rcases mem_escapeUnless hc with h | h | h <;> exact absurd h (by decide)
  exact if_neg hne

theorem unescape_formByte (b : UInt8) (cs : List Char) :
    unescape ((formByte b).map plusToSpace ++ cs) = b :: unescape cs := by
  unfold formByte
  split
  · rename_i hspace
    subst hspace
    exact unescape_cons (by decide) cs
  · rw [map_plusToSpace_escapeUnless, unescape_escapeUnless (by decide)]

theorem formDecode_formEncode (s : String) : formDecode (formEncode s) = s := by
  have hbytes : ∀ bs : Bytes, unescape ((bs.flatMap formByte).map plusToSpace) = bs := by
    intro bs
    induction bs with
    | nil => rfl
    | cons b bs ih =>
        rw [List.flatMap_cons, List.map_append, unescape_formByte, ih]
  rw [formDecode, formEncode, hbytes, bufferToString_utf8]

/-- A name and its value. -/
def formPair (p : String × String) : List Char := formEncode p.1 ++ '=' :: formEncode p.2

/-- `URLSearchParams.toString()`. -/
def formText (pairs : List (String × String)) : List Char :=
  ['&'].intercalate (pairs.map formPair)

/-- The name ends at the first `=`. -/
def readPair (cs : List Char) : String × String :=
  (formDecode (cs.takeWhile (· ≠ '=')), formDecode ((cs.dropWhile (· ≠ '=')).drop 1))

/-- The pairs of a query string. -/
def readForm (cs : List Char) : List (String × String) :=
  ((cs.splitOn '&').filter (· ≠ [])).map readPair

theorem readPair_formPair (p : String × String) : readPair (formPair p) = p := by
  have hname : ∀ c ∈ formEncode p.1, decide (c ≠ '=') = true := by
    rintro c hc
    refine decide_eq_true ?_
    rintro rfl
    exact not_mem_formEncode (by decide) (by decide) (by decide) p.1 hc
  have htake : (formPair p).takeWhile (· ≠ '=') = formEncode p.1 := by
    rw [formPair, List.takeWhile_append_of_pos hname]
    simp
  have hdrop : (formPair p).dropWhile (· ≠ '=') = '=' :: formEncode p.2 := by
    rw [formPair, List.dropWhile_append_of_pos hname]
    simp
  rw [readPair, htake, hdrop, List.drop_succ_cons, List.drop_zero, formDecode_formEncode,
    formDecode_formEncode]

/-- **A query string is read back as its pairs.** -/
theorem readForm_formText (pairs : List (String × String)) : readForm (formText pairs) = pairs := by
  cases hpairs : pairs with
  | nil => rfl
  | cons p ps =>
      have hsep : ∀ part ∈ (p :: ps).map formPair, '&' ∉ part := by
        intro part hpart hamp
        obtain ⟨q, -, rfl⟩ := List.mem_map.mp hpart
        rcases List.mem_append.mp hamp with h | h
        · exact not_mem_formEncode (by decide) (by decide) (by decide) q.1 h
        · rcases List.mem_cons.mp h with h | h
          · exact absurd h (by decide)
          · exact not_mem_formEncode (by decide) (by decide) (by decide) q.2 h
      have hfilter : ((p :: ps).map formPair).filter (· ≠ []) = (p :: ps).map formPair := by
        refine List.filter_eq_self.mpr fun part hpart => ?_
        obtain ⟨q, -, rfl⟩ := List.mem_map.mp hpart
        simp [formPair]
      rw [readForm, formText, List.splitOn_intercalate _ hsep (by simp), hfilter, List.map_map]
      exact (List.map_congr_left fun q _ => readPair_formPair q).trans (List.map_id _)

end GatewayConsole
