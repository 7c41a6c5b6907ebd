import GatewayConsole.Wire

/-!
# The protobuf encoding

A number as groups of seven bits, the lowest first, with the high bit set in every byte but
the last; at most ten bytes. A number with a sign is its bits in two's complement, a text its
bytes in UTF-8 behind their length. They make a binary reader and writer: `protobufWire`.
-/

namespace GatewayConsole

/-! ## Numbers -/

/-- The groups of a number below `128 ^ k`. -/
def varintGroups : Nat → Nat → Bytes
  | 0, _ => []
  | k + 1, n =>
      if n < 128 then [UInt8.ofNat n]
      else UInt8.ofNat (n % 128 + 128) :: varintGroups k (n / 128)

def varint (n : Nat) : Bytes := varintGroups 10 n

/-- A number of at most `k` groups, and the bytes after it. -/
def readGroups : Nat → Bytes → Option (Nat × Bytes)
  | 0, _ => none
  | _ + 1, [] => none
  | k + 1, b :: bs =>
      if b.toNat < 128 then some (b.toNat, bs)
      else (readGroups k bs).map fun (n, rest) => (b.toNat - 128 + 128 * n, rest)

def readVarint (bs : Bytes) : Option (Nat × Bytes) := readGroups 10 bs

theorem readGroups_varintGroups (rest : Bytes) :
    ∀ {k n : Nat}, 0 < k → n < 128 ^ k →
      readGroups k (varintGroups k n ++ rest) = some (n, rest)
  | k + 1, n, _, hn => by
      rw [varintGroups]
      split
      · rename_i hlt
        have hbyte : (UInt8.ofNat n).toNat = n := by
          rw [UInt8.toNat_ofNat']
          omega
        simp only [List.singleton_append, readGroups, hbyte, if_pos hlt]
      · rename_i hge
        have hbyte : (UInt8.ofNat (n % 128 + 128)).toNat = n % 128 + 128 := by
          rw [UInt8.toNat_ofNat']
          omega
        have hdiv : n / 128 < 128 ^ k := by
          rw [Nat.pow_succ] at hn
          exact Nat.div_lt_of_lt_mul (by omega)
        have hk : 0 < k := by
          rcases Nat.eq_zero_or_pos k with rfl | hk
          · omega
          · exact hk
        rw [List.cons_append, readGroups, hbyte, if_neg (by omega),
          readGroups_varintGroups rest hk hdiv]
        simp only [Option.map_some, Option.some.injEq, Prod.mk.injEq, and_true]
        omega

theorem readVarint_varint {n : Nat} (hn : n < 2 ^ 64) (rest : Bytes) :
    readVarint (varint n ++ rest) = some (n, rest) :=
  readGroups_varintGroups rest (by decide) (Nat.lt_of_lt_of_le hn (by decide))

theorem varintGroups_length_le : ∀ {k j n : Nat}, n < 128 ^ j → j ≤ k → 0 < j →
    (varintGroups k n).length ≤ j
  | 0, j, n, _, hjk, hj => by omega
  | k + 1, j, n, hn, hjk, hj => by
      rw [varintGroups]
      split
      · exact hj
      · rename_i hge
        obtain ⟨j, rfl⟩ : ∃ i, j = i + 1 := ⟨j - 1, by omega⟩
        have hdiv : n / 128 < 128 ^ j := by
          rw [Nat.pow_succ] at hn
          exact Nat.div_lt_of_lt_mul (by omega)
        have hj : 0 < j := by
          rcases Nat.eq_zero_or_pos j with rfl | hj
          · omega
          · exact hj
        have hrest : (varintGroups k (n / 128)).length ≤ j :=
          varintGroups_length_le hdiv (by omega) hj
        rw [List.length_cons]
        omega

theorem varint_ne_nil (n : Nat) : varint n ≠ [] := by
  rw [varint, varintGroups]
  split <;> simp

/-! ## The values -/

/-- The 64 bits of a number in two's complement. -/
def twos (v : Int) : Nat := (v % 2 ^ 64).toNat

theorem twos_lt (v : Int) : twos v < 2 ^ 64 := by
  unfold twos
  omega

/-- A number of `2 ^ w` as one with a sign. -/
def signed (w n : Nat) : Int := if n < 2 ^ (w - 1) then n else (n : Int) - 2 ^ w

theorem signed32_twos {v : Int} (h : -2 ^ 31 ≤ v ∧ v < 2 ^ 31) :
    signed 32 (twos v % 2 ^ 32) = v := by
  have hpow : (2 : Nat) ^ (32 - 1) = 2147483648 := rfl
  rw [signed, twos, hpow]
  by_cases hneg : v < 0
  · rw [if_neg (by omega)]
    omega
  · rw [if_pos (by omega)]
    omega

theorem signed64_twos {v : Int} (h : -2 ^ 63 ≤ v ∧ v < 2 ^ 63) :
    signed 64 (twos v % 2 ^ 64) = v := by
  have hpow : (2 : Nat) ^ (64 - 1) = 9223372036854775808 := rfl
  rw [signed, twos, hpow]
  by_cases hneg : v < 0
  · rw [if_neg (by omega)]
    omega
  · rw [if_pos (by omega)]
    omega

/-! ## Texts -/

/-- A decoder of UTF-8 between two bytes: how many bytes are to come, the bits so far, and
the range of the next byte. -/
structure Utf8Decoder where
  needed : Nat
  bits : Nat
  lower : Nat
  upper : Nat
deriving Repr, DecidableEq

def replacement : Char := Char.ofNat 0xFFFD

/-- The first byte of a character. -/
def Utf8Decoder.start (b : Nat) : List Char × Utf8Decoder :=
  if b ≤ 0x7F then ([Char.ofNat b], ⟨0, 0, 0x80, 0xBF⟩)
  else if 0xC2 ≤ b ∧ b ≤ 0xDF then ([], ⟨1, b - 0xC0, 0x80, 0xBF⟩)
  else if 0xE0 ≤ b ∧ b ≤ 0xEF then
    ([], ⟨2, b - 0xE0, if b = 0xE0 then 0xA0 else 0x80, if b = 0xED then 0x9F else 0xBF⟩)
  else if 0xF0 ≤ b ∧ b ≤ 0xF4 then
    ([], ⟨3, b - 0xF0, if b = 0xF0 then 0x90 else 0x80, if b = 0xF4 then 0x8F else 0xBF⟩)
  else ([replacement], ⟨0, 0, 0x80, 0xBF⟩)

/-- One byte. A byte out of range ends the character before it and begins another. -/
def Utf8Decoder.feed (d : Utf8Decoder) (b : Nat) : List Char × Utf8Decoder :=
  if d.needed = 0 then start b
  else if b < d.lower ∨ d.upper < b then
    let (cs, d) := start b
    (replacement :: cs, d)
  else
    let bits := d.bits * 64 + (b - 0x80)
    (if d.needed = 1 then [Char.ofNat bits] else [], ⟨d.needed - 1, bits, 0x80, 0xBF⟩)

/-- The text of bytes that need not be well-formed. -/
def replacing (bs : Bytes) : String :=
  let (cs, d) := bs.foldl
    (fun (cs, d) b => let (new, d) := Utf8Decoder.feed d b.toNat; (cs ++ new, d))
    (([], ⟨0, 0, 0x80, 0xBF⟩) : List Char × Utf8Decoder)
  String.ofList (if d.needed = 0 then cs else cs ++ [replacement])

/-- `buffer.toString("utf8")`. -/
def bufferToString (bs : Bytes) : String :=
  (String.fromUTF8? ⟨bs.toArray⟩).getD (replacing bs)

/-- `decodeUtf8(bytes)` of a text decoder, which drops a byte order mark. -/
def decodeUtf8 (bs : Bytes) : String :=
  if Unmarked (bufferToString bs) then bufferToString bs
  else String.ofList (bufferToString bs).toList.tail

def utf8 (s : String) : Bytes := s.toUTF8.data.toList

theorem bufferToString_utf8 (s : String) : bufferToString (utf8 s) = s := by
  have hbytes : (⟨(utf8 s).toArray⟩ : ByteArray) = s.toByteArray := rfl
  rw [bufferToString, hbytes, String.fromUTF8?, dif_pos s.isValidUTF8]
  rfl

theorem decodeUtf8_utf8 {s : String} (h : Unmarked s) : decodeUtf8 (utf8 s) = s := by
  rw [decodeUtf8, bufferToString_utf8, if_pos h]

/-! ## Values behind a length -/

/-- A value of bytes behind its length. -/
def readDelimited (bs : Bytes) : Option (Bytes × Bytes) :=
  (readVarint bs).bind fun (n, rest) =>
    if n % 2 ^ 32 ≤ rest.length then some (rest.take (n % 2 ^ 32), rest.drop (n % 2 ^ 32))
    else none

/-- The jump over a value of a wire type; groups are left out. -/
def skipValue : Nat → Bytes → Option Bytes
  | 0, bs => (readVarint bs).map Prod.snd
  | 1, bs => if 8 ≤ bs.length then some (bs.drop 8) else none
  | 2, bs => (readDelimited bs).map Prod.snd
  | 5, bs => if 4 ≤ bs.length then some (bs.drop 4) else none
  | _, _ => none

def writeDelimited (b : Bytes) : Option Bytes :=
  if b.length < 2 ^ 32 then some (varint b.length ++ b) else none

theorem readDelimited_write {b w : Bytes} (hw : writeDelimited b = some w) (rest : Bytes) :
    readDelimited (w ++ rest) = some (b, rest) := by
  unfold writeDelimited at hw
  split at hw
  · rename_i hlt
    obtain rfl := Option.some.inj hw
    rw [List.append_assoc, readDelimited, readVarint_varint (by omega), Option.bind_some]
    simp only [Nat.mod_eq_of_lt hlt, List.length_append, Nat.le_add_right, if_true,
      List.take_left, List.drop_left]
  · cases hw

/-- A number written as a varint. -/
def varintScalar {α : Type} (write : α → Option Nat) (read : Nat → α)
    (h : ∀ {v : α} {n : Nat}, write v = some n → n < 2 ^ 64 ∧ read n = v) :
    Scalar skipValue fun _ : α => True where
  wireType := 0
  write v := (write v).map varint
  read bs := (readVarint bs).map fun (n, rest) => (read n, rest)
  Renders v b := ∃ n, write v = some n ∧ varint n = b
  renders_write hb _ := Option.map_eq_some_iff.mp hb
  read_renders {v b} hb rest := by
    obtain ⟨n, hn, rfl⟩ := hb
    obtain ⟨hlt, hread⟩ := h hn
    simp only [readVarint_varint hlt, Option.map_some, hread]
  skip_renders {v b} hb rest := by
    obtain ⟨n, hn, rfl⟩ := hb
    rw [skipValue, readVarint_varint (h hn).1, Option.map_some]

def uint32Scalar : Scalar skipValue fun _ : Nat => True :=
  varintScalar (fun n => if n < 2 ^ 32 then some n else none) (· % 2 ^ 32) fun {v n} hn => by
    split at hn
    · obtain rfl := Option.some.inj hn
      omega
    · cases hn

def int32Scalar : Scalar skipValue fun _ : Int => True :=
  varintScalar (fun v => if -2 ^ 31 ≤ v ∧ v < 2 ^ 31 then some (twos v) else none)
    (fun n => signed 32 (n % 2 ^ 32)) fun {v n} hn => by
    split at hn
    · obtain rfl := Option.some.inj hn
      exact ⟨twos_lt v, signed32_twos ‹_›⟩
    · cases hn

def int64Scalar : Scalar skipValue fun _ : Int => True :=
  varintScalar (fun v => if -2 ^ 63 ≤ v ∧ v < 2 ^ 63 then some (twos v) else none)
    (fun n => signed 64 (n % 2 ^ 64)) fun {v n} hn => by
    split at hn
    · obtain rfl := Option.some.inj hn
      exact ⟨twos_lt v, signed64_twos ‹_›⟩
    · cases hn

def boolScalar : Scalar skipValue fun _ : Bool => True :=
  varintScalar (fun v => some v.toNat) (fun n => decide (n % 2 ^ 64 ≠ 0)) fun {v n} hn => by
    obtain rfl := Option.some.inj hn
    cases v <;> decide

def bytesScalar : Scalar skipValue fun _ : Bytes => True where
  wireType := 2
  write := writeDelimited
  read := readDelimited
  Renders v b := writeDelimited v = some b
  renders_write hw _ := hw
  read_renders hw rest := readDelimited_write hw rest
  skip_renders hw rest := by rw [skipValue, readDelimited_write hw, Option.map_some]

/-- A text. Bytes that are decoded to a text stand for it, also those of a byte order mark
and the text. -/
def stringScalar : Scalar skipValue Unmarked where
  wireType := 2
  write s := writeDelimited (utf8 s)
  read bs := (readDelimited bs).map fun (b, rest) => (decodeUtf8 b, rest)
  Renders s w := ∃ b, writeDelimited b = some w ∧ decodeUtf8 b = s
  renders_write hw hs := ⟨_, hw, decodeUtf8_utf8 hs⟩
  read_renders {s w} hw rest := by
    obtain ⟨b, hw, rfl⟩ := hw
    rw [readDelimited_write hw, Option.map_some]
  skip_renders {s w} hw rest := by
    obtain ⟨b, hw, -⟩ := hw
    rw [skipValue, readDelimited_write hw, Option.map_some]

/-- The encoding the generated messages are written in. -/
instance protobufWire : BinaryWire where
  skip := skipValue
  uint32 := uint32Scalar
  int32 := int32Scalar
  int64 := int64Scalar
  bool := boolScalar
  string := stringScalar
  bytes := bytesScalar
  uint32_write {n} hn := ⟨varint n, by
    simp only [uint32Scalar, varintScalar, if_pos hn, Option.map_some],
    varintGroups_length_le (j := 5) (Nat.lt_of_lt_of_le hn (by decide)) (by decide) (by decide)⟩
  int32_write {v} hlo hhi := ⟨varint (twos v), by
    simp only [int32Scalar, varintScalar, if_pos (And.intro hlo hhi), Option.map_some],
    varintGroups_length_le (j := 10) (Nat.lt_of_lt_of_le (twos_lt v) (by decide)) (by decide)
      (by decide)⟩
  int64_write {v} hlo hhi := ⟨varint (twos v), by
    simp only [int64Scalar, varintScalar, if_pos (And.intro hlo hhi), Option.map_some],
    varintGroups_length_le (j := 10) (Nat.lt_of_lt_of_le (twos_lt v) (by decide)) (by decide)
      (by decide)⟩
  bool_write v := ⟨varint v.toNat, rfl⟩
  string_write {s} hs := ⟨varint (utf8 s).length ++ utf8 s, if_pos hs⟩
  uint32_ne_nil {n b} hb := by
    obtain ⟨m, -, rfl⟩ := Option.map_eq_some_iff.mp hb
    exact varint_ne_nil m
  skip_delimited {b len} hlen rest := by
    obtain ⟨n, hn, rfl⟩ := Option.map_eq_some_iff.mp hlen
    dsimp only at hn
    split at hn
    · rename_i hlt
      obtain rfl := Option.some.inj hn
      rw [skipValue, readDelimited_write (if_pos hlt), Option.map_some]
    · cases hn

end GatewayConsole
