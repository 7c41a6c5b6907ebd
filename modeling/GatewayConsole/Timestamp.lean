import GatewayConsole.Js
import GatewayConsole.Rounding

/-!
# Timestamps

`fromTimestamp` of the generated stubs: the seconds and the nanoseconds of a
`google.protobuf.Timestamp` become one `number` of milliseconds, and this a `Date`, which
cuts the fraction off.

The sum is rounded, so an instant just before a whole millisecond decodes to it; no other
instant decodes to a millisecond that it is not in (`DecodesTo.le_of_le_instant` and
`DecodesTo.le_of_instant_le`). A later instant never decodes to an earlier millisecond,
in whatever way the two are divided into seconds and nanoseconds: `DecodesTo.mono`.
-/

namespace GatewayConsole

/-- `google.protobuf.Timestamp`. -/
structure Timestamp where
  seconds : Int
  nanos : Int
deriving Repr, DecidableEq

namespace Timestamp

/-- The instant in nanoseconds. -/
def instant (t : Timestamp) : Int := t.seconds * 1000000000 + t.nanos

/-- The seconds are an `int64` and the nanoseconds an `int32`. -/
structure OnWire (t : Timestamp) : Prop where
  seconds : -2 ^ 63 ≤ t.seconds ∧ t.seconds < 2 ^ 63
  nanos : -2 ^ 31 ≤ t.nanos ∧ t.nanos < 2 ^ 31

instance (t : Timestamp) : Decidable t.OnWire :=
  decidable_of_iff
    ((-2 ^ 63 ≤ t.seconds ∧ t.seconds < 2 ^ 63) ∧ -2 ^ 31 ≤ t.nanos ∧ t.nanos < 2 ^ 31)
    ⟨fun h => ⟨h.1, h.2⟩, fun h => ⟨h.1, h.2⟩⟩

end Timestamp

/-- A timestamp as it is read off the wire. -/
abbrev WireTimestamp := { t : Timestamp // t.OnWire }

/-- `new Date(value).getTime()`. -/
def timeClip : Double → Num
  | .finite q => if |q| ≤ maxTime then .int (q.num.tdiv q.den) else .nan
  | .nan | .infinite _ => .nan

/-- `fromTimestamp(t).getTime()`. -/
def fromTimestamp (t : Timestamp) : Num :=
  let millis := (roundDouble t.seconds).times 1000
  let millis := millis.add ((roundDouble t.nanos).dividedBy 1000000)
  timeClip millis

namespace Timestamp

/-! ## The number of milliseconds -/

/-- The nanoseconds in milliseconds. -/
def fraction (t : Timestamp) : ℚ := nearest (t.nanos / 1000000)

/-- The sum before it is rounded. -/
def sum (t : Timestamp) : ℚ := t.seconds * 1000 + t.fraction

variable {t : Timestamp}

theorem OnWire.abs_nanos (h : t.OnWire) : |(t.nanos / 1000000 : ℚ)| ≤ 2148 := by
  have hlow : (-2 ^ 31 : ℚ) ≤ t.nanos := by exact_mod_cast h.nanos.1
  have hhigh : (t.nanos : ℚ) < 2 ^ 31 := by exact_mod_cast h.nanos.2
  rw [abs_le]
  constructor <;> linarith

theorem OnWire.abs_fraction (h : t.OnWire) : |t.fraction| ≤ 2148 := by
  have hrep := representable_intCast (n := 2148) (by norm_num)
  exact_mod_cast abs_nearest_le hrep (by exact_mod_cast h.abs_nanos)

/-- The division is off by very little. -/
theorem OnWire.abs_fraction_sub (h : t.OnWire) :
    |t.fraction - t.nanos / 1000000| ≤ 1 / 2 ^ 42 := by
  refine (abs_nearest_sub_le _).trans ?_
  have hlast : lastDigit (t.nanos / 1000000 : ℚ) ≤ -41 := by
    rcases eq_or_ne (t.nanos / 1000000 : ℚ) 0 with hzero | hne
    · rw [hzero]
      decide +kernel
    · have hpos := abs_pos.mpr hne
      have hlog : floorLog2 |(t.nanos / 1000000 : ℚ)| < 12 := by
        refine lt_of_two_zpow_lt (lt_of_le_of_lt (floorLog2_spec hpos).1 ?_)
        exact lt_of_le_of_lt h.abs_nanos (by norm_num)
      rw [lastDigit]
      omega
  have hle := two_zpow_le hlast
  have hvalue : (2 : ℚ) ^ (-41 : ℤ) = 2 / 2 ^ 42 := by norm_num
  linarith

theorem instant_cast (t : Timestamp) :
    (t.instant : ℚ) / 1000000 = t.seconds * 1000 + t.nanos / 1000000 := by
  rw [instant]
  push_cast
  ring

theorem OnWire.abs_sum_sub (h : t.OnWire) : |t.sum - t.instant / 1000000| ≤ 1 / 2 ^ 42 := by
  have hfraction := h.abs_fraction_sub
  rwa [instant_cast, sum, add_sub_add_left_eq_sub]

/-- Nanoseconds with few digits behind the milliseconds are divided exactly. -/
theorem OnWire.fraction_eq (h : t.OnWire) {m : ℤ} {j : ℕ} (hj : j ≤ 20)
    (heq : (t.nanos / 1000000 : ℚ) * 2 ^ j = m) : t.fraction = t.nanos / 1000000 := by
  refine nearest_representable ⟨m, -j, ?_, by omega, ?_⟩
  · have hpow : (2 : ℚ) ^ j ≤ 2 ^ 20 := pow_le_pow_right₀ (by norm_num) hj
    have hprod := mul_le_mul h.abs_nanos hpow (by positivity) (by norm_num)
    have habs : |(m : ℚ)| = |(t.nanos / 1000000 : ℚ)| * 2 ^ j := by
      rw [← heq, abs_mul, abs_of_pos (by positivity : (0 : ℚ) < 2 ^ j)]
    have hle : |(m : ℚ)| ≤ 2 ^ 53 := by
      rw [habs]
      exact hprod.trans (by norm_num)
    exact_mod_cast hle
  · rw [← heq, zpow_neg, zpow_natCast, mul_assoc,
      mul_inv_cancel₀ (by positivity : (2 : ℚ) ^ j ≠ 0), mul_one]

theorem OnWire.fraction_whole (h : t.OnWire) {m : ℤ} (heq : t.nanos = m * 1000000) :
    t.fraction = m := by
  have hdiv : (t.nanos / 1000000 : ℚ) = m := by
    rw [heq]
    push_cast
    ring
  rw [h.fraction_eq (j := 0) (by decide) (m := m) (by rw [hdiv, pow_zero, mul_one]), hdiv]

/-! ## What a valid date says -/

theorem OnWire.fromTimestamp_eq (h : t.OnWire) :
    fromTimestamp t
      = timeClip (.finite (nearest (nearest (nearest t.seconds * 1000) + t.fraction))) := by
  have hseconds : |(t.seconds : ℚ)| ≤ 2 ^ (63 : ℤ) := by
    have hlow : (-2 ^ 63 : ℚ) ≤ t.seconds := by exact_mod_cast h.seconds.1
    have hhigh : (t.seconds : ℚ) < 2 ^ 63 := by exact_mod_cast h.seconds.2
    rw [abs_le]
    constructor <;> norm_num at hlow hhigh ⊢ <;> linarith
  have hnanos : |(t.nanos : ℚ)| ≤ 2 ^ (53 : ℤ) := by
    have hdiv := h.abs_nanos
    rw [abs_div, div_le_iff₀ (by norm_num)] at hdiv
    norm_num at hdiv ⊢
    linarith
  have hnearest := abs_nearest_le (representable_two_zpow (by decide)) hseconds
  have hproduct : |nearest t.seconds * 1000| ≤ 2 ^ (73 : ℤ) := by
    rw [abs_mul]
    norm_num at hnearest ⊢
    linarith
  have hproduct' := abs_nearest_le (representable_two_zpow (by decide)) hproduct
  have hsum : |nearest (nearest t.seconds * 1000) + t.fraction| ≤ 2 ^ (74 : ℤ) := by
    refine (abs_add_le _ _).trans ?_
    have hfraction := h.abs_fraction
    norm_num at hproduct' ⊢
    linarith
  have hpow : ∀ {k : ℤ} {x : ℚ}, k ≤ 74 → |x| ≤ 2 ^ k → |x| ≤ 2 ^ 1000 := by
    intro k x hk hx
    refine hx.trans ((two_zpow_le hk).trans ?_)
    rw [← Nat.cast_ofNat (n := 74), zpow_natCast]
    exact pow_le_pow_right₀ (by norm_num) (by decide)
  have hover : |(t.nanos / 1000000 : ℚ)| ≤ 2 ^ (12 : ℤ) :=
    h.abs_nanos.trans (by norm_num)
  have hexact : nearest t.nanos = t.nanos := nearest_intCast (by exact_mod_cast hnanos)
  simp only [fromTimestamp, roundDouble_eq (hpow (by decide) hseconds),
    roundDouble_eq (hpow (by decide) hnanos), Double.times, Double.dividedBy, hexact,
    roundDouble_eq (hpow (by decide) hproduct), roundDouble_eq (hpow (by decide) hover),
    Double.add]
  rw [← fraction, roundDouble_eq (hpow (by decide) hsum)]

theorem timeClip_finite {q : ℚ} {d : ℤ} (h : timeClip (.finite q) = .int d) :
    |q| ≤ maxTime ∧ q.num.tdiv q.den = d := by
  have hclip : timeClip (.finite q)
      = if |q| ≤ maxTime then .int (q.num.tdiv q.den) else .nan := rfl
  rw [hclip] at h
  split at h
  · exact ⟨‹_›, Num.int.inj h⟩
  · cases h

/-- Of a positive date the fraction has been cut off. -/
theorem floor_of_tdiv {q : ℚ} {d : ℤ} (h : q.num.tdiv q.den = d) (hd : 0 < d) : ⌊q⌋ = d := by
  have hnum : 0 ≤ q.num := by
    by_contra hneg
    have hle : q.num.tdiv q.den ≤ (0 : ℤ).tdiv q.den :=
      Int.tdiv_le_tdiv (by exact_mod_cast q.den_pos) (not_le.mp hneg).le
    rw [Int.zero_tdiv] at hle
    omega
  rw [Rat.floor_def', ← Int.tdiv_eq_ediv_of_nonneg hnum]
  exact h

/-- Seconds that are not too many are multiplied exactly. -/
theorem nearest_seconds {s : ℤ} (h : |s| ≤ 9007199254740) :
    nearest (nearest s * 1000) = s * 1000 := by
  have hproduct : nearest ((s * 1000 : ℤ) : ℚ) = ((s * 1000 : ℤ) : ℚ) := by
    refine nearest_intCast ?_
    rw [abs_mul]
    norm_num
    omega
  push_cast at hproduct
  rw [nearest_intCast (h.trans (by norm_num)), hproduct]

theorem seconds_small {s : ℤ} (h : |nearest (nearest s * 1000)| ≤ maxTime + 2149) :
    |s| ≤ 9007199254740 := by
  by_contra hlarge
  have hle : ((9007199254741 : ℤ) : ℚ) ≤ |(s : ℚ)| := by exact_mod_cast not_le.mp hlarge
  have hnearest := le_abs_nearest (by norm_num) hle
  have hproduct : ((2 ^ 53 : ℤ) : ℚ) ≤ |nearest s * 1000| := by
    rw [abs_mul]
    norm_num at hnearest ⊢
    linarith
  have hproduct' := le_abs_nearest (by norm_num) hproduct
  norm_num [maxTime] at h hproduct'
  linarith

/-- A whole number of milliseconds decodes to itself. -/
theorem OnWire.fromTimestamp_whole (h : t.OnWire) {k : ℤ} (hk : t.nanos = k * 1000000)
    (hd : |t.seconds * 1000 + k| ≤ maxTime) : fromTimestamp t = .int (t.seconds * 1000 + k) := by
  have hnanos := h.nanos
  have hbound := abs_le.mp hd
  rw [maxTime] at hbound
  have hnumber : nearest ((t.seconds * 1000 + k : ℤ) : ℚ) = ((t.seconds * 1000 + k : ℤ) : ℚ) :=
    nearest_intCast (hd.trans (by norm_num [maxTime]))
  have hclip : |((t.seconds * 1000 + k : ℤ) : ℚ)| ≤ maxTime := by exact_mod_cast hd
  rw [h.fromTimestamp_eq, nearest_seconds (by rw [abs_le]; omega), h.fraction_whole hk]
  push_cast at hnumber hclip
  rw [hnumber]
  have hcast : (t.seconds * 1000 + k : ℚ) = ((t.seconds * 1000 + k : ℤ) : ℚ) := by push_cast; rfl
  rw [timeClip, if_pos hclip, hcast, Rat.num_intCast, Rat.den_intCast]
  simp

end Timestamp

/-- So many milliseconds after the epoch. -/
def atMillis (ms : UInt32) : WireTimestamp :=
  ⟨{ seconds := ms.toNat / 1000, nanos := ms.toNat % 1000 * 1000000 }, by
    have := ms.toNat_lt
    constructor <;> constructor <;> dsimp only <;> omega⟩

theorem fromTimestamp_atMillis (ms : UInt32) :
    fromTimestamp (atMillis ms).1 = .int ms.toNat := by
  have hlt := ms.toNat_lt
  have hmillis : (atMillis ms).1.seconds * 1000 + ms.toNat % 1000 = ms.toNat := by
    simp only [atMillis]
    omega
  rw [(atMillis ms).2.fromTimestamp_whole rfl, hmillis]
  rw [hmillis, maxTime, abs_le]
  omega

namespace Timestamp

variable {t : Timestamp}

/-- The timestamp decodes to a positive millisecond. -/
structure DecodesTo (t : Timestamp) (d : ℤ) : Prop where
  pos : 0 < d
  le_maxTime : d ≤ maxTime
  le : (d : ℚ) ≤ nearest t.sum
  lt : nearest t.sum < d + 1
  seconds_ge : -2148 ≤ t.seconds * 1000
  seconds_le : t.seconds * 1000 ≤ maxTime + 2149

theorem OnWire.decodesTo (h : t.OnWire) {d : ℤ} (hd : fromTimestamp t = .int d) (hpos : 0 < d) :
    t.DecodesTo d := by
  rw [h.fromTimestamp_eq] at hd
  obtain ⟨hclip, htrunc⟩ := timeClip_finite hd
  have hfraction := abs_le.mp h.abs_fraction
  have hseconds : |nearest (nearest t.seconds * 1000)| ≤ maxTime + 2149 := by
    have hsum : |nearest (nearest t.seconds * 1000) + t.fraction| ≤ maxTime + 1 := by
      by_contra hlarge
      have hle : ((maxTime + 1 : ℤ) : ℚ) ≤ |nearest (nearest t.seconds * 1000) + t.fraction| := by
        push_cast
        exact (not_le.mp hlarge).le
      have hnearest := le_abs_nearest (by norm_num [maxTime]) hle
      push_cast at hnearest
      linarith
    rw [abs_le] at hsum ⊢
    constructor <;> linarith
  have hsmall := seconds_small hseconds
  rw [nearest_seconds hsmall] at hseconds
  rw [nearest_seconds hsmall, ← sum] at hclip htrunc
  have hbound : (t.seconds * 1000 : ℚ) ≤ maxTime + 2149 := (abs_le.mp hseconds).2
  obtain ⟨hle, hlt⟩ := Int.floor_eq_iff.mp (floor_of_tdiv htrunc hpos)
  have hone : (1 : ℚ) ≤ d := by exact_mod_cast hpos
  have hsum : 0 ≤ t.sum := by
    by_contra hneg
    have hnearest := nearest_mono (not_le.mp hneg).le
    rw [nearest_zero] at hnearest
    linarith
  refine ⟨hpos, ?_, hle, hlt, ?_, by exact_mod_cast hbound⟩
  · have hmax := hle.trans (abs_le.mp hclip).2
    exact_mod_cast hmax
  · have hge : (-2148 : ℚ) ≤ t.seconds * 1000 := by
      rw [sum] at hsum
      linarith
    exact_mod_cast hge

/-! ## Before and after a whole millisecond -/

theorem DecodesTo.sum_pos {d : ℤ} (h : t.DecodesTo d) : 0 < t.sum := by
  by_contra hneg
  have hnearest := nearest_mono (not_lt.mp hneg)
  have hone : (1 : ℚ) ≤ d := by exact_mod_cast h.pos
  have := h.le
  rw [nearest_zero] at hnearest
  linarith

/-- The sum stays on its side of a whole millisecond. -/
theorem le_sum {w : ℤ} (hw : |w - t.seconds * 1000| ≤ 2 ^ 53) (h : w * 1000000 ≤ t.instant) :
    (w : ℚ) ≤ t.sum := by
  have hdiv : ((w - t.seconds * 1000 : ℤ) : ℚ) ≤ t.nanos / 1000000 := by
    have hcast : (w : ℚ) * 1000000 ≤ t.instant := by exact_mod_cast h
    have hinstant := t.instant_cast
    push_cast
    linarith
  have hfraction := le_nearest hw hdiv
  rw [← fraction] at hfraction
  push_cast at hfraction
  rw [sum]
  linarith

theorem sum_le {w : ℤ} (hw : |w - t.seconds * 1000| ≤ 2 ^ 53) (h : t.instant ≤ w * 1000000) :
    t.sum ≤ w := by
  have hdiv : (t.nanos / 1000000 : ℚ) ≤ ((w - t.seconds * 1000 : ℤ) : ℚ) := by
    have hcast : (t.instant : ℚ) ≤ w * 1000000 := by exact_mod_cast h
    have hinstant := t.instant_cast
    push_cast
    linarith
  have hfraction := nearest_le hw hdiv
  rw [← fraction] at hfraction
  push_cast at hfraction
  rw [sum]
  linarith

theorem DecodesTo.le_of_le_instant {d : ℤ} (h : t.DecodesTo d) (hwire : t.OnWire) {w : ℤ}
    (hw : w * 1000000 ≤ t.instant) : w ≤ d := by
  by_contra hlt
  have hpos := h.pos
  have hseconds := h.seconds_le
  have hge := h.seconds_ge
  have hnanos := hwire.nanos
  rw [maxTime] at hseconds
  have hbound : w ≤ t.seconds * 1000 + 2148 := by
    rw [instant] at hw
    omega
  have hsum := le_sum (by rw [abs_le]; omega) hw
  have hnearest := le_nearest (by rw [abs_le]; omega) hsum
  have hcast : (w : ℚ) < d + 1 := lt_of_le_of_lt hnearest h.lt
  have hle : w < d + 1 := by exact_mod_cast hcast
  omega

theorem DecodesTo.le_of_instant_le {d : ℤ} (h : t.DecodesTo d) {w : ℤ}
    (hw : t.instant ≤ w * 1000000) : d ≤ w := by
  by_contra hlt
  have hpos := h.pos
  have hseconds := h.seconds_le
  have hge := h.seconds_ge
  have hmax := h.le_maxTime
  rw [maxTime] at hseconds hmax
  -- the millisecond before would do as well
  have hsum := sum_le (t := t) (w := d - 1) (by rw [abs_le]; omega) (by omega)
  have hnearest := nearest_le (by rw [abs_le]; omega) hsum
  have hcast : (d : ℚ) ≤ ((d - 1 : ℤ) : ℚ) := h.le.trans hnearest
  have hle : d ≤ d - 1 := by exact_mod_cast hcast
  omega

/-- The millisecond is the one of the instant, or the next one, less than half a
millisecond away. -/
theorem DecodesTo.instant_bounds {d : ℤ} (h : t.DecodesTo d) (hwire : t.OnWire) :
    d * 1000000 ≤ t.instant + 500000 ∧ t.instant < (d + 1) * 1000000 := by
  constructor
  · have hpos := h.sum_pos
    have hfraction := (abs_le.mp hwire.abs_fraction).2
    have hseconds : (t.seconds : ℚ) * 1000 ≤ maxTime + 2149 := by exact_mod_cast h.seconds_le
    have hmax : (maxTime : ℚ) = 8640000000000000 := by norm_num [maxTime]
    have hlast : lastDigit t.sum ≤ 0 := by
      have hlog : floorLog2 t.sum < 53 := by
        refine lt_of_two_zpow_lt (lt_of_le_of_lt (floorLog2_spec hpos).1 ?_)
        rw [sum]
        norm_num
        linarith
      rw [lastDigit, abs_of_pos hpos]
      omega
    have hunit := two_zpow_le hlast
    have herror := (abs_le.mp (abs_nearest_sub_le t.sum)).2
    have hsum := (abs_le.mp hwire.abs_sum_sub).2
    have hle := h.le
    rw [zpow_zero] at hunit
    have hcast : (d : ℚ) * 1000000 < t.instant + 500000 + 1 := by
      norm_num at hsum
      linarith
    have hlt : d * 1000000 < t.instant + 500000 + 1 := by exact_mod_cast hcast
    omega
  · by_contra hlt
    have := h.le_of_le_instant hwire (w := d + 1) (by omega)
    omega

/-! ## A later instant -/

/-- Half way to a whole millisecond the sum is exact: no other instant comes as near to such
a point as the division is off. -/
theorem OnWire.sum_eq (h : t.OnWire) {k : ℤ} {j : ℕ} (hj : j ≤ 20)
    (hnear : |t.instant / 1000000 - ((k : ℚ) - 1 / 2 ^ j)| ≤ 1 / 2 ^ 42) :
    t.sum = t.instant / 1000000 := by
  have hpos : (0 : ℚ) < 2 ^ j := by positivity
  have hpow : (2 : ℚ) ^ j ≤ 2 ^ 20 := pow_le_pow_right₀ (by norm_num) hj
  have hscaled : |((t.instant * 2 ^ j - (k * 2 ^ j - 1) * 1000000 : ℤ) : ℚ)| < 1 := by
    have hfactor : ((t.instant * 2 ^ j - (k * 2 ^ j - 1) * 1000000 : ℤ) : ℚ)
        = (t.instant / 1000000 - ((k : ℚ) - 1 / 2 ^ j)) * (1000000 * 2 ^ j) := by
      push_cast
      field_simp
    rw [hfactor, abs_mul, abs_of_pos (by positivity : (0 : ℚ) < 1000000 * 2 ^ j)]
    calc |(t.instant : ℚ) / 1000000 - (k - 1 / 2 ^ j)| * (1000000 * 2 ^ j)
        ≤ 1 / 2 ^ 42 * (1000000 * 2 ^ 20) :=
          mul_le_mul hnear (by linarith) (by positivity) (by norm_num)
      _ < 1 := by norm_num
  have hzero : t.instant * 2 ^ j - (k * 2 ^ j - 1) * 1000000 = 0 := by
    rw [← Int.abs_lt_one_iff]
    exact_mod_cast hscaled
  have hexact : (t.nanos / 1000000 : ℚ) * 2 ^ j
      = ((k * 2 ^ j - 1 - t.seconds * 1000 * 2 ^ j : ℤ) : ℚ) := by
    have hcast : (t.instant : ℚ) * 2 ^ j - (k * 2 ^ j - 1) * 1000000 = 0 := by exact_mod_cast hzero
    have hinstant := t.instant_cast
    have hnanos : (t.nanos / 1000000 : ℚ) = t.instant / 1000000 - t.seconds * 1000 := by linarith
    rw [hnanos]
    push_cast
    linarith
  rw [sum, h.fraction_eq hj hexact, instant_cast]

theorem DecodesTo.mono {a b : Timestamp} {x y : ℤ} (ha : a.DecodesTo x) (hb : b.DecodesTo y)
    (hwa : a.OnWire) (hwb : b.OnWire) (h : a.instant ≤ b.instant) : x ≤ y := by
  by_contra hlt
  have hround : nearest b.sum < ((y + 1 : ℤ) : ℚ) := by
    push_cast
    exact hb.lt
  have hround' : ((y + 1 : ℤ) : ℚ) ≤ nearest a.sum := by
    have hxy : ((y + 1 : ℤ) : ℚ) ≤ x := by exact_mod_cast (by omega : y + 1 ≤ x)
    exact hxy.trans ha.le
  have hsums : b.sum < a.sum := by
    by_contra hle
    have := nearest_mono (not_lt.mp hle)
    linarith
  obtain ⟨hlowa, hhigha⟩ := abs_le.mp hwa.abs_sum_sub
  obtain ⟨hlowb, hhighb⟩ := abs_le.mp hwb.abs_sum_sub
  -- the sums are off by far less than a nanosecond
  have heq : a.instant = b.instant := by
    have hcast : (b.instant : ℚ) < a.instant + 1 := by
      norm_num at hlowa hhigha hlowb hhighb
      linarith
    have : b.instant < a.instant + 1 := by exact_mod_cast hcast
    omega
  have hbefore : b.instant < (y + 1) * 1000000 := by
    by_contra hge
    have := hb.le_of_le_instant hwb (not_lt.mp hge)
    omega
  have hbefore' : (a.instant : ℚ) ≤ (y + 1) * 1000000 - 1 := by
    exact_mod_cast (by omega : a.instant ≤ (y + 1) * 1000000 - 1)
  have hsum : a.sum < ((y + 1 : ℤ) : ℚ) := by
    push_cast
    norm_num at hhigha
    linarith
  obtain ⟨j, hj⟩ := exists_roundsUp (k := y + 1) (by have := hb.pos; omega) (by
    have := hb.le_maxTime
    rw [maxTime] at this
    omega)
  have hpointa := (hj a.sum ha.sum_pos hsum).1 hround'
  have hpointb := (hj b.sum hb.sum_pos (hsums.trans hsum)).2 hround
  have hj20 : j ≤ 20 := by
    by_contra hlarge
    have hpow : (2 : ℚ) ^ 21 ≤ 2 ^ j := pow_le_pow_right₀ (by norm_num) (by omega)
    have hsmall := one_div_le_one_div_of_le (by positivity) hpow
    push_cast at hpointa
    norm_num at hhigha hsmall hpointa
    linarith
  have hcast : (b.instant : ℚ) = a.instant := by rw [heq]
  have hsuma := hwa.sum_eq (k := y + 1) hj20 (by rw [abs_le]; constructor <;> linarith)
  have hsumb := hwb.sum_eq (k := y + 1) hj20 (by rw [abs_le]; constructor <;> linarith)
  rw [hsuma, hsumb, hcast] at hsums
  exact lt_irrefl _ hsums

end Timestamp

end GatewayConsole
