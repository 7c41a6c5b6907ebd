import Mathlib.Data.Rat.Floor
import Mathlib.Algebra.Order.Field.Power
import Mathlib.Tactic.Linarith
import Mathlib.Tactic.FieldSimp

/-!
# Rounding to the nearest `number`

A `number` has 53 binary digits. An exact value is rounded to the nearest one, and to the
even one of two that are equally near; `nearest` is that value where it does not overflow.

`nearest` never turns an order around (`nearest_mono`), keeps what has 53 digits
(`nearest_representable`), and is off by half the last digit at most. Below a whole number
there is one point from which on values round up to it: `exists_roundsUp`.
-/

namespace GatewayConsole

/-- A `number`, its zeros taken as one. -/
inductive Double where
  | nan
  | infinite (negative : Bool)
  | finite (value : ℚ)
deriving DecidableEq

def roundHalfEven (q : ℚ) : ℤ :=
  let k := ⌊q⌋
  if q - k < 1 / 2 then k
  else if 1 / 2 < q - k then k + 1
  else k + k % 2

/-- The exponent of the power of two at or below a positive number. -/
def floorLog2 (q : ℚ) : ℤ :=
  let e : ℤ := (q.num.natAbs.log2 : ℤ) - (q.den.log2 : ℤ)
  if q < 2 ^ e then e - 1 else e

/-- The `number` nearest to an exact value. -/
def roundDouble (q : ℚ) : Double :=
  if q = 0 then .finite 0
  else
    let unit : ℚ := 2 ^ max (floorLog2 |q| - 52) (-1074)
    let rounded := roundHalfEven (|q| / unit) * unit
    if 2 ^ 1024 ≤ rounded then .infinite (q < 0)
    else .finite (if q < 0 then -rounded else rounded)

/-! ## Whole numbers -/

theorem roundHalfEven_intCast (k : ℤ) : roundHalfEven k = k := by
  simp [roundHalfEven]

theorem le_of_le_roundHalfEven {q : ℚ} {n : ℤ} (h : n ≤ roundHalfEven q) :
    (n : ℚ) - 1 / 2 ≤ q := by
  have hfloor := Int.floor_le q
  unfold roundHalfEven at h
  dsimp only at h
  split at h
  · have hn : (n : ℚ) ≤ ⌊q⌋ := by exact_mod_cast h
    linarith
  · rename_i hlow
    have hn : (n : ℚ) ≤ ⌊q⌋ + 1 := by
      split at h
      · exact_mod_cast h
      · have hmod := Int.emod_lt_of_pos ⌊q⌋ (b := 2) (by decide)
        exact_mod_cast (by omega : n ≤ ⌊q⌋ + 1)
    linarith

theorem le_of_roundHalfEven_lt {q : ℚ} {n : ℤ} (h : roundHalfEven q < n) :
    q ≤ (n : ℚ) - 1 / 2 := by
  have hfloor := Int.lt_floor_add_one q
  unfold roundHalfEven at h
  dsimp only at h
  split at h
  · rename_i hlow
    have hn : (⌊q⌋ : ℚ) + 1 ≤ n := by exact_mod_cast h
    linarith
  · split at h
    · have hn : (⌊q⌋ : ℚ) + 1 + 1 ≤ n := by exact_mod_cast h
      linarith
    · rename_i hhigh
      have hmod := Int.emod_nonneg ⌊q⌋ (b := 2) (by decide)
      have hn : (⌊q⌋ : ℚ) + 1 ≤ n := by exact_mod_cast (by omega : ⌊q⌋ + 1 ≤ n)
      linarith

theorem roundHalfEven_mono {x y : ℚ} (h : x ≤ y) : roundHalfEven x ≤ roundHalfEven y := by
  by_contra hlt
  have hy := le_of_roundHalfEven_lt (not_le.mp hlt)
  have hx := le_of_le_roundHalfEven (le_refl (roundHalfEven x))
  -- both are the one point half way between
  obtain rfl : x = y := by linarith
  exact hlt (le_refl _)

theorem le_roundHalfEven {q : ℚ} {n : ℤ} (h : (n : ℚ) ≤ q) : n ≤ roundHalfEven q := by
  have hmono := roundHalfEven_mono h
  rwa [roundHalfEven_intCast] at hmono

theorem roundHalfEven_le {q : ℚ} {n : ℤ} (h : q ≤ n) : roundHalfEven q ≤ n := by
  have hmono := roundHalfEven_mono h
  rwa [roundHalfEven_intCast] at hmono

theorem abs_roundHalfEven_sub_le (q : ℚ) : |(roundHalfEven q : ℚ) - q| ≤ 1 / 2 := by
  have hlow := le_of_le_roundHalfEven (le_refl (roundHalfEven q))
  have hhigh := le_of_roundHalfEven_lt (Int.lt_succ (roundHalfEven q))
  push_cast at hhigh
  rw [abs_le]
  constructor <;> linarith

/-! ## Powers of two -/

theorem two_zpow_pos (e : ℤ) : (0 : ℚ) < 2 ^ e := zpow_pos (by norm_num) e

theorem two_zpow_le {a b : ℤ} (h : a ≤ b) : (2 : ℚ) ^ a ≤ 2 ^ b :=
  zpow_le_zpow_right₀ (by norm_num) h

theorem lt_of_two_zpow_lt {a b : ℤ} (h : (2 : ℚ) ^ a < 2 ^ b) : a < b := by
  by_contra hle
  exact absurd (two_zpow_le (not_lt.mp hle)) (not_le.mpr h)

/-- A power of two is a whole number of smaller ones. -/
theorem two_zpow_eq_mul {a b : ℤ} (h : a ≤ b) :
    (2 : ℚ) ^ b = ((2 ^ (b - a).toNat : ℤ) : ℚ) * 2 ^ a := by
  push_cast
  rw [← zpow_natCast, ← zpow_add₀ (by norm_num)]
  congr 1
  omega

theorem floorLog2_spec {q : ℚ} (hq : 0 < q) :
    (2 : ℚ) ^ floorLog2 q ≤ q ∧ q < 2 ^ (floorLog2 q + 1) := by
  have hnum : q.num.natAbs ≠ 0 := Int.natAbs_ne_zero.mpr (Rat.num_ne_zero.mpr hq.ne')
  have hnum' : (q.num : ℚ) = (q.num.natAbs : ℚ) := by
    rw [Nat.cast_natAbs, abs_of_pos (Rat.num_pos.mpr hq)]
  have hden : (0 : ℚ) < q.den := by exact_mod_cast q.den_pos
  have heq : q * q.den = q.num.natAbs := by rw [← hnum', Rat.mul_den_eq_num]
  have hnumLow : (2 : ℚ) ^ (q.num.natAbs.log2 : ℤ) ≤ q.num.natAbs := by
    rw [zpow_natCast]
    exact_mod_cast Nat.log2_self_le hnum
  have hnumHigh : (q.num.natAbs : ℚ) < 2 ^ ((q.num.natAbs.log2 : ℤ) + 1) := by
    rw [zpow_add_one₀ (by norm_num), zpow_natCast, ← pow_succ]
    exact_mod_cast Nat.lt_log2_self
  have hdenLow : (2 : ℚ) ^ (q.den.log2 : ℤ) ≤ q.den := by
    rw [zpow_natCast]
    exact_mod_cast Nat.log2_self_le q.den_pos.ne'
  have hdenHigh : (q.den : ℚ) < 2 ^ ((q.den.log2 : ℤ) + 1) := by
    rw [zpow_add_one₀ (by norm_num), zpow_natCast, ← pow_succ]
    exact_mod_cast Nat.lt_log2_self
  unfold floorLog2
  dsimp only
  split
  · rename_i hlt
    refine ⟨?_, by rwa [sub_add_cancel]⟩
    by_contra hge
    have hmul := mul_lt_mul'' (not_le.mp hge) hdenHigh hq.le hden.le
    rw [heq, ← zpow_add₀ (by norm_num)] at hmul
    have := lt_of_two_zpow_lt (lt_of_le_of_lt hnumLow hmul)
    omega
  · rename_i hge
    refine ⟨not_lt.mp hge, ?_⟩
    by_contra hle
    have hmul := mul_le_mul (not_lt.mp hle) hdenLow (two_zpow_pos _).le hq.le
    rw [heq, ← zpow_add₀ (by norm_num)] at hmul
    have := lt_of_two_zpow_lt (lt_of_le_of_lt hmul hnumHigh)
    omega

theorem floorLog2_eq {q : ℚ} {e : ℤ} (hlow : (2 : ℚ) ^ e ≤ q) (hhigh : q < 2 ^ (e + 1)) :
    floorLog2 q = e := by
  have hspec := floorLog2_spec (lt_of_lt_of_le (two_zpow_pos e) hlow)
  have hle := lt_of_two_zpow_lt (lt_of_le_of_lt hlow hspec.2)
  have hge := lt_of_two_zpow_lt (lt_of_le_of_lt hspec.1 hhigh)
  omega

theorem floorLog2_mono {x y : ℚ} (hx : 0 < x) (h : x ≤ y) : floorLog2 x ≤ floorLog2 y := by
  have hlow := (floorLog2_spec hx).1
  have hhigh := (floorLog2_spec (lt_of_lt_of_le hx h)).2
  have := lt_of_two_zpow_lt (lt_of_le_of_lt (hlow.trans h) hhigh)
  omega

/-! ## The nearest value -/

/-- The exponent of the last digit of a `number` of this size. -/
def lastDigit (q : ℚ) : ℤ := max (floorLog2 |q| - 52) (-1074)

/-- The value of `roundDouble`, were there no largest one. -/
def nearest (q : ℚ) : ℚ :=
  if q < 0 then -(roundHalfEven (|q| / 2 ^ lastDigit q) * 2 ^ lastDigit q)
  else roundHalfEven (|q| / 2 ^ lastDigit q) * 2 ^ lastDigit q

theorem nearest_of_nonneg {q : ℚ} (hq : 0 ≤ q) :
    nearest q = roundHalfEven (q / 2 ^ lastDigit q) * 2 ^ lastDigit q := by
  rw [nearest, if_neg (not_lt.mpr hq), abs_of_nonneg hq]

theorem nearest_neg (q : ℚ) : nearest (-q) = -nearest q := by
  have hlast : lastDigit (-q) = lastDigit q := by rw [lastDigit, lastDigit, abs_neg]
  have hzero : roundHalfEven (0 : ℚ) = 0 := by exact_mod_cast roundHalfEven_intCast 0
  unfold nearest
  rw [hlast, abs_neg]
  rcases lt_trichotomy q 0 with hneg | rfl | hpos
  · rw [if_pos hneg, if_neg (by linarith), neg_neg]
  · simp [hzero]
  · rw [if_neg (by linarith : ¬q < 0), if_pos (by linarith)]

theorem nearest_nonneg {q : ℚ} (hq : 0 ≤ q) : 0 ≤ nearest q := by
  rw [nearest_of_nonneg hq]
  have hround : (0 : ℤ) ≤ roundHalfEven (q / 2 ^ lastDigit q) :=
    le_roundHalfEven (by exact_mod_cast div_nonneg hq (two_zpow_pos _).le)
  exact mul_nonneg (by exact_mod_cast hround) (two_zpow_pos _).le

theorem abs_nearest_sub_le (q : ℚ) : |nearest q - q| ≤ 2 ^ lastDigit q / 2 := by
  have hunit := two_zpow_pos (lastDigit q)
  have hnonneg : ∀ x : ℚ, 0 ≤ x → |nearest x - x| ≤ 2 ^ lastDigit x / 2 := by
    intro x hx
    have hunit := two_zpow_pos (lastDigit x)
    have hround := abs_roundHalfEven_sub_le (x / 2 ^ lastDigit x)
    have hfactor : nearest x - x
        = (roundHalfEven (x / 2 ^ lastDigit x) - x / 2 ^ lastDigit x) * 2 ^ lastDigit x := by
      rw [nearest_of_nonneg hx, sub_mul, div_mul_cancel₀ _ hunit.ne']
    rw [hfactor, abs_mul, abs_of_pos hunit]
    linarith [mul_le_mul_of_nonneg_right hround hunit.le]
  rcases le_or_gt 0 q with hq | hq
  · exact hnonneg q hq
  · have hneg := hnonneg (-q) (by linarith)
    rw [nearest_neg, ← abs_neg] at hneg
    have hlast : lastDigit (-q) = lastDigit q := by rw [lastDigit, lastDigit, abs_neg]
    rw [hlast] at hneg
    convert hneg using 2
    ring

/-- A value stays on the same side of a whole number of its last digits. -/
theorem le_nearest_mul {q : ℚ} (hq : 0 ≤ q) {n : ℤ} (h : n * 2 ^ lastDigit q ≤ q) :
    n * 2 ^ lastDigit q ≤ nearest q := by
  have hunit := two_zpow_pos (lastDigit q)
  rw [nearest_of_nonneg hq]
  have hround : n ≤ roundHalfEven (q / 2 ^ lastDigit q) :=
    le_roundHalfEven ((le_div_iff₀ hunit).mpr h)
  exact mul_le_mul_of_nonneg_right (by exact_mod_cast hround) hunit.le

theorem nearest_le_mul {q : ℚ} (hq : 0 ≤ q) {n : ℤ} (h : q ≤ n * 2 ^ lastDigit q) :
    nearest q ≤ n * 2 ^ lastDigit q := by
  have hunit := two_zpow_pos (lastDigit q)
  rw [nearest_of_nonneg hq]
  have hround : roundHalfEven (q / 2 ^ lastDigit q) ≤ n :=
    roundHalfEven_le ((div_le_iff₀ hunit).mpr h)
  exact mul_le_mul_of_nonneg_right (by exact_mod_cast hround) hunit.le

theorem nearest_mono_pos {x y : ℚ} (hx : 0 < x) (h : x ≤ y) : nearest x ≤ nearest y := by
  have hy := lt_of_lt_of_le hx h
  have hlog := floorLog2_mono hx h
  have hxlast : lastDigit x = max (floorLog2 x - 52) (-1074) := by
    rw [lastDigit, abs_of_pos hx]
  have hylast : lastDigit y = max (floorLog2 y - 52) (-1074) := by
    rw [lastDigit, abs_of_pos hy]
  by_cases hsame : lastDigit x = lastDigit y
  · rw [nearest_of_nonneg hx.le, nearest_of_nonneg hy.le, hsame]
    have hunit := two_zpow_pos (lastDigit y)
    have hround := roundHalfEven_mono (div_le_div_of_nonneg_right h hunit.le)
    exact mul_le_mul_of_nonneg_right (by exact_mod_cast hround) hunit.le
  · -- the power of two at or below `y` is between them
    have hlast : lastDigit x ≤ floorLog2 y := by omega
    have hlast' : lastDigit y ≤ floorLog2 y := by omega
    have hbelow : x < 2 ^ floorLog2 y :=
      lt_of_lt_of_le (floorLog2_spec hx).2 (two_zpow_le (by omega))
    calc nearest x
        ≤ ((2 ^ (floorLog2 y - lastDigit x).toNat : ℤ) : ℚ) * 2 ^ lastDigit x :=
          nearest_le_mul hx.le (by rw [← two_zpow_eq_mul hlast]; exact hbelow.le)
      _ = ((2 ^ (floorLog2 y - lastDigit y).toNat : ℤ) : ℚ) * 2 ^ lastDigit y := by
          rw [← two_zpow_eq_mul hlast, ← two_zpow_eq_mul hlast']
      _ ≤ nearest y :=
          le_nearest_mul hy.le (by rw [← two_zpow_eq_mul hlast']; exact (floorLog2_spec hy).1)

theorem nearest_zero : nearest 0 = 0 := by
  have hneg := nearest_neg 0
  rw [neg_zero] at hneg
  linarith

theorem nearest_mono {x y : ℚ} (h : x ≤ y) : nearest x ≤ nearest y := by
  rcases lt_trichotomy x 0 with hx | rfl | hx
  · rcases lt_or_ge y 0 with hy | hy
    · have hpos := nearest_mono_pos (x := -y) (y := -x) (by linarith) (by linarith)
      rw [nearest_neg, nearest_neg] at hpos
      linarith
    · have hxneg := nearest_nonneg (q := -x) (by linarith)
      rw [nearest_neg] at hxneg
      linarith [nearest_nonneg hy]
  · rw [nearest_zero]
    exact nearest_nonneg h
  · exact nearest_mono_pos hx h

/-! ## The values that are `number`s -/

/-- At most 53 binary digits. -/
def Representable (r : ℚ) : Prop := ∃ m k : ℤ, |m| ≤ 2 ^ 53 ∧ -1074 ≤ k ∧ r = m * 2 ^ k

theorem nearest_representable {r : ℚ} (h : Representable r) : nearest r = r := by
  have hpos : ∀ x : ℚ, 0 < x → Representable x → nearest x = x := by
    rintro x hx ⟨m, k, hm, hk, hxm⟩
    have hspec := floorLog2_spec hx
    have hlast : lastDigit x = max (floorLog2 x - 52) (-1074) := by
      rw [lastDigit, abs_of_pos hx]
    obtain ⟨n, hn⟩ : ∃ n : ℤ, x = n * 2 ^ lastDigit x := by
      by_cases hcoarse : lastDigit x ≤ k
      · refine ⟨m * 2 ^ (k - lastDigit x).toNat, ?_⟩
        have hpower := two_zpow_eq_mul hcoarse
        push_cast at hpower ⊢
        rw [mul_assoc, ← hpower]
        exact hxm
      · -- too many digits, unless it is a power of two itself
        have hpower : x ≤ 2 ^ floorLog2 x := by
          calc x ≤ 2 ^ (53 : ℤ) * 2 ^ k := by
                rw [hxm]
                refine mul_le_mul_of_nonneg_right ?_ (two_zpow_pos k).le
                exact_mod_cast (le_abs_self m).trans hm
            _ = 2 ^ (53 + k) := by rw [zpow_add₀ (by norm_num)]
            _ ≤ 2 ^ floorLog2 x := two_zpow_le (by omega)
        have hle : lastDigit x ≤ floorLog2 x := by omega
        exact ⟨2 ^ (floorLog2 x - lastDigit x).toNat, by
          rw [← two_zpow_eq_mul hle]
          exact le_antisymm hpower hspec.1⟩
    refine le_antisymm ?_ ?_
    · have := nearest_le_mul hx.le hn.le
      rwa [← hn] at this
    · have := le_nearest_mul hx.le hn.ge
      rwa [← hn] at this
  rcases lt_trichotomy r 0 with hr | rfl | hr
  · obtain ⟨m, k, hm, hk, hrm⟩ := h
    have hneg := hpos (-r) (by linarith) ⟨-m, k, by rwa [abs_neg], hk, by rw [hrm]; push_cast; ring⟩
    rw [nearest_neg] at hneg
    linarith
  · exact nearest_zero
  · exact hpos r hr h

theorem representable_intCast {n : ℤ} (h : |n| ≤ 2 ^ 53) : Representable n :=
  ⟨n, 0, h, by decide, by simp⟩

theorem representable_two_zpow {e : ℤ} (h : -1074 ≤ e) : Representable (2 ^ e) :=
  ⟨1, e, by norm_num, h, by simp⟩

theorem nearest_intCast {n : ℤ} (h : |n| ≤ 2 ^ 53) : nearest n = n :=
  nearest_representable (representable_intCast h)

theorem le_nearest {q : ℚ} {n : ℤ} (hn : |n| ≤ 2 ^ 53) (h : (n : ℚ) ≤ q) : (n : ℚ) ≤ nearest q := by
  rw [← nearest_intCast hn]
  exact nearest_mono h

theorem nearest_le {q : ℚ} {n : ℤ} (hn : |n| ≤ 2 ^ 53) (h : q ≤ n) : nearest q ≤ n := by
  rw [← nearest_intCast hn]
  exact nearest_mono h

/-- A value that is not too large is rounded to the nearest one. -/
theorem roundDouble_eq {q : ℚ} (h : |q| ≤ 2 ^ 1000) : roundDouble q = .finite (nearest q) := by
  by_cases hzero : q = 0
  · rw [hzero, nearest_zero]
    exact if_pos rfl
  have hbound : nearest |q| ≤ 2 ^ 1000 := by
    have hrep : Representable ((2 : ℚ) ^ (1000 : ℤ)) := representable_two_zpow (by decide)
    have hmono := nearest_mono h
    rwa [← zpow_natCast, Nat.cast_ofNat, nearest_representable hrep] at hmono
  have habs : lastDigit |q| = lastDigit q := by rw [lastDigit, lastDigit, abs_abs]
  rw [nearest_of_nonneg (abs_nonneg q), habs] at hbound
  have hsmall : ¬(2 : ℚ) ^ 1024 ≤ roundHalfEven (|q| / 2 ^ lastDigit q) * 2 ^ lastDigit q := by
    rw [not_le]
    exact lt_of_le_of_lt hbound (pow_lt_pow_right₀ (by norm_num) (by decide))
  simp only [roundDouble, if_neg hzero]
  rw [← lastDigit, if_neg hsmall, nearest]

theorem abs_nearest (q : ℚ) : |nearest q| = nearest |q| := by
  rcases le_or_gt 0 q with hq | hq
  · rw [abs_of_nonneg hq, abs_of_nonneg (nearest_nonneg hq)]
  · have hneg := nearest_nonneg (q := -q) (by linarith)
    rw [nearest_neg] at hneg
    rw [abs_of_neg hq, nearest_neg, abs_of_nonpos (by linarith)]

theorem abs_nearest_le {q r : ℚ} (hr : Representable r) (h : |q| ≤ r) : |nearest q| ≤ r := by
  rw [abs_nearest, ← nearest_representable hr]
  exact nearest_mono h

theorem le_abs_nearest {q : ℚ} {n : ℤ} (hn : |n| ≤ 2 ^ 53) (h : n ≤ |q|) : n ≤ |nearest q| := by
  rw [abs_nearest]
  exact le_nearest hn h

/-! ## Arithmetic -/

namespace Double

/-- `a + b`. -/
def add : Double → Double → Double
  | finite a, finite b => roundDouble (a + b)
  | infinite s, infinite t => if s = t then infinite s else nan
  | infinite s, finite _ | finite _, infinite s => infinite s
  | nan, _ | _, nan => nan

/-- `a * c`, by a positive constant. -/
def times (a : Double) (c : ℚ) : Double :=
  match a with
  | finite a => roundDouble (a * c)
  | a => a

/-- `a / c`, by a positive constant. -/
def dividedBy (a : Double) (c : ℚ) : Double :=
  match a with
  | finite a => roundDouble (a / c)
  | a => a

end Double

/-! ## Rounding up to a whole number -/

/-- Below a positive whole number there is one point, a power of two away, from which on
values round up to it. -/
theorem exists_roundsUp {k : ℤ} (hk : 0 < k) (hk53 : k ≤ 2 ^ 53) :
    ∃ j : ℕ, ∀ z : ℚ, 0 < z → z < k →
      (k ≤ nearest z → (k : ℚ) - 1 / 2 ^ j ≤ z) ∧ (nearest z < k → z ≤ (k : ℚ) - 1 / 2 ^ j) := by
  have hone : (1 : ℚ) ≤ k := by exact_mod_cast hk
  obtain ⟨hlow, hhigh⟩ := floorLog2_spec (q := k - 1 / 2) (by linarith)
  -- the last digits just below `k` are those below the power of two at or above it
  generalize floorLog2 (k - 1 / 2) = e at hlow hhigh
  have he : -1 ≤ e := by
    have hhalf : (2 : ℚ) ^ (-1 : ℤ) < 2 ^ (e + 1) :=
      lt_of_le_of_lt (by rw [zpow_neg_one]; linarith) hhigh
    have := lt_of_two_zpow_lt hhalf
    omega
  have he52 : e ≤ 52 := by
    have hlt : (2 : ℚ) ^ e < 2 ^ (53 : ℤ) := by
      have hcast : (k : ℚ) ≤ 2 ^ (53 : ℤ) := by exact_mod_cast hk53
      linarith
    have := lt_of_two_zpow_lt hlt
    omega
  have htop : (k : ℚ) ≤ 2 ^ (e + 1) := by
    have hint : (2 : ℚ) ^ (e + 1) = ((2 ^ (e + 1).toNat : ℤ) : ℚ) := by
      rw [two_zpow_eq_mul (a := 0) (by omega), zpow_zero, mul_one, sub_zero]
    rw [hint] at hhigh ⊢
    have hlt : ((k - 1 : ℤ) : ℚ) < ((2 ^ (e + 1).toNat : ℤ) : ℚ) := by
      push_cast at hhigh ⊢
      linarith
    have hlt' : k - 1 < 2 ^ (e + 1).toNat := by exact_mod_cast hlt
    exact_mod_cast (by omega : k ≤ 2 ^ (e + 1).toNat)
  have hj : (1 : ℚ) / 2 ^ (53 - e).toNat = 2 ^ (e - 52) / 2 := by
    rw [← zpow_natCast, Int.toNat_of_nonneg (by omega), one_div, ← zpow_neg,
      show -(53 - e) = e - 52 - 1 by ring, zpow_sub_one₀ (by norm_num), div_eq_mul_inv]
  refine ⟨(53 - e).toNat, fun z hz hzk => ?_⟩
  rw [hj]
  have hunit := two_zpow_pos (e - 52)
  rcases lt_or_ge z (2 ^ e) with hsmall | hlarge
  · have hpower : nearest z ≤ 2 ^ e := by
      rw [← nearest_representable (representable_two_zpow (by omega : -1074 ≤ e))]
      exact nearest_mono hsmall.le
    have hhalf : (2 : ℚ) ^ (e - 52) ≤ 1 := by
      have := two_zpow_le (a := e - 52) (b := 0) (by omega)
      rwa [zpow_zero] at this
    exact ⟨fun h => by linarith, fun _ => by linarith⟩
  · have hlog : floorLog2 z = e := floorLog2_eq hlarge (lt_of_lt_of_le hzk htop)
    have hlast : lastDigit z = e - 52 := by
      rw [lastDigit, abs_of_pos hz, hlog]
      omega
    have hwhole : (k : ℚ) = ((k * 2 ^ (52 - e).toNat : ℤ) : ℚ) * 2 ^ (e - 52) := by
      have hpower := two_zpow_eq_mul (a := e - 52) (b := 0) (by omega)
      rw [zpow_zero, show (0 : ℤ) - (e - 52) = 52 - e by ring] at hpower
      push_cast at hpower ⊢
      rw [mul_assoc, ← hpower, mul_one]
    have hdiv : z = z / 2 ^ (e - 52) * 2 ^ (e - 52) := (div_mul_cancel₀ _ hunit.ne').symm
    rw [nearest_of_nonneg hz.le, hlast]
    generalize k * 2 ^ (52 - e).toNat = n at hwhole
    constructor
    · intro h
      rw [hwhole] at h
      have hle : n ≤ roundHalfEven (z / 2 ^ (e - 52)) := by
        exact_mod_cast le_of_mul_le_mul_right h hunit
      have hmul := mul_le_mul_of_nonneg_right (le_of_le_roundHalfEven hle) hunit.le
      rw [sub_mul, ← hwhole, ← hdiv] at hmul
      linarith
    · intro h
      rw [hwhole] at h
      have hlt : roundHalfEven (z / 2 ^ (e - 52)) < n := by
        exact_mod_cast lt_of_mul_lt_mul_right h hunit.le
      have hmul := mul_le_mul_of_nonneg_right (le_of_roundHalfEven_lt hlt) hunit.le
      rw [sub_mul, ← hwhole, ← hdiv] at hmul
      linarith

end GatewayConsole
