import Mathlib.Algebra.BigOperators.Group.List.Basic
import Mathlib.Tactic.Ring

/-!
# The Gregorian calendar

Days are numbered from the first one of 1970, in both directions and without an end. A day
has one date (`dateOfDay`) and a date one day (`dayOfDate`): `dayOfDate_dateOfDay` and
`dateOfDay_dayOfDate`.

The first days of the years are in a closed form, from which the year of a day is known up to
one. A day of a year is found in its months as a position in their concatenation
(`locate`).
-/

namespace GatewayConsole

/-! ## A position in pieces laid end to end -/

/-- The piece that a position is in, and the position in that piece. -/
def locate : List Nat → Nat → Option (Nat × Nat)
  | [], _ => none
  | len :: lens, n =>
      if n < len then some (0, n)
      else (locate lens (n - len)).map fun (i, r) => (i + 1, r)

theorem locate_isSome {lens : List Nat} {n : Nat} (h : n < lens.sum) :
    ∃ i r, locate lens n = some (i, r) := by
  induction lens generalizing n with
  | nil => cases h
  | cons len lens ih =>
      rw [List.sum_cons] at h
      by_cases hn : n < len
      · exact ⟨0, n, if_pos hn⟩
      · obtain ⟨i, r, hir⟩ := ih (n := n - len) (by omega)
        exact ⟨i + 1, r, by rw [locate, if_neg hn, hir]; rfl⟩

theorem locate_cons_succ {len : Nat} {lens : List Nat} {n i r : Nat} :
    locate (len :: lens) n = some (i + 1, r)
      ↔ ¬n < len ∧ locate lens (n - len) = some (i, r) := by
  rw [locate]
  split
  · next hn => simp [hn]
  · next hn =>
      rw [Option.map_eq_some_iff]
      constructor
      · rintro ⟨⟨j, r'⟩, hj, heq⟩
        obtain ⟨hji, rfl⟩ := Prod.mk.inj heq
        exact ⟨hn, Nat.succ.inj hji ▸ hj⟩
      · rintro ⟨-, hi⟩
        exact ⟨(i, r), hi, rfl⟩

theorem locate_cons_zero {len : Nat} {lens : List Nat} {n r : Nat} :
    locate (len :: lens) n = some (0, r) ↔ n < len ∧ r = n := by
  rw [locate]
  split
  · next hn => simp [hn, eq_comm]
  · next hn =>
      simp only [hn, false_and, iff_false]
      intro h
      obtain ⟨_, _, heq⟩ := Option.map_eq_some_iff.mp h
      cases heq

/-- The position is behind the pieces before, and within its own. -/
theorem locate_eq_some_iff {lens : List Nat} {n i r : Nat} :
    locate lens n = some (i, r)
      ↔ (lens.take i).sum + r = n ∧ ∃ len, lens[i]? = some len ∧ r < len := by
  induction lens generalizing n i with
  | nil => simp [locate]
  | cons len lens ih =>
      cases i with
      | zero =>
          rw [locate_cons_zero]
          constructor
          · rintro ⟨hn, rfl⟩
            exact ⟨Nat.zero_add _, len, rfl, hn⟩
          · rintro ⟨hsum, len', hlen, hr⟩
            obtain rfl := Option.some.inj hlen
            obtain rfl : r = n := (Nat.zero_add r).symm.trans hsum
            exact ⟨hr, rfl⟩
      | succ i =>
          rw [locate_cons_succ, ih, List.take_succ_cons, List.sum_cons, List.getElem?_cons_succ]
          constructor
          · rintro ⟨hn, hsum, hlen⟩
            exact ⟨by omega, hlen⟩
          · rintro ⟨hsum, hlen⟩
            exact ⟨by omega, by omega, hlen⟩

theorem lt_sum_of_locate {lens : List Nat} {n i r : Nat} (h : locate lens n = some (i, r)) :
    n < lens.sum := by
  obtain ⟨hsum, len, hlen, hr⟩ := locate_eq_some_iff.mp h
  have hsplit := List.sum_take_add_sum_drop lens i
  obtain ⟨hi, rfl⟩ := List.getElem?_eq_some_iff.mp hlen
  rw [List.drop_eq_getElem_cons hi, List.sum_cons] at hsplit
  omega

/-! ## Years -/

def IsLeap (y : Int) : Prop := y % 4 = 0 ∧ (y % 100 ≠ 0 ∨ y % 400 = 0)

instance (y : Int) : Decidable (IsLeap y) := inferInstanceAs (Decidable (_ ∧ _))

def daysInYear (y : Int) : Nat := if IsLeap y then 366 else 365

/-- The first day of a year. -/
def dayFromYear (y : Int) : Int :=
  365 * (y - 1970) + (y - 1969) / 4 - (y - 1901) / 100 + (y - 1601) / 400

theorem dayFromYear_succ (y : Int) : dayFromYear (y + 1) = dayFromYear y + daysInYear y := by
  unfold dayFromYear daysInYear
  by_cases h : IsLeap y
  · rw [if_pos h]
    unfold IsLeap at h
    omega
  · rw [if_neg h]
    unfold IsLeap at h
    omega

/-- 400 years have 146097 days, and the first day of a year is no more than two days off from
where it would be if all years were of the same length. -/
theorem dayFromYear_near (y : Int) :
    146097 * (y - 1970) - 600 ≤ 400 * dayFromYear y
      ∧ 400 * dayFromYear y ≤ 146097 * (y - 1970) + 600 := by
  unfold dayFromYear
  omega

def yearOfDay (d : Int) : Int :=
  let y := 1970 + 400 * d / 146097
  if d < dayFromYear y then y - 1
  else if dayFromYear (y + 1) ≤ d then y + 1
  else y

theorem yearOfDay_spec (d : Int) :
    dayFromYear (yearOfDay d) ≤ d ∧ d < dayFromYear (yearOfDay d + 1) := by
  have hmean := Int.mul_ediv_add_emod (400 * d) 146097
  have hlt := Int.emod_lt_of_pos (400 * d) (b := 146097) (by decide)
  have hnonneg := Int.emod_nonneg (400 * d) (b := 146097) (by decide)
  unfold yearOfDay
  generalize hy : 1970 + 400 * d / 146097 = y
  dsimp only
  split
  · next hbefore =>
      have hnear := dayFromYear_near (y - 1)
      rw [sub_add_cancel]
      omega
  · split
    · next hafter =>
        have hnear := dayFromYear_near (y + 1 + 1)
        omega
    · omega

theorem dayFromYear_mono {y z : Int} (h : y ≤ z) : dayFromYear y ≤ dayFromYear z := by
  unfold dayFromYear
  omega

/-- The years follow each other. -/
theorem eq_yearOfDay {y d : Int} (hle : dayFromYear y ≤ d) (hlt : d < dayFromYear (y + 1)) :
    y = yearOfDay d := by
  obtain ⟨hle', hlt'⟩ := yearOfDay_spec d
  rcases lt_trichotomy y (yearOfDay d) with h | h | h
  · have := dayFromYear_mono (Int.add_one_le_of_lt h)
    omega
  · exact h
  · have := dayFromYear_mono (Int.add_one_le_of_lt h)
    omega

/-! ## Dates -/

def monthLengths (y : Int) : List Nat :=
  [31, if IsLeap y then 29 else 28, 31, 30, 31, 30, 31, 31, 30, 31, 30, 31]

theorem sum_monthLengths (y : Int) : (monthLengths y).sum = daysInYear y := by
  unfold monthLengths daysInYear
  split <;> rfl

/-- A day of a month of a year, both counted from one. -/
@[ext] structure Date where
  year : Int
  month : Nat
  day : Nat
  month_pos : 0 < month
  day_pos : 0 < day
  day_le : ∃ len, (monthLengths year)[month - 1]? = some len ∧ day ≤ len
deriving DecidableEq

theorem Date.month_le (date : Date) : date.month ≤ 12 := by
  obtain ⟨len, hlen, -⟩ := date.day_le
  have hlt := (List.getElem?_eq_some_iff.mp hlen).1
  have hpos := date.month_pos
  simp only [monthLengths, List.length_cons, List.length_nil] at hlt
  omega

theorem Date.day_le_31 (date : Date) : date.day ≤ 31 := by
  obtain ⟨len, hlen, hle⟩ := date.day_le
  have hmem := List.mem_of_getElem? hlen
  have hlong : ∀ len ∈ monthLengths date.year, len ≤ 31 := by
    unfold monthLengths
    split <;> decide
  exact Nat.le_trans hle (hlong len hmem)

def dayOfDate (date : Date) : Int :=
  dayFromYear date.year + ((monthLengths date.year).take (date.month - 1)).sum + (date.day - 1)

/-- The day within its year. -/
def dayWithinYear (d : Int) : Nat := (d - dayFromYear (yearOfDay d)).toNat

theorem dayWithinYear_eq (d : Int) : dayFromYear (yearOfDay d) + dayWithinYear d = d := by
  have := (yearOfDay_spec d).1
  unfold dayWithinYear
  omega

theorem dayWithinYear_lt (d : Int) : dayWithinYear d < (monthLengths (yearOfDay d)).sum := by
  obtain ⟨-, hlt⟩ := yearOfDay_spec d
  rw [dayFromYear_succ] at hlt
  have := dayWithinYear_eq d
  rw [sum_monthLengths]
  omega

def dateOfDay (d : Int) : Date :=
  match h : locate (monthLengths (yearOfDay d)) (dayWithinYear d) with
  | some (month, day) =>
      { year := yearOfDay d
        month := month + 1
        day := day + 1
        month_pos := Nat.succ_pos month
        day_pos := Nat.succ_pos day
        day_le := (locate_eq_some_iff.mp h).2 }
  | none =>
      have hsome := locate_isSome (dayWithinYear_lt d)
      absurd hsome (by simp [h])

theorem dateOfDay_eq {d : Int} {month day : Nat}
    (h : locate (monthLengths (yearOfDay d)) (dayWithinYear d) = some (month, day)) :
    (dateOfDay d).year = yearOfDay d ∧ (dateOfDay d).month = month + 1
      ∧ (dateOfDay d).day = day + 1 := by
  unfold dateOfDay
  split
  · next hsome =>
      obtain ⟨rfl, rfl⟩ := Prod.mk.inj (Option.some.inj (hsome.symm.trans h))
      exact ⟨rfl, rfl, rfl⟩
  · next hnone =>
      rw [hnone] at h
      cases h

theorem dayOfDate_dateOfDay (d : Int) : dayOfDate (dateOfDay d) = d := by
  obtain ⟨month, day, h⟩ := locate_isSome (dayWithinYear_lt d)
  obtain ⟨hyear, hmonth, hday⟩ := dateOfDay_eq h
  have hsum := (locate_eq_some_iff.mp h).1
  have hwithin := dayWithinYear_eq d
  unfold dayOfDate
  rw [hyear, hmonth, hday, Nat.add_sub_cancel]
  omega

theorem dateOfDay_dayOfDate (date : Date) : dateOfDay (dayOfDate date) = date := by
  have hmonth := date.month_pos
  have hday := date.day_pos
  obtain ⟨len, hlen, hle⟩ := date.day_le
  have hlocate : locate (monthLengths date.year)
      (((monthLengths date.year).take (date.month - 1)).sum + (date.day - 1))
        = some (date.month - 1, date.day - 1) :=
    locate_eq_some_iff.mpr ⟨rfl, len, hlen, by omega⟩
  have hlt := lt_sum_of_locate hlocate
  rw [sum_monthLengths] at hlt
  have hyear : date.year = yearOfDay (dayOfDate date) := by
    refine eq_yearOfDay ?_ ?_
    · unfold dayOfDate
      omega
    · rw [dayFromYear_succ]
      unfold dayOfDate
      omega
  have hwithin : dayWithinYear (dayOfDate date)
      = ((monthLengths date.year).take (date.month - 1)).sum + (date.day - 1) := by
    unfold dayWithinYear
    rw [← hyear]
    unfold dayOfDate
    omega
  rw [← hwithin, hyear] at hlocate
  obtain ⟨h₁, h₂, h₃⟩ := dateOfDay_eq hlocate
  refine Date.ext (h₁.trans hyear.symm) ?_ ?_
  · rw [h₂]
    omega
  · rw [h₃]
    omega

end GatewayConsole
