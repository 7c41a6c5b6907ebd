import Mathlib.Data.List.Perm.Basic
import Mathlib.Data.List.Pairwise

/-!
# The newest entries of a list

`ORDER BY key DESC LIMIT n`, as a relation: `IsNewest key n xs out` says that
`out` is the first `n` entries of some arrangement of `xs` by decreasing key.
Ties may fall either way, so a list has several such `out`; what they share is
below. `Ranking` is one way of arranging every list.
-/

namespace GatewayConsole

variable {α : Type*} {key : α → Int} {n : Nat} {xs out : List α}

/-- `out` is the `n` entries of `xs` with the greatest keys, in decreasing order. -/
def IsNewest (key : α → Int) (n : Nat) (xs out : List α) : Prop :=
  ∃ ys : List α, ys.Perm xs ∧ ys.Pairwise (fun a b => key b ≤ key a) ∧ out = ys.take n

/-- A way of arranging lists by decreasing key. -/
structure Ranking (α : Type*) (key : α → Int) where
  sort : List α → List α
  perm : ∀ xs, (sort xs).Perm xs
  sorted : ∀ xs, (sort xs).Pairwise fun a b => key b ≤ key a

theorem Ranking.isNewest (r : Ranking α key) (n : Nat) (xs : List α) :
    IsNewest key n xs ((r.sort xs).take n) :=
  ⟨r.sort xs, r.perm xs, r.sorted xs, rfl⟩

/-- Merge sort is one: among equal keys it keeps the order of the list. -/
def Ranking.merge (key : α → Int) : Ranking α key where
  sort xs := xs.mergeSort fun a b => decide (key b ≤ key a)
  perm xs := List.mergeSort_perm xs _
  sorted xs := by
    have h : (xs.mergeSort fun a b => decide (key b ≤ key a)).Pairwise
        fun a b => decide (key b ≤ key a) = true :=
      List.pairwise_mergeSort
        (fun a b c hab hbc => by
          simp only [decide_eq_true_eq] at *
          omega)
        (fun a b => by
          simp only [Bool.or_eq_true, decide_eq_true_eq]
          omega) xs
    exact h.imp fun hab => of_decide_eq_true hab

namespace IsNewest

theorem length (h : IsNewest key n xs out) : out.length = min n xs.length := by
  obtain ⟨ys, hperm, -, rfl⟩ := h
  rw [List.length_take, hperm.length_eq]

theorem nil_iff (hn : 0 < n) (h : IsNewest key n xs out) : out = [] ↔ xs = [] := by
  rw [← List.length_eq_zero_iff, ← List.length_eq_zero_iff, h.length]
  omega

theorem of_nil : IsNewest key n ([] : List α) [] :=
  ⟨[], List.Perm.refl _, List.Pairwise.nil, by simp⟩

/-- The first entry has the greatest key of all. -/
theorem head_max {a : α} (h : IsNewest key n xs out) (ha : out.head? = some a) :
    a ∈ xs ∧ ∀ b ∈ xs, key b ≤ key a := by
  obtain ⟨ys, hperm, hsort, rfl⟩ := h
  cases ys with
  | nil => simp at ha
  | cons y ys =>
      cases n with
      | zero => simp at ha
      | succ n =>
          obtain rfl : y = a := by simpa using ha
          refine ⟨hperm.mem_iff.mp (List.mem_cons_self ..), fun b hb => ?_⟩
          rcases List.mem_cons.mp (hperm.mem_iff.mpr hb) with rfl | hb'
          · exact Int.le_refl _
          · exact (List.pairwise_cons.mp hsort).1 b hb'

end IsNewest

end GatewayConsole
