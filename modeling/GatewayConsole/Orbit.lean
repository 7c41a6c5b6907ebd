import Mathlib.Data.List.Iterate
import Mathlib.Data.List.Nodup

/-!
# Following a function until it stops

The path from `a` by `f` up to the first place where `stop` holds, if there is one. A path
that ends visits no place twice: from a place visited twice the rest of the path would be
shorter than itself. That holds of places counted by a `key`, too, as long as `f` and `stop`
go by the key.
-/

namespace GatewayConsole

variable {α β : Type*} {f : α → α} {stop : α → Prop} {a : α}

/-- The first place from `a` on where `stop` holds is `k` steps away. -/
def StopsAfter (f : α → α) (stop : α → Prop) (a : α) (k : Nat) : Prop :=
  (∀ i < k, ¬stop (f^[i] a)) ∧ stop (f^[k] a)

@[simp] theorem stopsAfter_zero : StopsAfter f stop a 0 ↔ stop a := by
  simp [StopsAfter]

theorem stopsAfter_succ {k : Nat} :
    StopsAfter f stop a (k + 1) ↔ ¬stop a ∧ StopsAfter f stop (f a) k := by
  constructor
  · rintro ⟨hbefore, hstop⟩
    exact ⟨hbefore 0 (Nat.succ_pos k), fun i hi => hbefore (i + 1) (Nat.succ_lt_succ hi), hstop⟩
  · rintro ⟨ha, hbefore, hstop⟩
    refine ⟨fun i hi => ?_, hstop⟩
    cases i with
    | zero => exact ha
    | succ i => exact hbefore i (Nat.lt_of_succ_lt_succ hi)

/-- Places of one key have successors of one key. -/
theorem key_iterate {key : α → β} (hkey : ∀ x y, key x = key y → key (f x) = key (f y)) {x y : α}
    (h : key x = key y) : ∀ n, key (f^[n] x) = key (f^[n] y)
  | 0 => h
  | n + 1 => by
      rw [Function.iterate_succ_apply', Function.iterate_succ_apply']
      exact hkey _ _ (key_iterate hkey h n)

/-- A path that ends visits no key twice. -/
theorem StopsAfter.nodup {key : α → β} {k : Nat} (h : StopsAfter f stop a k)
    (hkey : ∀ x y, key x = key y → key (f x) = key (f y))
    (hstop : ∀ x y, key x = key y → stop x → stop y) :
    ((List.iterate f a k).map key).Nodup := by
  have hne : ∀ i j, i < j → j < k → key (f^[i] a) ≠ key (f^[j] a) := by
    intro i j hij hjk heq
    have hend := key_iterate hkey heq (k - j)
    rw [← Function.iterate_add_apply, ← Function.iterate_add_apply,
      Nat.sub_add_cancel (Nat.le_of_lt hjk)] at hend
    exact h.1 (k - j + i) (by omega) (hstop _ _ hend.symm h.2)
  rw [← List.range_map_iterate, List.map_map, List.nodup_map_iff_inj_on List.nodup_range]
  intro i hi j hj heq
  have hik := List.mem_range.mp hi
  have hjk := List.mem_range.mp hj
  rcases Nat.lt_trichotomy i j with hlt | rfl | hgt
  · exact absurd heq (hne i j hlt hjk)
  · rfl
  · exact absurd heq.symm (hne j i hgt hik)

end GatewayConsole
