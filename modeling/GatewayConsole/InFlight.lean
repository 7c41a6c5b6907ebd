import Mathlib.Algebra.Group.Action.Defs
import Mathlib.Tactic.Ring
import Mathlib.Algebra.Order.BigOperators.Group.List
import Mathlib.Data.List.Perm.Basic

/-!
# Calls in flight

A component awaits calls that settle in any order: a list that a call joins at the end and
leaves from any place.

- `Flags p calls flag`: the flag is up for one call of the kind `p` in flight, and down for
  none. This is how a component keeps to one call of a kind at a time.
- `weight w calls`: how many settlements the calls in flight may still come to, when a call
  that settles may be followed by lighter ones.
-/

namespace GatewayConsole

namespace InFlight

variable {α : Type*} {calls : List α} {i : Nat} {call : α}

theorem perm (h : calls[i]? = some call) : calls.Perm (call :: calls.eraseIdx i) := by
  obtain ⟨hi, rfl⟩ := List.getElem?_eq_some_iff.mp h
  exact (List.getElem_cons_eraseIdx_perm hi).symm

/-- What is in flight besides the call that settles. -/
theorem mem_eraseIdx (h : calls[i]? = some call) {other : α} (hne : other ≠ call)
    (hmem : other ∈ calls) : other ∈ calls.eraseIdx i :=
  (List.mem_cons.mp ((perm h).mem_iff.mp hmem)).resolve_left hne

theorem countP_eq (h : calls[i]? = some call) (p : α → Bool) :
    calls.countP p = (calls.eraseIdx i).countP p + if p call then 1 else 0 := by
  rw [(perm h).countP_eq, List.countP_cons]

/-! ## Flags -/

/-- The flag is up exactly for one call of the kind. -/
def Flags (p : α → Bool) (calls : List α) (flag : Bool) : Prop :=
  calls.countP p = if flag then 1 else 0

namespace Flags

variable {p : α → Bool} {flag : Bool}

theorem none (p : α → Bool) : Flags p ([] : List α) false := rfl

theorem raise (h : Flags p calls false) (hp : p call = true) : Flags p (calls ++ [call]) true := by
  have hzero : calls.countP p = 0 := h
  rw [Flags, List.countP_append, List.countP_singleton, hzero, hp]
  rfl

/-- A call of another kind. -/
theorem add (h : Flags p calls flag) (hp : p call = false) : Flags p (calls ++ [call]) flag := by
  rw [Flags, List.countP_append, List.countP_singleton, hp, h]
  rfl

/-- The call of the kind settles, and it was the only one. -/
theorem lower (h : Flags p calls flag) (hcall : calls[i]? = some call) (hp : p call = true) :
    flag = true ∧ Flags p (calls.eraseIdx i) false := by
  have hcount := countP_eq hcall p
  rw [h, hp, if_pos rfl] at hcount
  cases flag with
  | true =>
      refine ⟨rfl, ?_⟩
      show (calls.eraseIdx i).countP p = 0
      rw [if_pos rfl] at hcount
      omega
  | false =>
      rw [if_neg Bool.false_ne_true] at hcount
      omega

/-- A call of another kind settles. -/
theorem settle (h : Flags p calls flag) (hcall : calls[i]? = some call) (hp : p call = false) :
    Flags p (calls.eraseIdx i) flag := by
  have hcount := countP_eq hcall p
  rw [h, hp, if_neg Bool.false_ne_true] at hcount
  exact hcount.symm

theorem down (h : Flags p ([] : List α) flag) : flag = false := by
  cases flag with
  | false => rfl
  | true => cases h

end Flags

/-! ## Weights -/

def weight (w : α → Nat) (calls : List α) : Nat := (calls.map w).sum

variable {w : α → Nat}

theorem weight_snoc (w : α → Nat) (calls : List α) (call : α) :
    weight w (calls ++ [call]) = weight w calls + w call := by
  simp [weight]

theorem weight_eraseIdx (h : calls[i]? = some call) :
    weight w calls = w call + weight w (calls.eraseIdx i) := by
  rw [weight, ((perm h).map w).sum_eq, List.map_cons, List.sum_cons, weight]

theorem weight_le {n : Nat} (hw : ∀ call, w call ≤ n) (calls : List α) :
    weight w calls ≤ n * calls.length := by
  have hle : ∀ m ∈ calls.map w, m ≤ n := by
    intro m hm
    obtain ⟨call, -, rfl⟩ := List.mem_map.mp hm
    exact hw call
  have hsum := List.sum_le_card_nsmul _ n hle
  rw [List.length_map, smul_eq_mul, Nat.mul_comm] at hsum
  exact hsum

end InFlight

end GatewayConsole
