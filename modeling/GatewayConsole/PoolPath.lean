import GatewayConsole.Orbit
import GatewayConsole.PoolWalk

/-!
# What the pool walk returns of a pool that stays as it is

The pointers of the pool need not be a list: from the first address they may run in a circle,
with or without a tail, or on for ever. `listPool_exact` says for all of them what the walk
comes back with. It is the path to the zero address, if that is within the safety limit, and
otherwise the error of the limit.
-/

namespace GatewayConsole

/-- What the BondingManager answers, whenever it is asked. -/
structure FrozenPool where
  first : String
  next : String → String
  delegatedAmount : String → Nat

namespace FrozenPool

def reads (p : FrozenPool) : PoolReads where
  getFirstTranscoderInPool _ := .ok p.first
  getDelegator _ a := .ok (p.delegatedAmount a)
  getNextTranscoderInPool _ a := .ok (p.next a)

def entry (p : FrozenPool) (a : String) : BondingPoolEntry where
  address := a
  totalStakeWei := toString (p.delegatedAmount a)

section Walk

variable [Unicode]

/-- The zero address, in any spelling. -/
def IsZero (a : String) : Prop := toLowerCase a = zeroAddress

/-- Following `next` from `first` reaches the zero address after `k` members. -/
def EndsAfter (p : FrozenPool) (k : Nat) : Prop := StopsAfter p.next IsZero p.first k

/-- `next` goes by the address and not by its spelling. -/
def NextOfAddress (p : FrozenPool) : Prop :=
  ∀ a b, toLowerCase a = toLowerCase b → toLowerCase (p.next a) = toLowerCase (p.next b)

/-- The walk from an address whose path ends within the steps that are left. -/
theorem poolWalk_of_stops {p : FrozenPool} :
    ∀ {k left : Nat} (n : Nat) {addr : String} (out : List BondingPoolEntry),
      StopsAfter p.next IsZero addr k → k ≤ left →
      poolWalk p.reads left n addr out = .ok (out ++ (List.iterate p.next addr k).map p.entry)
  | 0, left, n, addr, out, hstops, _ => by
      have hzero : IsZero addr := stopsAfter_zero.mp hstops
      have heq : toLowerCase addr = zeroAddress := hzero
      unfold poolWalk
      rw [if_pos heq, List.iterate, List.map_nil, List.append_nil]
  | k + 1, 0, _, _, _, _, hleft => absurd hleft (Nat.not_succ_le_zero k)
  | k + 1, left + 1, n, addr, out, hstops, hleft => by
      obtain ⟨hzero, hrest⟩ := stopsAfter_succ.mp hstops
      have hwalk := poolWalk_of_stops (n + 2) (out ++ [p.entry addr]) hrest
        (Nat.le_of_succ_le_succ hleft)
      rw [List.append_assoc] at hwalk
      have hne : toLowerCase addr ≠ zeroAddress := hzero
      unfold poolWalk
      rw [if_neg hne]
      exact hwalk

/-- The walk from an address whose path does not. -/
theorem poolWalk_exceeded {p : FrozenPool} :
    ∀ {left : Nat} (n : Nat) {addr : String} (out : List BondingPoolEntry),
      (∀ k ≤ left, ¬StopsAfter p.next IsZero addr k) →
      poolWalk p.reads left n addr out = .error poolWalkExceeded
  | 0, n, addr, out, hnone => by
      have hne : toLowerCase addr ≠ zeroAddress := fun hzero =>
        hnone 0 (Nat.le_refl 0) (stopsAfter_zero.mpr hzero)
      unfold poolWalk
      rw [if_neg hne]
  | left + 1, n, addr, out, hnone => by
      have hne : toLowerCase addr ≠ zeroAddress := fun hzero =>
        hnone 0 (Nat.zero_le _) (stopsAfter_zero.mpr hzero)
      have hwalk := poolWalk_exceeded (n + 2) (out ++ [p.entry addr]) fun k hk hstops =>
        hnone (k + 1) (Nat.succ_le_succ hk) (stopsAfter_succ.mpr ⟨hne, hstops⟩)
      unfold poolWalk
      rw [if_neg hne]
      exact hwalk

/-- The walk of a pool that does not change. -/
structure WalkExact (p : FrozenPool) (result : Except String (List BondingPoolEntry)) :
    Prop where
  returns : ∀ out, result = .ok out ↔
    ∃ k ≤ poolWalkSafetyLimit, p.EndsAfter k ∧ out = (List.iterate p.next p.first k).map p.entry
  throws : (∀ k ≤ poolWalkSafetyLimit, ¬p.EndsAfter k) → result = .error poolWalkExceeded
  once : ∀ out, result = .ok out → (out.map (·.address)).Nodup
  onceInAnySpelling : p.NextOfAddress → ∀ out, result = .ok out →
    (out.map fun e => toLowerCase e.address).Nodup

/-- **The walk is exact.** It returns a list exactly when the path from the first address
reaches the zero address after at most `poolWalkSafetyLimit` members. The list is that path,
each address with its stake and none twice; in every other case the walk throws. -/
theorem listPool_exact (p : FrozenPool) : p.WalkExact (bondingManagerListPool p.reads) := by
  have hwalk : bondingManagerListPool p.reads
      = poolWalk p.reads poolWalkSafetyLimit 1 p.first [] := rfl
  have hthrows : (∀ k ≤ poolWalkSafetyLimit, ¬p.EndsAfter k) →
      bondingManagerListPool p.reads = .error poolWalkExceeded := fun hnone =>
    hwalk.trans (poolWalk_exceeded 1 [] hnone)
  have hreturns : ∀ out, bondingManagerListPool p.reads = .ok out ↔
      ∃ k ≤ poolWalkSafetyLimit, p.EndsAfter k
        ∧ out = (List.iterate p.next p.first k).map p.entry := by
    intro out
    constructor
    · intro h
      by_cases hends : ∃ k ≤ poolWalkSafetyLimit, p.EndsAfter k
      · obtain ⟨k, hk, hstops⟩ := hends
        rw [hwalk, poolWalk_of_stops 1 [] hstops hk] at h
        exact ⟨k, hk, hstops, (Except.ok.inj h).symm⟩
      · rw [hthrows fun k hk hstops => hends ⟨k, hk, hstops⟩] at h
        cases h
    · rintro ⟨k, hk, hstops, rfl⟩
      exact hwalk.trans (poolWalk_of_stops 1 [] hstops hk)
  have haddresses : ∀ k, ((List.iterate p.next p.first k).map p.entry).map (·.address)
      = List.iterate p.next p.first k := fun k => by
    rw [List.map_map]
    exact List.map_id _
  refine ⟨hreturns, hthrows, fun out h => ?_, fun hnext out h => ?_⟩
  · obtain ⟨k, -, hstops, rfl⟩ := (hreturns out).mp h
    have hnodup : ((List.iterate p.next p.first k).map id).Nodup :=
      hstops.nodup (fun _ _ heq => congrArg p.next heq) fun a b heq hzero => by
        rwa [← show a = b from heq]
    rwa [haddresses, ← List.map_id (List.iterate p.next p.first k)]
  · obtain ⟨k, -, hstops, rfl⟩ := (hreturns out).mp h
    have hspelled : ((List.iterate p.next p.first k).map p.entry).map
        (fun e => toLowerCase e.address)
        = (List.iterate p.next p.first k).map toLowerCase := by
      rw [List.map_map]
      rfl
    rw [hspelled]
    exact hstops.nodup hnext fun _ _ h hzero => h.symm.trans hzero

end Walk

end FrozenPool

end GatewayConsole
