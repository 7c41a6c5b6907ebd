import Mathlib.Data.List.Basic
import Mathlib.Logic.Relation

/-!
# A search through a graph

A walk depth first from a node, which marks the nodes it has been to, does not enter one of
them again, and stops for good at the first one it is looking for. The test of a node may
throw.

`walk` gets fuel for the depth. In a finite graph there is enough when it is more than there
are nodes, and then the walk finds what can be reached: `walk_found_iff`. What carries the
induction is that the nodes marked by a walk that has found nothing lead to marked nodes only
(`Walked`).
-/

namespace GatewayConsole

namespace Explore

variable {α : Type*} (next : α → List α) (hit : α → Option Bool)

/-- There is a path. -/
abbrev Reaches : α → α → Prop := Relation.ReflTransGen fun a b => b ∈ next a

variable {next} in
theorem Reaches.mem {nodes : List α} (hclosed : ∀ n ∈ nodes, next n ⊆ nodes) {start n : α}
    (hstart : start ∈ nodes) (h : Reaches next start n) : n ∈ nodes := by
  induction h with
  | refl => exact hstart
  | tail _ hn ih => exact hclosed _ ih hn

structure Search (α : Type*) where
  found : Bool := false
  seen : List α := []

/-- What a walk makes of `s`. -/
structure Walked (s t : Search α) : Prop where
  seen : s.seen ⊆ t.seen
  found : t.found = false → s.found = false
  closed : t.found = false → ∀ m ∈ t.seen, m ∉ s.seen →
    hit m = some false ∧ ∀ k ∈ next m, k ∈ t.seen

variable {next hit}

theorem Walked.refl (s : Search α) : Walked next hit s s :=
  ⟨List.Subset.refl _, id, fun _ _ hm hnot => absurd hm hnot⟩

theorem Walked.trans {s t u : Search α} (h : Walked next hit s t) (h' : Walked next hit t u) :
    Walked next hit s u where
  seen _ hm := h'.seen (h.seen hm)
  found hf := h.found (h'.found hf)
  closed hf m hm hnew := by
    by_cases hmt : m ∈ t.seen
    · obtain ⟨hmiss, hnext⟩ := h.closed (h'.found hf) m hmt hnew
      exact ⟨hmiss, fun k hk => h'.seen (hnext k hk)⟩
    · exact h'.closed hf m hm hmt

section Walk

variable [DecidableEq α]

/-- The nodes that are not marked yet. -/
def unseen (nodes : List α) (s : Search α) : Nat := (nodes.filter (· ∉ s.seen)).length

theorem unseen_anti {nodes : List α} {s t : Search α} (h : s.seen ⊆ t.seen) :
    unseen nodes t ≤ unseen nodes s := by
  refine List.Sublist.length_le (List.monotone_filter_right nodes fun n hn => ?_)
  simp only [decide_eq_true_eq] at hn ⊢
  exact fun hmem => hn (h hmem)

theorem unseen_lt {nodes : List α} {s t : Search α} {n : α} (hn : n ∈ nodes) (hnew : n ∉ s.seen)
    (ht : t.seen = n :: s.seen) : unseen nodes t < unseen nodes s := by
  have hfilter : nodes.filter (· ∉ t.seen) = (nodes.filter (· ∉ s.seen)).filter (· ≠ n) := by
    rw [List.filter_filter]
    refine List.filter_congr fun m _ => ?_
    simp [ht, not_or]
  rw [unseen, unseen, hfilter, List.length_filter_lt_length_iff_exists]
  exact ⟨n, List.mem_filter.mpr ⟨hn, decide_eq_true hnew⟩, by simp⟩

variable (next hit) in
def walk : Nat → Search α → α → Option (Search α)
  | 0, s, _ => some s
  | fuel + 1, s, n =>
      if s.found || n ∈ s.seen then some s
      else
        match hit n with
        | none => none
        | some true => some { found := true, seen := n :: s.seen }
        | some false => (next n).foldlM (walk fuel) { s with seen := n :: s.seen }

variable (next hit) in
/-- From one of the nodes, the walk has marked them, or found something. -/
structure Explored (ns : List α) (s t : Search α) : Prop extends Walked next hit s t where
  marked : t.found = false → ns ⊆ t.seen
  hits : t.found = true → s.found = true ∨ ∃ n ∈ ns, ∃ m, Reaches next n m ∧ hit m = some true

/-- One node after the other, if each of them is explored from whatever is marked then. -/
theorem explored_foldlM {nodes : List α} {fuel : Nat}
    (hwalk : ∀ (s : Search α) (n : α), n ∈ nodes → unseen nodes s < fuel →
      (∀ m, Reaches next n m → (hit m).isSome = true) →
      ∃ t, walk next hit fuel s n = some t ∧ Explored next hit [n] s t) :
    ∀ (ns : List α) (s : Search α), ns ⊆ nodes → unseen nodes s < fuel →
      (∀ n ∈ ns, ∀ m, Reaches next n m → (hit m).isSome = true) →
      ∃ t, ns.foldlM (walk next hit fuel) s = some t
        ∧ Explored next hit ns s t := by
  intro ns
  induction ns with
  | nil =>
      intro s _ _ _
      exact ⟨s, rfl, .refl s, fun _ => List.nil_subset _, Or.inl⟩
  | cons n ns ih =>
      intro s hns hfuel hsafe
      obtain ⟨t, ht, hst⟩ := hwalk s n (hns List.mem_cons_self) hfuel (hsafe n List.mem_cons_self)
      obtain ⟨u, hu, htu⟩ := ih t (fun m hm => hns (List.mem_cons_of_mem n hm))
        (Nat.lt_of_le_of_lt (unseen_anti hst.seen) hfuel)
        (fun m hm => hsafe m (List.mem_cons_of_mem n hm))
      refine ⟨u, ?_, hst.toWalked.trans htu.toWalked, fun hf => ?_, fun hf => ?_⟩
      · rw [List.foldlM_cons, ht]
        exact hu
      · intro m hm
        rcases List.mem_cons.mp hm with rfl | hm
        · exact htu.seen (hst.marked (htu.found hf) List.mem_cons_self)
        · exact htu.marked hf hm
      · rcases htu.hits hf with hft | ⟨m, hm, hit⟩
        · rcases hst.hits hft with hfs | ⟨m, hm, hit⟩
          · exact Or.inl hfs
          · exact Or.inr ⟨m, List.mem_cons.mpr (Or.inl (List.mem_singleton.mp hm)), hit⟩
        · exact Or.inr ⟨m, List.mem_cons_of_mem n hm, hit⟩

theorem explored_walk {nodes : List α} (hclosed : ∀ n ∈ nodes, next n ⊆ nodes) :
    ∀ (fuel : Nat) (s : Search α) (n : α), n ∈ nodes → unseen nodes s < fuel →
      (∀ m, Reaches next n m → (hit m).isSome = true) →
      ∃ t, walk next hit fuel s n = some t ∧ Explored next hit [n] s t := by
  intro fuel
  induction fuel with
  | zero =>
      intro s n _ hfuel _
      exact absurd hfuel (Nat.not_lt_zero _)
  | succ fuel ih =>
      intro s n hn hfuel hsafe
      rw [walk]
      by_cases hskip : (s.found || decide (n ∈ s.seen)) = true
      · rw [if_pos hskip]
        rw [Bool.or_eq_true, decide_eq_true_eq] at hskip
        refine ⟨s, rfl, .refl s, fun hf m hm => ?_, Or.inl⟩
        obtain rfl := List.mem_singleton.mp hm
        exact hskip.resolve_left (by simp [hf])
      · rw [if_neg hskip]
        rw [Bool.or_eq_true, decide_eq_true_eq, not_or] at hskip
        obtain ⟨hfs, hnew⟩ := hskip
        cases hhit : hit n with
        | none =>
            have := hsafe n .refl
            rw [hhit] at this
            cases this
        | some hits =>
            cases hits with
            | true =>
                refine ⟨_, rfl, ⟨fun _ hm => List.mem_cons_of_mem n hm, fun hf => ?_, fun hf => ?_⟩,
                  fun hf => ?_, fun _ => Or.inr ⟨n, List.mem_cons_self, n, .refl, hhit⟩⟩
                all_goals cases hf
            | false =>
                obtain ⟨t, ht, hst⟩ := explored_foldlM ih (next n) { s with seen := n :: s.seen }
                  (hclosed n hn)
                  (Nat.lt_of_lt_of_le (unseen_lt hn hnew rfl) (Nat.le_of_lt_succ hfuel))
                  (fun k hk m hm => hsafe m (.head hk hm))
                refine ⟨t, ht, ⟨fun _ hm => hst.seen (List.mem_cons_of_mem n hm), hst.found,
                  fun hf m hm hnot => ?_⟩, fun hf m hm => ?_, fun hf => ?_⟩
                · -- the node itself, or one that was marked further on
                  by_cases hmn : m = n
                  · exact hmn ▸ ⟨hhit, fun k hk => hst.marked hf hk⟩
                  · exact hst.closed hf m hm (by simp [hmn, hnot])
                · obtain rfl := List.mem_singleton.mp hm
                  exact hst.seen List.mem_cons_self
                · rcases hst.hits hf with hfs | ⟨k, hk, m, hm, hit⟩
                  · exact Or.inl hfs
                  · exact Or.inr ⟨n, List.mem_cons_self, m, .head hk hm, hit⟩

/-- With more fuel than there are nodes, a walk from the start finds exactly what can be
reached. -/
theorem walk_found_iff {nodes : List α} (hclosed : ∀ n ∈ nodes, next n ⊆ nodes) {start : α}
    (hstart : start ∈ nodes) (hsafe : ∀ m, Reaches next start m → (hit m).isSome = true)
    {fuel : Nat} (hfuel : nodes.length < fuel) :
    ∃ t, walk next hit fuel {} start = some t
      ∧ (t.found = true ↔ ∃ m, Reaches next start m ∧ hit m = some true) := by
  have hunseen : unseen nodes {} < fuel :=
    Nat.lt_of_le_of_lt (List.length_filter_le _ _) hfuel
  obtain ⟨t, ht, h⟩ := explored_walk hclosed fuel {} start hstart hunseen hsafe
  refine ⟨t, ht, fun hf => ?_, ?_⟩
  · rcases h.hits hf with hfalse | ⟨n, hn, m, hm, hit⟩
    · cases hfalse
    · obtain rfl := List.mem_singleton.mp hn
      exact ⟨m, hm, hit⟩
  · rintro ⟨m, hm, hhit⟩
    by_contra hf
    replace hf : t.found = false := eq_false_of_ne_true hf
    -- the marked nodes are closed under `next`, and have none that is looked for
    have hmarked : m ∈ t.seen :=
      Reaches.mem (fun k hk => (h.closed hf k hk List.not_mem_nil).2)
        (h.marked hf List.mem_cons_self) hm
    have hmiss := (h.closed hf m hmarked List.not_mem_nil).1
    rw [hhit] at hmiss
    cases hmiss

end Walk

end Explore

end GatewayConsole
