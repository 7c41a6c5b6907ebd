import Mathlib.Data.List.Nodup

/-!
# Walking a list that changes

A walk over a list by its successor function, one read a step, while the list may be
another one at every read. What is visited need not be the content of the list at any
moment. It is nevertheless a run of elements each of which was in the list when it was
read, and where all the lists are sublists of one order, the walk goes forward in that
order: it visits nothing twice, and as long as it does not lose its place it visits
everything that stays.
-/

namespace GatewayConsole

variable {α : Type}

/-! ## Sublists of an order without repetition -/

theorem notMem_of_nodup_middle {a : α} {xs ys : List α} (h : (xs ++ a :: ys).Nodup) :
    a ∉ xs ∧ a ∉ ys :=
  ⟨fun hmem => List.disjoint_of_nodup_append h hmem (List.mem_cons_self ..),
    (List.nodup_cons.mp h.of_append_right).1⟩

/-- What comes after an element in a sublist comes after it in the whole. -/
theorem sublist_after {a : α} {l xs ys : List α} (h : (a :: l).Sublist (xs ++ a :: ys))
    (ha : a ∉ xs) : l.Sublist ys := by
  obtain ⟨l₁, l₂, heq, h₁, h₂⟩ := List.sublist_append_iff.mp h
  cases l₁ with
  | nil =>
      obtain rfl : a :: l = l₂ := heq
      exact List.cons_sublist_cons.mp h₂
  | cons b l₁ =>
      obtain ⟨rfl, -⟩ := List.cons.inj heq
      exact absurd (h₁.subset (List.mem_cons_self ..)) ha

theorem sublist_before {a : α} {l xs ys : List α} (h : (l ++ [a]).Sublist (xs ++ a :: ys))
    (ha : a ∉ ys) : l.Sublist xs := by
  have hrev := List.reverse_sublist.mpr h
  simp only [List.reverse_append, List.reverse_cons, List.reverse_nil, List.nil_append,
    List.singleton_append, List.append_assoc] at hrev
  exact List.reverse_sublist.mp (sublist_after hrev (by simpa using ha))

/-- An element can be put anywhere in a sublist, and somewhere in the order to fit. -/
theorem exists_order_insert {l order : List α} (h : l.Sublist order) (hnodup : order.Nodup)
    {a : α} (ha : a ∉ order) (i : Nat) :
    ∃ order', order'.Nodup ∧ order.Sublist order'
      ∧ (l.take i ++ a :: l.drop i).Sublist order' ∧ ∀ x ∈ order', x = a ∨ x ∈ order := by
  rw [← List.take_append_drop i l] at h
  obtain ⟨xs, ys, rfl, hxs, hys⟩ := List.append_sublist_iff.mp h
  have hperm : (xs ++ a :: ys).Perm (a :: (xs ++ ys)) := List.perm_middle
  refine ⟨xs ++ a :: ys, ?_, ?_, hxs.append (hys.cons_cons a), ?_⟩
  · exact hperm.nodup_iff.mpr (List.nodup_cons.mpr ⟨ha, hnodup⟩)
  · exact (List.Sublist.refl xs).append (List.sublist_cons_self a ys)
  · intro x hx
    exact List.mem_cons.mp (hperm.mem_iff.mp hx)

section Walk

variable [DecidableEq α]

/-! ## The successor -/

/-- The element that comes after `a` in the list. -/
def next? : List α → α → Option α
  | b :: c :: rest, a => if b = a then some c else next? (c :: rest) a
  | _, _ => none

theorem next?_append {a b : α} {ys : List α} :
    ∀ {xs : List α}, a ∉ xs → next? (xs ++ a :: b :: ys) a = some b
  | [], _ => by simp [next?]
  | [x], h => by
      have hx : x ≠ a := fun heq => h (by simp [heq])
      simp [next?, hx]
  | x :: y :: xs, h => by
      have hx : x ≠ a := fun heq => h (by simp [heq])
      have ih : next? (y :: xs ++ a :: b :: ys) a = some b :=
        next?_append fun hmem => h (List.mem_cons_of_mem _ hmem)
      simpa [next?, hx] using ih

theorem next?_concat {a : α} : ∀ {xs : List α}, a ∉ xs → next? (xs ++ [a]) a = none
  | [], _ => rfl
  | [x], h => by
      have hx : x ≠ a := fun heq => h (by simp [heq])
      simp [next?, hx]
  | x :: y :: xs, h => by
      have hx : x ≠ a := fun heq => h (by simp [heq])
      have ih : next? (y :: xs ++ [a]) a = none :=
        next?_concat fun hmem => h (List.mem_cons_of_mem _ hmem)
      simpa [next?, hx] using ih

theorem next?_of_notMem {a : α} : ∀ {l : List α}, a ∉ l → next? l a = none
  | [], _ => rfl
  | [_], _ => rfl
  | x :: y :: xs, h => by
      have hx : x ≠ a := fun heq => h (by simp [heq])
      have ih : next? (y :: xs) a = none :=
        next?_of_notMem fun hmem => h (List.mem_cons_of_mem _ hmem)
      simpa [next?, hx] using ih

/-- An element with a successor, and its place. -/
theorem next?_eq_some {l : List α} {a b : α} (h : next? l a = some b) :
    ∃ xs ys, l = xs ++ a :: b :: ys ∧ a ∉ xs := by
  by_cases ha : a ∈ l
  · obtain ⟨xs, zs, rfl, hxs⟩ := List.eq_append_cons_of_mem ha
    cases zs with
    | nil =>
        rw [next?_concat hxs] at h
        cases h
    | cons c ys =>
        rw [next?_append hxs] at h
        obtain rfl := Option.some.inj h
        exact ⟨xs, ys, rfl, hxs⟩
  · rw [next?_of_notMem ha] at h
    cases h

theorem mem_of_next? {l : List α} {a b : α} (h : next? l a = some b) : b ∈ l := by
  obtain ⟨xs, ys, rfl, -⟩ := next?_eq_some h
  simp

/-! ## The walk -/

/-- From the cursor that the read of number `n` has returned, the walk visits these
elements: every next cursor is the successor of the last in the list as it then is. -/
def Walked (lists : Nat → List α) : Nat → Option α → List α → Prop
  | _, cursor, [] => cursor = none
  | n, cursor, a :: rest => cursor = some a ∧ Walked lists (n + 1) (next? (lists (n + 1)) a) rest

/-- Every visited element was in the list when it was read. -/
theorem Walked.mem {lists : Nat → List α} :
    ∀ {visited : List α} {n : Nat} {cursor : Option α}, Walked lists n cursor visited →
      (∀ a, cursor = some a → a ∈ lists n) →
      ∀ i a, visited[i]? = some a → a ∈ lists (n + i)
  | [], _, _, _, _, i, a, ha => by cases ha
  | b :: rest, n, cursor, ⟨hcursor, hrest⟩, hn, 0, a, ha => by
      obtain rfl : b = a := Option.some.inj ha
      exact hn b hcursor
  | b :: rest, n, cursor, ⟨hcursor, hrest⟩, hn, i + 1, a, ha => by
      have hmem := hrest.mem (fun c hc => mem_of_next? hc) i a ha
      rwa [show n + 1 + i = n + (i + 1) by omega] at hmem

/-- A list that stays as it is, is walked from the cursor to its end. -/
theorem Walked.eq_of_frozen {lists : Nat → List α} {l : List α} (hl : l.Nodup) :
    ∀ {visited : List α} {n : Nat} {a : α} {xs ys : List α},
      Walked lists n (some a) visited → l = xs ++ a :: ys →
      (∀ m, n ≤ m → m ≤ n + visited.length → lists m = l) → visited = a :: ys
  | [], _, _, _, _, h, _, _ => by cases h
  | b :: rest, n, a, xs, ys, ⟨hcursor, hrest⟩, heq, hfrozen => by
      obtain rfl : a = b := Option.some.inj hcursor
      have hxs : a ∉ xs := (notMem_of_nodup_middle (heq ▸ hl)).1
      rw [hfrozen (n + 1) (by omega) (by simp only [List.length_cons]; omega)] at hrest
      cases ys with
      | nil =>
          rw [heq, next?_concat hxs] at hrest
          cases rest with
          | nil => rfl
          | cons c rest => cases hrest.1
      | cons c ys =>
          rw [heq, next?_append hxs] at hrest
          have hsplit : l = (xs ++ [a]) ++ c :: ys := by rw [heq]; simp
          have ih := Walked.eq_of_frozen hl hrest hsplit fun m h₁ h₂ =>
            hfrozen m (by omega) (by simp only [List.length_cons]; omega)
          rw [ih]

/-! ## The walk in one order -/

/-- The walk goes forward in the order. -/
theorem Walked.sublist {lists : Nat → List α} {order : List α} (hnodup : order.Nodup) :
    ∀ {visited : List α} {n : Nat} {a : α} {xs ys : List α},
      Walked lists n (some a) visited → order = xs ++ a :: ys →
      (∀ m, n ≤ m → m ≤ n + visited.length → (lists m).Sublist order) →
      visited.Sublist (a :: ys)
  | [], _, _, _, _, h, _, _ => by cases h
  | b :: rest, n, a, xs, ys, ⟨hcursor, hrest⟩, heq, hlists => by
      obtain rfl : a = b := Option.some.inj hcursor
      refine List.cons_sublist_cons.mpr ?_
      cases hnext : next? (lists (n + 1)) a with
      | none =>
          rw [hnext] at hrest
          cases rest with
          | nil => exact List.nil_sublist _
          | cons c rest => cases hrest.1
      | some c =>
          rw [hnext] at hrest
          obtain ⟨us, vs, hl, -⟩ := next?_eq_some hnext
          have hsub := hlists (n + 1) (by omega) (by simp only [List.length_cons]; omega)
          rw [hl, heq] at hsub
          have hxs : a ∉ xs := (notMem_of_nodup_middle (heq ▸ hnodup)).1
          have hafter : (c :: vs).Sublist ys :=
            sublist_after ((List.sublist_append_right us _).trans hsub) hxs
          obtain ⟨ys₁, ys₂, rfl⟩ := List.append_of_mem (hafter.subset (List.mem_cons_self ..))
          have hsplit : order = (xs ++ a :: ys₁) ++ c :: ys₂ := by rw [heq]; simp
          have ih := Walked.sublist hnodup hrest hsplit fun m h₁ h₂ =>
            hlists m (by omega) (by simp only [List.length_cons]; omega)
          exact ih.trans (List.sublist_append_right _ _)

/-- An element at or after the cursor that stays in the list is visited, as long as
every visited element is still there when its successor is read. -/
theorem Walked.mem_visited {lists : Nat → List α} {order : List α} (hnodup : order.Nodup)
    {x : α} :
    ∀ {visited : List α} {n : Nat} {a : α} {xs ys : List α},
      Walked lists n (some a) visited → order = xs ++ a :: ys → x ∈ a :: ys →
      (∀ m, n ≤ m → m ≤ n + visited.length → (lists m).Sublist order ∧ x ∈ lists m) →
      (∀ i b, visited[i]? = some b → b ∈ lists (n + i + 1)) → x ∈ visited
  | [], _, _, _, _, h, _, _, _, _ => by cases h
  | b :: rest, n, a, xs, ys, ⟨hcursor, hrest⟩, heq, hx, hlists, hkept => by
      obtain rfl : a = b := Option.some.inj hcursor
      rcases List.mem_cons.mp hx with rfl | hxys
      · exact List.mem_cons_self ..
      obtain ⟨hsub, hmem⟩ :=
        hlists (n + 1) (by omega) (by simp only [List.length_cons]; omega)
      obtain ⟨hxs, hys⟩ := notMem_of_nodup_middle (heq ▸ hnodup)
      obtain ⟨us, vs, hl, hus⟩ := List.eq_append_cons_of_mem (hkept 0 a rfl)
      simp only [Nat.add_zero] at hl
      rw [hl, heq] at hsub
      have hafter : vs.Sublist ys :=
        sublist_after ((List.sublist_append_right us _).trans hsub) hxs
      -- what stands before the cursor in the list stands before it in the order
      have hbefore : us.Sublist xs := by
        refine sublist_before (List.Sublist.trans ?_ hsub) hys
        exact (List.Sublist.refl us).append (List.singleton_sublist.mpr (List.mem_cons_self ..))
      have hxvs : x ∈ vs := by
        rw [hl] at hmem
        rcases List.mem_append.mp hmem with hus' | hmem
        · refine absurd (List.mem_cons_of_mem a hxys) ?_
          exact List.disjoint_of_nodup_append (heq ▸ hnodup) (hbefore.subset hus')
        · rcases List.mem_cons.mp hmem with rfl | hvs
          · exact absurd hxys hys
          · exact hvs
      cases vs with
      | nil => cases hxvs
      | cons c vs =>
          rw [hl, next?_append hus] at hrest
          obtain ⟨ys₁, ys₂, rfl⟩ := List.append_of_mem (hafter.subset (List.mem_cons_self ..))
          have horder : order = (xs ++ a :: ys₁) ++ c :: ys₂ := by rw [heq]; simp
          have hc := (notMem_of_nodup_middle (horder ▸ hnodup)).1
          have hlater : vs.Sublist ys₂ :=
            sublist_after hafter fun hmem =>
              hc (List.mem_append_right _ (List.mem_cons_of_mem _ hmem))
          have hx' : x ∈ c :: ys₂ := by
            rcases List.mem_cons.mp hxvs with rfl | hvs
            · exact List.mem_cons_self ..
            · exact List.mem_cons_of_mem _ (hlater.subset hvs)
          refine List.mem_cons_of_mem _ (Walked.mem_visited hnodup hrest horder hx' ?_ ?_)
          · exact fun m h₁ h₂ => hlists m (by omega) (by simp only [List.length_cons]; omega)
          · intro i b hb
            have := hkept (i + 1) b hb
            rwa [show n + (i + 1) + 1 = n + 1 + i + 1 by omega] at this

end Walk

end GatewayConsole
