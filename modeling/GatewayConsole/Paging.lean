import Mathlib.Order.Lattice
import Mathlib.Data.List.Basic

/-!
# Paging by key

A list that only grows at its head, read page by page: each page is the first `limit` rows
whose key is below that of the last row received, and an empty page ends the reading. The
rows that come in after the first page stay above every cursor, so the pages make up the
rows present at the first one. `Paging.Inv` carries that from fetch to fetch, with the rows
still to come as its witness.

`limit` and the order of the keys are all that it depends on.
-/

namespace GatewayConsole

variable {α κ : Type*}

/-- What a reader has got: the pages so far, and the rows present at the first fetch. -/
structure Paging (α : Type*) where
  present : List α := []
  pages : List (List α) := []
deriving Repr, DecidableEq

namespace Paging

/-- The last page was empty. -/
def ended (p : Paging α) : Bool := p.pages.getLast?.any List.isEmpty

section Keys

variable [LinearOrder κ] (key : α → κ)

/-- Every row comes before those with smaller keys. -/
abbrev NewestFirst (rows : List α) : Prop := rows.Pairwise fun a b => key b < key a

/-- The rows below a cursor; without one, all. -/
def older (before : Option κ) (rows : List α) : List α :=
  match before with
  | none => rows
  | some c => rows.filter fun r => key r < c

/-- The cursor: the key of the last row received. -/
def before (p : Paging α) : Option κ :=
  p.pages.getLast?.bind fun page => page.getLast?.map key

/-- The next page, of the rows as they are now. -/
def fetch (limit : Nat) (rows : List α) (p : Paging α) : Option (Paging α) :=
  if p.ended then none
  else
    some
      { present := if p.pages.isEmpty then rows else p.present
        pages := p.pages ++ [(older key (p.before key) rows).take limit] }

/-! ## What the pages make up -/

/-- Below the key of a row are the rows after it. -/
theorem older_of_split {above rest : List α} {c : α}
    (h : NewestFirst key (above ++ c :: rest)) :
    older key (some (key c)) (above ++ c :: rest) = rest := by
  obtain ⟨-, hrest, habove⟩ := List.pairwise_append.mp h
  obtain ⟨hc, -⟩ := List.pairwise_cons.mp hrest
  have h₁ : above.filter (fun r => key r < key c) = [] :=
    List.filter_eq_nil_iff.mpr fun a ha => by
      simpa using le_of_lt (habove a ha c List.mem_cons_self)
  have h₂ : rest.filter (fun r => key r < key c) = rest :=
    List.filter_eq_self.mpr fun b hb => by simpa using hc b hb
  simp [older, h₁, h₂]

end Keys

/-- The pages are the first of the rows present; there are more only while every page has
been full. -/
structure Inv (limit : Nat) (rows : List α) (p : Paging α) : Prop where
  newer : ∃ newer, rows = newer ++ p.present
  split : ∃ rest, p.present = p.pages.flatten ++ rest
    ∧ (rest ≠ [] → p.pages.flatten.length = limit * p.pages.length)
    ∧ (p.ended = true → rest = [])
  inner : ∀ page ∈ p.pages.dropLast, page ≠ []
  start : p.pages = [] → p.present = []

theorem inv_empty (limit : Nat) (rows : List α) : Inv limit rows {} where
  newer := ⟨rows, by simp⟩
  split := ⟨[], rfl, fun h => absurd rfl h, fun _ => rfl⟩
  inner _ h := by cases h
  start _ := rfl

theorem Inv.append {limit : Nat} {rows : List α} {p : Paging α} (h : Inv limit rows p)
    (row : α) : Inv limit (row :: rows) p where
  newer := by
    obtain ⟨newer, hnewer⟩ := h.newer
    exact ⟨row :: newer, by rw [hnewer]; rfl⟩
  split := h.split
  inner := h.inner
  start := h.start

/-- While it has not ended, no page was empty. -/
theorem Inv.pages_ne_nil {limit : Nat} {rows : List α} {p : Paging α} (h : Inv limit rows p)
    (hgo : p.ended = false) : ∀ page ∈ p.pages, page ≠ [] := by
  intro page hpage
  rcases List.eq_nil_or_concat p.pages with hnil | ⟨init, last, heq⟩
  · rw [hnil] at hpage
    cases hpage
  · rw [List.concat_eq_append] at heq
    rw [heq] at hpage
    rcases List.mem_append.mp hpage with hinit | hlast
    · exact h.inner page (by rw [heq, List.dropLast_concat]; exact hinit)
    · obtain rfl := List.mem_singleton.mp hlast
      rintro rfl
      simp [ended, heq] at hgo

section Keys

variable [LinearOrder κ] {key : α → κ}

/-- What the next page is taken from: the rows still to come. -/
theorem Inv.older_before {limit : Nat} {rows : List α} {p : Paging α}
    (h : Inv limit rows p) (hrows : NewestFirst key rows) (hgo : p.ended = false) :
    ∃ newer rest,
      rows = newer ++ (if p.pages.isEmpty then rows else p.present)
        ∧ (if p.pages.isEmpty then rows else p.present) = p.pages.flatten ++ rest
        ∧ older key (p.before key) rows = rest
        ∧ (rest ≠ [] → p.pages.flatten.length = limit * p.pages.length) := by
  obtain ⟨newer, hnewer⟩ := h.newer
  obtain ⟨rest, hsplit, hfull, -⟩ := h.split
  rcases List.eq_nil_or_concat p.pages with hnil | ⟨init, last, heq⟩
  · exact ⟨[], rows, by simp [hnil], by simp [hnil], by simp [before, hnil, older],
      fun _ => by simp [hnil]⟩
  · rw [List.concat_eq_append] at heq
    have hlast : last ≠ [] := h.pages_ne_nil hgo last (by simp [heq])
    obtain ⟨xs, c, hxs⟩ := (List.eq_nil_or_concat last).resolve_left hlast
    rw [List.concat_eq_append] at hxs
    subst hxs
    have hbefore : p.before key = some (key c) := by simp [before, heq]
    have hrows' : rows = (newer ++ init.flatten ++ xs) ++ c :: rest := by
      rw [hnewer, hsplit, heq]
      simp
    have hne : p.pages.isEmpty = false := by simp [heq]
    refine ⟨newer, rest, by simp [hne, ← hnewer], by simp [hne, hsplit], ?_, hfull⟩
    rw [hbefore, hrows']
    exact older_of_split key (hrows' ▸ hrows)

theorem Inv.fetch {limit : Nat} (hlimit : 0 < limit) {rows : List α} {p q : Paging α}
    (h : Inv limit rows p) (hrows : NewestFirst key rows)
    (hfetch : p.fetch key limit rows = some q) : Inv limit rows q := by
  simp only [Paging.fetch, Option.ite_none_left_eq_some, Bool.not_eq_true,
    Option.some.injEq] at hfetch
  obtain ⟨hgo, rfl⟩ := hfetch
  obtain ⟨newer, rest, hnewer, hsplit, holder, hfull⟩ := h.older_before hrows hgo
  refine ⟨⟨newer, hnewer⟩, ⟨rest.drop limit, ?_, ?_, ?_⟩, ?_, fun h => by simp at h⟩
  · rw [hsplit, holder, List.flatten_append, List.flatten_singleton, List.append_assoc,
      List.take_append_drop]
  · intro hmore
    have hlong : limit < rest.length := by simpa using hmore
    have hpages := hfull (List.ne_nil_of_length_pos (by omega))
    simp only [holder, List.flatten_append, List.length_append, hpages, List.flatten_singleton,
      List.length_take, List.length_singleton, Nat.mul_add]
    omega
  · intro hended
    have hempty : rest = [] := by
      simpa [ended, holder, Nat.ne_of_gt hlimit] using hended
    rw [hempty, List.drop_nil]
  · rw [List.dropLast_concat]
    exact h.pages_ne_nil hgo

end Keys

/-! ## Exactness -/

/-- The pages so far are the first of the rows present, at the end they are all of them,
and the end comes with at most one fetch more than there are rows. -/
structure Exact (p : Paging α) : Prop where
  soFar : p.pages.flatten <+: p.present
  complete : p.ended = true → p.pages.flatten = p.present
  bounded : p.pages.length ≤ p.present.length + 1
  ends : p.pages.length = p.present.length + 1 → p.ended = true

theorem length_le_flatten_length {pages : List (List α)} (h : ∀ page ∈ pages, page ≠ []) :
    pages.length ≤ pages.flatten.length := by
  induction pages with
  | nil => exact Nat.le_refl 0
  | cons page pages ih =>
      have hpage : 0 < page.length :=
        List.length_pos_iff.mpr (h page List.mem_cons_self)
      have hrest := ih fun page' h' => h page' (List.mem_cons_of_mem _ h')
      simp only [List.length_cons, List.flatten_cons, List.length_append]
      omega

theorem Inv.exact {limit : Nat} {rows : List α} {p : Paging α} (h : Inv limit rows p) :
    Exact p := by
  obtain ⟨rest, hsplit, -, hended⟩ := h.split
  have hlen : p.pages.flatten.length ≤ p.present.length := by
    rw [hsplit, List.length_append]
    exact Nat.le_add_right _ _
  have hgo : p.ended = false → p.pages.length ≤ p.present.length := fun hgo =>
    Nat.le_trans (length_le_flatten_length (h.pages_ne_nil hgo)) hlen
  refine ⟨⟨rest, hsplit.symm⟩, fun he => ?_, ?_, fun heq => ?_⟩
  · rw [hsplit, hended he, List.append_nil]
  · rcases List.eq_nil_or_concat p.pages with hnil | ⟨init, last, heq⟩
    · simp [hnil]
    · have hinner := length_le_flatten_length h.inner
      rw [List.concat_eq_append] at heq
      rw [heq, List.dropLast_concat] at hinner
      simp only [heq, List.flatten_append, List.length_append, List.length_singleton] at hlen ⊢
      omega
  · by_contra hne
    have := hgo (by simpa using hne)
    omega

/-- While rows are missing, a full page has come, and there is a cursor. -/
theorem Inv.older_of_missing [LinearOrder κ] (key : α → κ) {limit : Nat} {rows : List α}
    {p : Paging α} (h : Inv limit rows p) {row : α} (hrow : row ∈ p.present)
    (hmissing : row ∉ p.pages.flatten) :
    limit ≤ p.pages.flatten.length ∧ (p.before key).isSome = true := by
  obtain ⟨rest, hsplit, hfull, hended⟩ := h.split
  have hrest : rest ≠ [] := by
    rintro rfl
    rw [hsplit, List.append_nil] at hrow
    exact hmissing hrow
  have hgo : p.ended = false := by
    cases he : p.ended with
    | false => rfl
    | true => exact absurd (hended he) hrest
  rcases List.eq_nil_or_concat p.pages with hnil | ⟨init, last, heq⟩
  · rw [h.start hnil] at hrow
    cases hrow
  · rw [List.concat_eq_append] at heq
    have hlast : last ≠ [] := h.pages_ne_nil hgo last (by simp [heq])
    refine ⟨?_, ?_⟩
    · rw [hfull hrest, heq, List.length_append, List.length_singleton]
      exact Nat.le_mul_of_pos_right limit (Nat.succ_pos _)
    · obtain ⟨xs, c, hxs⟩ := (List.eq_nil_or_concat last).resolve_left hlast
      simp [before, heq, hxs]

end Paging

end GatewayConsole
