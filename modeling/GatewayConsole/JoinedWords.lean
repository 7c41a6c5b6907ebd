import Mathlib.Data.List.TakeWhile

/-!
# Words behind separators

A list of words written one after the other, a separator before each: a path and its
segments. To split it gives the words back, and to search it for a run of words finds, as
long as no word has a separator in it, what one finds among the words.

The search is that of a pattern `/a/b/([^/]+)/`: the run, then a word that is not empty, then
a separator.
-/

namespace GatewayConsole

variable {α : Type*} [DecidableEq α] {sep : α} {w cs ls : List α} {run words : List (List α)}

/-- The words, a separator before each. -/
def joined (sep : α) (words : List (List α)) : List α := words.flatMap (sep :: ·)

omit [DecidableEq α] in
@[simp] theorem joined_nil : joined sep [] = [] := rfl

omit [DecidableEq α] in
@[simp] theorem joined_cons : joined sep (w :: words) = sep :: (w ++ joined sep words) := rfl

omit [DecidableEq α] in
@[simp] theorem joined_append {words' : List (List α)} :
    joined sep (words ++ words') = joined sep words ++ joined sep words' := List.flatMap_append

omit [DecidableEq α] in
theorem exists_joined_eq (sep : α) (run : List (List α)) :
    ∃ ls, joined sep run ++ [sep] = sep :: ls := by
  cases run with
  | nil => exact ⟨[], rfl⟩
  | cons v run => exact ⟨_, rfl⟩

/-! ## Splitting -/

omit [DecidableEq α] in
theorem splitOn_append_joined [BEq α] [LawfulBEq α] (hw : sep ∉ w)
    (hwords : ∀ v ∈ words, sep ∉ v) : (w ++ joined sep words).splitOn sep = w :: words := by
  induction words generalizing w with
  | nil => rw [joined_nil, List.append_nil, List.splitOn_eq_singleton hw]
  | cons v words ih =>
      rw [joined_cons, List.splitOn_append_cons_self_of_not_mem hw,
        ih (hwords v List.mem_cons_self) fun u hu => hwords u (List.mem_cons_of_mem v hu)]

omit [DecidableEq α] in
theorem splitOn_joined [BEq α] [LawfulBEq α] (hwords : ∀ v ∈ words, sep ∉ v) :
    (joined sep words).splitOn sep = [] :: words :=
  splitOn_append_joined List.not_mem_nil hwords

/-! ## Searching -/

/-- `([^/]+)/` at the start. -/
def capture (sep : α) (cs : List α) : Option (List α) :=
  match cs.takeWhile (· ≠ sep), cs.dropWhile (· ≠ sep) with
  | c :: w, _ :: _ => some (c :: w)
  | _, _ => none

/-- The lead and then a word, at the start. -/
def matchAt (sep : α) : List α → List α → Option (List α)
  | [], cs => capture sep cs
  | _ :: _, [] => none
  | l :: ls, c :: cs => if l = c then matchAt sep ls cs else none

/-- The lead and then a word, at the first place where they are found. -/
def firstMatch (sep : α) (lead : List α) : List α → Option (List α)
  | [] => none
  | c :: cs => (matchAt sep lead (c :: cs)).or (firstMatch sep lead cs)

theorem capture_ne_nil (h : capture sep cs = some w) : w ≠ [] := by
  unfold capture at h
  split at h
  · obtain rfl := Option.some.inj h
    exact List.cons_ne_nil _ _
  · cases h

theorem matchAt_ne_nil {lead : List α} (h : matchAt sep lead cs = some w) : w ≠ [] := by
  fun_induction matchAt sep lead cs with
  | case1 cs => exact capture_ne_nil h
  | case2 => cases h
  | case3 ls l cs ih => exact ih h
  | case4 => cases h

theorem firstMatch_ne_nil {lead : List α} (h : firstMatch sep lead cs = some w) : w ≠ [] := by
  induction cs with
  | nil => cases h
  | cons c cs ih =>
      rcases Option.or_eq_some_iff.mp h with hat | ⟨-, hlater⟩
      · exact matchAt_ne_nil hat
      · exact ih hlater

/-- The run and then a word, at the start: the word must have another one behind it. -/
def wordAt {β : Type*} [DecidableEq β] : List β → List β → Option β
  | [], w :: _ :: _ => some w
  | [], _ => none
  | _ :: _, [] => none
  | v :: run, w :: words => if v = w then wordAt run words else none

/-- The run and then a word, at the first place where they are found. -/
def wordAfter {β : Type*} [DecidableEq β] (run : List β) : List β → Option β
  | [] => none
  | w :: words => (wordAt run (w :: words)).or (wordAfter run words)

section Map

variable {β γ : Type*} [DecidableEq β] [DecidableEq γ] {f : β → γ}

theorem wordAt_map (hf : Function.Injective f) (run words : List β) :
    wordAt (run.map f) (words.map f) = (wordAt run words).map f := by
  fun_induction wordAt run words with
  | case1 w v words => rfl
  | case2 words hshort =>
      cases words with
      | nil => rfl
      | cons w words =>
          cases words with
          | nil => rfl
          | cons v words => exact absurd rfl (hshort w v words)
  | case3 => rfl
  | case4 run v words ih => simpa [wordAt] using ih
  | case5 v run w words hne => simp [wordAt, hf.eq_iff, hne]

/-- The search does not depend on how the words are written. -/
theorem wordAfter_map (hf : Function.Injective f) (run words : List β) :
    wordAfter (run.map f) (words.map f) = (wordAfter run words).map f := by
  induction words with
  | nil => rfl
  | cons w words ih =>
      rw [wordAfter, Option.map_or, ← wordAt_map hf, ← ih]
      rfl

end Map

theorem capture_append_joined (hne : w ≠ []) (hw : sep ∉ w) :
    capture sep (w ++ joined sep words) = wordAt [] (w :: words) := by
  have hall : ∀ c ∈ w, decide (c ≠ sep) = true := fun c hc =>
    decide_eq_true fun heq => hw (heq ▸ hc)
  obtain ⟨c, cs, rfl⟩ := List.exists_cons_of_ne_nil hne
  cases words with
  | nil =>
      have hdrop : (c :: cs).dropWhile (· ≠ sep) = [] := List.dropWhile_eq_nil_iff.mpr hall
      rw [joined_nil, List.append_nil, capture, hdrop]
      split
      · rename_i heq
        cases heq
      · rfl
  | cons v words =>
      rw [capture, List.takeWhile_append_of_pos hall, List.dropWhile_append_of_pos hall,
        joined_cons, List.takeWhile_cons_of_neg (by simp), List.dropWhile_cons_of_neg (by simp),
        List.append_nil]
      rfl

/-- The lead's first word must be the first word there is. -/
theorem matchAt_append_joined {v : List α} (hv : sep ∉ v) (hw : sep ∉ w) :
    matchAt sep (v ++ sep :: ls) (w ++ joined sep words)
      = if v = w then matchAt sep (sep :: ls) (joined sep words) else none := by
  induction v generalizing w with
  | nil =>
      cases w with
      | nil => rfl
      | cons c w =>
          have hne : sep ≠ c := fun heq => hw (heq ▸ List.mem_cons_self)
          simp [matchAt, hne]
  | cons l v ih =>
      have hl : l ≠ sep := fun heq => hv (heq ▸ List.mem_cons_self)
      cases w with
      | nil =>
          cases words with
          | nil => rfl
          | cons u words => simp [matchAt, hl]
      | cons c w =>
          rw [List.cons_append, List.cons_append, matchAt,
            ih (fun h => hv (List.mem_cons_of_mem l h)) fun h => hw (List.mem_cons_of_mem c h)]
          by_cases hlc : l = c
          · simp [hlc]
          · simp [hlc]

/-- A match in the joined words is a match among them. -/
theorem matchAt_joined (hrun : ∀ v ∈ run, sep ∉ v) (hwords : ∀ w ∈ words, w ≠ [] ∧ sep ∉ w) :
    matchAt sep (joined sep run ++ [sep]) (joined sep words) = wordAt run words := by
  induction run generalizing words with
  | nil =>
      cases words with
      | nil => rfl
      | cons w words =>
          obtain ⟨hne, hw⟩ := hwords w List.mem_cons_self
          rw [joined_nil, List.nil_append, joined_cons, matchAt, if_pos rfl, matchAt,
            capture_append_joined hne hw]
  | cons v run ih =>
      obtain ⟨ls, hls⟩ := exists_joined_eq sep run
      cases words with
      | nil => rfl
      | cons w words =>
          have hlater := ih (fun u hu => hrun u (List.mem_cons_of_mem v hu))
            fun u hu => hwords u (List.mem_cons_of_mem w hu)
          rw [joined_cons, joined_cons, List.cons_append, List.append_assoc, hls, matchAt,
            if_pos rfl, matchAt_append_joined (hrun v List.mem_cons_self)
              (hwords w List.mem_cons_self).2, ← hls, hlater]
          rfl

/-- No match starts within a word. -/
theorem firstMatch_append (hw : sep ∉ w) :
    firstMatch sep (sep :: ls) (w ++ cs) = firstMatch sep (sep :: ls) cs := by
  induction w with
  | nil => rfl
  | cons c w ih =>
      have hne : sep ≠ c := fun heq => hw (heq ▸ List.mem_cons_self)
      rw [List.cons_append, firstMatch, matchAt, if_neg hne, Option.none_or,
        ih fun h => hw (List.mem_cons_of_mem c h)]

/-- The search of the joined words is the search among them. -/
theorem firstMatch_joined (hrun : ∀ v ∈ run, sep ∉ v)
    (hwords : ∀ w ∈ words, w ≠ [] ∧ sep ∉ w) :
    firstMatch sep (joined sep run ++ [sep]) (joined sep words) = wordAfter run words := by
  obtain ⟨ls, hls⟩ := exists_joined_eq sep run
  induction words with
  | nil => rfl
  | cons w words ih =>
      have hat := matchAt_joined hrun hwords
      rw [joined_cons] at hat ⊢
      rw [firstMatch, hat, hls, firstMatch_append (hwords w List.mem_cons_self).2, ← hls,
        ih fun u hu => hwords u (List.mem_cons_of_mem w hu)]
      rfl

end GatewayConsole
