import GatewayConsole.Machine

/-!
# Programs on one event loop

A program puts one question after another to its surroundings and goes on with the answer
(`Task`). An event loop runs any number of them over one world, which every answered question
may change, and which also changes by itself (`EventLoop`).

The order of the answers is free, so a run interleaves the programs. `EventLoop.follows` takes
it apart: each program is where it gets alone with the answers it has got, and the world is
what a list of all their questions, with each program's own in its own order, has left.
-/

namespace GatewayConsole

universe u

inductive Task (Q A R : Type u) where
  | done (result : R)
  | ask (question : Q) (next : A → Task Q A R)

namespace Task

variable {Q A R S : Type u}

def bind : Task Q A R → (R → Task Q A S) → Task Q A S
  | .done r, f => f r
  | .ask q next, f => .ask q fun a => (next a).bind f

instance : Monad (Task Q A) where
  pure := .done
  bind := bind

/-- Where a program gets with these answers. -/
def after : Task Q A R → List A → Task Q A R
  | .ask _ next, a :: as => (next a).after as
  | t, _ => t

/-- What a program asks on its way there. -/
def asked : Task Q A R → List A → List (Q × A)
  | .ask q next, a :: as => (q, a) :: (next a).asked as
  | _, _ => []

@[simp] theorem after_nil (t : Task Q A R) : t.after [] = t := by
  cases t <;> rfl

@[simp] theorem asked_nil (t : Task Q A R) : t.asked [] = [] := by
  cases t <;> rfl

theorem after_snoc {as : List A} {q : Q} {next : A → Task Q A R} (a : A) :
    ∀ {t : Task Q A R}, t.after as = .ask q next → t.after (as ++ [a]) = next a := by
  induction as with
  | nil =>
      intro t ht
      rw [after_nil] at ht
      rw [ht]
      exact after_nil _
  | cons b as ih =>
      intro t ht
      cases t with
      | done r => cases ht
      | ask p f => exact ih ht

theorem asked_snoc {as : List A} {q : Q} {next : A → Task Q A R} (a : A) :
    ∀ {t : Task Q A R}, t.after as = .ask q next →
      t.asked (as ++ [a]) = t.asked as ++ [(q, a)] := by
  induction as with
  | nil =>
      intro t ht
      rw [after_nil] at ht
      rw [ht, asked_nil]
      exact congrArg _ (asked_nil _)
  | cons b as ih =>
      intro t ht
      cases t with
      | done r => cases ht
      | ask p f => exact congrArg ((p, b) :: ·) (ih ht)

end Task

/-! ## The loop -/

/-- What starts a program, and what happens to the world. -/
structure EventLoop (P Q A R W E : Type u) where
  init : W
  start : P → Option (Task Q A R)
  /-- The question has been answered. -/
  effect : Q → A → W → W
  step : W → E → Option W

structure LoopState (Q A R W : Type u) where
  world : W
  tasks : List (Task Q A R) := []

inductive LoopEvent (P A E : Type u) where
  | starts (request : P)
  | answers (task : Nat) (answer : A)
  | other (event : E)
deriving Repr, DecidableEq

section Events

variable {P Q A E : Type u}

/-- The requests, in the order of their programs. -/
def requests (es : List (LoopEvent P A E)) : List P :=
  es.filterMap fun
    | .starts request => some request
    | _ => none

def answersTo (i : Nat) (es : List (LoopEvent P A E)) : List A :=
  es.filterMap fun
    | .answers j a => if j = i then some a else none
    | _ => none

/-- Of a list with the number of a program at each entry, the entries of that one. -/
def ofTask {α : Type*} (i : Nat) (entries : List (Nat × α)) : List α :=
  entries.filterMap fun (j, x) => if j = i then some x else none

theorem ofTask_append {α : Type*} (i : Nat) (xs ys : List (Nat × α)) :
    ofTask i (xs ++ ys) = ofTask i xs ++ ofTask i ys :=
  List.filterMap_append ..

theorem ofTask_eq_nil {α : Type*} {i : Nat} {entries : List (Nat × α)}
    (h : ∀ entry ∈ entries, entry.1 ≠ i) : ofTask i entries = [] := by
  refine List.filterMap_eq_nil_iff.mpr fun entry hentry => ?_
  exact if_neg (h entry hentry)

theorem ofTask_map {α β : Type*} (f : α → β) (i : Nat) (entries : List (Nat × α)) :
    ofTask i (entries.map fun (j, x) => (j, f x)) = (ofTask i entries).map f := by
  rw [ofTask, ofTask, List.filterMap_map, List.map_filterMap]
  congr 1
  funext ⟨j, x⟩
  by_cases hj : j = i <;> simp [hj]

theorem ofTask_filterMap {α β : Type*} (f : α → Option β) (i : Nat) (entries : List (Nat × α)) :
    ofTask i (entries.filterMap fun (j, x) => (f x).map (j, ·))
      = (ofTask i entries).filterMap f := by
  rw [ofTask, ofTask, List.filterMap_filterMap, List.filterMap_filterMap]
  congr 1
  funext ⟨j, x⟩
  by_cases hj : j = i
  · subst hj
    cases hf : f x <;> simp [hf]
  · cases hf : f x <;> simp [hf, hj]

end Events

namespace EventLoop

variable {P Q A R W E : Type u} (L : EventLoop P Q A R W E)

def next (s : LoopState Q A R W) : LoopEvent P A E → Option (LoopState Q A R W)
  | .starts request => (L.start request).map fun t => { s with tasks := s.tasks ++ [t] }
  | .answers i a =>
      match s.tasks[i]? with
      | some (.ask q rest) =>
          some { world := L.effect q a s.world, tasks := s.tasks.set i (rest a) }
      | _ => none
  | .other e => (L.step s.world e).map fun world => { s with world }

def machine : Machine (LoopState Q A R W) (LoopEvent P A E) where
  init := { world := L.init }
  step := L.next

/-- A run as the interleaving of its programs, `trace` being the answered questions. -/
structure Interleaves (es : List (LoopEvent P A E)) (s : LoopState Q A R W)
    (trace : List (Nat × Q × A)) : Prop where
  length : s.tasks.length = (requests es).length
  owned : ∀ entry ∈ trace, entry.1 < s.tasks.length
  unasked : ∀ i, s.tasks.length ≤ i → answersTo i es = []
  alone : ∀ (i : Nat) request, (requests es)[i]? = some request →
    ∃ t, L.start request = some t ∧ s.tasks[i]? = some (t.after (answersTo i es))
      ∧ ofTask i trace = t.asked (answersTo i es)

variable {L} {es : List (LoopEvent P A E)} {s : LoopState Q A R W} {trace : List (Nat × Q × A)}

namespace Interleaves

theorem starts (h : L.Interleaves es s trace) {request : P} {t : Task Q A R}
    (ht : L.start request = some t) :
    L.Interleaves (es ++ [.starts request]) { s with tasks := s.tasks ++ [t] } trace := by
  have hrequests : requests (es ++ [.starts request]) = requests es ++ [request] :=
    List.filterMap_append ..
  have hanswers : ∀ i, answersTo i (es ++ [.starts request]) = answersTo i es := fun i =>
    (List.filterMap_append ..).trans (List.append_nil _)
  constructor
  · rw [hrequests, List.length_append, List.length_append, h.length]
    rfl
  · intro entry hentry
    rw [List.length_append]
    exact Nat.lt_add_right _ (h.owned entry hentry)
  · intro i hi
    rw [List.length_append] at hi
    rw [hanswers, h.unasked i (Nat.le_of_add_right_le hi)]
  · intro i request' hi
    rw [hrequests] at hi
    rw [hanswers]
    rcases Nat.lt_or_ge i (requests es).length with hlt | hge
    · rw [List.getElem?_append_left hlt] at hi
      obtain ⟨t', ht', htask, htrace⟩ := h.alone i request' hi
      exact ⟨t', ht', (List.getElem?_append_left (h.length ▸ hlt)).trans htask, htrace⟩
    · obtain rfl : i = (requests es).length := by
        have := (List.getElem?_eq_some_iff.mp hi).1
        rw [List.length_append, List.length_singleton] at this
        omega
      obtain rfl : request = request' := by
        rw [List.getElem?_append_right hge, Nat.sub_self] at hi
        exact Option.some.inj hi
      rw [← h.length, h.unasked _ (Nat.le_refl _)]
      refine ⟨t, ht, ?_, ?_⟩
      · rw [Task.after_nil, List.getElem?_append_right (Nat.le_refl _), Nat.sub_self]
        rfl
      · rw [Task.asked_nil]
        exact ofTask_eq_nil fun entry hentry => Nat.ne_of_lt (h.owned entry hentry)

theorem answers (h : L.Interleaves es s trace) {i : Nat} {q : Q} {rest : A → Task Q A R}
    (hi : s.tasks[i]? = some (.ask q rest)) (a : A) :
    L.Interleaves (es ++ [.answers i a])
      { world := L.effect q a s.world, tasks := s.tasks.set i (rest a) }
      (trace ++ [(i, q, a)]) := by
  have hlt : i < s.tasks.length := (List.getElem?_eq_some_iff.mp hi).1
  have hrequests : requests (es ++ [.answers i a]) = requests es :=
    (List.filterMap_append ..).trans (List.append_nil _)
  have hanswers : ∀ j, answersTo j (es ++ [.answers i a])
      = answersTo j es ++ if i = j then [a] else [] := by
    intro j
    rw [answersTo, List.filterMap_append]
    by_cases hij : i = j <;> simp [answersTo, hij]
  have hother : ∀ j, i ≠ j → answersTo j (es ++ [.answers i a]) = answersTo j es := by
    intro j hij
    rw [hanswers, if_neg hij, List.append_nil]
  constructor
  · rw [hrequests, List.length_set, h.length]
  · intro entry hentry
    rw [List.length_set]
    rcases List.mem_append.mp hentry with hentry | hentry
    · exact h.owned entry hentry
    · obtain rfl := List.mem_singleton.mp hentry
      exact hlt
  · intro j hj
    rw [List.length_set] at hj
    rw [hother j (Nat.ne_of_lt (Nat.lt_of_lt_of_le hlt hj)), h.unasked j hj]
  · intro j request hj
    rw [hrequests] at hj
    obtain ⟨t, ht, htask, htrace⟩ := h.alone j request hj
    refine ⟨t, ht, ?_⟩
    rw [ofTask_append, htrace]
    by_cases hij : i = j
    · subst hij
      have hat : t.after (answersTo i es) = .ask q rest :=
        Option.some.inj (htask.symm.trans hi)
      rw [hanswers, if_pos rfl, Task.after_snoc a hat, Task.asked_snoc a hat]
      refine ⟨List.getElem?_set_self hlt, congrArg _ ?_⟩
      exact List.filterMap_cons_some (if_pos rfl)
    · rw [hother j hij]
      refine ⟨(List.getElem?_set_ne hij).trans htask, ?_⟩
      rw [ofTask_eq_nil (fun entry hentry => List.mem_singleton.mp hentry ▸ hij), List.append_nil]

theorem other (h : L.Interleaves es s trace) (e : E) (world : W) :
    L.Interleaves (es ++ [.other e]) { s with world } trace := by
  have hrequests : requests (es ++ [.other e]) = requests es :=
    (List.filterMap_append ..).trans (List.append_nil _)
  have hanswers : ∀ i, answersTo i (es ++ [.other e]) = answersTo i es := fun i =>
    (List.filterMap_append ..).trans (List.append_nil _)
  refine ⟨hrequests ▸ h.length, h.owned, fun i hi => ?_, fun i request hi => ?_⟩
  · rw [hanswers, h.unasked i hi]
  · rw [hrequests] at hi
    rw [hanswers]
    exact h.alone i request hi

end Interleaves

/-- The rule for a relation between the answered questions and the world. -/
theorem follows {I : List (Nat × Q × A) → W → Prop} (hinit : I [] L.init)
    (heffect : ∀ trace w i q a, I trace w → I (trace ++ [(i, q, a)]) (L.effect q a w))
    (hstep : ∀ trace w e w', I trace w → L.step w e = some w' → I trace w')
    {es : List (LoopEvent P A E)} {s : LoopState Q A R W} (hs : L.machine.run es = some s) :
    ∃ trace, I trace s.world ∧ L.Interleaves es s trace := by
  refine Machine.run_history (M := L.machine)
    (H := fun es s => ∃ trace, I trace s.world ∧ L.Interleaves es s trace) ?_ ?_ hs
  · exact ⟨[], hinit, rfl, fun _ h => (by cases h), fun _ _ => rfl, fun _ _ h => (by cases h)⟩
  · rintro es s ev t ⟨trace, hI, h⟩ hst
    replace hst : L.next s ev = some t := hst
    cases ev with
    | starts request =>
        obtain ⟨task, htask, rfl⟩ := Option.map_eq_some_iff.mp hst
        exact ⟨trace, hI, h.starts htask⟩
    | answers i a =>
        simp only [next] at hst
        split at hst
        · next q rest hi =>
            obtain rfl := Option.some.inj hst
            exact ⟨_, heffect trace s.world i q a hI, h.answers hi a⟩
        · cases hst
    | other e =>
        obtain ⟨world, hworld, rfl⟩ := Option.map_eq_some_iff.mp hst
        exact ⟨trace, hstep trace s.world e world hI hworld, h.other e world⟩

end EventLoop

end GatewayConsole
