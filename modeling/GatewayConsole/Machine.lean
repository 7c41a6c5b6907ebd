import Mathlib.Data.List.Infix

/-!
# Machines, runs and what holds along them

The generic layer every state machine of the development sits on: a
machine is an initial state and a partial step function, so that an
interleaving is a list of events and a run can be evaluated.

Two judgements about a run, both over its prefixes:

- `Always P es`: every state the run of `es` passes through satisfies `P`;
- `Meets C es`: every step the run of `es` takes satisfies `C` (a condition
  on the state before the step and the event).

`Invariant.run` is the usual induction. `always_of_meets` is the
induction for an invariant that only the steps meeting `C` preserve, and
`always_iff_meets` its exact form: when a step outside `C` also leaves `P`
behind, `Always P` and `Meets C` are the same condition on the run. Where a step
outside `C` only makes room for a step that leaves `P`, the exact form is about
the run and its neighbours, `AlwaysNear`: `alwaysNear_iff_meets`.
-/

namespace GatewayConsole

/-- An initial state and a partial step function: `step s e = none` means
that event `e` cannot happen in state `s`. -/
structure Machine (σ ε : Type*) where
  init : σ
  step : σ → ε → Option σ

namespace Machine

variable {σ ε : Type*} (M : Machine σ ε)

/-- The state after the events, taken in order from `s`. -/
def runFrom : σ → List ε → Option σ
  | s, [] => some s
  | s, e :: es => (M.step s e).bind fun t => runFrom t es

/-- The state after the events, taken in order from the initial state. -/
def run (es : List ε) : Option σ := M.runFrom M.init es

@[simp] theorem runFrom_nil (s : σ) : M.runFrom s [] = some s := rfl

@[simp] theorem run_nil : M.run [] = some M.init := rfl

theorem runFrom_append (ds es : List ε) :
    ∀ s, M.runFrom s (ds ++ es) = (M.runFrom s ds).bind fun t => M.runFrom t es := by
  induction ds with
  | nil => intro s; rfl
  | cons d ds ih =>
      intro s
      simp only [List.cons_append, runFrom]
      cases M.step s d with
      | none => rfl
      | some t => exact ih t

/-- A run of one more event is a run and one more step. -/
theorem run_snoc {ds : List ε} {e : ε} {t : σ} :
    M.run (ds ++ [e]) = some t ↔ ∃ s, M.run ds = some s ∧ M.step s e = some t := by
  rw [run, runFrom_append, ← run]
  cases M.run ds with
  | none => simp
  | some s => simp [runFrom]

/-! ## Judgements about a run -/

/-- Every state the run of `es` passes through satisfies `P`. -/
def Always (P : σ → Prop) (es : List ε) : Prop :=
  ∀ ds, ds <+: es → ∀ s, M.run ds = some s → P s

/-- Every step the run of `es` takes satisfies `C`. -/
def Meets (C : σ → ε → Prop) (es : List ε) : Prop :=
  ∀ ds e, ds ++ [e] <+: es → ∀ s t, M.run ds = some s → M.step s e = some t → C s e

/-- Every state the run of `es` passes through satisfies `P`, and so does every state
one step off that run. -/
def AlwaysNear (P : σ → Prop) (es : List ε) : Prop :=
  M.Always P es ∧ ∀ ds e, ds <+: es → M.Always P (ds ++ [e])

/-- `P` holds initially and every step keeps it. -/
def Invariant (P : σ → Prop) : Prop :=
  P M.init ∧ ∀ s e t, P s → M.step s e = some t → P t

variable {M}

theorem Always.of_prefix {P : σ → Prop} {ds es : List ε} (h : M.Always P es)
    (hp : ds <+: es) : M.Always P ds :=
  fun ds' hp' => h ds' (hp'.trans hp)

theorem Meets.of_prefix {C : σ → ε → Prop} {ds es : List ε} (h : M.Meets C es)
    (hp : ds <+: es) : M.Meets C ds :=
  fun ds' e hp' => h ds' e (hp'.trans hp)

theorem Meets.imp {C C' : σ → ε → Prop} {es : List ε} (h : M.Meets C es)
    (hC : ∀ s e, C s e → C' s e) : M.Meets C' es :=
  fun ds e hp s t hs hst => hC s e (h ds e hp s t hs hst)

/-- A condition on events that every event meets. -/
theorem Meets.of_forall {C : ε → Prop} {es : List ε} (h : ∀ e ∈ es, C e) :
    M.Meets (fun _ e => C e) es :=
  fun ds e hp _ _ _ _ => h e (hp.subset (List.mem_append_right ds List.mem_cons_self))

/-- A condition on one step more. -/
theorem Meets.snoc {C : σ → ε → Prop} {es : List ε} {e : ε} (h : M.Meets C es)
    (he : ∀ s, M.run es = some s → C s e) : M.Meets C (es ++ [e]) := by
  intro ds d hp s t hs hst
  rcases List.prefix_concat_iff.mp hp with heq | hp'
  · obtain ⟨rfl, hlast⟩ := List.append_inj' heq rfl
    obtain rfl := List.singleton_inj.mp hlast
    exact he s hs
  · exact h ds d hp' s t hs hst

/-- The run rule for an invariant that the steps meeting `C` preserve. -/
theorem run_of_meets {I : σ → Prop} {C : σ → ε → Prop} (hinit : I M.init)
    (hstep : ∀ s e t, I s → C s e → M.step s e = some t → I t) :
    ∀ {es : List ε}, M.Meets C es → ∀ s, M.run es = some s → I s := by
  intro es
  induction es using List.reverseRecOn with
  | nil =>
      intro _ s hs
      rw [run_nil] at hs
      exact Option.some.inj hs ▸ hinit
  | append_singleton ds e ih =>
      intro hm t ht
      obtain ⟨s, hs, hst⟩ := M.run_snoc.mp ht
      have hI : I s := ih (hm.of_prefix (List.prefix_append _ _)) s hs
      exact hstep s e t hI (hm ds e (List.prefix_refl _) s t hs hst) hst

/-- The run rule for a relation between the events so far and the state. -/
theorem run_history {H : List ε → σ → Prop} (hinit : H [] M.init)
    (hstep : ∀ es s e t, H es s → M.step s e = some t → H (es ++ [e]) t) :
    ∀ {es : List ε} {s : σ}, M.run es = some s → H es s := by
  intro es
  induction es using List.reverseRecOn with
  | nil =>
      intro s hs
      rw [run_nil] at hs
      exact Option.some.inj hs ▸ hinit
  | append_singleton ds e ih =>
      intro t ht
      obtain ⟨s, hs, hst⟩ := M.run_snoc.mp ht
      exact hstep ds s e t (ih hs) hst

theorem Invariant.run {P : σ → Prop} (h : M.Invariant P) {es : List ε} {s : σ}
    (hs : M.run es = some s) : P s :=
  run_of_meets (C := fun _ _ => True) h.1 (fun s e t hP _ => h.2 s e t hP)
    (fun _ _ _ _ _ _ _ => trivial) s hs

theorem Invariant.runFrom {P : σ → Prop} (h : M.Invariant P) :
    ∀ {es : List ε} {s t : σ}, P s → M.runFrom s es = some t → P t
  | [], s, t, hs, ht => by
      rw [runFrom_nil] at ht
      exact Option.some.inj ht ▸ hs
  | e :: es, s, t, hs, ht => by
      obtain ⟨u, hu, hut⟩ := Option.bind_eq_some_iff.mp ht
      exact h.runFrom (h.2 s e u hs hu) hut

theorem always_of_meets {I P : σ → Prop} {C : σ → ε → Prop} (hinit : I M.init)
    (hstep : ∀ s e t, I s → C s e → M.step s e = some t → I t)
    (hsafe : ∀ s, I s → P s) {es : List ε} (hm : M.Meets C es) : M.Always P es :=
  fun _ hp s hs => hsafe s (run_of_meets hinit hstep (hm.of_prefix hp) s hs)

/-- When the steps meeting `C` keep an invariant that gives `P`, and a step
outside `C` leaves `P`, a run stays in `P` exactly when its steps meet `C`. -/
theorem always_iff_meets {I P : σ → Prop} {C : σ → ε → Prop} (hinit : I M.init)
    (hstep : ∀ s e t, I s → C s e → M.step s e = some t → I t)
    (hsafe : ∀ s, I s → P s)
    (hbad : ∀ s e t, I s → M.step s e = some t → P t → C s e) {es : List ε} :
    M.Always P es ↔ M.Meets C es := by
  refine ⟨fun h => ?_, always_of_meets hinit hstep hsafe⟩
  induction es using List.reverseRecOn with
  | nil =>
      intro ds e hp
      exact absurd (List.prefix_nil.mp hp) (by simp)
  | append_singleton es e ih =>
      have hm : M.Meets C es := ih (h.of_prefix (List.prefix_append _ _))
      intro ds d hp s t hs hst
      rcases List.prefix_concat_iff.mp hp with heq | hp'
      · obtain ⟨rfl, -⟩ := List.append_inj' heq rfl
        have hI : I s := run_of_meets hinit hstep hm s hs
        exact hbad s d t hI hst (h _ hp t (M.run_snoc.mpr ⟨s, hs, hst⟩))
      · exact hm ds d hp' s t hs hst

/-- When the steps meeting `C` keep an invariant that gives `P` here and one step on,
and after a step outside `C` some step leaves `P`, a run stays in `P` with all its
neighbours exactly when its steps meet `C`. -/
theorem alwaysNear_iff_meets {I P : σ → Prop} {C : σ → ε → Prop} (hinit : I M.init)
    (hstep : ∀ s e t, I s → C s e → M.step s e = some t → I t)
    (hsafe : ∀ s, I s → P s) (hnext : ∀ s e t, I s → M.step s e = some t → P t)
    (hbad : ∀ s e t, I s → M.step s e = some t → ¬C s e → ∃ d u, M.step t d = some u ∧ ¬P u)
    {es : List ε} : M.AlwaysNear P es ↔ M.Meets C es := by
  constructor
  · rintro ⟨-, hnear⟩
    induction es using List.reverseRecOn with
    | nil =>
        intro ds e hp
        exact absurd (List.prefix_nil.mp hp) (by simp)
    | append_singleton es e ih =>
        have hm : M.Meets C es :=
          ih fun ds d hp => hnear ds d (hp.trans (List.prefix_append _ _))
        intro ds d hp s t hs hst
        rcases List.prefix_concat_iff.mp hp with heq | hp'
        · obtain ⟨rfl, -⟩ := List.append_inj' heq rfl
          have hI : I s := run_of_meets hinit hstep hm s hs
          by_contra hC
          obtain ⟨d', u, hu, hP⟩ := hbad s d t hI hst hC
          have ht : M.run (ds ++ [d]) = some t := M.run_snoc.mpr ⟨s, hs, hst⟩
          exact hP (hnear _ d' hp _ (List.prefix_refl _) u (M.run_snoc.mpr ⟨t, ht, hu⟩))
        · exact hm ds d hp' s t hs hst
  · intro hm
    have halways : M.Always P es := always_of_meets hinit hstep hsafe hm
    refine ⟨halways, fun ds e hp ds' hp' t ht => ?_⟩
    rcases List.prefix_concat_iff.mp hp' with rfl | hp''
    · obtain ⟨s, hs, hst⟩ := M.run_snoc.mp ht
      exact hnext s e t (run_of_meets hinit hstep (hm.of_prefix hp) s hs) hst
    · exact halways ds' (hp''.trans hp) t ht

/-! ## Runs that come to an end -/

/-- A run of events that all make a weight smaller is no longer than the weight. -/
theorem length_add_le {K : ε → Prop} {w : σ → Nat}
    (hstep : ∀ s e t, K e → M.step s e = some t → w t < w s) :
    ∀ {es : List ε} {s t : σ}, (∀ e ∈ es, K e) → M.runFrom s es = some t → es.length + w t ≤ w s
  | [], s, t, _, h => by
      rw [runFrom_nil] at h
      obtain rfl := Option.some.inj h
      simp
  | e :: es, s, t, hes, h => by
      obtain ⟨u, hu, hut⟩ := Option.bind_eq_some_iff.mp h
      have hlt := hstep s e u (hes e List.mem_cons_self) hu
      have ih := length_add_le hstep (fun d hd => hes d (List.mem_cons_of_mem _ hd)) hut
      rw [List.length_cons]
      omega

/-- Where such a step is possible as long as something is left to do, a run of them does all. -/
theorem exists_runFrom_done {I Done : σ → Prop} {K : ε → Prop} {w : σ → Nat}
    (hinv : ∀ s e t, I s → K e → M.step s e = some t → I t)
    (hstep : ∀ s e t, K e → M.step s e = some t → w t < w s)
    (hnext : ∀ s, ¬Done s → ∃ e t, K e ∧ M.step s e = some t) (s : σ) (hs : I s) :
    ∃ es t, (∀ e ∈ es, K e) ∧ M.runFrom s es = some t ∧ I t ∧ Done t := by
  induction hw : w s using Nat.strong_induction_on generalizing s with
  | h n ih =>
      by_cases hdone : Done s
      · exact ⟨[], s, fun _ he => (by cases he), M.runFrom_nil s, hs, hdone⟩
      · obtain ⟨e, u, he, hu⟩ := hnext s hdone
        obtain ⟨es, t, hes, ht, hI, hD⟩ :=
          ih (w u) (hw ▸ hstep s e u he hu) u (hinv s e u hs he hu) rfl
        refine ⟨e :: es, t, fun d hd => ?_, Option.bind_eq_some_iff.mpr ⟨u, hu, ht⟩, hI, hD⟩
        rcases List.mem_cons.mp hd with rfl | hd
        · exact he
        · exact hes d hd

/-! ## Comparing two states of one run -/

/-- A reflexive and transitive relation that every step of the machine
respects relates any state of a run to every later one. -/
theorem run_mono {R : σ → σ → Prop} (hrefl : ∀ s, R s s)
    (htrans : ∀ {a b c}, R a b → R b c → R a c)
    (hstep : ∀ s e t, M.step s e = some t → R s t) :
    ∀ {es : List ε} {s t : σ}, M.runFrom s es = some t → R s t
  | [], s, t, h => by
      rw [runFrom_nil] at h
      exact Option.some.inj h ▸ hrefl s
  | e :: es, s, t, h => by
      simp only [runFrom] at h
      obtain ⟨u, hu, hut⟩ := Option.bind_eq_some_iff.mp h
      exact htrans (hstep s e u hu) (run_mono hrefl htrans hstep hut)

end Machine

end GatewayConsole
