import Mathlib.Logic.Function.Basic
import GatewayConsole.Machine

/-!
# The TTL cache

`createTtlCache` of `service/routing/index.ts`, over any keys and values. A load is
named by its place in the order of starting, which also names the promise and the
entry that belong to it: an entry of the store knows which load it was made for.

`getOrLoad` runs to its end without a suspension, so a call is one step, and so is
the end of a load: it settles the entry it was made for, or deletes what is stored
under its key. A load outlives its entry when the entry expires, and then another
load of the key may own what is stored when the first one fails. `OwnEntry` excludes
that failure, and with it loads are single-flight: `singleFlight_iff`.
-/

namespace GatewayConsole

inductive Outcome (V : Type) where
  | pending
  | fulfilled (value : V)
  | rejected
deriving Repr, DecidableEq

def Outcome.value? {V : Type} : Outcome V → Option V
  | .fulfilled value => some value
  | _ => none

structure Load (K V : Type) where
  key : K
  startedAt : Int
  outcome : Outcome V := .pending
deriving Repr, DecidableEq

/-- An entry of the store, made for a load; it is settled once it has a value. -/
structure Entry (V : Type) where
  expiresAt : Int
  load : Nat
  settledValue : Option V := none
deriving Repr, DecidableEq

structure TtlCache (K V : Type) where
  store : K → Option (Entry V) := fun _ => none
  loads : List (Load K V) := []

/-- What `getOrLoad` returns: the value of a settled entry, or the promise of a load. -/
inductive Answer (V : Type) where
  | value (v : V)
  | promise (load : Nat)
deriving Repr, DecidableEq

namespace TtlCache

variable {K V : Type}

/-- The entry a call finds: stored under the key, and not expired. -/
def fresh (c : TtlCache K V) (key : K) (t : Int) : Option (Entry V) :=
  (c.store key).filter fun e => e.expiresAt > t

theorem fresh_eq_some {c : TtlCache K V} {key : K} {t : Int} {e : Entry V} :
    c.fresh key t = some e ↔ c.store key = some e ∧ t < e.expiresAt := by
  simp [fresh, Option.filter_eq_some_iff]

theorem fresh_eq_none {c : TtlCache K V} {key : K} {t : Int} :
    c.fresh key t = none ↔ ∀ e, c.store key = some e → e.expiresAt ≤ t := by
  simp [fresh, Option.filter_eq_none_iff]

/-- The load has started and not ended. -/
def pendingAt (c : TtlCache K V) (i : Nat) : Bool :=
  c.loads[i]?.any fun l => match l.outcome with
    | .pending => true
    | _ => false

theorem pendingAt_iff {c : TtlCache K V} {i : Nat} :
    c.pendingAt i = true ↔ ∃ l, c.loads[i]? = some l ∧ l.outcome = .pending := by
  simp only [pendingAt, Option.any_eq_true]
  refine exists_congr fun l => and_congr_right fun _ => ?_
  cases l.outcome <;> simp

/-! ## Entries and their loads -/

/-- The entry stored under the key was made for this load, the last one of the key,
which has not been rejected. -/
structure MadeFor (ttlMs : Int) (c : TtlCache K V) (key : K) (e : Entry V) (l : Load K V) :
    Prop where
  load : c.loads[e.load]? = some l
  key_eq : l.key = key
  expires : e.expiresAt = l.startedAt + ttlMs
  live : l.outcome ≠ .rejected
  settled : e.settledValue = l.outcome.value?
  last : ∀ j l', e.load < j → c.loads[j]? = some l' → l'.key ≠ key

/-- Every stored entry was made for a load that still stands for it. -/
def Coherent (ttlMs : Int) (c : TtlCache K V) : Prop :=
  ∀ key e, c.store key = some e → ∃ l, MadeFor ttlMs c key e l

theorem coherent_empty (ttlMs : Int) : Coherent ttlMs ({} : TtlCache K V) :=
  fun _ _ h => by cases h

/-! ## The operations -/

/-- A load ends with a value: its entry is settled, wherever it still is. -/
def succeed (c : TtlCache K V) (i : Nat) (v : V) : TtlCache K V where
  store k := (c.store k).map fun e => if e.load = i then { e with settledValue := some v } else e
  loads := c.loads.modify i fun l => { l with outcome := .fulfilled v }

theorem getElem?_succeed {c : TtlCache K V} {i j : Nat} {v : V} {l' : Load K V} :
    (c.succeed i v).loads[j]? = some l'
      ↔ ∃ l, c.loads[j]? = some l
        ∧ l' = if i = j then { l with outcome := .fulfilled v } else l := by
  simp only [succeed, List.getElem?_modify, Option.map_eq_map, Option.map_eq_some_iff]
  exact exists_congr fun l => and_congr_right fun _ => eq_comm

theorem Coherent.succeed {ttlMs : Int} {c : TtlCache K V} (h : Coherent ttlMs c) (i : Nat)
    (v : V) : Coherent ttlMs (c.succeed i v) := by
  intro k e' he'
  obtain ⟨e, he, rfl⟩ := Option.map_eq_some_iff.mp he'
  obtain ⟨l, hl⟩ := h k e he
  have hlast : ∀ j l', e.load < j → (c.succeed i v).loads[j]? = some l' → l'.key ≠ k := by
    intro j l' hlt hl'
    obtain ⟨m, hm, rfl⟩ := getElem?_succeed.mp hl'
    have := hl.last j m hlt hm
    split <;> exact this
  by_cases hi : e.load = i
  · refine ⟨{ l with outcome := .fulfilled v }, ?_⟩
    rw [if_pos hi]
    exact ⟨getElem?_succeed.mpr ⟨l, hl.load, by rw [if_pos hi.symm]⟩, hl.key_eq, hl.expires,
      by simp, rfl, hlast⟩
  · refine ⟨l, ?_⟩
    rw [if_neg hi]
    exact ⟨getElem?_succeed.mpr ⟨l, hl.load, by rw [if_neg (Ne.symm hi)]⟩, hl.key_eq,
      hl.expires, hl.live, hl.settled, hlast⟩

variable [DecidableEq K]

/-- A load starts and its entry is stored. -/
def start (ttlMs : Int) (c : TtlCache K V) (key : K) (t : Int) : TtlCache K V where
  store := Function.update c.store key
    (some { expiresAt := t + ttlMs, load := c.loads.length })
  loads := c.loads ++ [{ key, startedAt := t }]

def getOrLoad (ttlMs : Int) (c : TtlCache K V) (key : K) (t : Int) :
    Answer V × TtlCache K V :=
  match c.fresh key t with
  | some e =>
      match e.settledValue with
      | some v => (.value v, c)
      | none => (.promise e.load, c)
  | none => (.promise c.loads.length, c.start ttlMs key t)

/-- A load throws: what is stored under its key is deleted. -/
def fail (c : TtlCache K V) (i : Nat) : TtlCache K V where
  store :=
    match c.loads[i]? with
    | some l => Function.update c.store l.key none
    | none => c.store
  loads := c.loads.modify i fun l => { l with outcome := .rejected }

theorem store_start (ttlMs : Int) (c : TtlCache K V) (key : K) (t : Int) :
    (c.start ttlMs key t).store = Function.update c.store key
      (some { expiresAt := t + ttlMs, load := c.loads.length }) := rfl

theorem getElem?_start {ttlMs : Int} {c : TtlCache K V} {key : K} {t : Int} {i : Nat}
    {l : Load K V} :
    (c.start ttlMs key t).loads[i]? = some l
      ↔ c.loads[i]? = some l ∨ i = c.loads.length ∧ l = { key, startedAt := t } := by
  rcases Nat.lt_trichotomy i c.loads.length with hlt | rfl | hgt
  · simp only [start, List.getElem?_append_left hlt, Nat.ne_of_lt hlt, false_and, or_false]
  · simp [start, eq_comm]
  · have hnone : (c.start ttlMs key t).loads[i]? = none :=
      List.getElem?_eq_none (by simp only [start, List.length_append, List.length_singleton]; omega)
    rw [hnone, List.getElem?_eq_none (Nat.le_of_lt hgt)]
    simp [Nat.ne_of_gt hgt]

theorem getElem?_fail {c : TtlCache K V} {i j : Nat} {l' : Load K V} :
    (c.fail i).loads[j]? = some l'
      ↔ ∃ l, c.loads[j]? = some l
        ∧ l' = if i = j then { l with outcome := .rejected } else l := by
  simp only [fail, List.getElem?_modify, Option.map_eq_map, Option.map_eq_some_iff]
  exact exists_congr fun l => and_congr_right fun _ => eq_comm

/-! ## The operations keep the store coherent -/

theorem Coherent.start {ttlMs : Int} {c : TtlCache K V} (h : Coherent ttlMs c) (key : K)
    (t : Int) : Coherent ttlMs (c.start ttlMs key t) := by
  intro k e he
  by_cases hk : k = key
  · subst hk
    rw [store_start, Function.update_self] at he
    obtain rfl := Option.some.inj he
    refine ⟨_, getElem?_start.mpr (Or.inr ⟨rfl, rfl⟩), rfl, rfl, by simp, rfl, ?_⟩
    intro j l' hlt hl'
    rcases getElem?_start.mp hl' with hold | ⟨rfl, -⟩
    · exact absurd (List.getElem?_eq_some_iff.mp hold).1 (Nat.not_lt.mpr (Nat.le_of_lt hlt))
    · exact absurd hlt (Nat.lt_irrefl _)
  · rw [store_start, Function.update_of_ne hk] at he
    obtain ⟨l, hl⟩ := h k e he
    refine ⟨l, getElem?_start.mpr (Or.inl hl.load), hl.key_eq, hl.expires, hl.live, hl.settled,
      ?_⟩
    intro j l' hlt hl'
    rcases getElem?_start.mp hl' with hold | ⟨-, rfl⟩
    · exact hl.last j l' hlt hold
    · exact Ne.symm hk

/-- What is left in the store after a failure was there before, under another key. -/
theorem store_fail {c : TtlCache K V} {i : Nat} {l : Load K V} (hl : c.loads[i]? = some l)
    {k : K} {e : Entry V} :
    (c.fail i).store k = some e ↔ k ≠ l.key ∧ c.store k = some e := by
  simp only [TtlCache.fail, hl]
  by_cases hk : k = l.key
  · subst hk
    simp
  · simp [hk]

theorem Coherent.fail {ttlMs : Int} {c : TtlCache K V} (h : Coherent ttlMs c) {i : Nat}
    {li : Load K V} (hi : c.loads[i]? = some li) : Coherent ttlMs (c.fail i) := by
  intro k e he
  obtain ⟨hk, hold⟩ := (store_fail hi).mp he
  obtain ⟨l, hl⟩ := h k e hold
  have hne : i ≠ e.load := by
    rintro rfl
    obtain rfl := Option.some.inj (hi.symm.trans hl.load)
    exact hk hl.key_eq.symm
  refine ⟨l, getElem?_fail.mpr ⟨l, hl.load, by rw [if_neg hne]⟩, hl.key_eq, hl.expires, hl.live,
    hl.settled, ?_⟩
  intro j l' hlt hl'
  obtain ⟨m, hm, rfl⟩ := getElem?_fail.mp hl'
  have := hl.last j m hlt hm
  split <;> exact this

/-! ## Loads that throw together -/

theorem getElem?_failAll {js : List Nat} {i : Nat} :
    ∀ {c : TtlCache K V} {l' : Load K V},
      (js.foldl fail c).loads[i]? = some l'
        ↔ ∃ l, c.loads[i]? = some l
          ∧ l' = if i ∈ js then { l with outcome := .rejected } else l := by
  induction js with
  | nil =>
      intro c l'
      simp [eq_comm]
  | cons j js ih =>
      intro c l'
      rw [List.foldl_cons, ih]
      constructor
      · rintro ⟨l, hl, rfl⟩
        obtain ⟨m, hm, rfl⟩ := getElem?_fail.mp hl
        refine ⟨m, hm, ?_⟩
        by_cases hji : j = i
        · simp [hji]
        · simp [hji, Ne.symm hji]
      · rintro ⟨l, hl, rfl⟩
        refine ⟨_, getElem?_fail.mpr ⟨l, hl, rfl⟩, ?_⟩
        by_cases hji : j = i
        · simp [hji]
        · simp [hji, Ne.symm hji]

theorem length_failAll {js : List Nat} :
    ∀ {c : TtlCache K V}, (js.foldl fail c).loads.length = c.loads.length := by
  induction js with
  | nil => exact rfl
  | cons j js ih =>
      intro c
      rw [List.foldl_cons, ih, TtlCache.fail, List.length_modify]

theorem fail_eq_self {c : TtlCache K V} {i : Nat} (h : c.loads[i]? = none) : c.fail i = c := by
  have hloads : c.loads.modify i (fun l => { l with outcome := .rejected }) = c.loads :=
    List.modify_eq_self (List.getElem?_eq_none_iff.mp h)
  rw [TtlCache.fail, h, hloads]

theorem store_of_failAll {js : List Nat} {k : K} {e : Entry V} :
    ∀ {c : TtlCache K V}, (js.foldl fail c).store k = some e → c.store k = some e := by
  induction js with
  | nil => exact id
  | cons j js ih =>
      intro c h
      have hfail := ih h
      cases hj : c.loads[j]? with
      | some l => exact ((store_fail hj).mp hfail).2
      | none => rwa [fail_eq_self hj] at hfail

theorem Coherent.failAll {ttlMs : Int} {js : List Nat} :
    ∀ {c : TtlCache K V}, Coherent ttlMs c → Coherent ttlMs (js.foldl TtlCache.fail c) := by
  induction js with
  | nil => exact id
  | cons j js ih =>
      intro c h
      refine ih ?_
      cases hj : c.loads[j]? with
      | some l => exact h.fail hj
      | none => rwa [fail_eq_self hj]

end TtlCache

/-! ## The cache under any order of events -/

structure CacheSys (K V : Type) where
  cache : TtlCache K V := {}
  clock : Int
  answers : List (Answer V) := []

inductive CacheEvent (K V : Type) where
  /-- A call, when `now()` reads `t`. -/
  | call (key : K) (t : Int)
  | succeed (i : Nat) (v : V)
  | fail (i : Nat)
deriving Repr, DecidableEq

variable {K V : Type}

/-- Of two loads of a key that start within the TTL, the earlier has failed. -/
def SingleFlight (ttlMs : Int) (s : CacheSys K V) : Prop :=
  ∀ (i j : Nat) (li lj : Load K V), i < j → s.cache.loads[i]? = some li →
    s.cache.loads[j]? = some lj → li.key = lj.key → lj.startedAt < li.startedAt + ttlMs →
    li.outcome = .rejected

/-- A load that fails finds under its key its own entry, none, or an expired one. -/
def OwnEntry (s : CacheSys K V) (ev : CacheEvent K V) : Prop :=
  ∀ i, ev = .fail i → ∀ l, s.cache.loads[i]? = some l →
    ∀ e, s.cache.store l.key = some e → e.load = i ∨ e.expiresAt ≤ s.clock

/-! ## The invariant -/

/-- The entry of every load that has neither failed nor expired is in the store. -/
structure FlightInv (ttlMs : Int) (s : CacheSys K V) : Prop where
  coherent : s.cache.Coherent ttlMs
  single : SingleFlight ttlMs s
  held : ∀ i l, s.cache.loads[i]? = some l → l.outcome ≠ .rejected →
    s.clock < l.startedAt + ttlMs → ∃ e, s.cache.store l.key = some e ∧ e.load = i

theorem flightInv_init (ttlMs clock : Int) :
    FlightInv ttlMs ({ clock } : CacheSys K V) :=
  ⟨TtlCache.coherent_empty ttlMs, fun _ _ _ _ _ hi => (by cases hi), fun _ _ hl => (by cases hl)⟩

/-- The load of an entry that a call does not find has failed. -/
theorem FlightInv.rejected_of_miss {ttlMs : Int} {s : CacheSys K V} (h : FlightInv ttlMs s)
    {key : K} {t : Int} (hclock : s.clock ≤ t) (hfresh : s.cache.fresh key t = none) {i : Nat}
    {l : Load K V} (hl : s.cache.loads[i]? = some l) (hkey : l.key = key)
    (hnear : t < l.startedAt + ttlMs) : l.outcome = .rejected := by
  by_contra hlive
  obtain ⟨e, he, rfl⟩ := h.held i l hl hlive (by omega)
  obtain ⟨l', hmade⟩ := h.coherent l.key e he
  obtain rfl := Option.some.inj (hl.symm.trans hmade.load)
  have hexp := TtlCache.fresh_eq_none.mp hfresh e (hkey ▸ he)
  have := hmade.expires
  omega

/-! ## The steps -/

section System

variable [DecidableEq K]

def CacheSys.step (ttlMs : Int) (s : CacheSys K V) : CacheEvent K V → Option (CacheSys K V)
  | .call key t =>
      if s.clock ≤ t then
        let (answer, cache) := s.cache.getOrLoad ttlMs key t
        some { cache, clock := t, answers := s.answers ++ [answer] }
      else none
  | .succeed i v =>
      if s.cache.pendingAt i then some { s with cache := s.cache.succeed i v } else none
  | .fail i => if s.cache.pendingAt i then some { s with cache := s.cache.fail i } else none

/-- An empty cache, with a clock that never goes back. -/
def ttlCache (K V : Type) [DecidableEq K] (ttlMs clock : Int) :
    Machine (CacheSys K V) (CacheEvent K V) where
  init := { clock }
  step := CacheSys.step ttlMs

/-- The step relation, one constructor for each way a step can go. -/
inductive CacheSys.Trans (ttlMs : Int) (s : CacheSys K V) :
    CacheEvent K V → CacheSys K V → Prop
  | hit (key : K) (t : Int) (e : Entry V) (answer : Answer V) (hclock : s.clock ≤ t)
      (hfresh : s.cache.fresh key t = some e) :
      Trans ttlMs s (.call key t) { s with clock := t, answers := s.answers ++ [answer] }
  | miss (key : K) (t : Int) (hclock : s.clock ≤ t) (hfresh : s.cache.fresh key t = none) :
      Trans ttlMs s (.call key t)
        { cache := s.cache.start ttlMs key t, clock := t
          answers := s.answers ++ [.promise s.cache.loads.length] }
  | succeed (i : Nat) (v : V) (l : Load K V) (hload : s.cache.loads[i]? = some l)
      (hpending : l.outcome = .pending) :
      Trans ttlMs s (.succeed i v) { s with cache := s.cache.succeed i v }
  | fail (i : Nat) (l : Load K V) (hload : s.cache.loads[i]? = some l)
      (hpending : l.outcome = .pending) :
      Trans ttlMs s (.fail i) { s with cache := s.cache.fail i }

theorem CacheSys.trans_of_step {ttlMs : Int} {s t : CacheSys K V} {ev : CacheEvent K V}
    (h : s.step ttlMs ev = some t) : s.Trans ttlMs ev t := by
  cases ev with
  | call key now =>
      simp only [step, Option.ite_none_right_eq_some] at h
      obtain ⟨hclock, h⟩ := h
      cases hf : s.cache.fresh key now with
      | some e =>
          cases hv : e.settledValue with
          | some v =>
              simp only [TtlCache.getOrLoad, hf, hv, Option.some.injEq] at h
              exact h ▸ .hit key now e _ hclock hf
          | none =>
              simp only [TtlCache.getOrLoad, hf, hv, Option.some.injEq] at h
              exact h ▸ .hit key now e _ hclock hf
      | none =>
          simp only [TtlCache.getOrLoad, hf, Option.some.injEq] at h
          exact h ▸ .miss key now hclock hf
  | succeed i v =>
      simp only [step, Option.ite_none_right_eq_some, Option.some.injEq] at h
      obtain ⟨hp, rfl⟩ := h
      obtain ⟨l, hl, hpending⟩ := TtlCache.pendingAt_iff.mp hp
      exact .succeed i v l hl hpending
  | fail i =>
      simp only [step, Option.ite_none_right_eq_some, Option.some.injEq] at h
      obtain ⟨hp, rfl⟩ := h
      obtain ⟨l, hl, hpending⟩ := TtlCache.pendingAt_iff.mp hp
      exact .fail i l hl hpending

/-! ## Single flight -/

theorem FlightInv.single_miss {ttlMs : Int} {s : CacheSys K V} (h : FlightInv ttlMs s) {key : K}
    {t : Int} (hclock : s.clock ≤ t) (hfresh : s.cache.fresh key t = none)
    (answers : List (Answer V)) :
    SingleFlight ttlMs { cache := s.cache.start ttlMs key t, clock := t, answers } := by
  intro i j li lj hij hi hj hkey hnear
  rcases TtlCache.getElem?_start.mp hj with hj' | ⟨rfl, rfl⟩
  · have hlt := (List.getElem?_eq_some_iff.mp hj').1
    rcases TtlCache.getElem?_start.mp hi with hi' | ⟨rfl, -⟩
    · exact h.single i j li lj hij hi' hj' hkey hnear
    · omega
  · rcases TtlCache.getElem?_start.mp hi with hi' | ⟨rfl, -⟩
    · exact h.rejected_of_miss hclock hfresh hi' hkey hnear
    · omega

/-- No end of a load undoes a failure, so whatever happens next, loads stay single. -/
theorem singleFlight_step {ttlMs : Int} {s s' : CacheSys K V} {ev : CacheEvent K V}
    (h : FlightInv ttlMs s) (ht : s.Trans ttlMs ev s') : SingleFlight ttlMs s' := by
  cases ht with
  | hit key t e answer hclock hfresh => exact h.single
  | miss key t hclock hfresh => exact h.single_miss hclock hfresh _
  | succeed n v l hload hpending =>
      intro i j li lj hij hi hj hkey hnear
      obtain ⟨mi, hmi, rfl⟩ := TtlCache.getElem?_succeed.mp hi
      obtain ⟨mj, hmj, rfl⟩ := TtlCache.getElem?_succeed.mp hj
      have hrej : mi.outcome = .rejected := by
        refine h.single i j mi mj hij hmi hmj ?_ ?_
        · split at hkey <;> split at hkey <;> exact hkey
        · split at hnear <;> split at hnear <;> exact hnear
      have hne : n ≠ i := by
        rintro rfl
        obtain rfl := Option.some.inj (hload.symm.trans hmi)
        rw [hpending] at hrej
        cases hrej
      rw [if_neg hne]
      exact hrej
  | fail n l hload hpending =>
      intro i j li lj hij hi hj hkey hnear
      obtain ⟨mi, hmi, rfl⟩ := TtlCache.getElem?_fail.mp hi
      obtain ⟨mj, hmj, rfl⟩ := TtlCache.getElem?_fail.mp hj
      have hrej : mi.outcome = .rejected := by
        refine h.single i j mi mj hij hmi hmj ?_ ?_
        · split at hkey <;> split at hkey <;> exact hkey
        · split at hnear <;> split at hnear <;> exact hnear
      split
      · rfl
      · exact hrej

theorem flightInv_step {ttlMs : Int} {s s' : CacheSys K V} {ev : CacheEvent K V}
    (h : FlightInv ttlMs s) (hown : OwnEntry s ev) (ht : s.Trans ttlMs ev s') :
    FlightInv ttlMs s' := by
  have hsingle := singleFlight_step h ht
  cases ht with
  | hit key t e answer hclock hfresh =>
      exact ⟨h.coherent, hsingle, fun i l hl hlive hnear =>
        h.held i l hl hlive (Int.lt_of_le_of_lt hclock hnear)⟩
  | miss key t hclock hfresh =>
      refine ⟨h.coherent.start key t, hsingle, fun i l hl hlive hnear => ?_⟩
      rw [TtlCache.store_start]
      rcases TtlCache.getElem?_start.mp hl with hold | ⟨rfl, rfl⟩
      · have hne : l.key ≠ key := fun hkey =>
          hlive (h.rejected_of_miss hclock hfresh hold hkey hnear)
        rw [Function.update_of_ne hne]
        exact h.held i l hold hlive (Int.lt_of_le_of_lt hclock hnear)
      · exact ⟨_, Function.update_self .., rfl⟩
  | succeed n v l hload hpending =>
      refine ⟨h.coherent.succeed n v, hsingle, fun i l' hl' hlive hnear => ?_⟩
      obtain ⟨m, hm, rfl⟩ := TtlCache.getElem?_succeed.mp hl'
      have hmlive : m.outcome ≠ .rejected := by
        split at hlive
        · rename_i hni
          subst hni
          obtain rfl := Option.some.inj (hload.symm.trans hm)
          simp [hpending]
        · exact hlive
      obtain ⟨e, he, hei⟩ := h.held i m hm hmlive (by split at hnear <;> exact hnear)
      refine ⟨_, Option.map_eq_some_iff.mpr ⟨e, by split <;> exact he, rfl⟩, ?_⟩
      split <;> exact hei
  | fail n l hload hpending =>
      refine ⟨h.coherent.fail hload, hsingle, fun i l' hl' hlive hnear => ?_⟩
      obtain ⟨m, hm, rfl⟩ := TtlCache.getElem?_fail.mp hl'
      have hni : n ≠ i := by
        rintro rfl
        rw [if_pos rfl] at hlive
        exact hlive rfl
      rw [if_neg hni] at hlive hnear ⊢
      obtain ⟨e, he, rfl⟩ := h.held i m hm hlive hnear
      refine ⟨e, (TtlCache.store_fail hload).mpr ⟨fun hkey => ?_, he⟩, rfl⟩
      -- the failing load would delete an entry that is not its own and not expired
      rcases hown n rfl l hload e (hkey ▸ he) with hmine | hexpired
      · exact hni hmine.symm
      · obtain ⟨l', hmade⟩ := h.coherent m.key e he
        obtain rfl := Option.some.inj (hm.symm.trans hmade.load)
        have hexp := hmade.expires
        have hnear' : s.clock < m.startedAt + ttlMs := hnear
        omega

/-- After a failure that deletes the entry of another load, one call at the same moment
starts a load beside the one whose entry was deleted. -/
theorem exists_second_flight {ttlMs : Int} {s s' : CacheSys K V} {ev : CacheEvent K V}
    (h : FlightInv ttlMs s) (ht : s.Trans ttlMs ev s') (hown : ¬OwnEntry s ev) :
    ∃ d u, s'.step ttlMs d = some u ∧ ¬SingleFlight ttlMs u := by
  unfold OwnEntry at hown
  push Not at hown
  obtain ⟨n, rfl, l, hload, e, he, hother, hunexpired⟩ := hown
  obtain ⟨l', hmade⟩ := h.coherent l.key e he
  cases ht with
  | fail n' l'' hload' hpending =>
      have hgone : (s.cache.fail n).fresh l.key s.clock = none := by
        refine TtlCache.fresh_eq_none.mpr fun e' he' => ?_
        exact absurd rfl ((TtlCache.store_fail hload).mp he').1
      have hstill : (s.cache.fail n).loads[e.load]? = some l' :=
        TtlCache.getElem?_fail.mpr ⟨l', hmade.load, by rw [if_neg (Ne.symm hother)]⟩
      refine ⟨.call l.key s.clock, _, by simp [CacheSys.step, TtlCache.getOrLoad, hgone]; rfl, ?_⟩
      intro hsingle
      have hlt := (List.getElem?_eq_some_iff.mp hstill).1
      refine hmade.live (hsingle e.load _ l' _ hlt (TtlCache.getElem?_start.mpr (Or.inl hstill))
        (TtlCache.getElem?_start.mpr (Or.inr ⟨rfl, rfl⟩)) hmade.key_eq ?_)
      have := hmade.expires
      show s.clock < _
      omega

theorem alwaysNear_singleFlight_iff (ttlMs clock : Int) (es : List (CacheEvent K V)) :
    (ttlCache K V ttlMs clock).AlwaysNear (SingleFlight ttlMs) es
      ↔ (ttlCache K V ttlMs clock).Meets OwnEntry es :=
  Machine.alwaysNear_iff_meets (I := FlightInv ttlMs) (flightInv_init ttlMs clock)
    (fun _ _ _ h hc hst => flightInv_step h hc (CacheSys.trans_of_step hst))
    (fun _ h => h.single)
    (fun _ _ _ h hst => singleFlight_step h (CacheSys.trans_of_step hst))
    (fun _ _ _ h hst hc => exists_second_flight h (CacheSys.trans_of_step hst) hc)

/-- A failing load leaves the unexpired entries of other loads where they are. -/
def KeepsOthers (ttlMs : Int) (s : CacheSys K V) (ev : CacheEvent K V) : Prop :=
  ∀ i s', ev = .fail i → s.step ttlMs ev = some s' → ∀ key e, s.cache.store key = some e →
    e.load ≠ i → s.clock < e.expiresAt → s'.cache.store key = some e

theorem OwnEntry.keepsOthers {ttlMs : Int} {s : CacheSys K V} {ev : CacheEvent K V}
    (h : OwnEntry s ev) : KeepsOthers ttlMs s ev := by
  rintro i s' rfl hst key e he hother hunexpired
  cases CacheSys.trans_of_step hst with
  | fail _ l hload hpending =>
      refine (TtlCache.store_fail hload).mpr ⟨?_, he⟩
      rintro rfl
      rcases h i rfl l hload e he with hmine | hexpired
      · exact hother hmine
      · omega

/-- **Loads are single-flight as long as a failing load deletes no entry but its own.**
Along a run and one step off it no two loads of a key start within the TTL unless the
earlier has failed, and no failing load takes away another's unexpired entry, exactly
when no load fails while such an entry is stored under its key. -/
theorem singleFlight_iff (ttlMs clock : Int) (es : List (CacheEvent K V)) :
    (ttlCache K V ttlMs clock).AlwaysNear (SingleFlight ttlMs) es
        ∧ (ttlCache K V ttlMs clock).Meets (KeepsOthers ttlMs) es
      ↔ (ttlCache K V ttlMs clock).Meets OwnEntry es := by
  rw [alwaysNear_singleFlight_iff]
  exact ⟨fun h => h.1,
    fun h => ⟨h, fun ds e hp s t hs hst => (h ds e hp s t hs hst).keepsOthers⟩⟩

end System

/-! ## A failure after the entry expired -/

/-- The first load fails when its entry has expired and the second load has taken its
place; the third call comes within the TTL of the second load. -/
def lateFailure : List (CacheEvent Unit Unit) :=
  [.call () 0, .call () 10, .fail 0, .call () 12]

theorem run_lateFailure :
    ((ttlCache Unit Unit 10 0).run lateFailure).map (fun s => s.cache.loads)
      = some [⟨(), 0, .rejected⟩, ⟨(), 10, .pending⟩, ⟨(), 12, .pending⟩] := by
  decide

/-- Two loads run within the TTL, and neither has failed. -/
theorem not_singleFlight_lateFailure :
    ¬(ttlCache Unit Unit 10 0).Always (SingleFlight 10) lateFailure := by
  intro h
  obtain ⟨s, hs, hloads⟩ := Option.map_eq_some_iff.mp run_lateFailure
  have hrej := h lateFailure (List.prefix_refl _) s hs 1 2 ⟨(), 10, .pending⟩ ⟨(), 12, .pending⟩
    (by decide) (by rw [hloads]; rfl) (by rw [hloads]; rfl) rfl (by decide)
  cases hrej

end GatewayConsole
