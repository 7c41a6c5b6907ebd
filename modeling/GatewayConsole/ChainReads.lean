import GatewayConsole.Routing
import GatewayConsole.TtlCache

/-!
# The chain reads behind the cache

The cached reads of `service/routing/index.ts`: two addresses, and the two fields of a
roster row that are read with their help. The loader of a field awaits the address
through the same cache, so that a load of the one kind may wait for a load of the other.

A step is one turn of the event loop. A call asks for all its fields in one turn:
`getOrch` when it begins, `listOrchs` once `listKnown` has answered. The end of a chain
read is a turn too, in which the load it was made for ends and the loads that wait for
that one go on, or end as well. What every load is at (`Work`) is kept beside the cache,
in the order of the loads, and every call of `getOrLoad` leaves an `Ask`.
-/

namespace GatewayConsole

/-! ## What is read -/

/-- `RoutingServiceDeps`, as far as the cached reads use it. -/
structure RoutingDeps where
  controllerAddress : String
  serviceRegistryAddress : Option String
  chainReadTtlMs : Int
deriving Repr, DecidableEq

inductive CacheKey where
  | bondingManager
  | serviceRegistry
  | poolStakeMap
  | serviceUri (orch : String)
deriving Repr, DecidableEq

inductive CacheValue where
  | address (address : String)
  | stakeMap (stakeMap : StakeMap)
  | serviceUri (uri : Option String)

inductive ChainRead where
  | resolveBondingManager (controllerAddress : String)
  | resolveServiceRegistry (controllerAddress : String)
  | bondingManagerListPool (bondingManager : String)
  | readServiceUri (serviceRegistry orchAddress : String)
deriving Repr, DecidableEq

inductive ReadResult where
  | address (address : String)
  | pool (entries : List BondingPoolEntry)
  | uri (uri : String)
deriving Repr, DecidableEq

/-- The addresses that are read from the controller. -/
inductive AddressField where
  | bondingManager
  | serviceRegistry
deriving Repr, DecidableEq

/-- The fields that a call asks for. -/
inductive Field where
  | poolStakeMap
  | serviceUri (orch : String)
deriving Repr, DecidableEq

def AddressField.key : AddressField → CacheKey
  | .bondingManager => .bondingManager
  | .serviceRegistry => .serviceRegistry

/-- How the loader of an address begins: with its value, where that is configured, or
with a read. -/
def AddressField.begin (deps : RoutingDeps) : AddressField → String ⊕ ChainRead
  | .bondingManager => .inr (.resolveBondingManager deps.controllerAddress)
  | .serviceRegistry =>
      match deps.serviceRegistryAddress.bind orNull with
      | some configured => .inl configured
      | none => .inr (.resolveServiceRegistry deps.controllerAddress)

namespace Field

/-- The read of the field, at that address. -/
def request (address : String) : Field → ChainRead
  | .poolStakeMap => .bondingManagerListPool address
  | .serviceUri orch => .readServiceUri address orch

/-- What the loader returns when its read fails: only `getServiceUri` catches. -/
def caught : Field → Option CacheValue
  | .poolStakeMap => none
  | .serviceUri _ => some (.serviceUri none)

end Field

/-! ## The loads -/

/-- A loader; that of a field has the load whose address it awaits. -/
inductive Loader where
  | address (field : AddressField)
  | reading (awaited : Nat) (field : Field)
deriving Repr, DecidableEq

def Loader.caught : Loader → Option CacheValue
  | .address _ => none
  | .reading _ field => field.caught

/-- Where the loader is with its chain read. -/
inductive ReadState where
  | unneeded
  | waiting
  | running (read : ChainRead)
  | succeeded (read : ChainRead)
  | failed (read : ChainRead)
deriving Repr, DecidableEq

def ReadState.isFailed : ReadState → Bool
  | .failed _ => true
  | _ => false

/-- The loader has got its value without a failure. -/
def ReadState.isDone : ReadState → Bool
  | .unneeded | .succeeded _ => true
  | _ => false

theorem ReadState.isFailed_of_isDone {r : ReadState} (h : r.isDone = true) :
    r.isFailed = false := by
  cases r <;> first | rfl | cases h

structure Work where
  loader : Loader
  read : ReadState
deriving Repr, DecidableEq

/-- The load goes on when the address it waits for is there. -/
def Work.resume (i : Nat) (v : CacheValue) (w : Work) : Work :=
  match w, v with
  | ⟨.reading j field, .waiting⟩, .address a =>
      if j = i then ⟨.reading j field, .running (field.request a)⟩ else w
  | _, _ => w

/-- The loader waits for this load. -/
def Work.waitsFor (i : Nat) (w : Work) : Bool :=
  match w with
  | ⟨.reading j _, .waiting⟩ => j = i
  | _ => false

/-- A call of `getOrLoad`: the load that serves it, and what it found: how many loads
had started, and which of these had a failed read. -/
structure Ask where
  key : CacheKey
  time : Int
  load : Nat
  base : Nat
  failed : List Nat
deriving Repr, DecidableEq

structure ChainReads where
  cache : TtlCache CacheKey CacheValue := {}
  works : List Work := []
  asks : List Ask := []

namespace ChainReads

/-- The loads whose own chain read has failed. -/
def failedReads (s : ChainReads) : List Nat :=
  (List.range s.works.length).filter fun i => s.works[i]?.any fun w => w.read.isFailed

theorem mem_failedReads {s : ChainReads} {i : Nat} :
    i ∈ s.failedReads ↔ ∃ w, s.works[i]? = some w ∧ w.read.isFailed = true := by
  simp only [failedReads, List.mem_filter, List.mem_range, Option.any_eq_true]
  refine ⟨fun h => h.2, fun h => ⟨?_, h⟩⟩
  obtain ⟨w, hw, -⟩ := h
  exact (List.getElem?_eq_some_iff.mp hw).1

/-- The value a load has ended with. -/
def valueOf (s : ChainReads) (i : Nat) : Option CacheValue :=
  s.cache.loads[i]?.bind fun l => l.outcome.value?

/-- An ask that finds an entry is served by its load. -/
def served (s : ChainReads) (key : CacheKey) (t : Int) (e : Entry CacheValue) : ChainReads :=
  { s with
    asks := s.asks ++
      [{ key, time := t, load := e.load, base := s.cache.loads.length, failed := s.failedReads }] }

/-- The loads that wait for a load. -/
def waitingFor (s : ChainReads) (i : Nat) : List Nat :=
  (List.range s.works.length).filter fun j => s.works[j]?.any fun w => w.waitsFor i

/-- Where the loader of a field is after the ask for its address. -/
def readOn (s : ChainReads) (awaited : Nat) (field : Field) : ReadState :=
  match s.valueOf awaited with
  | some (.address a) => .running (field.request a)
  | _ => .waiting

end ChainReads

/-- The calls, `listOrchs` with the addresses that `listKnown` has answered. -/
inductive ApiCall where
  | listOrchs (known : List String)
  | getOrch (address : String)
deriving Repr, DecidableEq

/-- What a call asks for, in this order. -/
def ApiCall.fields : ApiCall → List Field
  | .listOrchs known => .poolStakeMap :: known.map .serviceUri
  | .getOrch address => [.poolStakeMap, .serviceUri address]

/-- What happens in a turn; a call comes with the readings of the clock for every field,
one for the ask and one for the ask of its loader. -/
inductive ReadEvent where
  | call (c : ApiCall) (times : List (Int × Int))
  | readSucceeds (load : Nat) (result : ReadResult)
  | readFails (load : Nat)
deriving Repr, DecidableEq

theorem Work.loader_resume (i : Nat) (v : CacheValue) (w : Work) :
    (w.resume i v).loader = w.loader := by
  unfold resume
  split
  · split <;> rfl
  · rfl

theorem Work.resume_eq_self {i : Nat} {v : CacheValue} {w : Work}
    (h : w.waitsFor i = false) : w.resume i v = w := by
  unfold resume
  split
  · rename_i j field a
    rw [if_neg (by simpa [waitsFor] using h)]
  · rfl

theorem Work.waitsFor_iff {i : Nat} {w : Work} :
    w.waitsFor i = true ↔ w.read = .waiting ∧ ∃ field, w.loader = .reading i field := by
  obtain ⟨loader, read⟩ := w
  cases loader with
  | address field => simp [waitsFor]
  | reading j field => cases read <;> simp [waitsFor]

/-- A load that goes on has neither failed nor got its value. -/
theorem Work.read_resume (i : Nat) (v : CacheValue) (w : Work) :
    (w.resume i v).read.isFailed = w.read.isFailed
      ∧ (w.resume i v).read.isDone = w.read.isDone := by
  unfold resume
  split
  · split
    · exact ⟨rfl, rfl⟩
    · exact ⟨rfl, rfl⟩
  · exact ⟨rfl, rfl⟩

/-! ## The end of a read -/

namespace ChainReads

/-- The read of a load ends: the load ends with the value, and the loads that wait for
it read on. -/
def readSucceeded (s : ChainReads) (i : Nat) (read : ChainRead) (v : CacheValue) : ChainReads :=
  { s with
    cache := s.cache.succeed i v
    works := (s.works.modify i fun w => { w with read := .succeeded read }).map (Work.resume i v) }

/-- The read of a load throws: the loader catches that, or the load throws too, and with
it all that wait for it. -/
def readFailed (s : ChainReads) (i : Nat) (loader : Loader) (read : ChainRead) : ChainReads :=
  { s with
    cache :=
      match loader.caught with
      | some v => s.cache.succeed i v
      | none => (i :: s.waitingFor i).foldl TtlCache.fail s.cache
    works := s.works.modify i fun w => { w with read := .failed read } }

/-- A load of the cache, and what its loader is at. -/
structure At (s : ChainReads) (i : Nat) (w : Work) (l : Load CacheKey CacheValue) : Prop where
  work : s.works[i]? = some w
  load : s.cache.loads[i]? = some l

/-- What a load and the load it awaits have to do with each other. -/
structure Awaits (w : Work) (l : Load CacheKey CacheValue) (awaited : Work) : Prop where
  address : ∃ field, awaited.loader = .address field
  done : w.read ≠ .waiting → awaited.read.isDone = true
  doomed : awaited.read.isFailed = true → l.outcome = .rejected

theorem Awaits.notFailed {w awaited : Work} {l : Load CacheKey CacheValue}
    (h : Awaits w l awaited) (hread : w.read ≠ .waiting) : awaited.read.isFailed = false :=
  ReadState.isFailed_of_isDone (h.done hread)

theorem at_readSucceeded {s : ChainReads} {n : Nat} {read : ChainRead} {v : CacheValue} {i : Nat}
    {w' : Work} {l' : Load CacheKey CacheValue} (h : (s.readSucceeded n read v).At i w' l') :
    ∃ w l, s.At i w l
      ∧ w' = (if n = i then { w with read := .succeeded read } else w).resume n v
      ∧ l' = if n = i then { l with outcome := .fulfilled v } else l := by
  obtain ⟨hw, hl⟩ := h
  obtain ⟨l, hload, rfl⟩ := TtlCache.getElem?_succeed.mp hl
  simp only [readSucceeded, List.getElem?_map, List.getElem?_modify, Option.map_eq_map,
    Option.map_eq_some_iff] at hw
  obtain ⟨_, ⟨w, hw, rfl⟩, rfl⟩ := hw
  exact ⟨w, l, ⟨hw, hload⟩, rfl, rfl⟩

theorem mem_waitingFor {s : ChainReads} {i n : Nat} :
    i ∈ s.waitingFor n ↔ ∃ w, s.works[i]? = some w ∧ w.waitsFor n = true := by
  simp only [waitingFor, List.mem_filter, List.mem_range, Option.any_eq_true]
  refine ⟨fun h => h.2, fun h => ⟨?_, h⟩⟩
  obtain ⟨w, hw, -⟩ := h
  exact (List.getElem?_eq_some_iff.mp hw).1

theorem at_readFailed {s : ChainReads} {n : Nat} {loader : Loader} {read : ChainRead} {i : Nat}
    {w' : Work} {l' : Load CacheKey CacheValue} (h : (s.readFailed n loader read).At i w' l') :
    ∃ w l, s.At i w l
      ∧ w' = (if n = i then { w with read := .failed read } else w)
      ∧ l' = match loader.caught with
        | some v => if n = i then { l with outcome := .fulfilled v } else l
        | none => if i ∈ n :: s.waitingFor n then { l with outcome := .rejected } else l := by
  obtain ⟨hw, hl⟩ := h
  simp only [readFailed, List.getElem?_modify, Option.map_eq_map, Option.map_eq_some_iff] at hw
  obtain ⟨w, hw, rfl⟩ := hw
  simp only [readFailed] at hl
  cases hc : loader.caught with
  | some v =>
      rw [hc] at hl
      obtain ⟨l, hload, rfl⟩ := TtlCache.getElem?_succeed.mp hl
      exact ⟨w, l, ⟨hw, hload⟩, rfl, rfl⟩
  | none =>
      rw [hc] at hl
      obtain ⟨l, hload, rfl⟩ := TtlCache.getElem?_failAll.mp hl
      exact ⟨w, l, ⟨hw, hload⟩, rfl, rfl⟩

end ChainReads

/-! ## The steps -/

section Service

variable [Unicode]

def Field.key : Field → CacheKey
  | .poolStakeMap => .poolStakeMap
  | .serviceUri orch => .serviceUri (toLowerCase orch)

def Loader.key : Loader → CacheKey
  | .address field => field.key
  | .reading _ field => field.key

/-- What a loader makes of the result of its read. -/
def ChainRead.value : ChainRead → ReadResult → Option CacheValue
  | .resolveBondingManager _, .address a => some (.address a)
  | .resolveServiceRegistry _, .address a => some (.address a)
  | .bondingManagerListPool _, .pool entries => some (.stakeMap (poolEntriesToStakeMap entries))
  | .readServiceUri _ _, .uri uri => some (.serviceUri (orNull uri))
  | _, _ => none

namespace ChainReads

/-- An ask that finds no entry starts a load. -/
def started (ttlMs : Int) (s : ChainReads) (t : Int) (work : Work) : ChainReads where
  cache := s.cache.start ttlMs work.loader.key t
  works := s.works ++ [work]
  asks := s.asks ++
    [{ key := work.loader.key, time := t, load := s.cache.loads.length
       base := s.cache.loads.length, failed := s.failedReads }]

/-- `getBondingManager` and `getServiceRegistry`: the load that serves the ask, and the
state after it. -/
def getAddress (deps : RoutingDeps) (field : AddressField) (t : Int) (s : ChainReads) :
    Nat × ChainReads :=
  match s.cache.fresh field.key t with
  | some e => (e.load, s.served field.key t e)
  | none =>
      match field.begin deps with
      | .inl configured =>
          let u := s.started deps.chainReadTtlMs t ⟨.address field, .unneeded⟩
          (s.cache.loads.length,
            { u with cache := u.cache.succeed s.cache.loads.length (.address configured) })
      | .inr read =>
          (s.cache.loads.length,
            s.started deps.chainReadTtlMs t ⟨.address field, .running read⟩)

def getBondingManager (deps : RoutingDeps) (t : Int) (s : ChainReads) : Nat × ChainReads :=
  s.getAddress deps .bondingManager t

def getServiceRegistry (deps : RoutingDeps) (t : Int) (s : ChainReads) : Nat × ChainReads :=
  s.getAddress deps .serviceRegistry t

/-- `getPoolStakeMap` and `getServiceUri`, with what their loader awaits first. It asks
for its address before the entry of the field is stored. -/
def getField (deps : RoutingDeps) (field : Field)
    (address : Int → ChainReads → Nat × ChainReads) (times : Int × Int) (s : ChainReads) :
    Nat × ChainReads :=
  match s.cache.fresh field.key times.1 with
  | some e => (e.load, s.served field.key times.1 e)
  | none =>
      let (awaited, u) := address times.2 s
      (u.cache.loads.length,
        u.started deps.chainReadTtlMs times.1 ⟨.reading awaited field, u.readOn awaited field⟩)

def getPoolStakeMap (deps : RoutingDeps) : Int × Int → ChainReads → Nat × ChainReads :=
  getField deps .poolStakeMap (getBondingManager deps)

def getServiceUri (deps : RoutingDeps) (orch : String) :
    Int × Int → ChainReads → Nat × ChainReads :=
  getField deps (.serviceUri orch) (getServiceRegistry deps)

def ask (deps : RoutingDeps) : Field → Int × Int → ChainReads → Nat × ChainReads
  | .poolStakeMap => getPoolStakeMap deps
  | .serviceUri orch => getServiceUri deps orch

/-- The asks of a call, in order. -/
def askAll (deps : RoutingDeps) : List (Field × Int × Int) → ChainReads → ChainReads
  | [], s => s
  | (field, times) :: rest, s => askAll deps rest (ask deps field times s).2

def step (deps : RoutingDeps) (s : ChainReads) : ReadEvent → Option ChainReads
  | .call c times =>
      if times.length = c.fields.length then some (s.askAll deps (c.fields.zip times)) else none
  | .readSucceeds i result =>
      match s.works[i]? with
      | some ⟨_, .running read⟩ => (read.value result).map (s.readSucceeded i read)
      | _ => none
  | .readFails i =>
      match s.works[i]? with
      | some ⟨loader, .running read⟩ => some (s.readFailed i loader read)
      | _ => none

end ChainReads

/-- The routing service, from an empty cache; the clock may read anything. -/
def chainReads (deps : RoutingDeps) : Machine ChainReads ReadEvent where
  init := {}
  step := ChainReads.step deps

/-! ## What a step can do -/

/-- The address that the loader of the field awaits. -/
def Field.awaited : Field → AddressField
  | .poolStakeMap => .bondingManager
  | .serviceUri _ => .serviceRegistry

namespace ChainReads

/-- One ask of the cache. The load that the loader of a field awaits is the one its own
ask was served by; the entry of that load is stored. -/
inductive Asked (deps : RoutingDeps) (s : ChainReads) : ChainReads → Prop
  | served (key : CacheKey) (t : Int) (e : Entry CacheValue)
      (hfresh : s.cache.fresh key t = some e) : Asked deps s (s.served key t e)
  | configured (field : AddressField) (t : Int) (a : String)
      (hfresh : s.cache.fresh field.key t = none) (hbegin : field.begin deps = .inl a) :
      Asked deps s
        { s.started deps.chainReadTtlMs t ⟨.address field, .unneeded⟩ with
          cache := (s.started deps.chainReadTtlMs t ⟨.address field, .unneeded⟩).cache.succeed
            s.cache.loads.length (.address a) }
  | resolving (field : AddressField) (t : Int) (read : ChainRead)
      (hfresh : s.cache.fresh field.key t = none) (hbegin : field.begin deps = .inr read) :
      Asked deps s (s.started deps.chainReadTtlMs t ⟨.address field, .running read⟩)
  | reading (field : Field) (t : Int) (e : Entry CacheValue)
      (hstored : s.cache.store field.awaited.key = some e) :
      Asked deps s
        (s.started deps.chainReadTtlMs t ⟨.reading e.load field, s.readOn e.load field⟩)

theorem asked_getAddress (deps : RoutingDeps) (field : AddressField) (t : Int)
    (s : ChainReads) :
    Asked deps s (s.getAddress deps field t).2
      ∧ ∃ e, (s.getAddress deps field t).2.cache.store field.key = some e
        ∧ e.load = (s.getAddress deps field t).1 := by
  cases hf : s.cache.fresh field.key t with
  | some e =>
      rw [getAddress, hf]
      exact ⟨.served field.key t e hf, e, (TtlCache.fresh_eq_some.mp hf).1, rfl⟩
  | none =>
      cases hb : field.begin deps with
      | inl a =>
          simp only [getAddress, hf, hb]
          refine ⟨.configured field t a hf hb, ?_⟩
          simp [started, Loader.key, TtlCache.succeed, TtlCache.store_start]
      | inr read =>
          simp only [getAddress, hf, hb]
          refine ⟨.resolving field t read hf hb, ?_⟩
          simp [started, Loader.key, TtlCache.store_start]

theorem ask_eq_getField (deps : RoutingDeps) (field : Field) :
    ask deps field = getField deps field (getAddress deps field.awaited) := by
  cases field with
  | poolStakeMap => rfl
  | serviceUri orch => rfl

/-- What one ask keeps, a call keeps. -/
theorem askAll_induction {deps : RoutingDeps} {P : ChainReads → Prop}
    (hask : ∀ s u, P s → Asked deps s u → P u) :
    ∀ (asks : List (Field × Int × Int)) (s : ChainReads), P s → P (s.askAll deps asks)
  | [], _, hs => hs
  | (field, times) :: rest, s, hs => by
      refine askAll_induction hask rest _ ?_
      rw [ask_eq_getField]
      cases hf : s.cache.fresh field.key times.1 with
      | some e =>
          rw [getField, hf]
          exact hask s _ hs (.served _ _ e hf)
      | none =>
          rw [getField, hf]
          obtain ⟨hasked, e, he, hload⟩ := asked_getAddress deps field.awaited times.2 s
          simp only [← hload]
          exact hask _ _ (hask s _ hs hasked) (.reading field times.1 e he)

/-- The step relation, one constructor for each kind of turn. -/
inductive Trans (deps : RoutingDeps) (s : ChainReads) : ReadEvent → ChainReads → Prop
  | call (c : ApiCall) (times : List (Int × Int)) (hlength : times.length = c.fields.length) :
      Trans deps s (.call c times) (s.askAll deps (c.fields.zip times))
  | readSucceeds (i : Nat) (result : ReadResult) (loader : Loader) (read : ChainRead)
      (v : CacheValue) (hwork : s.works[i]? = some ⟨loader, .running read⟩)
      (hvalue : read.value result = some v) :
      Trans deps s (.readSucceeds i result) (s.readSucceeded i read v)
  | readFails (i : Nat) (loader : Loader) (read : ChainRead)
      (hwork : s.works[i]? = some ⟨loader, .running read⟩) :
      Trans deps s (.readFails i) (s.readFailed i loader read)

theorem trans_of_step {deps : RoutingDeps} {s u : ChainReads} {ev : ReadEvent}
    (h : s.step deps ev = some u) : s.Trans deps ev u := by
  cases ev with
  | call c times =>
      simp only [step, Option.ite_none_right_eq_some, Option.some.injEq] at h
      obtain ⟨hlength, rfl⟩ := h
      exact .call c times hlength
  | readSucceeds i result =>
      simp only [step] at h
      split at h
      · rename_i loader read hwork
        obtain ⟨v, hvalue, rfl⟩ := Option.map_eq_some_iff.mp h
        exact .readSucceeds i result loader read v hwork hvalue
      · cases h
  | readFails i =>
      simp only [step] at h
      split at h
      · rename_i loader read hwork
        exact Option.some.inj h ▸ .readFails i loader read hwork
      · cases h

/-! ## Loads and what their loaders are at -/

/-- A load and what its loader is at agree. -/
structure Fits (w : Work) (l : Load CacheKey CacheValue) : Prop where
  key_eq : l.key = w.loader.key
  ended : ∀ v, l.outcome = .fulfilled v →
    w.read.isDone = true ∨ w.read.isFailed = true ∧ w.loader.caught = some v
  thrown : w.read.isFailed = true → w.loader.caught = none → l.outcome = .rejected

/-- The cache and what the loads are at agree. -/
structure ReadsInv (ttlMs : Int) (s : ChainReads) : Prop where
  length : s.works.length = s.cache.loads.length
  coherent : s.cache.Coherent ttlMs
  fits : ∀ i w l, s.At i w l → Fits w l
  awaits : ∀ i w l, s.At i w l → ∀ j field, w.loader = .reading j field →
    ∃ awaited, s.works[j]? = some awaited ∧ Awaits w l awaited

theorem readsInv_init (ttlMs : Int) : ReadsInv ttlMs ({} : ChainReads) :=
  ⟨rfl, TtlCache.coherent_empty ttlMs, fun _ _ _ h => (by cases h.work),
    fun _ _ _ h => (by cases h.work)⟩

/-- Every load has a work, and every work a load. -/
theorem ReadsInv.at_of_work {ttlMs : Int} {s : ChainReads} (h : ReadsInv ttlMs s) {i : Nat}
    {w : Work} (hw : s.works[i]? = some w) : ∃ l, s.At i w l := by
  have hlt : i < s.cache.loads.length := h.length ▸ (List.getElem?_eq_some_iff.mp hw).1
  exact ⟨_, hw, List.getElem?_eq_getElem hlt⟩

theorem ReadsInv.at_of_load {ttlMs : Int} {s : ChainReads} (h : ReadsInv ttlMs s) {i : Nat}
    {l : Load CacheKey CacheValue} (hl : s.cache.loads[i]? = some l) : ∃ w, s.At i w l := by
  have hlt : i < s.works.length := h.length ▸ (List.getElem?_eq_some_iff.mp hl).1
  exact ⟨_, List.getElem?_eq_getElem hlt, hl⟩

/-- A stored entry has a load that has not been rejected, with the key of the entry. -/
theorem ReadsInv.at_of_stored {ttlMs : Int} {s : ChainReads} (h : ReadsInv ttlMs s)
    {key : CacheKey} {e : Entry CacheValue} (he : s.cache.store key = some e) :
    ∃ w l, s.At e.load w l ∧ w.loader.key = key ∧ l.outcome ≠ .rejected := by
  obtain ⟨l, hmade⟩ := h.coherent key e he
  obtain ⟨w, hat⟩ := h.at_of_load hmade.load
  exact ⟨w, l, hat, by rw [← (h.fits _ _ _ hat).key_eq, hmade.key_eq], hmade.live⟩

/-- The loads under the key of an address are loads of the address. -/
theorem loader_of_key {loader : Loader} {field : AddressField} (h : loader.key = field.key) :
    loader = .address field := by
  cases loader with
  | address field' =>
      cases field' <;> cases field <;> first | rfl | cases h
  | reading j field' =>
      cases field' <;> cases field <;> cases h

/-- A load that starts leaves the others as they are. -/
theorem ReadsInv.append {ttlMs : Int} {s u : ChainReads} (h : ReadsInv ttlMs s) {work : Work}
    {load : Load CacheKey CacheValue} (hworks : u.works = s.works ++ [work])
    (hloads : u.cache.loads = s.cache.loads ++ [load]) (hcoherent : u.cache.Coherent ttlMs)
    (hfits : Fits work load)
    (hawaits : ∀ j field, work.loader = .reading j field →
      ∃ awaited, s.works[j]? = some awaited ∧ Awaits work load awaited) :
    ReadsInv ttlMs u := by
  have hat : ∀ i w l, u.At i w l → s.At i w l ∨ w = work ∧ l = load := by
    rintro i w l ⟨hw, hl⟩
    rw [hworks, List.getElem?_append] at hw
    rw [hloads, List.getElem?_append, ← h.length] at hl
    split at hw
    · rename_i hlt
      rw [if_pos hlt] at hl
      exact Or.inl ⟨hw, hl⟩
    · rename_i hge
      rw [if_neg hge] at hl
      exact Or.inr ⟨(List.mem_singleton.mp (List.mem_of_getElem? hw)),
        (List.mem_singleton.mp (List.mem_of_getElem? hl))⟩
  have hold : ∀ (j : Nat) (w : Work), s.works[j]? = some w → u.works[j]? = some w := by
    intro j w hw
    rw [hworks, List.getElem?_append_left (List.getElem?_eq_some_iff.mp hw).1]
    exact hw
  refine ⟨by rw [hworks, hloads]; simp [h.length], hcoherent, ?_, ?_⟩
  · intro i w l hu
    rcases hat i w l hu with hs | ⟨rfl, rfl⟩
    · exact h.fits i w l hs
    · exact hfits
  · intro i w l hu j field hloader
    rcases hat i w l hu with hs | ⟨rfl, rfl⟩
    · obtain ⟨awaited, hj, ha⟩ := h.awaits i w l hs j field hloader
      exact ⟨awaited, hold j awaited hj, ha⟩
    · obtain ⟨awaited, hj, ha⟩ := hawaits j field hloader
      exact ⟨awaited, hold j awaited hj, ha⟩

theorem ReadsInv.started {ttlMs : Int} {s : ChainReads} (h : ReadsInv ttlMs s) (t : Int)
    {work : Work} (hread : work.read.isFailed = false)
    (hawaits : ∀ j field, work.loader = .reading j field →
      ∃ awaited, s.works[j]? = some awaited
        ∧ Awaits work { key := work.loader.key, startedAt := t } awaited) :
    ReadsInv ttlMs (s.started ttlMs t work) :=
  h.append rfl rfl (h.coherent.start _ t)
    ⟨rfl, fun _ hv => (by cases hv), fun hf => (by rw [hread] at hf; cases hf)⟩ hawaits

/-- The load of an entry of an address, as the loader that asked for it sees it. -/
theorem ReadsInv.awaits_stored {ttlMs : Int} {s : ChainReads} (h : ReadsInv ttlMs s)
    {address : AddressField} {e : Entry CacheValue}
    (he : s.cache.store address.key = some e) (field : Field) (l : Load CacheKey CacheValue) :
    ∃ awaited, s.works[e.load]? = some awaited
      ∧ Awaits ⟨.reading e.load field, s.readOn e.load field⟩ l awaited := by
  obtain ⟨w, l', hat, hkey, hlive⟩ := h.at_of_stored he
  have hloader := loader_of_key hkey
  have hcaught : w.loader.caught = none := by rw [hloader]; rfl
  refine ⟨w, hat.work, ⟨address, hloader⟩, ?_, ?_⟩
  · intro hread
    cases hv : l'.outcome with
    | fulfilled v =>
        rcases (h.fits _ _ _ hat).ended v hv with hdone | ⟨-, hsome⟩
        · exact hdone
        · rw [hcaught] at hsome
          cases hsome
    | pending => simp [readOn, valueOf, hat.load, hv, Outcome.value?] at hread
    | rejected => exact absurd hv hlive
  · intro hfailed
    exact absurd ((h.fits _ _ _ hat).thrown hfailed hcaught) hlive

theorem ReadsInv.served {ttlMs : Int} {s : ChainReads} (h : ReadsInv ttlMs s) (key : CacheKey)
    (t : Int) (e : Entry CacheValue) : ReadsInv ttlMs (s.served key t e) :=
  ⟨h.length, h.coherent, fun i w l hu => h.fits i w l ⟨hu.work, hu.load⟩,
    fun i w l hu => h.awaits i w l ⟨hu.work, hu.load⟩⟩

theorem ReadsInv.asked {deps : RoutingDeps} {s u : ChainReads}
    (h : ReadsInv deps.chainReadTtlMs s) (ha : Asked deps s u) :
    ReadsInv deps.chainReadTtlMs u := by
  cases ha with
  | served key t e hfresh => exact h.served key t e
  | configured field t a hfresh hbegin =>
      have hloads : ((s.started deps.chainReadTtlMs t ⟨.address field, .unneeded⟩).cache.succeed
          s.cache.loads.length (.address a)).loads
          = s.cache.loads ++ [⟨field.key, t, .fulfilled (.address a)⟩] := by
        simp [TtlCache.succeed, ChainReads.started, TtlCache.start, Loader.key,
          List.modify_eq_take_drop]
      exact h.append rfl hloads ((h.coherent.start _ t).succeed _ _)
        ⟨rfl, fun _ _ => Or.inl rfl, fun hf => (by cases hf)⟩ fun _ _ hloader => (by cases hloader)
  | resolving field t read hfresh hbegin =>
      exact h.started t rfl fun _ _ hloader => by cases hloader
  | reading field t e hstored =>
      refine h.started t ?_ ?_
      · simp only [readOn]
        split <;> rfl
      · rintro j field' ⟨⟩
        exact h.awaits_stored hstored field _

theorem ReadsInv.readSucceeded {ttlMs : Int} {s : ChainReads} (h : ReadsInv ttlMs s) {n : Nat}
    {loader : Loader} {read : ChainRead} (hwork : s.works[n]? = some ⟨loader, .running read⟩)
    (v : CacheValue) : ReadsInv ttlMs (s.readSucceeded n read v) := by
  refine ⟨by simp [ChainReads.readSucceeded, TtlCache.succeed, h.length],
    h.coherent.succeed n v, ?_, ?_⟩
  · intro i w' l' hu
    obtain ⟨w, l, hat, rfl, rfl⟩ := at_readSucceeded hu
    have hfits := h.fits i w l hat
    obtain ⟨hfailed, hdone⟩ :=
      Work.read_resume n v (if n = i then { w with read := .succeeded read } else w)
    refine ⟨?_, ?_, ?_⟩
    · rw [Work.loader_resume]
      split <;> exact hfits.key_eq
    · rw [hfailed, hdone, Work.loader_resume]
      split
      · exact fun _ _ => Or.inl rfl
      · exact hfits.ended
    · rw [hfailed, Work.loader_resume]
      split
      · intro hf
        cases hf
      · exact hfits.thrown
  · intro i w' l' hu j field hloader
    obtain ⟨w, l, hat, rfl, rfl⟩ := at_readSucceeded hu
    rw [Work.loader_resume] at hloader
    replace hloader : w.loader = .reading j field := by
      split at hloader <;> exact hloader
    obtain ⟨awaited, hj, ha⟩ := h.awaits i w l hat j field hloader
    obtain ⟨address, haddress⟩ := ha.address
    have hstays : ∀ read, Work.resume n v ⟨awaited.loader, read⟩ = ⟨awaited.loader, read⟩ :=
      fun read => Work.resume_eq_self (by rw [haddress]; rfl)
    refine ⟨if n = j then { awaited with read := .succeeded read } else awaited, ?_, ?_⟩
    · simp only [ChainReads.readSucceeded, List.getElem?_map, List.getElem?_modify, hj,
        Option.map_eq_map, Option.map_some]
      split <;> rw [hstays]
    · by_cases hjn : n = j
      · -- the awaited load ends with its value
        rw [if_pos hjn]
        exact ⟨⟨address, haddress⟩, fun _ => rfl, fun hf => by cases hf⟩
      · rw [if_neg hjn]
        by_cases hi : n = i
        · subst hi
          obtain rfl := Option.some.inj (hwork.symm.trans hat.work)
          have hdone := ha.done (by simp)
          exact ⟨⟨address, haddress⟩, fun _ => hdone, fun hf => by
            rw [ReadState.isFailed_of_isDone hdone] at hf; cases hf⟩
        · have hself : w.resume n v = w := Work.resume_eq_self (by
            rw [Bool.eq_false_iff]
            intro hwaits
            obtain ⟨-, field', hl⟩ := Work.waitsFor_iff.mp hwaits
            rw [hloader] at hl
            injection hl with hjn'
            exact hjn hjn'.symm)
          rw [if_neg hi, if_neg hi, hself]
          exact ha

/-- The loader catches: the load ends with a value. -/
theorem ReadsInv.readCaught {ttlMs : Int} {s : ChainReads} (h : ReadsInv ttlMs s) {n : Nat}
    {loader : Loader} {read : ChainRead} (hwork : s.works[n]? = some ⟨loader, .running read⟩)
    {v : CacheValue} (hcaught : loader.caught = some v) :
    ReadsInv ttlMs (s.readFailed n loader read) := by
  refine ⟨by simp [ChainReads.readFailed, hcaught, TtlCache.succeed, h.length], ?_, ?_, ?_⟩
  · simp only [ChainReads.readFailed, hcaught]
    exact h.coherent.succeed n v
  · intro i w' l' hu
    obtain ⟨w, l, hat, rfl, rfl⟩ := at_readFailed hu
    have hfits := h.fits i w l hat
    simp only [hcaught]
    by_cases hi : n = i
    · subst hi
      obtain rfl := Option.some.inj (hwork.symm.trans hat.work)
      rw [if_pos rfl, if_pos rfl]
      refine ⟨hfits.key_eq, ?_, fun _ hnone => by rw [hcaught] at hnone; cases hnone⟩
      rintro _ ⟨⟩
      exact Or.inr ⟨rfl, hcaught⟩
    · rw [if_neg hi, if_neg hi]
      exact hfits
  · intro i w' l' hu j field hloader
    obtain ⟨w, l, hat, rfl, rfl⟩ := at_readFailed hu
    replace hloader : w.loader = .reading j field := by
      split at hloader <;> exact hloader
    obtain ⟨awaited, hj, ha⟩ := h.awaits i w l hat j field hloader
    obtain ⟨address, haddress⟩ := ha.address
    have hnj : n ≠ j := by
      rintro rfl
      obtain rfl := Option.some.inj (hwork.symm.trans hj)
      obtain rfl : loader = .address address := haddress
      cases hcaught
    refine ⟨awaited, by simp [ChainReads.readFailed, hnj, hj], ?_⟩
    simp only [hcaught]
    by_cases hi : n = i
    · subst hi
      obtain rfl := Option.some.inj (hwork.symm.trans hat.work)
      have hread : ReadState.running read ≠ .waiting := by simp
      exact ⟨⟨address, haddress⟩, fun _ => ha.done hread, fun hf => by
        rw [ha.notFailed hread] at hf; cases hf⟩
    · rw [if_neg hi, if_neg hi]
      exact ha

/-- The loader throws: the load is rejected, and with it all that wait for it. -/
theorem ReadsInv.readThrown {ttlMs : Int} {s : ChainReads} (h : ReadsInv ttlMs s) {n : Nat}
    {loader : Loader} {read : ChainRead} (hwork : s.works[n]? = some ⟨loader, .running read⟩)
    (hcaught : loader.caught = none) : ReadsInv ttlMs (s.readFailed n loader read) := by
  have hloads : (s.readFailed n loader read).cache
      = (n :: s.waitingFor n).foldl TtlCache.fail s.cache := by
    simp only [ChainReads.readFailed, hcaught]
  refine ⟨?_, hloads ▸ h.coherent.failAll, ?_, ?_⟩
  · rw [hloads, TtlCache.length_failAll]
    simp [ChainReads.readFailed, h.length]
  · intro i w' l' hu
    obtain ⟨w, l, hat, rfl, rfl⟩ := at_readFailed hu
    have hfits := h.fits i w l hat
    simp only [hcaught]
    by_cases hmem : i ∈ n :: s.waitingFor n
    · rw [if_pos hmem]
      refine ⟨?_, fun _ hv => (by cases hv), fun _ _ => rfl⟩
      split <;> exact hfits.key_eq
    · have hi : n ≠ i := fun hni => hmem (hni ▸ List.mem_cons_self ..)
      rw [if_neg hmem, if_neg hi]
      exact hfits
  · intro i w' l' hu j field hloader
    obtain ⟨w, l, hat, rfl, rfl⟩ := at_readFailed hu
    replace hloader : w.loader = .reading j field := by
      split at hloader <;> exact hloader
    obtain ⟨awaited, hj, ha⟩ := h.awaits i w l hat j field hloader
    obtain ⟨address, haddress⟩ := ha.address
    simp only [hcaught]
    by_cases hnj : n = j
    · -- the awaited load throws, so this one has been waiting and throws too
      subst hnj
      obtain rfl := Option.some.inj (hwork.symm.trans hj)
      have hwaiting : w.read = .waiting := by
        by_contra hread
        exact absurd (ha.done hread) (by simp [ReadState.isDone])
      have hi : n ≠ i := by
        rintro rfl
        obtain rfl := Option.some.inj (hwork.symm.trans hat.work)
        cases hwaiting
      have hmem : i ∈ n :: s.waitingFor n := List.mem_cons_of_mem _
        (mem_waitingFor.mpr ⟨w, hat.work, Work.waitsFor_iff.mpr ⟨hwaiting, field, hloader⟩⟩)
      refine ⟨⟨loader, .failed read⟩, by simp [ChainReads.readFailed, hwork], ?_⟩
      rw [if_neg hi, if_pos hmem]
      exact ⟨⟨address, haddress⟩, fun hread => absurd hwaiting hread, fun _ => rfl⟩
    · refine ⟨awaited, by simp [ChainReads.readFailed, hnj, hj], ⟨address, haddress⟩, ?_, ?_⟩
      · intro hread
        refine ha.done fun hwaiting => ?_
        split at hread
        · rename_i hi
          subst hi
          obtain rfl := Option.some.inj (hwork.symm.trans hat.work)
          cases hwaiting
        · exact hread hwaiting
      · intro hf
        split
        · rfl
        · exact ha.doomed hf

theorem ReadsInv.readFailed {ttlMs : Int} {s : ChainReads} (h : ReadsInv ttlMs s) {n : Nat}
    {loader : Loader} {read : ChainRead} (hwork : s.works[n]? = some ⟨loader, .running read⟩) :
    ReadsInv ttlMs (s.readFailed n loader read) := by
  cases hc : loader.caught with
  | some v => exact h.readCaught hwork hc
  | none => exact h.readThrown hwork hc

theorem ReadsInv.trans {deps : RoutingDeps} {s u : ChainReads} {ev : ReadEvent}
    (h : ReadsInv deps.chainReadTtlMs s) (hst : s.Trans deps ev u) :
    ReadsInv deps.chainReadTtlMs u := by
  cases hst with
  | call c times hlength => exact askAll_induction (fun s u h ha => h.asked ha) _ s h
  | readSucceeds i result loader read v hwork hvalue => exact h.readSucceeded hwork v
  | readFails i loader read hwork => exact h.readFailed hwork

/-- **The cache and the loaders agree along every run**, whatever the clock reads and
whichever reads fail. -/
theorem readsInv (deps : RoutingDeps) :
    (chainReads deps).Invariant (ReadsInv deps.chainReadTtlMs) :=
  ⟨readsInv_init _, fun _ _ _ h hst => h.trans (trans_of_step hst)⟩

end ChainReads

end Service

end GatewayConsole
