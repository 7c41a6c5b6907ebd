import GatewayConsole.ReadRecords

/-!
# The spelling of an address and its serviceURI

`getServiceUri` caches under the lower-case address, and reads under the address as its
caller spells it. viem takes an address that is in lower case or has the case of its
checksum, and throws at any other; the loader catches that, and the null it returns is then
stored for every spelling.

The chain is fixed here (`ChainState`), so that a read ends in one way. `uriReported_iff` is
when every call for an orch reports what the chain has, in whatever case it or another call
spells the address, and with it the rows of `listOrchs` and `getOrch`.
-/

namespace GatewayConsole

/-- The chain as viem reads it, where none is a read that throws. -/
structure ChainState where
  bondingManager : Option String
  serviceRegistry : Option String
  /-- By the address of the BondingManager. -/
  pool : String → Option (List BondingPoolEntry)
  /-- By the address of the ServiceRegistry and the lower-case address of the orch. -/
  serviceUri : String → String → Option String
  /-- The checksummed form of a lower-case address. -/
  checksum : String → String

/-- The address that the loader of the ServiceRegistry ends with. -/
def ChainState.registry (w : ChainState) (deps : RoutingDeps) : Option String :=
  match AddressField.serviceRegistry.begin deps with
  | .inl configured => some configured
  | .inr _ => w.serviceRegistry

inductive FixedEvent where
  | call (c : ApiCall) (times : List (Int × Int))
  /-- A chain read ends, in the way the chain has it. -/
  | readEnds (load : Nat)
deriving Repr, DecidableEq

namespace ChainReads

/-- Every load of a key that has ended with a value has one that the key allows. -/
def ValuesAre (Q : CacheKey → CacheValue → Prop) (s : ChainReads) : Prop :=
  ∀ (i : Nat) (l : Load CacheKey CacheValue) (v : CacheValue), s.cache.loads[i]? = some l →
    l.outcome = .fulfilled v → Q l.key v

/-- A load ends with a value that its key allows. -/
theorem ValuesAre.succeed {Q : CacheKey → CacheValue → Prop} {s : ChainReads}
    (h : ValuesAre Q s) {n : Nat} {v : CacheValue}
    (hv : ∀ l, s.cache.loads[n]? = some l → Q l.key v) {i : Nat}
    {l' : Load CacheKey CacheValue} {v' : CacheValue}
    (hl' : (s.cache.succeed n v).loads[i]? = some l')
    (ho : l'.outcome = .fulfilled v') : Q l'.key v' := by
  obtain ⟨l, hl, rfl⟩ := TtlCache.getElem?_succeed.mp hl'
  by_cases hni : n = i
  · subst hni
    rw [if_pos rfl] at ho ⊢
    obtain rfl := Outcome.fulfilled.inj ho
    exact hv l hl
  · rw [if_neg hni] at ho ⊢
    exact h i l v' hl ho

theorem ValuesAre.readFailed {Q : CacheKey → CacheValue → Prop} {s : ChainReads}
    (h : ValuesAre Q s) {n : Nat} {loader : Loader} (read : ChainRead)
    (hv : ∀ v, loader.caught = some v → ∀ l, s.cache.loads[n]? = some l → Q l.key v) :
    ValuesAre Q (s.readFailed n loader read) := by
  intro i l' v' hl' ho
  simp only [ChainReads.readFailed] at hl'
  cases hc : loader.caught with
  | some v =>
      rw [hc] at hl'
      exact h.succeed (hv v hc) hl' ho
  | none =>
      rw [hc] at hl'
      obtain ⟨l, hl, rfl⟩ := TtlCache.getElem?_failAll.mp hl'
      split at ho
      · cases ho
      · next hmem =>
          rw [if_neg hmem]
          exact h i l v' hl ho

end ChainReads

/-! ## What the calls report -/

/-- Every call that is answered for the orch is answered with its serviceURI. -/
def UriReported (x uri : String) (s : ChainReads) : Prop :=
  ∀ a ∈ s.asks, a.key = .serviceUri x → ∀ v, s.valueOf a.load = some v →
    v = .serviceUri (some uri)

/-- A call that asks for the orch is answered with this serviceURI. -/
def ChainReads.Reports (x : String) (s : ChainReads) (uri : Option String) : Prop :=
  ∃ a ∈ s.asks, a.key = .serviceUri x ∧ s.valueOf a.load = some (.serviceUri uri)

theorem UriReported.reports {x uri : String} {s : ChainReads} (h : UriReported x uri s)
    {u : Option String} (hu : s.Reports x u) : u = some uri := by
  obtain ⟨a, ha, hkey, hv⟩ := hu
  exact CacheValue.serviceUri.inj (h a ha hkey _ hv)

section Service

variable [Unicode]

/-- The serviceURIs that a call for these orchs has awaited: each is the answer to an ask for
its orch. -/
def ChainReads.Answers (s : ChainReads) (orchs : List String) (chain : ChainAnswers) : Prop :=
  ∀ orch ∈ orchs, s.Reports (toLowerCase orch) (chain.serviceUri orch)

/-- The rows of the orch, in every roster and every detail, have its serviceURI. -/
structure RowsReport (x uri : String) (s : ChainReads) : Prop where
  roster : ∀ (known : List KnownOrch) (chain : ChainAnswers),
    s.Answers (known.map (·.address)) chain → ∀ row ∈ listOrchs known chain,
      toLowerCase row.address = x → row.serviceUri = some uri
  detail : ∀ (address : String) (resolved : Option ResolvedOrch)
    (observationsRaw : List RoutingObservationRow) (chain : ChainAnswers),
    s.Answers [address] chain → toLowerCase address = x → ∀ row,
      (getOrch address resolved observationsRaw chain).orch = some row →
        row.serviceUri = some uri

/-- In the detail, what the resolver has comes second. -/
theorem UriReported.rowsReport {x uri : String} {s : ChainReads} (h : UriReported x uri s) :
    RowsReport x uri s where
  roster known chain hanswers row hrow hx := by
    obtain ⟨k, hk, rfl⟩ := List.mem_map.mp hrow
    obtain rfl : toLowerCase k.address = x := hx
    exact h.reports (hanswers k.address (List.mem_map_of_mem hk))
  detail address resolved observationsRaw chain hanswers hx row hrow := by
    have huri : chain.serviceUri address = some uri :=
      h.reports (hx ▸ hanswers address List.mem_cons_self)
    cases resolved with
    | none => cases hrow
    | some resolved =>
        obtain rfl := Option.some.inj hrow
        simp only [rosterRowFromResolved, huri, Option.some_or]

/-! ## The reads of a fixed chain -/

namespace ChainState

/-- viem takes an address that is in lower case or checksummed. -/
def acceptsSpelling (w : ChainState) (address : String) : Bool :=
  toLowerCase address = address || w.checksum (toLowerCase address) = address

def answer (w : ChainState) : ChainRead → Option ReadResult
  | .resolveBondingManager _ => w.bondingManager.map .address
  | .resolveServiceRegistry _ => w.serviceRegistry.map .address
  | .bondingManagerListPool bm => (w.pool bm).map .pool
  | .readServiceUri sr orch =>
      if w.acceptsSpelling orch then (w.serviceUri sr (toLowerCase orch)).map .uri else none

def step (w : ChainState) (deps : RoutingDeps) (s : ChainReads) : FixedEvent → Option ChainReads
  | .call c times => s.step deps (.call c times)
  | .readEnds i =>
      match s.works[i]? with
      | some ⟨_, .running read⟩ =>
          match w.answer read with
          | some result => s.step deps (.readSucceeds i result)
          | none => s.step deps (.readFails i)
      | _ => none

end ChainState

/-- The routing service over a chain that does not change. -/
def fixedChain (deps : RoutingDeps) (w : ChainState) : Machine ChainReads FixedEvent where
  init := {}
  step := w.step deps

/-- What a turn does to the reads. -/
inductive ChainState.Turn (w : ChainState) (deps : RoutingDeps) (s : ChainReads) :
    FixedEvent → ChainReads → Prop
  | call (c : ApiCall) (times : List (Int × Int)) :
      Turn w deps s (.call c times) (s.askAll deps (c.fields.zip times))
  | succeeds (i : Nat) (loader : Loader) (read : ChainRead) (result : ReadResult) (v : CacheValue)
      (hwork : s.works[i]? = some ⟨loader, .running read⟩) (hanswer : w.answer read = some result)
      (hvalue : read.value result = some v) :
      Turn w deps s (.readEnds i) (s.readSucceeded i read v)
  | fails (i : Nat) (loader : Loader) (read : ChainRead)
      (hwork : s.works[i]? = some ⟨loader, .running read⟩) (hanswer : w.answer read = none) :
      Turn w deps s (.readEnds i) (s.readFailed i loader read)

/-- A turn over a fixed chain is one over any. -/
theorem ChainState.turn_of_step {w : ChainState} {deps : RoutingDeps} {s u : ChainReads}
    {ev : FixedEvent} (h : w.step deps s ev = some u) :
    w.Turn deps s ev u ∧ ∃ ev', s.Trans deps ev' u := by
  cases ev with
  | call c times =>
      have hst : s.step deps (.call c times) = some u := h
      have htrans := ChainReads.trans_of_step hst
      refine ⟨?_, _, htrans⟩
      cases htrans with
      | call c times hlength => exact .call c times
  | readEnds i =>
      simp only [step] at h
      split at h
      · next loader read hwork =>
          split at h
          · next result hanswer =>
              have htrans := ChainReads.trans_of_step h
              refine ⟨?_, _, htrans⟩
              cases htrans with
              | readSucceeds i result loader' read' v hwork' hvalue =>
                  obtain ⟨rfl, hread⟩ := Work.mk.inj (Option.some.inj (hwork.symm.trans hwork'))
                  obtain rfl := ReadState.running.inj hread
                  exact .succeeds i loader read result v hwork hanswer hvalue
          · next hanswer =>
              have htrans := ChainReads.trans_of_step h
              refine ⟨?_, _, htrans⟩
              cases htrans with
              | readFails i loader' read' hwork' =>
                  obtain ⟨rfl, hread⟩ := Work.mk.inj (Option.some.inj (hwork.symm.trans hwork'))
                  obtain rfl := ReadState.running.inj hread
                  exact .fails i loader read hwork hanswer
      · cases h

namespace ChainReads

/-! ## The values of the loads -/

theorem ValuesAre.asked {Q : CacheKey → CacheValue → Prop} {deps : RoutingDeps}
    {s u : ChainReads} (h : ValuesAre Q s)
    (hconfigured : ∀ field a, AddressField.begin deps field = .inl a → Q field.key (.address a))
    (ha : Asked deps s u) : ValuesAre Q u := by
  cases ha with
  | served key t e hfresh => exact h
  | configured field t a hfresh hbegin =>
      intro i l' v hl' ho
      obtain ⟨l, hl, rfl⟩ := TtlCache.getElem?_succeed.mp hl'
      rcases TtlCache.getElem?_start.mp hl with hold | ⟨rfl, rfl⟩
      · have hne := Nat.ne_of_gt (List.getElem?_eq_some_iff.mp hold).1
        rw [if_neg hne] at ho ⊢
        exact h i l v hold ho
      · rw [if_pos rfl] at ho ⊢
        obtain rfl := Outcome.fulfilled.inj ho
        exact hconfigured field a hbegin
  | resolving field t read hfresh hbegin =>
      intro i l v hl ho
      rcases TtlCache.getElem?_start.mp hl with hold | ⟨-, rfl⟩
      · exact h i l v hold ho
      · cases ho
  | reading field t e hstored =>
      intro i l v hl ho
      rcases TtlCache.getElem?_start.mp hl with hold | ⟨-, rfl⟩
      · exact h i l v hold ho
      · cases ho

end ChainReads

/-! ## An orch on the chain -/

/-- The orch `x` has the serviceURI `uri`, at a registry that resolves. -/
structure OrchOnChain (w : ChainState) (deps : RoutingDeps) (x registry uri : String) : Prop where
  registry_eq : w.registry deps = some registry
  uri_eq : w.serviceUri registry x = some uri
  nonempty : uri ≠ ""

/-- The values that the registry and the serviceURI of the orch are loaded with. -/
def UriAllows (x registry uri : String) (key : CacheKey) (v : CacheValue) : Prop :=
  (key = .serviceRegistry → v = .address registry)
    ∧ (key = .serviceUri x → v = .serviceUri (some uri))

/-- A read of the serviceURI of the orch that ends was made under a spelling that viem takes. -/
def ChainState.AcceptedReads (w : ChainState) (x : String) (s : ChainReads) (ev : FixedEvent) :
    Prop :=
  ∀ i awaited orch state, ev = .readEnds i →
    s.works[i]? = some ⟨.reading awaited (.serviceUri orch), state⟩ → toLowerCase orch = x →
    w.acceptsSpelling orch = true

structure UriInv (w : ChainState) (deps : RoutingDeps) (x registry uri : String) (s : ChainReads) :
    Prop where
  reads : ChainReads.ReadsInv deps.chainReadTtlMs s
  made : s.ReadsMade deps
  recorded : ChainReads.Recorded deps.chainReadTtlMs s.births s.loaders s.asks
  values : ChainReads.ValuesAre (UriAllows x registry uri) s

section Orch

variable {w : ChainState} {deps : RoutingDeps} {x registry uri : String}

theorem answer_readServiceUri (h : OrchOnChain w deps x registry uri) {orch : String}
    (hx : toLowerCase orch = x) :
    w.answer (.readServiceUri registry orch)
      = if w.acceptsSpelling orch then some (.uri uri) else none := by
  rw [ChainState.answer, hx, h.uri_eq]
  rfl

/-- The read of the orch is made at the address that the registry resolves to. -/
theorem UriInv.read_eq {s : ChainReads} (h : UriInv w deps x registry uri s) {i awaited : Nat}
    {orch : String} {read : ChainRead}
    (hwork : s.works[i]? = some ⟨.reading awaited (.serviceUri orch), .running read⟩) :
    read = .readServiceUri registry orch := by
  obtain ⟨address, hv, rfl⟩ := h.made i _ read hwork rfl
  obtain ⟨l, hl, ho⟩ := ChainReads.fulfilled_of_valueOf hv
  obtain ⟨t, hbirth⟩ := h.recorded.awaited i awaited _
    (ChainReads.getElem?_loaders.mpr ⟨_, hwork, rfl⟩)
  obtain ⟨l', hl', hkey, -⟩ := ChainReads.getElem?_births.mp hbirth
  obtain rfl := Option.some.inj (hl.symm.trans hl')
  obtain rfl := CacheValue.address.inj ((h.values awaited l _ hl ho).1 hkey)
  rfl

/-- The value of a read that succeeds is one that the key of its load allows. -/
theorem UriInv.allows_of_succeeds {s : ChainReads} (h : UriInv w deps x registry uri s)
    (horch : OrchOnChain w deps x registry uri) {i : Nat} {loader : Loader} {read : ChainRead}
    {result : ReadResult} {v : CacheValue}
    (hwork : s.works[i]? = some ⟨loader, .running read⟩) (hanswer : w.answer read = some result)
    (hvalue : read.value result = some v) : UriAllows x registry uri loader.key v := by
  cases loader with
  | address field =>
      refine ⟨fun hkey => ?_, fun hkey => (by cases field <;> cases hkey)⟩
      cases field with
      | bondingManager => cases hkey
      | serviceRegistry =>
          have hbegin : AddressField.begin deps .serviceRegistry = .inr read :=
            h.made i _ read hwork rfl
          have hread : read = .resolveServiceRegistry deps.controllerAddress := by
            simp only [AddressField.begin] at hbegin
            split at hbegin
            · cases hbegin
            · exact (Sum.inr.inj hbegin).symm
          have hregistry : w.serviceRegistry = some registry := by
            have heq := horch.registry_eq
            rwa [ChainState.registry, hbegin] at heq
          subst hread
          rw [ChainState.answer, hregistry] at hanswer
          obtain rfl := Option.some.inj hanswer
          exact (Option.some.inj hvalue).symm
  | reading awaited field =>
      refine ⟨fun hkey => (by cases field <;> cases hkey), fun hkey => ?_⟩
      cases field with
      | poolStakeMap => cases hkey
      | serviceUri orch =>
          obtain rfl := h.read_eq hwork
          rw [answer_readServiceUri horch (CacheKey.serviceUri.inj hkey)] at hanswer
          obtain ⟨-, hresult⟩ := Option.ite_none_right_eq_some.mp hanswer
          obtain rfl := Option.some.inj hresult
          rw [ChainRead.value, orNull, if_neg horch.nonempty] at hvalue
          exact (Option.some.inj hvalue).symm

theorem UriInv.step {s u : ChainReads} {ev : FixedEvent} (h : UriInv w deps x registry uri s)
    (horch : OrchOnChain w deps x registry uri) (haccepted : w.AcceptedReads x s ev)
    (hst : w.step deps s ev = some u) : UriInv w deps x registry uri u := by
  obtain ⟨hturn, ev', htrans⟩ := ChainState.turn_of_step hst
  have hreads : ChainReads.ReadsInv deps.chainReadTtlMs u := h.reads.trans htrans
  refine ⟨hreads, h.made.trans h.reads htrans,
    ChainReads.recorded_trans h.reads h.recorded htrans, ?_⟩
  cases hturn with
  | call c times =>
      refine ChainReads.askAll_induction (fun s u hv ha => hv.asked (fun field a hbegin => ?_) ha) _
        s h.values
      refine ⟨fun hkey => ?_, fun hkey => (by cases field <;> cases hkey)⟩
      cases field with
      | bondingManager => cases hkey
      | serviceRegistry =>
          have heq := horch.registry_eq
          rw [ChainState.registry, hbegin] at heq
          rw [Option.some.inj heq]
  | succeeds i loader read result v hwork hanswer hvalue =>
      intro j l v' hl ho
      refine h.values.succeed (fun l hl => ?_) hl ho
      rw [(h.reads.fits i _ l ⟨hwork, hl⟩).key_eq]
      exact h.allows_of_succeeds horch hwork hanswer hvalue
  | fails i loader read hwork hanswer =>
      refine h.values.readFailed read fun v hcaught l hl => ?_
      rw [(h.reads.fits i _ l ⟨hwork, hl⟩).key_eq]
      cases loader with
      | address field => cases hcaught
      | reading awaited field =>
          refine ⟨fun hkey => (by cases field <;> cases hkey), fun hkey => ?_⟩
          cases field with
          | poolStakeMap => cases hkey
          | serviceUri orch =>
              have hx : toLowerCase orch = x := CacheKey.serviceUri.inj hkey
              obtain rfl := h.read_eq hwork
              rw [answer_readServiceUri horch hx, haccepted i awaited orch _ rfl hwork hx]
                at hanswer
              cases hanswer

theorem uriInv_init (w : ChainState) (deps : RoutingDeps) (x registry uri : String) :
    UriInv w deps x registry uri ({} : ChainReads) where
  reads := ChainReads.readsInv_init _
  made := ChainReads.readsMade_init deps
  recorded := ChainReads.recorded_nil
  values := fun _ _ _ hl => by cases hl

theorem UriInv.uriReported {s : ChainReads} (h : UriInv w deps x registry uri s) :
    UriReported x uri s := by
  intro a ha hkey v hv
  obtain ⟨t, hbirth, -⟩ := h.recorded.served a ha
  obtain ⟨l, hl, hlkey, -⟩ := ChainReads.getElem?_births.mp hbirth
  obtain ⟨l', hl', ho⟩ := ChainReads.fulfilled_of_valueOf hv
  obtain rfl := Option.some.inj (hl.symm.trans hl')
  exact (h.values a.load l v hl ho).2 (hlkey.trans hkey)

/-- A read under another spelling reports null to the call that started it. -/
theorem UriInv.acceptedReads {s u : ChainReads} {ev : FixedEvent}
    (h : UriInv w deps x registry uri s) (horch : OrchOnChain w deps x registry uri)
    (hst : w.step deps s ev = some u) (hu : UriReported x uri u) : w.AcceptedReads x s ev := by
  rintro i awaited orch state rfl hwork hx
  by_contra hrejected
  have hturn := (ChainState.turn_of_step hst).1
  cases hturn with
  | succeeds i loader read result v hrunning hanswer hvalue =>
      obtain rfl := (Work.mk.inj (Option.some.inj (hrunning.symm.trans hwork))).1
      obtain rfl := h.read_eq hrunning
      rw [answer_readServiceUri horch hx, if_neg hrejected] at hanswer
      cases hanswer
  | fails i loader read hrunning hanswer =>
      obtain rfl := (Work.mk.inj (Option.some.inj (hrunning.symm.trans hwork))).1
      obtain ⟨l, hat⟩ := h.reads.at_of_work hrunning
      obtain ⟨a, ha, hload⟩ := h.recorded.started i (by
        rw [ChainReads.births, List.length_map]
        exact (List.getElem?_eq_some_iff.mp hat.load).1)
      obtain ⟨t, hbirth, -⟩ := h.recorded.served a ha
      obtain ⟨l', hl', hkey, -⟩ := ChainReads.getElem?_births.mp hbirth
      rw [hload] at hl'
      obtain rfl := Option.some.inj (hat.load.symm.trans hl')
      rw [(h.reads.fits i _ l hat).key_eq] at hkey
      have hnull : (s.readFailed i (.reading awaited (.serviceUri orch)) read).valueOf a.load
          = some (.serviceUri none) := by
        rw [hload]
        exact ChainReads.valueOf_of_load
          (TtlCache.getElem?_succeed.mpr ⟨l, hat.load, by rw [if_pos rfl]⟩) rfl
      have huri := hu a ha (hkey.symm.trans (congrArg CacheKey.serviceUri hx)) _ hnull
      cases CacheValue.serviceUri.inj huri

end Orch

/-- **The spelling of an address does not matter as long as viem takes it.** In a run every
call that is answered for the orch is answered with what the chain has exactly when each of
its reads that ends was made under a spelling that viem takes. Any two runs of that kind
report the same, whichever spellings their calls use, and so do the rows of every roster and
every detail. -/
theorem uriReported_iff {w : ChainState} {deps : RoutingDeps} {x registry uri : String}
    (horch : OrchOnChain w deps x registry uri) :
    (∀ es, (fixedChain deps w).Always (UriReported x uri) es
      ↔ (fixedChain deps w).Meets (w.AcceptedReads x) es)
    ∧ (∀ es₁ es₂, (fixedChain deps w).Meets (w.AcceptedReads x) es₁ →
        (fixedChain deps w).Meets (w.AcceptedReads x) es₂ →
        ∀ s₁ s₂, (fixedChain deps w).run es₁ = some s₁ → (fixedChain deps w).run es₂ = some s₂ →
          ∀ u₁ u₂, s₁.Reports x u₁ → s₂.Reports x u₂ → u₁ = u₂)
    ∧ ∀ es, (fixedChain deps w).Meets (w.AcceptedReads x) es →
        ∀ s, (fixedChain deps w).run es = some s → RowsReport x uri s := by
  have hiff : ∀ es, (fixedChain deps w).Always (UriReported x uri) es
      ↔ (fixedChain deps w).Meets (w.AcceptedReads x) es := fun es =>
    Machine.always_iff_meets (I := UriInv w deps x registry uri) (uriInv_init w deps x registry uri)
      (fun _ _ _ h haccepted hst => h.step horch haccepted hst) (fun _ h => h.uriReported)
      (fun _ _ _ h hst hu => h.acceptedReads horch hst hu)
  have hreported : ∀ es, (fixedChain deps w).Meets (w.AcceptedReads x) es →
      ∀ s, (fixedChain deps w).run es = some s → UriReported x uri s :=
    fun es h s hs => (hiff es).mpr h es (List.prefix_refl _) s hs
  refine ⟨hiff, fun es₁ es₂ h₁ h₂ s₁ s₂ hs₁ hs₂ u₁ u₂ hu₁ hu₂ => ?_,
    fun es h s hs => (hreported es h s hs).rowsReport⟩
  rw [(hreported es₁ h₁ s₁ hs₁).reports hu₁, (hreported es₂ h₂ s₂ hs₂).reports hu₂]

end Service

/-! ## A spelling that viem does not take -/

def lowerCased : String := "0x5aaeb6053f3e94c9b9a09f33669435e7ef1beaed"

def checksummed : String := "0x5aAeb6053F3E94C9b9A09f33669435E7Ef1BeAed"

/-- One letter is a capital that is none in the checksummed form. -/
def misspelled : String := "0x5AAeb6053f3e94c9b9a09f33669435e7ef1beaed"

def registryAddress : String := "0x00000000000000000000000000000000000000e5"

/-- A chain with one orch. -/
def oneOrchChain : ChainState where
  bondingManager := some "0x00000000000000000000000000000000000000b0"
  serviceRegistry := some registryAddress
  pool _ := some []
  serviceUri sr orch :=
    if sr = registryAddress ∧ orch = lowerCased then some "https://orch.example:8935" else none
  checksum address := if address = lowerCased then checksummed else address

def defaultDeps : RoutingDeps where
  controllerAddress := "0xD8E8328501E9645d16Cf49539efC04f734606ee4"
  serviceRegistryAddress := none
  chainReadTtlMs := 30000

theorem uriReported_iff_oneOrchChain :
    @OrchOnChain oneOrchChain defaultDeps lowerCased registryAddress "https://orch.example:8935"
    ∧ ∀ es, (@fixedChain asciiUnicode defaultDeps oneOrchChain).Always
          (UriReported lowerCased "https://orch.example:8935") es
        ↔ (@fixedChain asciiUnicode defaultDeps oneOrchChain).Meets
          (@ChainState.AcceptedReads asciiUnicode oneOrchChain lowerCased) es :=
  ⟨⟨rfl, rfl, by decide⟩, (@uriReported_iff asciiUnicode _ _ _ _ _ ⟨rfl, rfl, by decide⟩).1⟩

/-- The orch is asked for under a spelling, and is listed a second later. -/
def respelledRun (spelling : String) : List FixedEvent :=
  [.call (.getOrch spelling) [(0, 0), (0, 0)], .readEnds 2, .readEnds 3,
    .call (.listOrchs [lowerCased]) [(1000, 1000), (1000, 1000)]]

/-- The serviceURI that the last ask is answered with. -/
def lastUri (s : ChainReads) : Option (Option String) :=
  match s.asks.getLast?.bind fun a => s.valueOf a.load with
  | some (.serviceUri uri) => some uri
  | _ => none

theorem run_respelledRun_lowerCased :
    ((@fixedChain asciiUnicode defaultDeps oneOrchChain).run (respelledRun lowerCased)).map lastUri
      = some (some (some "https://orch.example:8935")) := by
  decide +kernel

theorem run_respelledRun_misspelled :
    ((@fixedChain asciiUnicode defaultDeps oneOrchChain).run (respelledRun misspelled)).map lastUri
      = some (some none) := by
  decide +kernel

/-- What the roster lists depends on how the earlier call spelled the address. -/
theorem not_spellingBlind_misspelled :
    ¬∀ a b, isEthAddress a = true → isEthAddress b = true →
      @toLowerCase asciiUnicode a = @toLowerCase asciiUnicode b →
      ((@fixedChain asciiUnicode defaultDeps oneOrchChain).run (respelledRun a)).map lastUri
        = ((@fixedChain asciiUnicode defaultDeps oneOrchChain).run (respelledRun b)).map
          lastUri := by
  intro h
  have heq := h lowerCased misspelled (by decide) (by decide) (by decide)
  rw [run_respelledRun_lowerCased, run_respelledRun_misspelled] at heq
  cases Option.some.inj (Option.some.inj heq)

end GatewayConsole
