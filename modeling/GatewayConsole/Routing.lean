import GatewayConsole.Address
import GatewayConsole.Repo
import GatewayConsole.Resolver

/-!
# The routing service and its handlers

`service/routing/index.ts` without its cache: what `listOrchs`, `getOrch` and
`listObservations` make of the answers they have awaited (`ChainAnswers` for the two
chain reads, which go through the cache of `ChainReads`), and the handlers on top.

A row of the roster is built twice, by different code. `listOrchs` starts from
`ListKnown`, which says nothing of capabilities, and leaves them empty; `getOrch`
starts from `ResolveByAddress` and collects them from the nodes. `handleListOrchs`
filters rows of the first kind by what only rows of the second kind have:
`filterAgrees_iff`.

The detail row takes its signature from the first node of the answer and its names from
all of them; `signed_row` says what a signed row lists.
-/

namespace GatewayConsole

/-! ## Rows -/

inductive FreshnessStatus where
  | fresh
  | stale
  | unknown
deriving Repr, DecidableEq

inductive SignatureStatus where
  | signed
  | unsigned
  | unknown
deriving Repr, DecidableEq

def narrowFreshness : FreshnessLabel → FreshnessStatus
  | .fresh => .fresh
  | .staleRecoverable | .staleFailing => .stale
  | .unknown => .unknown

def narrowSignature : SignatureLabel → SignatureStatus
  | .verified => .signed
  | .unsigned => .unsigned
  | .legacy | .unknown => .unknown

structure OrchRosterRow where
  address : String
  serviceUri : Option String
  capabilities : List String
  offerings : List String
  signatureStatus : SignatureStatus
  freshnessStatus : FreshnessStatus
  activePoolMember : Bool
  totalStakeWei : Option String
  lastObservedAt : Option Int
deriving Repr, DecidableEq

structure RosterEnrichment where
  serviceUri : Option String
  activePoolMember : Bool
  totalStakeWei : Option String
  lastObservedAt : Option Int
deriving Repr, DecidableEq

/-- `[...new Set(values)].sort()`. -/
def dedupe (values : List String) : List String := sortStrings values.eraseDups

@[simp] theorem mem_dedupe {x : String} {values : List String} :
    x ∈ dedupe values ↔ x ∈ values := by
  rw [dedupe, sortStrings, List.mem_mergeSort, List.mem_eraseDups]

def rosterRowFromResolved (r : ResolvedOrch) (e : RosterEnrichment) : OrchRosterRow where
  address := r.address
  serviceUri := e.serviceUri.or (orNull r.resolvedUri)
  capabilities := dedupe (r.nodes.flatMap (·.capabilities))
  offerings := dedupe (r.nodes.flatMap (·.offerings))
  signatureStatus :=
    match r.nodes.head? with
    | some top => narrowSignature top.signatureStatus
    | none => .unknown
  freshnessStatus := narrowFreshness r.freshnessStatus
  activePoolMember := e.activePoolMember
  totalStakeWei := e.totalStakeWei
  lastObservedAt := e.lastObservedAt

theorem mem_capabilities {result : ResolveResult} {e : RosterEnrichment} {c : String} :
    c ∈ (rosterRowFromResolved (mapResolveResult result) e).capabilities
      ↔ ∃ n ∈ result.nodes, ∃ cap ∈ n.capabilities, cap.name = c := by
  simp [rosterRowFromResolved, mapResolveResult, mapNode]

theorem mem_offerings {result : ResolveResult} {e : RosterEnrichment} {o : String} :
    o ∈ (rosterRowFromResolved (mapResolveResult result) e).offerings
      ↔ ∃ n ∈ result.nodes, ∃ cap ∈ n.capabilities, ∃ m ∈ cap.offerings, m.id = o := by
  simp [rosterRowFromResolved, mapResolveResult, mapNode]

/-! ## The query of the roster -/

/-- A value of the parsed query string: a repeated key has several. -/
inductive QueryValue where
  | one (value : String)
  | many (values : List String)
deriving Repr, DecidableEq

structure ListOrchsQuery where
  capability : Option String := none
  offering : Option String := none
deriving Repr, DecidableEq

/-- `z.string().min(1).max(max).optional()` at a key of the query. -/
def parseBounded (key : String) (max : Nat) :
    Option QueryValue → Except ZodIssue (Option String)
  | none => .ok none
  | some (.one value) =>
      if 1 ≤ utf16Length value ∧ utf16Length value ≤ max then .ok (some value)
      else .error { path := [key], message := none }
  | some (.many _) => .error { path := [key], message := none }

/-- `ListOrchsQuerySchema.parse(req.query ?? {})`, up to its first issue. -/
def parseListOrchsQuery (query : List (String × QueryValue)) :
    Except ZodIssue ListOrchsQuery := do
  let capability ← parseBounded "capability" 120 (query.lookup "capability")
  let offering ← parseBounded "offering" 240 (query.lookup "offering")
  if query.all fun p => p.1 = "capability" || p.1 = "offering" then
    return { capability, offering }
  else throw { path := [], message := none }

theorem parseBounded_nonempty {key : String} {max : Nat} {value : Option QueryValue}
    {v : String} (h : parseBounded key max value = .ok (some v)) : v ≠ "" := by
  rintro rfl
  unfold parseBounded at h
  split at h
  · cases h
  · split at h
    · rename_i hlen
      obtain rfl := Option.some.inj (Except.ok.inj h)
      exact absurd hlen.1 (by decide)
    · cases h
  · cases h

theorem parseListOrchsQuery_nonempty {raw : List (String × QueryValue)}
    {query : ListOrchsQuery} (h : parseListOrchsQuery raw = .ok query) :
    query.capability ≠ some "" ∧ query.offering ≠ some "" := by
  obtain ⟨capability, hc, h⟩ := except_bind_eq_ok.mp h
  obtain ⟨offering, ho, h⟩ := except_bind_eq_ok.mp h
  split at h
  · obtain rfl := Except.ok.inj h
    refine ⟨fun hempty => ?_, fun hempty => ?_⟩
    · obtain rfl : capability = some "" := hempty
      exact parseBounded_nonempty hc rfl
    · obtain rfl : offering = some "" := hempty
      exact parseBounded_nonempty ho rfl
  · cases h

/-! ## The stake map -/

structure BondingPoolEntry where
  address : String
  totalStakeWei : String
deriving Repr, DecidableEq

/-- A `Map` from strings to strings, by its `get`. -/
abbrev StakeMap := String → Option String

def StakeMap.set (m : StakeMap) (key value : String) : StakeMap :=
  fun k => if k = key then some value else m k

section Service

variable [Unicode]

def poolEntriesToStakeMap (entries : List BondingPoolEntry) : StakeMap :=
  entries.foldl (fun m e => m.set (toLowerCase e.address) e.totalStakeWei) fun _ => none

/-- The chain reads a call has awaited: the stakes of the pool, and the serviceURI of
each address it asked for. -/
structure ChainAnswers where
  stakeMap : StakeMap
  serviceUri : String → Option String

/-! ## The service -/

structure RoutingObservation where
  id : Nat
  observedAt : Int
  orchAddress : String
  capability : Option String
  offering : Option String
  signatureStatus : Option String
  freshnessStatus : Option String
  detailsJson : Option String
deriving Repr, DecidableEq

def rowToObservation (r : RoutingObservationRow) : RoutingObservation where
  id := r.id
  observedAt := r.observedAt
  orchAddress := r.orchAddress
  capability := r.capability
  offering := r.offering
  signatureStatus := r.signatureStatus
  freshnessStatus := r.freshnessStatus
  detailsJson := r.detailsJson

/-- `listOrchs`, from the answers on. -/
def listOrchs (known : List KnownOrch) (chain : ChainAnswers) : List OrchRosterRow :=
  known.map fun k =>
    let stakeWei := chain.stakeMap (toLowerCase k.address)
    { address := k.address
      serviceUri := chain.serviceUri k.address
      capabilities := []
      offerings := []
      signatureStatus := .unknown
      freshnessStatus := narrowFreshness k.freshnessStatus
      activePoolMember := stakeWei.isSome
      totalStakeWei := stakeWei
      lastObservedAt := none }

theorem listOrchs_addresses (known : List KnownOrch) (chain : ChainAnswers) :
    (listOrchs known chain).map (·.address) = known.map (·.address) := by
  rw [listOrchs, List.map_map]
  rfl

structure OrchDetail where
  orch : Option OrchRosterRow
  recentObservations : List RoutingObservation
deriving Repr, DecidableEq

/-- `getOrch`, from the answers on. -/
def getOrch (address : String) (resolved : Option ResolvedOrch)
    (observationsRaw : List RoutingObservationRow) (chain : ChainAnswers) : OrchDetail :=
  let recentObservations := observationsRaw.map rowToObservation
  match resolved with
  | none => { orch := none, recentObservations }
  | some resolved =>
      let stakeWei := chain.stakeMap (toLowerCase resolved.address)
      { orch := some (rosterRowFromResolved resolved
          { serviceUri := chain.serviceUri address
            activePoolMember := stakeWei.isSome
            totalStakeWei := stakeWei
            lastObservedAt := recentObservations.head?.map (·.observedAt) })
        recentObservations }

def listObservations (order : ObservedOrder) (t : RoutingObservations) (address : String)
    (limit : Option Nat) : List RoutingObservation :=
  (listRecentForOrch order t address limit).map rowToObservation

/-! ## The handlers -/

/-- `value && !list.includes(value)`. -/
def excludedBy (value : Option String) (list : List String) : Bool :=
  match value with
  | none => false
  | some v => v ≠ "" && !list.contains v

def filterOrchs (rows : List OrchRosterRow) (query : ListOrchsQuery) : List OrchRosterRow :=
  rows.filter fun r =>
    if excludedBy query.capability r.capabilities then false
    else if excludedBy query.offering r.offerings then false
    else true

/-- `handleListOrchs`, over the rows the service lists. -/
def handleListOrchs (query : List (String × QueryValue)) (all : List OrchRosterRow) :
    Except ZodIssue (List OrchRosterRow) := do
  let query ← parseListOrchsQuery query
  return filterOrchs all query

/-- The replies of `handleGetOrch`; `notFound` has status 404 and this error body. -/
inductive GetOrchReply where
  | notFound (code address : String)
  | found (result : OrchDetail)
deriving Repr, DecidableEq

/-- `handleGetOrch`, over what the service returns for an address. -/
def handleGetOrch (params : List (String × String)) (service : String → OrchDetail) :
    Except (List ZodIssue) GetOrchReply := do
  let address ← parseAddressParams params
  let result := service address
  if result.orch = none ∧ result.recentObservations.length = 0 then
    return .notFound "orch_not_found" address
  else return .found result

/-! ## The filter and the detail rows -/

/-- What the resolver daemon knows: its entries, and its answer for an address. -/
structure ResolverState where
  entries : List KnownEntry
  resolve : String → Option ResolveResult

/-- `listKnown`. -/
def ResolverState.listKnown (r : ResolverState) : List KnownOrch := r.entries.map mapKnownEntry

/-- `resolveByAddress`. -/
def ResolverState.resolveByAddress (r : ResolverState) (address : String) :
    Option ResolvedOrch :=
  (r.resolve address).map mapResolveResult

/-- The row of the detail lists what the query asks for. -/
def OrchDetail.lists (d : OrchDetail) (query : ListOrchsQuery) : Bool :=
  match d.orch with
  | none => false
  | some row =>
      query.capability.all (row.capabilities.contains ·)
        && query.offering.all (row.offerings.contains ·)

/-- A node of the answer advertises the capability, and one the offering. -/
def Advertises (result : ResolveResult) (query : ListOrchsQuery) : Prop :=
  (∀ c, query.capability = some c → ∃ n ∈ result.nodes, ∃ cap ∈ n.capabilities, cap.name = c)
    ∧ ∀ o, query.offering = some o →
      ∃ n ∈ result.nodes, ∃ cap ∈ n.capabilities, ∃ m ∈ cap.offerings, m.id = o

/-- The detail of a resolved orch lists exactly what its nodes advertise. -/
theorem getOrch_lists_iff {r : ResolverState} {address : String} {result : ResolveResult}
    (h : r.resolve address = some result) (observations : List RoutingObservationRow)
    (chain : ChainAnswers) (query : ListOrchsQuery) :
    (getOrch address (r.resolveByAddress address) observations chain).lists query = true
      ↔ Advertises result query := by
  rw [ResolverState.resolveByAddress, h]
  simp only [getOrch, Option.map_some, OrchDetail.lists, Bool.and_eq_true, Option.all_eq_true,
    List.contains_iff_mem, mem_capabilities, mem_offerings, Advertises]

/-- The rows of the roster list nothing, so any filter excludes them all. -/
theorem filterOrchs_listOrchs {query : ListOrchsQuery} (hc : query.capability ≠ some "")
    (ho : query.offering ≠ some "") (known : List KnownOrch) (chain : ChainAnswers) :
    filterOrchs (listOrchs known chain) query
      = if query = {} then listOrchs known chain else [] := by
  have hexcluded : ∀ v : Option String, v ≠ some "" → excludedBy v [] = v.isSome := by
    rintro (_ | v) hv
    · rfl
    · simpa [excludedBy] using hv
  have hrow : ∀ r ∈ listOrchs known chain, r.capabilities = [] ∧ r.offerings = [] := by
    intro r hr
    obtain ⟨k, -, rfl⟩ := List.mem_map.mp hr
    exact ⟨rfl, rfl⟩
  obtain ⟨capability, offering⟩ := query
  split
  · rename_i hnone
    obtain ⟨rfl, rfl⟩ := ListOrchsQuery.mk.inj hnone
    exact List.filter_eq_self.mpr fun r _ => rfl
  · rename_i hsome
    refine List.filter_eq_nil_iff.mpr fun r hr => ?_
    rw [(hrow r hr).1, (hrow r hr).2, hexcluded _ hc, hexcluded _ ho]
    cases capability with
    | some c => simp
    | none =>
        cases offering with
        | some o => simp
        | none => exact absurd rfl hsome

theorem handleListOrchs_listOrchs {raw : List (String × QueryValue)} {query : ListOrchsQuery}
    (hquery : parseListOrchsQuery raw = .ok query) (known : List KnownOrch)
    (chain : ChainAnswers) :
    handleListOrchs raw (listOrchs known chain)
      = .ok (if query = {} then listOrchs known chain else []) := by
  obtain ⟨hc, ho⟩ := parseListOrchsQuery_nonempty hquery
  rw [handleListOrchs, hquery, ← filterOrchs_listOrchs hc ho]
  rfl

/-- The listing returns the known orchs whose detail lists what the query asks for, in
the order of `listKnown`. The chain may answer the listing and each detail differently. -/
def FilterAgrees (r : ResolverState) (chain : ChainAnswers) (detailChain : String → ChainAnswers)
    (observations : String → List RoutingObservationRow) (raw : List (String × QueryValue))
    (query : ListOrchsQuery) : Prop :=
  (handleListOrchs raw (listOrchs r.listKnown chain)).map (·.map (·.address))
    = .ok ((r.listKnown.filter fun k =>
        (getOrch k.address (r.resolveByAddress k.address) (observations k.address)
          (detailChain k.address)).lists query).map (·.address))

/-- A filter loses the orch that advertises what it asks for. -/
theorem not_filterAgrees {r : ResolverState} {raw : List (String × QueryValue)}
    {query : ListOrchsQuery} (hquery : parseListOrchsQuery raw = .ok query) (hsome : query ≠ {})
    {k : KnownOrch} (hk : k ∈ r.listKnown) {result : ResolveResult}
    (hres : r.resolve k.address = some result) (hadv : Advertises result query)
    (chain : ChainAnswers) (detailChain : String → ChainAnswers)
    (observations : String → List RoutingObservationRow) :
    ¬FilterAgrees r chain detailChain observations raw query := by
  intro h
  rw [FilterAgrees, handleListOrchs_listOrchs hquery, if_neg hsome] at h
  have hnil := List.map_eq_nil_iff.mp (Except.ok.inj h).symm
  exact List.filter_eq_nil_iff.mp hnil k hk ((getOrch_lists_iff hres _ _ query).mpr hadv)

/-- **The roster filter agrees with the details only where it has nothing to find.** For
an accepted query it does exactly when the query asks for nothing, or no known orch
advertises what it asks for. -/
theorem filterAgrees_iff {r : ResolverState} {raw : List (String × QueryValue)}
    {query : ListOrchsQuery} (hquery : parseListOrchsQuery raw = .ok query)
    (hresolves : ∀ k ∈ r.listKnown, (r.resolve k.address).isSome) (chain : ChainAnswers)
    (detailChain : String → ChainAnswers)
    (observations : String → List RoutingObservationRow) :
    FilterAgrees r chain detailChain observations raw query
      ↔ query = {} ∨ ∀ k ∈ r.listKnown, ∀ result, r.resolve k.address = some result →
          ¬Advertises result query := by
  constructor
  · intro h
    by_cases hempty : query = {}
    · exact Or.inl hempty
    · exact Or.inr fun k hk result hres hadv =>
        not_filterAgrees hquery hempty hk hres hadv chain detailChain observations h
  · intro h
    rw [FilterAgrees, handleListOrchs_listOrchs hquery]
    refine congrArg Except.ok ?_
    by_cases hempty : query = {}
    · subst hempty
      have hall : ∀ k ∈ r.listKnown, (getOrch k.address (r.resolveByAddress k.address)
          (observations k.address) (detailChain k.address)).lists {} = true := by
        intro k hk
        obtain ⟨result, hres⟩ := Option.isSome_iff_exists.mp (hresolves k hk)
        exact (getOrch_lists_iff hres _ _ {}).mpr
          ⟨fun _ hnone => (by cases hnone), fun _ hnone => (by cases hnone)⟩
      rw [if_pos rfl, List.filter_eq_self.mpr hall]
      exact listOrchs_addresses _ chain
    · have hnone : ∀ k ∈ r.listKnown, ¬(getOrch k.address (r.resolveByAddress k.address)
          (observations k.address) (detailChain k.address)).lists query = true := by
        intro k hk hl
        obtain ⟨result, hres⟩ := Option.isSome_iff_exists.mp (hresolves k hk)
        exact h.resolve_left hempty k hk result hres ((getOrch_lists_iff hres _ _ query).mp hl)
      rw [if_neg hempty, List.filter_eq_nil_iff.mpr hnone]
      rfl

end Service

/-! ## A roster of one orch -/

/-- One known orch, whose one node offers one model. -/
def oneOrch : ResolverState where
  entries :=
    [{ ethAddress := "0x00000000000000000000000000000000000000a1", mode := 1
       freshnessStatus := 1, cachedAt := none }]
  resolve address :=
    some
      { ethAddress := address, resolvedUri := "https://orch.example", mode := 1
        nodes :=
          [{ id := "n1", url := "https://orch.example", workerEthAddress := address
             capabilities := [{ name := "whisper", offerings := [{ id := "whisper-large" }] }]
             signatureStatus := 1, operatorAddress := address, enabled := true
             tierAllowed := [], weight := 1 }]
        freshnessStatus := 1, cachedAt := none, fetchedAt := none, schemaVersion := "1" }

def noChain : ChainAnswers where
  stakeMap _ := none
  serviceUri _ := none

/-- Without a filter the roster is all of them. -/
theorem filterAgrees_noFilter :
    @FilterAgrees asciiUnicode oneOrch noChain (fun _ => noChain) (fun _ => []) [] {} :=
  (@filterAgrees_iff asciiUnicode oneOrch [] {} rfl (by decide) noChain (fun _ => noChain)
    fun _ => []).mpr (Or.inl rfl)

/-- Asked for the capability that the detail of the orch lists, the roster is empty. -/
theorem not_filterAgrees_whisper :
    parseListOrchsQuery [("capability", .one "whisper")] = .ok { capability := some "whisper" }
      ∧ (∀ k ∈ oneOrch.listKnown, (oneOrch.resolve k.address).isSome)
      ∧ ¬@FilterAgrees asciiUnicode oneOrch noChain (fun _ => noChain) (fun _ => [])
          [("capability", .one "whisper")] { capability := some "whisper" } := by
  have hparse : parseListOrchsQuery [("capability", .one "whisper")]
      = .ok { capability := some "whisper" } := by decide
  refine ⟨hparse, by decide, ?_⟩
  refine @not_filterAgrees asciiUnicode oneOrch _ _ hparse (by decide) _
    (List.mem_singleton.mpr rfl) _ rfl ⟨?_, fun o ho => by cases ho⟩ noChain _ _
  rintro c ⟨⟩
  exact ⟨_, List.mem_singleton.mpr rfl, _, List.mem_singleton.mpr rfl, rfl⟩

/-! ## Signed rows -/

def Node.Verified (n : Node) : Prop := mapSignature n.signatureStatus = .verified

def Node.AdvertisesCapability (n : Node) (c : String) : Prop :=
  ∃ cap ∈ n.capabilities, cap.name = c

def Node.AdvertisesOffering (n : Node) (o : String) : Prop :=
  ∃ cap ∈ n.capabilities, ∃ m ∈ cap.offerings, m.id = o

/-- What the nodes have that nobody signed for, a verified node has as well. -/
def Vouched (nodes : List Node) (has : Node → String → Prop) : Prop :=
  ∀ n ∈ nodes, ¬n.Verified → ∀ name, has n name → ∃ m ∈ nodes, m.Verified ∧ has m name

/-- A list of what the nodes have is of verified nodes only exactly when the others add
nothing to it. -/
theorem vouched_iff {nodes : List Node} {has : Node → String → Prop} {names : List String}
    (hnames : ∀ name, name ∈ names ↔ ∃ n ∈ nodes, has n name) :
    (∀ name ∈ names, ∃ n ∈ nodes, n.Verified ∧ has n name) ↔ Vouched nodes has := by
  constructor
  · intro h n hn _ name hname
    exact h name ((hnames name).mpr ⟨n, hn, hname⟩)
  · intro h name hname
    obtain ⟨n, hn, hhas⟩ := (hnames name).mp hname
    by_cases hverified : n.Verified
    · exact ⟨n, hn, hverified, hhas⟩
    · exact h n hn hverified name hhas

/-- Where every node is verified, there are no others. -/
theorem vouched_of_verified {nodes : List Node} (h : ∀ n ∈ nodes, n.Verified)
    (has : Node → String → Prop) : Vouched nodes has :=
  fun n hn hnot => absurd (h n hn) hnot

theorem narrowSignature_signed {label : SignatureLabel} :
    narrowSignature label = .signed ↔ label = .verified := by
  cases label <;> simp [narrowSignature]

theorem rosterRow_signed {result : ResolveResult} {e : RosterEnrichment} :
    (rosterRowFromResolved (mapResolveResult result) e).signatureStatus = .signed
      ↔ ∃ top, result.nodes.head? = some top ∧ top.Verified := by
  simp only [rosterRowFromResolved, mapResolveResult, List.head?_map]
  cases result.nodes.head? with
  | none => simp
  | some top => simp [narrowSignature_signed, Node.Verified, mapNode]

/-- **A signed row is signed by its first node, for all of them.** Every name it lists is of a
verified node exactly when the nodes behind the first that nobody signed for add none, as
where there are no such nodes. -/
theorem signed_row [Unicode] {r : ResolverState} {address : String} {result : ResolveResult}
    {observations : List RoutingObservationRow} {chain : ChainAnswers} {row : OrchRosterRow}
    (hresult : r.resolve address = some result)
    (hrow : (getOrch address (r.resolveByAddress address) observations chain).orch = some row) :
    (row.signatureStatus = .signed ↔ ∃ top, result.nodes.head? = some top ∧ top.Verified)
      ∧ ((∀ c ∈ row.capabilities, ∃ n ∈ result.nodes, n.Verified ∧ n.AdvertisesCapability c)
        ↔ Vouched result.nodes Node.AdvertisesCapability)
      ∧ ((∀ o ∈ row.offerings, ∃ n ∈ result.nodes, n.Verified ∧ n.AdvertisesOffering o)
        ↔ Vouched result.nodes Node.AdvertisesOffering)
      ∧ ((∀ n ∈ result.nodes, n.Verified) → Vouched result.nodes Node.AdvertisesCapability
        ∧ Vouched result.nodes Node.AdvertisesOffering) := by
  rw [ResolverState.resolveByAddress, hresult] at hrow
  obtain rfl := Option.some.inj hrow
  refine ⟨rosterRow_signed, vouched_iff fun _ => mem_capabilities,
    vouched_iff fun _ => mem_offerings, fun hverified => ?_⟩
  exact ⟨vouched_of_verified hverified _, vouched_of_verified hverified _⟩

/-- The answer of `oneOrch` with a second node, unsigned, that offers this. -/
def unsignedBehind (capabilities : List Capability) : ResolverState where
  entries := oneOrch.entries
  resolve address :=
    (oneOrch.resolve address).map fun result =>
      { result with
        nodes := result.nodes ++
          [{ id := "n2", url := "https://other.example", workerEthAddress := address
             capabilities
             signatureStatus := 2, operatorAddress := address, enabled := true
             tierAllowed := [], weight := 1 }] }

/-- The unsigned node offers what the verified one does: the row is signed, and all its names
are of the verified node. -/
theorem signed_row_oneOrch :
    ∃ result row, (unsignedBehind [{ name := "whisper", offerings := [] }]).resolve "0xa1"
        = some result
      ∧ (@getOrch asciiUnicode "0xa1"
          ((unsignedBehind [{ name := "whisper", offerings := [] }]).resolveByAddress "0xa1") []
          noChain).orch = some row
      ∧ row.signatureStatus = .signed
      ∧ (∀ c ∈ row.capabilities, ∃ n ∈ result.nodes, n.Verified ∧ n.AdvertisesCapability c)
      ∧ ∀ o ∈ row.offerings, ∃ n ∈ result.nodes, n.Verified ∧ n.AdvertisesOffering o := by
  obtain ⟨hsigned, hcapabilities, hofferings, -⟩ := @signed_row asciiUnicode
    (unsignedBehind [{ name := "whisper", offerings := [] }]) "0xa1" _ [] noChain _ rfl rfl
  refine ⟨_, _, rfl, rfl, hsigned.mpr ⟨_, rfl, rfl⟩, hcapabilities.mpr ?_, hofferings.mpr ?_⟩
  · rintro n hn hunsigned name ⟨cap, hcap, rfl⟩
    rcases List.mem_cons.mp hn with rfl | hn
    · exact absurd rfl hunsigned
    · obtain rfl := List.mem_singleton.mp hn
      obtain rfl := List.mem_singleton.mp hcap
      exact ⟨_, List.mem_cons_self, rfl, _, List.mem_cons_self, rfl⟩
  · rintro n hn hunsigned name ⟨cap, hcap, model, hmodel, -⟩
    rcases List.mem_cons.mp hn with rfl | hn
    · exact absurd rfl hunsigned
    · obtain rfl := List.mem_singleton.mp hn
      obtain rfl := List.mem_singleton.mp hcap
      cases hmodel

/-- The unsigned node offers a model of its own. -/
def twoNodes : ResolverState :=
  unsignedBehind [{ name := "llama", offerings := [{ id := "llama-70b" }] }]

/-- The signed row lists `llama`, which no verified node advertises. -/
theorem not_signed_llama :
    ∃ result row, twoNodes.resolve "0xa1" = some result
      ∧ (@getOrch asciiUnicode "0xa1" (twoNodes.resolveByAddress "0xa1") [] noChain).orch
        = some row
      ∧ row.signatureStatus = .signed ∧ "llama" ∈ row.capabilities
      ∧ ¬∃ n ∈ result.nodes, n.Verified ∧ n.AdvertisesCapability "llama" := by
  refine ⟨_, _, rfl, rfl, rfl, ?_, ?_⟩
  · exact mem_capabilities.mpr ⟨_, List.mem_cons_of_mem _ List.mem_cons_self, _,
      List.mem_cons_self, rfl⟩
  · rintro ⟨n, hn, hverified, cap, hcap, hname⟩
    cases hn with
    | head =>
        obtain rfl := List.mem_singleton.mp hcap
        exact absurd hname (by decide)
    | tail _ hn =>
        obtain rfl := List.mem_singleton.mp hn
        cases hverified

end GatewayConsole
