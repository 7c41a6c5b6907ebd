import GatewayConsole.Resolver
import GatewayConsole.Varint

/-!
# The messages of the resolver daemon

The generated codecs of `providers/resolver/gen`: `google/protobuf/timestamp.ts`,
`livepeer/registry/v1/types.ts` and `livepeer/registry/v1/resolver.ts`. Each message is the
list of its fields in the order `encode` writes them, with the tags `encode` writes and the
tags `decode` compares with, which are the same. A `Date` is written as a timestamp and the
buffers hold JSON the registry does not read.

A text and a date are what they are decoded to: a message with timestamps to the nanosecond
is a rendering of the message with their dates.
-/

namespace GatewayConsole.Registry

open BinaryWire

variable [BinaryWire]

/-! ## Timestamps -/

/-- `Timestamp` of `google/protobuf/timestamp.ts`; `encode` checks that the seconds are an
`int64`. -/
def timestampFns : MessageFns Timestamp where
  base := ⟨0, 0⟩
  fields :=
    [.scalar 8 (int64.checked fun v => -2 ^ 63 ≤ v ∧ v < 2 ^ 63) 0 (·.seconds)
      fun v t => { t with seconds := v },
     .scalar 16 int32 0 (·.nanos) fun v t => { t with nanos := v }]

/-- `toTimestamp(date)`; `BigInt` throws on the time of an invalid date. -/
def toTimestamp : Num → Option Timestamp
  | .nan => none
  | .int ms => some ⟨ms.tdiv 1000, ms.tmod 1000 * 1000000⟩

/-- A date that is not `Invalid Date`. -/
def ValidDate (d : Num) : Prop := ∃ ms : Int, d = .int ms ∧ ms.natAbs ≤ maxTime.natAbs

omit [BinaryWire] in
theorem fromTimestamp_toTimestamp {d : Num} {t : Timestamp} (ht : toTimestamp d = some t)
    (hd : ValidDate d) : fromTimestamp t = d := by
  obtain ⟨ms, rfl, hms⟩ := hd
  obtain rfl := Option.some.inj ht
  have hmax : ms.natAbs ≤ 8640000000000000 := hms
  have hdiv := Int.mul_tdiv_add_tmod ms 1000
  have hlow := Int.tmod_lt_of_pos ms (b := 1000) (by decide)
  have hneg := Int.tmod_lt_of_pos (-ms) (b := 1000) (by decide)
  rw [Int.neg_tmod] at hneg
  have hwire : (⟨ms.tdiv 1000, ms.tmod 1000 * 1000000⟩ : Timestamp).OnWire := by
    constructor <;> constructor <;> dsimp only <;> omega
  have hsum : ms.tdiv 1000 * 1000 + ms.tmod 1000 = ms := by omega
  rw [hwire.fromTimestamp_whole rfl, hsum]
  rw [hsum, maxTime, abs_le]
  omega

theorem timestampFns_lossless (t : Timestamp) : timestampFns.Lossless t := by
  intro f hf
  simp only [timestampFns, List.mem_cons, List.not_mem_nil, or_false] at hf
  rcases hf with rfl | rfl <;> trivial

theorem timestampFns_encode {t : Timestamp} (hs : -2 ^ 63 ≤ t.seconds ∧ t.seconds < 2 ^ 63)
    (hn : -2 ^ 31 ≤ t.nanos ∧ t.nanos < 2 ^ 31) :
    ∃ b, timestampFns.encode t = some b ∧ b.length ≤ 30 := by
  obtain ⟨secondsTag, hsecondsTag, hlen₁⟩ := uint32_write (n := 8) (by decide)
  obtain ⟨nanosTag, hnanosTag, hlen₂⟩ := uint32_write (n := 16) (by decide)
  obtain ⟨seconds, hseconds, hlen₃⟩ := int64_write hs.1 hs.2
  obtain ⟨nanos, hnanos, hlen₄⟩ := int32_write hn.1 hn.2
  have hchecked : (int64.checked fun v => -2 ^ 63 ≤ v ∧ v < 2 ^ 63).write t.seconds
      = some seconds := by
    rw [← hseconds]
    exact if_pos (decide_eq_true hs)
  have hencode : timestampFns.encode t
      = some ([if t.seconds = 0 then [] else [secondsTag ++ seconds],
          if t.nanos = 0 then [] else [nanosTag ++ nanos]].flatten.flatten) := by
    simp only [MessageFns.encode, timestampFns, List.mapM_cons, List.mapM_nil,
      MessageFns.putField_scalar hsecondsTag hchecked,
      MessageFns.putField_scalar hnanosTag hnanos, Option.pure_def, Option.bind_eq_bind,
      Option.bind_some, Option.map_some]
  refine ⟨_, hencode, ?_⟩
  by_cases hzero : t.seconds = 0 <;> by_cases hzero' : t.nanos = 0 <;>
    simp only [hzero, hzero', if_true, if_false, List.flatten_cons, List.flatten_nil,
      List.append_nil, List.nil_append, List.cons_append, List.length_append,
      List.length_nil] <;>
    omega

/-- `Timestamp.encode(toTimestamp(date), writer.fork()).join()`, and
`fromTimestamp(Timestamp.decode(reader, reader.uint32()))`. Every timestamp that decodes to a
date stands for it, and those that decode to none for the invalid date. -/
def date : Scalar skip ValidDate where
  wireType := 2
  write d := (toTimestamp d).bind timestampFns.delimited.write
  read bs := (timestampFns.delimited.read bs).map fun (t, rest) => (fromTimestamp t, rest)
  Renders d b := ∃ t, fromTimestamp t = d ∧ timestampFns.delimited.Renders t b
  renders_write {d b} hw hd := by
    obtain ⟨t, ht, hw⟩ := Option.bind_eq_some_iff.mp hw
    exact ⟨t, fromTimestamp_toTimestamp ht hd,
      timestampFns.delimited.renders_write hw (timestampFns_lossless t)⟩
  read_renders {d b} hb rest := by
    obtain ⟨t, rfl, hb⟩ := hb
    simp only [timestampFns.delimited.read_renders hb, Option.map_some]
  skip_renders {d b} hb rest := by
    obtain ⟨t, -, hb⟩ := hb
    exact timestampFns.delimited.skip_renders hb rest

/-- A valid date can be written. -/
theorem date_write {d : Num} (hd : ValidDate d) : ∃ b, date.write d = some b := by
  obtain ⟨ms, rfl, hms⟩ := hd
  have hmax : ms.natAbs ≤ 8640000000000000 := hms
  have hdiv := Int.mul_tdiv_add_tmod ms 1000
  have hlow := Int.tmod_lt_of_pos ms (b := 1000) (by decide)
  have hneg := Int.tmod_lt_of_pos (-ms) (b := 1000) (by decide)
  rw [Int.neg_tmod] at hneg
  obtain ⟨b, hb, hlen⟩ := timestampFns_encode (t := ⟨ms.tdiv 1000, ms.tmod 1000 * 1000000⟩)
    ⟨by dsimp only; omega, by dsimp only; omega⟩ ⟨by dsimp only; omega, by dsimp only; omega⟩
  obtain ⟨len, hlen, -⟩ := uint32_write (n := b.length) (by omega)
  exact ⟨len ++ b, by
    simp only [date, toTimestamp, MessageFns.delimited, Option.bind_some, hb, hlen,
      Option.map_some]⟩

/-! ## `types.ts` -/

structure Offering where
  id : String
  pricePerWorkUnitWei : String
  constraintsJson : Bytes
deriving Repr, DecidableEq

def offeringFns : MessageFns Offering where
  base := ⟨"", "", []⟩
  fields :=
    [.scalar 10 string "" (·.id) fun v m => { m with id := v },
     .scalar 18 string "" (·.pricePerWorkUnitWei) fun v m => { m with pricePerWorkUnitWei := v },
     .scalar 26 bytes [] (·.constraintsJson) fun v m => { m with constraintsJson := v }]

structure Capability where
  name : String
  workUnit : String
  offerings : List Offering
  extraJson : Bytes
deriving Repr, DecidableEq

def capabilityFns : MessageFns Capability where
  base := ⟨"", "", [], []⟩
  fields :=
    [.scalar 10 string "" (·.name) fun v m => { m with name := v },
     .scalar 18 string "" (·.workUnit) fun v m => { m with workUnit := v },
     .repeated 26 offeringFns.delimited (·.offerings) fun v m => { m with offerings := v },
     .scalar 34 bytes [] (·.extraJson) fun v m => { m with extraJson := v }]

structure Node where
  id : String
  url : String
  workerEthAddress : String
  extraJson : Bytes
  capabilities : List Capability
  source : Int
  signatureStatus : Int
  operatorAddress : String
  enabled : Bool
  tierAllowed : List String
  weight : Int
deriving Repr, DecidableEq

def nodeFns : MessageFns Node where
  base := ⟨"", "", "", [], [], 0, 0, "", false, [], 0⟩
  fields :=
    [.scalar 10 string "" (·.id) fun v m => { m with id := v },
     .scalar 18 string "" (·.url) fun v m => { m with url := v },
     .scalar 26 string "" (·.workerEthAddress) fun v m => { m with workerEthAddress := v },
     .scalar 34 bytes [] (·.extraJson) fun v m => { m with extraJson := v },
     .repeated 42 capabilityFns.delimited (·.capabilities)
      fun v m => { m with capabilities := v },
     .scalar 48 int32 0 (·.source) fun v m => { m with source := v },
     .scalar 56 int32 0 (·.signatureStatus) fun v m => { m with signatureStatus := v },
     .scalar 66 string "" (·.operatorAddress) fun v m => { m with operatorAddress := v },
     .scalar 72 bool false (·.enabled) fun v m => { m with enabled := v },
     .repeated 82 string (·.tierAllowed) fun v m => { m with tierAllowed := v },
     .scalar 88 int32 0 (·.weight) fun v m => { m with weight := v }]

/-! ## `resolver.ts` -/

structure ResolveByAddressRequest where
  ethAddress : String
  allowLegacyFallback : Bool
  allowUnsigned : Bool
  forceRefresh : Bool
deriving Repr, DecidableEq

def resolveByAddressRequestFns : MessageFns ResolveByAddressRequest where
  base := ⟨"", false, false, false⟩
  fields :=
    [.scalar 10 string "" (·.ethAddress) fun v m => { m with ethAddress := v },
     .scalar 16 bool false (·.allowLegacyFallback) fun v m => { m with allowLegacyFallback := v },
     .scalar 24 bool false (·.allowUnsigned) fun v m => { m with allowUnsigned := v },
     .scalar 32 bool false (·.forceRefresh) fun v m => { m with forceRefresh := v }]

structure ResolveResult where
  ethAddress : String
  resolvedUri : String
  mode : Int
  nodes : List Node
  freshnessStatus : Int
  cachedAt : Option Num
  fetchedAt : Option Num
  schemaVersion : String
deriving Repr, DecidableEq

def resolveResultFns : MessageFns ResolveResult where
  base := ⟨"", "", 0, [], 0, none, none, ""⟩
  fields :=
    [.scalar 10 string "" (·.ethAddress) fun v m => { m with ethAddress := v },
     .scalar 18 string "" (·.resolvedUri) fun v m => { m with resolvedUri := v },
     .scalar 24 int32 0 (·.mode) fun v m => { m with mode := v },
     .repeated 34 nodeFns.delimited (·.nodes) fun v m => { m with nodes := v },
     .scalar 40 int32 0 (·.freshnessStatus) fun v m => { m with freshnessStatus := v },
     .optional 50 date (·.cachedAt) fun v m => { m with cachedAt := v },
     .optional 58 date (·.fetchedAt) fun v m => { m with fetchedAt := v },
     .scalar 66 string "" (·.schemaVersion) fun v m => { m with schemaVersion := v }]

structure SelectRequest where
  capability : String
  offering : String
  tier : String
  minWeight : Int
deriving Repr, DecidableEq

def selectRequestFns : MessageFns SelectRequest where
  base := ⟨"", "", "", 0⟩
  fields :=
    [.scalar 10 string "" (·.capability) fun v m => { m with capability := v },
     .scalar 18 string "" (·.offering) fun v m => { m with offering := v },
     .scalar 26 string "" (·.tier) fun v m => { m with tier := v },
     .scalar 32 int32 0 (·.minWeight) fun v m => { m with minWeight := v }]

structure SelectedRoute where
  workerUrl : String
  ethAddress : String
  capability : String
  offering : String
  pricePerWorkUnitWei : String
  workUnit : String
  extraJson : Bytes
  constraintsJson : Bytes
deriving Repr, DecidableEq

def selectedRouteFns : MessageFns SelectedRoute where
  base := ⟨"", "", "", "", "", "", [], []⟩
  fields :=
    [.scalar 10 string "" (·.workerUrl) fun v m => { m with workerUrl := v },
     .scalar 18 string "" (·.ethAddress) fun v m => { m with ethAddress := v },
     .scalar 26 string "" (·.capability) fun v m => { m with capability := v },
     .scalar 34 string "" (·.offering) fun v m => { m with offering := v },
     .scalar 42 string "" (·.pricePerWorkUnitWei) fun v m => { m with pricePerWorkUnitWei := v },
     .scalar 50 string "" (·.workUnit) fun v m => { m with workUnit := v },
     .scalar 58 bytes [] (·.extraJson) fun v m => { m with extraJson := v },
     .scalar 66 bytes [] (·.constraintsJson) fun v m => { m with constraintsJson := v }]

structure SelectResult where
  route : Option SelectedRoute
deriving Repr, DecidableEq

def selectResultFns : MessageFns SelectResult where
  base := ⟨none⟩
  fields := [.optional 10 selectedRouteFns.delimited (·.route) fun v m => { m with route := v }]

structure KnownEntry where
  ethAddress : String
  mode : Int
  freshnessStatus : Int
  cachedAt : Option Num
deriving Repr, DecidableEq

def knownEntryFns : MessageFns KnownEntry where
  base := ⟨"", 0, 0, none⟩
  fields :=
    [.scalar 10 string "" (·.ethAddress) fun v m => { m with ethAddress := v },
     .scalar 16 int32 0 (·.mode) fun v m => { m with mode := v },
     .scalar 24 int32 0 (·.freshnessStatus) fun v m => { m with freshnessStatus := v },
     .optional 34 date (·.cachedAt) fun v m => { m with cachedAt := v }]

/-- `ListKnownRequest` and `Empty`, which have no fields. -/
def emptyFns : MessageFns Unit where
  base := ()
  fields := []
  ext _ _ _ := rfl

structure ListKnownResult where
  entries : List KnownEntry
deriving Repr, DecidableEq

def listKnownResultFns : MessageFns ListKnownResult where
  base := ⟨[]⟩
  fields := [.repeated 10 knownEntryFns.delimited (·.entries) fun v m => { m with entries := v }]

structure RefreshRequest where
  ethAddress : String
  force : Bool
deriving Repr, DecidableEq

def refreshRequestFns : MessageFns RefreshRequest where
  base := ⟨"", false⟩
  fields :=
    [.scalar 10 string "" (·.ethAddress) fun v m => { m with ethAddress := v },
     .scalar 16 bool false (·.force) fun v m => { m with force := v }]

structure GetAuditLogRequest where
  ethAddress : String
  since : Option Num
  limit : Int
deriving Repr, DecidableEq

def getAuditLogRequestFns : MessageFns GetAuditLogRequest where
  base := ⟨"", none, 0⟩
  fields :=
    [.scalar 10 string "" (·.ethAddress) fun v m => { m with ethAddress := v },
     .optional 18 date (·.since) fun v m => { m with since := v },
     .scalar 24 int32 0 (·.limit) fun v m => { m with limit := v }]

structure AuditEvent where
  «at» : Option Num
  ethAddress : String
  kind : String
  mode : Int
  detail : String
deriving Repr, DecidableEq

def auditEventFns : MessageFns AuditEvent where
  base := ⟨none, "", "", 0, ""⟩
  fields :=
    [.optional 10 date (·.at) fun v m => { m with «at» := v },
     .scalar 18 string "" (·.ethAddress) fun v m => { m with ethAddress := v },
     .scalar 26 string "" (·.kind) fun v m => { m with kind := v },
     .scalar 32 int32 0 (·.mode) fun v m => { m with mode := v },
     .scalar 42 string "" (·.detail) fun v m => { m with detail := v }]

structure AuditLogResult where
  events : List AuditEvent
deriving Repr, DecidableEq

def auditLogResultFns : MessageFns AuditLogResult where
  base := ⟨[]⟩
  fields := [.repeated 10 auditEventFns.delimited (·.events) fun v m => { m with events := v }]

structure HealthResult where
  mode : String
  chainOk : Bool
  manifestFetcherOk : Bool
  cacheSize : Int
  lastChainSuccess : Option Num
deriving Repr, DecidableEq

def healthResultFns : MessageFns HealthResult where
  base := ⟨"", false, false, 0, none⟩
  fields :=
    [.scalar 10 string "" (·.mode) fun v m => { m with mode := v },
     .scalar 16 bool false (·.chainOk) fun v m => { m with chainOk := v },
     .scalar 24 bool false (·.manifestFetcherOk) fun v m => { m with manifestFetcherOk := v },
     .scalar 32 int32 0 (·.cacheSize) fun v m => { m with cacheSize := v },
     .optional 42 date (·.lastChainSuccess) fun v m => { m with lastChainSuccess := v }]

end GatewayConsole.Registry
