import GatewayConsole.Timestamp

/-!
# The resolver client

`providers/resolver/client.ts`: the messages of the resolver daemon as the
generated stubs decode them, and the pure mappers from them to the domain
types the service layer reads. Enumerations arrive as the integers on the wire;
every mapper has a default for a value it does not know.

The stubs turn a timestamp into a `Date`, so below the domain types a time is a
whole number of milliseconds or `NaN`; `LoggedEvent` keeps the real instant, which
is what the daemon compares with `since`.
-/

namespace GatewayConsole

/-! ## Labels -/

inductive FreshnessLabel where
  | fresh
  | staleRecoverable
  | staleFailing
  | unknown
deriving Repr, DecidableEq

inductive SignatureLabel where
  | verified
  | unsigned
  | legacy
  | unknown
deriving Repr, DecidableEq

inductive ResolveModeLabel where
  | wellKnown
  | csv
  | legacy
  | unspecified
deriving Repr, DecidableEq

/-- The text of a mode label. -/
def ResolveModeLabel.text : ResolveModeLabel → String
  | wellKnown => "well-known"
  | csv => "csv"
  | legacy => "legacy"
  | unspecified => "unspecified"

def mapResolveMode : Int → ResolveModeLabel
  | 1 => .wellKnown
  | 2 => .csv
  | 3 => .legacy
  | _ => .unspecified

def mapFreshness : Int → FreshnessLabel
  | 1 => .fresh
  | 2 => .staleRecoverable
  | 3 => .staleFailing
  | _ => .unknown

def mapSignature : Int → SignatureLabel
  | 1 => .verified
  | 2 => .unsigned
  | 3 => .legacy
  | _ => .unknown

/-! ## ListKnown -/

structure KnownEntry where
  ethAddress : String
  mode : Int
  freshnessStatus : Int
  cachedAt : Option Timestamp
deriving Repr, DecidableEq

structure KnownOrch where
  address : String
  mode : ResolveModeLabel
  freshnessStatus : FreshnessLabel
  cachedAt : Option Num
deriving Repr, DecidableEq

def mapKnownEntry (e : KnownEntry) : KnownOrch where
  address := e.ethAddress
  mode := mapResolveMode e.mode
  freshnessStatus := mapFreshness e.freshnessStatus
  cachedAt := e.cachedAt.map fromTimestamp

/-! ## ResolveByAddress -/

structure Offering where
  id : String
deriving Repr, DecidableEq

structure Capability where
  name : String
  offerings : List Offering
deriving Repr, DecidableEq

structure Node where
  id : String
  url : String
  workerEthAddress : String
  capabilities : List Capability
  signatureStatus : Int
  operatorAddress : String
  enabled : Bool
  tierAllowed : List String
  weight : Int
deriving Repr, DecidableEq

structure ResolveResult where
  ethAddress : String
  resolvedUri : String
  mode : Int
  nodes : List Node
  freshnessStatus : Int
  cachedAt : Option Timestamp
  fetchedAt : Option Timestamp
  schemaVersion : String
deriving Repr, DecidableEq

structure ResolvedNode where
  id : String
  url : String
  workerEthAddress : String
  capabilities : List String
  offerings : List String
  signatureStatus : SignatureLabel
  operatorAddress : String
  enabled : Bool
  tierAllowed : List String
  weight : Int
deriving Repr, DecidableEq

structure ResolvedOrch where
  address : String
  resolvedUri : String
  mode : ResolveModeLabel
  nodes : List ResolvedNode
  freshnessStatus : FreshnessLabel
  cachedAt : Option Num
  fetchedAt : Option Num
  schemaVersion : String
deriving Repr, DecidableEq

def mapNode (n : Node) : ResolvedNode where
  id := n.id
  url := n.url
  workerEthAddress := n.workerEthAddress
  capabilities := n.capabilities.map fun c => c.name
  offerings := n.capabilities.flatMap fun c => c.offerings.map fun m => m.id
  signatureStatus := mapSignature n.signatureStatus
  operatorAddress := n.operatorAddress
  enabled := n.enabled
  tierAllowed := n.tierAllowed
  weight := n.weight

def mapResolveResult (r : ResolveResult) : ResolvedOrch where
  address := r.ethAddress
  resolvedUri := r.resolvedUri
  mode := mapResolveMode r.mode
  nodes := r.nodes.map mapNode
  freshnessStatus := mapFreshness r.freshnessStatus
  cachedAt := r.cachedAt.map fromTimestamp
  fetchedAt := r.fetchedAt.map fromTimestamp
  schemaVersion := r.schemaVersion

/-! ## GetAuditLog -/

/-- An event of the daemon's audit log. -/
structure LoggedEvent where
  «at» : Option WireTimestamp
  ethAddress : String
  kind : String
  mode : Int
  detail : String
deriving Repr, DecidableEq

structure ResolverAuditEntry where
  occurredAt : Num
  orchAddress : Option String
  kind : String
  mode : ResolveModeLabel
  detail : String
deriving Repr, DecidableEq

/-- `mapAuditEvent` after the decoding of the timestamp: an event without one gets
the time 0, and the empty address becomes null. -/
def mapAuditEvent (e : LoggedEvent) : ResolverAuditEntry where
  occurredAt := match e.at with
    | some t => fromTimestamp t.1
    | none => .int 0
  orchAddress := if e.ethAddress = "" then none else some e.ethAddress
  kind := e.kind
  mode := mapResolveMode e.mode
  detail := e.detail

/-- The options of `getAuditLog`, with the time as epoch milliseconds. -/
structure GetAuditLogRequest where
  ethAddress : String
  limit : Nat
  since : Option Int
deriving Repr, DecidableEq

/-- The request `getAuditLog({ ethAddress, since, limit })` sends. -/
def getAuditLogRequest (ethAddress : Option String) (since : Option Int)
    (limit : Option Nat) : GetAuditLogRequest where
  ethAddress := ethAddress.getD ""
  limit := limit.getD 100
  since := since

/-- The event is at or after `since`, as the daemon compares: in real time, an event
without a timestamp never. Without a `since` every event is. -/
def LoggedEvent.atOrAfter (e : LoggedEvent) : Option Int → Bool
  | none => true
  | some ms =>
      match e.at with
      | some t => decide (ms * 1000000 ≤ t.1.instant)
      | none => false

theorem LoggedEvent.decodesTo {e : LoggedEvent} {t : Int}
    (ht : (mapAuditEvent e).occurredAt = .int t) (hpos : 0 < t) :
    ∃ ts : WireTimestamp, e.at = some ts ∧ ts.1.DecodesTo t := by
  cases hat : e.at with
  | none =>
      simp only [mapAuditEvent, hat, Num.int.injEq] at ht
      omega
  | some ts =>
      simp only [mapAuditEvent, hat] at ht
      exact ⟨ts, rfl, ts.2.decodesTo ht hpos⟩

/-- What the daemon counts as at or after the cursor has such a millisecond timestamp. -/
theorem LoggedEvent.le_of_atOrAfter {e : LoggedEvent} {t w : Int}
    (ht : (mapAuditEvent e).occurredAt = .int t) (hpos : 0 < t)
    (h : e.atOrAfter (some w) = true) : w ≤ t := by
  obtain ⟨ts, hat, hts⟩ := decodesTo ht hpos
  simp only [atOrAfter, hat, decide_eq_true_eq] at h
  exact hts.le_of_le_instant ts.2 h

/-- What has a millisecond timestamp after the cursor the daemon counts so. -/
theorem LoggedEvent.atOrAfter_of_lt {e : LoggedEvent} {t w : Int}
    (ht : (mapAuditEvent e).occurredAt = .int t) (hpos : 0 < t) (h : w < t) :
    e.atOrAfter (some w) = true := by
  obtain ⟨ts, hat, hts⟩ := decodesTo ht hpos
  simp only [atOrAfter, hat, decide_eq_true_eq]
  by_contra hlt
  have := hts.le_of_instant_le (w := w) (by omega)
  omega

end GatewayConsole
