import GatewayConsole.Address
import GatewayConsole.Registry

/-!
# The resolver client over the wire

`providers/resolver/client.ts` above the generated stubs. A call writes its request, the
daemon answers bytes with bytes, and the stub reads them; `Registry.ResolverService` has the
codecs of both sides. Bytes that cannot be written or read end the call with the status
`INTERNAL`.

A daemon is taken at two levels: as its handlers (`ResolverDaemon`), and as what it does to
bytes (`WireDaemon`). The second implements the first when it answers the bytes of a request
with any rendering of the response, in which it may have fields of its own, and timestamps
that are finer than the dates of the response. `client_overWire` says that the client then
sees the handlers. What makes the requests writable is what the handlers of the console
check.
-/

namespace GatewayConsole

/-! ## Texts that can be written -/

theorem utf8Size_le (c : Char) : c.utf8Size ≤ 3 * (if 0x10000 ≤ c.toNat then 2 else 1) := by
  have hfour := c.utf8Size_le_four
  split
  · omega
  · rename_i hlow
    by_contra hbig
    have hval : 0xffff < c.val := Char.utf8Size_eq_four_iff.mp (by omega)
    exact hlow (UInt32.lt_iff_toNat_lt.mp hval)

theorem utf16Length_cons (c : Char) (cs : List Char) :
    utf16Length (String.ofList (c :: cs))
      = (if 0x10000 ≤ c.toNat then 2 else 1) + utf16Length (String.ofList cs) := by
  simp only [utf16Length, utf16Units, String.toList_ofList, List.flatMap_cons,
    List.length_append]
  split <;> rfl

theorem utf8ByteSize_ofList_le : ∀ cs : List Char,
    (String.ofList cs).utf8ByteSize ≤ 3 * utf16Length (String.ofList cs)
  | [] => by simp
  | c :: cs => by
      have hc := utf8Size_le c
      have ih := utf8ByteSize_ofList_le cs
      rw [utf16Length_cons, String.ofList_cons, String.utf8ByteSize_append,
        String.utf8ByteSize_singleton]
      omega

theorem utf8ByteSize_le (s : String) : s.utf8ByteSize ≤ 3 * utf16Length s := by
  have hs := utf8ByteSize_ofList_le s.toList
  rwa [String.ofList_toList] at hs

theorem utf16Length_ofList_le : ∀ cs : List Char, utf16Length (String.ofList cs) ≤ 2 * cs.length
  | [] => Nat.le_refl _
  | c :: cs => by
      have ih := utf16Length_ofList_le cs
      rw [utf16Length_cons, List.length_cons]
      split <;> omega

/-- A text that a field of a request may have. -/
def Writable (s : String) : Prop := utf16Length s < 2 ^ 16

theorem writable_empty : Writable "" := by
  unfold Writable
  decide

theorem writable_star : Writable "*" := by
  unfold Writable
  decide

theorem utf16Length_of_isEthAddress {s : String} (h : isEthAddress s = true) :
    utf16Length s ≤ 100 := by
  obtain ⟨digits, hdigits, hlength, -⟩ := toList_of_isEthAddress h
  have hlen := utf16Length_ofList_le s.toList
  rw [String.ofList_toList, hdigits, List.length_cons, List.length_cons, hlength] at hlen
  omega

theorem writable_of_isEthAddress {s : String} (h : isEthAddress s = true) : Writable s :=
  Nat.lt_of_le_of_lt (utf16Length_of_isEthAddress h) (by decide)

section Wire

variable [BinaryWire]

/-! ## The service -/

/-- A method of a service, with the codecs of its request and its response. -/
structure Method (Req Res : Type) where
  path : String
  request : MessageFns Req
  response : MessageFns Res

namespace Registry.ResolverService

def resolveByAddress : Method Registry.ResolveByAddressRequest Registry.ResolveResult where
  path := "/livepeer.registry.v1.Resolver/ResolveByAddress"
  request := Registry.resolveByAddressRequestFns
  response := Registry.resolveResultFns

def select : Method Registry.SelectRequest Registry.SelectResult where
  path := "/livepeer.registry.v1.Resolver/Select"
  request := Registry.selectRequestFns
  response := Registry.selectResultFns

def listKnown : Method Unit Registry.ListKnownResult where
  path := "/livepeer.registry.v1.Resolver/ListKnown"
  request := Registry.emptyFns
  response := Registry.listKnownResultFns

def refresh : Method Registry.RefreshRequest Unit where
  path := "/livepeer.registry.v1.Resolver/Refresh"
  request := Registry.refreshRequestFns
  response := Registry.emptyFns

def getAuditLog : Method Registry.GetAuditLogRequest Registry.AuditLogResult where
  path := "/livepeer.registry.v1.Resolver/GetAuditLog"
  request := Registry.getAuditLogRequestFns
  response := Registry.auditLogResultFns

def health : Method Unit Registry.HealthResult where
  path := "/livepeer.registry.v1.Resolver/Health"
  request := Registry.emptyFns
  response := Registry.healthResultFns

end Registry.ResolverService

/-- The codes of `grpcStatus` that occur here. -/
def statusNotFound : Nat := 5

def statusInternal : Nat := 13

def orInternal {α : Type} : Option α → Except Nat α
  | none => .error statusInternal
  | some v => .ok v

namespace Method

variable {Req Res : Type} (method : Method Req Res)

/-- A unary call of the stub: the request as bytes, and the response from bytes. -/
def call (server : Bytes → Except Nat Bytes) (req : Req) : Except Nat Res := do
  let sent ← orInternal (method.request.encode req)
  let answer ← server sent
  orInternal (method.response.decode answer)

/-- The server that is built on the generated service. -/
def served (handler : Req → Except Nat Res) (sent : Bytes) : Except Nat Bytes := do
  let req ← orInternal (method.request.decode sent)
  let res ← handler req
  orInternal (method.response.encode res)

/-- The server answers the bytes of a request as the handler answers the request: with the
same error, or with a rendering of the response. -/
def Implements (server : Bytes → Except Nat Bytes) (handler : Req → Except Nat Res) : Prop :=
  ∀ req sent, method.request.encode req = some sent →
    (∃ code, handler req = .error code ∧ server sent = .error code)
      ∨ ∃ res answer, handler req = .ok res ∧ server sent = .ok answer
        ∧ method.response.Renders res answer

variable {method} {handler : Req → Except Nat Res}

theorem call_eq {server : Bytes → Except Nat Bytes} {req : Req}
    (h : method.Implements server handler) (hreq : ∃ sent, method.request.encode req = some sent) :
    method.call server req = handler req := by
  obtain ⟨sent, hsent⟩ := hreq
  rcases h req sent hsent with
    ⟨code, hhandler, hserver⟩ | ⟨res, answer, hhandler, hserver, hanswer⟩
  · simp only [call, hsent, orInternal, bind, Except.bind, hserver, hhandler]
  · simp only [call, hsent, orInternal, bind, Except.bind, hserver, hhandler,
      MessageFns.decode_renders hanswer]

/-- A request that cannot be written ends the call, and the server is not asked. -/
theorem call_eq_internal {server : Bytes → Except Nat Bytes} {req : Req}
    (hreq : method.request.encode req = none) :
    method.call server req = .error statusInternal := by
  simp only [call, hreq, orInternal, bind, Except.bind]

theorem served_implements (hreq : ∀ req, method.request.Lossless req)
    (hres : ∀ req res, handler req = .ok res →
      method.response.Lossless res ∧ ∃ b, method.response.encode res = some b) :
    method.Implements (method.served handler) handler := by
  intro req sent hsent
  have hread : method.request.decode sent = some req :=
    MessageFns.decode_encode hsent (hreq req)
  cases hhandler : handler req with
  | error code =>
      refine .inl ⟨code, rfl, ?_⟩
      simp only [served, hread, orInternal, bind, Except.bind, hhandler]
  | ok res =>
      obtain ⟨hlossless, answer, hanswer⟩ := hres req res hhandler
      refine .inr ⟨res, answer, rfl, ?_, MessageFns.renders_encode hanswer hlossless⟩
      simp only [served, hread, orInternal, bind, Except.bind, hhandler, hanswer]

end Method

/-! ## The client -/

/-- What comes of a request: the response of the daemon, or the code of the error the call
ends with. -/
structure ResolverDaemon where
  resolveByAddress : Registry.ResolveByAddressRequest → Except Nat Registry.ResolveResult
  select : Registry.SelectRequest → Except Nat Registry.SelectResult
  listKnown : Unit → Except Nat Registry.ListKnownResult
  refresh : Registry.RefreshRequest → Except Nat Unit
  getAuditLog : Registry.GetAuditLogRequest → Except Nat Registry.AuditLogResult
  health : Unit → Except Nat Registry.HealthResult

/-- What the daemon does to the bytes of a request, method by method. -/
structure WireDaemon where
  resolveByAddress : Bytes → Except Nat Bytes
  select : Bytes → Except Nat Bytes
  listKnown : Bytes → Except Nat Bytes
  refresh : Bytes → Except Nat Bytes
  getAuditLog : Bytes → Except Nat Bytes
  health : Bytes → Except Nat Bytes

/-- The stub of a daemon. -/
def WireDaemon.stub (w : WireDaemon) : ResolverDaemon where
  resolveByAddress := Registry.ResolverService.resolveByAddress.call w.resolveByAddress
  select := Registry.ResolverService.select.call w.select
  listKnown := Registry.ResolverService.listKnown.call w.listKnown
  refresh := Registry.ResolverService.refresh.call w.refresh
  getAuditLog := Registry.ResolverService.getAuditLog.call w.getAuditLog
  health := Registry.ResolverService.health.call w.health

namespace Registry

def mapKnownEntry (e : KnownEntry) : KnownOrch where
  address := e.ethAddress
  mode := mapResolveMode e.mode
  freshnessStatus := mapFreshness e.freshnessStatus
  cachedAt := e.cachedAt

def mapNode (n : Node) : ResolvedNode where
  id := n.id
  url := n.url
  workerEthAddress := n.workerEthAddress
  capabilities := n.capabilities.map fun c => c.name
  offerings := n.capabilities.flatMap fun c => c.offerings.map fun m => m.id
  signatureStatus := mapSignature n.signatureStatus
  operatorAddress := n.operatorAddress
  enabled := n.enabled
  tierAllowed := n.tierAllowed
  weight := n.weight

def mapResolveResult (r : ResolveResult) : ResolvedOrch where
  address := r.ethAddress
  resolvedUri := r.resolvedUri
  mode := mapResolveMode r.mode
  nodes := r.nodes.map mapNode
  freshnessStatus := mapFreshness r.freshnessStatus
  cachedAt := r.cachedAt
  fetchedAt := r.fetchedAt
  schemaVersion := r.schemaVersion

def mapAuditEvent (e : AuditEvent) : ResolverAuditEntry where
  occurredAt := e.at.getD (.int 0)
  orchAddress := if e.ethAddress = "" then none else some e.ethAddress
  kind := e.kind
  mode := mapResolveMode e.mode
  detail := e.detail

end Registry

/-- `bufferToJsonStringOrNull(value)`. -/
def bufferToJsonStringOrNull (value : Bytes) : Option String :=
  if value.length = 0 then none else some (bufferToString value)

structure SelectedRoute where
  workerUrl : String
  ethAddress : String
  capability : String
  offering : String
  pricePerWorkUnitWei : String
  workUnit : String
  extraJson : Option String
  constraintsJson : Option String
deriving Repr, DecidableEq

def mapSelectedRoute (r : Registry.SelectedRoute) : SelectedRoute where
  workerUrl := r.workerUrl
  ethAddress := r.ethAddress
  capability := r.capability
  offering := r.offering
  pricePerWorkUnitWei := r.pricePerWorkUnitWei
  workUnit := r.workUnit
  extraJson := bufferToJsonStringOrNull r.extraJson
  constraintsJson := bufferToJsonStringOrNull r.constraintsJson

structure SelectQuery where
  capability : String
  offering : String
  tier : Option String := none
deriving Repr, DecidableEq

structure SelectResult where
  route : Option SelectedRoute
  reason : String
deriving Repr, DecidableEq

structure ResolveByAddressOptions where
  allowLegacyFallback : Option Bool := none
  allowUnsigned : Option Bool := none
  forceRefresh : Option Bool := none
deriving Repr, DecidableEq

structure GetAuditLogOptions where
  ethAddress : Option String := none
  since : Option Int := none
  limit : Option Nat := none
deriving Repr, DecidableEq

namespace ResolverClient

def ping (d : ResolverDaemon) : Bool := (d.health ()).isOk

def listKnown (d : ResolverDaemon) : Except Nat (List KnownOrch) :=
  (d.listKnown ()).map fun res => res.entries.map Registry.mapKnownEntry

/-- The request `resolveByAddress(address, opts)` sends. -/
def resolveByAddressRequest (address : String) (opts : ResolveByAddressOptions) :
    Registry.ResolveByAddressRequest where
  ethAddress := address
  allowLegacyFallback := opts.allowLegacyFallback.getD false
  allowUnsigned := opts.allowUnsigned.getD true
  forceRefresh := opts.forceRefresh.getD false

def resolveByAddress (d : ResolverDaemon) (address : String) (opts : ResolveByAddressOptions) :
    Except Nat (Option ResolvedOrch) :=
  match d.resolveByAddress (resolveByAddressRequest address opts) with
  | .ok res => .ok (some (Registry.mapResolveResult res))
  | .error code => if code = statusNotFound then .ok none else .error code

/-- The request `select(query)` sends. -/
def selectRequest (query : SelectQuery) : Registry.SelectRequest where
  capability := query.capability
  offering := query.offering
  tier := query.tier.getD ""
  minWeight := 0

def select (d : ResolverDaemon) (query : SelectQuery) : Except Nat SelectResult :=
  match d.select (selectRequest query) with
  | .ok res =>
      .ok
        { route := res.route.map mapSelectedRoute
          reason := if res.route.isSome then "top-weighted" else "no route matched" }
  | .error code =>
      if code = statusNotFound then .ok { route := none, reason := "no route matched" }
      else .error code

def refresh (d : ResolverDaemon) (addressOrWildcard : String) (force : Option Bool) :
    Except Nat Unit :=
  d.refresh { ethAddress := addressOrWildcard, force := force.getD false }

/-- The request `getAuditLog(opts)` sends. A time out of range is an invalid date. -/
def getAuditLogRequest (opts : GetAuditLogOptions) : Registry.GetAuditLogRequest where
  ethAddress := opts.ethAddress.getD ""
  since := opts.since.map fun ms => if ms.natAbs ≤ maxTime.natAbs then .int ms else .nan
  limit := opts.limit.getD 100

def getAuditLog (d : ResolverDaemon) (opts : GetAuditLogOptions) :
    Except Nat (List ResolverAuditEntry) :=
  (d.getAuditLog (getAuditLogRequest opts)).map fun res => res.events.map Registry.mapAuditEvent

end ResolverClient

/-! ## Requests that can be written -/

theorem Writable.write {s : String} (h : Writable s) :
    ∃ b, BinaryWire.string.write s = some b := by
  have hsize := utf8ByteSize_le s
  rw [Writable] at h
  exact BinaryWire.string_write (by omega)

open Registry

theorem encode_resolveByAddressRequest {address : String} (h : Writable address)
    (opts : ResolveByAddressOptions) :
    ∃ b, resolveByAddressRequestFns.encode (ResolverClient.resolveByAddressRequest address opts)
      = some b := by
  refine MessageFns.encode_isSome fun f hf => ?_
  simp only [resolveByAddressRequestFns, List.mem_cons, List.not_mem_nil, or_false] at hf
  rcases hf with rfl | rfl | rfl | rfl
  · exact ⟨by simp [MessageField.scalar], MessageField.put_scalar h.write⟩
  · exact ⟨by simp [MessageField.scalar], MessageField.put_scalar (BinaryWire.bool_write _)⟩
  · exact ⟨by simp [MessageField.scalar], MessageField.put_scalar (BinaryWire.bool_write _)⟩
  · exact ⟨by simp [MessageField.scalar], MessageField.put_scalar (BinaryWire.bool_write _)⟩

theorem encode_selectRequest {query : SelectQuery} (hc : Writable query.capability)
    (ho : Writable query.offering) (ht : Writable (query.tier.getD "")) :
    ∃ b, selectRequestFns.encode (ResolverClient.selectRequest query) = some b := by
  refine MessageFns.encode_isSome fun f hf => ?_
  simp only [selectRequestFns, List.mem_cons, List.not_mem_nil, or_false] at hf
  rcases hf with rfl | rfl | rfl | rfl
  · exact ⟨by simp [MessageField.scalar], MessageField.put_scalar hc.write⟩
  · exact ⟨by simp [MessageField.scalar], MessageField.put_scalar ho.write⟩
  · exact ⟨by simp [MessageField.scalar], MessageField.put_scalar ht.write⟩
  · exact ⟨by simp [MessageField.scalar], [], rfl⟩

theorem encode_refreshRequest {target : String} (h : Writable target) (force : Bool) :
    ∃ b, refreshRequestFns.encode ⟨target, force⟩ = some b := by
  refine MessageFns.encode_isSome fun f hf => ?_
  simp only [refreshRequestFns, List.mem_cons, List.not_mem_nil, or_false] at hf
  rcases hf with rfl | rfl
  · exact ⟨by simp [MessageField.scalar], MessageField.put_scalar h.write⟩
  · exact ⟨by simp [MessageField.scalar], MessageField.put_scalar (BinaryWire.bool_write _)⟩

theorem encode_getAuditLogRequest {opts : GetAuditLogOptions}
    (ha : Writable (opts.ethAddress.getD ""))
    (hs : ∀ ms, opts.since = some ms → ms.natAbs ≤ maxTime.natAbs)
    (hl : opts.limit.getD 100 < 2 ^ 31) :
    ∃ b, getAuditLogRequestFns.encode (ResolverClient.getAuditLogRequest opts) = some b := by
  refine MessageFns.encode_isSome fun f hf => ?_
  simp only [getAuditLogRequestFns, List.mem_cons, List.not_mem_nil, or_false] at hf
  rcases hf with rfl | rfl | rfl
  · exact ⟨by simp [MessageField.scalar], MessageField.put_scalar ha.write⟩
  · refine ⟨by simp [MessageField.optional], MessageField.put_optional fun d hd => ?_⟩
    obtain ⟨ms, hms, rfl⟩ := Option.map_eq_some_iff.mp hd
    rw [if_pos (hs ms hms)]
    exact date_write ⟨ms, rfl, hs ms hms⟩
  · refine ⟨by simp [MessageField.scalar], MessageField.put_scalar ?_⟩
    have hlimit : (ResolverClient.getAuditLogRequest opts).limit
        = ((opts.limit.getD 100 : Nat) : Int) := rfl
    obtain ⟨b, hb, -⟩ := BinaryWire.int32_write (v := ((opts.limit.getD 100 : Nat) : Int))
      (by omega) (by omega)
    exact ⟨b, hb⟩

theorem encode_empty : ∃ b, emptyFns.encode () = some b := ⟨[], rfl⟩

/-! ## The daemon behind the wire -/

/-- The daemon answers on the wire as its handlers answer. -/
structure WireDaemon.Implements (w : WireDaemon) (d : ResolverDaemon) : Prop where
  resolveByAddress :
    Registry.ResolverService.resolveByAddress.Implements w.resolveByAddress d.resolveByAddress
  select : Registry.ResolverService.select.Implements w.select d.select
  listKnown : Registry.ResolverService.listKnown.Implements w.listKnown d.listKnown
  refresh : Registry.ResolverService.refresh.Implements w.refresh d.refresh
  getAuditLog : Registry.ResolverService.getAuditLog.Implements w.getAuditLog d.getAuditLog
  health : Registry.ResolverService.health.Implements w.health d.health

namespace ResolverClient

variable {w : WireDaemon} {d : ResolverDaemon}

theorem resolveByAddress_stub (hw : w.Implements d) {address : String} (h : Writable address)
    (opts : ResolveByAddressOptions) :
    resolveByAddress w.stub address opts = resolveByAddress d address opts := by
  simp only [resolveByAddress, WireDaemon.stub]
  rw [Method.call_eq hw.resolveByAddress (encode_resolveByAddressRequest h opts)]

theorem select_stub (hw : Registry.ResolverService.select.Implements w.select d.select)
    {query : SelectQuery} (hc : Writable query.capability) (ho : Writable query.offering)
    (ht : Writable (query.tier.getD "")) : select w.stub query = select d query := by
  simp only [select, WireDaemon.stub]
  rw [Method.call_eq hw (encode_selectRequest hc ho ht)]

theorem refresh_stub (hw : w.Implements d) {target : String} (h : Writable target)
    (force : Option Bool) : refresh w.stub target force = refresh d target force :=
  Method.call_eq hw.refresh (encode_refreshRequest h _)

theorem getAuditLog_stub (hw : w.Implements d) {opts : GetAuditLogOptions}
    (ha : Writable (opts.ethAddress.getD ""))
    (hs : ∀ ms, opts.since = some ms → ms.natAbs ≤ maxTime.natAbs)
    (hl : opts.limit.getD 100 < 2 ^ 31) : getAuditLog w.stub opts = getAuditLog d opts := by
  simp only [getAuditLog, WireDaemon.stub]
  rw [Method.call_eq hw.getAuditLog (encode_getAuditLogRequest ha hs hl)]

/-- A time that no date has is not written, and the daemon is not asked. -/
theorem getAuditLog_stub_invalid {opts : GetAuditLogOptions} {ms : Int}
    (hs : opts.since = some ms) (hms : maxTime.natAbs < ms.natAbs) :
    getAuditLog w.stub opts = .error statusInternal := by
  have hput : MessageFns.putField
      (MessageField.optional 18 date Registry.GetAuditLogRequest.since
        fun v m => { m with since := v }) (getAuditLogRequest opts) = none := by
    have hsince : (getAuditLogRequest opts).since = some .nan := by
      rw [getAuditLogRequest, hs, Option.map_some, if_neg (Nat.not_le.mpr hms)]
    simp [MessageFns.putField, MessageField.optional, hsince, date, toTimestamp]
  have hencode : getAuditLogRequestFns.encode (getAuditLogRequest opts) = none := by
    rw [MessageFns.encode]
    simp only [getAuditLogRequestFns, List.mapM_cons, hput, Option.bind_eq_bind,
      Option.bind_none, Option.map_eq_none_iff]
    exact Option.bind_fun_none _
  simp only [getAuditLog, WireDaemon.stub]
  rw [@Method.call_eq_internal _ _ _ Registry.ResolverService.getAuditLog _ _ hencode]
  rfl

end ResolverClient

open ResolverClient in
/-- **The client sees the handlers of the daemon.** For addresses, texts and limits as the
console lets them through, every call over the wire ends as the call of the handler; but a
time that no date has ends the call before the daemon is asked. -/
theorem client_overWire {w : WireDaemon} {d : ResolverDaemon} (hw : w.Implements d) :
    ping w.stub = ping d
      ∧ listKnown w.stub = listKnown d
      ∧ (∀ address opts, isEthAddress address = true →
          resolveByAddress w.stub address opts = resolveByAddress d address opts)
      ∧ (∀ query : SelectQuery, Writable query.capability → Writable query.offering →
          (∀ tier, query.tier = some tier → Writable tier) →
          select w.stub query = select d query)
      ∧ (∀ target force, target = "*" ∨ isEthAddress target = true →
          refresh w.stub target force = refresh d target force)
      ∧ ∀ opts : GetAuditLogOptions,
          (∀ a, opts.ethAddress = some a → isEthAddress a = true) →
          (∀ limit, opts.limit = some limit → limit < 2 ^ 31) →
          getAuditLog w.stub opts
            = if opts.since.all (fun ms => ms.natAbs ≤ maxTime.natAbs) then getAuditLog d opts
              else .error statusInternal := by
  refine ⟨?_, ?_, fun address opts h => resolveByAddress_stub hw (writable_of_isEthAddress h)
    opts, fun query hc ho ht => select_stub hw.select hc ho ?_, fun target force h => ?_,
    fun opts ha hl => ?_⟩
  · simp only [ping, WireDaemon.stub]
    rw [Method.call_eq hw.health encode_empty]
  · simp only [listKnown, WireDaemon.stub]
    rw [Method.call_eq hw.listKnown encode_empty]
  · cases htier : query.tier with
    | none => exact writable_empty
    | some tier => exact ht tier htier
  · rcases h with rfl | h
    · exact refresh_stub hw writable_star force
    · exact refresh_stub hw (writable_of_isEthAddress h) force
  · have haddress : Writable (opts.ethAddress.getD "") := by
      cases ha' : opts.ethAddress with
      | none => exact writable_empty
      | some a => exact writable_of_isEthAddress (ha a ha')
    have hlimit : opts.limit.getD 100 < 2 ^ 31 := by
      cases hl' : opts.limit with
      | none => decide
      | some limit => exact hl limit hl'
    cases hs : opts.since with
    | none =>
        rw [Option.all_none, if_pos rfl]
        exact getAuditLog_stub hw haddress (by simp [hs]) hlimit
    | some ms =>
        by_cases hms : ms.natAbs ≤ maxTime.natAbs
        · rw [Option.all_some, if_pos (decide_eq_true hms)]
          refine getAuditLog_stub hw haddress (fun x hx => ?_) hlimit
          obtain rfl := Option.some.inj (hs.symm.trans hx)
          exact hms
        · rw [Option.all_some, if_neg (by simpa using hms)]
          exact getAuditLog_stub_invalid hs (Nat.not_le.mp hms)

end Wire

/-- A daemon with one entry, and no route. -/
def quietDaemon : ResolverDaemon where
  resolveByAddress _ := .error statusNotFound
  select _ := .ok ⟨none⟩
  listKnown _ := .ok ⟨[⟨"0xab", 1, 1, some (.int 1700000000124)⟩]⟩
  refresh _ := .ok ()
  getAuditLog _ := .ok ⟨[]⟩
  health _ := .error statusInternal

/-- The entry as another writer may put it: the last field first, the mode twice, a field that
the console does not know, and a timestamp to the nanosecond. -/
def entryRecords : List WireRecord :=
  [⟨34, 11 :: 8 :: varint 1700000000 ++ 16 :: varint 123999999⟩, ⟨24, [1]⟩, ⟨16, [2]⟩,
    ⟨40, [7]⟩, ⟨16, [1]⟩, ⟨10, 4 :: utf8 "0xab"⟩]

/-- A record behind a tag of one byte. -/
def shortRecord (r : WireRecord) : Bytes := UInt8.ofNat r.tag :: r.value

theorem written_shortRecords :
    ∀ {rs : List WireRecord}, (∀ r ∈ rs, r.tag < 128) →
      List.Forall₂ MessageFns.Written rs (rs.map shortRecord)
  | [], _ => .nil
  | r :: rs, h => by
      refine .cons ⟨[UInt8.ofNat r.tag], ?_, rfl⟩
        (written_shortRecords fun s hs => h s (List.mem_cons_of_mem _ hs))
      have hlt := h r List.mem_cons_self
      have hwrite : uint32Scalar.write r.tag = some (varint r.tag) := by
        simp only [uint32Scalar, varintScalar, if_pos (by omega : r.tag < 2 ^ 32),
          Option.map_some]
      exact hwrite.trans (by rw [varint, varintGroups, if_pos hlt])

/-- The answer to `ListKnown`. -/
def knownBytes : Bytes := 10 :: 27 :: (entryRecords.map shortRecord).flatten

theorem renders_entryRecords :
    Registry.knownEntryFns.Renders ⟨"0xab", 1, 1, some (.int 1700000000124)⟩
      (entryRecords.map shortRecord).flatten := by
  refine ⟨entryRecords, _, written_shortRecords (by decide), rfl, fun f hf => ?_,
    fun r hr => ?_⟩
  · simp only [Registry.knownEntryFns, List.mem_cons, List.not_mem_nil, or_false] at hf
    rcases hf with rfl | rfl | rfl | rfl
    · exact ⟨["0xab"], .cons ⟨utf8 "0xab", rfl, by decide⟩ .nil, rfl⟩
    · exact ⟨[2, 1], .cons ⟨2, rfl, rfl⟩ (.cons ⟨1, rfl, rfl⟩ .nil), rfl⟩
    · exact ⟨[1], .cons ⟨1, rfl, rfl⟩ .nil, rfl⟩
    · refine .cons ⟨⟨1700000000, 123999999⟩, by decide +kernel, _, [11], ?_, rfl, rfl⟩ .nil
      exact MessageFns.renders_encode rfl (Registry.timestampFns_lossless _)
  · by_cases htag : r.tag = 40
    · obtain rfl : r = ⟨40, [7]⟩ := by
        simp only [entryRecords, List.mem_cons, List.not_mem_nil, or_false] at hr
        rcases hr with rfl | rfl | rfl | rfl | rfl | rfl <;> first | rfl | cases htag
      exact .inr ⟨by simp [Registry.knownEntryFns, MessageField.scalar, MessageField.optional],
        by decide, by decide, fun _ => rfl⟩
    · refine .inl ?_
      simp only [entryRecords, List.mem_cons, List.not_mem_nil, or_false] at hr
      rcases hr with rfl | rfl | rfl | rfl | rfl | rfl <;>
        simp [Registry.knownEntryFns, MessageField.scalar, MessageField.optional] at htag ⊢

/-- The daemon on the wire. -/
def quietServer : WireDaemon where
  resolveByAddress _ := .error statusNotFound
  select _ := .ok []
  listKnown _ := .ok knownBytes
  refresh _ := .ok []
  getAuditLog _ := .ok []
  health _ := .error statusInternal

theorem quietServer_implements : quietServer.Implements quietDaemon where
  resolveByAddress _ _ _ := .inl ⟨_, rfl, rfl⟩
  select _ _ _ := .inr ⟨_, _, rfl, rfl, MessageFns.renders_encode rfl fun f hf => by
    obtain rfl := List.mem_singleton.mp hf
    exact fun v hv => by cases hv⟩
  listKnown _ _ _ := by
    refine .inr ⟨_, _, rfl, rfl, [⟨10, knownBytes.tail⟩], [knownBytes],
      .cons ⟨[10], rfl, rfl⟩ .nil, rfl, fun f hf => ?_, fun r hr => .inl ?_⟩
    · obtain rfl := List.mem_singleton.mp hf
      exact .cons ⟨_, [27], renders_entryRecords, rfl, rfl⟩ .nil
    · obtain rfl := List.mem_singleton.mp hr
      exact ⟨_, List.mem_singleton_self _, rfl⟩
  refresh _ _ _ := .inr ⟨_, _, rfl, rfl, MessageFns.renders_encode rfl fun _ hf =>
    absurd hf List.not_mem_nil⟩
  getAuditLog _ _ _ := .inr ⟨_, _, rfl, rfl, MessageFns.renders_encode rfl fun f hf => by
    obtain rfl := List.mem_singleton.mp hf
    exact fun v hv => by cases hv⟩
  health _ _ _ := .inl ⟨_, rfl, rfl⟩

/-- Across the wire the daemon is seen to know its entry. -/
theorem client_overWire_quietServer :
    ResolverClient.listKnown quietServer.stub
      = .ok [⟨"0xab", .wellKnown, .fresh, some (.int 1700000000124)⟩] :=
  (client_overWire quietServer_implements).2.1

end GatewayConsole
