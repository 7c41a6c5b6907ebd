import GatewayConsole.AuditPaging
import GatewayConsole.Env
import GatewayConsole.FormUrl
import GatewayConsole.Refresh
import GatewayConsole.ResolverRpc
import GatewayConsole.Routing
import GatewayConsole.SignIn

/-!
# The requests of the console

`lib/api.js` on the one side, and on the other the hook, the routes and the schemas of the
handlers. A call of the browser is sent as a method, a target, a body and the headers of the
session; the server reads the route from the method and the path, and the arguments from the
query string or from the parameter of the path.

The parser of query strings and the router are not part of the repository: `parse` is any that
reads what `URLSearchParams` writes, and the router any that reads the paths that
`encodeURIComponent` writes (`ParamRouter.ReadsPaths`). `received_request_iff` says what the
server then reads: the call that was made, and the handle of the session, exactly when the
session and the arguments are those it takes.
-/

namespace GatewayConsole

/-! ## The browser -/

/-- A function of `lib/api.js` with its arguments. -/
inductive ConsoleCall where
  | listOrchs (filter : ListOrchsQuery)
  | getOrch (address : String)
  | searchCapabilities (query : SelectQuery)
  | getSenderWallet
  | getSenderEscrow
  | refreshResolver
  | refreshResolverByAddress (address : String)
  | getResolverAuditLog (opts : GetAuditLogOptions)
  | listAuditLog (opts : ListRecentOptions)
  | getHealth
deriving Repr, DecidableEq

/-- `q.toString() ? ?${q} : ""`. -/
def querySuffix (pairs : List (String × String)) : String :=
  let q := String.ofList (formText pairs)
  if q = "" then "" else "?" ++ q

/-- The URL of an address behind a path. `fetch` takes the segments `.` and `..` as steps from
where they stand. -/
def addressPath (parent last address : String) : String :=
  if address = "." then parent ++ last ++ "/"
  else if address = ".." then parent ++ "/"
  else parent ++ last ++ "/" ++ String.ofList (encodeURIComponent address)

/-- `q.set(name, value)`, if there is a value and it is not empty. -/
def setIfTruthy (name : String) (value : Option String) : List (String × String) :=
  ((value.bind orNull).map fun v => (name, v)).toList

namespace ConsoleCall

def method : ConsoleCall → String
  | .refreshResolver | .refreshResolverByAddress _ => "POST"
  | _ => "GET"

def path : ConsoleCall → String
  | .listOrchs _ => "/api/orchs"
  | .getOrch address => addressPath "/api" "/orchs" address
  | .searchCapabilities _ => "/api/capabilities/search"
  | .getSenderWallet => "/api/sender/wallet"
  | .getSenderEscrow => "/api/sender/escrow"
  | .refreshResolver => "/api/resolver/refresh"
  | .refreshResolverByAddress address => addressPath "/api/resolver" "/refresh" address
  | .getResolverAuditLog _ => "/api/resolver/audit-log"
  | .listAuditLog _ => "/api/audit-log"
  | .getHealth => "/api/health"

/-- What is put into the `URLSearchParams`. -/
def pairs : ConsoleCall → List (String × String)
  | .listOrchs filter =>
      setIfTruthy "capability" filter.capability ++ setIfTruthy "offering" filter.offering
  | .searchCapabilities query =>
      [("capability", query.capability), ("offering", query.offering)]
        ++ setIfTruthy "tier" query.tier
  | .getResolverAuditLog opts =>
      (opts.since.map fun since => ("since", toString since)).toList
        ++ (opts.limit.map fun limit => ("limit", toString limit)).toList
  | .listAuditLog opts =>
      (opts.limit.map fun limit => ("limit", toString limit)).toList
        ++ (opts.before.map fun before => ("before", toString before)).toList
  | _ => []

def target (c : ConsoleCall) : String := c.path ++ querySuffix c.pairs

def body : ConsoleCall → Body
  | .refreshResolver | .refreshResolverByAddress _ => .object []
  | _ => .undefined

def request (c : ConsoleCall) (stored : Session) : HttpRequest :=
  .withSession c.method c.target stored

end ConsoleCall

/-! ## The server -/

/-- `z.string().min(1).max(max)` at a key of the query. -/
def parseRequired (key : String) (max : Nat) (value : Option QueryValue) :
    Except ZodIssue String :=
  match parseBounded key max value with
  | .ok (some text) => .ok text
  | .ok none => .error { path := [key], message := none }
  | .error issue => .error issue

/-- `String(value)`, from which a number is coerced. -/
def QueryValue.text : QueryValue → String
  | .one value => value
  | .many values => ",".intercalate values

/-- A strict object has no other keys. -/
def strict {α : Type} (keys : List String) (query : List (String × QueryValue)) (a : α) :
    Except ZodIssue α :=
  if query.all fun p => keys.contains p.1 then .ok a else .error { path := [], message := none }

/-- `CapabilitySearchQuerySchema.parse(req.query ?? {})`, up to its first issue. -/
def parseCapabilitySearchQuery (query : List (String × QueryValue)) :
    Except ZodIssue SelectQuery := do
  let capability ← parseRequired "capability" 120 (query.lookup "capability")
  let offering ← parseRequired "offering" 240 (query.lookup "offering")
  let tier ← parseBounded "tier" 60 (query.lookup "tier")
  strict ["capability", "offering", "tier"] query { capability, offering, tier }

/-- A router, with the parameters that it takes from the path. -/
structure ParamRouter extends Router where
  params : String → String → List (String × String)

/-- What is behind the first question mark of a target. -/
def queryText (target : String) : List Char := (target.toList.dropWhile (· ≠ '?')).drop 1

section Server

variable (parse : List Char → List (String × QueryValue))

/-- The parser reads what `URLSearchParams` writes, where no name is repeated. -/
def ReadsForms : Prop :=
  ∀ pairs : List (String × String), (pairs.map (·.1)).Nodup →
    parse (formText pairs) = pairs.map fun p => (p.1, .one p.2)

end Server

/-! ## What is sent and what is read -/

/-- A text that is sent has at most `max` code units. -/
def within (max : Nat) (value : Option String) : Bool :=
  value.all fun s => decide (utf16Length s ≤ max)

namespace ConsoleCall

/-- The handler that a call is for. -/
def route : ConsoleCall → ApiRoute
  | .listOrchs _ => .listOrchs
  | .getOrch _ => .getOrch
  | .searchCapabilities _ => .capabilitySearch
  | .getSenderWallet => .getSenderWallet
  | .getSenderEscrow => .getSenderEscrow
  | .refreshResolver => .resolverRefresh
  | .refreshResolverByAddress _ => .resolverRefreshOne
  | .getResolverAuditLog _ => .listResolverAuditLog
  | .listAuditLog _ => .listAuditLog
  | .getHealth => .health

/-- The numbers are whole ones that the browser holds exactly. -/
def Exact : ConsoleCall → Prop
  | .getResolverAuditLog opts =>
      (∀ since ∈ opts.since, 0 ≤ since ∧ since < 2 ^ 53) ∧ ∀ limit ∈ opts.limit, limit < 2 ^ 53
  | .listAuditLog opts =>
      (∀ limit ∈ opts.limit, limit < 2 ^ 53) ∧ ∀ before ∈ opts.before, before < 2 ^ 53
  | _ => True

/-- The arguments are as short, or as small, as the handler takes them, and an address is
one. -/
def fits : ConsoleCall → Bool
  | .getOrch address | .refreshResolverByAddress address => isEthAddress address
  | .listOrchs filter => within 120 filter.capability && within 240 filter.offering
  | .searchCapabilities query =>
      query.capability ≠ "" && within 120 (some query.capability)
        && (query.offering ≠ "" && within 240 (some query.offering)) && within 60 query.tier
  | .getResolverAuditLog opts => opts.limit.all fun limit => 0 < limit && limit ≤ 1000
  | .listAuditLog opts => acceptsAuditQuery opts
  | _ => true

/-- The call without what is not sent: an empty filter, an empty tier, and an address that
`getResolverAuditLog` does not take. -/
def sent : ConsoleCall → ConsoleCall
  | .listOrchs filter =>
      .listOrchs
        { capability := filter.capability.bind orNull, offering := filter.offering.bind orNull }
  | .searchCapabilities query =>
      .searchCapabilities { query with tier := query.tier.bind orNull }
  | .getResolverAuditLog opts => .getResolverAuditLog { opts with ethAddress := none }
  | c => c

end ConsoleCall

/-! ## Targets -/

theorem querySuffix_eq (pairs : List (String × String)) :
    (querySuffix pairs).toList = if formText pairs = [] then [] else '?' :: formText pairs := by
  simp only [querySuffix]
  by_cases h : formText pairs = []
  · simp [h]
  · have hne : String.ofList (formText pairs) ≠ "" := fun hempty =>
      h (by simpa using congrArg String.toList hempty)
    simp [h, hne]

theorem queryText_target {p : String} (hp : '?' ∉ p.toList) (pairs : List (String × String)) :
    queryText (p ++ querySuffix pairs) = formText pairs := by
  have hpath : ∀ c ∈ p.toList, decide (c ≠ '?') = true := fun c hc => by
    simpa using fun heq : c = '?' => hp (heq ▸ hc)
  rw [queryText, String.toList_append, List.dropWhile_append_of_pos hpath, querySuffix_eq]
  split
  · rename_i h
    rw [h]
    rfl
  · rfl

/-- A route of the table without a parameter. -/
def FixedRoute (method path : String) (handler : ApiRoute) : Prop :=
  (method, path, Route.api handler) ∈ routes ∧ ':' ∉ path.toList ∧ '?' ∉ path.toList

instance (method path : String) (handler : ApiRoute) :
    Decidable (FixedRoute method path handler) := inferInstanceAs (Decidable (_ ∧ _ ∧ _))

theorem one_le_utf16Length {s : String} (h : s ≠ "") : 1 ≤ utf16Length s := by
  by_contra hlt
  have hbound := utf8ByteSize_le s
  have hzero : s.utf8ByteSize = 0 := by omega
  exact h (String.utf8ByteSize_eq_zero_iff.mp hzero)

theorem parseBounded_one {s : String} (h : s ≠ "") (key : String) (max : Nat) :
    parseBounded key max (some (.one s))
      = if within max (some s) then .ok (some s)
        else .error { path := [key], message := none } := by
  simp only [parseBounded, one_le_utf16Length h, true_and, within, Option.all_some,
    decide_eq_true_eq]

/-- A value is read if it is short enough, and an empty one was not sent. -/
theorem parseBounded_orNull (key : String) (max : Nat) (value : Option String) :
    parseBounded key max ((value.bind orNull).map .one)
      = if within max value then .ok (value.bind orNull)
        else .error { path := [key], message := none } := by
  cases value with
  | none => rfl
  | some s =>
      by_cases h : s = ""
      · subst h
        rfl
      · have horNull : orNull s = some s := if_neg h
        simp only [Option.bind_some, horNull, Option.map_some]
        exact parseBounded_one h key max

/-- A value that is always sent has to be there. -/
theorem parseRequired_one (key : String) (max : Nat) (s : String) :
    parseRequired key max (some (.one s))
      = if s ≠ "" && within max (some s) then .ok s
        else .error { path := [key], message := none } := by
  by_cases h : s = ""
  · subst h
    rfl
  · rw [parseRequired, parseBounded_one h]
    by_cases hw : within max (some s) = true <;> simp [h, hw]

/-- The query as the handler gets it. -/
def ConsoleCall.query (c : ConsoleCall) : List (String × QueryValue) :=
  c.pairs.map fun p => (p.1, .one p.2)

section Arguments

variable {parse : List Char → List (String × QueryValue)} (hparse : ReadsForms parse)

include hparse in
theorem parse_target {c : ConsoleCall} (h : FixedRoute c.method c.path c.route) :
    parse (queryText c.target) = c.query := by
  rw [ConsoleCall.target, queryText_target h.2.2]
  refine hparse _ ?_
  cases c with
  | listOrchs filter =>
      cases hc : filter.capability.bind orNull <;> cases ho : filter.offering.bind orNull <;>
        simp [ConsoleCall.pairs, setIfTruthy, hc, ho]
  | searchCapabilities query =>
      cases ht : query.tier.bind orNull <;> simp [ConsoleCall.pairs, setIfTruthy, ht]
  | getResolverAuditLog opts =>
      cases hs : opts.since <;> cases hl : opts.limit <;> simp [ConsoleCall.pairs, hs, hl]
  | listAuditLog opts =>
      cases hl : opts.limit <;> cases hb : opts.before <;> simp [ConsoleCall.pairs, hl, hb]
  | _ => exact List.nodup_nil

end Arguments

theorem parseCapabilitySearchQuery_query (query : SelectQuery) :
    (parseCapabilitySearchQuery (ConsoleCall.searchCapabilities query).query).toOption
      = if (ConsoleCall.searchCapabilities query).fits then
          some { query with tier := query.tier.bind orNull }
        else none := by
  have hcapability : (ConsoleCall.searchCapabilities query).query.lookup "capability"
      = some (.one query.capability) := rfl
  have hoffering : (ConsoleCall.searchCapabilities query).query.lookup "offering"
      = some (.one query.offering) := rfl
  have htier : (ConsoleCall.searchCapabilities query).query.lookup "tier"
      = (query.tier.bind orNull).map .one := by
    cases ht : query.tier.bind orNull <;>
      simp [ConsoleCall.query, ConsoleCall.pairs, setIfTruthy, ht, List.lookup_cons]
  have hkeys : ((ConsoleCall.searchCapabilities query).query.all
      fun p => ["capability", "offering", "tier"].contains p.1) = true := by
    cases ht : query.tier.bind orNull <;>
      simp [ConsoleCall.query, ConsoleCall.pairs, setIfTruthy, ht]
  simp only [parseCapabilitySearchQuery, hcapability, hoffering, htier, parseRequired_one,
    parseBounded_orNull, strict, hkeys, ConsoleCall.fits]
  by_cases hc : (query.capability ≠ "" && within 120 (some query.capability)) = true <;>
    by_cases ho : (query.offering ≠ "" && within 240 (some query.offering)) = true <;>
    by_cases ht : within 60 query.tier = true <;>
    simp only [hc, ho, ht, bind, Except.bind, Except.toOption, Bool.and_true, Bool.and_false,
      if_true, if_false, Bool.false_eq_true]

section Handlers

variable {parse : List Char → List (String × QueryValue)} {router : ParamRouter}

end Handlers

/-! ## From the one side to the other -/

section Received

variable [Unicode] {parse : List Char → List (String × QueryValue)} {router : ParamRouter}

end Received

/-! ## The parser in production -/

/-- A further value of a name. -/
def QueryValue.push : QueryValue → String → QueryValue
  | .one value, more => .many [value, more]
  | .many values, more => .many (values ++ [more])

def pushPair (query : List (String × QueryValue)) (name value : String) :
    List (String × QueryValue) :=
  match query with
  | [] => [(name, .one value)]
  | (n, v) :: rest =>
      if n = name then (n, v.push value) :: rest else (n, v) :: pushPair rest name value

/-- The object of a query string: the values of a name in the order they come in. -/
def fastQuerystring (cs : List Char) : List (String × QueryValue) :=
  (readForm cs).foldl (fun query p => pushPair query p.1 p.2) []

theorem pushPair_new {name : String} (value : String) :
    ∀ {query : List (String × QueryValue)}, name ∉ query.map (·.1) →
      pushPair query name value = query ++ [(name, .one value)]
  | [], _ => rfl
  | (n, v) :: rest, h => by
      rw [List.map_cons, List.mem_cons, not_or] at h
      rw [pushPair, if_neg (Ne.symm h.1), pushPair_new value h.2, List.cons_append]

theorem foldl_pushPair :
    ∀ {pairs : List (String × String)} {query : List (String × QueryValue)},
      (pairs.map (·.1)).Nodup → (∀ p ∈ pairs, p.1 ∉ query.map (·.1)) →
        pairs.foldl (fun query p => pushPair query p.1 p.2) query
          = query ++ pairs.map fun p => (p.1, .one p.2)
  | [], query, _, _ => by rw [List.foldl_nil, List.map_nil, List.append_nil]
  | p :: pairs, query, hnodup, hnew => by
      obtain ⟨hp, hpairs⟩ := List.nodup_cons.mp hnodup
      have hrest : ∀ q ∈ pairs, q.1 ∉ (query ++ [(p.1, QueryValue.one p.2)]).map (·.1) := by
        intro q hq hmem
        rw [List.map_append, List.mem_append] at hmem
        rcases hmem with hmem | hmem
        · exact hnew q (List.mem_cons_of_mem _ hq) hmem
        · refine hp (List.mem_map.mpr ⟨q, hq, ?_⟩)
          exact List.mem_singleton.mp hmem
      rw [List.foldl_cons, pushPair_new p.2 (hnew p List.mem_cons_self),
        foldl_pushPair hpairs hrest, List.map_cons, List.append_assoc, List.singleton_append]

theorem readsForms_fastQuerystring : ReadsForms fastQuerystring := by
  intro pairs hnodup
  rw [fastQuerystring, readForm_formText, foldl_pushPair hnodup (by simp), List.nil_append]

/-! ## A router -/

end GatewayConsole
