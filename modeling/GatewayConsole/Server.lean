import GatewayConsole.Auth

/-!
# The HTTP shell and its authentication gate

`runtime/http/server.ts` puts one `onRequest` hook in front of every route:
for a request whose raw target starts with `/api/` it authenticates the bearer
and parses the operator handle, and otherwise it lets the request through
untouched. The route is looked up separately, by the router.

The router is not part of the repository. `Router` is what the shell needs of
it, a map from method and raw target to a route, and the results about the gate
hold for every such map. `findMyWay` is the map it is in production: the table
of registered routes, matched against the normalised path of the target.

The gate and the router see two different strings. `gated_iff` says when that
matters: the gate covers a request exactly when its raw target starts with
`/api/` or the router sends it to no API route.
-/

namespace GatewayConsole

/-! ## Requests and routes -/

/-- The value of a request header. -/
inductive HeaderValue where
  | undefined
  | single (value : String)
  | many (values : List String)
deriving Repr, DecidableEq

def headerString : HeaderValue → Option String
  | .single value => some value
  | _ => none

/-- What the hook and the router read of a request. `url` is the raw request
target. -/
structure HttpRequest where
  method : String
  url : String
  authorization : HeaderValue
  xActor : HeaderValue
deriving Repr, DecidableEq

/-- The handlers `registerApiRoutes` registers. -/
inductive ApiRoute where
  | health
  | listOrchs
  | getOrch
  | capabilitySearch
  | getSenderWallet
  | getSenderEscrow
  | listAuditLog
  | listResolverAuditLog
  | resolverRefresh
  | resolverRefreshOne
deriving Repr, DecidableEq

inductive Route where
  | healthz
  | api (handler : ApiRoute)
deriving Repr, DecidableEq

/-- The registered routes, in order: method, pattern, handler. -/
def routes : List (String × String × Route) :=
  [ ("GET", "/healthz", .healthz),
    ("GET", "/api/health", .api .health),
    ("GET", "/api/orchs", .api .listOrchs),
    ("GET", "/api/orchs/:address", .api .getOrch),
    ("GET", "/api/capabilities/search", .api .capabilitySearch),
    ("GET", "/api/sender/wallet", .api .getSenderWallet),
    ("GET", "/api/sender/escrow", .api .getSenderEscrow),
    ("GET", "/api/audit-log", .api .listAuditLog),
    ("GET", "/api/resolver/audit-log", .api .listResolverAuditLog),
    ("POST", "/api/resolver/refresh", .api .resolverRefresh),
    ("POST", "/api/resolver/refresh/:address", .api .resolverRefreshOne) ]

/-- The route a request is dispatched to, by method and raw target. -/
structure Router where
  find : String → String → Option Route

/-! ## The onRequest hook -/

/-- The body of an error reply: a code and, for two of the errors, a message. -/
structure ErrorBody where
  code : String
  message : Option String := none
deriving Repr, DecidableEq

/-- How the hook ends: the request goes on, or is answered, or the hook throws. -/
inductive HookResult where
  | next
  | reply (status : Nat) (error : ErrorBody)
  | threw (err : AuthError)
deriving Repr, DecidableEq

/-- What the hook leaves on the request, with the calls of `auth.authenticate` it
made and their outcomes. -/
structure HookState where
  actor : String := ""
  authenticateCalls : List (Option String × Except AuthError String) := []

/-- The `catch` of the hook. -/
def hookCatch (err : AuthError) : HookResult :=
  match err with
  | .malformedAuthorization _ =>
      .reply 401 { code := "malformed_authorization", message := some err.message }
  | .invalidAdminToken => .reply 401 { code := "invalid_admin_token" }
  | .missingActor => .reply 400 { code := "missing_actor" }
  | .malformedActor _ => .reply 400 { code := "malformed_actor", message := some err.message }
  | .rangeError => .threw err

theorem hookCatch_ne_next (err : AuthError) : hookCatch err ≠ .next := by
  cases err <;> simp [hookCatch]

section Gate

variable [Unicode]

def onRequest (adminToken : String) (req : HttpRequest) : HookState × HookResult :=
  if !startsWith req.url "/api/" then ({}, .next)
  else
    let header := headerString req.authorization
    let result := authenticate adminToken header
    let called : HookState := { authenticateCalls := [(header, result)] }
    match result with
    | .error err => (called, hookCatch err)
    | .ok _ =>
        match parseActor (headerString req.xActor) with
        | .error err => (called, hookCatch err)
        | .ok actor => ({ called with actor := actor }, .next)

/-- What became of a request: the state the hook left, and the handler that ran. -/
structure Served where
  hook : HookState
  handler : Option Route

/-- The life of a request: the hook, then the handler of the route unless the
hook answered or threw. -/
def serve (router : Router) (adminToken : String) (req : HttpRequest) : Served :=
  match onRequest adminToken req with
  | (hook, .next) => { hook, handler := router.find req.method req.url }
  | (hook, _) => { hook, handler := none }

/-! ## The gate -/

/-- If an API handler runs for the request, the hook called `authenticate` on its
`Authorization` header and it returned, and `req.actor` is the handle
`parseActor` returned for its `X-Actor` header. -/
def Gated (router : Router) (adminToken : String) (req : HttpRequest) : Prop :=
  ∀ handler, (serve router adminToken req).handler = some (.api handler) →
    (∃ identity, (headerString req.authorization, .ok identity)
        ∈ (serve router adminToken req).hook.authenticateCalls)
      ∧ parseActor (headerString req.xActor) = .ok (serve router adminToken req).hook.actor
      ∧ (serve router adminToken req).hook.actor ≠ ""

/-- Outside the prefix the hook does nothing. -/
theorem onRequest_outside {adminToken : String} {req : HttpRequest}
    (h : startsWith req.url "/api/" = false) :
    onRequest adminToken req = ({}, .next) := by
  simp [onRequest, h]

/-- Inside the prefix the hook lets a request through only with its bearer
authenticated and its handle parsed. -/
theorem onRequest_next {adminToken : String} {req : HttpRequest} {st : HookState}
    (hpre : startsWith req.url "/api/" = true)
    (h : onRequest adminToken req = (st, .next)) :
    (∃ identity, (headerString req.authorization, .ok identity) ∈ st.authenticateCalls)
      ∧ parseActor (headerString req.xActor) = .ok st.actor := by
  simp only [onRequest, hpre, Bool.not_true, Bool.false_eq_true, if_false] at h
  cases hauth : authenticate adminToken (headerString req.authorization) with
  | error err =>
      rw [hauth] at h
      exact absurd (Prod.mk.inj h).2 (hookCatch_ne_next err)
  | ok identity =>
      rw [hauth] at h
      cases hact : parseActor (headerString req.xActor) with
      | error err =>
          rw [hact] at h
          exact absurd (Prod.mk.inj h).2 (hookCatch_ne_next err)
      | ok actor =>
          rw [hact] at h
          obtain rfl := (Prod.mk.inj h).1
          exact ⟨⟨identity, List.mem_singleton.mpr rfl⟩, rfl⟩

/-- Inside the prefix the hook accepts a request if both of its headers pass. -/
theorem onRequest_accepts_iff {adminToken : String} {req : HttpRequest}
    (hpre : startsWith req.url "/api/" = true) :
    (onRequest adminToken req).2 = .next
      ↔ (∃ identity, authenticate adminToken (headerString req.authorization) = .ok identity)
        ∧ ∃ actor, parseActor (headerString req.xActor) = .ok actor := by
  simp only [onRequest, hpre, Bool.not_true, Bool.false_eq_true, if_false]
  cases hauth : authenticate adminToken (headerString req.authorization) with
  | error err =>
      exact ⟨fun h => absurd h (hookCatch_ne_next err), fun ⟨⟨_, h⟩, _⟩ => (by cases h)⟩
  | ok identity =>
      cases hact : parseActor (headerString req.xActor) with
      | error err =>
          exact ⟨fun h => absurd h (hookCatch_ne_next err), fun ⟨_, ⟨_, h⟩⟩ => (by cases h)⟩
      | ok actor => exact ⟨fun _ => ⟨⟨_, rfl⟩, ⟨_, rfl⟩⟩, fun _ => rfl⟩

/-- An API route reached from outside the prefix is not gated: its handler runs
with no call of `authenticate` made. -/
theorem not_gated_of_outside {router : Router} {adminToken : String} {req : HttpRequest}
    {handler : ApiRoute} (hpre : startsWith req.url "/api/" = false)
    (hfind : router.find req.method req.url = some (.api handler)) :
    ¬ Gated router adminToken req := by
  intro h
  have hserve : serve router adminToken req
      = { hook := {}, handler := router.find req.method req.url } := by
    simp only [serve, onRequest_outside hpre]
  obtain ⟨⟨identity, hmem⟩, -⟩ := h handler (by rw [hserve]; exact hfind)
  rw [hserve] at hmem
  cases hmem

/-- Inside the prefix every request is gated. -/
theorem gated_of_inside {router : Router} {adminToken : String} {req : HttpRequest}
    (hpre : startsWith req.url "/api/" = true) : Gated router adminToken req := by
  intro handler hrun
  unfold serve at hrun ⊢
  cases hhook : onRequest adminToken req with
  | mk st res =>
      rw [hhook] at hrun
      cases res with
      | next =>
          obtain ⟨hcall, hactor⟩ := onRequest_next hpre hhook
          exact ⟨hcall, hactor, parseActor_ne_empty hactor⟩
      | reply status error => cases hrun
      | threw err => cases hrun

/-- **The gate holds exactly off the bypass.** Whatever the router, a request is
gated if and only if its raw target starts with `/api/` or the router sends it
to no API route. -/
theorem gated_iff (router : Router) (adminToken : String) (req : HttpRequest) :
    Gated router adminToken req ↔
      startsWith req.url "/api/" = true
        ∨ ∀ handler, router.find req.method req.url ≠ some (.api handler) := by
  constructor
  · intro h
    cases hpre : startsWith req.url "/api/" with
    | true => exact Or.inl rfl
    | false =>
        exact Or.inr fun handler hfind => not_gated_of_outside hpre hfind h
  · rintro (hpre | hroute)
    · exact gated_of_inside hpre
    · intro handler hrun
      unfold serve at hrun
      split at hrun
      · exact absurd hrun (hroute handler)
      · cases hrun

end Gate

/-! ## The router -/

/-- The value of a hex digit. -/
def hexValue (c : Char) : Option Nat :=
  if '0' ≤ c ∧ c ≤ '9' then some (c.toNat - 48)
  else if 'a' ≤ c ∧ c ≤ 'f' then some (c.toNat - 87)
  else if 'A' ≤ c ∧ c ≤ 'F' then some (c.toNat - 55)
  else none

/-- The characters whose escapes are left alone. -/
def isReserved (n : Nat) : Bool := n ∈ ("%#$&+,/:;=?@".toList.map Char.toNat)

/-- Decode every percent escape but those of reserved characters. `need` is how
many bytes of a UTF-8 sequence are still to come, `acc` its code point so far and
`least` the least code point its length may encode; `none` is a malformed escape. -/
def decodePath (need acc least : Nat) : List Char → Option (List Char)
  | '%' :: a :: b :: rest =>
      match hexValue a, hexValue b with
      | some hi, some lo =>
          let n := 16 * hi + lo
          if need = 0 then
            if n < 0x80 then
              if isReserved n then (decodePath 0 0 0 rest).map ('%' :: a :: b :: ·)
              else (decodePath 0 0 0 rest).map (Char.ofNat n :: ·)
            else if 0xC0 ≤ n ∧ n < 0xE0 then decodePath 1 (n - 0xC0) 0x80 rest
            else if 0xE0 ≤ n ∧ n < 0xF0 then decodePath 2 (n - 0xE0) 0x800 rest
            else if 0xF0 ≤ n ∧ n < 0xF8 then decodePath 3 (n - 0xF0) 0x10000 rest
            else none
          else if 0x80 ≤ n ∧ n < 0xC0 then
            let point := 64 * acc + (n - 0x80)
            if need = 1 then
              if least ≤ point ∧ point.isValidChar then
                (decodePath 0 0 0 rest).map (Char.ofNat point :: ·)
              else none
            else decodePath (need - 1) point least rest
          else none
      | _, _ => none
  | '%' :: _ => none
  | c :: rest => if need = 0 then (decodePath 0 0 0 rest).map (c :: ·) else none
  | [] => if need = 0 then some [] else none

/-- Remove a leading `http(s)://authority`, when a path follows it. -/
def dropAuthority (target : List Char) : List Char :=
  if target.head? = some '/' then target
  else
    let rest :=
      if "http://".toList.isPrefixOf target then target.drop 7
      else if "https://".toList.isPrefixOf target then target.drop 8
      else []
    let path := rest.dropWhile (· ≠ '/')
    if path = [] then target else path

/-- The path a raw target is matched by. -/
def routePath (target : String) : Option (List Char) :=
  decodePath 0 0 0
    ((dropAuthority target.toList).takeWhile fun c => c ≠ '?' && c ≠ '#')

/-- A pattern segment `:name` matches any segment, another one only itself. -/
def segmentMatches (pattern segment : List Char) : Bool :=
  pattern.head? = some ':' || pattern = segment

def pathMatches (pattern : String) (path : List Char) : Bool :=
  let ps := pattern.toList.splitOn '/'
  let ss := path.splitOn '/'
  ps.length = ss.length && (ps.zip ss).all fun p => segmentMatches p.1 p.2

/-- The length of a parameter, in which an escape that is left counts for its character. -/
def paramLength : List Char → Nat
  | '%' :: _ :: _ :: rest => paramLength rest + 1
  | c :: rest => paramLength rest + if 0x10000 ≤ c.toNat then 2 else 1
  | [] => 0

def maxParamLength : Nat := 100

/-- No parameter of the path is longer than the router takes it. -/
def paramsFit (pattern : String) (path : List Char) : Bool :=
  ((pattern.toList.splitOn '/').zip (path.splitOn '/')).all fun p =>
    p.1.head? ≠ some ':' || paramLength p.2 ≤ maxParamLength

/-- A route registered for GET answers HEAD too. -/
def methodMatches (registered method : String) : Bool :=
  registered = method || (registered = "GET" && method = "HEAD")

/-- The router in production. -/
def findMyWay : Router where
  find method target :=
    (routePath target).bind fun path =>
      (routes.find? fun r =>
        methodMatches r.1 method && pathMatches r.2.1 path && paramsFit r.2.1 path).map (·.2.2)

/-- `GET /%61pi/health` with no headers: the hook sees no `/api/`, the router
decodes the escape and runs the handler. -/
def escapedHealth : HttpRequest :=
  { method := "GET", url := "/%61pi/health",
    authorization := .undefined, xActor := .undefined }

theorem not_gated_escapedHealth :
    ¬ ∀ (adminToken : String) (req : HttpRequest),
        @Gated asciiUnicode findMyWay adminToken req := by
  intro h
  have hfind : findMyWay.find "GET" "/%61pi/health" = some (.api .health) := by decide
  have hpre : startsWith "/%61pi/health" "/api/" = false := by decide
  exact @not_gated_of_outside asciiUnicode _ _ escapedHealth _ hpre hfind
    (h "" escapedHealth)

/-! ## Plain targets

The bypass needs the normalisation: on a target in origin form without a percent
escape, the gate and the router read the same path. -/

theorem decodePath_plain : ∀ {cs : List Char}, '%' ∉ cs → decodePath 0 0 0 cs = some cs
  | [], _ => rfl
  | c :: cs, h => by
      obtain ⟨hc, hcs⟩ := List.ne_and_not_mem_of_not_mem_cons h
      unfold decodePath
      split
      · rename_i heq
        exact absurd (List.cons.inj heq).1.symm hc
      · rename_i heq
        exact absurd (List.cons.inj heq).1.symm hc
      · rename_i heq
        obtain ⟨rfl, rfl⟩ := List.cons.inj heq
        simp [decodePath_plain hcs]
      · rename_i heq
        cases heq

/-- Every API pattern begins with the segments of `/api/`. -/
theorem routes_api_segments :
    ∀ r ∈ routes, ∀ handler, r.2.2 = .api handler →
      ∃ s rest, r.2.1.toList.splitOn '/' = [] :: "api".toList :: s :: rest := by
  intro r hr handler hapi
  simp only [routes, List.mem_cons, List.not_mem_nil, or_false] at hr
  rcases hr with rfl | rfl | rfl | rfl | rfl | rfl | rfl | rfl | rfl | rfl | rfl
  · cases hapi
  all_goals exact ⟨_, _, rfl⟩

/-- A path that matches an API pattern starts with `/api/`. -/
theorem api_prefix_of_match {pattern : String} {path : List Char} {s : List Char}
    {rest : List (List Char)}
    (hseg : pattern.toList.splitOn '/' = [] :: "api".toList :: s :: rest)
    (hmatch : pathMatches pattern path = true) : "/api/".toList <+: path := by
  simp only [pathMatches, hseg, Bool.and_eq_true, decide_eq_true_eq] at hmatch
  obtain ⟨hlen, hall⟩ := hmatch
  have hpath : ['/'].intercalate (path.splitOn '/') = path := List.intercalate_splitOn '/'
  match hss : path.splitOn '/' with
  | [] => rw [hss] at hlen; simp at hlen
  | [_] => rw [hss] at hlen; simp at hlen
  | [_, _] => rw [hss] at hlen; simp at hlen
  | a :: b :: c :: rest' =>
      rw [hss] at hall hpath
      simp only [List.zip_cons_cons, List.all_cons, Bool.and_eq_true] at hall
      have ha : [] = a := by simpa [segmentMatches] using hall.1
      have hb : "api".toList = b := by simpa [segmentMatches] using hall.2.1
      subst ha hb
      rw [← hpath]
      simp [List.intercalate_cons_cons]

theorem findMyWay_plain {method target : String} {handler : ApiRoute}
    (hslash : target.toList.head? = some '/') (hplain : '%' ∉ target.toList)
    (hfind : findMyWay.find method target = some (.api handler)) :
    startsWith target "/api/" = true := by
  obtain ⟨path, hpath, hrest⟩ := Option.bind_eq_some_iff.mp hfind
  obtain ⟨r, hr, hapi⟩ := Option.map_eq_some_iff.mp hrest
  have hmem := List.mem_of_find?_eq_some hr
  have hmatch := List.find?_some hr
  simp only [Bool.and_eq_true] at hmatch
  obtain ⟨s, rest, hseg⟩ := routes_api_segments r hmem handler hapi
  have hpre := api_prefix_of_match hseg hmatch.1.2
  have hcut : path = target.toList.takeWhile fun c => c ≠ '?' && c ≠ '#' := by
    simp only [routePath, dropAuthority, hslash, if_pos] at hpath
    rw [decodePath_plain fun hp => hplain ((List.takeWhile_sublist _).subset hp)] at hpath
    exact (Option.some.inj hpath).symm
  rw [hcut] at hpre
  exact List.isPrefixOf_iff_prefix.mpr (hpre.trans (List.takeWhile_prefix _))

/-- A request whose target is in origin form, with no percent escape, is gated in
production. -/
theorem gated_of_plain [Unicode] {adminToken : String} {req : HttpRequest}
    (hslash : req.url.toList.head? = some '/') (hplain : '%' ∉ req.url.toList) :
    Gated findMyWay adminToken req := by
  cases hpre : startsWith req.url "/api/" with
  | true => exact gated_of_inside hpre
  | false =>
      intro handler hrun
      unfold serve at hrun
      rw [onRequest_outside hpre] at hrun
      exact absurd (findMyWay_plain hslash hplain hrun) (by rw [hpre]; decide)

end GatewayConsole
