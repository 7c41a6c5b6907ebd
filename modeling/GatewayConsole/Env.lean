import GatewayConsole.Address
import GatewayConsole.Bearer
import GatewayConsole.JsNumber

/-!
# The configuration

`config/env.ts`: the schema of the environment variables, field by field, and `loadEnv`,
which collects the issues of all of them. A variable that is missing may have a default; one
that is there is checked, the empty one like any other. `loadEnv_withEmpty_iff` says what
that does to the variables a compose file passes on as empty.

The schema asks of the token no more than its length. `signIn_iff` compares it with the
header parser, which reads one token without white space.

`z.url()` belongs to the validator's library; it is the parameter `url`: what it makes of a
string, if it takes it.
-/

namespace GatewayConsole

/-- `process.env`. -/
abbrev ProcessEnv := String → Option String

inductive LogLevel where
  | debug
  | info
  | warn
  | error
deriving Repr, DecidableEq

inductive LogFormat where
  | json
  | text
deriving Repr, DecidableEq

structure Env where
  listenAddr : String
  adminToken : String
  chainRpc : String
  chainId : Int
  controllerAddress : String
  serviceRegistryAddress : Option String
  statePath : String
  resolverSocketPath : String
  senderSocketPath : String
  chainReadTtlSec : Int
  resolverAuditPollIntervalSec : Int
  senderAddress : Option String
  minBalanceWei : Option String
  logLevel : LogLevel
  logFormat : LogFormat
deriving Repr, DecidableEq

/-! ## The checks -/

/-- A check of a string. Its error is the message of the schema, or none where the text is
the validator's own. -/
abbrev ZodCheck (α : Type) := String → Except (Option String) α

def anyString : ZodCheck String := .ok

/-- `.regex(pattern, { message })`. -/
def matching (pattern : String → Bool) (message : String) : ZodCheck String := fun s =>
  if pattern s then .ok s else .error (some message)

/-- `.min(least, { message })`. -/
def minLength (least : Nat) (message : String) : ZodCheck String := fun s =>
  if utf16Length s < least then .error (some message) else .ok s

/-- `z.coerce.number().int()`, and its lower bound: the safe integers from `least` on. -/
def coercedInt (least : Int) : ZodCheck Int := fun s =>
  match number s with
  | .finite q =>
      if q.den = 1 ∧ q.num.natAbs ≤ 2 ^ 53 - 1 ∧ least ≤ q.num then .ok q.num else .error none
  | _ => .error none

def oneOf {α : Type} (values : List (String × α)) : ZodCheck α := fun s =>
  match values.lookup s with
  | some a => .ok a
  | none => .error none

def EthAddressLike : ZodCheck String :=
  matching isEthAddress "Expected 0x-prefixed 40-hex address"

/-- `/^[0-9]+$/`. -/
def isWeiAmount (s : String) : Bool := s ≠ "" && s.toList.all Char.isDigit

/-! ## The fields -/

/-- A field of the schema; `absent` is its value without the variable, if it can do
without. -/
structure ZodField (α : Type) where
  key : String
  check : ZodCheck α
  absent : Option α

namespace ZodField

variable {α : Type}

def required (key : String) (check : ZodCheck α) : ZodField α := ⟨key, check, none⟩

def withDefault (key : String) (check : ZodCheck α) (value : α) : ZodField α :=
  ⟨key, check, some value⟩

def optional (key : String) (check : ZodCheck α) : ZodField (Option α) :=
  ⟨key, fun s => (check s).map some, some none⟩

def parse (f : ZodField α) (source : ProcessEnv) : Except ZodIssue α :=
  match source f.key with
  | some s => (f.check s).mapError fun message => { path := [f.key], message }
  | none =>
      match f.absent with
      | some a => .ok a
      | none => .error { path := [f.key], message := none }

end ZodField

namespace EnvSchema

def listenAddr := ZodField.withDefault "LISTEN_ADDR" anyString "127.0.0.1:8080"

def adminToken :=
  ZodField.required "ADMIN_TOKEN" (minLength 32 "ADMIN_TOKEN must be at least 32 characters")

def chainRpc (url : ZodCheck String) := ZodField.required "CHAIN_RPC" url

def chainId := ZodField.withDefault "CHAIN_ID" (coercedInt 1) 42161

def controllerAddress :=
  ZodField.withDefault "CONTROLLER_ADDRESS" EthAddressLike
    "0xD8E8328501E9645d16Cf49539efC04f734606ee4"

def serviceRegistryAddress := ZodField.optional "SERVICE_REGISTRY_ADDRESS" EthAddressLike

def statePath := ZodField.withDefault "STATE_PATH" anyString "/var/lib/livepeer/state.db"

def resolverSocketPath :=
  ZodField.withDefault "RESOLVER_SOCKET_PATH" anyString
    "/var/run/livepeer/resolver/service-registry.sock"

def senderSocketPath :=
  ZodField.withDefault "SENDER_SOCKET_PATH" anyString "/var/run/livepeer/sender/payment.sock"

def chainReadTtlSec := ZodField.withDefault "CHAIN_READ_TTL_SEC" (coercedInt 0) 30

def resolverAuditPollIntervalSec :=
  ZodField.withDefault "RESOLVER_AUDIT_POLL_INTERVAL_SEC" (coercedInt 0) 30

def senderAddress := ZodField.optional "SENDER_ADDRESS" EthAddressLike

def minBalanceWei :=
  ZodField.optional "MIN_BALANCE_WEI"
    (matching isWeiAmount "MIN_BALANCE_WEI must be a base-10 wei amount")

def logLevel :=
  ZodField.withDefault "LOG_LEVEL"
    (oneOf [("debug", LogLevel.debug), ("info", .info), ("warn", .warn), ("error", .error)]) .info

def logFormat :=
  ZodField.withDefault "LOG_FORMAT" (oneOf [("json", LogFormat.json), ("text", .text)]) .json

end EnvSchema

/-! ## loadEnv -/

/-- What an object schema has read so far, or the issues found so far. -/
def Checked (α : Type) := Except (List ZodIssue) α

/-- The object before its first field. -/
def Checked.start {α : Type} (build : α) : Checked α := Except.ok build

/-- One more field of the object, and its issue behind those before it. -/
def Checked.field {α β : Type} (rest : Checked (α → β)) (a : Except ZodIssue α) : Checked β :=
  match (rest : Except (List ZodIssue) (α → β)), a with
  | .ok f, .ok a => Except.ok (f a)
  | .ok _, .error issue => Except.error [issue]
  | .error issues, .ok _ => Except.error issues
  | .error issues, .error issue => Except.error (issues ++ [issue])

theorem Checked.field_ok {α β : Type} {rest : Checked (α → β)} {x : Except ZodIssue α} {b : β} :
    rest.field x = Except.ok b ↔ ∃ f a, rest = Except.ok f ∧ x = .ok a ∧ f a = b := by
  unfold field
  split
  · rename_i f a
    exact ⟨fun h => ⟨f, a, rfl, rfl, Except.ok.inj h⟩, by
      rintro ⟨_, _, hf, ha, rfl⟩
      rw [Except.ok.inj hf, Except.ok.inj ha]⟩
  · exact ⟨fun h => (by cases h), by rintro ⟨_, _, _, ha, _⟩; cases ha⟩
  · exact ⟨fun h => (by cases h), by rintro ⟨_, _, hf, _, _⟩; cases hf⟩
  · exact ⟨fun h => (by cases h), by rintro ⟨_, _, hf, _, _⟩; cases hf⟩

/-- `loadEnv(source)`. -/
def loadEnv (url : ZodCheck String) (source : ProcessEnv) : Except (List ZodIssue) Env :=
  (Checked.start Env.mk)
    |>.field (EnvSchema.listenAddr.parse source)
    |>.field (EnvSchema.adminToken.parse source)
    |>.field ((EnvSchema.chainRpc url).parse source)
    |>.field (EnvSchema.chainId.parse source)
    |>.field (EnvSchema.controllerAddress.parse source)
    |>.field (EnvSchema.serviceRegistryAddress.parse source)
    |>.field (EnvSchema.statePath.parse source)
    |>.field (EnvSchema.resolverSocketPath.parse source)
    |>.field (EnvSchema.senderSocketPath.parse source)
    |>.field (EnvSchema.chainReadTtlSec.parse source)
    |>.field (EnvSchema.resolverAuditPollIntervalSec.parse source)
    |>.field (EnvSchema.senderAddress.parse source)
    |>.field (EnvSchema.minBalanceWei.parse source)
    |>.field (EnvSchema.logLevel.parse source)
    |>.field (EnvSchema.logFormat.parse source)

/-- Every field of the schema reads its part of the `Env`. -/
structure Loads (url : ZodCheck String) (source : ProcessEnv) (env : Env) : Prop where
  listenAddr : EnvSchema.listenAddr.parse source = .ok env.listenAddr
  adminToken : EnvSchema.adminToken.parse source = .ok env.adminToken
  chainRpc : (EnvSchema.chainRpc url).parse source = .ok env.chainRpc
  chainId : EnvSchema.chainId.parse source = .ok env.chainId
  controllerAddress : EnvSchema.controllerAddress.parse source = .ok env.controllerAddress
  serviceRegistryAddress :
    EnvSchema.serviceRegistryAddress.parse source = .ok env.serviceRegistryAddress
  statePath : EnvSchema.statePath.parse source = .ok env.statePath
  resolverSocketPath : EnvSchema.resolverSocketPath.parse source = .ok env.resolverSocketPath
  senderSocketPath : EnvSchema.senderSocketPath.parse source = .ok env.senderSocketPath
  chainReadTtlSec : EnvSchema.chainReadTtlSec.parse source = .ok env.chainReadTtlSec
  resolverAuditPollIntervalSec :
    EnvSchema.resolverAuditPollIntervalSec.parse source = .ok env.resolverAuditPollIntervalSec
  senderAddress : EnvSchema.senderAddress.parse source = .ok env.senderAddress
  minBalanceWei : EnvSchema.minBalanceWei.parse source = .ok env.minBalanceWei
  logLevel : EnvSchema.logLevel.parse source = .ok env.logLevel
  logFormat : EnvSchema.logFormat.parse source = .ok env.logFormat

theorem loadEnv_ok {url : ZodCheck String} {source : ProcessEnv} {env : Env} :
    loadEnv url source = .ok env ↔ Loads url source env := by
  constructor
  · intro h
    obtain ⟨_, _, h14, hlogFormat, rfl⟩ := Checked.field_ok.mp h
    obtain ⟨_, _, h13, hlogLevel, rfl⟩ := Checked.field_ok.mp h14
    obtain ⟨_, _, h12, hminBalanceWei, rfl⟩ := Checked.field_ok.mp h13
    obtain ⟨_, _, h11, hsenderAddress, rfl⟩ := Checked.field_ok.mp h12
    obtain ⟨_, _, h10, hinterval, rfl⟩ := Checked.field_ok.mp h11
    obtain ⟨_, _, h9, httl, rfl⟩ := Checked.field_ok.mp h10
    obtain ⟨_, _, h8, hsenderSocketPath, rfl⟩ := Checked.field_ok.mp h9
    obtain ⟨_, _, h7, hresolverSocketPath, rfl⟩ := Checked.field_ok.mp h8
    obtain ⟨_, _, h6, hstatePath, rfl⟩ := Checked.field_ok.mp h7
    obtain ⟨_, _, h5, hregistry, rfl⟩ := Checked.field_ok.mp h6
    obtain ⟨_, _, h4, hcontroller, rfl⟩ := Checked.field_ok.mp h5
    obtain ⟨_, _, h3, hchainId, rfl⟩ := Checked.field_ok.mp h4
    obtain ⟨_, _, h2, hchainRpc, rfl⟩ := Checked.field_ok.mp h3
    obtain ⟨_, _, h1, hadminToken, rfl⟩ := Checked.field_ok.mp h2
    obtain ⟨_, _, h0, hlistenAddr, rfl⟩ := Checked.field_ok.mp h1
    obtain rfl := Except.ok.inj h0
    exact ⟨hlistenAddr, hadminToken, hchainRpc, hchainId, hcontroller, hregistry, hstatePath,
      hresolverSocketPath, hsenderSocketPath, httl, hinterval, hsenderAddress, hminBalanceWei,
      hlogLevel, hlogFormat⟩
  · intro h
    simp only [loadEnv, h.listenAddr, h.adminToken, h.chainRpc, h.chainId, h.controllerAddress,
      h.serviceRegistryAddress, h.statePath, h.resolverSocketPath, h.senderSocketPath,
      h.chainReadTtlSec, h.resolverAuditPollIntervalSec, h.senderAddress, h.minBalanceWei,
      h.logLevel, h.logFormat, Checked.start, Checked.field]

/-- The variables that a configuration may do without. -/
def optionalNames : List String :=
  ["LISTEN_ADDR", "CHAIN_ID", "CONTROLLER_ADDRESS", "SERVICE_REGISTRY_ADDRESS", "STATE_PATH",
    "RESOLVER_SOCKET_PATH", "SENDER_SOCKET_PATH", "CHAIN_READ_TTL_SEC",
    "RESOLVER_AUDIT_POLL_INTERVAL_SEC", "SENDER_ADDRESS", "MIN_BALANCE_WEI", "LOG_LEVEL",
    "LOG_FORMAT"]

/-! ## Defaults -/

/-- A whole number from the bound on is read back from its numeral. -/
theorem coercedInt_toString {least : Int} {n : Nat} (hn : n < 2 ^ 53) (hleast : least ≤ n) :
    coercedInt least (toString n) = .ok n := by
  have hsafe : ((n : ℚ).num).natAbs ≤ 2 ^ 53 - 1 := by
    rw [Rat.num_natCast, Int.natAbs_natCast]
    omega
  simp only [coercedInt, number_toString hn]
  exact if_pos ⟨Rat.den_natCast n, hsafe, by rwa [Rat.num_natCast]⟩

/-- The defaults, as one would write them in the environment. -/
def defaultTexts : List (String × String) :=
  [("LISTEN_ADDR", "127.0.0.1:8080"), ("CHAIN_ID", "42161"),
    ("CONTROLLER_ADDRESS", "0xD8E8328501E9645d16Cf49539efC04f734606ee4"),
    ("STATE_PATH", "/var/lib/livepeer/state.db"),
    ("RESOLVER_SOCKET_PATH", "/var/run/livepeer/resolver/service-registry.sock"),
    ("SENDER_SOCKET_PATH", "/var/run/livepeer/sender/payment.sock"),
    ("CHAIN_READ_TTL_SEC", "30"), ("RESOLVER_AUDIT_POLL_INTERVAL_SEC", "30"),
    ("LOG_LEVEL", "info"), ("LOG_FORMAT", "json")]

/-- The environment with the default of every missing variable that has one. -/
def withDefaults (source : ProcessEnv) : ProcessEnv := fun name =>
  match source name with
  | some s => some s
  | none => defaultTexts.lookup name

theorem ZodField.parse_withDefaults {α : Type} {f : ZodField α} {text : String} {a : α}
    (source : ProcessEnv) (htext : defaultTexts.lookup f.key = some text)
    (habsent : f.absent = some a) (hcheck : f.check text = .ok a) :
    f.parse (withDefaults source) = f.parse source := by
  cases hsource : source f.key with
  | some s => simp only [parse, withDefaults, hsource]
  | none =>
      simp only [parse, withDefaults, hsource, htext, habsent, hcheck]
      rfl

theorem ZodField.parse_withDefaults_of_none {α : Type} {f : ZodField α} (source : ProcessEnv)
    (htext : defaultTexts.lookup f.key = none) :
    f.parse (withDefaults source) = f.parse source := by
  cases hsource : source f.key with
  | some s => simp only [parse, withDefaults, hsource]
  | none => simp only [parse, withDefaults, hsource, htext]

/-- Every default passes its own check: to write the defaults out changes nothing. -/
theorem loadEnv_withDefaults (url : ZodCheck String) (source : ProcessEnv) :
    loadEnv url (withDefaults source) = loadEnv url source := by
  have hchainId : coercedInt 1 "42161" = .ok 42161 :=
    coercedInt_toString (n := 42161) (by decide) (by decide)
  have hthirty : coercedInt 0 "30" = .ok 30 :=
    coercedInt_toString (n := 30) (by decide) (by decide)
  simp only [loadEnv,
    ZodField.parse_withDefaults (f := EnvSchema.listenAddr) source rfl rfl rfl,
    ZodField.parse_withDefaults_of_none (f := EnvSchema.adminToken) source rfl,
    ZodField.parse_withDefaults_of_none (f := EnvSchema.chainRpc url) source rfl,
    ZodField.parse_withDefaults (f := EnvSchema.chainId) source rfl rfl hchainId,
    ZodField.parse_withDefaults (f := EnvSchema.controllerAddress) source rfl rfl rfl,
    ZodField.parse_withDefaults_of_none (f := EnvSchema.serviceRegistryAddress) source rfl,
    ZodField.parse_withDefaults (f := EnvSchema.statePath) source rfl rfl rfl,
    ZodField.parse_withDefaults (f := EnvSchema.resolverSocketPath) source rfl rfl rfl,
    ZodField.parse_withDefaults (f := EnvSchema.senderSocketPath) source rfl rfl rfl,
    ZodField.parse_withDefaults (f := EnvSchema.chainReadTtlSec) source rfl rfl hthirty,
    ZodField.parse_withDefaults (f := EnvSchema.resolverAuditPollIntervalSec) source rfl rfl
      hthirty,
    ZodField.parse_withDefaults_of_none (f := EnvSchema.senderAddress) source rfl,
    ZodField.parse_withDefaults_of_none (f := EnvSchema.minBalanceWei) source rfl,
    ZodField.parse_withDefaults (f := EnvSchema.logLevel) source rfl rfl rfl,
    ZodField.parse_withDefaults (f := EnvSchema.logFormat) source rfl rfl rfl]
  rfl

/-! ## Empty variables -/

/-- The environment with those variables added, empty. -/
def withEmpty (names : List String) (source : ProcessEnv) : ProcessEnv := fun name =>
  if name ∈ names then some "" else source name

@[simp] theorem withEmpty_nil (source : ProcessEnv) : withEmpty [] source = source := by
  funext name
  exact if_neg List.not_mem_nil

/-- A field whose check makes something else of the empty string than the field is without
its variable does not read the same with the variable empty. -/
theorem ZodField.parse_withEmpty_ne {α : Type} {f : ZodField α} {names : List String}
    {source : ProcessEnv} {a : α} (hmem : f.key ∈ names) (hmissing : source f.key = none)
    (hparse : f.parse source = .ok a) (hempty : f.absent.map Except.ok ≠ some (f.check "")) :
    f.parse (withEmpty names source) ≠ .ok a := by
  have habsent : f.absent = some a := by
    rw [parse, hmissing] at hparse
    cases hf : f.absent with
    | none =>
        rw [hf] at hparse
        cases hparse
    | some d =>
        rw [hf] at hparse
        exact congrArg some (Except.ok.inj hparse)
  have hsome : withEmpty names source f.key = some "" := if_pos hmem
  intro h
  simp only [parse, hsome] at h
  cases hcheck : f.check "" with
  | error message =>
      rw [hcheck] at h
      cases h
  | ok d =>
      rw [hcheck] at h
      obtain rfl : d = a := Except.ok.inj h
      exact hempty (by rw [habsent, hcheck]; rfl)

/-- **An empty variable never means an absent one.** Adding variables that are missing, with
the empty string as their value, leaves the configuration as it is only if none are added. -/
theorem loadEnv_withEmpty_iff {url : ZodCheck String} {source : ProcessEnv} {env : Env}
    {names : List String} (hload : loadEnv url source = .ok env)
    (hnames : ∀ name ∈ names, name ∈ optionalNames ∧ source name = none) :
    loadEnv url (withEmpty names source) = .ok env ↔ names = [] := by
  refine ⟨fun h => ?_, fun h => by rw [h, withEmpty_nil]; exact hload⟩
  cases names with
  | nil => rfl
  | cons name rest =>
      have hbefore := loadEnv_ok.mp hload
      have hafter := loadEnv_ok.mp h
      have hmem : name ∈ name :: rest := List.mem_cons_self
      obtain ⟨hoptional, hmissing⟩ := hnames name hmem
      simp only [optionalNames, List.mem_cons, List.not_mem_nil, or_false] at hoptional
      rcases hoptional with rfl | rfl | rfl | rfl | rfl | rfl | rfl | rfl | rfl | rfl | rfl | rfl
        | rfl
      · exact absurd hafter.listenAddr
          (ZodField.parse_withEmpty_ne hmem hmissing hbefore.listenAddr (by decide))
      · exact absurd hafter.chainId
          (ZodField.parse_withEmpty_ne hmem hmissing hbefore.chainId (by decide))
      · exact absurd hafter.controllerAddress
          (ZodField.parse_withEmpty_ne hmem hmissing hbefore.controllerAddress (by decide))
      · exact absurd hafter.serviceRegistryAddress
          (ZodField.parse_withEmpty_ne hmem hmissing hbefore.serviceRegistryAddress (by decide))
      · exact absurd hafter.statePath
          (ZodField.parse_withEmpty_ne hmem hmissing hbefore.statePath (by decide))
      · exact absurd hafter.resolverSocketPath
          (ZodField.parse_withEmpty_ne hmem hmissing hbefore.resolverSocketPath (by decide))
      · exact absurd hafter.senderSocketPath
          (ZodField.parse_withEmpty_ne hmem hmissing hbefore.senderSocketPath (by decide))
      · exact absurd hafter.chainReadTtlSec
          (ZodField.parse_withEmpty_ne hmem hmissing hbefore.chainReadTtlSec (by decide))
      · exact absurd hafter.resolverAuditPollIntervalSec
          (ZodField.parse_withEmpty_ne hmem hmissing hbefore.resolverAuditPollIntervalSec
            (by decide))
      · exact absurd hafter.senderAddress
          (ZodField.parse_withEmpty_ne hmem hmissing hbefore.senderAddress (by decide))
      · exact absurd hafter.minBalanceWei
          (ZodField.parse_withEmpty_ne hmem hmissing hbefore.minBalanceWei (by decide))
      · exact absurd hafter.logLevel
          (ZodField.parse_withEmpty_ne hmem hmissing hbefore.logLevel (by decide))
      · exact absurd hafter.logFormat
          (ZodField.parse_withEmpty_ne hmem hmissing hbefore.logFormat (by decide))

/-- The two variables that have to be set. -/
def exampleEnv : ProcessEnv := fun name =>
  if name = "ADMIN_TOKEN" then some "replace-me-with-a-random-32+-char-string-here"
  else if name = "CHAIN_RPC" then some "https://arb1.arbitrum.io/rpc"
  else none

/-- The configuration with every default. -/
def exampleConfig : Env where
  listenAddr := "127.0.0.1:8080"
  adminToken := "replace-me-with-a-random-32+-char-string-here"
  chainRpc := "https://arb1.arbitrum.io/rpc"
  chainId := 42161
  controllerAddress := "0xD8E8328501E9645d16Cf49539efC04f734606ee4"
  serviceRegistryAddress := none
  statePath := "/var/lib/livepeer/state.db"
  resolverSocketPath := "/var/run/livepeer/resolver/service-registry.sock"
  senderSocketPath := "/var/run/livepeer/sender/payment.sock"
  chainReadTtlSec := 30
  resolverAuditPollIntervalSec := 30
  senderAddress := none
  minBalanceWei := none
  logLevel := .info
  logFormat := .json

theorem loadEnv_withEmpty_iff_socketPath :
    loadEnv anyString exampleEnv = .ok exampleConfig
      ∧ (loadEnv anyString (withEmpty ["SENDER_SOCKET_PATH"] exampleEnv) = .ok exampleConfig
        ↔ ["SENDER_SOCKET_PATH"] = ([] : List String)) := by
  have hload : loadEnv anyString exampleEnv = .ok exampleConfig := rfl
  refine ⟨hload, loadEnv_withEmpty_iff hload fun name hname => ?_⟩
  obtain rfl := List.mem_singleton.mp hname
  exact ⟨by decide, rfl⟩

/-- What the compose file passes on, where the operator sets no registry. -/
theorem not_emptyMeansAbsent_registry :
    loadEnv anyString exampleEnv = .ok exampleConfig
      ∧ loadEnv anyString (withEmpty ["SERVICE_REGISTRY_ADDRESS"] exampleEnv)
        = .error [{ path := ["SERVICE_REGISTRY_ADDRESS"]
                    message := some "Expected 0x-prefixed 40-hex address" }] :=
  ⟨rfl, rfl⟩

/-! ## The token -/

section Token

variable [Unicode]

/-- A service with a token of its own accepts it exactly if it has no white space: with
white space inside it is read as two, and around it as another. -/
theorem authenticate_self_iff {token : String} (hne : token ≠ "") :
    (∃ identity, authenticate token (some ("Bearer " ++ token)) = .ok identity)
      ↔ ∀ c ∈ token.toList, isSpace c = false := by
  constructor
  · rintro ⟨identity, h⟩
    cases hparse : parseBearer (some ("Bearer " ++ token)) with
    | error e =>
        rw [authenticate, hparse] at h
        cases h
    | ok provided =>
        rw [authenticate_of_parse hparse] at h
        split at h
        · rename_i heq
          obtain ⟨-, -, -, -, hclean⟩ := isBearer_of_parse hparse
          rw [← heq]
          exact hclean
        · cases h
  · intro hclean
    have htrim : trim token = token :=
      trim_eq_self (fun c hc => hclean c (List.mem_of_mem_head? hc))
        fun c hc => hclean c (List.mem_of_mem_getLast? hc)
    exact (authenticate_bearer_iff hne htrim).mpr ⟨rfl, hclean⟩

omit [Unicode] in
theorem ne_empty_of_adminToken {source : ProcessEnv} {token : String}
    (h : EnvSchema.adminToken.parse source = .ok token) : token ≠ "" := by
  rintro rfl
  simp only [EnvSchema.adminToken, ZodField.required, ZodField.parse, minLength] at h
  split at h
  · rename_i s _
    split at h
    · cases h
    · rename_i hlength
      obtain rfl : s = "" := Except.ok.inj h
      exact hlength (by decide)
  · cases h

/-- **A configuration can be signed in to exactly when its token has no white space.** The
schema takes any token of 32 characters; the parser of the header takes one without white
space. -/
theorem signIn_iff {source : ProcessEnv} {token : String}
    (h : EnvSchema.adminToken.parse source = .ok token) :
    (∃ identity, authenticate token (some ("Bearer " ++ token)) = .ok identity)
      ↔ ∀ c ∈ token.toList, isSpace c = false :=
  authenticate_self_iff (ne_empty_of_adminToken h)

end Token

theorem signIn_iff_example :
    EnvSchema.adminToken.parse exampleEnv = .ok "replace-me-with-a-random-32+-char-string-here"
      ∧ ((∃ identity, @authenticate asciiUnicode "replace-me-with-a-random-32+-char-string-here"
            (some ("Bearer " ++ "replace-me-with-a-random-32+-char-string-here")) = .ok identity)
        ↔ ∀ c ∈ "replace-me-with-a-random-32+-char-string-here".toList, isSpace c = false) :=
  ⟨rfl, @signIn_iff asciiUnicode exampleEnv _ rfl⟩

/-- A passphrase of four words is long enough for the schema. -/
theorem not_signIn_passphrase :
    EnvSchema.adminToken.parse (fun _ => some "correct horse battery staple 2026")
        = .ok "correct horse battery staple 2026"
      ∧ @authenticate asciiUnicode "correct horse battery staple 2026"
          (some ("Bearer " ++ "correct horse battery staple 2026"))
        = .error (.malformedAuthorization "expected exactly one token") :=
  ⟨rfl, rfl⟩

end GatewayConsole
