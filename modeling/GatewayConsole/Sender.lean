import GatewayConsole.Env
import GatewayConsole.FormatWei
import GatewayConsole.PayerDaemon
import GatewayConsole.ResolverRpc
import GatewayConsole.Routing

/-!
# The sender endpoints

`GET /api/sender/wallet` and `GET /api/sender/escrow`, from the environment, the chain and
the payer daemon to the response: the codec and the client of
`providers/payerDaemon`, `getBalance` of the chain reader, `service/sender/index.ts` and the
two handlers, with the error handler of the server.

An amount is a number of wei where it comes from, and decimal text from there on.
-/

namespace GatewayConsole

/-! ## The payer daemon -/

namespace Payments

structure GetDepositInfoResponse where
  deposit : Bytes
  reserve : Bytes
  withdrawRound : Int
deriving Repr, DecidableEq

open BinaryWire in
/-- `encode` checks that the round is an `int64`. -/
def getDepositInfoResponseFns [BinaryWire] : MessageFns GetDepositInfoResponse where
  base := ⟨[], [], 0⟩
  fields :=
    [.scalar 10 bytes [] (·.deposit) fun v m => { m with deposit := v },
     .scalar 18 bytes [] (·.reserve) fun v m => { m with reserve := v },
     .scalar 24 (int64.checked fun v => -2 ^ 63 ≤ v ∧ v < 2 ^ 63) 0 (·.withdrawRound)
      fun v m => { m with withdrawRound := v }]

theorem getDepositInfoResponseFns_lossless [BinaryWire] (res : GetDepositInfoResponse) :
    getDepositInfoResponseFns.Lossless res := by
  intro f hf
  simp only [getDepositInfoResponseFns, List.mem_cons, List.not_mem_nil, or_false] at hf
  rcases hf with rfl | rfl | rfl <;> trivial

/-- `PayerDaemonService.getDepositInfo`; the request has no fields. -/
def getDepositInfo [BinaryWire] : Method Unit GetDepositInfoResponse where
  path := "/livepeer.payments.v1.PayerDaemon/GetDepositInfo"
  request := Registry.emptyFns
  response := getDepositInfoResponseFns

end Payments

structure DepositInfo where
  depositWei : String
  reserveWei : String
  withdrawRound : String
deriving Repr, DecidableEq

/-- How a call of the payer client fails: with a status, or in `BigInt`. -/
inductive PayerError where
  | status (code : Nat)
  | syntaxError
deriving Repr, DecidableEq

namespace PayerClient

variable [BinaryWire]

/-- `getDepositInfoInternal()`. -/
def getDepositInfo (server : Bytes → Except Nat Bytes) : Except PayerError DepositInfo :=
  match Payments.getDepositInfo.call server () with
  | .error code => .error (.status code)
  | .ok res =>
      match bigEndianBytesToDecimal res.deposit, bigEndianBytesToDecimal res.reserve with
      | some depositWei, some reserveWei =>
          .ok { depositWei, reserveWei, withdrawRound := toString res.withdrawRound }
      | _, _ => .error .syntaxError

def ping (server : Bytes → Except Nat Bytes) : Bool := (getDepositInfo server).isOk

/-- The client sees the amounts of the daemon, whatever bytes they come in. -/
theorem getDepositInfo_eq {server : Bytes → Except Nat Bytes}
    {handler : Unit → Except Nat Payments.GetDepositInfoResponse}
    (h : Payments.getDepositInfo.Implements server handler) :
    getDepositInfo server
      = match handler () with
        | .error code => .error (.status code)
        | .ok res =>
            .ok
              { depositWei := toString (bigEndianValue res.deposit)
                reserveWei := toString (bigEndianValue res.reserve)
                withdrawRound := toString res.withdrawRound } := by
  have hcall : Payments.getDepositInfo.call server () = handler () :=
    Method.call_eq h encode_empty
  rw [getDepositInfo, hcall]
  cases handler () with
  | error code => rfl
  | ok res => simp only [bigEndianBytesToDecimal_eq]

end PayerClient

/-! ## The service -/

structure SenderWallet where
  address : String
  balanceWei : String
  minBalanceWei : Option String
deriving Repr, DecidableEq

structure SenderEscrow where
  depositWei : String
  reserveWei : String
  observedAt : Int
deriving Repr, DecidableEq

/-- Another exception, with the status that the framework gives it. -/
structure Fault where
  status : Nat
  message : String
  isError : 400 ≤ status
deriving Repr, DecidableEq

/-- What the service may throw: the error of the missing address, or another one. -/
inductive SenderFailure where
  | walletNotConfigured
  | fault (f : Fault)
deriving Repr, DecidableEq

def walletNotConfiguredMessage : String :=
  "sender wallet view is unavailable: SENDER_ADDRESS env is not set on this gateway-console " ++
    "deployment. Set it to the hot wallet the payment-daemon mounts; the console reads its " ++
    "balance from chain."

/-- `getBalance(address)` of the chain reader, over the balance the node reports. -/
def getBalance (node : String → Except Fault Nat) (address : String) : Except Fault String :=
  (node address).map toString

structure SenderServiceDeps where
  payer : Except Fault DepositInfo
  chain : String → Except Fault Nat
  senderAddress : Option String
  minBalanceWei : Option String

/-- The address and the floor that `main` takes from the environment. -/
def SenderServiceDeps.ofEnv (env : Env) (payer : Except Fault DepositInfo)
    (chain : String → Except Fault Nat) : SenderServiceDeps where
  payer := payer
  chain := chain
  senderAddress := env.senderAddress.bind orNull
  minBalanceWei := env.minBalanceWei

namespace SenderService

def getWallet (deps : SenderServiceDeps) : Except SenderFailure SenderWallet :=
  match deps.senderAddress.bind orNull with
  | none => .error .walletNotConfigured
  | some address =>
      match getBalance deps.chain address with
      | .ok balanceWei => .ok { address, balanceWei, minBalanceWei := deps.minBalanceWei }
      | .error f => .error (.fault f)

def getEscrow (deps : SenderServiceDeps) (now : Int) : Except Fault SenderEscrow :=
  deps.payer.map fun info =>
    { depositWei := info.depositWei, reserveWei := info.reserveWei, observedAt := now }

end SenderService

/-! ## The handlers -/

/-- The body of a reply: what a handler sends, or an `error` object with a code and perhaps a
message, or the one the framework makes of an exception, whose `error` is a text. -/
inductive ReplyBody (β : Type) where
  | data (body : β)
  | error (code : String) (message : Option String)
  | exception (message : String)
deriving Repr, DecidableEq

structure Reply (β : Type) where
  status : Nat
  body : ReplyBody β
deriving Repr, DecidableEq

/-- `QuerySchema.parse(req.query ?? {})` of a schema without keys, and the error handler. -/
def withoutQuery {β : Type} (query : List (String × QueryValue)) (handle : Reply β) : Reply β :=
  if query = [] then handle else { status := 400, body := .error "invalid_input" none }

def handleGetSenderWallet (query : List (String × QueryValue)) (deps : SenderServiceDeps) :
    Reply SenderWallet :=
  withoutQuery query <|
    match SenderService.getWallet deps with
    | .ok wallet => { status := 200, body := .data wallet }
    | .error .walletNotConfigured =>
        { status := 503
          body := .error "wallet_not_configured" (some walletNotConfiguredMessage) }
    | .error (.fault f) => { status := f.status, body := .exception f.message }

def handleGetSenderEscrow (query : List (String × QueryValue)) (deps : SenderServiceDeps)
    (now : Int) : Reply SenderEscrow :=
  withoutQuery query <|
    match SenderService.getEscrow deps now with
    | .ok escrow => { status := 200, body := .data escrow }
    | .error f => { status := f.status, body := .exception f.message }

end GatewayConsole
