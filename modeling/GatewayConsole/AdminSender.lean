import GatewayConsole.AdminApi
import GatewayConsole.Machine
import GatewayConsole.Sender

/-!
# The sender page

`components/admin-sender.js`. `_reload` asks for the wallet and for the escrow at once and
waits for both, whatever comes of them; the reply that says the wallet is not configured is
shown as a hint. A step is one turn of the event loop. The button is disabled while a load
is running.

`follows_run` says what a run leaves in the component: the outcomes that came last, or the page
they make. `senderPage` says what this page is, from the environment, the chain and the daemon
on.
-/

namespace GatewayConsole

/-! ## Responses with an error code -/

/-- The `error` of a body, where it is an object. -/
structure ErrorObject where
  code : Option String
  message : Option String
deriving Repr, DecidableEq

/-- The body of a response, with what its `error` says. -/
inductive JsonBody (β : Type) where
  | null
  | error (object : Option ErrorObject)
  | data (body : β)
deriving Repr, DecidableEq

inductive Fetched (β : Type) where
  | rejected (message : String)
  | response (status : Nat) (body : JsonBody β)
deriving Repr, DecidableEq

def JsonBody.payload {β : Type} : JsonBody β → Payload β
  | .null => .null
  | .error object => .error (object.bind (·.message))
  | .data body => .data body

def Fetched.result {β : Type} : Fetched β → FetchResult β
  | .rejected message => .rejected message
  | .response status body => .response status body.payload

/-- `err.body.error?.code`; only an `http_error` has the body. -/
def Fetched.errorCode {β : Type} : Fetched β → Option String
  | .response _ (.error (some object)) => object.code
  | _ => none

/-- The reply as the browser gets it. -/
def Reply.fetched {β : Type} (r : Reply β) : Fetched β :=
  .response r.status <|
    match r.body with
    | .data body => .data body
    | .error code message => .error (some { code := some code, message })
    | .exception _ => .error none

/-! ## The component -/

structure AdminSender where
  wallet : Payload SenderWallet := .null
  escrow : Payload SenderEscrow := .null
  walletNotConfigured : Bool := false
  walletError : String := ""
  escrowError : String := ""
  loading : Bool := false
  /-- What `Promise.allSettled` has of the two calls. -/
  walletR : Option (Fetched SenderWallet) := none
  escrowR : Option (Fetched SenderEscrow) := none
deriving Repr, DecidableEq

namespace AdminSender

/-- `_reload` up to its `await`. -/
def reload : AdminSender := { loading := true }

/-- The wallet part of the rest of `_reload`. -/
def withWallet (v : AdminSender) (walletR : Fetched SenderWallet) : AdminSender :=
  match request walletR.result with
  | .ok payload => { v with wallet := payload }
  | .error err =>
      if err.status = 503 ∧ walletR.errorCode = some "wallet_not_configured" then
        { v with walletNotConfigured := true }
      else { v with walletError := err.message }

def withEscrow (v : AdminSender) (escrowR : Fetched SenderEscrow) : AdminSender :=
  match request escrowR.result with
  | .ok payload => { v with escrow := payload }
  | .error err => { v with escrowError := err.message }

/-- The rest of `_reload`, once both calls have settled. -/
def joined (v : AdminSender) : AdminSender :=
  match v.walletR, v.escrowR with
  | some walletR, some escrowR =>
      { (v.withWallet walletR).withEscrow escrowR with loading := false }
  | _, _ => v

inductive Event where
  | reload
  | walletSettles (r : Fetched SenderWallet)
  | escrowSettles (r : Fetched SenderEscrow)
deriving Repr, DecidableEq

def step (v : AdminSender) : Event → Option AdminSender
  | .reload => if v.loading then none else some reload
  | .walletSettles r =>
      if v.loading ∧ v.walletR = none then some ({ v with walletR := some r } : AdminSender).joined
      else none
  | .escrowSettles r =>
      if v.loading ∧ v.escrowR = none then some ({ v with escrowR := some r } : AdminSender).joined
      else none

/-- `connectedCallback` loads. -/
def machine : Machine AdminSender Event where
  init := reload
  step := step

/-! ## What is on the screen -/

def belowFloor (w : SenderWallet) : Bool :=
  match orNull w.balanceWei, w.minBalanceWei.bind orNull with
  | some balanceWei, some minBalanceWei =>
      match bigIntOfString balanceWei, bigIntOfString minBalanceWei with
      | some balance, some floor => decide (balance < floor)
      | _, _ => false
  | _, _ => false

inductive WalletCard where
  | hint
  | alert (text : String)
  | details (address balance : String) (below : Bool) (minBalance : String)
  | loading
deriving Repr, DecidableEq

def walletCard (v : AdminSender) : WalletCard :=
  if v.walletNotConfigured then .hint
  else if v.walletError ≠ "" then .alert v.walletError
  else
    match v.wallet with
    | .null => .loading
    | .error _ => .details "" (formatWei none) false (formatWei none)
    | .data w =>
        .details w.address (formatWei (some w.balanceWei)) (belowFloor w)
          (formatWei w.minBalanceWei)

inductive EscrowCard where
  | alert (text : String)
  | details (deposit reserve : String) (observedAt : Option Int)
  | loading
deriving Repr, DecidableEq

def escrowCard (v : AdminSender) : EscrowCard :=
  if v.escrowError ≠ "" then .alert v.escrowError
  else
    match v.escrow with
    | .null => .loading
    | .error _ => .details (formatWei none) (formatWei none) none
    | .data e =>
        .details (formatWei (some e.depositWei)) (formatWei (some e.reserveWei))
          (some e.observedAt)

/-! ## What a run shows -/

def Event.wallet : Event → Option (Fetched SenderWallet)
  | .walletSettles r => some r
  | .reload | .escrowSettles _ => none

def Event.escrow : Event → Option (Fetched SenderEscrow)
  | .escrowSettles r => some r
  | .reload | .walletSettles _ => none

/-- The last outcome of the wallet call. -/
def lastWallet (es : List Event) : Option (Fetched SenderWallet) :=
  (es.filterMap Event.wallet).getLast?

/-- The last outcome of the escrow call. -/
def lastEscrow (es : List Event) : Option (Fetched SenderEscrow) :=
  (es.filterMap Event.escrow).getLast?

@[simp] theorem lastWallet_snoc (es : List Event) (e : Event) :
    lastWallet (es ++ [e]) = e.wallet.or (lastWallet es) := by
  cases e <;> simp [lastWallet, Event.wallet]

@[simp] theorem lastEscrow_snoc (es : List Event) (e : Event) :
    lastEscrow (es ++ [e]) = e.escrow.or (lastEscrow es) := by
  cases e <;> simp [lastEscrow, Event.escrow]

/-- What has come in of the load that was started last. -/
def sinceReload (es : List Event) : List Event :=
  es.foldl (fun seen e => if e = .reload then [] else seen ++ [e]) []

@[simp] theorem sinceReload_snoc (es : List Event) (e : Event) :
    sinceReload (es ++ [e]) = if e = .reload then [] else sinceReload es ++ [e] := by
  rw [sinceReload, List.foldl_append]
  rfl

/-- Both outcomes of that load are in. -/
def Answered (es : List Event) : Prop :=
  (∃ r, .walletSettles r ∈ sinceReload es) ∧ ∃ r, .escrowSettles r ∈ sinceReload es

/-- The page that two outcomes make. -/
def settled (walletR : Fetched SenderWallet) (escrowR : Fetched SenderEscrow) : AdminSender :=
  joined { loading := true, walletR := some walletR, escrowR := some escrowR }

/-- What has come in of the load waits in the component. -/
def CameIn (es : List Event) (walletR : Option (Fetched SenderWallet))
    (escrowR : Option (Fetched SenderEscrow)) : Prop :=
  (walletR.isSome ↔ ∃ r, .walletSettles r ∈ sinceReload es)
    ∧ (escrowR.isSome ↔ ∃ r, .escrowSettles r ∈ sinceReload es)

/-- What the events so far have left in the component: outcomes that still wait for the other
call, or the page of the last two. -/
inductive Follows (es : List Event) : AdminSender → Prop
  | loading {walletR : Option (Fetched SenderWallet)} {escrowR : Option (Fetched SenderEscrow)}
      (hwallet : ∀ r ∈ walletR, lastWallet es = some r)
      (hescrow : ∀ r ∈ escrowR, lastEscrow es = some r) (hopen : walletR = none ∨ escrowR = none)
      (hin : CameIn es walletR escrowR) : Follows es { loading := true, walletR, escrowR }
  | settled {walletR : Fetched SenderWallet} {escrowR : Fetched SenderEscrow}
      (hwallet : lastWallet es = some walletR) (hescrow : lastEscrow es = some escrowR)
      (hin : Answered es) : Follows es (settled walletR escrowR)

theorem settled_loading (walletR : Fetched SenderWallet) (escrowR : Fetched SenderEscrow) :
    (settled walletR escrowR).loading = false := rfl

/-- An outcome that comes in makes the page, or waits for the other one. -/
theorem follows_joined {es : List Event} {walletR : Option (Fetched SenderWallet)}
    {escrowR : Option (Fetched SenderEscrow)} (hwallet : ∀ r ∈ walletR, lastWallet es = some r)
    (hescrow : ∀ r ∈ escrowR, lastEscrow es = some r) (hin : CameIn es walletR escrowR) :
    Follows es ({ loading := true, walletR, escrowR } : AdminSender).joined := by
  cases walletR with
  | none => exact .loading hwallet hescrow (Or.inl rfl) hin
  | some w =>
      cases escrowR with
      | none => exact .loading hwallet hescrow (Or.inr rfl) hin
      | some e => exact .settled (hwallet w rfl) (hescrow e rfl) ⟨hin.1.mp rfl, hin.2.mp rfl⟩

theorem follows_step {es : List Event} {s t : AdminSender} {e : Event} (h : Follows es s)
    (hst : step s e = some t) : Follows (es ++ [e]) t := by
  cases h with
  | settled =>
      cases e with
      | reload =>
          obtain rfl := Option.some.inj hst
          exact .loading (by simp) (by simp) (Or.inl rfl) (by simp [CameIn])
      | walletSettles r => simp [step, settled_loading] at hst
      | escrowSettles r => simp [step, settled_loading] at hst
  | loading hwallet hescrow hopen hin =>
      cases e with
      | reload => simp [step] at hst
      | walletSettles r =>
          obtain ⟨-, rfl⟩ : _ ∧ _ = t := by simpa [step] using hst
          refine follows_joined (by simp [Event.wallet]) (fun r' hr' => ?_) ?_
          · simpa [Event.escrow] using hescrow r' hr'
          · exact ⟨by simp, by simpa using hin.2⟩
      | escrowSettles r =>
          obtain ⟨-, rfl⟩ : _ ∧ _ = t := by simpa [step] using hst
          refine follows_joined (fun r' hr' => ?_) (by simp [Event.escrow]) ?_
          · simpa [Event.wallet] using hwallet r' hr'
          · exact ⟨by simpa using hin.1, by simp⟩

theorem follows_run {es : List Event} {v : AdminSender} (h : machine.run es = some v) :
    Follows es v :=
  Machine.run_history (H := Follows)
    (.loading (by simp) (by simp) (Or.inl rfl) (by simp [CameIn, sinceReload]))
    (fun _ _ _ _ => follows_step) h

/-- The page loads until both outcomes are in. -/
theorem Follows.loading_eq_false {es : List Event} {v : AdminSender} (h : Follows es v) :
    v.loading = false ↔ Answered es := by
  cases h with
  | settled _ _ hin => exact iff_of_true rfl hin
  | loading _ _ hopen hin =>
      refine iff_of_false Bool.noConfusion fun hanswered => ?_
      have hwallet := hin.1.mpr hanswered.1
      have hescrow := hin.2.mpr hanswered.2
      rcases hopen with rfl | rfl
      · cases hwallet
      · cases hescrow

@[simp] theorem escrow_withWallet (v : AdminSender) (walletR : Fetched SenderWallet) :
    (v.withWallet walletR).escrow = v.escrow
      ∧ (v.withWallet walletR).escrowError = v.escrowError := by
  unfold withWallet
  split
  · exact ⟨rfl, rfl⟩
  · split <;> exact ⟨rfl, rfl⟩

theorem walletCard_settled (walletR : Fetched SenderWallet) (escrowR : Fetched SenderEscrow) :
    walletCard (settled walletR escrowR)
      = walletCard (({} : AdminSender).withWallet walletR) := by
  cases h : request walletR.result with
  | ok payload =>
      cases h' : request escrowR.result <;>
        simp [settled, joined, withWallet, withEscrow, h, h', walletCard]
  | error err =>
      by_cases hcode : err.status = 503 ∧ walletR.errorCode = some "wallet_not_configured" <;>
        cases h' : request escrowR.result <;>
        simp [settled, joined, withWallet, withEscrow, h, h', hcode, walletCard]

theorem escrowCard_settled (walletR : Fetched SenderWallet) (escrowR : Fetched SenderEscrow) :
    escrowCard (settled walletR escrowR)
      = escrowCard (({} : AdminSender).withEscrow escrowR) := by
  cases h' : request escrowR.result with
  | ok payload => simp [settled, joined, withEscrow, h', escrowCard, escrow_withWallet]
  | error err => simp [settled, joined, withEscrow, h', escrowCard, escrow_withWallet]

/-! ## From the environment to the screen -/

/-- The balance is below the floor, if there is one. -/
def isBelow (floor : Option String) (balance : Nat) : Bool :=
  floor.any fun m => decide (balance < numeralValue m.toList)

theorem belowFloor_eq {w : SenderWallet} {balance : Nat}
    (hbalance : w.balanceWei = toString balance)
    (hfloor : ∀ m ∈ w.minBalanceWei, isWeiAmount m = true) :
    belowFloor w = isBelow w.minBalanceWei balance := by
  have hne : w.balanceWei ≠ "" := hbalance ▸ Nat.repr_ne_empty
  have hb : orNull w.balanceWei = some (toString balance) := by rw [orNull, if_neg hne, hbalance]
  cases hm : w.minBalanceWei with
  | none => simp [belowFloor, isBelow, hm, hb]
  | some m =>
      have hwei := hfloor m hm
      simp only [isWeiAmount, Bool.and_eq_true, decide_eq_true_eq, List.all_eq_true] at hwei
      have hf : orNull m = some m := if_neg hwei.1
      simp only [belowFloor, isBelow, hm, hb, Option.bind_some, hf, bigIntOfString_toString,
        bigIntOfString_of_isDigit hwei.1 hwei.2, Option.any_some]
      rw [decide_eq_decide]
      exact Int.ofNat_lt

/-- The alert of a call that ended in an exception. -/
def alertOf (f : Fault) : String := if f.status = 401 then "unauthorized" else "request_failed"

theorem request_fault {β : Type} (f : Fault) :
    ∃ err, request (Reply.fetched (β := β) ⟨f.status, .exception f.message⟩).result = .error err
      ∧ err.message = alertOf f := by
  have h := f.isError
  by_cases h401 : f.status = 401
  · exact ⟨_, if_pos h401, (if_pos h401).symm⟩
  · refine ⟨{ code := "http_error", status := f.status, message := "request_failed" }, ?_,
      (if_neg h401).symm⟩
    simp only [Reply.fetched, Fetched.result, JsonBody.payload, request, if_neg h401,
      if_neg (show ¬f.status = 204 by omega),
      if_neg (show ¬(200 ≤ f.status ∧ f.status ≤ 299) by omega)]
    rfl

theorem alertOf_ne (f : Fault) : alertOf f ≠ "" := by
  unfold alertOf
  split <;> decide

/-- What an optional variable with a pattern is read as, matches it. -/
theorem matches_of_parse {key message : String} {pattern : String → Bool} {source : ProcessEnv}
    {value : Option String}
    (h : (ZodField.optional key (matching pattern message)).parse source = .ok value) :
    ∀ s ∈ value, pattern s = true := by
  intro s hs
  simp only [ZodField.optional, ZodField.parse, matching] at h
  split at h
  · split at h
    · rename_i hpattern
      obtain rfl : _ = value := Except.ok.inj h
      exact Option.some.inj hs ▸ hpattern
    · cases h
  · obtain rfl : none = value := Except.ok.inj h
    cases hs

section Page

variable (env : Env) (chain : String → Except Fault Nat) (payer : Except Fault DepositInfo)

/-- The reply to the request of the wallet. -/
def walletReply : Reply SenderWallet :=
  handleGetSenderWallet [] (SenderServiceDeps.ofEnv env payer chain)

/-- The reply to the request of the escrow. -/
def escrowReply (now : Int) : Reply SenderEscrow :=
  handleGetSenderEscrow [] (SenderServiceDeps.ofEnv env payer chain) now

theorem walletCard_reply {url : ZodCheck String} {source : ProcessEnv}
    (henv : loadEnv url source = .ok env) :
    walletCard (({} : AdminSender).withWallet (walletReply env chain payer).fetched)
      = match env.senderAddress with
        | none => .hint
        | some address =>
            match chain address with
            | .error f => .alert (alertOf f)
            | .ok balance =>
                .details address (formatWei (some (toString balance)))
                  (isBelow env.minBalanceWei balance) (formatWei env.minBalanceWei) := by
  have hloads := loadEnv_ok.mp henv
  cases haddress : env.senderAddress with
  | none =>
      simp only [walletReply, handleGetSenderWallet, withoutQuery, SenderService.getWallet,
        SenderServiceDeps.ofEnv, haddress]
      rfl
  | some address =>
      have hne : address ≠ "" := by
        rintro rfl
        have := matches_of_parse hloads.senderAddress "" (Option.mem_def.mpr haddress)
        exact absurd this (by decide)
      have horNull : orNull address = some address := if_neg hne
      simp only [walletReply, handleGetSenderWallet, withoutQuery, SenderService.getWallet,
        SenderServiceDeps.ofEnv, haddress, Option.bind_some, horNull, getBalance, if_true]
      cases hchain : chain address with
      | error f =>
          obtain ⟨err, herr, hmessage⟩ := request_fault (β := SenderWallet) f
          simp only [Except.map, withWallet, herr]
          simp [walletCard, Reply.fetched, Fetched.errorCode, hmessage, alertOf_ne]
      | ok balance =>
          have hbelow := belowFloor_eq (w := ⟨address, toString balance, env.minBalanceWei⟩) rfl
            (matches_of_parse hloads.minBalanceWei)
          simp only [Except.map, withWallet, request, Reply.fetched, Fetched.result,
            JsonBody.payload]
          simpa [walletCard] using hbelow

theorem escrowCard_reply (now : Int) :
    escrowCard (({} : AdminSender).withEscrow (escrowReply env chain payer now).fetched)
      = match payer with
        | .error f => .alert (alertOf f)
        | .ok info =>
            .details (formatWei (some info.depositWei)) (formatWei (some info.reserveWei))
              (some now) := by
  simp only [escrowReply, handleGetSenderEscrow, withoutQuery, SenderService.getEscrow,
    SenderServiceDeps.ofEnv, if_true]
  cases payer with
  | ok info => rfl
  | error f =>
      obtain ⟨err, herr, hmessage⟩ := request_fault (β := SenderEscrow) f
      simp only [Except.map, withEscrow, herr]
      simp [escrowCard, hmessage, alertOf_ne]

end Page

/-- **The sender page shows the chain and the daemon.** In every run, with the configuration
of `source`, the page loads until both responses are in, and shows nothing while it does. Then
the hint stands there exactly without `SENDER_ADDRESS`; with it the page has the balance of
that address, marked when it is below the floor. The escrow has the amounts that the daemon
sends as big-endian bytes. -/
theorem senderPage [BinaryWire] {url : ZodCheck String} {source : ProcessEnv} {env : Env}
    (henv : loadEnv url source = .ok env) {server : Bytes → Except Nat Bytes}
    {handler : Unit → Except Nat Payments.GetDepositInfoResponse}
    (hserver : Payments.getDepositInfo.Implements server handler) (fault : PayerError → Fault)
    (chain : String → Except Fault Nat) (now : Int) {es : List Event} {v : AdminSender}
    (hrun : machine.run es = some v)
    (hwallet : ∀ r, lastWallet es = some r → r
      = (walletReply env chain ((PayerClient.getDepositInfo server).mapError fault)).fetched)
    (hescrow : ∀ r, lastEscrow es = some r → r
      = (escrowReply env chain ((PayerClient.getDepositInfo server).mapError fault) now).fetched) :
    (v.loading = false ↔ Answered es)
      ∧ if v.loading then walletCard v = .loading ∧ escrowCard v = .loading
        else
          walletCard v
              = (match env.senderAddress with
                | none => .hint
                | some address =>
                    match chain address with
                    | .error f => .alert (alertOf f)
                    | .ok balance =>
                        .details address (formatWei (some (toString balance)))
                          (isBelow env.minBalanceWei balance) (formatWei env.minBalanceWei))
            ∧ escrowCard v
              = match handler () with
                | .error code => .alert (alertOf (fault (.status code)))
                | .ok res =>
                    .details (formatWei (some (toString (bigEndianValue res.deposit))))
                      (formatWei (some (toString (bigEndianValue res.reserve)))) (some now) := by
  refine ⟨(follows_run hrun).loading_eq_false, ?_⟩
  cases follows_run hrun with
  | loading => exact ⟨rfl, rfl⟩
  | settled hw he =>
      rw [settled_loading, if_neg Bool.false_ne_true, walletCard_settled, escrowCard_settled,
        hwallet _ hw, hescrow _ he, walletCard_reply env chain _ henv, escrowCard_reply,
        PayerClient.getDepositInfo_eq hserver]
      refine ⟨rfl, ?_⟩
      cases handler () <;> rfl

/-! ## An operator with a floor -/

/-- The variables that have to be set, an address and a floor of one ETH. -/
def walletEnv : ProcessEnv := fun name =>
  if name = "SENDER_ADDRESS" then some "0xD8E8328501E9645d16Cf49539efC04f734606ee4"
  else if name = "MIN_BALANCE_WEI" then some "1000000000000000000"
  else exampleEnv name

/-- A daemon with a deposit of 256 wei. -/
def payerHandler : Unit → Except Nat Payments.GetDepositInfoResponse :=
  fun _ => .ok ⟨[0x01, 0x00], [], 7⟩

theorem payerHandler_served :
    Payments.getDepositInfo.Implements (Payments.getDepositInfo.served payerHandler)
      payerHandler :=
  Method.served_implements (fun _ _ hf => absurd hf List.not_mem_nil) fun _ _ h => by
    obtain rfl := Except.ok.inj h
    exact ⟨Payments.getDepositInfoResponseFns_lossless _,
      Option.isSome_iff_exists.mp (by decide)⟩

/-- The configuration of `walletEnv`. -/
def walletConfig : Env :=
  { exampleConfig with
    senderAddress := some "0xD8E8328501E9645d16Cf49539efC04f734606ee4"
    minBalanceWei := some "1000000000000000000" }

/-- The escrow comes in before the wallet. -/
def floorRun : List Event :=
  [.escrowSettles (.response 200 (.data ⟨"256", "0", 1700000000000⟩)),
   .walletSettles (.response 200 (.data
    ⟨"0xD8E8328501E9645d16Cf49539efC04f734606ee4", "500000000000000000",
      some "1000000000000000000"⟩))]

/-- Half an ETH is below the floor of one; the deposit is below the sixth digit. -/
theorem senderPage_belowFloor :
    ∃ v, machine.run floorRun = some v
      ∧ walletCard v
        = .details "0xD8E8328501E9645d16Cf49539efC04f734606ee4" "0.5 ETH" true "1 ETH"
      ∧ escrowCard v = .details "0 ETH" "0 ETH" (some 1700000000000) := by
  refine ⟨_, rfl, ?_⟩
  refine (@senderPage _ anyString walletEnv walletConfig rfl _ _ payerHandler_served
    (fun _ => ⟨500, "", by decide⟩) (fun _ => .ok 500000000000000000) 1700000000000 floorRun _ rfl
    (fun r hr => ?_) fun r hr => ?_).2
  · obtain rfl := Option.some.inj hr
    rfl
  · obtain rfl := Option.some.inj hr
    rw [PayerClient.getDepositInfo_eq payerHandler_served]
    rfl

end AdminSender

end GatewayConsole
