import GatewayConsole.Address
import GatewayConsole.Repo

/-!
# The refresh handlers

`handleResolverRefresh.ts`: both handlers validate, then run one `try` over three
effects (the remote refresh, the audit append, the reply), whose `catch` appends
again and rethrows.

The outcomes of the effects are an oracle (`Effects`): every combination of them is
a run. An exception does not undo what happened before it, so a handler is a state
transformer over the attempt with exceptions on top.

`auditedOnce_iff` says which combinations leave the audit log right. The append and
the reply stand inside the `try`, so when one of them fails after the refresh
resolved the `catch` writes a second row, or a first one that says the refresh failed.
-/

namespace GatewayConsole

/-- What a `catch` is handed: an `Error` with its message, or another value with its
`String(..)`. -/
inductive Thrown where
  | error (message : String)
  | other (text : String)
deriving Repr, DecidableEq

/-- `err instanceof Error ? err.message : String(err)`. -/
def Thrown.text : Thrown → String
  | .error message => message
  | .other text => text

structure RefreshRequest where
  ethAddress : String
  force : Bool
deriving Repr, DecidableEq

structure RefreshReply where
  ok : Bool
  target : String
deriving Repr, DecidableEq

structure AppendAuditEventInput where
  actor : String
  action : String
  target : Option String
  ok : Bool
  message : Option String
deriving Repr, DecidableEq

/-- How the effects of one attempt go, none meaning success: the call of the daemon,
the audit appends in order, and the reply; and `unixepoch()` at each append. -/
structure Effects where
  refresh : Option Thrown
  append : Nat → Option Thrown
  send : Option Thrown
  unixepoch : Nat → Int

/-- What an attempt has done so far. -/
structure Attempt where
  events : AuditEvents
  refreshes : List RefreshRequest := []
  appends : Nat := 0
  sent : List RefreshReply := []

abbrev Handler := ExceptT Thrown (StateM Attempt)

def settle : Option Thrown → Handler Unit
  | none => pure ()
  | some err => throw err

theorem Handler.run_bind {α β : Type} (x : Handler α) (f : α → Handler β) (w : Attempt) :
    (x >>= f).run w = match x.run w with
      | (.ok a, w') => (f a).run w'
      | (.error err, w') => (.error err, w') := by
  show (ExceptT.bindCont f (x w).1) (x w).2 = _
  rw [show x.run w = x w from rfl]
  rcases x w with ⟨_ | _, _⟩ <;> rfl

theorem Handler.run_tryCatch {α : Type} (x : Handler α) (f : Thrown → Handler α) (w : Attempt) :
    (tryCatch x f).run w = match x.run w with
      | (.ok a, w') => (.ok a, w')
      | (.error err, w') => (f err).run w' := by
  show (ExceptT.tryCatch x f) w = _
  simp only [ExceptT.tryCatch, ExceptT.mk, ExceptT.run, bind, StateT.bind]
  rcases x w with ⟨_ | _, _⟩ <;> rfl

theorem Handler.run_throw {α : Type} (err : Thrown) (w : Attempt) :
    (throw err : Handler α).run w = (.error err, w) := rfl

theorem Handler.run_get (w : Attempt) : (get : Handler Attempt).run w = (.ok w, w) := rfl

theorem Handler.run_modify (f : Attempt → Attempt) (w : Attempt) :
    (modify f : Handler Unit).run w = (.ok (), f w) := rfl

section Handlers

variable (o : Effects)

/-- `ResolverService.refresh` over `ResolverClient.refresh`. -/
def ResolverService.refresh (address : Option String) : Handler Unit := do
  let target := address.getD "*"
  modify fun w => { w with refreshes := w.refreshes ++ [{ ethAddress := target, force := true }] }
  settle o.refresh

/-- `AuditService.append`. -/
def AuditService.append (input : AppendAuditEventInput) : Handler Unit := do
  let n := (← get).appends
  modify fun w => { w with appends := n + 1 }
  settle (o.append n)
  modify fun w =>
    { w with
      events := w.events.append (o.unixepoch n)
        { actor := input.actor
          action := input.action
          target := input.target
          ok := if input.ok then 1 else 0
          message := input.message } }

/-- `reply.send`. -/
def Reply.send (body : RefreshReply) : Handler Unit := do
  modify fun w => { w with sent := w.sent ++ [body] }
  settle o.send

theorem refresh_run (address : Option String) (w : Attempt) :
    (ResolverService.refresh o address).run w
      = ((match o.refresh with | none => .ok () | some err => .error err),
        { w with
          refreshes := w.refreshes ++ [{ ethAddress := address.getD "*", force := true }] }) := by
  unfold ResolverService.refresh
  cases o.refresh <;> rfl

theorem append_run (input : AppendAuditEventInput) (w : Attempt) :
    (AuditService.append o input).run w = match o.append w.appends with
      | some err => (.error err, { w with appends := w.appends + 1 })
      | none =>
          (.ok (),
            { w with
              appends := w.appends + 1
              events := w.events.append (o.unixepoch w.appends)
                { actor := input.actor
                  action := input.action
                  target := input.target
                  ok := if input.ok then 1 else 0
                  message := input.message } }) := by
  simp only [AuditService.append, Handler.run_bind, Handler.run_get, Handler.run_modify]
  cases o.append w.appends <;> rfl

theorem send_run (body : RefreshReply) (w : Attempt) :
    (Reply.send o body).run w
      = ((match o.send with | none => .ok () | some err => .error err),
        { w with sent := w.sent ++ [body] }) := by
  unfold Reply.send
  cases o.send <;> rfl

def runRefresh (actor target : String) : Handler Unit :=
  tryCatch
    (do
      let callTarget := if target = "*" then none else some target
      ResolverService.refresh o callTarget
      AuditService.append o
        { actor, action := "resolver.refresh", target := some target, ok := true
          message := none }
      Reply.send o { ok := true, target })
    (fun err => do
      AuditService.append o
        { actor, action := "resolver.refresh", target := some target, ok := false
          message := some err.text }
      throw err)

/-- A request body, as far as `EmptyBodySchema` tells bodies apart. -/
inductive Body where
  | undefined
  | null
  | object (keys : List String)
  | other
deriving Repr, DecidableEq

/-- `EmptyBodySchema.parse`: nothing, null, or an object without keys. -/
def parseEmptyBody : Body → Except (List ZodIssue) Unit
  | .undefined | .null | .object [] => .ok ()
  | .object (_ :: _) | .other => .error [{ path := [], message := none }]

def handleResolverRefresh (actor : String) (body : Body) :
    Except (List ZodIssue) (Handler Unit) := do
  parseEmptyBody body
  return runRefresh o actor "*"

def handleResolverRefreshOne (actor : String) (params : List (String × String)) :
    Except (List ZodIssue) (Handler Unit) := do
  let address ← parseAddressParams params
  return runRefresh o actor address

/-- The two routes. -/
inductive RefreshCall where
  | all (body : Body)
  | one (params : List (String × String))
deriving Repr, DecidableEq

def RefreshCall.handle (actor : String) : RefreshCall → Except (List ZodIssue) (Handler Unit)
  | .all body => handleResolverRefresh o actor body
  | .one params => handleResolverRefreshOne o actor params

/-- What the attempt is about, once its input is valid. -/
def RefreshCall.target : RefreshCall → String
  | .all _ => "*"
  | .one params => (params.lookup "address").getD ""

/-! ## The audit rows of an attempt -/

/-- The attempt appended at most one row, exactly one if no append failed, and each
row names the actor and the target and is `ok` just when the refresh resolved. -/
def AuditedOnce (actor target : String) (before : AuditEvents) (after : Attempt) : Prop :=
  ∃ added, after.events.rows = before.rows ++ added
    ∧ added.length ≤ 1
    ∧ ((∀ n < after.appends, o.append n = none) → added.length = 1)
    ∧ ∀ row ∈ added, row.actor = actor ∧ row.target = some target
      ∧ (row.ok = 1 ↔ o.refresh = none)

/-- The row of an attempt that ended like this. -/
def attemptRow (actor target : String) (id : Nat) (now : Int) (ok : Bool)
    (message : Option String) : AuditEventRow :=
  { id, occurredAt := now * 1000, actor, action := "resolver.refresh"
    target := some target, ok := if ok then 1 else 0, message }

/-- The rows an attempt appends, the first with the next id, and how often it calls the
append: what the `try` and its `catch` come to. -/
def attemptTrail (actor target : String) (nextId : Nat) : List AuditEventRow × Nat :=
  let row := attemptRow actor target
  match o.refresh, o.append 0, o.send, o.append 1 with
  | some err, none, _, _ => ([row nextId (o.unixepoch 0) false (some err.text)], 1)
  | some _, some _, _, _ => ([], 1)
  | none, none, none, _ => ([row nextId (o.unixepoch 0) true none], 1)
  | none, none, some err, none =>
      ([row nextId (o.unixepoch 0) true none,
        row (nextId + 1) (o.unixepoch 1) false (some err.text)], 2)
  | none, none, some _, some _ => ([row nextId (o.unixepoch 0) true none], 2)
  | none, some err, _, none => ([row nextId (o.unixepoch 1) false (some err.text)], 2)
  | none, some _, _, some _ => ([], 2)

theorem runRefresh_trail (actor target : String) (events : AuditEvents) :
    (((runRefresh o actor target).run { events }).2.events.rows
        = events.rows ++ (attemptTrail o actor target events.nextId).1)
      ∧ ((runRefresh o actor target).run { events }).2.appends
        = (attemptTrail o actor target events.nextId).2 := by
  simp only [runRefresh, Handler.run_tryCatch, Handler.run_bind, refresh_run, append_run,
    send_run, attemptTrail, Handler.run_throw]
  cases o.refresh with
  | some err => cases h0 : o.append 0 <;> simp [h0, AuditEvents.append, attemptRow]
  | none =>
      cases h0 : o.append 0 with
      | none =>
          cases o.send with
          | none => simp [h0, AuditEvents.append, attemptRow]
          | some err => cases h1 : o.append 1 <;> simp [h0, h1, AuditEvents.append, attemptRow]
      | some err => cases h1 : o.append 1 <;> simp [h0, h1, AuditEvents.append, attemptRow]

/-- The rows of the trail name the actor and the target. -/
theorem attemptTrail_who (actor target : String) (nextId : Nat) :
    ∀ row ∈ (attemptTrail o actor target nextId).1,
      row.actor = actor ∧ row.target = some target := by
  unfold attemptTrail
  split <;> simp [attemptRow]

/-- The audit of an attempt is right exactly when the refresh was refused, or the first
append and the reply succeeded, or the second append failed. -/
def AuditSafe : Prop :=
  o.refresh ≠ none ∨ (o.append 0 = none ∧ o.send = none) ∨ o.append 1 ≠ none

theorem auditedOnce_runRefresh_iff (actor target : String) (events : AuditEvents) :
    AuditedOnce o actor target events ((runRefresh o actor target).run { events }).2
      ↔ AuditSafe o := by
  obtain ⟨hrows, happends⟩ := runRefresh_trail o actor target events
  have hwho := attemptTrail_who o actor target events.nextId
  have hgood : AuditedOnce o actor target events ((runRefresh o actor target).run { events }).2
      ↔ (attemptTrail o actor target events.nextId).1.length ≤ 1
        ∧ ((∀ n < (attemptTrail o actor target events.nextId).2, o.append n = none) →
            (attemptTrail o actor target events.nextId).1.length = 1)
        ∧ ∀ row ∈ (attemptTrail o actor target events.nextId).1,
            (row.ok = 1 ↔ o.refresh = none) := by
    constructor
    · rintro ⟨added, hadded, hle, hone, hall⟩
      obtain rfl := List.append_cancel_left (hadded.symm.trans hrows)
      exact ⟨hle, happends ▸ hone, fun row hrow => (hall row hrow).2.2⟩
    · rintro ⟨hle, hone, hall⟩
      exact ⟨_, hrows, hle, happends ▸ hone, fun row hrow =>
        ⟨(hwho row hrow).1, (hwho row hrow).2, hall row hrow⟩⟩
  rw [hgood]
  unfold attemptTrail AuditSafe
  cases hr : o.refresh with
  | some err => cases h0 : o.append 0 <;> simp [h0, attemptRow]
  | none =>
      cases h0 : o.append 0 with
      | none =>
          cases hs : o.send with
          | none => simp [attemptRow]
          | some err => cases o.append 1 <;> simp [attemptRow]
      | some err =>
          cases h1 : o.append 1 with
          | none => simp [attemptRow]
          | some _ => simpa using ⟨0, by omega, by simp [h0]⟩

theorem RefreshCall.handle_ok {actor : String} {call : RefreshCall} {run : Handler Unit}
    (h : call.handle o actor = .ok run) : run = runRefresh o actor call.target := by
  cases call with
  | all body =>
      obtain ⟨_, -, hrun⟩ := except_bind_eq_ok.mp h
      exact (Except.ok.inj hrun).symm
  | one params =>
      obtain ⟨address, hparams, hrun⟩ := except_bind_eq_ok.mp h
      rw [target, (parseAddressParams_ok hparams).1, Option.getD_some]
      exact (Except.ok.inj hrun).symm

/-- **An attempt is audited once and truthfully unless an effect fails after the
refresh resolved and the second append succeeds.** -/
theorem auditedOnce_iff {actor : String} {call : RefreshCall} {run : Handler Unit}
    (h : call.handle o actor = .ok run) (events : AuditEvents) :
    AuditedOnce o actor call.target events (run.run { events }).2 ↔ AuditSafe o := by
  rw [RefreshCall.handle_ok o h]
  exact auditedOnce_runRefresh_iff o actor call.target events

end Handlers

/-! ## A reply that cannot be sent -/

/-- Every effect succeeds but the reply. -/
def sendFails : Effects where
  refresh := none
  append _ := none
  send := some (.error "write EPIPE")
  unixepoch _ := 1700000000

/-- Every effect succeeds. -/
def allSucceed : Effects := { sendFails with send := none }

theorem auditedOnce_allSucceed :
    ∃ run, RefreshCall.handle allSucceed "op-mike" (.all .null) = .ok run
      ∧ AuditedOnce allSucceed "op-mike" "*" {} (run.run { events := {} }).2 :=
  have hvalid : RefreshCall.handle allSucceed "op-mike" (.all .null)
      = .ok (runRefresh allSucceed "op-mike" "*") := rfl
  ⟨_, hvalid, (auditedOnce_iff allSucceed hvalid {}).mpr (Or.inr (Or.inl ⟨rfl, rfl⟩))⟩

/-- The attempt is audited twice, as a success and as a failure. -/
theorem not_auditedOnce_sendFails :
    ∃ run, RefreshCall.handle sendFails "op-mike" (.all .null) = .ok run
      ∧ (run.run { events := {} }).2.events.rows.map (·.ok) = [1, 0]
      ∧ ¬AuditedOnce sendFails "op-mike" "*" {} (run.run { events := {} }).2 := by
  refine ⟨_, rfl, rfl, ?_⟩
  rintro ⟨added, hrows, hle, -⟩
  rw [show added = _ from hrows.symm] at hle
  revert hle
  decide

end GatewayConsole
