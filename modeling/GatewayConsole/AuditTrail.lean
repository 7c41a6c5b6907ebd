import GatewayConsole.ApiRequests
import GatewayConsole.AuditPaging
import GatewayConsole.EventLoop

/-!
# The audit trail

The refresh handlers side by side, over one `audit_events`, while the audit screen is open:
requests of any kind come in, and the event loop goes on with any of the handlers when what it
awaits has settled.

`auditTrail` says that nothing of that shows. Each row that comes in is of one attempt, and
the rows of an attempt are those which its handler appends when it has the server for itself,
with the same outcomes; the screen reads the table they come into. `auditAccountable` says
who is named in a row: the handle of a request that was let in, or nobody where the request
went around the hook.
-/

namespace GatewayConsole

/-! ## The handler by its awaits -/

/-- What `runRefresh` awaits. -/
inductive RefreshEffect where
  | refresh (request : RefreshRequest)
  | append (input : AppendAuditEventInput)
  | send (body : RefreshReply)
deriving Repr, DecidableEq

/-- How it settles, none meaning success, and `unixepoch()` then. -/
structure Settlement where
  thrown : Option Thrown
  unixepoch : Int
deriving Repr, DecidableEq

abbrev RefreshTask := Task RefreshEffect Settlement (Except Thrown Unit)

def awaits (effect : RefreshEffect) : ExceptT Thrown (Task RefreshEffect Settlement) Unit :=
  ExceptT.mk <| .ask effect fun settlement =>
    .done <| match settlement.thrown with
      | none => .ok ()
      | some err => .error err

/-- `runRefresh`. -/
def refreshTask (actor target : String) : RefreshTask :=
  ExceptT.run <|
    tryCatch
      (do
        let callTarget := if target = "*" then none else some target
        awaits (.refresh { ethAddress := callTarget.getD "*", force := true })
        awaits (.append
          { actor, action := "resolver.refresh", target := some target, ok := true
            message := none })
        awaits (.send { ok := true, target }))
      (fun err => do
        awaits (.append
          { actor, action := "resolver.refresh", target := some target, ok := false
            message := some err.text })
        throw err)

/-- A request that runs one of the two handlers, with `req.actor`. -/
structure RefreshAttempt where
  actor : String
  call : RefreshCall
deriving Repr, DecidableEq

/-- The two handlers. -/
def RefreshAttempt.task (r : RefreshAttempt) : Except (List ZodIssue) RefreshTask :=
  match r.call with
  | .all body => do
      parseEmptyBody body
      return refreshTask r.actor "*"
  | .one params => do
      let address ← parseAddressParams params
      return refreshTask r.actor address

section Server

variable [Unicode]

/-- The attempt that a request makes, if the hook lets it through to one of the handlers. -/
def refreshAttempt (router : ParamRouter) (adminToken : String) (req : HttpRequest) (body : Body) :
    Option RefreshAttempt :=
  let served := serve router.toRouter adminToken req
  match served.handler with
  | some (.api .resolverRefresh) => some { actor := served.hook.actor, call := .all body }
  | some (.api .resolverRefreshOne) =>
      some { actor := served.hook.actor, call := .one (router.params req.method req.url) }
  | _ => none

/-- What a request does about the audit: nothing at all, if it is no attempt or a schema refuses
it. -/
def auditTask (router : ParamRouter) (adminToken : String) (request : HttpRequest × Body) :
    RefreshTask :=
  ((refreshAttempt router adminToken request.1 request.2).bind fun r => r.task.toOption).getD
    (.done (.ok ()))

end Server

/-- `append` of the repository, once it has succeeded. -/
def AuditScreen.settled (effect : RefreshEffect) (settlement : Settlement) (s : AuditScreen) :
    AuditScreen :=
  match effect, settlement.thrown with
  | .append input, none =>
      { s with
        table := s.table.append settlement.unixepoch
          { actor := input.actor
            action := input.action
            target := input.target
            ok := if input.ok then 1 else 0
            message := input.message } }
  | _, _ => s

/-- What the operator and the responses do to the audit screen. The table is written by the
attempts alone. -/
def AuditScreen.reads (s : AuditScreen) : ScreenEvent → Option AuditScreen
  | .append _ _ => none
  | ev => s.step ev

/-- The console over a table. -/
def auditConsole [Unicode] (router : ParamRouter) (adminToken : String) (table : AuditTable) :
    EventLoop (HttpRequest × Body) RefreshEffect Settlement (Except Thrown Unit) AuditScreen
      ScreenEvent where
  init := { table }
  start request := some (auditTask router adminToken request)
  effect := AuditScreen.settled
  step := AuditScreen.reads

/-! ## An attempt by itself -/

theorem RefreshAttempt.task_ok {r : RefreshAttempt} {t : RefreshTask}
    (h : r.task.toOption = some t) : t = refreshTask r.actor r.call.target := by
  obtain ⟨actor, call⟩ := r
  cases call with
  | all body =>
      cases hbody : parseEmptyBody body with
      | error issues => simp [task, hbody, Except.toOption, bind, Except.bind] at h
      | ok _ =>
          simp only [task, hbody] at h
          exact (Option.some.inj h).symm
  | one params =>
      cases hparams : parseAddressParams params with
      | error issues => simp [task, hparams, Except.toOption, bind, Except.bind] at h
      | ok address =>
          rw [RefreshCall.target, (parseAddressParams_ok hparams).1, Option.getD_some]
          simp only [task, hparams] at h
          exact (Option.some.inj h).symm

/-- A row but for its id. -/
def AuditEventRow.content (row : AuditEventRow) : AuditEventRow := { row with id := 0 }

/-- The row that `append` of the service leaves. -/
def AppendAuditEventInput.row (input : AppendAuditEventInput) (id : Nat) (unixepoch : Int) :
    AuditEventRow where
  id := id
  occurredAt := unixepoch * 1000
  actor := input.actor
  action := input.action
  target := input.target
  ok := if input.ok then 1 else 0
  message := input.message

/-- What the table has got from an await. -/
def rowContent : RefreshEffect × Settlement → Option AuditEventRow
  | (.append input, ⟨none, unixepoch⟩) => some (input.row 0 unixepoch)
  | _ => none

/-- The outcomes of an attempt, from what it has awaited so far; the rest succeeds. -/
def effectsOf (asked : List (RefreshEffect × Settlement)) : Effects where
  refresh := asked.findSome? fun
    | (.refresh _, settlement) => settlement.thrown
    | _ => none
  append n := (appends asked)[n]?.bind (·.thrown)
  send := asked.findSome? fun
    | (.send _, settlement) => settlement.thrown
    | _ => none
  unixepoch n := ((appends asked)[n]?).elim 0 (·.unixepoch)
where
  appends (asked : List (RefreshEffect × Settlement)) : List Settlement :=
    asked.filterMap fun
      | (.append _, settlement) => some settlement
      | _ => none

namespace RefreshAttempt

/-- What the attempt awaits while its awaits settle like this. -/
def asked (r : RefreshAttempt) (settlements : List Settlement) :
    List (RefreshEffect × Settlement) :=
  (refreshTask r.actor r.call.target).asked settlements

/-- The outcomes of the attempt. -/
def effects (r : RefreshAttempt) (settlements : List Settlement) : Effects :=
  effectsOf (r.asked settlements)

/-- The handler with these outcomes, when it has the server for itself. -/
def alone (r : RefreshAttempt) (settlements : List Settlement) : Except Thrown Unit × Attempt :=
  (runRefresh (r.effects settlements) r.actor r.call.target).run { events := {} }

/-- The rows it appends then. -/
def rowsAlone (r : RefreshAttempt) (settlements : List Settlement) : List AuditEventRow :=
  (r.alone settlements).2.events.rows.map AuditEventRow.content

/-- The handler has appended nothing else, and when it is through, it has appended all and
ends in the same way. The cases are those of its awaits. -/
theorem asked_alone (r : RefreshAttempt) (as : List Settlement) :
    (r.asked as).filterMap rowContent <+: r.rowsAlone as
      ∧ ∀ result, (refreshTask r.actor r.call.target).after as = .done result →
        (r.alone as).1 = result ∧ (r.asked as).filterMap rowContent = r.rowsAlone as := by
  rcases as with _ | ⟨⟨_ | err, t⟩, as⟩
  · exact ⟨List.nil_prefix, fun _ h => by cases h⟩
  · rcases as with _ | ⟨⟨_ | err, t⟩, as⟩
    · exact ⟨List.nil_prefix, fun _ h => by cases h⟩
    · rcases as with _ | ⟨⟨_ | err, t⟩, as⟩
      · exact ⟨List.prefix_refl _, fun _ h => by cases h⟩
      · exact ⟨List.prefix_refl _, fun _ h => by cases h; exact ⟨rfl, rfl⟩⟩
      · rcases as with _ | ⟨⟨_ | err, t⟩, as⟩
        · exact ⟨⟨_, rfl⟩, fun _ h => by cases h⟩
        · exact ⟨List.prefix_refl _, fun _ h => by cases h; exact ⟨rfl, rfl⟩⟩
        · exact ⟨List.prefix_refl _, fun _ h => by cases h; exact ⟨rfl, rfl⟩⟩
    · rcases as with _ | ⟨⟨_ | err, t⟩, as⟩
      · exact ⟨List.nil_prefix, fun _ h => by cases h⟩
      · exact ⟨List.prefix_refl _, fun _ h => by cases h; exact ⟨rfl, rfl⟩⟩
      · exact ⟨List.prefix_refl _, fun _ h => by cases h; exact ⟨rfl, rfl⟩⟩
  · rcases as with _ | ⟨⟨_ | err, t⟩, as⟩
    · exact ⟨List.nil_prefix, fun _ h => by cases h⟩
    · exact ⟨List.prefix_refl _, fun _ h => by cases h; exact ⟨rfl, rfl⟩⟩
    · exact ⟨List.prefix_refl _, fun _ h => by cases h; exact ⟨rfl, rfl⟩⟩

end RefreshAttempt

/-- The audit of an attempt does not depend on the ids that its rows get. -/
theorem AuditedOnce.of_content {o : Effects} {actor target : String} {w w' : Attempt}
    (happends : w'.appends = w.appends)
    (hrows : w'.events.rows.map AuditEventRow.content = w.events.rows.map AuditEventRow.content)
    (h : AuditedOnce o actor target {} w) : AuditedOnce o actor target {} w' := by
  obtain ⟨added, hadded, hle, hone, hall⟩ := h
  obtain rfl : w.events.rows = added := hadded
  have hlength : w'.events.rows.length = w.events.rows.length := by
    have := congrArg List.length hrows
    rwa [List.length_map, List.length_map] at this
  refine ⟨w'.events.rows, rfl, hlength ▸ hle, fun hok => ?_, fun row hrow => ?_⟩
  · rw [happends] at hok
    exact hlength.trans (hone hok)
  · have hmem : row.content ∈ w.events.rows.map AuditEventRow.content :=
      hrows ▸ List.mem_map_of_mem hrow
    obtain ⟨row', hrow', heq⟩ := List.mem_map.mp hmem
    obtain ⟨hactor, htarget, hok⟩ := hall row' hrow'
    have hsame : row'.ok = row.ok := (congrArg AuditEventRow.ok heq :)
    refine ⟨?_, ?_, hsame ▸ hok⟩
    · exact (congrArg AuditEventRow.actor heq).symm.trans hactor
    · exact (congrArg AuditEventRow.target heq).symm.trans htarget

/-- The audit of an attempt whose awaits have settled like this: `task` is what is left of the
handler, and `rows` are its rows in the table. -/
structure AttemptTrail (r : RefreshAttempt) (settlements : List Settlement) (task : RefreshTask)
    (rows : List AuditEventRow) : Prop where
  /-- So far, the rows are those which the handler appends alone. -/
  soFar : rows.map AuditEventRow.content <+: r.rowsAlone settlements
  /-- It has them all when it ends, and it ends as it does alone. -/
  ended : ∀ result, task = .done result →
    (r.alone settlements).1 = result ∧ rows.map AuditEventRow.content = r.rowsAlone settlements
  /-- They are right exactly when those of the handler alone are. -/
  audited : ∀ result, task = .done result →
    (AuditedOnce (r.effects settlements) r.actor r.call.target {}
        { (r.alone settlements).2 with events := { rows } }
      ↔ AuditSafe (r.effects settlements))

/-- The rows are what the answered awaits have left. -/
theorem attemptTrail_of_rows {r : RefreshAttempt} {settlements : List Settlement}
    {rows : List AuditEventRow}
    (h : rows.map AuditEventRow.content = (r.asked settlements).filterMap rowContent) :
    AttemptTrail r settlements ((refreshTask r.actor r.call.target).after settlements) rows := by
  obtain ⟨hsoFar, hended⟩ := r.asked_alone settlements
  refine ⟨h ▸ hsoFar, fun result hdone => ?_, fun result hdone => ?_⟩
  · rw [h]
    exact hended result hdone
  · have hrows : rows.map AuditEventRow.content = r.rowsAlone settlements :=
      h.trans (hended result hdone).2
    rw [← auditedOnce_runRefresh_iff (r.effects settlements) r.actor r.call.target {}]
    exact ⟨AuditedOnce.of_content rfl hrows.symm, AuditedOnce.of_content rfl hrows⟩

/-! ## The attempts side by side -/

/-- The table has got what the answered awaits have left, in their order, and the screen
follows a reader of it. -/
def TrailInv (table : AuditTable) (trace : List (Nat × RefreshEffect × Settlement))
    (s : AuditScreen) : Prop :=
  ScreenInv table s ∧ ∃ tagged : List (Nat × AuditEventRow),
    s.table.rows = table.rows ++ tagged.map (·.2)
    ∧ tagged.map (fun (i, row) => (i, row.content))
      = trace.filterMap fun (i, x) => (rowContent x).map (i, ·)

/-- What happens to the audit screen leaves the table. -/
theorem table_of_reads {s t : AuditScreen} {ev : ScreenEvent} (h : s.reads ev = some t) :
    s.step ev = some t ∧ t.table = s.table := by
  cases ev with
  | append now input => cases h
  | loadFirstPage =>
      refine ⟨h, ?_⟩
      simp only [AuditScreen.reads, AuditScreen.step, Option.ite_none_left_eq_some,
        Option.some.injEq] at h
      obtain ⟨-, rfl⟩ := h
      rfl
  | loadOlder =>
      refine ⟨h, ?_⟩
      simp only [AuditScreen.reads, AuditScreen.step, Option.ite_none_left_eq_some] at h
      obtain ⟨_, _, rfl⟩ := Option.map_eq_some_iff.mp h.2
      rfl
  | answer =>
      refine ⟨h, ?_⟩
      simp only [AuditScreen.reads, AuditScreen.step] at h
      split at h
      · obtain ⟨_, _, rfl⟩ := Option.map_eq_some_iff.mp h
        rfl
      · cases h
  | arrive =>
      refine ⟨h, ?_⟩
      simp only [AuditScreen.reads, AuditScreen.step] at h
      split at h
      · exact Option.some.inj h ▸ rfl
      · exact Option.some.inj h ▸ rfl
      · cases h
  | fail message =>
      refine ⟨h, ?_⟩
      simp only [AuditScreen.reads, AuditScreen.step] at h
      split at h
      · exact Option.some.inj h ▸ rfl
      · cases h

theorem trailInv_settled {table : AuditTable} {trace : List (Nat × RefreshEffect × Settlement)}
    {s : AuditScreen} (h : TrailInv table trace s) (i : Nat) (effect : RefreshEffect)
    (settlement : Settlement) :
    TrailInv table (trace ++ [(i, effect, settlement)]) (s.settled effect settlement) := by
  have hkeeps (hnone : rowContent (effect, settlement) = none) :
      TrailInv table (trace ++ [(i, effect, settlement)]) s := by
    obtain ⟨hscreen, tagged, hrows, htagged⟩ := h
    refine ⟨hscreen, tagged, hrows, htagged.trans ?_⟩
    simp [hnone]
  cases effect with
  | refresh request => exact hkeeps rfl
  | send body => exact hkeeps rfl
  | append input =>
      obtain ⟨_ | err, unixepoch⟩ := settlement
      · obtain ⟨hscreen, tagged, hrows, htagged⟩ := h
        refine ⟨hscreen.append unixepoch _,
          tagged ++ [(i, input.row s.table.nextId unixepoch)], ?_, ?_⟩
        · rw [List.map_append, ← List.append_assoc, ← hrows]
          rfl
        · rw [List.map_append, List.filterMap_append, htagged]
          rfl
      · exact hkeeps rfl

section Runs

variable [Unicode] {router : ParamRouter} {adminToken : String} {table : AuditTable}
  {es : List (LoopEvent (HttpRequest × Body) Settlement ScreenEvent)}
  {s : LoopState RefreshEffect Settlement (Except Thrown Unit) AuditScreen}

/-- The request makes this attempt, and its input is valid. -/
def Attempts (router : ParamRouter) (adminToken : String) (request : HttpRequest × Body)
    (r : RefreshAttempt) : Prop :=
  refreshAttempt router adminToken request.1 request.2 = some r ∧ r.task.toOption.isSome = true

/-- A request runs the handler of its attempt, or does nothing. -/
theorem auditTask_cases (router : ParamRouter) (adminToken : String)
    (request : HttpRequest × Body) :
    (∃ r, Attempts router adminToken request r
        ∧ auditTask router adminToken request = refreshTask r.actor r.call.target)
      ∨ (∀ r, ¬Attempts router adminToken request r)
        ∧ auditTask router adminToken request = .done (.ok ()) := by
  unfold auditTask Attempts
  cases refreshAttempt router adminToken request.1 request.2 with
  | none => exact .inr ⟨fun r hr => (by cases hr.1), rfl⟩
  | some r =>
      cases htask : r.task.toOption with
      | none =>
          refine .inr ⟨fun r' hr' => ?_, by rw [Option.bind_some, htask, Option.getD_none]⟩
          obtain rfl := Option.some.inj hr'.1
          rw [htask] at hr'
          cases hr'.2
      | some task =>
          refine .inl ⟨r, ⟨rfl, by rw [htask, Option.isSome_some]⟩, ?_⟩
          rw [Option.bind_some, htask, Option.getD_some, r.task_ok htask]

/-- What a run has left: the rows that came in, each with the number of the request that it is
of, and the audit of every attempt. -/
structure AuditTrail (router : ParamRouter) (adminToken : String) (table : AuditTable)
    (es : List (LoopEvent (HttpRequest × Body) Settlement ScreenEvent))
    (s : LoopState RefreshEffect Settlement (Except Thrown Unit) AuditScreen)
    (tagged : List (Nat × AuditEventRow)) : Prop where
  rows : s.world.table.rows = table.rows ++ tagged.map (·.2)
  /-- A row is of a request that makes an attempt. -/
  owned : ∀ entry ∈ tagged, ∃ request r, (requests es)[entry.1]? = some request
    ∧ Attempts router adminToken request r
  attempts : ∀ (i : Nat) request r, (requests es)[i]? = some request →
    Attempts router adminToken request r →
    ∃ task, s.tasks[i]? = some task ∧ AttemptTrail r (answersTo i es) task (ofTask i tagged)

theorem auditTrail_of_run (hs : (auditConsole router adminToken table).machine.run es = some s) :
    ScreenInv table s.world ∧ ∃ tagged, AuditTrail router adminToken table es s tagged := by
  obtain ⟨trace, ⟨hscreen, tagged, hrows, htagged⟩, h⟩ :=
    EventLoop.follows (L := auditConsole router adminToken table) (I := TrailInv table)
      ⟨(screenInv table).1, [], (List.append_nil _).symm, rfl⟩
      (fun _ _ i effect settlement hinv => trailInv_settled hinv i effect settlement)
      (fun _ _ _ _ hinv hst => by
        obtain ⟨hscreen, tagged, hrows, htagged⟩ := hinv
        obtain ⟨hstep, htable⟩ := table_of_reads hst
        exact ⟨(screenInv table).2 _ _ _ hscreen hstep, tagged, htable ▸ hrows, htagged⟩)
      hs
  -- the rows of a request are what its answered awaits have left
  have hown : ∀ (i : Nat) request, (requests es)[i]? = some request →
      (ofTask i tagged).map AuditEventRow.content
        = ((auditTask router adminToken request).asked (answersTo i es)).filterMap rowContent := by
    intro i request hi
    obtain ⟨t, ht, -, htrace⟩ := h.alone i request hi
    obtain rfl := Option.some.inj ht
    rw [← ofTask_map, htagged, ofTask_filterMap, htrace]
  refine ⟨hscreen, tagged, hrows, fun entry hentry => ?_, fun i request r hi hr => ?_⟩
  · have hmem : (entry.1, entry.2.content)
        ∈ trace.filterMap fun (i, x) => (rowContent x).map (i, ·) :=
      htagged ▸ List.mem_map_of_mem hentry
    obtain ⟨⟨i, x⟩, hx, hcontent⟩ := List.mem_filterMap.mp hmem
    obtain ⟨_, _, heq⟩ := Option.map_eq_some_iff.mp hcontent
    have hlt : entry.1 < (requests es).length := by
      rw [← h.length]
      exact (Prod.mk.inj heq).1 ▸ h.owned _ hx
    have hi : (requests es)[entry.1]? = some (requests es)[entry.1] :=
      List.getElem?_eq_some_iff.mpr ⟨hlt, rfl⟩
    rcases auditTask_cases router adminToken (requests es)[entry.1] with ⟨r, hr, -⟩ | ⟨-, hdone⟩
    · exact ⟨_, r, hi, hr⟩
    · have hmine : entry.2 ∈ ofTask entry.1 tagged :=
        List.mem_filterMap.mpr ⟨entry, hentry, if_pos rfl⟩
      have hnone := hown entry.1 _ hi
      rw [hdone] at hnone
      rw [List.map_eq_nil_iff.mp hnone] at hmine
      cases hmine
  · obtain ⟨t, ht, htask, -⟩ := h.alone i request hi
    obtain rfl := Option.some.inj ht
    rcases auditTask_cases router adminToken request with ⟨r', hr', hrun⟩ | ⟨hnone, -⟩
    · obtain rfl : r = r' := Option.some.inj (hr.1.symm.trans hr'.1)
      refine ⟨_, htask, ?_⟩
      rw [hrun]
      refine attemptTrail_of_rows ?_
      rw [hown i request hi, hrun]
      rfl
    · exact absurd hr (hnone r)

/-- **The audit trail of attempts side by side is that of each alone.** Every row that comes
in is of one attempt, whose rows are those of its handler alone; other requests leave none;
and the audit screen follows a reader of the table. -/
theorem auditTrail (hs : (auditConsole router adminToken table).machine.run es = some s) :
    FollowsPaging table s.world ∧ ∃ tagged, AuditTrail router adminToken table es s tagged := by
  obtain ⟨hscreen, htrail⟩ := auditTrail_of_run hs
  exact ⟨hscreen.followsPaging, htrail⟩

/-! ## Who is named -/

/-- The request was let in under this handle. -/
def LetIn (adminToken : String) (req : HttpRequest) (actor : String) : Prop :=
  startsWith req.url "/api/" = true
    ∧ (∃ identity, authenticate adminToken (headerString req.authorization) = .ok identity)
    ∧ parseActor (headerString req.xActor) = .ok actor

/-- The actor of an attempt is the handle that was let in, or empty where the hook did not
see to the request. -/
theorem refreshAttempt_actor {req : HttpRequest} {body : Body} {r : RefreshAttempt}
    (h : refreshAttempt router adminToken req body = some r) :
    if startsWith req.url "/api/" then LetIn adminToken req r.actor ∧ r.actor ≠ ""
    else r.actor = "" := by
  have hactor : (serve router.toRouter adminToken req).hook.actor = r.actor
      ∧ (serve router.toRouter adminToken req).handler.isSome = true := by
    simp only [refreshAttempt] at h
    split at h
    · next hhandler =>
        exact ⟨congrArg RefreshAttempt.actor (Option.some.inj h), by rw [hhandler]; rfl⟩
    · next hhandler =>
        exact ⟨congrArg RefreshAttempt.actor (Option.some.inj h), by rw [hhandler]; rfl⟩
    · cases h
  obtain ⟨hactor, hrun⟩ := hactor
  split
  · next hinside =>
      have hiff := @onRequest_accepts_iff _ adminToken _ hinside
      cases hhook : onRequest adminToken req with
      | mk hook result =>
          simp only [serve, hhook] at hactor hrun
          cases result with
          | next =>
              rw [hhook] at hiff
              have hparsed := (onRequest_next hinside hhook).2
              replace hactor : hook.actor = r.actor := hactor
              rw [hactor] at hparsed
              exact ⟨⟨hinside, (hiff.mp rfl).1, hparsed⟩, parseActor_ne_empty hparsed⟩
          | reply status error => cases hrun
          | threw err => cases hrun
  · next houtside =>
      rw [← hactor, serve, onRequest_outside (Bool.eq_false_of_not_eq_true houtside)]

omit [Unicode] in
theorem rowsAlone_who {r : RefreshAttempt} {settlements : List Settlement} {row : AuditEventRow}
    (h : row ∈ r.rowsAlone settlements) :
    row.actor = r.actor ∧ row.action = "resolver.refresh" ∧ row.target = some r.call.target := by
  have hrows := (runRefresh_trail (r.effects settlements) r.actor r.call.target {}).1
  obtain ⟨row', hrow', rfl⟩ := List.mem_map.mp h
  rw [RefreshAttempt.alone, hrows] at hrow'
  have htrail : ∀ row ∈ (attemptTrail (r.effects settlements) r.actor r.call.target 1).1,
      row.actor = r.actor ∧ row.action = "resolver.refresh"
        ∧ row.target = some r.call.target := by
    unfold attemptTrail
    split <;> simp [attemptRow]
  exact htrail row' hrow'

/-- The row names the handle and the target of the attempt: a handle that was let in, or
nobody where the request went around the hook. -/
structure NamedBy (adminToken : String) (req : HttpRequest) (r : RefreshAttempt)
    (row : AuditEventRow) : Prop where
  action : row.action = "resolver.refresh"
  actor : row.actor = r.actor
  target : row.target = some r.call.target
  letIn : if startsWith req.url "/api/" then LetIn adminToken req row.actor ∧ row.actor ≠ ""
    else row.actor = ""

/-- **Who is named was let in.** The rows that come in are those of the attempts, and each names
the actor and the target of its own: the handle under which that request was let in, or nobody
where it went around the hook. -/
theorem auditAccountable (hs : (auditConsole router adminToken table).machine.run es = some s) :
    ∃ tagged, AuditTrail router adminToken table es s tagged
      ∧ ∀ entry ∈ tagged, ∃ request r, (requests es)[entry.1]? = some request
        ∧ Attempts router adminToken request r ∧ NamedBy adminToken request.1 r entry.2 := by
  obtain ⟨-, tagged, h⟩ := auditTrail_of_run hs
  refine ⟨tagged, h, fun entry hentry => ?_⟩
  obtain ⟨request, r, hi, hr⟩ := h.owned entry hentry
  obtain ⟨task, -, htrail⟩ := h.attempts entry.1 request r hi hr
  have hmine : entry.2 ∈ ofTask entry.1 tagged :=
    List.mem_filterMap.mpr ⟨entry, hentry, if_pos rfl⟩
  obtain ⟨hactor, haction, htarget⟩ :=
    rowsAlone_who (htrail.soFar.subset (List.mem_map_of_mem hmine))
  have hnamed := refreshAttempt_actor hr.1
  replace hactor : entry.2.actor = r.actor := hactor
  exact ⟨request, r, hi, hr, haction, hactor, htarget, hactor ▸ hnamed⟩

end Runs

/-! ## One request that is let in, and one around the hook -/

/-- A new table. -/
def AuditTable.empty : AuditTable where
  rows := []
  nextId := 1
  ordered := List.Pairwise.nil
  ids _ h := by cases h
  next := Nat.one_pos

def letIn : HttpRequest where
  method := "POST"
  url := "/api/resolver/refresh"
  authorization := .single "Bearer 0123456789abcdef0123456789abcdef"
  xActor := .single "alice"

def aroundHook : HttpRequest where
  method := "POST"
  url := "/%61pi/resolver/refresh"
  authorization := .undefined
  xActor := .undefined

/-- The router in production, on paths without a parameter. -/
def fixedRouter : ParamRouter := { findMyWay with params := fun _ _ => [] }

/-- Two attempts at once, of which the second to start is the first to be recorded. The
daemon refuses the other one, and the screen is loaded before its row is there. A request of
no route comes in between. -/
def overlapping : List (LoopEvent (HttpRequest × Body) Settlement ScreenEvent) :=
  [.starts (letIn, .null), .starts (aroundHook, .null),
   .answers 1 ⟨none, 1700000000⟩, .answers 0 ⟨some (.error "UNAVAILABLE"), 1700000001⟩,
   .starts ({ letIn with method := "GET" }, .undefined),
   .answers 1 ⟨none, 1700000001⟩, .other .loadFirstPage, .other .answer,
   .answers 0 ⟨none, 1700000002⟩, .other .arrive, .answers 1 ⟨none, 1700000002⟩]

/-- The console in this run. -/
def overlappingConsole := @auditConsole asciiUnicode fixedRouter
  "0123456789abcdef0123456789abcdef" .empty

theorem run_overlapping :
    (overlappingConsole.machine.run overlapping).map
      (fun s => (s.world.view.events.map fun e => (e.actor, e.ok),
        s.world.table.rows.map fun row => (row.actor, row.ok)))
        = some ([("", true)], [("", 1), ("alice", 0)]) := by
  decide

theorem auditTrail_overlapping : ∃ s,
    overlappingConsole.machine.run overlapping = some s
      ∧ FollowsPaging .empty s.world
      ∧ ∃ tagged, @AuditTrail asciiUnicode fixedRouter "0123456789abcdef0123456789abcdef" .empty
        overlapping s tagged := by
  let _ : Unicode := asciiUnicode
  obtain ⟨s, hs, -⟩ := Option.map_eq_some_iff.mp run_overlapping
  exact ⟨s, hs, auditTrail hs⟩

theorem auditAccountable_overlapping : ∃ s tagged,
    overlappingConsole.machine.run overlapping = some s
      ∧ @AuditTrail asciiUnicode fixedRouter "0123456789abcdef0123456789abcdef" .empty
        overlapping s tagged
      ∧ ∀ entry ∈ tagged, ∃ request r, (requests overlapping)[entry.1]? = some request
        ∧ @Attempts asciiUnicode fixedRouter "0123456789abcdef0123456789abcdef" request r
        ∧ @NamedBy asciiUnicode "0123456789abcdef0123456789abcdef" request.1 r entry.2 := by
  let _ : Unicode := asciiUnicode
  obtain ⟨s, hs, -⟩ := Option.map_eq_some_iff.mp run_overlapping
  obtain ⟨tagged, htrail, hwho⟩ := auditAccountable hs
  exact ⟨s, tagged, hs, htrail, hwho⟩

end GatewayConsole
