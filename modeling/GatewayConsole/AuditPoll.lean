import GatewayConsole.Machine
import GatewayConsole.Resolver
import GatewayConsole.Repo

/-!
# The audit-poll worker

`runtime/workers/auditPoll.ts`: `tick` fetches the daemon's audit events from an
in-memory cursor, inserts the ones with an orch address and a date into
`routing_observations`, and moves the cursor.

`tick` is asynchronous, so it is given in the pieces between its suspension
points: `tickStart` up to the call of `getAuditLog`, `scan` for the loop over the
reply, `tickFinish` from the cursor update on, and `tickCatch` for the `catch`
with its `finally`. `PollSys` puts the worker together with what it talks to: the
daemon's log, which grows at any moment, the call in flight, and the table. A run
interleaves appends, invocations of `tick` (by the timer or `runOnce`, at any
moment), the daemon's answers, and failures of the call and of the insert.

`origin` is not part of the program: for each row of the table it records the
position in the daemon's log of the event the row was made from.
-/

namespace GatewayConsole

/-! ## Raising a maximum -/

/-- `if (occurredAt > maxAt) maxAt = occurredAt`. -/
def raiseTo (maxAt : Int) : Num → Int
  | .nan => maxAt
  | .int t => if t > maxAt then t else maxAt

theorem le_foldl_raiseTo (times : List Num) : ∀ m, m ≤ times.foldl raiseTo m := by
  induction times with
  | nil => exact fun m => Int.le_refl m
  | cons t times ih =>
      intro m
      refine Int.le_trans ?_ (ih (raiseTo m t))
      cases t with
      | nan => exact Int.le_refl m
      | int t => simp only [raiseTo]; split <;> omega

theorem mem_le_foldl_raiseTo {times : List Num} {t : Int} (ht : .int t ∈ times) :
    ∀ m, t ≤ times.foldl raiseTo m := by
  induction times with
  | nil => cases ht
  | cons u times ih =>
      intro m
      rcases List.mem_cons.mp ht with rfl | ht'
      · refine Int.le_trans ?_ (le_foldl_raiseTo times _)
        simp only [raiseTo]
        split <;> omega
      · exact ih ht' _

/-- The raised cursor is where it started, or at one of the times. -/
theorem foldl_raiseTo_source (times : List Num) :
    ∀ m, times.foldl raiseTo m = m ∨ .int (times.foldl raiseTo m) ∈ times := by
  induction times with
  | nil => exact fun m => Or.inl rfl
  | cons u times ih =>
      intro m
      rw [List.foldl_cons]
      rcases ih (raiseTo m u) with heq | hmem
      · rw [heq]
        cases u with
        | nan => exact Or.inl rfl
        | int u =>
            by_cases hlt : u > m
            · exact Or.inr (by simp [raiseTo, hlt])
            · exact Or.inl (by simp [raiseTo, hlt])
      · exact Or.inr (List.mem_cons_of_mem _ hmem)

/-! ## The tick -/

section Tick

variable [Unicode]

def eventToObservation (e : ResolverAuditEntry) : RoutingObservationInsert where
  observedAt := e.occurredAt
  orchAddress := toLowerCase (e.orchAddress.getD "")
  capability := none
  offering := none
  signatureStatus := none
  freshnessStatus := none
  detailsJson := some
    (jsonObject [("kind", e.kind), ("mode", e.mode.text), ("detail", e.detail)])

/-- `!e.orchAddress`. -/
def lacksOrch (e : ResolverAuditEntry) : Bool :=
  match e.orchAddress with
  | none => true
  | some a => a = ""

/-- What the loop has collected: the rows, and the greatest time seen. -/
structure Scan where
  rows : List RoutingObservationInsert
  maxAt : Int

/-- The body of the loop. -/
def scanStep (acc : Scan) (e : ResolverAuditEntry) : Scan :=
  if lacksOrch e then acc -- resolver-level events have no orch
  else if e.occurredAt.le 0 then acc -- undated rows
  else
    { rows := acc.rows ++ [eventToObservation e]
      maxAt := raiseTo acc.maxAt e.occurredAt }

/-- The loop, from the cursor. -/
def scan (watermarkMs : Option Int) (events : List ResolverAuditEntry) : Scan :=
  events.foldl scanStep { rows := [], maxAt := watermarkMs.getD (-1) }

structure Worker where
  watermarkMs : Option Int := none
  inFlight : Bool := false
deriving Repr, DecidableEq

structure TickResult where
  inserted : Nat
  watermark : Option Int
deriving Repr, DecidableEq

/-- `tick` up to its first suspension: an overlapping call returns at once, any
other sends the request. -/
def tickStart (fetchLimit : Nat) (w : Worker) : TickResult ⊕ Worker × GetAuditLogRequest :=
  if w.inFlight then .inl { inserted := 0, watermark := w.watermarkMs }
  else
    .inr ({ w with inFlight := true },
      getAuditLogRequest none w.watermarkMs (some fetchLimit))

/-- `tick` from the cursor update on. -/
def tickFinish (w : Worker) (inserted : Nat) (maxAt : Int) : Worker × TickResult :=
  let watermarkMs :=
    if maxAt > w.watermarkMs.getD (-1) then some (maxAt + 1) else w.watermarkMs
  ({ watermarkMs, inFlight := false }, { inserted, watermark := watermarkMs })

/-- The `catch` and `finally` of `tick`. -/
def tickCatch (w : Worker) : Worker := { w with inFlight := false }

/-! ## What the loop computes -/

/-- The event survives both `continue`s. -/
def isKept (e : ResolverAuditEntry) : Bool := !lacksOrch e && !e.occurredAt.le 0

theorem scanStep_kept {acc : Scan} {e : ResolverAuditEntry} (hk : isKept e = true) :
    scanStep acc e
      = ⟨acc.rows ++ [eventToObservation e], raiseTo acc.maxAt e.occurredAt⟩ := by
  simp only [isKept, Bool.and_eq_true, Bool.not_eq_true'] at hk
  simp [scanStep, hk.1, hk.2]

theorem scanStep_skipped {acc : Scan} {e : ResolverAuditEntry} (hk : isKept e = false) :
    scanStep acc e = acc := by
  unfold scanStep
  cases hl : lacksOrch e with
  | true => rfl
  | false =>
      have h0 : e.occurredAt.le 0 = true := by simpa [isKept, hl] using hk
      simp [h0]

/-- The loop maps the kept events and raises the cursor over their times. -/
theorem foldl_scanStep (events : List ResolverAuditEntry) :
    ∀ acc : Scan, events.foldl scanStep acc
      = ⟨acc.rows ++ (events.filter isKept).map eventToObservation,
         ((events.filter isKept).map (·.occurredAt)).foldl raiseTo acc.maxAt⟩ := by
  induction events with
  | nil => intro acc; simp
  | cons e events ih =>
      intro acc
      rw [List.foldl_cons, ih]
      cases hk : isKept e with
      | true => simp [scanStep_kept hk, hk]
      | false => simp [scanStep_skipped hk, hk]

theorem scan_rows (w : Option Int) (events : List ResolverAuditEntry) :
    (scan w events).rows = (events.filter isKept).map eventToObservation := by
  rw [scan, foldl_scanStep, List.nil_append]

theorem le_scan_maxAt (w : Option Int) (events : List ResolverAuditEntry) :
    w.getD (-1) ≤ (scan w events).maxAt := by
  rw [scan, foldl_scanStep]
  exact le_foldl_raiseTo _ _

theorem kept_le_scan_maxAt {w : Option Int} {events : List ResolverAuditEntry}
    {e : ResolverAuditEntry} (he : e ∈ events) (hk : isKept e = true) {t : Int}
    (ht : e.occurredAt = .int t) : t ≤ (scan w events).maxAt := by
  rw [scan, foldl_scanStep]
  refine mem_le_foldl_raiseTo ?_ _
  rw [← ht]
  exact List.mem_map.mpr ⟨e, List.mem_filter.mpr ⟨he, hk⟩, rfl⟩

theorem scan_maxAt_source (w : Option Int) (events : List ResolverAuditEntry) :
    (scan w events).maxAt = w.getD (-1)
      ∨ ∃ e ∈ events, isKept e = true ∧ e.occurredAt = .int (scan w events).maxAt := by
  rw [scan, foldl_scanStep]
  rcases foldl_raiseTo_source ((events.filter isKept).map (·.occurredAt)) (w.getD (-1))
    with heq | hmem
  · exact Or.inl heq
  · obtain ⟨e, he, htime⟩ := List.mem_map.mp hmem
    exact Or.inr ⟨e, (List.mem_filter.mp he).1, (List.mem_filter.mp he).2, htime⟩

/-- Without a kept event the cursor stays. -/
theorem scan_maxAt_of_none {w : Option Int} {events : List ResolverAuditEntry}
    (h : events.filter isKept = []) : (scan w events).maxAt = w.getD (-1) := by
  rw [scan, foldl_scanStep, h]
  rfl

end Tick

/-! ## The worker and its surroundings -/

/-- The daemon the worker polls: which events its log takes after the ones it has,
and which replies to a request, as positions in its log, it may give. -/
structure Daemon where
  accepts : List LoggedEvent → LoggedEvent → Bool
  answers : List LoggedEvent → GetAuditLogRequest → List Nat → Bool

/-- A daemon of which nothing is known. -/
def Daemon.any : Daemon where
  accepts _ _ := true
  answers _ _ _ := true

/-- Where the running `tick` is suspended. -/
inductive Stage where
  /-- No tick is running. -/
  | idle
  /-- At `await getAuditLog`, with no answer given yet. -/
  | calling (req : GetAuditLogRequest)
  /-- At `await getAuditLog`, with the answer on its way. -/
  | answered (reply : List Nat)
  /-- At `await appendBatch`, which has inserted the rows or has failed. -/
  | appending (reply : List Nat) (inserted : Nat) (maxAt : Int) (ok : Bool)
deriving Repr, DecidableEq

/-- How a call of `tick` settled. -/
inductive TickOutcome where
  | resolved (result : TickResult)
  | rejected
deriving Repr, DecidableEq

structure PollSys where
  log : List LoggedEvent := []
  worker : Worker := {}
  stage : Stage := .idle
  table : RoutingObservations := {}
  origin : List Nat := []
  outcomes : List TickOutcome := []
deriving Repr, DecidableEq

inductive PollEvent where
  /-- The daemon logs an event. -/
  | append (e : LoggedEvent)
  /-- `tick` is called. -/
  | invoke
  /-- The daemon answers the call in flight. -/
  | answer (reply : List Nat)
  /-- The call in flight is rejected. -/
  | callFails
  /-- The answer reaches the worker, while the database is available or not. -/
  | deliver (dbOk : Bool)
  /-- The worker resumes after the insert. -/
  | resume
deriving Repr, DecidableEq

/-- The entry at a position of the log, as the client maps it. -/
def entryAt (log : List LoggedEvent) (i : Nat) : Option ResolverAuditEntry :=
  log[i]?.map mapAuditEvent

/-- The entry at the position exists and is kept. -/
def keptAt (log : List LoggedEvent) (i : Nat) : Bool := (entryAt log i).any isKept

/-- The kept entries of a reply are the entries at its kept positions. -/
theorem filter_filterMap_entryAt (log : List LoggedEvent) (reply : List Nat) :
    (reply.filterMap (entryAt log)).filter isKept
      = (reply.filter (keptAt log)).filterMap (entryAt log) := by
  induction reply with
  | nil => rfl
  | cons i reply ih =>
      cases he : entryAt log i with
      | none => simp [he, keptAt, ih]
      | some e => cases hk : isKept e <;> simp [he, keptAt, hk, ih]

/-- The tick rejects. -/
def PollSys.reject (s : PollSys) : PollSys :=
  { s with
    worker := tickCatch s.worker, stage := .idle
    outcomes := s.outcomes ++ [.rejected] }

/-- The tick returns. -/
def PollSys.finish (s : PollSys) (inserted : Nat) (maxAt : Int) : PollSys :=
  let (worker, result) := tickFinish s.worker inserted maxAt
  { s with worker, stage := .idle, outcomes := s.outcomes ++ [.resolved result] }

section System

variable [Unicode]

/-- One step: what an event does to the system, if it can happen. -/
def PollSys.step (D : Daemon) (fetchLimit : Nat) (s : PollSys) : PollEvent → Option PollSys
  | .append e => if D.accepts s.log e then some { s with log := s.log ++ [e] } else none
  | .invoke =>
      match tickStart fetchLimit s.worker with
      | .inl result => some { s with outcomes := s.outcomes ++ [.resolved result] }
      | .inr (worker, req) => some { s with worker, stage := .calling req }
  | .answer reply =>
      match s.stage with
      | .calling req =>
          if reply.all (· < s.log.length) && D.answers s.log req reply then
            some { s with stage := .answered reply }
          else none
      | _ => none
  | .callFails =>
      match s.stage with
      | .calling _ | .answered _ => some s.reject
      | _ => none
  | .deliver dbOk =>
      match s.stage with
      | .answered reply =>
          let collected := scan s.worker.watermarkMs (reply.filterMap (entryAt s.log))
          if collected.rows.length > 0 then
            match if dbOk then appendBatch s.table collected.rows else none with
            | some table =>
                some
                  { s with
                    table, origin := s.origin ++ reply.filter (keptAt s.log)
                    stage := .appending reply collected.rows.length collected.maxAt true }
            | none =>
                some
                  { s with
                    stage := .appending reply collected.rows.length collected.maxAt false }
          else some (s.finish 0 collected.maxAt)
      | _ => none
  | .resume =>
      match s.stage with
      | .appending _ inserted maxAt ok =>
          some (if ok then s.finish inserted maxAt else s.reject)
      | _ => none

/-- The system from a log of the daemon's, with a fresh worker and an empty table. -/
def auditPoll (D : Daemon) (fetchLimit : Nat) (log : List LoggedEvent := []) :
    Machine PollSys PollEvent where
  init := { log }
  step := PollSys.step D fetchLimit

/-! ## What a step can do -/

/-- The loop over the entries of a reply collects no row exactly when none of its
positions is kept. -/
theorem scan_reply_eq_nil {w : Option Int} {log : List LoggedEvent} {reply : List Nat} :
    (scan w (reply.filterMap (entryAt log))).rows = []
      ↔ reply.filter (keptAt log) = [] := by
  rw [scan_rows, List.map_eq_nil_iff, filter_filterMap_entryAt]
  constructor
  · intro h
    rw [List.filterMap_eq_nil_iff] at h
    refine List.eq_nil_iff_forall_not_mem.mpr fun i hi => ?_
    have hk := (List.mem_filter.mp hi).2
    simp [keptAt, h i hi] at hk
  · intro h; rw [h]; rfl

/-- The transitions, one constructor for each way a step can go. -/
inductive PollSys.Trans (D : Daemon) (fetchLimit : Nat) (s : PollSys) :
    PollEvent → PollSys → Prop
  | append (e : LoggedEvent) (hacc : D.accepts s.log e = true) :
      Trans D fetchLimit s (.append e) { s with log := s.log ++ [e] }
  | overlap (hbusy : s.worker.inFlight = true) :
      Trans D fetchLimit s .invoke
        { s with outcomes := s.outcomes
            ++ [.resolved { inserted := 0, watermark := s.worker.watermarkMs }] }
  | start (hfree : s.worker.inFlight = false) :
      Trans D fetchLimit s .invoke
        { s with
          worker := { s.worker with inFlight := true }
          stage := .calling
            { ethAddress := "", limit := fetchLimit, since := s.worker.watermarkMs } }
  | answer (req : GetAuditLogRequest) (reply : List Nat) (hstage : s.stage = .calling req)
      (hin : ∀ i ∈ reply, i < s.log.length) (hans : D.answers s.log req reply = true) :
      Trans D fetchLimit s (.answer reply) { s with stage := .answered reply }
  | callFails (hstage : (∃ req, s.stage = .calling req) ∨ ∃ reply, s.stage = .answered reply) :
      Trans D fetchLimit s .callFails s.reject
  | deliverNone (dbOk : Bool) (reply : List Nat) (hstage : s.stage = .answered reply)
      (hnone : reply.filter (keptAt s.log) = []) :
      Trans D fetchLimit s (.deliver dbOk)
        (s.finish 0 (s.worker.watermarkMs.getD (-1)))
  | deliverRows (reply : List Nat) (table : RoutingObservations)
      (hstage : s.stage = .answered reply) (hsome : reply.filter (keptAt s.log) ≠ [])
      (happ : appendBatch s.table
        (scan s.worker.watermarkMs (reply.filterMap (entryAt s.log))).rows = some table) :
      Trans D fetchLimit s (.deliver true)
        { s with
          table, origin := s.origin ++ reply.filter (keptAt s.log)
          stage := .appending reply
            (scan s.worker.watermarkMs (reply.filterMap (entryAt s.log))).rows.length
            (scan s.worker.watermarkMs (reply.filterMap (entryAt s.log))).maxAt true }
  | deliverFails (dbOk : Bool) (reply : List Nat) (hstage : s.stage = .answered reply)
      (hsome : reply.filter (keptAt s.log) ≠ []) :
      Trans D fetchLimit s (.deliver dbOk)
        { s with
          stage := .appending reply
            (scan s.worker.watermarkMs (reply.filterMap (entryAt s.log))).rows.length
            (scan s.worker.watermarkMs (reply.filterMap (entryAt s.log))).maxAt false }
  | resumeOk (reply : List Nat) (inserted : Nat) (maxAt : Int)
      (hstage : s.stage = .appending reply inserted maxAt true) :
      Trans D fetchLimit s .resume (s.finish inserted maxAt)
  | resumeFails (reply : List Nat) (inserted : Nat) (maxAt : Int)
      (hstage : s.stage = .appending reply inserted maxAt false) :
      Trans D fetchLimit s .resume s.reject

theorem PollSys.trans_of_step {D : Daemon} {fetchLimit : Nat} {s t : PollSys} {ev : PollEvent}
    (h : s.step D fetchLimit ev = some t) : s.Trans D fetchLimit ev t := by
  cases ev with
  | append e =>
      simp only [step, Option.ite_none_right_eq_some, Option.some.injEq] at h
      obtain ⟨hacc, rfl⟩ := h
      exact .append e hacc
  | invoke =>
      simp only [step, tickStart] at h
      cases hb : s.worker.inFlight with
      | true =>
          simp only [hb, if_true, Option.some.injEq] at h
          exact h ▸ .overlap hb
      | false =>
          simp only [hb, Bool.false_eq_true, if_false, Option.some.injEq] at h
          exact h ▸ .start hb
  | answer reply =>
      cases hs : s.stage with
      | calling req =>
          simp only [step, hs, Option.ite_none_right_eq_some, Option.some.injEq,
            Bool.and_eq_true, List.all_eq_true, decide_eq_true_eq] at h
          obtain ⟨⟨hin, hans⟩, rfl⟩ := h
          exact .answer req reply hs hin hans
      | idle | answered _ | appending _ _ _ _ => simp [step, hs] at h
  | callFails =>
      cases hs : s.stage with
      | calling req =>
          simp only [step, hs, Option.some.injEq] at h
          exact h ▸ .callFails (Or.inl ⟨req, hs⟩)
      | answered reply =>
          simp only [step, hs, Option.some.injEq] at h
          exact h ▸ .callFails (Or.inr ⟨reply, hs⟩)
      | idle | appending _ _ _ _ => simp [step, hs] at h
  | deliver dbOk =>
      cases hs : s.stage with
      | answered reply =>
          by_cases hk : reply.filter (keptAt s.log) = []
          · have hrows := (scan_reply_eq_nil (w := s.worker.watermarkMs)).mpr hk
            have hmax : (scan s.worker.watermarkMs (reply.filterMap (entryAt s.log))).maxAt
                = s.worker.watermarkMs.getD (-1) :=
              scan_maxAt_of_none (by rw [filter_filterMap_entryAt, hk]; rfl)
            simp only [step, hs, hrows, List.length_nil, gt_iff_lt, Nat.lt_irrefl, if_false,
              Option.some.injEq, hmax] at h
            exact h ▸ .deliverNone dbOk reply hs hk
          · have hrows : (scan s.worker.watermarkMs
                (reply.filterMap (entryAt s.log))).rows.length > 0 :=
              List.length_pos_iff.mpr fun hnil => hk (scan_reply_eq_nil.mp hnil)
            simp only [step, hs, hrows, if_true] at h
            cases dbOk with
            | false =>
                simp only [Bool.false_eq_true, if_false, Option.some.injEq] at h
                exact h ▸ .deliverFails false reply hs hk
            | true =>
                simp only [if_true] at h
                cases happ : appendBatch s.table
                    (scan s.worker.watermarkMs (reply.filterMap (entryAt s.log))).rows with
                | some table =>
                    simp only [happ, Option.some.injEq] at h
                    exact h ▸ .deliverRows reply table hs hk happ
                | none =>
                    simp only [happ, Option.some.injEq] at h
                    exact h ▸ .deliverFails true reply hs hk
      | idle | calling _ | appending _ _ _ _ => simp [step, hs] at h
  | resume =>
      cases hs : s.stage with
      | appending reply inserted maxAt ok =>
          simp only [step, hs, Option.some.injEq] at h
          cases ok with
          | true => exact h ▸ .resumeOk reply inserted maxAt hs
          | false => exact h ▸ .resumeFails reply inserted maxAt hs
      | idle | calling _ | answered _ => simp [step, hs] at h

end System

end GatewayConsole
