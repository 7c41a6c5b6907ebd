import GatewayConsole.AuditPollInv

/-!
# Ticks one after the other

`PollState.tick` is a tick with nothing beside it: the pieces of `tick` in a row, on the
worker and the table alone. A run of the whole system, with its overlapping calls and its
ticks that fail at any point, comes to the same as the ticks of it that returned, taken one
after the other with the replies they got (`NoTrace.sequential`).

The simulation relation `Matches p s` says where the interleaved system stands when the
ticks that have returned lead to `p`: a running tick has changed nothing but the guard,
except after its insert. From there on it will return, and `p.tick` on its reply already
leads to where it will be.
-/

namespace GatewayConsole

/-! ## A tick alone -/

/-- What the ticks work on. -/
structure PollState where
  worker : Worker := {}
  table : RoutingObservations := {}
deriving Repr, DecidableEq

section Tick

variable [Unicode]

/-- `tick` from its call to its return, with this reply; none where it rejects. -/
def PollState.tick (fetchLimit : Nat) (p : PollState) (events : List ResolverAuditEntry) :
    Option (PollState × TickResult) :=
  match tickStart fetchLimit p.worker with
  | .inl result => some (p, result)
  | .inr (worker, _) =>
      let collected := scan worker.watermarkMs events
      let inserted :=
        if collected.rows.length > 0 then appendBatch p.table collected.rows else some p.table
      inserted.map fun table =>
        let (worker, result) := tickFinish worker collected.rows.length collected.maxAt
        ({ worker, table }, result)

/-- The ticks in a row. -/
def PollState.ticks (fetchLimit : Nat) (p : PollState)
    (replies : List (List ResolverAuditEntry)) : Option PollState :=
  replies.foldlM (fun p events => (p.tick fetchLimit events).map (·.1)) p

theorem PollState.ticks_cons (fetchLimit : Nat) {p q : PollState} {r : TickResult}
    {events : List ResolverAuditEntry} (h : p.tick fetchLimit events = some (q, r))
    (replies : List (List ResolverAuditEntry)) :
    p.ticks fetchLimit (events :: replies) = q.ticks fetchLimit replies := by
  simp [ticks, List.foldlM_cons, h]

/-- The insert of no rows, which `tick` leaves out, would change nothing. -/
theorem PollState.tick_eq (fetchLimit : Nat) {p : PollState} (hfree : p.worker.inFlight = false)
    (events : List ResolverAuditEntry) :
    p.tick fetchLimit events
      = (appendBatch p.table (scan p.worker.watermarkMs events).rows).map fun table =>
          (⟨(tickFinish { p.worker with inFlight := true }
              (scan p.worker.watermarkMs events).rows.length
              (scan p.worker.watermarkMs events).maxAt).1, table⟩,
            (tickFinish { p.worker with inFlight := true }
              (scan p.worker.watermarkMs events).rows.length
              (scan p.worker.watermarkMs events).maxAt).2) := by
  simp only [tick, tickStart, hfree, Bool.false_eq_true, if_false]
  by_cases hrows : (scan p.worker.watermarkMs events).rows = []
  · rw [hrows]
    rfl
  · rw [if_pos (List.length_pos_iff.mpr hrows)]

end Tick

/-! ## The ticks of a run -/

/-- No tick is running. -/
def PollSys.Ready (s : PollSys) : Prop := s.stage = .idle ∧ s.worker.inFlight = false

/-- The worker and the table of the system. -/
def PollSys.rest (s : PollSys) : PollState := { worker := s.worker, table := s.table }

/-- The reply the running tick has got. -/
def Stage.reply : Stage → Option (List Nat)
  | .answered reply | .appending reply _ _ _ => some reply
  | .idle | .calling _ => none

def TickOutcome.isResolved : TickOutcome → Bool
  | .resolved _ => true
  | .rejected => false

/-- The reply of the tick that has returned in the step from `s` to `t`, if one has. -/
def PollSys.returned (s t : PollSys) : Option (List ResolverAuditEntry) :=
  if t.stage = .idle ∧ t.outcomes.getLast?.any TickOutcome.isResolved = true then
    s.stage.reply.map fun reply => reply.filterMap (entryAt s.log)
  else none

/-- The replies of the ticks that return in a run, in the order of their returns. -/
def returnedReplies [Unicode] (D : Daemon) (fetchLimit : Nat) :
    PollSys → List PollEvent → List (List ResolverAuditEntry)
  | _, [] => []
  | s, ev :: es =>
      match s.step D fetchLimit ev with
      | none => []
      | some t => (s.returned t).toList ++ returnedReplies D fetchLimit t es

theorem PollSys.returned_of_busy {s t : PollSys} (h : t.stage ≠ .idle) : s.returned t = none := by
  rw [returned, if_neg fun h' => h h'.1]

theorem PollSys.returned_reject (s : PollSys) : s.returned s.reject = none := by
  rw [returned, if_neg fun h => by simp [reject, TickOutcome.isResolved] at h]

theorem PollSys.returned_finish {s : PollSys} {reply : List Nat}
    (hstage : s.stage.reply = some reply) (inserted : Nat) (maxAt : Int) :
    s.returned (s.finish inserted maxAt) = some (reply.filterMap (entryAt s.log)) := by
  rw [returned, if_pos ⟨rfl, by simp [finish, TickOutcome.isResolved]⟩, hstage]
  rfl

theorem PollSys.returned_of_noReply {s t : PollSys} (h : s.stage.reply = none) :
    s.returned t = none := by
  unfold returned
  split
  · rw [h]; rfl
  · rfl

/-- The entries of a reply are those it had when the daemon answered. -/
theorem filterMap_entryAt_append {log : List LoggedEvent} {reply : List Nat}
    (h : ∀ i ∈ reply, i < log.length) (x : LoggedEvent) :
    reply.filterMap (entryAt (log ++ [x])) = reply.filterMap (entryAt log) :=
  List.filterMap_congr fun i hi => entryAt_append (h i hi) x

/-! ## The simulation -/

section Simulation

variable [Unicode]

/-- The running tick has changed nothing but the guard. -/
structure Untouched (p : PollState) (worker : Worker) (table : RoutingObservations) : Prop where
  worker : worker = { p.worker with inFlight := true }
  table : table = p.table

/-- Where the system stands when the ticks that have returned lead to `p`. -/
def Matches (fetchLimit : Nat) (p : PollState) (s : PollSys) : Prop :=
  p.worker.inFlight = false ∧
    match s.stage with
    | .idle => s.rest = p
    | .calling _ => Untouched p s.worker s.table
    | .answered reply => Untouched p s.worker s.table ∧ ∀ i ∈ reply, i < s.log.length
    | .appending _ _ _ false => Untouched p s.worker s.table
    | .appending reply inserted maxAt true =>
        (∀ i ∈ reply, i < s.log.length) ∧ s.worker.inFlight = true
          ∧ p.tick fetchLimit (reply.filterMap (entryAt s.log))
            = some ((s.finish inserted maxAt).rest, (tickFinish s.worker inserted maxAt).2)

theorem PollSys.Ready.matches {s : PollSys} (h : s.Ready) (fetchLimit : Nat) :
    Matches fetchLimit s.rest s := by
  refine ⟨h.2, ?_⟩
  rw [h.1]

/-- The guard is up exactly while a tick is running. -/
theorem Matches.inFlight_iff {fetchLimit : Nat} {p : PollState} {s : PollSys}
    (h : Matches fetchLimit p s) : s.worker.inFlight = true ↔ s.stage ≠ .idle := by
  obtain ⟨hfree, h⟩ := h
  cases hs : s.stage with
  | idle =>
      rw [hs] at h
      have hw : s.worker = p.worker := congrArg PollState.worker h
      simp [hw, hfree]
  | calling req =>
      rw [hs] at h
      simp [h.worker]
  | answered reply =>
      rw [hs] at h
      simp [h.1.worker]
  | appending reply inserted maxAt ok =>
      cases ok with
      | false =>
          rw [hs] at h
          simp [h.worker]
      | true =>
          rw [hs] at h
          simp [h.2.1]

theorem Matches.append {fetchLimit : Nat} {p : PollState} {s : PollSys}
    (h : Matches fetchLimit p s) (e : LoggedEvent) :
    Matches fetchLimit p { s with log := s.log ++ [e] } := by
  obtain ⟨hfree, h⟩ := h
  have hlen : ∀ reply : List Nat, (∀ i ∈ reply, i < s.log.length) →
      ∀ i ∈ reply, i < (s.log ++ [e]).length := by
    intro reply hin i hi
    rw [List.length_append]
    exact Nat.lt_add_right _ (hin i hi)
  refine ⟨hfree, ?_⟩
  cases hs : s.stage with
  | idle => rw [hs] at h; exact h
  | calling req => rw [hs] at h; exact ⟨h.worker, h.table⟩
  | answered reply =>
      rw [hs] at h
      exact ⟨⟨h.1.worker, h.1.table⟩, hlen reply h.2⟩
  | appending reply inserted maxAt ok =>
      cases ok with
      | false => rw [hs] at h; exact ⟨h.worker, h.table⟩
      | true =>
          rw [hs] at h
          obtain ⟨hin, hbusy, htick⟩ := h
          refine ⟨hlen reply hin, hbusy, ?_⟩
          rw [filterMap_entryAt_append hin]
          exact htick

/-- Where the running tick has changed nothing, its end by a failure is as if it had not
been called. -/
theorem Untouched.reject {fetchLimit : Nat} {p : PollState} {s : PollSys}
    (h : Untouched p s.worker s.table)
    (hfree : p.worker.inFlight = false) : Matches fetchLimit p s.reject := by
  refine ⟨hfree, ?_⟩
  obtain ⟨⟨watermarkMs, inFlight⟩, table⟩ := p
  obtain rfl : inFlight = false := hfree
  simp [PollSys.reject, PollSys.rest, tickCatch, h.worker, h.table]

/-- One step of the system: the ticks that have returned lead to where they led, or one
tick further. -/
theorem Matches.step {D : Daemon} {fetchLimit : Nat} {p : PollState} {s t : PollSys}
    {ev : PollEvent} (h : Matches fetchLimit p s) (hst : s.step D fetchLimit ev = some t) :
    (s.returned t = none ∧ Matches fetchLimit p t)
      ∨ ∃ events q r, s.returned t = some events ∧ p.tick fetchLimit events = some (q, r)
        ∧ Matches fetchLimit q t := by
  have hfree := h.1
  have hbusy := h.inFlight_iff
  cases PollSys.trans_of_step hst with
  | append e hacc =>
      refine Or.inl ⟨?_, h.append e⟩
      by_cases hidle : s.stage = .idle
      · exact PollSys.returned_of_noReply (by rw [hidle]; rfl)
      · exact PollSys.returned_of_busy hidle
  | overlap hup => exact Or.inl ⟨PollSys.returned_of_busy (hbusy.mp hup), h⟩
  | start hdown =>
      have hidle : s.stage = .idle := by
        by_contra hne
        rw [hbusy.mpr hne] at hdown
        cases hdown
      obtain ⟨-, h⟩ := h
      rw [hidle] at h
      have hrest : s.rest = p := h
      refine Or.inl ⟨PollSys.returned_of_busy (by simp), hfree, ?_, ?_⟩
      · rw [← hrest]; rfl
      · exact congrArg PollState.table hrest
  | answer req reply hstage hin hans =>
      obtain ⟨-, h⟩ := h
      rw [hstage] at h
      exact Or.inl ⟨PollSys.returned_of_busy (by simp), hfree, ⟨h.worker, h.table⟩, hin⟩
  | callFails hstage =>
      obtain ⟨-, h⟩ := h
      refine Or.inl ⟨PollSys.returned_reject s, ?_⟩
      rcases hstage with ⟨req, hstage⟩ | ⟨reply, hstage⟩
      · rw [hstage] at h
        exact h.reject hfree
      · rw [hstage] at h
        exact h.1.reject hfree
  | deliverNone dbOk reply hstage hnone =>
      obtain ⟨-, h⟩ := h
      rw [hstage] at h
      have hwm : s.worker.watermarkMs = p.worker.watermarkMs := by rw [h.1.worker]
      have hrows := (scan_reply_eq_nil (w := p.worker.watermarkMs)).mpr hnone
      have hmax : (scan p.worker.watermarkMs (reply.filterMap (entryAt s.log))).maxAt
          = s.worker.watermarkMs.getD (-1) := by
        rw [hwm]
        exact scan_maxAt_of_none (by rw [filter_filterMap_entryAt, hnone]; rfl)
      refine Or.inr ⟨_, (s.finish 0 (s.worker.watermarkMs.getD (-1))).rest,
        (tickFinish s.worker 0 (s.worker.watermarkMs.getD (-1))).2,
        PollSys.returned_finish (by rw [hstage]; rfl) _ _, ?_, rfl, rfl⟩
      rw [PollState.tick_eq fetchLimit hfree, hrows, hmax, ← h.1.worker, ← h.1.table]
      rfl
  | deliverRows reply table hstage hsome happ =>
      obtain ⟨-, h⟩ := h
      rw [hstage] at h
      have hwm : s.worker.watermarkMs = p.worker.watermarkMs := by rw [h.1.worker]
      rw [hwm, h.1.table] at happ
      refine Or.inl ⟨PollSys.returned_of_busy (by simp), hfree, h.2, ?_, ?_⟩
      · rw [h.1.worker]
      · rw [PollState.tick_eq fetchLimit hfree, happ, ← h.1.worker, hwm]
        rfl
  | deliverFails dbOk reply hstage hsome =>
      obtain ⟨-, h⟩ := h
      rw [hstage] at h
      exact Or.inl ⟨PollSys.returned_of_busy (by simp), hfree, h.1.worker, h.1.table⟩
  | resumeOk reply inserted maxAt hstage =>
      obtain ⟨-, h⟩ := h
      rw [hstage] at h
      exact Or.inr ⟨_, _, _, PollSys.returned_finish (by rw [hstage]; rfl) _ _, h.2.2,
        rfl, rfl⟩
  | resumeFails reply inserted maxAt hstage =>
      obtain ⟨-, h⟩ := h
      rw [hstage] at h
      exact Or.inl ⟨PollSys.returned_reject s, h.reject hfree⟩

/-- A run of the system: the ticks that return in it lead from `p` to where it ends. -/
theorem Matches.run {D : Daemon} {fetchLimit : Nat} {log : List LoggedEvent} :
    ∀ {es : List PollEvent} {p : PollState} {s t : PollSys}, Matches fetchLimit p s →
      (auditPoll D fetchLimit log).runFrom s es = some t →
      ∃ q, p.ticks fetchLimit (returnedReplies D fetchLimit s es) = some q
        ∧ Matches fetchLimit q t
  | [], p, s, t, h, hrun => by
      obtain rfl := Option.some.inj hrun
      exact ⟨p, rfl, h⟩
  | ev :: es, p, s, t, h, hrun => by
      obtain ⟨u, hu, hrest⟩ := Option.bind_eq_some_iff.mp hrun
      have hstep : s.step D fetchLimit ev = some u := hu
      simp only [returnedReplies, hstep]
      rcases h.step hstep with ⟨hnone, hu'⟩ | ⟨events, q, r, hsome, htick, hu'⟩
      · rw [hnone]
        exact hu'.run hrest
      · rw [hsome]
        obtain ⟨q', hq', ht⟩ := hu'.run hrest
        exact ⟨q', (PollState.ticks_cons fetchLimit htick _).trans hq', ht⟩

/-! ## No trace -/

/-- A step in which a tick rejects ends it. -/
theorem PollSys.idle_of_rejected {D : Daemon} {fetchLimit : Nat} {s t : PollSys} {ev : PollEvent}
    (hst : s.step D fetchLimit ev = some t) (hout : t.outcomes = s.outcomes ++ [.rejected]) :
    t.stage = .idle := by
  cases PollSys.trans_of_step hst with
  | append e hacc => exact absurd hout (by simp)
  | overlap hup => exact absurd hout (by simp)
  | start hdown => exact absurd hout (by simp)
  | answer req reply hstage hin hans => exact absurd hout (by simp)
  | callFails hstage => rfl
  | deliverNone dbOk reply hstage hnone => rfl
  | deliverRows reply table hstage hsome happ => exact absurd hout (by simp)
  | deliverFails dbOk reply hstage hsome => exact absurd hout (by simp)
  | resumeOk reply inserted maxAt hstage => rfl
  | resumeFails reply inserted maxAt hstage => rfl

/-- While one tick is running, none returns. -/
theorem returnedReplies_of_busy {D : Daemon} {fetchLimit : Nat} {log : List LoggedEvent} :
    ∀ {es : List PollEvent} {s : PollSys},
      (∀ ds v, ds <+: es → (auditPoll D fetchLimit log).runFrom s ds = some v →
        v.stage ≠ .idle) →
      returnedReplies D fetchLimit s es = []
  | [], _, _ => rfl
  | ev :: es, s, h => by
      unfold returnedReplies
      cases hst : s.step D fetchLimit ev with
      | none => rfl
      | some t =>
          have hrun : ∀ ds, (auditPoll D fetchLimit log).runFrom s (ev :: ds)
              = (auditPoll D fetchLimit log).runFrom t ds := by
            intro ds
            have hst' : (auditPoll D fetchLimit log).step s ev = some t := hst
            rw [Machine.runFrom, hst']
            rfl
          have hbusy : t.stage ≠ .idle :=
            h [ev] t (List.cons_prefix_cons.mpr ⟨rfl, List.nil_prefix⟩) (hrun [])
          have hrest : returnedReplies D fetchLimit t es = [] :=
            @returnedReplies_of_busy _ _ log _ _ fun ds v hp hv =>
              h (ev :: ds) v (List.cons_prefix_cons.mpr ⟨rfl, hp⟩) ((hrun ds).trans hv)
          simp only [PollSys.returned_of_busy hbusy, hrest]
          rfl

/-- What failed and overlapping ticks leave behind: nothing. Each clause is about runs from
any state in which no tick is running, with whatever worker and table. -/
structure NoTrace (D : Daemon) (fetchLimit : Nat) (log : List LoggedEvent) : Prop where
  /-- When all ticks have settled, the worker and the table are those that the ticks that
  returned lead to, one after the other, with the replies they got. -/
  sequential : ∀ es s t, s.Ready → (auditPoll D fetchLimit log).runFrom s es = some t →
    t.stage = .idle →
      s.rest.ticks fetchLimit (returnedReplies D fetchLimit s es) = some t.rest
  /-- A tick that rejects leaves them as they were at its call. -/
  failed : ∀ s s₁ es u ev t, s.Ready →
    (auditPoll D fetchLimit log).step s .invoke = some s₁ →
    (auditPoll D fetchLimit log).runFrom s₁ es = some u →
    (∀ ds v, ds <+: es → (auditPoll D fetchLimit log).runFrom s₁ ds = some v →
      v.stage ≠ .idle) →
    (auditPoll D fetchLimit log).step u ev = some t →
    t.outcomes = u.outcomes ++ [.rejected] → t.rest = s.rest
  /-- A call while a tick is running returns 0, and that is all it does. -/
  overlapping : ∀ es s t, s.Ready → (auditPoll D fetchLimit log).runFrom s es = some t →
    t.stage ≠ .idle →
      (auditPoll D fetchLimit log).step t .invoke
        = some { t with outcomes := t.outcomes
            ++ [.resolved { inserted := 0, watermark := t.worker.watermarkMs }] }
  /-- A call while none is running sends its request. -/
  accepts : ∀ es s t, s.Ready → (auditPoll D fetchLimit log).runFrom s es = some t →
    t.stage = .idle →
      ∃ u req, (auditPoll D fetchLimit log).step t .invoke = some u ∧ u.stage = .calling req

theorem Matches.rest_of_idle {fetchLimit : Nat} {p : PollState} {s : PollSys}
    (h : Matches fetchLimit p s) (hidle : s.stage = .idle) : s.rest = p := by
  obtain ⟨-, h⟩ := h
  rw [hidle] at h
  exact h

theorem rest_of_failed {D : Daemon} {fetchLimit : Nat} {log : List LoggedEvent}
    {s s₁ u t : PollSys} {es : List PollEvent} {ev : PollEvent} (hs : s.Ready)
    (hcall : (auditPoll D fetchLimit log).step s .invoke = some s₁)
    (hrun : (auditPoll D fetchLimit log).runFrom s₁ es = some u)
    (hbusy : ∀ ds v, ds <+: es → (auditPoll D fetchLimit log).runFrom s₁ ds = some v →
      v.stage ≠ .idle)
    (hst : (auditPoll D fetchLimit log).step u ev = some t)
    (hout : t.outcomes = u.outcomes ++ [.rejected]) : t.rest = s.rest := by
  have hs₁ : Matches fetchLimit s.rest s₁ := by
    have hstep : s.step D fetchLimit .invoke = some s₁ := hcall
    rcases (hs.matches fetchLimit).step hstep with ⟨-, h⟩ | ⟨events, q, r, hsome, -, -⟩
    · exact h
    · rw [PollSys.returned_of_busy (hbusy [] s₁ List.nil_prefix rfl)] at hsome
      cases hsome
  have hu : Matches fetchLimit s.rest u := by
    obtain ⟨q, hq, hu⟩ := hs₁.run hrun
    rw [returnedReplies_of_busy hbusy] at hq
    exact Option.some.inj hq ▸ hu
  have hstep : u.step D fetchLimit ev = some t := hst
  have hidle : t.stage = .idle := PollSys.idle_of_rejected hstep hout
  rcases hu.step hstep with ⟨-, ht⟩ | ⟨events, q, r, hsome, -, -⟩
  · exact ht.rest_of_idle hidle
  · have hnone : u.returned t = none := by
      rw [PollSys.returned, if_neg fun h => by simp [hout, TickOutcome.isResolved] at h]
    rw [hnone] at hsome
    cases hsome

/-- **Failed and overlapping ticks leave no trace.** -/
theorem noTrace (D : Daemon) (fetchLimit : Nat) (log : List LoggedEvent) :
    NoTrace D fetchLimit log where
  sequential es s t hs hrun hidle := by
    obtain ⟨q, hq, ht⟩ := (hs.matches fetchLimit).run hrun
    rw [hq, ht.rest_of_idle hidle]
  failed s s₁ es u ev t hs hcall hrun hbusy hst hout :=
    rest_of_failed hs hcall hrun hbusy hst hout
  overlapping es s t hs hrun hbusy := by
    obtain ⟨q, -, ht⟩ := (hs.matches fetchLimit).run hrun
    have hup : t.worker.inFlight = true := ht.inFlight_iff.mpr hbusy
    simp [auditPoll, PollSys.step, tickStart, hup]
  accepts es s t hs hrun hidle := by
    obtain ⟨q, -, ht⟩ := (hs.matches fetchLimit).run hrun
    have hdown : t.worker.inFlight = false := by
      cases hw : t.worker.inFlight with
      | false => rfl
      | true => exact absurd hidle (ht.inFlight_iff.mp hw)
    simp [auditPoll, PollSys.step, tickStart, hdown]

end Simulation

end GatewayConsole
