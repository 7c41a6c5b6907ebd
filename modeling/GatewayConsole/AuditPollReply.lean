import GatewayConsole.AuditPollSequential

/-!
# What a tick makes of a reply

The loop of `tick` drops an event without an orch address and one whose time is at most 0.
A timestamp beyond the range of `Date` decodes to `NaN`, which is not at most 0: the event
stays, its row is bound with NULL, and the insert of the whole batch fails. `Survives` is
what a tick on any reply is meant to do, and `survives_iff` says which replies it does that
with.
-/

namespace GatewayConsole

/-! ## The events that have a row -/

/-- The event has a timestamp that is no valid date. -/
def LoggedEvent.InvalidDate (e : LoggedEvent) : Prop :=
  ∃ t, e.at = some t ∧ fromTimestamp t.1 = .nan

/-- The event has an orch address and a valid millisecond timestamp after 0. -/
def LoggedEvent.isDated (e : LoggedEvent) : Bool :=
  e.ethAddress ≠ "" &&
    match e.at.map fun t => fromTimestamp t.1 with
    | some (.int ms) => decide (0 < ms)
    | some .nan | none => false

theorem isKept_mapAuditEvent {e : LoggedEvent} (h : e.ethAddress ≠ "" → ¬e.InvalidDate) :
    isKept (mapAuditEvent e) = e.isDated := by
  by_cases hempty : e.ethAddress = ""
  · simp [isKept, lacksOrch, mapAuditEvent, LoggedEvent.isDated, hempty]
  cases hat : e.at with
  | none => simp [isKept, lacksOrch, mapAuditEvent, LoggedEvent.isDated, hempty, hat, Num.le]
  | some t =>
      cases ht : fromTimestamp t.1 with
      | nan => exact absurd ⟨t, hat, ht⟩ (h hempty)
      | int ms =>
          simp [isKept, lacksOrch, mapAuditEvent, LoggedEvent.isDated, hempty, hat, ht, Num.le,
            ← decide_not]

/-- An event with an orch address and an invalid date survives both `continue`s. -/
theorem isKept_of_invalidDate {e : LoggedEvent} (haddr : e.ethAddress ≠ "")
    (h : e.InvalidDate) :
    isKept (mapAuditEvent e) = true ∧ (mapAuditEvent e).occurredAt = .nan := by
  obtain ⟨t, hat, ht⟩ := h
  have hnan : (mapAuditEvent e).occurredAt = .nan := by
    simp only [mapAuditEvent, hat, ht]
  refine ⟨?_, hnan⟩
  rw [isKept, hnan]
  simp [lacksOrch, mapAuditEvent, haddr]

/-! ## The tick -/

section Reply

variable [Unicode]

/-- The row is made from the event. -/
structure RowOf (row : RoutingObservationRow) (e : LoggedEvent) : Prop where
  observedAt : (e.at.map fun t => fromTimestamp t.1) = some (.int row.observedAt)
  orchAddress : row.orchAddress = toLowerCase e.ethAddress
  nullable : row.capability = none ∧ row.offering = none
    ∧ row.signatureStatus = none ∧ row.freshnessStatus = none

/-- The tick on this reply returns, having inserted one row for each event with an orch
address and a valid time after 0, in the order of the reply, and nothing else. -/
def Survives (fetchLimit : Nat) (p : PollState) (reply : List LoggedEvent) : Prop :=
  ∃ q result added,
    p.tick fetchLimit (reply.map mapAuditEvent) = some (q, result)
      ∧ q.table.rows = p.table.rows ++ added
      ∧ List.Forall₂ RowOf added (reply.filter LoggedEvent.isDated)
      ∧ result.inserted = added.length

/-- A tick that returns has inserted the observations of the kept events. -/
theorem PollState.tick_added {fetchLimit : Nat} {p q : PollState} {r : TickResult}
    {events : List ResolverAuditEntry} (hfree : p.worker.inFlight = false)
    (h : p.tick fetchLimit events = some (q, r)) :
    ∃ added, q.table.rows = p.table.rows ++ added
      ∧ List.Forall₂ RoutingObservationRow.Holds added
        ((events.filter isKept).map eventToObservation)
      ∧ r.inserted = added.length := by
  rw [tick_eq fetchLimit hfree] at h
  obtain ⟨table, happ, heq⟩ := Option.map_eq_some_iff.mp h
  obtain ⟨rfl, rfl⟩ := Prod.mk.inj heq
  obtain ⟨added, hadded, hholds⟩ := appendBatch_rows happ
  refine ⟨added, hadded, ?_, ?_⟩
  · rw [← scan_rows]
    exact hholds
  · exact hholds.length_eq.symm

theorem rowOf_of_holds {row : RoutingObservationRow} {e : LoggedEvent}
    (hdated : e.isDated = true) (h : row.Holds (eventToObservation (mapAuditEvent e))) :
    RowOf row e := by
  have htime : (mapAuditEvent e).occurredAt = .int row.observedAt := h.observedAt
  have haddr : row.orchAddress = toLowerCase ((mapAuditEvent e).orchAddress.getD "") :=
    h.orchAddress
  simp only [LoggedEvent.isDated, Bool.and_eq_true, decide_eq_true_eq] at hdated
  obtain ⟨hne, hdate⟩ := hdated
  refine ⟨?_, ?_, h.nullable⟩
  · cases hat : e.at with
    | none => simp [hat] at hdate
    | some t =>
        simp only [mapAuditEvent, hat] at htime
        simp [htime]
  · simpa [mapAuditEvent, hne] using haddr

theorem forall₂_rowOf :
    ∀ {added : List RoutingObservationRow} {events : List LoggedEvent},
      (∀ e ∈ events, e.isDated = true) →
      List.Forall₂ (fun row e => row.Holds (eventToObservation (mapAuditEvent e))) added events →
      List.Forall₂ RowOf added events
  | _, _, _, .nil => .nil
  | _, _, h, .cons hrow hrest =>
      .cons (rowOf_of_holds (h _ List.mem_cons_self) hrow)
        (forall₂_rowOf (fun e he => h e (List.mem_cons_of_mem _ he)) hrest)

/-- An event with an orch address and an invalid date makes the tick reject. -/
theorem not_survives_of_invalidDate {fetchLimit : Nat} {p : PollState}
    (hfree : p.worker.inFlight = false) {reply : List LoggedEvent} {e : LoggedEvent}
    (he : e ∈ reply) (haddr : e.ethAddress ≠ "") (hinvalid : e.InvalidDate) :
    ¬Survives fetchLimit p reply := by
  rintro ⟨q, result, added, htick, -⟩
  rw [PollState.tick_eq fetchLimit hfree] at htick
  obtain ⟨table, happ, -⟩ := Option.map_eq_some_iff.mp htick
  obtain ⟨hkept, hnan⟩ := isKept_of_invalidDate haddr hinvalid
  have hmem : eventToObservation (mapAuditEvent e)
      ∈ (scan p.worker.watermarkMs (reply.map mapAuditEvent)).rows := by
    rw [scan_rows]
    exact List.mem_map_of_mem (List.mem_filter.mpr ⟨List.mem_map_of_mem he, hkept⟩)
  obtain ⟨ms, hms⟩ := appendBatch_times happ _ hmem
  rw [show (eventToObservation (mapAuditEvent e)).observedAt = .nan from hnan] at hms
  cases hms

/-- **A tick survives a reply exactly when no event with an orch address has an invalid
date.** -/
theorem survives_iff (fetchLimit : Nat) (watermarkMs : Option Int) (table : RoutingObservations)
    (reply : List LoggedEvent) :
    Survives fetchLimit { worker := { watermarkMs }, table } reply
      ↔ ∀ e ∈ reply, e.ethAddress ≠ "" → ¬e.InvalidDate := by
  constructor
  · intro h e he haddr hinvalid
    exact not_survives_of_invalidDate rfl he haddr hinvalid h
  · intro h
    have hfilter : (reply.map mapAuditEvent).filter isKept
        = (reply.filter LoggedEvent.isDated).map mapAuditEvent := by
      rw [List.filter_map]
      exact congrArg (List.map mapAuditEvent)
        (List.filter_congr fun e he => isKept_mapAuditEvent (h e he))
    have htimes : ∀ r ∈ (scan watermarkMs (reply.map mapAuditEvent)).rows,
        ∃ ms, r.observedAt = .int ms := by
      rw [scan_rows, hfilter]
      intro r hr
      obtain ⟨entry, hentry, rfl⟩ := List.mem_map.mp hr
      obtain ⟨e, he, rfl⟩ := List.mem_map.mp hentry
      obtain ⟨he, hdated⟩ := List.mem_filter.mp he
      cases ht : (mapAuditEvent e).occurredAt with
      | int ms => exact ⟨ms, ht⟩
      | nan =>
          simp only [LoggedEvent.isDated, Bool.and_eq_true, decide_eq_true_eq] at hdated
          cases hat : e.at with
          | none => simp [mapAuditEvent, hat] at ht
          | some t =>
              simp only [mapAuditEvent, hat] at ht
              exact absurd ⟨t, hat, ht⟩ (h e he hdated.1)
    obtain ⟨table', happ⟩ := appendBatch_isSome table htimes
    have htick := PollState.tick_eq fetchLimit (p := ⟨⟨watermarkMs, false⟩, table⟩) rfl
      (reply.map mapAuditEvent)
    rw [happ, Option.map_some] at htick
    obtain ⟨added, hadded, hholds, hcount⟩ := PollState.tick_added rfl htick
    refine ⟨_, _, added, htick, hadded, ?_, hcount⟩
    rw [hfilter, List.map_map, List.forall₂_map_right_iff] at hholds
    exact forall₂_rowOf (fun e he => (List.mem_filter.mp he).2) hholds

end Reply

/-! ## One second too late -/

/-- One second after the last valid date. -/
def beyondDate : LoggedEvent where
  «at» := some ⟨{ seconds := 8640000000001, nanos := 0 }, by decide⟩
  ethAddress := "0x00000000000000000000000000000000000000a1"
  kind := "refresh"
  mode := 1
  detail := ""

/-- The first poll of a console whose daemon has logged it. -/
theorem not_survives_beyondDate : ¬@Survives asciiUnicode 1000 {} [beyondDate] :=
  @not_survives_of_invalidDate asciiUnicode 1000 {} rfl [beyondDate] beyondDate
    (List.mem_singleton.mpr rfl) (by decide) ⟨_, rfl, by decide +kernel⟩

end GatewayConsole
