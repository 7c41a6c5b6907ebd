import Mathlib.Data.List.Sort
import Mathlib.Data.List.TakeWhile
import GatewayConsole.Js
import GatewayConsole.Newest

/-!
# The two tables of state.db

`repo/schema.ts` with the repositories over it. A table is its rows in
insertion order and the next `AUTOINCREMENT` id; ids start at 1 and rows are
never deleted.

`appendBatch` is one multi-row INSERT: `NaN` is bound as NULL, so a row whose
`observedAt` is `NaN` violates a NOT NULL column, and then nothing is inserted.
`listRecentForOrch` orders by `observed_at` alone, so it takes the arrangement
of ties as a parameter.
-/

namespace GatewayConsole

/-! ## routing_observations -/

structure RoutingObservationInsert where
  observedAt : Num
  orchAddress : String
  capability : Option String
  offering : Option String
  signatureStatus : Option String
  freshnessStatus : Option String
  detailsJson : Option String
deriving Repr, DecidableEq

structure RoutingObservationRow where
  id : Nat
  observedAt : Int
  orchAddress : String
  capability : Option String
  offering : Option String
  signatureStatus : Option String
  freshnessStatus : Option String
  detailsJson : Option String
deriving Repr, DecidableEq

structure RoutingObservations where
  rows : List RoutingObservationRow := []
  nextId : Nat := 1
deriving Repr, DecidableEq

/-- The row a value is stored as, unless NULL is bound to a NOT NULL column. -/
def bindRow (id : Nat) (r : RoutingObservationInsert) : Option RoutingObservationRow :=
  match r.observedAt with
  | .nan => none
  | .int observedAt =>
      some
        { id, observedAt
          orchAddress := r.orchAddress
          capability := r.capability
          offering := r.offering
          signatureStatus := r.signatureStatus
          freshnessStatus := r.freshnessStatus
          detailsJson := r.detailsJson }

/-- One row of an INSERT; `none` is a constraint violation. -/
def RoutingObservations.insert (t : RoutingObservations) (r : RoutingObservationInsert) :
    Option RoutingObservations :=
  (bindRow t.nextId r).map fun row => { rows := t.rows ++ [row], nextId := t.nextId + 1 }

/-- All rows of the statement, or none of them. -/
def appendBatch (t : RoutingObservations) (rows : List RoutingObservationInsert) :
    Option RoutingObservations :=
  rows.foldlM RoutingObservations.insert t

/-- `row` holds the values of `r`. -/
def RoutingObservationRow.Holds (row : RoutingObservationRow) (r : RoutingObservationInsert) :
    Prop :=
  bindRow row.id r = some row

theorem bindRow_holds {id : Nat} {r : RoutingObservationInsert} {row : RoutingObservationRow}
    (h : bindRow id r = some row) : row.Holds r := by
  have hid : row.id = id := by
    unfold bindRow at h
    split at h
    · cases h
    · exact Option.some.inj h ▸ rfl
  rw [RoutingObservationRow.Holds, hid]
  exact h

theorem RoutingObservationRow.Holds.observedAt {row : RoutingObservationRow}
    {r : RoutingObservationInsert} (h : row.Holds r) : r.observedAt = .int row.observedAt := by
  unfold Holds bindRow at h
  split at h
  · cases h
  · rename_i heq
    rw [heq, ← Option.some.inj h]

theorem RoutingObservationRow.Holds.orchAddress {row : RoutingObservationRow}
    {r : RoutingObservationInsert} (h : row.Holds r) : row.orchAddress = r.orchAddress := by
  unfold Holds bindRow at h
  split at h
  · cases h
  · rw [← Option.some.inj h]

theorem RoutingObservationRow.Holds.nullable {row : RoutingObservationRow}
    {r : RoutingObservationInsert} (h : row.Holds r) :
    row.capability = r.capability ∧ row.offering = r.offering
      ∧ row.signatureStatus = r.signatureStatus ∧ row.freshnessStatus = r.freshnessStatus := by
  unfold Holds bindRow at h
  split at h
  · cases h
  · rw [← Option.some.inj h]
    exact ⟨rfl, rfl, rfl, rfl⟩

/-- A successful insert appends one row for each value, in order. -/
theorem appendBatch_rows :
    ∀ {rows : List RoutingObservationInsert} {t t' : RoutingObservations},
      appendBatch t rows = some t' →
      ∃ added, t'.rows = t.rows ++ added
        ∧ List.Forall₂ RoutingObservationRow.Holds added rows
  | [], t, t', h => by
      obtain rfl := Option.some.inj h
      exact ⟨[], by simp, .nil⟩
  | r :: rows, t, t', h => by
      obtain ⟨u, hu, hrest⟩ := Option.bind_eq_some_iff.mp h
      obtain ⟨row, hrow, rfl⟩ := Option.map_eq_some_iff.mp hu
      obtain ⟨added, hadd, hholds⟩ := appendBatch_rows hrest
      refine ⟨row :: added, by rw [hadd]; simp, .cons ?_ hholds⟩
      exact bindRow_holds hrow

/-- An insert fails only over a time that is `NaN`. -/
theorem appendBatch_isSome :
    ∀ {rows : List RoutingObservationInsert} (t : RoutingObservations),
      (∀ r ∈ rows, ∃ ms, r.observedAt = .int ms) → ∃ t', appendBatch t rows = some t'
  | [], t, _ => ⟨t, rfl⟩
  | r :: rows, t, h => by
      obtain ⟨ms, hms⟩ := h r (List.mem_cons_self ..)
      have hins : ∃ u, t.insert r = some u := by
        simp [RoutingObservations.insert, bindRow, hms]
      obtain ⟨u, hu⟩ := hins
      obtain ⟨t', ht'⟩ := appendBatch_isSome u fun q hq => h q (List.mem_cons_of_mem _ hq)
      exact ⟨t', by simpa [appendBatch, List.foldlM_cons, hu] using ht'⟩

/-- A successful insert has bound no time that is `NaN`. -/
theorem appendBatch_times :
    ∀ {rows : List RoutingObservationInsert} {t t' : RoutingObservations},
      appendBatch t rows = some t' → ∀ r ∈ rows, ∃ ms, r.observedAt = .int ms
  | [], _, _, _, _, hr => by cases hr
  | q :: rows, t, t', h, r, hr => by
      obtain ⟨u, hu, hrest⟩ := Option.bind_eq_some_iff.mp h
      rcases List.mem_cons.mp hr with rfl | hr
      · obtain ⟨row, hrow, -⟩ := Option.map_eq_some_iff.mp hu
        exact ⟨row.observedAt, (bindRow_holds hrow).observedAt⟩
      · exact appendBatch_times hrest r hr

/-- The order of `listRecentForOrch`. -/
abbrev ObservedOrder := Ranking RoutingObservationRow (·.observedAt)

/-- The rows of one key, newest first. -/
def listRecentForOrch (order : ObservedOrder) (t : RoutingObservations)
    (orchAddress : String) (limit : Option Nat := none) : List RoutingObservationRow :=
  (order.sort (t.rows.filter fun r => r.orchAddress = orchAddress)).take (limit.getD 200)

theorem listRecentForOrch_isNewest (order : ObservedOrder) (t : RoutingObservations)
    (orchAddress : String) (limit : Option Nat) :
    IsNewest (·.observedAt) (limit.getD 200)
      (t.rows.filter fun r => r.orchAddress = orchAddress)
      (listRecentForOrch order t orchAddress limit) :=
  order.isNewest _ _

/-! ## audit_events -/

structure AuditEventInsert where
  actor : String
  action : String
  target : Option String
  ok : Int
  message : Option String
deriving Repr, DecidableEq

structure AuditEventRow where
  id : Nat
  occurredAt : Int
  actor : String
  action : String
  target : Option String
  ok : Int
  message : Option String
deriving Repr, DecidableEq

structure AuditEvents where
  rows : List AuditEventRow := []
  nextId : Nat := 1
deriving Repr, DecidableEq

/-- `auditEventsRepo.append`, at a time when `unixepoch()` is `now`. -/
def AuditEvents.append (t : AuditEvents) (now : Int) (input : AuditEventInsert) : AuditEvents where
  rows := t.rows ++
    [{ id := t.nextId, occurredAt := now * 1000
       actor := input.actor, action := input.action, target := input.target
       ok := input.ok, message := input.message }]
  nextId := t.nextId + 1

structure ListRecentOptions where
  limit : Option Nat := none
  before : Option Nat := none
deriving Repr, DecidableEq

/-- `orderBy(desc(auditEvents.id))`. -/
def byIdDesc (rows : List AuditEventRow) : List AuditEventRow :=
  rows.insertionSort fun a b => b.id ≤ a.id

/-- `auditEventsRepo.listRecent`. -/
def AuditEvents.listRecent (t : AuditEvents) (options : ListRecentOptions := {}) :
    List AuditEventRow :=
  let limit := options.limit.getD 50
  match options.before with
  | some before => (byIdDesc (t.rows.filter fun r => r.id < before)).take limit
  | none => (byIdDesc t.rows).take limit

theorem byIdDesc_eq_reverse :
    ∀ {rows : List AuditEventRow}, (rows.Pairwise fun a b => a.id < b.id) →
      byIdDesc rows = rows.reverse
  | [], _ => rfl
  | r :: rows, h => by
      obtain ⟨hr, hrows⟩ := List.pairwise_cons.mp h
      have hafter : ∀ x ∈ rows.reverse, ¬x.id ≤ r.id := fun x hx =>
        Nat.not_le.mpr (hr x (List.mem_reverse.mp hx))
      have ih : rows.insertionSort (fun a b => b.id ≤ a.id) = rows.reverse :=
        byIdDesc_eq_reverse hrows
      rw [byIdDesc, List.insertionSort_cons, ih, List.orderedInsert_eq_take_drop,
        List.takeWhile_eq_self_iff.mpr (by simpa using hafter),
        List.dropWhile_eq_nil_iff.mpr (by simpa using hafter), List.reverse_cons]

end GatewayConsole
