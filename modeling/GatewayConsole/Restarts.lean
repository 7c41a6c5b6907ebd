import Mathlib.Data.List.Flatten
import GatewayConsole.AuditPollDedup

/-!
# The mirror over restarts of the console

`main.ts`: a process runs the migration, listens, starts the worker and runs until a
signal, an error or a crash ends it, and then the next one is started. The table is on
disk and the worker's cursor is in memory, so what one lifetime inserted does not keep
the next from inserting it again.

`Console` is the system over any number of processes. `past` and `front` are not part of
the program: they say which rows of the table each process has inserted. A process works
as the first one does, on the rows behind `front` (`PollSys.Trans.since`), so what holds
of one worker holds of each lifetime. `rows_over_restarts` counts the rows of an event.
-/

namespace GatewayConsole

/-! ## A process -/

/-- A running process, from the moment `main` awaits `listen`. -/
structure Process where
  /-- `main` is past `await server.http.listen`. -/
  listening : Bool := false
  /-- The worker's `timer` is not null. -/
  timer : Bool := false
  shuttingDown : Bool := false
deriving Repr, DecidableEq

/-- `auditPoll.start`. -/
def Process.start (intervalMs : Int) (p : Process) : Process :=
  if p.timer then p
  else if intervalMs ≤ 0 then p
  else { p with timer := true }

/-- `auditPoll.stop`. -/
def Process.stop (p : Process) : Process := { p with timer := false }

/-- `main` from `listen` on. -/
def Process.listened (intervalMs : Int) (p : Process) : Process :=
  { p with listening := true }.start intervalMs

/-- `shutdown` up to `await server.http.close()`. -/
def Process.shutdown (p : Process) : Process :=
  if p.shuttingDown then p else { p.stop with shuttingDown := true }

/-- What one process has done: how long the daemon's log was when it started, whether
its cursor has moved, and which events it has inserted. -/
structure Lifetime where
  logged : Nat
  polled : Bool
  inserted : List Nat
deriving Repr, DecidableEq

structure Console where
  /-- The running process, if there is one. -/
  process : Option Process := some {}
  poll : PollSys
  /-- The lifetimes that are over. -/
  past : List Lifetime := []
  /-- The length of the log when the last process started. -/
  logged : Nat
  /-- The number of rows when the last process started. -/
  front : Nat := 0
deriving Repr, DecidableEq

/-- The last process, as far as it has come. -/
def Console.current (s : Console) : Lifetime where
  logged := s.logged
  polled := s.poll.worker.watermarkMs.isSome
  inserted := s.poll.origin.drop s.front

def Console.lifetimes (s : Console) : List Lifetime := s.past ++ [s.current]

inductive ConsoleEvent where
  /-- The daemon's log grows, the timer fires, or the running tick goes on. -/
  | poll (ev : PollEvent)
  /-- `listen` settles. -/
  | listens (ok : Bool)
  /-- SIGTERM or SIGINT. -/
  | signal
  /-- `server.http.close()` settles, and the process exits with 0 or with 1. -/
  | closes
  /-- The process ends in any other way: the 30 seconds are over, or it is killed. -/
  | ends
  /-- The next process starts. -/
  | boots
deriving Repr, DecidableEq

/-- A process with the worker of `createAuditPollWorker`, on the tables that are there. -/
def Console.boot (s : Console) : Console where
  poll := { s.poll with worker := {}, stage := .idle, outcomes := [] }
  past := s.lifetimes
  logged := s.poll.log.length
  front := s.poll.origin.length

section Runs

variable [Unicode]

/-- One step of the worker of a running process; the log grows in any case. -/
def Console.canPoll (s : Console) : PollEvent → Bool
  | .append _ => true
  | .invoke => s.process.any (·.timer)
  | _ => s.process.isSome

def Console.step (D : Daemon) (fetchLimit : Nat) (intervalMs : Int) (s : Console) :
    ConsoleEvent → Option Console
  | .poll ev =>
      if s.canPoll ev then (s.poll.step D fetchLimit ev).map fun poll => { s with poll }
      else none
  | .listens ok =>
      match s.process with
      | some p =>
          if p.listening then none
          else if ok then some { s with process := some (p.listened intervalMs) }
          else some { s with process := none } -- the `catch` of `main`
      | none => none
  | .signal => s.process.map fun p => { s with process := some p.shutdown }
  | .closes => if s.process.any (·.shuttingDown) then some { s with process := none } else none
  | .ends => if s.process.isSome then some { s with process := none } else none
  | .boots => if s.process.isSome then none else some s.boot

/-- From the first process on an empty database. -/
def console (D : Daemon) (fetchLimit : Nat) (intervalMs : Int) (log : List LoggedEvent) :
    Machine Console ConsoleEvent where
  init := { poll := { log }, logged := log.length }
  step := Console.step D fetchLimit intervalMs

/-! ## What a step can do -/

/-- Only a step of the poll touches the log, the table and the worker, and only a boot
begins a lifetime. -/
inductive Console.Trans (D : Daemon) (fetchLimit : Nat) (s : Console) :
    ConsoleEvent → Console → Prop
  | poll (ev : PollEvent) (poll : PollSys) (h : s.poll.Trans D fetchLimit ev poll) :
      Trans D fetchLimit s (.poll ev) { s with poll }
  | process (ev : ConsoleEvent) (process : Option Process) (hev : ev ≠ .boots) :
      Trans D fetchLimit s ev { s with process }
  | boots : Trans D fetchLimit s .boots s.boot

theorem Console.trans_of_step {D : Daemon} {fetchLimit : Nat} {intervalMs : Int} {s t : Console}
    {ev : ConsoleEvent} (h : s.step D fetchLimit intervalMs ev = some t) :
    s.Trans D fetchLimit ev t := by
  cases ev with
  | poll ev =>
      simp only [step, Option.ite_none_right_eq_some, Option.map_eq_some_iff] at h
      obtain ⟨-, poll, hpoll, rfl⟩ := h
      exact .poll ev poll (PollSys.trans_of_step hpoll)
  | listens ok =>
      simp only [step] at h
      split at h
      · split at h
        · cases h
        · split at h
          · exact Option.some.inj h ▸ .process _ _ (by simp)
          · exact Option.some.inj h ▸ .process _ _ (by simp)
      · cases h
  | signal =>
      obtain ⟨p, -, rfl⟩ := Option.map_eq_some_iff.mp h
      exact .process _ _ (by simp)
  | closes | ends =>
      simp only [step, Option.ite_none_right_eq_some, Option.some.injEq] at h
      exact h.2 ▸ .process _ _ (by simp)
  | boots =>
      simp only [step, Option.ite_none_left_eq_some, Option.some.injEq] at h
      exact h.2 ▸ .boots

/-! ## What a process sees of the table -/

/-- Without the rows that were there before. -/
def PollSys.since (s : PollSys) (front : Nat) : PollSys :=
  { s with
    table := { s.table with rows := s.table.rows.drop front }
    origin := s.origin.drop front }

omit [Unicode] in
/-- An insert appends whatever rows there are. -/
theorem appendBatch_drop {front : Nat} :
    ∀ {rows : List RoutingObservationInsert} {t t' : RoutingObservations},
      appendBatch t rows = some t' → front ≤ t.rows.length →
      appendBatch { t with rows := t.rows.drop front } rows
        = some { t' with rows := t'.rows.drop front }
  | [], t, t', h, _ => by
      obtain rfl := Option.some.inj h
      rfl
  | r :: rows, t, t', h, hle => by
      obtain ⟨u, hu, hrest⟩ := Option.bind_eq_some_iff.mp h
      obtain ⟨row, hrow, rfl⟩ := Option.map_eq_some_iff.mp hu
      have hlen : front ≤ (t.rows ++ [row]).length := by
        rw [List.length_append]
        omega
      have ih := appendBatch_drop hrest hlen
      rw [List.drop_append_of_le_length hle] at ih
      refine Option.bind_eq_some_iff.mpr ⟨_, ?_, ih⟩
      simp only [RoutingObservations.insert, hrow, Option.map_some]

/-- A step does to the rows behind `front` what it does to all of them. -/
theorem PollSys.Trans.since {D : Daemon} {fetchLimit front : Nat} {s t : PollSys}
    {ev : PollEvent} (h : s.Trans D fetchLimit ev t) (hrows : front ≤ s.table.rows.length)
    (horigin : front ≤ s.origin.length) :
    (s.since front).Trans D fetchLimit ev (t.since front) := by
  cases h with
  | append e hacc => exact .append (s := s.since front) e hacc
  | overlap hbusy => exact .overlap (s := s.since front) hbusy
  | start hfree => exact .start (s := s.since front) hfree
  | answer req reply hstage hin hans =>
      exact .answer (s := s.since front) req reply hstage hin hans
  | callFails hstage => exact .callFails (s := s.since front) hstage
  | deliverNone dbOk reply hstage hnone =>
      exact .deliverNone (s := s.since front) dbOk reply hstage hnone
  | deliverRows reply table hstage hsome happ =>
      have htrans := @PollSys.Trans.deliverRows _ D fetchLimit (s.since front) reply _ hstage
        hsome (appendBatch_drop happ hrows)
      rw [show (s.since front).origin = s.origin.drop front from rfl,
        ← List.drop_append_of_le_length horigin] at htrans
      exact htrans
  | deliverFails dbOk reply hstage hsome =>
      exact .deliverFails (s := s.since front) dbOk reply hstage hsome
  | resumeOk reply inserted maxAt hstage =>
      exact .resumeOk (s := s.since front) reply inserted maxAt hstage
  | resumeFails reply inserted maxAt hstage =>
      exact .resumeFails (s := s.since front) reply inserted maxAt hstage

/-- The log and the table only grow. -/
theorem PollSys.Trans.grows {D : Daemon} {fetchLimit : Nat} {s t : PollSys} {ev : PollEvent}
    (h : s.Trans D fetchLimit ev t) :
    s.log <+: t.log ∧ s.table.rows <+: t.table.rows ∧ s.origin <+: t.origin := by
  cases h with
  | append e hacc => exact ⟨List.prefix_append _ _, List.prefix_refl _, List.prefix_refl _⟩
  | deliverRows reply table hstage hsome happ =>
      obtain ⟨added, hadd, -⟩ := appendBatch_rows happ
      exact ⟨List.prefix_refl _, ⟨added, hadd.symm⟩, List.prefix_append _ _⟩
  | overlap | start | answer | callFails | deliverNone | deliverFails | resumeOk | resumeFails =>
      exact ⟨List.prefix_refl _, List.prefix_refl _, List.prefix_refl _⟩

/-- A daemon that promises more takes no other step. -/
theorem PollSys.Trans.mono {D D' : Daemon} {fetchLimit : Nat} {s t : PollSys} {ev : PollEvent}
    (hacc : ∀ log e, D.accepts log e = true → D'.accepts log e = true)
    (hans : ∀ log req reply, D.answers log req reply = true → D'.answers log req reply = true)
    (h : s.Trans D fetchLimit ev t) : s.Trans D' fetchLimit ev t := by
  cases h with
  | append e he => exact .append e (hacc _ _ he)
  | overlap hbusy => exact .overlap hbusy
  | start hfree => exact .start hfree
  | answer req reply hstage hin hreply => exact .answer req reply hstage hin (hans _ _ _ hreply)
  | callFails hstage => exact .callFails hstage
  | deliverNone dbOk reply hstage hnone => exact .deliverNone dbOk reply hstage hnone
  | deliverRows reply table hstage hsome happ => exact .deliverRows reply table hstage hsome happ
  | deliverFails dbOk reply hstage hsome => exact .deliverFails dbOk reply hstage hsome
  | resumeOk reply inserted maxAt hstage => exact .resumeOk reply inserted maxAt hstage
  | resumeFails reply inserted maxAt hstage => exact .resumeFails reply inserted maxAt hstage

/-! ## One lifetime -/

/-- The reply that a suspended tick holds. -/
def Stage.held : Stage → Option (List Nat)
  | .answered reply | .appending reply _ _ _ => some reply
  | .idle | .calling _ => none

/-- What holds of a process on its own rows, if the daemon's log had `logged` events when
it started: no event twice, and once the cursor has moved, none of the kept ones is
missing. The first reply is the one that has them all. -/
structure Life (limit logged : Nat) (v : PollSys) : Prop where
  dedup : DedupInv v
  logged_le : logged ≤ v.log.length
  asked : ∀ req, v.stage = .calling req → req.limit = limit
  held : v.log.length ≤ limit → v.worker.watermarkMs = none →
    ∀ reply, v.stage.held = some reply → ∀ i < logged, i ∈ reply
  fetched : v.log.length ≤ limit → v.worker.watermarkMs ≠ none →
    ∀ i < logged, keptAt v.log i = true → i ∈ v.origin

theorem Life.init (limit : Nat) (log : List LoggedEvent) (nextId : Nat) :
    Life limit log.length { log, table := { nextId } } where
  dedup :=
    { poll := ⟨.nil, rfl, [], rfl, fun _ hi => by cases hi⟩
      reply := trivial
      once := .nil
      behind := ⟨[], rfl, fun _ hi => by cases hi⟩ }
  logged_le := Nat.le_refl _
  asked req h := by cases h
  held _ _ reply h := by cases h
  fetched _ h := absurd rfl h

theorem Life.append {limit logged : Nat} {v : PollSys} (h : Life limit logged v)
    {x : LoggedEvent} (hdedup : DedupInv { v with log := v.log ++ [x] }) :
    Life limit logged { v with log := v.log ++ [x] } := by
  have hlen : (v.log ++ [x]).length = v.log.length + 1 := by simp
  have hle := h.logged_le
  refine ⟨hdedup, ?_, h.asked, fun hlim => ?_, fun hlim hw i hi hk => ?_⟩
  · show logged ≤ (v.log ++ [x]).length
    omega
  · exact h.held (by simp only [hlen] at hlim; omega)
  · refine h.fetched (by simp only [hlen] at hlim; omega) hw i hi ?_
    rw [← hk]
    exact (keptAt_append (by omega) x).symm

/-- Between two ticks there is no request and no reply. -/
theorem Life.idle {limit logged : Nat} {v : PollSys} (hdedup : DedupInv v)
    (hle : logged ≤ v.log.length) (hstage : v.stage = .idle)
    (hfetched : v.log.length ≤ limit → v.worker.watermarkMs ≠ none →
      ∀ i < logged, keptAt v.log i = true → i ∈ v.origin) : Life limit logged v where
  dedup := hdedup
  logged_le := hle
  asked req hs := by rw [hstage] at hs; cases hs
  held _ _ reply hs := by rw [hstage] at hs; cases hs
  fetched := hfetched

/-- The insert of a tick that returns is in the table. -/
theorem Life.resumed {limit logged : Nat} {v : PollSys} (h : Life limit logged v)
    {reply : List Nat} {inserted : Nat} {maxAt : Int}
    (hstage : v.stage = .appending reply inserted maxAt true)
    (hdedup : DedupInv (v.finish inserted maxAt)) :
    Life limit logged (v.finish inserted maxAt) := by
  refine .idle hdedup h.logged_le rfl fun hlim _ i hi hk => ?_
  show i ∈ v.origin
  by_cases hw : v.worker.watermarkMs = none
  · obtain ⟨is, hset, -⟩ := h.dedup.behind
    simp only [PollSys.Settled, hstage] at hset
    rw [hset]
    have hmem := h.held hlim hw reply (by rw [hstage]; rfl) i hi
    exact List.mem_append_right _ (List.mem_filter.mpr ⟨hmem, hk⟩)
  · exact h.fetched hlim hw i hi hk

/-- A daemon that filters by `since` and keeps its log: a request for all events is
answered with all of them, if no more than its limit. -/
def Daemon.keeping : Daemon where
  accepts _ _ := true
  answers log req reply :=
    Daemon.filtering.answers log req reply
      && (req.since.isSome || decide (req.limit < log.length)
        || (List.range log.length).all fun i => decide (i ∈ reply))

omit [Unicode] in
theorem filtering_of_keeping {log : List LoggedEvent} {req : GetAuditLogRequest}
    {reply : List Nat} (h : Daemon.keeping.answers log req reply = true) :
    Daemon.filtering.answers log req reply = true := by
  simp only [Daemon.keeping, Bool.and_eq_true] at h
  exact h.1

omit [Unicode] in
theorem mem_of_keeping {log : List LoggedEvent} {req : GetAuditLogRequest} {reply : List Nat}
    (h : Daemon.keeping.answers log req reply = true) (hsince : req.since = none)
    (hlim : log.length ≤ req.limit) {i : Nat} (hi : i < log.length) : i ∈ reply := by
  simp only [Daemon.keeping, hsince, Option.isSome_none, Bool.false_or, Bool.and_eq_true,
    Bool.or_eq_true, decide_eq_true_eq, List.all_eq_true, List.mem_range] at h
  rcases h.2 with hlt | hall
  · omega
  · exact hall i hi

theorem life_step {limit logged : Nat} {v w : PollSys} {ev : PollEvent}
    (h : Life limit logged v) (hpast : PastCursor v ev)
    (ht : v.Trans Daemon.keeping limit ev w) : Life limit logged w := by
  have hdedup : DedupInv w :=
    dedupInv_step h.dedup hpast (ht.mono (fun _ _ _ => rfl) fun _ _ _ => filtering_of_keeping)
  have hst := h.dedup.poll.stage
  cases ht with
  | append e hacc => exact h.append hdedup
  | overlap hbusy => exact ⟨hdedup, h.logged_le, h.asked, h.held, h.fetched⟩
  | start hfree =>
      refine ⟨hdedup, h.logged_le, ?_, ?_, h.fetched⟩
      · rintro req ⟨rfl⟩
        rfl
      · rintro _ _ reply ⟨⟩
  | answer req reply hstage hin hans =>
      simp only [PollSys.StageOK, hstage] at hst
      refine ⟨hdedup, h.logged_le, fun _ hs => (by cases hs), ?_, h.fetched⟩
      rintro hlim hw _ ⟨rfl⟩ i hi
      have hle := h.logged_le
      exact mem_of_keeping hans (hst.2.trans hw) (h.asked req hstage ▸ hlim) (by omega)
  | callFails hstage =>
      exact .idle hdedup h.logged_le rfl h.fetched
  | deliverNone dbOk reply hstage hnone =>
      -- the cursor stays
      refine .idle hdedup h.logged_le rfl fun hlim hw => ?_
      refine h.fetched hlim fun hv => hw ?_
      exact (tickFinish_stayed (by omega) 0).trans hv
  | deliverRows reply table hstage hsome happ =>
      refine ⟨hdedup, h.logged_le, fun _ hs => (by cases hs), ?_, ?_⟩
      · rintro hlim hw _ ⟨rfl⟩
        exact h.held hlim hw reply (by rw [hstage]; rfl)
      · exact fun hlim hw i hi hk => List.mem_append_left _ (h.fetched hlim hw i hi hk)
  | deliverFails dbOk reply hstage hsome =>
      refine ⟨hdedup, h.logged_le, fun _ hs => (by cases hs), ?_, h.fetched⟩
      rintro hlim hw _ ⟨rfl⟩
      exact h.held hlim hw reply (by rw [hstage]; rfl)
  | resumeOk reply inserted maxAt hstage => exact h.resumed hstage hdedup
  | resumeFails reply inserted maxAt hstage =>
      exact .idle hdedup h.logged_le rfl h.fetched

/-! ## All lifetimes -/

omit [Unicode] in
theorem keptAt_grow {log log' : List LoggedEvent} (h : log <+: log') {i : Nat}
    (hi : i < log.length) : keptAt log' i = keptAt log i := by
  obtain ⟨xs, rfl⟩ := h
  simp only [keptAt, entryAt, List.getElem?_append_left hi]

theorem Mirrors.grow {log log' : List LoggedEvent} (hp : log <+: log')
    {row : RoutingObservationRow} {i : Nat} (h : Mirrors log row i) : Mirrors log' row i := by
  obtain ⟨e, he, hk, hrow⟩ := h
  obtain ⟨xs, rfl⟩ := hp
  have hi : (log ++ xs)[i]? = log[i]? := List.getElem?_append_left (entryAt_lt he)
  exact ⟨e, by rw [entryAt, hi]; exact he, hk, hrow⟩

/-- A process inserts no event twice and, once its cursor has moved, has missed none
that was logged before it started, unless the log is longer than a page. -/
structure Lifetime.Sound (limit : Nat) (log : List LoggedEvent) (l : Lifetime) : Prop where
  once : l.inserted.Nodup
  logged_le : l.logged ≤ log.length
  fetched : log.length ≤ limit → l.polled = true →
    ∀ i < l.logged, keptAt log i = true → i ∈ l.inserted

omit [Unicode] in
theorem Lifetime.Sound.grow {limit : Nat} {log log' : List LoggedEvent} {l : Lifetime}
    (h : l.Sound limit log) (hp : log <+: log') : l.Sound limit log' where
  once := h.once
  logged_le := Nat.le_trans h.logged_le hp.length_le
  fetched hlim hpolled i hi hk := by
    refine h.fetched (Nat.le_trans hp.length_le hlim) hpolled i hi ?_
    rw [← keptAt_grow hp (Nat.lt_of_lt_of_le hi h.logged_le)]
    exact hk

structure ConsoleInv (limit : Nat) (s : Console) : Prop where
  rows : s.front ≤ s.poll.table.rows.length
  origin : s.poll.origin.take s.front = s.past.flatMap (·.inserted)
  front : s.front ≤ s.poll.origin.length
  before : List.Forall₂ (Mirrors s.poll.log) (s.poll.table.rows.take s.front)
    (s.poll.origin.take s.front)
  life : Life limit s.logged (s.poll.since s.front)
  past : ∀ l ∈ s.past, l.Sound limit s.poll.log

namespace ConsoleInv

variable {limit : Nat} {s : Console}

theorem aligned (h : ConsoleInv limit s) :
    List.Forall₂ (Mirrors s.poll.log) s.poll.table.rows s.poll.origin := by
  have hback : List.Forall₂ (Mirrors s.poll.log) (s.poll.table.rows.drop s.front)
      (s.poll.origin.drop s.front) := h.life.dedup.poll.aligned
  rw [← List.take_append_drop s.front s.poll.table.rows,
    ← List.take_append_drop s.front s.poll.origin]
  exact List.rel_append h.before hback

theorem origin_eq (h : ConsoleInv limit s) :
    s.poll.origin = s.lifetimes.flatMap (·.inserted) := by
  rw [Console.lifetimes, List.flatMap_append, ← h.origin]
  simp only [List.flatMap_singleton, Console.current, List.take_append_drop]

theorem sound (h : ConsoleInv limit s) {l : Lifetime} (hl : l ∈ s.lifetimes) :
    l.Sound limit s.poll.log := by
  rcases List.mem_append.mp hl with hpast | hcur
  · exact h.past l hpast
  · obtain rfl := List.mem_singleton.mp hcur
    refine ⟨h.life.dedup.once, h.life.logged_le, fun hlim hpolled => ?_⟩
    refine h.life.fetched hlim fun hw => ?_
    have hsome : s.poll.worker.watermarkMs.isSome = true := hpolled
    rw [show s.poll.worker.watermarkMs = none from hw] at hsome
    cases hsome

/-- A new process starts behind all rows. -/
theorem boot (h : ConsoleInv limit s) : ConsoleInv limit s.boot where
  rows := (h.aligned.length_eq).ge
  origin := by
    show s.poll.origin.take s.poll.origin.length = s.lifetimes.flatMap (·.inserted)
    rw [List.take_length, h.origin_eq]
  front := Nat.le_refl _
  before := by
    show List.Forall₂ _ (s.poll.table.rows.take s.poll.origin.length)
      (s.poll.origin.take s.poll.origin.length)
    rw [List.take_length, ← h.aligned.length_eq, List.take_length]
    exact h.aligned
  life := by
    have hrows : s.poll.table.rows.drop s.poll.origin.length = [] := by
      rw [← h.aligned.length_eq, List.drop_length]
    have hview : s.boot.poll.since s.boot.front
        = { log := s.poll.log, table := { nextId := s.poll.table.nextId } } := by
      simp only [Console.boot, PollSys.since, hrows, List.drop_length]
    rw [hview]
    exact Life.init limit s.poll.log _
  past _ hl := h.sound hl

theorem poll (h : ConsoleInv limit s) {ev : PollEvent} {p : PollSys} (hpast : PastCursor s.poll ev)
    (ht : s.poll.Trans Daemon.keeping limit ev p) : ConsoleInv limit { s with poll := p } := by
  obtain ⟨hlog, ⟨rows, hrows⟩, ⟨is, horigin⟩⟩ := ht.grows
  have htakeRows : p.table.rows.take s.front = s.poll.table.rows.take s.front := by
    rw [← hrows, List.take_append_of_le_length h.rows]
  have htakeOrigin : p.origin.take s.front = s.poll.origin.take s.front := by
    rw [← horigin, List.take_append_of_le_length h.front]
  have hle : s.front ≤ p.table.rows.length := by
    have := h.rows
    rw [← hrows, List.length_append]
    omega
  have hle' : s.front ≤ p.origin.length := by
    have := h.front
    rw [← horigin, List.length_append]
    omega
  refine ⟨hle, htakeOrigin.trans h.origin, hle', ?_, ?_, fun l hl => (h.past l hl).grow hlog⟩
  · show List.Forall₂ (Mirrors p.log) (p.table.rows.take s.front) (p.origin.take s.front)
    rw [htakeRows, htakeOrigin]
    exact h.before.imp fun _ _ hm => hm.grow hlog
  · exact life_step h.life hpast (ht.since h.rows h.front)

end ConsoleInv

/-- The condition on a worker, in whichever process it runs. -/
def Console.PastCursor (s : Console) (ev : ConsoleEvent) : Prop :=
  ∀ pev, ev = .poll pev → GatewayConsole.PastCursor s.poll pev

theorem consoleInv_step {limit : Nat} {s t : Console} {ev : ConsoleEvent} (h : ConsoleInv limit s)
    (hpast : s.PastCursor ev) (ht : s.Trans Daemon.keeping limit ev t) : ConsoleInv limit t := by
  cases ht with
  | poll pev p hp => exact h.poll (hpast pev rfl) hp
  | process _ process hev => exact ⟨h.rows, h.origin, h.front, h.before, h.life, h.past⟩
  | boots => exact h.boot

theorem consoleInv_init (limit : Nat) (log : List LoggedEvent) :
    ConsoleInv limit { poll := { log }, logged := log.length } where
  rows := Nat.le_refl _
  origin := rfl
  front := Nat.le_refl _
  before := .nil
  life := Life.init limit log 1
  past _ hl := by cases hl

theorem Console.Trans.length_lifetimes {D : Daemon} {limit : Nat} {s t : Console}
    {ev : ConsoleEvent} (h : s.Trans D limit ev t) :
    t.lifetimes.length = s.lifetimes.length + [ev].count .boots := by
  cases h with
  | poll | boots => simp [lifetimes, boot]
  | process ev _ hev => simp [lifetimes, hev]

/-- There is a lifetime for the first process and for each boot. -/
theorem length_lifetimes {D : Daemon} {fetchLimit : Nat} {intervalMs : Int}
    {log : List LoggedEvent} {es : List ConsoleEvent} {s : Console}
    (hs : (console D fetchLimit intervalMs log).run es = some s) :
    s.lifetimes.length = es.count .boots + 1 := by
  refine (console D fetchLimit intervalMs log).run_history
    (H := fun es s => s.lifetimes.length = es.count .boots + 1) rfl ?_ hs
  intro es s ev t h hst
  have hlen := (Console.trans_of_step hst).length_lifetimes
  rw [List.count_append]
  omega

/-- Only an insert touches the rows, whatever a tick knows. -/
theorem mirrors_step {D : Daemon} {fetchLimit : Nat} {s t : PollSys} {ev : PollEvent}
    (h : List.Forall₂ (Mirrors s.log) s.table.rows s.origin) (ht : s.Trans D fetchLimit ev t) :
    List.Forall₂ (Mirrors t.log) t.table.rows t.origin := by
  cases ht with
  | append e hacc =>
      exact h.imp fun row i ⟨e', he, hk, hrow⟩ => ⟨e', entryAt_mono he e, hk, hrow⟩
  | deliverRows reply table hstage hsome happ =>
      obtain ⟨added, hadd, hholds⟩ := appendBatch_rows happ
      show List.Forall₂ (Mirrors s.log) table.rows _
      rw [hadd]
      exact List.rel_append h (forall₂_mirrors hholds)
  | _ => exact h

/-- In every run, each row is the observation of its event. -/
theorem mirrors_over_restarts {D : Daemon} {fetchLimit : Nat} {intervalMs : Int}
    {log : List LoggedEvent} {es : List ConsoleEvent} {s : Console}
    (hs : (console D fetchLimit intervalMs log).run es = some s) :
    List.Forall₂ (Mirrors s.poll.log) s.poll.table.rows s.poll.origin := by
  refine Machine.Invariant.run (M := console D fetchLimit intervalMs log)
    (P := fun s => List.Forall₂ (Mirrors s.poll.log) s.poll.table.rows s.poll.origin)
    ⟨.nil, fun s ev t h hst => ?_⟩ hs
  cases Console.trans_of_step hst with
  | poll ev poll hpoll => exact mirrors_step h hpoll
  | process ev process hev => exact h
  | boots => exact h

omit [Unicode] in
/-- An event is counted once for each lifetime that inserted it. -/
theorem count_flatMap_inserted {ls : List Lifetime} (h : ∀ l ∈ ls, l.inserted.Nodup) (i : Nat) :
    (ls.flatMap (·.inserted)).count i = ls.countP fun l => decide (i ∈ l.inserted) := by
  induction ls with
  | nil => rfl
  | cons l ls ih =>
      have hl : l.inserted.count i = if i ∈ l.inserted then 1 else 0 :=
        (h l List.mem_cons_self).count
      rw [List.flatMap_cons, List.count_append, hl, ih fun k hk => h k (List.mem_cons_of_mem _ hk),
        List.countP_cons]
      simp only [decide_eq_true_eq]
      omega

/-- **An event has a row for each process that fetched it.** Over any number of restarts,
at any moment, the table has exactly one row of an event for each process that inserted
it, so no more than there were processes; and a process whose cursor has moved has itself
inserted every kept event that was logged before it started, as long as the daemon's log
fits in one page. -/
theorem rows_over_restarts (fetchLimit : Nat) (intervalMs : Int) (log : List LoggedEvent)
    {es : List ConsoleEvent} {s : Console}
    (hpast : (console Daemon.keeping fetchLimit intervalMs log).Meets Console.PastCursor es)
    (hs : (console Daemon.keeping fetchLimit intervalMs log).run es = some s) :
    List.Forall₂ (Mirrors s.poll.log) s.poll.table.rows s.poll.origin
      ∧ s.lifetimes.length = es.count .boots + 1
      ∧ s.poll.origin = s.lifetimes.flatMap (·.inserted)
      ∧ (∀ i, s.poll.origin.count i = s.lifetimes.countP fun l => decide (i ∈ l.inserted))
      ∧ ∀ l ∈ s.lifetimes, l.Sound fetchLimit s.poll.log := by
  have hinv : ConsoleInv fetchLimit s :=
    Machine.run_of_meets (I := ConsoleInv fetchLimit) (consoleInv_init fetchLimit log)
      (fun s e t h hc hst => consoleInv_step h hc (Console.trans_of_step hst)) hpast s hs
  refine ⟨hinv.aligned, length_lifetimes hs, hinv.origin_eq, fun i => ?_,
    fun l hl => hinv.sound hl⟩
  rw [hinv.origin_eq]
  exact count_flatMap_inserted (fun l hl => (hinv.sound hl).once) i

end Runs

/-! ## Killed between two ticks -/

/-- The first process inserts an event and is killed before the tick moves its cursor; the
second one finds the event in the log again. -/
def killedRun : List ConsoleEvent :=
  [.listens true, .poll .invoke, .poll (.answer [0]), .poll (.deliver true), .ends, .boots,
    .listens true, .poll .invoke, .poll (.answer [0]), .poll (.deliver true)]

theorem run_killedRun :
    ((@console asciiUnicode Daemon.keeping 1000 30000 [loggedAt 1000]).run
        (killedRun ++ [.poll .resume])).map
      (fun s => (s.poll.origin, s.lifetimes.map (·.polled), s.poll.worker.watermarkMs))
        = some ([0, 0], [false, true], some 1001) := by
  decide +kernel

theorem rows_over_restarts_killedRun : ∃ s,
    (@console asciiUnicode Daemon.keeping 1000 30000 [loggedAt 1000]).run
        (killedRun ++ [.poll .resume]) = some s
      ∧ s.lifetimes.length = 2
      ∧ (s.poll.origin.count 0 = s.lifetimes.countP fun l => decide (0 ∈ l.inserted))
      ∧ ∀ l ∈ s.lifetimes, l.Sound 1000 s.poll.log := by
  let _ : Unicode := asciiUnicode
  obtain ⟨s, hs, -⟩ := Option.map_eq_some_iff.mp run_killedRun
  have hbefore : ((console Daemon.keeping 1000 30000 [loggedAt 1000]).run killedRun).map
      (·.poll.worker.watermarkMs) = some none := by decide +kernel
  have hfirst : (console Daemon.keeping 1000 30000 [loggedAt 1000]).Meets Console.PastCursor
      killedRun :=
    (Machine.Meets.of_forall (C := (· ≠ .poll .resume)) (by decide)).imp
      fun _ _ hne _ hev hres => absurd (hev.trans (congrArg _ hres)) hne
  have hpast := hfirst.snoc (e := .poll .resume) fun u hu _ _ _ _ _ _ _ w hw => by
    rw [hu, Option.map_some, Option.some.injEq] at hbefore
    rw [hbefore] at hw
    cases hw
  obtain ⟨-, hlen, -, hcount, hsound⟩ := rows_over_restarts 1000 30000 [loggedAt 1000] hpast hs
  exact ⟨s, hs, hlen, hcount 0, hsound⟩

end GatewayConsole
