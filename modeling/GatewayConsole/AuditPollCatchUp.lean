import GatewayConsole.AuditPollLoss

/-!
# Catching up with a log that has stopped growing

A fresh worker ticks over a log whose events are dated at strictly increasing
milliseconds, against the daemon of `AuditPollLoss`. Pages then have no ties to
cut, and the mirror fails to catch up by standing still: the cursor moves over kept
events alone, so a page of skipped events is fetched for ever, and so is a page whose
one kept event is dated exactly at the cursor. And it passes over an event whose
timestamp is just before the cursor and whose date is rounded up to it.

`CatchesUp` follows the pages through the log: the next page starts at the first event
that the daemon counts as after the last kept event of the page before.
`caughtUp_iff` is the exact statement.
-/

namespace GatewayConsole

/-! ## The log and its pages -/

/-- The events are dated at these milliseconds, positive and strictly increasing. -/
def SpacedAt (log : List LoggedEvent) (times : List Int) : Prop :=
  log.map (fun e => (mapAuditEvent e).occurredAt) = times.map Num.int
    ∧ times.Pairwise (· < ·) ∧ ∀ t ∈ times, 0 < t

theorem SpacedAt.timeAt_iff {log : List LoggedEvent} {times : List Int}
    (h : SpacedAt log times) {i : Nat} {t : Int} : TimeAt log i t ↔ times[i]? = some t := by
  have hi := congrArg (·[i]?) h.1
  simp only [List.getElem?_map] at hi
  cases hlog : log[i]? with
  | none =>
      rw [hlog, Option.map_none, eq_comm, Option.map_eq_none_iff] at hi
      simp [TimeAt, entryAt, hlog, hi]
  | some e =>
      rw [hlog, Option.map_some] at hi
      obtain ⟨u, hu, htime⟩ := Option.map_eq_some_iff.mp hi.symm
      simp [TimeAt, entryAt, hlog, hu, ← htime]

theorem SpacedAt.length_eq {log : List LoggedEvent} {times : List Int}
    (h : SpacedAt log times) : log.length = times.length := by
  simpa using congrArg List.length h.1

theorem SpacedAt.dated {log : List LoggedEvent} {times : List Int} (h : SpacedAt log times)
    {i : Nat} (hi : i < log.length) : ∃ t, TimeAt log i t ∧ 0 < t := by
  rw [h.length_eq] at hi
  exact ⟨times[i], h.timeAt_iff.mpr (List.getElem?_eq_getElem hi),
    h.2.2 _ (List.getElem_mem hi)⟩

theorem SpacedAt.timeAt_lt {log : List LoggedEvent} {times : List Int} (h : SpacedAt log times)
    {i j : Nat} (hij : i < j) {t u : Int} (ht : TimeAt log i t) (hu : TimeAt log j u) :
    t < u := by
  obtain ⟨hi, rfl⟩ := List.getElem?_eq_some_iff.mp (h.timeAt_iff.mp ht)
  obtain ⟨hj, rfl⟩ := List.getElem?_eq_some_iff.mp (h.timeAt_iff.mp hu)
  exact List.pairwise_iff_getElem.mp h.2.1 i j hi hj hij

/-- `j` is the last kept position among the `limit` positions from `k` on. -/
structure LastKept (log : List LoggedEvent) (limit k j : Nat) : Prop where
  ge : k ≤ j
  lt : j < k + limit
  kept : keptAt log j = true
  last : ∀ i, j < i → i < k + limit → keptAt log i = false

/-- The events from position `k` on are the ones the daemon counts as at or after the
cursor. -/
def StartsAt (log : List LoggedEvent) (k : Nat) (c : Option Int) : Prop :=
  ∀ i < log.length, log[i]?.any (·.atOrAfter c) = decide (k ≤ i)

/-- The mirror catches up from position `k`, where a page starts that the cursor `c`
asks for: no kept event stands beyond this page; or the last kept event of the page is
dated after the cursor, no kept event stands between it and the page that follows, and
from there the mirror catches up. -/
inductive CatchesUp (log : List LoggedEvent) (limit : Nat) : Nat → Option Int → Prop
  | last {k : Nat} {c : Option Int} (hlast : ∀ i, k + limit ≤ i → keptAt log i = false) :
      CatchesUp log limit k c
  | next {k j n : Nat} {c : Option Int} {t : Int} (hj : LastKept log limit k j)
      (htime : TimeAt log j t) (hpast : ∀ w, c = some w → w < t)
      (hstart : StartsAt log n (some (t + 1)))
      (hbetween : ∀ i, j < i → i < n → keptAt log i = false)
      (hrest : CatchesUp log limit n (some (t + 1))) : CatchesUp log limit k c

theorem startsAt_zero (log : List LoggedEvent) : StartsAt log 0 none := by
  intro i hi
  simp [List.getElem?_eq_getElem hi, LoggedEvent.atOrAfter]

/-- The page that follows an event starts right behind it, or one further on where the next
event is dated in the next millisecond by rounding. -/
theorem SpacedAt.exists_startsAt {log : List LoggedEvent} {times : List Int}
    (h : SpacedAt log times) {j : Nat} {t : Int} (ht : TimeAt log j t) :
    ∃ k, j < k ∧ StartsAt log k (some (t + 1)) := by
  have hbefore : ∀ i ≤ j, i < log.length → log[i]?.any (·.atOrAfter (some (t + 1))) = false := by
    intro i hij hi
    obtain ⟨u, hu, hpos⟩ := h.dated hi
    have hle : u ≤ t := by
      rcases Nat.lt_or_eq_of_le hij with hlt | rfl
      · exact Int.le_of_lt (h.timeAt_lt hlt hu ht)
      · exact Int.le_of_eq (hu.unique ht)
    obtain ⟨_, he, htime⟩ := hu
    obtain ⟨x, hx, rfl⟩ := Option.map_eq_some_iff.mp he
    by_contra hcounted
    rw [hx, Option.any_some, Bool.not_eq_false] at hcounted
    have := LoggedEvent.le_of_atOrAfter htime hpos hcounted
    omega
  have hafter : ∀ i u, TimeAt log i u → t + 1 < u →
      log[i]?.any (·.atOrAfter (some (t + 1))) = true := by
    rintro i u ⟨_, he, htime⟩ hlt
    have hpos : 0 < t := by
      obtain ⟨v, hv, hpos⟩ := h.dated (by obtain ⟨_, hje, -⟩ := ht; exact entryAt_lt hje)
      exact ht.unique hv ▸ hpos
    obtain ⟨x, hx, rfl⟩ := Option.map_eq_some_iff.mp he
    rw [hx, Option.any_some]
    exact LoggedEvent.atOrAfter_of_lt htime (by omega) hlt
  have hfar : ∀ i, j + 1 < i → i < log.length →
      log[i]?.any (·.atOrAfter (some (t + 1))) = true := by
    intro i hij hi
    obtain ⟨u, hu, -⟩ := h.dated hi
    obtain ⟨v, hv, -⟩ := h.dated (i := j + 1) (by omega)
    have := h.timeAt_lt (Nat.lt_succ_self j) ht hv
    have := h.timeAt_lt hij hv hu
    exact hafter i u hu (by omega)
  cases hnext : log[j + 1]?.any (·.atOrAfter (some (t + 1))) with
  | true =>
      refine ⟨j + 1, Nat.lt_succ_self j, fun i hi => ?_⟩
      rcases Nat.lt_trichotomy i (j + 1) with hlt | rfl | hgt
      · rw [hbefore i (by omega) hi, decide_eq_false (by omega)]
      · rw [hnext, decide_eq_true (Nat.le_refl _)]
      · rw [hfar i hgt hi, decide_eq_true (by omega)]
  | false =>
      refine ⟨j + 2, by omega, fun i hi => ?_⟩
      rcases Nat.lt_trichotomy i (j + 1) with hlt | rfl | hgt
      · rw [hbefore i (by omega) hi, decide_eq_false (by omega)]
      · rw [hnext, decide_eq_false (by omega)]
      · rw [hfar i hgt hi, decide_eq_true (by omega)]

/-- An event at the cursor's last date is not asked for again. -/
theorem StartsAt.gt {log : List LoggedEvent} {k j : Nat} {t : Int}
    (h : StartsAt log k (some (t + 1))) (ht : TimeAt log j t) (hpos : 0 < t) : j < k := by
  obtain ⟨_, he, htime⟩ := ht
  obtain ⟨x, hx, rfl⟩ := Option.map_eq_some_iff.mp he
  by_contra hle
  have hcounted := h j (entryAt_lt he)
  rw [hx, Option.any_some, decide_eq_true (by omega)] at hcounted
  have := LoggedEvent.le_of_atOrAfter htime hpos hcounted
  omega

theorem filter_range_le (k : Nat) :
    ∀ n, (List.range n).filter (fun i => decide (k ≤ i)) = List.range' k (n - k)
  | 0 => by simp
  | n + 1 => by
      rw [List.range_succ, List.filter_append, filter_range_le k n]
      by_cases hk : k ≤ n
      · rw [Nat.succ_sub hk, List.range'_concat]
        simp [hk]
      · rw [Nat.sub_eq_zero_of_le (by omega), Nat.sub_eq_zero_of_le (by omega)]
        simp [hk]

/-- The page of a cursor that starts at `k` is the next `limit` positions. -/
theorem StartsAt.mem_firstPage {log : List LoggedEvent} {k : Nat} {c : Option Int}
    (h : StartsAt log k c) {limit i : Nat} :
    i ∈ firstPage log c limit ↔ k ≤ i ∧ i < k + limit ∧ i < log.length := by
  have hfilter : (List.range log.length).filter (fun i => log[i]?.any (·.atOrAfter c))
      = List.range' k (log.length - k) := by
    rw [← filter_range_le]
    exact List.filter_congr fun i hi => h i (List.mem_range.mp hi)
  rw [firstPage, hfilter]
  rcases Nat.le_total limit (log.length - k) with hle | hle
  · rw [List.take_range'_of_length_ge hle, List.mem_range'_1]
    omega
  · rw [List.take_range'_of_length_le hle, List.mem_range'_1]
    omega

theorem firstPage_lt {log : List LoggedEvent} {c : Option Int} {limit i : Nat}
    (h : i ∈ firstPage log c limit) : i < log.length :=
  List.mem_range.mp (List.mem_filter.mp (List.mem_of_mem_take h)).1

/-- The newest kept date of a page is that of its last kept event. -/
theorem SpacedAt.newestKept_iff {log : List LoggedEvent} {times : List Int}
    (h : SpacedAt log times) {k : Nat} {c : Option Int} (hstart : StartsAt log k c)
    {limit : Nat} {t : Int} :
    NewestKept log (firstPage log c limit) t ↔ ∃ j, LastKept log limit k j ∧ TimeAt log j t := by
  constructor
  · rintro ⟨⟨j, hj, hk, ht⟩, hmax⟩
    obtain ⟨hge, hlt, -⟩ := hstart.mem_firstPage.mp hj
    refine ⟨j, ⟨hge, hlt, hk, fun i hji hi => ?_⟩, ht⟩
    by_contra hki
    rw [Bool.not_eq_false] at hki
    obtain ⟨_, he, -⟩ := keptAt_iff.mp hki
    obtain ⟨u, hu, -⟩ := h.dated (entryAt_lt he)
    have hle := hmax i (hstart.mem_firstPage.mpr ⟨by omega, hi, entryAt_lt he⟩) hki u hu
    have := h.timeAt_lt hji ht hu
    omega
  · rintro ⟨j, hj, ht⟩
    obtain ⟨_, he, -⟩ := keptAt_iff.mp hj.kept
    refine ⟨⟨j, hstart.mem_firstPage.mpr ⟨hj.ge, hj.lt, entryAt_lt he⟩, hj.kept, ht⟩,
      fun i hi hk u hu => ?_⟩
    obtain ⟨-, hlt, -⟩ := hstart.mem_firstPage.mp hi
    rcases Nat.lt_trichotomy i j with hij | rfl | hji
    · exact Int.le_of_lt (h.timeAt_lt hij hu ht)
    · exact Int.le_of_eq (hu.unique ht)
    · rw [hj.last i hji hlt] at hk
      cases hk

/-! ## What a successful tick leaves behind -/

/-- The page the daemon answers the next tick with. -/
def PollSys.nextPage (limit : Nat) (s : PollSys) : List Nat :=
  firstPage s.log s.worker.watermarkMs limit

/-- The page is in the table, and the cursor is where `tickFinish` puts it. -/
structure Ticked (limit : Nat) (s s' : PollSys) : Prop where
  log : s'.log = s.log
  free : s'.worker.inFlight = false
  origin : s'.origin = s.origin ++ (s.nextPage limit).filter (keptAt s.log)
  watermark : ∃ maxAt, Scanned s.log s.worker.watermarkMs (s.nextPage limit) maxAt
    ∧ s'.worker.watermarkMs = (tickFinish s.worker 0 maxAt).1.watermarkMs

/-- A tick moves to right behind the last kept event of its page, or stays. -/
theorem Ticked.moves_or_stays {limit k : Nat} {s s' : PollSys} (h : Ticked limit s s')
    {times : List Int} (hlog : SpacedAt s.log times)
    (hstart : StartsAt s.log k s.worker.watermarkMs) :
    (∃ j t, LastKept s.log limit k j ∧ TimeAt s.log j t
        ∧ (∀ w, s.worker.watermarkMs = some w → w < t) ∧ s'.worker.watermarkMs = some (t + 1))
      ∨ s'.worker.watermarkMs = s.worker.watermarkMs := by
  obtain ⟨maxAt, hsc, hw⟩ := h.watermark
  by_cases hmoves : maxAt > s.worker.watermarkMs.getD (-1)
  · obtain ⟨j, hj, ht⟩ := (hlog.newestKept_iff hstart).mp (hsc.newestKept hmoves)
    refine Or.inl ⟨j, maxAt, hj, ht, fun v hv => ?_, hw.trans (tickFinish_moved hmoves 0)⟩
    rw [hv, Option.getD_some] at hmoves
    exact hmoves
  · exact Or.inr (hw.trans (tickFinish_stayed hmoves 0))

theorem Ticked.moves {limit k j : Nat} {t : Int} {s s' : PollSys} (h : Ticked limit s s')
    {times : List Int} (hlog : SpacedAt s.log times)
    (hstart : StartsAt s.log k s.worker.watermarkMs) (hj : LastKept s.log limit k j)
    (ht : TimeAt s.log j t) (hpast : ∀ w, s.worker.watermarkMs = some w → w < t) :
    s'.worker.watermarkMs = some (t + 1) := by
  obtain ⟨maxAt, hsc, hw⟩ := h.watermark
  obtain ⟨rfl, hmoves⟩ := hsc.maxAt_eq ((hlog.newestKept_iff hstart).mpr ⟨j, hj, ht⟩) hpast
  exact hw.trans (tickFinish_moved hmoves 0)

/-! ## The state between two ticks -/

/-- No tick is running, the next page starts at `k`, and nothing beyond that page is in the
table. -/
structure Between (log : List LoggedEvent) (limit k : Nat) (s : PollSys) : Prop where
  sameLog : s.log = log
  free : s.worker.inFlight = false
  start : StartsAt log k s.worker.watermarkMs
  bound : ∀ i ∈ s.origin, i < k + limit

theorem between_init (log : List LoggedEvent) (limit : Nat) :
    Between log limit 0 { log } :=
  ⟨rfl, rfl, startsAt_zero log, fun _ hi => by cases hi⟩

theorem Between.mem_nextPage {log : List LoggedEvent} {limit k : Nat} {s : PollSys}
    (h : Between log limit k s) {i : Nat} :
    i ∈ s.nextPage limit ↔ k ≤ i ∧ i < k + limit ∧ i < log.length := by
  rw [PollSys.nextPage, h.sameLog]
  exact h.start.mem_firstPage

/-- What a tick inserts is on its page. -/
theorem Between.mem_ticked {log : List LoggedEvent} {limit k : Nat} {s s' : PollSys}
    (h : Between log limit k s) (ht : Ticked limit s s') {i : Nat} :
    i ∈ s'.origin ↔ i ∈ s.origin ∨ (k ≤ i ∧ i < k + limit ∧ keptAt log i = true) := by
  rw [ht.origin, List.mem_append, List.mem_filter, h.mem_nextPage, h.sameLog]
  constructor
  · rintro (hold | ⟨⟨hge, hlt, -⟩, hk⟩)
    · exact Or.inl hold
    · exact Or.inr ⟨hge, hlt, hk⟩
  · rintro (hold | ⟨hge, hlt, hk⟩)
    · exact Or.inl hold
    · obtain ⟨_, he, -⟩ := keptAt_iff.mp hk
      exact Or.inr ⟨⟨hge, hlt, entryAt_lt he⟩, hk⟩

theorem Between.bound_ticked {log : List LoggedEvent} {limit k : Nat} {s s' : PollSys}
    (h : Between log limit k s) (ht : Ticked limit s s') : ∀ i ∈ s'.origin, i < k + limit := by
  intro i hi
  rcases (h.mem_ticked ht).mp hi with hold | hnew
  · exact h.bound i hold
  · exact hnew.2.1

theorem Between.stay {log : List LoggedEvent} {limit k : Nat} {s s' : PollSys}
    (h : Between log limit k s) (ht : Ticked limit s s')
    (hw : s'.worker.watermarkMs = s.worker.watermarkMs) : Between log limit k s' :=
  ⟨ht.log.trans h.sameLog, ht.free, hw ▸ h.start, h.bound_ticked ht⟩

theorem Between.move {log : List LoggedEvent} {limit k k' : Nat} {t : Int} {s s' : PollSys}
    (h : Between log limit k s) (ht : Ticked limit s s') (hle : k ≤ k')
    (hstart : StartsAt log k' (some (t + 1))) (hw : s'.worker.watermarkMs = some (t + 1)) :
    Between log limit k' s' where
  sameLog := ht.log.trans h.sameLog
  free := ht.free
  start := hw ▸ hstart
  bound i hi := by
    have := h.bound_ticked ht i hi
    omega

theorem Between.next {log : List LoggedEvent} {times : List Int} (hlog : SpacedAt log times)
    {limit k : Nat} {s s' : PollSys} (h : Between log limit k s) (ht : Ticked limit s s') :
    (∃ j t k', LastKept log limit k j ∧ TimeAt log j t
        ∧ (∀ w, s.worker.watermarkMs = some w → w < t)
        ∧ s'.worker.watermarkMs = some (t + 1) ∧ j < k' ∧ Between log limit k' s')
      ∨ s'.worker.watermarkMs = s.worker.watermarkMs ∧ Between log limit k s' := by
  obtain rfl := h.sameLog
  rcases ht.moves_or_stays hlog h.start with ⟨j, t, hj, htime, hpast, hw⟩ | hw
  · obtain ⟨k', hjk, hstart⟩ := hlog.exists_startsAt htime
    have := hj.ge
    exact Or.inl ⟨j, t, k', hj, htime, hpast, hw, hjk, h.move ht (by omega) hstart hw⟩
  · exact Or.inr ⟨hw, h.stay ht hw⟩

theorem Between.exists_next {log : List LoggedEvent} {times : List Int}
    (hlog : SpacedAt log times) {limit k : Nat} {s s' : PollSys} (h : Between log limit k s)
    (ht : Ticked limit s s') : ∃ k', k ≤ k' ∧ Between log limit k' s' := by
  rcases h.next hlog ht with ⟨j, t, k', hj, -, -, -, hjk, hs'⟩ | ⟨-, hs'⟩
  · have := hj.ge
    exact ⟨k', by omega, hs'⟩
  · exact ⟨k, Nat.le_refl k, hs'⟩

/-! ## A tick that succeeds -/

section CatchUp

variable [Unicode]

/-- What happens in a tick that succeeds, from a state where none is running: the
daemon answers with the first page and the database takes the rows, if there are any. -/
def successfulTick (limit : Nat) (s : PollSys) : List PollEvent :=
  if (s.nextPage limit).filter (keptAt s.log) = [] then
    [.invoke, .answer (s.nextPage limit), .deliver true]
  else fullTick (s.nextPage limit)

/-- So many successful ticks, one after another. -/
def successfulTicks (limit : Nat) : Nat → PollSys → Option PollSys
  | 0, s => some s
  | n + 1, s =>
      ((auditPoll Daemon.ordered limit).runFrom s (successfulTick limit s)).bind
        (successfulTicks limit n)

/-- After as many successful ticks as the log has events, starting afresh, every event
of an orch is in the table. -/
def CaughtUp (limit : Nat) (log : List LoggedEvent) : Prop :=
  ∃ s, successfulTicks limit log.length { log } = some s
    ∧ List.Forall₂ (Mirrors log) s.table.rows s.origin
    ∧ ∀ i e, log[i]? = some e → e.ethAddress ≠ "" → i ∈ s.origin

/-- Without an invalid date in the log a tick can always succeed. -/
theorem exists_ticked {limit : Nat} {s : PollSys} (hfree : s.worker.inFlight = false)
    (hdated : ∀ i < s.log.length, ∃ t, TimeAt s.log i t) :
    ∃ s', (auditPoll Daemon.ordered limit).runFrom s (successfulTick limit s) = some s'
      ∧ Ticked limit s s' := by
  have hin : ∀ i ∈ s.nextPage limit, i < s.log.length := fun i hi => firstPage_lt hi
  have hall : (s.nextPage limit).all (· < s.log.length) = true :=
    List.all_eq_true.mpr fun i hi => decide_eq_true (hin i hi)
  have hpage : firstPage s.log s.worker.watermarkMs limit = s.nextPage limit := rfl
  have hsc := scanned_scan s.worker.watermarkMs hin
  by_cases hk : (s.nextPage limit).filter (keptAt s.log) = []
  · have hrows := (scan_reply_eq_nil (w := s.worker.watermarkMs)).mpr hk
    refine ⟨s.finish 0 _, ?_, rfl, rfl, ?_, _, hsc, rfl⟩
    · simp only [successfulTick, hk, if_true, auditPoll, Machine.runFrom, PollSys.step,
        tickStart, hfree, Bool.false_eq_true, if_false, getAuditLogRequest, Option.getD_none,
        Option.getD_some, Option.bind_some, Daemon.ordered, hpage, decide_true, hall,
        Bool.and_self, hrows, List.length_nil, gt_iff_lt, Nat.lt_irrefl]
      rfl
    · rw [hk, List.append_nil]
      rfl
  · have hrows : (scan s.worker.watermarkMs
        ((s.nextPage limit).filterMap (entryAt s.log))).rows.length > 0 :=
      List.length_pos_iff.mpr fun hnil => hk (scan_reply_eq_nil.mp hnil)
    obtain ⟨table, htable⟩ : ∃ table, appendBatch s.table (scan s.worker.watermarkMs
        ((s.nextPage limit).filterMap (entryAt s.log))).rows = some table := by
      refine appendBatch_isSome s.table fun r hr => ?_
      rw [scan_rows] at hr
      obtain ⟨e, he, rfl⟩ := List.mem_map.mp hr
      obtain ⟨i, hi, hie⟩ := List.mem_filterMap.mp (List.mem_filter.mp he).1
      obtain ⟨t, e', he', htime⟩ := hdated i (entryAt_lt hie)
      obtain rfl := Option.some.inj (hie.symm.trans he')
      exact ⟨t, htime⟩
    refine ⟨PollSys.finish
      { s with table, origin := s.origin ++ (s.nextPage limit).filter (keptAt s.log) }
      (scan s.worker.watermarkMs ((s.nextPage limit).filterMap (entryAt s.log))).rows.length _,
      ?_, rfl, rfl, rfl, _, hsc, rfl⟩
    simp only [successfulTick, hk, if_false, fullTick, auditPoll, Machine.runFrom,
      PollSys.step, tickStart, hfree, Bool.false_eq_true, getAuditLogRequest,
      Option.getD_none, Option.getD_some, Option.bind_some, Daemon.ordered, hpage, decide_true,
      hall, Bool.and_self, if_true, hrows, htable]
    rfl

theorem Between.exists_ticked {log : List LoggedEvent} {times : List Int}
    (hlog : SpacedAt log times) {limit k : Nat} {s : PollSys} (h : Between log limit k s) :
    ∃ s', (auditPoll Daemon.ordered limit).runFrom s (successfulTick limit s) = some s'
      ∧ Ticked limit s s' := by
  refine GatewayConsole.exists_ticked h.free fun i hi => ?_
  rw [h.sameLog] at hi ⊢
  obtain ⟨t, ht, -⟩ := hlog.dated hi
  exact ⟨t, ht⟩

/-! ## Any number of ticks -/

theorem successfulTicks_succ {limit n : Nat} {s s' : PollSys}
    (h : (auditPoll Daemon.ordered limit).runFrom s (successfulTick limit s) = some s') :
    successfulTicks limit (n + 1) s = successfulTicks limit n s' := by
  rw [successfulTicks, h, Option.bind_some]

/-- Further ticks succeed and lose nothing. -/
theorem Between.ticks_grow {log : List LoggedEvent} {times : List Int}
    (hlog : SpacedAt log times) {limit : Nat} :
    ∀ (n : Nat) {k : Nat} {s : PollSys}, Between log limit k s →
      ∃ s', successfulTicks limit n s = some s' ∧ s'.log = log
        ∧ ∀ i ∈ s.origin, i ∈ s'.origin
  | 0, _, s, h => ⟨s, rfl, h.sameLog, fun _ hi => hi⟩
  | n + 1, k, s, h => by
      obtain ⟨u, hrun, ht⟩ := h.exists_ticked hlog
      obtain ⟨k', -, hu⟩ := h.exists_next hlog ht
      obtain ⟨s', hs', hsame, hsub⟩ := hu.ticks_grow hlog n
      exact ⟨s', (successfulTicks_succ hrun).trans hs', hsame,
        fun i hi => hsub i ((h.mem_ticked ht).mpr (Or.inl hi))⟩

/-- What a page has passed over without inserting it never comes into the table. -/
theorem Between.mem_of_lt {log : List LoggedEvent} {times : List Int}
    (hlog : SpacedAt log times) {limit : Nat} :
    ∀ {n k : Nat} {s s' : PollSys}, Between log limit k s →
      successfulTicks limit n s = some s' → ∀ i < k, i ∈ s'.origin → i ∈ s.origin
  | 0, _, s, s', _, hrun, i, _, hmem => by
      obtain rfl := Option.some.inj hrun
      exact hmem
  | n + 1, k, s, s', h, hrun, i, hi, hmem => by
      obtain ⟨u, hu, ht⟩ := h.exists_ticked hlog
      rw [successfulTicks_succ hu] at hrun
      obtain ⟨k', hle, hbet⟩ := h.exists_next hlog ht
      rcases (h.mem_ticked ht).mp (hbet.mem_of_lt hlog hrun i (by omega) hmem) with hold | hnew
      · exact hold
      · omega

/-- The pages reach every kept event, one event of the log at least with each tick. -/
theorem CatchesUp.all_seen {log : List LoggedEvent} {times : List Int}
    (hlog : SpacedAt log times) {limit k : Nat} {c : Option Int}
    (h : CatchesUp log limit k c) :
    ∀ {n : Nat} {s : PollSys}, Between log limit k s →
      (∀ i < k, keptAt log i = true → i ∈ s.origin) → s.worker.watermarkMs = c →
      log.length - k ≤ n →
      ∃ s', successfulTicks limit n s = some s' ∧ ∀ i, keptAt log i = true → i ∈ s'.origin := by
  induction h with
  | @last k c hlast =>
      intro n s hs hseen _ hn
      cases n with
      | zero =>
          -- no event from `k` on
          refine ⟨s, rfl, fun i hi => hseen i ?_ hi⟩
          obtain ⟨_, he, -⟩ := keptAt_iff.mp hi
          have := entryAt_lt he
          omega
      | succ n =>
          obtain ⟨u, hrun, ht⟩ := hs.exists_ticked hlog
          obtain ⟨k', -, hu⟩ := hs.exists_next hlog ht
          obtain ⟨s', hs', -, hsub⟩ := hu.ticks_grow hlog n
          refine ⟨s', (successfulTicks_succ hrun).trans hs', fun i hi => hsub i ?_⟩
          rcases Nat.lt_or_ge i k with hik | hki
          · exact (hs.mem_ticked ht).mpr (Or.inl (hseen i hik hi))
          · refine (hs.mem_ticked ht).mpr (Or.inr ⟨hki, ?_, hi⟩)
            by_contra hge
            rw [hlast i (by omega)] at hi
            cases hi
  | @next k j k' c t hj htime hpast hstart hbetween hrest ih =>
      intro n s hs hseen hc hn
      have hpos := htime.pos_of_kept hj.kept
      have hjk := hstart.gt htime hpos
      have hge := hj.ge
      have hlen : j < log.length := by
        obtain ⟨_, he, -⟩ := keptAt_iff.mp hj.kept
        exact entryAt_lt he
      cases n with
      | zero => omega
      | succ n =>
          obtain ⟨u, hrun, ht⟩ := hs.exists_ticked hlog
          have hw : u.worker.watermarkMs = some (t + 1) := by
            obtain rfl := hs.sameLog
            exact ht.moves hlog hs.start hj htime (hc ▸ hpast)
          have hseen' : ∀ i < k', keptAt log i = true → i ∈ u.origin := by
            intro i hi hk
            rcases Nat.lt_or_ge i k with hik | hki
            · exact (hs.mem_ticked ht).mpr (Or.inl (hseen i hik hk))
            · refine (hs.mem_ticked ht).mpr (Or.inr ⟨hki, ?_, hk⟩)
              have := hj.lt
              by_contra hfar
              rw [hbetween i (by omega) hi] at hk
              cases hk
          obtain ⟨s', hs', hall⟩ :=
            ih (hs.move ht (by omega) hstart hw) hseen' hw (by omega : log.length - k' ≤ n)
          exact ⟨s', (successfulTicks_succ hrun).trans hs', hall⟩

/-- Ticks that reach every kept event have moved through the pages. -/
theorem catchesUp_of_all_seen {log : List LoggedEvent} {times : List Int}
    (hlog : SpacedAt log times) {limit : Nat} :
    ∀ {n k : Nat} {s s' : PollSys}, Between log limit k s →
      successfulTicks limit n s = some s' → (∀ i, keptAt log i = true → i ∈ s'.origin) →
      CatchesUp log limit k s.worker.watermarkMs
  | 0, k, s, s', hs, hrun, hall => by
      obtain rfl := Option.some.inj hrun
      refine .last fun i hi => ?_
      by_contra hk
      have := hs.bound i (hall i (by simpa using hk))
      omega
  | n + 1, k, s, s', hs, hrun, hall => by
      obtain ⟨u, hu, ht⟩ := hs.exists_ticked hlog
      rw [successfulTicks_succ hu] at hrun
      rcases hs.next hlog ht with ⟨j, t, k', hj, htime, hpast, hw, hjk, hbet⟩ | ⟨hw, hbet⟩
      · refine .next hj htime hpast (hw ▸ hbet.start) (fun i hji hik => ?_)
          (hw ▸ catchesUp_of_all_seen hlog hbet hrun hall)
        -- behind the last kept event of the page and before the next: never in the table
        by_contra hk
        rw [Bool.not_eq_false] at hk
        have hmem := hbet.mem_of_lt hlog hrun i hik (hall i hk)
        have hlt : i < k + limit := by
          rcases (hs.mem_ticked ht).mp hmem with hold | hnew
          · exact hs.bound i hold
          · exact hnew.2.1
        rw [hj.last i hji hlt] at hk
        cases hk
      · exact hw ▸ catchesUp_of_all_seen hlog hbet hrun hall

theorem pollInv_successfulTicks {limit : Nat} :
    ∀ {n : Nat} {s s' : PollSys}, PollInv s → successfulTicks limit n s = some s' → PollInv s'
  | 0, s, s', h, hs => Option.some.inj hs ▸ h
  | n + 1, s, s', h, hs => by
      obtain ⟨u, hu, hrest⟩ := Option.bind_eq_some_iff.mp hs
      exact pollInv_successfulTicks ((pollInv Daemon.ordered limit []).runFrom h hu) hrest

/-- **The mirror catches up when its pages do.** With as many successful ticks as the
log has events, every event of an orch is mirrored exactly when every page either has
no kept event beyond it or ends its kept events with one dated after the cursor, behind
which no kept event is left out of the next page. -/
theorem caughtUp_iff {log : List LoggedEvent} {times : List Int} (hlog : SpacedAt log times)
    (limit : Nat) : CaughtUp limit log ↔ CatchesUp log limit 0 none := by
  constructor
  · rintro ⟨s, hs, -, hall⟩
    refine catchesUp_of_all_seen hlog (between_init log limit) hs fun i hi => ?_
    obtain ⟨_, he, -⟩ := keptAt_iff.mp hi
    obtain ⟨e, hie, -⟩ := Option.map_eq_some_iff.mp he
    obtain ⟨t, ht, -⟩ := hlog.dated (entryAt_lt he)
    exact hall i e hie ((keptAt_iff_of_timeAt hie ht).mp hi).1
  · intro h
    obtain ⟨s, hs, hall⟩ := h.all_seen hlog (between_init log limit)
      (fun _ hi => absurd hi (Nat.not_lt_zero _)) rfl (Nat.sub_le _ _)
    obtain ⟨s', hs', hsame, -⟩ := (between_init log limit).ticks_grow hlog log.length
    obtain rfl := Option.some.inj (hs.symm.trans hs')
    have haligned := (pollInv_successfulTicks (pollInv_init log) hs).aligned
    rw [hsame] at haligned
    refine ⟨s, hs, haligned, fun i e hie haddr => hall i ?_⟩
    obtain ⟨t, ht, hpos⟩ := hlog.dated (List.getElem?_eq_some_iff.mp hie).1
    exact (keptAt_iff_of_timeAt hie ht).mpr ⟨haddr, hpos⟩

end CatchUp

/-! ## A page of skipped events -/

/-- An event of the resolver itself, with no orch. -/
def skippedAt (ms : UInt32) : LoggedEvent := { loggedAt ms with ethAddress := "" }

/-- Two pages of two events: the second starts at the skipped event. -/
theorem caughtUp_acrossSkipped :
    @CaughtUp asciiUnicode 2 [loggedAt 1000, skippedAt 1001, loggedAt 1003] := by
  refine (@caughtUp_iff asciiUnicode _ [1000, 1001, 1003]
    ⟨by decide +kernel, by decide, by decide⟩ 2).mpr
    (.next (j := 0) (t := 1000) (n := 1) ⟨by decide, by decide, by decide +kernel, ?_⟩
      ⟨_, rfl, occurredAt_loggedAt 1000⟩ (fun w hw => by cases hw)
      (by unfold StartsAt; decide +kernel)
      (fun i hi hik => by omega) (.last fun i hi => ?_))
  · intro i h0 h2
    obtain rfl : i = 1 := by omega
    decide +kernel
  · rw [keptAt, entryAt, List.getElem?_eq_none]
    · rfl
    · simpa using hi

/-- The first page, of one event, is never passed. -/
theorem not_caughtUp_behindSkipped :
    SpacedAt [skippedAt 1000, loggedAt 2000] [1000, 2000]
      ∧ ¬@CaughtUp asciiUnicode 1 [skippedAt 1000, loggedAt 2000] := by
  refine ⟨⟨by decide +kernel, by decide, by decide⟩, ?_⟩
  rintro ⟨s, hs, -, hall⟩
  have horigin : (@successfulTicks asciiUnicode 1 2 { log := [skippedAt 1000, loggedAt 2000] }).map
      (·.origin) = some [] := by decide +kernel
  have hmem := hall 1 (loggedAt 2000) rfl (by decide)
  rw [show [skippedAt 1000, loggedAt 2000].length = 2 from rfl] at hs
  rw [hs] at horigin
  have hnil : s.origin = [] := Option.some.inj horigin
  rw [hnil] at hmem
  cases hmem

end GatewayConsole
