import GatewayConsole.AuditPollInv

/-!
# No event mirrored twice

`auditPoll.ts` has no check on the table: the dedup strategy its header states is
the `since` of the next request. A daemon that filters by it (`Daemon.filtering`)
returns only events dated at or after the cursor, so an event can come back only
when the cursor is not strictly after every inserted one.

The cursor moves when `maxAt > (watermarkMs ?? -1)`, and then to `maxAt + 1`. A tick
whose kept events are all dated exactly at the cursor inserts them and leaves the
cursor where it is; `PastCursor` excludes that tick and nothing else, and
`noDuplicates_iff` is the exact statement.
-/

namespace GatewayConsole

/-- A daemon whose replies are distinct events of its log, all at or after `since`. -/
def Daemon.filtering : Daemon where
  accepts _ _ := true
  answers log req reply :=
    decide reply.Nodup && reply.all fun i => log[i]?.any (·.atOrAfter req.since)

/-! ## The replies -/

/-- The reply has no event twice, and none that is dated before the cursor. -/
structure Filtered (log : List LoggedEvent) (reply : List Nat) (watermark : Option Int) :
    Prop where
  nodup : reply.Nodup
  since : ∀ i ∈ reply, keptAt log i = true → ∀ t, TimeAt log i t →
    ∀ w, watermark = some w → w ≤ t

theorem filtered_append {log : List LoggedEvent} {reply : List Nat} {w : Option Int}
    (x : LoggedEvent) (hin : ∀ i ∈ reply, i < log.length) (h : Filtered log reply w) :
    Filtered (log ++ [x]) reply w where
  nodup := h.nodup
  since i hi hk t ht :=
    h.since i hi (keptAt_append (hin i hi) x ▸ hk) t ((timeAt_append (hin i hi)).mp ht)

/-- A kept event that the daemon counts as at or after the cursor is dated so. -/
theorem le_of_atOrAfter_of_kept {log : List LoggedEvent} {i : Nat} {t w : Int}
    (hk : keptAt log i = true) (ht : TimeAt log i t)
    (h : log[i]?.any (·.atOrAfter (some w)) = true) : w ≤ t := by
  have hpos := ht.pos_of_kept hk
  obtain ⟨e, he, htime⟩ := ht
  obtain ⟨x, hx, rfl⟩ := Option.map_eq_some_iff.mp he
  rw [hx, Option.any_some] at h
  exact LoggedEvent.le_of_atOrAfter htime hpos h

theorem filtered_of_answers {log : List LoggedEvent} {req : GetAuditLogRequest}
    {reply : List Nat} (h : Daemon.filtering.answers log req reply = true) :
    Filtered log reply req.since := by
  simp only [Daemon.filtering, Bool.and_eq_true, decide_eq_true_eq, List.all_eq_true] at h
  refine ⟨h.1, fun i hi hk t ht w hw => ?_⟩
  have hafter := h.2 i hi
  rw [hw] at hafter
  exact le_of_atOrAfter_of_kept hk ht hafter

/-- The cursor moves past the kept events when one of them is dated after it. -/
theorem Scanned.moves {log : List LoggedEvent} {watermark : Option Int} {reply : List Nat}
    {maxAt : Int} (h : Scanned log watermark reply maxAt)
    (hsome : reply.filter (keptAt log) ≠ [])
    (htimes : ∀ i ∈ reply, keptAt log i = true → ∃ t, TimeAt log i t)
    (hpast : ∀ w, watermark = some w →
      ∃ i ∈ reply, keptAt log i = true ∧ ∃ t, TimeAt log i t ∧ w < t) :
    maxAt > watermark.getD (-1) := by
  cases watermark with
  | none =>
      obtain ⟨i, hi⟩ := List.exists_mem_of_ne_nil _ hsome
      obtain ⟨hmem, hk⟩ := List.mem_filter.mp hi
      obtain ⟨t, ht⟩ := htimes i hmem hk
      have := h.max i hmem hk t ht
      have := ht.pos_of_kept hk
      rw [Option.getD_none]
      omega
  | some w =>
      obtain ⟨i, hi, hk, t, ht, hlt⟩ := hpast w rfl
      have := h.max i hi hk t ht
      rw [Option.getD_some]
      omega

/-- The rows of a filtered reply are new, and no two of them are of one event. -/
theorem Filtered.nodup_append {log : List LoggedEvent} {reply is : List Nat}
    {w : Option Int} (h : Filtered log reply w) (hbeh : Behind (· < ·) log is w)
    (htimes : ∀ i ∈ is, ∃ t, TimeAt log i t) (hnodup : is.Nodup) :
    (is ++ reply.filter (keptAt log)).Nodup := by
  refine List.nodup_append.mpr ⟨hnodup, h.nodup.filter _, ?_⟩
  rintro i hold j hnew rfl
  obtain ⟨hmem, hk⟩ := List.mem_filter.mp hnew
  obtain ⟨t, ht⟩ := htimes i hold
  obtain ⟨v, hv, hlt⟩ := hbeh i hold t ht
  have := h.since i hmem hk t ht v hv
  omega

/-! ## The property and the condition -/

section Dedup

variable [Unicode]

/-- No event of the log is in the table twice and, unless a tick is running, the
cursor is strictly after every row. -/
structure Deduplicated (s : PollSys) : Prop where
  rows : List.Forall₂ (Mirrors s.log) s.table.rows s.origin
  once : s.origin.Nodup
  ahead : s.worker.inFlight = false → ∀ w, s.worker.watermarkMs = some w →
    ∀ row ∈ s.table.rows, row.observedAt < w

/-- A tick that has inserted its rows resumes only if one of the kept events of its
reply is dated after the cursor. -/
def PastCursor (s : PollSys) (ev : PollEvent) : Prop :=
  ev = .resume → ∀ reply inserted maxAt, s.stage = .appending reply inserted maxAt true →
    ∀ w, s.worker.watermarkMs = some w →
    ∃ i ∈ reply, keptAt s.log i = true ∧ ∃ t, TimeAt s.log i t ∧ w < t

/-- Throughout the run no event is mirrored twice, the cursor is ahead of the table
between ticks, and it never goes back. -/
def NoDuplicates (fetchLimit : Nat) (log : List LoggedEvent) (es : List PollEvent) : Prop :=
  (auditPoll Daemon.filtering fetchLimit log).Always Deduplicated es
    ∧ ∀ ds ds' s t, ds ++ ds' <+: es →
      (auditPoll Daemon.filtering fetchLimit log).run ds = some s →
      (auditPoll Daemon.filtering fetchLimit log).runFrom s ds' = some t →
      CursorLe s.worker.watermarkMs t.worker.watermarkMs

/-! ## The invariant -/

structure DedupInv (s : PollSys) : Prop where
  poll : PollInv s
  reply : s.ReplyOK Filtered
  once : s.origin.Nodup
  behind : ∃ is, s.Settled is ∧ Behind (· < ·) s.log is s.worker.watermarkMs

theorem DedupInv.finish {s : PollSys} {reply : List Nat} {maxAt : Int} {inserted : Nat}
    (h : DedupInv s) (hstage : s.stage = .appending reply inserted maxAt true)
    (hpoll : PollInv (s.finish inserted maxAt))
    (hmoves : maxAt > s.worker.watermarkMs.getD (-1)) : DedupInv (s.finish inserted maxAt) := by
  obtain ⟨is, hset, hbeh⟩ := h.behind
  have hst := h.poll.stage
  simp only [PollSys.Settled, PollSys.StageOK, hstage] at hset hst
  refine ⟨hpoll, trivial, h.once, _, hset, ?_⟩
  exact hst.2.1.behind_moved (hbeh.imp fun _ _ => Int.le_of_lt) hmoves inserted

theorem dedupInv_step {fetchLimit : Nat} {s t : PollSys} {ev : PollEvent} (h : DedupInv s)
    (hpast : PastCursor s ev) (ht : s.Trans Daemon.filtering fetchLimit ev t) : DedupInv t := by
  have hpoll := pollInv_step h.poll ht
  have hreply := replyOK_step (Q := Filtered) filtered_append filtered_of_answers h.poll.stage
    h.reply ht
  have hst := h.poll.stage
  obtain ⟨is, hset, hbeh⟩ := h.behind
  cases ht with
  | append e hacc =>
      refine ⟨hpoll, hreply, h.once, is, hset.append hst e, ?_⟩
      exact hbeh.append (fun i hi => h.poll.origin_lt (hset.subset i hi)) e
  | overlap hbusy => exact ⟨hpoll, hreply, h.once, is, hset, hbeh⟩
  | start hfree =>
      exact ⟨hpoll, hreply, h.once, is, h.poll.settled_of_idle hset hfree, hbeh⟩
  | answer req reply hstage hin hans =>
      simp only [PollSys.Settled, hstage] at hset
      exact ⟨hpoll, hreply, h.once, is, hset, hbeh⟩
  | callFails hstage => exact ⟨hpoll, hreply, h.once, is, hset.of_calling hstage, hbeh⟩
  | deliverNone dbOk reply hstage hnone =>
      simp only [PollSys.Settled, hstage] at hset
      refine ⟨hpoll, hreply, h.once, is, hset, ?_⟩
      show Behind _ _ _ (tickFinish s.worker 0 _).1.watermarkMs
      rw [tickFinish_stayed (by omega)]
      exact hbeh
  | deliverRows reply table hstage hsome happ =>
      simp only [PollSys.Settled, hstage] at hset
      have hfilt := h.reply
      simp only [PollSys.ReplyOK, hstage] at hfilt
      refine ⟨hpoll, hreply, ?_, is, by rw [PollSys.Settled, hset], hbeh⟩
      show (s.origin ++ reply.filter (keptAt s.log)).Nodup
      rw [hset]
      refine hfilt.nodup_append hbeh (fun i hi => ?_) (hset ▸ h.once)
      obtain ⟨row, -, hrow⟩ := h.poll.origin_mirrors (hset ▸ hi)
      exact ⟨_, hrow.timeAt⟩
  | deliverFails dbOk reply hstage hsome =>
      simp only [PollSys.Settled, hstage] at hset
      exact ⟨hpoll, hreply, h.once, is, hset, hbeh⟩
  | resumeOk reply inserted maxAt hstage =>
      refine h.finish hstage hpoll ?_
      simp only [PollSys.Settled, PollSys.StageOK, hstage] at hset hst
      refine hst.2.1.moves hst.2.2 (fun i hi hk => ?_)
        (hpast rfl reply inserted maxAt hstage)
      obtain ⟨row, -, hrow⟩ := h.poll.origin_mirrors
        (i := i) (by rw [hset]; exact List.mem_append_right _ (List.mem_filter.mpr ⟨hi, hk⟩))
      exact ⟨_, hrow.timeAt⟩
  | resumeFails reply inserted maxAt hstage =>
      simp only [PollSys.Settled, hstage] at hset
      exact ⟨hpoll, hreply, h.once, is, hset, hbeh⟩

theorem dedupInv_init (log : List LoggedEvent) : DedupInv { log } :=
  ⟨pollInv_init log, trivial, .nil, [], rfl, fun _ hi => by cases hi⟩

theorem DedupInv.deduplicated {s : PollSys} (h : DedupInv s) : Deduplicated s := by
  refine ⟨h.poll.aligned, h.once, fun hfree w hw row hrow => ?_⟩
  obtain ⟨is, hset, hbeh⟩ := h.behind
  obtain ⟨i, hi, hmir⟩ := h.poll.row_mirrors hrow
  rw [h.poll.settled_of_idle hset hfree] at hi
  obtain ⟨v, hv, hlt⟩ := hbeh i hi _ hmir.timeAt
  rw [hw] at hv
  obtain rfl := Option.some.inj hv
  exact hlt

/-- A tick that leaves the table behind the cursor had an event dated after it. -/
theorem pastCursor_of_deduplicated {fetchLimit : Nat} {s t : PollSys} {ev : PollEvent}
    (h : DedupInv s) (ht : s.Trans Daemon.filtering fetchLimit ev t) (hok : Deduplicated t) :
    PastCursor s ev := by
  rintro rfl reply inserted maxAt hstage w hw
  obtain ⟨is, hset, -⟩ := h.behind
  have hst := h.poll.stage
  simp only [PollSys.Settled, PollSys.StageOK, hstage] at hset hst
  obtain ⟨i, hi⟩ := List.exists_mem_of_ne_nil _ hst.2.2
  obtain ⟨hmem, hk⟩ := List.mem_filter.mp hi
  obtain ⟨row, hrow, hmir⟩ := h.poll.origin_mirrors
    (by rw [hset]; exact List.mem_append_right _ hi)
  cases ht with
  | resumeFails reply' inserted' maxAt' hstage' => rw [hstage] at hstage'; cases hstage'
  | resumeOk reply' inserted' maxAt' hstage' =>
      obtain ⟨rfl, rfl, rfl, -⟩ := Stage.appending.inj (hstage.symm.trans hstage')
      by_cases hmoves : maxAt > s.worker.watermarkMs.getD (-1)
      · have hgt := hmoves
        rw [hw, Option.getD_some] at hgt
        rcases hst.2.1.source with heq | ⟨j, hj, hkj, htj⟩
        · omega
        · exact ⟨j, hj, hkj, maxAt, htj, hgt⟩
      · -- the cursor stays, so the rows just inserted are not behind it
        have hlt := hok.ahead rfl w
          ((tickFinish_stayed hmoves inserted).trans hw) row hrow
        have hfilt := h.reply
        simp only [PollSys.ReplyOK, hstage] at hfilt
        have := hfilt.since i hmem hk _ hmir.timeAt w hw
        omega

/-- **No event is mirrored twice, as long as the cursor passes every page.** A run of
the worker is free of duplicates exactly when each tick that inserted rows had an
event dated after the cursor among them. -/
theorem noDuplicates_iff (fetchLimit : Nat) (log : List LoggedEvent) (es : List PollEvent) :
    NoDuplicates fetchLimit log es
      ↔ (auditPoll Daemon.filtering fetchLimit log).Meets PastCursor es := by
  have hiff : (auditPoll Daemon.filtering fetchLimit log).Always Deduplicated es
      ↔ (auditPoll Daemon.filtering fetchLimit log).Meets PastCursor es :=
    Machine.always_iff_meets (I := DedupInv) (dedupInv_init log)
      (fun s e t h hc hst => dedupInv_step h hc (PollSys.trans_of_step hst))
      (fun s h => h.deduplicated)
      (fun s e t h hst hok => pastCursor_of_deduplicated h (PollSys.trans_of_step hst) hok)
  exact ⟨fun h => hiff.mp h.1, fun h => ⟨hiff.mpr h, fun _ _ _ _ _ _ ht => cursorLe_runFrom ht⟩⟩

end Dedup

/-! ## An event at the cursor -/

/-- An event of one orch, logged so many milliseconds after the epoch. -/
def loggedAt (ms : UInt32) : LoggedEvent where
  «at» := some (atMillis ms)
  ethAddress := "0x00000000000000000000000000000000000000a1"
  kind := "resolve"
  mode := 1
  detail := ""

theorem occurredAt_loggedAt (ms : UInt32) :
    (mapAuditEvent (loggedAt ms)).occurredAt = .int ms.toNat :=
  fromTimestamp_atMillis ms

/-- A tick from invocation to return, with this reply and the database available. -/
def fullTick (reply : List Nat) : List PollEvent :=
  [.invoke, .answer reply, .deliver true, .resume]

/-- The first event is fetched and the cursor moves one millisecond past it, where
the second event is logged; two more ticks follow. -/
def atCursorRun : List PollEvent :=
  .append (loggedAt 1000) :: fullTick [0] ++ .append (loggedAt 1001) :: fullTick [1] ++ fullTick [1]

theorem run_atCursorRun :
    ((@auditPoll asciiUnicode Daemon.filtering 1000 []).run atCursorRun).map
      (fun s => (s.origin, s.worker.watermarkMs)) = some ([0, 1, 1], some 1001) := by
  decide +kernel

/-- The event logged at the cursor is inserted by both of the later ticks. -/
theorem not_noDuplicates_atCursorRun : ¬@NoDuplicates asciiUnicode 1000 [] atCursorRun := by
  intro h
  let _ : Unicode := asciiUnicode
  obtain ⟨s, hs, heq⟩ := Option.map_eq_some_iff.mp run_atCursorRun
  have honce := (h.1 atCursorRun (List.prefix_refl _) s hs).once
  rw [(Prod.mk.inj heq).1] at honce
  revert honce
  decide

end GatewayConsole
