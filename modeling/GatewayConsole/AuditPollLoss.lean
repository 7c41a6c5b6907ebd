import GatewayConsole.AuditPollDedup

/-!
# No event lost

The daemon of this file answers with the first `limit` events of its log at or
after `since`, and its timestamps never decrease (`Daemon.ordered`). Dates decode to
whole milliseconds, so several events can share one.

After a page the cursor is one millisecond past the newest kept event of the page,
so an event that shares this millisecond and was not in the page will not be asked
for again: it was cut off by the limit, or logged after the poll. Nor will an event
whose date is rounded up to the millisecond of the cursor, which the daemon counts
before it. `TiesInside` says that no step meets such an event, and `nothingLost_iff`
that the mirror is complete up to the cursor exactly along those runs.
-/

namespace GatewayConsole

/-- The first event is not dated after the second. -/
def LoggedEvent.notAfter (x e : LoggedEvent) : Bool :=
  match x.at, e.at with
  | some t, some u => decide (t.1.instant ≤ u.1.instant)
  | _, _ => true

/-- The positions of the first `limit` events at or after `since`. -/
def firstPage (log : List LoggedEvent) (since : Option Int) (limit : Nat) : List Nat :=
  ((List.range log.length).filter fun i => log[i]?.any (·.atOrAfter since)).take limit

/-- A daemon whose timestamps never decrease and which answers with the first page. -/
def Daemon.ordered : Daemon where
  accepts log e := log.all (·.notAfter e)
  answers log req reply := decide (reply = firstPage log req.since req.limit)

/-! ## The order of the log -/

/-- The timestamps of the log never decrease. -/
def InOrder (log : List LoggedEvent) : Prop := log.Pairwise fun x e => x.notAfter e = true

theorem inOrder_append {log : List LoggedEvent} {e : LoggedEvent} (h : InOrder log)
    (hacc : Daemon.ordered.accepts log e = true) : InOrder (log ++ [e]) := by
  refine List.pairwise_append.mpr ⟨h, List.pairwise_singleton _ _, fun x hx y hy => ?_⟩
  rw [List.mem_singleton.mp hy]
  exact List.all_eq_true.mp hacc x hx

/-- A later kept position is not dated in an earlier millisecond. -/
theorem InOrder.timeAt_le {log : List LoggedEvent} (h : InOrder log) {j i : Nat} (hji : j < i)
    {u t : Int} (hj : TimeAt log j u) (hi : TimeAt log i t) (hu : 0 < u) (ht : 0 < t) :
    u ≤ t := by
  obtain ⟨_, hej, hju⟩ := hj
  obtain ⟨_, hei, hit⟩ := hi
  obtain ⟨x, hx, rfl⟩ := Option.map_eq_some_iff.mp hej
  obtain ⟨y, hy, rfl⟩ := Option.map_eq_some_iff.mp hei
  obtain ⟨hjlt, rfl⟩ := List.getElem?_eq_some_iff.mp hx
  obtain ⟨hilt, rfl⟩ := List.getElem?_eq_some_iff.mp hy
  have hxy := List.pairwise_iff_getElem.mp h j i hjlt hilt hji
  obtain ⟨a, ha, hadec⟩ := LoggedEvent.decodesTo hju hu
  obtain ⟨b, hb, hbdec⟩ := LoggedEvent.decodesTo hit ht
  simp only [LoggedEvent.notAfter, ha, hb, decide_eq_true_eq] at hxy
  exact hadec.mono hbdec a.2 b.2 hxy

theorem timeAt_concat {log : List LoggedEvent} {x : LoggedEvent} {t : Int} :
    TimeAt (log ++ [x]) log.length t ↔ (mapAuditEvent x).occurredAt = .int t := by
  simp [TimeAt, entryAt]

/-! ## The replies -/

/-- The daemon counts the event at the position as at or after the cursor. -/
def Counted (log : List LoggedEvent) (watermark : Option Int) (i : Nat) : Prop :=
  log[i]?.any (·.atOrAfter watermark) = true

theorem counted_append {log : List LoggedEvent} {w : Option Int} {i : Nat} (h : i < log.length)
    (x : LoggedEvent) : Counted (log ++ [x]) w i ↔ Counted log w i := by
  rw [Counted, Counted, List.getElem?_append_left h]

/-- A reply is at or after the cursor, and what else is so stands behind it. -/
structure Page (log : List LoggedEvent) (reply : List Nat) (watermark : Option Int) : Prop where
  since : ∀ j ∈ reply, Counted log watermark j
  rest : ∀ i, keptAt log i = true → Counted log watermark i → i ∉ reply → ∀ j ∈ reply, j < i

theorem page_append {log : List LoggedEvent} {reply : List Nat} {w : Option Int}
    (x : LoggedEvent) (hin : ∀ i ∈ reply, i < log.length) (h : Page log reply w) :
    Page (log ++ [x]) reply w where
  since j hj := (counted_append (hin j hj) x).mpr (h.since j hj)
  rest i hk hafter hnot j hj := by
    by_cases hi : i < log.length
    · exact h.rest i (keptAt_append hi x ▸ hk) ((counted_append hi x).mp hafter) hnot j hj
    · have := hin j hj
      omega

/-- In a strictly increasing list, what a prefix leaves out is after all of it. -/
theorem lt_of_mem_take_of_not_mem {l : List Nat} (h : l.Pairwise (· < ·)) {n i j : Nat}
    (hi : i ∈ l) (hnot : i ∉ l.take n) (hj : j ∈ l.take n) : j < i := by
  rw [← List.take_append_drop n l] at h hi
  rcases List.mem_append.mp hi with htake | hdrop
  · exact absurd htake hnot
  · exact (List.pairwise_append.mp h).2.2 j hj i hdrop

theorem page_of_answers {log : List LoggedEvent} {req : GetAuditLogRequest}
    {reply : List Nat} (h : Daemon.ordered.answers log req reply = true) :
    Page log reply req.since := by
  obtain rfl := of_decide_eq_true h
  refine ⟨fun j hj => (List.mem_filter.mp (List.mem_of_mem_take hj)).2, ?_⟩
  intro i hk hafter hnot j hj
  refine lt_of_mem_take_of_not_mem (List.pairwise_lt_range.filter _) ?_ hnot hj
  obtain ⟨e, he, -⟩ := keptAt_iff.mp hk
  exact List.mem_filter.mpr ⟨List.mem_range.mpr (entryAt_lt he), hafter⟩

/-- An event dated after the cursor is counted so, and one dated at the cursor unless its date
has been rounded up. -/
theorem counted_of_lt {log : List LoggedEvent} {i : Nat} {t w : Int} (hk : keptAt log i = true)
    (ht : TimeAt log i t) (h : w < t) : Counted log (some w) i := by
  have hpos := ht.pos_of_kept hk
  obtain ⟨e, he, htime⟩ := ht
  obtain ⟨x, hx, rfl⟩ := Option.map_eq_some_iff.mp he
  rw [Counted, hx, Option.any_some]
  exact LoggedEvent.atOrAfter_of_lt htime hpos h

/-! ## The property and the condition -/

/-- An event is kept when it has an address and a date after 0. -/
theorem keptAt_iff_of_timeAt {log : List LoggedEvent} {i : Nat} {e : LoggedEvent} {t : Int}
    (he : log[i]? = some e) (ht : TimeAt log i t) :
    keptAt log i = true ↔ e.ethAddress ≠ "" ∧ 0 < t := by
  have hentry : entryAt log i = some (mapAuditEvent e) := by rw [entryAt, he]; rfl
  obtain ⟨e', he', htime⟩ := ht
  obtain rfl := Option.some.inj (hentry.symm.trans he')
  have hlacks : lacksOrch (mapAuditEvent e) = decide (e.ethAddress = "") := by
    simp only [lacksOrch, mapAuditEvent]
    by_cases hempty : e.ethAddress = "" <;> simp [hempty]
  rw [keptAt, hentry, Option.any_some, isKept, hlacks, htime]
  simp [Num.le]

/-- The newest date among the kept events of the reply. -/
def NewestKept (log : List LoggedEvent) (reply : List Nat) (t : Int) : Prop :=
  (∃ j ∈ reply, keptAt log j = true ∧ TimeAt log j t)
    ∧ ∀ j ∈ reply, keptAt log j = true → ∀ u, TimeAt log j u → u ≤ t

theorem Scanned.newestKept {log : List LoggedEvent} {w : Option Int} {reply : List Nat}
    {maxAt : Int} (h : Scanned log w reply maxAt) (hmoves : maxAt > w.getD (-1)) :
    NewestKept log reply maxAt := by
  refine ⟨?_, h.max⟩
  rcases h.source with heq | hex
  · omega
  · exact hex

/-- The cursor moves to just past the newest kept date, if that is after the cursor. -/
theorem Scanned.maxAt_eq {log : List LoggedEvent} {w : Option Int} {reply : List Nat}
    {maxAt : Int} (h : Scanned log w reply maxAt) {t : Int} (hnewest : NewestKept log reply t)
    (hpast : ∀ v, w = some v → v < t) : maxAt = t ∧ maxAt > w.getD (-1) := by
  obtain ⟨⟨j, hj, hk, ht⟩, hmax⟩ := hnewest
  have hle := h.max j hj hk t ht
  have hpos := ht.pos_of_kept hk
  have hlt : w.getD (-1) < t := by
    cases hw : w with
    | none => rw [Option.getD_none]; omega
    | some v => rw [Option.getD_some]; exact hpast v hw
  rcases h.source with heq | ⟨i, hi, hki, hti⟩
  · omega
  · have := hmax i hi hki maxAt hti
    omega

section Loss

variable [Unicode]

/-- Every event of an orch dated before the cursor is in the table. -/
structure Complete (s : PollSys) : Prop where
  rows : List.Forall₂ (Mirrors s.log) s.table.rows s.origin
  mirrored : ∀ w, s.worker.watermarkMs = some w → ∀ i e, s.log[i]? = some e →
    e.ethAddress ≠ "" → ∀ t, TimeAt s.log i t → 0 < t → t < w → i ∈ s.origin

/-- A kept event is dated in the millisecond of the cursor, but its timestamp is before it. -/
structure RoundedUp (log : List LoggedEvent) (w : Int) (i : Nat) : Prop where
  kept : keptAt log i = true
  time : TimeAt log i w
  before : ¬Counted log (some w) i

/-- No event is logged in a millisecond before the cursor; and a tick that moves the
cursor had in its reply every event of the millisecond it moves past, and leaves none
behind whose date is rounded up to the cursor. -/
def TiesInside (s : PollSys) (ev : PollEvent) : Prop :=
  (∀ e, ev = .append e → e.ethAddress ≠ "" → ∀ t, (mapAuditEvent e).occurredAt = .int t →
      0 < t → ∀ w, s.worker.watermarkMs = some w → w ≤ t)
    ∧ (ev = .resume → ∀ reply inserted maxAt, s.stage = .appending reply inserted maxAt true →
      ∀ t, NewestKept s.log reply t → (∀ w, s.worker.watermarkMs = some w → w < t) →
        (∀ i, keptAt s.log i = true → TimeAt s.log i t → i ∈ reply)
          ∧ ∀ w, s.worker.watermarkMs = some w → ∀ i, ¬RoundedUp s.log w i)

/-! ## The invariant -/

structure LossInv (s : PollSys) : Prop where
  poll : PollInv s
  order : InOrder s.log
  reply : s.ReplyOK Page
  complete : ∀ w, s.worker.watermarkMs = some w → ∀ i, keptAt s.log i = true →
    ∀ t, TimeAt s.log i t → t < w → i ∈ s.origin
  counted : ∃ is, s.Settled is ∧ ∀ i ∈ is, ∀ w, s.worker.watermarkMs = some w →
    TimeAt s.log i w → Counted s.log (some w) i

theorem LossInv.mirror_complete {s : PollSys} (h : LossInv s) : Complete s := by
  refine ⟨h.poll.aligned, fun w hw i e he haddr t ht hpos hlt => ?_⟩
  exact h.complete w hw i ((keptAt_iff_of_timeAt he ht).mpr ⟨haddr, hpos⟩) t ht hlt

theorem Complete.of_kept {s : PollSys} (h : Complete s) {w : Int}
    (hw : s.worker.watermarkMs = some w) {i : Nat} (hk : keptAt s.log i = true) {t : Int}
    (ht : TimeAt s.log i t) (hlt : t < w) : i ∈ s.origin := by
  obtain ⟨_, he, -⟩ := keptAt_iff.mp hk
  obtain ⟨x, hx, rfl⟩ := Option.map_eq_some_iff.mp he
  obtain ⟨haddr, hpos⟩ := (keptAt_iff_of_timeAt hx ht).mp hk
  exact h.mirrored w hw i x hx haddr t ht hpos hlt

/-- The tick moves the cursor: what is now behind it was behind it before, or is in
the reply. -/
theorem LossInv.finish {s : PollSys} {reply : List Nat} {maxAt : Int} {inserted : Nat}
    (h : LossInv s) (hstage : s.stage = .appending reply inserted maxAt true)
    (hties : TiesInside s .resume) (hpoll : PollInv (s.finish inserted maxAt)) :
    LossInv (s.finish inserted maxAt) := by
  obtain ⟨is, hset, hcounted⟩ := h.counted
  obtain ⟨is', hset', hbeh⟩ := h.poll.behind
  have hst := h.poll.stage
  have hpage := h.reply
  simp only [PollSys.Settled, PollSys.StageOK, PollSys.ReplyOK, hstage] at hset hset' hst hpage
  obtain rfl : is' = is := List.append_cancel_right (hset'.symm.trans hset)
  have hsc := hst.2.1
  refine ⟨hpoll, h.order, trivial, fun w hw i hk t ht hlt => ?_, _, hset,
    fun i hi w hw ht => ?_⟩
  · by_cases hmoves : maxAt > s.worker.watermarkMs.getD (-1)
    · obtain rfl := Option.some.inj ((tickFinish_moved hmoves inserted).symm.trans hw)
      by_cases hold : ∃ v, s.worker.watermarkMs = some v ∧ t < v
      · obtain ⟨v, hv, htv⟩ := hold
        exact h.complete v hv i hk t ht htv
      have hpast : ∀ v, s.worker.watermarkMs = some v → v < maxAt := by
        intro v hv
        rw [hv, Option.getD_some] at hmoves
        exact hmoves
      have hnewest := hsc.newestKept hmoves
      obtain ⟨htie, hround⟩ := hties.2 rfl reply inserted maxAt hstage maxAt hnewest hpast
      have hafter : Counted s.log s.worker.watermarkMs i := by
        cases hv : s.worker.watermarkMs with
        | none =>
            obtain ⟨_, he, -⟩ := keptAt_iff.mp hk
            obtain ⟨x, hx, -⟩ := Option.map_eq_some_iff.mp he
            have hlog : s.log[i]? = some x := hx
            rw [Counted, hlog]
            rfl
        | some v =>
            rcases Int.lt_or_le v t with hvt | htv
            · exact counted_of_lt hk ht hvt
            · obtain rfl : t = v := Int.le_antisymm htv (Int.not_lt.mp fun hlt => hold ⟨v, hv, hlt⟩)
              by_contra hbefore
              exact hround t hv i ⟨hk, ht, hbefore⟩
      have hmem : i ∈ reply := by
        by_contra hnot
        -- outside the page and so after all of it: dated in the very last millisecond
        obtain ⟨j, hj, hkj, htj⟩ := hnewest.1
        have hle := h.order.timeAt_le (hpage.rest i hk hafter hnot j hj) htj ht
          (htj.pos_of_kept hkj) (ht.pos_of_kept hk)
        obtain rfl : t = maxAt := by omega
        exact hnot (htie i hk ht)
      show i ∈ s.origin
      rw [hset]
      exact List.mem_append_right _ (List.mem_filter.mpr ⟨hmem, hk⟩)
    · exact h.complete w ((tickFinish_stayed hmoves inserted).symm.trans hw) i hk t ht hlt
  · have hle := hsc.le_maxAt hbeh hi ht
    by_cases hmoves : maxAt > s.worker.watermarkMs.getD (-1)
    · obtain rfl := Option.some.inj ((tickFinish_moved hmoves inserted).symm.trans hw)
      omega
    · have hsame := (tickFinish_stayed hmoves inserted).symm.trans hw
      rcases List.mem_append.mp hi with hold | hnew
      · exact hcounted i hold w hsame ht
      · rw [← hsame]
        exact hpage.since i (List.mem_filter.mp hnew).1

theorem lossInv_step {fetchLimit : Nat} {s s' : PollSys} {ev : PollEvent} (h : LossInv s)
    (hties : TiesInside s ev) (ht : s.Trans Daemon.ordered fetchLimit ev s') : LossInv s' := by
  have hpoll := pollInv_step h.poll ht
  have hreply := replyOK_step (Q := Page) page_append page_of_answers h.poll.stage h.reply ht
  obtain ⟨is, hset, hcounted⟩ := h.counted
  cases ht with
  | append e hacc =>
      refine ⟨hpoll, inOrder_append h.order hacc, hreply, fun w hw i hk t hti hlt => ?_,
        is, hset.append h.poll.stage e, fun i hi w hw hti => ?_⟩
      · by_cases hi : i < s.log.length
        · exact h.complete w hw i (keptAt_append hi e ▸ hk) t ((timeAt_append hi).mp hti) hlt
        have hlen : i < (s.log ++ [e]).length := by
          obtain ⟨_, he, -⟩ := keptAt_iff.mp hk
          exact entryAt_lt he
        rw [List.length_append, List.length_singleton] at hlen
        obtain rfl : i = s.log.length := by omega
        have hkept := (keptAt_iff_of_timeAt (List.getElem?_concat_length) hti).mp hk
        have := hties.1 e rfl hkept.1 t (timeAt_concat.mp hti) hkept.2 w hw
        omega
      · have hlt := h.poll.origin_lt (hset.subset i hi)
        exact (counted_append hlt e).mpr (hcounted i hi w hw ((timeAt_append hlt).mp hti))
  | overlap hbusy => exact ⟨hpoll, h.order, hreply, h.complete, is, hset, hcounted⟩
  | start hfree =>
      exact ⟨hpoll, h.order, hreply, h.complete, is, h.poll.settled_of_idle hset hfree, hcounted⟩
  | answer req reply hstage hin hans =>
      simp only [PollSys.Settled, hstage] at hset
      exact ⟨hpoll, h.order, hreply, h.complete, is, hset, hcounted⟩
  | callFails hstage =>
      exact ⟨hpoll, h.order, hreply, h.complete, is, hset.of_calling hstage, hcounted⟩
  | deliverFails dbOk reply hstage hsome =>
      simp only [PollSys.Settled, hstage] at hset
      exact ⟨hpoll, h.order, hreply, h.complete, is, hset, hcounted⟩
  | resumeFails reply inserted maxAt hstage =>
      simp only [PollSys.Settled, hstage] at hset
      exact ⟨hpoll, h.order, hreply, h.complete, is, hset, hcounted⟩
  | deliverNone dbOk reply hstage hnone =>
      have hstays := tickFinish_stayed (w := s.worker) (Int.lt_irrefl _) 0
      simp only [PollSys.Settled, hstage] at hset
      exact ⟨hpoll, h.order, hreply, fun w hw => h.complete w (hstays.symm.trans hw), is, hset,
        fun i hi w hw => hcounted i hi w (hstays.symm.trans hw)⟩
  | deliverRows reply table hstage hsome happ =>
      simp only [PollSys.Settled, hstage] at hset
      refine ⟨hpoll, h.order, hreply, fun w hw i hk t hti hlt => ?_, is,
        by rw [PollSys.Settled, hset], hcounted⟩
      exact List.mem_append_left _ (h.complete w hw i hk t hti hlt)
  | resumeOk reply inserted maxAt hstage => exact h.finish hstage hties hpoll

theorem lossInv_init : LossInv {} :=
  ⟨pollInv_init [], .nil, trivial, fun w hw => (by cases hw), [], rfl,
    fun _ hi => (by cases hi)⟩

/-- A step that leaves the mirror complete had no tie outside the page. -/
theorem tiesInside_of_complete {fetchLimit : Nat} {s s' : PollSys} {ev : PollEvent}
    (h : LossInv s) (ht : s.Trans Daemon.ordered fetchLimit ev s') (hok : Complete s') :
    TiesInside s ev := by
  refine ⟨?_, ?_⟩
  · rintro e rfl haddr t htime hpos w hw
    cases ht with
    | append e hacc =>
        by_contra hlt
        have hmem := hok.mirrored w hw s.log.length e List.getElem?_concat_length haddr t
          (timeAt_concat.mpr htime) hpos (by omega)
        exact Nat.lt_irrefl _ (h.poll.origin_lt hmem)
  · rintro rfl reply inserted maxAt hstage t hnewest hpast
    obtain ⟨is, hset, hcounted⟩ := h.counted
    obtain ⟨is', hset', hbeh⟩ := h.poll.behind
    have hst := h.poll.stage
    have hpage := h.reply
    simp only [PollSys.Settled, PollSys.StageOK, PollSys.ReplyOK, hstage] at hset hset' hst hpage
    obtain rfl : is' = is := List.append_cancel_right (hset'.symm.trans hset)
    cases ht with
    | resumeFails reply' inserted' maxAt' hstage' => rw [hstage] at hstage'; cases hstage'
    | resumeOk reply' inserted' maxAt' hstage' =>
        obtain ⟨rfl, rfl, rfl, -⟩ := Stage.appending.inj (hstage.symm.trans hstage')
        obtain ⟨rfl, hmoves⟩ := hst.2.1.maxAt_eq hnewest hpast
        have hmem : ∀ {i u}, keptAt s.log i = true → TimeAt s.log i u → u ≤ maxAt →
            i ∈ is' ∨ i ∈ reply := by
          intro i u hk hti hle
          have horigin : i ∈ s.origin :=
            hok.of_kept (tickFinish_moved hmoves inserted) hk hti (by omega)
          rw [hset] at horigin
          exact (List.mem_append.mp horigin).imp_right fun hnew => (List.mem_filter.mp hnew).1
        refine ⟨fun i hk hti => ?_, fun w hw i hround => ?_⟩
        · rcases hmem hk hti (Int.le_refl _) with hold | hnew
          · obtain ⟨v, hv, hle⟩ := hbeh i hold maxAt hti
            have := hpast v hv
            omega
          · exact hnew
        · have := hpast w hw
          rcases hmem hround.kept hround.time (by omega) with hold | hnew
          · exact hround.before (hcounted i hold w hw hround.time)
          · exact hround.before (hw ▸ hpage.since i hnew)

/-- **No event is lost, as long as the page holds its last millisecond.** The mirror
is complete up to the cursor in every state of a run exactly when no event is logged
in a millisecond the cursor has passed, and every page that moves the cursor holds all
the events of the millisecond it moves past, with none dated at the cursor by rounding. -/
theorem nothingLost_iff (fetchLimit : Nat) (es : List PollEvent) :
    (auditPoll Daemon.ordered fetchLimit).Always Complete es
      ↔ (auditPoll Daemon.ordered fetchLimit).Meets TiesInside es :=
  Machine.always_iff_meets (I := LossInv) lossInv_init
    (fun _ _ _ h hc hst => lossInv_step h hc (PollSys.trans_of_step hst))
    (fun _ h => h.mirror_complete)
    (fun _ _ _ h hst hok => tiesInside_of_complete h (PollSys.trans_of_step hst) hok)

end Loss

/-! ## A tie cut by the limit -/

/-- Two events of one millisecond, fetched one at a time. -/
def tieRun : List PollEvent :=
  .append (loggedAt 1000) :: .append (loggedAt 1000) :: fullTick [0]

theorem run_tieRun :
    ((@auditPoll asciiUnicode Daemon.ordered 1 []).run tieRun).map
      (fun s => (s.log, s.origin, s.worker.watermarkMs))
      = some ([loggedAt 1000, loggedAt 1000], [0], some 1001) := by
  decide +kernel

/-- The second event is behind the cursor and not in the table. -/
theorem not_nothingLost_tieRun :
    ¬(@auditPoll asciiUnicode Daemon.ordered 1 []).Always (@Complete asciiUnicode) tieRun := by
  intro h
  let _ : Unicode := asciiUnicode
  obtain ⟨s, hs, heq⟩ := Option.map_eq_some_iff.mp run_tieRun
  obtain ⟨hlog, horigin, hw⟩ : s.log = _ ∧ s.origin = _ ∧ s.worker.watermarkMs = _ := by
    simpa only [Prod.mk.injEq] using heq
  have hok := h tieRun (List.prefix_refl _) s hs
  have hmem := hok.mirrored 1001 hw 1 (loggedAt 1000) (by rw [hlog]; rfl) (by decide) 1000
    ⟨mapAuditEvent (loggedAt 1000), by rw [hlog]; rfl, occurredAt_loggedAt 1000⟩ (by decide)
    (by decide)
  rw [horigin] at hmem
  revert hmem
  decide

end GatewayConsole
