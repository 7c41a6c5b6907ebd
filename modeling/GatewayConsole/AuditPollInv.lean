import GatewayConsole.AuditPoll

/-!
# What holds of every run of the audit poll

The invariant that needs nothing of the daemon: every row of the table is the
observation of the event it came from (`Mirrors`), the guard `inFlight` is up
exactly while a tick is suspended, and no inserted event is dated after the
cursor, except those of a tick that has yet to move it. The cursor itself never
goes back.

The bound is not strict. An event dated exactly at the cursor is inserted and the
cursor stays where it is; what that does is the subject of `AuditPollDedup`.
-/

namespace GatewayConsole

/-! ## Positions of the log -/

/-- The entry at a position is dated `t`. -/
def TimeAt (log : List LoggedEvent) (i : Nat) (t : Int) : Prop :=
  ∃ e, entryAt log i = some e ∧ e.occurredAt = .int t

theorem entryAt_append {log : List LoggedEvent} {i : Nat} (h : i < log.length)
    (x : LoggedEvent) : entryAt (log ++ [x]) i = entryAt log i := by
  simp [entryAt, List.getElem?_append_left h]

theorem entryAt_lt {log : List LoggedEvent} {i : Nat} {e : ResolverAuditEntry}
    (h : entryAt log i = some e) : i < log.length := by
  obtain ⟨x, hx, -⟩ := Option.map_eq_some_iff.mp h
  exact (List.getElem?_eq_some_iff.mp hx).1

theorem entryAt_mono {log : List LoggedEvent} {i : Nat} {e : ResolverAuditEntry}
    (h : entryAt log i = some e) (x : LoggedEvent) : entryAt (log ++ [x]) i = some e := by
  rw [entryAt_append (entryAt_lt h), h]

theorem timeAt_append {log : List LoggedEvent} {i : Nat} (h : i < log.length)
    {x : LoggedEvent} {t : Int} : TimeAt (log ++ [x]) i t ↔ TimeAt log i t := by
  simp only [TimeAt, entryAt_append h]

theorem TimeAt.unique {log : List LoggedEvent} {i : Nat} {t u : Int}
    (ht : TimeAt log i t) (hu : TimeAt log i u) : t = u := by
  obtain ⟨e, he, htime⟩ := ht
  obtain ⟨e', he', htime'⟩ := hu
  obtain rfl := Option.some.inj (he.symm.trans he')
  exact Num.int.inj (htime.symm.trans htime')

theorem keptAt_iff {log : List LoggedEvent} {i : Nat} :
    keptAt log i = true ↔ ∃ e, entryAt log i = some e ∧ isKept e = true := by
  simp only [keptAt, Option.any_eq_true]

theorem keptAt_append {log : List LoggedEvent} {i : Nat} (h : i < log.length)
    (x : LoggedEvent) : keptAt (log ++ [x]) i = keptAt log i := by
  simp only [keptAt, entryAt_append h]

theorem filter_keptAt_append {log : List LoggedEvent} {reply : List Nat}
    (h : ∀ i ∈ reply, i < log.length) (x : LoggedEvent) :
    reply.filter (keptAt (log ++ [x])) = reply.filter (keptAt log) :=
  List.filter_congr fun i hi => keptAt_append (h i hi) x

theorem isKept_pos {e : ResolverAuditEntry} (hk : isKept e = true) {t : Int}
    (ht : e.occurredAt = .int t) : 0 < t := by
  simp only [isKept, ht, Bool.and_eq_true, Bool.not_eq_true', Num.le,
    decide_eq_false_iff_not] at hk
  omega

/-- A kept position is dated after 0. -/
theorem TimeAt.pos_of_kept {log : List LoggedEvent} {i : Nat} {t : Int}
    (ht : TimeAt log i t) (hk : keptAt log i = true) : 0 < t := by
  obtain ⟨e, he, htime⟩ := ht
  obtain ⟨e', he', hke⟩ := keptAt_iff.mp hk
  obtain rfl := Option.some.inj (he.symm.trans he')
  exact isKept_pos hke htime

/-! ## Behind the cursor -/

/-- Every event of the list is dated behind the cursor, in the sense of `R`; the
cursor is not null if there is one. -/
def Behind (R : Int → Int → Prop) (log : List LoggedEvent) (is : List Nat)
    (watermark : Option Int) : Prop :=
  ∀ i ∈ is, ∀ t, TimeAt log i t → ∃ w, watermark = some w ∧ R t w

/-- What a suspended tick knows of the reply it has scanned: the cursor it will
move to is the latest of the old one and of the kept dates. -/
structure Scanned (log : List LoggedEvent) (watermark : Option Int) (reply : List Nat)
    (maxAt : Int) : Prop where
  inLog : ∀ i ∈ reply, i < log.length
  ge : watermark.getD (-1) ≤ maxAt
  max : ∀ i ∈ reply, keptAt log i = true → ∀ t, TimeAt log i t → t ≤ maxAt
  source : maxAt = watermark.getD (-1)
    ∨ ∃ i ∈ reply, keptAt log i = true ∧ TimeAt log i maxAt

theorem Behind.append {R : Int → Int → Prop} {log : List LoggedEvent} {is : List Nat}
    {w : Option Int} (h : Behind R log is w) (hin : ∀ i ∈ is, i < log.length)
    (x : LoggedEvent) : Behind R (log ++ [x]) is w :=
  fun i hi t ht => h i hi t ((timeAt_append (hin i hi)).mp ht)

theorem Scanned.append {log : List LoggedEvent} {w : Option Int} {reply : List Nat}
    {maxAt : Int} (h : Scanned log w reply maxAt) (x : LoggedEvent) :
    Scanned (log ++ [x]) w reply maxAt where
  inLog i hi := by
    have := h.inLog i hi
    simp only [List.length_append, List.length_singleton]
    omega
  ge := h.ge
  max i hi hk t ht :=
    h.max i hi (keptAt_append (h.inLog i hi) x ▸ hk) t ((timeAt_append (h.inLog i hi)).mp ht)
  source := by
    rcases h.source with heq | ⟨i, hi, hk, ht⟩
    · exact Or.inl heq
    · exact Or.inr ⟨i, hi, (keptAt_append (h.inLog i hi) x).trans hk,
        (timeAt_append (h.inLog i hi)).mpr ht⟩

theorem Behind.imp {R R' : Int → Int → Prop} (hR : ∀ t w, R t w → R' t w)
    {log : List LoggedEvent} {is : List Nat} {w : Option Int} (h : Behind R log is w) :
    Behind R' log is w := by
  intro i hi t ht
  obtain ⟨v, hv, hr⟩ := h i hi t ht
  exact ⟨v, hv, hR t v hr⟩

theorem tickFinish_moved {w : Worker} {maxAt : Int} (h : maxAt > w.watermarkMs.getD (-1))
    (inserted : Nat) : (tickFinish w inserted maxAt).1.watermarkMs = some (maxAt + 1) := by
  simp only [tickFinish, if_pos h]

theorem tickFinish_stayed {w : Worker} {maxAt : Int} (h : ¬maxAt > w.watermarkMs.getD (-1))
    (inserted : Nat) : (tickFinish w inserted maxAt).1.watermarkMs = w.watermarkMs := by
  simp only [tickFinish, if_neg h]

/-- No kept event of a scanned reply is dated after `maxAt`, and no event behind the
cursor is. -/
theorem Scanned.le_maxAt {log : List LoggedEvent} {w : Option Int} {reply : List Nat}
    {maxAt : Int} (h : Scanned log w reply maxAt) {is : List Nat}
    (hbeh : Behind (· ≤ ·) log is w) {i : Nat} (hi : i ∈ is ++ reply.filter (keptAt log))
    {t : Int} (ht : TimeAt log i t) : t ≤ maxAt := by
  rcases List.mem_append.mp hi with hold | hnew
  · obtain ⟨v, hv, htv⟩ := hbeh i hold t ht
    have hge := h.ge
    rw [hv, Option.getD_some] at hge
    exact Int.le_trans htv hge
  · obtain ⟨hmem, hk⟩ := List.mem_filter.mp hnew
    exact h.max i hmem hk t ht

/-- When a tick moves the cursor, the events it inserted fall strictly behind it. -/
theorem Scanned.behind_moved {log : List LoggedEvent} {w : Worker} {reply : List Nat}
    {maxAt : Int} (h : Scanned log w.watermarkMs reply maxAt) {is : List Nat}
    (hbeh : Behind (· ≤ ·) log is w.watermarkMs) (hmoves : maxAt > w.watermarkMs.getD (-1))
    (inserted : Nat) :
    Behind (· < ·) log (is ++ reply.filter (keptAt log))
      (tickFinish w inserted maxAt).1.watermarkMs := by
  intro i hi t ht
  have hle := h.le_maxAt hbeh hi ht
  exact ⟨maxAt + 1, tickFinish_moved hmoves inserted, by omega⟩

/-- Whether or not a tick moves the cursor, no event it inserted is after it. -/
theorem Scanned.behind_finish {log : List LoggedEvent} {w : Worker} {reply : List Nat}
    {maxAt : Int} (h : Scanned log w.watermarkMs reply maxAt) {is : List Nat}
    (hbeh : Behind (· ≤ ·) log is w.watermarkMs) (inserted : Nat) :
    Behind (· ≤ ·) log (is ++ reply.filter (keptAt log))
      (tickFinish w inserted maxAt).1.watermarkMs := by
  by_cases hmoves : maxAt > w.watermarkMs.getD (-1)
  · exact (h.behind_moved hbeh hmoves inserted).imp fun _ _ => Int.le_of_lt
  intro i hi t ht
  rw [tickFinish_stayed hmoves]
  rcases List.mem_append.mp hi with hold | hnew
  · exact hbeh i hold t ht
  have hle := h.le_maxAt hbeh hi ht
  have hpos := ht.pos_of_kept (List.mem_filter.mp hnew).2
  cases hw : w.watermarkMs with
  | none =>
      rw [hw, Option.getD_none] at hmoves
      omega
  | some v =>
      rw [hw, Option.getD_some] at hmoves
      exact ⟨v, rfl, by omega⟩

/-- `b` is at or after `a`; null comes before every time. -/
def CursorLe (a b : Option Int) : Prop := ∀ v, a = some v → ∃ w, b = some w ∧ v ≤ w

theorem CursorLe.refl (a : Option Int) : CursorLe a a := fun v hv => ⟨v, hv, Int.le_refl v⟩

theorem CursorLe.trans {a b c : Option Int} (hab : CursorLe a b) (hbc : CursorLe b c) :
    CursorLe a c := by
  intro v hv
  obtain ⟨w, hw, hvw⟩ := hab v hv
  obtain ⟨u, hu, hwu⟩ := hbc w hw
  exact ⟨u, hu, Int.le_trans hvw hwu⟩

theorem cursorLe_tickFinish (w : Worker) (inserted : Nat) (maxAt : Int) :
    CursorLe w.watermarkMs (tickFinish w inserted maxAt).1.watermarkMs := by
  intro v hv
  by_cases hmoves : maxAt > w.watermarkMs.getD (-1)
  · rw [hv, Option.getD_some] at hmoves
    exact ⟨maxAt + 1, tickFinish_moved (by rw [hv]; exact hmoves) inserted, by omega⟩
  · exact ⟨v, (tickFinish_stayed hmoves inserted).trans hv, Int.le_refl v⟩

/-! ## The stage of the running tick -/

/-- The inserted events the cursor has already passed or will not be moved past:
all but those of the insert a tick is suspended after. -/
def PollSys.Settled (s : PollSys) (is : List Nat) : Prop :=
  match s.stage with
  | .appending reply _ _ true => s.origin = is ++ reply.filter (keptAt s.log)
  | _ => s.origin = is

/-- What the stage of the running tick says about the rest of the state. -/
def PollSys.StageOK (s : PollSys) : Prop :=
  match s.stage with
  | .idle => s.worker.inFlight = false
  | .calling req => s.worker.inFlight = true ∧ req.since = s.worker.watermarkMs
  | .answered reply => s.worker.inFlight = true ∧ ∀ i ∈ reply, i < s.log.length
  | .appending reply _ maxAt _ =>
      s.worker.inFlight = true ∧ Scanned s.log s.worker.watermarkMs reply maxAt
        ∧ reply.filter (keptAt s.log) ≠ []

theorem PollSys.Settled.subset {s : PollSys} {is : List Nat} (h : s.Settled is) :
    ∀ i ∈ is, i ∈ s.origin := by
  intro i hi
  unfold Settled at h
  split at h
  · rw [h]; exact List.mem_append_left _ hi
  · rw [h]; exact hi

theorem PollSys.Settled.of_calling {s : PollSys} {is : List Nat} (h : s.Settled is)
    (hstage : (∃ req, s.stage = .calling req) ∨ ∃ reply, s.stage = .answered reply) :
    s.origin = is := by
  rcases hstage with ⟨req, hs⟩ | ⟨reply, hs⟩ <;> simpa only [Settled, hs] using h

theorem PollSys.StageOK.append {s : PollSys} (h : s.StageOK) (x : LoggedEvent) :
    PollSys.StageOK { s with log := s.log ++ [x] } := by
  unfold StageOK at h ⊢
  cases hs : s.stage with
  | idle | calling _ => simpa only [hs] using h
  | answered reply =>
      simp only [hs] at h ⊢
      refine ⟨h.1, fun i hi => ?_⟩
      have := h.2 i hi
      simp only [List.length_append, List.length_singleton]
      omega
  | appending reply n m ok =>
      simp only [hs] at h ⊢
      obtain ⟨hbusy, hsc, hsome⟩ := h
      exact ⟨hbusy, hsc.append x, by rw [filter_keptAt_append hsc.inLog]; exact hsome⟩

theorem PollSys.Settled.append {s : PollSys} {is : List Nat} (h : s.Settled is)
    (hst : s.StageOK) (x : LoggedEvent) :
    PollSys.Settled { s with log := s.log ++ [x] } is := by
  unfold Settled at h ⊢
  unfold StageOK at hst
  cases hs : s.stage with
  | appending reply n m ok =>
      simp only [hs] at hst
      cases ok with
      | true =>
          simp only [hs] at h ⊢
          rw [filter_keptAt_append hst.2.1.inLog]
          exact h
      | false => simpa only [hs] using h
  | idle | calling _ | answered _ => simpa only [hs] using h

/-! ## The invariant -/

section Invariant

variable [Unicode]

/-- The row is the observation of the event at the position, which is kept. -/
def Mirrors (log : List LoggedEvent) (row : RoutingObservationRow) (i : Nat) : Prop :=
  ∃ e, entryAt log i = some e ∧ isKept e = true ∧ row.Holds (eventToObservation e)

theorem Mirrors.timeAt {log : List LoggedEvent} {row : RoutingObservationRow} {i : Nat}
    (h : Mirrors log row i) : TimeAt log i row.observedAt := by
  obtain ⟨e, he, -, hrow⟩ := h
  exact ⟨e, he, hrow.observedAt⟩

structure PollInv (s : PollSys) : Prop where
  aligned : List.Forall₂ (Mirrors s.log) s.table.rows s.origin
  stage : s.StageOK
  behind : ∃ is, s.Settled is ∧ Behind (· ≤ ·) s.log is s.worker.watermarkMs

theorem PollInv.origin_mirrors {s : PollSys} (h : PollInv s) {i : Nat} (hi : i ∈ s.origin) :
    ∃ row ∈ s.table.rows, Mirrors s.log row i := by
  obtain ⟨j, hj, rfl⟩ := List.getElem_of_mem hi
  have hlen := h.aligned.length_eq
  exact ⟨s.table.rows[j], List.getElem_mem _, (List.forall₂_iff_get.mp h.aligned).2 j (by omega) hj⟩

theorem PollInv.row_mirrors {s : PollSys} (h : PollInv s) {row : RoutingObservationRow}
    (hrow : row ∈ s.table.rows) : ∃ i ∈ s.origin, Mirrors s.log row i := by
  obtain ⟨j, hj, rfl⟩ := List.getElem_of_mem hrow
  have hlen := h.aligned.length_eq
  exact ⟨s.origin[j], List.getElem_mem _, (List.forall₂_iff_get.mp h.aligned).2 j hj (by omega)⟩

theorem PollInv.origin_lt {s : PollSys} (h : PollInv s) {i : Nat} (hi : i ∈ s.origin) :
    i < s.log.length := by
  obtain ⟨row, -, e, he, -⟩ := h.origin_mirrors hi
  exact entryAt_lt he

/-! ## The log grows -/

theorem PollInv.append {s : PollSys} (h : PollInv s) (x : LoggedEvent) :
    PollInv { s with log := s.log ++ [x] } := by
  obtain ⟨is, hset, hbeh⟩ := h.behind
  refine ⟨h.aligned.imp fun row i ⟨e, he, hk, hrow⟩ => ⟨e, entryAt_mono he x, hk, hrow⟩,
    h.stage.append x, is, hset.append h.stage x, ?_⟩
  exact hbeh.append (fun i hi => h.origin_lt (hset.subset i hi)) x

/-! ## The tick settles -/

theorem PollInv.reject {s : PollSys} {is : List Nat}
    (haligned : List.Forall₂ (Mirrors s.log) s.table.rows s.origin) (horigin : s.origin = is)
    (hbeh : Behind (· ≤ ·) s.log is s.worker.watermarkMs) : PollInv s.reject :=
  ⟨haligned, rfl, is, horigin, hbeh⟩

theorem PollInv.finish {s : PollSys} {reply : List Nat} {maxAt : Int} {is : List Nat}
    (haligned : List.Forall₂ (Mirrors s.log) s.table.rows s.origin)
    (horigin : s.origin = is ++ reply.filter (keptAt s.log))
    (hsc : Scanned s.log s.worker.watermarkMs reply maxAt)
    (hbeh : Behind (· ≤ ·) s.log is s.worker.watermarkMs) (inserted : Nat) :
    PollInv (s.finish inserted maxAt) :=
  ⟨haligned, rfl, _, horigin, hsc.behind_finish hbeh inserted⟩

/-- The scan of a reply within the log. -/
theorem scanned_scan {log : List LoggedEvent} (w : Option Int) {reply : List Nat}
    (hin : ∀ i ∈ reply, i < log.length) :
    Scanned log w reply (scan w (reply.filterMap (entryAt log))).maxAt where
  inLog := hin
  ge := le_scan_maxAt _ _
  max i hi hk t ht := by
    obtain ⟨e, he, htime⟩ := ht
    obtain ⟨e', he', hke⟩ := keptAt_iff.mp hk
    obtain rfl := Option.some.inj (he.symm.trans he')
    exact kept_le_scan_maxAt (List.mem_filterMap.mpr ⟨i, hi, he⟩) hke htime
  source := by
    rcases scan_maxAt_source w (reply.filterMap (entryAt log)) with heq | ⟨e, he, hk, htime⟩
    · exact Or.inl heq
    · obtain ⟨i, hi, hie⟩ := List.mem_filterMap.mp he
      exact Or.inr ⟨i, hi, keptAt_iff.mpr ⟨e, hie, hk⟩, e, hie, htime⟩

/-- The rows of an insert mirror the kept positions of the reply. -/
theorem forall₂_mirrors {log : List LoggedEvent} {reply : List Nat}
    {added : List RoutingObservationRow} {w : Option Int}
    (h : List.Forall₂ RoutingObservationRow.Holds added
      (scan w (reply.filterMap (entryAt log))).rows) :
    List.Forall₂ (Mirrors log) added (reply.filter (keptAt log)) := by
  rw [scan_rows, filter_filterMap_entryAt] at h
  induction reply generalizing added with
  | nil =>
      cases h
      exact .nil
  | cons i reply ih =>
      cases hk : keptAt log i with
      | false =>
          rw [List.filter_cons_of_neg (by simp [hk])] at h ⊢
          exact ih h
      | true =>
          obtain ⟨e, he, hke⟩ := keptAt_iff.mp hk
          rw [List.filter_cons_of_pos hk] at h ⊢
          rw [List.filterMap_cons_some he, List.map_cons] at h
          cases h with
          | cons hrow hrest => exact .cons ⟨e, he, hke, hrow⟩ (ih hrest)

/-- When no tick is running, every inserted event is settled. -/
theorem PollInv.settled_of_idle {s : PollSys} (h : PollInv s) {is : List Nat}
    (hset : s.Settled is) (hfree : s.worker.inFlight = false) : s.origin = is := by
  have hst := h.stage
  unfold PollSys.StageOK at hst
  unfold PollSys.Settled at hset
  split at hset
  · rename_i heq
    rw [heq] at hst
    rw [hst.1] at hfree
    cases hfree
  · exact hset

/-! ## Every step -/

theorem pollInv_step {D : Daemon} {fetchLimit : Nat} {s t : PollSys} {ev : PollEvent}
    (h : PollInv s) (ht : s.Trans D fetchLimit ev t) : PollInv t := by
  obtain ⟨is, hset, hbeh⟩ := h.behind
  have hst := h.stage
  cases ht with
  | append e hacc => exact h.append e
  | overlap hbusy => exact ⟨h.aligned, h.stage, is, hset, hbeh⟩
  | start hfree =>
      exact ⟨h.aligned, ⟨rfl, rfl⟩, is, h.settled_of_idle hset hfree, hbeh⟩
  | answer req reply hstage hin hans =>
      simp only [PollSys.Settled, PollSys.StageOK, hstage] at hset hst
      exact ⟨h.aligned, ⟨hst.1, hin⟩, is, hset, hbeh⟩
  | callFails hstage => exact PollInv.reject h.aligned (hset.of_calling hstage) hbeh
  | deliverNone dbOk reply hstage hnone =>
      simp only [PollSys.Settled, PollSys.StageOK, hstage] at hset hst
      have hsc := scanned_scan s.worker.watermarkMs hst.2
      rw [scan_maxAt_of_none (by rw [filter_filterMap_entryAt, hnone]; rfl)] at hsc
      exact PollInv.finish h.aligned (by rw [hnone, List.append_nil]; exact hset) hsc hbeh 0
  | deliverRows reply table hstage hsome happ =>
      simp only [PollSys.Settled, PollSys.StageOK, hstage] at hset hst
      obtain ⟨added, hadd, hholds⟩ := appendBatch_rows happ
      refine ⟨?_, ⟨hst.1, scanned_scan _ hst.2, hsome⟩, is, by rw [PollSys.Settled]; rw [hset],
        hbeh⟩
      show List.Forall₂ (Mirrors s.log) table.rows _
      rw [hadd]
      exact List.rel_append h.aligned (forall₂_mirrors hholds)
  | deliverFails dbOk reply hstage hsome =>
      simp only [PollSys.Settled, PollSys.StageOK, hstage] at hset hst
      exact ⟨h.aligned, ⟨hst.1, scanned_scan _ hst.2, hsome⟩, is, hset, hbeh⟩
  | resumeOk reply inserted maxAt hstage =>
      simp only [PollSys.Settled, PollSys.StageOK, hstage] at hset hst
      exact PollInv.finish h.aligned hset hst.2.1 hbeh inserted
  | resumeFails reply inserted maxAt hstage =>
      simp only [PollSys.Settled, hstage] at hset
      exact PollInv.reject h.aligned hset hbeh

theorem pollInv_init (log : List LoggedEvent) : PollInv { log } :=
  ⟨.nil, rfl, [], rfl, fun _ hi => by cases hi⟩

theorem pollInv (D : Daemon) (fetchLimit : Nat) (log : List LoggedEvent) :
    (auditPoll D fetchLimit log).Invariant PollInv :=
  ⟨pollInv_init log, fun _ _ _ h hst => pollInv_step h (PollSys.trans_of_step hst)⟩

/-! ## What the daemon promises of a reply

A fact `Q` about a reply and the cursor it was asked for, true when the daemon
answers and kept when the log grows, is true of the reply the tick works on. -/

def PollSys.ReplyOK (Q : List LoggedEvent → List Nat → Option Int → Prop) (s : PollSys) : Prop :=
  match s.stage with
  | .answered reply | .appending reply _ _ _ => Q s.log reply s.worker.watermarkMs
  | _ => True

theorem replyOK_step {D : Daemon} {fetchLimit : Nat}
    {Q : List LoggedEvent → List Nat → Option Int → Prop}
    (hgrow : ∀ {log reply w} (x : LoggedEvent), (∀ i ∈ reply, i < log.length) →
      Q log reply w → Q (log ++ [x]) reply w)
    (hans : ∀ {log req reply}, D.answers log req reply = true → Q log reply req.since)
    {s t : PollSys} {ev : PollEvent} (hst : s.StageOK) (h : s.ReplyOK Q)
    (ht : s.Trans D fetchLimit ev t) : t.ReplyOK Q := by
  cases ht with
  | append e hacc =>
      unfold PollSys.ReplyOK at h ⊢
      unfold PollSys.StageOK at hst
      cases hs : s.stage with
      | idle | calling _ => simp only
      | answered reply =>
          simp only [hs] at h hst ⊢
          exact hgrow e hst.2 h
      | appending reply n m ok =>
          simp only [hs] at h hst ⊢
          exact hgrow e hst.2.1.inLog h
  | overlap hbusy => exact h
  | answer req reply hstage hin hreply =>
      simp only [PollSys.StageOK, hstage] at hst
      show Q s.log reply s.worker.watermarkMs
      rw [← hst.2]
      exact hans hreply
  | deliverRows reply table hstage | deliverFails dbOk reply hstage =>
      simpa only [PollSys.ReplyOK, hstage] using h
  | start | callFails | deliverNone | resumeOk | resumeFails => trivial

/-! ## The cursor never goes back -/

theorem cursorLe_step {D : Daemon} {fetchLimit : Nat} {s t : PollSys} {ev : PollEvent}
    (ht : s.Trans D fetchLimit ev t) : CursorLe s.worker.watermarkMs t.worker.watermarkMs := by
  cases ht with
  | deliverNone => exact cursorLe_tickFinish s.worker 0 _
  | resumeOk => exact cursorLe_tickFinish s.worker 0 _
  | append | overlap | start | answer | callFails | deliverRows | deliverFails | resumeFails =>
      exact CursorLe.refl _

/-- From any state of a run on, the cursor is at or after where it is now. -/
theorem cursorLe_runFrom {D : Daemon} {fetchLimit : Nat} {log : List LoggedEvent}
    {es : List PollEvent} {s t : PollSys}
    (h : (auditPoll D fetchLimit log).runFrom s es = some t) :
    CursorLe s.worker.watermarkMs t.worker.watermarkMs :=
  Machine.run_mono (R := fun a b => CursorLe a.worker.watermarkMs b.worker.watermarkMs)
    (fun _ => CursorLe.refl _) CursorLe.trans
    (fun _ _ _ hst => cursorLe_step (PollSys.trans_of_step hst)) h

end Invariant

end GatewayConsole
