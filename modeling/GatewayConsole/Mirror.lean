import GatewayConsole.AuditPollInv
import GatewayConsole.Routing

/-!
# The mirror and its readers

The worker stores the lower-cased address of an event (`eventToObservation`), and the
repository compares addresses exactly (`listRecentForOrch`). Between the two stand
the service and the handler, which pass the address on as the client spelled it. So a
reader finds the rows of an orch under one spelling only, the one in lower case:
`mirrorReadable_iff`.
-/

namespace GatewayConsole

/-! ## The latest of a list of rows -/

/-- The greatest time of the rows; null if there are none. -/
def IsLatest (rows : List RoutingObservationRow) : Option Int → Prop
  | none => rows = []
  | some m => (∃ r ∈ rows, r.observedAt = m) ∧ ∀ r ∈ rows, r.observedAt ≤ m

theorem isLatest_head {rows out : List RoutingObservationRow} {n : Nat} (hn : 0 < n)
    (h : IsNewest (·.observedAt) n rows out) :
    IsLatest rows ((out.map rowToObservation).head?.map (·.observedAt)) := by
  cases out with
  | nil => exact (h.nil_iff hn).mp rfl
  | cons r out =>
      obtain ⟨hmem, hmax⟩ := h.head_max rfl
      exact ⟨⟨r, hmem, rfl⟩, hmax⟩

/-! ## The rows of an address -/

section Mirror

variable [Unicode]

/-- The rows inserted for events whose orch address is `address` up to letter case. -/
def insertedFor (s : PollSys) (address : String) : List RoutingObservationRow :=
  ((s.table.rows.zip s.origin).filter fun p =>
    s.log[p.2]?.any fun e => asciiLower e.ethAddress = asciiLower address).map Prod.fst

/-- A mirrored row is keyed by the lower-cased address of its event. -/
theorem Mirrors.orchAddress {log : List LoggedEvent} {row : RoutingObservationRow} {i : Nat}
    (h : Mirrors log row i) {e : LoggedEvent} (he : log[i]? = some e) :
    row.orchAddress = toLowerCase e.ethAddress := by
  obtain ⟨entry, hentry, hk, hrow⟩ := h
  rw [entryAt, he, Option.map_some] at hentry
  obtain rfl := Option.some.inj hentry
  rw [hrow.orchAddress]
  by_cases hempty : e.ethAddress = ""
  · simp [isKept, lacksOrch, mapAuditEvent, hempty] at hk
  · simp [eventToObservation, mapAuditEvent, hempty]

theorem filter_zip_mirrors {log : List LoggedEvent} {address : String}
    (h : isEthAddress address = true) :
    ∀ {rows : List RoutingObservationRow} {is : List Nat}, List.Forall₂ (Mirrors log) rows is →
      ((rows.zip is).filter fun p =>
          log[p.2]?.any fun e => asciiLower e.ethAddress = asciiLower address).map Prod.fst
        = rows.filter fun r => r.orchAddress = asciiLower address
  | [], _, .nil => rfl
  | row :: rows, i :: is, .cons hrow hrest => by
      have ih := filter_zip_mirrors h hrest
      obtain ⟨_, hentry, -⟩ := id hrow
      obtain ⟨e, he, -⟩ := Option.map_eq_some_iff.mp hentry
      have hkey : row.orchAddress = asciiLower address
          ↔ asciiLower e.ethAddress = asciiLower address := by
        rw [hrow.orchAddress he, ← toLowerCase_address h]
        exact toLowerCase_eq_address_iff h |>.trans (by rw [toLowerCase_address h])
      by_cases hsame : asciiLower e.ethAddress = asciiLower address
      · simp [he, hsame, hkey.mpr hsame, ih]
      · simp [he, hsame, mt hkey.mp hsame, ih]

/-- The rows inserted for an address are the ones keyed by its lower-case spelling. -/
theorem PollInv.insertedFor_eq {s : PollSys} (h : PollInv s) {address : String}
    (ha : isEthAddress address = true) :
    insertedFor s address = s.table.rows.filter fun r => r.orchAddress = asciiLower address :=
  filter_zip_mirrors ha h.aligned

theorem PollInv.row_lower {s : PollSys} (h : PollInv s) {row : RoutingObservationRow}
    (hrow : row ∈ s.table.rows) : ∃ x, row.orchAddress = toLowerCase x := by
  obtain ⟨i, -, hmir⟩ := h.row_mirrors hrow
  obtain ⟨_, hentry, -⟩ := id hmir
  obtain ⟨e, he, -⟩ := Option.map_eq_some_iff.mp hentry
  exact ⟨e.ethAddress, hmir.orchAddress he⟩

/-! ## What a reader returns -/

/-- What `getOrch` returns over a table, with these answers of the resolver and the chain. -/
def detailOf (order : ObservedOrder) (t : RoutingObservations) (address : String)
    (resolved : Option ResolvedOrch) (chain : ChainAnswers) : OrchDetail :=
  getOrch address resolved (listRecentForOrch order t address) chain

/-- The readers of one address see the newest of these rows. -/
structure ReadsNewest (order : ObservedOrder) (t : RoutingObservations)
    (rows : List RoutingObservationRow) (limit : Nat) (address : String)
    (resolved : Option ResolvedOrch) (chain : ChainAnswers) : Prop where
  listed : ∃ out, IsNewest (·.observedAt) limit rows out
    ∧ listObservations order t address (some limit) = out.map rowToObservation
  recent : ∃ out, IsNewest (·.observedAt) 200 rows out
    ∧ (detailOf order t address resolved chain).recentObservations = out.map rowToObservation
  last : ∀ row, (detailOf order t address resolved chain).orch = some row →
    IsLatest rows row.lastObservedAt
  missing : ∀ code name,
    handleGetOrch [("address", address)] (fun a => detailOf order t a resolved chain)
      = .ok (.notFound code name) → resolved = none ∧ rows = []

/-- A query that finds the newest of the rows makes every reader right. -/
theorem readsNewest_of_isNewest {order : ObservedOrder} {t : RoutingObservations}
    {rows : List RoutingObservationRow} {address : String} (ha : isEthAddress address = true)
    (h : ∀ limit : Option Nat,
      IsNewest (·.observedAt) (limit.getD 200) rows (listRecentForOrch order t address limit))
    (limit : Nat) (resolved : Option ResolvedOrch) (chain : ChainAnswers) :
    ReadsNewest order t rows limit address resolved chain where
  listed := ⟨_, h (some limit), rfl⟩
  recent := ⟨_, h none, by cases resolved <;> rfl⟩
  last row hrow := by
    cases resolved with
    | none => cases hrow
    | some r =>
        obtain rfl := Option.some.inj hrow
        exact isLatest_head (by decide) (h none)
  missing code name hreply := by
    rw [handleGetOrch, parseAddressParams_single ha] at hreply
    have hif := hreply
    simp only [bind, Except.bind, pure, Except.pure] at hif
    split at hif
    · rename_i hnone
      obtain ⟨horch, hlen⟩ := hnone
      cases resolved with
      | some r => cases horch
      | none =>
          refine ⟨rfl, ((h none).nil_iff (by decide)).mp ?_⟩
          simpa [detailOf, getOrch] using hlen
    · cases hif

/-! ## One address, two spellings -/

/-- Every reader of `a` and of `b`, two spellings of one address, sees the newest rows
inserted for it, and both see the same ones. -/
structure MirrorReadable (order : ObservedOrder) (s : PollSys) (limit : Nat) (a b : String)
    (resolved : String → Option ResolvedOrch) (chain : ChainAnswers) : Prop where
  first : ReadsNewest order s.table (insertedFor s a) limit a (resolved a) chain
  second : ReadsNewest order s.table (insertedFor s a) limit b (resolved b) chain
  same : listObservations order s.table a (some limit)
    = listObservations order s.table b (some limit)
    ∧ (detailOf order s.table a (resolved a) chain).recentObservations
      = (detailOf order s.table b (resolved b) chain).recentObservations

/-- No row is keyed by a spelling with an upper-case letter. -/
theorem PollInv.listRecent_eq_nil {s : PollSys} (h : PollInv s) {address : String}
    (ha : isEthAddress address = true) (hupper : asciiLower address ≠ address)
    (order : ObservedOrder) (limit : Option Nat) :
    listRecentForOrch order s.table address limit = [] := by
  have hnone : (s.table.rows.filter fun r => r.orchAddress = address) = [] := by
    refine List.filter_eq_nil_iff.mpr fun r hr => ?_
    obtain ⟨x, hx⟩ := h.row_lower hr
    rw [decide_eq_true_iff, hx]
    exact fun heq => hupper (asciiLower_of_toLowerCase_eq ha heq)
  have hnil := (order.perm ([] : List RoutingObservationRow)).eq_nil
  rw [listRecentForOrch, hnone, hnil, List.take_nil]

/-- In lower case, or when nothing was mirrored, the query finds the newest rows. -/
theorem PollInv.listRecent_isNewest {s : PollSys} (h : PollInv s) {a b : String}
    (ha : isEthAddress a = true) (hb : isEthAddress b = true)
    (hsame : asciiLower a = asciiLower b)
    (hok : insertedFor s a = [] ∨ asciiLower b = b) (order : ObservedOrder)
    (limit : Option Nat) :
    IsNewest (·.observedAt) (limit.getD 200) (insertedFor s a)
      (listRecentForOrch order s.table b limit) := by
  by_cases hlower : asciiLower b = b
  · rw [h.insertedFor_eq ha, hsame, hlower]
    exact listRecentForOrch_isNewest order s.table b limit
  · rw [hok.resolve_right hlower, h.listRecent_eq_nil hb hlower]
    exact IsNewest.of_nil

/-- A reader of a spelling with an upper-case letter misses what was mirrored. -/
theorem PollInv.not_readsNewest {s : PollSys} (h : PollInv s) {address : String}
    (ha : isEthAddress address = true) (hupper : asciiLower address ≠ address)
    {rows : List RoutingObservationRow} (hrows : rows ≠ []) (order : ObservedOrder)
    {limit : Nat} (hlimit : 0 < limit) (resolved : Option ResolvedOrch)
    (chain : ChainAnswers) :
    ¬ReadsNewest order s.table rows limit address resolved chain := by
  intro hreads
  obtain ⟨out, hnewest, hout⟩ := hreads.listed
  rw [listObservations, h.listRecent_eq_nil ha hupper, List.map_nil, eq_comm,
    List.map_eq_nil_iff] at hout
  exact hrows ((hnewest.nil_iff hlimit).mp hout)

/-- Unless the resolver knows it, an orch asked for with an upper-case letter is not
found, whatever was mirrored. -/
theorem PollInv.handleGetOrch_upper {s : PollSys} (h : PollInv s) {address : String}
    (ha : isEthAddress address = true) (hupper : asciiLower address ≠ address)
    (order : ObservedOrder) (chain : ChainAnswers) :
    handleGetOrch [("address", address)] (fun a => detailOf order s.table a none chain)
      = .ok (.notFound "orch_not_found" address) := by
  rw [handleGetOrch, parseAddressParams_single ha]
  simp [bind, Except.bind, pure, Except.pure, detailOf, h.listRecent_eq_nil ha hupper, getOrch]

/-- **The mirror is read in lower case only.** After any run of the worker, the readers
of two spellings of an address agree with the rows inserted for it exactly when there
are none, or both spellings are the lower-case one. -/
theorem mirrorReadable_iff {D : Daemon} {fetchLimit : Nat} {log : List LoggedEvent}
    {es : List PollEvent} {s : PollSys} (hrun : (auditPoll D fetchLimit log).run es = some s)
    {a b : String} (ha : isEthAddress a = true) (hb : isEthAddress b = true)
    (hsame : asciiLower a = asciiLower b) {limit : Nat} (hlimit : 0 < limit)
    (order : ObservedOrder) (resolved : String → Option ResolvedOrch) (chain : ChainAnswers) :
    MirrorReadable order s limit a b resolved chain
      ↔ insertedFor s a = [] ∨ asciiLower a = a ∧ asciiLower b = b := by
  have h := (pollInv D fetchLimit log).run hrun
  constructor
  · intro hread
    by_contra hnot
    rw [not_or, not_and_or] at hnot
    obtain ⟨hrows, hupper | hupper⟩ := hnot
    · exact h.not_readsNewest ha hupper hrows order hlimit _ _ hread.first
    · exact h.not_readsNewest hb hupper hrows order hlimit _ _ hread.second
  · intro hok
    have hqa := h.listRecent_isNewest ha ha rfl (hok.imp_right And.left) order
    have hqb := h.listRecent_isNewest ha hb hsame (hok.imp_right And.right) order
    have hlists : ∀ limit, listRecentForOrch order s.table a limit
        = listRecentForOrch order s.table b limit := by
      intro limit
      rcases hok with hnone | ⟨hla, hlb⟩
      · have hnil : ∀ {out}, IsNewest (·.observedAt) (limit.getD 200) (insertedFor s a) out →
            out = [] := by
          intro out hout
          rw [hnone] at hout
          simpa using hout.length
        rw [hnil (hqa limit), hnil (hqb limit)]
      · rw [← hla, hsame, hlb]
    refine ⟨readsNewest_of_isNewest ha hqa limit _ _, readsNewest_of_isNewest hb hqb limit _ _,
      ?_, ?_⟩
    · rw [listObservations, listObservations, hlists]
    · rw [detailOf, detailOf, hlists]
      cases resolved a <;> cases resolved b <;> rfl

end Mirror

/-! ## A spelling with one capital -/

def lowerSpelling : String := "0x00000000000000000000000000000000000000a1"

def upperSpelling : String := "0x00000000000000000000000000000000000000A1"

/-- One event of the orch is logged and mirrored. -/
def mirrorRun : List PollEvent :=
  [.append
    { «at» := some (atMillis 1000), ethAddress := lowerSpelling
      kind := "resolve", mode := 1, detail := "" },
   .invoke, .answer [0], .deliver true, .resume]

/-- No address is known to the resolver. -/
def unresolved : String → Option ResolvedOrch := fun _ => none

theorem run_mirrorRun :
    ∃ s, (@auditPoll asciiUnicode Daemon.any 1000 []).run mirrorRun = some s
      ∧ (insertedFor s lowerSpelling).length = 1 := by
  have hrun : ((@auditPoll asciiUnicode Daemon.any 1000 []).run mirrorRun).map
      (fun s => (insertedFor s lowerSpelling).length) = some 1 := by decide +kernel
  obtain ⟨s, hs, hlen⟩ := Option.map_eq_some_iff.mp hrun
  exact ⟨s, hs, hlen⟩

theorem mirrorReadable_lowerSpelling :
    ∃ s, (@auditPoll asciiUnicode Daemon.any 1000 []).run mirrorRun = some s
      ∧ @MirrorReadable asciiUnicode (Ranking.merge _) s 200 lowerSpelling lowerSpelling
          unresolved noChain := by
  obtain ⟨s, hrun, -⟩ := run_mirrorRun
  exact ⟨s, hrun, (@mirrorReadable_iff asciiUnicode Daemon.any 1000 [] mirrorRun s hrun
    lowerSpelling lowerSpelling (by decide) (by decide) rfl 200 (by decide) _ _ _).mpr
      (Or.inr ⟨by decide, by decide⟩)⟩

/-- With one letter of the address in upper case the mirrored event is not found. -/
theorem not_mirrorReadable_upperSpelling :
    isEthAddress upperSpelling = true ∧ asciiLower upperSpelling = asciiLower lowerSpelling
      ∧ ∃ s, (@auditPoll asciiUnicode Daemon.any 1000 []).run mirrorRun = some s
        ∧ (insertedFor s lowerSpelling).length = 1
        ∧ @handleGetOrch [("address", upperSpelling)]
            (fun a => @detailOf asciiUnicode (Ranking.merge _) s.table a none noChain)
          = .ok (.notFound "orch_not_found" upperSpelling)
        ∧ ¬@MirrorReadable asciiUnicode (Ranking.merge _) s 200 upperSpelling lowerSpelling
            unresolved noChain := by
  let _ : Unicode := asciiUnicode
  have hupper : isEthAddress upperSpelling = true := by decide
  have hcase : asciiLower upperSpelling ≠ upperSpelling := by decide
  obtain ⟨s, hrun, hone⟩ := run_mirrorRun
  have h := (pollInv Daemon.any 1000 []).run hrun
  refine ⟨hupper, by decide, s, hrun, hone, h.handleGetOrch_upper hupper hcase _ _, ?_⟩
  intro hread
  have hsame : insertedFor s upperSpelling = insertedFor s lowerSpelling := by
    have hlower : asciiLower upperSpelling = asciiLower lowerSpelling := by decide
    simp only [insertedFor, hlower]
  refine h.not_readsNewest hupper hcase (fun hnil => ?_) _ (by decide) _ _ hread.first
  rw [← hsame, hnil] at hone
  cases hone

end GatewayConsole
