import GatewayConsole.Machine
import GatewayConsole.Paging
import GatewayConsole.Repo

/-!
# Paging through the audit log

The reading of `audit_events` page by page, on both sides: `listRecent` with its `before`
cursor, and the `AdminAudit` component that keeps the cursor in the browser.

A table is kept with what SQLite promises of its ids (`AuditTable`), which makes the order
of `listRecent` the reverse of the insertion order, and a page of it a page of the library
(`listRecent_eq`). `auditPages` is the bare reader, beside which rows come in at any moment;
`adminAudit` is the screen, whose fetches are answered and arrive at moments of their own,
or fail. What the screen shows is what the bare reader has received: `ScreenInv` carries a
run of the reader along with every run of the screen.
-/

namespace GatewayConsole

/-! ## The table and its reader -/

/-- `audit_events`, as `AUTOINCREMENT` and inserts alone leave it. -/
structure AuditTable extends AuditEvents where
  ordered : rows.Pairwise fun a b => a.id < b.id
  ids : ∀ r ∈ rows, 0 < r.id ∧ r.id < nextId
  next : 0 < nextId

def AuditTable.append (t : AuditTable) (now : Int) (input : AuditEventInsert) : AuditTable where
  toAuditEvents := t.toAuditEvents.append now input
  ordered := by
    refine List.pairwise_append.mpr ⟨t.ordered, List.pairwise_singleton _ _, ?_⟩
    intro a ha b hb
    obtain rfl := List.mem_singleton.mp hb
    exact (t.ids a ha).2
  ids r hr := by
    rcases List.mem_append.mp hr with hr | hr
    · exact ⟨(t.ids r hr).1, Nat.lt_succ_of_lt (t.ids r hr).2⟩
    · obtain rfl := List.mem_singleton.mp hr
      exact ⟨t.next, Nat.lt_succ_self _⟩
  next := Nat.succ_pos _

theorem AuditTable.newestFirst (t : AuditTable) :
    Paging.NewestFirst (·.id) t.rows.reverse :=
  List.pairwise_reverse.mpr t.ordered

theorem AuditTable.listRecent_eq (t : AuditTable) (limit : Nat) (before : Option Nat) :
    t.listRecent { limit := some limit, before }
      = (Paging.older (·.id) before t.rows.reverse).take limit := by
  cases before with
  | none =>
      simp only [AuditEvents.listRecent, byIdDesc_eq_reverse t.ordered]
      rfl
  | some c =>
      simp only [AuditEvents.listRecent, byIdDesc_eq_reverse (t.ordered.filter _),
        Paging.older, List.filter_reverse]
      rfl

/-- The first fetch of `limit` rows, or the next one, with the id of the last row received
as the cursor. -/
def fetchPage (limit : Nat) (t : AuditTable) (p : Paging AuditEventRow) :
    Option (Paging AuditEventRow) :=
  if p.ended then none
  else
    some
      { present := if p.pages.isEmpty then t.rows.reverse else p.present
        pages := p.pages ++ [t.listRecent { limit := some limit, before := p.before (·.id) }] }

theorem fetchPage_eq (limit : Nat) (t : AuditTable) (p : Paging AuditEventRow) :
    fetchPage limit t p = p.fetch (·.id) limit t.rows.reverse := by
  rw [fetchPage, Paging.fetch, t.listRecent_eq]

structure PagingSys where
  table : AuditTable
  paging : Paging AuditEventRow := {}

inductive PagingEvent where
  | append (now : Int) (input : AuditEventInsert)
  | fetch
deriving Repr, DecidableEq

def PagingSys.step (limit : Nat) (s : PagingSys) : PagingEvent → Option PagingSys
  | .append now input => some { s with table := s.table.append now input }
  | .fetch => (fetchPage limit s.table s.paging).map fun paging => { s with paging }

/-- One reader of a table, and others that write to it. -/
def auditPages (limit : Nat) (table : AuditTable) : Machine PagingSys PagingEvent where
  init := { table }
  step := PagingSys.step limit

theorem pagingInv {limit : Nat} (hlimit : 0 < limit) (table : AuditTable) :
    (auditPages limit table).Invariant fun s =>
      Paging.Inv limit s.table.rows.reverse s.paging := by
  refine ⟨Paging.inv_empty _ _, ?_⟩
  intro s ev t h hst
  cases ev with
  | append now input =>
      obtain rfl := Option.some.inj hst
      have hrows : (s.table.append now input).rows.reverse
          = _ :: s.table.rows.reverse := List.reverse_concat
      rw [hrows]
      exact h.append _
  | fetch =>
      obtain ⟨p, hp, rfl⟩ := Option.map_eq_some_iff.mp hst
      rw [fetchPage_eq] at hp
      exact h.fetch hlimit s.table.newestFirst hp

/-- What the reader has received, of the rows present at its first fetch: the newest, and
all once an empty page has come, after at most one fetch more than there are rows. -/
structure PagesExactly (limit : Nat) (s : PagingSys) : Prop where
  exact : s.paging.Exact
  newestFirst : Paging.NewestFirst (·.id) s.paging.present
  stored : ∃ newer, s.table.rows = s.paging.present.reverse ++ newer
  goesOn : s.paging.ended = false → ∃ t, s.step limit .fetch = some t

theorem pagesExactly_of_inv {limit : Nat} {s : PagingSys}
    (h : Paging.Inv limit s.table.rows.reverse s.paging) : PagesExactly limit s := by
  obtain ⟨newer, hnewer⟩ := h.newer
  refine ⟨h.exact, ?_, ⟨newer.reverse, ?_⟩, fun hgo => ?_⟩
  · have hsorted := s.table.newestFirst
    rw [hnewer] at hsorted
    exact (List.pairwise_append.mp hsorted).2.1
  · rw [← List.reverse_append, ← hnewer, List.reverse_reverse]
  · simp [PagingSys.step, fetchPage, hgo]

/-! ## The service and the handler -/

structure AuditEvent where
  id : Nat
  occurredAt : Int
  actor : String
  action : String
  target : Option String
  ok : Bool
  message : Option String
deriving Repr, DecidableEq

def rowToDomain (r : AuditEventRow) : AuditEvent where
  id := r.id
  occurredAt := r.occurredAt
  actor := r.actor
  action := r.action
  target := r.target
  ok := r.ok = 1
  message := r.message

/-- `QuerySchema`, on the numbers the query strings are coerced to. -/
def acceptsAuditQuery (query : ListRecentOptions) : Bool :=
  query.limit.all (fun limit => 0 < limit && limit ≤ 500) && query.before.all (0 < ·)

/-- `handleListAuditLog` over `listRecent` of the service; none is the reply 400. -/
def handleListAuditLog (t : AuditEvents) (query : ListRecentOptions) :
    Option (List AuditEvent) :=
  if acceptsAuditQuery query then some ((t.listRecent query).map rowToDomain) else none

/-! ## The component -/

/-- `PAGE_SIZE`. -/
def pageSize : Nat := 50

structure AdminAudit where
  events : List AuditEvent := []
  cursor : Option Nat := none
  loading : Bool := false
  error : String := ""
deriving Repr, DecidableEq

namespace AdminAudit

/-- `_loadFirstPage` up to its fetch. -/
def loadFirstPage (v : AdminAudit) : AdminAudit × ListRecentOptions :=
  ({ v with loading := true, error := "" }, { limit := some pageSize })

/-- `_loadOlder` up to its fetch, which it makes only with a cursor. -/
def loadOlder (v : AdminAudit) : Option (AdminAudit × ListRecentOptions) :=
  v.cursor.map fun cursor =>
    ({ v with loading := true, error := "" },
      { limit := some pageSize, before := some cursor })

/-- The rest of `_loadFirstPage`. -/
def firstPageLoaded (v : AdminAudit) (events : List AuditEvent) : AdminAudit :=
  { v with events, cursor := events.getLast?.map (·.id), loading := false }

/-- The rest of `_loadOlder`. -/
def olderLoaded (v : AdminAudit) (more : List AuditEvent) : AdminAudit :=
  { v with
    events := v.events ++ more
    cursor := if more.length > 0 then more.getLast?.map (·.id) else none
    loading := false }

/-- The `catch` and `finally` of both. -/
def loadFailed (v : AdminAudit) (message : String) : AdminAudit :=
  { v with error := message, loading := false }

/-- The "Older" button is there; it is disabled while loading. -/
def showsOlder (v : AdminAudit) : Bool := v.cursor.isSome && pageSize ≤ v.events.length

end AdminAudit

inductive AuditLoad where
  | firstPage
  | older
deriving Repr, DecidableEq

/-- The fetch in flight. `paging` is not part of the program: where the reading stands once
the answer has arrived. -/
structure AuditCall where
  load : AuditLoad
  options : ListRecentOptions
  answer : Option (List AuditEvent) := none
  paging : Paging AuditEventRow := {}

/-- The screen and the table behind it. `paging` is not part of the program: the reading of
which the screen shows the pages. -/
structure AuditScreen where
  table : AuditTable
  view : AdminAudit := {}
  call : Option AuditCall := none
  paging : Paging AuditEventRow := {}

inductive ScreenEvent where
  | append (now : Int) (input : AuditEventInsert)
  /-- The component is connected, or "Reload" is clicked. -/
  | loadFirstPage
  /-- "Older" is clicked. -/
  | loadOlder
  /-- The server handles the request. -/
  | answer
  /-- The answer arrives. -/
  | arrive
  /-- The fetch fails, before the server or after it. -/
  | fail (message : String)
deriving Repr, DecidableEq

/-- The reading that an answer continues. -/
def AuditScreen.readingOf (s : AuditScreen) : AuditLoad → Paging AuditEventRow
  | .firstPage => {}
  | .older => s.paging

def AuditScreen.step (s : AuditScreen) : ScreenEvent → Option AuditScreen
  | .append now input => some { s with table := s.table.append now input }
  | .loadFirstPage =>
      if s.view.loading then none
      else
        let (view, options) := s.view.loadFirstPage
        some { s with view, call := some { load := .firstPage, options } }
  | .loadOlder =>
      if s.view.loading || !s.view.showsOlder then none
      else
        s.view.loadOlder.map fun (view, options) =>
          { s with view, call := some { load := .older, options } }
  | .answer =>
      match s.call with
      | some ⟨load, options, none, _⟩ =>
          (handleListAuditLog s.table.toAuditEvents options).map fun events =>
            { s with
              call := some
                { load, options, answer := some events
                  paging := (fetchPage pageSize s.table (s.readingOf load)).getD {} } }
      | _ => none
  | .arrive =>
      match s.call with
      | some ⟨.firstPage, _, some events, paging⟩ =>
          some { s with view := s.view.firstPageLoaded events, call := none, paging }
      | some ⟨.older, _, some more, paging⟩ =>
          some { s with view := s.view.olderLoaded more, call := none, paging }
      | _ => none
  | .fail message =>
      match s.call with
      | some _ => some { s with view := s.view.loadFailed message, call := none }
      | none => none

/-- A new screen over a table. -/
def adminAudit (table : AuditTable) : Machine AuditScreen ScreenEvent where
  init := { table }
  step := AuditScreen.step

/-! ## The screen follows the reader -/

/-- The reader has got there over that table, from `table₀` on. -/
def Reads (table₀ table : AuditTable) (p : Paging AuditEventRow) : Prop :=
  ∃ es, (auditPages pageSize table₀).run es = some { table, paging := p }

theorem Reads.append {table₀ table : AuditTable} {p : Paging AuditEventRow}
    (h : Reads table₀ table p) (now : Int) (input : AuditEventInsert) :
    Reads table₀ (table.append now input) p := by
  obtain ⟨es, hes⟩ := h
  exact ⟨es ++ [.append now input], (Machine.run_snoc _).mpr ⟨_, hes, rfl⟩⟩

theorem Reads.fetch {table₀ table : AuditTable} {p q : Paging AuditEventRow}
    (h : Reads table₀ table p) (hfetch : fetchPage pageSize table p = some q) :
    Reads table₀ table q := by
  obtain ⟨es, hes⟩ := h
  refine ⟨es ++ [.fetch], (Machine.run_snoc _).mpr ⟨_, hes, ?_⟩⟩
  simp [auditPages, PagingSys.step, hfetch]

theorem Reads.inv {table₀ table : AuditTable} {p : Paging AuditEventRow}
    (h : Reads table₀ table p) : Paging.Inv pageSize table.rows.reverse p := by
  obtain ⟨es, hes⟩ := h
  exact (pagingInv (by decide) table₀).run hes

/-- The view shows the pages, and has the cursor after them. -/
structure Shows (p : Paging AuditEventRow) (v : AdminAudit) : Prop where
  events : v.events = p.pages.flatten.map rowToDomain
  cursor : v.cursor = p.before (·.id)

/-- A page that the reader has received next, as the answer has it. After the first page, it
is one of the same rows. -/
def NextPage (p q : Paging AuditEventRow) (events : List AuditEvent) : Prop :=
  ∃ page, q.pages = p.pages ++ [page] ∧ events = page.map rowToDomain
    ∧ (p.pages ≠ [] → q.present = p.present)

theorem before_of_nextPage {p q : Paging AuditEventRow} {events : List AuditEvent}
    (h : NextPage p q events) : events.getLast?.map (·.id) = q.before (·.id) := by
  obtain ⟨page, hpages, rfl, -⟩ := h
  simp only [Paging.before, hpages, List.getLast?_append, List.getLast?_singleton,
    Option.some_or, Option.bind_some, List.getLast?_map, Option.map_map]
  rfl

theorem Shows.firstPageLoaded {q : Paging AuditEventRow} {events : List AuditEvent}
    (h : NextPage {} q events) (v : AdminAudit) : Shows q (v.firstPageLoaded events) := by
  refine ⟨?_, before_of_nextPage h⟩
  obtain ⟨page, hpages, rfl, -⟩ := h
  simp [AdminAudit.firstPageLoaded, hpages]

theorem Shows.olderLoaded {p q : Paging AuditEventRow} {events : List AuditEvent}
    {v : AdminAudit} (hv : Shows p v) (h : NextPage p q events) :
    Shows q (v.olderLoaded events) := by
  refine ⟨?_, ?_⟩
  · obtain ⟨page, hpages, rfl, -⟩ := h
    simp [AdminAudit.olderLoaded, hv.events, hpages]
  · rw [← before_of_nextPage h]
    cases events with
    | nil => rfl
    | cons e events => simp [AdminAudit.olderLoaded]

theorem ended_of_before {p : Paging AuditEventRow} {c : Nat}
    (h : p.before (·.id) = some c) : p.ended = false := by
  obtain ⟨page, hpage, hlast⟩ := Option.bind_eq_some_iff.mp h
  cases page with
  | nil => cases hlast
  | cons r page => simp [Paging.ended, hpage]

/-- The screen shows what a reader of the table has received, and its fetch in flight is
that reader's next, or the first of another. -/
structure ScreenInv (table₀ : AuditTable) (s : AuditScreen) : Prop where
  fresh : Reads table₀ s.table {}
  reads : Reads table₀ s.table s.paging
  shows : Shows s.paging s.view
  loading : s.view.loading = s.call.isSome
  asked : ∀ c, s.call = some c → (s.readingOf c.load).ended = false
    ∧ c.options = { limit := some pageSize, before := (s.readingOf c.load).before (·.id) }
  answered : ∀ c events, s.call = some c → c.answer = some events →
    Reads table₀ s.table c.paging ∧ NextPage (s.readingOf c.load) c.paging events

theorem ScreenInv.readingOf {table₀ : AuditTable} {s : AuditScreen} (h : ScreenInv table₀ s)
    (load : AuditLoad) : Reads table₀ s.table (s.readingOf load) := by
  cases load with
  | firstPage => exact h.fresh
  | older => exact h.reads

theorem ScreenInv.append {table₀ : AuditTable} {s : AuditScreen} (h : ScreenInv table₀ s)
    (now : Int) (input : AuditEventInsert) :
    ScreenInv table₀ { s with table := s.table.append now input } where
  fresh := h.fresh.append now input
  reads := h.reads.append now input
  shows := h.shows
  loading := h.loading
  asked := h.asked
  answered c events hc ha := by
    obtain ⟨hreads, hnext⟩ := h.answered c events hc ha
    exact ⟨hreads.append now input, hnext⟩

/-- A click that sends a request. -/
theorem ScreenInv.call {table₀ : AuditTable} {s : AuditScreen} (h : ScreenInv table₀ s)
    {load : AuditLoad} {options : ListRecentOptions}
    (hasked : (s.readingOf load).ended = false
      ∧ options = { limit := some pageSize, before := (s.readingOf load).before (·.id) }) :
    ScreenInv table₀
      { s with
        view := { s.view with loading := true, error := "" }
        call := some { load, options } } where
  fresh := h.fresh
  reads := h.reads
  shows := ⟨h.shows.events, h.shows.cursor⟩
  loading := rfl
  asked c hc := by
    obtain rfl := Option.some.inj hc
    exact hasked
  answered c events hc ha := by
    obtain rfl := Option.some.inj hc
    cases ha

/-- The server's answer to a request in flight is what the reader fetches next. -/
theorem ScreenInv.fetch {table₀ : AuditTable} {s : AuditScreen} (h : ScreenInv table₀ s)
    {c : AuditCall} (hc : s.call = some c) :
    ∃ q, fetchPage pageSize s.table (s.readingOf c.load) = some q
      ∧ NextPage (s.readingOf c.load) q ((s.table.listRecent c.options).map rowToDomain) := by
  obtain ⟨hgo, hoptions⟩ := h.asked c hc
  simp only [fetchPage, hgo, hoptions]
  refine ⟨_, rfl, _, rfl, rfl, fun hpages => ?_⟩
  rw [List.isEmpty_eq_false_iff.mpr hpages]
  rfl

/-- The page the server answers with is the reader's next. -/
theorem ScreenInv.answer {table₀ : AuditTable} {s : AuditScreen} (h : ScreenInv table₀ s)
    {c : AuditCall} (hc : s.call = some c) :
    ScreenInv table₀
      { s with
        call := some
          { c with
            answer := some ((s.table.listRecent c.options).map rowToDomain)
            paging := (fetchPage pageSize s.table (s.readingOf c.load)).getD {} } } where
  fresh := h.fresh
  reads := h.reads
  shows := h.shows
  loading := h.loading.trans (by rw [hc]; rfl)
  asked c' hc' := by
    obtain rfl := Option.some.inj hc'
    exact h.asked c hc
  answered c' events hc' ha := by
    obtain rfl := Option.some.inj hc'
    obtain rfl := Option.some.inj ha
    obtain ⟨q, hfetch, hnext⟩ := h.fetch hc
    rw [hfetch]
    exact ⟨(h.readingOf c.load).fetch hfetch, hnext⟩

/-- The answer arrives, and the view has become that of the reader. -/
theorem ScreenInv.arrive {table₀ : AuditTable} {s : AuditScreen} (h : ScreenInv table₀ s)
    {p : Paging AuditEventRow} (hreads : Reads table₀ s.table p) {view : AdminAudit}
    (hshows : Shows p view) (hloading : view.loading = false) :
    ScreenInv table₀ { s with view, call := none, paging := p } where
  fresh := h.fresh
  reads := hreads
  shows := hshows
  loading := hloading
  asked _ hc := by cases hc
  answered _ _ hc := by cases hc

theorem screenInv (table : AuditTable) : (adminAudit table).Invariant (ScreenInv table) := by
  constructor
  · exact
      { fresh := ⟨[], rfl⟩, reads := ⟨[], rfl⟩, shows := ⟨rfl, rfl⟩, loading := rfl
        asked := fun _ hc => (by cases hc), answered := fun _ _ hc => (by cases hc) }
  intro s ev t h hst
  replace hst : s.step ev = some t := hst
  cases ev with
  | append now input =>
      obtain rfl := Option.some.inj hst
      exact h.append now input
  | loadFirstPage =>
      simp only [AuditScreen.step, Option.ite_none_left_eq_some, Option.some.injEq] at hst
      obtain ⟨-, rfl⟩ := hst
      exact h.call ⟨rfl, rfl⟩
  | loadOlder =>
      simp only [AuditScreen.step, Option.ite_none_left_eq_some] at hst
      obtain ⟨-, hst⟩ := hst
      obtain ⟨⟨view, options⟩, hload, rfl⟩ := Option.map_eq_some_iff.mp hst
      obtain ⟨c, hcursor, heq⟩ := Option.map_eq_some_iff.mp hload
      obtain ⟨rfl, rfl⟩ := Prod.mk.inj heq
      have hbefore : (s.readingOf .older).before (·.id) = some c :=
        h.shows.cursor.symm.trans hcursor
      exact h.call ⟨ended_of_before hbefore, by rw [hbefore]⟩
  | answer =>
      cases hc : s.call with
      | none => simp [AuditScreen.step, hc] at hst
      | some c =>
          obtain ⟨load, options, answer, paging⟩ := c
          cases answer with
          | some events => simp [AuditScreen.step, hc] at hst
          | none =>
              simp only [AuditScreen.step, hc, handleListAuditLog, Option.map_eq_some_iff,
                Option.ite_none_right_eq_some, Option.some.injEq] at hst
              obtain ⟨events, ⟨-, rfl⟩, rfl⟩ := hst
              exact h.answer hc
  | arrive =>
      cases hc : s.call with
      | none => simp [AuditScreen.step, hc] at hst
      | some c =>
          obtain ⟨load, options, answer, paging⟩ := c
          cases answer with
          | none => cases load <;> simp [AuditScreen.step, hc] at hst
          | some events =>
              obtain ⟨hreads, hnext⟩ := h.answered _ events hc rfl
              cases load with
              | firstPage =>
                  simp only [AuditScreen.step, hc, Option.some.injEq] at hst
                  subst hst
                  exact h.arrive hreads (.firstPageLoaded hnext _) rfl
              | older =>
                  simp only [AuditScreen.step, hc, Option.some.injEq] at hst
                  subst hst
                  exact h.arrive hreads (h.shows.olderLoaded hnext) rfl
  | fail message =>
      cases hc : s.call with
      | none => simp [AuditScreen.step, hc] at hst
      | some c =>
          simp only [AuditScreen.step, hc, Option.some.injEq] at hst
          subst hst
          exact h.arrive h.reads ⟨h.shows.events, h.shows.cursor⟩ rfl

/-- What the screen shows at any moment, and what it does next. -/
structure FollowsPaging (table₀ : AuditTable) (s : AuditScreen) : Prop where
  /-- The reading it follows is one of a reader with its page size. -/
  reads : Reads table₀ s.table s.paging
  shows : Shows s.paging s.view
  /-- At rest, with a row missing, there is an "Older" button. -/
  older : s.view.loading = false →
    (∃ row ∈ s.paging.present, rowToDomain row ∉ s.view.events) → s.view.showsOlder = true
  /-- At rest, "Reload" asks for the first page. -/
  reloads : s.view.loading = false → ∃ view, s.step .loadFirstPage = some
    { s with
      view
      call := some { load := .firstPage, options := { limit := some pageSize } } }
  /-- At rest, "Older" asks for the page before the last row received. -/
  goesOn : s.view.loading = false → s.view.showsOlder = true → ∃ view cursor,
    s.paging.before (·.id) = some cursor
    ∧ s.step .loadOlder = some
      { s with
        view
        call := some
          { load := .older, options := { limit := some pageSize, before := some cursor } } }
  /-- The server answers every request it sends with what the reader fetches next. -/
  answered : ∀ c, s.call = some c → c.answer = none → ∃ q events,
    fetchPage pageSize s.table (s.readingOf c.load) = some q
    ∧ NextPage (s.readingOf c.load) q events
    ∧ s.step .answer = some { s with call := some { c with answer := some events, paging := q } }
  /-- The answer that arrives takes the reading on by that page, and the view with it. -/
  arrives : ∀ c events, s.call = some c → c.answer = some events → ∃ view,
    NextPage (s.readingOf c.load) c.paging events
    ∧ s.step .arrive = some { s with view, call := none, paging := c.paging }
    ∧ Shows c.paging view ∧ view.loading = false

/-- The cursor is the id of a row, so that the handler takes it. -/
theorem Reads.before_pos {table₀ table : AuditTable} {p : Paging AuditEventRow}
    (h : Reads table₀ table p) {c : Nat} (hc : p.before (·.id) = some c) : 0 < c := by
  obtain ⟨newer, hnewer⟩ := h.inv.newer
  obtain ⟨page, hpage, hlast⟩ := Option.bind_eq_some_iff.mp hc
  obtain ⟨row, hrow, rfl⟩ := Option.map_eq_some_iff.mp hlast
  have hflat : row ∈ p.pages.flatten :=
    List.mem_flatten_of_mem (List.mem_of_getLast? hpage) (List.mem_of_getLast? hrow)
  have hrows : row ∈ table.rows.reverse := by
    rw [hnewer]
    exact List.mem_append_right _ (h.inv.exact.soFar.subset hflat)
  exact (table.ids row (List.mem_reverse.mp hrows)).1

theorem ScreenInv.followsPaging {table₀ : AuditTable} {s : AuditScreen}
    (h : ScreenInv table₀ s) : FollowsPaging table₀ s where
  reads := h.reads
  shows := h.shows
  older hrest := by
    rintro ⟨row, hrow, hmissing⟩
    have hflat : row ∉ s.paging.pages.flatten := fun hin =>
      hmissing (by rw [h.shows.events]; exact List.mem_map_of_mem hin)
    obtain ⟨hlen, hbefore⟩ := h.reads.inv.older_of_missing (·.id) hrow hflat
    simp only [AdminAudit.showsOlder, h.shows.events, h.shows.cursor, hbefore, Bool.true_and,
      List.length_map, decide_eq_true_eq]
    exact hlen
  reloads hrest := by
    simp only [AuditScreen.step, hrest, Bool.false_eq_true, if_false, AdminAudit.loadFirstPage]
    exact ⟨_, rfl⟩
  goesOn hrest holder := by
    obtain ⟨cursor, hcursor⟩ := Option.isSome_iff_exists.mp (Bool.and_eq_true_iff.mp holder).1
    refine ⟨{ s.view with loading := true, error := "" }, cursor,
      h.shows.cursor.symm.trans hcursor, ?_⟩
    simp only [AuditScreen.step, hrest, holder, AdminAudit.loadOlder, hcursor, Option.map_some,
      Bool.not_true, Bool.or_false, Bool.false_eq_true, if_false]
  answered c hc ha := by
    obtain ⟨q, hfetch, hnext⟩ := h.fetch hc
    refine ⟨q, _, hfetch, hnext, ?_⟩
    obtain ⟨-, hoptions⟩ := h.asked c hc
    have haccepts : acceptsAuditQuery c.options = true := by
      rw [hoptions]
      cases hb : (s.readingOf c.load).before (·.id) with
      | none => rfl
      | some cursor =>
          have hpos := (h.readingOf c.load).before_pos hb
          simp [acceptsAuditQuery, pageSize, hpos]
    obtain ⟨load, options, answer, paging⟩ := c
    obtain rfl : answer = none := ha
    replace hfetch : fetchPage pageSize s.table (s.readingOf load) = some q := hfetch
    simp [AuditScreen.step, hc, handleListAuditLog, haccepts, hfetch]
  arrives c events hc ha := by
    obtain ⟨-, hnext⟩ := h.answered c events hc ha
    obtain ⟨load, options, answer, paging⟩ := c
    obtain rfl : answer = some events := ha
    cases load with
    | firstPage =>
        exact ⟨s.view.firstPageLoaded events, hnext, by simp only [AuditScreen.step, hc],
          .firstPageLoaded hnext _, rfl⟩
    | older =>
        exact ⟨s.view.olderLoaded events, hnext, by simp only [AuditScreen.step, hc],
          h.shows.olderLoaded hnext, rfl⟩

/-- **Paging is complete and exact, and the screen follows it.** A reader of any page size
receives the rows present at its first fetch, each once and newest first, and ends; the
screen shows the pages of such a reader, with a way on while a row is missing, and what its
buttons send and the server answers is that reader's next page. -/
theorem auditPaging_exact :
    (∀ limit, 0 < limit → ∀ (table : AuditTable) (es : List PagingEvent) (s : PagingSys),
      (auditPages limit table).run es = some s → PagesExactly limit s)
    ∧ ∀ (table : AuditTable) (es : List ScreenEvent) (s : AuditScreen),
      (adminAudit table).run es = some s → FollowsPaging table s := by
  refine ⟨fun limit hlimit table es s hs => ?_, fun table es s hs => ?_⟩
  · exact pagesExactly_of_inv ((pagingInv hlimit table).run hs)
  · exact ((screenInv table).run hs).followsPaging

end GatewayConsole
