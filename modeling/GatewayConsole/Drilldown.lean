import GatewayConsole.AdminApi
import GatewayConsole.Machine
import GatewayConsole.Routing

/-!
# The drilldown and the responses it shows

`components/admin-routing.js` and `components/admin-orch-detail.js`: the roster with the
inline detail of the selected row, and the page of one orch. Both ask `getOrch` for the orch
they show, and both write the response when it arrives, whatever is shown by then.
`_refreshOne` does compare the selection with its address, but before the `getOrch` it then
awaits.

A step is one turn of the event loop: an action of the operator, or the settling of one call
with what its continuation does up to the next `await`. `drilldown_iff` is when the data on
the screen is that of the orch on the screen.

`DetailView.address` is not part of the program. It records the call that an outcome is of.
-/

namespace GatewayConsole

/-- What `_detail` and `_data` hold: a response, or the `error` that `_select` makes of a
failure. -/
inductive DetailContent where
  | body (payload : Payload OrchDetail)
  | error (message : String)
deriving Repr, DecidableEq

/-- The outcome of `getOrch(address)`. -/
structure DetailView where
  address : String
  content : DetailContent
deriving Repr, DecidableEq

/-- The payload of `getOrch(address)`, or null. -/
def detailView (address : String) : Payload OrchDetail → Option DetailView
  | .null => none
  | payload => some { address, content := .body payload }

theorem address_of_detailView {address : String} {payload : Payload OrchDetail} {d : DetailView}
    (h : detailView address payload = some d) : d.address = address := by
  cases payload with
  | null => cases h
  | error message => exact (congrArg DetailView.address (Option.some.inj h)).symm
  | data body => exact (congrArg DetailView.address (Option.some.inj h)).symm

/-- `_detail.error` is not there. -/
def DetailContent.hasCard : DetailContent → Bool
  | .body (.data _) => true
  | .body _ => false
  | .error message => message = ""

/-! ## The roster -/

structure RosterFilter where
  capability : String := ""
  offering : String := ""
deriving Repr, DecidableEq

/-- Who awaits a `_reload`. -/
inductive ReloadCaller where
  | operator
  | refreshAll
  | refreshOne
deriving Repr, DecidableEq

/-- Who awaits a `getOrch`. -/
inductive GetOrchCaller where
  | select
  | refreshOne
deriving Repr, DecidableEq

/-- A call in flight. -/
inductive RoutingCall where
  | listOrchs (filter : RosterFilter) (caller : ReloadCaller)
  | getOrch (address : String) (caller : GetOrchCaller)
  | refreshResolver
  | refreshResolverByAddress (address : String)
deriving Repr, DecidableEq

structure AdminRouting where
  orchs : List OrchRosterRow := []
  filter : RosterFilter := {}
  selected : Option String := none
  detail : Option DetailView := none
  loading : Bool := true
  error : String := ""
  refreshing : Bool := false
  calls : List RoutingCall := []
deriving Repr, DecidableEq

namespace AdminRouting

/-- `_reload` up to its fetch. -/
def reload (v : AdminRouting) (caller : ReloadCaller) : AdminRouting :=
  { v with loading := true, error := "", calls := v.calls ++ [.listOrchs v.filter caller] }

/-- The rest of `_reload`, and of what awaits it. -/
def reloaded (v : AdminRouting) (caller : ReloadCaller)
    (result : FetchResult (List OrchRosterRow)) : AdminRouting :=
  let v :=
    match request result with
    | .ok (.data orchs) => { v with orchs, loading := false }
    | .ok _ => { v with orchs := [], loading := false }
    | .error err => { v with error := err.message, loading := false }
  match caller with
  | .refreshAll => { v with refreshing := false }
  | .operator | .refreshOne => v

/-- `_select` up to its fetch. -/
def select (v : AdminRouting) (address : String) : AdminRouting :=
  if v.selected = some address then { v with selected := none, detail := none }
  else
    { v with
      selected := some address, detail := none
      calls := v.calls ++ [.getOrch address .select] }

/-- `_refreshAll` up to its fetch. -/
def refreshAll (v : AdminRouting) (confirmed : Bool) : AdminRouting :=
  if v.refreshing then v
  else if !confirmed then v
  else { v with refreshing := true, calls := v.calls ++ [.refreshResolver] }

/-- `_refreshOne` up to its first fetch. -/
def refreshOne (v : AdminRouting) (address : String) : AdminRouting :=
  { v with calls := v.calls ++ [.refreshResolverByAddress address] }

/-- `_refreshOne` from its first fetch to its next. -/
def refreshedOne (v : AdminRouting) (address : String) (result : FetchResult Unit) :
    AdminRouting :=
  match request result with
  | .ok _ =>
      if v.selected = some address then
        { v with calls := v.calls ++ [.getOrch address .refreshOne] }
      else v.reload .refreshOne
  | .error err => { v with error := err.message }

/-- The button of the card, which is for the selected orch. -/
def refreshButton (v : AdminRouting) : Option String :=
  match v.selected, v.detail with
  | some address, some d => if address ≠ "" ∧ d.content.hasCard = true then some address else none
  | _, _ => none

end AdminRouting

/-- What the response to `getOrch(address)` writes to `_detail`, if it does. -/
def GetOrchCaller.writes (caller : GetOrchCaller) (address : String)
    (result : FetchResult OrchDetail) : Option (Option DetailView) :=
  match caller, request result with
  | _, .ok payload => some (detailView address payload)
  | .select, .error err => some (some { address, content := .error err.message })
  | .refreshOne, .error _ => none

theorem GetOrchCaller.address_of_writes {caller : GetOrchCaller} {address : String}
    {result : FetchResult OrchDetail} {d : DetailView}
    (h : caller.writes address result = some (some d)) : d.address = address := by
  unfold writes at h
  split at h
  · exact address_of_detailView (Option.some.inj h)
  · exact (congrArg DetailView.address (Option.some.inj (Option.some.inj h))).symm
  · cases h

/-- The rest of `_select` or of `_refreshOne`, up to its last fetch. -/
def AdminRouting.gotOrch (v : AdminRouting) (address : String) (caller : GetOrchCaller)
    (result : FetchResult OrchDetail) : AdminRouting :=
  let v := { v with detail := (caller.writes address result).getD v.detail }
  match caller, request result with
  | .select, _ => v
  | .refreshOne, .ok _ => v.reload .refreshOne
  | .refreshOne, .error err => { v with error := err.message }

inductive RoutingEvent where
  /-- The operator types in the filter row. -/
  | edit (filter : RosterFilter)
  /-- "Apply", or Enter. -/
  | reload
  /-- A click on a row. -/
  | select (row : Nat)
  | refreshAll (confirmed : Bool)
  | refreshOne
  | listOrchsSettles (call : Nat) (result : FetchResult (List OrchRosterRow))
  | getOrchSettles (call : Nat) (result : FetchResult OrchDetail)
  | refreshSettles (call : Nat) (result : FetchResult Unit)
deriving Repr, DecidableEq

/-- Without a call, as it has settled. -/
def AdminRouting.settle (v : AdminRouting) (call : Nat) : AdminRouting :=
  { v with calls := v.calls.eraseIdx call }

def AdminRouting.step (v : AdminRouting) : RoutingEvent → Option AdminRouting
  | .edit filter => some { v with filter }
  | .reload => some (v.reload .operator)
  | .select row => if v.loading then none else v.orchs[row]?.map fun o => v.select o.address
  | .refreshAll confirmed => some (v.refreshAll confirmed)
  | .refreshOne => v.refreshButton.map v.refreshOne
  | .listOrchsSettles i result =>
      match v.calls[i]? with
      | some (.listOrchs _ caller) => some ((v.settle i).reloaded caller result)
      | _ => none
  | .getOrchSettles i result =>
      match v.calls[i]? with
      | some (.getOrch address caller) => some ((v.settle i).gotOrch address caller result)
      | _ => none
  | .refreshSettles i result =>
      match v.calls[i]? with
      | some .refreshResolver =>
          match request result with
          | .ok _ => some ((v.settle i).reload .refreshAll)
          | .error err => some { v.settle i with error := err.message, refreshing := false }
      | some (.refreshResolverByAddress address) =>
          some ((v.settle i).refreshedOne address result)
      | _ => none

/-- The dashboard, once it is connected. -/
def adminRouting : Machine AdminRouting RoutingEvent where
  init := ({} : AdminRouting).reload .operator
  step := AdminRouting.step

/-! ## What the roster shows -/

/-- The detail under a selected row is the outcome of `getOrch` for that row. -/
def AdminRouting.ShowsOwn (v : AdminRouting) : Prop :=
  ∀ a d, v.selected = some a → v.detail = some d → d.address = a

/-- A `getOrch` that settles and writes a detail finds its address selected, or none. -/
def AdminRouting.FindsOwn (v : AdminRouting) (ev : RoutingEvent) : Prop :=
  ∀ i result, ev = .getOrchSettles i result →
    ∀ address caller d, v.calls[i]? = some (.getOrch address caller) →
      caller.writes address result = some (some d) →
        v.selected = none ∨ v.selected = some address

/-- What a step does to the selection and to the detail. -/
inductive AdminRouting.Turn (v : AdminRouting) : RoutingEvent → AdminRouting → Prop
  | kept {ev : RoutingEvent} {w : AdminRouting} (hsel : w.selected = v.selected)
      (hdet : w.detail = v.detail) : Turn v ev w
  | emptied {ev : RoutingEvent} {w : AdminRouting} (hdet : w.detail = none) : Turn v ev w
  | written {w : AdminRouting} (i : Nat) (result : FetchResult OrchDetail) (address : String)
      (caller : GetOrchCaller) (d : DetailView)
      (hcall : v.calls[i]? = some (.getOrch address caller))
      (hwrites : caller.writes address result = some (some d))
      (hsel : w.selected = v.selected) (hdet : w.detail = some d) :
      Turn v (.getOrchSettles i result) w

namespace AdminRouting

theorem gotOrch_selected (v : AdminRouting) (address : String) (caller : GetOrchCaller)
    (result : FetchResult OrchDetail) :
    (v.gotOrch address caller result).selected = v.selected := by
  unfold gotOrch
  split <;> rfl

theorem gotOrch_detail (v : AdminRouting) (address : String) (caller : GetOrchCaller)
    (result : FetchResult OrchDetail) :
    (v.gotOrch address caller result).detail = (caller.writes address result).getD v.detail := by
  unfold gotOrch
  split <;> rfl

theorem turn_of_reloaded (v : AdminRouting) (i : Nat) (caller : ReloadCaller)
    (result : FetchResult (List OrchRosterRow)) :
    v.Turn (.listOrchsSettles i result) ((v.settle i).reloaded caller result) := by
  unfold reloaded
  cases request result with
  | error err => cases caller <;> exact .kept rfl rfl
  | ok payload => cases payload <;> cases caller <;> exact .kept rfl rfl

theorem turn_of_select (v : AdminRouting) (address : String) (ev : RoutingEvent) :
    v.Turn ev (v.select address) := by
  unfold select
  split
  · exact .emptied rfl
  · exact .emptied rfl

theorem turn_of_gotOrch {v : AdminRouting} {i : Nat} {address : String} {caller : GetOrchCaller}
    (hcall : v.calls[i]? = some (.getOrch address caller)) (result : FetchResult OrchDetail) :
    v.Turn (.getOrchSettles i result) ((v.settle i).gotOrch address caller result) := by
  have hsel := gotOrch_selected (v.settle i) address caller result
  have hdet := gotOrch_detail (v.settle i) address caller result
  cases hw : caller.writes address result with
  | none => exact .kept hsel (by rw [hdet, hw]; rfl)
  | some written =>
      cases written with
      | none => exact .emptied (by rw [hdet, hw]; rfl)
      | some d => exact .written i result address caller d hcall hw hsel (by rw [hdet, hw]; rfl)

theorem turn_of_step {v w : AdminRouting} {ev : RoutingEvent} (h : v.step ev = some w) :
    v.Turn ev w := by
  cases ev with
  | edit filter => exact Option.some.inj h ▸ .kept rfl rfl
  | reload => exact Option.some.inj h ▸ .kept rfl rfl
  | select row =>
      simp only [step] at h
      split at h
      · cases h
      · obtain ⟨o, -, rfl⟩ := Option.map_eq_some_iff.mp h
        exact turn_of_select v o.address _
  | refreshAll confirmed =>
      obtain rfl := Option.some.inj h
      unfold refreshAll
      split
      · exact .kept rfl rfl
      · split <;> exact .kept rfl rfl
  | refreshOne =>
      obtain ⟨address, -, rfl⟩ := Option.map_eq_some_iff.mp h
      exact .kept rfl rfl
  | listOrchsSettles i result =>
      simp only [step] at h
      split at h
      · exact Option.some.inj h ▸ turn_of_reloaded v i _ result
      · cases h
  | getOrchSettles i result =>
      simp only [step] at h
      split at h
      · exact Option.some.inj h ▸ turn_of_gotOrch ‹_› result
      · cases h
  | refreshSettles i result =>
      simp only [step] at h
      split at h
      · split at h
        · exact Option.some.inj h ▸ .kept rfl rfl
        · exact Option.some.inj h ▸ .kept rfl rfl
      · obtain rfl := Option.some.inj h
        unfold refreshedOne
        split
        · split <;> exact .kept rfl rfl
        · exact .kept rfl rfl
      · cases h

theorem showsOwn_step {v w : AdminRouting} {ev : RoutingEvent} (h : v.ShowsOwn)
    (hown : v.FindsOwn ev) (hst : v.Turn ev w) : w.ShowsOwn := by
  intro a d ha hd
  cases hst with
  | kept hsel hdet => exact h a d (hsel ▸ ha) (hdet ▸ hd)
  | emptied hdet =>
      rw [hdet] at hd
      cases hd
  | written i result address caller d' hcall hwrites hsel hdet =>
      obtain rfl : d' = d := Option.some.inj (hdet.symm.trans hd)
      rw [GetOrchCaller.address_of_writes hwrites]
      rcases hown i result rfl address caller d' hcall hwrites with hnone | hsome
      · rw [hsel, hnone] at ha
        cases ha
      · exact Option.some.inj (hsome.symm.trans (hsel.symm.trans ha))

/-- After a write, what is selected is none or the address of the call. -/
theorem findsOwn_of_showsOwn {v w : AdminRouting} {ev : RoutingEvent} (hw : w.ShowsOwn)
    (hst : v.step ev = some w) : v.FindsOwn ev := by
  rintro i result rfl address caller d hcall hwrites
  have hstep : v.step (.getOrchSettles i result) = some w := hst
  simp only [step, hcall, Option.some.injEq] at hstep
  subst hstep
  have hsel := gotOrch_selected (v.settle i) address caller result
  cases hs : v.selected with
  | none => exact Or.inl rfl
  | some a =>
      have hd : d.address = a := hw a d (hsel.trans hs) (by rw [gotOrch_detail, hwrites]; rfl)
      exact Or.inr (by rw [← hd, GetOrchCaller.address_of_writes hwrites])

end AdminRouting

/-! ## The page of one orch -/

/-- Who awaits a `_load`. -/
inductive LoadCaller where
  | page
  | refresh
deriving Repr, DecidableEq

inductive DetailCall where
  | getOrch (address : String) (caller : LoadCaller)
  | refreshResolverByAddress (address : String)
deriving Repr, DecidableEq

structure AdminOrchDetail where
  address : String := ""
  data : Option DetailView := none
  error : String := ""
  loading : Bool := false
  refreshing : Bool := false
  calls : List DetailCall := []
deriving Repr, DecidableEq

namespace AdminOrchDetail

/-- What awaits a `_load`, once that is over. -/
def loadOver (v : AdminOrchDetail) : LoadCaller → AdminOrchDetail
  | .page => v
  | .refresh => { v with refreshing := false }

/-- `_load` up to its fetch, if it makes one. -/
def load (v : AdminOrchDetail) (caller : LoadCaller) : AdminOrchDetail :=
  if v.address = "" then v.loadOver caller
  else
    { v with
      loading := true, error := "", data := none
      calls := v.calls ++ [.getOrch v.address caller] }

/-- The element at its first update: `connectedCallback` and `updated` both load. -/
def connected (address : String) : AdminOrchDetail :=
  (({ address } : AdminOrchDetail).load .page).load .page

/-- The router sets `address`, and `updated` loads if that is a change. -/
def navigate (v : AdminOrchDetail) (address : String) : AdminOrchDetail :=
  if address = v.address then v else { v with address }.load .page

end AdminOrchDetail

/-- What the response to `getOrch(address)` writes to `_data`, if it does. -/
def dataWritten (address : String) (result : FetchResult OrchDetail) :
    Option (Option DetailView) :=
  match request result with
  | .ok payload => some (detailView address payload)
  | .error err =>
      if err.status = 404 then
        some (detailView address (.data { orch := none, recentObservations := [] }))
      else none

theorem address_of_dataWritten {address : String} {result : FetchResult OrchDetail}
    {d : DetailView} (h : dataWritten address result = some (some d)) : d.address = address := by
  unfold dataWritten at h
  split at h
  · exact address_of_detailView (Option.some.inj h)
  · split at h
    · exact address_of_detailView (Option.some.inj h)
    · cases h

namespace AdminOrchDetail

/-- The rest of `_load`, and of what awaits it. -/
def loaded (v : AdminOrchDetail) (address : String) (caller : LoadCaller)
    (result : FetchResult OrchDetail) : AdminOrchDetail :=
  let v :=
    match dataWritten address result, request result with
    | some data, _ => { v with data }
    | none, .ok _ => v
    | none, .error err => { v with error := err.message }
  { v with loading := false }.loadOver caller

/-- The button of the page, which shows it with data only. -/
def refreshButton (v : AdminOrchDetail) : Bool :=
  v.address ≠ "" && !v.loading && v.error = "" && v.data.isSome && !v.refreshing

/-- `_refresh` up to its first fetch. -/
def refresh (v : AdminOrchDetail) : AdminOrchDetail :=
  { v with refreshing := true, calls := v.calls ++ [.refreshResolverByAddress v.address] }

/-- `_refresh` from its first fetch to its next. -/
def refreshed (v : AdminOrchDetail) (result : FetchResult Unit) : AdminOrchDetail :=
  match request result with
  | .ok _ => v.load .refresh
  | .error err => { v with error := err.message, refreshing := false }

/-- Without a call, as it has settled. -/
def settle (v : AdminOrchDetail) (call : Nat) : AdminOrchDetail :=
  { v with calls := v.calls.eraseIdx call }

end AdminOrchDetail

inductive DetailEvent where
  | navigate (address : String)
  | refresh
  | getOrchSettles (call : Nat) (result : FetchResult OrchDetail)
  | refreshSettles (call : Nat) (result : FetchResult Unit)
deriving Repr, DecidableEq

def AdminOrchDetail.step (v : AdminOrchDetail) : DetailEvent → Option AdminOrchDetail
  | .navigate address => some (v.navigate address)
  | .refresh => if v.refreshButton then some v.refresh else none
  | .getOrchSettles i result =>
      match v.calls[i]? with
      | some (.getOrch address caller) => some ((v.settle i).loaded address caller result)
      | _ => none
  | .refreshSettles i result =>
      match v.calls[i]? with
      | some (.refreshResolverByAddress _) => some ((v.settle i).refreshed result)
      | _ => none

/-- The page of an orch, once it is connected. -/
def adminOrchDetail (address : String) : Machine AdminOrchDetail DetailEvent where
  init := .connected address
  step := AdminOrchDetail.step

/-! ## What the page shows -/

/-- The data of the page is the outcome of `getOrch` for its address. -/
def AdminOrchDetail.ShowsOwn (v : AdminOrchDetail) : Prop :=
  ∀ d, v.data = some d → d.address = v.address

/-- A `getOrch` that settles and writes data finds its address to be that of the page, and a
navigation away from an orch to the empty address finds no data. -/
structure AdminOrchDetail.FindsOwn (v : AdminOrchDetail) (ev : DetailEvent) : Prop where
  settles : ∀ i result, ev = .getOrchSettles i result →
    ∀ address caller d, v.calls[i]? = some (.getOrch address caller) →
      dataWritten address result = some (some d) → v.address = address
  leaves : ev = .navigate "" → v.address ≠ "" → v.data = none

namespace AdminOrchDetail

@[simp] theorem loadOver_address (v : AdminOrchDetail) (caller : LoadCaller) :
    (v.loadOver caller).address = v.address := by
  cases caller <;> rfl

@[simp] theorem loadOver_data (v : AdminOrchDetail) (caller : LoadCaller) :
    (v.loadOver caller).data = v.data := by
  cases caller <;> rfl

@[simp] theorem load_address (v : AdminOrchDetail) (caller : LoadCaller) :
    (v.load caller).address = v.address := by
  unfold load
  split
  · exact loadOver_address v caller
  · rfl

/-- A load leaves no data, except at the empty address, where it leaves all. -/
theorem load_data (v : AdminOrchDetail) (caller : LoadCaller) :
    (v.load caller).data = if v.address = "" then v.data else none := by
  unfold load
  split
  · exact loadOver_data v caller
  · rfl

theorem loaded_address (v : AdminOrchDetail) (address : String) (caller : LoadCaller)
    (result : FetchResult OrchDetail) :
    (v.loaded address caller result).address = v.address := by
  unfold loaded
  rw [loadOver_address]
  split <;> rfl

theorem loaded_data (v : AdminOrchDetail) (address : String) (caller : LoadCaller)
    (result : FetchResult OrchDetail) :
    (v.loaded address caller result).data = (dataWritten address result).getD v.data := by
  unfold loaded
  rw [loadOver_data]
  split <;> simp [*]

theorem ShowsOwn.load {v : AdminOrchDetail} (h : v.ShowsOwn) (caller : LoadCaller) :
    (v.load caller).ShowsOwn := by
  intro d hd
  rw [load_data] at hd
  split at hd
  · exact (load_address v caller).symm ▸ h d hd
  · cases hd

theorem showsOwn_connected (address : String) : (connected address).ShowsOwn :=
  ShowsOwn.load (ShowsOwn.load (fun _ hd => by cases hd) .page) .page

theorem ShowsOwn.navigate {v : AdminOrchDetail} {address : String} (h : v.ShowsOwn)
    (hleaves : address = "" → v.address ≠ "" → v.data = none) :
    (v.navigate address).ShowsOwn := by
  unfold AdminOrchDetail.navigate
  split
  · exact h
  · next hne =>
      intro d hd
      rw [load_data] at hd
      split at hd
      · next hempty =>
          subst hempty
          rw [hleaves rfl (Ne.symm hne)] at hd
          cases hd
      · cases hd

theorem ShowsOwn.loaded {v : AdminOrchDetail} {address : String} {result : FetchResult OrchDetail}
    (h : v.ShowsOwn)
    (hsettles : ∀ d, dataWritten address result = some (some d) → v.address = address)
    (caller : LoadCaller) : (v.loaded address caller result).ShowsOwn := by
  intro d hd
  rw [loaded_data] at hd
  rw [loaded_address]
  cases hw : dataWritten address result with
  | none =>
      rw [hw] at hd
      exact h d hd
  | some data =>
      rw [hw] at hd
      obtain rfl : data = some d := hd
      rw [hsettles d hw, address_of_dataWritten hw]

theorem showsOwn_step {v w : AdminOrchDetail} {ev : DetailEvent} (h : v.ShowsOwn)
    (hown : v.FindsOwn ev) (hst : v.step ev = some w) : w.ShowsOwn := by
  cases ev with
  | navigate address =>
      exact Option.some.inj hst ▸ h.navigate fun ha hne => hown.leaves (ha ▸ rfl) hne
  | refresh =>
      obtain ⟨-, hw⟩ := Option.ite_none_right_eq_some.mp hst
      exact Option.some.inj hw ▸ h
  | getOrchSettles i result =>
      simp only [step] at hst
      split at hst
      · next address caller hcall =>
          obtain rfl := Option.some.inj hst
          exact ShowsOwn.loaded (v := v.settle i) h
            (fun d hw => hown.settles i result rfl address caller d hcall hw) caller
      · cases hst
  | refreshSettles i result =>
      simp only [step] at hst
      split at hst
      · obtain rfl := Option.some.inj hst
        unfold refreshed
        split
        · exact ShowsOwn.load (v := v.settle i) h .refresh
        · exact h
      · cases hst

theorem findsOwn_of_showsOwn {v w : AdminOrchDetail} {ev : DetailEvent} (hv : v.ShowsOwn)
    (hw : w.ShowsOwn) (hst : v.step ev = some w) : v.FindsOwn ev where
  settles := by
    rintro i result rfl address caller d hcall hwrites
    have hst' : v.step (.getOrchSettles i result) = some w := hst
    simp only [step, hcall, Option.some.injEq] at hst'
    subst hst'
    have hd := hw d (by rw [loaded_data, hwrites]; rfl)
    rw [loaded_address] at hd
    exact hd.symm.trans (address_of_dataWritten hwrites)
  leaves := by
    rintro rfl hne
    have hst' : v.step (.navigate "") = some w := hst
    obtain rfl := Option.some.inj hst'
    cases hdata : v.data with
    | none => rfl
    | some d =>
        -- The data stays, as a load at the empty address leaves it.
        have hnav : v.navigate "" = { v with address := "" }.load .page := if_neg (Ne.symm hne)
        have hd := hw d (by rw [hnav, load_data, if_pos rfl]; exact hdata)
        rw [hnav, load_address] at hd
        exact absurd ((hv d hdata).symm.trans hd) hne

end AdminOrchDetail

/-! ## Both drilldowns -/

/-- **A drilldown shows what it asked for, if it is answered in time.** The detail under the
selected row is of that row exactly when every `getOrch` response that is written arrives
while its orch, or none, is selected; the data of a page is of its address exactly when every
response that is written arrives while its address is the page's, and no data is left behind
at the empty address. -/
theorem drilldown_iff (es : List RoutingEvent) (address : String) (ds : List DetailEvent) :
    (adminRouting.Always AdminRouting.ShowsOwn es ↔ adminRouting.Meets AdminRouting.FindsOwn es)
    ∧ ((adminOrchDetail address).Always AdminOrchDetail.ShowsOwn ds
      ↔ (adminOrchDetail address).Meets AdminOrchDetail.FindsOwn ds) := by
  constructor
  · exact Machine.always_iff_meets (I := AdminRouting.ShowsOwn) (fun _ _ ha => by cases ha)
      (fun _ _ _ h hown hst => AdminRouting.showsOwn_step h hown (AdminRouting.turn_of_step hst))
      (fun _ h => h) (fun _ _ _ _ hst hw => AdminRouting.findsOwn_of_showsOwn hw hst)
  · exact Machine.always_iff_meets (I := AdminOrchDetail.ShowsOwn)
      (AdminOrchDetail.showsOwn_connected address)
      (fun _ _ _ h hown hst => AdminOrchDetail.showsOwn_step h hown hst)
      (fun _ h => h) (fun _ _ _ hv hst hw => AdminOrchDetail.findsOwn_of_showsOwn hv hw hst)

/-- A row of the roster, of an orch that is not in the pool. -/
def outsideRow (address : String) : OrchRosterRow where
  address := address
  serviceUri := none
  capabilities := []
  offerings := []
  signatureStatus := .unsigned
  freshnessStatus := .unknown
  activePoolMember := false
  totalStakeWei := none
  lastObservedAt := none

def firstOrch : String := "0x00000000000000000000000000000000000000a1"

def secondOrch : String := "0x00000000000000000000000000000000000000b2"

/-- The response to `getOrch` for the first orch. -/
def firstResponse : FetchResult OrchDetail :=
  .response 200 (.data { orch := some (outsideRow firstOrch), recentObservations := [] })

/-- The first row is selected, then the second, and the response for the first arrives. -/
def lateSelectRun : List RoutingEvent :=
  [.listOrchsSettles 0 (.response 200 (.data [outsideRow firstOrch, outsideRow secondOrch])),
   .select 0, .select 1, .getOrchSettles 0 firstResponse]

/-- From the page of the first orch to that of the second, and the response for the first
arrives. -/
def lateNavigateRun : List DetailEvent :=
  [.navigate secondOrch, .getOrchSettles 0 firstResponse]

theorem not_showsOwn_lateRuns :
    ¬adminRouting.Always AdminRouting.ShowsOwn lateSelectRun
    ∧ ¬(adminOrchDetail firstOrch).Always AdminOrchDetail.ShowsOwn lateNavigateRun := by
  constructor
  · intro h
    obtain ⟨v, hv, hsel, hdet⟩ : ∃ v, adminRouting.run lateSelectRun = some v
        ∧ v.selected = some secondOrch
        ∧ v.detail.map (·.address) = some firstOrch := ⟨_, rfl, by decide, by decide⟩
    obtain ⟨d, hd, haddress⟩ := Option.map_eq_some_iff.mp hdet
    have hown := h _ (List.prefix_refl _) v hv secondOrch d hsel hd
    exact absurd (haddress.symm.trans hown) (by decide)
  · intro h
    obtain ⟨v, hv, haddr, hdata⟩ : ∃ v, (adminOrchDetail firstOrch).run lateNavigateRun = some v
        ∧ v.address = secondOrch
        ∧ v.data.map (·.address) = some firstOrch := ⟨_, rfl, by decide, by decide⟩
    obtain ⟨d, hd, haddress⟩ := Option.map_eq_some_iff.mp hdata
    have hown := h _ (List.prefix_refl _) v hv d hd
    exact absurd (haddress.symm.trans (hown.trans haddr)) (by decide)

end GatewayConsole
