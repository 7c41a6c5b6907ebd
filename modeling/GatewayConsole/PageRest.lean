import GatewayConsole.Drilldown
import GatewayConsole.InFlight

/-!
# The pages come to rest

A page of the drilldown shows "Loading…" and "Refreshing…" while calls are in flight, and
what a call leaves when it settles may be one more call: `_refreshOne` asks for the orch and
then for the roster, `_refreshAll` for the roster. `atRest_adminRouting` and
`atRest_adminOrchDetail` say that once the operator stops, a bounded number of responses,
whatever they are and in whatever order they come, takes the page to rest, and that a page
at rest is neither loading nor refreshing and shows the outcome of its drilldown.

The flag `_refreshing` keeps a page to one refresh at a time: `Tidy` says which call in
flight each flag is up for.
-/

namespace GatewayConsole

/-! ## The dashboard -/

/-- How many responses a call may still take. -/
def RoutingCall.weight : RoutingCall → Nat
  | .listOrchs _ _ | .getOrch _ .select => 1
  | .getOrch _ .refreshOne | .refreshResolver => 2
  | .refreshResolverByAddress _ => 3

theorem RoutingCall.weight_le (call : RoutingCall) : call.weight ≤ 3 := by
  unfold weight
  split <;> omega

def RoutingCall.isReload : RoutingCall → Bool
  | .listOrchs _ _ => true
  | _ => false

/-- `_refreshAll` awaits the call. -/
def RoutingCall.ofRefreshAll : RoutingCall → Bool
  | .refreshResolver | .listOrchs _ .refreshAll => true
  | _ => false

def RoutingEvent.isSettlement : RoutingEvent → Bool
  | .listOrchsSettles _ _ | .getOrchSettles _ _ | .refreshSettles _ _ => true
  | _ => false

namespace AdminRouting

def weight (v : AdminRouting) : Nat := InFlight.weight RoutingCall.weight v.calls

theorem weight_settle {v : AdminRouting} {i : Nat} {call : RoutingCall}
    (h : v.calls[i]? = some call) : v.weight = call.weight + (v.settle i).weight :=
  InFlight.weight_eraseIdx h

theorem weight_reload (v : AdminRouting) (caller : ReloadCaller) :
    (v.reload caller).weight = v.weight + 1 :=
  InFlight.weight_snoc _ _ _

/-- A `_reload` ends with `_loading` down, and `_refreshing` if `_refreshAll` awaits it. -/
theorem reloaded_eq (v : AdminRouting) (caller : ReloadCaller)
    (result : FetchResult (List OrchRosterRow)) :
    ∃ orchs error, v.reloaded caller result
      = { v with
          orchs, error, loading := false
          refreshing := decide (caller ≠ .refreshAll) && v.refreshing } := by
  unfold reloaded
  cases request result with
  | error err => cases caller <;> exact ⟨v.orchs, err.message, rfl⟩
  | ok payload =>
      cases payload with
      | data orchs => cases caller <;> exact ⟨orchs, v.error, rfl⟩
      | null | error _ => cases caller <;> exact ⟨[], v.error, rfl⟩

theorem weight_reloaded (v : AdminRouting) (caller : ReloadCaller)
    (result : FetchResult (List OrchRosterRow)) :
    (v.reloaded caller result).weight = v.weight := by
  obtain ⟨orchs, error, heq⟩ := v.reloaded_eq caller result
  rw [heq]
  rfl

theorem weight_gotOrch (v : AdminRouting) (address : String) (caller : GetOrchCaller)
    (result : FetchResult OrchDetail) :
    (v.gotOrch address caller result).weight
      < (RoutingCall.getOrch address caller).weight + v.weight := by
  unfold gotOrch
  cases caller with
  | select =>
      show v.weight < 1 + v.weight
      omega
  | refreshOne =>
      cases request result with
      | ok payload =>
          show (reload _ _).weight < 2 + v.weight
          rw [weight_reload]
          show v.weight + 1 < 2 + v.weight
          omega
      | error err =>
          show v.weight < 2 + v.weight
          omega

theorem weight_refreshedOne (v : AdminRouting) (address : String) (result : FetchResult Unit) :
    (v.refreshedOne address result).weight < 3 + v.weight := by
  unfold refreshedOne
  cases request result with
  | ok _ =>
      dsimp only
      split
      · show InFlight.weight _ (v.calls ++ [_]) < _
        rw [InFlight.weight_snoc]
        show v.weight + 2 < _
        omega
      · rw [weight_reload]
        omega
  | error err =>
      show v.weight < 3 + v.weight
      omega

/-- A response makes the page lighter. -/
theorem weight_step {v w : AdminRouting} {ev : RoutingEvent} (hev : ev.isSettlement = true)
    (hst : v.step ev = some w) : w.weight < v.weight := by
  cases ev with
  | edit | reload | select | refreshAll | refreshOne => cases hev
  | listOrchsSettles i result =>
      simp only [step] at hst
      split at hst
      · next filter caller hcall =>
          obtain rfl := Option.some.inj hst
          rw [weight_reloaded, weight_settle hcall]
          show _ < 1 + _
          omega
      · cases hst
  | getOrchSettles i result =>
      simp only [step] at hst
      split at hst
      · next address caller hcall =>
          obtain rfl := Option.some.inj hst
          rw [weight_settle hcall]
          exact weight_gotOrch (v.settle i) address caller result
      · cases hst
  | refreshSettles i result =>
      simp only [step] at hst
      split at hst
      · next hcall =>
          rw [weight_settle hcall]
          split at hst
          · obtain rfl := Option.some.inj hst
            rw [weight_reload]
            show _ < 2 + _
            omega
          · obtain rfl := Option.some.inj hst
            show (v.settle i).weight < 2 + _
            omega
      · next address hcall =>
          obtain rfl := Option.some.inj hst
          rw [weight_settle hcall]
          exact weight_refreshedOne (v.settle i) address result
      · cases hst

/-- The flags of the page are up for calls in flight: `_loading` for a `_reload`, `_refreshing`
for exactly one call that `_refreshAll` awaits, and a row selected without a detail for the
`getOrch` of that row. -/
structure Tidy (v : AdminRouting) : Prop where
  loading : v.loading = true → ∃ call ∈ v.calls, call.isReload = true
  refreshing : InFlight.Flags RoutingCall.ofRefreshAll v.calls v.refreshing
  detail : ∀ a, v.selected = some a → v.detail = none → .getOrch a .select ∈ v.calls

/-- A `getOrch` that succeeds answers with more than null. -/
def AnswersOrch (v : AdminRouting) (ev : RoutingEvent) : Prop :=
  ∀ i result, ev = .getOrchSettles i result →
    ∀ address caller, v.calls[i]? = some (.getOrch address caller) →
      caller.writes address result ≠ some none

namespace Tidy

/-- One more call, which no flag is up for. -/
theorem add {v : AdminRouting} (h : v.Tidy) {call : RoutingCall}
    (hof : call.ofRefreshAll = false) : Tidy { v with calls := v.calls ++ [call] } where
  loading hl := by
    obtain ⟨other, hmem, hother⟩ := h.loading hl
    exact ⟨other, List.mem_append_left _ hmem, hother⟩
  refreshing := h.refreshing.add hof
  detail a ha hd := List.mem_append_left _ (h.detail a ha hd)

/-- A reload that `_refreshAll` does not await. -/
theorem reload {v : AdminRouting} {caller : ReloadCaller} (hcaller : caller ≠ .refreshAll)
    (hrefreshing : InFlight.Flags RoutingCall.ofRefreshAll v.calls v.refreshing)
    (hdetail : ∀ a, v.selected = some a → v.detail = none → .getOrch a .select ∈ v.calls) :
    (v.reload caller).Tidy where
  loading _ := ⟨.listOrchs v.filter caller, by simp [AdminRouting.reload], rfl⟩
  refreshing := by
    refine hrefreshing.add ?_
    cases caller with
    | refreshAll => exact absurd rfl hcaller
    | operator | refreshOne => rfl
  detail a ha hd := List.mem_append_left _ (hdetail a ha hd)

theorem select {v : AdminRouting} (h : v.Tidy) (address : String) : (v.select address).Tidy := by
  unfold AdminRouting.select
  split
  · exact ⟨h.loading, h.refreshing, fun a ha => by cases ha⟩
  · have hadd : Tidy { v with calls := v.calls ++ [.getOrch address .select] } := h.add rfl
    refine ⟨hadd.loading, hadd.refreshing, ?_⟩
    rintro a ⟨rfl⟩ -
    exact List.mem_append_right _ (List.mem_singleton.mpr rfl)

theorem refreshAll {v : AdminRouting} (h : v.Tidy) (confirmed : Bool) :
    (v.refreshAll confirmed).Tidy := by
  unfold AdminRouting.refreshAll
  split
  · exact h
  · next hfree =>
      split
      · exact h
      · have hdown := h.refreshing
        rw [show v.refreshing = false from Bool.eq_false_of_not_eq_true hfree] at hdown
        refine ⟨fun hl => ?_, hdown.raise rfl, fun a ha hd =>
          List.mem_append_left _ (h.detail a ha hd)⟩
        obtain ⟨call, hmem, hcall⟩ := h.loading hl
        exact ⟨call, List.mem_append_left _ hmem, hcall⟩

/-- A call settles that is neither a reload nor the refresh of all. -/
theorem loading_settle {v : AdminRouting} (h : v.Tidy) {i : Nat} {call : RoutingCall}
    (hcall : v.calls[i]? = some call) (hreload : call.isReload = false)
    (hl : v.loading = true) : ∃ call ∈ (v.settle i).calls, call.isReload = true := by
  obtain ⟨other, hmem, hother⟩ := h.loading hl
  refine ⟨other, InFlight.mem_eraseIdx hcall ?_ hmem, hother⟩
  rintro rfl
  rw [hreload] at hother
  cases hother

/-- A call settles that is not the `getOrch` of a selected row. -/
theorem detail_settle {v : AdminRouting} (h : v.Tidy) {i : Nat} {call : RoutingCall}
    (hcall : v.calls[i]? = some call) (hselect : ∀ a, call ≠ .getOrch a .select) :
    ∀ a, v.selected = some a → v.detail = none → .getOrch a .select ∈ (v.settle i).calls :=
  fun a ha hd => InFlight.mem_eraseIdx hcall (hselect a).symm (h.detail a ha hd)

theorem reloaded {v : AdminRouting} (h : v.Tidy) {i : Nat} {filter : RosterFilter}
    {caller : ReloadCaller} (hcall : v.calls[i]? = some (.listOrchs filter caller))
    (result : FetchResult (List OrchRosterRow)) : ((v.settle i).reloaded caller result).Tidy := by
  obtain ⟨orchs, error, heq⟩ := (v.settle i).reloaded_eq caller result
  rw [heq]
  refine ⟨fun hl => (by cases hl), ?_, h.detail_settle hcall (by simp)⟩
  cases caller with
  | refreshAll => exact (h.refreshing.lower hcall rfl).2
  | operator | refreshOne => exact h.refreshing.settle hcall rfl

theorem gotOrch {v : AdminRouting} (h : v.Tidy) {i : Nat} {address : String}
    {caller : GetOrchCaller} (hcall : v.calls[i]? = some (.getOrch address caller))
    {result : FetchResult OrchDetail} (hanswers : caller.writes address result ≠ some none) :
    ((v.settle i).gotOrch address caller result).Tidy := by
  have hrefreshing := h.refreshing.settle hcall rfl
  have hloading := h.loading_settle hcall rfl
  have hwritten : ∀ {d}, caller.writes address result = some d → ∃ view, d = some view := by
    intro d hd
    cases d with
    | none => exact absurd hd hanswers
    | some view => exact ⟨view, rfl⟩
  unfold AdminRouting.gotOrch
  cases caller with
  | select =>
      have hsome : ∃ d, GetOrchCaller.select.writes address result = some d := by
        unfold GetOrchCaller.writes
        cases request result with
        | ok payload => exact ⟨_, rfl⟩
        | error err => exact ⟨_, rfl⟩
      obtain ⟨d, hd⟩ := hsome
      obtain ⟨view, rfl⟩ := hwritten hd
      refine ⟨hloading, hrefreshing, fun a _ hnone => ?_⟩
      rw [hd] at hnone
      cases hnone
  | refreshOne =>
      cases hr : request result with
      | ok payload =>
          have hd : GetOrchCaller.refreshOne.writes address result
              = some (detailView address payload) := by
            simp only [GetOrchCaller.writes, hr]
          obtain ⟨view, hview⟩ := hwritten hd
          refine reload (by simp) hrefreshing fun a _ hnone => ?_
          rw [hd, hview] at hnone
          cases hnone
      | error err =>
          have hd : GetOrchCaller.refreshOne.writes address result = none := by
            simp only [GetOrchCaller.writes, hr]
          refine ⟨hloading, hrefreshing, fun a ha hnone => ?_⟩
          rw [hd] at hnone
          exact h.detail_settle hcall (by simp) a ha hnone

theorem refreshed {v : AdminRouting} (h : v.Tidy) {i : Nat}
    (hcall : v.calls[i]? = some .refreshResolver) (error : String) :
    ((v.settle i).reload .refreshAll).Tidy
      ∧ { v.settle i with error, refreshing := false }.Tidy := by
  obtain ⟨hup, hdown⟩ := h.refreshing.lower hcall rfl
  have hdetail := h.detail_settle hcall (by simp)
  constructor
  · refine ⟨fun _ => ⟨.listOrchs v.filter .refreshAll, ?_, rfl⟩, ?_, fun a ha hd => ?_⟩
    · exact List.mem_append_right _ (List.mem_singleton.mpr rfl)
    · show InFlight.Flags _ _ v.refreshing
      rw [hup]
      exact hdown.raise rfl
    · exact List.mem_append_left _ (hdetail a ha hd)
  · exact ⟨h.loading_settle hcall rfl, hdown, hdetail⟩

theorem refreshedOne {v : AdminRouting} (h : v.Tidy) {i : Nat} {address : String}
    (hcall : v.calls[i]? = some (.refreshResolverByAddress address))
    (result : FetchResult Unit) : ((v.settle i).refreshedOne address result).Tidy := by
  have hsettled : (v.settle i).Tidy :=
    ⟨h.loading_settle hcall rfl, h.refreshing.settle hcall rfl, h.detail_settle hcall (by simp)⟩
  unfold AdminRouting.refreshedOne
  cases request result with
  | ok _ =>
      dsimp only
      split
      · exact hsettled.add rfl
      · exact reload (by simp) hsettled.refreshing hsettled.detail
  | error err => exact ⟨hsettled.loading, hsettled.refreshing, hsettled.detail⟩

end Tidy

theorem tidy_step {v w : AdminRouting} {ev : RoutingEvent} (h : v.Tidy)
    (hanswers : v.AnswersOrch ev) (hst : v.step ev = some w) : w.Tidy := by
  cases ev with
  | edit filter => exact Option.some.inj hst ▸ ⟨h.loading, h.refreshing, h.detail⟩
  | reload => exact Option.some.inj hst ▸ Tidy.reload (by simp) h.refreshing h.detail
  | select row =>
      simp only [step] at hst
      split at hst
      · cases hst
      · obtain ⟨o, -, rfl⟩ := Option.map_eq_some_iff.mp hst
        exact h.select o.address
  | refreshAll confirmed => exact Option.some.inj hst ▸ h.refreshAll confirmed
  | refreshOne =>
      obtain ⟨address, -, rfl⟩ := Option.map_eq_some_iff.mp hst
      exact h.add rfl
  | listOrchsSettles i result =>
      simp only [step] at hst
      split at hst
      · next hcall => exact Option.some.inj hst ▸ h.reloaded hcall result
      · cases hst
  | getOrchSettles i result =>
      simp only [step] at hst
      split at hst
      · next hcall =>
          exact Option.some.inj hst ▸ h.gotOrch hcall (hanswers i result rfl _ _ hcall)
      · cases hst
  | refreshSettles i result =>
      simp only [step] at hst
      split at hst
      · next hcall =>
          split at hst
          · exact Option.some.inj hst ▸ (h.refreshed hcall "").1
          · exact Option.some.inj hst ▸ (h.refreshed hcall _).2
      · next hcall => exact Option.some.inj hst ▸ h.refreshedOne hcall result
      · cases hst

theorem tidy_init : (({} : AdminRouting).reload .operator).Tidy :=
  Tidy.reload (by simp) rfl fun _ ha => by cases ha

end AdminRouting

/-- The dashboard waits for nothing. -/
structure AdminRouting.AtRest (v : AdminRouting) : Prop where
  loading : v.loading = false
  refreshing : v.refreshing = false
  detail : v.selected.isSome = true → v.detail.isSome = true

theorem AdminRouting.Tidy.atRest {v : AdminRouting} (h : v.Tidy) (hcalls : v.calls = []) :
    v.AtRest where
  loading := by
    by_contra hl
    obtain ⟨call, hmem, -⟩ := h.loading (Bool.not_eq_false _ ▸ hl)
    rw [hcalls] at hmem
    cases hmem
  refreshing := InFlight.Flags.down (hcalls ▸ h.refreshing)
  detail hsel := by
    obtain ⟨a, ha⟩ := Option.isSome_iff_exists.mp hsel
    by_contra hd
    have hmem := h.detail a ha (by simpa using hd)
    rw [hcalls] at hmem
    cases hmem

/-- The call in flight settles, whatever its outcome is. -/
def RoutingCall.Settles (call : RoutingCall) (v : AdminRouting) (i : Nat) : Prop :=
  match call with
  | .listOrchs _ _ => ∀ result, ∃ w, v.step (.listOrchsSettles i result) = some w
  | .getOrch _ _ => ∀ result, ∃ w, v.step (.getOrchSettles i result) = some w
  | .refreshResolver | .refreshResolverByAddress _ =>
      ∀ result, ∃ w, v.step (.refreshSettles i result) = some w

theorem AdminRouting.settles {v : AdminRouting} {i : Nat} {call : RoutingCall}
    (hcall : v.calls[i]? = some call) : call.Settles v i := by
  cases call with
  | listOrchs filter caller => exact fun result => ⟨_, by simp only [step, hcall]; rfl⟩
  | getOrch address caller => exact fun result => ⟨_, by simp only [step, hcall]; rfl⟩
  | refreshResolverByAddress address =>
      exact fun result => ⟨_, by simp only [step, hcall]; rfl⟩
  | refreshResolver =>
      intro result
      simp only [step, hcall]
      split <;> exact ⟨_, rfl⟩

/-- The fetch of the call fails. -/
def RoutingCall.fails (call : RoutingCall) (i : Nat) : RoutingEvent :=
  match call with
  | .listOrchs _ _ => .listOrchsSettles i (.rejected "Failed to fetch")
  | .getOrch _ _ => .getOrchSettles i (.rejected "Failed to fetch")
  | .refreshResolver | .refreshResolverByAddress _ =>
      .refreshSettles i (.rejected "Failed to fetch")

theorem RoutingCall.Settles.fails {call : RoutingCall} {v : AdminRouting} {i : Nat}
    (h : call.Settles v i) : ∃ w, v.step (call.fails i) = some w := by
  cases call with
  | listOrchs | getOrch | refreshResolver | refreshResolverByAddress => exact h _

/-- A failure is a response that the page can take. -/
theorem AdminRouting.answersOrch_fails (v : AdminRouting) (call : RoutingCall) (i : Nat) :
    (call.fails i).isSettlement = true ∧ v.AnswersOrch (call.fails i) := by
  cases call with
  | getOrch address caller =>
      refine ⟨rfl, ?_⟩
      rintro j result ⟨rfl, rfl⟩ address caller -
      cases caller <;> simp [GetOrchCaller.writes, request]
  | listOrchs filter caller => exact ⟨rfl, by rintro j result ⟨⟩⟩
  | refreshResolver => exact ⟨rfl, by rintro j result ⟨⟩⟩
  | refreshResolverByAddress address => exact ⟨rfl, by rintro j result ⟨⟩⟩

/-- **The dashboard comes to rest.** In any state that the operator and the responses so
far have led to, one refresh of all is in flight at most, and exactly while the button is
disabled; and if the operator does nothing more, every call in flight settles with whatever
response, there are at most three for each call until no call is left, and then the page waits
for nothing. -/
theorem atRest_adminRouting {es : List RoutingEvent} {v : AdminRouting}
    (hanswers : adminRouting.Meets AdminRouting.AnswersOrch es)
    (hv : adminRouting.run es = some v) :
    (v.calls.countP RoutingCall.ofRefreshAll = if v.refreshing then 1 else 0)
      ∧ (v.calls = [] → v.AtRest)
      ∧ (∀ (i : Nat) (call : RoutingCall), v.calls[i]? = some call → call.Settles v i)
      ∧ (∀ ds w, (∀ e ∈ ds, e.isSettlement = true) → adminRouting.runFrom v ds = some w →
          ds.length ≤ 3 * v.calls.length)
      ∧ ∃ ds w, (∀ e ∈ ds, e.isSettlement = true) ∧ adminRouting.runFrom v ds = some w
          ∧ w.calls = [] ∧ w.AtRest := by
  have htidy : v.Tidy :=
    Machine.run_of_meets (I := AdminRouting.Tidy) AdminRouting.tidy_init
      (fun _ _ _ h hc hst => AdminRouting.tidy_step h hc hst) hanswers v hv
  refine ⟨htidy.refreshing, htidy.atRest, fun _ _ => AdminRouting.settles, ?_, ?_⟩
  · intro ds w hds hw
    have hlen := Machine.length_add_le (M := adminRouting) (K := fun e => e.isSettlement = true)
      (fun _ _ _ hk hst => AdminRouting.weight_step hk hst) hds hw
    have hle : v.weight ≤ 3 * v.calls.length := InFlight.weight_le RoutingCall.weight_le v.calls
    omega
  · have hnext : ∀ u : AdminRouting, u.calls ≠ [] →
        ∃ e w, (e.isSettlement = true ∧ ∀ v : AdminRouting, v.AnswersOrch e)
          ∧ adminRouting.step u e = some w := by
      intro u hleft
      obtain ⟨call, rest, hcalls⟩ := List.exists_cons_of_ne_nil hleft
      have hcall : u.calls[0]? = some call := by rw [hcalls]; rfl
      obtain ⟨w, hw⟩ := (AdminRouting.settles hcall).fails
      exact ⟨call.fails 0, w, ⟨(u.answersOrch_fails call 0).1,
        fun v => (v.answersOrch_fails call 0).2⟩, hw⟩
    obtain ⟨ds, w, hds, hw, hrest, hnone⟩ := Machine.exists_runFrom_done (I := AdminRouting.Tidy)
      (fun _ _ _ h hk hst => AdminRouting.tidy_step h (hk.2 _) hst)
      (fun _ _ _ hk hst => AdminRouting.weight_step hk.1 hst) hnext v htidy
    exact ⟨ds, w, fun e he => (hds e he).1, hw, hnone, hrest.atRest hnone⟩

/-- A row is selected, a refresh of all is started, and the response for the row arrives. -/
def refreshingRun : List RoutingEvent :=
  [.listOrchsSettles 0 (.response 200 (.data [outsideRow firstOrch])), .select 0,
   .refreshAll true, .getOrchSettles 0 firstResponse]

theorem atRest_adminRouting_refreshingRun : ∃ v, adminRouting.run refreshingRun = some v
    ∧ v.refreshing = true ∧ v.calls.countP RoutingCall.ofRefreshAll = 1
    ∧ ∀ ds w, (∀ e ∈ ds, e.isSettlement = true) → adminRouting.runFrom v ds = some w →
        ds.length ≤ 3 := by
  obtain ⟨v, hv, hup, hlen⟩ : ∃ v, adminRouting.run refreshingRun = some v
      ∧ v.refreshing = true ∧ v.calls.length = 1 := ⟨_, rfl, rfl, rfl⟩
  have hanswers : adminRouting.Meets AdminRouting.AnswersOrch refreshingRun := by
    refine (Machine.Meets.of_forall (C := fun ev => ∀ i result, ev = .getOrchSettles i result →
      result = firstResponse) ?_).imp ?_
    · simp [refreshingRun]
    · rintro u _ hC i result rfl address caller -
      rw [hC i result rfl]
      cases caller <;> simp [GetOrchCaller.writes, firstResponse, request, detailView]
  obtain ⟨hcount, -, -, hbound, -⟩ := atRest_adminRouting hanswers hv
  rw [hup] at hcount
  rw [hlen] at hbound
  exact ⟨v, hv, hup, hcount, hbound⟩

/-! ## The page of one orch -/

def DetailCall.weight : DetailCall → Nat
  | .getOrch _ _ => 1
  | .refreshResolverByAddress _ => 2

theorem DetailCall.weight_le (call : DetailCall) : call.weight ≤ 2 := by
  unfold weight
  split <;> omega

def DetailCall.isLoad : DetailCall → Bool
  | .getOrch _ _ => true
  | .refreshResolverByAddress _ => false

/-- `_refresh` awaits the call. -/
def DetailCall.ofRefresh : DetailCall → Bool
  | .refreshResolverByAddress _ | .getOrch _ .refresh => true
  | .getOrch _ .page => false

def DetailEvent.isSettlement : DetailEvent → Bool
  | .getOrchSettles _ _ | .refreshSettles _ _ => true
  | _ => false

namespace AdminOrchDetail

def weight (v : AdminOrchDetail) : Nat := InFlight.weight DetailCall.weight v.calls

theorem weight_settle {v : AdminOrchDetail} {i : Nat} {call : DetailCall}
    (h : v.calls[i]? = some call) : v.weight = call.weight + (v.settle i).weight :=
  InFlight.weight_eraseIdx h

theorem weight_loadOver (v : AdminOrchDetail) (caller : LoadCaller) :
    (v.loadOver caller).weight = v.weight := by
  cases caller <;> rfl

theorem weight_load_le (v : AdminOrchDetail) (caller : LoadCaller) :
    (v.load caller).weight ≤ v.weight + 1 := by
  unfold load
  split
  · rw [weight_loadOver]
    omega
  · exact (InFlight.weight_snoc _ _ _).le

/-- A `_load` that is answered ends with `_loading` down and something to show. -/
theorem loaded_eq (v : AdminOrchDetail) {address : String} (caller : LoadCaller)
    {result : FetchResult OrchDetail} (hdata : dataWritten address result ≠ some none)
    (herror : ∀ err, request result = .error err → err.message ≠ "") :
    ∃ data error, v.loaded address caller result
        = { v with
            data, error, loading := false
            refreshing := decide (caller ≠ .refresh) && v.refreshing }
      ∧ (data = none → error ≠ "") := by
  unfold loaded
  cases hw : dataWritten address result with
  | some data =>
      refine ⟨data, v.error, by cases caller <;> rfl, ?_⟩
      rintro rfl
      exact absurd hw hdata
  | none =>
      cases hr : request result with
      | ok payload => simp [dataWritten, hr] at hw
      | error err => exact ⟨v.data, err.message, by cases caller <;> rfl, fun _ => herror err hr⟩

theorem weight_loaded (v : AdminOrchDetail) (address : String) (caller : LoadCaller)
    (result : FetchResult OrchDetail) : (v.loaded address caller result).weight = v.weight := by
  unfold loaded
  rw [weight_loadOver]
  show weight _ = _
  split <;> rfl

theorem weight_step {v w : AdminOrchDetail} {ev : DetailEvent} (hev : ev.isSettlement = true)
    (hst : v.step ev = some w) : w.weight < v.weight := by
  cases ev with
  | navigate | refresh => cases hev
  | getOrchSettles i result =>
      simp only [step] at hst
      split at hst
      · next address caller hcall =>
          obtain rfl := Option.some.inj hst
          rw [weight_loaded, weight_settle hcall]
          show _ < 1 + _
          omega
      · cases hst
  | refreshSettles i result =>
      simp only [step] at hst
      split at hst
      · next address hcall =>
          obtain rfl := Option.some.inj hst
          rw [weight_settle hcall]
          show _ < 2 + _
          unfold refreshed
          split
          · have := weight_load_le (v.settle i) .refresh
            omega
          · show (v.settle i).weight < _
            omega
      · cases hst

/-- The flags are up for a call in flight, and a page without an outcome waits for one. -/
structure Tidy (v : AdminOrchDetail) : Prop where
  loading : v.loading = true → ∃ call ∈ v.calls, call.isLoad = true
  refreshing : InFlight.Flags DetailCall.ofRefresh v.calls v.refreshing
  shown : v.address ≠ "" → v.data = none → v.error = "" → ∃ call ∈ v.calls, call.isLoad = true

/-- A response is an orch or an error with a message. -/
structure Answers (v : AdminOrchDetail) (ev : DetailEvent) : Prop where
  getOrch : ∀ i result, ev = .getOrchSettles i result →
    ∀ address caller, v.calls[i]? = some (.getOrch address caller) →
      dataWritten address result ≠ some none ∧ ∀ err, request result = .error err → err.message ≠ ""
  refresh : ∀ i result, ev = .refreshSettles i result →
    ∀ err, request result = .error err → err.message ≠ ""

namespace Tidy

theorem load {v : AdminOrchDetail}
    (hloading : v.loading = true → ∃ call ∈ v.calls, call.isLoad = true)
    (hrefreshing : InFlight.Flags DetailCall.ofRefresh v.calls v.refreshing) :
    (v.load .page).Tidy := by
  unfold AdminOrchDetail.load
  split
  · next hempty => exact ⟨hloading, hrefreshing, fun hne => absurd hempty hne⟩
  · have hmem : DetailCall.getOrch v.address .page ∈ v.calls ++ [.getOrch v.address .page] :=
      List.mem_append_right _ (List.mem_singleton.mpr rfl)
    exact ⟨fun _ => ⟨_, hmem, rfl⟩, hrefreshing.add rfl, fun _ _ _ => ⟨_, hmem, rfl⟩⟩

theorem navigate {v : AdminOrchDetail} (h : v.Tidy) (address : String) :
    (v.navigate address).Tidy := by
  unfold AdminOrchDetail.navigate
  split
  · exact h
  · exact load h.loading h.refreshing

theorem refresh {v : AdminOrchDetail} (h : v.Tidy) (hbutton : v.refreshButton = true) :
    v.refresh.Tidy := by
  simp only [refreshButton, Bool.and_eq_true, Bool.not_eq_true'] at hbutton
  have hdown := h.refreshing
  rw [hbutton.2] at hdown
  refine ⟨fun hl => ?_, hdown.raise rfl, fun hne hd he => ?_⟩
  · obtain ⟨call, hmem, hcall⟩ := h.loading hl
    exact ⟨call, List.mem_append_left _ hmem, hcall⟩
  · obtain ⟨call, hmem, hcall⟩ := h.shown hne hd he
    exact ⟨call, List.mem_append_left _ hmem, hcall⟩

theorem loaded {v : AdminOrchDetail} (h : v.Tidy) {i : Nat} {address : String}
    {caller : LoadCaller} (hcall : v.calls[i]? = some (.getOrch address caller))
    {result : FetchResult OrchDetail} (hdata : dataWritten address result ≠ some none)
    (herror : ∀ err, request result = .error err → err.message ≠ "") :
    ((v.settle i).loaded address caller result).Tidy := by
  obtain ⟨data, error, heq, hshown⟩ := (v.settle i).loaded_eq caller hdata herror
  rw [heq]
  refine ⟨fun hl => (by cases hl), ?_, fun _ hd he => absurd he (hshown hd)⟩
  cases caller with
  | refresh => exact (h.refreshing.lower hcall rfl).2
  | page => exact h.refreshing.settle hcall rfl

theorem refreshed {v : AdminOrchDetail} (h : v.Tidy) {i : Nat} {address : String}
    (hcall : v.calls[i]? = some (.refreshResolverByAddress address)) {result : FetchResult Unit}
    (herror : ∀ err, request result = .error err → err.message ≠ "") :
    ((v.settle i).refreshed result).Tidy := by
  obtain ⟨hup, hdown⟩ := h.refreshing.lower hcall rfl
  have hloading : v.loading = true → ∃ call ∈ (v.settle i).calls, call.isLoad = true := by
    intro hl
    obtain ⟨call, hmem, hload⟩ := h.loading hl
    refine ⟨call, InFlight.mem_eraseIdx hcall ?_ hmem, hload⟩
    rintro rfl
    cases hload
  unfold AdminOrchDetail.refreshed
  cases hr : request result with
  | error err => exact ⟨hloading, hdown, fun _ _ he => absurd he (herror err hr)⟩
  | ok _ =>
      dsimp only
      unfold AdminOrchDetail.load
      split
      · next hempty => exact ⟨hloading, hdown, fun hne => absurd hempty hne⟩
      · have hmem : DetailCall.getOrch v.address .refresh
            ∈ (v.settle i).calls ++ [.getOrch v.address .refresh] :=
          List.mem_append_right _ (List.mem_singleton.mpr rfl)
        refine ⟨fun _ => ⟨_, hmem, rfl⟩, ?_, fun _ _ _ => ⟨_, hmem, rfl⟩⟩
        show InFlight.Flags _ _ v.refreshing
        rw [hup]
        exact hdown.raise rfl

end Tidy

theorem tidy_step {v w : AdminOrchDetail} {ev : DetailEvent} (h : v.Tidy)
    (hanswers : v.Answers ev) (hst : v.step ev = some w) : w.Tidy := by
  cases ev with
  | navigate address => exact Option.some.inj hst ▸ h.navigate address
  | refresh =>
      obtain ⟨hbutton, hw⟩ := Option.ite_none_right_eq_some.mp hst
      exact Option.some.inj hw ▸ h.refresh hbutton
  | getOrchSettles i result =>
      simp only [step] at hst
      split at hst
      · next hcall =>
          obtain ⟨hdata, herror⟩ := hanswers.getOrch i result rfl _ _ hcall
          exact Option.some.inj hst ▸ h.loaded hcall hdata herror
      · cases hst
  | refreshSettles i result =>
      simp only [step] at hst
      split at hst
      · next hcall =>
          exact Option.some.inj hst ▸ h.refreshed hcall (hanswers.refresh i result rfl)
      · cases hst

theorem tidy_connected (address : String) : (connected address).Tidy := by
  have hfirst : (({ address } : AdminOrchDetail).load .page).Tidy :=
    Tidy.load (fun hl => by cases hl) rfl
  exact Tidy.load hfirst.loading hfirst.refreshing

/-- The page waits for nothing, and has an outcome if it has an address. -/
structure AtRest (v : AdminOrchDetail) : Prop where
  loading : v.loading = false
  refreshing : v.refreshing = false
  shown : v.address ≠ "" → v.data.isSome = true ∨ v.error ≠ ""

theorem Tidy.atRest {v : AdminOrchDetail} (h : v.Tidy) (hcalls : v.calls = []) : v.AtRest where
  loading := by
    by_contra hl
    obtain ⟨call, hmem, -⟩ := h.loading (Bool.not_eq_false _ ▸ hl)
    rw [hcalls] at hmem
    cases hmem
  refreshing := InFlight.Flags.down (hcalls ▸ h.refreshing)
  shown hne := by
    by_contra hnone
    rw [not_or, not_not] at hnone
    obtain ⟨call, hmem, -⟩ := h.shown hne (by simpa using hnone.1) hnone.2
    rw [hcalls] at hmem
    cases hmem

end AdminOrchDetail

/-- The call in flight settles, whatever its outcome is. -/
def DetailCall.Settles (call : DetailCall) (v : AdminOrchDetail) (i : Nat) : Prop :=
  match call with
  | .getOrch _ _ => ∀ result, ∃ w, v.step (.getOrchSettles i result) = some w
  | .refreshResolverByAddress _ => ∀ result, ∃ w, v.step (.refreshSettles i result) = some w

theorem AdminOrchDetail.settles {v : AdminOrchDetail} {i : Nat} {call : DetailCall}
    (hcall : v.calls[i]? = some call) : call.Settles v i := by
  cases call with
  | getOrch address caller => exact fun result => ⟨_, by simp only [step, hcall]; rfl⟩
  | refreshResolverByAddress address => exact fun result => ⟨_, by simp only [step, hcall]; rfl⟩

/-- The fetch of the call fails. -/
def DetailCall.fails (call : DetailCall) (i : Nat) : DetailEvent :=
  match call with
  | .getOrch _ _ => .getOrchSettles i (.rejected "Failed to fetch")
  | .refreshResolverByAddress _ => .refreshSettles i (.rejected "Failed to fetch")

theorem DetailCall.Settles.fails {call : DetailCall} {v : AdminOrchDetail} {i : Nat}
    (h : call.Settles v i) : ∃ w, v.step (call.fails i) = some w := by
  cases call with
  | getOrch | refreshResolverByAddress => exact h _

theorem AdminOrchDetail.answers_fails (v : AdminOrchDetail) (call : DetailCall) (i : Nat) :
    (call.fails i).isSettlement = true ∧ v.Answers (call.fails i) := by
  cases call with
  | getOrch address caller =>
      refine ⟨rfl, ?_, by rintro j result ⟨⟩⟩
      rintro j result ⟨rfl, rfl⟩ address caller -
      refine ⟨by simp [dataWritten, request], ?_⟩
      rintro err ⟨⟩
      decide
  | refreshResolverByAddress address =>
      refine ⟨rfl, by rintro j result ⟨⟩, ?_⟩
      rintro j result ⟨rfl, rfl⟩ err ⟨⟩
      decide

/-- **The page of an orch comes to rest.** However it is navigated and refreshed, one
refresh is in flight at most, and exactly while the button is disabled; and if the operator
does nothing more, every call in flight settles with whatever response, there are at most two
for each call until no call is left, and then the page is not loading and shows an orch or an
error. -/
theorem atRest_adminOrchDetail (address : String) {es : List DetailEvent} {v : AdminOrchDetail}
    (hanswers : (adminOrchDetail address).Meets AdminOrchDetail.Answers es)
    (hv : (adminOrchDetail address).run es = some v) :
    (v.calls.countP DetailCall.ofRefresh = if v.refreshing then 1 else 0)
      ∧ (v.calls = [] → v.AtRest)
      ∧ (∀ (i : Nat) (call : DetailCall), v.calls[i]? = some call → call.Settles v i)
      ∧ (∀ ds w, (∀ e ∈ ds, e.isSettlement = true) →
          (adminOrchDetail address).runFrom v ds = some w → ds.length ≤ 2 * v.calls.length)
      ∧ ∃ ds w, (∀ e ∈ ds, e.isSettlement = true) ∧ (adminOrchDetail address).runFrom v ds = some w
          ∧ w.calls = [] ∧ w.AtRest := by
  have htidy : v.Tidy :=
    Machine.run_of_meets (I := AdminOrchDetail.Tidy) (AdminOrchDetail.tidy_connected address)
      (fun _ _ _ h hc hst => AdminOrchDetail.tidy_step h hc hst) hanswers v hv
  refine ⟨htidy.refreshing, htidy.atRest, fun _ _ => AdminOrchDetail.settles, ?_, ?_⟩
  · intro ds w hds hw
    have hlen := Machine.length_add_le (M := adminOrchDetail address)
      (K := fun e => e.isSettlement = true)
      (fun _ _ _ hk hst => AdminOrchDetail.weight_step hk hst) hds hw
    have hle : v.weight ≤ 2 * v.calls.length := InFlight.weight_le DetailCall.weight_le v.calls
    omega
  · have hnext : ∀ u : AdminOrchDetail, u.calls ≠ [] →
        ∃ e w, (e.isSettlement = true ∧ ∀ v : AdminOrchDetail, v.Answers e)
          ∧ (adminOrchDetail address).step u e = some w := by
      intro u hleft
      obtain ⟨call, rest, hcalls⟩ := List.exists_cons_of_ne_nil hleft
      have hcall : u.calls[0]? = some call := by rw [hcalls]; rfl
      obtain ⟨w, hw⟩ := (AdminOrchDetail.settles hcall).fails
      exact ⟨call.fails 0, w, ⟨(u.answers_fails call 0).1, fun v => (v.answers_fails call 0).2⟩, hw⟩
    obtain ⟨ds, w, hds, hw, hrest, hnone⟩ :=
      Machine.exists_runFrom_done (I := AdminOrchDetail.Tidy)
        (fun _ _ _ h hk hst => AdminOrchDetail.tidy_step h (hk.2 _) hst)
        (fun _ _ _ hk hst => AdminOrchDetail.weight_step hk.1 hst) hnext v htidy
    exact ⟨ds, w, fun e he => (hds e he).1, hw, hnone, hrest.atRest hnone⟩

/-- Both responses to the loads of a page that is opened arrive, and it is refreshed. -/
def refreshedRun : List DetailEvent :=
  [.getOrchSettles 0 firstResponse, .getOrchSettles 0 firstResponse, .refresh]

theorem atRest_adminOrchDetail_refreshedRun : ∃ v,
    (adminOrchDetail firstOrch).run refreshedRun = some v
      ∧ v.calls.countP DetailCall.ofRefresh = 1
      ∧ ∀ ds w, (∀ e ∈ ds, e.isSettlement = true) →
          (adminOrchDetail firstOrch).runFrom v ds = some w → ds.length ≤ 2 := by
  obtain ⟨v, hv, hup, hlen⟩ : ∃ v, (adminOrchDetail firstOrch).run refreshedRun = some v
      ∧ v.refreshing = true ∧ v.calls.length = 1 := ⟨_, rfl, rfl, rfl⟩
  have hanswers : (adminOrchDetail firstOrch).Meets AdminOrchDetail.Answers refreshedRun := by
    refine (Machine.Meets.of_forall (C := fun ev => ev = .refresh
      ∨ ev = .getOrchSettles 0 firstResponse) ?_).imp ?_
    · simp [refreshedRun]
    · rintro u _ (rfl | rfl)
      · exact ⟨by rintro i result ⟨⟩, by rintro i result ⟨⟩⟩
      · refine ⟨?_, by rintro i result ⟨⟩⟩
        rintro i result ⟨rfl, rfl⟩ address caller -
        simp [dataWritten, firstResponse, request, detailView]
  obtain ⟨hcount, -, -, hbound, -⟩ := atRest_adminOrchDetail firstOrch hanswers hv
  rw [hup] at hcount
  rw [hlen] at hbound
  exact ⟨v, hv, hcount, hbound⟩

end GatewayConsole
