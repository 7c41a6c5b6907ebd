import GatewayConsole.AdminSender
import GatewayConsole.ApiRequests

/-!
# Capability search

`GET /api/capabilities/search` and `components/admin-capabilities.js`: the form, the request it
sends, the handler, the call of the daemon and what the page shows of the answer. A step is
one turn of the event loop. While a search is running the form is not submitted again.

What a page is to show is said of the events alone: the answer to the last form that was sent,
whose texts are taken without white space around them, or what the form says of an attempt
after it (`shown`). `searchPage` says that every run of the page shows this, from the handler of
`Select` on.
-/

namespace GatewayConsole

/-! ## The handler -/

/-- `handleCapabilitySearch`, over `search` of the service. -/
def handleCapabilitySearch (query : List (String × QueryValue))
    (search : SelectQuery → Except Fault SelectResult) : Reply SelectResult :=
  match parseCapabilitySearchQuery query with
  | .error _ => { status := 400, body := .error "invalid_input" none }
  | .ok query =>
      match search query with
      | .ok result => { status := 200, body := .data result }
      | .error f => { status := f.status, body := .exception f.message }

/-! ## The component -/

structure SearchForm where
  capability : String := ""
  offering : String := ""
  tier : String := ""
deriving Repr, DecidableEq

/-- The query that a form is sent as. -/
def SearchForm.query (form : SearchForm) : SelectQuery where
  capability := trim form.capability
  offering := trim form.offering
  tier := orNull (trim form.tier)

structure AdminCapabilities where
  form : SearchForm := {}
  result : Payload SelectResult := .null
  loading : Bool := false
  error : String := ""
  /-- The searches in flight. -/
  calls : List SelectQuery := []
deriving Repr, DecidableEq

namespace AdminCapabilities

/-- `_submit` up to its fetch. -/
def submit (v : AdminCapabilities) : AdminCapabilities :=
  if v.loading then v
  else if trim v.form.capability = "" then { v with error := "capability is required" }
  else if trim v.form.offering = "" then { v with error := "offering is required" }
  else { v with loading := true, error := "", result := .null, calls := v.calls ++ [v.form.query] }

/-- The rest of `_submit`. -/
def settled (v : AdminCapabilities) (result : FetchResult SelectResult) : AdminCapabilities :=
  match request result with
  | .ok payload => { v with result := payload, loading := false }
  | .error err => { v with error := err.message, loading := false }

/-- How a search settles: `fetch` fails, or the server answers with the daemon as it is then. -/
inductive Response where
  | failed (message : String)
  | served (w : WireDaemon)

inductive Event where
  | edit (form : SearchForm)
  | submit
  | settles (call : Nat) (response : Response)

section Page

variable [BinaryWire] (parse : List Char → List (String × QueryValue)) (fault : Nat → Fault)

/-- The response to a target, with a daemon behind the client. -/
def serveSearch (w : WireDaemon) (target : String) : FetchResult SelectResult :=
  (handleCapabilitySearch (parse (queryText target)) fun query =>
    (ResolverClient.select w.stub query).mapError fault).fetched.result

def Response.result (query : SelectQuery) : Response → FetchResult SelectResult
  | .failed message => .rejected message
  | .served w => serveSearch parse fault w (ConsoleCall.searchCapabilities query).target

def step (v : AdminCapabilities) : Event → Option AdminCapabilities
  | .edit form => some { v with form }
  | .submit => some v.submit
  | .settles i response =>
      v.calls[i]?.map fun query =>
        settled { v with calls := v.calls.eraseIdx i } (response.result parse fault query)

def machine : Machine AdminCapabilities Event where
  init := {}
  step := step parse fault

end Page

/-! ## What is to be shown

From the events so far, the last one first. -/

/-- Why a form is not sent. -/
def refusal (form : SearchForm) : Option String :=
  if trim form.capability = "" then some "capability is required"
  else if trim form.offering = "" then some "offering is required"
  else none

/-- What is typed in. -/
def typed : List Event → SearchForm
  | [] => {}
  | .edit form :: _ => form
  | .submit :: es | .settles _ _ :: es => typed es

/-- The form of the search that is running. -/
def running : List Event → Option SearchForm
  | [] => none
  | .edit _ :: es => running es
  | .submit :: es =>
      (running es).or (if refusal (typed es) = none then some (typed es) else none)
  | .settles _ _ :: _ => none

/-- The result and the error that are to be shown, where `answer` is that of the daemon to a
form. A form that is refused changes the error only. -/
def shown (answer : SearchForm → Payload SelectResult × String) :
    List Event → Payload SelectResult × String
  | [] => (.null, "")
  | .edit _ :: es => shown answer es
  | .submit :: es =>
      match running es, refusal (typed es) with
      | some _, _ => shown answer es
      | none, some text => ((shown answer es).1, text)
      | none, none => (.null, "")
  | .settles _ (.failed message) :: _ => (.null, message)
  | .settles _ (.served _) :: es => (running es).elim (.null, "") answer

/-- The texts that are sent are no longer than the schema takes. -/
def fits (form : SearchForm) : Prop :=
  utf16Length (trim form.capability) ≤ 120 ∧ utf16Length (trim form.offering) ≤ 240
    ∧ utf16Length (trim form.tier) ≤ 60

instance (form : SearchForm) : Decidable (fits form) := inferInstanceAs (Decidable (_ ∧ _ ∧ _))

/-- What a daemon makes of a form. -/
def answer (fault : Nat → Fault)
    (select : Registry.SelectRequest → Except Nat Registry.SelectResult) (form : SearchForm) :
    Payload SelectResult × String :=
  if fits form then
    match select ⟨trim form.capability, trim form.offering, trim form.tier, 0⟩ with
    | .ok ⟨some route⟩ =>
        (.data { route := some (mapSelectedRoute route), reason := "top-weighted" }, "")
    | .ok ⟨none⟩ => (.data { route := none, reason := "no route matched" }, "")
    | .error code =>
        if code = statusNotFound then (.data { route := none, reason := "no route matched" }, "")
        else (.null, AdminSender.alertOf (fault code))
  else (.null, "request_failed")

/-- What a page is after these events, the last one first. -/
structure Shows (answer : SearchForm → Payload SelectResult × String) (es : List Event)
    (v : AdminCapabilities) : Prop where
  form : v.form = typed es
  calls : v.calls = ((running es).map SearchForm.query).toList
  loading : v.loading = (running es).isSome
  shows : (v.result, v.error) = shown answer es
  /-- While a search is running there is nothing. -/
  blank : v.loading = true → v.result = .null ∧ v.error = ""

/-- Only what is not refused is sent. -/
theorem refusal_of_running {form : SearchForm} :
    ∀ {es : List Event}, running es = some form → refusal form = none
  | .edit _ :: es, h => @refusal_of_running _ es h
  | .submit :: es, h => by
      rw [running] at h
      cases hr : running es with
      | some f =>
          rw [hr] at h
          obtain rfl := Option.some.inj h
          exact refusal_of_running hr
      | none =>
          rw [hr, Option.none_or] at h
          split at h
          · rename_i hnone
            exact Option.some.inj h ▸ hnone
          · cases h

theorem ne_of_refusal {form : SearchForm} (h : refusal form = none) :
    trim form.capability ≠ "" ∧ trim form.offering ≠ "" := by
  unfold refusal at h
  split at h
  · cases h
  · rename_i hcapability
    split at h
    · cases h
    · rename_i hoffering
      exact ⟨hcapability, hoffering⟩

theorem query_tier (form : SearchForm) :
    form.query.tier.bind orNull = form.query.tier ∧ form.query.tier.getD "" = trim form.tier := by
  by_cases h : trim form.tier = ""
  · simp [SearchForm.query, orNull, h]
  · simp [SearchForm.query, orNull, h]

theorem fits_query {form : SearchForm} (h : refusal form = none) :
    (ConsoleCall.searchCapabilities form.query).fits = true ↔ fits form := by
  obtain ⟨hcapability, hoffering⟩ := ne_of_refusal h
  have htier : within 60 form.query.tier = decide (utf16Length (trim form.tier) ≤ 60) := by
    by_cases hempty : trim form.tier = ""
    · simp [SearchForm.query, orNull, hempty, within]
      decide
    · simp [SearchForm.query, orNull, hempty, within]
  simp only [ConsoleCall.fits, htier]
  simp [fits, SearchForm.query, hcapability, hoffering, within, and_assoc]

section Runs

variable [BinaryWire] {parse : List Char → List (String × QueryValue)} {fault : Nat → Fault}
  {select : Registry.SelectRequest → Except Nat Registry.SelectResult}

/-- The outcome of a search, as the page takes it. -/
def outcome (result : FetchResult SelectResult) : Payload SelectResult × String :=
  match request result with
  | .ok payload => (payload, "")
  | .error err => (.null, err.message)

omit [BinaryWire] in
/-- What the schema reads from the target of a form. -/
theorem parse_form (hparse : ReadsForms parse) {form : SearchForm} (hform : refusal form = none) :
    (parseCapabilitySearchQuery
        (parse (queryText (ConsoleCall.searchCapabilities form.query).target))).toOption
      = if fits form then some form.query else none := by
  have hfixed : FixedRoute (ConsoleCall.searchCapabilities form.query).method
      (ConsoleCall.searchCapabilities form.query).path
      (ConsoleCall.searchCapabilities form.query).route :=
    (by decide : FixedRoute "GET" "/api/capabilities/search" .capabilitySearch)
  have hquery : { form.query with tier := form.query.tier.bind orNull } = form.query := by
    rw [(query_tier form).1]
  rw [parse_target hparse hfixed, parseCapabilitySearchQuery_query, hquery]
  simp only [fits_query hform]

/-- The daemon gets the texts of the form. -/
theorem select_form {w : WireDaemon}
    (hw : Registry.ResolverService.select.Implements w.select select) {form : SearchForm}
    (hfits : fits form) :
    w.stub.select (ResolverClient.selectRequest form.query)
      = select ⟨trim form.capability, trim form.offering, trim form.tier, 0⟩ := by
  obtain ⟨hcapability, hoffering, htier⟩ := hfits
  have hwritten : Writable (form.query.tier.getD "") := by
    rw [(query_tier form).2]
    exact Nat.lt_of_le_of_lt htier (by decide)
  have hrequest : ResolverClient.selectRequest form.query
      = ⟨trim form.capability, trim form.offering, trim form.tier, 0⟩ := by
    rw [ResolverClient.selectRequest, (query_tier form).2]
    rfl
  rw [← hrequest]
  exact Method.call_eq hw (encode_selectRequest (Nat.lt_of_le_of_lt hcapability (by decide))
    (Nat.lt_of_le_of_lt hoffering (by decide)) hwritten)

/-- The page gets the answer of the daemon. -/
theorem outcome_serveSearch (hparse : ReadsForms parse) {w : WireDaemon}
    (hw : Registry.ResolverService.select.Implements w.select select) {form : SearchForm}
    (hform : refusal form = none) :
    outcome (serveSearch parse fault w (ConsoleCall.searchCapabilities form.query).target)
      = answer fault select form := by
  have hread := parse_form hparse hform
  rw [serveSearch, answer, handleCapabilitySearch]
  cases hparsed : parseCapabilitySearchQuery
      (parse (queryText (ConsoleCall.searchCapabilities form.query).target)) with
  | error issue =>
      rw [hparsed] at hread
      have hfits : ¬fits form := fun hfits => by
        rw [if_pos hfits] at hread
        cases hread
      rw [if_neg hfits]
      rfl
  | ok query =>
      rw [hparsed] at hread
      have hfits : fits form := by
        by_contra hnot
        rw [if_neg hnot] at hread
        cases hread
      rw [if_pos hfits] at hread
      obtain rfl : query = form.query := Option.some.inj hread
      rw [if_pos hfits]
      simp only [ResolverClient.select, select_form hw hfits]
      rcases select ⟨trim form.capability, trim form.offering, trim form.tier, 0⟩ with
        code | ⟨_ | route⟩
      · by_cases hcode : code = statusNotFound
        · simp only [if_pos hcode]
          rfl
        · obtain ⟨err, herr, hmessage⟩ :=
            AdminSender.request_fault (β := SelectResult) (fault code)
          simp only [if_neg hcode, Except.mapError, outcome, herr, hmessage]
      · rfl
      · rfl

/-- The responses are from daemons with this handler of `Select`. -/
def ServedBy (select : Registry.SelectRequest → Except Nat Registry.SelectResult)
    (es : List Event) : Prop :=
  ∀ i w, Event.settles i (.served w) ∈ es →
    Registry.ResolverService.select.Implements w.select select

omit [BinaryWire] in
theorem settled_outcome {v : AdminCapabilities} {result : FetchResult SelectResult}
    (hblank : v.result = .null ∧ v.error = "") :
    v.settled result
      = { v with result := (outcome result).1, error := (outcome result).2, loading := false } := by
  unfold settled outcome
  cases request result with
  | ok payload => simp [hblank.2]
  | error err => simp [hblank.1]

omit [BinaryWire] in
theorem shows_submit {answer : SearchForm → Payload SelectResult × String} {es : List Event}
    {v : AdminCapabilities} (h : Shows answer es v) : Shows answer (.submit :: es) v.submit := by
  obtain ⟨hform, hcalls, hloading, hshows, hblank⟩ := h
  unfold submit
  cases hrunning : running es with
  | some form =>
      rw [hrunning] at hcalls hloading
      have hbusy : v.loading = true := hloading
      rw [if_pos hbusy]
      exact ⟨hform, by simpa [running, hrunning] using hcalls,
        by simpa [running, hrunning] using hloading, by simpa [shown, hrunning] using hshows,
        hblank⟩
  | none =>
      rw [hrunning] at hcalls hloading
      have hidle : ¬v.loading = true := by simp [hloading]
      rw [if_neg hidle]
      split
      · rename_i hcapability
        have hrefused : refusal (typed es) = some "capability is required" := by
          rw [← hform, refusal, if_pos hcapability]
        exact ⟨hform, by simpa [running, hrunning, hrefused] using hcalls,
          by simpa [running, hrunning, hrefused] using hloading,
          by simp [shown, hrunning, hrefused, ← hshows], fun hl => absurd hl hidle⟩
      · rename_i hcapability
        split
        · rename_i hoffering
          have hrefused : refusal (typed es) = some "offering is required" := by
            rw [← hform, refusal, if_neg hcapability, if_pos hoffering]
          exact ⟨hform, by simpa [running, hrunning, hrefused] using hcalls,
            by simpa [running, hrunning, hrefused] using hloading,
            by simp [shown, hrunning, hrefused, ← hshows], fun hl => absurd hl hidle⟩
        · rename_i hoffering
          have hsent : refusal (typed es) = none := by
            rw [← hform, refusal, if_neg hcapability, if_neg hoffering]
          exact ⟨hform, by simpa [running, hrunning, hsent, hform] using hcalls,
            by simp [running, hrunning, hsent], by simp [shown, hrunning, hsent],
            fun _ => ⟨rfl, rfl⟩⟩

theorem shows_step (hparse : ReadsForms parse) {es : List Event} {v t : AdminCapabilities}
    {e : Event} (h : Shows (answer fault select) es v) (he : ServedBy select [e])
    (hst : step parse fault v e = some t) : Shows (answer fault select) (e :: es) t := by
  cases e with
  | edit form =>
      obtain rfl := Option.some.inj hst
      exact ⟨rfl, h.calls, h.loading, h.shows, h.blank⟩
  | submit =>
      obtain rfl := Option.some.inj hst
      exact shows_submit h
  | settles i response =>
      obtain ⟨hform, hcalls, hloading, hshows, hblank⟩ := h
      obtain ⟨query, hquery, rfl⟩ := Option.map_eq_some_iff.mp hst
      cases hrunning : running es with
      | none =>
          rw [hcalls, hrunning] at hquery
          cases hquery
      | some form =>
          rw [hrunning] at hcalls hloading
          -- the call is the only one
          obtain ⟨rfl, rfl⟩ : i = 0 ∧ form.query = query := by
            rw [hcalls] at hquery
            cases i with
            | zero => exact ⟨rfl, Option.some.inj hquery⟩
            | succ i => cases hquery
          have hnone : v.calls.eraseIdx 0 = [] := by
            rw [hcalls]
            rfl
          rw [settled_outcome (v := { v with calls := v.calls.eraseIdx 0 }) (hblank hloading)]
          refine ⟨hform, hnone, rfl, ?_, fun hl => by cases hl⟩
          cases response with
          | failed message => rfl
          | served w =>
              have hanswer := @outcome_serveSearch _ _ fault _ hparse w
                (he 0 w (List.mem_singleton_self _)) _ (refusal_of_running hrunning)
              simp only [Response.result, hanswer, shown, hrunning, Option.elim_some]

/-- **The page shows the answer of the daemon.** Whatever is typed, submitted and answered, and
with whichever daemons that have this handler of `Select`: at most one search is running, and
nothing is shown while it is. Its response is taken whenever it comes, and then its answer is
shown, or the error that it has ended with; a form that is refused changes the error only. -/
theorem searchPage (hparse : ReadsForms parse) {es : List Event} (hserved : ServedBy select es)
    {v : AdminCapabilities} (hrun : (machine parse fault).run es = some v) :
    Shows (answer fault select) es.reverse v ∧ v.calls.length ≤ 1
      ∧ ∀ i < v.calls.length, ∀ response,
        (step parse fault v (.settles i response)).isSome = true := by
  have hshows : Shows (answer fault select) es.reverse v := by
    refine Machine.run_history (M := machine parse fault)
      (H := fun es v => ServedBy select es → Shows (answer fault select) es.reverse v)
      (fun _ => ⟨rfl, rfl, rfl, rfl, fun hl => by cases hl⟩) (fun es v e t h hst hes => ?_) hrun
      hserved
    rw [List.reverse_append, List.reverse_singleton, List.singleton_append]
    exact shows_step hparse (h fun i w hw => hes i w (List.mem_append_left _ hw))
      (fun i w hw => hes i w (List.mem_append_right _ hw)) hst
  refine ⟨hshows, ?_, fun i hi response => ?_⟩
  · rw [hshows.calls]
    exact Option.length_toList_le
  · rw [step, Option.isSome_map, List.getElem?_eq_getElem hi, Option.isSome_some]

end Runs

/-! ## A search without a route -/

def typedForm : SearchForm := { capability := " openai:/v1/chat ", offering := "gpt-oss-20b\t" }

def noFault (_ : Nat) : Fault := ⟨500, "", by decide⟩

/-- The answer comes in, and then a form without an offering is submitted. -/
def searchRun : List Event :=
  [.edit typedForm, .submit, .settles 0 (.served quietServer),
    .edit { typedForm with offering := " " }, .submit]

/-- A daemon that knows no route is asked for the texts without white space around them. -/
theorem searchPage_noRoute :
    ∃ v, (machine fastQuerystring noFault).run searchRun = some v
      ∧ v.result = .data { route := none, reason := "no route matched" }
      ∧ v.error = "offering is required" := by
  have hserved : ServedBy quietDaemon.select searchRun := by
    intro i w hw
    obtain ⟨-, rfl⟩ : i = 0 ∧ w = quietServer := by simpa [searchRun] using hw
    exact quietServer_implements.select
  obtain ⟨v, hrun⟩ : ∃ v, (machine fastQuerystring noFault).run searchRun = some v := ⟨_, rfl⟩
  have hshows := (searchPage readsForms_fastQuerystring hserved hrun).1.shows
  have hshown : shown (answer noFault quietDaemon.select) searchRun.reverse
      = (.data { route := none, reason := "no route matched" }, "offering is required") := by
    decide
  obtain ⟨hresult, herror⟩ := Prod.mk.inj (hshows.trans hshown)
  exact ⟨v, hrun, hresult, herror⟩

end AdminCapabilities

end GatewayConsole
