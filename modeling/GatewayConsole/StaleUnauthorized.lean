import GatewayConsole.Machine
import GatewayConsole.SignIn

/-!
# A 401 and the session it clears

A browser tab over time: sign-ins, sign-outs, requests, and their responses in any order.
`onUnauthorized` clears the session that is stored when a 401 arrives, which need not be the
one that the request was sent under. `clears_traced` says which sessions a 401 can clear: its
own, and those stored since. `clearsOwn_iff` is when it clears no other than its own.

`signIns`, `session` and `cleared` are not part of the program. They number the sessions by
their sign-ins, and record from which of them a request has its headers, and what cleared
each.
-/

namespace GatewayConsole

/-- A request in flight. -/
structure SentRequest where
  headers : AuthHeaders
  /-- The session that the headers were taken from. -/
  session : Option Nat
  /-- The number of sign-ins before it. -/
  signIns : Nat
deriving Repr, DecidableEq

inductive ClearCause where
  | signOut
  | unauthorized (request : SentRequest)
deriving Repr, DecidableEq

/-- The end of a session other than by a later sign-in. -/
structure Clearing where
  session : Nat
  cause : ClearCause
deriving Repr, DecidableEq

structure Tab where
  stored : Option Session := none
  requests : List SentRequest := []
  signIns : Nat := 0
  cleared : List Clearing := []
deriving Repr, DecidableEq

namespace Tab

/-- The stored session, by number: the one of the last sign-in. -/
def session (s : Tab) : Option Nat := s.stored.map fun _ => s.signIns

/-- `clearSession()`. -/
def clearSession (s : Tab) (cause : ClearCause) : Tab :=
  { s with
    stored := none
    cleared := s.cleared ++ (s.session.map fun session => { session, cause }).toList }

/-- `request` up to its `fetch`. -/
def sendRequest (s : Tab) : Tab :=
  { s with
    requests := s.requests ++
      [{ headers := getAuthHeaders s.stored, session := s.session, signIns := s.signIns }] }

end Tab

inductive TabEvent where
  /-- The form is submitted with this. -/
  | signIn (token actor : String)
  | signOut
  /-- A component sends a request. -/
  | send
  /-- The `fetch` of a request in flight settles. -/
  | settle (request : Nat) (result : FetchResult Unit)
deriving Repr, DecidableEq

def Tab.step (s : Tab) : TabEvent → Option Tab
  | .signIn token actor =>
      match ({ token, actor } : AdminLogin).submit.2 with
      | none => some s
      | some session =>
          some { s with stored := some session, signIns := s.signIns + 1 }.sendRequest
  | .signOut => some (s.clearSession .signOut)
  | .send => some s.sendRequest
  | .settle i result =>
      s.requests[i]?.map fun request =>
        let t := { s with requests := s.requests.eraseIdx i }
        if result.isUnauthorized then t.clearSession (.unauthorized request) else t

/-- A tab, with nothing stored. -/
def tab : Machine Tab TabEvent where
  init := {}
  step := Tab.step

theorem Tab.mem_cleared {s : Tab} {cause : ClearCause} {c : Clearing} :
    c ∈ (s.clearSession cause).cleared
      ↔ c ∈ s.cleared ∨ ∃ n, s.session = some n ∧ c = { session := n, cause } := by
  simp only [clearSession, List.mem_append, Option.mem_toList, Option.map_eq_some_iff]
  exact or_congr_right ⟨fun ⟨n, hn, hc⟩ => ⟨n, hn, hc.symm⟩, fun ⟨n, hn, hc⟩ => ⟨n, hn, hc.symm⟩⟩

/-- The ways a step can go. -/
inductive Tab.Trans (s : Tab) : TabEvent → Tab → Prop
  | blank (token actor : String) : Trans s (.signIn token actor) s
  | signIn (token actor : String) (session : Session) :
      Trans s (.signIn token actor)
        { s with stored := some session, signIns := s.signIns + 1 }.sendRequest
  | signOut : Trans s .signOut (s.clearSession .signOut)
  | send : Trans s .send s.sendRequest
  | unauthorized (i : Nat) (result : FetchResult Unit) (request : SentRequest)
      (hi : s.requests[i]? = some request) (h401 : result.isUnauthorized = true) :
      Trans s (.settle i result)
        ({ s with requests := s.requests.eraseIdx i }.clearSession (.unauthorized request))
  | settled (i : Nat) (result : FetchResult Unit) (h401 : result.isUnauthorized = false) :
      Trans s (.settle i result) { s with requests := s.requests.eraseIdx i }

theorem Tab.trans_of_step {s t : Tab} {ev : TabEvent} (h : s.step ev = some t) :
    s.Trans ev t := by
  cases ev with
  | signIn token actor =>
      simp only [step] at h
      split at h
      · exact Option.some.inj h ▸ .blank token actor
      · exact Option.some.inj h ▸ .signIn token actor _
  | signOut => exact Option.some.inj h ▸ .signOut
  | send => exact Option.some.inj h ▸ .send
  | settle i result =>
      obtain ⟨request, hi, rfl⟩ := Option.map_eq_some_iff.mp h
      cases h401 : result.isUnauthorized with
      | true => exact .unauthorized i result request hi h401
      | false => exact .settled i result h401

/-! ## What clears a session -/

/-- A session is cleared by a sign-out or by a 401 to one of its own requests. -/
def ClearsOwn (s : Tab) : Prop :=
  ∀ c ∈ s.cleared, ∀ request, c.cause = .unauthorized request → request.session = some c.session

/-- A session is cleared by a sign-out, or by a 401 to one of its own requests or to one
sent before it was stored. -/
def ClearsTraced (s : Tab) : Prop :=
  ∀ c ∈ s.cleared, ∀ request, c.cause = .unauthorized request →
    request.session = some c.session ∨ request.signIns < c.session

/-- A request in flight is one of the stored session, or was sent before it was stored. -/
structure TabInv (s : Tab) : Prop where
  sent : ∀ r ∈ s.requests, r.signIns ≤ s.signIns
  taken : ∀ r ∈ s.requests, ∀ n, s.session = some n → r.session = some n ∨ r.signIns < n
  traced : ClearsTraced s

theorem TabInv.sendRequest {s : Tab} (h : TabInv s) : TabInv s.sendRequest where
  sent r hr := by
    rcases List.mem_append.mp hr with hr | hr
    · exact h.sent r hr
    · obtain rfl := List.mem_singleton.mp hr
      exact Nat.le_refl _
  taken r hr n hn := by
    rcases List.mem_append.mp hr with hr | hr
    · exact h.taken r hr n hn
    · obtain rfl := List.mem_singleton.mp hr
      exact Or.inl hn
  traced := h.traced

/-- Of the next session, all requests in flight are older. -/
theorem TabInv.signIn {s : Tab} (h : TabInv s) (session : Session) :
    TabInv { s with stored := some session, signIns := s.signIns + 1 } where
  sent r hr := Nat.le_succ_of_le (h.sent r hr)
  taken r hr n hn := by
    obtain rfl : s.signIns + 1 = n := Option.some.inj hn
    exact Or.inr (Nat.lt_succ_of_le (h.sent r hr))
  traced := h.traced

theorem TabInv.clearSession {s : Tab} (h : TabInv s) {cause : ClearCause}
    (hcause : ∀ request, cause = .unauthorized request → ∀ n, s.session = some n →
      request.session = some n ∨ request.signIns < n) : TabInv (s.clearSession cause) where
  sent := h.sent
  taken _ _ _ hn := by cases hn
  traced c hc request hreq := by
    rcases Tab.mem_cleared.mp hc with hc | ⟨n, hn, rfl⟩
    · exact h.traced c hc request hreq
    · exact hcause request hreq n hn

theorem TabInv.eraseIdx {s : Tab} (h : TabInv s) (i : Nat) :
    TabInv { s with requests := s.requests.eraseIdx i } where
  sent r hr := h.sent r (List.mem_of_mem_eraseIdx hr)
  taken r hr := h.taken r (List.mem_of_mem_eraseIdx hr)
  traced := h.traced

theorem tabInv : tab.Invariant TabInv := by
  constructor
  · exact ⟨fun _ hr => (by cases hr), fun _ hr => (by cases hr), fun _ hc => (by cases hc)⟩
  intro s ev t h hst
  cases Tab.trans_of_step hst with
  | blank token actor => exact h
  | signIn token actor session => exact (h.signIn session).sendRequest
  | signOut => exact h.clearSession fun _ hreq => by cases hreq
  | send => exact h.sendRequest
  | unauthorized i result request hi h401 =>
      refine (h.eraseIdx i).clearSession fun r hr n hn => ?_
      obtain rfl : request = r := ClearCause.unauthorized.inj hr
      exact h.taken request (List.mem_of_getElem? hi) n hn
  | settled i result h401 => exact h.eraseIdx i

/-- **What a 401 clears is its own session, or a later one.** In every run a session ends,
other than by a sign-in, by a sign-out or by a 401 to a request that was its own or was sent
before it was stored. -/
theorem clears_traced (es : List TabEvent) : tab.Always ClearsTraced es :=
  fun _ _ _ hs => (tabInv.run hs).traced

/-! ## When a 401 clears its own session alone -/

/-- If it is a 401 that arrives, the stored session is the one of its request, if any is. -/
def OwnUnauthorized (s : Tab) (ev : TabEvent) : Prop :=
  ∀ i result, ev = .settle i result → result.isUnauthorized = true →
    ∀ request, s.requests[i]? = some request → ∀ n, s.session = some n →
      request.session = some n

theorem clearsOwn_step {s t : Tab} {ev : TabEvent} (h : ClearsOwn s)
    (hown : OwnUnauthorized s ev) (hst : s.Trans ev t) : ClearsOwn t := by
  cases hst with
  | blank token actor => exact h
  | signIn token actor session => exact h
  | signOut =>
      intro c hc request hreq
      rcases Tab.mem_cleared.mp hc with hc | ⟨n, -, rfl⟩
      · exact h c hc request hreq
      · cases hreq
  | send => exact h
  | unauthorized i result request hi h401 =>
      intro c hc r hr
      rcases Tab.mem_cleared.mp hc with hc | ⟨n, hn, rfl⟩
      · exact h c hc r hr
      · obtain rfl : request = r := ClearCause.unauthorized.inj hr
        exact hown i result rfl h401 request hi n hn
  | settled i result h401 => exact h

/-- A session is cleared by its own 401s alone exactly when each 401 that arrives finds the
session of its request stored, or none. -/
theorem clearsOwn_iff (es : List TabEvent) :
    tab.Always ClearsOwn es ↔ tab.Meets OwnUnauthorized es :=
  Machine.always_iff_meets (I := ClearsOwn) (fun _ hc => by cases hc)
    (fun _ _ _ h hown hst => clearsOwn_step h hown (Tab.trans_of_step hst)) (fun _ h => h)
    (fun s ev t _ hst ht => by
      rintro i result rfl h401 request hi n hn
      have hst' : s.step (.settle i result) = some t := hst
      simp only [Tab.step, hi, Option.map_some, h401, if_true, Option.some.injEq] at hst'
      subst hst'
      exact ht _ (Tab.mem_cleared.mpr (Or.inr ⟨n, hn, rfl⟩)) request rfl)

/-- Two requests under an old token are answered with 401. The first signs the operator out,
who signs in with the new token; the second signs the operator out again. -/
def staleRun : List TabEvent :=
  [.signIn "old-token" "alice", .send, .settle 0 (.response 401 (.error none)),
   .signIn "new-token" "alice", .settle 0 (.response 401 (.error none))]

theorem not_clearsOwn_staleRun : ¬tab.Always ClearsOwn staleRun := by
  intro h
  obtain ⟨s, hs, hlast⟩ : ∃ s, tab.run staleRun = some s
      ∧ s.cleared.getLast?.map (fun c => (c.session, c.cause))
        = some (2, .unauthorized
          { headers := { authorization := some "Bearer old-token", xActor := some "alice" }
            session := some 1, signIns := 1 }) := ⟨_, rfl, by decide⟩
  obtain ⟨c, hc, heq⟩ := Option.map_eq_some_iff.mp hlast
  obtain ⟨hsession, hcause⟩ := Prod.mk.inj heq
  have hown := h staleRun (List.prefix_refl _) s hs c (List.mem_of_getLast? hc) _ hcause
  rw [hsession] at hown
  cases hown

end GatewayConsole
