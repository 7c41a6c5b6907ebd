import GatewayConsole.InFlight
import GatewayConsole.Machine
import GatewayConsole.SignIn

/-!
# The shell and the session

`components/admin-app.js` with the form of `admin-login.js`: the shell shows the form or the
console, and the session is in the storage of the tab. Three places set `_authed`: the
constructor from the stored token, the two events, and the button that signs out. `_submit`
stores the session before it knows whether the token is right.

A 401 to any request signs out, also one that has nothing to do with the sign-in that is
running. `sessionShown_iff` says that this is the only way for the shell and the storage to
part.
-/

namespace GatewayConsole

/-- A request in flight. -/
structure AppRequest where
  headers : AuthHeaders
  /-- `_submit` awaits it. -/
  ofLogin : Bool
deriving Repr, DecidableEq

structure AdminApp where
  stored : Option Session
  authed : Bool
  /-- The form that is shown while `_authed` is not set: a new one each time. -/
  login : AdminLogin := {}
  requests : List AppRequest := []
deriving Repr, DecidableEq

inductive AppEvent where
  /-- The operator types in the form. -/
  | edit (token actor : String)
  | submit
  /-- A component sends a request. It need not be on the screen any more. -/
  | send
  | settles (request : Nat) (result : FetchResult Unit)
  | signOut
deriving Repr, DecidableEq

namespace AdminApp

def send (s : AdminApp) (ofLogin : Bool) : AdminApp :=
  { s with requests := s.requests ++ [{ headers := getAuthHeaders s.stored, ofLogin }] }

/-- `clearSession()`, and `_authed` unset. A form that is shown already stays. -/
def signedOut (s : AdminApp) : AdminApp :=
  { s with stored := none, authed := false, login := if s.authed then {} else s.login }

/-- On `AUTHENTICATED`. -/
def authenticated (s : AdminApp) : AdminApp := { s with authed := true, login := {} }

/-- The rest of `_submit`. -/
def submitted (s : AdminApp) (result : FetchResult Unit) : AdminApp :=
  match s.login.settled result with
  | (_, true) => s.authenticated
  | (login, false) => { s with login }

/-- `request` from the outcome of its `fetch` on, and what awaits it in `_submit`. -/
def settled (s : AdminApp) (request : AppRequest) (result : FetchResult Unit) : AdminApp :=
  let s := if result.isUnauthorized then s.signedOut else s
  if request.ofLogin then s.submitted result else s

/-- Without a request, as it has settled. -/
def settle (s : AdminApp) (request : Nat) : AdminApp :=
  { s with requests := s.requests.eraseIdx request }

def step (s : AdminApp) : AppEvent → Option AdminApp
  | .edit token actor =>
      if s.authed || s.login.loading then none
      else some { s with login := { s.login with token, actor } }
  | .submit =>
      if s.authed then none
      else
        match s.login.submit with
        | (login, none) => some { s with login }
        | (login, some session) => some ({ s with login, stored := some session }.send true)
  | .send => some (s.send false)
  | .settles i result => s.requests[i]?.map fun request => (s.settle i).settled request result
  | .signOut => if s.authed then some s.signedOut else none

end AdminApp

/-- The shell of a tab with this in its storage. -/
def adminApp (stored : Option Session) : Machine AdminApp AppEvent where
  init := { stored, authed := (getToken stored).isSome }
  step := AdminApp.step

namespace AdminApp

/-- A session is stored exactly while the console is shown or a sign-in is running. -/
def SessionShown (s : AdminApp) : Prop :=
  (getToken s.stored).isSome = (s.authed || s.login.loading)

/-- No 401 to another request arrives while a sign-in is running. -/
def Undisturbed (s : AdminApp) (ev : AppEvent) : Prop :=
  ∀ i result, ev = .settles i result → result.isUnauthorized = true →
    ∀ request, s.requests[i]? = some request → s.login.loading = true → request.ofLogin = true

/-- The form waits for one request, and is not shown with the console; and no session is
stored behind a form that waits for nothing. -/
structure Inv (s : AdminApp) : Prop where
  waits : InFlight.Flags (·.ofLogin) s.requests s.login.loading
  hidden : s.authed = true → s.login.loading = false
  cleared : s.authed = false → s.login.loading = false → getToken s.stored = none

theorem submit_none {v w : AdminLogin} (h : v.submit = (w, none)) : w.loading = v.loading := by
  unfold AdminLogin.submit at h
  split at h
  · exact congrArg AdminLogin.loading (Prod.mk.inj h).1.symm
  · dsimp only at h
    split at h
    · obtain rfl := (Prod.mk.inj h).1
      rfl
    · cases (Prod.mk.inj h).2

/-- What `_submit` stores has a token. -/
theorem submit_some {v w : AdminLogin} {session : Session} (h : v.submit = (w, some session)) :
    v.loading = false ∧ w.loading = true ∧ (getToken (some session)).isSome = true := by
  unfold AdminLogin.submit at h
  split at h
  · cases (Prod.mk.inj h).2
  · next hfree =>
      dsimp only at h
      split at h
      · cases (Prod.mk.inj h).2
      · next hblank =>
          obtain ⟨rfl, hsession⟩ := Prod.mk.inj h
          obtain rfl := Option.some.inj hsession
          simp only [Bool.or_eq_true, decide_eq_true_eq, not_or] at hblank
          refine ⟨Bool.eq_false_of_not_eq_true hfree, rfl, ?_⟩
          simp [getToken, orNull, hblank.1]

theorem settled_loading (v : AdminLogin) (result : FetchResult Unit) :
    (v.settled result).1.loading = false := by
  unfold AdminLogin.settled
  split
  · rfl
  · split <;> rfl

/-- The response that the form waits for: a 401 leaves the form, and anything else shows the
console. -/
theorem settled_ofLogin {s : AdminApp} {request : AppRequest} (hof : request.ofLogin = true)
    (hauthed : s.authed = false) (result : FetchResult Unit) :
    s.settled request result
      = if result.isUnauthorized then
          { s with stored := none, login := (s.login.settled result).1 }
        else s.authenticated := by
  have hemits := s.login.settled_authenticated result
  unfold settled
  rw [if_pos hof]
  cases h401 : result.isUnauthorized with
  | true =>
      have hlogin : s.signedOut.login = s.login := by
        show (if s.authed then ({} : AdminLogin) else s.login) = s.login
        rw [hauthed]
        rfl
      rw [h401] at hemits
      simp only [if_true, submitted, hlogin]
      generalize hset : s.login.settled result = settled at hemits ⊢
      obtain ⟨login, emits⟩ := settled
      obtain rfl : emits = false := hemits
      simp only [signedOut, hauthed]
  | false =>
      rw [h401] at hemits
      simp only [Bool.false_eq_true, if_false, submitted]
      generalize s.login.settled result = settled at hemits ⊢
      obtain ⟨login, emits⟩ := settled
      obtain rfl : emits = true := hemits
      rfl

theorem settled_other {s : AdminApp} {request : AppRequest} (hof : request.ofLogin = false)
    (result : FetchResult Unit) :
    s.settled request result = if result.isUnauthorized then s.signedOut else s := by
  unfold settled
  rw [if_neg (by rw [hof]; exact Bool.false_ne_true)]

theorem signedOut_loading {s : AdminApp} (h : s.authed = true → s.login.loading = false) :
    s.signedOut.login.loading = s.login.loading := by
  show (if s.authed then ({} : AdminLogin) else s.login).loading = _
  split
  · next ha => exact (h ha).symm
  · rfl

theorem inv_signedOut {s : AdminApp} (h : s.Inv) : s.signedOut.Inv where
  waits := by
    rw [signedOut_loading h.hidden]
    exact h.waits
  hidden ha := by cases ha
  cleared _ _ := rfl

/-- The form waits, so the console is not shown. -/
theorem Inv.authed_eq_false {s : AdminApp} (h : s.Inv) (hloading : s.login.loading = true) :
    s.authed = false := by
  by_contra ha
  have hfree := h.hidden (Bool.not_eq_false _ ▸ ha)
  rw [hloading] at hfree
  cases hfree

theorem inv_settled {s : AdminApp} (h : s.Inv) {i : Nat} {request : AppRequest}
    (hi : s.requests[i]? = some request) (result : FetchResult Unit) :
    ((s.settle i).settled request result).Inv := by
  cases hof : request.ofLogin with
  | true =>
      obtain ⟨hloading, hdown⟩ := h.waits.lower hi hof
      have hauthed : (s.settle i).authed = false := h.authed_eq_false hloading
      rw [settled_ofLogin hof hauthed]
      split
      · refine ⟨?_, fun ha => absurd (hauthed.symm.trans ha) Bool.false_ne_true, fun _ _ => rfl⟩
        rw [settled_loading]
        exact hdown
      · exact ⟨hdown, fun _ => rfl, fun ha => by cases ha⟩
  | false =>
      have hsettle : (s.settle i).Inv := ⟨h.waits.settle hi hof, h.hidden, h.cleared⟩
      rw [settled_other hof]
      split
      · exact inv_signedOut hsettle
      · exact hsettle

theorem inv_step {s t : AdminApp} {ev : AppEvent} (h : s.Inv) (hst : s.step ev = some t) :
    t.Inv := by
  cases ev with
  | edit token actor =>
      simp only [step, Option.ite_none_left_eq_some, Option.some.injEq] at hst
      obtain ⟨-, rfl⟩ := hst
      exact ⟨h.waits, h.hidden, h.cleared⟩
  | submit =>
      simp only [step, Option.ite_none_left_eq_some] at hst
      obtain ⟨hauthed, hst⟩ := hst
      split at hst
      · next login hsubmit =>
          obtain rfl := Option.some.inj hst
          have hsame := submit_none hsubmit
          refine ⟨?_, fun ha => absurd ha hauthed, fun ha hl => h.cleared ha (hsame ▸ hl)⟩
          show InFlight.Flags _ _ login.loading
          rw [hsame]
          exact h.waits
      · next login session hsubmit =>
          obtain rfl := Option.some.inj hst
          obtain ⟨hfree, hup, -⟩ := submit_some hsubmit
          have hdown := h.waits
          rw [hfree] at hdown
          refine ⟨?_, fun ha => absurd ha hauthed, fun _ hl => ?_⟩
          · show InFlight.Flags _ _ login.loading
            rw [hup]
            exact hdown.raise rfl
          · exact absurd (hup.symm.trans hl) (by simp)
  | send => exact Option.some.inj hst ▸ ⟨h.waits.add rfl, h.hidden, h.cleared⟩
  | settles i result =>
      obtain ⟨request, hi, rfl⟩ := Option.map_eq_some_iff.mp hst
      exact inv_settled h hi result
  | signOut =>
      simp only [step, Option.ite_none_right_eq_some, Option.some.injEq] at hst
      obtain ⟨-, rfl⟩ := hst
      exact inv_signedOut h

/-! ## The session and what is shown -/

theorem sessionShown_signedOut {s : AdminApp} (h : s.Inv) (hfree : s.login.loading = false) :
    s.signedOut.SessionShown := by
  rw [SessionShown, signedOut_loading h.hidden, hfree]
  rfl

theorem sessionShown_step {s t : AdminApp} {ev : AppEvent} (h : s.Inv) (hshown : s.SessionShown)
    (hcalm : s.Undisturbed ev) (hst : s.step ev = some t) : t.SessionShown := by
  cases ev with
  | edit token actor =>
      simp only [step, Option.ite_none_left_eq_some, Option.some.injEq] at hst
      obtain ⟨-, rfl⟩ := hst
      exact hshown
  | submit =>
      simp only [step, Option.ite_none_left_eq_some] at hst
      obtain ⟨hauthed, hst⟩ := hst
      split at hst
      · next login hsubmit =>
          obtain rfl := Option.some.inj hst
          show _ = (s.authed || login.loading)
          rw [submit_none hsubmit]
          exact hshown
      · next login session hsubmit =>
          obtain rfl := Option.some.inj hst
          obtain ⟨-, hup, htoken⟩ := submit_some hsubmit
          show (getToken (some session)).isSome = (s.authed || login.loading)
          rw [htoken, hup, Bool.or_true]
  | send => exact Option.some.inj hst ▸ hshown
  | settles i result =>
      obtain ⟨request, hi, rfl⟩ := Option.map_eq_some_iff.mp hst
      cases hof : request.ofLogin with
      | true =>
          obtain ⟨hloading, -⟩ := h.waits.lower hi hof
          have hauthed : (s.settle i).authed = false := h.authed_eq_false hloading
          rw [settled_ofLogin hof hauthed]
          split
          · show false = ((s.settle i).authed || (s.login.settled result).1.loading)
            rw [hauthed, settled_loading]
            rfl
          · show (getToken s.stored).isSome = true
            rw [hshown, hloading, Bool.or_true]
      | false =>
          rw [settled_other hof]
          split
          · next h401 =>
              refine sessionShown_signedOut (s := s.settle i)
                ⟨h.waits.settle hi hof, h.hidden, h.cleared⟩ ?_
              show s.login.loading = false
              by_contra hloading
              have := hcalm i result rfl h401 request hi (Bool.not_eq_false _ ▸ hloading)
              rw [hof] at this
              cases this
          · exact hshown
  | signOut =>
      simp only [step, Option.ite_none_right_eq_some, Option.some.injEq] at hst
      obtain ⟨hauthed, rfl⟩ := hst
      exact sessionShown_signedOut h (h.hidden hauthed)

/-- A 401 that disturbs a sign-in leaves the form waiting without a session. -/
theorem undisturbed_of_sessionShown {s t : AdminApp} {ev : AppEvent} (h : s.Inv)
    (hshown : t.SessionShown) (hst : s.step ev = some t) : s.Undisturbed ev := by
  rintro i result rfl h401 request hi hloading
  by_contra hof
  have hof' : request.ofLogin = false := Bool.eq_false_of_not_eq_true hof
  have hst' : s.step (.settles i result) = some t := hst
  rw [step, hi, Option.map_some, settled_other hof', h401, if_pos rfl] at hst'
  obtain rfl := Option.some.inj hst'
  have hwaits : (s.settle i).signedOut.login.loading = true :=
    (signedOut_loading (s := s.settle i) h.hidden).trans hloading
  rw [SessionShown, hwaits, Bool.or_true] at hshown
  cases hshown

end AdminApp

/-- **The console is shown while a session is stored.** In every run of a tab no session
stays behind a form that waits for nothing; and a session is stored exactly while the console
is shown or a sign-in is running, throughout a run, exactly when no 401 to a request other
than the sign-in's own arrives while the sign-in is running. -/
theorem sessionShown_iff (stored : Option Session) (es : List AppEvent) :
    (adminApp stored).Always
        (fun s => (getToken s.stored).isSome = true → s.authed = true ∨ s.login.loading = true) es
      ∧ ((adminApp stored).Always AdminApp.SessionShown es
        ↔ (adminApp stored).Meets AdminApp.Undisturbed es) := by
  have hinit : AdminApp.Inv { stored, authed := (getToken stored).isSome } :=
    ⟨.none _, fun _ => rfl, fun ha _ => by simpa using ha⟩
  have hinv : (adminApp stored).Invariant AdminApp.Inv :=
    ⟨hinit, fun _ _ _ h hst => AdminApp.inv_step h hst⟩
  constructor
  · intro ds _ s hs htoken
    have h := hinv.run hs
    by_contra hneither
    rw [not_or, Bool.not_eq_true, Bool.not_eq_true] at hneither
    rw [h.cleared hneither.1 hneither.2] at htoken
    cases htoken
  · have hshown : AdminApp.SessionShown { stored, authed := (getToken stored).isSome } :=
      (Bool.or_false _).symm
    exact Machine.always_iff_meets (I := fun s : AdminApp => s.Inv ∧ s.SessionShown)
      ⟨hinit, hshown⟩
      (fun _ _ _ h hcalm hst =>
        ⟨AdminApp.inv_step h.1 hst, AdminApp.sessionShown_step h.1 h.2 hcalm hst⟩)
      (fun _ h => h.2)
      (fun _ _ _ h hst hshown => AdminApp.undisturbed_of_sessionShown h.1 hshown hst)

/-- A refresh whose page is gone asks for the roster, without a session, and the 401 arrives
while the operator signs in: the console is shown with nothing stored. -/
example : ((adminApp none).run
      [.send, .edit "secret" "alice", .submit, .settles 0 (.response 401 .null),
       .settles 0 (.response 200 .null)]).map (fun s => (s.authed, s.stored))
    = some (true, none) := by decide

end GatewayConsole
