import GatewayConsole.AdminApi
import GatewayConsole.Server

/-!
# Signing in

`AdminLogin._submit`: it stores what was typed as the session, asks for the health of the
console with the headers of that session, and takes every outcome but a 401 for a success.
The hook of the server has more than that to say. `signInSound_iff` holds the two against
each other, for whatever comes back: the sign-in is sound exactly when it was not taken for a
success, or what was typed would have passed the hook.

What comes back when the hook has answered is the subject of `signInSound_served_iff`. It
checks the token before the handle, and only what it finds wrong with the token has the
status 401.
-/

namespace GatewayConsole

/-! ## The component -/

structure AdminLogin where
  token : String := ""
  actor : String := ""
  loading : Bool := false
  error : String := ""
deriving Repr, DecidableEq

/-- `_submit` up to its request, with the session it stores. The pattern of the field for
the handle is not checked: the form has `novalidate`. -/
def AdminLogin.submit (v : AdminLogin) : AdminLogin × Option Session :=
  if v.loading then (v, none)
  else
    let token := trim v.token
    let actor := trim v.actor
    if token = "" || actor = "" then ({ v with error := "Both fields are required." }, none)
    else ({ v with loading := true, error := "" }, some { token, actor })

/-- The rest of `_submit`, and whether it emits `AUTHENTICATED`. -/
def AdminLogin.settled (v : AdminLogin) (result : FetchResult Unit) : AdminLogin × Bool :=
  match request result with
  | .ok _ => ({ v with loading := false }, true)
  | .error err =>
      if err.code = "unauthorized" then
        ({ v with loading := false, error := "Invalid token." }, false)
      else ({ v with loading := false }, true)

/-- `AUTHENTICATED` is emitted unless the response was a 401. -/
theorem AdminLogin.settled_authenticated (v : AdminLogin) (result : FetchResult Unit) :
    (v.settled result).2 = !result.isUnauthorized := by
  have hiff := @request_unauthorized_iff Unit result
  unfold settled
  cases hr : request result with
  | ok payload =>
      have : result.isUnauthorized ≠ true := fun h => by
        obtain ⟨err, herr, -⟩ := hiff.mpr h
        rw [hr] at herr
        cases herr
      simp [this]
  | error err =>
      by_cases hcode : err.code = "unauthorized"
      · simp [hcode, hiff.mp ⟨err, hr, hcode⟩]
      · have : result.isUnauthorized ≠ true := fun h => by
          obtain ⟨err', herr, hcode'⟩ := hiff.mpr h
          rw [hr] at herr
          exact hcode (Except.error.inj herr ▸ hcode')
        simp [hcode, this]

/-! ## The two sides -/

/-- A header of a request, where it has one. -/
def toHeaderValue : Option String → HeaderValue
  | none => .undefined
  | some value => .single value

@[simp] theorem headerString_toHeaderValue (header : Option String) :
    headerString (toHeaderValue header) = header := by
  cases header <;> rfl

/-- A request as the server gets it. -/
def HttpRequest.withSession (method url : String) (stored : Session) : HttpRequest where
  method := method
  url := url
  authorization := toHeaderValue (getAuthHeaders (some stored)).authorization
  xActor := toHeaderValue (getAuthHeaders (some stored)).xActor

/-- A field was left blank. -/
def Blank (typedToken typedActor : String) : Prop := trim typedToken = "" ∨ trim typedActor = ""

/-- The token is the configured one, and without white space. -/
def RightToken (adminToken token : String) : Prop :=
  token = adminToken ∧ ∀ c ∈ token.toList, isSpace c = false

/-- The handle is one to 64 of the characters `a-z0-9._-`. -/
def ValidHandle (handle : String) : Prop :=
  1 ≤ utf16Length handle ∧ utf16Length handle ≤ 64
    ∧ ∀ c ∈ handle.toList, isActorChar c = true

theorem submit_eq_some_iff {typedToken typedActor : String} {view : AdminLogin}
    {stored : Session} :
    ({ token := typedToken, actor := typedActor } : AdminLogin).submit = (view, some stored)
      ↔ ¬Blank typedToken typedActor
        ∧ view = { token := typedToken, actor := typedActor, loading := true }
        ∧ stored = { token := trim typedToken, actor := trim typedActor } := by
  simp only [AdminLogin.submit, Bool.false_eq_true, if_false, Blank, Bool.or_eq_true,
    decide_eq_true_eq]
  split
  · rename_i hblank
    simp [hblank]
  · rename_i hblank
    simp only [Prod.mk.injEq, Option.some.injEq, hblank, not_false_eq_true, true_and]
    exact ⟨fun ⟨hv, hs⟩ => ⟨hv.symm, hs.symm⟩, fun ⟨hv, hs⟩ => ⟨hv.symm, hs.symm⟩⟩

/-- What is wrong with the handle is answered with 400. -/
theorem reply_of_invalidHandle {header : Option String} {err : AuthError}
    (h : parseActor header = .error err) : ∃ e, hookCatch err = .reply 400 e := by
  unfold parseActor at h
  split at h
  · obtain rfl := Except.error.inj h
    exact ⟨_, rfl⟩
  · simp only at h
    split at h
    · obtain rfl := Except.error.inj h
      exact ⟨_, rfl⟩
    · split at h
      · obtain rfl := Except.error.inj h
        exact ⟨_, rfl⟩
      · cases h

section SignIn

variable [Unicode]

/-- When `AUTHENTICATED` is emitted, the hook accepts every API request with the headers of
the stored session. -/
def SignInSound (adminToken typedToken typedActor : String) (result : FetchResult Unit) :
    Prop :=
  ∀ view stored,
    ({ token := typedToken, actor := typedActor } : AdminLogin).submit = (view, some stored) →
    (view.settled result).2 = true →
    ∀ method url, startsWith url "/api/" = true →
      (onRequest adminToken (HttpRequest.withSession method url stored)).2 = .next

/-- The hook accepts the headers of the session exactly when the token is right and the
handle valid. -/
theorem accepts_iff {adminToken typedToken typedActor : String}
    (hblank : ¬Blank typedToken typedActor) (method : String) {url : String}
    (hurl : startsWith url "/api/" = true) :
    (onRequest adminToken (HttpRequest.withSession method url
        { token := trim typedToken, actor := trim typedActor })).2 = .next
      ↔ RightToken adminToken (trim typedToken) ∧ ValidHandle (trim typedActor) := by
  obtain ⟨ht, ha⟩ := not_or.mp hblank
  rw [onRequest_accepts_iff hurl]
  simp only [HttpRequest.withSession, getAuthHeaders_session ht ha, headerString_toHeaderValue]
  rw [authenticate_bearer_iff ht (trim_trim _), parseActor_iff (trim_trim _),
    actorHandleIssue_eq_none_iff]
  rfl

/-- **The sign-in is sound exactly when nothing was sent, or a 401 came back, or the token
typed is right and the handle valid.** -/
theorem signInSound_iff (adminToken typedToken typedActor : String)
    (result : FetchResult Unit) :
    SignInSound adminToken typedToken typedActor result
      ↔ Blank typedToken typedActor ∨ result.isUnauthorized = true
        ∨ RightToken adminToken (trim typedToken) ∧ ValidHandle (trim typedActor) := by
  by_cases hblank : Blank typedToken typedActor
  · exact ⟨fun _ => Or.inl hblank, fun _ view stored hsubmit =>
      absurd hblank (submit_eq_some_iff.mp hsubmit).1⟩
  constructor
  · intro h
    refine Or.inr (or_iff_not_imp_left.mpr fun hother => ?_)
    have hemits : ∀ v : AdminLogin, (v.settled result).2 = true := fun v => by
      rw [v.settled_authenticated]
      simpa using hother
    exact (accepts_iff hblank "GET" rfl).mp
      (h _ _ (submit_eq_some_iff.mpr ⟨hblank, rfl, rfl⟩) (hemits _) "GET" "/api/health" rfl)
  · rintro h view stored hsubmit hemits method url hurl
    obtain ⟨-, -, rfl⟩ := submit_eq_some_iff.mp hsubmit
    rcases h.resolve_left hblank with h401 | hright
    · rw [AdminLogin.settled_authenticated, h401] at hemits
      cases hemits
    · exact (accepts_iff hblank method hurl).mpr hright

/-! ## When the hook has answered -/

/-- The outcome is the response of the server: where its hook has replied, with that. -/
def ServedBy (adminToken : String) (stored : Session) (result : FetchResult Unit) : Prop :=
  ∃ status payload, result = .response status payload
    ∧ ∀ replied err, (onRequest adminToken (.withSession "GET" "/api/health" stored)).2
        = .reply replied err → status = replied

/-- What is wrong with the token is answered with 401. -/
theorem reply_of_wrongToken {adminToken token : String} (hne : token ≠ "")
    (htrim : trim token = token) (hwrong : ¬RightToken adminToken token) :
    ∃ err e, authenticate adminToken (some ("Bearer " ++ token)) = .error err
      ∧ hookCatch err = .reply 401 e := by
  have hparse := parseBearer_bearer hne htrim
  cases hspace : token.toList.all (!isSpace ·) with
  | false =>
      rw [hspace] at hparse
      refine ⟨.malformedAuthorization "expected exactly one token", _, ?_, rfl⟩
      rw [authenticate, hparse]
      rfl
  | true =>
      rw [hspace, if_pos rfl] at hparse
      refine ⟨.invalidAdminToken, _, ?_, rfl⟩
      rw [authenticate_of_parse hparse]
      exact if_neg fun heq => hwrong ⟨heq, by simpa using hspace⟩

/-- Where the server has answered, a wrong token has been found out, and an invalid handle
has not. -/
theorem signInSound_served_iff {adminToken typedToken typedActor : String}
    {result : FetchResult Unit}
    (hserved : ServedBy adminToken { token := trim typedToken, actor := trim typedActor } result) :
    SignInSound adminToken typedToken typedActor result
      ↔ Blank typedToken typedActor ∨ ¬RightToken adminToken (trim typedToken)
        ∨ ValidHandle (trim typedActor) := by
  rw [signInSound_iff]
  by_cases hblank : Blank typedToken typedActor
  · exact ⟨fun _ => Or.inl hblank, fun _ => Or.inl hblank⟩
  obtain ⟨ht, ha⟩ := not_or.mp hblank
  obtain ⟨status, payload, rfl, hreply⟩ := hserved
  simp only [onRequest, HttpRequest.withSession, getAuthHeaders_session ht ha,
    headerString_toHeaderValue] at hreply
  refine or_congr_right ?_
  by_cases hright : RightToken adminToken (trim typedToken)
  · obtain ⟨identity, hauth⟩ := (authenticate_bearer_iff ht (trim_trim _)).mpr hright
    by_cases hvalid : ValidHandle (trim typedActor)
    · exact ⟨fun _ => Or.inr hvalid, fun _ => Or.inr ⟨hright, hvalid⟩⟩
    · have h400 : status = 400 := by
        cases hact : parseActor (some (trim typedActor)) with
        | ok actor =>
            have hissue := (parseActor_iff (trim_trim typedActor)).mp ⟨actor, hact⟩
            exact absurd (actorHandleIssue_eq_none_iff.mp hissue) hvalid
        | error err =>
            obtain ⟨e, he⟩ := reply_of_invalidHandle hact
            refine hreply 400 e ?_
            rw [hauth]
            simp only [hact]
            exact he
      simp [h400, FetchResult.isUnauthorized, hright, hvalid]
  · obtain ⟨err, e, hauth, he⟩ := reply_of_wrongToken ht (trim_trim _) hright
    have h401 : status = 401 := by
      refine hreply 401 e ?_
      rw [hauth]
      exact he
    exact ⟨fun _ => Or.inl hright, fun _ => Or.inl (by simp [h401, FetchResult.isUnauthorized])⟩

end SignIn

/-! ## A capital letter -/

/-- An `ADMIN_TOKEN`. -/
def someToken : String := "0123456789abcdef0123456789abcdef"

/-- With the right token and the handle "Alice" the hook replies 400, and the browser takes
that for a success. -/
theorem not_signInSound_alice :
    (∃ err, (@onRequest asciiUnicode someToken
        (.withSession "GET" "/api/health" { token := someToken, actor := "Alice" })).2
        = .reply 400 err)
      ∧ ¬@SignInSound asciiUnicode someToken someToken "Alice" (.response 400 (.error none)) := by
  let _ : Unicode := asciiUnicode
  have hreply : ∃ err, (onRequest someToken
      (.withSession "GET" "/api/health" { token := someToken, actor := "Alice" })).2
        = .reply 400 err := ⟨_, rfl⟩
  have hblank : ¬Blank someToken "Alice" := by
    unfold Blank
    decide
  refine ⟨hreply, fun h => ?_⟩
  obtain ⟨err, herr⟩ := hreply
  have hnext := h _ _ (submit_eq_some_iff.mpr ⟨hblank, rfl, rfl⟩) rfl "GET" "/api/health" rfl
  rw [show trim someToken = someToken by decide, show trim "Alice" = "Alice" by decide,
    herr] at hnext
  cases hnext

end GatewayConsole
