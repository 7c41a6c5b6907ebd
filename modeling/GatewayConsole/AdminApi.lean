import GatewayConsole.Js

/-!
# The API as the browser calls it

`lib/session.js` and `lib/api.js` of the SPA over `shared/lib/api-base.js`: the session kept
in `sessionStorage`, the headers that every request takes from it, and what `request` makes
of the outcome of `fetch`. A 401 is the one status with an effect of its own: the session is
cleared, and the caller sees the code `unauthorized`.
-/

namespace GatewayConsole

/-! ## The session -/

structure Session where
  token : String
  actor : String
deriving Repr, DecidableEq

structure AuthHeaders where
  authorization : Option String
  xActor : Option String
deriving Repr, DecidableEq

/-- `getToken() || null`. -/
def getToken (stored : Option Session) : Option String := stored.bind fun s => orNull s.token

/-- `getActor() || null`. -/
def getActor (stored : Option Session) : Option String := stored.bind fun s => orNull s.actor

/-- `getAuthHeaders()`. -/
def getAuthHeaders (stored : Option Session) : AuthHeaders where
  authorization := (getToken stored).map ("Bearer " ++ ·)
  xActor := getActor stored

theorem getAuthHeaders_session {token actor : String} (ht : token ≠ "") (ha : actor ≠ "") :
    getAuthHeaders (some { token, actor })
      = { authorization := some ("Bearer " ++ token), xActor := some actor } := by
  simp [getAuthHeaders, getToken, getActor, orNull, ht, ha]

/-! ## A request -/

/-- The body of a response: no JSON, an object with an `error` (and the text of its
`message`), or other JSON. -/
inductive Payload (β : Type) where
  | null
  | error (message : Option String)
  | data (body : β)
deriving Repr, DecidableEq

/-- How `fetch` settles. -/
inductive FetchResult (β : Type) where
  | rejected (message : String)
  | response (status : Nat) (payload : Payload β)
deriving Repr, DecidableEq

structure ApiError where
  code : String
  status : Nat
  message : String
deriving Repr, DecidableEq

/-- `extractErrorMessage`. -/
def extractErrorMessage (message : Option String) : String := message.getD "request_failed"

/-- The response calls for `onUnauthorized`. -/
def FetchResult.isUnauthorized {β : Type} : FetchResult β → Bool
  | .rejected _ => false
  | .response status _ => status = 401

/-- `request` from the outcome of `fetch` on. -/
def request {β : Type} : FetchResult β → Except ApiError (Payload β)
  | .rejected message => .error { code := "network_error", status := 0, message }
  | .response status payload =>
      if status = 401 then
        .error { code := "unauthorized", status := 401, message := "unauthorized" }
      else if status = 204 then .ok .null
      else if 200 ≤ status ∧ status ≤ 299 then .ok payload
      else
        .error
          { code := "http_error", status
            message :=
              match payload with
              | .error message => extractErrorMessage message
              | .null | .data _ => "http_" ++ toString status }

/-- The code `unauthorized` is that of a 401, and no other. -/
theorem request_unauthorized_iff {β : Type} {result : FetchResult β} :
    (∃ err, request result = .error err ∧ err.code = "unauthorized")
      ↔ result.isUnauthorized = true := by
  cases result with
  | rejected message => simp [request, FetchResult.isUnauthorized]
  | response status payload =>
      by_cases h : status = 401
      · simp [request, FetchResult.isUnauthorized, h]
      · simp only [request, FetchResult.isUnauthorized, h, if_false, decide_false,
          Bool.false_eq_true, iff_false]
        rintro ⟨err, herr, hcode⟩
        split at herr
        · cases herr
        · split at herr
          · cases herr
          · obtain rfl := Except.error.inj herr
            simp at hcode

end GatewayConsole
