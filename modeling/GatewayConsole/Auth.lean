import GatewayConsole.Js

/-!
# Bearer authentication and the operator handle

`service/auth`: `authenticate` compares the one token of an `Authorization`
header with the configured `ADMIN_TOKEN`, and `parseActor` validates the
self-asserted `X-Actor` handle against the schema in `types/actor`. Both throw;
the errors are the four classes the HTTP layer tells apart, and the
`RangeError` of `timingSafeEqual`.
-/

namespace GatewayConsole

/-- What `authenticate` and `parseActor` throw. -/
inductive AuthError where
  | malformedAuthorization (reason : String)
  | invalidAdminToken
  | missingActor
  | malformedActor (reason : String)
  | rangeError
deriving Repr, DecidableEq

/-- `err.message`. -/
def AuthError.message : AuthError → String
  | malformedAuthorization reason => "malformed Authorization header: " ++ reason
  | invalidAdminToken => "invalid admin token"
  | missingActor => "missing X-Actor header"
  | malformedActor reason => "malformed X-Actor header: " ++ reason
  | rangeError => "Input buffers must have the same byte length"

/-! ## authenticate -/

theorem bytes_eq_iff {a b : String} : a.toUTF8.data = b.toUTF8.data ↔ a = b :=
  ⟨fun h => String.toByteArray_inj.mp (ByteArray.ext h), fun h => h ▸ rfl⟩

section Bearer

variable [Unicode]

def parseBearer (header : Option String) : Except AuthError String :=
  match header with
  | none | some "" => throw (.malformedAuthorization "missing header")
  | some header =>
      let parts := splitSpace (trim header)
      let scheme := parts[0]?
      let token := parts[1]?
      let rest := parts.drop 2
      if scheme.map toLowerCase ≠ some "bearer" then
        throw (.malformedAuthorization "expected Bearer scheme")
      else
        match token with
        | none | some "" => throw (.malformedAuthorization "expected exactly one token")
        | some token =>
            if rest.length > 0 then throw (.malformedAuthorization "expected exactly one token")
            else return token

/-- `crypto.timingSafeEqual`. -/
def timingSafeEqual (a b : ByteArray) : Except AuthError Bool :=
  if a.size ≠ b.size then throw .rangeError else return decide (a.data = b.data)

/-- `createAuthService({ adminToken }).authenticate(header)`. -/
def authenticate (adminToken : String) (header : Option String) : Except AuthError String := do
  let expected := adminToken.toUTF8
  let provided ← parseBearer header
  let providedBuf := provided.toUTF8
  if providedBuf.size ≠ expected.size then throw .invalidAdminToken
  if !(← timingSafeEqual providedBuf expected) then throw .invalidAdminToken
  return "ADMIN_TOKEN"

omit [Unicode] in
/-- A token that is trimmed does not start with white space. -/
theorem exists_cons_of_trimmed {token : String} (hne : token ≠ "") (htrim : trim token = token) :
    ∃ c cs, token.toList = c :: cs ∧ isSpace c = false := by
  cases hcs : token.toList with
  | nil => exact absurd (String.toList_eq_nil_iff.mp hcs) hne
  | cons c cs =>
      refine ⟨c, cs, rfl, head_trim (s := token) ?_⟩
      rw [htrim, hcs, List.head?_cons]

omit [Unicode] in
/-- Its header is trimmed. -/
theorem trim_bearer {token : String} (hne : token ≠ "") (htrim : trim token = token) :
    trim ("Bearer " ++ token) = "Bearer " ++ token := by
  obtain ⟨c, cs, hcs, -⟩ := exists_cons_of_trimmed hne htrim
  have hheader : ("Bearer " ++ token).toList = "Bearer ".toList ++ c :: cs := by
    rw [String.toList_append, hcs]
  refine trim_eq_self (fun d hd => ?_) fun d hd => ?_
  · rw [hheader] at hd
    obtain rfl : 'B' = d := Option.some.inj hd
    decide
  · refine last_trim (s := token) ?_
    rw [htrim, hcs]
    rw [hheader, List.getLast?_append_of_ne_nil _ (List.cons_ne_nil _ _)] at hd
    exact hd

omit [Unicode] in
/-- The header splits into the scheme and the pieces of the token. -/
theorem splitSpace_bearer {token : String} (hne : token ≠ "") (htrim : trim token = token) :
    splitSpace ("Bearer " ++ token) = "Bearer" :: splitSpace token := by
  obtain ⟨c, cs, hcs, hc⟩ := exists_cons_of_trimmed hne htrim
  have hscheme : splitSpaceAux ("Bearer ".toList ++ c :: cs) [] false
      = "Bearer" :: splitSpaceAux (c :: cs) [] true := rfl
  rw [splitSpace, splitSpace, String.toList_append, hcs, hscheme]
  simp only [splitSpaceAux, hc, Bool.false_eq_true, if_false]

theorem toLowerCase_scheme : toLowerCase "Bearer" = "bearer" := by
  have hascii : ("Bearer".toList.all fun c => decide (c.toNat < 128)) = true := rfl
  rw [Unicode.ascii "Bearer" fun c hc => of_decide_eq_true (List.all_eq_true.mp hascii c hc)]
  decide

/-- The parser of the header counts the pieces of the token. -/
theorem parseBearer_pieces {token : String} (hne : token ≠ "") (htrim : trim token = token) :
    parseBearer (some ("Bearer " ++ token))
      = match (splitSpace token)[0]? with
        | none | some "" => .error (.malformedAuthorization "expected exactly one token")
        | some piece =>
            if ((splitSpace token).drop 1).length > 0 then
              .error (.malformedAuthorization "expected exactly one token")
            else .ok piece := by
  unfold parseBearer
  split
  · rename_i h
    cases h
  · rename_i h
    exact absurd (congrArg String.toList (Option.some.inj h)) (by simp [String.toList_append])
  · rename_i header _ h
    obtain rfl := Option.some.inj h
    simp only [trim_bearer hne htrim, splitSpace_bearer hne htrim, List.getElem?_cons_zero,
      Option.map_some, toLowerCase_scheme, ne_eq, not_true_eq_false, if_false,
      List.drop_succ_cons]
    rfl

/-- The header of a trimmed token: it is read as one token unless it has white space. -/
theorem parseBearer_bearer {token : String} (hne : token ≠ "") (htrim : trim token = token) :
    parseBearer (some ("Bearer " ++ token))
      = if token.toList.all (!isSpace ·) then .ok token
        else .error (.malformedAuthorization "expected exactly one token") := by
  rw [parseBearer_pieces hne htrim]
  cases hspace : token.toList.all (!isSpace ·) with
  | true =>
      have hno : ∀ d ∈ token.toList, isSpace d = false := by simpa using hspace
      rw [splitSpace, splitSpaceAux_of_noSpace [] false hno, List.reverse_nil, List.nil_append,
        String.ofList_toList]
      simp
  | false =>
      have hmore : 1 < (splitSpace token).length :=
        splitSpaceAux_of_space [] (by simpa using hspace)
      have hdrop : ((splitSpace token).drop 1).length > 0 := by
        rw [List.length_drop]
        omega
      split
      · rfl
      · rfl
      · rw [if_pos hdrop]
        rfl

/-- A token that is read from the header is accepted if it is the configured one. -/
theorem authenticate_of_parse {adminToken token : String} {header : Option String}
    (h : parseBearer header = .ok token) :
    authenticate adminToken header
      = if token = adminToken then .ok "ADMIN_TOKEN" else .error .invalidAdminToken := by
  have hbind : authenticate adminToken header = (do
      if token.toUTF8.size ≠ adminToken.toUTF8.size then throw .invalidAdminToken
      if !(← timingSafeEqual token.toUTF8 adminToken.toUTF8) then throw .invalidAdminToken
      return "ADMIN_TOKEN") := by
    rw [authenticate, h]
    rfl
  rw [hbind]
  by_cases heq : token = adminToken
  · subst heq
    rw [if_pos rfl, if_neg (fun hne => hne rfl)]
    simp only [timingSafeEqual, ne_eq, not_true_eq_false, if_false, decide_true, pure_bind,
      Bool.not_true, Bool.false_eq_true]
    rfl
  · rw [if_neg heq]
    by_cases hsize : token.toUTF8.size = adminToken.toUTF8.size
    · have hdata : token.toUTF8.data ≠ adminToken.toUTF8.data := fun h => heq (bytes_eq_iff.mp h)
      rw [if_neg (fun hne => hne hsize), timingSafeEqual, if_neg (fun hne => hne hsize)]
      simp only [pure_bind, decide_eq_false hdata, Bool.not_false, if_true]
      rfl
    · rw [if_pos hsize]
      rfl

/-- The header of a trimmed token authenticates exactly when the token is the configured
one, which must be without white space. -/
theorem authenticate_bearer_iff {adminToken token : String} (hne : token ≠ "")
    (htrim : trim token = token) :
    (∃ identity, authenticate adminToken (some ("Bearer " ++ token)) = .ok identity)
      ↔ token = adminToken ∧ ∀ c ∈ token.toList, isSpace c = false := by
  have hparse := parseBearer_bearer hne htrim
  cases hspace : token.toList.all (!isSpace ·) with
  | false =>
      rw [hspace] at hparse
      rw [authenticate, hparse]
      refine ⟨fun ⟨_, h⟩ => (by cases h), fun ⟨_, hno⟩ => ?_⟩
      have htrue : token.toList.all (!isSpace ·) = true := by simpa using hno
      rw [hspace] at htrue
      cases htrue
  | true =>
      rw [hspace, if_pos rfl] at hparse
      rw [authenticate_of_parse hparse]
      have hno : ∀ c ∈ token.toList, isSpace c = false := by simpa using hspace
      by_cases heq : token = adminToken
      · rw [if_pos heq]
        exact ⟨fun _ => ⟨heq, hno⟩, fun _ => ⟨_, rfl⟩⟩
      · rw [if_neg heq]
        exact ⟨fun ⟨_, h⟩ => (by cases h), fun h => absurd h.1 heq⟩

end Bearer

/-! ## parseActor -/

/-- The characters of `/^[a-z0-9._-]+$/`. -/
def isActorChar (c : Char) : Bool :=
  ('a' ≤ c && c ≤ 'z') || ('0' ≤ c && c ≤ '9') || c = '.' || c = '_' || c = '-'

/-- The first issue `ActorHandleSchema.safeParse` reports, if any: `min(1)`, then
`max(64)` (both with the validator's own text), then the pattern. -/
def actorHandleIssue (s : String) : Option String :=
  if utf16Length s < 1 then some "Too small: expected string to have >=1 characters"
  else if 64 < utf16Length s then some "Too big: expected string to have <=64 characters"
  else if s.toList.all isActorChar then none
  else some "Actor handle must be lower-case alphanumeric, dot, underscore, or hyphen."

def parseActor (headerValue : Option String) : Except AuthError String :=
  match headerValue with
  | none => throw .missingActor
  | some headerValue =>
      let trimmed := trim headerValue
      if utf16Length trimmed = 0 then throw .missingActor
      else
        match actorHandleIssue trimmed with
        | some message => throw (.malformedActor message)
        | none => return trimmed

/-- A handle that `parseActor` returns passes the schema. -/
theorem parseActor_valid {h : Option String} {a : String} (ha : parseActor h = .ok a) :
    actorHandleIssue a = none := by
  unfold parseActor at ha
  split at ha
  · cases ha
  · simp only at ha
    split at ha
    · cases ha
    · split at ha
      · cases ha
      · rename_i hnone
        obtain rfl := Except.ok.inj ha
        exact hnone

theorem parseActor_ne_empty {h : Option String} {a : String} (ha : parseActor h = .ok a) :
    a ≠ "" := by
  rintro rfl
  have := parseActor_valid ha
  simp [actorHandleIssue, utf16Length, utf16Units] at this

/-- A handle that is trimmed is returned exactly when it passes the schema. -/
theorem parseActor_iff {handle : String} (htrim : trim handle = handle) :
    (∃ actor, parseActor (some handle) = .ok actor) ↔ actorHandleIssue handle = none := by
  simp only [parseActor, htrim]
  by_cases hzero : utf16Length handle = 0
  · rw [if_pos hzero]
    refine ⟨fun ⟨_, h⟩ => (by cases h), fun h => ?_⟩
    rw [actorHandleIssue, if_pos (by omega)] at h
    cases h
  · rw [if_neg hzero]
    cases hissue : actorHandleIssue handle with
    | some message => exact ⟨fun ⟨_, h⟩ => (by cases h), fun h => by cases h⟩
    | none => exact ⟨fun _ => rfl, fun _ => ⟨_, rfl⟩⟩

theorem actorHandleIssue_eq_none_iff {handle : String} :
    actorHandleIssue handle = none
      ↔ 1 ≤ utf16Length handle ∧ utf16Length handle ≤ 64
        ∧ ∀ c ∈ handle.toList, isActorChar c = true := by
  unfold actorHandleIssue
  split
  · exact ⟨fun h => (by cases h), fun h => by omega⟩
  · split
    · exact ⟨fun h => (by cases h), fun h => by omega⟩
    · split
      · rename_i hall
        exact ⟨fun _ => ⟨by omega, by omega, List.all_eq_true.mp hall⟩, fun _ => rfl⟩
      · rename_i hall
        exact ⟨fun h => (by cases h), fun h => absurd (List.all_eq_true.mpr h.2.2) hall⟩

end GatewayConsole
