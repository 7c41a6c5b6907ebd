import GatewayConsole.Auth

/-!
# The headers that authenticate

What `authenticate` accepts, as a grammar: white space, the word `bearer` in any letter
case, white space, the characters of the token, white space. The parser gets there by
trimming, splitting and lower-casing, and compares bytes; `bearer_sound` says that nothing
else gets through, and that what does not is refused with one of the two errors of the
scheme, so that the comparison is never made on buffers of different lengths.
-/

namespace GatewayConsole

/-- The header is white space, `bearer`, white space, the token and white space. -/
def IsBearer (token header : String) : Prop :=
  ∃ before scheme gap after : List Char,
    header.toList = before ++ scheme ++ gap ++ token.toList ++ after
      ∧ asciiLower (String.ofList scheme) = "bearer" ∧ gap ≠ []
      ∧ (∀ c ∈ before, isSpace c = true) ∧ (∀ c ∈ gap, isSpace c = true)
      ∧ ∀ c ∈ after, isSpace c = true

section Bearer

variable [Unicode]

/-- No letter outside ASCII lower-cases to one of `bearer`. -/
theorem asciiLower_of_bearer {scheme : String} (h : toLowerCase scheme = "bearer") :
    asciiLower scheme = "bearer" := by
  have hall : ("bearer".toList.all fun c => decide (c.toNat < 128 ∧ c.toLower ≠ 'k')) = true := rfl
  have hword : ∀ c ∈ "bearer".toList, c.toNat < 128 ∧ c.toLower ≠ 'k' := fun c hc =>
    of_decide_eq_true (List.all_eq_true.mp hall c hc)
  have hlower : asciiLower "bearer" = "bearer" := by decide
  have hsame : toLowerCase scheme = toLowerCase "bearer" := by
    rw [h, Unicode.ascii "bearer" fun c hc => (hword c hc).1, hlower]
  rw [(toLowerCase_eq_iff hword).mp hsame, hlower]

theorem parseBearer_ok {header : Option String} {token : String}
    (h : parseBearer header = .ok token) :
    ∃ value scheme, header = some value ∧ splitSpace (trim value) = [scheme, token]
      ∧ toLowerCase scheme = "bearer" ∧ token ≠ "" := by
  unfold parseBearer at h
  split at h
  · cases h
  · cases h
  · rename_i value hvalue
    cases hparts : splitSpace (trim value) with
    | nil => exact absurd hparts (splitSpaceAux_ne_nil _ _ _)
    | cons scheme rest =>
        simp only [hparts, List.getElem?_cons_zero, Option.map_some, ne_eq, ite_not,
          Option.some.injEq] at h
        split at h
        · rename_i hscheme
          cases rest with
          | nil => cases h
          | cons piece more =>
              cases more with
              | cons _ _ =>
                  simp only [List.getElem?_cons_succ, List.getElem?_cons_zero] at h
                  split at h <;> cases h
              | nil =>
                  simp only [List.getElem?_cons_succ, List.getElem?_cons_zero] at h
                  split at h
                  · cases h
                  · cases h
                  · rename_i hne heq
                    obtain rfl := Option.some.inj heq
                    obtain rfl := Except.ok.inj h
                    exact ⟨value, scheme, rfl, hparts, hscheme, hne⟩
        · cases h

/-- What is read from a header: the one token of a header of the scheme. -/
theorem isBearer_of_parse {header : Option String} {token : String}
    (h : parseBearer header = .ok token) :
    ∃ value, header = some value ∧ IsBearer token value ∧ token ≠ ""
      ∧ ∀ c ∈ token.toList, isSpace c = false := by
  obtain ⟨value, scheme, hvalue, hparts, hscheme, hne⟩ := parseBearer_ok h
  obtain ⟨gap, hpieces, hgap, hspaces, -, htoken⟩ := splitSpace_eq_pair hparts
  obtain ⟨before, after, htrim, hbefore, hafter⟩ := exists_trim value
  refine ⟨value, hvalue, ⟨before, scheme.toList, gap, after, ?_, ?_, hgap, hbefore, hspaces,
    hafter⟩, hne, htoken⟩
  · rw [htrim, hpieces]
    simp only [List.append_assoc]
  · rw [String.ofList_toList]
    exact asciiLower_of_bearer hscheme

theorem parseBearer_error {header : Option String} {e : AuthError}
    (h : parseBearer header = .error e) : ∃ reason, e = .malformedAuthorization reason := by
  unfold parseBearer at h
  split at h
  · exact ⟨_, (Except.error.inj h).symm⟩
  · exact ⟨_, (Except.error.inj h).symm⟩
  · simp only at h
    split at h
    · exact ⟨_, (Except.error.inj h).symm⟩
    · split at h
      · exact ⟨_, (Except.error.inj h).symm⟩
      · exact ⟨_, (Except.error.inj h).symm⟩
      · split at h
        · exact ⟨_, (Except.error.inj h).symm⟩
        · cases h

/-- **Nothing but the scheme and the token authenticates.** Any other header is refused with
one of the two errors of the scheme. -/
theorem bearer_sound (adminToken : String) (header : Option String) :
    (∀ identity, authenticate adminToken header = .ok identity →
        ∃ value, header = some value ∧ IsBearer adminToken value)
      ∧ ((∀ identity, authenticate adminToken header ≠ .ok identity) →
        (∃ reason, authenticate adminToken header = .error (.malformedAuthorization reason))
          ∨ authenticate adminToken header = .error .invalidAdminToken) := by
  cases hparse : parseBearer header with
  | error e =>
      obtain ⟨reason, rfl⟩ := parseBearer_error hparse
      have hauth : authenticate adminToken header = .error (.malformedAuthorization reason) := by
        rw [authenticate, hparse]
        rfl
      refine ⟨fun identity h => ?_, fun _ => Or.inl ⟨reason, hauth⟩⟩
      rw [hauth] at h
      cases h
  | ok token =>
      have hauth : authenticate adminToken header
          = if token = adminToken then .ok "ADMIN_TOKEN" else .error .invalidAdminToken :=
        authenticate_of_parse hparse
      split at hauth
      · rename_i heq
        obtain rfl := heq
        obtain ⟨value, hvalue, hbearer, -⟩ := isBearer_of_parse hparse
        exact ⟨fun _ _ => ⟨value, hvalue, hbearer⟩, fun h => absurd hauth (h _)⟩
      · refine ⟨fun identity h => ?_, fun _ => Or.inr hauth⟩
        rw [hauth] at h
        cases h

end Bearer

end GatewayConsole
