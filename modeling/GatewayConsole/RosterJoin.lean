import Mathlib.Data.List.Induction
import GatewayConsole.Routing

/-!
# The roster and the pool

`listOrchs` and `getOrch` join an orch with the bonding pool through a map that is
folded from the pool walk under lower-cased keys. `stakeOf_cases` says what the fold
leaves under a key: the stake of the last entry that was written there, or nothing. Both
sides of the join look up with one key, which is all that the agreement of the roster
with the detail needs.

`joinRoster` is `listOrchs` with the serviceURIs as the array that `Promise.all` has
filled, paired with the orchs by index. `listOrchs_eq_joinRoster` says that the pairing
gives each orch its own, and what a row of the roster has is read off there.
-/

namespace GatewayConsole

section Join

variable [Unicode]

/-! ## Addresses up to letter case -/

/-- The addresses differ at most in letter case. -/
def SameAddress (a b : String) : Prop := toLowerCase a = toLowerCase b

instance (a b : String) : Decidable (SameAddress a b) :=
  inferInstanceAs (Decidable (toLowerCase a = toLowerCase b))

/-- For an accepted address, that is the case of its hex letters. -/
theorem sameAddress_iff_asciiLower {a x : String} (h : isEthAddress a = true) :
    SameAddress x a ↔ asciiLower x = asciiLower a :=
  toLowerCase_eq_address_iff h

/-- The last entry of the pool for an address. -/
def LastEntry (entries : List BondingPoolEntry) (address : String) (e : BondingPoolEntry) :
    Prop :=
  ∃ earlier later, entries = earlier ++ e :: later ∧ SameAddress e.address address
    ∧ ∀ x ∈ later, ¬SameAddress x.address address

theorem LastEntry.mem {entries : List BondingPoolEntry} {address : String}
    {e : BondingPoolEntry} (h : LastEntry entries address e) :
    e ∈ entries ∧ SameAddress e.address address := by
  obtain ⟨earlier, later, rfl, hsame, -⟩ := h
  exact ⟨List.mem_append_right _ List.mem_cons_self, hsame⟩

theorem LastEntry.concat_same (entries : List BondingPoolEntry) {address : String}
    {e : BondingPoolEntry} (h : SameAddress e.address address) :
    LastEntry (entries ++ [e]) address e :=
  ⟨entries, [], rfl, h, fun _ hx => by cases hx⟩

theorem LastEntry.concat_other {entries : List BondingPoolEntry} {address : String}
    {e x : BondingPoolEntry} (h : LastEntry entries address e)
    (hx : ¬SameAddress x.address address) : LastEntry (entries ++ [x]) address e := by
  obtain ⟨earlier, later, rfl, hsame, hlater⟩ := h
  refine ⟨earlier, later ++ [x], by simp, hsame, fun y hy => ?_⟩
  rcases List.mem_append.mp hy with hy | hy
  · exact hlater y hy
  · exact List.mem_singleton.mp hy ▸ hx

/-! ## The fold -/

theorem poolEntriesToStakeMap_concat (entries : List BondingPoolEntry) (e : BondingPoolEntry) :
    poolEntriesToStakeMap (entries ++ [e])
      = (poolEntriesToStakeMap entries).set (toLowerCase e.address) e.totalStakeWei := by
  simp [poolEntriesToStakeMap]

/-- Under the key of an address the map has the stake of its last entry, or nothing where
the pool has no entry for it. -/
theorem stakeOf_cases (entries : List BondingPoolEntry) (address : String) :
    (∃ e, LastEntry entries address e
        ∧ poolEntriesToStakeMap entries (toLowerCase address) = some e.totalStakeWei)
      ∨ ((∀ e ∈ entries, ¬SameAddress e.address address)
        ∧ poolEntriesToStakeMap entries (toLowerCase address) = none) := by
  induction entries using List.reverseRecOn with
  | nil => exact Or.inr ⟨fun _ he => (by cases he), rfl⟩
  | append_singleton entries x ih =>
      rw [poolEntriesToStakeMap_concat]
      by_cases hx : SameAddress x.address address
      · refine Or.inl ⟨x, .concat_same entries hx, ?_⟩
        exact if_pos hx.symm
      · have hkeep : (poolEntriesToStakeMap entries).set (toLowerCase x.address)
            x.totalStakeWei (toLowerCase address)
            = poolEntriesToStakeMap entries (toLowerCase address) :=
          if_neg fun heq => hx heq.symm
        rw [hkeep]
        rcases ih with ⟨e, hlast, heq⟩ | ⟨hnone, heq⟩
        · exact Or.inl ⟨e, hlast.concat_other hx, heq⟩
        · refine Or.inr ⟨fun e he => ?_, heq⟩
          rcases List.mem_append.mp he with he | he
          · exact hnone e he
          · exact List.mem_singleton.mp he ▸ hx

/-! ## The join -/

/-- `listOrchs`, from the stake map and the array of the serviceURIs on. -/
def joinRoster (known : List KnownOrch) (stakeMap : StakeMap)
    (serviceUris : List (Option String)) : List OrchRosterRow :=
  known.mapIdx fun i k =>
    let stakeWei := stakeMap (toLowerCase k.address)
    { address := k.address
      serviceUri := serviceUris[i]?.join
      capabilities := []
      offerings := []
      signatureStatus := .unknown
      freshnessStatus := narrowFreshness k.freshnessStatus
      activePoolMember := stakeWei.isSome
      totalStakeWei := stakeWei
      lastObservedAt := none }

/-- When the array has the serviceURI of each orch at its index, every row gets its own. -/
theorem listOrchs_eq_joinRoster (known : List KnownOrch) (chain : ChainAnswers) :
    listOrchs known chain
      = joinRoster known chain.stakeMap (known.map fun k => chain.serviceUri k.address) := by
  refine List.ext_getElem? fun i => ?_
  cases hk : known[i]? with
  | none => simp [listOrchs, joinRoster, hk]
  | some k => simp [listOrchs, joinRoster, hk]

/-- A row of the roster: what it says of the pool is what the map has under the key of its
address, and its serviceURI is the one that was read for it. -/
theorem of_mem_listOrchs {known : List KnownOrch} {chain : ChainAnswers} {row : OrchRosterRow}
    (h : row ∈ listOrchs known chain) :
    row.activePoolMember = (chain.stakeMap (toLowerCase row.address)).isSome
      ∧ row.totalStakeWei = chain.stakeMap (toLowerCase row.address)
      ∧ row.serviceUri = chain.serviceUri row.address := by
  rw [listOrchs_eq_joinRoster] at h
  obtain ⟨i, hi, rfl⟩ := List.mem_mapIdx.mp h
  refine ⟨rfl, rfl, ?_⟩
  simp [List.getElem?_eq_getElem hi]

/-- What a row has to say of the pool. -/
structure JoinsPool (entries : List BondingPoolEntry) (row : OrchRosterRow) : Prop where
  member : row.activePoolMember = true ↔ ∃ e ∈ entries, SameAddress e.address row.address
  stake : row.activePoolMember = true →
    ∃ e, LastEntry entries row.address e ∧ row.totalStakeWei = some e.totalStakeWei
  noStake : row.activePoolMember = false → row.totalStakeWei = none

theorem joinsPool_of_stake {entries : List BondingPoolEntry} {row : OrchRosterRow}
    (hmember : row.activePoolMember
      = (poolEntriesToStakeMap entries (toLowerCase row.address)).isSome)
    (hstake : row.totalStakeWei = poolEntriesToStakeMap entries (toLowerCase row.address)) :
    JoinsPool entries row := by
  rcases stakeOf_cases entries row.address with ⟨e, hlast, heq⟩ | ⟨hnone, heq⟩
  · rw [heq] at hmember hstake
    refine ⟨⟨fun _ => ⟨e, hlast.mem⟩, fun _ => hmember⟩, fun _ => ⟨e, hlast, hstake⟩, ?_⟩
    intro hfalse
    rw [hmember] at hfalse
    cases hfalse
  · rw [heq] at hmember hstake
    refine ⟨⟨fun htrue => ?_, fun ⟨e, he, hsame⟩ => absurd hsame (hnone e he)⟩, ?_,
      fun _ => hstake⟩
    · rw [hmember] at htrue
      cases htrue
    · intro htrue
      rw [hmember] at htrue
      cases htrue

/-- The detail of an orch says of the pool what a row of the roster says. -/
def DetailAgrees (d : OrchDetail) (row : OrchRosterRow) : Prop :=
  ∃ orch, d.orch = some orch ∧ orch.activePoolMember = row.activePoolMember
    ∧ orch.totalStakeWei = row.totalStakeWei

/-- **The roster is joined with the pool, and the details agree with it.** One row for each
known orch, in order, with its own address and the serviceURI read for it; every row a member
of the pool exactly when the pool has an entry for its address in some letter case, with the
stake of the last such entry; and the detail of an orch that resolves to an address of the
roster, in any letter case, reports the same. -/
theorem roster_joins_pool (known : List KnownOrch) (entries : List BondingPoolEntry)
    (serviceUri : String → Option String) :
    (listOrchs known { stakeMap := poolEntriesToStakeMap entries, serviceUri }).map (·.address)
        = known.map (·.address)
      ∧ (∀ row ∈ listOrchs known { stakeMap := poolEntriesToStakeMap entries, serviceUri },
        JoinsPool entries row ∧ row.serviceUri = serviceUri row.address)
      ∧ ∀ row ∈ listOrchs known { stakeMap := poolEntriesToStakeMap entries, serviceUri },
        ∀ (address : String) (resolved : ResolvedOrch)
          (observationsRaw : List RoutingObservationRow) (detailUri : String → Option String),
          SameAddress resolved.address row.address →
            DetailAgrees
              (getOrch address (some resolved) observationsRaw
                { stakeMap := poolEntriesToStakeMap entries, serviceUri := detailUri }) row := by
  refine ⟨listOrchs_addresses _ _, fun row hrow => ?_, ?_⟩
  · obtain ⟨hmember, hstake, huri⟩ := of_mem_listOrchs hrow
    exact ⟨joinsPool_of_stake hmember hstake, huri⟩
  · intro row hrow address resolved observationsRaw detailUri hsame
    obtain ⟨hmember, hstake, -⟩ := of_mem_listOrchs hrow
    have hkey : toLowerCase resolved.address = toLowerCase row.address := hsame
    refine ⟨_, rfl, ?_, ?_⟩
    · rw [hmember, ← hkey]; rfl
    · rw [hstake, ← hkey]; rfl

end Join

end GatewayConsole
