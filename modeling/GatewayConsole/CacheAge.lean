import GatewayConsole.ReadRecords

/-!
# How old an answer of the cache is

The loader of a stake map or a serviceURI awaits an address through the same cache, so an
answer is made of two reads, each with an entry of its own to outlive. `servedInTime` bounds
the age of both, for calls that share loads in flight, over a clock that never goes back, and
says that the asks for a key are served by loads in the order of their starting.

That is the order of the asks, not that of the calls: `listOrchs` asks once `listKnown` has
answered, and a call that is issued meanwhile may ask first. `not_issuedInOrder_slowListing`
is a run of that kind.

`askedBy` is not part of the program. It records the call that each ask belongs to.
-/

namespace GatewayConsole

/-! ## The service and its clock -/

structure RoutingService where
  reads : ChainReads := {}
  clock : Int
  /-- The number of calls so far, which are numbered in the order of their issue. -/
  calls : Nat := 0
  /-- The calls of `listOrchs` that await `listKnown`. -/
  listing : List Nat := []
  askedBy : List Nat := []

inductive ServiceEvent where
  | listOrchs
  /-- The resolver answers a call of `listOrchs`. -/
  | listKnown (call : Nat) (known : List String) (times : List (Int × Int))
  | listKnownFails (call : Nat)
  | getOrch (address : String) (times : List (Int × Int))
  | readSucceeds (load : Nat) (result : ReadResult)
  | readFails (load : Nat)
deriving Repr, DecidableEq

/-- The readings of a turn go on from the clock. One that a turn does not need repeats the
one before. -/
def nonDecreasing : Int → List (Int × Int) → Bool
  | _, [] => true
  | clock, (t, t') :: rest => clock ≤ t && t ≤ t' && nonDecreasing t' rest

def lastReading (clock : Int) (times : List (Int × Int)) : Int :=
  (times.getLast?.map (·.2)).getD clock

theorem le_of_nonDecreasing :
    ∀ {times : List (Int × Int)} {clock : Int}, nonDecreasing clock times = true →
      ∀ p ∈ times, p.1 ≤ p.2
  | [], _, _, _, hp => by cases hp
  | (t, t') :: rest, clock, h, p, hp => by
      simp only [nonDecreasing, Bool.and_eq_true, decide_eq_true_eq] at h
      obtain ⟨⟨-, hle⟩, hrest⟩ := h
      rcases List.mem_cons.mp hp with rfl | hp
      · exact hle
      · exact le_of_nonDecreasing hrest p hp

/-! ## The bounds -/

/-- An ask is served by a load of its key that is younger than the TTL, or that it starts. -/
def InTtl (ttlMs : Int) (s : ChainReads) : Prop :=
  ∀ a ∈ s.asks, ∃ l, s.cache.loads[a.load]? = some l ∧ l.key = a.key
    ∧ (a.time < l.startedAt + ttlMs ∨ a.base ≤ a.load)

/-- An ask for a field is served by a load that awaits one of its address, and reads at the
value of that one, which is younger than two TTLs, or started during the load. -/
def AddressInTtl [Unicode] (ttlMs : Int) (s : ChainReads) : Prop :=
  ∀ a ∈ s.asks, ∀ asked : Field, a.key = asked.key →
    ∃ l awaited field state l', s.At a.load ⟨.reading awaited field, state⟩ l
      ∧ s.cache.loads[awaited]? = some l' ∧ l'.key = asked.awaited.key
      ∧ (∀ read, state.read? = some read →
        ∃ address, l'.outcome = .fulfilled (.address address) ∧ read = field.request address)
      ∧ (a.time < l'.startedAt + 2 * ttlMs ∨ l.startedAt ≤ l'.startedAt)

/-- Of two asks for a key, the later is not served by an earlier load. -/
def AskedInOrder (s : ChainReads) : Prop :=
  s.asks.Pairwise fun a b => a.key = b.key → a.load ≤ b.load

structure ServedInTime [Unicode] (ttlMs : Int) (s : RoutingService) : Prop where
  loads : InTtl ttlMs s.reads
  addresses : AddressInTtl ttlMs s.reads
  order : AskedInOrder s.reads

/-- Of two calls with an answer for a key, the one issued later is not served by an earlier
load. -/
def IssuedInOrder (s : RoutingService) : Prop :=
  ∀ (i j : Nat) (a b : Ask) (c d : Nat), s.reads.asks[i]? = some a → s.reads.asks[j]? = some b →
    s.askedBy[i]? = some c → s.askedBy[j]? = some d → c < d → a.key = b.key →
    (s.reads.valueOf a.load).isSome → (s.reads.valueOf b.load).isSome → a.load ≤ b.load

/-! ## The ages of the awaited loads -/

namespace ChainReads

/-- Where a load awaits another, that one was younger than the TTL when the load started, or
started later. -/
def AwaitedYoung (ttlMs : Int) (births : List (CacheKey × Int)) (loaders : List Loader) : Prop :=
  ∀ (i j : Nat) (field : Field), loaders[i]? = some (.reading j field) →
    ∃ p p', births[i]? = some p ∧ births[j]? = some p' ∧ (p.2 < p'.2 + ttlMs ∨ p.2 ≤ p'.2)

theorem AwaitedYoung.append {ttlMs : Int} {births : List (CacheKey × Int)}
    {loaders : List Loader} (h : AwaitedYoung ttlMs births loaders)
    (hlength : loaders.length = births.length) (key : CacheKey) (t : Int) (loader : Loader)
    (hawaited : ∀ j field, loader = .reading j field →
      ∃ p', births[j]? = some p' ∧ (t < p'.2 + ttlMs ∨ t ≤ p'.2)) :
    AwaitedYoung ttlMs (births ++ [(key, t)]) (loaders ++ [loader]) := by
  have hold : ∀ {i : Nat} {p : CacheKey × Int}, births[i]? = some p →
      (births ++ [(key, t)])[i]? = some p := fun hi =>
    getElem?_of_isPrefix (List.prefix_append _ _) hi
  intro i j field hi
  rcases Nat.lt_trichotomy i loaders.length with hlt | rfl | hgt
  · rw [List.getElem?_append_left hlt] at hi
    obtain ⟨p, p', hp, hp', hage⟩ := h i j field hi
    exact ⟨p, p', hold hp, hold hp', hage⟩
  · rw [List.getElem?_concat_length] at hi
    obtain ⟨p', hp', hage⟩ := hawaited j field (Option.some.inj hi)
    exact ⟨(key, t), p', by rw [hlength, List.getElem?_concat_length], hold hp', hage⟩
  · rw [List.getElem?_eq_none (by rw [List.length_append, List.length_singleton]; omega)] at hi
    cases hi

end ChainReads

section Service

variable [Unicode]

/-! ## The calls -/

namespace RoutingService

/-- A call asks, in one turn. -/
def ask (deps : RoutingDeps) (call : Nat) (c : ApiCall) (times : List (Int × Int))
    (s : RoutingService) : Option RoutingService :=
  if nonDecreasing s.clock times then
    (s.reads.step deps (.call c times)).map fun reads =>
      { s with
        reads
        clock := lastReading s.clock times
        askedBy := s.askedBy ++ List.replicate (reads.asks.length - s.reads.asks.length) call }
  else none

def step (deps : RoutingDeps) (s : RoutingService) : ServiceEvent → Option RoutingService
  | .listOrchs => some { s with calls := s.calls + 1, listing := s.listing ++ [s.calls] }
  | .listKnown call known times =>
      if call ∈ s.listing then
        { s with listing := s.listing.erase call }.ask deps call (.listOrchs known) times
      else none
  | .listKnownFails call =>
      if call ∈ s.listing then some { s with listing := s.listing.erase call } else none
  | .getOrch address times =>
      { s with calls := s.calls + 1 }.ask deps s.calls (.getOrch address) times
  | .readSucceeds i result =>
      (s.reads.step deps (.readSucceeds i result)).map fun reads => { s with reads }
  | .readFails i => (s.reads.step deps (.readFails i)).map fun reads => { s with reads }

end RoutingService

/-- `createRoutingService`, when the clock reads that. -/
def routingService (deps : RoutingDeps) (clock : Int) : Machine RoutingService ServiceEvent where
  init := { clock }
  step := RoutingService.step deps

/-- The turns: what the chain reads do in each. -/
inductive RoutingService.Turn (deps : RoutingDeps) (s : RoutingService) : RoutingService → Prop
  | idle {u : RoutingService} (hreads : u.reads = s.reads) : Turn deps s u
  | asks {u : RoutingService} (c : ApiCall) (times : List (Int × Int))
      (htimes : nonDecreasing s.clock times = true)
      (hreads : u.reads = s.reads.askAll deps (c.fields.zip times)) : Turn deps s u
  | readEnds {u : RoutingService} (ev : ReadEvent) (hev : ∀ c times, ev ≠ .call c times)
      (hreads : s.reads.Trans deps ev u.reads) : Turn deps s u

theorem RoutingService.turn_of_ask {deps : RoutingDeps} {s v u : RoutingService} {call : Nat}
    {c : ApiCall} {times : List (Int × Int)} (hreads : v.reads = s.reads)
    (hclock : v.clock = s.clock) (h : v.ask deps call c times = some u) : s.Turn deps u := by
  obtain ⟨htimes, h⟩ := Option.ite_none_right_eq_some.mp h
  obtain ⟨reads, hstep, rfl⟩ := Option.map_eq_some_iff.mp h
  rw [hclock] at htimes
  rw [hreads] at hstep
  cases ChainReads.trans_of_step hstep with
  | call c times hlength => exact .asks c times htimes rfl

theorem RoutingService.turn_of_step {deps : RoutingDeps} {s u : RoutingService}
    {ev : ServiceEvent} (h : s.step deps ev = some u) : s.Turn deps u := by
  cases ev with
  | listOrchs => exact .idle (by rw [← Option.some.inj h])
  | listKnown call known times =>
      obtain ⟨-, h⟩ := Option.ite_none_right_eq_some.mp h
      exact turn_of_ask (v := { s with listing := s.listing.erase call }) rfl rfl h
  | listKnownFails call =>
      obtain ⟨-, h⟩ := Option.ite_none_right_eq_some.mp h
      exact .idle (by rw [← Option.some.inj h])
  | getOrch address times =>
      exact turn_of_ask (v := { s with calls := s.calls + 1 }) rfl rfl h
  | readSucceeds i result =>
      obtain ⟨reads, hreads, rfl⟩ := Option.map_eq_some_iff.mp h
      exact .readEnds _ (fun _ _ h => by cases h) (ChainReads.trans_of_step hreads)
  | readFails i =>
      obtain ⟨reads, hreads, rfl⟩ := Option.map_eq_some_iff.mp h
      exact .readEnds _ (fun _ _ h => by cases h) (ChainReads.trans_of_step hreads)

/-! ## The reads and their ages -/

namespace ChainReads

structure AgeInv (deps : RoutingDeps) (s : ChainReads) : Prop where
  reads : ReadsInv deps.chainReadTtlMs s
  made : ReadsMade deps s
  recorded : Recorded deps.chainReadTtlMs s.births s.loaders s.asks
  young : AwaitedYoung deps.chainReadTtlMs s.births s.loaders

theorem ageInv_init (deps : RoutingDeps) : AgeInv deps {} :=
  ⟨readsInv_init _, readsMade_init deps, recorded_nil, fun _ _ _ hi => by cases hi⟩

theorem AgeInv.length_eq {deps : RoutingDeps} {s : ChainReads} (h : AgeInv deps s) :
    s.loaders.length = s.births.length := by
  rw [length_loaders, h.reads.length, births, List.length_map]

theorem AgeInv.asked {deps : RoutingDeps} {s u : ChainReads} (h : AgeInv deps s)
    (ha : Asked deps s u) (hyoung : AwaitedYoung deps.chainReadTtlMs u.births u.loaders) :
    AgeInv deps u :=
  ⟨h.reads.asked ha, h.made.asked ha, recorded_asked h.reads h.recorded ha, hyoung⟩

/-- The end of a read starts nothing. -/
theorem AgeInv.readEnds {deps : RoutingDeps} {s u : ChainReads} {ev : ReadEvent}
    (h : AgeInv deps s) (hst : s.Trans deps ev u) (hev : ∀ c times, ev ≠ .call c times) :
    AgeInv deps u := by
  refine ⟨h.reads.trans hst, h.made.trans h.reads hst, recorded_trans h.reads h.recorded hst, ?_⟩
  cases hst with
  | call c times hlength => exact absurd rfl (hev c times)
  | readSucceeds i result loader read v hwork hvalue =>
      have hbirths : (s.readSucceeded i read v).births = s.births := births_succeed s.cache i v
      rw [hbirths, loaders_readSucceeded]
      exact h.young
  | readFails i loader read hwork =>
      rw [births_readFailed, loaders_readFailed]
      exact h.young

/-- The ask for an address finds an entry, or starts a load. -/
theorem getAddress_records (deps : RoutingDeps) (field : AddressField) (t : Int)
    (s : ChainReads) :
    (∃ e, s.cache.fresh field.key t = some e ∧ (s.getAddress deps field t).1 = e.load
      ∧ (s.getAddress deps field t).2.births = s.births
      ∧ (s.getAddress deps field t).2.loaders = s.loaders)
    ∨ (s.getAddress deps field t).1 = s.births.length
      ∧ (s.getAddress deps field t).2.births = s.births ++ [(field.key, t)]
      ∧ (s.getAddress deps field t).2.loaders = s.loaders ++ [.address field] := by
  cases hf : s.cache.fresh field.key t with
  | some e =>
      rw [getAddress, hf]
      exact Or.inl ⟨e, rfl, rfl, rfl, rfl⟩
  | none =>
      right
      cases hb : field.begin deps with
      | inl a =>
          simp only [getAddress, hf, hb]
          have hbirths := births_succeed
            (s.started deps.chainReadTtlMs t ⟨.address field, .unneeded⟩).cache
            s.cache.loads.length (.address a)
          exact ⟨by rw [births, List.length_map], hbirths.trans (births_started _ s t _),
            loaders_started deps.chainReadTtlMs s t ⟨.address field, .unneeded⟩⟩
      | inr read =>
          simp only [getAddress, hf, hb]
          exact ⟨by rw [births, List.length_map], births_started _ s t _, loaders_started _ s t _⟩

/-- The ask for an address, and the age of the load that serves it. -/
theorem AgeInv.getAddress {deps : RoutingDeps} {s : ChainReads} (h : AgeInv deps s)
    (field : AddressField) (t : Int) :
    AgeInv deps (s.getAddress deps field t).2
      ∧ ∃ p, (s.getAddress deps field t).2.births[(s.getAddress deps field t).1]? = some p
        ∧ (t < p.2 + deps.chainReadTtlMs ∨ t ≤ p.2) := by
  have hasked := (asked_getAddress deps field t s).1
  rcases getAddress_records deps field t s with
    ⟨e, hf, hload, hbirths, hloaders⟩ | ⟨hload, hbirths, hloaders⟩
  · obtain ⟨he, hlt⟩ := TtlCache.fresh_eq_some.mp hf
    obtain ⟨l, hmade⟩ := h.reads.coherent field.key e he
    refine ⟨h.asked hasked (by rw [hbirths, hloaders]; exact h.young), (field.key, l.startedAt),
      ?_, Or.inl (hmade.expires ▸ hlt)⟩
    rw [hbirths, hload]
    exact getElem?_births.mpr ⟨l, hmade.load, hmade.key_eq, rfl⟩
  · refine ⟨h.asked hasked ?_, (field.key, t), ?_, Or.inr (Int.le_refl t)⟩
    · rw [hbirths, hloaders]
      exact h.young.append h.length_eq _ _ _ fun _ _ hl => by cases hl
    · rw [hbirths, hload, List.getElem?_concat_length]

/-- The ask for a field, whose loader does not ask before it. -/
theorem AgeInv.ask {deps : RoutingDeps} {s : ChainReads} (h : AgeInv deps s) (field : Field)
    {times : Int × Int} (htimes : times.1 ≤ times.2) :
    AgeInv deps (s.ask deps field times).2 := by
  rw [ask_eq_getField]
  cases hf : s.cache.fresh field.key times.1 with
  | some e =>
      rw [getField, hf]
      exact h.asked (.served _ _ e hf) h.young
  | none =>
      rw [getField, hf]
      obtain ⟨hu, p, hbirth, hage⟩ := h.getAddress field.awaited times.2
      obtain ⟨-, e, he, hload⟩ := asked_getAddress deps field.awaited times.2 s
      simp only [← hload] at hbirth ⊢
      refine hu.asked (.reading field times.1 e he) ?_
      rw [births_started, loaders_started]
      refine hu.young.append hu.length_eq _ _ _ ?_
      rintro j field' ⟨⟩
      exact ⟨p, hbirth, by omega⟩

theorem AgeInv.askAll {deps : RoutingDeps} :
    ∀ (asks : List (Field × Int × Int)) {s : ChainReads}, AgeInv deps s →
      (∀ p ∈ asks, p.2.1 ≤ p.2.2) → AgeInv deps (s.askAll deps asks)
  | [], _, h, _ => h
  | (field, times) :: rest, _, h, htimes =>
      AgeInv.askAll rest (h.ask field (htimes (field, times) (List.mem_cons_self ..)))
        fun p hp => htimes p (List.mem_cons_of_mem _ hp)

end ChainReads

/-! ## The bounds along a run -/

/-- What holds of the reads after every turn. -/
theorem ageInv (deps : RoutingDeps) (clock : Int) :
    (routingService deps clock).Invariant fun s => s.reads.AgeInv deps := by
  refine ⟨ChainReads.ageInv_init deps, fun s ev u h hst => ?_⟩
  cases RoutingService.turn_of_step hst with
  | idle hreads => rw [hreads]; exact h
  | asks c times htimes hreads =>
      rw [hreads]
      exact h.askAll _ fun p hp => le_of_nonDecreasing htimes _ (List.of_mem_zip hp).2
  | readEnds ev hev hreads => exact h.readEnds hreads hev

theorem ChainReads.AgeInv.inTtl {deps : RoutingDeps} {s : ChainReads} (h : s.AgeInv deps) :
    InTtl deps.chainReadTtlMs s := by
  intro a ha
  obtain ⟨t, hbirth, hage⟩ := h.recorded.served a ha
  obtain ⟨l, hl, hkey, rfl⟩ := getElem?_births.mp hbirth
  exact ⟨l, hl, hkey, hage.imp_right And.left⟩

/-- The loader of a load under the key of a field. -/
theorem Loader.reading_of_key {loader : Loader} {asked : Field} (h : loader.key = asked.key) :
    ∃ awaited field, loader = .reading awaited field ∧ field.awaited = asked.awaited := by
  cases loader with
  | address field => cases field <;> cases asked <;> cases h
  | reading awaited field =>
      refine ⟨awaited, field, rfl, ?_⟩
      cases field <;> cases asked <;> first | rfl | cases h

/-- The ages add up: the ask is younger than its load, and that than the one it awaited. -/
theorem ChainReads.AgeInv.addressInTtl {deps : RoutingDeps} {s : ChainReads} (h : s.AgeInv deps)
    (httl : 0 ≤ deps.chainReadTtlMs) : AddressInTtl deps.chainReadTtlMs s := by
  intro a ha asked hasked
  obtain ⟨t, hbirth, hage⟩ := h.recorded.served a ha
  obtain ⟨l, hl, hlkey, rfl⟩ := getElem?_births.mp hbirth
  obtain ⟨⟨loader, state⟩, hat⟩ := h.reads.at_of_load hl
  have hkey : loader.key = asked.key := by
    rw [← hasked, ← hlkey]
    exact (h.reads.fits _ _ _ hat).key_eq.symm
  obtain ⟨awaited, field, rfl, hawaited⟩ := Loader.reading_of_key hkey
  have hloader : s.loaders[a.load]? = some (.reading awaited field) :=
    getElem?_loaders.mpr ⟨_, hat.work, rfl⟩
  obtain ⟨t', hbirth'⟩ := h.recorded.awaited a.load awaited field hloader
  obtain ⟨p, p', hp, hp', hyoung⟩ := h.young a.load awaited field hloader
  obtain rfl := Option.some.inj (hbirth.symm.trans hp)
  obtain rfl := Option.some.inj (hbirth'.symm.trans hp')
  obtain ⟨l', hl', hkey', rfl⟩ := getElem?_births.mp hbirth'
  refine ⟨l, awaited, field, state, l', hat, hl', hawaited ▸ hkey', fun read hread => ?_, ?_⟩
  · obtain ⟨address, hv, hreq⟩ := h.made a.load _ read hat.work hread
    obtain ⟨m, hm, hout⟩ := fulfilled_of_valueOf hv
    obtain rfl := Option.some.inj (hl'.symm.trans hm)
    exact ⟨address, hout, hreq⟩
  · have htwice : deps.chainReadTtlMs ≤ 2 * deps.chainReadTtlMs :=
      Int.two_mul _ ▸ Int.le_add_of_nonneg_left httl
    simp only at hyoung
    rcases hage with hlt | ⟨-, hstarts⟩
    · omega
    · omega

/-- **The cache serves nothing older than its TTL, and nothing made at an address older than
two.** Over a clock that never goes back, whatever the calls, the loads they share and the
reads that fail: an ask is served by a load younger than the TTL or by one it starts; the
address that was read at was read less than two TTLs before or during the load; and the asks
for a key are served in the order of the loads. -/
theorem servedInTime (deps : RoutingDeps) (httl : 0 ≤ deps.chainReadTtlMs) (clock : Int)
    (es : List ServiceEvent) :
    (routingService deps clock).Always (ServedInTime deps.chainReadTtlMs) es := by
  intro ds _ s hs
  have h := (ageInv deps clock).run hs
  exact ⟨h.inTtl, h.addressInTtl httl, h.recorded.ordered⟩

end Service

/-- `listOrchs` is called, then `getOrch`, which asks and is answered. Thirty seconds later
`listKnown` answers, and the stake map is loaded again. -/
def slowListing : List ServiceEvent :=
  [.listOrchs, .getOrch "0xa1" [(0, 0), (0, 0)], .readSucceeds 0 (.address "0xb0"),
    .readSucceeds 1 (.pool []), .listKnown 0 [] [(30000, 30000)],
    .readSucceeds 4 (.address "0xb0"), .readSucceeds 5 (.pool [])]

theorem servedInTime_slowListing :
    0 ≤ thirtySeconds.chainReadTtlMs
    ∧ (@routingService asciiUnicode thirtySeconds 0).Always
        (@ServedInTime asciiUnicode thirtySeconds.chainReadTtlMs) slowListing :=
  ⟨by decide, @servedInTime asciiUnicode thirtySeconds (by decide) 0 slowListing⟩

/-- The call issued later is served by the earlier load. -/
theorem not_issuedInOrder_slowListing :
    ¬(@routingService asciiUnicode thirtySeconds 0).Always IssuedInOrder slowListing := by
  intro h
  obtain ⟨s, hs, hfirst, hsecond, hcalls, hvalues⟩ :
      ∃ s, (@routingService asciiUnicode thirtySeconds 0).run slowListing = some s
        ∧ s.reads.asks[5]? = some ⟨.poolStakeMap, 30000, 5, 5, []⟩
        ∧ s.reads.asks[1]? = some ⟨.poolStakeMap, 0, 1, 1, []⟩
        ∧ s.askedBy[5]? = some 0 ∧ s.askedBy[1]? = some 1
        ∧ (s.reads.valueOf 5).isSome ∧ (s.reads.valueOf 1).isSome :=
    ⟨_, rfl, rfl, rfl, rfl, rfl, rfl, rfl⟩
  obtain ⟨hcall, hv, hv'⟩ := hvalues
  exact absurd (h slowListing (List.prefix_refl _) s hs 5 1 _ _ 0 1 hfirst hsecond hcalls hcall
    (by decide) rfl hv hv') (by decide)

end GatewayConsole
