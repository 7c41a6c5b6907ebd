import GatewayConsole.FailedReads

/-!
# What the loads and the asks record

Facts about the chain reads that hold in every run, whatever the clock reads: a load that has
ended with a value keeps it, every loader makes its own read, that of a field at the address
that the load it awaited has ended with (`ReadsMade`), and every ask is served by a load of
its key, which is young enough and no earlier than those that served the asks before
(`Recorded`).
-/

namespace GatewayConsole

/-- The read that a loader has made. -/
def ReadState.read? : ReadState → Option ChainRead
  | .unneeded | .waiting => none
  | .running read | .succeeded read | .failed read => some read

/-- What `resume` does: a load that waits for the address reads on, any other stays. -/
theorem Work.resume_cases (i : Nat) (v : CacheValue) (w : Work) :
    w.resume i v = w
    ∨ ∃ field address, v = .address address ∧ w = ⟨.reading i field, .waiting⟩
      ∧ w.resume i v = ⟨.reading i field, .running (field.request address)⟩ := by
  cases hw : w.waitsFor i with
  | false => exact Or.inl (resume_eq_self hw)
  | true =>
      obtain ⟨loader, read⟩ := w
      obtain ⟨rfl, field, rfl⟩ := waitsFor_iff.mp hw
      cases v with
      | address address => exact Or.inr ⟨field, address, rfl, rfl, by simp [resume]⟩
      | stakeMap m => exact Or.inl rfl
      | serviceUri uri => exact Or.inl rfl

namespace ChainReads

/-! ## The keys and the times of the loads -/

/-- The keys of the loads and the times they started at. -/
def births (s : ChainReads) : List (CacheKey × Int) :=
  s.cache.loads.map fun l => (l.key, l.startedAt)

theorem getElem?_births {s : ChainReads} {i : Nat} {key : CacheKey} {t : Int} :
    s.births[i]? = some (key, t)
      ↔ ∃ l, s.cache.loads[i]? = some l ∧ l.key = key ∧ l.startedAt = t := by
  simp [births]

theorem births_succeed (c : TtlCache CacheKey CacheValue) (i : Nat) (v : CacheValue) :
    ((c.succeed i v).loads.map fun l => (l.key, l.startedAt))
      = c.loads.map fun l => (l.key, l.startedAt) := by
  refine List.ext_getElem? fun j => ?_
  simp only [TtlCache.succeed, List.getElem?_map, List.getElem?_modify, Option.map_eq_map,
    Option.map_map]
  refine congrArg (Option.map · _) (funext fun l => ?_)
  simp only [Function.comp_apply]
  split <;> rfl

theorem births_failAll (js : List Nat) (c : TtlCache CacheKey CacheValue) :
    ((js.foldl TtlCache.fail c).loads.map fun l => (l.key, l.startedAt))
      = c.loads.map fun l => (l.key, l.startedAt) := by
  refine List.ext_getElem? fun j => Option.ext fun p => ?_
  simp only [List.getElem?_map, Option.map_eq_some_iff]
  constructor
  · rintro ⟨l', hl', rfl⟩
    obtain ⟨l, hl, rfl⟩ := TtlCache.getElem?_failAll.mp hl'
    exact ⟨l, hl, by split <;> rfl⟩
  · rintro ⟨l, hl, rfl⟩
    exact ⟨_, TtlCache.getElem?_failAll.mpr ⟨l, hl, rfl⟩, by split <;> rfl⟩

theorem births_readFailed (s : ChainReads) (n : Nat) (loader : Loader) (read : ChainRead) :
    (s.readFailed n loader read).births = s.births := by
  simp only [births, readFailed]
  cases loader.caught with
  | some v => exact births_succeed s.cache n v
  | none => exact births_failAll _ s.cache

/-! ## The reads of the loaders -/

theorem valueOf_of_load {s : ChainReads} {i : Nat} {l : Load CacheKey CacheValue} {v : CacheValue}
    (hl : s.cache.loads[i]? = some l) (hv : l.outcome = .fulfilled v) :
    s.valueOf i = some v := by
  simp [valueOf, hl, hv, Outcome.value?]

/-- The loader makes this read: that of its address, or that of its field, at the address
that the load it awaited has ended with. -/
def Makes (deps : RoutingDeps) (s : ChainReads) : Loader → ChainRead → Prop
  | .address field, read => field.begin deps = .inr read
  | .reading awaited field, read =>
      ∃ address, s.valueOf awaited = some (.address address) ∧ read = field.request address

/-- Every loader makes its own read. -/
def ReadsMade (deps : RoutingDeps) (s : ChainReads) : Prop :=
  ∀ (i : Nat) (w : Work) (read : ChainRead), s.works[i]? = some w → w.read.read? = some read →
    s.Makes deps w.loader read

theorem Makes.mono {deps : RoutingDeps} {s u : ChainReads} {loader : Loader} {read : ChainRead}
    (h : s.Makes deps loader read)
    (hvalues : ∀ i v, s.valueOf i = some v → u.valueOf i = some v) :
    u.Makes deps loader read := by
  cases loader with
  | address field => exact h
  | reading awaited field =>
      obtain ⟨address, hv, hreq⟩ := h
      exact ⟨address, hvalues _ _ hv, hreq⟩

theorem readsMade_init (deps : RoutingDeps) : ReadsMade deps {} :=
  fun _ _ _ hw => by cases hw

theorem ReadsMade.append {deps : RoutingDeps} {s u : ChainReads} (h : ReadsMade deps s)
    {work : Work} (hworks : u.works = s.works ++ [work])
    (hvalues : ∀ i v, s.valueOf i = some v → u.valueOf i = some v)
    (hread : ∀ read, work.read.read? = some read → s.Makes deps work.loader read) :
    ReadsMade deps u := by
  intro i w read hw hstate
  rw [hworks] at hw
  rcases List.mem_append.mp (List.mem_of_getElem? hw) with hmem | hmem
  · obtain ⟨j, hj⟩ := List.getElem?_of_mem hmem
    exact (h j w read hj hstate).mono hvalues
  · obtain rfl := List.mem_singleton.mp hmem
    exact (hread read hstate).mono hvalues

/-! ## The asks -/

/-- Every ask is served by a load of its key that is younger than the TTL, or that it starts;
every load is started by an ask; the load that a field awaits is one of its address; and of
two asks for a key the later is not served by an earlier load. -/
structure Recorded (ttlMs : Int) (births : List (CacheKey × Int)) (loaders : List Loader)
    (asks : List Ask) : Prop where
  served : ∀ a ∈ asks, ∃ t, births[a.load]? = some (a.key, t)
    ∧ (a.time < t + ttlMs ∨ a.base ≤ a.load ∧ t = a.time)
  started : ∀ i, i < births.length → ∃ a ∈ asks, a.load = i
  awaited : ∀ (i j : Nat) (field : Field), loaders[i]? = some (.reading j field) →
    ∃ t, births[j]? = some (field.awaited.key, t)
  ordered : asks.Pairwise fun a b => a.key = b.key → a.load ≤ b.load

section Recorded

variable {ttlMs : Int} {births : List (CacheKey × Int)} {loaders : List Loader}
  {asks : List Ask}

theorem recorded_nil : Recorded ttlMs [] [] [] :=
  ⟨fun _ ha => (by cases ha), fun _ hi => (by cases hi), fun _ _ _ hi => (by cases hi), .nil⟩

/-- An ask that finds an entry. -/
theorem Recorded.serve (h : Recorded ttlMs births loaders asks) {a : Ask} {t : Int}
    (hbirth : births[a.load]? = some (a.key, t)) (hage : a.time < t + ttlMs)
    (hlast : ∀ b ∈ asks, b.key = a.key → b.load ≤ a.load) :
    Recorded ttlMs births loaders (asks ++ [a]) := by
  refine ⟨fun b hb => ?_, fun i hi => ?_, h.awaited, ?_⟩
  · rcases List.mem_append.mp hb with hb | hb
    · exact h.served b hb
    · obtain rfl := List.mem_singleton.mp hb
      exact ⟨t, hbirth, Or.inl hage⟩
  · obtain ⟨b, hb, hload⟩ := h.started i hi
    exact ⟨b, List.mem_append_left _ hb, hload⟩
  · refine List.pairwise_append.mpr ⟨h.ordered, List.pairwise_singleton _ _, ?_⟩
    intro b hb c hc hkey
    obtain rfl := List.mem_singleton.mp hc
    exact hlast b hb hkey

/-- An ask that starts a load. -/
theorem Recorded.start (h : Recorded ttlMs births loaders asks) {a : Ask} (loader : Loader)
    (hload : a.load = births.length) (hbase : a.base = births.length)
    (hawaited : ∀ j field, loader = .reading j field →
      ∃ t, births[j]? = some (field.awaited.key, t)) :
    Recorded ttlMs (births ++ [(a.key, a.time)]) (loaders ++ [loader]) (asks ++ [a]) := by
  have hold : ∀ {i : Nat} {p : CacheKey × Int}, births[i]? = some p →
      (births ++ [(a.key, a.time)])[i]? = some p := fun hi =>
    getElem?_of_isPrefix (List.prefix_append _ _) hi
  refine ⟨fun b hb => ?_, fun i hi => ?_, fun i j field hi => ?_, ?_⟩
  · rcases List.mem_append.mp hb with hb | hb
    · obtain ⟨t, hbirth, hage⟩ := h.served b hb
      exact ⟨t, hold hbirth, hage⟩
    · obtain rfl := List.mem_singleton.mp hb
      exact ⟨b.time, by simp [hload], Or.inr ⟨by rw [hload, hbase], rfl⟩⟩
  · rw [List.length_append, List.length_singleton] at hi
    rcases Nat.lt_succ_iff_lt_or_eq.mp hi with hlt | rfl
    · obtain ⟨b, hb, hbload⟩ := h.started i hlt
      exact ⟨b, List.mem_append_left _ hb, hbload⟩
    · exact ⟨a, List.mem_append_right _ (List.mem_singleton.mpr rfl), hload⟩
  · rcases List.mem_append.mp (List.mem_of_getElem? hi) with hmem | hmem
    · obtain ⟨k, hk⟩ := List.getElem?_of_mem hmem
      obtain ⟨t, hbirth⟩ := h.awaited k j field hk
      exact ⟨t, hold hbirth⟩
    · obtain ⟨t, hbirth⟩ := hawaited j field (List.mem_singleton.mp hmem).symm
      exact ⟨t, hold hbirth⟩
  · refine List.pairwise_append.mpr ⟨h.ordered, List.pairwise_singleton _ _, ?_⟩
    intro b hb c hc _
    obtain rfl := List.mem_singleton.mp hc
    obtain ⟨t, hbirth, -⟩ := h.served b hb
    rw [hload]
    exact Nat.le_of_lt (List.getElem?_eq_some_iff.mp hbirth).1

end Recorded

section Service

variable [Unicode]

/-! ## A load keeps its value -/

theorem valueOf_asked {deps : RoutingDeps} {s u : ChainReads} (h : Asked deps s u) {i : Nat}
    {v : CacheValue} (hv : s.valueOf i = some v) : u.valueOf i = some v := by
  obtain ⟨l, hl, ho⟩ := fulfilled_of_valueOf hv
  cases h with
  | served key t e hfresh => exact hv
  | configured field t a hfresh hbegin =>
      refine valueOf_of_load (TtlCache.getElem?_succeed.mpr ⟨l, ?_, ?_⟩) ho
      · exact TtlCache.getElem?_start.mpr (Or.inl hl)
      · rw [if_neg (Nat.ne_of_gt (List.getElem?_eq_some_iff.mp hl).1)]
  | resolving field t read hfresh hbegin =>
      exact valueOf_of_load (TtlCache.getElem?_start.mpr (Or.inl hl)) ho
  | reading field t e hstored =>
      exact valueOf_of_load (TtlCache.getElem?_start.mpr (Or.inl hl)) ho

/-- A load whose loader still reads or waits has no value. -/
theorem ReadsInv.valueOf_eq_none {ttlMs : Int} {s : ChainReads} (h : ReadsInv ttlMs s) {i : Nat}
    {w : Work} (hw : s.works[i]? = some w) (hdone : w.read.isDone = false)
    (hfailed : w.read.isFailed = false) : s.valueOf i = none := by
  cases hv : s.valueOf i with
  | none => rfl
  | some v =>
      obtain ⟨l, hl, ho⟩ := fulfilled_of_valueOf hv
      rcases (h.fits i w l ⟨hw, hl⟩).ended v ho with hd | ⟨hf, -⟩
      · rw [hdone] at hd
        cases hd
      · rw [hfailed] at hf
        cases hf

theorem ReadsInv.valueOf_readSucceeded {ttlMs : Int} {s : ChainReads} (h : ReadsInv ttlMs s)
    {n : Nat} {loader : Loader} {read : ChainRead}
    (hwork : s.works[n]? = some ⟨loader, .running read⟩) (v : CacheValue) {i : Nat}
    {v' : CacheValue} (hv : s.valueOf i = some v') :
    (s.readSucceeded n read v).valueOf i = some v' := by
  have hne : n ≠ i := by
    rintro rfl
    rw [h.valueOf_eq_none hwork rfl rfl] at hv
    cases hv
  obtain ⟨l, hl, ho⟩ := fulfilled_of_valueOf hv
  exact valueOf_of_load (TtlCache.getElem?_succeed.mpr ⟨l, hl, by rw [if_neg hne]⟩) ho

theorem ReadsInv.valueOf_readFailed {ttlMs : Int} {s : ChainReads} (h : ReadsInv ttlMs s)
    {n : Nat} {loader : Loader} {read : ChainRead}
    (hwork : s.works[n]? = some ⟨loader, .running read⟩) {i : Nat} {v : CacheValue}
    (hv : s.valueOf i = some v) : (s.readFailed n loader read).valueOf i = some v := by
  have hne : n ≠ i := by
    rintro rfl
    rw [h.valueOf_eq_none hwork rfl rfl] at hv
    cases hv
  have hmem : i ∉ n :: s.waitingFor n := by
    rintro hmem
    obtain ⟨w, hw, hwaits⟩ := mem_waitingFor.mp
      ((List.mem_cons.mp hmem).resolve_left (Ne.symm hne))
    have hread := (Work.waitsFor_iff.mp hwaits).1
    rw [h.valueOf_eq_none hw (by rw [hread]; rfl) (by rw [hread]; rfl)] at hv
    cases hv
  obtain ⟨l, hl, ho⟩ := fulfilled_of_valueOf hv
  simp only [ChainReads.readFailed]
  cases loader.caught with
  | some v' => exact valueOf_of_load (TtlCache.getElem?_succeed.mpr ⟨l, hl, by rw [if_neg hne]⟩) ho
  | none => exact valueOf_of_load (TtlCache.getElem?_failAll.mpr ⟨l, hl, by rw [if_neg hmem]⟩) ho

/-! ## The reads that are made -/

theorem ReadsMade.asked {deps : RoutingDeps} {s u : ChainReads} (h : ReadsMade deps s)
    (ha : Asked deps s u) : ReadsMade deps u := by
  have hvalues : ∀ i v, s.valueOf i = some v → u.valueOf i = some v :=
    fun _ _ hv => valueOf_asked ha hv
  cases ha with
  | served key t e hfresh => exact h
  | configured field t a hfresh hbegin =>
      exact h.append rfl hvalues fun _ hread => by cases hread
  | resolving field t read hfresh hbegin =>
      refine h.append rfl hvalues fun read' hread => ?_
      obtain rfl := Option.some.inj hread
      exact hbegin
  | reading field t e hstored =>
      refine h.append rfl hvalues fun read hread => ?_
      simp only [readOn] at hread
      split at hread
      · next a hv => exact ⟨a, hv, (Option.some.inj hread).symm⟩
      · cases hread

theorem ReadsMade.readSucceeded {deps : RoutingDeps} {ttlMs : Int} {s : ChainReads}
    (h : ReadsMade deps s) (hinv : ReadsInv ttlMs s) {n : Nat} {loader : Loader}
    {read : ChainRead} (hwork : s.works[n]? = some ⟨loader, .running read⟩) (v : CacheValue) :
    ReadsMade deps (s.readSucceeded n read v) := by
  intro i w' read' hw' hstate
  have hkeep : ∀ w, s.works[i]? = some w → w.read.read? = some read' →
      (s.readSucceeded n read v).Makes deps w.loader read' := fun w hw hread =>
    (h i w read' hw hread).mono fun _ _ hv => hinv.valueOf_readSucceeded hwork v hv
  simp only [ChainReads.readSucceeded, List.getElem?_map, List.getElem?_modify, Option.map_eq_map,
    Option.map_eq_some_iff] at hw'
  obtain ⟨_, ⟨w, hw, rfl⟩, rfl⟩ := hw'
  by_cases hni : n = i
  · -- the read that ends
    subst hni
    obtain rfl := Option.some.inj (hwork.symm.trans hw)
    have hself : Work.resume n v ⟨loader, .succeeded read⟩ = ⟨loader, .succeeded read⟩ :=
      Work.resume_eq_self (by cases loader <;> rfl)
    rw [if_pos rfl, hself] at hstate ⊢
    exact hkeep ⟨loader, .running read⟩ hwork hstate
  · rw [if_neg hni] at hstate ⊢
    rcases Work.resume_cases n v w with hself | ⟨field, address, rfl, rfl, hrunning⟩
    · rw [hself] at hstate ⊢
      exact hkeep w hw hstate
    · -- a read that begins, now that its address is there
      rw [hrunning] at hstate ⊢
      obtain ⟨l, hat⟩ := hinv.at_of_work hwork
      refine ⟨address, ?_, (Option.some.inj hstate).symm⟩
      exact valueOf_of_load (TtlCache.getElem?_succeed.mpr ⟨l, hat.load, by rw [if_pos rfl]⟩) rfl

theorem ReadsMade.readFailed {deps : RoutingDeps} {ttlMs : Int} {s : ChainReads}
    (h : ReadsMade deps s) (hinv : ReadsInv ttlMs s) {n : Nat} {loader : Loader}
    {read : ChainRead} (hwork : s.works[n]? = some ⟨loader, .running read⟩) :
    ReadsMade deps (s.readFailed n loader read) := by
  intro i w' read' hw' hstate
  have hkeep : ∀ w, s.works[i]? = some w → w.read.read? = some read' →
      (s.readFailed n loader read).Makes deps w.loader read' := fun w hw hread =>
    (h i w read' hw hread).mono fun _ _ hv => hinv.valueOf_readFailed hwork hv
  simp only [ChainReads.readFailed, List.getElem?_modify, Option.map_eq_map,
    Option.map_eq_some_iff] at hw'
  obtain ⟨w, hw, rfl⟩ := hw'
  by_cases hni : n = i
  · subst hni
    obtain rfl := Option.some.inj (hwork.symm.trans hw)
    rw [if_pos rfl] at hstate ⊢
    exact hkeep ⟨loader, .running read⟩ hwork hstate
  · rw [if_neg hni] at hstate ⊢
    exact hkeep w hw hstate

/-- Every loader makes its own read, whatever happens next. -/
theorem ReadsMade.trans {deps : RoutingDeps} {s u : ChainReads} {ev : ReadEvent}
    (h : ReadsMade deps s) (hinv : ReadsInv deps.chainReadTtlMs s) (hst : s.Trans deps ev u) :
    ReadsMade deps u := by
  cases hst with
  | call c times hlength => exact askAll_induction (fun s u h ha => h.asked ha) _ s h
  | readSucceeds i result loader read v hwork hvalue => exact h.readSucceeded hinv hwork v
  | readFails i loader read hwork => exact h.readFailed hinv hwork

/-! ## The asks of a turn -/

theorem births_started (ttlMs : Int) (s : ChainReads) (t : Int) (work : Work) :
    (s.started ttlMs t work).births = s.births ++ [(work.loader.key, t)] := by
  simp [started, TtlCache.start, births]

theorem loaders_started (ttlMs : Int) (s : ChainReads) (t : Int) (work : Work) :
    (s.started ttlMs t work).loaders = s.loaders ++ [work.loader] := by
  simp [started, loaders]

/-- The load of a stored entry is the last of its key. -/
theorem load_le_stored {ttlMs : Int} {s : ChainReads} (hreads : ReadsInv ttlMs s)
    (h : Recorded ttlMs s.births s.loaders s.asks) {key : CacheKey} {e : Entry CacheValue}
    (he : s.cache.store key = some e) {a : Ask} (ha : a ∈ s.asks) (hkey : a.key = key) :
    a.load ≤ e.load := by
  obtain ⟨t, hbirth, -⟩ := h.served a ha
  obtain ⟨l, hl, hlkey, -⟩ := getElem?_births.mp hbirth
  obtain ⟨l', hmade⟩ := hreads.coherent key e he
  by_contra hlt
  exact hmade.last a.load l (Nat.lt_of_not_le hlt) hl (hlkey.trans hkey)

theorem recorded_asked {deps : RoutingDeps} {s u : ChainReads}
    (hreads : ReadsInv deps.chainReadTtlMs s)
    (h : Recorded deps.chainReadTtlMs s.births s.loaders s.asks) (ha : Asked deps s u) :
    Recorded deps.chainReadTtlMs u.births u.loaders u.asks := by
  have hlength : s.cache.loads.length = s.births.length := by rw [births, List.length_map]
  have hstarted : ∀ (work : Work) (t : Int), (∀ j field, work.loader = .reading j field →
      ∃ t', s.births[j]? = some (field.awaited.key, t')) →
      Recorded deps.chainReadTtlMs (s.births ++ [(work.loader.key, t)]) (s.loaders ++ [work.loader])
        (s.started deps.chainReadTtlMs t work).asks := fun work t hawaited =>
    h.start (a := ⟨work.loader.key, t, s.cache.loads.length, s.cache.loads.length,
      s.failedReads⟩) work.loader hlength hlength hawaited
  cases ha with
  | served key t e hfresh =>
      obtain ⟨he, hlt⟩ := TtlCache.fresh_eq_some.mp hfresh
      obtain ⟨l, hmade⟩ := hreads.coherent key e he
      have hbirth : s.births[e.load]? = some (key, l.startedAt) :=
        getElem?_births.mpr ⟨l, hmade.load, hmade.key_eq, rfl⟩
      exact h.serve hbirth (hmade.expires ▸ hlt) fun b hb hkey =>
        load_le_stored hreads h he hb hkey
  | configured field t a hfresh hbegin =>
      have hbirths := (births_succeed
        (s.started deps.chainReadTtlMs t ⟨.address field, .unneeded⟩).cache
        s.cache.loads.length (.address a)).trans (births_started _ s t ⟨.address field, .unneeded⟩)
      have hloaders := loaders_started deps.chainReadTtlMs s t ⟨.address field, .unneeded⟩
      simp only [births, loaders] at hbirths hloaders ⊢
      rw [hbirths, hloaders]
      exact hstarted ⟨.address field, .unneeded⟩ t fun _ _ hl => by cases hl
  | resolving field t read hfresh hbegin =>
      rw [births_started, loaders_started]
      exact hstarted ⟨.address field, .running read⟩ t fun _ _ hl => by cases hl
  | reading field t e he =>
      rw [births_started, loaders_started]
      refine hstarted ⟨.reading e.load field, s.readOn e.load field⟩ t ?_
      rintro j field' ⟨⟩
      obtain ⟨l, hmade⟩ := hreads.coherent _ e he
      exact ⟨l.startedAt, getElem?_births.mpr ⟨l, hmade.load, hmade.key_eq, rfl⟩⟩

/-- The records grow with the asks alone. -/
theorem recorded_trans {deps : RoutingDeps} {s u : ChainReads} {ev : ReadEvent}
    (hreads : ReadsInv deps.chainReadTtlMs s)
    (h : Recorded deps.chainReadTtlMs s.births s.loaders s.asks) (hst : s.Trans deps ev u) :
    Recorded deps.chainReadTtlMs u.births u.loaders u.asks := by
  cases hst with
  | call c times hlength =>
      exact (askAll_induction (P := fun s => ReadsInv deps.chainReadTtlMs s
        ∧ Recorded deps.chainReadTtlMs s.births s.loaders s.asks)
        (fun _ _ h ha => ⟨h.1.asked ha, recorded_asked h.1 h.2 ha⟩) _ s ⟨hreads, h⟩).2
  | readSucceeds i result loader read v hwork hvalue =>
      have hbirths : (s.readSucceeded i read v).births = s.births := births_succeed s.cache i v
      rw [hbirths, loaders_readSucceeded]
      exact h
  | readFails i loader read hwork =>
      rw [births_readFailed, loaders_readFailed]
      exact h

end Service

end ChainReads

end GatewayConsole
