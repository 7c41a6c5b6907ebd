import GatewayConsole.ChainReads

/-!
# Failed chain reads

What `routing/index.ts` says of its cache, that negative results are not cached, over
every run of calls and reads. A read that throws takes the entry of its load away, and
the entries of the loads that wait for it. The read of a serviceURI does not get that
far: the loader catches it and returns null, which the cache keeps like any value, so
that a read that has failed answers calls until the entry expires.

A load is computed from its own read and from the one of the load it awaited
(`ComputedFrom`). An ask records which reads had failed when it was made, so that what
it must not be served from is fixed with it, and the property of a run is one of the
asks in its last state.
-/

namespace GatewayConsole

theorem getElem?_of_isPrefix {α : Type} {xs ys : List α} (h : xs <+: ys) {i : Nat} {x : α}
    (hx : xs[i]? = some x) : ys[i]? = some x := by
  obtain ⟨zs, rfl⟩ := h
  rw [List.getElem?_append_left (List.getElem?_eq_some_iff.mp hx).1]
  exact hx

namespace ChainReads

def loaders (s : ChainReads) : List Loader := s.works.map (·.loader)

theorem getElem?_loaders {s : ChainReads} {i : Nat} {loader : Loader} :
    s.loaders[i]? = some loader ↔ ∃ w, s.works[i]? = some w ∧ w.loader = loader := by
  simp [loaders]

/-- A load that has a value has been fulfilled. -/
theorem fulfilled_of_valueOf {s : ChainReads} {i : Nat} {v : CacheValue}
    (h : s.valueOf i = some v) :
    ∃ l, s.cache.loads[i]? = some l ∧ l.outcome = .fulfilled v := by
  obtain ⟨l, hl, hv⟩ := Option.bind_eq_some_iff.mp h
  refine ⟨l, hl, ?_⟩
  cases ho : l.outcome with
  | fulfilled v' =>
      rw [ho] at hv
      exact congrArg _ (Option.some.inj hv)
  | pending => rw [ho] at hv; cases hv
  | rejected => rw [ho] at hv; cases hv

theorem length_loaders (s : ChainReads) : s.loaders.length = s.works.length := by
  simp [loaders]

theorem map_loader_modify (works : List Work) (n : Nat) (read : ReadState) :
    (works.modify n fun w => { w with read }).map (·.loader) = works.map (·.loader) := by
  refine List.ext_getElem? fun i => ?_
  simp only [List.getElem?_map, List.getElem?_modify, Option.map_eq_map, Option.map_map]
  refine congrArg (Option.map · _) (funext fun w => ?_)
  simp only [Function.comp_apply]
  split <;> rfl

theorem loaders_readSucceeded (s : ChainReads) (n : Nat) (read : ChainRead) (v : CacheValue) :
    (s.readSucceeded n read v).loaders = s.loaders := by
  have hresume : (fun w => (Work.resume n v w).loader) = (·.loader) :=
    funext (Work.loader_resume n v)
  simp only [loaders, readSucceeded, List.map_map, Function.comp_def, hresume]
  exact map_loader_modify s.works n (.succeeded read)

theorem loaders_readFailed (s : ChainReads) (n : Nat) (loader : Loader) (read : ChainRead) :
    (s.readFailed n loader read).loaders = s.loaders :=
  map_loader_modify s.works n (.failed read)

/-- The end of a read stores no entry. -/
theorem stored_of_readSucceeded {s : ChainReads} {n : Nat} {read : ChainRead} {v : CacheValue}
    {key : CacheKey} {e' : Entry CacheValue}
    (h : (s.readSucceeded n read v).cache.store key = some e') :
    ∃ e, s.cache.store key = some e ∧ e.load = e'.load := by
  obtain ⟨e, he, rfl⟩ := Option.map_eq_some_iff.mp h
  exact ⟨e, he, by split <;> rfl⟩

theorem stored_of_readFailed {s : ChainReads} {n : Nat} {loader : Loader} {read : ChainRead}
    {key : CacheKey} {e' : Entry CacheValue}
    (h : (s.readFailed n loader read).cache.store key = some e') :
    ∃ e, s.cache.store key = some e ∧ e.load = e'.load := by
  simp only [readFailed] at h
  cases hcaught : loader.caught with
  | some v =>
      rw [hcaught] at h
      obtain ⟨e, he, rfl⟩ := Option.map_eq_some_iff.mp h
      exact ⟨e, he, by split <;> rfl⟩
  | none =>
      rw [hcaught] at h
      exact ⟨e', TtlCache.store_of_failAll h, rfl⟩

end ChainReads

/-- The reads a load is computed from: its own, and that of the load it awaited. -/
def ComputedFrom (loaders : List Loader) (i r : Nat) : Prop :=
  r = i ∨ ∃ field, loaders[i]? = some (.reading r field)

/-- A `readServiceUri` that fails finds the entry of its load gone. -/
def EntryGone (s : ChainReads) (ev : ReadEvent) : Prop :=
  ∀ i awaited orch read, ev = .readFails i →
    s.works[i]? = some ⟨.reading awaited (.serviceUri orch), read⟩ →
    ∀ key e, s.cache.store key = some e → e.load ≠ i

theorem EntryGone.of_caught {s : ChainReads} {i : Nat} (h : EntryGone s (.readFails i)) {w : Work}
    (hwork : s.works[i]? = some w) {v : CacheValue} (hcaught : w.loader.caught = some v)
    {key : CacheKey} {e : Entry CacheValue} (he : s.cache.store key = some e) : e.load ≠ i := by
  obtain ⟨loader, read⟩ := w
  cases loader with
  | address field => cases hcaught
  | reading awaited field =>
      cases field with
      | poolStakeMap => cases hcaught
      | serviceUri orch => exact h i awaited orch read rfl hwork key e he

section Service

variable [Unicode]

/-! ## What an ask is served from -/

/-- The load that serves the ask is the last of its key, and none of the reads it is
computed from had failed. -/
structure AskOK (loaders : List Loader) (a : Ask) : Prop where
  load_lt : a.load < loaders.length
  base_le : a.base ≤ loaders.length
  key_eq : ∀ loader, loaders[a.load]? = some loader → loader.key = a.key
  clean : ∀ r, ComputedFrom loaders a.load r → r ∉ a.failed
  last : ∀ j loader, a.load < j → j < a.base → loaders[j]? = some loader → loader.key ≠ a.key

/-- What starts later changes nothing. -/
theorem AskOK.append {loaders : List Loader} {a : Ask} (h : AskOK loaders a) (loader : Loader) :
    AskOK (loaders ++ [loader]) a := by
  have hget : ∀ i < loaders.length, (loaders ++ [loader])[i]? = loaders[i]? :=
    fun i hi => List.getElem?_append_left hi
  refine ⟨?_, ?_, ?_, ?_, ?_⟩
  · exact Nat.lt_of_lt_of_le h.load_lt (by simp)
  · exact Nat.le_trans h.base_le (by simp)
  · rw [hget _ h.load_lt]
    exact h.key_eq
  · intro r hr
    rw [ComputedFrom, hget _ h.load_lt] at hr
    exact h.clean r hr
  · intro j loader' hlt hj hget'
    rw [hget j (Nat.lt_of_lt_of_le hj h.base_le)] at hget'
    exact h.last j loader' hlt hj hget'

namespace ChainReads

/-- No entry is stored whose loader has caught a failed read. -/
structure CleanInv (ttlMs : Int) (s : ChainReads) : Prop where
  reads : ReadsInv ttlMs s
  asks : ∀ a ∈ s.asks, AskOK s.loaders a
  kept : ∀ key e w, s.cache.store key = some e → s.works[e.load]? = some w →
    w.loader.caught ≠ none → w.read.isFailed = false

/-- The load of a stored entry is computed from reads that have not failed. -/
theorem CleanInv.computedFrom_stored {ttlMs : Int} {s : ChainReads} (h : CleanInv ttlMs s)
    {key : CacheKey} {e : Entry CacheValue} (he : s.cache.store key = some e) {r : Nat}
    (hr : ComputedFrom s.loaders e.load r) : r ∉ s.failedReads := by
  obtain ⟨w, l, hat, -, hlive⟩ := h.reads.at_of_stored he
  intro hfailed
  obtain ⟨w', hw', hf⟩ := mem_failedReads.mp hfailed
  rcases hr with rfl | ⟨field, hloader⟩
  · obtain rfl := Option.some.inj (hat.work.symm.trans hw')
    by_cases hc : w.loader.caught = none
    · exact hlive ((h.reads.fits _ _ _ hat).thrown hf hc)
    · rw [h.kept key e w he hat.work hc] at hf
      cases hf
  · obtain ⟨w'', hw'', hloader⟩ := getElem?_loaders.mp hloader
    obtain rfl := Option.some.inj (hat.work.symm.trans hw'')
    obtain ⟨awaited, hr, ha⟩ := h.reads.awaits _ _ _ hat r field hloader
    obtain rfl := Option.some.inj (hr.symm.trans hw')
    exact hlive (ha.doomed hf)

theorem CleanInv.served {ttlMs : Int} {s : ChainReads} (h : CleanInv ttlMs s) {key : CacheKey}
    {t : Int} {e : Entry CacheValue} (he : s.cache.store key = some e) :
    CleanInv ttlMs (s.served key t e) := by
  obtain ⟨w, l, hat, hkey, -⟩ := h.reads.at_of_stored he
  refine ⟨h.reads.served key t e, ?_, h.kept⟩
  intro a ha
  rcases List.mem_append.mp ha with hold | hnew
  · exact h.asks a hold
  obtain rfl := List.mem_singleton.mp hnew
  refine ⟨?_, ?_, ?_, fun r hr => h.computedFrom_stored he hr, ?_⟩
  · rw [length_loaders]
    exact (List.getElem?_eq_some_iff.mp hat.work).1
  · rw [length_loaders]
    exact Nat.le_of_eq h.reads.length.symm
  · intro loader hloader
    obtain ⟨w', hw', rfl⟩ := getElem?_loaders.mp hloader
    obtain rfl := Option.some.inj (hat.work.symm.trans hw')
    exact hkey
  · intro j loader hlt hj hloader hk
    obtain ⟨w', hw', rfl⟩ := getElem?_loaders.mp hloader
    obtain ⟨l', hat'⟩ := h.reads.at_of_work hw'
    obtain ⟨m, hmade⟩ := h.reads.coherent key e he
    exact hmade.last j l' hlt hat'.load ((h.reads.fits _ _ _ hat').key_eq.trans hk)

/-- A load that starts is computed from reads that have not failed. -/
theorem CleanInv.append {ttlMs : Int} {s u : ChainReads} (h : CleanInv ttlMs s) {work : Work}
    {t : Int} (hreads : ReadsInv ttlMs u) (hworks : u.works = s.works ++ [work])
    (hasks : u.asks = (s.started ttlMs t work).asks)
    (hstore : ∀ key e', u.cache.store key = some e' →
      e'.load = s.works.length ∨ ∃ e, s.cache.store key = some e ∧ e.load = e'.load)
    (hread : work.read.isFailed = false)
    (hawaited : ∀ j field, work.loader = .reading j field → j ∉ s.failedReads) :
    CleanInv ttlMs u := by
  have hloaders : u.loaders = s.loaders ++ [work.loader] := by simp [loaders, hworks]
  refine ⟨hreads, ?_, ?_⟩
  · intro a ha
    rw [hasks] at ha
    rw [hloaders]
    rcases List.mem_append.mp ha with hold | hnew
    · exact (h.asks a hold).append _
    obtain rfl := List.mem_singleton.mp hnew
    have hlen : s.cache.loads.length = s.loaders.length := by
      rw [length_loaders, h.reads.length]
    have hget : (s.loaders ++ [work.loader])[s.cache.loads.length]? = some work.loader := by
      rw [hlen]
      simp
    refine ⟨by simp [hlen], by simp [hlen], ?_, ?_, ?_⟩
    · intro loader hloader
      obtain rfl := Option.some.inj (hget.symm.trans hloader)
      rfl
    · intro r hr hfailed
      rcases hr with rfl | ⟨field, hloader⟩
      · obtain ⟨w, hw, -⟩ := mem_failedReads.mp hfailed
        have hlt := (List.getElem?_eq_some_iff.mp hw).1
        rw [h.reads.length] at hlt
        exact Nat.lt_irrefl _ hlt
      · exact hawaited r field (Option.some.inj (hget.symm.trans hloader)) hfailed
    · intro j loader hlt hj
      exact absurd hlt (Nat.lt_asymm hj)
  · intro key e' w he' hw hc
    rw [hworks] at hw
    rcases hstore key e' he' with hnew | ⟨e, he, hload⟩
    · rw [hnew, List.getElem?_append_right (Nat.le_refl _), Nat.sub_self] at hw
      obtain rfl : work = w := Option.some.inj hw
      exact hread
    · obtain ⟨w', l, hat, -, -⟩ := h.reads.at_of_stored he
      rw [← hload, List.getElem?_append_left (List.getElem?_eq_some_iff.mp hat.work).1] at hw
      exact h.kept key e w he hw hc

theorem CleanInv.asked {deps : RoutingDeps} {s u : ChainReads}
    (h : CleanInv deps.chainReadTtlMs s) (ha : Asked deps s u) :
    CleanInv deps.chainReadTtlMs u := by
  have hreads := h.reads.asked ha
  have hstart : ∀ (t : Int) (k key : CacheKey) (e' : Entry CacheValue),
      (s.cache.start deps.chainReadTtlMs k t).store key = some e' →
      e'.load = s.works.length ∨ ∃ e, s.cache.store key = some e ∧ e.load = e'.load := by
    intro t k key e' he'
    rw [TtlCache.store_start] at he'
    by_cases hk : key = k
    · rw [hk, Function.update_self] at he'
      exact Or.inl (by rw [← Option.some.inj he', h.reads.length])
    · rw [Function.update_of_ne hk] at he'
      exact Or.inr ⟨e', he', rfl⟩
  cases ha with
  | served key t e hfresh => exact h.served (TtlCache.fresh_eq_some.mp hfresh).1
  | configured field t a hfresh hbegin =>
      refine h.append (t := t) hreads rfl rfl ?_ rfl fun j f hl => (by cases hl)
      intro key e' he'
      obtain ⟨e, he, rfl⟩ := Option.map_eq_some_iff.mp he'
      have := hstart t field.key key e he
      split <;> exact this
  | resolving field t read hfresh hbegin =>
      exact h.append (t := t) hreads rfl rfl (hstart t field.key) rfl fun j f hl => (by cases hl)
  | reading field t e hstored =>
      refine h.append (t := t) hreads rfl rfl (hstart t field.key) ?_ ?_
      · simp only [readOn]
        split <;> rfl
      · rintro j field' ⟨⟩
        exact h.computedFrom_stored hstored (Or.inl rfl)

theorem CleanInv.readSucceeded {ttlMs : Int} {s : ChainReads} (h : CleanInv ttlMs s) {n : Nat}
    {loader : Loader} {read : ChainRead} (hwork : s.works[n]? = some ⟨loader, .running read⟩)
    (v : CacheValue) : CleanInv ttlMs (s.readSucceeded n read v) := by
  have hreads := h.reads.readSucceeded hwork v
  refine ⟨hreads, ?_, ?_⟩
  · rw [loaders_readSucceeded]
    exact h.asks
  · intro key e' w' he' hw' hc
    obtain ⟨l', hat'⟩ := hreads.at_of_work hw'
    obtain ⟨w, l, hat, rfl, -⟩ := at_readSucceeded hat'
    obtain ⟨e, he, hload⟩ := stored_of_readSucceeded he'
    rw [← hload] at hat hc ⊢
    rw [Work.loader_resume] at hc
    rw [(Work.read_resume n v _).1]
    by_cases hn : n = e.load
    · rw [if_pos hn]
      rfl
    · rw [if_neg hn] at hc ⊢
      exact h.kept key e w he hat.work hc

theorem CleanInv.readFailed {ttlMs : Int} {s : ChainReads} (h : CleanInv ttlMs s) {n : Nat}
    {loader : Loader} {read : ChainRead} (hwork : s.works[n]? = some ⟨loader, .running read⟩)
    (hgone : EntryGone s (.readFails n)) : CleanInv ttlMs (s.readFailed n loader read) := by
  have hreads := h.reads.readFailed hwork
  refine ⟨hreads, ?_, ?_⟩
  · rw [loaders_readFailed]
    exact h.asks
  · intro key e' w' he' hw' hc
    obtain ⟨l', hat'⟩ := hreads.at_of_work hw'
    obtain ⟨w, l, hat, rfl, -⟩ := at_readFailed hat'
    obtain ⟨e, he, hload⟩ := stored_of_readFailed he'
    rw [← hload] at hat hc ⊢
    by_cases hn : n = e.load
    · subst hn
      obtain rfl := Option.some.inj (hwork.symm.trans hat.work)
      rw [if_pos rfl] at hc
      obtain ⟨v, hv⟩ := Option.ne_none_iff_exists'.mp hc
      exact absurd rfl (hgone.of_caught hwork hv he)
    · rw [if_neg hn] at hc ⊢
      exact h.kept key e w he hat.work hc

/-! ## The run -/

end ChainReads

end Service

/-! ## A serviceURI that is read in vain -/

def thirtySeconds : RoutingDeps where
  controllerAddress := "0xc0"
  serviceRegistryAddress := none
  chainReadTtlMs := 30000

end GatewayConsole
