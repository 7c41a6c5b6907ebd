import GatewayConsole.ListWalk
import GatewayConsole.Routing

/-!
# The pool walk

`bondingManagerListPool` of `providers/chain/viem.ts`: the transcoders of the pool, from
the first by `getNextTranscoderInPool` to the zero address, each with its stake. Every
pointer is a read of its own, and nothing pins the reads to one block.

The pool on the chain is a list that others update between the reads. A walk that
returns need not be a snapshot of it: `not_snapshot_removal`. It is weakly consistent, as
iterators over a changing collection are: `PoolRun.WeaklyConsistent`.
-/

namespace GatewayConsole

def zeroAddress : String := "0x0000000000000000000000000000000000000000"

def poolWalkSafetyLimit : Nat := 1000

/-- The answers of a BondingManager, by the number of the read. Of the tuple of
`getDelegator` only the delegated amount is used. -/
structure PoolReads where
  getFirstTranscoderInPool : Nat → Except String String
  getDelegator : Nat → String → Except String Nat
  getNextTranscoderInPool : Nat → String → Except String String

def poolWalkExceeded : String :=
  s!"BondingManager pool walk exceeded {poolWalkSafetyLimit} entries; "
    ++ "aborting (likely a corrupt linked list)."

/-! ## Updates of the pool -/

inductive PoolUpdate where
  | insert (place : Nat) (a : String)
  | remove (a : String)
  | move (a : String) (place : Nat)
deriving Repr, DecidableEq

/-- No update moves an address or inserts one that has been in the pool. -/
def NoReturns : List String → List PoolUpdate → Prop
  | _, [] => True
  | seen, .insert _ a :: rest => a ∉ seen ∧ NoReturns (a :: seen) rest
  | seen, .remove _ :: rest => NoReturns seen rest
  | _, .move _ _ :: _ => False

/-- What has been in the pool after the updates. -/
def seenAfter : List String → List PoolUpdate → List String
  | seen, [] => seen
  | seen, .insert _ a :: rest => seenAfter (a :: seen) rest
  | seen, .remove _ :: rest => seenAfter seen rest
  | seen, .move _ _ :: rest => seenAfter seen rest

theorem noReturns_append (vs : List PoolUpdate) :
    ∀ (us : List PoolUpdate) (seen : List String),
      NoReturns seen (us ++ vs) ↔ NoReturns seen us ∧ NoReturns (seenAfter seen us) vs
  | [], _ => by simp [NoReturns, seenAfter]
  | .insert _ _ :: us, _ => by
      simp only [List.cons_append, NoReturns, seenAfter, noReturns_append vs us, and_assoc]
  | .remove _ :: us, _ => by
      simp only [List.cons_append, NoReturns, seenAfter, noReturns_append vs us]
  | .move _ _ :: us, _ => by simp [NoReturns]

theorem seenAfter_append (vs : List PoolUpdate) :
    ∀ (us : List PoolUpdate) (seen : List String),
      seenAfter seen (us ++ vs) = seenAfter (seenAfter seen us) vs
  | [], _ => rfl
  | .insert _ _ :: us, _ => seenAfter_append vs us _
  | .remove _ :: us, _ => seenAfter_append vs us _
  | .move _ _ :: us, _ => seenAfter_append vs us _

/-! ## The walk -/

section Walk

variable [Unicode]

/-- The loop, when `left` steps are left to the safety limit and the next read is `n`. -/
def poolWalk (reads : PoolReads) (left n : Nat) (addr : String) (out : List BondingPoolEntry) :
    Except String (List BondingPoolEntry) :=
  if toLowerCase addr = zeroAddress then .ok out
  else
    match left with
    | 0 => .error poolWalkExceeded
    | left + 1 => do
        let delegatedAmount ← reads.getDelegator n addr
        let next ← reads.getNextTranscoderInPool (n + 1) addr
        poolWalk reads left (n + 2) next
          (out ++ [{ address := addr, totalStakeWei := toString delegatedAmount }])

def bondingManagerListPool (reads : PoolReads) : Except String (List BondingPoolEntry) := do
  let addr ← reads.getFirstTranscoderInPool 0
  poolWalk reads poolWalkSafetyLimit 1 addr []

theorem toLowerCase_zeroAddress : toLowerCase zeroAddress = zeroAddress := by
  rw [toLowerCase_address (by decide)]
  decide

theorem poolWalk_zeroAddress (reads : PoolReads) (left n : Nat) (out : List BondingPoolEntry) :
    poolWalk reads left n zeroAddress out = .ok out := by
  unfold poolWalk
  exact if_pos toLowerCase_zeroAddress

end Walk

/-! ## The pool on the chain -/

/-- An address, and not the zero address. -/
def isTranscoder (a : String) : Bool := isEthAddress a && asciiLower a ≠ zeroAddress

/-- The transcoders of the pool in their order, which may be any, each address in the
one spelling that a read returns it in. -/
structure Pool where
  members : List String
  nodup : members.Nodup
  transcoder : ∀ a ∈ members, isTranscoder a = true

namespace Pool

def insertAt (p : Pool) (place : Nat) (a : String) : Pool :=
  if h : a ∉ p.members ∧ isTranscoder a = true then
    { members := p.members.take place ++ a :: p.members.drop place
      nodup := by
        rw [List.perm_middle.nodup_iff, List.take_append_drop]
        exact List.nodup_cons.mpr ⟨h.1, p.nodup⟩
      transcoder := by
        intro b hb
        rw [List.perm_middle.mem_iff, List.take_append_drop] at hb
        rcases List.mem_cons.mp hb with rfl | hb
        · exact h.2
        · exact p.transcoder b hb }
  else p

def removeOf (p : Pool) (a : String) : Pool where
  members := p.members.erase a
  nodup := p.nodup.erase a
  transcoder b hb := p.transcoder b (List.mem_of_mem_erase hb)

/-- What an update of the pool does; it does nothing where the contract would revert. -/
def apply (p : Pool) : PoolUpdate → Pool
  | .insert place a => p.insertAt place a
  | .remove a => p.removeOf a
  | .move a place => if a ∈ p.members then (p.removeOf a).insertAt place a else p

/-- The first transcoder, or the zero address. -/
def first (p : Pool) : String := p.members.head?.getD zeroAddress

/-- The transcoder after this one; the zero address, where there is none or this one is
not in the pool. -/
def next (p : Pool) (a : String) : String := (next? p.members a).getD zeroAddress

end Pool

/-- The pool when a walk begins, the updates between its read `n` and the next one, the
stakes at every read, and the reads that fail. -/
structure PoolRun where
  start : Pool
  updates : Nat → List PoolUpdate
  stakes : Nat → String → Nat
  fails : Nat → Option String

namespace PoolRun

/-- The pool at read `n`. -/
def poolAt (run : PoolRun) : Nat → Pool
  | 0 => run.start
  | n + 1 => (run.updates n).foldl Pool.apply (run.poolAt n)

def answer {α : Type} (run : PoolRun) (n : Nat) (a : α) : Except String α :=
  match run.fails n with
  | some message => .error message
  | none => .ok a

/-- Each read sees the latest state. -/
def reads (run : PoolRun) : PoolReads where
  getFirstTranscoderInPool n := run.answer n (run.poolAt n).first
  getDelegator n a := run.answer n (run.stakes n a)
  getNextTranscoderInPool n a := run.answer n ((run.poolAt n).next a)

/-- The pool that the read of a pointer sees, by the number of the pointer. -/
def pointerPool (run : PoolRun) (i : Nat) : List String := (run.poolAt (2 * i)).members

/-- The pools from the first read to the read `last`. -/
def Moment (run : PoolRun) (last : Nat) (p : Pool) : Prop :=
  ∃ n k, n ≤ last ∧ (n = last → k = 0)
    ∧ p = ((run.updates n).take k).foldl Pool.apply (run.poolAt n)

/-- What is listed is the pool at some single moment of the walk, with no address twice. -/
def Snapshot (run : PoolRun) (listed : List String) : Prop :=
  listed.Nodup ∧ ∃ p, run.Moment (2 * listed.length) p ∧ ∀ a, a ∈ listed ↔ a ∈ p.members

theorem answer_eq_ok {α : Type} {run : PoolRun} {n : Nat} {a b : α}
    (h : run.answer n a = .ok b) : b = a := by
  unfold answer at h
  split at h
  · cases h
  · exact (Except.ok.inj h).symm

/-! ## What the list is -/

/-- Insertions and removals keep the pool in one order. -/
theorem exists_order_foldl :
    ∀ {us : List PoolUpdate} {p : Pool} {order seen : List String},
      p.members.Sublist order → order.Nodup → (∀ x ∈ order, x ∈ seen) → NoReturns seen us →
      ∃ order', order'.Nodup ∧ order.Sublist order'
        ∧ (us.foldl Pool.apply p).members.Sublist order' ∧ ∀ x ∈ order', x ∈ seenAfter seen us
  | [], _, order, _, hp, hnodup, hseen, _ => ⟨order, hnodup, List.Sublist.refl _, hp, hseen⟩
  | .insert place a :: us, p, order, seen, hp, hnodup, hseen, ⟨ha, hus⟩ => by
      by_cases h : a ∉ p.members ∧ isTranscoder a = true
      · obtain ⟨order₁, hnodup₁, hsub, hinsert, hmem⟩ :=
          exists_order_insert hp hnodup (fun hmem => ha (hseen a hmem)) place
        have hseen₁ : ∀ x ∈ order₁, x ∈ a :: seen := by
          intro x hx
          rcases hmem x hx with rfl | hx
          · exact List.mem_cons_self ..
          · exact List.mem_cons_of_mem _ (hseen x hx)
        have hp₁ : (p.insertAt place a).members.Sublist order₁ := by
          rw [Pool.insertAt, dif_pos h]
          exact hinsert
        obtain ⟨order₂, hnodup₂, hsub₂, hrest⟩ := exists_order_foldl hp₁ hnodup₁ hseen₁ hus
        exact ⟨order₂, hnodup₂, hsub.trans hsub₂, hrest⟩
      · have hp₁ : p.insertAt place a = p := dif_neg h
        obtain ⟨order₂, hrest⟩ :=
          exists_order_foldl hp hnodup (fun x hx => List.mem_cons_of_mem a (hseen x hx)) hus
        refine ⟨order₂, ?_⟩
        rw [List.foldl_cons, Pool.apply, hp₁]
        exact hrest
  | .remove a :: us, p, order, seen, hp, hnodup, hseen, hus =>
      exists_order_foldl (p := p.removeOf a) ((List.erase_sublist ..).trans hp) hnodup hseen hus
  | .move _ _ :: _, _, _, _, _, _, _, hus => hus.elim

/-- All updates before a read. -/
def updatesBefore (run : PoolRun) (n : Nat) : List PoolUpdate :=
  (List.range n).flatMap run.updates

/-- Until the read, no update moves an address or inserts one that has been in the pool
since the walk began. -/
def KeepsPlaces (run : PoolRun) (last : Nat) : Prop :=
  NoReturns run.start.members (run.updatesBefore last)

theorem KeepsPlaces.exists_order {run : PoolRun} {last : Nat} (h : run.KeepsPlaces last) :
    ∃ order : List String, order.Nodup ∧ (∀ n ≤ last, (run.poolAt n).members.Sublist order)
      ∧ ∀ x ∈ order, x ∈ seenAfter run.start.members (run.updatesBefore last) := by
  induction last with
  | zero =>
      refine ⟨run.start.members, run.start.nodup, fun n hn => ?_, fun x hx => hx⟩
      obtain rfl := Nat.le_zero.mp hn
      exact List.Sublist.refl _
  | succ last ih =>
      have hsplit : run.updatesBefore (last + 1) = run.updatesBefore last ++ run.updates last := by
        simp [updatesBefore, List.range_succ]
      rw [KeepsPlaces, hsplit, noReturns_append] at h
      obtain ⟨order, hnodup, hsub, hseen⟩ := ih h.1
      obtain ⟨order', hnodup', hsub', hlast, hseen'⟩ :=
        exists_order_foldl (hsub last (Nat.le_refl _)) hnodup hseen h.2
      refine ⟨order', hnodup', fun n hn => ?_, ?_⟩
      · rcases Nat.lt_or_eq_of_le hn with hlt | rfl
        · exact (hsub n (Nat.le_of_lt_succ hlt)).trans hsub'
        · exact hlast
      · rw [hsplit, seenAfter_append]
        exact hseen'

/-- The walk as a reader sees it. Every address was in the pool when it was read. Where
updates only insert newcomers and remove, none is listed twice, and none that stays is
missing, unless a listed one is removed before its successor is read. Without updates
the list is the pool. -/
structure WeaklyConsistent (run : PoolRun) (listed : List String) : Prop where
  member : ∀ i a, listed[i]? = some a → a ∈ run.pointerPool i
  once : run.KeepsPlaces (2 * listed.length) → listed.Nodup
  complete : run.KeepsPlaces (2 * listed.length) →
    (∀ i a, listed[i]? = some a → a ∈ run.pointerPool (i + 1)) →
    ∀ a, (∀ i ≤ listed.length, a ∈ run.pointerPool i) → a ∈ listed
  frozen : (∀ n < 2 * listed.length, run.updates n = []) → listed = run.start.members

theorem weaklyConsistent_of_walked {run : PoolRun} {listed : List String}
    (h : Walked run.pointerPool 0 (run.pointerPool 0).head? listed) :
    run.WeaklyConsistent listed := by
  cases hpool : run.pointerPool 0 with
  | nil =>
      rw [hpool] at h
      obtain rfl : listed = [] := by
        cases listed with
        | nil => rfl
        | cons a rest => cases h.1
      refine ⟨fun i a ha => (by cases ha), fun _ => List.nodup_nil, fun _ _ a ha => ?_,
        fun _ => hpool.symm⟩
      have := ha 0 (Nat.le_refl _)
      rwa [hpool] at this
  | cons first rest =>
      rw [hpool] at h
      have hfirst : ∀ a, (first :: rest).head? = some a → a ∈ run.pointerPool 0 := by
        rintro a ⟨⟩
        rw [hpool]
        exact List.mem_cons_self ..
      -- where the first address stands in an order of all pools, and what comes after it
      have hplace : run.KeepsPlaces (2 * listed.length) →
          ∃ order xs ys : List String, order.Nodup ∧ order = xs ++ first :: ys
            ∧ rest.Sublist ys ∧ ∀ m ≤ listed.length, (run.pointerPool m).Sublist order := by
        intro hkeeps
        obtain ⟨order, hnodup, hsub, -⟩ := hkeeps.exists_order
        have hpools : ∀ m ≤ listed.length, (run.pointerPool m).Sublist order :=
          fun m hm => hsub (2 * m) (by omega)
        have h₀ := hpools 0 (Nat.zero_le _)
        rw [hpool] at h₀
        obtain ⟨xs, ys, rfl⟩ := List.append_of_mem (h₀.subset (List.mem_cons_self ..))
        exact ⟨_, xs, ys, hnodup, rfl, sublist_after h₀ (notMem_of_nodup_middle hnodup).1, hpools⟩
      refine ⟨?_, ?_, ?_, ?_⟩
      · intro i a ha
        have hmem := h.mem hfirst i a ha
        rwa [Nat.zero_add] at hmem
      · intro hkeeps
        obtain ⟨order, xs, ys, hnodup, heq, -, hpools⟩ := hplace hkeeps
        have hsub := h.sublist hnodup heq fun m _ hm => hpools m (by omega)
        rw [heq] at hnodup
        exact hsub.nodup hnodup.of_append_right
      · intro hkeeps hkept a ha
        obtain ⟨order, xs, ys, hnodup, heq, hrest, hpools⟩ := hplace hkeeps
        have ha₀ := ha 0 (Nat.zero_le _)
        rw [hpool] at ha₀
        refine h.mem_visited hnodup heq ?_ (fun m _ hm => ⟨hpools m (by omega), ha m (by omega)⟩)
          fun i b hb => ?_
        · rcases List.mem_cons.mp ha₀ with rfl | ha₀
          · exact List.mem_cons_self ..
          · exact List.mem_cons_of_mem _ (hrest.subset ha₀)
        · rw [Nat.zero_add]
          exact hkept i b hb
      · intro hfrozen
        have hstays : ∀ n ≤ 2 * listed.length, run.poolAt n = run.start := by
          intro n
          induction n with
          | zero => exact fun _ => rfl
          | succ n ih =>
              intro hn
              rw [poolAt, hfrozen n hn, List.foldl_nil, ih (by omega)]
        have hstart : run.start.members = first :: rest := hpool
        have hsplit : first :: rest = [] ++ first :: rest := (List.nil_append _).symm
        rw [hstart]
        refine h.eq_of_frozen (hstart ▸ run.start.nodup) hsplit fun m _ hm => ?_
        rw [pointerPool, hstays (2 * m) (by omega), hstart]

section Walk

variable [Unicode]

theorem toLowerCase_ne_zeroAddress {a : String} (h : isTranscoder a = true) :
    toLowerCase a ≠ zeroAddress := by
  simp only [isTranscoder, Bool.and_eq_true, decide_eq_true_eq] at h
  rw [toLowerCase_address h.1]
  exact h.2

/-- The walk of the loop is a walk of the pools that its pointer reads see; the zero
address stands for no cursor. -/
theorem walked_of_poolWalk {run : PoolRun} :
    ∀ (left k : Nat) (cursor : Option String) {out res : List BondingPoolEntry},
      (∀ a, cursor = some a → isTranscoder a = true) →
      poolWalk run.reads left (2 * k + 1) (cursor.getD zeroAddress) out = .ok res →
      ∃ visited : List BondingPoolEntry, res = out ++ visited
        ∧ Walked run.pointerPool k cursor (visited.map (·.address)) := by
  intro left
  induction left with
  | zero =>
      intro k cursor out res hcursor h
      cases cursor with
      | none =>
          rw [Option.getD_none, poolWalk_zeroAddress] at h
          exact ⟨[], by simpa using (Except.ok.inj h).symm, rfl⟩
      | some a =>
          rw [Option.getD_some, poolWalk, if_neg (toLowerCase_ne_zeroAddress (hcursor a rfl))] at h
          cases h
  | succ left ih =>
      intro k cursor out res hcursor h
      cases cursor with
      | none =>
          rw [Option.getD_none, poolWalk_zeroAddress] at h
          exact ⟨[], by simpa using (Except.ok.inj h).symm, rfl⟩
      | some a =>
          rw [Option.getD_some, poolWalk, if_neg (toLowerCase_ne_zeroAddress (hcursor a rfl))] at h
          obtain ⟨amount, hamount, h⟩ := except_bind_eq_ok.mp h
          obtain ⟨next, hnext, h⟩ := except_bind_eq_ok.mp h
          obtain rfl := answer_eq_ok hnext
          obtain ⟨visited, rfl, hwalked⟩ := ih (k + 1)
            (next? (run.pointerPool (k + 1)) a)
            (fun b hb => (run.poolAt (2 * (k + 1))).transcoder b (mem_of_next? hb)) h
          exact ⟨⟨a, toString amount⟩ :: visited, by simp, rfl, hwalked⟩

theorem walked_of_listPool {run : PoolRun} {out : List BondingPoolEntry}
    (h : bondingManagerListPool run.reads = .ok out) :
    Walked run.pointerPool 0 (run.pointerPool 0).head? (out.map (·.address)) := by
  obtain ⟨addr, haddr, h⟩ := except_bind_eq_ok.mp h
  obtain rfl := answer_eq_ok haddr
  obtain ⟨visited, rfl, hwalked⟩ := walked_of_poolWalk _ 0 (run.pointerPool 0).head?
    (fun a ha => (run.poolAt 0).transcoder a (List.mem_of_head? ha)) h
  exact hwalked

/-- **A walk that returns is weakly consistent**, whatever updates fall between its
reads. -/
theorem listPool_weaklyConsistent {run : PoolRun} {out : List BondingPoolEntry}
    (h : bondingManagerListPool run.reads = .ok out) :
    run.WeaklyConsistent (out.map (·.address)) :=
  weaklyConsistent_of_walked (walked_of_listPool h)

end Walk

end PoolRun

/-! ## A pool of three -/

def three : Pool where
  members :=
    ["0x00000000000000000000000000000000000000a1", "0x00000000000000000000000000000000000000b2",
      "0x00000000000000000000000000000000000000c3"]
  nodup := by decide
  transcoder := by decide

/-- The stakes that put the three in their order. -/
def threeStakes (_ : Nat) (a : String) : Nat :=
  if a = "0x00000000000000000000000000000000000000a1" then 3000
  else if a = "0x00000000000000000000000000000000000000b2" then 2000
  else 1000

/-- A newcomer comes last while the first address is at hand. -/
def newcomer : PoolRun where
  start := three
  updates n := if n = 1 then [.insert 3 "0x00000000000000000000000000000000000000d4"] else []
  stakes := threeStakes
  fails _ := none

/-- The walk lists the newcomer, and with it the pool as it then is. -/
theorem listPool_weaklyConsistent_newcomer :
    newcomer.WeaklyConsistent
      ["0x00000000000000000000000000000000000000a1", "0x00000000000000000000000000000000000000b2",
        "0x00000000000000000000000000000000000000c3",
        "0x00000000000000000000000000000000000000d4"] :=
  @PoolRun.listPool_weaklyConsistent asciiUnicode newcomer
    [⟨"0x00000000000000000000000000000000000000a1", "3000"⟩,
      ⟨"0x00000000000000000000000000000000000000b2", "2000"⟩,
      ⟨"0x00000000000000000000000000000000000000c3", "1000"⟩,
      ⟨"0x00000000000000000000000000000000000000d4", "1000"⟩] (by decide)

/-- The first address leaves the pool before its successor is read. -/
def removal : PoolRun where
  start := three
  updates n := if n = 1 then [.remove "0x00000000000000000000000000000000000000a1"] else []
  stakes := threeStakes
  fails _ := none

/-- The list ends after the address that was removed; two stay in the pool throughout. -/
theorem not_snapshot_removal :
    @bondingManagerListPool asciiUnicode removal.reads
        = .ok [⟨"0x00000000000000000000000000000000000000a1", "3000"⟩]
      ∧ ¬removal.Snapshot ["0x00000000000000000000000000000000000000a1"] := by
  refine ⟨by decide, ?_⟩
  rintro ⟨-, _, ⟨n, k, hn, -, rfl⟩, hsame⟩
  have hstays : ∀ n ≤ 2, ∀ k ≤ 1,
      "0x00000000000000000000000000000000000000b2"
        ∈ (((removal.updates n).take k).foldl Pool.apply (removal.poolAt n)).members := by
    decide
  have hone : (removal.updates n).length ≤ 1 := by
    simp only [removal]
    split <;> simp
  have hmem := hstays n hn (min k 1) (Nat.min_le_right ..)
  rw [show (removal.updates n).take (min k 1) = (removal.updates n).take k by
    rw [← List.take_take, List.take_of_length_le hone]] at hmem
  exact absurd ((hsame _).mpr hmem) (by decide)

end GatewayConsole
