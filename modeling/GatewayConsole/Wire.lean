import Mathlib.Data.List.Forall2
import Mathlib.Data.List.Nodup
import Mathlib.Data.List.Pairwise
import Mathlib.Tactic.Ring

/-!
# Messages on a wire of tagged fields

A message is written as a sequence of records, each a tag and a value, and read back in a
loop that looks a tag up among the fields of the message. What a value looks like is left to
the reader and the writer (`BinaryWire`); a message type is the list of its fields
(`MessageFns`).

`Renders` is what a reader may meet of a message: records of its fields in any order, of a
single value any number of them, of which the last one counts, with records of fields it does
not have anywhere between, and the same again in every message inside it. `decode` reads
every rendering as the message (`MessageFns.decode_renders`), and `encode` writes one of a
message that has a rendering.
-/

namespace GatewayConsole

abbrev Bytes := List UInt8

/-- One kind of value: a writer, which throws on some values, and a reader, which leaves the
rest. `Renders` says which bytes stand for a value, `lossless` for which values the written
ones do, and `skip` jumps over a value that is not read. -/
structure Scalar (skip : Nat → Bytes → Option Bytes) {α : Type} (lossless : α → Prop) where
  wireType : Nat
  write : α → Option Bytes
  read : Bytes → Option (α × Bytes)
  Renders : α → Bytes → Prop
  renders_write : ∀ {v : α} {b : Bytes}, write v = some b → lossless v → Renders v b
  read_renders : ∀ {v : α} {b : Bytes}, Renders v b → ∀ rest, read (b ++ rest) = some (v, rest)
  skip_renders : ∀ {v : α} {b : Bytes}, Renders v b →
    ∀ rest, skip wireType (b ++ rest) = some rest

/-- A writer that throws on the values that fail a check. -/
def Scalar.checked {skip : Nat → Bytes → Option Bytes} {α : Type} {lossless : α → Prop}
    (s : Scalar skip lossless) (ok : α → Bool) : Scalar skip lossless where
  wireType := s.wireType
  write v := if ok v then s.write v else none
  read := s.read
  Renders := s.Renders
  renders_write {v b} hw hv := by
    split at hw
    · exact s.renders_write hw hv
    · cases hw
  read_renders := s.read_renders
  skip_renders := s.skip_renders

/-- A text that does not begin with U+FEFF, which a text decoder takes for a byte order
mark and drops. -/
def Unmarked (s : String) : Prop := s.toList.head? ≠ some (Char.ofNat 0xFEFF)

instance (s : String) : Decidable (Unmarked s) := inferInstanceAs (Decidable (_ ≠ _))

/-- The values a binary reader and writer know. A text loses a byte order mark in front;
every other value comes back. A value in range is written, in the room a varint takes. -/
class BinaryWire where
  skip : Nat → Bytes → Option Bytes
  uint32 : Scalar skip fun _ : Nat => True
  int32 : Scalar skip fun _ : Int => True
  int64 : Scalar skip fun _ : Int => True
  bool : Scalar skip fun _ : Bool => True
  string : Scalar skip Unmarked
  bytes : Scalar skip fun _ : Bytes => True
  uint32_write : ∀ {n : Nat}, n < 2 ^ 32 → ∃ b, uint32.write n = some b ∧ b.length ≤ 5
  int32_write : ∀ {v : Int}, -2 ^ 31 ≤ v → v < 2 ^ 31 →
    ∃ b, int32.write v = some b ∧ b.length ≤ 10
  int64_write : ∀ {v : Int}, -2 ^ 63 ≤ v → v < 2 ^ 63 →
    ∃ b, int64.write v = some b ∧ b.length ≤ 10
  bool_write : ∀ v : Bool, ∃ b, bool.write v = some b
  string_write : ∀ {s : String}, s.utf8ByteSize < 2 ^ 32 → ∃ b, string.write s = some b
  uint32_ne_nil : ∀ {n : Nat} {b : Bytes}, uint32.write n = some b → b ≠ []
  /-- A value behind its length is passed over as a whole. -/
  skip_delimited : ∀ {b len : Bytes}, uint32.write b.length = some len →
    ∀ rest, skip 2 (len ++ b ++ rest) = some rest

/-! ## Fields -/

/-- The value after the updates, in order. -/
def applyAll {α : Type} (us : List (α → α)) (v : α) : α := us.foldl (fun acc u => u acc) v

@[simp] theorem applyAll_nil {α : Type} (v : α) : applyAll [] v = v := rfl

@[simp] theorem applyAll_cons {α : Type} (u : α → α) (us : List (α → α)) (v : α) :
    applyAll (u :: us) v = applyAll us (u v) := rfl

/-- Reading a field from each of the values makes the updates. -/
def TakesAll {α : Type} (take : Bytes → Option ((α → α) × Bytes)) (ps : List Bytes)
    (us : List (α → α)) : Prop :=
  List.Forall₂ (fun p u => ∀ rest, take (p ++ rest) = some (u, rest)) ps us

/-- A field of a message: what the message has in it, the values that are written of that,
each behind the tag, and what one value read does to it. -/
structure MessageField (M : Type) where
  Value : Type
  get : M → Value
  set : Value → M → M
  zero : Value
  tag : Nat
  put : Value → Option (List Bytes)
  take : Bytes → Option ((Value → Value) × Bytes)
  Renders : Value → List Bytes → Prop
  lossless : Value → Prop
  renders_put : ∀ {v : Value} {ps : List Bytes}, put v = some ps → lossless v → Renders v ps
  take_renders : ∀ {v : Value} {ps : List Bytes}, Renders v ps →
    ∃ us, TakesAll take ps us ∧ applyAll us zero = v

namespace MessageField

variable {M : Type}

/-- The message after an update of the field. -/
def modify (f : MessageField M) (u : f.Value → f.Value) (m : M) : M := f.set (u (f.get m)) m

/-- Each of the fields is left alone when the other is set. -/
def Apart (f g : MessageField M) : Prop :=
  (∀ v m, g.get (f.set v m) = g.get m) ∧ ∀ v m, f.get (g.set v m) = f.get m

instance : Std.Symm (Apart (M := M)) := ⟨fun _ _ h => ⟨h.2, h.1⟩⟩

end MessageField

/-- A run that succeeds on every element relates each to its result. -/
theorem forall₂_of_mapM {α β : Type} {f : α → Option β} {R : α → β → Prop} :
    ∀ {as : List α} {bs : List β}, (∀ a ∈ as, ∀ b, f a = some b → R a b) →
      as.mapM f = some bs → List.Forall₂ R as bs
  | [], bs, _, hbs => by
      obtain rfl := Option.some.inj hbs
      exact .nil
  | a :: as, bs, h, hbs => by
      simp only [List.mapM_cons, Option.pure_def, Option.bind_eq_bind,
        Option.bind_eq_some_iff, Option.some.injEq] at hbs
      obtain ⟨b, hb, bs, hbs, rfl⟩ := hbs
      exact .cons (h a List.mem_cons_self b hb)
        (forall₂_of_mapM (fun x hx => h x (List.mem_cons_of_mem _ hx)) hbs)

/-- A run over values that all succeed succeeds. -/
theorem exists_mapM {α : Type*} {β : Type} {f : α → Option β} :
    ∀ {as : List α}, (∀ a ∈ as, ∃ b, f a = some b) → ∃ bs, as.mapM f = some bs
  | [], _ => ⟨[], rfl⟩
  | a :: as, h => by
      obtain ⟨b, hb⟩ := h a List.mem_cons_self
      obtain ⟨bs, hbs⟩ := exists_mapM fun x hx => h x (List.mem_cons_of_mem _ hx)
      exact ⟨b :: bs, by simp [List.mapM_cons, hb, hbs]⟩

section Fields

variable {skip : Nat → Bytes → Option Bytes} {M α : Type} {lossless : α → Prop}

/-- The values read one after another, one update for each. -/
theorem Scalar.takesAll (s : Scalar skip lossless) {β : Type} (upd : α → β → β) :
    ∀ {vs : List α} {ps : List Bytes}, List.Forall₂ s.Renders vs ps →
      TakesAll (fun bs => (s.read bs).map fun (v, rest) => (upd v, rest)) ps (vs.map upd)
  | [], _, .nil => .nil
  | v :: vs, p :: ps, .cons hp hps =>
      .cons (fun rest => by simp only [s.read_renders hp, Option.map_some])
        (s.takesAll upd hps)

theorem Scalar.renders_mapM (s : Scalar skip lossless) {vs : List α} {ps : List Bytes}
    (hps : vs.mapM s.write = some ps) (hvs : ∀ v ∈ vs, lossless v) :
    List.Forall₂ s.Renders vs ps :=
  forall₂_of_mapM (fun v hv _ hb => s.renders_write hb (hvs v hv)) hps

/-- Of values that overwrite each other the last one is left. -/
theorem applyAll_overwrite (vs : List α) (v : α) :
    applyAll (vs.map fun v _ => v) v = vs.getLast?.getD v := by
  induction vs generalizing v with
  | nil => rfl
  | cons w vs ih =>
      rw [List.map_cons, applyAll_cons, ih, List.getLast?_cons, Option.getD_some]

theorem applyAll_push (vs acc : List α) :
    applyAll (vs.map fun v acc => acc ++ [v]) acc = acc ++ vs := by
  induction vs generalizing acc with
  | nil => exact (List.append_nil acc).symm
  | cons v vs ih =>
      rw [List.map_cons, applyAll_cons, ih, List.append_assoc]
      rfl

namespace MessageField

/-- A field that is left out when it has its default; of several values the last counts. -/
def scalar [DecidableEq α] (tag : Nat) (s : Scalar skip lossless) (zero : α) (get : M → α)
    (set : α → M → M) : MessageField M where
  Value := α
  get := get
  set := set
  zero := zero
  tag := tag
  put v := if v = zero then some [] else (s.write v).map ([·])
  take bs := (s.read bs).map fun (v, rest) => (fun _ => v, rest)
  Renders v ps := ∃ vs, List.Forall₂ s.Renders vs ps ∧ vs.getLast?.getD zero = v
  lossless := lossless
  renders_put {v ps} hput hv := by
    by_cases hzero : v = zero
    · rw [if_pos hzero] at hput
      obtain rfl := Option.some.inj hput
      exact ⟨[], .nil, hzero.symm⟩
    · rw [if_neg hzero] at hput
      obtain ⟨b, hb, rfl⟩ := Option.map_eq_some_iff.mp hput
      exact ⟨[v], .cons (s.renders_write hb hv) .nil, rfl⟩
  take_renders {v ps} hps := by
    obtain ⟨vs, hvs, hlast⟩ := hps
    exact ⟨_, s.takesAll (fun v _ => v) hvs, (applyAll_overwrite vs zero).trans hlast⟩

/-- A field that may be absent. -/
def optional (tag : Nat) (s : Scalar skip lossless) (get : M → Option α)
    (set : Option α → M → M) : MessageField M where
  Value := Option α
  get := get
  set := set
  zero := none
  tag := tag
  put v := v.toList.mapM s.write
  take bs := (s.read bs).map fun (v, rest) => (fun _ => some v, rest)
  Renders v ps := List.Forall₂ s.Renders v.toList ps
  lossless v := ∀ x ∈ v.toList, lossless x
  renders_put hput hv := s.renders_mapM hput hv
  take_renders {v _} hps := by
    refine ⟨_, s.takesAll (fun v _ => some v) hps, ?_⟩
    cases v <;> rfl

/-- A field of which there may be any number, kept in order. -/
def repeated (tag : Nat) (s : Scalar skip lossless) (get : M → List α)
    (set : List α → M → M) : MessageField M where
  Value := List α
  get := get
  set := set
  zero := []
  tag := tag
  put vs := vs.mapM s.write
  take bs := (s.read bs).map fun (v, rest) => (fun acc => acc ++ [v], rest)
  Renders vs ps := List.Forall₂ s.Renders vs ps
  lossless vs := ∀ v ∈ vs, lossless v
  renders_put hput hvs := s.renders_mapM hput hvs
  take_renders {vs _} hps := ⟨_, s.takesAll (fun v acc => acc ++ [v]) hps, applyAll_push vs []⟩

theorem put_scalar [DecidableEq α] {tag : Nat} {s : Scalar skip lossless} {zero : α}
    {get : M → α} {set : α → M → M} {v : α} (h : ∃ b, s.write v = some b) :
    ∃ ps, (scalar tag s zero get set).put v = some ps := by
  obtain ⟨b, hb⟩ := h
  simp only [scalar, hb, Option.map_some]
  split
  · exact ⟨_, rfl⟩
  · exact ⟨_, rfl⟩

theorem put_optional {tag : Nat} {s : Scalar skip lossless} {get : M → Option α}
    {set : Option α → M → M} {v : Option α} (h : ∀ x, v = some x → ∃ b, s.write x = some b) :
    ∃ ps, (optional tag s get set).put v = some ps :=
  exists_mapM fun x hx => h x (Option.mem_toList.mp hx)

end MessageField

end Fields

/-! ## Messages -/

/-- A message type: the empty message and the fields. A message is what it has in its
fields, and a field that is set has what it was set to, and the others what they had: for
the fields of a record this is seen from their definitions. -/
structure MessageFns (M : Type) where
  base : M
  fields : List (MessageField M)
  nodup : (fields.map MessageField.tag).Nodup := by
    simp [MessageField.scalar, MessageField.optional, MessageField.repeated]
  get_base : ∀ f ∈ fields, f.get base = f.zero := by
    simp [MessageField.scalar, MessageField.optional, MessageField.repeated]
  get_set : ∀ f ∈ fields, ∀ v m, f.get (f.set v m) = v := by
    simp [MessageField.scalar, MessageField.optional, MessageField.repeated]
  apart : fields.Pairwise MessageField.Apart := by
    simp [MessageField.Apart, MessageField.scalar, MessageField.optional, MessageField.repeated]
  ext : ∀ m m', (∀ f ∈ fields, f.get m = f.get m') → m = m' := by
    rintro ⟨⟩ ⟨⟩ h
    simpa [MessageField.scalar, MessageField.optional, MessageField.repeated] using h

/-- The tag and the value of one field written. -/
structure WireRecord where
  tag : Nat
  value : Bytes
deriving Repr, DecidableEq

/-- The values behind a tag, in order. -/
def valuesOf (tag : Nat) (rs : List WireRecord) : List Bytes :=
  (rs.filter fun r => r.tag = tag).map (·.value)

theorem valuesOf_cons_self (r : WireRecord) (rs : List WireRecord) :
    valuesOf r.tag (r :: rs) = r.value :: valuesOf r.tag rs := by
  simp [valuesOf]

theorem valuesOf_cons_of_ne {tag : Nat} {r : WireRecord} (h : r.tag ≠ tag)
    (rs : List WireRecord) : valuesOf tag (r :: rs) = valuesOf tag rs := by
  simp [valuesOf, h]

theorem valuesOf_append (tag : Nat) (rs rs' : List WireRecord) :
    valuesOf tag (rs ++ rs') = valuesOf tag rs ++ valuesOf tag rs' := by
  simp [valuesOf]

theorem valuesOf_eq_nil {tag : Nat} {rs : List WireRecord} (h : ∀ r ∈ rs, r.tag ≠ tag) :
    valuesOf tag rs = [] := by
  rw [valuesOf, List.filter_eq_nil_iff.mpr fun r hr => by simpa using h r hr, List.map_nil]

theorem valuesOf_map_mk (tag : Nat) (ps : List Bytes) :
    valuesOf tag (ps.map (WireRecord.mk tag)) = ps := by
  simp [valuesOf, List.filter_map, Function.comp_def]

namespace MessageField

variable {M : Type} {f : MessageField M} {value now : f.Value} {r : WireRecord}
  {rs : List WireRecord}

/-- What is still to be read of the field makes of what the message has there the value. -/
def Remains (f : MessageField M) (value now : f.Value) (rs : List WireRecord) : Prop :=
  ∃ us, TakesAll f.take (valuesOf f.tag rs) us ∧ applyAll us now = value

theorem Remains.other (h : f.Remains value now (r :: rs)) (hne : r.tag ≠ f.tag) :
    f.Remains value now rs := by
  rwa [Remains, valuesOf_cons_of_ne hne] at h

theorem Remains.own (h : f.Remains value now (r :: rs)) (htag : f.tag = r.tag) :
    ∃ u, (∀ rest, f.take (r.value ++ rest) = some (u, rest)) ∧ f.Remains value (u now) rs := by
  obtain ⟨us, hus, happly⟩ := h
  rw [htag, valuesOf_cons_self, ← htag] at hus
  cases hus with
  | cons hu hus => exact ⟨_, hu, _, hus, happly⟩

end MessageField

namespace MessageFns

variable [BinaryWire] {M : Type} (F : MessageFns M)

open BinaryWire

/-- The values of one field, each behind its tag. -/
def putField (f : MessageField M) (m : M) : Option (List Bytes) :=
  (f.put (f.get m)).bind fun ps => ps.mapM fun p => (uint32.write f.tag).map fun t => t ++ p

/-- `encode(message).finish()`; none where a writer throws. -/
def encode (m : M) : Option Bytes :=
  (F.fields.mapM fun f => putField f m).map fun records => records.flatten.flatten

/-- One round of the loop of `decode`: what it does to the message, and the rest. A tag that
is no field's, among them the number of a field with another wire type, is skipped with its
value, except that the tag zero and the end of a group end the message. -/
def decodeField (bs : Bytes) : Option (Option (M → M) × Bytes) :=
  (uint32.read bs).bind fun (tag, rest) =>
    match F.fields.find? fun f => f.tag = tag with
    | some f => (f.take rest).map fun (u, rest) => (some (f.modify u), rest)
    | none =>
        if tag % 8 = 4 ∨ tag = 0 then some (none, rest)
        else (skip (tag % 8) rest).map fun rest => (some id, rest)

/-- `while (reader.pos < end)`: `budget` is `end - reader.pos`. A round reads at least a tag,
so that the budget is also enough fuel. -/
def decodeLoop : Nat → Nat → M → Bytes → Option (M × Bytes)
  | _, 0, m, bs => some (m, bs)
  | 0, _ + 1, _, _ => none
  | fuel + 1, budget + 1, m, bs =>
      match F.decodeField bs with
      | none => none
      | some (none, rest) => some (m, rest)
      | some (some u, rest) =>
          decodeLoop fuel (budget + 1 - (bs.length - rest.length)) (u m) rest

/-- `decode(reader, length)`. -/
def decodeFor (length : Nat) (bs : Bytes) : Option (M × Bytes) :=
  F.decodeLoop length length F.base bs

/-- `decode(bytes)`; none where a reader throws. -/
def decode (bs : Bytes) : Option M := (F.decodeFor bs.length bs).map Prod.fst

/-- Every field of the message comes back as it was written. -/
def Lossless (m : M) : Prop := ∀ f ∈ F.fields, f.lossless (f.get m)

/-! ## Renderings -/

/-- The record written: its value behind its tag. -/
def Written (r : WireRecord) (b : Bytes) : Prop :=
  ∃ t, uint32.write r.tag = some t ∧ b = t ++ r.value

/-- The record of a field that the message does not have: a tag of no field and a value that
can be passed over. -/
def Unknown (r : WireRecord) : Prop :=
  (∀ f ∈ F.fields, f.tag ≠ r.tag) ∧ r.tag ≠ 0 ∧ r.tag % 8 ≠ 4
    ∧ ∀ rest, skip (r.tag % 8) (r.value ++ rest) = some rest

/-- The bytes are records in any order: those of each field render what the message has in
that field, and the others are of fields that it does not have. -/
def Renders (m : M) (b : Bytes) : Prop :=
  ∃ (rs : List WireRecord) (bs : List Bytes),
    List.Forall₂ Written rs bs ∧ b = bs.flatten
      ∧ (∀ f ∈ F.fields, f.Renders (f.get m) (valuesOf f.tag rs))
      ∧ ∀ r ∈ rs, (∃ f ∈ F.fields, f.tag = r.tag) ∨ F.Unknown r

variable {F}

/-- The values of a field, each behind its tag, are records with that tag. -/
theorem written_putField {f : MessageField M} {m : M} {bs : List Bytes}
    (hbs : putField f m = some bs) (hm : f.lossless (f.get m)) :
    ∃ ps, f.Renders (f.get m) ps ∧ List.Forall₂ Written (ps.map (WireRecord.mk f.tag)) bs := by
  obtain ⟨ps, hps, hbs⟩ := Option.bind_eq_some_iff.mp hbs
  refine ⟨ps, f.renders_put hps hm, List.forall₂_map_left_iff.mpr ?_⟩
  refine forall₂_of_mapM (fun p _ b hb => ?_) hbs
  obtain ⟨t, ht, rfl⟩ := Option.map_eq_some_iff.mp hb
  exact ⟨t, ht, rfl⟩

theorem written_fields {m : M} : ∀ {fs : List (MessageField M)} {kss : List (List Bytes)},
    fs.mapM (fun f => putField f m) = some kss → (fs.map MessageField.tag).Nodup →
      (∀ f ∈ fs, f.lossless (f.get m)) →
      ∃ rs, List.Forall₂ Written rs kss.flatten
        ∧ (∀ f ∈ fs, f.Renders (f.get m) (valuesOf f.tag rs))
        ∧ ∀ r ∈ rs, ∃ f ∈ fs, f.tag = r.tag
  | [], _, hkss, _, _ => by
      obtain rfl := Option.some.inj hkss
      exact ⟨[], .nil, fun _ hf => absurd hf List.not_mem_nil,
        fun _ hr => absurd hr List.not_mem_nil⟩
  | f :: fs, _, hkss, hnodup, hm => by
      simp only [List.mapM_cons, Option.pure_def, Option.bind_eq_bind,
        Option.bind_eq_some_iff, Option.some.injEq] at hkss
      obtain ⟨ks, hks, kss, hkss, rfl⟩ := hkss
      rw [List.map_cons, List.nodup_cons] at hnodup
      obtain ⟨ps, hps, hwritten⟩ := written_putField hks (hm f List.mem_cons_self)
      obtain ⟨rs, hrs, hfields, hknown⟩ :=
        written_fields hkss hnodup.2 fun g hg => hm g (List.mem_cons_of_mem _ hg)
      have hne : ∀ g ∈ fs, f.tag ≠ g.tag := fun g hg heq =>
        hnodup.1 (heq ▸ List.mem_map_of_mem hg)
      refine ⟨ps.map (WireRecord.mk f.tag) ++ rs, List.rel_append hwritten hrs, ?_, ?_⟩
      · intro g hg
        rw [valuesOf_append]
        rcases List.mem_cons.mp hg with rfl | hg
        · have hothers : valuesOf g.tag rs = [] := valuesOf_eq_nil fun r hr heq => by
            obtain ⟨h, hh, htag⟩ := hknown r hr
            exact hne h hh (heq.symm.trans htag.symm)
          rwa [valuesOf_map_mk, hothers, List.append_nil]
        · have hown : valuesOf g.tag (ps.map (WireRecord.mk f.tag)) = [] :=
            valuesOf_eq_nil fun r hr heq => by
              obtain ⟨p, -, rfl⟩ := List.mem_map.mp hr
              exact hne g hg heq
          rw [hown, List.nil_append]
          exact hfields g hg
      · intro r hr
        rcases List.mem_append.mp hr with hr | hr
        · obtain ⟨p, -, rfl⟩ := List.mem_map.mp hr
          exact ⟨f, List.mem_cons_self, rfl⟩
        · obtain ⟨g, hg, htag⟩ := hknown r hr
          exact ⟨g, List.mem_cons_of_mem _ hg, htag⟩

/-- What is written renders the message, if its values come back. -/
theorem renders_encode {m : M} {b : Bytes} (hb : F.encode m = some b) (hm : F.Lossless m) :
    F.Renders m b := by
  obtain ⟨kss, hkss, rfl⟩ := Option.map_eq_some_iff.mp hb
  obtain ⟨rs, hrs, hfields, hknown⟩ := written_fields hkss F.nodup hm
  exact ⟨rs, kss.flatten, hrs, rfl, hfields, fun r hr => .inl (hknown r hr)⟩

theorem putField_scalar {skip : Nat → Bytes → Option Bytes} {α : Type} {lossless : α → Prop}
    [DecidableEq α] {tag : Nat} {s : Scalar skip lossless} {zero : α} {get : M → α}
    {set : α → M → M} {m : M} {t p : Bytes} (ht : uint32.write tag = some t)
    (hp : s.write (get m) = some p) :
    putField (MessageField.scalar tag s zero get set) m
      = some (if get m = zero then [] else [t ++ p]) := by
  simp only [putField, MessageField.scalar, hp, ht, Option.map_some]
  split
  · rfl
  · rfl

theorem encode_isSome {m : M}
    (h : ∀ f ∈ F.fields, f.tag < 2 ^ 32 ∧ ∃ ps, f.put (f.get m) = some ps) :
    ∃ b, F.encode m = some b := by
  have hfields : ∀ f ∈ F.fields, ∃ ks, putField f m = some ks := by
    intro f hf
    obtain ⟨htag, ps, hps⟩ := h f hf
    obtain ⟨t, ht, -⟩ := uint32_write htag
    obtain ⟨ks, hks⟩ := @exists_mapM _ _ (fun p => (uint32.write f.tag).map fun t => t ++ p) ps
      fun p _ => ⟨t ++ p, by rw [ht, Option.map_some]⟩
    exact ⟨ks, by rw [putField, hps, Option.bind_some, hks]⟩
  obtain ⟨kss, hkss⟩ := exists_mapM hfields
  exact ⟨kss.flatten.flatten, by rw [encode, hkss, Option.map_some]⟩

/-! ## Reading records -/

theorem Written.ne_nil {r : WireRecord} {b : Bytes} (hb : Written r b) : b ≠ [] := by
  obtain ⟨t, ht, rfl⟩ := hb
  exact fun hnil => uint32_ne_nil ht (List.append_eq_nil_iff.mp hnil).1

/-- The record of a field of the message updates that field. -/
theorem decodeField_written {f : MessageField M} (hf : f ∈ F.fields) {r : WireRecord} {b : Bytes}
    {u : f.Value → f.Value} (hb : Written r b) (htag : f.tag = r.tag)
    (hu : ∀ rest, f.take (r.value ++ rest) = some (u, rest)) (rest : Bytes) :
    F.decodeField (b ++ rest) = some (some (f.modify u), rest) := by
  obtain ⟨t, ht, rfl⟩ := hb
  have hfind : F.fields.find? (fun g => g.tag = r.tag) = some f := by
    obtain ⟨g, hg⟩ := Option.isSome_iff_exists.mp
      (List.find?_isSome (p := fun g => g.tag = r.tag).mpr ⟨f, hf, decide_eq_true htag⟩)
    have hgtag : g.tag = r.tag := by simpa using List.find?_some hg
    rw [hg, List.inj_on_of_nodup_map F.nodup (List.mem_of_find?_eq_some hg) hf
      (hgtag.trans htag.symm)]
  rw [List.append_assoc, decodeField,
    uint32.read_renders (uint32.renders_write ht trivial), Option.bind_some]
  simp only [hfind, hu, Option.map_some]

/-- The record of a field that the message does not have does nothing. -/
theorem decodeField_unknown {r : WireRecord} {b : Bytes} (hb : Written r b) (hr : F.Unknown r)
    (rest : Bytes) : F.decodeField (b ++ rest) = some (some id, rest) := by
  obtain ⟨t, ht, rfl⟩ := hb
  obtain ⟨hfields, hzero, hgroup, hskip⟩ := hr
  have hfind : F.fields.find? (fun g => g.tag = r.tag) = none :=
    List.find?_eq_none.mpr fun f hf => by simpa using hfields f hf
  rw [List.append_assoc, decodeField,
    uint32.read_renders (uint32.renders_write ht trivial), Option.bind_some]
  simp only [hfind, hzero, hgroup, or_self, if_false, hskip, Option.map_some]

/-- One round of the loop. -/
theorem decodeLoop_record {b : Bytes} {u : M → M} (hne : b ≠ [])
    (hread : ∀ rest, F.decodeField (b ++ rest) = some (some u, rest)) {fuel n : Nat}
    (hfuel : b.length + n ≤ fuel) :
    ∃ k, n ≤ k ∧ ∀ m rest,
      F.decodeLoop fuel (b.length + n) m (b ++ rest) = F.decodeLoop k n (u m) rest := by
  have hpos : 0 < b.length := List.length_pos_of_ne_nil hne
  obtain ⟨k, rfl⟩ : ∃ k, fuel = k + 1 := ⟨fuel - 1, by omega⟩
  obtain ⟨budget, hbudget⟩ : ∃ k, b.length + n = k + 1 := ⟨b.length + n - 1, by omega⟩
  refine ⟨k, by omega, fun m rest => ?_⟩
  have hleft : budget + 1 - ((b ++ rest).length - rest.length) = n := by
    rw [List.length_append]
    omega
  rw [hbudget]
  simp only [decodeLoop, hread]
  rw [hleft]

omit [BinaryWire] in
/-- An update of a field keeps the other fields as they are. -/
theorem get_modify_of_ne {f g : MessageField M} (hf : f ∈ F.fields) (hg : g ∈ F.fields)
    (hne : f.tag ≠ g.tag) (u : f.Value → f.Value) (m : M) : g.get (f.modify u m) = g.get m :=
  (F.apart.forall hf hg fun heq => hne (congrArg _ heq)).1 _ m

/-- The loop over records builds the message, if what is still to be read of each field
makes of what the message has there what it is to have. -/
theorem decodeLoop_records {m : M} {rs : List WireRecord} {bs : List Bytes}
    (hwritten : List.Forall₂ Written rs bs)
    (hknown : ∀ r ∈ rs, (∃ f ∈ F.fields, f.tag = r.tag) ∨ F.Unknown r) :
    ∀ {fuel : Nat} (acc : M) (rest : Bytes),
      (∀ f ∈ F.fields, f.Remains (f.get m) (f.get acc) rs) → bs.flatten.length ≤ fuel →
      F.decodeLoop fuel bs.flatten.length acc (bs.flatten ++ rest) = some (m, rest) := by
  induction hwritten with
  | nil =>
      intro fuel acc rest hremains _
      have hacc : acc = m := F.ext acc m fun f hf => by
        obtain ⟨us, hus, happly⟩ := hremains f hf
        cases hus
        exact happly
      cases fuel <;> rw [hacc] <;> rfl
  | @cons r b rs bs hb _ ih =>
      intro fuel acc rest hremains hfuel
      rw [List.flatten_cons, List.length_append] at hfuel
      rw [List.flatten_cons, List.length_append, List.append_assoc]
      have hstep : ∃ u : M → M, (∀ rest, F.decodeField (b ++ rest) = some (some u, rest))
          ∧ ∀ f ∈ F.fields, f.Remains (f.get m) (f.get (u acc)) rs := by
        rcases hknown r List.mem_cons_self with ⟨f, hf, htag⟩ | hunknown
        · obtain ⟨u, hu, hrest⟩ := (hremains f hf).own htag
          refine ⟨f.modify u, decodeField_written hf hb htag hu, fun g hg => ?_⟩
          by_cases hgtag : f.tag = g.tag
          · obtain rfl := List.inj_on_of_nodup_map F.nodup hf hg hgtag
            rwa [MessageField.modify, F.get_set f hf]
          · rw [get_modify_of_ne hf hg hgtag]
            exact (hremains g hg).other (htag ▸ hgtag)
        · exact ⟨id, decodeField_unknown hb hunknown,
            fun f hf => (hremains f hf).other (hunknown.1 f hf).symm⟩
      obtain ⟨u, hread, hremains⟩ := hstep
      obtain ⟨k, hk, hloop⟩ := decodeLoop_record hb.ne_nil hread hfuel
      rw [hloop]
      exact ih (fun s hs => hknown s (List.mem_cons_of_mem _ hs)) (u acc) rest hremains hk

theorem decodeFor_renders {m : M} {b : Bytes} (hb : F.Renders m b) (rest : Bytes) :
    F.decodeFor b.length (b ++ rest) = some (m, rest) := by
  obtain ⟨rs, bs, hwritten, rfl, hfields, hknown⟩ := hb
  refine decodeLoop_records hwritten hknown F.base rest (fun f hf => ?_) (Nat.le_refl _)
  rw [F.get_base f hf]
  exact f.take_renders (hfields f hf)

/-- **Every rendering of a message is read as the message.** -/
theorem decode_renders {m : M} {b : Bytes} (hb : F.Renders m b) : F.decode b = some m := by
  have hrun := decodeFor_renders hb []
  rw [List.append_nil] at hrun
  rw [decode, hrun]
  rfl

/-- A message comes back as it was written. -/
theorem decode_encode {m : M} {b : Bytes} (hb : F.encode m = some b) (hm : F.Lossless m) :
    F.decode b = some m :=
  decode_renders (renders_encode hb hm)

/-- A message as the value of a field: its length, and its bytes. -/
def delimited (F : MessageFns M) : Scalar skip F.Lossless where
  wireType := 2
  write m := (F.encode m).bind fun b => (uint32.write b.length).map fun len => len ++ b
  read bs := (uint32.read bs).bind fun (length, rest) => F.decodeFor length rest
  Renders m w := ∃ b len, F.Renders m b ∧ uint32.write b.length = some len ∧ w = len ++ b
  renders_write {m w} hw hm := by
    obtain ⟨b, hb, hw⟩ := Option.bind_eq_some_iff.mp hw
    obtain ⟨len, hlen, rfl⟩ := Option.map_eq_some_iff.mp hw
    exact ⟨b, len, renders_encode hb hm, hlen, rfl⟩
  read_renders {m w} hw rest := by
    obtain ⟨b, len, hb, hlen, rfl⟩ := hw
    rw [List.append_assoc, uint32.read_renders (uint32.renders_write hlen trivial)]
    exact decodeFor_renders hb rest
  skip_renders {m w} hw rest := by
    obtain ⟨b, len, -, hlen, rfl⟩ := hw
    exact skip_delimited hlen rest

end MessageFns

end GatewayConsole
