import GatewayConsole.Explore
import GatewayConsole.Js

/-!
# Zod at the boundary

`lint/eslint-plugin-livepeer-gateway-console/rules/zod-at-boundary.js`: the lint rule that
looks for a call of `parse` or `safeParse` in the first statements of an HTTP handler.

It goes through the syntax tree as the objects that it is made of, whatever their types, so
the tree is a heap here: objects that refer to each other, in cycles where there are any.
`statementParses` is then a search through a graph. `missing_iff` says when a handler is
reported: none of its first five statements has such a call below it, of those that are not
empty and not a literal.
-/

namespace GatewayConsole

namespace ZodAtBoundary

/-! ## Objects -/

/-- `s.includes(part)`. -/
def includes (s part : String) : Bool := s.toList.tails.any part.toList.isPrefixOf

inductive Value where
  | undefined
  | null
  | boolean (b : Bool)
  | number (n : Num)
  | string (s : String)
  | object (address : Nat)
deriving Repr, DecidableEq

/-- An object with its own properties in order; those of an array are its elements. -/
structure Object where
  isArray : Bool := false
  properties : List (String × Value) := []
deriving Repr, DecidableEq

/-- No reference to where there is no object. -/
def Value.within (size : Nat) : Value → Bool
  | .object i => i < size
  | _ => true

/-- The objects of a program, by their addresses. -/
structure Heap where
  objects : List Object
  closed : (objects.all fun o => o.properties.all (·.2.within objects.length)) = true

def Value.truthy : Value → Bool
  | .undefined | .null => false
  | .boolean b => b
  | .number .nan => false
  | .number (.int n) => n ≠ 0
  | .string s => s ≠ ""
  | .object _ => true

namespace Heap

variable (h : Heap)

def object (address : Nat) : Object := h.objects.getD address {}

/-- `v.name`, none being the `TypeError` of undefined and null. A string or a number has
none of the properties that the rule reads. -/
def get : Value → String → Option Value
  | .undefined, _ | .null, _ => none
  | .object i, name => some (((h.object i).properties.lookup name).getD .undefined)
  | _, _ => some .undefined

/-! ## The rule -/

/-- `expr.type !== type` after the property has been read. -/
def hasType (v : Value) (type : String) : Option Bool := do
  return (← h.get v "type") = .string type

/-- A call of a method by that name, of any object: `JSON.parse(..)` is one. -/
def isZodCall (expr : Value) : Option Bool := do
  if !(← h.hasType expr "CallExpression") then return false
  let callee ← h.get expr "callee"
  if !(← h.hasType callee "MemberExpression") then return false
  let property ← h.get callee "property"
  if !(← h.hasType property "Identifier") then return false
  let name ← h.get property "name"
  return name = .string "safeParse" || name = .string "parse"

def skipKeys : List String := ["parent", "loc", "range", "tokens", "comments"]

/-- `n.type === "CallExpression" && isZodCall(n)`. -/
def hit (i : Nat) : Option Bool := do
  if ← h.hasType (.object i) "CallExpression" then h.isZodCall (.object i) else return false

/-- The objects among values. -/
def addresses (values : List Value) : List Nat :=
  values.filterMap fun
    | .object i => some i
    | _ => none

/-- The objects that the loop over the keys of `n` walks to, in order: the elements of an
array, and any other object that has a type. -/
def next (i : Nat) : List Nat :=
  (h.object i).properties.flatMap fun (key, v) =>
    if key ∈ skipKeys then []
    else
      match v with
      | .object j =>
          if (h.object j).isArray then addresses ((h.object j).properties.map (·.2))
          else if ((h.get v "type").getD .undefined).truthy then [j]
          else []
      | _ => []

/-- `statementParses`, whose walk is no deeper than there are objects. -/
def statementParses : Value → Option Bool
  | .object i => (Explore.walk h.next h.hit (h.objects.length + 1) {} i).map (·.found)
  | _ => some false

/-- What `for (const s of v)` goes through, none being a `TypeError`. -/
def iterate : Value → Option (List Value)
  | .object i => if (h.object i).isArray then some ((h.object i).properties.map (·.2)) else none
  | .string s => some (s.toList.map fun c => .string c.toString)
  | _ => none

/-- The statement is empty, or an expression that is a literal. -/
def isPassedOver (s : Value) : Option Bool := do
  if ← h.hasType s "EmptyStatement" then return true
  if ← h.hasType s "ExpressionStatement" then h.hasType (← h.get s "expression") "Literal"
  else return false

def maxStatementsBeforeParse : Nat := 5

/-- The loop of `parsesEarly`. -/
def parsesEarlyFrom (seen : Nat) : List Value → Option Bool
  | [] => some false
  | s :: rest => do
      if ← h.isPassedOver s then parsesEarlyFrom seen rest
      else if ← h.statementParses s then return true
      else if maxStatementsBeforeParse ≤ seen + 1 then return false
      else parsesEarlyFrom (seen + 1) rest

def parsesEarly (body : Value) : Option Bool := do
  h.parsesEarlyFrom 0 (← h.iterate (← h.get body "body"))

/-- `/^handle[A-Z]/.test(name)`. -/
def isHandlerName : Value → Bool
  | .string s => startsWith s "handle" && ((s.toList.drop 6).head?.any Char.isUpper)
  | _ => false

def isHandlerFunction (node : Value) : Option Bool := do
  if !(← h.hasType node "FunctionDeclaration") then return false
  if !(← h.get node "async").truthy then return false
  let id ← h.get node "id"
  if !id.truthy then return false
  if !(← h.hasType id "Identifier") then return false
  return isHandlerName (← h.get id "name")

/-- `data.name` of a report. -/
abbrev Report := Value

/-- `create`, as far as one function is concerned; none is a `TypeError`. -/
def create (filename : String) (node : Value) : Option (Option Report) :=
  if !includes filename "/src/runtime/http/" then some none
  else do
    if !(← h.isHandlerFunction node) then return none
    if ← h.parsesEarly (← h.get node "body") then return none
    return some (← h.get (← h.get node "id") "name")

/-! ## What is reported -/

variable {h}

theorem mem_objects {i : Nat} (hi : i < h.objects.length) : h.object i ∈ h.objects := by
  rw [object, List.getD_eq_getElem?_getD, List.getElem?_eq_getElem hi]
  exact List.getElem_mem hi

theorem object_of_le {i : Nat} (hi : h.objects.length ≤ i) : h.object i = {} := by
  rw [object, List.getD_eq_getElem?_getD, List.getElem?_eq_none hi]
  rfl

/-- What an object refers to. -/
theorem property_lt {i j : Nat} {p : String × Value} (hp : p ∈ (h.object i).properties)
    (hj : p.2 = .object j) : j < h.objects.length := by
  rcases Nat.lt_or_ge i h.objects.length with hi | hi
  · have hwithin := List.all_eq_true.mp (List.all_eq_true.mp h.closed _ (mem_objects hi)) p hp
    rw [hj] at hwithin
    exact of_decide_eq_true hwithin
  · rw [object_of_le hi] at hp
    cases hp

/-- A walk stays within the objects. -/
theorem next_lt {i j : Nat} (hj : j ∈ h.next i) : j < h.objects.length := by
  obtain ⟨⟨key, v⟩, hp, hj⟩ := List.mem_flatMap.mp hj
  simp only at hj
  split at hj
  · cases hj
  · split at hj
    · split at hj
      · obtain ⟨value, hvalue, haddress⟩ := List.mem_filterMap.mp hj
        obtain ⟨p, hp', rfl⟩ := List.mem_map.mp hvalue
        split at haddress
        · next heq =>
            obtain rfl := Option.some.inj haddress
            exact property_lt hp' heq
        · cases haddress
      · split at hj
        · obtain rfl := List.mem_singleton.mp hj
          exact property_lt hp rfl
        · cases hj
    · cases hj

theorem iterate_lt {v : Value} {ss : List Value} (hss : h.iterate v = some ss) {i : Nat}
    (hi : .object i ∈ ss) : i < h.objects.length := by
  unfold iterate at hss
  split at hss
  · obtain rfl := Option.some.inj (Option.ite_none_right_eq_some.mp hss).2
    obtain ⟨p, hp, heq⟩ := List.mem_map.mp hi
    exact property_lt hp heq
  · obtain rfl := Option.some.inj hss
    obtain ⟨_, _, heq⟩ := List.mem_map.mp hi
    cases heq
  · cases hss

/-- A call of `parse` or `safeParse` below the statement. -/
def Parses (h : Heap) (s : Value) : Prop :=
  ∃ i m, s = .object i ∧ Explore.Reaches h.next i m ∧ h.hit m = some true

/-- Reading the calls below the statement throws no `TypeError`. -/
def CallsReadable (h : Heap) (s : Value) : Prop :=
  ∀ i m, s = .object i → Explore.Reaches h.next i m → (h.hit m).isSome = true

theorem statementParses_iff {s : Value} (hs : ∀ i, s = .object i → i < h.objects.length)
    (hcalls : h.CallsReadable s) : ∃ b, h.statementParses s = some b ∧ (b = true ↔ h.Parses s) := by
  cases s with
  | object i =>
      have hclosed : ∀ n ∈ List.range h.objects.length, h.next n ⊆ List.range h.objects.length :=
        fun _ _ _ hm => List.mem_range.mpr (next_lt hm)
      have hfuel : (List.range h.objects.length).length < h.objects.length + 1 := by
        rw [List.length_range]
        exact Nat.lt_succ_self _
      obtain ⟨t, ht, hfound⟩ := Explore.walk_found_iff hclosed (List.mem_range.mpr (hs i rfl))
        (fun m hm => hcalls i m rfl hm) hfuel
      refine ⟨t.found, by rw [statementParses, ht]; rfl, hfound.trans ?_⟩
      constructor
      · rintro ⟨m, hm, hhit⟩
        exact ⟨i, m, rfl, hm, hhit⟩
      · rintro ⟨j, m, hj, hm, hhit⟩
        obtain rfl := Value.object.inj hj
        exact ⟨m, hm, hhit⟩
  | undefined | null | boolean _ | number _ | string _ =>
      have hnot : ∀ v, (∀ i, v ≠ .object i) → ¬h.Parses v := fun v hv ⟨i, _, hi, _⟩ => hv i hi
      exact ⟨false, rfl, iff_of_false Bool.false_ne_true (hnot _ fun _ heq => by cases heq)⟩

/-- The statements that count: of those that are not passed over, the first five. -/
def early (h : Heap) (seen : Nat) (statements : List Value) : List Value :=
  (statements.filter fun s => h.isPassedOver s = some false).take (maxStatementsBeforeParse - seen)

theorem parsesEarlyFrom_iff {statements : List Value}
    (haddress : ∀ i, .object i ∈ statements → i < h.objects.length)
    (hpassed : ∀ s ∈ statements, (h.isPassedOver s).isSome = true)
    (hcalls : ∀ s ∈ statements, h.CallsReadable s) {seen : Nat}
    (hseen : seen < maxStatementsBeforeParse) :
    ∃ b, h.parsesEarlyFrom seen statements = some b
      ∧ (b = true ↔ ∃ s ∈ h.early seen statements, h.Parses s) := by
  induction statements generalizing seen with
  | nil => exact ⟨false, rfl, by simp [early]⟩
  | cons s rest ih =>
      have ih {seen : Nat} (hseen : seen < maxStatementsBeforeParse) :=
        ih (fun i hi => haddress i (List.mem_cons_of_mem s hi))
          (fun t ht => hpassed t (List.mem_cons_of_mem s ht))
          (fun t ht => hcalls t (List.mem_cons_of_mem s ht)) hseen
      obtain ⟨passed, hs⟩ := Option.isSome_iff_exists.mp (hpassed s List.mem_cons_self)
      cases passed with
      | true =>
          obtain ⟨b, hb, hiff⟩ := ih hseen
          refine ⟨b, ?_, ?_⟩
          · simp only [parsesEarlyFrom, hs]
            exact hb
          · rw [hiff, early, early, List.filter_cons_of_neg (by simp [hs])]
      | false =>
          obtain ⟨b, hb, hiff⟩ := statementParses_iff
            (fun i hi => haddress i (hi ▸ List.mem_cons_self)) (hcalls s List.mem_cons_self)
          have hearly : h.early seen (s :: rest) = s :: h.early (seen + 1) rest := by
            have hlast : maxStatementsBeforeParse - seen
                = maxStatementsBeforeParse - (seen + 1) + 1 := by omega
            rw [early, List.filter_cons_of_pos (by simp [hs]), hlast, List.take_succ_cons]
            rfl
          rw [hearly]
          cases b with
          | true =>
              refine ⟨true, ?_, iff_of_true rfl ⟨s, List.mem_cons_self, hiff.mp rfl⟩⟩
              simp [parsesEarlyFrom, hs, hb]
          | false =>
              have hnot : ¬h.Parses s := fun hp => by cases hiff.mpr hp
              by_cases hmore : seen + 1 < maxStatementsBeforeParse
              · obtain ⟨c, hc, hrest⟩ := ih hmore
                refine ⟨c, ?_, hrest.trans ?_⟩
                · simp [parsesEarlyFrom, hs, hb, Nat.not_le.mpr hmore, hc]
                · simp [hnot]
              · have hend : h.early (seen + 1) rest = [] := by
                  rw [early, Nat.sub_eq_zero_of_le (Nat.not_lt.mp hmore), List.take_zero]
                refine ⟨false, ?_, ?_⟩
                · simp [parsesEarlyFrom, hs, hb, Nat.not_lt.mp hmore]
                · simp [hend, hnot]

/-- A handler has a name. -/
theorem name_of_isHandlerFunction {node : Value} (hn : h.isHandlerFunction node = some true) :
    ∃ name, (h.get node "id").bind (h.get · "name") = some name := by
  unfold isHandlerFunction at hn
  obtain ⟨_, -, hn⟩ := Option.bind_eq_some_iff.mp hn
  split at hn
  · cases hn
  · obtain ⟨_, -, hn⟩ := Option.bind_eq_some_iff.mp hn
    split at hn
    · cases hn
    · obtain ⟨id, hid, hn⟩ := Option.bind_eq_some_iff.mp hn
      split at hn
      · cases hn
      · obtain ⟨_, -, hn⟩ := Option.bind_eq_some_iff.mp hn
        split at hn
        · cases hn
        · obtain ⟨name, hname, -⟩ := Option.bind_eq_some_iff.mp hn
          exact ⟨name, by rw [hid]; exact hname⟩

/-- What the parser makes of a function: `create` reads what is there. -/
structure Parsed (h : Heap) (node : Value) (statements : List Value) : Prop where
  handler : (h.isHandlerFunction node).isSome = true
  body : ∃ body list, h.get node "body" = some body ∧ h.get body "body" = some list
    ∧ h.iterate list = some statements
  passedOver : ∀ s ∈ statements, (h.isPassedOver s).isSome = true
  calls : ∀ s ∈ statements, h.CallsReadable s

/-- **What is reported is a handler without an early call of `parse`.** -/
theorem missing_iff {node : Value} {statements : List Value} (hp : h.Parsed node statements)
    (filename : String) :
    ∃ reported, h.create filename node = some reported
      ∧ ∀ name, reported = some name
        ↔ includes filename "/src/runtime/http/" = true
          ∧ h.isHandlerFunction node = some true
          ∧ (h.get node "id").bind (h.get · "name") = some name
          ∧ ∀ s ∈ h.early 0 statements, ¬h.Parses s := by
  unfold create
  by_cases hscope : includes filename "/src/runtime/http/" = true
  · obtain ⟨handler, hhandler⟩ := Option.isSome_iff_exists.mp hp.handler
    cases handler with
    | false => exact ⟨none, by simp [hscope, hhandler], fun name => by simp [hhandler]⟩
    | true =>
        obtain ⟨body, list, hbody, hlist, hiterate⟩ := hp.body
        obtain ⟨b, hb, hiff⟩ := parsesEarlyFrom_iff (fun i => iterate_lt hiterate) hp.passedOver
          hp.calls (by decide : 0 < maxStatementsBeforeParse)
        have hearly : h.parsesEarly body = some b := by
          simp only [parsesEarly, hlist, Option.bind_eq_bind, Option.bind_some, hiterate, hb]
        obtain ⟨name, hname⟩ := name_of_isHandlerFunction hhandler
        obtain ⟨id, hid, hname'⟩ := Option.bind_eq_some_iff.mp hname
        cases b with
        | true =>
            obtain ⟨s, hs, hparses⟩ := hiff.mp rfl
            refine ⟨none, by simp [hscope, hhandler, hbody, hearly], fun name => ?_⟩
            refine iff_of_false (fun hnone => by cases hnone) ?_
            rintro ⟨-, -, -, hnot⟩
            exact hnot s hs hparses
        | false =>
            refine ⟨some name, by simp [hscope, hhandler, hbody, hearly, hid, hname'], ?_⟩
            intro reported
            rw [hname]
            refine ⟨fun heq => ⟨hscope, hhandler, heq, fun s hs hparses => ?_⟩,
              fun hreported => hreported.2.2.1⟩
            cases hiff.mpr ⟨s, hs, hparses⟩
  · exact ⟨none, by simp [hscope], fun name => by simp [hscope]⟩

/-! ## A handler that does not parse -/

/-- `async function handlePing(_req, reply) { reply.send(); }`. -/
def ping : Heap where
  objects :=
    [{ properties := [("type", .string "FunctionDeclaration"), ("id", .object 1),
        ("async", .boolean true), ("body", .object 2)] },
     { properties := [("type", .string "Identifier"), ("name", .string "handlePing"),
        ("parent", .object 0)] },
     { properties := [("type", .string "BlockStatement"), ("body", .object 3),
        ("parent", .object 0)] },
     { isArray := true, properties := [("0", .object 4)] },
     { properties := [("type", .string "ExpressionStatement"), ("expression", .object 5),
        ("parent", .object 2)] },
     { properties := [("type", .string "CallExpression"), ("callee", .object 6),
        ("arguments", .object 9), ("parent", .object 4)] },
     { properties := [("type", .string "MemberExpression"), ("object", .object 7),
        ("property", .object 8), ("parent", .object 5)] },
     { properties := [("type", .string "Identifier"), ("name", .string "reply"),
        ("parent", .object 6)] },
     { properties := [("type", .string "Identifier"), ("name", .string "send"),
        ("parent", .object 6)] },
     { isArray := true }]
  closed := by decide

theorem reaches_ping {m : Nat} (h : Explore.Reaches ping.next 4 m) : m ∈ [4, 5, 6, 7, 8] :=
  Explore.Reaches.mem (by decide) (by decide) h

theorem missing_iff_ping :
    ∃ reported, ping.create "/console/src/runtime/http/handlers/handlePing.ts" (.object 0)
        = some reported
      ∧ reported = some (.string "handlePing") := by
  have hcalls : ping.CallsReadable (.object 4) := by
    intro i m hi hm
    obtain rfl := Value.object.inj hi
    have hall : ∀ m ∈ [4, 5, 6, 7, 8], (ping.hit m).isSome = true := by decide
    exact hall m (reaches_ping hm)
  have hparsed : ping.Parsed (.object 0) [.object 4] := by
    refine ⟨by decide, ⟨.object 2, .object 3, by decide, by decide, by decide⟩, ?_, ?_⟩
    · intro s hs
      obtain rfl := List.mem_singleton.mp hs
      decide
    · intro s hs
      obtain rfl := List.mem_singleton.mp hs
      exact hcalls
  obtain ⟨reported, hcreate, hiff⟩ :=
    missing_iff hparsed "/console/src/runtime/http/handlers/handlePing.ts"
  refine ⟨reported, hcreate, (hiff _).mpr ⟨by decide, by decide, by decide, ?_⟩⟩
  rintro s hs ⟨i, m, rfl, hm, hhit⟩
  obtain rfl : i = 4 := by simpa using List.mem_of_mem_filter (List.mem_of_mem_take hs)
  have hmiss : ∀ m ∈ [4, 5, 6, 7, 8], ping.hit m ≠ some true := by decide
  exact hmiss m (reaches_ping hm) hhit

end Heap

end ZodAtBoundary

end GatewayConsole
