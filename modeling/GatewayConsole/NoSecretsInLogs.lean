import GatewayConsole.Js

/-!
# No secrets in logs

`lint/eslint-plugin-livepeer-gateway-console/rules/no-secrets-in-logs.js`: the lint rule that
looks for the names of secrets in the arguments of log calls.

The check of an argument looks at the name that the argument is or ends in, and goes on into
object literals only. `mem_checkExpression` is what it finds, over all expressions;
`reported_iff` compares that with the names an argument mentions anywhere.
-/

namespace GatewayConsole

namespace NoSecretsInLogs

/-! ## Syntax trees -/

/-- A node of the syntax tree, with the children in their order. The rule does not read whether
a property is computed, nor the text of a literal other than a string. -/
inductive Node where
  | identifier (name : String)
  | privateIdentifier (name : String)
  | literal (text : Option String)
  | memberExpression (object property : Node)
  | objectExpression (properties : List Node)
  | property (key value : Node)
  | spreadElement (argument : Node)
  | arrayExpression (elements : List Node)
  | templateLiteral (expressions : List Node)
  | binaryExpression (left right : Node)
  | conditionalExpression (test consequent alternate : Node)
  | callExpression (callee : Node) (arguments : List Node)
  | other (children : List Node)

namespace Node

def children : Node → List Node
  | identifier _ | privateIdentifier _ | literal _ => []
  | memberExpression object prop => [object, prop]
  | objectExpression properties => properties
  | property key value => [key, value]
  | spreadElement argument => [argument]
  | arrayExpression elements => elements
  | templateLiteral expressions => expressions
  | binaryExpression left right => [left, right]
  | conditionalExpression test consequent alternate => [test, consequent, alternate]
  | callExpression callee arguments => callee :: arguments
  | other children => children

def arguments : Node → List Node
  | callExpression _ arguments => arguments
  | _ => []

mutual

/-- The node and all those below it, in the order of a traversal. -/
def nodes : Node → List Node
  | identifier name => [identifier name]
  | privateIdentifier name => [privateIdentifier name]
  | literal text => [literal text]
  | memberExpression object prop =>
      memberExpression object prop :: (object.nodes ++ prop.nodes)
  | objectExpression properties => objectExpression properties :: nodesOf properties
  | property key value => property key value :: (key.nodes ++ value.nodes)
  | spreadElement argument => spreadElement argument :: argument.nodes
  | arrayExpression elements => arrayExpression elements :: nodesOf elements
  | templateLiteral expressions => templateLiteral expressions :: nodesOf expressions
  | binaryExpression left right => binaryExpression left right :: (left.nodes ++ right.nodes)
  | conditionalExpression test consequent alternate =>
      conditionalExpression test consequent alternate
        :: (test.nodes ++ consequent.nodes ++ alternate.nodes)
  | callExpression callee arguments =>
      callExpression callee arguments :: (callee.nodes ++ nodesOf arguments)
  | other children => other children :: nodesOf children

def nodesOf : List Node → List Node
  | [] => []
  | n :: rest => n.nodes ++ nodesOf rest

end

theorem nodesOf_eq : ∀ l : List Node, nodesOf l = l.flatMap nodes
  | [] => rfl
  | n :: rest => by rw [nodesOf, nodesOf_eq rest, List.flatMap_cons]

theorem nodes_eq (n : Node) : n.nodes = n :: n.children.flatMap nodes := by
  cases n <;> simp [nodes, children, nodesOf_eq]

theorem mem_nodes_self (n : Node) : n ∈ n.nodes := by
  rw [nodes_eq]
  exact List.mem_cons_self

theorem mem_nodes_of_child {n c m : Node} (hc : c ∈ n.children) (hm : m ∈ c.nodes) :
    m ∈ n.nodes := by
  rw [nodes_eq]
  exact List.mem_cons_of_mem _ (List.mem_flatMap.mpr ⟨c, hc, hm⟩)

end Node

/-! ## The rule -/

/-- `/^word$/i`, or `/^first[_-]?second$/i`. -/
inductive SecretPattern where
  | word (word : String)
  | words (first second : String)
deriving Repr, DecidableEq

def secretPatterns : List SecretPattern :=
  [.words "api" "key", .words "admin" "token", .word "bearer", .words "private" "key",
    .word "keystore", .word "passphrase", .word "password", .word "secret",
    .words "webhook" "secret", .word "signature"]

def SecretPattern.test : SecretPattern → String → Bool
  | word w, name => asciiLower name = w
  | words first second, name =>
      asciiLower name = first ++ second || asciiLower name = first ++ "_" ++ second
        || asciiLower name = first ++ "-" ++ second

def isSecretName (name : String) : Bool := secretPatterns.any (·.test name)

/-- The object at the start of a chain of member accesses. -/
def baseObject : Node → Node
  | .memberExpression object _ => baseObject object
  | n => n

def isLogCall : Node → Bool
  | .callExpression (.memberExpression object (.identifier method)) _ =>
      ["log", "warn", "error", "info", "debug", "trace"].contains method
        && match baseObject object with
          | .identifier name =>
              name = "console" || name = "logger" || name = "req" || name = "reply"
          | _ => false
  | _ => false

/-- A report of the rule, with its data. -/
inductive Report where
  | identifier (name : String)
  | key (name : String)
deriving Repr, DecidableEq

def Report.name : Report → String
  | identifier name | key name => name

/-- The name of a key, if it is written there. -/
def keyName : Node → Option String
  | .identifier name => some name
  | .literal text => text
  | _ => none

/-- The report on the key of a property. -/
def checkKey (key : Node) : List Report :=
  match keyName key with
  | some name => if name ≠ "" ∧ isSecretName name then [.key name] else []
  | none => []

mutual

def checkExpression : Node → List Report
  | .identifier name => if isSecretName name then [.identifier name] else []
  | .objectExpression properties => checkProperties properties
  | .memberExpression _ (.identifier name) =>
      if isSecretName name then [.identifier name] else []
  | _ => []

/-- The loop over the properties of an object literal. -/
def checkProperties : List Node → List Report
  | [] => []
  | .property key value :: rest => checkKey key ++ checkExpression value ++ checkProperties rest
  | _ :: rest => checkProperties rest

end

/-- The visitor of a call. -/
def callExpression (node : Node) : List Report :=
  if isLogCall node then node.arguments.flatMap checkExpression else []

/-- The reports on a tree. -/
def lint (tree : Node) : List Report := tree.nodes.flatMap callExpression

/-! ## What is mentioned, and what is checked -/

/-- The name a node shows: an identifier's own, the property of a member access, the key of a
property. -/
def Node.name? : Node → Option String
  | .identifier name => some name
  | .memberExpression _ (.identifier name) => some name
  | .memberExpression _ (.privateIdentifier name) => some name
  | .property key _ => keyName key
  | _ => none

/-- The name occurs anywhere in the expression. -/
def Mentions (arg : Node) (name : String) : Prop := ∃ n ∈ arg.nodes, n.name? = some name

/-- A place in an expression that the check looks at, as it would be reported: the name that
the expression is or ends in, and, within object literals, each key and what is checked of
each value. -/
inductive Checked : Node → Report → Prop where
  | identifier {name : String} : Checked (.identifier name) (.identifier name)
  | member {object : Node} {name : String} :
      Checked (.memberExpression object (.identifier name)) (.identifier name)
  | key {properties : List Node} {key value : Node} {name : String}
      (hmem : .property key value ∈ properties) (hkey : keyName key = some name) :
      Checked (.objectExpression properties) (.key name)
  | value {properties : List Node} {key value : Node} {r : Report}
      (hmem : .property key value ∈ properties) (hvalue : Checked value r) :
      Checked (.objectExpression properties) r

theorem isSecretName_ne_empty {name : String} (h : isSecretName name = true) : name ≠ "" := by
  rintro rfl
  exact absurd h (by decide)

/-- What is checked is mentioned. -/
theorem Checked.mentions {e : Node} {r : Report} (h : Checked e r) : Mentions e r.name := by
  induction h with
  | identifier => exact ⟨_, Node.mem_nodes_self _, rfl⟩
  | member => exact ⟨_, Node.mem_nodes_self _, rfl⟩
  | key hmem hkey => exact ⟨_, Node.mem_nodes_of_child hmem (Node.mem_nodes_self _), hkey⟩
  | value hmem _ ih =>
      obtain ⟨n, hn, hname⟩ := ih
      refine ⟨n, Node.mem_nodes_of_child hmem (Node.mem_nodes_of_child ?_ hn), hname⟩
      exact List.mem_cons_of_mem _ List.mem_cons_self

theorem mem_identifier_iff {name : String} {r : Report} :
    r ∈ (if isSecretName name then [Report.identifier name] else [])
      ↔ r = .identifier name ∧ isSecretName r.name = true := by
  split
  · rename_i h
    exact ⟨fun hr => by rw [List.mem_singleton.mp hr]; exact ⟨rfl, h⟩,
      fun hr => List.mem_singleton.mpr hr.1⟩
  · rename_i h
    refine ⟨fun hr => absurd hr List.not_mem_nil, ?_⟩
    rintro ⟨rfl, hr⟩
    exact absurd hr h

theorem mem_checkKey {key : Node} {r : Report} :
    r ∈ checkKey key
      ↔ ∃ name, keyName key = some name ∧ r = .key name ∧ isSecretName r.name = true := by
  unfold checkKey
  split
  · rename_i name hkey
    rw [hkey]
    split
    · rename_i h
      constructor
      · intro hr
        obtain rfl := List.mem_singleton.mp hr
        exact ⟨name, rfl, rfl, h.2⟩
      · rintro ⟨_, heq, rfl, -⟩
        rw [Option.some.inj heq]
        exact List.mem_singleton_self _
    · rename_i h
      refine ⟨fun hr => absurd hr List.not_mem_nil, ?_⟩
      rintro ⟨_, heq, rfl, hr⟩
      obtain rfl := Option.some.inj heq
      exact absurd ⟨isSecretName_ne_empty hr, hr⟩ h
  · rename_i hkey
    refine ⟨fun hr => absurd hr List.not_mem_nil, ?_⟩
    rintro ⟨_, hsome, -⟩
    rw [hkey] at hsome
    cases hsome

/-- Nothing is looked at in the other expressions. -/
theorem not_checked_of_empty {e : Node} {r : Report} (hempty : checkExpression e = [])
    (hchecked : ¬Checked e r) :
    r ∈ checkExpression e ↔ Checked e r ∧ isSecretName r.name = true := by
  rw [hempty]
  exact ⟨fun hr => absurd hr List.not_mem_nil, fun h => absurd h.1 hchecked⟩

theorem mem_check_member {object prop : Node} {r : Report} :
    r ∈ checkExpression (.memberExpression object prop)
      ↔ Checked (.memberExpression object prop) r ∧ isSecretName r.name = true := by
  cases prop with
  | identifier name =>
      rw [checkExpression, mem_identifier_iff]
      constructor
      · rintro ⟨rfl, h⟩
        exact ⟨.member, h⟩
      · rintro ⟨⟨⟩, h⟩
        exact ⟨rfl, h⟩
  | _ => exact not_checked_of_empty (by simp [checkExpression]) (by rintro ⟨⟩)

mutual

/-- **What the check of an argument reports**: the names of secrets at the places it looks
at. -/
theorem mem_checkExpression {r : Report} :
    ∀ e : Node, r ∈ checkExpression e ↔ Checked e r ∧ isSecretName r.name = true
  | .identifier name => by
      rw [checkExpression, mem_identifier_iff]
      constructor
      · rintro ⟨rfl, h⟩
        exact ⟨.identifier, h⟩
      · rintro ⟨⟨⟩, h⟩
        exact ⟨rfl, h⟩
  | .memberExpression _ _ => mem_check_member
  | .objectExpression properties => by
      rw [checkExpression, mem_checkProperties properties]
      constructor
      · rintro ⟨key, value, hmem, (⟨name, hkey, rfl, h⟩ | ⟨hvalue, h⟩)⟩
        · exact ⟨.key hmem hkey, h⟩
        · exact ⟨.value hmem hvalue, h⟩
      · rintro ⟨hchecked, h⟩
        cases hchecked with
        | key hmem hkey => exact ⟨_, _, hmem, Or.inl ⟨_, hkey, rfl, h⟩⟩
        | value hmem hvalue => exact ⟨_, _, hmem, Or.inr ⟨hvalue, h⟩⟩
  | .privateIdentifier _ | .literal _ | .property _ _ | .spreadElement _ | .arrayExpression _
  | .templateLiteral _ | .binaryExpression _ _ | .conditionalExpression _ _ _
  | .callExpression _ _ | .other _ =>
      not_checked_of_empty (by simp [checkExpression]) (by rintro ⟨⟩)

theorem mem_checkProperties {r : Report} : ∀ properties : List Node,
    r ∈ checkProperties properties ↔ ∃ key value, .property key value ∈ properties
      ∧ ((∃ name, keyName key = some name ∧ r = .key name ∧ isSecretName r.name = true)
        ∨ Checked value r ∧ isSecretName r.name = true)
  | [] => by simp [checkProperties]
  | .property key value :: rest => by
      rw [checkProperties, List.mem_append, List.mem_append, mem_checkKey,
        mem_checkExpression value, mem_checkProperties rest]
      constructor
      · rintro ((hkey | hvalue) | ⟨k, v, hmem, h⟩)
        · exact ⟨key, value, List.mem_cons_self, Or.inl hkey⟩
        · exact ⟨key, value, List.mem_cons_self, Or.inr hvalue⟩
        · exact ⟨k, v, List.mem_cons_of_mem _ hmem, h⟩
      · rintro ⟨k, v, hmem, h⟩
        cases hmem with
        | head => exact Or.inl h
        | tail _ hmem => exact Or.inr ⟨k, v, hmem, h⟩
  | .identifier _ :: rest | .privateIdentifier _ :: rest | .literal _ :: rest
  | .memberExpression _ _ :: rest | .objectExpression _ :: rest | .spreadElement _ :: rest
  | .arrayExpression _ :: rest | .templateLiteral _ :: rest | .binaryExpression _ _ :: rest
  | .conditionalExpression _ _ _ :: rest | .callExpression _ _ :: rest | .other _ :: rest => by
      simpa [checkProperties] using mem_checkProperties rest

end

/-! ## What is reported -/

theorem mem_lint {tree : Node} {r : Report} :
    r ∈ lint tree ↔ ∃ call ∈ tree.nodes, isLogCall call = true
      ∧ ∃ arg ∈ call.arguments, Checked arg r ∧ isSecretName r.name = true := by
  rw [lint, List.mem_flatMap]
  refine exists_congr fun call => and_congr_right fun _ => ?_
  rw [callExpression]
  split
  · rename_i hlog
    simp only [List.mem_flatMap, mem_checkExpression, hlog, true_and]
  · rename_i hlog
    exact ⟨fun hr => absurd hr List.not_mem_nil, fun h => absurd h.1 hlog⟩

/-- A report names a secret that an argument of a log call mentions. -/
theorem lint_sound {tree : Node} {r : Report} (h : r ∈ lint tree) :
    ∃ call ∈ tree.nodes, isLogCall call = true
      ∧ ∃ arg ∈ call.arguments, Mentions arg r.name ∧ isSecretName r.name = true := by
  obtain ⟨call, hcall, hlog, arg, harg, hchecked, hsecret⟩ := mem_lint.mp h
  exact ⟨call, hcall, hlog, arg, harg, hchecked.mentions, hsecret⟩

/-- A call with this argument is reported if the argument mentions a secret. -/
def Reported (call arg : Node) : Prop :=
  ∀ name, Mentions arg name → isSecretName name = true → lint call ≠ []

/-- **The rule is complete where the secret stands at a place it looks at.** A log call with
an argument that mentions a secret is reported exactly if a secret, this one or another, is
at such a place: in an argument of this call or of a log call within it. -/
theorem reported_iff (call arg : Node) :
    Reported call arg
      ↔ (∀ name, Mentions arg name → isSecretName name = false)
        ∨ ∃ c ∈ call.nodes, isLogCall c = true
          ∧ ∃ a ∈ c.arguments, ∃ r, Checked a r ∧ isSecretName r.name = true := by
  have hlint : lint call ≠ [] ↔ ∃ c ∈ call.nodes, isLogCall c = true
      ∧ ∃ a ∈ c.arguments, ∃ r, Checked a r ∧ isSecretName r.name = true := by
    constructor
    · intro hne
      obtain ⟨r, hr⟩ := List.exists_mem_of_ne_nil _ hne
      obtain ⟨c, hc, hlog, a, ha, h⟩ := mem_lint.mp hr
      exact ⟨c, hc, hlog, a, ha, r, h⟩
    · rintro ⟨c, hc, hlog, a, ha, r, h⟩
      exact List.ne_nil_of_mem (mem_lint.mpr ⟨c, hc, hlog, a, ha, h⟩)
  rw [← hlint]
  constructor
  · intro h
    by_cases hreport : lint call = []
    · refine Or.inl fun name hname => ?_
      by_contra hsecret
      exact h name hname (Bool.not_eq_false _ ▸ hsecret) hreport
    · exact Or.inr hreport
  · rintro (hno | hreport) name hname hsecret
    · rw [hno name hname] at hsecret
      cases hsecret
    · exact hreport

/-- The call of ``console.log(`token ${bearer}`)``. -/
def templateCall : Node :=
  .callExpression (.memberExpression (.identifier "console") (.identifier "log"))
    [.templateLiteral [.identifier "bearer"]]

/-- In a template the token itself goes to the log, and nothing is reported. -/
theorem not_reported_template :
    isLogCall templateCall = true ∧ lint templateCall = []
      ∧ ∃ arg ∈ templateCall.arguments, Mentions arg "bearer" ∧ isSecretName "bearer" = true
        ∧ ¬Reported templateCall arg := by
  have hlint : lint templateCall = [] := by decide
  have hmentions : Mentions (.templateLiteral [.identifier "bearer"]) "bearer" :=
    ⟨.identifier "bearer", List.mem_cons_of_mem _ List.mem_cons_self, rfl⟩
  have hsecret : isSecretName "bearer" = true := by decide
  exact ⟨rfl, hlint, _, List.mem_cons_self, hmentions, hsecret,
    fun h => h "bearer" hmentions hsecret hlint⟩

end NoSecretsInLogs

end GatewayConsole
