import Mathlib.Data.String.Basic
import SplitFleet.Lib.Search
import SplitFleet.Lib.Sorting
import SplitFleet.StateOwnership

set_option autoImplicit false

namespace SplitFleet.OwnershipGraph

open Lib StateOwnership

/-- A reference of a node to a framework object, the object by its identity. -/
structure Ref where
  object : ℕ
  isTrainable : Bool

structure ParamRef extends Ref where
  /-- The live buffers of the module that the parameter belongs to. -/
  moduleBuffers : List Ref

structure Node where
  canonicalId : String
  label : String
  rawLabel : Option String
  opType : String
  isInput : Bool
  isParamSource : Bool
  isBufferOnlySource : Bool
  parents : List String
  paramRefs : List ParamRef
  bufferRefs : List Ref
  /-- `value.tensor` for the inputs of the node's target of the kind `resource`. -/
  resources : List (Option ℕ)

structure TraceGraph where
  nodes : List Node
  distinct : (nodes.map (·.canonicalId)).Nodup

structure SplitPlan where
  prefixNodeIds : List String
  suffixNodeIds : List String

/-- What `state_associations` of the model is, called. -/
inductive Associations
  | absent
  | notMapping
  | mapping (d : Dict String (List String))

/-- The model behind the handle. -/
structure Runtime where
  /-- The names of the state with the identities of their values. -/
  state : Dict String ℕ
  /-- The `value`, `handle`, `_param_ref` and `_buffer_ref` of an object, those that are there and not callable. -/
  natives : ℕ → List ℕ
  trainables : List String
  associations : Associations
  /-- `apply_statistics` is callable and `defer_statistics` holds. -/
  defersStatistics : Bool

section Identities

def visitNative (natives : ℕ → List ℕ) (acc : List ℕ × List ℕ) (item : ℕ) : List ℕ × List ℕ :=
  if item ∈ acc.2 then acc else (acc.1 ++ natives item, acc.2 ++ [item])

def nativeRounds (natives : ℕ → List ℕ) : ℕ → List ℕ → List ℕ → List ℕ
  | 0, _, identities => identities
  | n + 1, values, identities =>
    let acc := values.foldl (visitNative natives) ([], identities)
    nativeRounds natives n acc.1 acc.2

/-- `_native_identities` -/
def nativeIdentities (natives : ℕ → List ℕ) (value : Option ℕ) : List ℕ := nativeRounds natives 3 value.toList []

/-- `identities.get(identity, ())` -/
def namesOf (r : Runtime) (identity : ℕ) : List String :=
  (r.state.entries.filter fun p ↦ identity ∈ nativeIdentities r.natives (some p.2)).map Prod.fst

def matched (r : Runtime) (value : Option ℕ) : List String := (nativeIdentities r.natives value).flatMap (namesOf r)

end Identities

section Graph

/-- `str(node.op_type).lower().replace("_", "")` -/
def Node.kind (node : Node) : String := String.ofList (node.opType.toLower.toList.filter (· ≠ '_'))

def Node.isStateSource (node : Node) : Bool :=
  node.isInput || node.isParamSource || node.isBufferOnlySource ||
    ["buffer", "parameter", "getattr", "readvariableop"].contains node.kind

def Node.aliases (node : Node) : List String := node.canonicalId :: node.label :: node.rawLabel.toList

/-- `alias_nodes[key]` -/
def aliasNodes (g : TraceGraph) (key : String) : List String :=
  ((g.nodes.filter fun node ↦ key ∈ node.aliases).map (·.canonicalId)).dedup

/-- `aliases.get(key)` -/
def resolve (g : TraceGraph) (key : String) : Option String :=
  match aliasNodes g key with
  | [id] => some id
  | _ => none

def nodeById (g : TraceGraph) (id : String) : Option Node := g.nodes.find? (·.canonicalId = id)

def addChild (g : TraceGraph) (child : String) (children : Dict String (List String)) (parent : String) :
    Except PyError (Dict String (List String)) :=
  match resolve g parent with
  | none => .error (.valueError ("Native ownership has an unresolved graph parent " ++ pyRepr parent))
  | some id => .ok (children.insert id (((children.get? id).getD []).insert child))

def addChildren (g : TraceGraph) (children : Dict String (List String)) (node : Node) :
    Except PyError (Dict String (List String)) :=
  node.parents.foldlM (addChild g node.canonicalId) children

def buildChildren (g : TraceGraph) : Except PyError (Dict String (List String)) :=
  g.nodes.foldlM (addChildren g) Dict.empty

def isSourceId (g : TraceGraph) (id : String) : Bool := (nodeById g id).any (·.isStateSource)

end Graph

section Consumers

def stages (plan : SplitPlan) : List (Owner × List String) :=
  [(.prefixStage, plan.prefixNodeIds), (.suffixStage, plan.suffixNodeIds)]

/-- What one call of `consume` adds to `used`. -/
def consume (plan : SplitPlan) (referenced : List String) (id : String) : List (String × Owner) :=
  (stages plan).flatMap fun stage ↦ if id ∈ stage.2 then referenced.map fun name ↦ (name, stage.1) else []

def Node.refs (node : Node) : List Ref :=
  node.paramRefs.map (·.toRef) ++ node.bufferRefs ++ node.paramRefs.flatMap (·.moduleBuffers)

def bindRef (r : Runtime) (ref : Ref) : Except PyError (List String) := do
  let names := matched r (some ref.object)
  require (¬ (names = [] ∧ ref.isTrainable))
    (.valueError "Native trainable parameter reference cannot be bound to model state")
  return names

/-- `referenced`, the names of the state that a node refers to. -/
def referenced (r : Runtime) (node : Node) : Except PyError (List String) := do
  let names ← node.refs.mapM (bindRef r)
  return names.flatten ++ node.resources.flatMap (matched r)

/-- A child that the search comes to. -/
def consumeChild (g : TraceGraph) (plan : SplitPlan) (names : List String) (id : String) :
    Except PyError (List (String × Owner)) :=
  match nodeById g id with
  | none => .error (.keyError id)
  | some child => .ok (if child.isStateSource then [] else consume plan names id)

/-- One turn of the loop over the nodes. -/
def nodeUses (g : TraceGraph) (plan : SplitPlan) (r : Runtime) (children : Dict String (List String)) (node : Node) :
    Except PyError (List (String × Owner)) := do
  let names ← referenced r node
  if node.isStateSource then
    let frontier := (Search.neighbours children node.canonicalId).reverse
    let visited := (Search.search children (isSourceId g) frontier []).reverse
    let uses ← visited.mapM (consumeChild g plan names)
    return uses.flatten
  else return consume plan names node.canonicalId

/-- `used[name]` -/
def consumed (used : List (String × Owner)) (name : String) : List Owner :=
  [.prefixStage, .suffixStage].filter fun stage ↦ (name, stage) ∈ used

def ownerOf (used : List (String × Owner)) (name : String) : Except PyError (String × Owner) := do
  require ((consumed used name).length ≤ 1)
    (.valueError ("State " ++ pyRepr name ++ " is shared across split stages; disjoint ownership required"))
  return (name, (consumed used name).headD .initial)

end Consumers

section Declarations

def ownerByName (owners : Dict String Owner) (name : String) : Except PyError Owner :=
  match owners.get? name with
  | some owner => .ok owner
  | none => .error (.keyError name)

/-- One turn of the loop over the declared associations. -/
def declare (r : Runtime) (owners : Dict String Owner) (p : String × List String) : Except PyError (Dict String Owner) := do
  require (p.1 ∈ r.state.keys ∧ p.1 ∉ r.trainables ∧ p.2 ≠ [] ∧ ∀ anchor ∈ p.2, anchor ∈ r.trainables)
    (.valueError ("Invalid declared state association for " ++ pyRepr p.1))
  let anchored ← p.2.mapM (ownerByName owners)
  match anchored.dedup with
  | [owner] =>
    let current ← ownerByName owners p.1
    require (current = .initial ∨ current = owner)
      (.valueError ("Declared state " ++ pyRepr p.1 ++ " contradicts native ownership"))
    return owners.insert p.1 owner
  | _ => .error (.valueError ("Declared state " ++ pyRepr p.1 ++ " has ambiguous ownership"))

/-- The owners after the declared associations, and the names that these declare. -/
def associate (r : Runtime) (owners : Dict String Owner) : Except PyError (Dict String Owner × List String) :=
  match r.associations with
  | .absent => .ok (owners, [])
  | .notMapping => .error (.typeError "state_associations() must map buffer names to trainable names")
  | .mapping d => do
    let owners ← d.entries.foldlM (declare r) owners
    return (owners, d.keys)

def unproven (r : Runtime) (owners : Dict String Owner) (declared : List String) : List String :=
  r.state.keys.filter fun name ↦ name ∉ r.trainables ∧ name ∉ declared ∧ owners.get? name = some .initial

end Declarations

/-- `owner_by_name` before the declared associations. -/
def nativeOwners (g : TraceGraph) (plan : SplitPlan) (r : Runtime) : Except PyError (List (String × Owner)) := do
  require (∀ id ∈ plan.prefixNodeIds, id ∉ plan.suffixNodeIds)
    (.valueError "Native split plan has overlapping stage nodes")
  let children ← buildChildren g
  let used ← g.nodes.mapM (nodeUses g plan r children)
  r.state.keys.mapM (ownerOf used.flatten)

/-- `state_ownership`: the entries of `owners`, in the order of `names`. -/
def stateOwnership (g : TraceGraph) (plan : SplitPlan) (r : Runtime) : Except PyError (List Owner) := do
  let owners ← nativeOwners g plan r
  let (owners, declared) ← associate r (Dict.ofList owners)
  require (¬ (r.defersStatistics ∧ unproven r owners declared ≠ []))
    (.valueError ("Deferred state has no declared ownership association: " ++
      pyReprList (sortedSet (unproven r owners declared))))
  r.state.keys.mapM (ownerByName owners)

end SplitFleet.OwnershipGraph
