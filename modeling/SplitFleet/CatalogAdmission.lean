import SplitFleet.OwnershipReachability

set_option autoImplicit false

namespace SplitFleet.OwnershipGraph

open Lib StateOwnership

/-- A Torch graph with the model whose state its references hold. A reference is an object of its own, with the tensor
as its only native attribute, and no node comes before its parents. -/
structure TorchCapture where
  graph : TraceGraph
  runtime : Runtime
  /-- `ref.handle`, None where the tensor is gone. -/
  handle : ℕ → Option ℕ
  natives : ∀ object, runtime.natives object = (handle object).toList
  tensors : ∀ object t, handle object = some t → handle t = none
  state : ∀ v ∈ runtime.state.values, handle v = none
  references : ∀ node ∈ graph.nodes, ∀ ref ∈ node.refs, ref.object ∉ runtime.state.values
  resources : ∀ node ∈ graph.nodes, node.resources = []
  ordered : ∀ i j : Fin graph.nodes.length,
    (∃ parent ∈ graph.nodes[j].parents, resolve graph parent = some graph.nodes[i].canonicalId) → i < j

section Catalog

variable (handle : ℕ → Option ℕ) (g : TraceGraph)

/-- `locations.setdefault(id(value), []).append(position)` -/
def locate (locations : Dict ℕ (List ℕ)) (entry : ℕ × Ref) : Dict ℕ (List ℕ) :=
  match handle entry.2.object with
  | none => locations
  | some value => locations.insert value (((locations.get? value).getD []) ++ [entry.1])

def locations : Dict ℕ (List ℕ) :=
  (g.nodes.zipIdx.flatMap fun p ↦ p.1.refs.map fun ref ↦ (p.2, ref)).foldl (locate handle) .empty

def crossStageSpans : List (ℕ × ℕ) :=
  (locations handle g).values.map fun positions ↦ (positions.min?.getD 0, positions.max?.getD 0)

/-- The cut after `prefixNodes` nodes is rejected with `state_shared_across_stages`. -/
def sharedAcrossStages (prefixNodes : ℕ) : Bool :=
  (crossStageSpans handle g).any fun span ↦ span.1 < prefixNodes ∧ prefixNodes ≤ span.2

end Catalog

/-- The plan whose prefix is the first nodes of the graph. -/
def cutAfter (g : TraceGraph) (prefixNodes : ℕ) : SplitPlan :=
  ⟨(g.nodes.map (·.canonicalId)).take prefixNodes, (g.nodes.map (·.canonicalId)).drop prefixNodes⟩

def sharedError (name : String) : PyError :=
  .valueError ("State " ++ pyRepr name ++ " is shared across split stages; disjoint ownership required")

/-- `state_ownership` raises that a state is shared. -/
def RaisesShared (g : TraceGraph) (plan : SplitPlan) (r : Runtime) : Prop :=
  ∃ name, stateOwnership g plan r = .error (sharedError name)

end SplitFleet.OwnershipGraph
