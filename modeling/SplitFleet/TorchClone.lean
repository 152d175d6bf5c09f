import SplitFleet.Lib.Method
import SplitFleet.Lib.Pairing

set_option autoImplicit false

namespace SplitFleet.TorchClone

open Lib

/-- The identity of an object. -/
abbrev Ref := ℕ

/-- `(type(value), value.shape, value.dtype, value.device, value.layout, value.requires_grad)` -/
structure TensorSchema where
  type : String
  shape : List ℕ
  dtype : String
  device : String
  layout : String
  requiresGrad : Bool
  deriving DecidableEq

/-- A value in `vars(module)`. -/
inductive Attribute (Scalar : Type)
  | tensor
  | scalar (value : Scalar)
  | other

structure Module (Scalar : Type) where
  type : String
  training : Bool
  attributes : List (String × Attribute Scalar)
  parameters : Dict String (Option Ref)
  buffers : Dict String (Option Ref)

/-- The objects of both models. -/
structure Heap (Scalar : Type) where
  moduleAt : Ref → Module Scalar
  tensorAt : Ref → TensorSchema
  /-- `vars(other).get(name) != value` -/
  differs : Option (Attribute Scalar) → Scalar → Except PyError Bool

/-- A model as `named_modules(remove_duplicate=False)` lists it. -/
abbrev Model := Dict String Ref

inductive Getter
  | namedParameters | namedBuffers
  deriving DecidableEq

/-- The path of a module, and a name in it. -/
abbrev Name := String × String

variable {Scalar : Type} (heap : Heap Scalar)

def Getter.members (getter : Getter) (module : Module Scalar) : Dict String (Option Ref) :=
  match getter with
  | .namedParameters => module.parameters
  | .namedBuffers => module.buffers

/-- The members of a module that are not None. -/
def membersAt (getter : Getter) (path : String) (module : Ref) : List (Name × Ref) :=
  (getter.members (heap.moduleAt module)).entries.filterMap fun m ↦ m.2.map ((path, m.1), ·)

theorem mem_membersAt {getter : Getter} {path : String} {module : Ref} {p : Name × Ref} :
    p ∈ membersAt heap getter path module ↔
      p.1.1 = path ∧ (getter.members (heap.moduleAt module)).get? p.1.2 = some (some p.2) := by
  obtain ⟨⟨path', name⟩, t⟩ := p
  simp only [membersAt, List.mem_filterMap, Option.map_eq_some_iff, Prod.mk.injEq, Dict.get?_eq_some_iff]
  constructor
  · rintro ⟨⟨name', value⟩, hm, t', rfl, ⟨rfl, rfl⟩, rfl⟩
    exact ⟨rfl, hm⟩
  · rintro ⟨rfl, hm⟩
    exact ⟨(name, some t), hm, t, rfl, ⟨rfl, rfl⟩, rfl⟩

/-- The members of a module have distinct names. -/
theorem nodup_membersAt (getter : Getter) (path : String) (module : Ref) :
    ((membersAt heap getter path module).map Prod.fst).Nodup := by
  have hsub : ((membersAt heap getter path module).map Prod.fst).Sublist
      ((getter.members (heap.moduleAt module)).keys.map (path, ·)) := by
    rw [membersAt, Dict.keys, List.map_filterMap, List.map_map]
    induction (getter.members (heap.moduleAt module)).entries with
    | nil => exact .slnil
    | cons m entries ih =>
      obtain ⟨name, value⟩ := m
      cases value with
      | none => exact ih.cons _
      | some t => exact ih.cons_cons _
  exact hsub.nodup ((getter.members (heap.moduleAt module)).nodup.map fun a b h ↦ (Prod.mk.inj h).2)

theorem nodup_named (getter : Getter) (model : Model) :
    ((model.entries.flatMap fun p ↦ membersAt heap getter p.1 p.2).map Prod.fst).Nodup := by
  rw [List.map_flatMap, List.nodup_flatMap]
  refine ⟨fun p _ ↦ nodup_membersAt heap getter p.1 p.2, ?_⟩
  refine (List.pairwise_map.mp model.nodup).imp fun {p q} hne ↦ ?_
  rw [Function.onFun_apply, List.disjoint_left]
  rintro name hp hq
  obtain ⟨m, hm, rfl⟩ := List.mem_map.mp hp
  obtain ⟨m', hm', heq⟩ := List.mem_map.mp hq
  exact hne (((mem_membersAt heap).mp hm).1.symm.trans (heq ▸ ((mem_membersAt heap).mp hm').1))

/-- `dict(model.named_parameters(remove_duplicate=False))`, or the buffers. -/
def named (getter : Getter) (model : Model) : Dict Name Ref :=
  ⟨model.entries.flatMap fun p ↦ membersAt heap getter p.1 p.2, nodup_named heap getter model⟩

def unsupported (message : String) : PyError := .raised "_UnsupportedReplica" message

def sameKeys {κ υ : Type} [DecidableEq κ] (a b : Dict κ υ) : Prop :=
  (∀ k ∈ a.keys, k ∈ b.keys) ∧ ∀ k ∈ b.keys, k ∈ a.keys

instance {κ υ : Type} [DecidableEq κ] (a b : Dict κ υ) : Decidable (sameKeys a b) :=
  inferInstanceAs (Decidable (_ ∧ _))

/-- Scalar attributes are the same in the replica, and no attribute is a tensor. -/
def checkAttribute (other : Module Scalar) (item : String × Attribute Scalar) : Except PyError Unit :=
  if item.1 = "training" ∨ "_tl".toList <+: item.1.toList then return ()
  else match item.2 with
    | .tensor => throw (unsupported "unregistered tensor attribute")
    | .scalar value => do
      let differs ← heap.differs (Dict.lookup other.attributes item.1) value
      require (differs = false) (unsupported "different scalar configuration")
    | .other => return ()

/-- `target_modules[path]` -/
def atKey {υ : Type} (d : Dict Name υ) (name : Name) : Except PyError υ :=
  match d.get? name with
  | some value => .ok value
  | none => .error (.keyError name.2)

def moduleOf (model : Model) (path : String) : Except PyError Ref :=
  match model.get? path with
  | some module => .ok module
  | none => .error (.keyError path)

def bindModule (target : Model) (owners : Pairing Ref Ref) (entry : String × Ref) :
    Except PyError (Pairing Ref Ref) := do
  let other ← moduleOf target entry.1
  require ((heap.moduleAt entry.2).type = (heap.moduleAt other).type ∧
    (heap.moduleAt entry.2).training = (heap.moduleAt other).training) (unsupported "different module type or mode")
  let owners ← owners.pair (unsupported "untied module replica") (unsupported "newly tied module replica") entry.2 other
  (heap.moduleAt entry.2).attributes.forM (checkAttribute heap (heap.moduleAt other))
  return owners

def bindTensor (right : Dict Name Ref) (tensors : Pairing Ref Ref) (entry : Name × Ref) :
    Except PyError (Pairing Ref Ref) := do
  let other ← atKey right entry.1
  require (heap.tensorAt entry.2 = heap.tensorAt other) (unsupported "different tensor schema or device")
  tensors.pair (unsupported "untied replica state") (unsupported "newly tied replica state") entry.2 other

def bindGetter (source target : Model) (tensors : Pairing Ref Ref) (getter : Getter) :
    Except PyError (Pairing Ref Ref) := do
  let left := named heap getter source
  let right := named heap getter target
  require (sameKeys left right) (unsupported "different state schema")
  left.entries.foldlM (bindTensor heap right) tensors

/-- `_state_bindings`: the tensors and the modules of the replica for those of the source. -/
def stateBindings (source target : Model) : Except PyError (Pairing Ref Ref × Pairing Ref Ref) := do
  require (sameKeys source target) (unsupported "different module tree")
  let owners ← source.entries.foldlM (bindModule heap target) .empty
  let tensors ← [Getter.namedParameters, Getter.namedBuffers].foldlM (bindGetter heap source target) .empty
  return (tensors, owners)

/-! ### Values and handles -/

/-- A value in the templates of a node: a dataclass with its class, a constant by its text. -/
inductive Value
  | tensor (t : Ref)
  | dataclass (type : String) (fields : List (String × Value))
  | tuple (items : List Value)
  | list (items : List Value)
  | dict (entries : List (String × Value))
  | constant (text : String)

structure BufferHandle where
  value : Option Ref
  owner : Option Ref
  name : String
  deriving DecidableEq

/-- The module of a parameter, with the handles of its buffers. -/
structure ModuleInfo where
  address : String
  buffers : List (String × Ref)
  deriving DecidableEq

structure ParamHandle where
  address : String
  handle : Ref
  module : Option ModuleInfo
  deriving DecidableEq

inductive Handle
  | buffer (b : BufferHandle)
  | param (p : ParamHandle)
  | noncompact
  deriving DecidableEq

structure Node where
  canonicalId : String
  parents : List String
  target : String
  /-- The target is a method of a module. -/
  moduleBound : Bool
  paramRefs : List Ref
  bufferRefs : List Ref
  argsTemplate : Value
  kwargsTemplate : Value
  out : Value

structure Graph where
  nodes : List Node
  handles : Ref → Handle

section Rebind

variable (tensors owners : Pairing Ref Ref) (handles : Ref → Handle)

/-- `tensors.get(id(value), value)` -/
def tensor (t : Ref) : Ref := (tensors.forward.get? t).getD t

mutual

def template : Value → Value
  | .tensor t => .tensor (tensor tensors t)
  | .dataclass type fields => .dataclass type (templateFields fields)
  | .tuple items => .tuple (templateItems items)
  | .list items => .list (templateItems items)
  | .dict entries => .dict (templateFields entries)
  | .constant text => .constant text

def templateItems : List Value → List Value
  | [] => []
  | v :: items => template v :: templateItems items

def templateFields : List (String × Value) → List (String × Value)
  | [] => []
  | (key, v) :: fields => (key, template v) :: templateFields fields

end

/-- The handles that were made, and which of them stands for which handle of the source. -/
structure Rebinding where
  rebound : Dict Ref Ref
  made : List Handle

def Rebinding.add (s : Rebinding) (key : Ref) (h : Handle) : Rebinding :=
  ⟨s.rebound.insert key s.made.length, s.made ++ [h]⟩

/-- `rebound[key] = handle` -/
def make (key : Ref) (h : Handle) : Method Rebinding Ref := do
  let s ← get
  modify fun s ↦ s.add key h
  return s.made.length

/-- The handle of the same buffer in the replica. -/
def newBuffer (b : BufferHandle) : Except PyError BufferHandle := do
  match b.owner.bind owners.forward.get? with
  | none => throw (unsupported "unregistered buffer")
  | some newOwner =>
    match (heap.moduleAt newOwner).buffers.get? b.name with
    | none => throw (.keyError b.name)
    | some value => return ⟨value, some newOwner, b.name⟩

def buffer (key : Ref) : Method Rebinding Ref :=
  match handles key with
  | .buffer b => do
    let s ← get
    match s.rebound.get? key with
    | some r => return r
    | none => do
      let b' ← newBuffer heap owners b
      make key (.buffer b')
  | _ => throw (unsupported "noncompact buffer handle")

def rebindInfo : Option ModuleInfo → Method Rebinding (Option ModuleInfo)
  | none => return none
  | some info => do
    let buffers ← info.buffers.mapM fun item ↦ do
      let r ← buffer heap owners handles item.2
      return (item.1, r)
    return some { info with buffers := buffers }

def parameter (key : Ref) : Method Rebinding Ref :=
  match handles key with
  | .param p => do
    require ((tensors.forward.get? p.handle).isSome = true) (unsupported "noncompact or unregistered parameter")
    let s ← get
    match s.rebound.get? key with
    | some r => return r
    | none => do
      let module ← rebindInfo heap owners handles p.module
      make key (.param { p with handle := tensor tensors p.handle, module := module })
  | _ => throw (unsupported "noncompact or unregistered parameter")

def rebindNode (node : Node) : Method Rebinding Node := do
  require (node.moduleBound = false) (unsupported "module-bound target")
  let paramRefs ← node.paramRefs.mapM (parameter heap tensors owners handles)
  let bufferRefs ← node.bufferRefs.mapM (buffer heap owners handles)
  return { node with
    paramRefs := paramRefs
    bufferRefs := bufferRefs
    argsTemplate := template tensors node.argsTemplate
    kwargsTemplate := template tensors node.kwargsTemplate
    out := template tensors node.out }

end Rebind

/-- The replica's graph, once the state is bound. -/
def rebindGraph (tensors owners : Pairing Ref Ref) (g : Graph) : Except PyError Graph :=
  match (g.nodes.mapM (rebindNode heap tensors owners g.handles)).run ⟨.empty, []⟩ with
  | .ok nodes s => .ok ⟨nodes, fun r ↦ s.made.getD r .noncompact⟩
  | .error e _ => .error e

structure Runtime where
  model : Option Model
  backend : String
  /-- `request.use_live_param_sources is False` -/
  staticSources : Bool
  retainsTrace : Bool
  traceGraph : Graph

/-- The compact graph of a runtime. -/
def Runtime.sourceGraph (compactTorchGraph : Graph → Graph) (runtime : Runtime) : Graph :=
  if runtime.retainsTrace then compactTorchGraph runtime.traceGraph else runtime.traceGraph

/-- `_state_bindings`, and the graph with them. -/
def rebind (source target : Model) (g : Graph) : Except PyError Graph := do
  let bindings ← stateBindings heap source target
  rebindGraph heap bindings.1 bindings.2 g

/-- `rebind_torch_runtime`, up to the graph of the replica. A model is none where it is no module. -/
def rebindTorchRuntime (compactTorchGraph : Graph → Graph) (runtime : Runtime) (model : Option Model) :
    Except PyError (Option Graph) :=
  match runtime.model, model with
  | some source, some target =>
    if runtime.backend ≠ "torch" ∨ runtime.staticSources then .ok none
    else
      match rebind heap source target (runtime.sourceGraph compactTorchGraph) with
      | .ok g => .ok (some g)
      | .error (.raised "_UnsupportedReplica" _) => .ok none
      | .error e => .error e
  | _, _ => .ok none

end SplitFleet.TorchClone
