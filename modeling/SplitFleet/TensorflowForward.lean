import SplitFleet.Lib.Memory
import SplitFleet.Lib.Hoare
import SplitFleet.Lib.Runs

set_option autoImplicit false

namespace SplitFleet.TensorflowForward

open Lib

/-- What `getattr(variable, "value", variable)` meets. -/
inductive ValueAttribute
  | missing
  | method
  | object (o : ℕ)
  deriving DecidableEq

/-- What the code reads of an object. `spec` is the shape, the dtype and whether a variable is trainable. -/
structure PyObject (S : Type) where
  owner : Option ℕ := none
  method : Option ℕ := none
  value : ValueAttribute := .missing
  handle : Option ℕ := none
  device : Option String := none
  spec : Option S := none

def ValueAttribute.refs : ValueAttribute → List ℕ
  | .object o => [o]
  | _ => []

def PyObject.refs {S : Type} (n : PyObject S) : List ℕ :=
  n.owner.toList ++ n.method.toList ++ n.value.refs ++ n.handle.toList

abbrev Heap (A S : Type) := Memory A (PyObject S) PyObject.refs

/-- `None` is made before all other objects. -/
def pyNone : ℕ := 0

section Objects

variable {A S : Type} [DecidableEq A] [DecidableEq S] (heap : Heap A S)

/-- The object whose address stands for the loss. -/
def lossObject (function : ℕ) : ℕ :=
  if (heap.node function).method.isSome then (heap.node function).owner.getD pyNone else function

/-- `_loss_identity`: methods are compared as objects. -/
def lossIdentity (function : ℕ) : A × Option ℕ :=
  (heap.address (lossObject heap function), (heap.node function).method)

/-! ### The variables of a replica -/

def getattr {α : Type} (name : String) (x : Option α) : Except PyError α :=
  x.elim (.error (.raised "AttributeError" name)) .ok

/-- `original` -/
def originalOf (value : ℕ) : ℕ :=
  match (heap.node value).value with
  | .object o => o
  | _ => value

/-- `replacement`. It is none where a variable takes the place of one of another kind and has a method `value`. -/
def replacementOf (value other : ℕ) : Option ℕ :=
  match (heap.node value).value, (heap.node other).value with
  | .method, _ => some other
  | _, .missing => some other
  | _, .object o => some o
  | _, .method => none

/-- `(value.shape, value.dtype, value.trainable, original.device)` -/
def contractOf (value : ℕ) (original : Option ℕ) : Except PyError (S × String) := do
  let spec ← getattr "shape" (heap.node value).spec
  let device ← getattr "device" (original.bind fun o ↦ (heap.node o).device)
  return (spec, device)

/-- The three representations of a variable, each with what takes its place. -/
def representations (value other : ℕ) : Except PyError (List (ℕ × ℕ)) := do
  let original := originalOf heap value
  let left ← contractOf heap value (some original)
  let right ← contractOf heap other (replacementOf heap value other)
  require (left = right) (.valueError "TensorFlow function replica variable contract changed")
  let replacement ← getattr "device" (replacementOf heap value other)
  let handle ← getattr "handle" (heap.node original).handle
  let newHandle ← getattr "handle" (heap.node replacement).handle
  return [(value, other), (original, replacement), (handle, newHandle)]

/-- `bindings` and `reverse`, under the addresses of the objects. -/
structure Bindings (A : Type) where
  bindings : Dict A ℕ
  reverse : Dict A ℕ

def bindPair (b : Bindings A) (p : ℕ × ℕ) : Except PyError (Bindings A) := do
  require (∀ after ∈ b.bindings.get? (heap.address p.1), after = p.2)
    (.valueError "TensorFlow function replica state alias changed")
  require (∀ before ∈ b.reverse.get? (heap.address p.2), before = p.1)
    (.valueError "TensorFlow function replica state alias changed")
  return ⟨b.bindings.insert (heap.address p.1) p.2, b.reverse.insert (heap.address p.2) p.1⟩

def bindVariable (target : Dict String ℕ) (b : Bindings A) (entry : String × ℕ) : Except PyError (Bindings A) := do
  let other ← (target.get? entry.1).elim (.error (.keyError entry.1)) .ok
  let pairs ← representations heap entry.2 other
  pairs.foldlM (bindPair heap) b

/-- `_replica_bindings` of `source.canonical_variables()` and `target.canonical_variables()`. -/
def replicaBindings (source target : Dict String ℕ) : Except PyError (Dict A ℕ) := do
  require ((∀ name ∈ source.keys, name ∈ target.keys) ∧ ∀ name ∈ target.keys, name ∈ source.keys)
    (.valueError "TensorFlow function replica state names changed")
  let b ← source.entries.foldlM (bindVariable heap target) ⟨.empty, .empty⟩
  return b.bindings

end Objects

/-! ### Compiled programs -/

/-- `_CompiledSuffixTraining`: the step of one runtime with one loss. `batch` is kept in the metadata. -/
structure CompiledSuffixTraining where
  runtime : ℕ
  batch : ℤ
  lossFn : ℕ
  update : Bool
  auxiliary : Bool

structure Capture where
  object : ℕ
  /-- `capture.dtype == tf.resource` -/
  resource : Bool

/-- What TensorFlow answers to `get_concrete_function`. -/
structure Graph (I : Type) where
  capturedInputs : List Capture
  /-- The variables whose gradients the trace has recorded, as `template.variables`. -/
  suffixVariables : List ℕ
  /-- The outputs are tensors, and as many as the structure has places. -/
  flat : Bool
  inputSpecs : I

/-- The program of a template for inputs with one signature. -/
structure Concrete (σ I : Type) where
  template : CompiledSuffixTraining
  signature : Option σ
  graph : Graph I

structure ReboundSuffixTraining (σ I : Type) where
  concrete : Concrete σ I
  captures : List ℕ
  suffixVariables : List ℕ

/-- What a runtime keeps under a key. TensorFlow compiles a template of the runtime for the inputs it is made for. -/
inductive Compiled (σ I : Type)
  | own (template : CompiledSuffixTraining) (signature : Option σ)
  | rebound (function : ReboundSuffixTraining σ I)

structure Key (A σ : Type) where
  batch : ℤ
  loss : A × Option ℕ
  update : Bool
  auxiliary : Bool
  signature : Option σ
  deriving DecidableEq

/-- `TensorFlowSuffixFunctionPool`. `source` are the variables of `self.runtime.model`. -/
structure Pool (A σ I : Type) where
  runtime : ℕ
  source : Dict String ℕ
  functions : Dict (Key A σ) (CompiledSuffixTraining × Concrete σ I)
  rejected : List (Key A σ)
  compileCount : ℕ

/-- A split runtime with the variables of its model and what is put on it. -/
structure Runtime (A σ I : Type) where
  canonicalVariables : Dict String ℕ
  /-- `_splitfleet_shared_suffix_functions` -/
  pool : Option ℕ
  /-- `_splitfleet_native_training_functions` -/
  functions : Dict (Key A σ) (Compiled σ I)

/-- A process. Runtimes and pools are numbered together. -/
structure World (A S σ I : Type) where
  heap : Heap A S
  runtimes : Dict ℕ (Runtime A σ I)
  pools : Dict ℕ (Pool A σ I)
  made : ℕ

/-- A training request, and what TensorFlow answers while it is served. -/
structure Request (I T : Type) where
  batch : ℤ
  inputs : T
  lossFn : ℕ
  /-- There is an optimizer. -/
  update : Bool
  auxiliary : Bool
  /-- The policy, the version pins and the boundary. -/
  checks : Except PyError Unit
  traced : Except PyError (Graph I)
  executed : Except PyError Unit

/-- What is left to TensorFlow. -/
structure Library (T σ I : Type) where
  /-- `_input_signature` of the tensors and the targets. -/
  signature : T → Option σ
  /-- The inputs have the dtypes and the shapes of the specs. -/
  compatible : I → T → Bool
  /-- The class is derived from `ValueError`. -/
  isValueError : String → Bool

def Library.caught {T σ I : Type} (L : Library T σ I) : PyError → Bool
  | .valueError _ => true
  | .raised kind _ => L.isValueError kind
  | _ => false

section Training

variable {A S T σ I : Type} [DecidableEq A] [DecidableEq S] [DecidableEq σ] (L : Library T σ I)

def keyOf (heap : Heap A S) (q : Request I T) : Key A σ :=
  ⟨q.batch, lossIdentity heap q.lossFn, q.update, q.auxiliary, L.signature q.inputs⟩

/-- The captures with the objects of this replica in the place of resources. -/
def replaceCapture (heap : Heap A S) (bindings : Dict A ℕ) (capture : Capture) : Except PyError ℕ :=
  if capture.resource then
    (bindings.get? (heap.address capture.object)).elim
      (.error (.valueError "Unregistered resource in TensorFlow training function")) .ok
  else .ok capture.object

def replaceVariable (heap : Heap A S) (bindings : Dict A ℕ) (object : ℕ) : Except PyError ℕ :=
  (bindings.get? (heap.address object)).elim (.error (.valueError "Unregistered native suffix optimizer variable")) .ok

/-- `_ReboundSuffixTraining(template, concrete, source, target)` -/
def rebind (heap : Heap A S) (concrete : Concrete σ I) (source target : Dict String ℕ) :
    Except PyError (ReboundSuffixTraining σ I) := do
  let bindings ← replicaBindings heap source target
  let captures ← concrete.graph.capturedInputs.mapM (replaceCapture heap bindings)
  let suffixVariables ← concrete.graph.suffixVariables.mapM (replaceVariable heap bindings)
  require concrete.graph.flat (.valueError "Unsupported native suffix function output structure")
  return ⟨concrete, captures, suffixVariables⟩

/-- The template and the program that a pool makes for a request. -/
def Pool.compiledFor (heap : Heap A S) (q : Request I T) (pool : Pool A σ I) (graph : Graph I) :
    CompiledSuffixTraining × Concrete σ I :=
  let template : CompiledSuffixTraining := ⟨pool.runtime, q.batch, q.lossFn, q.update, q.auxiliary⟩
  (template, ⟨template, (keyOf L heap q).signature, graph⟩)

/-- `pool.bind` for a runtime with these variables. The first result is the pool afterwards. -/
def Pool.bind (heap : Heap A S) (q : Request I T) (target : Dict String ℕ) (pool : Pool A σ I) :
    Pool A σ I × Except PyError (Option (ReboundSuffixTraining σ I)) :=
  let key := keyOf L heap q
  if key ∈ pool.rejected then (pool, .ok none)
  else
    match pool.functions.get? key with
    | some (_, concrete) => (pool, some <$> rebind heap concrete pool.source target)
    | none =>
      match q.traced with
      | .error e => (pool, .error e)
      | .ok graph =>
        let compiled := pool.compiledFor L heap q graph
        match rebind heap compiled.2 pool.source target with
        | .ok bound =>
          ({ pool with
            functions := pool.functions.insert key compiled
            compileCount := pool.compileCount + 1 }, .ok (some bound))
        | .error e =>
          if L.caught e then ({ pool with rejected := key :: pool.rejected }, .ok none) else (pool, .error e)

/-- `pool.bind` on the pool of a runtime. A `ValueError` leaves the runtime with a function of its own. -/
def bindShared (q : Request I T) (target : Dict String ℕ) (p : ℕ) :
    Method (World A S σ I) (Option (ReboundSuffixTraining σ I)) := do
  let w ← get
  match w.pools.get? p with
  | none => throw (.raised "AttributeError" "bind")
  | some pool =>
    let (pool, answer) := pool.bind L w.heap q target
    modify fun w ↦ { w with pools := w.pools.insert p pool }
    match answer with
    | .ok bound => return bound
    | .error e => if L.caught e then return none else throw e

/-- The pool is asked where the runtime has one and the inputs have a signature. -/
def askPool (runtime : Runtime A σ I) (q : Request I T) (key : Key A σ) :
    Method (World A S σ I) (Option (ReboundSuffixTraining σ I)) :=
  match runtime.pool with
  | some p => if key.signature.isSome then bindShared L q runtime.canonicalVariables p else pure none
  | none => pure none

/-- The function of the pool, or else one that the runtime keeps for itself. -/
def chosen (r : ℕ) (q : Request I T) : Option (ReboundSuffixTraining σ I) → Compiled σ I
  | some function => .rebound function
  | none => .own ⟨r, q.batch, q.lossFn, q.update, q.auxiliary⟩ (L.signature q.inputs)

/-- The runtime with one more program. -/
def Runtime.put (runtime : Runtime A σ I) (k : Key A σ) (compiled : Compiled σ I) : Runtime A σ I :=
  { runtime with functions := runtime.functions.insert k compiled }

/-- What a runtime has for the request, made where there is nothing yet. -/
def compile (r : ℕ) (runtime : Runtime A σ I) (q : Request I T) : Method (World A S σ I) (Compiled σ I) := do
  let w ← get
  let key := keyOf L w.heap q
  match runtime.functions.get? key with
  | some compiled => return compiled
  | none =>
    let bound ← askPool L runtime q key
    modify fun w ↦ { w with runtimes := w.runtimes.insert r (runtime.put key (chosen L r q bound)) }
    return chosen L r q bound

/-- `compiled(boundary.tensors, targets, optimizer)` -/
def execute (q : Request I T) : Compiled σ I → Except PyError Unit
  | .own _ _ => q.executed
  | .rebound function => do
    require (L.compatible function.concrete.graph.inputSpecs q.inputs)
      (.valueError "Rebound TensorFlow suffix input contract changed")
    q.executed

/-- `train_tensorflow_function_suffix`, which returns the program that it has executed. -/
def trainTensorflowFunctionSuffix (r : ℕ) (q : Request I T) : Method (World A S σ I) (Compiled σ I) := do
  liftM q.checks
  let w ← get
  match w.runtimes.get? r with
  | none => throw (.raised "ReferenceError" "runtime")
  | some runtime =>
    let compiled ← compile L r runtime q
    liftM (execute L q compiled)
    return compiled

/-! ### Histories -/

/-- Objects that are referred to from pools and runtimes. -/
def Pool.roots (pool : Pool A σ I) : List ℕ :=
  pool.source.values ++ pool.functions.values.flatMap fun f ↦
    f.1.lossFn :: f.2.graph.capturedInputs.map Capture.object ++ f.2.graph.suffixVariables

def Compiled.roots : Compiled σ I → List ℕ
  | .own template _ => [template.lossFn]
  | .rebound function => function.captures ++ function.suffixVariables

def Runtime.roots (runtime : Runtime A σ I) : List ℕ :=
  runtime.canonicalVariables.values ++ runtime.functions.values.flatMap Compiled.roots

def World.roots (w : World A S σ I) : List ℕ :=
  pyNone :: w.runtimes.values.flatMap Runtime.roots ++ w.pools.values.flatMap Pool.roots

/-- What happens in the process. An object, a runtime or a pool that nothing refers to may go at any time. -/
inductive Event (A S I T : Type)
  | create (address : A) (object : PyObject S)
  | prepare (canonicalVariables : Dict String ℕ)
  | clone (base : ℕ) (canonicalVariables : Dict String ℕ)
  | dropRuntime (r : ℕ)
  | dropPool (p : ℕ)
  | collect (keep : ℕ → Bool)
  | train (r : ℕ) (q : Request I T)

/-- A runtime over live variables. -/
def World.newRuntime (w : World A S σ I) (canonicalVariables : Dict String ℕ) (pool : Option ℕ) : World A S σ I :=
  { w with runtimes := w.runtimes.insert w.made ⟨canonicalVariables, pool, .empty⟩, made := w.made + 1 }

/-- The pool of a runtime, made where there is none. -/
def World.sharedPool (w : World A S σ I) (base : ℕ) (runtime : Runtime A σ I) : ℕ × World A S σ I :=
  match runtime.pool with
  | some p => (p, w)
  | none =>
    (w.made, { w with
      runtimes := w.runtimes.insert base { runtime with pool := some w.made }
      pools := w.pools.insert w.made ⟨base, runtime.canonicalVariables, .empty, [], 0⟩
      made := w.made + 1 })

/-- `clone` is what `clone_tensorflow_runtime_handle` does to the pool. -/
def step (w : World A S σ I) : Event A S I T → Option (World A S σ I)
  | .create address object =>
    if h : w.heap.Free address ∧ ∀ p ∈ object.refs, p ∈ w.heap.live then
      some { w with heap := w.heap.allocate address object h.1 h.2 }
    else none
  | .prepare canonicalVariables =>
    if ∀ o ∈ canonicalVariables.values, o ∈ w.heap.live then some (w.newRuntime canonicalVariables none) else none
  | .clone base canonicalVariables =>
    match w.runtimes.get? base with
    | none => none
    | some runtime =>
      if ∀ o ∈ canonicalVariables.values, o ∈ w.heap.live then
        some ((w.sharedPool base runtime).2.newRuntime canonicalVariables (some (w.sharedPool base runtime).1))
      else none
  | .dropRuntime r => some { w with runtimes := w.runtimes.erase r }
  | .dropPool p =>
    if ∀ runtime ∈ w.runtimes.values, runtime.pool ≠ some p then some { w with pools := w.pools.erase p } else none
  | .collect keep =>
    if h : (∀ o ∈ w.heap.live, keep o = true → ∀ p ∈ (w.heap.node o).refs, keep p = true) ∧
        ∀ o ∈ w.roots, keep o = true then
      some { w with heap := w.heap.collect keep h.1 }
    else none
  | .train r q => some ((trainTensorflowFunctionSuffix L r q).after w)

/-- A request brings a loss that is there, and TensorFlow captures objects that are there. -/
def Admitted (w : World A S σ I) : Event A S I T → Prop
  | .train _ q => q.lossFn ∈ w.heap.live ∧ ∀ graph, q.traced = .ok graph →
      (∀ c ∈ graph.capturedInputs, c.object ∈ w.heap.live) ∧ ∀ o ∈ graph.suffixVariables, o ∈ w.heap.live
  | _ => True

/-- Only `None` is there. -/
def start (address : A) : World A S σ I where
  heap :=
    { live := [pyNone], address := fun _ ↦ address, node := fun _ ↦ {}, count := 1
      lt_count := by simp [pyNone]
      address_inj := by simp
      closed := fun _ _ p hp ↦ absurd hp List.not_mem_nil }
  runtimes := .empty
  pools := .empty
  made := 0

end Training

end SplitFleet.TensorflowForward
