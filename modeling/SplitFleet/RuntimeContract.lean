import SplitFleet.Lib.JsonSorted

set_option autoImplicit false

namespace SplitFleet.RuntimeContract

open Lib Lib.JsonText

/-! ### Values of Python -/

/-- A value that may come into a contract. -/
inductive Object
  | null
  | bool (b : Bool)
  | int (z : ℤ)
  | float (x : Float.Model)
  | str (s : Text)
  /-- A list or a tuple. -/
  | list (items : List Object)
  /-- A mapping, with its keys as `str` gives them. -/
  | dict (fields : List (Text × Object))
  /-- A data class, or an object with `to_dict`. -/
  | record (fields : List (Text × Object))
  | tensor (dtype : Text) (shape : List ℤ) (requiresGrad : Bool)
  | ndarray (dtype : Text) (shape : List ℤ)
  /-- Any other object, by its text. -/
  | other (text : Text)

/-- What the language does with the values that are no plain text, number or list. -/
structure Builtins where
  str : Object → Text
  int : Object → Except PyError ℤ
  truth : Object → Except PyError Bool
  list : Object → Except PyError (List Object)
  getattr : Object → String → Option Object

section Language

variable (B : Builtins)

def strOf : Object → Text
  | .str s => s
  | .other text => text
  | v => B.str v

def intOf : Object → Except PyError ℤ
  | .int z => .ok z
  | .bool b => .ok (if b then 1 else 0)
  | v => B.int v

def truthOf : Object → Except PyError Bool
  | .null => .ok false
  | .bool b => .ok b
  | .int z => .ok (z ≠ 0)
  | .str s => .ok (s ≠ [])
  | .list items => .ok !items.isEmpty
  | .dict fields => .ok !fields.isEmpty
  | v => B.truth v

def listOf : Object → Except PyError (List Object)
  | .list items => .ok items
  | .dict fields => .ok (fields.map fun p ↦ .str p.1)
  | v => B.list v

def attrOf (v : Object) (name : String) : Option Object :=
  match v with
  | .record fields => Dict.lookup fields (.ofString name)
  | v => B.getattr v name

/-- `a or b` -/
def pyOr (a b : Object) : Except PyError Object := do
  if ← truthOf B a then return a else return b

/-- `a or b` of two texts -/
def orText (a b : Text) : Text := if a = [] then b else a

/-- `str(a or b)` -/
def strOr (a b : Object) : Except PyError Text := do
  let v ← pyOr B a b
  return strOf B v

/-- `text.replace(sub, "")`, where `n` characters of an occurrence are still to be dropped. -/
def removeAll (sub : Text) : ℕ → Text → Text
  | _, [] => []
  | n + 1, _ :: t => removeAll sub n t
  | 0, c :: t => if sub.isPrefixOf (c :: t) then removeAll sub (sub.length - 1) t else c :: removeAll sub 0 t

def withoutTorch (t : Text) : Text := removeAll (.ofString "torch.") 0 t

end Language

def literal (s : String) : Object := .str (.ofString s)

def named {α : Type} (fields : List (String × α)) : List (Text × α) := fields.map fun p ↦ (.ofString p.1, p.2)

def dictOf (fields : List (String × Object)) : Object := .dict (named fields)

/-- `fields.get(key)` -/
def getKey (fields : List (Text × Object)) (key : String) : Object :=
  (Dict.lookup fields (.ofString key)).getD .null

/-! ### `_json_safe` and what is made of it -/

def symbolicShape : List ℤ → Value
  | [] => .arr []
  | _ :: dims => .arr (.str (.ofString "B") :: dims.map .int)

mutual

/-- `_json_safe` -/
def jsonSafe : Object → Value
  | .null => .null
  | .bool b => .bool b
  | .int z => .int z
  | .float x => .float x
  | .str s => .str s
  | .list items => .arr (safeItems items)
  | .dict fields => .obj (assignAll (safeFields fields))
  | .record fields => .obj (assignAll (safeFields fields))
  | .tensor dtype shape requiresGrad => .obj (named [("kind", .str (.ofString "torch.Tensor")),
      ("dtype", .str (withoutTorch dtype)), ("symbolic_shape", symbolicShape shape),
      ("requires_grad", .bool requiresGrad)])
  | .ndarray dtype shape => .obj (named [("kind", .str (.ofString "numpy.ndarray")), ("dtype", .str dtype),
      ("symbolic_shape", symbolicShape shape)])
  | .other text => .str text

def safeItems : List Object → List Value
  | [] => []
  | v :: items => jsonSafe v :: safeItems items

def safeFields : List (Text × Object) → List (Text × Value)
  | [] => []
  | (k, v) :: fields => (k, jsonSafe v) :: safeFields fields

end

mutual

/-- A value of JSON as a value of Python. -/
def Object.ofValue : Value → Object
  | .null => .null
  | .bool b => .bool b
  | .int z => .int z
  | .float x => .float x
  | .str s => .str s
  | .arr items => .list (ofItems items)
  | .obj fields => .dict (ofFields fields)

def ofItems : List Value → List Object
  | [] => []
  | v :: items => Object.ofValue v :: ofItems items

def ofFields : List (Text × Value) → List (Text × Object)
  | [] => []
  | (k, v) :: fields => (k, Object.ofValue v) :: ofFields fields

end

def stableJson (depth : ℕ) (v : Object) : Except PyError (List Char) := write .compact (jsonSafe v).sorted depth

/-- `stable_digest`, with the hash function of the standard library as a parameter. -/
def stableDigest (sha1 : List Char → String) (depth : ℕ) (v : Object) : Except PyError String :=
  (stableJson depth v).map sha1

/-! ### The ABI of the features at a cut -/

section Abi

variable (B : Builtins)

def normaliseDtype (v : Object) : Except PyError Text := do
  let text ← strOr B v (.str [])
  return withoutTorch text

/-- `_normalise_shape_dim` -/
def normaliseShapeDim (v : Object) : Except PyError Object :=
  match intOf B v with
  | .ok z => .ok (.int z)
  | .error (.typeError _) => .ok (.str (strOf B v))
  | .error (.valueError _) => .ok (.str (strOf B v))
  | .error e => .error e

/-- `_symbolize_batch_shape` -/
def symbolizeBatchShape (symbol : Text) : Object → Except PyError Object
  | .list (_ :: dims) => do
    let dims ← dims.mapM (normaliseShapeDim B)
    return .list (.str symbol :: dims)
  | _ => .ok (.list [])

def normaliseDynamicBatch : Option (ℤ × ℤ) → Object
  | none => .null
  | some (low, high) => .list [.int low, .int high]

/-- The fields of a boundary specification: a mapping, or the attributes of an object. -/
def specPayload (label : Text) (spec : Object) : Except PyError (List (Text × Object)) :=
  match spec with
  | .dict fields => .ok fields
  | spec => do
    let attr (name : String) (default : Object) : Object := (attrOf B spec name).getD default
    let shape ← pyOr B (attr "shape" .null) (.list [])
    return named [("canonical_id", attr "canonical_id" (.str label)),
      ("torchlens_label", attr "torchlens_label" (.str label)), ("module_path", attr "module_path" (.str [])),
      ("op_type", attr "op_type" (.str [])), ("symbolic_shape", shape), ("dtype", attr "dtype" (.str [])),
      ("requires_grad", attr "requires_grad" (.bool false)), ("role", attr "role" (literal "primary")),
      ("output_index", attr "output_index" .null), ("device_policy", attr "device_policy" (literal "runtime"))]

/-- One entry of `_normalise_boundary_schema`. -/
def schemaRow (symbol label : Text) (spec : Object) : Except PyError Object := do
  let payload ← specPayload B label spec
  let canonicalId ← strOr B (getKey payload "canonical_id") (.str label)
  let torchlensLabel ← strOr B (getKey payload "torchlens_label") (.str label)
  let modulePath ← strOr B (getKey payload "module_path") (.str [])
  let opType ← pyOr B (getKey payload "op_type") (getKey payload "op")
  let opType ← strOr B opType (.str [])
  let shape ← pyOr B (getKey payload "symbolic_shape") (getKey payload "shape")
  let shape ← symbolizeBatchShape B symbol shape
  let dtype ← normaliseDtype B (getKey payload "dtype")
  let requiresGrad ← truthOf B (getKey payload "requires_grad")
  let role ← strOr B (getKey payload "role") (literal "primary")
  let devicePolicy ← strOr B (getKey payload "device_policy") (literal "runtime")
  return dictOf [("canonical_id", .str canonicalId), ("torchlens_label", .str torchlensLabel),
    ("module_path", .str modulePath), ("op_type", .str opType), ("symbolic_shape", shape), ("dtype", .str dtype),
    ("requires_grad", .bool requiresGrad), ("role", .str role), ("output_index", getKey payload "output_index"),
    ("device_policy", .str devicePolicy)]

/-- `_normalise_boundary_schema` -/
def normaliseBoundarySchema (symbol : Text) (schema : Dict Text Object) :
    Except PyError (List (Text × Object)) :=
  schema.entries.foldlM (fun rows p ↦ do
    let row ← schemaRow B symbol p.1 p.2
    return Dict.assign rows p.1 row) []

def layoutSpec : Object → Option (List (Text × Object))
  | .dict fields => some fields
  | _ => none

/-- The layouts that are mappings. -/
def layouts (featureLayout : Dict Text Object) : List (Text × List (Text × Object)) :=
  featureLayout.entries.foldl (fun rows p ↦ ((layoutSpec p.2).map (Dict.assign rows p.1)).getD rows) []

/-- One row of `_ordered_boundary_tensors`. -/
def tensorRow (label : Text) (spec : List (Text × Object)) : Except PyError Object := do
  let dims ← pyOr B (getKey spec "shape_without_batch") (.list [])
  let dims ← listOf B dims
  let dims ← dims.mapM (normaliseShapeDim B)
  let dtype ← normaliseDtype B (getKey spec "dtype")
  let rank ← pyOr B (getKey spec "rank") (.int (dims.length + 1))
  let rank ← intOf B rank
  let requiresGrad ← truthOf B (getKey spec "requires_grad")
  let devicePolicy ← strOr B (getKey spec "device_policy") (literal "runtime")
  return dictOf [("label", .str label), ("dtype", .str dtype), ("rank", .int rank),
    ("shape_without_batch", .list dims), ("requires_grad", .bool requiresGrad), ("device_policy", .str devicePolicy)]

def isAmong (keys : List Text) (key : Text) : Bool := keys.any fun k ↦ decide (k = key)

def orderedLabels (layout : List (Text × List (Text × Object))) (labels : List Text) : List Text :=
  let keys := layout.map Prod.fst
  let ordered := labels.filter (isAmong keys)
  ordered ++ (sortedBy id keys).filter fun key ↦ !isAmong ordered key

/-- `_ordered_boundary_tensors` -/
def orderedBoundaryTensors (featureLayout : Dict Text Object) (labels : List Text) :
    Except PyError (List Object) :=
  (orderedLabels (layouts featureLayout) labels).mapM fun label ↦
    tensorRow B label ((Dict.lookup (layouts featureLayout) label).getD [])

/-- The arguments of `build_runtime_contract`. -/
structure Args where
  modelFamily : Text
  canonicalSplitKey : Text
  graphSignature : Text
  boundaryTensorLabels : List Text
  boundarySchema : Dict Text Object
  featureLayout : Dict Text Object
  preprocessingAbi : Dict Text Object
  passthroughSpecs : Dict Text Object
  runtimeBackend : Text
  torchlensVersion : Text
  modelName : Text
  adapterVersion : Text
  runtimeVersion : Text
  boundary : Text
  traceBatchMode : Text
  dynamicBatch : Option (ℤ × ℤ)
  traceBatchSize : Option ℤ
  batchSymbol : Text

structure FeatureAbiSpec where
  version : Text
  runtimeBackend : Text
  torchlensVersion : Text
  modelFamily : Text
  modelName : Text
  adapterVersion : Text
  runtimeVersion : Text
  canonicalSplitKey : Text
  graphSignature : Text
  boundary : Text
  boundaryTensorLabels : List Text
  boundaryTensors : List Object
  boundarySchema : List (Text × Object)
  passthroughSpecs : Value
  preprocessingAbi : Value
  traceBatchMode : Text
  dynamicBatch : Option (ℤ × ℤ)
  batchSymbol : Text

def labelsOf (labels : List Text) : Object := .list (labels.map .str)

def FeatureAbiSpec.toDict (s : FeatureAbiSpec) : Value :=
  jsonSafe (dictOf [("version", .str s.version), ("runtime_backend", .str s.runtimeBackend),
    ("torchlens_version", .str s.torchlensVersion), ("model_family", .str s.modelFamily),
    ("model_name", .str s.modelName), ("adapter_version", .str s.adapterVersion),
    ("runtime_version", .str s.runtimeVersion), ("canonical_split_key", .str s.canonicalSplitKey),
    ("graph_signature", .str s.graphSignature), ("boundary", .str s.boundary),
    ("boundary_tensor_labels", labelsOf s.boundaryTensorLabels), ("boundary_tensors", .list s.boundaryTensors),
    ("boundary_schema", .dict s.boundarySchema), ("passthrough_specs", .ofValue s.passthroughSpecs),
    ("preprocessing_abi", .ofValue s.preprocessingAbi), ("trace_batch_mode", .str s.traceBatchMode),
    ("dynamic_batch", normaliseDynamicBatch s.dynamicBatch), ("batch_symbol", .str s.batchSymbol)])

def inputShapeKey : Text := .ofString "input_tensor_shape"

/-- The preprocessing with the shape of its input made symbolic. -/
def preprocessing (symbol : Text) (abi : Dict Text Object) : Except PyError (Dict Text Object) :=
  match abi.get? inputShapeKey with
  | none => .ok abi
  | some shape => do
    let shape ← symbolizeBatchShape B symbol shape
    return abi.insert inputShapeKey shape

def nativeBackend : Text := .ofString "torchlens_native"

/-- `build_feature_abi_spec` -/
def buildFeatureAbiSpec (a : Args) : Except PyError FeatureAbiSpec := do
  let preprocessing ← preprocessing B a.batchSymbol a.preprocessingAbi
  let tensors ← orderedBoundaryTensors B a.featureLayout a.boundaryTensorLabels
  let schema ← normaliseBoundarySchema B a.batchSymbol a.boundarySchema
  return {
    version := .ofString "feature-abi.v2"
    runtimeBackend := orText a.runtimeBackend nativeBackend
    torchlensVersion := orText a.torchlensVersion a.runtimeVersion
    modelFamily := a.modelFamily
    modelName := a.modelName
    adapterVersion := a.adapterVersion
    runtimeVersion := orText a.runtimeVersion a.torchlensVersion
    canonicalSplitKey := orText a.canonicalSplitKey a.boundary
    -- The graph of a runtime in evaluation may differ, so the ABI leaves its signature out.
    graphSignature := []
    boundary := orText a.boundary a.canonicalSplitKey
    boundaryTensorLabels := a.boundaryTensorLabels
    boundaryTensors := tensors
    boundarySchema := schema
    passthroughSpecs := jsonSafe (.dict a.passthroughSpecs.entries)
    preprocessingAbi := jsonSafe (.dict preprocessing.entries)
    traceBatchMode := a.traceBatchMode
    dynamicBatch := a.dynamicBatch
    batchSymbol := orText a.batchSymbol (.ofString "B") }

end Abi

/-! ### Contracts -/

section Contract

variable (B : Builtins) (sha1 : List Char → String) (depth : ℕ)

/-- The arguments with the versions and the boundary that `build_runtime_contract` resolves. -/
def Args.resolved (a : Args) : Args :=
  { a with
    torchlensVersion := orText a.torchlensVersion a.runtimeVersion
    runtimeVersion := orText a.runtimeVersion (orText a.torchlensVersion a.runtimeVersion)
    boundary := orText a.boundary a.canonicalSplitKey }

def digestKey : Text := .ofString "runtime_contract_digest"

/-- `runtime_contract_digest` -/
def runtimeContractDigest (contract : List (Text × Object)) : Except PyError String :=
  stableDigest sha1 depth (.dict (contract.filter (·.1 ≠ digestKey)))

def runtimeIdentity (a : Args) : List (String × Object) :=
  [("runtime_backend", .str a.runtimeBackend), ("torchlens_version", .str a.torchlensVersion),
    ("adapter_version", .str a.adapterVersion), ("runtime_version", .str a.runtimeVersion),
    ("canonical_split_key", .str a.canonicalSplitKey), ("graph_signature", .str a.graphSignature),
    ("boundary", .str a.boundary), ("trace_batch_mode", .str a.traceBatchMode),
    ("dynamic_batch", normaliseDynamicBatch a.dynamicBatch),
    ("trace_batch_size", (a.traceBatchSize.map .int).getD .null), ("batch_symbol", .str a.batchSymbol)]

/-- The contract without its digest. -/
def contractFields (a : Args) (spec : FeatureAbiSpec) (abiId identityId : String) : List (String × Object) :=
  [("contract_version", literal "splitfleet-torchlens-runtime-contract.v2"), ("runtime_backend", .str a.runtimeBackend),
    ("torchlens_version", .str a.torchlensVersion), ("model_family", .str a.modelFamily),
    ("model_name", .str a.modelName), ("adapter_version", .str a.adapterVersion),
    ("runtime_version", .str a.runtimeVersion), ("canonical_split_key", .str a.canonicalSplitKey),
    ("graph_signature", .str a.graphSignature), ("boundary", .str a.boundary),
    ("boundary_tensor_labels", labelsOf a.boundaryTensorLabels), ("boundary_schema", .dict spec.boundarySchema),
    ("feature_abi_spec", .ofValue spec.toDict), ("feature_abi_id", literal abiId),
    ("runtime_identity", .ofValue (jsonSafe (dictOf (runtimeIdentity a)))), ("runtime_identity_id", literal identityId),
    ("trace_batch_mode", .str a.traceBatchMode), ("dynamic_batch", normaliseDynamicBatch a.dynamicBatch),
    ("trace_batch_size", (a.traceBatchSize.map .int).getD .null),
    ("batch_symbol", .str (orText a.batchSymbol (.ofString "B")))]

/-- `build_runtime_contract`: the fields of the contract. -/
def buildRuntimeContract (args : Args) : Except PyError (List (Text × Value)) := do
  let a := args.resolved
  let spec ← buildFeatureAbiSpec B a
  let abiId ← stableDigest sha1 depth (.ofValue spec.toDict)
  let identityId ← stableDigest sha1 depth (dictOf (runtimeIdentity a))
  let contract := named (contractFields a spec abiId identityId)
  let digest ← runtimeContractDigest sha1 depth contract
  return assignAll (safeFields (contract ++ [(digestKey, literal digest)]))

/-- How a contract is given to the comparison. -/
inductive Presented
  | absent
  | text (t : List Char)
  | mapping (fields : List (Text × Object))

/-- `_contract_payload` -/
def contractPayload : Presented → Except PyError (List (Text × Object))
  | .absent => .ok []
  | .mapping fields => .ok fields
  | .text t => do
    match ← loads depth t with
    | .obj fields => return ofFields fields
    | _ => throw (.valueError "Runtime contract must be a JSON object")

structure Verdict where
  compatible : Bool
  reason : String
  edgeFeatureAbiId : Text
  cloudFeatureAbiId : Text
  edgeRuntimeIdentityId : Text
  cloudRuntimeIdentityId : Text
  edgeBoundaryTensorLabels : List Text
  cloudBoundaryTensorLabels : List Text

def textAt (contract : List (Text × Object)) (key : String) : Except PyError Text :=
  strOr B (getKey contract key) (.str [])

def labelsAt (contract : List (Text × Object)) : Except PyError (List Text) := do
  let labels ← pyOr B (getKey contract "boundary_tensor_labels") (.list [])
  let labels ← listOf B labels
  return labels.map (strOf B)

/-- The judgement of two contracts by their ABI identifiers. -/
def judge (edgeEmpty cloudEmpty : Bool) (edgeAbi cloudAbi : Text) : Bool × String :=
  if edgeEmpty then (false, "missing_edge_runtime_contract")
  else if cloudEmpty then (false, "missing_cloud_runtime_contract")
  else if edgeAbi ≠ [] ∧ cloudAbi ≠ [] ∧ edgeAbi = cloudAbi then (true, "compatible")
  else (false, "feature_abi_id")

/-- `classify_contract_compatibility` -/
def classifyContractCompatibility (edgeContract cloudContract : Presented) : Except PyError Verdict := do
  let edge ← contractPayload depth edgeContract
  let cloud ← contractPayload depth cloudContract
  let edgeAbi ← textAt B edge "feature_abi_id"
  let cloudAbi ← textAt B cloud "feature_abi_id"
  let judgement := judge edge.isEmpty cloud.isEmpty edgeAbi cloudAbi
  let edgeRuntime ← textAt B edge "runtime_identity_id"
  let cloudRuntime ← textAt B cloud "runtime_identity_id"
  let edgeLabels ← labelsAt B edge
  let cloudLabels ← labelsAt B cloud
  return {
    compatible := judgement.1
    reason := if judgement.1 ∧ edgeRuntime ≠ [] ∧ cloudRuntime ≠ [] ∧ edgeRuntime ≠ cloudRuntime then
      "runtime_identity_changed_but_feature_abi_compatible" else judgement.2
    edgeFeatureAbiId := edgeAbi
    cloudFeatureAbiId := cloudAbi
    edgeRuntimeIdentityId := edgeRuntime
    cloudRuntimeIdentityId := cloudRuntime
    edgeBoundaryTensorLabels := edgeLabels
    cloudBoundaryTensorLabels := cloudLabels }

end Contract

end SplitFleet.RuntimeContract
