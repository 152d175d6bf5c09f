import SplitFleet.Lib.Json
import SplitFleet.Lib.Decoder

set_option autoImplicit false

namespace SplitFleet.Envelope

open Lib

/-- The modules that the codec calls, and what the interpreter makes of a value or a text.
`dumps` sorts the keys. -/
structure Library where
  dumps : Json → String
  loads : String → Except PyError Json
  sha256 : Bytes → String
  repr : Json → String
  intOfText : String → Except PyError ℤ
  compress : Bytes → Bytes
  lz4 : Decoder

def PROTOCOL_VERSION : String := "splitfleet-wire.v1"

/-- `b"SFW1"`. -/
def magic : Bytes := [0x53, 0x46, 0x57, 0x31]

def noneFlag : UInt8 := 0

def lz4Flag : UInt8 := 1

structure EnvelopeLimits where
  maxHeaderBytes : ℕ := 1024 * 1024
  maxTensors : ℕ := 1024
  maxTensorBytes : ℕ := 64 * 1024 * 1024
  maxPayloadBytes : ℕ := 256 * 1024 * 1024
  maxWireBytes : ℕ := 256 * 1024 * 1024

/-- The bound on a body that is not compressed, or no longer. -/
def EnvelopeLimits.bodyBytes (limits : EnvelopeLimits) : ℕ := limits.maxHeaderBytes + limits.maxPayloadBytes + 4

def DEFAULT_LIMITS : EnvelopeLimits := {}

/-- The class does not check the types of its fields, so a decoded header gives them any value. -/
structure TensorEnvelope where
  tensorId : Json
  shape : List Json
  dtype : Json
  payload : Bytes
  layout : Json := .str "contiguous"
  encoding : Json := .str "raw-le"
  requiresGrad : Json := .bool false

structure BoundaryEnvelope where
  tensors : List TensorEnvelope
  protocolVersion : Json := .str PROTOCOL_VERSION
  engine : Json := .str "torchlens"
  backend : Json := .str "torch"
  roundId : Json := .int 0
  clientId : Json := .str ""
  stepId : Json := .str ""
  planId : Json := .str ""
  splitId : Json := .str ""
  canonicalGraphHash : Json := .str ""
  boundarySchemaHash : Json := .str ""
  modelVersion : Json := .int 0
  batchSize : Json := .int 0
  compression : Json := .str "none"
  metadata : Json := .obj []
  checksum : Json := .str ""

structure GradientEnvelope where
  tensors : List TensorEnvelope
  protocolVersion : Json := .str PROTOCOL_VERSION
  backend : Json := .str "torch"
  roundId : Json := .int 0
  clientId : Json := .str ""
  stepId : Json := .str ""
  planId : Json := .str ""
  splitId : Json := .str ""
  modelVersion : Json := .int 0
  compression : Json := .str "none"
  metadata : Json := .obj []
  checksum : Json := .str ""

/-- `asdict(envelope)` without its tensors. -/
def BoundaryEnvelope.asdict (e : BoundaryEnvelope) : List (String × Json) :=
  [("protocol_version", e.protocolVersion), ("engine", e.engine), ("backend", e.backend),
    ("round_id", e.roundId), ("client_id", e.clientId), ("step_id", e.stepId), ("plan_id", e.planId),
    ("split_id", e.splitId), ("canonical_graph_hash", e.canonicalGraphHash),
    ("boundary_schema_hash", e.boundarySchemaHash), ("model_version", e.modelVersion),
    ("batch_size", e.batchSize), ("compression", e.compression), ("metadata", e.metadata),
    ("checksum", e.checksum)]

def GradientEnvelope.asdict (e : GradientEnvelope) : List (String × Json) :=
  [("protocol_version", e.protocolVersion), ("backend", e.backend), ("round_id", e.roundId),
    ("client_id", e.clientId), ("step_id", e.stepId), ("plan_id", e.planId), ("split_id", e.splitId),
    ("model_version", e.modelVersion), ("compression", e.compression), ("metadata", e.metadata),
    ("checksum", e.checksum)]

/-! ### Values of a header -/

def typeName : Json → String
  | .null => "NoneType"
  | .bool _ => "bool"
  | .int _ => "int"
  | .float _ => "float"
  | .str _ => "str"
  | .arr _ => "list"
  | .obj _ => "dict"

/-- `value == text`. -/
def isText : Option Json → String → Bool
  | some (.str s), text => s = text
  | _, _ => false

/-- `str(value)`. -/
def pyStr (L : Library) : Json → String
  | .str s => s
  | j => L.repr j

/-- `int(value)` of a float: the integer part of what its sign, exponent and fraction stand for. -/
def truncate (bits : BitVec 64) : Except PyError ℤ :=
  let exponent := (bits.extractLsb' 52 11).toNat
  let fraction := (bits.extractLsb' 0 52).toNat
  let magnitude : ℕ :=
    if exponent = 0 then 0
    else if 1075 ≤ exponent then (2 ^ 52 + fraction) * 2 ^ (exponent - 1075)
    else (2 ^ 52 + fraction) / 2 ^ (1075 - exponent)
  if exponent = 2047 then
    if fraction = 0 then .error (.raised "OverflowError" "cannot convert float infinity to integer")
    else .error (.valueError "cannot convert float NaN to integer")
  else .ok (if bits.msb then -magnitude else magnitude)

/-- `int(value)`. -/
def pyInt (L : Library) : Json → Except PyError ℤ
  | .int z => .ok z
  | .bool b => .ok (if b then 1 else 0)
  | .float bits => truncate bits
  | .str s => L.intOfText s
  | j => .error (.typeError
      ("int() argument must be a string, a bytes-like object or a real number, not '" ++ typeName j ++ "'"))

/-- `tuple(value)`. -/
def pyTuple : Json → Except PyError (List Json)
  | .arr items => .ok items
  | .str s => .ok (s.toList.map fun c ↦ .str (String.singleton c))
  | .obj fields => .ok (fields.map fun p ↦ .str p.1)
  | j => .error (.typeError ("'" ++ typeName j ++ "' object is not iterable"))

/-- The entries of a value on which a method is called that dictionaries have. -/
def fieldsOf (method : String) : Json → Except PyError (List (String × Json))
  | .obj fields => .ok fields
  | j =>
    -- A list has a `pop` of its own, which takes no text.
    if typeName j = "list" ∧ method = "pop" then
      .error (.typeError "'str' object cannot be interpreted as an integer")
    else .error (.raised "AttributeError" ("'" ++ typeName j ++ "' object has no attribute '" ++ method ++ "'"))

def without (fields : List (String × Json)) (key : String) : List (String × Json) :=
  fields.filter fun p ↦ p.1 ≠ key

/-- `fields.pop(key)`. -/
def pop (fields : List (String × Json)) (key : String) : Except PyError (Json × List (String × Json)) :=
  match Dict.lookup fields key with
  | some v => .ok (v, without fields key)
  | none => .error (.keyError key)

/-- A keyword argument that has a default. -/
def keyword (fields : List (String × Json)) (key : String) (default : Json) : Json :=
  (Dict.lookup fields key).getD default

/-- A call of a class with keyword arguments that it does not have. -/
def checkKeywords (name : String) (allowed : List String) (fields : List (String × Json)) : Except PyError Unit :=
  match (fields.map Prod.fst).find? (· ∉ allowed) with
  | some key => .error (.typeError (name ++ "() got an unexpected keyword argument " ++ pyRepr key))
  | none => .ok ()

def TensorEnvelope.keywords : List String := ["tensor_id", "dtype", "layout", "encoding", "requires_grad"]

/-- `TensorEnvelope(payload=…, shape=…, **fields)`. -/
def TensorEnvelope.ofKeywords (payload : Bytes) (shape : List Json) (fields : List (String × Json)) :
    Except PyError TensorEnvelope :=
  if "payload" ∈ fields.map Prod.fst then
    .error (.typeError "TensorEnvelope() got multiple values for keyword argument 'payload'")
  else do
    checkKeywords "TensorEnvelope.__init__" keywords fields
    match Dict.lookup fields "tensor_id", Dict.lookup fields "dtype" with
    | some tensorId, some dtype => .ok {
        tensorId, shape, dtype, payload
        layout := keyword fields "layout" (.str "contiguous")
        encoding := keyword fields "encoding" (.str "raw-le")
        requiresGrad := keyword fields "requires_grad" (.bool false) }
    | _, _ => .error (.typeError "TensorEnvelope.__init__() missing required positional arguments")

def BoundaryEnvelope.keywords : List String :=
  ["protocol_version", "engine", "backend", "round_id", "client_id", "step_id", "plan_id", "split_id",
    "canonical_graph_hash", "boundary_schema_hash", "model_version", "batch_size", "compression", "metadata",
    "checksum"]

/-- `BoundaryEnvelope(tensors=tensors, **header)`. -/
def BoundaryEnvelope.ofKeywords (tensors : List TensorEnvelope) (header : List (String × Json)) :
    Except PyError BoundaryEnvelope := do
  checkKeywords "BoundaryEnvelope.__init__" keywords header
  return {
    tensors
    protocolVersion := keyword header "protocol_version" (.str PROTOCOL_VERSION)
    engine := keyword header "engine" (.str "torchlens")
    backend := keyword header "backend" (.str "torch")
    roundId := keyword header "round_id" (.int 0)
    clientId := keyword header "client_id" (.str "")
    stepId := keyword header "step_id" (.str "")
    planId := keyword header "plan_id" (.str "")
    splitId := keyword header "split_id" (.str "")
    canonicalGraphHash := keyword header "canonical_graph_hash" (.str "")
    boundarySchemaHash := keyword header "boundary_schema_hash" (.str "")
    modelVersion := keyword header "model_version" (.int 0)
    batchSize := keyword header "batch_size" (.int 0)
    compression := keyword header "compression" (.str "none")
    metadata := keyword header "metadata" (.obj [])
    checksum := keyword header "checksum" (.str "") }

def GradientEnvelope.keywords : List String :=
  ["protocol_version", "backend", "round_id", "client_id", "step_id", "plan_id", "split_id", "model_version",
    "compression", "metadata", "checksum"]

/-- `GradientEnvelope(tensors=tensors, **header)`. -/
def GradientEnvelope.ofKeywords (tensors : List TensorEnvelope) (header : List (String × Json)) :
    Except PyError GradientEnvelope := do
  checkKeywords "GradientEnvelope.__init__" keywords header
  return {
    tensors
    protocolVersion := keyword header "protocol_version" (.str PROTOCOL_VERSION)
    backend := keyword header "backend" (.str "torch")
    roundId := keyword header "round_id" (.int 0)
    clientId := keyword header "client_id" (.str "")
    stepId := keyword header "step_id" (.str "")
    planId := keyword header "plan_id" (.str "")
    splitId := keyword header "split_id" (.str "")
    modelVersion := keyword header "model_version" (.int 0)
    compression := keyword header "compression" (.str "none")
    metadata := keyword header "metadata" (.obj [])
    checksum := keyword header "checksum" (.str "") }

/-! ### Encoding -/

/-- `str(key).startswith("_")`. -/
def isHidden (key : String) : Bool := key.toList.head? = some '_'

mutual

def jsonValue : Json → Json
  | .arr items => .arr (jsonItems items)
  | .obj fields => .obj (jsonFields fields)
  | j => j

def jsonItems : List Json → List Json
  | [] => []
  | j :: items => jsonValue j :: jsonItems items

def jsonFields : List (String × Json) → List (String × Json)
  | [] => []
  | (k, j) :: fields => if isHidden k then jsonFields fields else (k, jsonValue j) :: jsonFields fields

end

/-- The entry of a tensor in the header. -/
def TensorEnvelope.header (t : TensorEnvelope) : Json :=
  .obj [("tensor_id", jsonValue t.tensorId), ("shape", .arr (t.shape.map jsonValue)),
    ("dtype", jsonValue t.dtype), ("layout", jsonValue t.layout), ("encoding", jsonValue t.encoding),
    ("requires_grad", jsonValue t.requiresGrad), ("nbytes", .int t.payload.length)]

def payloads (tensors : List TensorEnvelope) : Bytes := (tensors.map TensorEnvelope.payload).flatten

/-- The header that `_pack` writes for an envelope with the fields `asdict`. -/
def headerOf (L : Library) (kind : String) (asdict : List (String × Json)) (tensors : List TensorEnvelope)
    (compression : Json) : List (String × Json) :=
  let blank := Dict.assign asdict "checksum" (.str "")
  let named := Dict.assign (Dict.assign blank "compression" compression) "kind" (.str kind)
  let described := Dict.assign named "metadata" (jsonValue ((Dict.lookup named "metadata").getD (.obj [])))
  let listed := Dict.assign described "tensors" (.arr (tensors.map TensorEnvelope.header))
  Dict.assign listed "checksum" (.str (L.sha256 (payloads tensors)))

/-- `compression not in {"none", "lz4"}`, where only a hashable value can be looked up. -/
def checkCompression (L : Library) (compression : Json) : Except PyError Unit :=
  if typeName compression = "list" ∨ typeName compression = "dict" then
    .error (.typeError ("unhashable type: '" ++ typeName compression ++ "'"))
  else
    require (isText (some compression) "none" ∨ isText (some compression) "lz4")
      (.valueError ("Unsupported compression " ++ L.repr compression))

def pack (L : Library) (kind : String) (asdict : List (String × Json)) (tensors : List TensorEnvelope)
    (compression : Json) : Except PyError Bytes := do
  checkCompression L compression
  require (∀ t ∈ tensors, isText (some t.encoding) "raw-le" ∧ isText (some t.layout) "contiguous")
    (.valueError "Unsupported tensor layout or encoding")
  let headerBytes := utf8 (L.dumps (.obj (headerOf L kind asdict tensors compression)))
  require (headerBytes.length < 2 ^ 32) (.raised "struct.error" "argument out of range")
  let body := be32 headerBytes.length ++ headerBytes ++ payloads tensors
  return magic ++
    (if isText (some compression) "lz4" then lz4Flag :: L.compress body else noneFlag :: body)

/-- `compression or envelope.compression`. -/
def chosen (compression : Option String) (own : Json) : Json :=
  match compression with
  | some c => if c = "" then own else .str c
  | none => own

def encodeBoundary (L : Library) (e : BoundaryEnvelope) (compression : Option String) : Except PyError Bytes :=
  pack L "boundary" e.asdict e.tensors (chosen compression e.compression)

def encodeGradients (L : Library) (e : GradientEnvelope) (compression : Option String) : Except PyError Bytes :=
  pack L "gradients" e.asdict e.tensors (chosen compression e.compression)

/-! ### Decoding -/

/-- What `_decompress_lz4_bounded` holds. -/
structure Drain (σ : Type) where
  decoder : σ
  source : Bytes
  chunks : List Bytes
  total : ℕ

/-- One call of the decoder. -/
def Drain.call (z : Decoder) (maxBytes : ℕ) (d : Drain z.State) : Except PyError (Drain z.State) :=
  match z.decompress d.decoder d.source (maxBytes - d.total + 1) with
  | .error e => .error e
  | .ok (chunk, decoder) => .ok ⟨decoder, [], d.chunks ++ [chunk], d.total + chunk.length⟩

/-- What a turn of the loop ends with after the call, if it is the last one. -/
def Drain.verdict (z : Decoder) (maxBytes : ℕ) (d : Drain z.State) : Option (Except PyError Bytes) :=
  if maxBytes < d.total then some (.error (.valueError "SplitFleet envelope exceeds decompressed size limit"))
  else if z.eof d.decoder then some (.ok d.chunks.flatten)
  else if z.needsInput d.decoder then some (.error (.valueError "Truncated SplitFleet lz4 envelope"))
  else none

/-- The loop, for a number of turns. -/
def Drain.run (z : Decoder) (maxBytes : ℕ) : ℕ → Drain z.State → Option (Except PyError Bytes)
  | 0, _ => none
  | fuel + 1, d =>
    match d.call z maxBytes with
    | .error e => some (.error e)
    | .ok d' =>
      match d'.verdict z maxBytes with
      | some r => some r
      | none => Drain.run z maxBytes fuel d'

def Drain.start (z : Decoder) (payload : Bytes) : Drain z.State := ⟨z.start, payload, [], 0⟩

def decompressLz4Bounded (z : Decoder) (fuel : ℕ) (payload : Bytes) (maxBytes : ℕ) :
    Option (Except PyError Bytes) :=
  (Drain.start z payload).run z maxBytes fuel

/-- What the loop over the tensor headers holds. -/
structure Cursor where
  offset : ℕ
  tensorIds : List String
  tensors : List TensorEnvelope

def readTensor (L : Library) (limits : EnvelopeLimits) (data : Bytes) (s : Cursor) (item : Json) :
    Except PyError Cursor := do
  let fields ← fieldsOf "pop" item
  let (nbytes, fields) ← pop fields "nbytes"
  let size ← pyInt L nbytes
  require (size ≤ limits.maxTensorBytes) (.valueError "SplitFleet tensor exceeds size limit")
  require (0 ≤ size ∧ s.offset + size ≤ data.length) (.valueError "Truncated SplitFleet tensor payload")
  let tensorId := pyStr L (keyword fields "tensor_id" (.str ""))
  require (tensorId ≠ "" ∧ tensorId ∉ s.tensorIds)
    (.valueError "SplitFleet envelope contains invalid or duplicate tensor id")
  let (value, fields) ← pop fields "shape"
  let shape ← pyTuple value
  let t ← TensorEnvelope.ofKeywords ((data.drop s.offset).take size.toNat) shape fields
  return ⟨s.offset + size.toNat, s.tensorIds ++ [tensorId], s.tensors ++ [t]⟩

def readTensors (L : Library) (limits : EnvelopeLimits) (data : Bytes) (value : Json) :
    Except PyError Cursor :=
  match value with
  | .arr items =>
    if limits.maxTensors < items.length then
      .error (.valueError "SplitFleet envelope tensor count exceeds limit")
    else items.foldlM (readTensor L limits data) ⟨0, [], []⟩
  | _ => .error (.valueError "SplitFleet envelope tensor count exceeds limit")

/-- The length of the header, which the first four bytes of a body give. -/
def headerSize (body : Bytes) : ℕ := ofBe32 (body.take 4)

def headerBytes (body : Bytes) : Bytes := (body.drop 4).take (headerSize body)

def dataSection (body : Bytes) : Bytes := body.drop (4 + headerSize body)

def compressionOf (flag : UInt8) : String := if flag = lz4Flag then "lz4" else "none"

def reprOption (L : Library) : Option Json → String
  | some j => L.repr j
  | none => "None"

/-- The header of a body. -/
def readHeader (L : Library) (limits : EnvelopeLimits) (body : Bytes) : Except PyError (List (String × Json)) := do
  require (body.length ≤ limits.bodyBytes) (.valueError "SplitFleet envelope exceeds decompressed size limit")
  require (4 ≤ body.length) (.valueError "Truncated SplitFleet envelope header")
  require (headerSize body ≤ limits.maxHeaderBytes) (.valueError "SplitFleet envelope header exceeds size limit")
  require (headerSize body ≤ body.length - 4) (.valueError "Truncated SplitFleet envelope metadata")
  let text ← utf8Decode (headerBytes body)
  let value ← L.loads text
  fieldsOf "get" value

def checkHeader (L : Library) (expectedKind : String) (flag : UInt8) (header : List (String × Json)) :
    Except PyError Unit := do
  require (isText (Dict.lookup header "compression") (compressionOf flag))
    (.valueError "SplitFleet envelope compression metadata mismatch")
  require (isText (Dict.lookup header "kind") expectedKind)
    (.valueError ("Expected " ++ expectedKind ++ " envelope, got " ++ reprOption L (Dict.lookup header "kind")))
  require (isText (Dict.lookup header "protocol_version") PROTOCOL_VERSION)
    (.valueError ("Unsupported protocol version " ++ reprOption L (Dict.lookup header "protocol_version")))

/-- What `_unpack` does with a body once it is not compressed. -/
def readBody (L : Library) (limits : EnvelopeLimits) (expectedKind : String) (flag : UInt8) (body : Bytes) :
    Except PyError (List (String × Json) × List TensorEnvelope) := do
  let header ← readHeader L limits body
  checkHeader L expectedKind flag header
  let data := dataSection body
  require (data.length ≤ limits.maxPayloadBytes) (.valueError "SplitFleet envelope payload exceeds size limit")
  require (isText (Dict.lookup header "checksum") (L.sha256 data))
    (.valueError "SplitFleet envelope checksum mismatch")
  let (tensorHeaders, header) ← pop header "tensors"
  let s ← readTensors L limits data tensorHeaders
  require (s.offset = data.length) (.valueError "SplitFleet envelope contains trailing tensor bytes")
  return (without header "kind", s.tensors)

/-- The body of a payload with a flag. -/
def bodyOf (L : Library) (fuel : ℕ) (limits : EnvelopeLimits) (flag : UInt8) (body : Bytes) :
    Option (Except PyError Bytes) :=
  if flag = lz4Flag then decompressLz4Bounded L.lz4 fuel body limits.bodyBytes
  else if flag ≠ noneFlag then
    some (.error (.valueError ("Unknown SplitFleet compression flag " ++ toString flag.toNat)))
  else some (.ok body)

/-- `_unpack`, with a bound on the turns of the decompression; `none` when they do not suffice. -/
def unpack (L : Library) (fuel : ℕ) (payload : Bytes) (expectedKind : String) (limits : EnvelopeLimits) :
    Option (Except PyError (List (String × Json) × List TensorEnvelope)) :=
  if limits.maxWireBytes < payload.length then
    some (.error (.valueError "SplitFleet envelope exceeds wire size limit"))
  else if payload.length < 9 ∨ payload.take 4 ≠ magic then
    some (.error (.valueError "Not a SplitFleet wire envelope"))
  else
    let flag := payload.getD 4 0
    (bodyOf L fuel limits flag (payload.drop 5)).map fun r ↦ r >>= readBody L limits expectedKind flag

def decodeBoundary (L : Library) (fuel : ℕ) (payload : Bytes) (limits : EnvelopeLimits) :
    Option (Except PyError BoundaryEnvelope) :=
  (unpack L fuel payload "boundary" limits).map fun r ↦ r >>= fun p ↦ BoundaryEnvelope.ofKeywords p.2 p.1

def decodeGradients (L : Library) (fuel : ℕ) (payload : Bytes) (limits : EnvelopeLimits) :
    Option (Except PyError GradientEnvelope) :=
  (unpack L fuel payload "gradients" limits).map fun r ↦ r >>= fun p ↦ GradientEnvelope.ofKeywords p.2 p.1

end SplitFleet.Envelope
