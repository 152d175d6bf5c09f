import Mathlib.Data.Rat.Defs
import SplitFleet.Envelope

set_option autoImplicit false

namespace SplitFleet.BundleWire

open Lib Envelope

variable {κ τ : Type}

/-- A nested value with tensors in `τ` and dictionary keys in `κ`. -/
inductive Value (κ τ : Type)
  | tensor (t : τ)
  | none
  | bool (b : Bool)
  | int (z : ℤ)
  | float (bits : BitVec 64)
  | str (s : String)
  | list (items : List (Value κ τ))
  | tuple (items : List (Value κ τ))
  | dict (entries : List (κ × Value κ τ))
  /-- An object of another type. -/
  | other (typeName : String)

/-- The tensor codec of a backend, the decoder for the device at hand. -/
structure Adapter (τ : Type) where
  encodeTensor : String → τ → Except PyError TensorEnvelope
  decodeTensor : TensorEnvelope → Except PyError τ

structure TensorBundle where
  tensors : List TensorEnvelope
  structureBytes : Bytes

/-! ### Encoding -/

section Encoding

variable (A : Adapter τ) (str : κ → String)

mutual

/-- `visit` of `encode_bundle`, with the tensors that were appended so far. -/
def visit : Value κ τ → List TensorEnvelope → Except PyError (Json × List TensorEnvelope)
  | .tensor t, tensors => do
    let e ← A.encodeTensor (toString tensors.length) t
    return (.obj [("tensor", .int tensors.length)], tensors ++ [e])
  | .none, tensors => return (.obj [("scalar", .null)], tensors)
  | .bool b, tensors => return (.obj [("scalar", .bool b)], tensors)
  | .int z, tensors => return (.obj [("scalar", .int z)], tensors)
  | .float bits, tensors => return (.obj [("scalar", .float bits)], tensors)
  | .str s, tensors => return (.obj [("scalar", .str s)], tensors)
  | .dict entries, tensors => do
    let (items, tensors) ← visitEntries entries tensors
    return (.obj [("dict", .arr items)], tensors)
  | .tuple items, tensors => do
    let (items, tensors) ← visitItems items tensors
    return (.obj [("tuple", .arr items)], tensors)
  | .list items, tensors => do
    let (items, tensors) ← visitItems items tensors
    return (.obj [("list", .arr items)], tensors)
  | .other typeName, _ => .error (.typeError ("Unsupported wire bundle value " ++ typeName))

def visitItems : List (Value κ τ) → List TensorEnvelope → Except PyError (List Json × List TensorEnvelope)
  | [], tensors => return ([], tensors)
  | v :: items, tensors => do
    let (node, tensors) ← visit v tensors
    let (nodes, tensors) ← visitItems items tensors
    return (node :: nodes, tensors)

def visitEntries : List (κ × Value κ τ) → List TensorEnvelope → Except PyError (List Json × List TensorEnvelope)
  | [], tensors => return ([], tensors)
  | (k, v) :: entries, tensors => do
    let (node, tensors) ← visit v tensors
    let (nodes, tensors) ← visitEntries entries tensors
    return (.arr [.str (str k), node] :: nodes, tensors)

end

end Encoding

def encodeBundle (L : Library) (create : Json → Except PyError (Adapter τ)) (str : κ → String) (value : Value κ τ)
    (backend : String) : Except PyError TensorBundle := do
  let adapter ← create (.str backend)
  let (tree, tensors) ← visit adapter str value []
  return ⟨tensors, utf8 (L.dumps tree)⟩

/-- The envelope that a bundle travels in. -/
def bundleEnvelope (tensors : List TensorEnvelope) (text backend : String) : BoundaryEnvelope :=
  { tensors, engine := .str "bundle", backend := .str backend, metadata := .obj [("structure", .str text)] }

def encodeBundleWire (L : Library) (create : Json → Except PyError (Adapter τ)) (str : κ → String)
    (value : Value κ τ) (compression backend : String) : Except PyError Bytes := do
  let bundle ← encodeBundle L create str value backend
  let text ← utf8Decode bundle.structureBytes
  encodeBoundary L (bundleEnvelope bundle.tensors text backend) (some compression)

/-! ### Decoding -/

/-- `key in node`. -/
def contains (node : Json) (key : String) : Except PyError Bool :=
  match node with
  | .obj fields => .ok (Dict.lookup fields key).isSome
  | .arr items => .ok (items.any fun j ↦ isText (some j) key)
  | .str s => .ok (decide (key.toList <:+: s.toList))
  | j => .error (.typeError ("argument of type '" ++ typeName j ++ "' is not iterable"))

/-- `node[key]`. -/
def getItem (node : Json) (key : String) : Except PyError Json :=
  match node with
  | .obj fields => match Dict.lookup fields key with
    | some j => .ok j
    | none => .error (.keyError key)
  | .arr _ => .error (.typeError "list indices must be integers or slices, not str")
  | .str _ => .error (.typeError "string indices must be integers, not 'str'")
  | j => .error (.typeError ("'" ++ typeName j ++ "' object is not subscriptable"))

/-- `key, value = item`. -/
def unpackPair (item : Json) : Except PyError (Json × Json) := do
  match ← pyTuple item with
  | [a, b] => return (a, b)
  | [] => .error (.valueError "not enough values to unpack (expected 2, got 0)")
  | [_] => .error (.valueError "not enough values to unpack (expected 2, got 1)")
  | _ => .error (.valueError "too many values to unpack (expected 2)")

/-- The rational number that a number stands for, where it is finite. -/
def ratOf : Json → Option ℚ
  | .bool b => some (if b then 1 else 0)
  | .int z => some z
  | .float bits =>
    let exponent := (bits.extractLsb' 52 11).toNat
    let fraction : ℚ := (bits.extractLsb' 0 52).toNat
    let magnitude : ℚ :=
      if exponent = 0 then fraction / 2 ^ 1074 else (2 ^ 52 + fraction) * 2 ^ exponent / 2 ^ 1075
    if exponent = 2047 then none else some (if bits.msb then -magnitude else magnitude)
  | _ => none

/-- `a == b` for keys: texts, numbers and `None`; an infinity equals itself and a NaN nothing. -/
def sameKey : Json → Json → Bool
  | .null, .null => true
  | .str a, .str b => a = b
  | a, b => match ratOf a, ratOf b with
    | some x, some y => x = y
    | none, none => match a, b with
      | .float x, .float y => x = y && x.extractLsb' 0 52 = 0#52
      | _, _ => false
    | _, _ => false

/-- `entries[key] = value`. -/
def setItem {α : Type} : List (Json × α) → Json → α → List (Json × α)
  | [], key, value => [(key, value)]
  | (k, v) :: entries, key, value =>
    if sameKey k key then (k, value) :: entries else (k, v) :: setItem entries key value

/-- The dictionary that a comprehension makes of pairs. -/
def dictOf {α : Type} (pairs : List (Json × α)) : List (Json × α) :=
  pairs.foldl (fun entries p ↦ setItem entries p.1 p.2) []

mutual

/-- A value of `json` as a nested value. -/
def ofJson : Json → Value Json τ
  | .null => .none
  | .bool b => .bool b
  | .int z => .int z
  | .float bits => .float bits
  | .str s => .str s
  | .arr items => .list (ofItems items)
  | .obj fields => .dict (ofFields fields)

def ofItems : List Json → List (Value Json τ)
  | [] => []
  | j :: items => ofJson j :: ofItems items

def ofFields : List (String × Json) → List (Json × Value Json τ)
  | [] => []
  | (k, j) :: fields => (.str k, ofJson j) :: ofFields fields

end

/-- A key that can be stored. -/
def checkHashable (key : Json) : Except PyError Unit :=
  require (typeName key ≠ "list" ∧ typeName key ≠ "dict") (.typeError ("unhashable type: '" ++ typeName key ++ "'"))

/-- `visit` of `decode_bundle`, with the depth of calls that the interpreter allows. -/
def visitNode (L : Library) (A : Adapter τ) (tensors : List TensorEnvelope) : ℕ → Json → Except PyError (Value Json τ)
  | 0, _ => .error (.raised "RecursionError" "maximum recursion depth exceeded")
  | depth + 1, node => do
    if ← contains node "tensor" then
      let index ← pyInt L (← getItem node "tensor")
      if index < 0 then .error (.valueError "Tensor bundle references missing tensor")
      else match tensors[index.toNat]? with
        | some e => return .tensor (← A.decodeTensor e)
        | none => .error (.valueError "Tensor bundle references missing tensor")
    else if ← contains node "scalar" then
      return ofJson (← getItem node "scalar")
    else if ← contains node "dict" then
      let items ← pyTuple (← getItem node "dict")
      let pairs ← items.mapM fun item ↦ do
        let (key, value) ← unpackPair item
        let child ← visitNode L A tensors depth value
        checkHashable key
        return (key, child)
      return .dict (dictOf pairs)
    else if ← contains node "tuple" then
      let items ← pyTuple (← getItem node "tuple")
      return .tuple (← items.mapM (visitNode L A tensors depth))
    else if ← contains node "list" then
      let items ← pyTuple (← getItem node "list")
      return .list (← items.mapM (visitNode L A tensors depth))
    else .error (.valueError "Invalid tensor bundle structure")

def decodeBundle (L : Library) (create : Json → Except PyError (Adapter τ)) (depth : ℕ) (bundle : TensorBundle)
    (backend : Json) : Except PyError (Value Json τ) := do
  let adapter ← create backend
  require (bundle.structureBytes.length ≤ 1024 * 1024) (.valueError "Tensor bundle structure exceeds size limit")
  let tree ← L.loads (← utf8Decode bundle.structureBytes)
  visitNode L adapter bundle.tensors depth tree

/-- What `decode_bundle_wire` does with the envelope. -/
def openBundle (L : Library) (create : Json → Except PyError (Adapter τ)) (depth : ℕ) (e : BoundaryEnvelope) :
    Except PyError (Value Json τ) := do
  require (isText (some e.engine) "bundle") (.valueError "Expected SplitFleet tensor bundle")
  let fields ← fieldsOf "get" e.metadata
  match Dict.lookup fields "structure" with
  | some (.str text) => decodeBundle L create depth ⟨e.tensors, utf8 text⟩ e.backend
  | _ => .error (.valueError "Tensor bundle is missing structure metadata")

def decodeBundleWire (L : Library) (create : Json → Except PyError (Adapter τ)) (fuel depth : ℕ) (payload : Bytes)
    (limits : EnvelopeLimits) : Option (Except PyError (Value Json τ)) :=
  (decodeBoundary L fuel payload limits).map fun r ↦ r >>= openBundle L create depth

end SplitFleet.BundleWire
