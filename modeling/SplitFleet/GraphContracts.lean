import SplitFleet.ClientRuntime
import SplitFleet.Lib.JsonSorted

set_option autoImplicit false

namespace SplitFleet.GraphContracts

open Lib Lib.JsonText
open SplitClient (GraphContract validateContract compareContracts)

/-! ### Contracts on the wire -/

inductive Field
  | protocolVersion
  | torchlensVersion
  | backend
  | modelProfileId
  | modelRevision
  | modelStateSchemaHash
  | inputSchemaHash
  | splitRequestHash
  | canonicalGraphHash
  | splitId
  | boundarySchemaHash
  | capabilityHash
  deriving DecidableEq

namespace Field

/-- `_IDENTITY_FIELDS` -/
def all : List Field :=
  [protocolVersion, torchlensVersion, backend, modelProfileId, modelRevision, modelStateSchemaHash, inputSchemaHash,
    splitRequestHash, canonicalGraphHash, splitId, boundarySchemaHash, capabilityHash]

def name : Field → String
  | protocolVersion => "protocol_version"
  | torchlensVersion => "torchlens_version"
  | backend => "backend"
  | modelProfileId => "model_profile_id"
  | modelRevision => "model_revision"
  | modelStateSchemaHash => "model_state_schema_hash"
  | inputSchemaHash => "input_schema_hash"
  | splitRequestHash => "split_request_hash"
  | canonicalGraphHash => "canonical_graph_hash"
  | splitId => "split_id"
  | boundarySchemaHash => "boundary_schema_hash"
  | capabilityHash => "capability_hash"

def get (c : GraphContract) : Field → String
  | protocolVersion => c.protocolVersion
  | torchlensVersion => c.torchlensVersion
  | backend => c.backend
  | modelProfileId => c.modelProfileId
  | modelRevision => c.modelRevision
  | modelStateSchemaHash => c.modelStateSchemaHash
  | inputSchemaHash => c.inputSchemaHash
  | splitRequestHash => c.splitRequestHash
  | canonicalGraphHash => c.canonicalGraphHash
  | splitId => c.splitId
  | boundarySchemaHash => c.boundarySchemaHash
  | capabilityHash => c.capabilityHash

def default : Field → String
  | protocolVersion => "splitfleet-graph.v1"
  | _ => ""

end Field

/-- A contract as the data class holds it, which does not check the types of its fields. -/
structure Portable where
  field : Field → Value
  metadata : Value

/-- What `export_contract` builds. -/
def exported (c : GraphContract) (metadata : List (Text × Value)) : Portable where
  field f := .str (.ofString (f.get c))
  metadata := .obj metadata

def canonicalJson (depth : ℕ) (v : Value) : Except PyError (List Char) := write .compact v.sorted depth

def metadataKey : Text := .ofString "metadata"

def Field.key (f : Field) : Text := .ofString f.name

namespace Portable

variable (p : Portable)

def identity : List (Text × Value) := Field.all.map fun f ↦ (f.key, p.field f)

def toDict : List (Text × Value) := p.identity ++ [(metadataKey, p.metadata)]

def toJson (depth : ℕ) : Except PyError (List Char) := canonicalJson depth (.obj p.toDict)

/-- `digest`: the hash of the dictionary without its metadata. -/
def digest (sha256 : List Char → String) (depth : ℕ) : Except PyError String :=
  (canonicalJson depth (.obj p.identity)).map sha256

end Portable

def shown (t : Text) : String := String.ofList (t.map fun c ↦ Char.ofNat c.val)

/-- `cls(**payload)` -/
def build (payload : List (Text × Value)) : Except PyError Portable :=
  match payload.find? fun p ↦ p.1 ≠ metadataKey ∧ p.1 ∉ Field.all.map Field.key with
  | some p => .error (.typeError s!"GraphContract.__init__() got an unexpected keyword argument {pyRepr (shown p.1)}")
  | none => .ok {
      field := fun f ↦ (Dict.lookup payload f.key).getD (.str (.ofString f.default))
      metadata := (Dict.lookup payload metadataKey).getD (.obj []) }

def fromJson (room : ℕ) (text : List Char) : Except PyError Portable := do
  match ← loads room text with
  | .obj payload => build payload
  | _ => throw (.typeError "argument after ** must be a mapping")

/-- `value == text` -/
def isText : Value → Text → Bool
  | .str s, t => s = t
  | _, _ => false

/-- The texts of values that the language writes into messages. -/
def reprOf (repr : Value → String) : Value → String
  | .str s => pyRepr (shown s)
  | v => repr v

/-- `validate_contract` of a contract that came in and of one that was exported here. -/
def validateReceived (repr : Value → String) (expected : Portable) (actual : GraphContract) : Except PyError Unit :=
  match Field.all.find? fun f ↦ !isText (expected.field f) (.ofString (f.get actual)) with
  | none => .ok ()
  | some f => .error (.raised "ContractValidationError"
      s!"Graph contract mismatch at {f.name}: expected {reprOf repr (expected.field f)}, got {pyRepr (f.get actual)}")

/-- What a configuration says of the contract of the round. -/
structure Announced where
  contract : Option (List Char)
  digest : Option String

variable (sha256 : List Char → String) (repr : Value → String) (depth room : ℕ)

/-- The check of `_ensure_round_runtime` in the client and of `_configure_native_contract` in the suffix. -/
def checkAnnounced (announced : Announced) (own : GraphContract) : Except PyError Unit :=
  match announced.contract with
  | none => .ok ()
  | some raw =>
    if raw = [] then .ok ()
    else do
      let expected ← fromJson room raw
      let digest ← expected.digest sha256 room
      require (announced.digest = some digest) (.runtimeError "Configured graph contract digest is invalid")
      validateReceived repr expected own

/-! ### Reading back -/

section Reading

variable {sha256 repr depth room}

theorem shown_ofString (s : String) : shown (.ofString s) = s := by
  have hchar (c : Char) : Char.ofNat (codePoint c.toNat).val = c := by
    rw [codePoint_toNat, Char.ofNat_toNat]
  simp [shown, Text.ofString, Function.comp_def, hchar]

theorem identity_eq (c : GraphContract) : c.identity = Field.all.map fun f ↦ (f.name, f.get c) := rfl

theorem mem_all (f : Field) : f ∈ Field.all := by cases f <;> decide

theorem eq_of_get {c d : GraphContract} (h : ∀ f : Field, f.get c = f.get d) : c = d := by
  cases c
  cases d
  simp only [SplitClient.GraphContract.mk.injEq]
  exact ⟨h .protocolVersion, h .torchlensVersion, h .backend, h .modelProfileId, h .modelRevision,
    h .modelStateSchemaHash, h .inputSchemaHash, h .splitRequestHash, h .canonicalGraphHash, h .splitId,
    h .boundarySchemaHash, h .capabilityHash⟩

theorem nodup_names : (metadataKey :: Field.all.map Field.key).Nodup := by
  have hnames : ("metadata" :: Field.all.map Field.name).Nodup := by decide
  exact (List.nodup_map_iff ofString_injective).mpr hnames

theorem keys_identity (p : Portable) : p.identity.map Prod.fst = Field.all.map Field.key := by
  simp [Portable.identity, Function.comp_def]

theorem nodup_toDict (p : Portable) : (p.toDict.map Prod.fst).Nodup := by
  rw [Portable.toDict, List.map_append, keys_identity]
  exact (List.perm_append_singleton _ _).nodup_iff.mpr nodup_names

theorem clean_identity (c : GraphContract) (metadata : List (Text × Value)) :
    ∀ p ∈ (exported c metadata).identity, Whole p.1 ∧ p.2.Clean := by
  intro p hp
  obtain ⟨f, -, rfl⟩ := List.mem_map.mp hp
  exact ⟨whole_ofString f.name, whole_ofString (f.get c)⟩

theorem clean_obj_identity (c : GraphContract) (metadata : List (Text × Value)) :
    (Value.obj (exported c metadata).identity).Clean := by
  rw [clean_obj, keys_identity]
  exact ⟨(List.nodup_cons.mp nodup_names).2, clean_identity c metadata⟩

theorem clean_toDict {c : GraphContract} {metadata : List (Text × Value)} (h : (Value.obj metadata).Clean) :
    (Value.obj (exported c metadata).toDict).Clean := by
  rw [clean_obj]
  refine ⟨nodup_toDict _, ?_⟩
  intro p hp
  rcases List.mem_append.mp hp with hp | hp
  · exact clean_identity c metadata p hp
  · obtain rfl := List.mem_singleton.mp hp
    exact ⟨whole_ofString _, h⟩

theorem lookup_identity (p : Portable) (f : Field) : Dict.lookup p.toDict f.key = some (p.field f) := by
  rw [Dict.lookup_eq_some_iff (nodup_toDict p)]
  exact List.mem_append_left _ (List.mem_map.mpr ⟨f, mem_all f, rfl⟩)

theorem lookup_metadata (p : Portable) : Dict.lookup p.toDict metadataKey = some p.metadata := by
  rw [Dict.lookup_eq_some_iff (nodup_toDict p)]
  exact List.mem_append_right _ (List.mem_singleton_self _)

/-- The fields of a dictionary that was written with its keys in order. -/
theorem build_sorted (p : Portable) :
    build (sortKeys (sortedFields p.toDict)) = .ok ⟨fun f ↦ (p.field f).sorted, p.metadata.sorted⟩ := by
  have hnone : (sortKeys (sortedFields p.toDict)).find?
      (fun q ↦ q.1 ≠ metadataKey ∧ q.1 ∉ Field.all.map Field.key) = none := by
    rw [List.find?_eq_none]
    intro q hq
    have hkey : q.1 ∈ p.toDict.map Prod.fst := by
      rw [← keys_sortedFields]
      exact List.mem_map_of_mem ((sortKeys_perm _).mem_iff.mp hq)
    rw [Portable.toDict, List.map_append, keys_identity, List.mem_append] at hkey
    rcases hkey with hkey | hkey
    · simp [hkey]
    · simp [List.mem_singleton.mp hkey]
  rw [build, hnone]
  simp [lookup_sorted (nodup_toDict p), lookup_identity, lookup_metadata]

variable {c own : GraphContract} {metadata : List (Text × Value)}

theorem fromJson_toJson (h : (Value.obj metadata).Clean) {raw : List Char}
    (hraw : (exported c metadata).toJson depth = .ok raw) (hroom : depth ≤ room) :
    fromJson room raw = .ok { exported c metadata with metadata := (Value.obj metadata).sorted } := by
  rw [fromJson, loads_write_sorted (clean_toDict h) hraw hroom, ok_bind, Value.sorted]
  exact build_sorted _

theorem compareContracts_eq : compareContracts c own =
    (Field.all.find? fun f ↦ decide (f.get c ≠ f.get own)).map fun f ↦ (f.name, f.get c, f.get own) := by
  rw [compareContracts, identity_eq, identity_eq, List.zip_map', List.find?_map, Option.map_map]
  rfl

/-- A contract that came over the wire is judged as the contract that was sent. -/
theorem validateReceived_of_field {p : Portable} (h : p.field = (exported c metadata).field) :
    validateReceived repr p own = validateContract c own := by
  have htext (f : Field) : (!isText (p.field f) (.ofString (f.get own))) = decide (f.get c ≠ f.get own) := by
    rw [h, exported, isText, decide_not]
    simp [ofString_injective.eq_iff]
  rw [validateReceived, validateContract, compareContracts_eq]
  simp only [htext]
  cases hfind : Field.all.find? fun f ↦ decide (f.get c ≠ f.get own) with
  | none => rfl
  | some f =>
    simp only [h]
    simp [exported, reprOf, shown_ofString]

theorem validateContract_iff : validateContract c own = .ok () ↔ c = own := by
  constructor
  · exact SplitClient.eq_of_validateContract
  · intro h
    subst h
    have hnone : compareContracts c c = none := by simp [compareContracts_eq]
    rw [validateContract, hnone]

/-- Contracts with one text are the same contract. -/
theorem eq_of_text {c' : GraphContract} {metadata' : List (Text × Value)} {depth' : ℕ} {t : List Char}
    (h : canonicalJson depth (.obj (exported c metadata).identity) = .ok t)
    (h' : canonicalJson depth' (.obj (exported c' metadata').identity) = .ok t) : c = c' := by
  have hsame := same_of_write (clean_obj_identity c metadata) (clean_obj_identity c' metadata') h h'
  apply eq_of_get
  intro f
  have hfields := congrArg (Dict.lookup · f.key) (Value.obj.inj hsame)
  have hn (p : Portable) : (p.identity.map Prod.fst).Nodup := by
    rw [keys_identity]
    exact (List.nodup_cons.mp nodup_names).2
  have hlookup (p : Portable) : Dict.lookup p.identity f.key = some (p.field f) := by
    rw [Dict.lookup_eq_some_iff (hn p)]
    exact List.mem_map.mpr ⟨f, mem_all f, rfl⟩
  simp only [lookup_sorted (hn _), hlookup, Option.map_some, Option.some.injEq] at hfields
  exact ofString_injective (Value.str.inj hfields)

/-- The text that the digest of a contract is made of. -/
theorem exists_text (c : GraphContract) (metadata : List (Text × Value)) (depth : ℕ) :
    ∃ t, canonicalJson (depth + 1) (.obj (exported c metadata).identity) = .ok t := by
  apply writable_sorted_obj.mpr
  intro p hp
  obtain ⟨f, -, rfl⟩ := List.mem_map.mp hp
  exact ⟨writeString_ascii rfl _, writeString_ascii rfl _⟩

theorem exists_toJson (c : GraphContract) (h : Writable .compact (Value.obj metadata).sorted depth) :
    ∃ raw, (exported c metadata).toJson (depth + 1) = .ok raw := by
  apply writable_sorted_obj.mpr
  intro p hp
  refine ⟨writeString_ascii rfl p.1, ?_⟩
  rcases List.mem_append.mp hp with hp | hp
  · obtain ⟨f, -, rfl⟩ := List.mem_map.mp hp
    exact writeString_ascii rfl _
  · obtain rfl := List.mem_singleton.mp hp
    exact h

theorem ne_nil_of_toJson {raw : List Char} (h : (exported c metadata).toJson depth = .ok raw) :
    raw ≠ [] ∧ depth ≠ 0 := by
  cases depth with
  | zero => cases h
  | succ depth =>
    obtain ⟨ts, -, rfl⟩ := map_eq_ok h
    exact ⟨List.cons_ne_nil _ _, Nat.succ_ne_zero depth⟩

/-- What the receiver makes of a text and of a digest. -/
theorem checkAnnounced_eq (h : (Value.obj metadata).Clean) (hroom : depth ≤ room) {raw t : List Char}
    (hraw : (exported c metadata).toJson depth = .ok raw)
    (ht : canonicalJson depth (.obj (exported c metadata).identity) = .ok t) (digest : String) :
    checkAnnounced sha256 repr room ⟨some raw, some digest⟩ own =
      if digest = sha256 t then validateContract c own
      else .error (.runtimeError "Configured graph contract digest is invalid") := by
  have hdigest : Portable.digest { exported c metadata with metadata := (Value.obj metadata).sorted } sha256 room =
      .ok (sha256 t) := by
    have htext : canonicalJson room (.obj (exported c metadata).identity) = .ok t := write_mono ht hroom
    exact congrArg (Except.map sha256) htext
  rw [checkAnnounced]
  simp only [if_neg (ne_nil_of_toJson hraw).1, fromJson_toJson h hraw hroom, ok_bind, hdigest, Option.some.injEq]
  by_cases heq : digest = sha256 t
  · rw [if_pos heq, require_of heq, ok_bind]
    exact validateReceived_of_field rfl
  · rw [if_neg heq, require, if_neg heq]
    rfl

end Reading

/-- The server announces the contract of one runtime with the digest of another, or of the same: a client, or
a suffix, whose own runtime has the contract `own` takes it exactly if all three are one contract. Where text
and digest belong together it answers as if it held the contract of the server itself. -/
theorem announced_contract_decides {server hashed own : GraphContract} {metadata metadata' : List (Text × Value)}
    {raw : List Char} {digest : String} (hclean : (Value.obj metadata).Clean) (hroom : depth ≤ room)
    (hraw : (exported server metadata).toJson depth = .ok raw)
    (hdigest : (exported hashed metadata').digest sha256 depth = .ok digest)
    (hsha : ∀ t t', canonicalJson depth (.obj (exported server metadata).identity) = .ok t →
      canonicalJson depth (.obj (exported hashed metadata').identity) = .ok t' → sha256 t = sha256 t' → t = t') :
    (checkAnnounced sha256 repr room ⟨some raw, some digest⟩ own = .ok () ↔ server = hashed ∧ server = own) ∧
      (server = hashed →
        checkAnnounced sha256 repr room ⟨some raw, some digest⟩ own = validateContract server own) := by
  obtain ⟨t', ht', rfl⟩ := map_eq_ok hdigest
  obtain ⟨depth, rfl⟩ := Nat.exists_eq_succ_of_ne_zero (ne_nil_of_toJson hraw).2
  obtain ⟨t, ht⟩ := exists_text server metadata depth
  have hiff : sha256 t' = sha256 t ↔ server = hashed := by
    constructor
    · intro heq
      obtain rfl := hsha t t' ht ht' heq.symm
      exact eq_of_text ht ht'
    · intro heq
      subst heq
      have htext : t = t' := Except.ok.inj (ht.symm.trans ht')
      rw [htext]
  have hcheck : checkAnnounced sha256 repr room ⟨some raw, some (sha256 t')⟩ own =
      if sha256 t' = sha256 t then validateContract server own
      else .error (.runtimeError "Configured graph contract digest is invalid") :=
    checkAnnounced_eq hclean hroom hraw ht (sha256 t')
  constructor
  · rw [hcheck]
    by_cases heq : server = hashed
    · rw [if_pos (hiff.mpr heq), validateContract_iff]
      exact (and_iff_right heq).symm
    · rw [if_neg fun h ↦ heq (hiff.mp h)]
      simp [heq]
  · intro heq
    rw [hcheck, if_pos (hiff.mpr heq)]

def sampleContract : GraphContract :=
  ⟨"splitfleet-graph.v1", "2.34.1", "torch", "", "toy.Net", "state", "input", "request", "graph", "after:x", "boundary",
    "capability"⟩

def sampleMetadata : List (Text × Value) := [(.ofString "source", .str (.ofString "torchlens_2.34.1"))]

theorem announced_contract_sample : ∃ raw digest, (exported sampleContract sampleMetadata).toJson 2 = .ok raw ∧
    (exported sampleContract sampleMetadata).digest String.ofList 2 = .ok digest ∧
      checkAnnounced String.ofList (fun _ ↦ "") 2 ⟨some raw, some digest⟩ sampleContract = .ok () := by
  have hclean : (Value.obj sampleMetadata).Clean := by
    simp [sampleMetadata, whole_ofString, Value.Clean, CleanFields]
  have hmetadata : Writable .compact (Value.obj sampleMetadata).sorted 1 := by
    apply writable_sorted_obj.mpr
    intro p hp
    obtain rfl := List.mem_singleton.mp hp
    exact ⟨writeString_ascii rfl _, writeString_ascii rfl _⟩
  obtain ⟨raw, hraw⟩ := exists_toJson sampleContract hmetadata
  obtain ⟨t, ht⟩ := exists_text sampleContract sampleMetadata 1
  have hdigest : (exported sampleContract sampleMetadata).digest String.ofList 2 = .ok (String.ofList t) :=
    congrArg (Except.map String.ofList) ht
  exact ⟨raw, String.ofList t, hraw, hdigest, (announced_contract_decides String.ofList (fun _ ↦ "") 2 2 hclean le_rfl
    hraw hdigest fun t t' _ _ h ↦ String.ofList_injective h).1.mpr ⟨rfl, rfl⟩⟩

end SplitFleet.GraphContracts
