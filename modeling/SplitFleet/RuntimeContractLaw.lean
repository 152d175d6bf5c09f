import SplitFleet.RuntimeContract

set_option autoImplicit false

namespace SplitFleet.RuntimeContract

open Lib Lib.JsonText

/-! ### Values that are JSON already -/

section Stable

theorem safeItems_eq (items : List Object) : safeItems items = items.map jsonSafe := by
  induction items with
  | nil => rfl
  | cons v items ih => simp [safeItems, ih]

theorem safeFields_eq (fields : List (Text × Object)) : safeFields fields = fields.map fun p ↦ (p.1, jsonSafe p.2) := by
  induction fields with
  | nil => rfl
  | cons p fields ih => simp [safeFields, ih]

theorem ofItems_eq (items : List Value) : ofItems items = items.map Object.ofValue := by
  induction items with
  | nil => rfl
  | cons v items ih => simp [ofItems, ih]

theorem ofFields_eq (fields : List (Text × Value)) : ofFields fields = fields.map fun p ↦ (p.1, .ofValue p.2) := by
  induction fields with
  | nil => rfl
  | cons p fields ih => simp [ofFields, ih]

/-- `_json_safe` leaves the value as it is. -/
def Stable (v : Value) : Prop := jsonSafe (.ofValue v) = v

theorem stable_arr {items : List Value} (h : ∀ v ∈ items, Stable v) : Stable (.arr items) := by
  have hitems : (items.map Object.ofValue).map jsonSafe = items := by
    rw [List.map_map]
    exact (List.map_congr_left h).trans (List.map_id items)
  rw [Stable, Object.ofValue, jsonSafe, ofItems_eq, safeItems_eq, hitems]

theorem safeFields_ofFields {fields : List (Text × Value)} (h : ∀ p ∈ fields, Stable p.2) :
    safeFields (ofFields fields) = fields := by
  rw [ofFields_eq, safeFields_eq, List.map_map]
  refine (List.map_congr_left ?_).trans (List.map_id fields)
  intro p hp
  exact Prod.ext rfl (h p hp)

theorem stable_obj {fields : List (Text × Value)} (hn : (fields.map Prod.fst).Nodup) (h : ∀ p ∈ fields, Stable p.2) :
    Stable (.obj fields) := by
  rw [Stable, Object.ofValue, jsonSafe, safeFields_ofFields h, assignAll_of_nodup hn]

theorem stable_of_clean {v : Value} (h : v.Clean) : Stable v := by
  induction v using Value.induction with
  | null | bool | int | float | str => rfl
  | arr items ih => exact stable_arr fun v hv ↦ ih v hv (clean_arr.mp h v hv)
  | obj fields ih =>
    rw [clean_obj] at h
    exact stable_obj h.1 fun p hp ↦ ih p hp (h.2 p hp).2

/-- Induction with the hypothesis for every item and for every entry. -/
@[elab_as_elim] theorem Object.induction {P : Object → Prop} (null : P .null) (bool : ∀ b, P (.bool b))
    (int : ∀ z, P (.int z)) (float : ∀ x, P (.float x)) (str : ∀ s, P (.str s))
    (list : ∀ items, (∀ v ∈ items, P v) → P (.list items))
    (dict : ∀ fields, (∀ p ∈ fields, P p.2) → P (.dict fields))
    (record : ∀ fields, (∀ p ∈ fields, P p.2) → P (.record fields))
    (tensor : ∀ dtype shape requiresGrad, P (.tensor dtype shape requiresGrad))
    (ndarray : ∀ dtype shape, P (.ndarray dtype shape)) (other : ∀ text, P (.other text)) (v : Object) : P v :=
  @Object.rec P (fun items ↦ ∀ v ∈ items, P v) (fun fields ↦ ∀ p ∈ fields, P p.2) (fun p ↦ P p.2)
    null bool int float str list dict record tensor ndarray other
    (fun _ h ↦ absurd h List.not_mem_nil)
    (fun _ _ ha hl v h ↦ (List.mem_cons.mp h).elim (fun e ↦ e ▸ ha) (hl v))
    (fun _ h ↦ absurd h List.not_mem_nil)
    (fun _ _ ha hl p h ↦ (List.mem_cons.mp h).elim (fun e ↦ e ▸ ha) (hl p))
    (fun _ _ h ↦ h) v

theorem nodup_assignAll (fields : List (Text × Value)) : ((assignAll fields).map Prod.fst).Nodup := by
  rw [assignAll_eq]
  exact (Dict.ofList fields).nodup

theorem mem_of_mem_assignAll {fields : List (Text × Value)} {p : Text × Value} (h : p ∈ assignAll fields) :
    p ∈ fields := by
  rw [assignAll_eq] at h
  exact Dict.mem_of_get?_ofList ((Dict.get?_eq_some_iff _).mpr h)

theorem stable_assignAll {fields : List (Text × Object)} (h : ∀ p ∈ fields, Stable (jsonSafe p.2)) :
    Stable (.obj (assignAll (safeFields fields))) := by
  refine stable_obj (nodup_assignAll _) ?_
  intro p hp
  have hmem := mem_of_mem_assignAll hp
  rw [safeFields_eq] at hmem
  obtain ⟨q, hq, rfl⟩ := List.mem_map.mp hmem
  exact h q hq

theorem nodup_named {α : Type} {fields : List (String × α)} (h : (fields.map Prod.fst).Nodup) :
    ((named fields).map Prod.fst).Nodup := by
  have hkeys : (named fields).map Prod.fst = (fields.map Prod.fst).map Text.ofString := by
    simp [named, Function.comp_def]
  rw [hkeys]
  exact (List.nodup_map_iff ofString_injective).mpr h

theorem stable_symbolicShape (shape : List ℤ) : Stable (symbolicShape shape) := by
  cases shape with
  | nil => rfl
  | cons d dims =>
    apply stable_arr
    intro v hv
    rcases List.mem_cons.mp hv with rfl | hv
    · rfl
    · obtain ⟨z, -, rfl⟩ := List.mem_map.mp hv
      rfl

/-- What `_json_safe` returns, it leaves as it is. -/
theorem stable_jsonSafe (v : Object) : Stable (jsonSafe v) := by
  induction v using Object.induction with
  | null | bool | int | float | str | other => rfl
  | list items ih =>
    rw [jsonSafe, safeItems_eq]
    apply stable_arr
    intro v hv
    obtain ⟨w, hw, rfl⟩ := List.mem_map.mp hv
    exact ih w hw
  | dict fields ih => exact stable_assignAll ih
  | record fields ih => exact stable_assignAll ih
  | tensor dtype shape requiresGrad =>
    have hshape : jsonSafe (.ofValue (symbolicShape shape)) = symbolicShape shape := stable_symbolicShape shape
    refine stable_obj (nodup_named (by simp)) ?_
    simp [named, Stable, Object.ofValue, jsonSafe, hshape]
  | ndarray dtype shape =>
    have hshape : jsonSafe (.ofValue (symbolicShape shape)) = symbolicShape shape := stable_symbolicShape shape
    refine stable_obj (nodup_named (by simp)) ?_
    simp [named, Stable, Object.ofValue, jsonSafe, hshape]

end Stable

/-! ### A contract that was built -/

section Built

variable {B : Builtins} {sha1 : List Char → String} {depth room : ℕ}

theorem lookup_named {α : Type} (fields : List (String × α)) (key : String) :
    Dict.lookup (named fields) (.ofString key) = Dict.lookup fields key := by
  induction fields with
  | nil => rfl
  | cons p fields ih =>
    have hkey : (Text.ofString p.1 = .ofString key) = (p.1 = key) := propext ofString_injective.eq_iff
    simp only [named, List.map_cons, Dict.lookup, hkey] at ih ⊢
    rw [ih]

theorem keys_safeFields (fields : List (Text × Object)) : (safeFields fields).map Prod.fst = fields.map Prod.fst := by
  simp [safeFields_eq, Function.comp_def]

theorem lookup_safeFields (fields : List (Text × Object)) (k : Text) :
    Dict.lookup (safeFields fields) k = (Dict.lookup fields k).map jsonSafe := by
  induction fields with
  | nil => rfl
  | cons p fields ih =>
    by_cases hp : p.1 = k
    · simp [safeFields, Dict.lookup, hp]
    · simp [safeFields, Dict.lookup, hp, ih]

/-- The contract behind `contract`, with its identifiers and its digest. -/
structure Built (B : Builtins) (sha1 : List Char → String) (depth : ℕ) (a : Args) (spec : FeatureAbiSpec)
    (abiId identityId digest : String) (contract : List (Text × Value)) : Prop where
  spec_ok : buildFeatureAbiSpec B a = .ok spec
  abi : stableDigest sha1 depth (.ofValue spec.toDict) = .ok abiId
  identity : stableDigest sha1 depth (dictOf (runtimeIdentity a)) = .ok identityId
  digest_ok : runtimeContractDigest sha1 depth (named (contractFields a spec abiId identityId)) = .ok digest
  fields : contract = safeFields (named (contractFields a spec abiId identityId)) ++
    [(digestKey, .str (.ofString digest))]

theorem nodup_contractFields (a : Args) (spec : FeatureAbiSpec) (abiId identityId : String) :
    (((contractFields a spec abiId identityId).map Prod.fst) ++ ["runtime_contract_digest"]).Nodup := by
  simp [contractFields]

theorem nodup_named_contractFields (a : Args) (spec : FeatureAbiSpec) (abiId identityId : String) :
    ((named (contractFields a spec abiId identityId)).map Prod.fst ++ [digestKey]).Nodup := by
  have h := (List.nodup_map_iff ofString_injective).mpr (nodup_contractFields a spec abiId identityId)
  simpa [named, digestKey, Function.comp_def] using h

theorem digested_eq (a : Args) (spec : FeatureAbiSpec) (abiId identityId digest : String) :
    assignAll (safeFields (named (contractFields a spec abiId identityId) ++ [(digestKey, literal digest)])) =
      safeFields (named (contractFields a spec abiId identityId)) ++ [(digestKey, .str (.ofString digest))] := by
  rw [assignAll_of_nodup]
  · simp [safeFields_eq, literal, jsonSafe]
  · rw [keys_safeFields, List.map_append]
    exact nodup_named_contractFields a spec abiId identityId

theorem runtimeContractDigest_named (a : Args) (spec : FeatureAbiSpec) (abiId identityId : String) :
    runtimeContractDigest sha1 depth (named (contractFields a spec abiId identityId)) =
      (write .compact (Value.obj (safeFields (named (contractFields a spec abiId identityId)))).sorted depth).map
        sha1 := by
  have hn := nodup_named_contractFields a spec abiId identityId
  rw [List.nodup_append] at hn
  have hall : (named (contractFields a spec abiId identityId)).filter (·.1 ≠ digestKey) =
      named (contractFields a spec abiId identityId) := by
    rw [List.filter_eq_self]
    intro p hp
    exact decide_eq_true (hn.2.2 p.1 (List.mem_map_of_mem hp) digestKey (by simp))
  rw [runtimeContractDigest, hall, stableDigest, stableJson, jsonSafe,
    assignAll_of_nodup (by rw [keys_safeFields]; exact hn.1)]

theorem exists_built {args : Args} {contract : List (Text × Value)}
    (h : buildRuntimeContract B sha1 depth args = .ok contract) :
    ∃ spec abiId identityId digest, Built B sha1 depth args.resolved spec abiId identityId digest contract := by
  obtain ⟨spec, hspec, h⟩ := bind_eq_ok h
  obtain ⟨abiId, habi, h⟩ := bind_eq_ok h
  obtain ⟨identityId, hidentity, h⟩ := bind_eq_ok h
  obtain ⟨digest, hdigest, h⟩ := bind_eq_ok h
  refine ⟨spec, abiId, identityId, digest, hspec, habi, hidentity, hdigest, ?_⟩
  obtain rfl := Except.ok.inj h
  exact digested_eq args.resolved spec abiId identityId digest

/-- Where the ABI can be described and the contract has a text, the contract is built. -/
theorem build_of_fits (B : Builtins) (sha1 : List Char → String) {args : Args} {spec : FeatureAbiSpec}
    (hspec : buildFeatureAbiSpec B args.resolved = .ok spec)
    (hfits : (Value.obj (safeFields (named (contractFields args.resolved spec "" "")))).Fits depth) :
    ∃ t t' t'', buildRuntimeContract B sha1 depth args =
      .ok (safeFields (named (contractFields args.resolved spec (sha1 t) (sha1 t'))) ++
        [(digestKey, .str (.ofString (sha1 t'')))]) := by
  cases depth with
  | zero => cases hfits
  | succ depth =>
    have hfields : ∀ abiId identityId : String,
        FitFields (safeFields (named (contractFields args.resolved spec abiId identityId))) depth := fun _ _ ↦ hfits
    have hn := (List.nodup_append.mp (nodup_named_contractFields args.resolved spec "" "")).1
    have hlookup (key : String) (v : Object)
        (hv : Dict.lookup (contractFields args.resolved spec "" "") key = some v) : (jsonSafe v).Fits depth := by
      have hsome : Dict.lookup (safeFields (named (contractFields args.resolved spec "" ""))) (.ofString key) =
          some (jsonSafe v) := by rw [lookup_safeFields, lookup_named, hv, Option.map_some]
      rw [Dict.lookup_eq_some_iff (by rwa [keys_safeFields])] at hsome
      exact fitFields_iff.mp (hfields "" "") _ hsome
    obtain ⟨t, ht⟩ := writable_of_fits (o := .compact) rfl rfl
      (hlookup "feature_abi_spec" (.ofValue spec.toDict) (by simp [contractFields, Dict.lookup]))
    obtain ⟨t', ht'⟩ := writable_of_fits (o := .compact) rfl rfl
      (hlookup "runtime_identity" (.ofValue (jsonSafe (dictOf (runtimeIdentity args.resolved))))
        (by simp [contractFields, Dict.lookup]))
    have hstable : jsonSafe (.ofValue (jsonSafe (dictOf (runtimeIdentity args.resolved)))) = _ := stable_jsonSafe _
    rw [hstable] at ht'
    have hwhole : (Value.obj (safeFields (named
        (contractFields args.resolved spec (sha1 t) (sha1 t'))))).Fits (depth + 1) := hfields _ _
    obtain ⟨t'', ht''⟩ := writable_of_fits (o := .compact) rfl rfl hwhole
    refine ⟨t, t', t'', ?_⟩
    have habi : stableDigest sha1 (depth + 1) (.ofValue spec.toDict) = .ok (sha1 t) :=
      congrArg (Except.map sha1) (write_mono ht depth.le_succ)
    have hidentity : stableDigest sha1 (depth + 1) (dictOf (runtimeIdentity args.resolved)) = .ok (sha1 t') :=
      congrArg (Except.map sha1) (write_mono ht' depth.le_succ)
    have hdigest : runtimeContractDigest sha1 (depth + 1)
        (named (contractFields args.resolved spec (sha1 t) (sha1 t'))) = _ := runtimeContractDigest_named ..
    rw [ht''] at hdigest
    rw [buildRuntimeContract, hspec, ok_bind, habi, ok_bind, hidentity, ok_bind]
    dsimp only
    rw [hdigest, ← digested_eq]
    rfl

namespace Built

variable {a : Args} {spec : FeatureAbiSpec} {abiId identityId digest : String} {contract : List (Text × Value)}
  (h : Built B sha1 depth a spec abiId identityId digest contract)

include h

theorem nodup : (contract.map Prod.fst).Nodup := by
  rw [h.fields, List.map_append, keys_safeFields]
  exact nodup_named_contractFields a spec abiId identityId

theorem filter : contract.filter (·.1 ≠ digestKey) = safeFields (named (contractFields a spec abiId identityId)) := by
  have hn := h.nodup
  rw [h.fields, List.map_append, List.nodup_append] at hn
  rw [h.fields, List.filter_append]
  have hall : (safeFields (named (contractFields a spec abiId identityId))).filter (·.1 ≠ digestKey) =
      safeFields (named (contractFields a spec abiId identityId)) := by
    rw [List.filter_eq_self]
    intro p hp
    exact decide_eq_true (hn.2.2 p.1 (List.mem_map_of_mem hp) digestKey (by simp))
  rw [hall]
  simp

theorem lookup_digest : Dict.lookup contract digestKey = some (.str (.ofString digest)) := by
  rw [Dict.lookup_eq_some_iff h.nodup, h.fields]
  simp

theorem lookup_field (key : String) (v : Object)
    (hv : Dict.lookup (contractFields a spec abiId identityId) key = some v) :
    Dict.lookup contract (.ofString key) = some (jsonSafe v) := by
  have hfirst : Dict.lookup (safeFields (named (contractFields a spec abiId identityId))) (.ofString key) =
      some (jsonSafe v) := by rw [lookup_safeFields, lookup_named, hv, Option.map_some]
  have hn : ((safeFields (named (contractFields a spec abiId identityId))).map Prod.fst).Nodup := by
    rw [keys_safeFields]
    exact (List.nodup_append.mp (nodup_named_contractFields a spec abiId identityId)).1
  rw [Dict.lookup_eq_some_iff hn] at hfirst
  rw [Dict.lookup_eq_some_iff h.nodup, h.fields]
  exact List.mem_append_left _ hfirst

/-- The text that the digest is made of. -/
theorem exists_text : ∃ t, write .compact (Value.obj (contract.filter (·.1 ≠ digestKey))).sorted depth = .ok t ∧
    sha1 t = digest := by
  have hdigest := h.digest_ok
  rw [runtimeContractDigest_named, ← h.filter] at hdigest
  exact map_eq_ok hdigest

/-- The digest leaves room for the whole contract. -/
theorem exists_stableJson : ∃ text, write .compact (Value.obj contract).sorted depth = .ok text := by
  obtain ⟨t, ht, -⟩ := h.exists_text
  cases depth with
  | zero => cases ht
  | succ depth =>
    have hfields := writable_sorted_obj.mp ⟨t, ht⟩
    apply writable_sorted_obj.mpr
    intro p hp
    refine ⟨writeString_ascii rfl p.1, ?_⟩
    by_cases hkey : p.1 = digestKey
    · have hvalue : p.2 = .str (.ofString digest) := by
        have hlookup := (Dict.lookup_eq_some_iff h.nodup).mpr hp
        rw [hkey, h.lookup_digest] at hlookup
        exact (Option.some.inj hlookup).symm
      rw [hvalue]
      exact writeString_ascii rfl _
    · exact (hfields p (List.mem_filter.mpr ⟨hp, decide_eq_true hkey⟩)).2

end Built

end Built

/-! ### A sample -/

section Sample

def plainBuiltins : Builtins where
  str _ := []
  int _ := .error (.typeError "")
  truth _ := .ok true
  list _ := .ok []
  getattr _ _ := none

/-- A cut with one tensor. -/
def sampleArgs : Args where
  modelFamily := .ofString "toy"
  canonicalSplitKey := .ofString "after:x"
  graphSignature := .ofString "graph"
  boundaryTensorLabels := [.ofString "x"]
  boundarySchema := Dict.ofList [(.ofString "x", dictOf [("shape", .list [.int 1, .int 8]),
    ("dtype", literal "torch.float32")])]
  featureLayout := .empty
  preprocessingAbi := .empty
  passthroughSpecs := .empty
  runtimeBackend := nativeBackend
  torchlensVersion := .ofString "2.34.1"
  modelName := []
  adapterVersion := []
  runtimeVersion := []
  boundary := []
  traceBatchMode := []
  dynamicBatch := some (1, 8)
  traceBatchSize := some 1
  batchSymbol := .ofString "B"

def sampleSpec : FeatureAbiSpec where
  version := .ofString "feature-abi.v2"
  runtimeBackend := nativeBackend
  torchlensVersion := .ofString "2.34.1"
  modelFamily := .ofString "toy"
  modelName := []
  adapterVersion := []
  runtimeVersion := .ofString "2.34.1"
  canonicalSplitKey := .ofString "after:x"
  graphSignature := []
  boundary := .ofString "after:x"
  boundaryTensorLabels := [.ofString "x"]
  boundaryTensors := []
  boundarySchema := [(.ofString "x", dictOf [("canonical_id", literal "x"), ("torchlens_label", literal "x"),
    ("module_path", literal ""), ("op_type", literal ""), ("symbolic_shape", .list [literal "B", .int 8]),
    ("dtype", literal "float32"), ("requires_grad", .bool false), ("role", literal "primary"),
    ("output_index", .null), ("device_policy", literal "runtime")])]
  passthroughSpecs := .obj []
  preprocessingAbi := .obj []
  traceBatchMode := []
  dynamicBatch := some (1, 8)
  batchSymbol := .ofString "B"

theorem sampleSpec_ok : buildFeatureAbiSpec plainBuiltins sampleArgs.resolved = .ok sampleSpec := by rfl

/-- The contract of the sample, where every hash is `0`. -/
def sampleContract : List (Text × Value) :=
  safeFields (named (contractFields sampleArgs.resolved sampleSpec "0" "0")) ++ [(digestKey, .str (.ofString "0"))]
theorem sampleContract_fits :
    (Value.obj (safeFields (named (contractFields sampleArgs.resolved sampleSpec "" "")))).Fits 5 := by
  decide +kernel

theorem sampleContract_clean : (Value.obj sampleContract).Clean := by decide +kernel

theorem sampleContract_ok : buildRuntimeContract plainBuiltins (fun _ ↦ "0") 5 sampleArgs = .ok sampleContract := by
  obtain ⟨_, _, _, h⟩ := build_of_fits plainBuiltins (fun _ ↦ "0") sampleSpec_ok sampleContract_fits
  exact h

end Sample

/-! ### The contract on the wire -/

section Wire

variable {B : Builtins} {sha1 : List Char → String} {depth room : ℕ} {contract : List (Text × Value)}

theorem filter_ofFields (keep : Text → Bool) (fields : List (Text × Value)) :
    (ofFields fields).filter (fun p ↦ keep p.1) = ofFields (fields.filter fun p ↦ keep p.1) := by
  rw [ofFields_eq, ofFields_eq, List.filter_map]
  rfl

theorem stable_filter {fields : List (Text × Value)} (hn : (fields.map Prod.fst).Nodup)
    (h : ∀ p ∈ fields, Stable p.2) (keep : Text → Bool) :
    jsonSafe (.dict ((ofFields fields).filter fun p ↦ keep p.1)) = .obj (fields.filter fun p ↦ keep p.1) := by
  rw [filter_ofFields]
  have hsub : (fields.filter fun p ↦ keep p.1).map Prod.fst |>.Nodup := hn.sublist (List.filter_sublist.map _)
  exact stable_obj hsub fun p hp ↦ h p (List.mem_filter.mp hp).1

/-- Sorting before or after a key is left out. -/
theorem sorted_filter {fields : List (Text × Value)} (hn : (fields.map Prod.fst).Nodup) (keep : Text → Bool) :
    (Value.obj ((sortKeys (sortedFields fields)).filter fun p ↦ keep p.1)).sorted =
      (Value.obj (fields.filter fun p ↦ keep p.1)).sorted := by
  have hfilter : (sortedFields fields).filter (fun p ↦ keep p.1) = sortedFields (fields.filter fun p ↦ keep p.1) := by
    rw [sortedFields_eq, sortedFields_eq, List.filter_map]
    rfl
  have hperm : ((sortKeys (sortedFields fields)).filter fun p ↦ keep p.1).Perm
      (sortedFields (fields.filter fun p ↦ keep p.1)) := by
    rw [← hfilter]
    exact (sortKeys_perm _).filter _
  have hsorted : sortedFields ((sortKeys (sortedFields fields)).filter fun p ↦ keep p.1) =
      (sortKeys (sortedFields fields)).filter fun p ↦ keep p.1 := by
    rw [sortedFields_eq]
    refine (List.map_congr_left ?_).trans (List.map_id _)
    intro p hp
    have hmem := (sortKeys_perm _).mem_iff.mp (List.mem_filter.mp hp).1
    rw [sortedFields_eq] at hmem
    obtain ⟨q, -, rfl⟩ := List.mem_map.mp hmem
    exact Prod.ext rfl (sorted_sorted q.2)
  rw [Value.sorted, Value.sorted, hsorted]
  refine congrArg Value.obj (sortKeys_congr hperm ?_)
  rw [(hperm.map Prod.fst).nodup_iff, keys_sortedFields]
  exact hn.sublist (List.filter_sublist.map _)

theorem lookup_ofFields (fields : List (Text × Value)) (k : Text) :
    Dict.lookup (ofFields fields) k = (Dict.lookup fields k).map .ofValue := by
  induction fields with
  | nil => rfl
  | cons p fields ih =>
    by_cases hp : p.1 = k
    · simp [ofFields, Dict.lookup, hp]
    · simp [ofFields, Dict.lookup, hp, ih]

/-- The contract as it comes out of its text. -/
def received (contract : List (Text × Value)) : List (Text × Value) := sortKeys (sortedFields contract)

/-- How a contract is handed to the comparison: as it is, or as a text that was made of it. -/
inductive Shows (depth room : ℕ) (contract : List (Text × Value)) : Presented → Prop
  | mapping : Shows depth room contract (.mapping (ofFields contract))
  | text {text : List Char} (hclean : (Value.obj contract).Clean) (hroom : depth ≤ room)
      (htext : stableJson depth (.dict (ofFields contract)) = .ok text) : Shows depth room contract (.text text)

/-- The entries that are in order already are read as they were. -/
structure Reads (contract : List (Text × Value)) (fields : List (Text × Object)) : Prop where
  isEmpty : fields.isEmpty = contract.isEmpty
  getKey : ∀ key v, Dict.lookup contract (.ofString key) = some v → v.sorted = v → getKey fields key = .ofValue v

theorem stableJson_ofFields (hclean : (Value.obj contract).Clean) :
    stableJson depth (.dict (ofFields contract)) = write .compact (Value.obj contract).sorted depth := by
  have hstable : jsonSafe (.dict (ofFields contract)) = .obj contract := stable_of_clean hclean
  rw [stableJson, hstable]

theorem contractPayload_text (hclean : (Value.obj contract).Clean) (hroom : depth ≤ room) {text : List Char}
    (htext : stableJson depth (.dict (ofFields contract)) = .ok text) :
    contractPayload room (.text text) = .ok (ofFields (received contract)) := by
  rw [stableJson_ofFields hclean] at htext
  rw [contractPayload, loads_write_sorted hclean htext hroom]
  rfl

theorem isEmpty_received : (ofFields (received contract)).isEmpty = contract.isEmpty := by
  have hlength : (ofFields (received contract)).length = contract.length := by
    rw [ofFields_eq, List.length_map, received, (sortKeys_perm _).length_eq, sortedFields_eq, List.length_map]
  rw [Bool.eq_iff_iff, List.isEmpty_iff_length_eq_zero, List.isEmpty_iff_length_eq_zero, hlength]

theorem exists_payload {shown : Presented} (h : Shows depth room contract shown) (hn : (contract.map Prod.fst).Nodup) :
    ∃ fields, contractPayload room shown = .ok fields ∧ Reads contract fields := by
  cases h with
  | mapping =>
    refine ⟨ofFields contract, rfl, by simp [ofFields_eq], ?_⟩
    intro key v hv _
    simp [getKey, lookup_ofFields, hv]
  | text hclean hroom htext =>
    refine ⟨_, contractPayload_text hclean hroom htext, isEmpty_received, ?_⟩
    intro key v hv hsorted
    simp [getKey, lookup_ofFields, received, lookup_sorted hn, hv, hsorted]

theorem strOr_str (s : Text) : strOr B (.str s) (.str []) = .ok s := by
  cases s with
  | nil => rfl
  | cons c s => rfl

theorem pyOr_list (items : List Object) : pyOr B (.list items) (.list []) = .ok (.list items) := by
  cases items with
  | nil => rfl
  | cons v items => rfl

namespace Built

variable {a : Args} {spec : FeatureAbiSpec} {abiId identityId digest : String}
  (h : Built B sha1 depth a spec abiId identityId digest contract)

include h

theorem lookup_abi : Dict.lookup contract (.ofString "feature_abi_id") = some (.str (.ofString abiId)) :=
  h.lookup_field _ (literal abiId) (by simp [contractFields, Dict.lookup])

theorem lookup_identity : Dict.lookup contract (.ofString "runtime_identity_id") = some (.str (.ofString identityId)) :=
  h.lookup_field _ (literal identityId) (by simp [contractFields, Dict.lookup])

theorem lookup_labels : Dict.lookup contract (.ofString "boundary_tensor_labels") =
    some (.arr (a.boundaryTensorLabels.map .str)) := by
  have hlookup := h.lookup_field "boundary_tensor_labels" (labelsOf a.boundaryTensorLabels)
    (by simp [contractFields, Dict.lookup])
  rw [hlookup, labelsOf, jsonSafe, safeItems_eq, List.map_map]
  rfl

variable {fields : List (Text × Object)}

theorem isEmpty_eq (hf : Reads contract fields) : fields.isEmpty = false := by
  rw [hf.isEmpty, List.isEmpty_eq_false_iff]
  intro hnil
  have hlookup := h.lookup_digest
  rw [hnil] at hlookup
  cases hlookup

theorem textAt_abi (hf : Reads contract fields) : textAt B fields "feature_abi_id" = .ok (.ofString abiId) := by
  rw [textAt, hf.getKey _ _ h.lookup_abi rfl]
  exact strOr_str _

theorem textAt_identity (hf : Reads contract fields) :
    textAt B fields "runtime_identity_id" = .ok (.ofString identityId) := by
  rw [textAt, hf.getKey _ _ h.lookup_identity rfl]
  exact strOr_str _

theorem labelsAt_eq (hf : Reads contract fields) : labelsAt B fields = .ok a.boundaryTensorLabels := by
  have hsorted : (Value.arr (a.boundaryTensorLabels.map .str)).sorted = .arr (a.boundaryTensorLabels.map .str) := by
    rw [Value.sorted, sortedItems_eq, List.map_map]
    rfl
  rw [labelsAt, hf.getKey _ _ h.lookup_labels hsorted, Object.ofValue, ofItems_eq, pyOr_list, ok_bind, listOf, ok_bind,
    List.map_map, List.map_map]
  exact congrArg Except.ok (List.map_id _)

end Built

theorem classify_congr {p p' : Presented} {f f' : List (Text × Object)} (hp : contractPayload room p = .ok f)
    (hp' : contractPayload room p' = .ok f') (hempty : f.isEmpty = f'.isEmpty)
    (habi : textAt B f "feature_abi_id" = textAt B f' "feature_abi_id")
    (hidentity : textAt B f "runtime_identity_id" = textAt B f' "runtime_identity_id")
    (hlabels : labelsAt B f = labelsAt B f') (other : Presented) :
    classifyContractCompatibility B room p other = classifyContractCompatibility B room p' other ∧
      classifyContractCompatibility B room other p = classifyContractCompatibility B room other p' := by
  simp only [classifyContractCompatibility, hp, hp', ok_bind, hempty, habi, hidentity, hlabels, and_self]

/-- The verdict on two contracts that were built. -/
def verdictOn (edge cloud : Args) (edgeAbi edgeIdentity cloudAbi cloudIdentity : String) : Verdict where
  compatible := edgeAbi ≠ "" ∧ cloudAbi ≠ "" ∧ edgeAbi = cloudAbi
  reason :=
    if edgeAbi ≠ "" ∧ cloudAbi ≠ "" ∧ edgeAbi = cloudAbi then
      if edgeIdentity ≠ "" ∧ cloudIdentity ≠ "" ∧ edgeIdentity ≠ cloudIdentity then
        "runtime_identity_changed_but_feature_abi_compatible"
      else "compatible"
    else "feature_abi_id"
  edgeFeatureAbiId := .ofString edgeAbi
  cloudFeatureAbiId := .ofString cloudAbi
  edgeRuntimeIdentityId := .ofString edgeIdentity
  cloudRuntimeIdentityId := .ofString cloudIdentity
  edgeBoundaryTensorLabels := edge.boundaryTensorLabels
  cloudBoundaryTensorLabels := cloud.boundaryTensorLabels

theorem ofString_eq_nil {s : String} : Text.ofString s = [] ↔ s = "" := by simp [Text.ofString]

theorem classify_built {a a' : Args} {spec spec' : FeatureAbiSpec} {abi identity digest abi' identity' digest' : String}
    {contract' : List (Text × Value)} {edge cloud : Presented} {depth' : ℕ}
    (h : Built B sha1 depth a spec abi identity digest contract)
    (h' : Built B sha1 depth' a' spec' abi' identity' digest' contract')
    (hedge : Shows depth room contract edge) (hcloud : Shows depth' room contract' cloud) :
    classifyContractCompatibility B room edge cloud = .ok (verdictOn a a' abi identity abi' identity') := by
  obtain ⟨fields, hpayload, hf⟩ := exists_payload hedge h.nodup
  obtain ⟨fields', hpayload', hf'⟩ := exists_payload hcloud h'.nodup
  rw [classifyContractCompatibility, hpayload, hpayload', ok_bind, ok_bind, h.textAt_abi hf, h'.textAt_abi hf', ok_bind,
    ok_bind, h.textAt_identity hf, h'.textAt_identity hf', ok_bind, ok_bind, h.labelsAt_eq hf, h'.labelsAt_eq hf',
    ok_bind, ok_bind, h.isEmpty_eq hf, h'.isEmpty_eq hf']
  simp only [judge, verdictOn, Bool.false_eq_true, if_false, ne_eq, ofString_eq_nil, ofString_injective.eq_iff]
  by_cases hsame : ¬abi = "" ∧ ¬abi' = "" ∧ abi = abi'
  · simp only [if_pos hsame, true_and, decide_eq_true hsame]
    rfl
  · simp only [if_neg hsame, decide_eq_false hsame, Bool.false_eq_true, false_and, if_false]
    rfl

/-- The digest that a contract carries is the one that a receiver of its text computes. -/
theorem Built.digest_received {a : Args} {spec : FeatureAbiSpec} {abi identity digest : String}
    (h : Built B sha1 depth a spec abi identity digest contract) (hclean : (Value.obj contract).Clean)
    (hroom : depth ≤ room) : runtimeContractDigest sha1 room (ofFields (received contract)) = .ok digest := by
  obtain ⟨t, ht, rfl⟩ := h.exists_text
  have hvalues : ∀ p ∈ received contract, Stable p.2 := by
    intro p hp
    have hsorted : (Value.obj contract).sorted.Clean := clean_sorted.mpr hclean
    rw [Value.sorted, clean_obj] at hsorted
    exact stable_of_clean (hsorted.2 p hp).2
  have hn : ((received contract).map Prod.fst).Nodup := by
    rw [received, nodup_sortKeys, keys_sortedFields]
    exact h.nodup
  have hsafe := stable_filter hn hvalues fun k ↦ decide (k ≠ digestKey)
  have hsorted := sorted_filter h.nodup fun k ↦ decide (k ≠ digestKey)
  rw [runtimeContractDigest, stableDigest, stableJson, hsafe]
  exact congrArg (Except.map sha1) ((congrArg (write .compact · room) hsorted).trans (write_mono ht hroom))

end Wire

theorem jsonSafe_received {contract : List (Text × Value)} (hclean : (Value.obj contract).Clean) :
    jsonSafe (.dict (ofFields (received contract))) = .obj (received contract) := by
  have hsorted : (Value.obj contract).sorted.Clean := clean_sorted.mpr hclean
  have hstable : Stable (.obj (received contract)) := stable_of_clean hsorted
  exact hstable

/-- The ABI that the contract carries has the identifier that the contract carries. -/
theorem Built.abi_received {B : Builtins} {sha1 : List Char → String} {depth room : ℕ} {a : Args}
    {spec : FeatureAbiSpec} {abi identity digest : String} {contract : List (Text × Value)}
    (h : Built B sha1 depth a spec abi identity digest contract) (hclean : (Value.obj contract).Clean)
    (hroom : depth ≤ room) :
    Dict.lookup (received contract) (.ofString "feature_abi_spec") = some spec.toDict.sorted ∧
      stableDigest sha1 room (.ofValue spec.toDict.sorted) = .ok abi := by
  have hlookup := h.lookup_field "feature_abi_spec" (.ofValue spec.toDict) (by simp [contractFields, Dict.lookup])
  have hstable : jsonSafe (.ofValue spec.toDict) = spec.toDict := stable_jsonSafe _
  rw [hstable] at hlookup
  have hsorted : jsonSafe (.ofValue spec.toDict.sorted) = spec.toDict.sorted :=
    stable_of_clean (clean_sorted.mpr ((clean_obj.mp hclean).2 _ ((Dict.lookup_eq_some_iff h.nodup).mp hlookup)).2)
  obtain ⟨t, ht, rfl⟩ := map_eq_ok h.abi
  constructor
  · rw [received, lookup_sorted h.nodup, hlookup]
    rfl
  · rw [stableJson, hstable] at ht
    rw [stableDigest, stableJson, hsorted, sorted_sorted, write_mono ht hroom]
    rfl

/-- A contract that was built and sent comes in with the digest and the identifier that it carries: a receiver that
computes them again gets what the contract says, the text of what came in is the text that was sent, and no comparison
tells the text from the contract. -/
theorem received_contract_intact (B : Builtins) (sha1 : List Char → String) {depth room : ℕ} {args : Args}
    {contract : List (Text × Value)} (h : buildRuntimeContract B sha1 depth args = .ok contract)
    (hclean : (Value.obj contract).Clean) (hroom : depth ≤ room) :
    ∃ text fields digest spec abi, stableJson depth (.dict (ofFields contract)) = .ok text ∧
      loads room text = .ok (.obj fields) ∧ stableJson room (.dict (ofFields fields)) = .ok text ∧
      Dict.lookup fields digestKey = some (.str (.ofString digest)) ∧
      runtimeContractDigest sha1 room (ofFields fields) = .ok digest ∧
      Dict.lookup fields (.ofString "feature_abi_id") = some (.str (.ofString abi)) ∧
      Dict.lookup fields (.ofString "feature_abi_spec") = some spec ∧
      stableDigest sha1 room (.ofValue spec) = .ok abi ∧
      ∀ other, classifyContractCompatibility B room (.text text) other =
          classifyContractCompatibility B room (.mapping (ofFields contract)) other ∧
        classifyContractCompatibility B room other (.text text) =
          classifyContractCompatibility B room other (.mapping (ofFields contract)) := by
  obtain ⟨spec, abi, identity, digest, hb⟩ := exists_built h
  obtain ⟨text, htext⟩ := hb.exists_stableJson
  have hjson : stableJson depth (.dict (ofFields contract)) = .ok text := (stableJson_ofFields hclean).trans htext
  obtain ⟨hspec, habi⟩ := hb.abi_received hclean hroom
  refine ⟨text, received contract, digest, _, abi, hjson, loads_write_sorted hclean htext hroom, ?_, ?_,
    hb.digest_received hclean hroom, ?_, hspec, habi, ?_⟩
  · rw [stableJson, jsonSafe_received hclean]
    exact (congrArg (write .compact · room) (sorted_sorted (.obj contract))).trans (write_mono htext hroom)
  · rw [received, lookup_sorted hb.nodup, hb.lookup_digest]
    rfl
  · rw [received, lookup_sorted hb.nodup, hb.lookup_abi]
    rfl
  · intro other
    obtain ⟨fields, hpayload, hf⟩ := exists_payload (.text hclean hroom hjson) hb.nodup
    have hmapping : Shows depth room contract (.mapping (ofFields contract)) := .mapping
    obtain ⟨fields', hpayload', hf'⟩ := exists_payload hmapping hb.nodup
    exact classify_congr hpayload hpayload' ((hb.isEmpty_eq hf).trans (hb.isEmpty_eq hf').symm)
      ((hb.textAt_abi hf).trans (hb.textAt_abi hf').symm) ((hb.textAt_identity hf).trans (hb.textAt_identity hf').symm)
      ((hb.labelsAt_eq hf).trans (hb.labelsAt_eq hf').symm) other

theorem received_contract_sample : ∃ text fields digest spec abi,
    stableJson 5 (.dict (ofFields sampleContract)) = .ok text ∧ loads 5 text = .ok (.obj fields) ∧
      stableJson 5 (.dict (ofFields fields)) = .ok text ∧
      Dict.lookup fields digestKey = some (.str (.ofString digest)) ∧
      runtimeContractDigest (fun _ ↦ "0") 5 (ofFields fields) = .ok digest ∧
      Dict.lookup fields (.ofString "feature_abi_id") = some (.str (.ofString abi)) ∧
      Dict.lookup fields (.ofString "feature_abi_spec") = some spec ∧
      stableDigest (fun _ ↦ "0") 5 (.ofValue spec) = .ok abi ∧
      ∀ other, classifyContractCompatibility plainBuiltins 5 (.text text) other =
          classifyContractCompatibility plainBuiltins 5 (.mapping (ofFields sampleContract)) other ∧
        classifyContractCompatibility plainBuiltins 5 other (.text text) =
          classifyContractCompatibility plainBuiltins 5 other (.mapping (ofFields sampleContract)) :=
  received_contract_intact plainBuiltins (fun _ ↦ "0") sampleContract_ok sampleContract_clean le_rfl

/-! ### What the comparison decides -/

section Decision

variable {B : Builtins} {sha1 : List Char → String} {depth depth' room : ℕ}

/-- The text whose hash is the identifier of the ABI. -/
def abiText (depth : ℕ) (spec : FeatureAbiSpec) : Except PyError (List Char) := stableJson depth (.ofValue spec.toDict)

theorem stableJson_toDict (spec : FeatureAbiSpec) :
    abiText depth spec = write .compact spec.toDict.sorted depth := by
  have hstable : jsonSafe (.ofValue spec.toDict) = spec.toDict := stable_jsonSafe _
  rw [abiText, stableJson, hstable]

namespace Built

variable {a : Args} {spec : FeatureAbiSpec} {abi identity digest : String} {contract : List (Text × Value)}
  (h : Built B sha1 depth a spec abi identity digest contract)

include h

theorem clean_toDict (hclean : (Value.obj contract).Clean) : spec.toDict.Clean := by
  have hlookup := h.lookup_field "feature_abi_spec" (.ofValue spec.toDict) (by simp [contractFields, Dict.lookup])
  have hstable : jsonSafe (.ofValue spec.toDict) = spec.toDict := stable_jsonSafe _
  rw [hstable, Dict.lookup_eq_some_iff h.nodup] at hlookup
  exact ((clean_obj.mp hclean).2 _ hlookup).2

theorem exists_abiText : ∃ t, abiText depth spec = .ok t ∧ sha1 t = abi := map_eq_ok h.abi

end Built

/-- Two texts of an ABI are equal exactly if the ABIs are. -/
theorem abiText_eq_iff {spec spec' : FeatureAbiSpec} {t t' : List Char} (hclean : spec.toDict.Clean)
    (hclean' : spec'.toDict.Clean) (ht : abiText depth spec = .ok t) (ht' : abiText depth' spec' = .ok t') :
    t = t' ↔ spec.toDict.Same spec'.toDict := by
  rw [stableJson_toDict] at ht ht'
  constructor
  · intro heq
    subst heq
    exact same_of_write hclean hclean' ht ht'
  · intro hsame
    rw [Value.Same] at hsame
    have hmax := write_mono ht (le_max_left depth depth')
    rw [hsame, write_mono ht' (le_max_right depth depth')] at hmax
    exact (Except.ok.inj hmax).symm

/-- Two contracts are compatible exactly if the ABI of the features at the cut is the same value of JSON. -/
theorem compatible_iff_same_abi {args args' : Args} {contract contract' : List (Text × Value)} {edge cloud : Presented}
    (h : buildRuntimeContract B sha1 depth args = .ok contract)
    (h' : buildRuntimeContract B sha1 depth' args' = .ok contract')
    (hclean : (Value.obj contract).Clean) (hclean' : (Value.obj contract').Clean)
    (hedge : Shows depth room contract edge) (hcloud : Shows depth' room contract' cloud)
    (hsha : ∀ t, sha1 t ≠ "") :
    ∃ spec spec' verdict, buildFeatureAbiSpec B args.resolved = .ok spec ∧
      buildFeatureAbiSpec B args'.resolved = .ok spec' ∧
      classifyContractCompatibility B room edge cloud = .ok verdict ∧
      ((∀ t t', abiText depth spec = .ok t → abiText depth' spec' = .ok t' → sha1 t = sha1 t' → t = t') →
        (verdict.compatible = true ↔ spec.toDict.Same spec'.toDict)) := by
  obtain ⟨spec, abi, identity, digest, hb⟩ := exists_built h
  obtain ⟨spec', abi', identity', digest', hb'⟩ := exists_built h'
  refine ⟨spec, spec', _, hb.spec_ok, hb'.spec_ok, classify_built hb hb' hedge hcloud, ?_⟩
  intro hcollision
  obtain ⟨t, ht, rfl⟩ := hb.exists_abiText
  obtain ⟨t', ht', rfl⟩ := hb'.exists_abiText
  rw [← abiText_eq_iff (hb.clean_toDict hclean) (hb'.clean_toDict hclean') ht ht']
  have hiff : sha1 t = sha1 t' ↔ t = t' := ⟨hcollision t t' ht ht', congrArg sha1⟩
  simp [verdictOn, hsha, hiff]

theorem compatible_sample : ∃ verdict, classifyContractCompatibility plainBuiltins 5
    (.mapping (ofFields sampleContract)) (.mapping (ofFields sampleContract)) = .ok verdict ∧
    verdict.compatible = true := by
  have hshows : Shows 5 5 sampleContract (.mapping (ofFields sampleContract)) := .mapping
  obtain ⟨spec, spec', verdict, hspec, hspec', hverdict, hiff⟩ := compatible_iff_same_abi sampleContract_ok
    sampleContract_ok sampleContract_clean sampleContract_clean hshows hshows (by simp)
  obtain rfl : spec = spec' := Except.ok.inj (hspec.symm.trans hspec')
  refine ⟨verdict, hverdict, (hiff ?_).mpr rfl⟩
  intro t t' ht ht' _
  exact Except.ok.inj (ht.symm.trans ht')

end Decision

end SplitFleet.RuntimeContract
