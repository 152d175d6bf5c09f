import SplitFleet.RuntimeContractLaw

set_option autoImplicit false

namespace SplitFleet.RuntimeContract

open Lib Lib.JsonText

/-! ### The same cut in a trace of another batch -/

/-- What one trace of a model chooses: its batch, its device and the signature of its graph. -/
structure Tracing where
  batch : ℤ
  device : Object
  graphSignature : Text
  traceBatchSize : Option ℤ

def retracedShape (batch : ℤ) : List ℤ → List ℤ
  | [] => []
  | _ :: dims => batch :: dims

mutual

/-- The value with its tensors of the given batch. -/
def Object.retraced (batch : ℤ) : Object → Object
  | .tensor dtype shape requiresGrad => .tensor dtype (retracedShape batch shape) requiresGrad
  | .ndarray dtype shape => .ndarray dtype (retracedShape batch shape)
  | .list items => .list (retracedItems batch items)
  | .dict fields => .dict (retracedFields batch fields)
  | .record fields => .record (retracedFields batch fields)
  | v => v

def retracedItems (batch : ℤ) : List Object → List Object
  | [] => []
  | v :: items => v.retraced batch :: retracedItems batch items

def retracedFields (batch : ℤ) : List (Text × Object) → List (Text × Object)
  | [] => []
  | (k, v) :: fields => (k, v.retraced batch) :: retracedFields batch fields

end

/-- A shape with its first dimension replaced. -/
def rebatched (batch : ℤ) : Object → Object
  | .list (_ :: dims) => .list (.int batch :: dims)
  | v => v

def rebatchedAt (batch : ℤ) (keys : List String) (fields : List (Text × Object)) : List (Text × Object) :=
  fields.map fun p ↦ (p.1, if isAmong (keys.map Text.ofString) p.1 then rebatched batch p.2 else p.2)

/-- An entry of the preprocessing. -/
def tracedInput (batch : ℤ) (k : Text) (v : Object) : Object :=
  if k = inputShapeKey then rebatched batch v else v.retraced batch

/-- The specification of a boundary tensor, in a mapping or in an object. -/
def rebatchedSpec (batch : ℤ) : Object → Object
  | .dict fields => .dict (rebatchedAt batch ["symbolic_shape", "shape"] fields)
  | .record fields => .record (rebatchedAt batch ["shape"] fields)
  | v => v

def onDevice (device : Object) : Object → Object
  | .dict fields => .dict (Dict.assign fields (.ofString "device") device)
  | v => v

def mapValues (f : Text → Object → Object) (d : Dict Text Object) : Dict Text Object where
  entries := d.entries.map fun p ↦ (p.1, f p.1 p.2)
  nodup := by
    rw [List.map_map]
    exact d.nodup

/-- The arguments as they are in another trace of the same model. -/
def Args.traced (a : Args) (t : Tracing) : Args :=
  { a with
    graphSignature := t.graphSignature
    boundarySchema := mapValues (fun _ ↦ rebatchedSpec t.batch) a.boundarySchema
    featureLayout := mapValues (fun _ ↦ onDevice t.device) a.featureLayout
    preprocessingAbi := mapValues (tracedInput t.batch) a.preprocessingAbi
    passthroughSpecs := mapValues (fun _ v ↦ v.retraced t.batch) a.passthroughSpecs
    traceBatchSize := t.traceBatchSize }

/-! ### The ABI does not see the trace -/

section Abi

variable {B : Builtins} {batch : ℤ}

theorem symbolicShape_retraced (shape : List ℤ) : symbolicShape (retracedShape batch shape) = symbolicShape shape := by
  cases shape with
  | nil => rfl
  | cons d dims => rfl

theorem retracedItems_eq (items : List Object) : retracedItems batch items = items.map (Object.retraced batch) := by
  induction items with
  | nil => rfl
  | cons v items ih => simp [retracedItems, ih]

theorem retracedFields_eq (fields : List (Text × Object)) :
    retracedFields batch fields = fields.map fun p ↦ (p.1, p.2.retraced batch) := by
  induction fields with
  | nil => rfl
  | cons p fields ih => simp [retracedFields, ih]

theorem safeFields_retraced {fields : List (Text × Object)}
    (h : ∀ p ∈ fields, jsonSafe (p.2.retraced batch) = jsonSafe p.2) :
    safeFields (retracedFields batch fields) = safeFields fields := by
  rw [retracedFields_eq, safeFields_eq, safeFields_eq, List.map_map]
  apply List.map_congr_left
  intro p hp
  exact Prod.ext rfl (h p hp)

/-- `_json_safe` does not see the batch of a tensor. -/
theorem jsonSafe_retraced (v : Object) : jsonSafe (v.retraced batch) = jsonSafe v := by
  induction v using Object.induction with
  | null | bool | int | float | str | other => rfl
  | list items ih =>
    rw [Object.retraced, jsonSafe, jsonSafe, safeItems_eq, safeItems_eq, retracedItems_eq, List.map_map]
    exact congrArg Value.arr (List.map_congr_left ih)
  | dict fields ih => rw [Object.retraced, jsonSafe, jsonSafe, safeFields_retraced ih]
  | record fields ih => rw [Object.retraced, jsonSafe, jsonSafe, safeFields_retraced ih]
  | tensor dtype shape requiresGrad => rw [Object.retraced, jsonSafe, jsonSafe, symbolicShape_retraced]
  | ndarray dtype shape => rw [Object.retraced, jsonSafe, jsonSafe, symbolicShape_retraced]

theorem symbolizeBatchShape_rebatched (symbol : Text) (v : Object) :
    symbolizeBatchShape B symbol (rebatched batch v) = symbolizeBatchShape B symbol v := by
  cases v with
  | list items =>
    cases items with
    | nil => rfl
    | cons d dims => rfl
  | null | bool | int | float | str | dict | record | tensor | ndarray | other => rfl

theorem truthOf_rebatched (v : Object) : truthOf B (rebatched batch v) = truthOf B v := by
  cases v with
  | list items =>
    cases items with
    | nil => rfl
    | cons d dims => rfl
  | null | bool | int | float | str | dict | record | tensor | ndarray | other => rfl

theorem pyOr_rebatched (v w : Object) :
    pyOr B (rebatched batch v) (rebatched batch w) = (pyOr B v w).map (rebatched batch) := by
  rw [pyOr, pyOr, truthOf_rebatched]
  cases truthOf B v with
  | error e => rfl
  | ok b =>
    cases b with
    | true => rfl
    | false => rfl

theorem lookup_rebatchedAt (keys : List String) (fields : List (Text × Object)) (key : String) :
    Dict.lookup (rebatchedAt batch keys fields) (.ofString key) =
      (Dict.lookup fields (.ofString key)).map fun v ↦ if key ∈ keys then rebatched batch v else v := by
  have hkey : isAmong (keys.map Text.ofString) (.ofString key) = true ↔ key ∈ keys := by
    simp [isAmong, ofString_injective.eq_iff]
  induction fields with
  | nil => rfl
  | cons p fields ih =>
    rw [rebatchedAt, List.map_cons, Dict.lookup, Dict.lookup]
    by_cases hp : p.1 = Text.ofString key
    · simp [hp, hkey]
    · rw [if_neg hp, if_neg hp]
      exact ih

theorem getKey_rebatchedAt (keys : List String) (fields : List (Text × Object)) (key : String) :
    getKey (rebatchedAt batch keys fields) key =
      if key ∈ keys then rebatched batch (getKey fields key) else getKey fields key := by
  rw [getKey, getKey, lookup_rebatchedAt]
  cases Dict.lookup fields (.ofString key) with
  | none => simp [rebatched]
  | some v => rfl

def shapeKeys : List String := ["symbolic_shape", "shape"]

theorem specPayload_record (label : Text) (fields : List (Text × Object)) :
    specPayload B label (rebatchedSpec batch (.record fields)) =
      (specPayload B label (.record fields)).map (rebatchedAt batch shapeKeys) := by
  have hshape : ((Dict.lookup fields (.ofString "shape")).map (rebatched batch)).getD .null =
      rebatched batch ((Dict.lookup fields (.ofString "shape")).getD .null) := by
    cases Dict.lookup fields (.ofString "shape") with
    | none => rfl
    | some v => rfl
  have hor : pyOr B (rebatched batch ((Dict.lookup fields (.ofString "shape")).getD .null))
      (rebatched batch (.list [])) = _ := pyOr_rebatched ..
  have hnil : rebatched batch (.list []) = .list [] := rfl
  simp only [rebatchedSpec, specPayload, attrOf, lookup_rebatchedAt, List.mem_cons, List.not_mem_nil, String.reduceEq,
    or_false, if_true, if_false, Option.map_id', hshape]
  rw [hnil] at hor
  rw [hor]
  cases pyOr B ((Dict.lookup fields (.ofString "shape")).getD .null) (.list []) with
  | error e => rfl
  | ok v =>
    simp only [Except.map, ok_bind]
    simp [rebatchedAt, named, shapeKeys]
    rfl

theorem schemaRow_rebatched (symbol label : Text) (spec : Object) :
    schemaRow B symbol label (rebatchedSpec batch spec) = schemaRow B symbol label spec := by
  have hmap (h : specPayload B label (rebatchedSpec batch spec) =
      (specPayload B label spec).map (rebatchedAt batch shapeKeys)) :
      schemaRow B symbol label (rebatchedSpec batch spec) = schemaRow B symbol label spec := by
    rw [schemaRow, schemaRow, h]
    cases specPayload B label spec with
    | error e => rfl
    | ok payload =>
      rw [Except.map, ok_bind, ok_bind]
      simp only [getKey_rebatchedAt, shapeKeys, List.mem_cons, List.not_mem_nil, String.reduceEq, or_false, or_true,
        if_true, if_false, pyOr_rebatched]
      cases pyOr B (getKey payload "symbolic_shape") (getKey payload "shape") with
      | error e => rfl
      | ok v => simp only [Except.map, ok_bind, symbolizeBatchShape_rebatched]
  cases spec with
  | dict fields => exact hmap rfl
  | record fields => exact hmap (specPayload_record label fields)
  | null | bool | int | float | str | list | tensor | ndarray | other => rfl

theorem normaliseBoundarySchema_rebatched (symbol : Text) (schema : Dict Text Object) :
    normaliseBoundarySchema B symbol (mapValues (fun _ ↦ rebatchedSpec batch) schema) =
      normaliseBoundarySchema B symbol schema := by
  rw [normaliseBoundarySchema, normaliseBoundarySchema, mapValues, List.foldlM_map]
  simp only [schemaRow_rebatched]

theorem assign_map {α β : Type} (f : α → β) (l : List (Text × α)) (k : Text) (v : α) :
    Dict.assign (l.map fun p ↦ (p.1, f p.2)) k (f v) = (Dict.assign l k v).map fun p ↦ (p.1, f p.2) := by
  induction l with
  | nil => rfl
  | cons p l ih =>
    by_cases hp : p.1 = k
    · simp [Dict.assign, hp]
    · simp [Dict.assign, hp, ih]

theorem lookup_map {α β : Type} (f : Text → α → β) (l : List (Text × α)) (k : Text) :
    Dict.lookup (l.map fun p ↦ (p.1, f p.1 p.2)) k = (Dict.lookup l k).map (f k) := by
  induction l with
  | nil => rfl
  | cons p l ih =>
    by_cases hp : p.1 = k
    · simp [Dict.lookup, hp]
    · simp [Dict.lookup, hp, ih]

def deviceKey : Text := .ofString "device"

theorem layoutSpec_onDevice (device v : Object) :
    layoutSpec (onDevice device v) = (layoutSpec v).map fun fields ↦ Dict.assign fields deviceKey device := by
  cases v <;> rfl

theorem layouts_onDevice (device : Object) (featureLayout : Dict Text Object) :
    layouts (mapValues (fun _ ↦ onDevice device) featureLayout) =
      (layouts featureLayout).map fun p ↦ (p.1, Dict.assign p.2 deviceKey device) := by
  rw [layouts, layouts, mapValues, List.foldl_map]
  have hfold (l : List (Text × Object)) (rows : List (Text × List (Text × Object))) :
      l.foldl (fun rows p ↦ ((layoutSpec (onDevice device p.2)).map (Dict.assign rows p.1)).getD rows)
          (rows.map fun p ↦ (p.1, Dict.assign p.2 deviceKey device)) =
        (l.foldl (fun rows p ↦ ((layoutSpec p.2).map (Dict.assign rows p.1)).getD rows) rows).map
          fun p ↦ (p.1, Dict.assign p.2 deviceKey device) := by
    induction l generalizing rows with
    | nil => rfl
    | cons p l ih =>
      rw [List.foldl_cons, List.foldl_cons, ← ih, layoutSpec_onDevice]
      cases layoutSpec p.2 with
      | none => rfl
      | some fields => simp [assign_map fun fields ↦ Dict.assign fields deviceKey device]
  exact hfold featureLayout.entries []

theorem tensorRow_onDevice (label : Text) (spec : List (Text × Object)) (device : Object) :
    tensorRow B label (Dict.assign spec deviceKey device) = tensorRow B label spec := by
  have hkey (key : String) (hne : key ≠ "device") :
      getKey (Dict.assign spec deviceKey device) key = getKey spec key := by
    have hdevice : deviceKey ≠ .ofString key := fun h ↦ hne (ofString_injective h).symm
    rw [getKey, getKey, Dict.lookup_assign, if_neg hdevice]
  simp only [tensorRow, hkey _ (show "shape_without_batch" ≠ "device" by decide),
    hkey _ (show "dtype" ≠ "device" by decide), hkey _ (show "rank" ≠ "device" by decide),
    hkey _ (show "requires_grad" ≠ "device" by decide), hkey _ (show "device_policy" ≠ "device" by decide)]

theorem orderedBoundaryTensors_onDevice (featureLayout : Dict Text Object) (labels : List Text) (device : Object) :
    orderedBoundaryTensors B (mapValues (fun _ ↦ onDevice device) featureLayout) labels =
      orderedBoundaryTensors B featureLayout labels := by
  have hkeys : ((layouts featureLayout).map fun p ↦ (p.1, Dict.assign p.2 deviceKey device)).map Prod.fst =
      (layouts featureLayout).map Prod.fst := by simp [Function.comp_def]
  rw [orderedBoundaryTensors, orderedBoundaryTensors, layouts_onDevice, orderedLabels, orderedLabels, hkeys]
  refine congrArg (List.mapM · _) (funext fun label ↦ ?_)
  rw [lookup_map fun _ fields ↦ Dict.assign fields deviceKey device]
  cases Dict.lookup (layouts featureLayout) label with
  | none => rfl
  | some spec => exact tensorRow_onDevice label spec device

/-- What is left to retrace once the shape of the input is symbolic. -/
def retracedBeside (batch : ℤ) (k : Text) (v : Object) : Object := if k = inputShapeKey then v else v.retraced batch

theorem map_tracedInput {l : List (Text × Object)} (h : inputShapeKey ∉ l.map Prod.fst) :
    (l.map fun p ↦ (p.1, tracedInput batch p.1 p.2)) = l.map fun p ↦ (p.1, retracedBeside batch p.1 p.2) := by
  apply List.map_congr_left
  intro p hp
  have hne : p.1 ≠ inputShapeKey := fun heq ↦ h (heq ▸ List.mem_map_of_mem hp)
  rw [tracedInput, retracedBeside, if_neg hne, if_neg hne]

theorem assign_tracedInput {l : List (Text × Object)} (hn : (l.map Prod.fst).Nodup) (shape : Object) :
    Dict.assign (l.map fun p ↦ (p.1, tracedInput batch p.1 p.2)) inputShapeKey shape =
      (Dict.assign l inputShapeKey shape).map fun p ↦ (p.1, retracedBeside batch p.1 p.2) := by
  induction l with
  | nil => simp [Dict.assign, retracedBeside]
  | cons p l ih =>
    rw [List.map_cons, List.nodup_cons] at hn
    by_cases hp : p.1 = inputShapeKey
    · rw [hp] at hn
      simp [Dict.assign, hp, retracedBeside, map_tracedInput hn.1]
    · have hhead : tracedInput batch p.1 p.2 = retracedBeside batch p.1 p.2 := by
        rw [tracedInput, retracedBeside, if_neg hp, if_neg hp]
      simp [Dict.assign, hp, ih hn.2, hhead]

theorem preprocessing_traced (symbol : Text) (abi : Dict Text Object) :
    preprocessing B symbol (mapValues (tracedInput batch) abi) =
      (preprocessing B symbol abi).map (mapValues (retracedBeside batch)) := by
  have hget : (mapValues (tracedInput batch) abi).get? inputShapeKey =
      (abi.get? inputShapeKey).map (rebatched batch) := by
    rw [Dict.get?, mapValues, lookup_map]
    rfl
  rw [preprocessing, preprocessing, hget]
  cases hshape : abi.get? inputShapeKey with
  | none =>
    have hkey := (Dict.get?_eq_none_iff abi).mp hshape
    refine congrArg Except.ok ?_
    rw [mapValues, mapValues]
    simp only [map_tracedInput hkey]
  | some shape =>
    dsimp only [Option.map_some]
    rw [symbolizeBatchShape_rebatched]
    cases symbolizeBatchShape B symbol shape with
    | error e => rfl
    | ok shape =>
      refine congrArg Except.ok ?_
      rw [Dict.insert, Dict.insert, mapValues, mapValues]
      simp only [assign_tracedInput abi.nodup]

theorem jsonSafe_mapValues {f : Text → Object → Object} (h : ∀ k v, jsonSafe (f k v) = jsonSafe v)
    (d : Dict Text Object) : jsonSafe (.dict (mapValues f d).entries) = jsonSafe (.dict d.entries) := by
  rw [jsonSafe, jsonSafe, safeFields_eq, safeFields_eq, mapValues, List.map_map]
  simp only [Function.comp_def, h]

/-- The ABI of the features is the same in every trace. -/
theorem buildFeatureAbiSpec_traced (a : Args) (t : Tracing) :
    buildFeatureAbiSpec B (a.traced t) = buildFeatureAbiSpec B a := by
  have hinput : preprocessing B (a.traced t).batchSymbol (a.traced t).preprocessingAbi = _ :=
    preprocessing_traced a.batchSymbol a.preprocessingAbi
  have htensors : orderedBoundaryTensors B (a.traced t).featureLayout (a.traced t).boundaryTensorLabels = _ :=
    orderedBoundaryTensors_onDevice a.featureLayout a.boundaryTensorLabels t.device
  have hschema : normaliseBoundarySchema B (a.traced t).batchSymbol (a.traced t).boundarySchema = _ :=
    normaliseBoundarySchema_rebatched a.batchSymbol a.boundarySchema
  have hpassthrough : jsonSafe (.dict (a.traced t).passthroughSpecs.entries) = _ :=
    jsonSafe_mapValues (fun _ v ↦ jsonSafe_retraced v) a.passthroughSpecs
  have hbeside (d : Dict Text Object) : jsonSafe (.dict (mapValues (retracedBeside t.batch) d).entries) = _ :=
    jsonSafe_mapValues (fun k v ↦ by
      by_cases hk : k = inputShapeKey
      · rw [retracedBeside, if_pos hk]
      · rw [retracedBeside, if_neg hk, jsonSafe_retraced]) d
  rw [buildFeatureAbiSpec, buildFeatureAbiSpec, hinput, htensors, hschema, hpassthrough]
  cases preprocessing B a.batchSymbol a.preprocessingAbi with
  | error e => rfl
  | ok d =>
    rw [Except.map, ok_bind, ok_bind, hbeside]
    rfl

end Abi

/-! ### Contracts of two traces -/

section Traces

variable {B : Builtins} {sha1 : List Char → String} {depth depth' room : ℕ}

def identityText (depth : ℕ) (a : Args) : Except PyError (List Char) := stableJson depth (dictOf (runtimeIdentity a))

theorem resolved_traced (args : Args) (t : Tracing) : (args.traced t).resolved = args.resolved.traced t := rfl

theorem jsonSafe_runtimeIdentity (a : Args) :
    jsonSafe (dictOf (runtimeIdentity a)) = .obj (safeFields (named (runtimeIdentity a))) := by
  have hn : ((runtimeIdentity a).map Prod.fst).Nodup := by simp [runtimeIdentity]
  rw [dictOf, jsonSafe, assignAll_of_nodup]
  rw [keys_safeFields]
  exact nodup_named hn

namespace Built

variable {a : Args} {spec : FeatureAbiSpec} {abi identity digest : String} {contract : List (Text × Value)}
  (h : Built B sha1 depth a spec abi identity digest contract)

include h

theorem clean_identity (hclean : (Value.obj contract).Clean) : (jsonSafe (dictOf (runtimeIdentity a))).Clean := by
  have hlookup := h.lookup_field "runtime_identity" (.ofValue (jsonSafe (dictOf (runtimeIdentity a))))
    (by simp [contractFields, Dict.lookup])
  have hstable : jsonSafe (.ofValue (jsonSafe (dictOf (runtimeIdentity a)))) = _ := stable_jsonSafe _
  rw [hstable, Dict.lookup_eq_some_iff h.nodup] at hlookup
  exact ((clean_obj.mp hclean).2 _ hlookup).2

theorem exists_identityText : ∃ t, identityText depth a = .ok t ∧ sha1 t = identity := map_eq_ok h.identity

end Built

theorem lookup_identity_field (a : Args) (key : String) :
    Dict.lookup (sortKeys (sortedFields (safeFields (named (runtimeIdentity a))))) (.ofString key) =
      (Dict.lookup (runtimeIdentity a) key).map fun v ↦ (jsonSafe v).sorted := by
  have hn : ((runtimeIdentity a).map Prod.fst).Nodup := by simp [runtimeIdentity]
  rw [lookup_sorted (by rw [keys_safeFields]; exact nodup_named hn), lookup_safeFields, lookup_named, Option.map_map]
  rfl

theorem lookup_graph (a : Args) : Dict.lookup (runtimeIdentity a) "graph_signature" = some (.str a.graphSignature) := by
  simp [runtimeIdentity, Dict.lookup]

theorem lookup_traceBatchSize (a : Args) :
    Dict.lookup (runtimeIdentity a) "trace_batch_size" = some ((a.traceBatchSize.map .int).getD .null) := by
  simp [runtimeIdentity, Dict.lookup]

theorem batchSize_injective {n m : Option ℤ}
    (h : (jsonSafe ((n.map .int).getD .null)).sorted = (jsonSafe ((m.map .int).getD .null)).sorted) : n = m := by
  cases n with
  | none =>
    cases m with
    | none => rfl
    | some m => cases h
  | some n =>
    cases m with
    | none => cases h
    | some m => exact congrArg some (Value.int.inj h)

/-- The identities of two traces differ in the graph and in the batch that was traced. -/
theorem same_identity_iff (a : Args) (t t' : Tracing) :
    (jsonSafe (dictOf (runtimeIdentity (a.traced t)))).Same (jsonSafe (dictOf (runtimeIdentity (a.traced t')))) ↔
      t.graphSignature = t'.graphSignature ∧ t.traceBatchSize = t'.traceBatchSize := by
  constructor
  · intro h
    rw [jsonSafe_runtimeIdentity, jsonSafe_runtimeIdentity, Value.Same, Value.sorted, Value.sorted] at h
    have hfields := Value.obj.inj h
    have hgraph := congrArg (Dict.lookup · (.ofString "graph_signature")) hfields
    have hsize := congrArg (Dict.lookup · (.ofString "trace_batch_size")) hfields
    rw [lookup_identity_field, lookup_identity_field, lookup_graph, lookup_graph] at hgraph
    rw [lookup_identity_field, lookup_identity_field, lookup_traceBatchSize, lookup_traceBatchSize] at hsize
    exact ⟨Value.str.inj (Option.some.inj hgraph), batchSize_injective (Option.some.inj hsize)⟩
  · rintro ⟨hgraph, hsize⟩
    have heq : runtimeIdentity (a.traced t) = runtimeIdentity (a.traced t') := by
      simp only [runtimeIdentity, Args.traced, hgraph, hsize]
    rw [heq, Value.Same]

theorem identityText_eq_iff {a a' : Args} {u u' : List Char} (hclean : (jsonSafe (dictOf (runtimeIdentity a))).Clean)
    (hclean' : (jsonSafe (dictOf (runtimeIdentity a'))).Clean) (hu : identityText depth a = .ok u)
    (hu' : identityText depth' a' = .ok u') :
    u = u' ↔ (jsonSafe (dictOf (runtimeIdentity a))).Same (jsonSafe (dictOf (runtimeIdentity a'))) := by
  constructor
  · intro heq
    subst heq
    exact same_of_write hclean hclean' hu hu'
  · intro hsame
    rw [Value.Same] at hsame
    rw [identityText, stableJson] at hu hu'
    have hmax := write_mono hu (le_max_left depth depth')
    rw [hsame, write_mono hu' (le_max_right depth depth')] at hmax
    exact (Except.ok.inj hmax).symm

/-- Contracts of one cut, in traces with any batches, devices and graphs, are compatible. The reason names the
change exactly if the graph or the traced batch changed. -/
theorem traces_compatible {args : Args} {t t' : Tracing} {contract contract' : List (Text × Value)}
    {edge cloud : Presented} (h : buildRuntimeContract B sha1 depth (args.traced t) = .ok contract)
    (h' : buildRuntimeContract B sha1 depth' (args.traced t') = .ok contract')
    (hclean : (Value.obj contract).Clean) (hclean' : (Value.obj contract').Clean)
    (hedge : Shows depth room contract edge) (hcloud : Shows depth' room contract' cloud)
    (hsha : ∀ u, sha1 u ≠ "") :
    ∃ verdict, classifyContractCompatibility B room edge cloud = .ok verdict ∧ verdict.compatible = true ∧
      ((∀ u u', identityText depth (args.resolved.traced t) = .ok u →
          identityText depth' (args.resolved.traced t') = .ok u' → sha1 u = sha1 u' → u = u') →
        verdict.reason =
          if t.graphSignature = t'.graphSignature ∧ t.traceBatchSize = t'.traceBatchSize then "compatible"
          else "runtime_identity_changed_but_feature_abi_compatible") := by
  obtain ⟨spec, abi, identity, digest, hb⟩ := exists_built h
  obtain ⟨spec', abi', identity', digest', hb'⟩ := exists_built h'
  have hspec := hb.spec_ok
  have hspec' := hb'.spec_ok
  rw [resolved_traced, buildFeatureAbiSpec_traced] at hspec hspec'
  obtain rfl := Except.ok.inj (hspec.symm.trans hspec')
  obtain ⟨u, hu, rfl⟩ := hb.exists_abiText
  obtain ⟨u', hu', rfl⟩ := hb'.exists_abiText
  obtain rfl : u = u' := (abiText_eq_iff (hb.clean_toDict hclean) (hb'.clean_toDict hclean') hu hu').mpr rfl
  refine ⟨_, classify_built hb hb' hedge hcloud, by simp [verdictOn, hsha], ?_⟩
  intro hcollision
  obtain ⟨w, hw, rfl⟩ := hb.exists_identityText
  obtain ⟨w', hw', rfl⟩ := hb'.exists_identityText
  have hiff : sha1 w = sha1 w' ↔ t.graphSignature = t'.graphSignature ∧ t.traceBatchSize = t'.traceBatchSize := by
    have htext := identityText_eq_iff (hb.clean_identity hclean) (hb'.clean_identity hclean') hw hw'
    rw [resolved_traced, resolved_traced, same_identity_iff] at htext
    rw [← htext]
    exact ⟨hcollision w w' hw hw', congrArg sha1⟩
  by_cases hsame : sha1 w = sha1 w'
  · simp [verdictOn, hsha, hsame, ← hiff]
  · simp [verdictOn, hsha, hsame, ← hiff]

def sampleTracing (batch : ℤ) (device : String) : Tracing := ⟨batch, literal device, .ofString "graph", some 1⟩

theorem sample_traced_ok (batch : ℤ) (device : String) :
    buildRuntimeContract plainBuiltins (fun _ ↦ "0") 5 (sampleArgs.traced (sampleTracing batch device)) =
      .ok sampleContract := by
  have hspec : buildFeatureAbiSpec plainBuiltins (sampleArgs.traced (sampleTracing batch device)).resolved =
      .ok sampleSpec := (buildFeatureAbiSpec_traced _ _).trans sampleSpec_ok
  obtain ⟨_, _, _, h⟩ := build_of_fits plainBuiltins (fun _ ↦ "0") hspec sampleContract_fits
  exact h

theorem traces_compatible_sample : ∃ verdict, classifyContractCompatibility plainBuiltins 5
    (.mapping (ofFields sampleContract)) (.mapping (ofFields sampleContract)) = .ok verdict ∧
    verdict.compatible = true ∧ verdict.reason = "compatible" := by
  have hshows : Shows 5 5 sampleContract (.mapping (ofFields sampleContract)) := .mapping
  obtain ⟨verdict, hverdict, hcompatible, hreason⟩ := traces_compatible (sample_traced_ok 1 "cpu")
    (sample_traced_ok 2 "cuda:0") sampleContract_clean sampleContract_clean hshows hshows (by simp)
  refine ⟨verdict, hverdict, hcompatible, (hreason ?_).trans (if_pos ⟨rfl, rfl⟩)⟩
  intro u u' hu hu' _
  exact Except.ok.inj (hu.symm.trans hu')

end Traces

end SplitFleet.RuntimeContract
