import SplitFleet.EnvelopeSoundness

set_option autoImplicit false

namespace SplitFleet.EnvelopeRoundTrip

open Lib Envelope EnvelopeSoundness

variable {L : Library} {limits : EnvelopeLimits}

/-- `json.loads` undoes `json.dumps`, which sorts the keys. -/
def JsonInverse (L : Library) : Prop := ∀ j, Json.Normal j → L.loads (L.dumps j) = .ok j.sorted

/-! ### Values that the encoder keeps -/

/-- No key of an object starts with an underscore. -/
inductive Visible : Json → Prop
  | null : Visible .null
  | bool (b : Bool) : Visible (.bool b)
  | int (z : ℤ) : Visible (.int z)
  | float (bits : BitVec 64) : Visible (.float bits)
  | str (s : String) : Visible (.str s)
  | arr (items : List Json) (h : ∀ j ∈ items, Visible j) : Visible (.arr items)
  | obj (fields : List (String × Json)) (hk : ∀ p ∈ fields, isHidden p.1 = false)
      (h : ∀ p ∈ fields, Visible p.2) : Visible (.obj fields)

theorem jsonItems_of {items : List Json} (h : ∀ j ∈ items, jsonValue j = j) : jsonItems items = items := by
  induction items with
  | nil => rfl
  | cons j items ih =>
    rw [jsonItems, h j List.mem_cons_self, ih fun k hk ↦ h k (List.mem_cons_of_mem j hk)]

theorem jsonFields_of {fields : List (String × Json)} (hk : ∀ p ∈ fields, isHidden p.1 = false)
    (h : ∀ p ∈ fields, jsonValue p.2 = p.2) : jsonFields fields = fields := by
  induction fields with
  | nil => rfl
  | cons p fields ih =>
    obtain ⟨k, j⟩ := p
    have hkey : isHidden k = false := hk (k, j) List.mem_cons_self
    have hvalue : jsonValue j = j := h (k, j) List.mem_cons_self
    rw [jsonFields, hkey, if_neg Bool.false_ne_true, hvalue,
      ih (fun q hq ↦ hk q (List.mem_cons_of_mem _ hq)) fun q hq ↦ h q (List.mem_cons_of_mem _ hq)]

theorem jsonValue_of_visible {j : Json} (h : Visible j) : jsonValue j = j := by
  induction h with
  | null | bool | int | float | str => rfl
  | arr items _ ih => rw [jsonValue, jsonItems_of ih]
  | obj fields hk _ ih => rw [jsonValue, jsonFields_of hk ih]

/-- A text, an integer or a boolean, as the declared types of the fields have them. -/
inductive Scalar : Json → Prop
  | str (s : String) : Scalar (.str s)
  | int (z : ℤ) : Scalar (.int z)
  | bool (b : Bool) : Scalar (.bool b)

theorem Scalar.sorted {j : Json} (h : Scalar j) : j.sorted = j := by
  cases h <;> rfl

theorem Scalar.jsonValue {j : Json} (h : Scalar j) : jsonValue j = j := by
  cases h <;> rfl

theorem Scalar.normal {j : Json} (h : Scalar j) : Json.Normal j := by
  cases h with
  | str s => exact .str s
  | int z => exact .int z
  | bool b => exact .bool b

theorem map_sorted_of_scalar {items : List Json} (h : ∀ j ∈ items, Scalar j) : items.map Json.sorted = items := by
  refine (List.map_congr_left fun j hj ↦ (h j hj).sorted).trans ?_
  exact List.map_id _

theorem map_jsonValue_of_scalar {items : List Json} (h : ∀ j ∈ items, Scalar j) : items.map jsonValue = items := by
  refine (List.map_congr_left fun j hj ↦ (h j hj).jsonValue).trans ?_
  exact List.map_id _

/-! ### One tensor -/

/-- The declared types, and the one layout and encoding. -/
structure TensorEnvelope.Typed (t : TensorEnvelope) : Prop where
  tensorId : ∃ s, t.tensorId = .str s ∧ s ≠ ""
  shape : ∀ d ∈ t.shape, ∃ z, d = .int z
  dtype : ∃ s, t.dtype = .str s
  layout : t.layout = .str "contiguous"
  encoding : t.encoding = .str "raw-le"
  requiresGrad : ∃ b, t.requiresGrad = .bool b

/-- The entries of a tensor header, as they are decoded. -/
def headerFields (t : TensorEnvelope) : List (String × Json) :=
  [("tensor_id", t.tensorId), ("shape", .arr t.shape), ("dtype", t.dtype), ("layout", t.layout),
    ("encoding", t.encoding), ("requires_grad", t.requiresGrad), ("nbytes", .int t.payload.length)]

theorem keys_headerFields (t : TensorEnvelope) : (headerFields t).map Prod.fst =
    ["tensor_id", "shape", "dtype", "layout", "encoding", "requires_grad", "nbytes"] := rfl

theorem nodup_headerFields (t : TensorEnvelope) : ((headerFields t).map Prod.fst).Nodup := by
  rw [keys_headerFields]
  decide

/-- The entries of a header that came back are found under their keys. -/
theorem lookup_sortKeys_headerFields (t : TensorEnvelope) (k : String) :
    Dict.lookup (Json.sortKeys (headerFields t)) k = Dict.lookup (headerFields t) k :=
  (Json.lookup_of_perm (Json.sortKeys_perm _).symm (nodup_headerFields t) k).symm

/-- The class accepts what is left of a header, and makes the tensor of it. -/
theorem ofKeywords_header (t : TensorEnvelope) :
    TensorEnvelope.ofKeywords t.payload t.shape
      (without (without (Json.sortKeys (headerFields t)) "nbytes") "shape") = .ok t := by
  have hkeys : ∀ k ∈ (without (without (Json.sortKeys (headerFields t)) "nbytes") "shape").map Prod.fst,
      k ∈ TensorEnvelope.keywords := by
    intro k hk
    simp only [without, List.mem_map, List.mem_filter, decide_eq_true_eq] at hk
    obtain ⟨p, ⟨⟨hp, hnbytes⟩, hshape⟩, rfl⟩ := hk
    have hmem : p.1 ∈ (headerFields t).map Prod.fst := List.mem_map_of_mem ((Json.sortKeys_perm _).mem_iff.mp hp)
    rw [keys_headerFields] at hmem
    simp only [List.mem_cons, List.not_mem_nil, or_false, hnbytes, hshape, false_or] at hmem
    simp only [TensorEnvelope.keywords, List.mem_cons, List.not_mem_nil, or_false]
    tauto
  have hpayload : "payload" ∉
      (without (without (Json.sortKeys (headerFields t)) "nbytes") "shape").map Prod.fst := by
    intro h
    exact absurd (hkeys _ h) (by decide)
  have hlookup : ∀ k, "nbytes" ≠ k → "shape" ≠ k →
      Dict.lookup (without (without (Json.sortKeys (headerFields t)) "nbytes") "shape") k =
        Dict.lookup (headerFields t) k := by
    intro k hnbytes hshape
    rw [lookup_without_of_ne hshape, lookup_without_of_ne hnbytes, lookup_sortKeys_headerFields t]
  rw [TensorEnvelope.ofKeywords, if_neg hpayload, checkKeywords_eq_ok_iff.mpr hkeys, ok_bind]
  simp only [keyword, hlookup _ (show "nbytes" ≠ "tensor_id" by decide) (by decide),
    hlookup _ (show "nbytes" ≠ "dtype" by decide) (by decide),
    hlookup _ (show "nbytes" ≠ "layout" by decide) (by decide),
    hlookup _ (show "nbytes" ≠ "encoding" by decide) (by decide),
    hlookup _ (show "nbytes" ≠ "requires_grad" by decide) (by decide)]
  rfl

section Tensor

variable {t : TensorEnvelope} (ht : TensorEnvelope.Typed t)

include ht

theorem scalar_shape : ∀ d ∈ t.shape, Scalar d := by
  intro d hd
  obtain ⟨z, rfl⟩ := ht.shape d hd
  exact .int z

/-- Every entry but the shape is a scalar. -/
theorem scalar_headerFields : ∀ p ∈ headerFields t, p.1 ≠ "shape" → Scalar p.2 := by
  obtain ⟨id, hid, -⟩ := ht.tensorId
  obtain ⟨dtype, hdtype⟩ := ht.dtype
  obtain ⟨grad, hgrad⟩ := ht.requiresGrad
  intro p hp hshape
  simp only [headerFields, hid, hdtype, ht.layout, ht.encoding, hgrad, List.mem_cons, List.not_mem_nil,
    or_false] at hp
  rcases hp with rfl | rfl | rfl | rfl | rfl | rfl | rfl
  · exact .str _
  · exact absurd rfl hshape
  · exact .str _
  · exact .str _
  · exact .str _
  · exact .bool _
  · exact .int _

theorem header_eq : TensorEnvelope.header t = .obj (headerFields t) := by
  obtain ⟨id, hid, -⟩ := ht.tensorId
  obtain ⟨dtype, hdtype⟩ := ht.dtype
  obtain ⟨grad, hgrad⟩ := ht.requiresGrad
  simp only [TensorEnvelope.header, headerFields, map_jsonValue_of_scalar (scalar_shape ht), hid, hdtype,
    ht.layout, ht.encoding, hgrad, jsonValue]

theorem map_sorted_headerFields : (headerFields t).map (fun p ↦ (p.1, p.2.sorted)) = headerFields t := by
  have hscalar := scalar_headerFields ht
  refine (List.map_congr_left fun p hp ↦ ?_).trans (List.map_id _)
  by_cases hshape : p.1 = "shape"
  · have hp : p = ("shape", .arr t.shape) := by
      simp only [headerFields, List.mem_cons, List.not_mem_nil, or_false] at hp
      rcases hp with rfl | rfl | rfl | rfl | rfl | rfl | rfl
      · exact absurd hshape (by simp)
      · rfl
      all_goals exact absurd hshape (by simp)
    rw [hp, Json.sorted_arr, map_sorted_of_scalar (scalar_shape ht)]
    rfl
  · rw [(hscalar p hp hshape).sorted]
    rfl

theorem normal_header : Json.Normal (TensorEnvelope.header t) := by
  rw [header_eq ht]
  refine .obj _ (nodup_headerFields t) fun p hp ↦ ?_
  by_cases hshape : p.1 = "shape"
  · simp only [headerFields, List.mem_cons, List.not_mem_nil, or_false] at hp
    rcases hp with rfl | rfl | rfl | rfl | rfl | rfl | rfl
    · exact absurd hshape (by simp)
    · exact .arr _ fun d hd ↦ (scalar_shape ht d hd).normal
    all_goals exact absurd hshape (by simp)
  · exact (scalar_headerFields ht p hp hshape).normal

theorem sorted_header : (TensorEnvelope.header t).sorted = .obj (Json.sortKeys (headerFields t)) := by
  rw [header_eq ht, Json.sorted_obj, map_sorted_headerFields ht]

theorem tensorRead_header {data : Bytes} {s : Cursor} (hsmall : t.payload.length ≤ limits.maxTensorBytes)
    (hinside : s.offset + t.payload.length ≤ data.length)
    (hslice : (data.drop s.offset).take t.payload.length = t.payload)
    (hfresh : pyStr L t.tensorId ∉ s.tensorIds) :
    TensorRead L limits data s (TensorEnvelope.header t).sorted (Json.sortKeys (headerFields t)) t.payload.length t := by
  have hid : tensorIdOf L (Json.sortKeys (headerFields t)) = pyStr L t.tensorId := by
    rw [tensorIdOf, keyword, lookup_without_of_ne (by decide), lookup_sortKeys_headerFields t]
    rfl
  refine ⟨sorted_header ht, ⟨.int t.payload.length, ?_, rfl⟩, hsmall, hinside, ?_, hid ▸ hfresh,
    ⟨.arr t.shape, t.shape, ?_, rfl, ?_⟩⟩
  · rw [lookup_sortKeys_headerFields t]
    rfl
  · obtain ⟨id, he, hne⟩ := ht.tensorId
    rw [hid, he]
    exact hne
  · rw [lookup_without_of_ne (by decide), lookup_sortKeys_headerFields t]
    rfl
  · rw [hslice]
    exact ofKeywords_header t

end Tensor

/-! ### All tensors -/

def cursorOf (L : Library) (tensors : List TensorEnvelope) : Cursor :=
  ⟨(payloads tensors).length, tensors.map (fun t ↦ pyStr L t.tensorId), tensors⟩

theorem payloads_append (xs ys : List TensorEnvelope) : payloads (xs ++ ys) = payloads xs ++ payloads ys := by
  simp [payloads]

theorem payloads_cons (t : TensorEnvelope) (ts : List TensorEnvelope) :
    payloads (t :: ts) = t.payload ++ payloads ts := by
  simp [payloads]

/-- The loop over the headers of the remaining tensors. -/
theorem foldlM_headers (pre post : List TensorEnvelope) (htyped : ∀ t ∈ post, TensorEnvelope.Typed t)
    (hsmall : ∀ t ∈ post, t.payload.length ≤ limits.maxTensorBytes)
    (hids : ((pre ++ post).map fun t ↦ pyStr L t.tensorId).Nodup) :
    (post.map fun t ↦ (TensorEnvelope.header t).sorted).foldlM
      (readTensor L limits (payloads (pre ++ post))) (cursorOf L pre) = .ok (cursorOf L (pre ++ post)) := by
  induction post generalizing pre with
  | nil =>
    rw [List.append_nil]
    rfl
  | cons t post ih =>
    have hread : TensorRead L limits (payloads (pre ++ t :: post)) (cursorOf L pre)
        (TensorEnvelope.header t).sorted (Json.sortKeys (headerFields t)) t.payload.length t := by
      have hdata : payloads (pre ++ t :: post) = payloads pre ++ (t.payload ++ payloads post) := by
        rw [payloads_append, payloads_cons]
      apply tensorRead_header (htyped t List.mem_cons_self) (hsmall t List.mem_cons_self)
      · simp only [hdata, cursorOf, List.length_append]
        omega
      · rw [hdata, cursorOf, List.drop_left, List.take_left]
      · rw [List.map_append, List.nodup_append] at hids
        intro hmem
        exact hids.2.2 _ hmem _ (List.mem_map_of_mem List.mem_cons_self) rfl
    have hnext : Cursor.next L (cursorOf L pre) (Json.sortKeys (headerFields t)) t.payload.length t =
        cursorOf L (pre ++ [t]) := by
      simp [Cursor.next, cursorOf, hread.tensorId, payloads]
    rw [List.map_cons, List.foldlM_cons, readTensor_of hread, ok_bind, hnext, List.append_cons]
    apply ih
    · exact fun u hu ↦ htyped u (List.mem_cons_of_mem t hu)
    · exact fun u hu ↦ hsmall u (List.mem_cons_of_mem t hu)
    · rwa [← List.append_cons]

/-! ### The header -/

theorem mem_assign {fields : List (String × Json)} {k : String} {v : Json} {p : String × Json}
    (h : p ∈ Dict.assign fields k v) : p = (k, v) ∨ p ∈ fields := by
  induction fields with
  | nil => exact .inl (List.mem_singleton.mp h)
  | cons q fields ih =>
    obtain ⟨a, w⟩ := q
    by_cases ha : a = k
    · simp only [Dict.assign, ha, if_true, List.mem_cons] at h
      rcases h with h | h
      · exact .inl h
      · exact .inr (List.mem_cons_of_mem _ h)
    · simp only [Dict.assign, ha, if_false, List.mem_cons] at h
      rcases h with rfl | h
      · exact .inr List.mem_cons_self
      · exact (ih h).imp id (List.mem_cons_of_mem _)

/-- The entries of an envelope whose other fields than the metadata are scalars. -/
structure Described (fields : List (String × Json)) (metadata : Json) : Prop where
  nodup : (fields.map Prod.fst).Nodup
  kind : "kind" ∉ fields.map Prod.fst
  tensors : "tensors" ∉ fields.map Prod.fst
  metadata : Dict.lookup fields "metadata" = some metadata
  version : Dict.lookup fields "protocol_version" = some (.str PROTOCOL_VERSION)
  scalar : ∀ p ∈ fields, p.1 ≠ "metadata" → Scalar p.2

section Header

variable {kind c : String} {fields : List (String × Json)} {metadata : Json} {tensors : List TensorEnvelope}
  (hf : Described fields metadata) (hnormal : Json.Normal metadata) (hvisible : Visible metadata)
  (ht : ∀ t ∈ tensors, TensorEnvelope.Typed t)

/-- The entries that the decoder finds under a key, when they come back in the order of the keys. -/
theorem lookup_headerOf (k : String) (hmeta : Dict.lookup fields "metadata" = some metadata)
    (hvisible : Visible metadata) :
    Dict.lookup (headerOf L kind fields tensors (.str c)) k =
      if "checksum" = k then some (.str (L.sha256 (payloads tensors)))
      else if "tensors" = k then some (.arr (tensors.map TensorEnvelope.header))
      else if "metadata" = k then some metadata
      else if "kind" = k then some (.str kind)
      else if "compression" = k then some (.str c)
      else Dict.lookup fields k := by
  simp only [headerOf, Dict.lookup_assign, show ¬ "kind" = "metadata" by decide,
    show ¬ "compression" = "metadata" by decide, show ¬ "checksum" = "metadata" by decide, if_false, hmeta,
    Option.getD_some, jsonValue_of_visible hvisible]
  split_ifs <;> rfl

include hf in
theorem nodup_headerOf : ((headerOf L kind fields tensors (.str c)).map Prod.fst).Nodup := by
  unfold headerOf
  iterate 6 apply Dict.assign_nodup
  exact hf.nodup

theorem mem_keys_headerOf {k : String} (h : k ∈ (headerOf L kind fields tensors (.str c)).map Prod.fst) :
    k ∈ ["checksum", "tensors", "metadata", "kind", "compression"] ∨ k ∈ fields.map Prod.fst := by
  simp only [headerOf, Dict.mem_assign_keys] at h
  simp only [List.mem_cons, List.not_mem_nil, or_false]
  tauto

include hf hnormal hvisible ht in
theorem normal_headerOf : Json.Normal (.obj (headerOf L kind fields tensors (.str c))) := by
  refine .obj _ (nodup_headerOf hf) fun p hp ↦ ?_
  have hmeta : jsonValue ((Dict.lookup (Dict.assign (Dict.assign (Dict.assign fields "checksum" (.str ""))
      "compression" (.str c)) "kind" (.str kind)) "metadata").getD (.obj [])) = metadata := by
    simp only [Dict.lookup_assign, show ¬ "kind" = "metadata" by decide,
      show ¬ "compression" = "metadata" by decide, show ¬ "checksum" = "metadata" by decide, if_false,
      hf.metadata, Option.getD_some, jsonValue_of_visible hvisible]
  simp only [headerOf, hmeta] at hp
  rcases mem_assign hp with rfl | hp
  · exact .str _
  rcases mem_assign hp with rfl | hp
  · refine .arr _ fun j hj ↦ ?_
    obtain ⟨t, hmem, rfl⟩ := List.mem_map.mp hj
    exact normal_header (ht t hmem)
  rcases mem_assign hp with rfl | hp
  · exact hnormal
  rcases mem_assign hp with rfl | hp
  · exact .str _
  rcases mem_assign hp with rfl | hp
  · exact .str _
  rcases mem_assign hp with rfl | hp
  · exact .str _
  by_cases hk : p.1 = "metadata"
  · have := (Dict.lookup_eq_some_iff hf.nodup).mpr (show (p.1, p.2) ∈ fields from hp)
    rw [hk, hf.metadata] at this
    cases this
    exact hnormal
  · exact (hf.scalar p hp hk).normal

/-- The header as `json.loads` gives it back. -/
def received (L : Library) (kind : String) (fields : List (String × Json)) (tensors : List TensorEnvelope)
    (c : String) : List (String × Json) :=
  Json.sortKeys ((headerOf L kind fields tensors (.str c)).map fun p ↦ (p.1, p.2.sorted))

include hf in
theorem lookup_received (k : String) :
    Dict.lookup (received L kind fields tensors c) k =
      (Dict.lookup (headerOf L kind fields tensors (.str c)) k).map Json.sorted :=
  Json.lookup_sorted (nodup_headerOf hf) k

theorem mem_keys_received {k : String} (h : k ∈ (received L kind fields tensors c).map Prod.fst) :
    k ∈ ["checksum", "tensors", "metadata", "kind", "compression"] ∨ k ∈ fields.map Prod.fst := by
  apply mem_keys_headerOf
  rwa [← Json.keys_map_sorted, ← ((Json.sortKeys_perm _).map Prod.fst).mem_iff]

/-- The entries of the envelope that comes back. -/
def returned (L : Library) (fields : List (String × Json)) (tensors : List TensorEnvelope) (metadata : Json)
    (c : String) : List (String × Json) :=
  Dict.assign (Dict.assign (Dict.assign fields "compression" (.str c)) "metadata" metadata) "checksum"
    (.str (L.sha256 (payloads tensors)))

include hf hvisible in
/-- The class is called with these entries, whatever their order. -/
theorem lookup_returned {k : String} {v : Json}
    (h : (k, v) ∈ returned L fields tensors metadata.sorted c) :
    Dict.lookup (without (without (received L kind fields tensors c) "tensors") "kind") k = some v := by
  have hnodup : ((returned L fields tensors metadata.sorted c).map Prod.fst).Nodup := by
    unfold returned
    iterate 3 apply Dict.assign_nodup
    exact hf.nodup
  have hne : "tensors" ≠ k ∧ "kind" ≠ k := by
    have hk : k ∈ (returned L fields tensors metadata.sorted c).map Prod.fst := List.mem_map_of_mem h
    simp only [returned, Dict.mem_assign_keys] at hk
    constructor
    · rintro rfl
      simp [hf.tensors] at hk
    · rintro rfl
      simp [hf.kind] at hk
  have hv := (Dict.lookup_eq_some_iff hnodup).mpr h
  rw [lookup_without_of_ne hne.2, lookup_without_of_ne hne.1, lookup_received hf,
    lookup_headerOf k hf.metadata hvisible]
  simp only [returned, Dict.lookup_assign] at hv
  rw [if_neg hne.1, if_neg hne.2]
  split_ifs at hv ⊢ with hsum hmeta hcomp
  · rw [← hv]
    rfl
  · rw [← hv]
    rfl
  · rw [← hv]
    rfl
  · have hp := (Dict.lookup_eq_some_iff hf.nodup).mp hv
    rw [hv, Option.map_some, (hf.scalar (k, v) hp (Ne.symm hmeta)).sorted]

end Header

/-! ### The wire -/

/-- The loop gives what the decoder delivers, in finitely many turns. -/
theorem run_of_delivers {z : Decoder} {maxBytes : ℕ} {r : Except PyError (Bytes × z.State)} {b : Bytes}
    (h : z.Delivers r b) (d : Drain z.State)
    (hr : z.decompress d.decoder d.source (maxBytes - d.total + 1) = r) (hb : d.total + b.length ≤ maxBytes) :
    ∃ fuel, d.run z maxBytes fuel = some (.ok (d.chunks.flatten ++ b)) := by
  induction h generalizing d with
  | @ended chunk s heof =>
    refine ⟨1, ?_⟩
    have hfits : ¬ maxBytes < d.total + chunk.length := Nat.not_lt.mpr hb
    simp [Drain.run, Drain.call, hr, Drain.verdict, hfits, heof]
  | @more chunk rest s heof hneeds _ ih =>
    rw [List.length_append] at hb
    have hfits : ¬ maxBytes < d.total + chunk.length := by omega
    obtain ⟨fuel, hrun⟩ := ih (maxBytes - (d.total + chunk.length) + 1) (by omega)
      ⟨s, [], d.chunks ++ [chunk], d.total + chunk.length⟩ rfl (by dsimp only; omega)
    refine ⟨fuel + 1, ?_⟩
    rw [Drain.run]
    simp only [Drain.call, hr, Drain.verdict, hfits, heof, hneeds, if_false, Bool.false_eq_true]
    rw [hrun]
    simp

/-- The bytes that an envelope has for its header. -/
def wireHeader (L : Library) (kind : String) (fields : List (String × Json)) (tensors : List TensorEnvelope)
    (c : String) : Bytes :=
  utf8 (L.dumps (.obj (headerOf L kind fields tensors (.str c))))

/-- The tensors that the encoder takes and the decoder accepts. -/
structure Sendable (tensors : List TensorEnvelope) : Prop where
  typed : ∀ t ∈ tensors, TensorEnvelope.Typed t
  distinct : (tensors.map TensorEnvelope.tensorId).Nodup

/-- An envelope within the limits, whose header fits the four bytes of its length. -/
structure Fits (limits : EnvelopeLimits) (header : Bytes) (tensors : List TensorEnvelope) : Prop where
  headerSmall : header.length ≤ limits.maxHeaderBytes
  lengthField : header.length < 2 ^ 32
  count : tensors.length ≤ limits.maxTensors
  tensorBytes : ∀ t ∈ tensors, t.payload.length ≤ limits.maxTensorBytes
  payload : (payloads tensors).length ≤ limits.maxPayloadBytes

theorem Sendable.ids {tensors : List TensorEnvelope} (h : Sendable tensors) :
    (tensors.map fun t ↦ pyStr L t.tensorId).Nodup := by
  have hids := h.distinct
  rw [List.Nodup, List.pairwise_map] at hids ⊢
  refine hids.imp_of_mem fun {t u} ht hu hne ↦ ?_
  obtain ⟨a, ha, -⟩ := (h.typed t ht).tensorId
  obtain ⟨b, hb, -⟩ := (h.typed u hu).tensorId
  rw [ha, hb] at hne ⊢
  exact fun hab ↦ hne (congrArg Json.str hab)

section Wire

variable {kind c : String} {fields : List (String × Json)} {metadata : Json} {tensors : List TensorEnvelope}

/-- The flag and what follows it. -/
def carried (L : Library) (c : String) (body : Bytes) : Bytes :=
  if c = "lz4" then lz4Flag :: L.compress body else noneFlag :: body

def bodyOn (header : Bytes) (tensors : List TensorEnvelope) : Bytes :=
  be32 header.length ++ header ++ payloads tensors

theorem pack_eq (hc : c = "none" ∨ c = "lz4") (ht : ∀ t ∈ tensors, TensorEnvelope.Typed t)
    (hlen : (wireHeader L kind fields tensors c).length < 2 ^ 32) :
    pack L kind fields tensors (.str c) =
      .ok (magic ++ carried L c (bodyOn (wireHeader L kind fields tensors c) tensors)) := by
  have hcompression : checkCompression L (.str c) = .ok () := by
    rcases hc with rfl | rfl <;> rfl
  have hraw : ∀ t ∈ tensors, isText (some t.encoding) "raw-le" = true ∧
      isText (some t.layout) "contiguous" = true := by
    intro t hmem
    rw [(ht t hmem).encoding, (ht t hmem).layout]
    exact ⟨rfl, rfl⟩
  rw [wireHeader] at hlen
  rw [pack, hcompression, ok_bind, require_of hraw, ok_bind]
  dsimp only
  rw [require_of hlen, ok_bind]
  rcases hc with rfl | rfl <;> rfl

/-- The decoder finds the body that the encoder put on the wire. -/
theorem bodyOf_carried (hc : c = "none" ∨ c = "lz4") (hlz4 : L.lz4.Undoes L.compress) {body : Bytes}
    (hsize : body.length ≤ limits.bodyBytes) :
    ∃ fuel, bodyOf L fuel limits ((magic ++ carried L c body).getD 4 0) ((magic ++ carried L c body).drop 5) =
      some (.ok body) := by
  rcases hc with rfl | rfl
  · exact ⟨0, rfl⟩
  · have hstart : (Drain.start L.lz4 (L.compress body)).total + body.length ≤ limits.bodyBytes := by
      rwa [Drain.start, Nat.zero_add]
    obtain ⟨fuel, hrun⟩ := run_of_delivers (hlz4 body (limits.bodyBytes + 1) (Nat.lt_succ_of_le hsize))
      (Drain.start L.lz4 (L.compress body)) rfl hstart
    exact ⟨fuel, (if_pos rfl).trans hrun⟩

theorem flag_carried (hc : c = "none" ∨ c = "lz4") (body : Bytes) :
    compressionOf ((magic ++ carried L c body).getD 4 0) = c := by
  rcases hc with rfl | rfl <;> rfl

theorem framed_carried (hc : c = "none" ∨ c = "lz4") (hframe : ∀ b, 4 ≤ (L.compress b).length) {body : Bytes}
    (hbody : 4 ≤ body.length) (hw : (magic ++ carried L c body).length ≤ limits.maxWireBytes) :
    Framed limits (magic ++ carried L c body) where
  wire := hw
  long := by
    have := hframe body
    rcases hc with rfl | rfl
    · simpa [magic, carried] using hbody
    · simpa [magic, carried] using this
  magic := rfl

/-- What is on the wire for an envelope is read as its header and its tensors. -/
theorem bodyRead_bodyOn (hjson : JsonInverse L) (hf : Described fields metadata) (hnormal : Json.Normal metadata)
    (hvisible : Visible metadata) (hs : Sendable tensors)
    (hfits : Fits limits (wireHeader L kind fields tensors c) tensors) {flag : UInt8}
    (hflag : compressionOf flag = c) :
    BodyRead L limits kind flag (bodyOn (wireHeader L kind fields tensors c) tensors)
      (received L kind fields tensors c) (tensors.map fun t ↦ (TensorEnvelope.header t).sorted)
      (cursorOf L tensors) := by
  obtain ⟨hsize, hbytes, hdata⟩ := parts_of_body (payloads tensors) hfits.lengthField
  rw [← bodyOn] at hsize hbytes hdata
  have hlen : (bodyOn (wireHeader L kind fields tensors c) tensors).length =
      4 + (wireHeader L kind fields tensors c).length + (payloads tensors).length := by
    rw [bodyOn, List.length_append, List.length_append, be32_length]
  have hheader := hfits.headerSmall
  have hpayload := hfits.payload
  have hloads := hjson _ (@normal_headerOf L kind c fields metadata tensors hf hnormal hvisible hs.typed)
  rw [Json.sorted_obj] at hloads
  refine ⟨?_, ?_, ?_, ?_, ⟨_, ?_, hloads⟩, ?_, ?_, ?_, ?_, ?_, ?_, ?_, ?_, ?_⟩
  · rw [hlen, EnvelopeLimits.bodyBytes]
    omega
  · omega
  · rw [hsize]
    exact hheader
  · omega
  · rw [hbytes]
    exact utf8Decode_utf8 _
  · rw [lookup_received hf, lookup_headerOf _ hf.metadata hvisible, hflag]
    rfl
  · rw [lookup_received hf, lookup_headerOf _ hf.metadata hvisible]
    rfl
  · rw [lookup_received hf, lookup_headerOf _ hf.metadata hvisible]
    simp [hf.version, Json.sorted]
  · rw [hdata]
    exact hpayload
  · rw [lookup_received hf, lookup_headerOf _ hf.metadata hvisible, hdata]
    rfl
  · rw [lookup_received hf, lookup_headerOf _ hf.metadata hvisible]
    simp [Json.sorted_arr, Function.comp_def]
  · rw [List.length_map]
    exact hfits.count
  · rw [hdata]
    exact foldlM_headers [] tensors hs.typed hfits.tensorBytes hs.ids
  · rw [hdata]
    rfl

theorem unpack_wire (hjson : JsonInverse L) (hlz4 : L.lz4.Undoes L.compress)
    (hframe : ∀ b, 4 ≤ (L.compress b).length) (hc : c = "none" ∨ c = "lz4") (hf : Described fields metadata)
    (hnormal : Json.Normal metadata) (hvisible : Visible metadata) (hs : Sendable tensors)
    (hfits : Fits limits (wireHeader L kind fields tensors c) tensors) {wire : Bytes}
    (hwire : pack L kind fields tensors (.str c) = .ok wire) (hw : wire.length ≤ limits.maxWireBytes) :
    ∃ turns, ∀ fuel, turns ≤ fuel → unpack L fuel wire kind limits =
      some (.ok (without (without (received L kind fields tensors c) "tensors") "kind", tensors)) := by
  rw [pack_eq hc hs.typed hfits.lengthField] at hwire
  cases hwire
  have hflag := @flag_carried L c hc (bodyOn (wireHeader L kind fields tensors c) tensors)
  have hread := bodyRead_bodyOn hjson hf hnormal hvisible hs hfits hflag
  obtain ⟨turns, hturns⟩ := @bodyOf_carried L limits c hc hlz4 _ hread.size
  refine ⟨turns, fun fuel hle ↦ unpack_mono hle (unpack_eq_ok_iff.mpr ⟨?_, _, hturns, readBody_of hread⟩)⟩
  exact framed_carried hc hframe hread.lengthField hw

end Wire

/-! ### Both classes -/

/-- The declared types of the fields, the protocol version, and metadata that `json` keeps. -/
structure BoundaryEnvelope.Typed (e : BoundaryEnvelope) : Prop where
  tensors : Sendable e.tensors
  version : e.protocolVersion = .str PROTOCOL_VERSION
  texts : ∀ j ∈ [e.engine, e.backend, e.clientId, e.stepId, e.planId, e.splitId, e.canonicalGraphHash,
    e.boundarySchemaHash, e.compression, e.checksum], ∃ s, j = .str s
  numbers : ∀ j ∈ [e.roundId, e.modelVersion, e.batchSize], ∃ z, j = .int z
  metadata : ∃ fields, e.metadata = .obj fields
  normal : Json.Normal e.metadata
  visible : Visible e.metadata

structure GradientEnvelope.Typed (e : GradientEnvelope) : Prop where
  tensors : Sendable e.tensors
  version : e.protocolVersion = .str PROTOCOL_VERSION
  texts : ∀ j ∈ [e.backend, e.clientId, e.stepId, e.planId, e.splitId, e.compression, e.checksum],
    ∃ s, j = .str s
  numbers : ∀ j ∈ [e.roundId, e.modelVersion], ∃ z, j = .int z
  metadata : ∃ fields, e.metadata = .obj fields
  normal : Json.Normal e.metadata
  visible : Visible e.metadata

theorem scalar_of_text {j : Json} (h : ∃ s, j = .str s) : Scalar j := by
  obtain ⟨s, rfl⟩ := h
  exact .str s

theorem scalar_of_number {j : Json} (h : ∃ z, j = .int z) : Scalar j := by
  obtain ⟨z, rfl⟩ := h
  exact .int z

theorem keys_boundary (e : BoundaryEnvelope) : e.asdict.map Prod.fst = BoundaryEnvelope.keywords := rfl

theorem keys_gradient (e : GradientEnvelope) : e.asdict.map Prod.fst = GradientEnvelope.keywords := rfl

theorem BoundaryEnvelope.Typed.described {e : BoundaryEnvelope} (h : BoundaryEnvelope.Typed e) :
    Described e.asdict e.metadata where
  nodup := by
    rw [keys_boundary]
    decide
  kind := by
    rw [keys_boundary]
    decide
  tensors := by
    rw [keys_boundary]
    decide
  metadata := rfl
  version := congrArg some h.version
  scalar := by
    have htext : ∀ j ∈ _, Scalar j := fun j hj ↦ scalar_of_text (h.texts j hj)
    have hnumber : ∀ j ∈ _, Scalar j := fun j hj ↦ scalar_of_number (h.numbers j hj)
    have hversion : Scalar e.protocolVersion := h.version ▸ .str _
    simp only [List.mem_cons, List.not_mem_nil, or_false, forall_eq_or_imp, forall_eq] at htext hnumber
    simp only [BoundaryEnvelope.asdict, List.mem_cons, List.not_mem_nil, or_false, forall_eq_or_imp, forall_eq]
    tauto

theorem GradientEnvelope.Typed.described {e : GradientEnvelope} (h : GradientEnvelope.Typed e) :
    Described e.asdict e.metadata where
  nodup := by
    rw [keys_gradient]
    decide
  kind := by
    rw [keys_gradient]
    decide
  tensors := by
    rw [keys_gradient]
    decide
  metadata := rfl
  version := congrArg some h.version
  scalar := by
    have htext : ∀ j ∈ _, Scalar j := fun j hj ↦ scalar_of_text (h.texts j hj)
    have hnumber : ∀ j ∈ _, Scalar j := fun j hj ↦ scalar_of_number (h.numbers j hj)
    have hversion : Scalar e.protocolVersion := h.version ▸ .str _
    simp only [List.mem_cons, List.not_mem_nil, or_false, forall_eq_or_imp, forall_eq] at htext hnumber
    simp only [GradientEnvelope.asdict, List.mem_cons, List.not_mem_nil, or_false, forall_eq_or_imp, forall_eq]
    tauto

theorem keyword_of_lookup {header : List (String × Json)} {k : String} {v : Json} (d : Json)
    (h : Dict.lookup header k = some v) : keyword header k d = v := by
  rw [keyword, h, Option.getD_some]

theorem boundary_ofKeywords (e : BoundaryEnvelope) {header : List (String × Json)}
    (hkeys : ∀ k ∈ header.map Prod.fst, k ∈ BoundaryEnvelope.keywords)
    (h : ∀ k v, (k, v) ∈ e.asdict → Dict.lookup header k = some v) :
    BoundaryEnvelope.ofKeywords e.tensors header = .ok e := by
  have hk : ∀ k v d, (k, v) ∈ e.asdict → keyword header k d = v := fun k v d hm ↦ keyword_of_lookup d (h k v hm)
  simp only [BoundaryEnvelope.asdict, List.mem_cons, List.not_mem_nil, or_false, Prod.mk.injEq] at hk
  rw [BoundaryEnvelope.ofKeywords, checkKeywords_eq_ok_iff.mpr hkeys, ok_bind]
  obtain ⟨tensors, version, engine, backend, round, client, step, plan, split, graph, schema, model, batch, comp,
    metadata, sum⟩ := e
  refine congrArg Except.ok ?_
  rw [BoundaryEnvelope.mk.injEq]
  refine ⟨rfl, ?_⟩
  refine ⟨hk _ _ _ ?_, hk _ _ _ ?_, hk _ _ _ ?_, hk _ _ _ ?_, hk _ _ _ ?_, hk _ _ _ ?_, hk _ _ _ ?_,
    hk _ _ _ ?_, hk _ _ _ ?_, hk _ _ _ ?_, hk _ _ _ ?_, hk _ _ _ ?_, hk _ _ _ ?_, hk _ _ _ ?_, hk _ _ _ ?_⟩
  all_goals simp

theorem gradient_ofKeywords (e : GradientEnvelope) {header : List (String × Json)}
    (hkeys : ∀ k ∈ header.map Prod.fst, k ∈ GradientEnvelope.keywords)
    (h : ∀ k v, (k, v) ∈ e.asdict → Dict.lookup header k = some v) :
    GradientEnvelope.ofKeywords e.tensors header = .ok e := by
  have hk : ∀ k v d, (k, v) ∈ e.asdict → keyword header k d = v := fun k v d hm ↦ keyword_of_lookup d (h k v hm)
  simp only [GradientEnvelope.asdict, List.mem_cons, List.not_mem_nil, or_false, Prod.mk.injEq] at hk
  rw [GradientEnvelope.ofKeywords, checkKeywords_eq_ok_iff.mpr hkeys, ok_bind]
  obtain ⟨tensors, version, backend, round, client, step, plan, split, model, comp, metadata, sum⟩ := e
  refine congrArg Except.ok ?_
  rw [GradientEnvelope.mk.injEq]
  refine ⟨rfl, ?_⟩
  refine ⟨hk _ _ _ ?_, hk _ _ _ ?_, hk _ _ _ ?_, hk _ _ _ ?_, hk _ _ _ ?_, hk _ _ _ ?_, hk _ _ _ ?_,
    hk _ _ _ ?_, hk _ _ _ ?_, hk _ _ _ ?_, hk _ _ _ ?_⟩
  all_goals simp

/-- What is left of the header names only fields of the class. -/
theorem keys_received {kind c : String} {fields : List (String × Json)} {tensors : List TensorEnvelope}
    {allowed : List String} (hfields : fields.map Prod.fst = allowed)
    (hown : ∀ k ∈ ["checksum", "metadata", "compression"], k ∈ allowed) :
    ∀ k ∈ (without (without (received L kind fields tensors c) "tensors") "kind").map Prod.fst, k ∈ allowed := by
  intro k hk
  simp only [without, List.mem_map, List.mem_filter, decide_eq_true_eq] at hk
  obtain ⟨p, ⟨⟨hp, htensors⟩, hkind⟩, rfl⟩ := hk
  rcases mem_keys_received (List.mem_map_of_mem hp) with h | h
  · simp only [List.mem_cons, List.not_mem_nil, or_false, htensors, hkind, false_or] at h
    apply hown
    simp only [List.mem_cons, List.not_mem_nil, or_false]
    tauto
  · exact hfields ▸ h

/-- The envelope that comes back. -/
def BoundaryEnvelope.received (L : Library) (e : BoundaryEnvelope) (c : String) (metadata : Json) : BoundaryEnvelope :=
  { e with compression := .str c, metadata, checksum := .str (L.sha256 (payloads e.tensors)) }

def GradientEnvelope.received (L : Library) (e : GradientEnvelope) (c : String) (metadata : Json) : GradientEnvelope :=
  { e with compression := .str c, metadata, checksum := .str (L.sha256 (payloads e.tensors)) }

theorem chosen_of_mode {c : String} (hc : c = "none" ∨ c = "lz4") (own : Json) : chosen (some c) own = .str c := by
  rcases hc with rfl | rfl <;> rfl

theorem encodeBoundary_mode {c : String} (hc : c = "none" ∨ c = "lz4") (e : BoundaryEnvelope) :
    encodeBoundary L e (some c) = pack L "boundary" e.asdict e.tensors (.str c) := by
  rw [encodeBoundary, chosen_of_mode hc]

theorem encodeGradients_mode {c : String} (hc : c = "none" ∨ c = "lz4") (e : GradientEnvelope) :
    encodeGradients L e (some c) = pack L "gradients" e.asdict e.tensors (.str c) := by
  rw [encodeGradients, chosen_of_mode hc]

section RoundTrip

variable (hjson : JsonInverse L) (hlz4 : L.lz4.Undoes L.compress) (hframe : ∀ b, 4 ≤ (L.compress b).length)
  {c : String} (hc : c = "none" ∨ c = "lz4") {wire : Bytes}

include hjson hlz4 hframe hc

theorem boundary_round_trip {e : BoundaryEnvelope} (he : BoundaryEnvelope.Typed e)
    (hfits : Fits limits (wireHeader L "boundary" e.asdict e.tensors c) e.tensors)
    (hwire : encodeBoundary L e (some c) = .ok wire) (hw : wire.length ≤ limits.maxWireBytes) :
    ∃ turns, ∀ fuel, turns ≤ fuel →
      decodeBoundary L fuel wire limits = some (.ok (BoundaryEnvelope.received L e c e.metadata.sorted)) := by
  rw [encodeBoundary_mode hc] at hwire
  obtain ⟨turns, hturns⟩ :=
    unpack_wire hjson hlz4 hframe hc he.described he.normal he.visible he.tensors hfits hwire hw
  refine ⟨turns, fun fuel hle ↦ ?_⟩
  rw [decodeBoundary, hturns fuel hle, Option.map_some, ok_bind]
  refine congrArg some (boundary_ofKeywords (BoundaryEnvelope.received L e c e.metadata.sorted) ?_ ?_)
  · exact keys_received (keys_boundary e) (by decide)
  · intro k v hm
    exact lookup_returned he.described he.visible hm

theorem gradients_round_trip {e : GradientEnvelope} (he : GradientEnvelope.Typed e)
    (hfits : Fits limits (wireHeader L "gradients" e.asdict e.tensors c) e.tensors)
    (hwire : encodeGradients L e (some c) = .ok wire) (hw : wire.length ≤ limits.maxWireBytes) :
    ∃ turns, ∀ fuel, turns ≤ fuel →
      decodeGradients L fuel wire limits = some (.ok (GradientEnvelope.received L e c e.metadata.sorted)) := by
  rw [encodeGradients_mode hc] at hwire
  obtain ⟨turns, hturns⟩ :=
    unpack_wire hjson hlz4 hframe hc he.described he.normal he.visible he.tensors hfits hwire hw
  refine ⟨turns, fun fuel hle ↦ ?_⟩
  rw [decodeGradients, hturns fuel hle, Option.map_some, ok_bind]
  refine congrArg some (gradient_ofKeywords (GradientEnvelope.received L e c e.metadata.sorted) ?_ ?_)
  · exact keys_received (keys_gradient e) (by decide)
  · intro k v hm
    exact lookup_returned he.described he.visible hm

end RoundTrip

/-- Both kinds of envelopes come back from the wire in both modes: all fields as they were, the
metadata up to the order of its keys, with the mode and the digest of the payloads. -/
theorem wire_round_trip (L : Library) (hjson : JsonInverse L) (hlz4 : L.lz4.Undoes L.compress)
    (hframe : ∀ b, 4 ≤ (L.compress b).length) (limits : EnvelopeLimits) (c : String)
    (hc : c = "none" ∨ c = "lz4") :
    (∀ e, BoundaryEnvelope.Typed e → Fits limits (wireHeader L "boundary" e.asdict e.tensors c) e.tensors →
      ∃ wire, encodeBoundary L e (some c) = .ok wire ∧ (wire.length ≤ limits.maxWireBytes →
        ∃ metadata, Json.Same metadata e.metadata ∧ ∃ turns, ∀ fuel, turns ≤ fuel →
          decodeBoundary L fuel wire limits = some (.ok (BoundaryEnvelope.received L e c metadata)))) ∧
    ∀ e, GradientEnvelope.Typed e → Fits limits (wireHeader L "gradients" e.asdict e.tensors c) e.tensors →
      ∃ wire, encodeGradients L e (some c) = .ok wire ∧ (wire.length ≤ limits.maxWireBytes →
        ∃ metadata, Json.Same metadata e.metadata ∧ ∃ turns, ∀ fuel, turns ≤ fuel →
          decodeGradients L fuel wire limits = some (.ok (GradientEnvelope.received L e c metadata))) := by
  constructor
  · intro e he hfits
    have hwire := pack_eq hc he.tensors.typed hfits.lengthField
    rw [← encodeBoundary_mode hc] at hwire
    exact ⟨_, hwire, fun hw ↦ ⟨e.metadata.sorted, Json.same_sorted _,
      boundary_round_trip hjson hlz4 hframe hc he hfits hwire hw⟩⟩
  · intro e he hfits
    have hwire := pack_eq hc he.tensors.typed hfits.lengthField
    rw [← encodeGradients_mode hc] at hwire
    exact ⟨_, hwire, fun hw ↦ ⟨e.metadata.sorted, Json.same_sorted _,
      gradients_round_trip hjson hlz4 hframe hc he hfits hwire hw⟩⟩

/-! A boundary with one tensor, on which `json` writes the text below. -/

def sampleBoundary : BoundaryEnvelope :=
  { tensors := [sampleTensor], metadata := .obj [("epoch", .int 1)] }

def boundaryText : String :=
  "\x7b\"backend\":\"torch\",\"batch_size\":0,\"boundary_schema_hash\":\"\"," ++
    "\"canonical_graph_hash\":\"\"," ++
    "\"checksum\":\"a12871fee210fb8619291eaea194581cbd2531e4b23759d225f6806923f63222\"," ++
    "\"client_id\":\"\",\"compression\":\"none\",\"engine\":\"torchlens\",\"kind\":\"boundary\"," ++
    "\"metadata\":\x7b\"epoch\":1\x7d,\"model_version\":0,\"plan_id\":\"\"," ++
    "\"protocol_version\":\"splitfleet-wire.v1\",\"round_id\":0,\"split_id\":\"\"," ++
    "\"step_id\":\"\",\"tensors\":[\x7b\"dtype\":\"uint8\",\"encoding\":\"raw-le\"," ++
    "\"layout\":\"contiguous\",\"nbytes\":2,\"requires_grad\":false,\"shape\":[2]," ++
    "\"tensor_id\":\"0\"\x7d]\x7d"

def boundaryHeader : Json :=
  .obj (headerOf sampleLibrary "boundary" sampleBoundary.asdict sampleBoundary.tensors (.str "none"))

theorem boundary_texts : ∃ (dumps : Json → String) (loads : String → Except PyError Json),
    dumps boundaryHeader = boundaryText ∧ ∀ j, loads (dumps j) = .ok j.sorted := by
  classical
  obtain ⟨dumps, loads, hgiven, hall⟩ := Json.exists_texts
    (fun j ↦ if j = boundaryHeader then some boundaryText else none) boundaryText.length (by simp) (by
      intro j k s hj hk
      simp only [Option.ite_none_right_eq_some] at hj hk
      exact hj.1.trans hk.1.symm)
  exact ⟨dumps, loads, hgiven _ _ (if_pos rfl), hall⟩

noncomputable def boundaryLibrary : Library :=
  { sampleLibrary with dumps := boundary_texts.choose, loads := boundary_texts.choose_spec.choose }

theorem boundaryLibrary_json : boundaryLibrary.dumps boundaryHeader = boundaryText ∧ JsonInverse boundaryLibrary := by
  obtain ⟨htext, hall⟩ := boundary_texts.choose_spec.choose_spec
  exact ⟨htext, fun j _ ↦ hall j⟩

theorem sampleTensor_typed : TensorEnvelope.Typed sampleTensor where
  tensorId := ⟨"0", rfl, by decide⟩
  shape := by simp [sampleTensor]
  dtype := ⟨"uint8", rfl⟩
  layout := rfl
  encoding := rfl
  requiresGrad := ⟨false, rfl⟩

theorem sampleBoundary_typed : BoundaryEnvelope.Typed sampleBoundary where
  tensors := ⟨fun t ht ↦ List.mem_singleton.mp ht ▸ sampleTensor_typed, List.nodup_singleton _⟩
  version := rfl
  texts := by simp [sampleBoundary]
  numbers := by simp [sampleBoundary]
  metadata := ⟨_, rfl⟩
  normal := .obj _ (List.nodup_singleton _) fun p hp ↦ List.mem_singleton.mp hp ▸ .int 1
  visible := .obj _ (by decide) fun p hp ↦ List.mem_singleton.mp hp ▸ .int 1

theorem wireHeader_sample : wireHeader boundaryLibrary "boundary" sampleBoundary.asdict sampleBoundary.tensors "none" =
    utf8 boundaryText :=
  congrArg utf8 boundaryLibrary_json.1

theorem boundaryText_length : (utf8 boundaryText).length = 506 := by
  decide +kernel

theorem wire_round_trip_sample : ∃ wire metadata turns, Json.Same metadata sampleBoundary.metadata ∧
    encodeBoundary boundaryLibrary sampleBoundary (some "none") = .ok wire ∧
    decodeBoundary boundaryLibrary turns wire DEFAULT_LIMITS =
      some (.ok (BoundaryEnvelope.received boundaryLibrary sampleBoundary "none" metadata)) := by
  have hround := (wire_round_trip boundaryLibrary boundaryLibrary_json.2 Stored.undoes
    (fun b ↦ by rw [show boundaryLibrary.compress = Stored.compress from rfl, Stored.compress_length]; omega)
    DEFAULT_LIMITS "none" (.inl rfl)).1 sampleBoundary sampleBoundary_typed
  rw [wireHeader_sample] at hround
  obtain ⟨wire, hwire, hdecode⟩ := hround ⟨by rw [boundaryText_length]; decide, by rw [boundaryText_length]; decide,
    by decide, by decide, by decide⟩
  have hlen : wire.length ≤ DEFAULT_LIMITS.maxWireBytes := by
    rw [encodeBoundary_mode (.inl rfl), pack_eq (.inl rfl) sampleBoundary_typed.tensors.typed
      (by rw [wireHeader_sample, boundaryText_length]; decide), wireHeader_sample] at hwire
    cases hwire
    rw [List.length_append, carried, if_neg (by decide), List.length_cons, bodyOn, List.length_append,
      List.length_append, be32_length, boundaryText_length]
    decide
  obtain ⟨metadata, hsame, turns, hturns⟩ := hdecode hlen
  exact ⟨wire, metadata, turns, hsame, hwire, hturns turns (Nat.le_refl _)⟩

end SplitFleet.EnvelopeRoundTrip
