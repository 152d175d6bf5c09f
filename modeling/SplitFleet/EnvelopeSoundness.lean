import SplitFleet.Envelope

set_option autoImplicit false

namespace SplitFleet.EnvelopeSoundness

open Lib Envelope

variable {L : Library} {limits : EnvelopeLimits} {kind : String} {flag : UInt8}

/-! ### What the decoder returns -/

theorem isText_iff {v : Option Json} {text : String} : isText v text = true ↔ v = some (.str text) := by
  cases v with
  | none => simp [isText]
  | some j => cases j <;> simp [isText]

theorem fieldsOf_eq_ok {method : String} {j : Json} {fields : List (String × Json)}
    (h : fieldsOf method j = .ok fields) : j = .obj fields := by
  cases j with
  | obj f =>
    cases h
    rfl
  | null | bool | int | float | str | arr =>
    simp only [fieldsOf] at h
    split_ifs at h

theorem pop_eq_ok_iff {fields rest : List (String × Json)} {key : String} {v : Json} :
    pop fields key = .ok (v, rest) ↔ Dict.lookup fields key = some v ∧ rest = without fields key := by
  cases h : Dict.lookup fields key with
  | none => simp [pop, h]
  | some w => simp [pop, h, eq_comm]

theorem checkKeywords_eq_ok_iff {name : String} {allowed : List String} {fields : List (String × Json)} :
    checkKeywords name allowed fields = .ok () ↔ ∀ k ∈ fields.map Prod.fst, k ∈ allowed := by
  unfold checkKeywords
  cases h : (fields.map Prod.fst).find? (· ∉ allowed) with
  | none =>
    rw [List.find?_eq_none] at h
    simpa using h
  | some k =>
    have hk := List.mem_of_find?_eq_some h
    have hn := List.find?_some h
    simp only [decide_not, Bool.not_eq_eq_eq_not, Bool.not_true, decide_eq_false_iff_not] at hn
    exact iff_of_false (fun hh ↦ nomatch hh) fun hall ↦ hn (hall k hk)

/-- The identifier that the loop compares. -/
def tensorIdOf (L : Library) (fields : List (String × Json)) : String :=
  pyStr L (keyword (without fields "nbytes") "tensor_id" (.str ""))

/-- A turn of the loop over the tensor headers that does not raise: the entries of the header, the
size that it gives, and the tensor that comes of it. -/
structure TensorRead (L : Library) (limits : EnvelopeLimits) (data : Bytes) (s : Cursor) (item : Json)
    (fields : List (String × Json)) (size : ℕ) (t : TensorEnvelope) : Prop where
  dict : item = .obj fields
  nbytes : ∃ j, Dict.lookup fields "nbytes" = some j ∧ pyInt L j = .ok size
  small : size ≤ limits.maxTensorBytes
  inside : s.offset + size ≤ data.length
  named : tensorIdOf L fields ≠ ""
  fresh : tensorIdOf L fields ∉ s.tensorIds
  made : ∃ value shape, Dict.lookup (without fields "nbytes") "shape" = some value ∧
    pyTuple value = .ok shape ∧
    TensorEnvelope.ofKeywords ((data.drop s.offset).take size) shape
      (without (without fields "nbytes") "shape") = .ok t

def Cursor.next (L : Library) (s : Cursor) (fields : List (String × Json)) (size : ℕ) (t : TensorEnvelope) :
    Cursor :=
  ⟨s.offset + size, s.tensorIds ++ [tensorIdOf L fields], s.tensors ++ [t]⟩

theorem readTensor_eq_ok {data : Bytes} {s s' : Cursor} {item : Json}
    (h : readTensor L limits data s item = .ok s') :
    ∃ fields size t, TensorRead L limits data s item fields size t ∧ s' = Cursor.next L s fields size t := by
  obtain ⟨fields, hitem, h⟩ := bind_eq_ok h
  obtain ⟨⟨j, rest⟩, hpop, h⟩ := bind_eq_ok h
  obtain ⟨hj, rfl⟩ := pop_eq_ok_iff.mp hpop
  obtain ⟨size, hsize, h⟩ := bind_eq_ok h
  obtain ⟨_, hsmall, h⟩ := bind_eq_ok h
  obtain ⟨_, hinside, h⟩ := bind_eq_ok h
  obtain ⟨_, hid, h⟩ := bind_eq_ok h
  obtain ⟨⟨value, rest⟩, hpop, h⟩ := bind_eq_ok h
  obtain ⟨hvalue, rfl⟩ := pop_eq_ok_iff.mp hpop
  obtain ⟨shape, hshape, h⟩ := bind_eq_ok h
  obtain ⟨t, ht, h⟩ := bind_eq_ok h
  cases h
  have hsmall := of_require hsmall
  obtain ⟨hnonneg, hend⟩ := of_require hinside
  obtain ⟨hnamed, hfresh⟩ := of_require hid
  obtain ⟨n, rfl⟩ := Int.eq_ofNat_of_zero_le hnonneg
  rw [Int.toNat_natCast] at ht ⊢
  exact ⟨fields, n, t, ⟨fieldsOf_eq_ok hitem, ⟨j, hj, hsize⟩, by omega, by omega, hnamed, hfresh,
    ⟨value, shape, hvalue, hshape, ht⟩⟩, rfl⟩

theorem readTensor_of {data : Bytes} {s : Cursor} {item : Json} {fields : List (String × Json)} {size : ℕ}
    {t : TensorEnvelope} (h : TensorRead L limits data s item fields size t) :
    readTensor L limits data s item = .ok (Cursor.next L s fields size t) := by
  obtain ⟨j, hj, hsize⟩ := h.nbytes
  obtain ⟨value, shape, hvalue, hshape, ht⟩ := h.made
  have hsmall : (size : ℤ) ≤ limits.maxTensorBytes := by exact_mod_cast h.small
  have hinside : (0 : ℤ) ≤ size ∧ (s.offset : ℤ) + size ≤ data.length := by
    have := h.inside
    omega
  rw [readTensor, h.dict, fieldsOf, ok_bind, pop_eq_ok_iff.mpr ⟨hj, rfl⟩, ok_bind]
  dsimp only
  rw [hsize, ok_bind, require_of hsmall, ok_bind, require_of hinside, ok_bind]
  have hid : pyStr L (keyword (without fields "nbytes") "tensor_id" (.str "")) ≠ "" ∧
      pyStr L (keyword (without fields "nbytes") "tensor_id" (.str "")) ∉ s.tensorIds := ⟨h.named, h.fresh⟩
  rw [require_of hid, ok_bind, pop_eq_ok_iff.mpr ⟨hvalue, rfl⟩, ok_bind]
  dsimp only
  rw [hshape, ok_bind, Int.toNat_natCast, ht]
  rfl

theorem ofKeywords_eq_ok {payload : Bytes} {shape : List Json} {fields : List (String × Json)}
    {t : TensorEnvelope} (h : TensorEnvelope.ofKeywords payload shape fields = .ok t) :
    t.payload = payload ∧ Dict.lookup fields "tensor_id" = some t.tensorId := by
  rw [TensorEnvelope.ofKeywords] at h
  split_ifs at h
  obtain ⟨_, -, h⟩ := bind_eq_ok h
  cases hi : Dict.lookup fields "tensor_id" with
  | none => simp [hi] at h
  | some i =>
    cases hd : Dict.lookup fields "dtype" with
    | none => simp [hi, hd] at h
    | some d =>
      simp only [hi, hd, Except.ok.injEq] at h
      cases h
      exact ⟨rfl, rfl⟩

/-- The header of a tensor names it, as the loop saw it. -/
theorem TensorRead.tensorId {data : Bytes} {s : Cursor} {item : Json} {fields : List (String × Json)}
    {size : ℕ} {t : TensorEnvelope} (h : TensorRead L limits data s item fields size t) :
    pyStr L t.tensorId = tensorIdOf L fields := by
  obtain ⟨_, _, -, -, ht⟩ := h.made
  have hid := (ofKeywords_eq_ok ht).2
  rw [without, Dict.lookup_filter, if_neg (by decide)] at hid
  rw [tensorIdOf, keyword, hid, Option.getD_some]

theorem TensorRead.payload {data : Bytes} {s : Cursor} {item : Json} {fields : List (String × Json)}
    {size : ℕ} {t : TensorEnvelope} (h : TensorRead L limits data s item fields size t) :
    t.payload = (data.drop s.offset).take size := by
  obtain ⟨_, _, -, -, ht⟩ := h.made
  exact (ofKeywords_eq_ok ht).1

/-- What the loop holds after some of the headers. -/
structure Tiles (L : Library) (limits : EnvelopeLimits) (data : Bytes) (done : List Json) (s : Cursor) : Prop where
  payloads : payloads s.tensors = data.take s.offset
  inside : s.offset ≤ data.length
  count : s.tensors.length = done.length
  small : ∀ t ∈ s.tensors, t.payload.length ≤ limits.maxTensorBytes
  ids : s.tensors.map (fun t ↦ pyStr L t.tensorId) = s.tensorIds
  named : "" ∉ s.tensorIds
  distinct : s.tensorIds.Nodup

theorem tiles_start (data : Bytes) : Tiles L limits data [] ⟨0, [], []⟩ where
  payloads := rfl
  inside := Nat.zero_le _
  count := rfl
  small _ ht := absurd ht List.not_mem_nil
  ids := rfl
  named := List.not_mem_nil
  distinct := List.nodup_nil

theorem Tiles.next {data : Bytes} {done : List Json} {s : Cursor} {item : Json}
    {fields : List (String × Json)} {size : ℕ} {t : TensorEnvelope} (h : Tiles L limits data done s)
    (hr : TensorRead L limits data s item fields size t) :
    Tiles L limits data (done ++ [item]) (Cursor.next L s fields size t) where
  payloads := by
    have hpay := h.payloads
    simp only [Envelope.payloads, Cursor.next, List.map_append, List.flatten_append] at hpay ⊢
    rw [hpay, List.map_singleton, List.flatten_singleton, hr.payload, ← List.take_add]
  inside := hr.inside
  count := by
    simp [Cursor.next, h.count]
  small u hu := by
    rcases List.mem_append.mp hu with hu | hu
    · exact h.small u hu
    · rw [List.mem_singleton.mp hu, hr.payload, List.length_take]
      exact (Nat.min_le_left _ _).trans hr.small
  ids := by
    simp only [Cursor.next, List.map_append, h.ids, List.map_singleton, hr.tensorId]
  named := by
    simp only [Cursor.next, List.mem_append, List.mem_singleton, not_or]
    exact ⟨h.named, hr.named.symm⟩
  distinct := by
    rw [Cursor.next, List.nodup_append]
    refine ⟨h.distinct, List.nodup_singleton _, ?_⟩
    intro a ha b hb hab
    rw [List.mem_singleton.mp hb] at hab
    exact hr.fresh (hab ▸ ha)

theorem tiles_run {data : Bytes} {items : List Json} {s : Cursor}
    (h : items.foldlM (readTensor L limits data) ⟨0, [], []⟩ = .ok s) : Tiles L limits data items s := by
  refine foldlM_invariant (Tiles L limits data) ?_ (tiles_start data) h
  intro done s item s' hs hstep
  obtain ⟨fields, size, t, hr, rfl⟩ := readTensor_eq_ok hstep
  exact hs.next hr

/-- What makes `_unpack` accept a body: its header, the headers of its tensors, and what the loop
over them ends with. -/
structure BodyRead (L : Library) (limits : EnvelopeLimits) (kind : String) (flag : UInt8) (body : Bytes)
    (header : List (String × Json)) (items : List Json) (s : Cursor) : Prop where
  size : body.length ≤ limits.bodyBytes
  lengthField : 4 ≤ body.length
  headerSmall : headerSize body ≤ limits.maxHeaderBytes
  headerInside : headerSize body ≤ body.length - 4
  parsed : ∃ text, utf8Decode (headerBytes body) = .ok text ∧ L.loads text = .ok (.obj header)
  compression : Dict.lookup header "compression" = some (.str (compressionOf flag))
  kind : Dict.lookup header "kind" = some (.str kind)
  version : Dict.lookup header "protocol_version" = some (.str PROTOCOL_VERSION)
  dataSmall : (dataSection body).length ≤ limits.maxPayloadBytes
  checksum : Dict.lookup header "checksum" = some (.str (L.sha256 (dataSection body)))
  tensors : Dict.lookup header "tensors" = some (.arr items)
  count : items.length ≤ limits.maxTensors
  loop : items.foldlM (readTensor L limits (dataSection body)) ⟨0, [], []⟩ = .ok s
  whole : s.offset = (dataSection body).length

theorem readHeader_eq_ok {body : Bytes} {header : List (String × Json)}
    (h : readHeader L limits body = .ok header) :
    body.length ≤ limits.bodyBytes ∧ 4 ≤ body.length ∧ headerSize body ≤ limits.maxHeaderBytes ∧
      headerSize body ≤ body.length - 4 ∧
      ∃ text, utf8Decode (headerBytes body) = .ok text ∧ L.loads text = .ok (.obj header) := by
  obtain ⟨_, hsize, h⟩ := bind_eq_ok h
  obtain ⟨_, hfour, h⟩ := bind_eq_ok h
  obtain ⟨_, hsmall, h⟩ := bind_eq_ok h
  obtain ⟨_, hinside, h⟩ := bind_eq_ok h
  obtain ⟨text, htext, h⟩ := bind_eq_ok h
  obtain ⟨value, hvalue, h⟩ := bind_eq_ok h
  rw [fieldsOf_eq_ok h] at hvalue
  exact ⟨of_require hsize, of_require hfour, of_require hsmall, of_require hinside, text, htext, hvalue⟩

theorem readTensors_eq_ok {data : Bytes} {value : Json} {s : Cursor}
    (h : readTensors L limits data value = .ok s) :
    ∃ items, value = .arr items ∧ items.length ≤ limits.maxTensors ∧
      items.foldlM (readTensor L limits data) ⟨0, [], []⟩ = .ok s := by
  cases value with
  | arr items =>
    rw [readTensors] at h
    split_ifs at h with hc
    exact ⟨items, rfl, Nat.le_of_not_lt hc, h⟩
  | null | bool | int | float | str | obj => cases h

theorem readBody_eq_ok {body : Bytes} {r : List (String × Json) × List TensorEnvelope}
    (h : readBody L limits kind flag body = .ok r) :
    ∃ header items s, BodyRead L limits kind flag body header items s ∧
      r = (without (without header "tensors") "kind", s.tensors) := by
  obtain ⟨header, hheader, h⟩ := bind_eq_ok h
  obtain ⟨hsize, hfour, hsmall, hinside, hparsed⟩ := readHeader_eq_ok hheader
  obtain ⟨_, hcheck, h⟩ := bind_eq_ok h
  obtain ⟨_, hcompression, hcheck⟩ := bind_eq_ok hcheck
  obtain ⟨_, hkind, hversion⟩ := bind_eq_ok hcheck
  obtain ⟨_, hdata, h⟩ := bind_eq_ok h
  obtain ⟨_, hchecksum, h⟩ := bind_eq_ok h
  obtain ⟨⟨value, rest⟩, hpop, h⟩ := bind_eq_ok h
  obtain ⟨htensors, rfl⟩ := pop_eq_ok_iff.mp hpop
  dsimp only at h
  obtain ⟨s, hloop, h⟩ := bind_eq_ok h
  obtain ⟨_, hwhole, h⟩ := bind_eq_ok h
  cases h
  obtain ⟨items, rfl, hcount, hloop⟩ := readTensors_eq_ok hloop
  exact ⟨header, items, s, ⟨hsize, hfour, hsmall, hinside, hparsed, isText_iff.mp (of_require hcompression),
    isText_iff.mp (of_require hkind), isText_iff.mp (of_require hversion), of_require hdata,
    isText_iff.mp (of_require hchecksum), htensors, hcount, hloop, of_require hwhole⟩, rfl⟩

theorem readBody_of {body : Bytes} {header : List (String × Json)} {items : List Json} {s : Cursor}
    (h : BodyRead L limits kind flag body header items s) :
    readBody L limits kind flag body = .ok (without (without header "tensors") "kind", s.tensors) := by
  obtain ⟨text, htext, hloads⟩ := h.parsed
  have hheader : readHeader L limits body = .ok header := by
    rw [readHeader, require_of h.size, ok_bind, require_of h.lengthField, ok_bind, require_of h.headerSmall,
      ok_bind, require_of h.headerInside, ok_bind, htext, ok_bind, hloads, ok_bind, fieldsOf]
  have hcheck : checkHeader L kind flag header = .ok () := by
    rw [checkHeader, require_of (isText_iff.mpr h.compression), ok_bind, require_of (isText_iff.mpr h.kind),
      ok_bind, require_of (isText_iff.mpr h.version)]
  have hloop : readTensors L limits (dataSection body) (.arr items) = .ok s := by
    rw [readTensors, if_neg (Nat.not_lt.mpr h.count)]
    exact h.loop
  rw [readBody, hheader, ok_bind, hcheck, ok_bind]
  dsimp only
  rw [require_of h.dataSmall, ok_bind, require_of (isText_iff.mpr h.checksum), ok_bind,
    pop_eq_ok_iff.mpr ⟨h.tensors, rfl⟩, ok_bind]
  dsimp only
  rw [hloop, ok_bind, require_of h.whole, ok_bind]
  rfl

/-- The parts of a body that was put together as `_pack` does. -/
theorem parts_of_body {header : Bytes} (data : Bytes) (h : header.length < 2 ^ 32) :
    headerSize (be32 header.length ++ header ++ data) = header.length ∧
      headerBytes (be32 header.length ++ header ++ data) = header ∧
      dataSection (be32 header.length ++ header ++ data) = data := by
  have hsize : headerSize (be32 header.length ++ header ++ data) = header.length := by
    rw [headerSize, List.append_assoc, List.take_left' (be32_length _), ofBe32_be32 h]
  refine ⟨hsize, ?_, ?_⟩
  · rw [headerBytes, hsize, List.append_assoc, List.drop_left' (be32_length _), List.take_left]
  · rw [dataSection, hsize, List.drop_left']
    rw [List.length_append, be32_length]

/-- What is checked before the body. -/
structure Framed (limits : EnvelopeLimits) (p : Bytes) : Prop where
  wire : p.length ≤ limits.maxWireBytes
  long : 9 ≤ p.length
  magic : p.take 4 = magic

theorem unpack_eq_ok_iff {fuel : ℕ} {p : Bytes} {r : List (String × Json) × List TensorEnvelope} :
    unpack L fuel p kind limits = some (.ok r) ↔ Framed limits p ∧
      ∃ body, bodyOf L fuel limits (p.getD 4 0) (p.drop 5) = some (.ok body) ∧
        readBody L limits kind (p.getD 4 0) body = .ok r := by
  unfold unpack
  split_ifs with hwire hmagic
  · refine iff_of_false (fun h ↦ nomatch h) ?_
    rintro ⟨hf, -⟩
    exact absurd hf.wire (Nat.not_le.mpr hwire)
  · refine iff_of_false (fun h ↦ nomatch h) ?_
    rintro ⟨hf, -⟩
    exact hmagic.elim (Nat.not_lt.mpr hf.long) (fun hn ↦ hn hf.magic)
  · rw [not_or, not_not, Nat.not_lt] at hmagic
    have hf : Framed limits p := ⟨Nat.le_of_not_lt hwire, hmagic.1, hmagic.2⟩
    rw [Option.map_eq_some_iff]
    constructor
    · rintro ⟨body, hbody, h⟩
      obtain ⟨b, rfl, hread⟩ := bind_eq_ok h
      exact ⟨hf, b, hbody, hread⟩
    · rintro ⟨-, body, hbody, hread⟩
      exact ⟨.ok body, hbody, hread⟩

/-! ### The decompression -/

section Decompression

variable {z : Decoder} {maxBytes : ℕ} {payload : Bytes}

/-- The states of the loop at the head of a turn. -/
inductive Head (z : Decoder) (maxBytes : ℕ) (payload : Bytes) : Drain z.State → Prop
  | start : Head z maxBytes payload (Drain.start z payload)
  | turn {d d' : Drain z.State} (h : Head z maxBytes payload d) (hc : d.call z maxBytes = .ok d')
      (hv : d'.verdict z maxBytes = none) : Head z maxBytes payload d'

/-- Every state of the loop: at the head of a turn, or after its call. -/
def Held (z : Decoder) (maxBytes : ℕ) (payload : Bytes) (d : Drain z.State) : Prop :=
  Head z maxBytes payload d ∨ ∃ h, Head z maxBytes payload h ∧ h.call z maxBytes = .ok d

/-- The bytes that the loop holds. -/
def buffered (d : Drain z.State) : ℕ := d.chunks.flatten.length

theorem call_counted {d d' : Drain z.State} (hz : z.Bounded) (hd : d.total = buffered d)
    (hb : d.total ≤ maxBytes) (hc : d.call z maxBytes = .ok d') :
    d'.total = buffered d' ∧ d'.total ≤ maxBytes + 1 := by
  unfold Drain.call at hc
  cases hr : z.decompress d.decoder d.source (maxBytes - d.total + 1) with
  | error e => simp [hr] at hc
  | ok r =>
    obtain ⟨chunk, t⟩ := r
    have hlen := hz _ _ _ _ _ hr
    simp only [hr, Except.ok.injEq] at hc
    subst hc
    constructor
    · simp [buffered, hd]
    · dsimp only
      omega

theorem le_of_verdict {d : Drain z.State} (h : d.verdict z maxBytes = none) : d.total ≤ maxBytes := by
  unfold Drain.verdict at h
  split_ifs at h
  omega

theorem Head.counted (hz : z.Bounded) {d : Drain z.State} (h : Head z maxBytes payload d) :
    d.total = buffered d ∧ d.total ≤ maxBytes := by
  induction h with
  | start => exact ⟨rfl, Nat.zero_le _⟩
  | turn _ hc hv ih => exact ⟨(call_counted hz ih.1 ih.2 hc).1, le_of_verdict hv⟩

theorem Held.buffered_le (hz : z.Bounded) {d : Drain z.State} (h : Held z maxBytes payload d) :
    buffered d ≤ maxBytes + 1 := by
  rcases h with h | ⟨d₀, h, hc⟩
  · have := h.counted hz
    omega
  · have h₀ := h.counted hz
    have := call_counted hz h₀.1 h₀.2 hc
    omega

/-- A result of the loop is the verdict on one of its states. -/
theorem held_of_run {fuel : ℕ} {d : Drain z.State} {b : Bytes} (h : Head z maxBytes payload d)
    (hr : d.run z maxBytes fuel = some (.ok b)) :
    ∃ d', Held z maxBytes payload d' ∧ d'.verdict z maxBytes = some (.ok b) := by
  induction fuel generalizing d with
  | zero => cases hr
  | succ fuel ih =>
    rw [Drain.run] at hr
    cases hc : d.call z maxBytes with
    | error e => simp [hc] at hr
    | ok d' =>
      cases hv : d'.verdict z maxBytes with
      | some r =>
        simp only [hc, hv, Option.some.injEq] at hr
        exact ⟨d', .inr ⟨d, h, hc⟩, hr ▸ hv⟩
      | none =>
        simp only [hc, hv] at hr
        exact ih (.turn h hc hv) hr

end Decompression

/-! ### Accepted payloads -/

/-- The body that a payload carries. -/
def Carries (L : Library) (limits : EnvelopeLimits) (p body : Bytes) : Prop :=
  (p.getD 4 0 = noneFlag ∧ body = p.drop 5) ∨
    (p.getD 4 0 = lz4Flag ∧ ∃ d, Held L.lz4 limits.bodyBytes (p.drop 5) d ∧
      d.verdict L.lz4 limits.bodyBytes = some (.ok body))

theorem carries_of_bodyOf {fuel : ℕ} {p body : Bytes}
    (h : bodyOf L fuel limits (p.getD 4 0) (p.drop 5) = some (.ok body)) : Carries L limits p body := by
  unfold bodyOf at h
  split_ifs at h with hlz4 hnone
  · exact .inr ⟨hlz4, held_of_run .start h⟩
  · cases h
  · cases h
    exact .inl ⟨not_not.mp hnone, rfl⟩

/-- What an accepted payload is made of. -/
structure Sound (L : Library) (limits : EnvelopeLimits) (expectedKind : String) (flag : UInt8) (body : Bytes)
    (full header : List (String × Json)) (tensors : List TensorEnvelope) : Prop where
  parsed : ∃ text, utf8Decode (headerBytes body) = .ok text ∧ L.loads text = .ok (.obj full)
  returned : header = without (without full "tensors") "kind"
  payloads : payloads tensors = dataSection body
  count : tensors.length ≤ limits.maxTensors
  small : ∀ t ∈ tensors, t.payload.length ≤ limits.maxTensorBytes
  dataSmall : (dataSection body).length ≤ limits.maxPayloadBytes
  checksum : Dict.lookup header "checksum" = some (.str (L.sha256 (dataSection body)))
  named : ∀ t ∈ tensors, pyStr L t.tensorId ≠ ""
  distinct : (tensors.map fun t ↦ pyStr L t.tensorId).Nodup
  kind : Dict.lookup full "kind" = some (.str expectedKind)
  version : Dict.lookup header "protocol_version" = some (.str PROTOCOL_VERSION)
  compression : Dict.lookup header "compression" = some (.str (compressionOf flag))

theorem lookup_without_of_ne {fields : List (String × Json)} {key k : String} (h : key ≠ k) :
    Dict.lookup (without fields key) k = Dict.lookup fields k := by
  rw [without, Dict.lookup_filter, if_neg h]

theorem sound_of_bodyRead {body : Bytes} {full : List (String × Json)} {items : List Json} {s : Cursor}
    (h : BodyRead L limits kind flag body full items s) :
    Sound L limits kind flag body full (without (without full "tensors") "kind") s.tensors where
  parsed := h.parsed
  returned := rfl
  payloads := by
    rw [(tiles_run h.loop).payloads, h.whole, List.take_length]
  count := by
    rw [(tiles_run h.loop).count]
    exact h.count
  small := (tiles_run h.loop).small
  dataSmall := h.dataSmall
  checksum := by
    rw [lookup_without_of_ne (by decide), lookup_without_of_ne (by decide), h.checksum]
  named t ht := by
    have ht := tiles_run h.loop
    intro he
    apply ht.named
    rw [← ht.ids, ← he]
    exact List.mem_map_of_mem ‹_›
  distinct := by
    rw [(tiles_run h.loop).ids]
    exact (tiles_run h.loop).distinct
  kind := h.kind
  version := by
    rw [lookup_without_of_ne (by decide), lookup_without_of_ne (by decide), h.version]
  compression := by
    rw [lookup_without_of_ne (by decide), lookup_without_of_ne (by decide), h.compression]

/-! ### More turns do not change a result -/

theorem run_mono {z : Decoder} {maxBytes fuel fuel' : ℕ} {d : Drain z.State} {r : Except PyError Bytes}
    (hle : fuel ≤ fuel') (h : d.run z maxBytes fuel = some r) : d.run z maxBytes fuel' = some r := by
  induction fuel generalizing d fuel' with
  | zero => cases h
  | succ fuel ih =>
    obtain ⟨n, rfl⟩ := Nat.exists_eq_add_of_le' hle
    rw [Drain.run] at h
    rw [← Nat.add_assoc, Drain.run]
    cases hc : d.call z maxBytes with
    | error e => simpa [hc] using h
    | ok d' =>
      cases hv : d'.verdict z maxBytes with
      | some r' => simpa [hc, hv] using h
      | none =>
        simp only [hc, hv] at h ⊢
        exact ih (Nat.le_add_left fuel n) h

theorem bodyOf_mono {fuel fuel' : ℕ} {flag : UInt8} {b : Bytes} {r : Except PyError Bytes} (hle : fuel ≤ fuel')
    (h : bodyOf L fuel limits flag b = some r) : bodyOf L fuel' limits flag b = some r := by
  unfold bodyOf at h ⊢
  split_ifs at h ⊢
  · exact run_mono hle h
  · exact h
  · exact h

theorem unpack_mono {fuel fuel' : ℕ} {p : Bytes}
    {r : Except PyError (List (String × Json) × List TensorEnvelope)} (hle : fuel ≤ fuel')
    (h : unpack L fuel p kind limits = some r) : unpack L fuel' p kind limits = some r := by
  unfold unpack at h ⊢
  split_ifs at h ⊢
  · exact h
  · exact h
  · rw [Option.map_eq_some_iff] at h ⊢
    obtain ⟨body, hbody, hr⟩ := h
    exact ⟨body, bodyOf_mono hle hbody, hr⟩

/-! ### A payload with one tensor -/

def sampleHeader : List (String × Json) :=
  [("checksum", .str "a12871fee210fb8619291eaea194581cbd2531e4b23759d225f6806923f63222"),
    ("compression", .str "lz4"), ("kind", .str "gradients"), ("protocol_version", .str PROTOCOL_VERSION),
    ("tensors", .arr [.obj [("dtype", .str "uint8"), ("nbytes", .int 2), ("shape", .arr [.int 2]),
      ("tensor_id", .str "0")]])]

def sampleText : String :=
  "\x7b\"checksum\":\"a12871fee210fb8619291eaea194581cbd2531e4b23759d225f6806923f63222\"," ++
    "\"compression\":\"lz4\",\"kind\":\"gradients\",\"protocol_version\":\"splitfleet-wire.v1\"," ++
    "\"tensors\":[\x7b\"dtype\":\"uint8\",\"nbytes\":2,\"shape\":[2],\"tensor_id\":\"0\"\x7d]\x7d"

def sampleTensor : TensorEnvelope :=
  { tensorId := .str "0", shape := [.int 2], dtype := .str "uint8", payload := [1, 2] }

def sampleBody : Bytes := be32 (utf8 sampleText).length ++ utf8 sampleText ++ [1, 2]

def samplePayload : Bytes := magic ++ lz4Flag :: Stored.compress sampleBody

/-- The modules on what the decoder asks of them for this payload. -/
def sampleLibrary : Library where
  dumps _ := sampleText
  loads s := if s = sampleText then .ok (.obj sampleHeader)
    else .error (.valueError "Expecting value: line 1 column 1 (char 0)")
  sha256 b := if b = [1, 2] then "a12871fee210fb8619291eaea194581cbd2531e4b23759d225f6806923f63222" else ""
  repr _ := ""
  intOfText s := .error (.valueError ("invalid literal for int() with base 10: " ++ pyRepr s))
  compress := Stored.compress
  lz4 := Stored.decoder

theorem sampleText_length : (utf8 sampleText).length = 227 := by
  decide +kernel

theorem sampleText_loads : sampleLibrary.loads sampleText = .ok (.obj sampleHeader) := by
  simp [sampleLibrary]

theorem sampleBody_length : sampleBody.length = 233 := by
  rw [sampleBody, List.length_append, List.length_append, be32_length, sampleText_length]
  rfl

theorem sampleBody_read : BodyRead sampleLibrary DEFAULT_LIMITS "gradients" lz4Flag sampleBody sampleHeader
    [.obj [("dtype", .str "uint8"), ("nbytes", .int 2), ("shape", .arr [.int 2]), ("tensor_id", .str "0")]]
    ⟨2, ["0"], [sampleTensor]⟩ := by
  obtain ⟨hsize, hbytes, hdata⟩ : headerSize sampleBody = (utf8 sampleText).length ∧
      headerBytes sampleBody = utf8 sampleText ∧ dataSection sampleBody = [1, 2] :=
    parts_of_body [1, 2] (by rw [sampleText_length]; decide)
  rw [sampleText_length] at hsize
  refine ⟨by rw [sampleBody_length]; decide, by rw [sampleBody_length]; decide, by rw [hsize]; decide,
    by rw [hsize, sampleBody_length]; decide, ⟨sampleText, hbytes ▸ utf8Decode_utf8 _, sampleText_loads⟩, rfl, rfl,
    rfl, by rw [hdata]; decide, by rw [hdata]; rfl, rfl, by decide, ?_, by rw [hdata]; rfl⟩
  rw [hdata]
  rfl

theorem samplePayload_drop (extra : Bytes) :
    (samplePayload ++ extra).drop 5 = Stored.compress sampleBody ++ extra := rfl

/-- The payload is accepted, whatever follows it on the wire. -/
theorem samplePayload_accepted {extra : Bytes} (h : extra.length ≤ 1024) :
    unpack sampleLibrary 1 (samplePayload ++ extra) "gradients" DEFAULT_LIMITS =
      some (.ok (without (without sampleHeader "tensors") "kind", [sampleTensor])) := by
  have hflag : (samplePayload ++ extra).getD 4 0 = lz4Flag := rfl
  have hlen : (samplePayload ++ extra).length = 1181 + extra.length := by
    rw [samplePayload, List.length_append, List.length_append, List.length_cons, Stored.compress_length,
      sampleBody_length]
    rfl
  refine unpack_eq_ok_iff.mpr ⟨⟨?_, ?_, rfl⟩, sampleBody, ?_, ?_⟩
  · have : DEFAULT_LIMITS.maxWireBytes = 268435456 := rfl
    omega
  · omega
  · have hbody : sampleBody.length ≤ DEFAULT_LIMITS.bodyBytes := by
      rw [sampleBody_length]
      decide
    have hcall : Drain.call Stored.decoder DEFAULT_LIMITS.bodyBytes
        (Drain.start Stored.decoder (Stored.compress sampleBody ++ extra)) =
          .ok ⟨Stored.Reader.ended, [], [sampleBody], sampleBody.length⟩ := by
      have := Stored.decompress_compress extra (Nat.le_succ_of_le hbody)
      simp only [Drain.call, Drain.start, Nat.sub_zero, this, List.nil_append, Nat.zero_add]
    rw [hflag, samplePayload_drop, bodyOf, if_pos rfl]
    have hfits : ¬ DEFAULT_LIMITS.bodyBytes < sampleBody.length := Nat.not_lt.mpr hbody
    simp only [decompressLz4Bounded, sampleLibrary, Drain.run, hcall, Drain.verdict, if_neg hfits]
    simp [Stored.decoder]
  · rw [hflag]
    exact readBody_of sampleBody_read

/-! ### Soundness -/

theorem unpack_sound (L : Library) (hz : L.lz4.Bounded) (limits : EnvelopeLimits) (expectedKind : String)
    (p : Bytes) :
    (∀ fuel header tensors, unpack L fuel p expectedKind limits = some (.ok (header, tensors)) →
      ∃ body full, Carries L limits p body ∧ Sound L limits expectedKind (p.getD 4 0) body full header tensors) ∧
    ∀ d, Held L.lz4 limits.bodyBytes (p.drop 5) d →
      buffered d ≤ limits.maxHeaderBytes + limits.maxPayloadBytes + 5 := by
  constructor
  · intro fuel header tensors h
    obtain ⟨-, body, hbody, hread⟩ := unpack_eq_ok_iff.mp h
    obtain ⟨full, items, s, hs, he⟩ := readBody_eq_ok hread
    obtain ⟨rfl, rfl⟩ := Prod.mk.inj he
    exact ⟨body, full, carries_of_bodyOf hbody, sound_of_bodyRead hs⟩
  · intro d hd
    have := hd.buffered_le hz
    rw [EnvelopeLimits.bodyBytes] at this
    omega

theorem unpack_sound_sample :
    (∃ body full, Carries sampleLibrary DEFAULT_LIMITS samplePayload body ∧
      Sound sampleLibrary DEFAULT_LIMITS "gradients" lz4Flag body full
        (without (without sampleHeader "tensors") "kind") [sampleTensor]) ∧
    ∀ d, Held Stored.decoder DEFAULT_LIMITS.bodyBytes (samplePayload.drop 5) d →
      buffered d ≤ DEFAULT_LIMITS.maxHeaderBytes + DEFAULT_LIMITS.maxPayloadBytes + 5 := by
  obtain ⟨haccepted, hheld⟩ :=
    unpack_sound sampleLibrary Stored.bounded DEFAULT_LIMITS "gradients" samplePayload
  refine ⟨haccepted 1 _ _ ?_, hheld⟩
  have := @samplePayload_accepted [] (Nat.zero_le _)
  rwa [List.append_nil] at this

end SplitFleet.EnvelopeSoundness
