import SplitFleet.EnvelopeSoundness

set_option autoImplicit false

namespace SplitFleet.EnvelopeTail

open Lib Envelope EnvelopeSoundness

variable {L : Library} {limits : EnvelopeLimits} {kind : String}

def Accepts (L : Library) (limits : EnvelopeLimits) (kind : String) (p : Bytes) : Prop :=
  ∃ fuel r, unpack L fuel p kind limits = some (.ok r)

/-- `_unpack` raises. -/
def Rejects (L : Library) (limits : EnvelopeLimits) (kind : String) (p : Bytes) : Prop :=
  ∃ fuel e, unpack L fuel p kind limits = some (.error e)

theorem not_rejects_of_accepts {p : Bytes} (h : Accepts L limits kind p) : ¬ Rejects L limits kind p := by
  rintro ⟨fuel', e, he⟩
  obtain ⟨fuel, r, hr⟩ := h
  have hr := unpack_mono (Nat.le_max_left fuel fuel') hr
  rw [unpack_mono (Nat.le_max_right fuel fuel') he] at hr
  cases hr

/-! ### A tail of the data section -/

theorem readTensor_append {data : Bytes} (extra : Bytes) (s : Cursor) (item : Json) (s' : Cursor)
    (h : readTensor L limits data s item = .ok s') : readTensor L limits (data ++ extra) s item = .ok s' := by
  obtain ⟨fields, size, t, hr, rfl⟩ := readTensor_eq_ok h
  have hslice : ((data ++ extra).drop s.offset).take size = (data.drop s.offset).take size := by
    have := hr.inside
    rw [List.drop_append_of_le_length (by omega), List.take_append_of_le_length]
    rw [List.length_drop]
    omega
  apply readTensor_of
  refine ⟨hr.dict, hr.nbytes, hr.small, ?_, hr.named, hr.fresh, ?_⟩
  · have := hr.inside
    rw [List.length_append]
    omega
  · rw [hslice]
    exact hr.made

/-- The tail of a body belongs to its data section. -/
theorem parts_append {body : Bytes} (tail : Bytes) (hfour : 4 ≤ body.length)
    (hinside : headerSize body ≤ body.length - 4) :
    headerBytes (body ++ tail) = headerBytes body ∧ dataSection (body ++ tail) = dataSection body ++ tail := by
  have hsize : headerSize (body ++ tail) = headerSize body := by
    rw [headerSize, headerSize, List.take_append_of_le_length hfour]
  constructor
  · rw [headerBytes, headerBytes, hsize, List.drop_append_of_le_length hfour, List.take_append_of_le_length]
    rwa [List.length_drop]
  · rw [dataSection, dataSection, hsize, List.drop_append_of_le_length]
    omega

/-- No body with a tail is read: the loop ends where it did without it. -/
theorem not_read_append {flag : UInt8} {body tail : Bytes} {header header' : List (String × Json)}
    {items items' : List Json} {s s' : Cursor} (htail : tail ≠ [])
    (h : BodyRead L limits kind flag body header items s)
    (h' : BodyRead L limits kind flag (body ++ tail) header' items' s') : False := by
  obtain ⟨hheader, hdata⟩ := parts_append tail h.lengthField h.headerInside
  have hsame : header' = header := by
    obtain ⟨text, htext, hloads⟩ := h.parsed
    obtain ⟨text', htext', hloads'⟩ := h'.parsed
    rw [hheader, htext] at htext'
    cases htext'
    rw [hloads] at hloads'
    cases hloads'
    rfl
  have hitems : items' = items := by
    have := h'.tensors
    rw [hsame, h.tensors] at this
    cases this
    rfl
  have hs : s' = s := by
    have := h'.loop
    rw [hitems, hdata, foldlM_same (readTensor_append tail) h.loop] at this
    cases this
    rfl
  have hlen := h'.whole
  rw [hs, h.whole, hdata, List.length_append] at hlen
  have := List.length_pos_of_ne_nil htail
  omega

/-! ### A tail of a compressed body -/

/-- A result of the loop is due to the chunks of one frame, and any decoder that gives these chunks
gives this result. -/
theorem frame_of_run {z : Decoder} {maxBytes fuel : ℕ} {d : Drain z.State} {b : Bytes}
    (h : d.run z maxBytes fuel = some (.ok b)) :
    ∃ ns chunks, z.frame d.decoder d.source ns = some chunks ∧
      ∀ t source, z.frame t source ns = some chunks →
        Drain.run z maxBytes fuel ⟨t, source, d.chunks, d.total⟩ = some (.ok b) := by
  induction fuel generalizing d with
  | zero => cases h
  | succ fuel ih =>
    rw [Drain.run] at h
    cases hr : z.decompress d.decoder d.source (maxBytes - d.total + 1) with
    | error e => simp [Drain.call, hr] at h
    | ok r =>
      obtain ⟨chunk, u⟩ := r
      simp only [Drain.call, hr, Drain.verdict] at h
      by_cases htotal : maxBytes < d.total + chunk.length
      · simp [htotal] at h
      cases heof : z.eof u with
      | true =>
        -- The last call.
        refine ⟨[maxBytes - d.total + 1], [chunk], by simp [Decoder.frame, hr, heof], ?_⟩
        intro t source hframe
        cases hr' : z.decompress t source (maxBytes - d.total + 1) with
        | error e => simp [Decoder.frame, hr'] at hframe
        | ok r' =>
          obtain ⟨chunk', u'⟩ := r'
          cases heof' : z.eof u' with
          | true =>
            have hchunk : chunk' = chunk := by simpa [Decoder.frame, hr', heof'] using hframe
            simpa [Drain.run, Drain.call, Drain.verdict, hr', heof', hchunk, htotal, heof] using h
          | false => simp [Decoder.frame, hr', heof'] at hframe
      | false =>
        cases hneeds : z.needsInput u with
        | true => simp [htotal, heof, hneeds] at h
        | false =>
          simp only [htotal, heof, hneeds, if_false, Bool.false_eq_true] at h
          obtain ⟨ns, chunks, hframe, hrest⟩ := ih h
          have hns : ns ≠ [] := by
            intro hn
            rw [hn] at hframe
            cases hframe
          refine ⟨(maxBytes - d.total + 1) :: ns, chunk :: chunks, ?_, ?_⟩
          · simp only [Decoder.frame, hr, heof, hneeds, if_false, Bool.false_eq_true]
            rw [hframe, Option.map_some]
          · intro t source hframe'
            cases hr' : z.decompress t source (maxBytes - d.total + 1) with
            | error e => simp [Decoder.frame, hr'] at hframe'
            | ok r' =>
              obtain ⟨chunk', u'⟩ := r'
              cases heof' : z.eof u' with
              | true => simp [Decoder.frame, hr', heof', hns] at hframe'
              | false =>
                cases hneeds' : z.needsInput u' with
                | true => simp [Decoder.frame, hr', heof', hneeds'] at hframe'
                | false =>
                  simp only [Decoder.frame, hr', heof', hneeds', if_false, Bool.false_eq_true,
                    Option.map_eq_some_iff] at hframe'
                  obtain ⟨chunks', hu', hcons⟩ := hframe'
                  obtain ⟨rfl, rfl⟩ := List.cons.inj hcons
                  have := hrest u' [] hu'
                  simpa [Drain.run, Drain.call, Drain.verdict, hr', htotal, heof', hneeds'] using this

theorem decompress_append {z : Decoder} {fuel maxBytes : ℕ} {source b : Bytes} (hz : z.StopsAtEnd)
    (extra : Bytes) (h : decompressLz4Bounded z fuel source maxBytes = some (.ok b)) :
    decompressLz4Bounded z fuel (source ++ extra) maxBytes = some (.ok b) := by
  obtain ⟨ns, chunks, hframe, hrun⟩ := frame_of_run h
  exact hrun z.start (source ++ extra) (hz source extra ns chunks hframe)

/-! ### Extended payloads -/

theorem flag_append {p : Bytes} (tail : Bytes) (h : 9 ≤ p.length) :
    (p ++ tail).getD 4 0 = p.getD 4 0 ∧ (p ++ tail).drop 5 = p.drop 5 ++ tail := by
  constructor
  · rw [List.getD_eq_getElem?_getD, List.getD_eq_getElem?_getD, List.getElem?_append_left]
    omega
  · rw [List.drop_append_of_le_length]
    omega

theorem framed_append {p tail : Bytes} (h : Framed limits p) (hw : (p ++ tail).length ≤ limits.maxWireBytes) :
    Framed limits (p ++ tail) where
  wire := hw
  long := by
    have := h.long
    rw [List.length_append]
    omega
  magic := by
    have := h.long
    rw [List.take_append_of_le_length (by omega), h.magic]

theorem rejects_of_uncompressed {p tail : Bytes} (hp : Accepts L limits kind p) (htail : tail ≠ [])
    (hw : (p ++ tail).length ≤ limits.maxWireBytes) (hflag : p.getD 4 0 = noneFlag) :
    Rejects L limits kind (p ++ tail) := by
  obtain ⟨fuel, r, h⟩ := hp
  obtain ⟨hf, body, hbody, hread⟩ := unpack_eq_ok_iff.mp h
  obtain ⟨header, items, s, hr, -⟩ := readBody_eq_ok hread
  obtain ⟨hflag', hdrop⟩ := flag_append tail hf.long
  have hplain : ∀ b, bodyOf L fuel limits noneFlag b = some (.ok b) := fun _ ↦ rfl
  rw [hflag, hplain] at hbody
  cases hbody
  refine ⟨fuel, ?_⟩
  cases hres : unpack L fuel (p ++ tail) kind limits with
  | none =>
    have hframed := framed_append hf hw
    rw [unpack, if_neg (Nat.not_lt.mpr hframed.wire), if_neg] at hres
    · dsimp only at hres
      rw [hflag', hflag, hplain] at hres
      cases hres
    · rw [not_or, not_not]
      exact ⟨Nat.not_lt.mpr hframed.long, hframed.magic⟩
  | some res =>
    cases res with
    | error e => exact ⟨e, rfl⟩
    | ok r' =>
      obtain ⟨-, body', hbody', hread'⟩ := unpack_eq_ok_iff.mp hres
      rw [hflag', hflag, hplain, hdrop] at hbody'
      cases hbody'
      obtain ⟨header', items', s', hr', -⟩ := readBody_eq_ok hread'
      rw [hflag', hflag] at hr'
      rw [hflag] at hr
      exact (not_read_append htail hr hr').elim

theorem accepts_of_compressed {p : Bytes} (hz : L.lz4.StopsAtEnd) (hp : Accepts L limits kind p) (tail : Bytes)
    (hw : (p ++ tail).length ≤ limits.maxWireBytes) (hflag : p.getD 4 0 = lz4Flag) :
    Accepts L limits kind (p ++ tail) := by
  obtain ⟨fuel, r, h⟩ := hp
  obtain ⟨hf, body, hbody, hread⟩ := unpack_eq_ok_iff.mp h
  obtain ⟨hflag', hdrop⟩ := flag_append tail hf.long
  refine ⟨fuel, r, unpack_eq_ok_iff.mpr ⟨framed_append hf hw, body, ?_, hflag' ▸ hread⟩⟩
  rw [hflag] at hbody
  rw [hflag', hflag, hdrop]
  exact decompress_append hz tail hbody

theorem flag_cases {p : Bytes} (hp : Accepts L limits kind p) : p.getD 4 0 = noneFlag ∨ p.getD 4 0 = lz4Flag := by
  obtain ⟨fuel, r, h⟩ := hp
  obtain ⟨-, body, hbody, -⟩ := unpack_eq_ok_iff.mp h
  rcases carries_of_bodyOf hbody with hc | hc
  · exact .inl hc.1
  · exact .inr hc.1

/-- An accepted payload with a tail is rejected exactly where it is not compressed. -/
theorem extension_rejected_iff (L : Library) (hz : L.lz4.StopsAtEnd) (limits : EnvelopeLimits) (kind : String)
    (p tail : Bytes) (hp : Accepts L limits kind p) (htail : tail ≠ [])
    (hw : (p ++ tail).length ≤ limits.maxWireBytes) :
    Rejects L limits kind (p ++ tail) ↔ p.getD 4 0 = noneFlag := by
  constructor
  · intro hr
    rcases flag_cases hp with hflag | hflag
    · exact hflag
    · exact absurd hr (not_rejects_of_accepts (accepts_of_compressed hz hp tail hw hflag))
  · exact rejects_of_uncompressed hp htail hw

theorem samplePayload_tail {extra : Bytes} (h : extra.length ≤ 1024) :
    Accepts sampleLibrary DEFAULT_LIMITS "gradients" (samplePayload ++ extra) :=
  ⟨1, _, samplePayload_accepted h⟩

theorem samplePayload_accepts : Accepts sampleLibrary DEFAULT_LIMITS "gradients" samplePayload := by
  have := @samplePayload_tail [] (Nat.zero_le _)
  rwa [List.append_nil] at this

theorem samplePayload_wire : (samplePayload ++ [0x78]).length ≤ DEFAULT_LIMITS.maxWireBytes := by
  obtain ⟨fuel, r, h⟩ := @samplePayload_tail [0x78] (by decide)
  exact (unpack_eq_ok_iff.mp h).1.wire

theorem extension_rejected_iff_sample :
    Rejects sampleLibrary DEFAULT_LIMITS "gradients" (samplePayload ++ [0x78]) ↔
      samplePayload.getD 4 0 = noneFlag :=
  extension_rejected_iff sampleLibrary Stored.stopsAtEnd DEFAULT_LIMITS "gradients" samplePayload [0x78]
    samplePayload_accepts (List.cons_ne_nil _ _) samplePayload_wire

/-- A byte after the end of a compressed payload is not noticed. -/
theorem compressed_tail_accepted :
    sampleLibrary.lz4.StopsAtEnd ∧
    ¬ ∀ p tail, Accepts sampleLibrary DEFAULT_LIMITS "gradients" p → tail ≠ [] →
      (p ++ tail).length ≤ DEFAULT_LIMITS.maxWireBytes →
      Rejects sampleLibrary DEFAULT_LIMITS "gradients" (p ++ tail) := by
  refine ⟨Stored.stopsAtEnd, fun h ↦ ?_⟩
  have hr := h samplePayload [0x78] samplePayload_accepts (List.cons_ne_nil _ _) samplePayload_wire
  exact not_rejects_of_accepts (@samplePayload_tail [0x78] (by decide)) hr

end SplitFleet.EnvelopeTail
