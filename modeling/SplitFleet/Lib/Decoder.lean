import SplitFleet.Lib.Bytes

set_option autoImplicit false

namespace SplitFleet.Lib

/-- An incremental decompressor: its states, and what one call with a source and a bound on the
returned bytes gives. -/
structure Decoder where
  State : Type
  start : State
  decompress : State → Bytes → ℕ → Except PyError (Bytes × State)
  eof : State → Bool
  needsInput : State → Bool

namespace Decoder

/-- A call returns at most as many bytes as it is asked for. -/
def Bounded (z : Decoder) : Prop :=
  ∀ s source n chunk t, z.decompress s source n = .ok (chunk, t) → chunk.length ≤ n

/-- What a call returned is the first part of `b`, and further calls without a source, each asking
for more than there is, return the others up to the end of the frame. -/
inductive Delivers (z : Decoder) : Except PyError (Bytes × z.State) → Bytes → Prop
  | ended {chunk : Bytes} {s : z.State} (h : z.eof s = true) : z.Delivers (.ok (chunk, s)) chunk
  | more {chunk rest : Bytes} {s : z.State} (he : z.eof s = false) (hn : z.needsInput s = false)
      (h : ∀ n, rest.length < n → z.Delivers (z.decompress s [] n) rest) :
      z.Delivers (.ok (chunk, s)) (chunk ++ rest)

/-- Decompression undoes compression. -/
def Undoes (z : Decoder) (compress : Bytes → Bytes) : Prop :=
  ∀ b n, b.length < n → z.Delivers (z.decompress z.start (compress b) n) b

/-- The chunks of a call with a source and of calls without one, a call for each bound, where the
last call reaches the end of the frame and no other one does or asks for more input. -/
def frame (z : Decoder) : z.State → Bytes → List ℕ → Option (List Bytes)
  | _, _, [] => none
  | s, source, n :: ns =>
    match z.decompress s source n with
    | .error _ => none
    | .ok (chunk, t) =>
      if z.eof t then (if ns = [] then some [chunk] else none)
      else if z.needsInput t then none
      else (z.frame t [] ns).map (chunk :: ·)

/-- The decoder stops at the end of the first frame, whatever follows it. -/
def StopsAtEnd (z : Decoder) : Prop :=
  ∀ source extra ns chunks, z.frame z.start source ns = some chunks →
    z.frame z.start (source ++ extra) ns = some chunks

end Decoder

/-! ### LZ4 frames of stored blocks

A frame of the LZ4 frame format without checksums or a content size, whose blocks hold one
uncompressed byte each. -/

namespace Stored

def head : Bytes := [0x04, 0x22, 0x4d, 0x18, 0x60, 0x40, 0x82]

def blocks : Bytes → Bytes
  | [] => [0, 0, 0, 0]
  | x :: b => 1 :: 0 :: 0 :: 0x80 :: x :: blocks b

def compress (b : Bytes) : Bytes := head ++ blocks b

/-- The content of the blocks up to the end mark, and what follows it. -/
def readBlocks : Bytes → Option (Bytes × Bytes)
  | 0 :: 0 :: 0 :: 0 :: rest => some ([], rest)
  | 1 :: 0 :: 0 :: 0x80 :: x :: rest => (readBlocks rest).map fun p ↦ (x :: p.1, p.2)
  | _ => none

def readFrame (source : Bytes) : Option (Bytes × Bytes) :=
  if source.take 7 = head then readBlocks (source.drop 7) else none

inductive Reader
  | fresh
  | pending (content : Bytes)
  | ended

/-- The first `n` bytes of the content. -/
def deliver (content : Bytes) (n : ℕ) : Bytes × Reader :=
  (content.take n, if content.length ≤ n then .ended else .pending (content.drop n))

def decoder : Decoder where
  State := Reader
  start := .fresh
  decompress s source n := match s with
    | .fresh => match readFrame source with
      | some (content, _) => .ok (deliver content n)
      | none => .error (.runtimeError "LZ4F_decompress failed")
    | .pending content => .ok (deliver content n)
    | .ended => .error (.raised "EOFError" "End of stream has already been reached")
  eof s := match s with
    | .ended => true
    | _ => false
  needsInput _ := false

theorem readBlocks_blocks (b rest : Bytes) : readBlocks (blocks b ++ rest) = some (b, rest) := by
  induction b with
  | nil => rfl
  | cons x b ih => simp [blocks, readBlocks, ih]

theorem readFrame_compress (b rest : Bytes) : readFrame (compress b ++ rest) = some (b, rest) := by
  have htake : (compress b ++ rest).take 7 = head := rfl
  have hdrop : (compress b ++ rest).drop 7 = blocks b ++ rest := rfl
  rw [readFrame, if_pos htake, hdrop, readBlocks_blocks]

theorem readBlocks_append {source content rest : Bytes} (extra : Bytes)
    (h : readBlocks source = some (content, rest)) :
    readBlocks (source ++ extra) = some (content, rest ++ extra) := by
  induction source using readBlocks.induct generalizing content with
  | case1 tail =>
    cases h
    rfl
  | case2 x tail ih =>
    rw [readBlocks, Option.map_eq_some_iff] at h
    obtain ⟨⟨c, r⟩, hr, hc⟩ := h
    cases hc
    have := ih hr
    simp [readBlocks, this]
  | case3 source h₀ h₁ =>
    rw [readBlocks] at h
    · cases h
    · exact h₀
    · exact h₁

theorem readFrame_append {source content rest : Bytes} (extra : Bytes)
    (h : readFrame source = some (content, rest)) :
    readFrame (source ++ extra) = some (content, rest ++ extra) := by
  unfold readFrame at h ⊢
  split_ifs at h with hh
  have hlen : 7 ≤ source.length := by
    have := congrArg List.length hh
    rw [List.length_take] at this
    simp only [head, List.length_cons, List.length_nil] at this
    omega
  rw [List.take_append_of_le_length hlen, if_pos hh, List.drop_append_of_le_length hlen]
  exact readBlocks_append extra h

theorem deliver_fst_length (content : Bytes) (n : ℕ) : (deliver content n).1.length ≤ n :=
  List.length_take_le n content

theorem bounded : decoder.Bounded := by
  intro s source n chunk t h
  cases s with
  | fresh =>
    cases hr : readFrame source with
    | none => simp [decoder, hr] at h
    | some p =>
      have hd : deliver p.1 n = (chunk, t) := by simpa [decoder, hr] using h
      simpa [hd] using deliver_fst_length p.1 n
  | pending content =>
    have hd : deliver content n = (chunk, t) := by simpa [decoder] using h
    simpa [hd] using deliver_fst_length content n
  | ended => cases h

/-- One call is enough where it asks for the whole content. -/
theorem decompress_compress {b : Bytes} {n : ℕ} (rest : Bytes) (h : b.length ≤ n) :
    decoder.decompress decoder.start (compress b ++ rest) n = .ok (b, Reader.ended) := by
  have hr := readFrame_compress b rest
  simp [decoder, hr, deliver, h, List.take_of_length_le]

theorem undoes : decoder.Undoes compress := by
  intro b n hn
  have := decompress_compress [] (Nat.le_of_lt hn)
  rw [List.append_nil] at this
  rw [this]
  exact .ended rfl

theorem stopsAtEnd : decoder.StopsAtEnd := by
  intro source extra ns chunks h
  cases ns with
  | nil => cases h
  | cons n ns =>
    cases hr : readFrame source with
    | none => simp [Decoder.frame, decoder, hr] at h
    | some p =>
      have he := readFrame_append extra hr
      simp only [Decoder.frame, decoder, hr] at h
      simp only [Decoder.frame, decoder, he]
      exact h

theorem blocks_length (b : Bytes) : (blocks b).length = 5 * b.length + 4 := by
  induction b with
  | nil => rfl
  | cons x b ih =>
    simp only [blocks, List.length_cons, ih]
    omega

theorem compress_length (b : Bytes) : (compress b).length = 5 * b.length + 11 := by
  rw [compress, List.length_append, blocks_length]
  simp only [head, List.length_cons, List.length_nil]
  omega

end Stored

end SplitFleet.Lib
