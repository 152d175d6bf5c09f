import SplitFleet.Lib.Python

set_option autoImplicit false

namespace SplitFleet.StreamProxy

open Lib

abbrev Cid := String

inductive ControlCode
  | ok
  | doCloseStream
  | streamClosedOk
  | errorProcessingStream
  | initStream
  deriving DecidableEq

/-- The `BatchData` that client code and the server model exchange; `τ` is the type of its values. -/
structure BatchData (τ : Type) where
  data : Dict String τ
  controlCode : ControlCode
  metadata : Dict String String

/-- The `BatchData` of the wire. `to_grpc_format` and `from_grpc_format` keep the values. -/
structure Message (τ : Type) where
  method : String
  data : Dict String τ
  controlCode : ControlCode
  cid : Cid
  metadata : Dict String String

variable {τ : Type}

namespace Message

/-- A message with only a control code set. -/
def control (code : ControlCode) (cid : Cid) : Message τ := ⟨"", .empty, code, cid, .empty⟩

def request (method : String) (batch : BatchData τ) : Message τ :=
  ⟨method, batch.data, batch.controlCode, "", batch.metadata⟩

/-- `_to_grpc`. -/
def response (batch : BatchData τ) : Message τ := ⟨"", batch.data, batch.controlCode, "", batch.metadata⟩

def batch (m : Message τ) : BatchData τ := ⟨m.data, m.controlCode, m.metadata⟩

end Message

/-! ### The two ends of the stream -/

/-- What a message of the response stream is. -/
inductive Origin
  | answer (request : ℕ)
  | closed
  deriving DecidableEq

/-- `_compute_response` of a client's `i`-th request on the stream. -/
abbrev Compute (τ : Type) := Cid → ℕ → String → BatchData τ → BatchData τ

/-- The loop of `StreamRequest` on what is left of the requests, the next being the `i`-th. -/
def serve (compute : Compute τ) (cid : Cid) (i : ℕ) : List (Message τ) → List (Origin × Message τ)
  | [] => []
  | req :: requests =>
    if req.controlCode = .doCloseStream then [(.closed, .control .streamClosedOk "")]
    else (.answer i, .response (compute cid i req.method req.batch)) ::
      serve compute cid (i + 1) requests

/-- `StreamRequest`: what it has yielded when it waits for the next message. -/
def streamRequest (compute : Compute τ) : List (Message τ) → List (Origin × Message τ)
  | [] => []
  | req :: requests => if req.controlCode = .initStream then serve compute req.cid 0 requests else []

/-- A `GrpcServerModelProxy`: the messages put in its request queue, and how many responses `next`
has taken. -/
structure Proxy (τ : Type) where
  cid : Cid
  requestQueue : Option (List (Message τ))
  pulled : ℕ

namespace Proxy

def initializeStream (p : Proxy τ) : Proxy τ :=
  { p with requestQueue := some [.control .initStream p.cid] }

def put (p : Proxy τ) (m : Message τ) : Proxy τ :=
  { p with requestQueue := p.requestQueue.map (· ++ [m]) }

/-- What the three kinds of requests share. -/
def send (p : Proxy τ) (method : String) (batch : BatchData τ) : Proxy τ :=
  match p.requestQueue with
  | none => p.initializeStream.put (.request method batch)
  | some _ => p.put (.request method batch)

/-- The stream keeps the order and loses nothing. -/
def responseStream (compute : Compute τ) (p : Proxy τ) : List (Origin × Message τ) :=
  streamRequest compute (p.requestQueue.getD [])

/-- `next(self.response_stream)`; no answer models a call that never returns, or `StopIteration`. -/
def next (compute : Compute τ) (p : Proxy τ) : Proxy τ × Option (Origin × Message τ) :=
  match (p.responseStream compute)[p.pulled]? with
  | some m => ({ p with pulled := p.pulled + 1 }, some m)
  | none => (p, none)

def blockingRequest (compute : Compute τ) (p : Proxy τ) (method : String) (batch : BatchData τ) :
    Proxy τ × Option (Origin × Message τ) :=
  (p.send method batch).next compute

def streamingRequest (p : Proxy τ) (method : String) (batch : BatchData τ) : Proxy τ :=
  p.send method batch

/-- The future that is returned is `getFutureResponse`, whichever request it belongs to. -/
def nonblockingRequest (p : Proxy τ) (method : String) (batch : BatchData τ) : Proxy τ :=
  p.send method batch

def getFutureResponse (compute : Compute τ) (p : Proxy τ) : Proxy τ × Option (Origin × Message τ) :=
  p.next compute

def closeStream (compute : Compute τ) (p : Proxy τ) : Option (Proxy τ × Option (Origin × Message τ)) :=
  match p.requestQueue with
  | none => none
  | some _ => some ((p.put (.control .doCloseStream "")).next compute)

end Proxy

/-! ### Sessions of calls -/

/-- A call of the client. A future is named by the number of its request. -/
inductive Call (τ : Type)
  | blocking (method : String) (batch : BatchData τ)
  | streaming (method : String) (batch : BatchData τ)
  | future (method : String) (batch : BatchData τ)
  | getResponse (request : ℕ)
  | closeStream

def Call.request : Call τ → Option (String × BatchData τ)
  | blocking method batch | streaming method batch | future method batch => some (method, batch)
  | getResponse _ | closeStream => none

/-- A read of the response stream: the message it is meant for and the one it got. -/
structure Read (τ : Type) where
  target : Origin
  got : Option (Origin × Message τ)

/-- One call, when `sent` requests have been issued before it. -/
def step (compute : Compute τ) (p : Proxy τ) (sent : ℕ) : Call τ → Proxy τ × List (Read τ)
  | .blocking method batch =>
    let (p, got) := p.blockingRequest compute method batch
    (p, [⟨.answer sent, got⟩])
  | .streaming method batch => (p.streamingRequest method batch, [])
  | .future method batch => (p.nonblockingRequest method batch, [])
  | .getResponse i =>
    let (p, got) := p.getFutureResponse compute
    (p, [⟨.answer i, got⟩])
  | .closeStream =>
    match p.closeStream compute with
    | none => (p, [])
    | some (p, got) => (p, [⟨.closed, got⟩])

/-- The reads of a session. -/
def reads (compute : Compute τ) (p : Proxy τ) (sent : ℕ) : List (Call τ) → List (Read τ)
  | [] => []
  | c :: calls =>
    (step compute p sent c).2 ++
      reads compute (step compute p sent c).1 (sent + if c.request.isSome then 1 else 0) calls

def start (cid : Cid) : Proxy τ := ⟨cid, none, 0⟩

/-- The read got its own message: the response computed for that very request, or the last message. -/
def Read.Correct (compute : Compute τ) (cid : Cid) (requests : List (String × BatchData τ))
    (r : Read τ) : Prop :=
  match r.target with
  | .answer i => ∃ q, requests[i]? = some q ∧
      r.got = some (.answer i, .response (compute cid i q.1 q.2))
  | .closed => ∃ m, r.got = some (.closed, m) ∧ m.controlCode = .streamClosedOk

def Corresponds (compute : Compute τ) (cid : Cid) (calls : List (Call τ)) : Prop :=
  ∀ r ∈ reads compute (start cid) 0 calls, r.Correct compute cid (calls.filterMap Call.request)

/-- The reads come first in, first out: each is for the oldest request whose response has not been
read, with `sent` requests issued and the first `read` of them read so far. -/
def InOrder (sent read : ℕ) (closed : Bool) : List (Call τ) → Prop
  | [] => True
  | .blocking _ _ :: calls =>
    closed = false ∧ read = sent ∧ InOrder (sent + 1) (read + 1) closed calls
  | .streaming _ _ :: calls | .future _ _ :: calls => InOrder (sent + 1) read closed calls
  | .getResponse i :: calls =>
    closed = false ∧ i = read ∧ read < sent ∧ InOrder sent (read + 1) closed calls
  | .closeStream :: calls =>
    if sent = 0 then InOrder sent read closed calls
    else closed = false ∧ read = sent ∧ InOrder sent read true calls

/-! ### What the response stream holds -/

section Streams

variable (compute : Compute τ) (cid : Cid)

def messages (qs : List (String × BatchData τ)) : List (Message τ) := qs.map fun q ↦ .request q.1 q.2

def answers (i : ℕ) (qs : List (String × BatchData τ)) : List (Origin × Message τ) :=
  (qs.zipIdx i).map fun q ↦ (.answer q.2, .response (compute cid q.2 q.1.1 q.1.2))

/-- No request closes the stream by its own control code. -/
def Plain (qs : List (String × BatchData τ)) : Prop := ∀ q ∈ qs, q.2.controlCode ≠ .doCloseStream

theorem serve_messages {qs : List (String × BatchData τ)} (h : Plain qs) (rest : List (Message τ))
    (i : ℕ) : serve compute cid i (messages qs ++ rest) =
      answers compute cid i qs ++ serve compute cid (i + qs.length) rest := by
  induction qs generalizing i with
  | nil => rfl
  | cons q qs ih =>
    have hq : q.2.controlCode ≠ .doCloseStream := h q List.mem_cons_self
    have hqs := ih (fun q hq ↦ h q (List.mem_cons_of_mem _ hq)) (i + 1)
    have hlen : i + 1 + qs.length = i + (qs.length + 1) := by omega
    simp only [messages, answers, hlen] at hqs
    simp only [messages, answers, List.map_cons, List.cons_append, List.zipIdx_cons, List.length_cons,
      serve, Message.request, if_neg hq]
    exact congrArg _ hqs

theorem getElem?_answers (qs : List (String × BatchData τ)) (i : ℕ) :
    (answers compute cid 0 qs)[i]? =
      qs[i]?.map fun q ↦ (.answer i, .response (compute cid i q.1 q.2)) := by
  simp only [answers, List.getElem?_map, List.getElem?_zipIdx, Option.map_map, Nat.zero_add]
  rfl

end Streams

/-- A proxy that has sent these requests, has read as many responses and is not closed. -/
structure Open (cid : Cid) (p : Proxy τ) (qs : List (String × BatchData τ)) (read : ℕ) : Prop where
  cid_eq : p.cid = cid
  queue : p.requestQueue = if qs = [] then none else some (.control .initStream cid :: messages qs)
  pulled : p.pulled = read
  read_le : read ≤ qs.length
  plain : Plain qs

/-- A closed proxy, all of whose stream has been read. -/
structure Shut (cid : Cid) (p : Proxy τ) : Prop where
  queue : ∃ qs rest, Plain qs ∧ p.pulled = qs.length + 1 ∧ p.requestQueue =
    some (.control .initStream cid :: (messages qs ++ .control .doCloseStream "" :: rest))

variable (compute : Compute τ) {cid : Cid} {p : Proxy τ} {qs : List (String × BatchData τ)} {read : ℕ}

theorem Open.responseStream (h : Open cid p qs read) :
    p.responseStream compute = answers compute cid 0 qs := by
  rw [Proxy.responseStream, h.queue]
  split_ifs with hqs
  · subst hqs
    rfl
  · have hserve := serve_messages compute cid h.plain [] 0
    rw [List.append_nil] at hserve
    simpa [streamRequest, Message.control, serve] using hserve

theorem Open.send (h : Open cid p qs read) (method : String) {batch : BatchData τ}
    (hb : batch.controlCode ≠ .doCloseStream) :
    Open cid (p.send method batch) (qs ++ [(method, batch)]) read := by
  have hplain : Plain (qs ++ [(method, batch)]) := by
    intro q hq
    rcases List.mem_append.mp hq with hq | hq
    · exact h.plain q hq
    · rw [List.mem_singleton.mp hq]
      exact hb
  have hle : read ≤ (qs ++ [(method, batch)]).length := by
    rw [List.length_append]
    exact Nat.le_add_right_of_le h.read_le
  have hqueue := h.queue
  by_cases hqs : qs = []
  · subst hqs
    rw [if_pos rfl] at hqueue
    refine ⟨?_, ?_, ?_, hle, hplain⟩ <;>
      simp [Proxy.send, hqueue, Proxy.put, Proxy.initializeStream, h.cid_eq, h.pulled, messages]
  · rw [if_neg hqs] at hqueue
    refine ⟨?_, ?_, ?_, hle, hplain⟩ <;>
      simp [Proxy.send, hqueue, Proxy.put, h.cid_eq, h.pulled, messages]

theorem next_of_getElem? {m : Origin × Message τ}
    (h : (p.responseStream compute)[p.pulled]? = some m) :
    p.next compute = ({ p with pulled := p.pulled + 1 }, some m) := by
  simp only [Proxy.next, h]

/-- An open proxy reads the oldest response that it has not read. -/
theorem Open.next {q : String × BatchData τ} (h : Open cid p qs read) (hq : qs[read]? = some q) :
    (p.next compute).2 = some (.answer read, .response (compute cid read q.1 q.2)) ∧
      Open cid (p.next compute).1 qs (read + 1) := by
  have hget : (p.responseStream compute)[p.pulled]? =
      some (.answer read, .response (compute cid read q.1 q.2)) := by
    rw [h.responseStream compute, h.pulled, getElem?_answers, hq]
    rfl
  have hlt : read < qs.length := (List.getElem?_eq_some_iff.mp hq).1
  rw [next_of_getElem? compute hget]
  exact ⟨rfl, h.cid_eq, h.queue, congrArg (· + 1) h.pulled, hlt, h.plain⟩

theorem Open.next_none (h : Open cid p qs qs.length) : (p.next compute).2 = none := by
  have hget : (p.responseStream compute)[p.pulled]? = none := by
    rw [h.responseStream compute, h.pulled, getElem?_answers, List.getElem?_eq_none le_rfl]
    rfl
  simp only [Proxy.next, hget]

theorem Open.responseStream_close (h : Open cid p qs read) (hqs : qs ≠ []) :
    (p.put (.control .doCloseStream "")).responseStream compute =
      answers compute cid 0 qs ++ [(.closed, .control .streamClosedOk "")] := by
  have hserve := serve_messages compute cid h.plain [.control .doCloseStream ""] 0
  simpa [Proxy.responseStream, Proxy.put, h.queue, hqs, streamRequest, Message.control, serve]
    using hserve

theorem Shut.next (h : Shut cid p) : p.next compute = (p, none) := by
  obtain ⟨qs, rest, hplain, hpulled, hqueue⟩ := h.queue
  have hserve := serve_messages compute cid hplain (.control .doCloseStream "" :: rest) 0
  have hget : (p.responseStream compute)[p.pulled]? = none := by
    rw [List.getElem?_eq_none_iff, hpulled, Proxy.responseStream, hqueue]
    simp [streamRequest, Message.control, serve, answers] at hserve ⊢
    rw [hserve]
    simp
  simp only [Proxy.next, hget]

theorem Shut.put (h : Shut cid p) (m : Message τ) : Shut cid (p.put m) := by
  obtain ⟨qs, rest, hplain, hpulled, hqueue⟩ := h.queue
  exact ⟨qs, rest ++ [m], hplain, hpulled, by simp [Proxy.put, hqueue]⟩

theorem Shut.send (h : Shut cid p) (method : String) (batch : BatchData τ) :
    Shut cid (p.send method batch) := by
  obtain ⟨qs, rest, -, -, hqueue⟩ := h.queue
  simp only [Proxy.send, hqueue]
  exact h.put _

/-! ### When every read gets its own message -/

theorem correct_answer (cid : Cid) (i : ℕ) {total : List (String × BatchData τ)} {k : ℕ} {q : String × BatchData τ}
    (hq : total[k]? = some q) :
    Read.Correct compute cid total ⟨.answer i, some (.answer k, .response (compute cid k q.1 q.2))⟩ ↔
      i = k := by
  simp only [Read.Correct, Option.some.injEq, Prod.mk.injEq, Origin.answer.injEq]
  constructor
  · rintro ⟨_, -, hk, -⟩
    exact hk.symm
  · rintro rfl
    exact ⟨q, hq, rfl, rfl⟩

theorem not_correct_none (cid : Cid) (total : List (String × BatchData τ)) (target : Origin) :
    ¬Read.Correct compute cid total ⟨target, none⟩ := by
  cases target <;> simp [Read.Correct]

/-- After the close only calls that read nothing go right. -/
theorem Shut.reads_correct (h : Shut cid p) {sent : ℕ} (hs : sent ≠ 0) (read : ℕ)
    (calls : List (Call τ)) (total : List (String × BatchData τ)) :
    (∀ r ∈ reads compute p sent calls, r.Correct compute cid total) ↔
      InOrder sent read true calls := by
  induction calls generalizing p sent with
  | nil => simp [reads, InOrder]
  | cons c calls ih =>
    have hnone := not_correct_none compute cid total
    cases c with
    | blocking method batch =>
      simp [reads, step, Proxy.blockingRequest, (h.send method batch).next, hnone, InOrder]
    | streaming method batch =>
      simpa [reads, step, Proxy.streamingRequest, Call.request, InOrder]
        using ih (h.send method batch) (Nat.succ_ne_zero sent)
    | future method batch =>
      simpa [reads, step, Proxy.nonblockingRequest, Call.request, InOrder]
        using ih (h.send method batch) (Nat.succ_ne_zero sent)
    | getResponse i => simp [reads, step, Proxy.getFutureResponse, h.next, hnone, InOrder]
    | closeStream =>
      obtain ⟨qs, rest, -, -, hqueue⟩ := h.queue
      simp [reads, step, Proxy.closeStream, hqueue, (h.put _).next, hnone, InOrder, hs]

/-- Closing reads the last message exactly if there is no unread response before it. -/
theorem Open.close (h : Open cid p qs read) (hqs : qs ≠ []) {p' : Proxy τ}
    {got : Option (Origin × Message τ)} (hclose : p.closeStream compute = some (p', got))
    (total : List (String × BatchData τ)) :
    (Read.Correct compute cid total ⟨.closed, got⟩ ↔ read = qs.length) ∧
      (read = qs.length → Shut cid p') := by
  have hqueue := h.queue
  rw [if_neg hqs] at hqueue
  simp only [Proxy.closeStream, hqueue, Option.some.injEq, Prod.ext_iff] at hclose
  obtain ⟨rfl, rfl⟩ := hclose
  set closing := p.put (.control .doCloseStream "") with hclosing
  have hstream := h.responseStream_close compute hqs
  have hlen : (answers compute cid 0 qs).length = qs.length := by simp [answers]
  have hpulled : closing.pulled = read := h.pulled
  rcases h.read_le.lt_or_eq with hlt | rfl
  · have hget : (closing.responseStream compute)[closing.pulled]? =
        some (.answer read, .response (compute cid read qs[read].1 qs[read].2)) := by
      rw [hstream, hpulled, List.getElem?_append_left (by omega), getElem?_answers,
        List.getElem?_eq_getElem hlt]
      rfl
    rw [next_of_getElem? compute hget]
    simp [Read.Correct, hlt.ne]
  · have hget : (closing.responseStream compute)[closing.pulled]? =
        some (.closed, .control .streamClosedOk "") := by
      rw [hstream, hpulled, List.getElem?_append_right (by omega), hlen]
      simp
    rw [next_of_getElem? compute hget]
    refine ⟨by simp [Read.Correct, Message.control], fun _ ↦ ⟨qs, [], h.plain, ?_, ?_⟩⟩
    · exact congrArg (· + 1) hpulled
    · simp [hclosing, Proxy.put, hqueue]

theorem Open.reads_correct (h : Open cid p qs read) (calls : List (Call τ))
    (hplain : Plain (calls.filterMap Call.request)) :
    (∀ r ∈ reads compute p qs.length calls,
      r.Correct compute cid (qs ++ calls.filterMap Call.request)) ↔
      InOrder qs.length read false calls := by
  induction calls generalizing p qs read with
  | nil => simp [reads, InOrder]
  | cons c calls ih =>
    cases c with
    | blocking method batch =>
      obtain ⟨hb, hrest⟩ := List.forall_mem_cons.mp hplain
      have hlt : read < (qs ++ [(method, batch)]).length := by
        rw [List.length_append]
        exact Nat.lt_succ_of_le h.read_le
      have hq := List.getElem?_eq_getElem hlt
      obtain ⟨hgot, hnext⟩ := (h.send method hb).next compute hq
      have ih := ih hnext hrest
      have htotal := correct_answer compute cid qs.length
        ((@List.getElem?_append_left _ _ (calls.filterMap Call.request) _ hlt).trans hq)
      simp only [List.length_append, List.length_singleton, List.append_assoc, List.singleton_append]
        at ih htotal
      simp [reads, step, Proxy.blockingRequest, hgot, Call.request, InOrder, ih, htotal, eq_comm]
    | streaming method batch =>
      obtain ⟨hb, hrest⟩ := List.forall_mem_cons.mp hplain
      simpa [reads, step, Proxy.streamingRequest, Call.request, InOrder] using ih (h.send method hb) hrest
    | future method batch =>
      obtain ⟨hb, hrest⟩ := List.forall_mem_cons.mp hplain
      simpa [reads, step, Proxy.nonblockingRequest, Call.request, InOrder] using ih (h.send method hb) hrest
    | getResponse i =>
      have hsame : (Call.getResponse i :: calls).filterMap Call.request =
        calls.filterMap Call.request := rfl
      rcases h.read_le.lt_or_eq with hlt | rfl
      · have hq := List.getElem?_eq_getElem hlt
        obtain ⟨hgot, hnext⟩ := h.next compute hq
        have htotal := correct_answer compute cid i
          ((@List.getElem?_append_left _ _ (calls.filterMap Call.request) _ hlt).trans hq)
        simp [reads, step, Proxy.getFutureResponse, hgot, hsame, Call.request, InOrder,
          ih hnext hplain, htotal, hlt]
      · have hnone := not_correct_none compute cid (qs ++ calls.filterMap Call.request)
        simp [reads, step, Proxy.getFutureResponse, h.next_none compute, hsame, hnone, Call.request, InOrder]
    | closeStream =>
      have hsame : (Call.closeStream :: calls).filterMap Call.request =
        calls.filterMap Call.request := rfl
      have hqueue := h.queue
      by_cases hqs : qs = []
      · subst hqs
        rw [if_pos rfl] at hqueue
        simpa [reads, step, Proxy.closeStream, hqueue, hsame, Call.request, InOrder] using ih h hplain
      · rw [if_neg hqs] at hqueue
        have hlen : qs.length ≠ 0 := fun hl ↦ hqs (List.eq_nil_of_length_eq_zero hl)
        cases hclose : p.closeStream compute with
        | none => simp [Proxy.closeStream, hqueue] at hclose
        | some r =>
          obtain ⟨p', got⟩ := r
          obtain ⟨hcorrect, hshut⟩ := h.close compute hqs hclose (qs ++ calls.filterMap Call.request)
          by_cases hread : read = qs.length
          · have hrest := (hshut hread).reads_correct compute hlen read calls
              (qs ++ calls.filterMap Call.request)
            rw [hsame]
            simpa [reads, step, hclose, Call.request, InOrder, hlen, hcorrect, hread] using hrest
          · rw [hsame]
            simp [reads, step, hclose, Call.request, InOrder, hlen, hcorrect, hread]

theorem corresponds_iff_inOrder {cid : Cid} {calls : List (Call τ)}
    (h : Plain (calls.filterMap Call.request)) :
    Corresponds compute cid calls ↔ InOrder 0 0 false calls := by
  have hopen : Open cid (start cid : Proxy τ) [] 0 :=
    ⟨rfl, rfl, rfl, le_rfl, fun _ hq ↦ absurd hq List.not_mem_nil⟩
  exact hopen.reads_correct compute calls h

/-- The rule of `RequestType`: the client fetches the response of a future before it submits a new
request. The session has no fire-and-forget requests and may end with the close. -/
def Fetched (sent : ℕ) (unread : Bool) : List (Call τ) → Prop
  | [] => True
  | .blocking _ _ :: calls => unread = false ∧ Fetched (sent + 1) false calls
  | .streaming _ _ :: _ => False
  | .future _ _ :: calls => unread = false ∧ Fetched (sent + 1) true calls
  | .getResponse i :: calls => unread = true ∧ i + 1 = sent ∧ Fetched sent false calls
  | .closeStream :: calls => unread = false ∧ calls = []

theorem Fetched.inOrder {calls : List (Call τ)} {sent read : ℕ} {unread : Bool}
    (h : Fetched sent unread calls) (hread : read + unread.toNat = sent) :
    InOrder sent read false calls := by
  induction calls generalizing sent read unread with
  | nil => trivial
  | cons c calls ih =>
    cases c with
    | blocking method batch =>
      obtain ⟨rfl, h⟩ := h
      exact ⟨rfl, hread, ih h (congrArg (· + 1) hread)⟩
    | streaming method batch => exact h.elim
    | future method batch =>
      obtain ⟨rfl, h⟩ := h
      exact ih h (congrArg (· + 1) hread)
    | getResponse i =>
      obtain ⟨rfl, rfl, h⟩ := h
      obtain rfl : read = i := Nat.succ.inj hread
      exact ⟨rfl, rfl, Nat.lt_succ_self _, ih h rfl⟩
    | closeStream =>
      obtain ⟨rfl, rfl⟩ := h
      simp only [InOrder]
      split_ifs
      exact ⟨trivial, hread, trivial⟩

/-- Reads in the order of the requests get their own messages, and so do all reads of a session that
keeps to the documented rule. Without fire-and-forget requests no other order does. -/
theorem stream_correspondence {cid : Cid} {calls : List (Call τ)}
    (h : Plain (calls.filterMap Call.request)) :
    (InOrder 0 0 false calls → Corresponds compute cid calls) ∧
    (Fetched 0 false calls → Corresponds compute cid calls) ∧
    ((∀ method batch, Call.streaming method batch ∉ calls) → Corresponds compute cid calls →
      InOrder 0 0 false calls) := by
  have hiff : Corresponds compute cid calls ↔ InOrder 0 0 false calls :=
    corresponds_iff_inOrder compute h
  exact ⟨hiff.mpr, fun hf ↦ hiff.mpr (hf.inOrder rfl), fun _ ↦ hiff.mp⟩

/-- Two futures read in the other order get each other's responses. -/
theorem swapped_futures_differ :
    ¬∀ (compute : Compute ℕ) (cid : Cid) (calls : List (Call ℕ)),
      Plain (calls.filterMap Call.request) → Corresponds compute cid calls := by
  intro hclaim
  have h := hclaim (fun _ _ _ b ↦ b) "c" [.future "forward" ⟨.empty, .ok, .empty⟩,
    .future "forward" ⟨.empty, .ok, .empty⟩, .getResponse 1, .getResponse 0, .closeStream]
    (by simp [Plain, Call.request])
  rw [corresponds_iff_inOrder _ (by simp [Plain, Call.request])] at h
  simp [InOrder] at h

theorem prompt_session_corresponds :
    Corresponds (fun _ _ _ b ↦ b : Compute ℕ) "c" [.blocking "forward" ⟨.empty, .ok, .empty⟩,
      .future "forward" ⟨.empty, .ok, .empty⟩, .getResponse 1, .closeStream] :=
  (stream_correspondence _ (by simp [Plain, Call.request])).2.1 (by simp [Fetched])

end SplitFleet.StreamProxy
