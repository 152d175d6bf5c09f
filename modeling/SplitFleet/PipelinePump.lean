import SplitFleet.Lib.Runs
import SplitFleet.TcpPacing

set_option autoImplicit false

namespace SplitFleet.Pacing

open Lib

def blockSize : ℕ := 16 * 1024

/-- What the producer puts into the queue. -/
structure Item where
  block : List UInt8
  state : Control
  due : ℚ

/-- Where the producer is suspended. One that waits for an event may have been woken, and goes on whatever the event
is by then. -/
inductive Producer
  | atTop
  | waitingWritable (woken : Bool)
  | reading
  | reserving (block : List UInt8)
  | waitingSpace (item : Item) (woken : Bool)
  | finished
  | failed

inductive Consumer
  | getting
  | sleeping (item : Item)
  | draining (item : Item)
  | finished
  | failed (item : Item)

/-- Both coroutines with what they share. The end of the stream is `none` in the queue. `window` is the window that the
last block was put under, where its stream was capped. -/
structure Pump where
  pacer : DirectionPacer
  input : List UInt8
  output : List UInt8
  queue : List (Option Item)
  space : Bool
  writable : Bool
  bufferedBytes : ℕ
  producer : Producer
  consumer : Consumer
  cancelled : Bool
  window : Option ℚ

def Pump.start (pacer : DirectionPacer) (input : List UInt8) : Pump where
  pacer := pacer
  input := input
  output := []
  queue := []
  space := false
  writable := true
  bufferedBytes := 0
  producer := .atTop
  consumer := .getting
  cancelled := false
  window := none

/-- What happens next: a coroutine goes on, with the time or the answer that it meets, another connection uses the
pacer, or the pump is cancelled. -/
inductive Action
  | checkWritable
  | read (n : ℕ)
  | endOfStream
  | readFails
  | reserve (state : Control) (now : ℚ)
  | recheckSpace
  | get (now : ℚ)
  | deliver
  | drained
  | drainFails
  | otherConnection (nextDue : ℚ) (lastRate : Option ℚ)
  | cancel

/-- `rate * 1_000_000 / 8 * latency + 4 * block_size`, without one where the stream is not capped. -/
def windowBytes (direction : String) (state : Control) : Except PyError (Option ℚ) := do
  match ← rateOf direction state with
  | none => return none
  | some rate => return some (rate * 1000000 / 8 * (← latencyOf state) + 4 * blockSize)

namespace Pump

def put (item : Item) (window : Option ℚ) (s : Pump) : Pump :=
  { s with
    bufferedBytes := s.bufferedBytes + item.block.length
    queue := s.queue ++ [some item]
    producer := .atTop
    window := window }

/-- The test of the window, with a wait where it fails. -/
def offer (item : Item) (s : Pump) : Pump :=
  match windowBytes s.pacer.direction item.state with
  | .error _ => { s with producer := .failed }
  | .ok none => s.put item none
  | .ok (some window) =>
    if window < s.bufferedBytes + item.block.length then
      { s with space := false, producer := .waitingSpace item false }
    else s.put item (some window)

/-- `writer.write(block)` up to the wait for `drain`. -/
def write (item : Item) (s : Pump) : Pump :=
  { s with output := s.output ++ item.block, writable := false, consumer := .draining item }

/-- `writable.set()` -/
def setWritable (s : Pump) : Pump :=
  { s with
    writable := true
    producer := match s.producer with
      | .waitingWritable _ => .waitingWritable true
      | p => p }

/-- `space.set()` -/
def setSpace (s : Pump) : Pump :=
  { s with
    space := true
    producer := match s.producer with
      | .waitingSpace item _ => .waitingSpace item true
      | p => p }

/-- What follows the wait for `drain`. -/
def afterDrain (item : Item) (s : Pump) : Pump :=
  setSpace { setWritable s with consumer := .getting, bufferedBytes := s.bufferedBytes - item.block.length }

/-- The producer up to its next wait. -/
def stepProducer (s : Pump) : Action → Producer → Option Pump
  | .checkWritable, .atTop =>
    some { s with producer := if s.writable then .reading else .waitingWritable false }
  | .checkWritable, .waitingWritable true => some { s with producer := .reading }
  | .read n, .reading =>
    if 0 < n ∧ n ≤ blockSize ∧ n ≤ s.input.length then
      some { s with input := s.input.drop n, producer := .reserving (s.input.take n) }
    else none
  | .endOfStream, .reading =>
    if s.input = [] then some { s with queue := s.queue ++ [none], producer := .finished } else none
  | .readFails, .reading => some { s with producer := .failed }
  | .reserve state now, .reserving block =>
    match (Pacing.reserve state now block.length).run s.pacer with
    | .ok due pacer => some (offer ⟨block, state, due⟩ { s with pacer := pacer })
    | .error _ pacer => some { s with pacer := pacer, producer := .failed }
  | .recheckSpace, .waitingSpace item true => some (offer item s)
  | _, _ => none

/-- The consumer up to its next wait. -/
def stepConsumer (s : Pump) : Action → Consumer → Option Pump
  | .get now, .getting =>
    match s.queue with
    | [] => none
    | none :: queue => some { s with queue := queue, consumer := .finished }
    | some item :: queue =>
      some (if now < item.due then { s with queue := queue, consumer := .sleeping item }
        else write item { s with queue := queue })
  | .deliver, .sleeping item => some (write item s)
  | .drained, .draining item => some (afterDrain item s)
  | .drainFails, .draining item => some { s with consumer := .failed item }
  | _, _ => none

def step (s : Pump) (a : Action) : Option Pump :=
  if s.cancelled then none
  else
    match a with
    | .otherConnection nextDue lastRate =>
      some { s with pacer := { s.pacer with nextDue := nextDue, lastRate := lastRate } }
    | .cancel => some { s with cancelled := true }
    | a => (stepProducer s a s.producer).or (stepConsumer s a s.consumer)

/-- `gather` has returned. -/
def Returned (s : Pump) : Prop := s.producer = .finished ∧ s.consumer = .finished

/-- The producer waits for an event that was not set since. -/
def ProducerBlocked (s : Pump) : Prop :=
  s.producer = .waitingWritable false ∨ ∃ item, s.producer = .waitingSpace item false

/-- The consumer waits for an empty queue. -/
def ConsumerBlocked (s : Pump) : Prop := s.consumer = .getting ∧ s.queue = []

/-- The consumer has a block to take or delivers one. -/
def Delivers (s : Pump) : Prop :=
  (∃ item queue, s.consumer = .getting ∧ s.queue = some item :: queue) ∨
    ∃ item, s.consumer = .sleeping item ∨ s.consumer = .draining item

end Pump

/-! ### What holds in every state -/

def Producer.held : Producer → List UInt8
  | .reserving block => block
  | .waitingSpace item _ => item.block
  | _ => []

def Consumer.unwritten : Consumer → List UInt8
  | .sleeping item => item.block
  | _ => []

def Consumer.delivering : Consumer → ℕ
  | .sleeping item => item.block.length
  | .draining item => item.block.length
  | .failed item => item.block.length
  | _ => 0

def queued (queue : List (Option Item)) : List UInt8 := queue.flatMap fun i ↦ i.elim [] Item.block

/-- The window of a control state that a reservation was made under. -/
def Windowed (direction : String) (state : Control) : Prop :=
  ∃ window, windowBytes direction state = .ok window ∧ ∀ w ∈ window, (4 * blockSize : ℚ) ≤ w

theorem rateOf_pos {direction : String} {state : Control} {rate : ℚ} (h : rateOf direction state = .ok (some rate)) :
    0 < rate := by
  rw [rateOf] at h
  cases hsetting : capSetting direction state with
  | null =>
    rw [hsetting] at h
    cases h
  | bool b =>
    rw [hsetting] at h
    cases h
  | number q =>
    rw [hsetting] at h
    dsimp only at h
    split_ifs at h with hq
    cases h
    exact not_le.mp hq

theorem reserve_ok {state : Control} {now due : ℚ} {count : ℕ} {p p' : DirectionPacer}
    (h : (reserve state now count).run p = .ok due p') :
    p'.direction = p.direction ∧ Windowed p.direction state := by
  obtain ⟨q, u, hget, h⟩ := Method.bind_eq_ok h
  cases hget
  obtain ⟨rate, hrate, h⟩ := Method.lift_bind_eq_ok h
  obtain ⟨_, v, hset, h⟩ := Method.bind_eq_ok h
  cases hset
  obtain ⟨latency, hlatency, h⟩ := Method.lift_bind_eq_ok h
  by_cases hneg : latency < 0
  · rw [if_pos hneg] at h
    cases h
  · rw [if_neg hneg] at h
    cases h
    refine ⟨rfl, ?_⟩
    rw [Windowed, windowBytes, hrate, ok_bind]
    cases rate with
    | none => exact ⟨none, rfl, fun w hw ↦ by cases hw⟩
    | some r =>
      refine ⟨some (r * 1000000 / 8 * latency + 4 * blockSize), by rw [hlatency]; rfl, ?_⟩
      rintro w hw
      cases hw
      have hr : 0 < r := rateOf_pos hrate
      have hlatency0 : 0 ≤ latency := not_lt.mp hneg
      exact le_add_of_nonneg_left (by positivity)

theorem reserve_error {state : Control} {now : ℚ} {count : ℕ} {p p' : DirectionPacer} {e : PyError}
    (h : (reserve state now count).run p = .error e p') : p'.direction = p.direction := by
  rw [reserve, Method.get_bind_run] at h
  cases hrate : rateOf p.direction state with
  | error e =>
    rw [hrate] at h
    cases h
    rfl
  | ok rate =>
    rw [hrate, Method.ok_bind_run] at h
    change EStateM.run (liftM (latencyOf state) >>= _) (p.advance rate now count) = _ at h
    cases hlatency : latencyOf state with
    | error e =>
      rw [hlatency] at h
      cases h
      rfl
    | ok latency =>
      rw [hlatency, Method.ok_bind_run] at h
      by_cases hneg : latency < 0
      · rw [if_pos hneg] at h
        cases h
        rfl
      · rw [if_neg hneg] at h
        cases h

namespace Pump

structure Inv (whole : List UInt8) (s : Pump) : Prop where
  stream : ∃ rest, s.output ++ (s.consumer.unwritten ++ (queued s.queue ++ rest)) = whole ∧
    (s.producer ≠ .failed → rest = s.producer.held ++ s.input)
  buffered : s.bufferedBytes = s.consumer.delivering + (queued s.queue).length
  /-- The queue is only closed behind the last block. -/
  opened : s.producer ≠ .finished → s.consumer ≠ .finished ∧ ∃ items : List Item, s.queue = items.map some
  closed : s.producer = .finished → s.input = [] ∧
    (s.consumer = .finished ∧ s.queue = [] ∨
      s.consumer ≠ .finished ∧ ∃ items : List Item, s.queue = items.map some ++ [none])
  writable : s.writable = false → ∃ item, s.consumer = .draining item ∨ s.consumer = .failed item
  waiting : s.producer = .waitingWritable false → s.writable = false
  block_le : s.producer.held.length ≤ blockSize
  windowed : ∀ item woken, s.producer = .waitingSpace item woken → Windowed s.pacer.direction item.state
  full : ∀ item, s.producer = .waitingSpace item false → ∃ window,
    windowBytes s.pacer.direction item.state = .ok (some window) ∧ window < s.bufferedBytes + item.block.length
  window : ∀ w ∈ s.window, (s.bufferedBytes : ℚ) ≤ w ∧ (4 * blockSize : ℚ) ≤ w

variable {whole : List UInt8} {s t : Pump} {item : Item}

theorem inv_start (pacer : DirectionPacer) (input : List UInt8) : Inv input (start pacer input) where
  stream := ⟨input, rfl, fun _ ↦ rfl⟩
  buffered := rfl
  opened _ := ⟨by simp [start], [], rfl⟩
  closed h := by cases h
  writable h := by cases h
  waiting h := by cases h
  block_le := Nat.zero_le _
  windowed _ _ h := by cases h
  full _ h := by cases h
  window w hw := by cases hw

/-- The producer fails with the block that it holds. -/
theorem Inv.fail (h : Inv whole s) (pacer : DirectionPacer) (hopen : s.producer ≠ .finished) :
    Inv whole { s with pacer := pacer, producer := .failed } where
  stream := by
    obtain ⟨rest, hrest, -⟩ := h.stream
    exact ⟨rest, hrest, fun hne ↦ absurd rfl hne⟩
  buffered := h.buffered
  opened _ := h.opened hopen
  closed h' := by cases h'
  writable := h.writable
  waiting h' := by cases h'
  block_le := Nat.zero_le _
  windowed _ _ h' := by cases h'
  full _ h' := by cases h'
  window := h.window

theorem queued_append_some (queue : List (Option Item)) (item : Item) :
    queued (queue ++ [some item]) = queued queue ++ item.block := by
  simp [queued]

theorem Inv.put (h : Inv whole { s with producer := .waitingSpace item true }) {window : Option ℚ}
    (hwindow : ∀ w ∈ window, (s.bufferedBytes + item.block.length : ℚ) ≤ w ∧ (4 * blockSize : ℚ) ≤ w) :
    Inv whole (s.put item window) where
  stream := by
    obtain ⟨rest, hrest, hheld⟩ := h.stream
    refine ⟨s.input, ?_, fun _ ↦ rfl⟩
    rw [hheld (by simp)] at hrest
    rw [← hrest]
    simp [Pump.put, queued_append_some, Producer.held]
  buffered := by
    have := h.buffered
    simp only [Pump.put, queued_append_some, List.length_append] at this ⊢
    omega
  opened _ := by
    obtain ⟨hconsumer, items, hitems⟩ := h.opened (by simp)
    refine ⟨hconsumer, items ++ [item], ?_⟩
    change s.queue ++ [some item] = _
    rw [show s.queue = _ from hitems, List.map_append, List.map_singleton]
  closed h' := by cases h'
  writable := h.writable
  waiting h' := by cases h'
  block_le := Nat.zero_le _
  windowed _ _ h' := by cases h'
  full _ h' := by cases h'
  window w hw := by
    have := hwindow w hw
    simpa [Pump.put] using this

theorem Inv.offer (h : Inv whole { s with producer := .waitingSpace item true }) : Inv whole (s.offer item) := by
  obtain ⟨window, hwindow, hblocks⟩ := h.windowed item true rfl
  rw [Pump.offer]
  dsimp only at hwindow
  rw [hwindow]
  cases window with
  | none => exact h.put fun w hw ↦ by cases hw
  | some window =>
    dsimp only
    by_cases hfull : window < s.bufferedBytes + item.block.length
    · rw [if_pos hfull]
      exact
        { stream := h.stream.imp fun rest hrest ↦ ⟨hrest.1, fun _ ↦ hrest.2 (by simp)⟩
          buffered := h.buffered
          opened := fun _ ↦ h.opened (by simp)
          closed := fun h' ↦ by cases h'
          writable := h.writable
          waiting := fun h' ↦ by cases h'
          block_le := h.block_le
          windowed := by
            rintro item' woken h'
            cases h'
            exact ⟨some window, hwindow, hblocks⟩
          full := by
            rintro item' h'
            cases h'
            exact ⟨window, hwindow, hfull⟩
          window := h.window }
    · rw [if_neg hfull]
      apply h.put
      rintro w hw
      cases hw
      exact ⟨not_lt.mp hfull, hblocks window rfl⟩

theorem Inv.write (h : Inv whole { s with consumer := .sleeping item }) : Inv whole (s.write item) where
  stream := by
    obtain ⟨rest, hrest, hheld⟩ := h.stream
    refine ⟨rest, ?_, hheld⟩
    rw [← hrest]
    exact List.append_assoc ..
  buffered := h.buffered
  opened h' := ⟨by simp [Pump.write], (h.opened h').2⟩
  closed h' := by
    obtain ⟨hinput, hqueue⟩ := h.closed h'
    refine ⟨hinput, .inr ⟨by simp [Pump.write], ?_⟩⟩
    obtain ⟨hfinished, -⟩ | ⟨-, hitems⟩ := hqueue
    · cases hfinished
    · exact hitems
  writable _ := ⟨item, .inl rfl⟩
  waiting _ := rfl
  block_le := h.block_le
  windowed := h.windowed
  full := h.full
  window := h.window

/-- A producer once both events were set. -/
def wake : Producer → Producer
  | .waitingWritable _ => .waitingWritable true
  | .waitingSpace item _ => .waitingSpace item true
  | p => p

theorem held_wake (p : Producer) : (wake p).held = p.held := by
  cases p with
  | atTop | waitingWritable | reading | reserving | waitingSpace | finished | failed => rfl

theorem wake_eq_finished {p : Producer} : wake p = .finished ↔ p = .finished := by
  cases p with
  | atTop | waitingWritable | reading | reserving | waitingSpace | finished | failed => simp [wake]

theorem wake_eq_failed {p : Producer} : wake p = .failed ↔ p = .failed := by
  cases p with
  | atTop | waitingWritable | reading | reserving | waitingSpace | finished | failed => simp [wake]

theorem wake_ne_waitingWritable (p : Producer) : wake p ≠ .waitingWritable false := by
  cases p with
  | atTop | waitingWritable | reading | reserving | waitingSpace | finished | failed => simp [wake]

theorem wake_eq_waitingSpace {p : Producer} {woken : Bool} (h : wake p = .waitingSpace item woken) :
    woken = true ∧ ∃ earlier, p = .waitingSpace item earlier := by
  cases p with
  | waitingSpace item earlier =>
    cases h
    exact ⟨rfl, earlier, rfl⟩
  | atTop | waitingWritable | reading | reserving | finished | failed => cases h

theorem producer_afterDrain (item : Item) (s : Pump) : (afterDrain item s).producer = wake s.producer := by
  simp only [afterDrain, setSpace, setWritable]
  cases s.producer with
  | atTop | waitingWritable | reading | reserving | waitingSpace | finished | failed => rfl

/-- The block has left the buffer, and both events are set. -/
theorem Inv.drained (h : Inv whole s) (hc : s.consumer = .draining item) : Inv whole (afterDrain item s) where
  stream := by
    obtain ⟨rest, hrest, hheld⟩ := h.stream
    refine ⟨rest, ?_, ?_⟩
    · rw [hc] at hrest
      exact hrest
    · rw [producer_afterDrain, held_wake, Ne, wake_eq_failed]
      exact hheld
  buffered := by
    have hbuffered := h.buffered
    rw [hc, Consumer.delivering] at hbuffered
    change s.bufferedBytes - item.block.length = 0 + (queued s.queue).length
    omega
  opened h' := by
    rw [producer_afterDrain, Ne, wake_eq_finished] at h'
    exact ⟨by simp [afterDrain, setSpace], (h.opened h').2⟩
  closed h' := by
    rw [producer_afterDrain, wake_eq_finished] at h'
    obtain ⟨hinput, hqueue⟩ := h.closed h'
    refine ⟨hinput, .inr ⟨by simp [afterDrain, setSpace], ?_⟩⟩
    obtain ⟨hfinished, -⟩ | ⟨-, hitems⟩ := hqueue
    · rw [hc] at hfinished
      cases hfinished
    · exact hitems
  writable h' := by cases h'
  waiting h' := by
    rw [producer_afterDrain] at h'
    exact absurd h' (wake_ne_waitingWritable _)
  block_le := by
    rw [producer_afterDrain, held_wake]
    exact h.block_le
  windowed item' woken h' := by
    rw [producer_afterDrain] at h'
    obtain ⟨-, earlier, hp⟩ := wake_eq_waitingSpace h'
    exact h.windowed item' earlier hp
  full item' h' := by
    rw [producer_afterDrain] at h'
    cases (wake_eq_waitingSpace h').1
  window w hw := by
    obtain ⟨hle, hblocks⟩ := h.window w hw
    refine ⟨le_trans (Nat.cast_le.mpr ?_) hle, hblocks⟩
    exact Nat.sub_le _ _

/-- The producer goes on to the read, to a wait for `writable` or with a block that it has read. -/
theorem Inv.produce (h : Inv whole s) (p : Producer) (input : List UInt8)
    (hs : s.producer ≠ .finished ∧ s.producer ≠ .failed)
    (hp : p = .reading ∨ p = .waitingWritable false ∧ s.writable = false ∨
      ∃ block : List UInt8, p = .reserving block ∧ block.length ≤ blockSize)
    (hinput : p.held ++ input = s.producer.held ++ s.input) :
    Inv whole { s with producer := p, input := input } where
  stream := by
    obtain ⟨rest, hrest, hheld⟩ := h.stream
    exact ⟨rest, hrest, fun _ ↦ (hheld hs.2).trans hinput.symm⟩
  buffered := h.buffered
  opened _ := h.opened hs.1
  closed h' := by
    obtain rfl | ⟨rfl, -⟩ | ⟨block, rfl, -⟩ := hp
    all_goals cases h'
  writable := h.writable
  waiting h' := by
    obtain rfl | ⟨-, hw⟩ | ⟨block, rfl, -⟩ := hp
    · cases h'
    · exact hw
    · cases h'
  block_le := by
    obtain rfl | ⟨rfl, -⟩ | ⟨block, rfl, hblock⟩ := hp
    · exact Nat.zero_le _
    · exact Nat.zero_le _
    · exact hblock
  windowed item woken h' := by
    obtain rfl | ⟨rfl, -⟩ | ⟨block, rfl, -⟩ := hp
    all_goals cases h'
  full item h' := by
    obtain rfl | ⟨rfl, -⟩ | ⟨block, rfl, -⟩ := hp
    all_goals cases h'
  window := h.window

/-- The block has its due time, and the producer is at the test of the window. -/
theorem Inv.reserved (h : Inv whole s) {pacer : DirectionPacer} (item : Item) (hp : s.producer = .reserving item.block)
    (hpacer : pacer.direction = s.pacer.direction) (hwindowed : Windowed s.pacer.direction item.state) :
    Inv whole { s with pacer := pacer, producer := .waitingSpace item true } where
  stream := by
    obtain ⟨rest, hrest, hheld⟩ := h.stream
    rw [hp] at hheld
    exact ⟨rest, hrest, fun _ ↦ hheld (by simp)⟩
  buffered := h.buffered
  opened _ := h.opened (by simp [hp])
  closed h' := by cases h'
  writable := h.writable
  waiting h' := by cases h'
  block_le := by
    have hblock := h.block_le
    rw [hp] at hblock
    exact hblock
  windowed item' woken h' := by
    cases h'
    rw [hpacer]
    exact hwindowed
  full item' h' := by cases h'
  window := h.window

theorem Inv.finish (h : Inv whole s) (hp : s.producer = .reading) (hinput : s.input = []) :
    Inv whole { s with queue := s.queue ++ [none], producer := .finished } where
  stream := by
    obtain ⟨rest, hrest, hheld⟩ := h.stream
    refine ⟨[], ?_, fun _ ↦ hinput.symm⟩
    rw [hheld (by simp [hp]), hp, hinput] at hrest
    rw [← hrest]
    simp [queued, Producer.held]
  buffered := by
    have hbuffered := h.buffered
    simpa [queued] using hbuffered
  opened h' := absurd rfl h'
  closed _ := by
    obtain ⟨hconsumer, items, hitems⟩ := h.opened (by simp [hp])
    exact ⟨hinput, .inr ⟨hconsumer, items, by rw [hitems]⟩⟩
  writable := h.writable
  waiting h' := by cases h'
  block_le := Nat.zero_le _
  windowed _ _ h' := by cases h'
  full _ h' := by cases h'
  window := h.window

theorem Inv.stepProducer {a : Action} (h : Inv whole s) (ht : s.stepProducer a s.producer = some t) :
    Inv whole t := by
  generalize hp : s.producer = p at ht
  unfold Pump.stepProducer at ht
  split at ht
  · -- `await writable.wait()` at the top of the loop
    cases ht
    have hs : s.producer ≠ .finished ∧ s.producer ≠ .failed := by simp [hp]
    by_cases hw : s.writable = true
    · rw [if_pos hw]
      exact h.produce .reading s.input hs (.inl rfl) (by rw [hp]; rfl)
    · rw [if_neg hw]
      have hwaits : s.writable = false := Bool.eq_false_iff.mpr hw
      exact h.produce (.waitingWritable false) s.input hs (.inr (.inl ⟨rfl, hwaits⟩)) (by rw [hp]; rfl)
  · cases ht
    exact h.produce .reading s.input (by simp [hp]) (.inl rfl) (by rw [hp]; rfl)
  · next n =>
    split_ifs at ht with hn
    cases ht
    apply h.produce (.reserving (s.input.take n)) (s.input.drop n) (by simp [hp])
    · exact .inr (.inr ⟨_, rfl, (List.length_take_le _ _).trans hn.2.1⟩)
    · rw [hp]
      exact List.take_append_drop ..
  · split_ifs at ht with hinput
    cases ht
    exact h.finish hp hinput
  · cases ht
    exact h.fail s.pacer (by simp [hp])
  · next state now block =>
    cases hrun : (Pacing.reserve state now block.length).run s.pacer with
    | error e pacer =>
      rw [hrun] at ht
      cases ht
      exact h.fail pacer (by simp [hp])
    | ok due pacer =>
      rw [hrun] at ht
      cases ht
      obtain ⟨hpacer, hwindowed⟩ := reserve_ok hrun
      exact (h.reserved ⟨block, state, due⟩ hp hpacer hwindowed).offer
  · next item =>
    cases ht
    apply Inv.offer
    rw [← hp]
    exact h
  · cases ht

theorem Inv.take (h : Inv whole s) {queue : List (Option Item)} (hc : s.consumer = .getting)
    (hqueue : s.queue = some item :: queue) : Inv whole { s with queue := queue, consumer := .sleeping item } where
  stream := by
    obtain ⟨rest, hrest, hheld⟩ := h.stream
    refine ⟨rest, ?_, hheld⟩
    rw [hc, hqueue] at hrest
    rw [← hrest]
    simp [Consumer.unwritten, queued]
  buffered := by
    have hbuffered := h.buffered
    rw [hc, hqueue] at hbuffered
    simpa [Consumer.delivering, queued] using hbuffered
  opened h' := by
    obtain ⟨-, items, hitems⟩ := h.opened h'
    rw [hqueue] at hitems
    cases items with
    | nil => cases hitems
    | cons first items => exact ⟨by simp, items, (List.cons.inj hitems).2⟩
  closed h' := by
    obtain ⟨hinput, hclosed⟩ := h.closed h'
    obtain ⟨-, hempty⟩ | ⟨-, items, hitems⟩ := hclosed
    · rw [hqueue] at hempty
      cases hempty
    · rw [hqueue] at hitems
      cases items with
      | nil => cases hitems
      | cons first items => exact ⟨hinput, .inr ⟨by simp, items, (List.cons.inj hitems).2⟩⟩
  writable h' := by
    obtain ⟨item', hbusy⟩ := h.writable h'
    simp [hc] at hbusy
  waiting := h.waiting
  block_le := h.block_le
  windowed := h.windowed
  full := h.full
  window := h.window

/-- The end of the stream is taken from the queue. -/
theorem Inv.takeEnd (h : Inv whole s) {queue : List (Option Item)} (hc : s.consumer = .getting)
    (hqueue : s.queue = none :: queue) : Inv whole { s with queue := queue, consumer := .finished } := by
  have hfinished : s.producer = .finished := by
    by_contra hopen
    obtain ⟨-, items, hitems⟩ := h.opened hopen
    rw [hqueue] at hitems
    cases items with
    | nil => cases hitems
    | cons first items => cases hitems
  have hempty : queue = [] := by
    obtain ⟨-, ⟨-, hnil⟩ | ⟨-, items, hitems⟩⟩ := h.closed hfinished
    · rw [hqueue] at hnil
      cases hnil
    · rw [hqueue] at hitems
      cases items with
      | nil => exact (List.cons.inj hitems).2
      | cons first items => cases hitems
  exact
    { stream := by
        obtain ⟨rest, hrest, hheld⟩ := h.stream
        refine ⟨rest, ?_, hheld⟩
        rw [hc, hqueue] at hrest
        exact hrest
      buffered := by
        have hbuffered := h.buffered
        rw [hc, hqueue] at hbuffered
        exact hbuffered
      opened := fun h' ↦ absurd hfinished h'
      closed := fun _ ↦ ⟨(h.closed hfinished).1, .inl ⟨rfl, hempty⟩⟩
      writable := fun h' ↦ by
        obtain ⟨item, hbusy⟩ := h.writable h'
        simp [hc] at hbusy
      waiting := h.waiting
      block_le := h.block_le
      windowed := h.windowed
      full := h.full
      window := h.window }

theorem Inv.drainFails (h : Inv whole s) (hc : s.consumer = .draining item) :
    Inv whole { s with consumer := .failed item } where
  stream := by
    obtain ⟨rest, hrest, hheld⟩ := h.stream
    rw [hc] at hrest
    exact ⟨rest, hrest, hheld⟩
  buffered := by
    have hbuffered := h.buffered
    rw [hc] at hbuffered
    exact hbuffered
  opened h' := ⟨by simp, (h.opened h').2⟩
  closed h' := by
    obtain ⟨hinput, ⟨hfinished, -⟩ | ⟨-, hitems⟩⟩ := h.closed h'
    · rw [hc] at hfinished
      cases hfinished
    · exact ⟨hinput, .inr ⟨by simp, hitems⟩⟩
  writable _ := ⟨item, .inr rfl⟩
  waiting := h.waiting
  block_le := h.block_le
  windowed := h.windowed
  full := h.full
  window := h.window

theorem Inv.stepConsumer {a : Action} (h : Inv whole s) (ht : s.stepConsumer a s.consumer = some t) :
    Inv whole t := by
  generalize hc : s.consumer = c at ht
  unfold Pump.stepConsumer at ht
  split at ht
  · next now =>
    split at ht
    · cases ht
    · next queue hqueue =>
      cases ht
      exact h.takeEnd hc hqueue
    · next item queue hqueue =>
      have htake := h.take hc hqueue
      cases ht
      split_ifs with hlater
      · exact htake
      · exact htake.write
  · next item =>
    cases ht
    apply Inv.write
    rw [← hc]
    exact h
  · next item =>
    cases ht
    exact h.drained hc
  · next item =>
    cases ht
    exact h.drainFails hc
  · cases ht

theorem Inv.withPacer (h : Inv whole s) (nextDue : ℚ) (lastRate : Option ℚ) :
    Inv whole { s with pacer := { s.pacer with nextDue := nextDue, lastRate := lastRate } } where
  stream := h.stream
  buffered := h.buffered
  opened := h.opened
  closed := h.closed
  writable := h.writable
  waiting := h.waiting
  block_le := h.block_le
  windowed := h.windowed
  full := h.full
  window := h.window

theorem Inv.cancel (h : Inv whole s) : Inv whole { s with cancelled := true } where
  stream := h.stream
  buffered := h.buffered
  opened := h.opened
  closed := h.closed
  writable := h.writable
  waiting := h.waiting
  block_le := h.block_le
  windowed := h.windowed
  full := h.full
  window := h.window

theorem step_inv {a : Action} (h : Inv whole s) (ht : s.step a = some t) : Inv whole t := by
  unfold step at ht
  split_ifs at ht
  split at ht
  · cases ht
    exact h.withPacer _ _
  · cases ht
    exact h.cancel
  · obtain ht | ⟨-, ht⟩ := Option.or_eq_some_iff.mp ht
    · exact h.stepProducer ht
    · exact h.stepConsumer ht

theorem reaches_inv {pacer : DirectionPacer} {input : List UInt8} {allowed : Pump → Action → Prop}
    (h : Reaches step allowed (start pacer input) s) : Inv input s :=
  h.invariant (inv_start pacer input) fun _ _ _ hs _ ht ↦ step_inv hs ht

/-! ### The window under finite rates -/

/-- A step that puts nothing: the buffer does not grow, and no other block waits for space. -/
structure Quiet (s t : Pump) : Prop where
  window : t.window = s.window
  buffered : t.bufferedBytes ≤ s.bufferedBytes
  direction : t.pacer.direction = s.pacer.direction
  waiting : ∀ item woken, t.producer = .waitingSpace item woken → ∃ earlier, s.producer = .waitingSpace item earlier

theorem stepProducer_cases {a : Action} (ht : s.stepProducer a s.producer = some t) :
    Quiet s t ∨ ∃ item pacer, pacer.direction = s.pacer.direction ∧ t = offer item { s with pacer := pacer } ∧
      ((∃ now, a = .reserve item.state now) ∧ Windowed s.pacer.direction item.state ∨
        s.producer = .waitingSpace item true) := by
  generalize hp : s.producer = p at ht
  unfold stepProducer at ht
  split at ht
  · cases ht
    refine .inl ⟨rfl, le_rfl, rfl, fun item woken hp' ↦ ?_⟩
    dsimp only at hp'
    split_ifs at hp'
  · cases ht
    exact .inl ⟨rfl, le_rfl, rfl, fun item woken hp' ↦ by cases hp'⟩
  · split_ifs at ht
    cases ht
    exact .inl ⟨rfl, le_rfl, rfl, fun item woken hp' ↦ by cases hp'⟩
  · split_ifs at ht
    cases ht
    exact .inl ⟨rfl, le_rfl, rfl, fun item woken hp' ↦ by cases hp'⟩
  · cases ht
    exact .inl ⟨rfl, le_rfl, rfl, fun item woken hp' ↦ by cases hp'⟩
  · next state now block =>
    cases hrun : (Pacing.reserve state now block.length).run s.pacer with
    | error e pacer =>
      rw [hrun] at ht
      cases ht
      exact .inl ⟨rfl, le_rfl, reserve_error hrun, fun item woken hp' ↦ by cases hp'⟩
    | ok due pacer =>
      rw [hrun] at ht
      cases ht
      obtain ⟨hpacer, hwindowed⟩ := reserve_ok hrun
      exact .inr ⟨⟨block, state, due⟩, pacer, hpacer, rfl, .inl ⟨⟨now, rfl⟩, hwindowed⟩⟩
  · next item =>
    cases ht
    exact .inr ⟨item, s.pacer, rfl, rfl, .inr rfl⟩
  · cases ht

theorem stepConsumer_quiet {a : Action} (ht : s.stepConsumer a s.consumer = some t) : Quiet s t := by
  unfold stepConsumer at ht
  split at ht
  · split at ht
    · cases ht
    · cases ht
      exact ⟨rfl, le_rfl, rfl, fun item woken hp ↦ ⟨woken, hp⟩⟩
    · cases ht
      split_ifs
      · exact ⟨rfl, le_rfl, rfl, fun item woken hp ↦ ⟨woken, hp⟩⟩
      · exact ⟨rfl, le_rfl, rfl, fun item woken hp ↦ ⟨woken, hp⟩⟩
  · cases ht
    exact ⟨rfl, le_rfl, rfl, fun item woken hp ↦ ⟨woken, hp⟩⟩
  · next item =>
    cases ht
    refine ⟨rfl, Nat.sub_le _ _, rfl, fun item' woken hp ↦ ?_⟩
    rw [producer_afterDrain] at hp
    exact (wake_eq_waitingSpace hp).2
  · cases ht
    exact ⟨rfl, le_rfl, rfl, fun item woken hp ↦ ⟨woken, hp⟩⟩
  · cases ht

/-- A step either puts nothing or offers a block, fresh from a reservation or woken. -/
theorem step_cases {a : Action} (ht : s.step a = some t) :
    Quiet s t ∨ ∃ item pacer, pacer.direction = s.pacer.direction ∧ t = offer item { s with pacer := pacer } ∧
      ((∃ now, a = .reserve item.state now) ∧ Windowed s.pacer.direction item.state ∨
        s.producer = .waitingSpace item true) := by
  unfold step at ht
  split_ifs at ht
  split at ht
  · cases ht
    exact .inl ⟨rfl, le_rfl, rfl, fun item woken hp ↦ ⟨woken, hp⟩⟩
  · cases ht
    exact .inl ⟨rfl, le_rfl, rfl, fun item woken hp ↦ ⟨woken, hp⟩⟩
  · obtain ht | ⟨-, ht⟩ := Option.or_eq_some_iff.mp ht
    · exact stepProducer_cases ht
    · exact .inl (stepConsumer_quiet ht)

/-- The windows of the run are at most `W`. -/
structure Within (W : ℚ) (s : Pump) : Prop where
  empty : s.window = none → s.bufferedBytes = 0
  window_le : ∀ w ∈ s.window, w ≤ W
  held : ∀ item woken, s.producer = .waitingSpace item woken →
    ∃ w, windowBytes s.pacer.direction item.state = .ok (some w) ∧ w ≤ W

theorem Within.quiet {W : ℚ} (h : Within W s) (hq : Quiet s t) : Within W t where
  empty hnone := by
    have hs := h.empty (hq.window.symm.trans hnone)
    have hle := hq.buffered
    omega
  window_le := by
    rw [hq.window]
    exact h.window_le
  held item woken hp := by
    obtain ⟨earlier, hs⟩ := hq.waiting item woken hp
    rw [hq.direction]
    exact h.held item earlier hs

theorem Within.offer {W w : ℚ} (h : Within W s) (hw : windowBytes s.pacer.direction item.state = .ok (some w))
    (hle : w ≤ W) : Within W (offer item s) := by
  rw [Pump.offer, hw]
  dsimp only
  split_ifs with hfull
  · refine ⟨h.empty, h.window_le, ?_⟩
    intro item' woken hp
    cases hp
    exact ⟨w, hw, hle⟩
  · refine ⟨fun hnone ↦ (by cases hnone), ?_, fun item' woken hp ↦ (by cases hp)⟩
    intro w' hw'
    cases hw'
    exact hle

/-- A constant finite rate, with windows of at most `W`. -/
def FiniteRate (direction : String) (rate W : ℚ) (_ : Pump) (a : Action) : Prop :=
  ∀ state now, a = .reserve state now → rateOf direction state = .ok (some rate) ∧
    ∀ w, windowBytes direction state = .ok (some w) → w ≤ W

theorem windowBytes_some {direction : String} {state : Control} {rate : ℚ}
    (hrate : rateOf direction state = .ok (some rate)) (h : Windowed direction state) :
    ∃ w, windowBytes direction state = .ok (some w) := by
  obtain ⟨window, hwindow, -⟩ := h
  cases window with
  | some w => exact ⟨w, hwindow⟩
  | none =>
    rw [windowBytes, hrate, ok_bind] at hwindow
    obtain ⟨latency, -, hnone⟩ := bind_eq_ok hwindow
    cases hnone

theorem pacer_offer (item : Item) (s : Pump) : (offer item s).pacer = s.pacer := by
  unfold offer
  split
  · rfl
  · rfl
  · split_ifs
    · rfl
    · rfl

theorem within_step {rate W : ℚ} {direction : String} {a : Action} (h : Within W s)
    (hdirection : s.pacer.direction = direction) (ha : FiniteRate direction rate W s a) (ht : s.step a = some t) :
    Within W t ∧ t.pacer.direction = direction := by
  obtain hquiet | ⟨item, pacer, hpacer, rfl, hitem⟩ := step_cases ht
  · exact ⟨h.quiet hquiet, hquiet.direction.trans hdirection⟩
  · have hsame : Within W { s with pacer := pacer } :=
      h.quiet ⟨rfl, le_rfl, hpacer, fun item woken hp ↦ ⟨woken, hp⟩⟩
    have hwindow : ∃ w, windowBytes pacer.direction item.state = .ok (some w) ∧ w ≤ W := by
      rw [hpacer]
      obtain ⟨⟨now, hreserve⟩, hwindowed⟩ | hwaiting := hitem
      · obtain ⟨hrate, hle⟩ := ha _ _ hreserve
        rw [hdirection] at hwindowed ⊢
        obtain ⟨w, hw⟩ := windowBytes_some hrate hwindowed
        exact ⟨w, hw, hle w hw⟩
      · exact h.held item true hwaiting
    obtain ⟨w, hw, hle⟩ := hwindow
    exact ⟨hsame.offer hw hle, ((congrArg DirectionPacer.direction (pacer_offer item _)).trans hpacer).trans hdirection⟩

theorem Inv.output_prefix (h : Inv whole s) : s.output <+: whole := by
  obtain ⟨rest, hrest, -⟩ := h.stream
  exact ⟨_, hrest⟩

theorem Inv.output_eq (h : Inv whole s) (hr : s.Returned) : s.output = whole := by
  obtain ⟨hproducer, hconsumer⟩ := hr
  obtain ⟨rest, hrest, hheld⟩ := h.stream
  obtain ⟨hinput, hqueue⟩ := h.closed hproducer
  have hempty : s.queue = [] := by
    obtain ⟨-, hempty⟩ | ⟨hopen, -⟩ := hqueue
    · exact hempty
    · exact absurd hconsumer hopen
  rw [hheld (by simp [hproducer]), hproducer, hconsumer, hempty, hinput] at hrest
  simpa [Consumer.unwritten, Producer.held, queued] using hrest

theorem Inv.delivers (h : Inv whole s) (hfailed : ∀ item, s.consumer ≠ .failed item) (hb : s.ProducerBlocked) :
    s.Delivers := by
  obtain hwaiting | ⟨item, hspace⟩ := hb
  · obtain ⟨item, hdraining | hfail⟩ := h.writable (h.waiting hwaiting)
    · exact .inr ⟨item, .inr hdraining⟩
    · exact absurd hfail (hfailed item)
  · obtain ⟨window, hwindow, hfull⟩ := h.full item hspace
    obtain ⟨window', hwindow', hblocks⟩ := h.windowed item false hspace
    have heq : window' = some window := Except.ok.inj (hwindow'.symm.trans hwindow)
    have hfour := hblocks window heq
    have hblock := h.block_le
    rw [hspace, Producer.held] at hblock
    -- There are more than three blocks in the buffer.
    have hpos : 0 < s.bufferedBytes := by
      have hlt : (4 * blockSize : ℚ) < (s.bufferedBytes + item.block.length : ℕ) := by
        push_cast
        exact hfour.trans_lt hfull
      have hlt : 4 * blockSize < s.bufferedBytes + item.block.length := by exact_mod_cast hlt
      omega
    obtain ⟨hconsumer, items, hitems⟩ := h.opened (by simp [hspace])
    have hbuffered := h.buffered
    cases hc : s.consumer with
    | getting =>
      rw [hc, hitems] at hbuffered
      cases items with
      | nil => exact absurd hbuffered hpos.ne'
      | cons first items => exact .inl ⟨first, items.map some, hc, hitems⟩
    | sleeping item => exact .inr ⟨item, .inl hc⟩
    | draining item => exact .inr ⟨item, .inr hc⟩
    | finished => exact absurd hc hconsumer
    | failed item => exact absurd hc (hfailed item)

theorem Inv.not_blocked (h : Inv whole s) :
    ¬(s.ConsumerBlocked ∧ (s.ProducerBlocked ∨ s.producer = .finished)) := by
  rintro ⟨⟨hc, hqueue⟩, hb | hfinished⟩
  · obtain ⟨item, queue, -, hsome⟩ | ⟨item, hsleeping | hdraining⟩ := h.delivers (by simp [hc]) hb
    · rw [hqueue] at hsome
      cases hsome
    · rw [hc] at hsleeping
      cases hsleeping
    · rw [hc] at hdraining
      cases hdraining
  · obtain ⟨-, ⟨hended, -⟩ | ⟨-, items, hitems⟩⟩ := h.closed hfinished
    · rw [hc] at hended
      cases hended
    · rw [hqueue] at hitems
      exact List.append_ne_nil_of_right_ne_nil _ (List.cons_ne_nil _ _) hitems.symm

theorem stepProducer_drained (s : Pump) (p : Producer) : s.stepProducer .drained p = none := by
  cases p with
  | atTop | waitingWritable | reading | reserving | waitingSpace | finished | failed => rfl

theorem not_blocked_of_drained (ht : s.step .drained = some t) : ¬t.ProducerBlocked := by
  have hafter : ∃ item, t = afterDrain item s := by
    unfold step at ht
    split_ifs at ht
    dsimp only at ht
    rw [stepProducer_drained, Option.none_or] at ht
    cases hc : s.consumer with
    | draining item =>
      rw [hc] at ht
      cases ht
      exact ⟨item, rfl⟩
    | getting | sleeping | finished | failed =>
      rw [hc] at ht
      cases ht
  obtain ⟨item, rfl⟩ := hafter
  rintro (hwaiting | ⟨item', hspace⟩)
  · rw [producer_afterDrain] at hwaiting
    exact wake_ne_waitingWritable _ hwaiting
  · rw [producer_afterDrain] at hspace
    cases (wake_eq_waitingSpace hspace).1

theorem reaches_within {pacer : DirectionPacer} {input : List UInt8} {rate W : ℚ}
    (h : Reaches step (FiniteRate pacer.direction rate W) (start pacer input) s) : Within W s := by
  have hboth : Within W s ∧ s.pacer.direction = pacer.direction := by
    apply h.invariant (P := fun s ↦ Within W s ∧ s.pacer.direction = pacer.direction)
    · exact ⟨⟨fun _ ↦ rfl, fun w hw ↦ (by cases hw), fun item woken hp ↦ (by cases hp)⟩, rfl⟩
    · exact fun s a t hs ha ht ↦ within_step hs.1 hs.2 ha ht
  exact hboth.1

/-- Whatever the two coroutines meet at their waits: the output is a prefix of the input, and all of it once both have
ended; a producer that waits has a consumer with a block, and its delivery wakes the producer; the buffer keeps to the
window of the last block. With a constant finite rate every block is put under a window. -/
theorem pump_sound (pacer : DirectionPacer) (input : List UInt8) :
    (∀ s, Reaches step (fun _ _ ↦ True) (start pacer input) s →
      s.output <+: input ∧ (s.Returned → s.output = input) ∧
      ((∀ item, s.consumer ≠ .failed item) → s.ProducerBlocked → s.Delivers) ∧
      ¬(s.ConsumerBlocked ∧ (s.ProducerBlocked ∨ s.producer = .finished)) ∧
      (∀ t, s.step .drained = some t → ¬ t.ProducerBlocked) ∧
      ∀ w ∈ s.window, (s.bufferedBytes : ℚ) ≤ w ∧ (4 * blockSize : ℚ) ≤ w) ∧
    ∀ rate W s, Reaches step (FiniteRate pacer.direction rate W) (start pacer input) s →
      s.bufferedBytes = 0 ∨ ∃ w ∈ s.window, (s.bufferedBytes : ℚ) ≤ w ∧ (4 * blockSize : ℚ) ≤ w ∧ w ≤ W := by
  constructor
  · intro s h
    have hinv := reaches_inv h
    exact ⟨hinv.output_prefix, hinv.output_eq, hinv.delivers, hinv.not_blocked, fun t ↦ not_blocked_of_drained,
      hinv.window⟩
  · intro rate W s h
    have hinv := reaches_inv h
    have hwithin := reaches_within h
    cases hwindow : s.window with
    | none => exact .inl (hwithin.empty hwindow)
    | some w =>
      obtain ⟨hbuffered, hblocks⟩ := hinv.window w hwindow
      exact .inr ⟨w, rfl, hbuffered, hblocks, hwithin.window_le w hwindow⟩

theorem reaches_of_foldlM {l : List Action} {s₀ : Pump} (h : Reaches step (fun _ _ ↦ True) s₀ s)
    (hl : l.foldlM step s = some t) : Reaches step (fun _ _ ↦ True) s₀ t := by
  induction l generalizing s with
  | nil =>
    cases hl
    exact h
  | cons a l ih =>
    rw [List.foldlM_cons] at hl
    obtain ⟨u, hu, hl⟩ := Option.bind_eq_some_iff.mp hl
    exact ih (h.next a trivial hu) hl

def ended (s : Pump) : Bool :=
  match s.producer, s.consumer with
  | .finished, .finished => true
  | _, _ => false

theorem returned_of_ended (h : s.ended = true) : s.Returned := by
  unfold ended at h
  split at h
  · next hp hc => exact ⟨hp, hc⟩
  · cases h

/-- Two bytes in two blocks, on a stream that is not capped. -/
def twoBlocks : List Action :=
  [.checkWritable, .read 1, .reserve .empty 0, .get 1, .drained, .checkWritable, .read 1, .reserve .empty 0,
    .checkWritable, .endOfStream, .get 1, .drained, .get 1]

theorem two_blocks_sound : ∃ s, twoBlocks.foldlM step (start (.create "upload") [7, 8]) = some s ∧ s.Returned ∧
    s.output = [7, 8] := by
  have hrun : (twoBlocks.foldlM step (start (.create "upload") [7, 8])).any ended = true := by decide +kernel
  obtain ⟨s, hs, hended⟩ := Option.any_eq_true .. |>.mp hrun
  have hreturned := returned_of_ended hended
  exact ⟨s, hs, hreturned, ((pump_sound (.create "upload") [7, 8]).1 s (reaches_of_foldlM .start hs)).2.1 hreturned⟩

end Pump

end SplitFleet.Pacing
