import SplitFleet.StateOwnership
import SplitFleet.Broadcasting

set_option autoImplicit false

namespace SplitFleet.Reassembly

open Lib StateOwnership

/-- What the strategy relies on in Flower's `aggregate`: the layerwise sum of `layer * weight`,
divided by the sum of the weights. -/
def weightedMean : List (List Tensor × ℚ) → List Tensor
  | [] => []
  | (x, w) :: rest =>
    let total := (rest.map Prod.snd).foldl (· + ·) w
    let sums := rest.foldl (fun acc u ↦ List.zipWith Tensor.add acc (u.1.map (Tensor.scale u.2)))
      (x.map (Tensor.scale w))
    sums.map (fun t ↦ t.mapTo t.dtype (· / total))

/-- The third-party `aggregate`, with the behaviour it is assumed to have. -/
structure FlowerAggregate where
  run : List (List Tensor × ℚ) → List Tensor
  run_eq : ∀ updates, updates ≠ [] → run updates = weightedMean updates

instance : Inhabited FlowerAggregate := ⟨⟨weightedMean, fun _ _ ↦ rfl⟩⟩

inductive TiedMode
  | reject | additiveSgd
  deriving DecidableEq

structure Slot where
  name : String
  clientInitial : Tensor
  serverInitial : Tensor
  clientValue : Tensor
  serverValue : Tensor

namespace Slot

def clientChanged (s : Slot) : Bool := !s.clientValue.arrayEqual s.clientInitial

def serverChanged (s : Slot) : Bool := !s.serverValue.arrayEqual s.serverInitial

def select (s : Slot) : Tensor :=
  if s.serverChanged then s.serverValue
  else if s.clientChanged then s.clientValue
  else s.clientInitial

def tiedMessage (name : String) : String :=
  "Tied parameter " ++ pyRepr name ++ " changed on both split stages. " ++
  "Set tied_weight_update_mode='additive_sgd' only when both " ++
  "stages use identical stateless SGD without weight decay."

/-- The sum of the deltas of both stages. -/
def bothDeltas (s : Slot) : Except PyError Tensor := do
  let clientDelta ← s.clientValue.subtract s.clientInitial
  let withClient ← s.clientInitial.plus clientDelta
  let serverDelta ← s.serverValue.subtract s.serverInitial
  withClient.plus serverDelta

/-- One turn of the loop of `_reassemble_named_state`. -/
def reassemble (mode : TiedMode) (tied : Bool) (s : Slot) : Except PyError Tensor :=
  if !s.clientInitial.arrayEqual s.serverInitial then
    .error (.runtimeError ("Client/server initial state diverged for parameter " ++ pyRepr s.name ++ "."))
  else if tied then
    if s.clientChanged && s.serverChanged then
      if mode ≠ .additiveSgd then .error (.runtimeError (tiedMessage s.name))
      else s.bothDeltas
    else .ok s.select
  else if s.clientChanged && s.serverChanged && !s.clientValue.arrayEqual s.serverValue then
    .error (.runtimeError
      ("Both prefix and suffix changed parameter " ++ pyRepr s.name ++ "; ownership is ambiguous."))
  else .ok s.select

end Slot

def slots : (names : List String) →
    (initialClient initialServer clientState serverState : List Tensor) → List Slot
  | n :: ns, ic :: ics, is :: iss, c :: cs, s :: ss => ⟨n, ic, is, c, s⟩ :: slots ns ics iss cs ss
  | _, _, _, _, _ => []

def reassembleFrom (mode : TiedMode) (tiedPositions : List ℕ) :
    ℕ → List Slot → Except PyError (List Tensor)
  | _, [] => .ok []
  | position, s :: rest => do
    let x ← s.reassemble mode (position ∈ tiedPositions)
    let xs ← reassembleFrom mode tiedPositions (position + 1) rest
    .ok (x :: xs)

def reassembleNamedState (names : List String)
    (initialClient initialServer clientState serverState : List Tensor)
    (tiedGroups : List (List ℕ)) (mode : TiedMode) : Except PyError (List Tensor) :=
  if names.length ≠ initialClient.length ∨ names.length ≠ initialServer.length ∨
      names.length ≠ clientState.length ∨ names.length ≠ serverState.length then
    .error (.runtimeError "Logical model state schemas differ during per-client reassembly.")
  else
    reassembleFrom mode tiedGroups.flatten 0
      (slots names initialClient initialServer clientState serverState)

theorem reassembleFrom_length {mode : TiedMode} {tied : List ℕ} {position : ℕ} {l : List Slot}
    {xs : List Tensor} (h : reassembleFrom mode tied position l = .ok xs) : xs.length = l.length := by
  induction l generalizing position xs with
  | nil =>
    cases h
    rfl
  | cons s rest ih =>
    cases hx : s.reassemble mode (position ∈ tied) with
    | error e => simp [reassembleFrom, hx, bind, Except.bind] at h
    | ok x =>
      cases hr : reassembleFrom mode tied (position + 1) rest with
      | error e => simp [reassembleFrom, hx, hr, bind, Except.bind] at h
      | ok ys =>
        simp only [reassembleFrom, hx, hr, bind, Except.bind, Except.ok.injEq] at h
        rw [← h, List.length_cons, List.length_cons, ih hr]

theorem slots_length {names : List String} {ic is cs ss : List Tensor}
    (h₁ : names.length = ic.length) (h₂ : names.length = is.length) (h₃ : names.length = cs.length)
    (h₄ : names.length = ss.length) : (slots names ic is cs ss).length = names.length := by
  induction names generalizing ic is cs ss with
  | nil => rfl
  | cons n ns ih =>
    obtain ⟨i, ic, rfl⟩ := List.exists_cons_of_length_eq_add_one h₁.symm
    obtain ⟨j, is, rfl⟩ := List.exists_cons_of_length_eq_add_one h₂.symm
    obtain ⟨c, cs, rfl⟩ := List.exists_cons_of_length_eq_add_one h₃.symm
    obtain ⟨s, ss, rfl⟩ := List.exists_cons_of_length_eq_add_one h₄.symm
    simp only [slots, List.length_cons]
    rw [ih (Nat.succ.inj h₁) (Nat.succ.inj h₂) (Nat.succ.inj h₃) (Nat.succ.inj h₄)]

/-- A reassembled state has one tensor for each logical name, and so have its four sources. -/
theorem reassembleNamedState_length {names : List String} {ic is cs ss xs : List Tensor}
    {tied : List (List ℕ)} {mode : TiedMode}
    (h : reassembleNamedState names ic is cs ss tied mode = .ok xs) :
    xs.length = names.length ∧ ic.length = names.length ∧ is.length = names.length := by
  unfold reassembleNamedState at h
  split_ifs at h with hc
  simp only [not_or, not_not] at hc
  obtain ⟨h₁, h₂, h₃, h₄⟩ := hc
  exact ⟨(reassembleFrom_length h).trans (slots_length h₁ h₂ h₃ h₄), h₁.symm, h₂.symm⟩

/-! ### Reassembly of states whose stages keep to their own tensors -/

/-- A stage's full state: the initial schema, and the initial value wherever `stage` does not own. -/
structure ChangesOnly (stage : Owner) (owners : List Owner) (initial state : List Tensor) : Prop where
  schema : List.Forall₂ SameSchema state initial
  unowned : ∀ i : ℕ, owners[i]? ≠ some stage → state[i]? = initial[i]?

/-- The logical state of a client: each stage's tensors where that stage owns. -/
def mergeOwned : List Owner → (initial client server : List Tensor) → List Tensor
  | o :: os, b :: bs, c :: cs, s :: ss =>
    (if o = .prefixStage then c else if o = .suffixStage then s else b) :: mergeOwned os bs cs ss
  | _, _, _, _ => []

theorem ChangesOnly.tail {stage o : Owner} {os : List Owner} {b x : Tensor} {bs xs : List Tensor}
    (h : ChangesOnly stage (o :: os) (b :: bs) (x :: xs)) :
    SameSchema x b ∧ (o ≠ stage → x = b) ∧ ChangesOnly stage os bs xs := by
  cases h.schema with
  | cons hb hbs =>
    refine ⟨hb, fun ho ↦ ?_, hbs, fun i hi ↦ ?_⟩
    · simpa using h.unowned 0 (by simpa using ho)
    · simpa using h.unowned (i + 1) (by simpa using hi)

theorem arrayEqual_self (x : Tensor) : x.arrayEqual x = true := (Tensor.arrayEqual_iff rfl).mpr rfl

theorem reassemble_owned (mode : TiedMode) (o : Owner) (name : String) {b c s : Tensor}
    (hc : SameSchema c b) (hs : SameSchema s b) (hp : o ≠ .prefixStage → c = b)
    (hq : o ≠ .suffixStage → s = b) :
    (⟨name, b, b, c, s⟩ : Slot).reassemble mode false =
      .ok (if o = .prefixStage then c else if o = .suffixStage then s else b) := by
  have hcb := Tensor.arrayEqual_iff hc.2
  have hsb := Tensor.arrayEqual_iff hs.2
  by_cases ho : o = .prefixStage
  · obtain rfl := hq (by rw [ho]; decide)
    by_cases he : c.arrayEqual s = true
    · obtain rfl := hcb.mp he
      simp [Slot.reassemble, Slot.select, Slot.clientChanged, Slot.serverChanged, arrayEqual_self, ho]
    · simp [Slot.reassemble, Slot.select, Slot.clientChanged, Slot.serverChanged, arrayEqual_self, ho, he]
  · obtain rfl := hp ho
    by_cases hos : o = .suffixStage
    · by_cases he : s.arrayEqual c = true
      · obtain rfl := hsb.mp he
        simp [Slot.reassemble, Slot.select, Slot.clientChanged, Slot.serverChanged, arrayEqual_self]
      · simp [Slot.reassemble, Slot.select, Slot.clientChanged, Slot.serverChanged, arrayEqual_self, hos, he]
    · obtain rfl := hq hos
      simp [Slot.reassemble, Slot.select, Slot.clientChanged, Slot.serverChanged, arrayEqual_self]

theorem reassembleFrom_owned (mode : TiedMode) (position : ℕ) {names : List String} {os : List Owner}
    {initial client server : List Tensor} (hn : names.length = initial.length)
    (ho : os.length = initial.length) (hc : ChangesOnly .prefixStage os initial client)
    (hs : ChangesOnly .suffixStage os initial server) :
    reassembleFrom mode [] position (slots names initial initial client server) =
      .ok (mergeOwned os initial client server) := by
  induction names generalizing position os initial client server with
  | nil =>
    cases initial with
    | nil =>
      cases os with
      | nil => rfl
      | cons o os => simp at ho
    | cons b bs => simp at hn
  | cons n ns ih =>
    cases initial with
    | nil => simp at hn
    | cons b bs =>
      cases os with
      | nil => simp at ho
      | cons o os =>
        cases client with
        | nil => cases hc.schema
        | cons c cs =>
          cases server with
          | nil => cases hs.schema
          | cons s ss =>
            obtain ⟨hcb, hcu, hct⟩ := hc.tail
            obtain ⟨hsb, hsu, hst⟩ := hs.tail
            have hx := reassemble_owned mode o n hcb hsb hcu hsu
            have hr := ih (position + 1) (by simpa using hn) (by simpa using ho) hct hst
            simp [slots, reassembleFrom, mergeOwned, hx, hr, bind, Except.bind]

/-- Change detection finds the same owner as the manifest declares. -/
theorem reassembleNamedState_owned (mode : TiedMode) {names : List String} {os : List Owner}
    {initial client server : List Tensor} (hn : names.length = initial.length)
    (ho : os.length = initial.length) (hc : ChangesOnly .prefixStage os initial client)
    (hs : ChangesOnly .suffixStage os initial server) :
    reassembleNamedState names initial initial client server [] mode =
      .ok (mergeOwned os initial client server) := by
  have h₁ := hc.schema.length_eq
  have h₂ := hs.schema.length_eq
  have h := reassembleFrom_owned mode 0 hn ho hc hs
  simp only [reassembleNamedState, hn, h₁, h₂, ne_eq, not_true_eq_false, or_self, if_false]
  exact h

end SplitFleet.Reassembly
