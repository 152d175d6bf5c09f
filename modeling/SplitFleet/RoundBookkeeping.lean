import SplitFleet.Strategy

set_option autoImplicit false

namespace SplitFleet.RoundBookkeeping

open Lib Strategy Stores

variable (S : Settings)

/-- What `configure_fit` meets: the selection of the clients and all that precedes the planning may
raise; otherwise it gives the clients and the answer of the placement policy. -/
structure FitInput where
  parameters : List Tensor
  selection : Except PyError (List Cid × Except PyError (Dict Cid String))

/-- A call other than `configure_fit`. The last one is the planning of the evaluation calls. -/
inductive Call
  | configureServerFit (parameters : List Tensor) (cids : List Cid) (plan : Except PyError (Dict Cid String))
  | aggregateFit (results : List FitRes) (observed metrics : Except PyError Unit)
  | aggregateServerFit (results : List ServerFitRes)
  | finalizeRound (client server : Option (List Tensor))
  | planPlacements (cids : List Cid) (training : Bool) (plan : Except PyError (Dict Cid String))

/-- What a call returns or raises. -/
inductive Output
  | configurations (r : Except PyError (List (Cid × AutosplitConfig)))
  | model (r : Except PyError (Option (List Tensor)))
  | halves (client server : Option (List Tensor))
  | placements (r : Except PyError (Dict Cid String))

def configure (s : Stores) (round : ℕ) (input : FitInput) : Stores × Output :=
  match input.selection with
  | .error e =>
    ((s.discardRoundState ((round : ℤ) - 1)).setInitialClient round input.parameters,
      .configurations (.error e))
  | .ok (selected, plan) =>
    let (s, r) := configureFit S s round input.parameters selected plan
    (s, .configurations r)

def Call.run (s : Stores) (round : ℕ) : Call → Stores × Output
  | .configureServerFit parameters cids plan =>
    let (s, r) := Strategy.configureServerFit S s round parameters cids plan
    (s, .configurations r)
  | .aggregateFit results observed metrics =>
    let (s, r) := Strategy.aggregateFit S s round results observed metrics
    (s, .model r)
  | .aggregateServerFit results =>
    let (s, r) := Strategy.aggregateServerFit S s round results
    (s, .model r)
  | .finalizeRound client server =>
    let (s, r) := Strategy.finalizeRound s round client server
    (s, .halves r.1 r.2)
  | .planPlacements cids training plan =>
    let (s, r) := planRoundPlacements S s round cids training plan
    (s, .placements r)

/-- The calls of one round, whatever each of them raises. -/
def runCalls (round : ℕ) : Stores → List Call → Stores × List Output
  | s, [] => (s, [])
  | s, c :: calls =>
    let (s, output) := c.run S s round
    let (s, outputs) := runCalls round s calls
    (s, output :: outputs)

/-- `configure_fit` and the calls that follow it in its round. -/
def runRound (s : Stores) (round : ℕ) (input : FitInput) (calls : List Call) : Stores × List Output :=
  let (s, output) := configure S s round input
  let (s, outputs) := runCalls S round s calls
  (s, output :: outputs)

/-- The stores after calls of rounds below `bound`, in any order, each round with any of its calls. -/
inductive Before (bound : ℕ) : Stores → Prop
  | fresh : Before bound .fresh
  | configure {s : Stores} (h : Before bound s) (round : ℕ) (hr : round < bound) (input : FitInput) :
      Before bound (configure S s round input).1
  | call {s : Stores} (h : Before bound s) (round : ℕ) (hr : round < bound) (c : Call) :
      Before bound (c.run S s round).1

/-- The five stores of model states and manifests hold nothing for `key`. -/
def Clear (s : Stores) (key : ℕ) : Prop :=
  s.roundInitialClientStates key = none ∧ s.roundInitialServerStates key = none ∧
    s.pendingClientUpdates key = none ∧ s.reassembledClientStates key = none ∧ s.roundOwnership key = none

/-- The placements of `round` are fixed, for training or for evaluation. -/
def Planned (s : Stores) (round : ℕ) : Prop := ∃ training, s.roundPlacementAssignments round training ≠ none

variable {S} {s s' s'' : Stores} {round : ℕ}

/-! ### What one call writes -/

/-- The five stores change at `round` alone, or lose entries, and no placement changes. -/
structure Touches (round : ℕ) (s s' : Stores) : Prop where
  clear : ∀ key, key ≠ round → Clear s key → Clear s' key
  assignments : s'.roundPlacementAssignments = s.roundPlacementAssignments

theorem Touches.refl : Touches round s s := ⟨fun _ _ h ↦ h, rfl⟩

theorem Touches.trans (h : Touches round s s') (h' : Touches round s' s'') : Touches round s s'' :=
  ⟨fun key hk hc ↦ h'.clear key hk (h.clear key hk hc), h'.assignments.trans h.assignments⟩

theorem touches_discard (through : ℤ) : Touches round s (s.discardRoundState through) := by
  refine ⟨?_, rfl⟩
  intro key _ h
  obtain ⟨h₁, h₂, h₃, h₄, h₅⟩ := h
  simp [Clear, discardRoundState, dropThrough, h₁, h₂, h₃, h₄, h₅]

/-- An update of the entries of `round` in the five stores. -/
theorem touches_of_eq (he : ∀ key, key ≠ round → s'.roundInitialClientStates key = s.roundInitialClientStates key ∧
      s'.roundInitialServerStates key = s.roundInitialServerStates key ∧
      s'.pendingClientUpdates key = s.pendingClientUpdates key ∧
      s'.reassembledClientStates key = s.reassembledClientStates key ∧
      s'.roundOwnership key = s.roundOwnership key)
    (ha : s'.roundPlacementAssignments = s.roundPlacementAssignments) : Touches round s s' := by
  refine ⟨?_, ha⟩
  intro key hk hc
  obtain ⟨h₁, h₂, h₃, h₄, h₅⟩ := he key hk
  rw [Clear, h₁, h₂, h₃, h₄, h₅]
  exact hc

theorem touches_setInitialClient (x : List Tensor) : Touches round s (s.setInitialClient round x) := by
  refine touches_of_eq ?_ rfl
  intro key hk
  simp [setInitialClient, put, hk]

theorem touches_setInitialServer (x : List Tensor) : Touches round s (s.setInitialServer round x) := by
  refine touches_of_eq ?_ rfl
  intro key hk
  simp [setInitialServer, put, hk]

theorem touches_setPending (x : Dict Cid (List Tensor × ℚ)) : Touches round s (s.setPending round x) := by
  refine touches_of_eq ?_ rfl
  intro key hk
  simp [setPending, put, hk]

theorem touches_recordOwnership (cid : Cid) (m : StateOwnership.Manifest) :
    Touches round s (s.recordOwnership round cid m) := by
  refine touches_of_eq ?_ rfl
  intro key hk
  simp [recordOwnership, setOwnership, put, hk]

theorem touches_popRound : Touches round s (s.popRound round) := by
  refine touches_of_eq ?_ rfl
  intro key hk
  simp [popRound, pop, hk]

theorem touches_popOwnership : Touches round s (s.popOwnership round) := by
  refine touches_of_eq ?_ rfl
  intro key hk
  simp [popOwnership, pop, hk]

theorem touches_setReassembled (x : List Tensor) : Touches round s (s.setReassembled round x) := by
  refine touches_of_eq ?_ rfl
  intro key hk
  simp [setReassembled, put, hk]

theorem touches_popReassembled : Touches round s (s.popReassembled round) := by
  refine touches_of_eq ?_ rfl
  intro key hk
  simp [popReassembled, pop, hk]

theorem touches_configureClients (assignments : Dict Cid String) (cids : List Cid) :
    Touches round s (configureClients S round assignments s cids).1 := by
  induction cids generalizing s with
  | nil => exact .refl
  | cons cid rest ih =>
    rw [configureClients]
    cases clientConfig S assignments cid with
    | error e => exact .refl
    | ok config =>
      apply Touches.trans _ ih
      split_ifs
      · exact touches_recordOwnership cid config.ownership
      · exact .refl

theorem touches_aggregateFit (results : List FitRes) (observed metrics : Except PyError Unit) :
    Touches round s (Strategy.aggregateFit S s round results observed metrics).1 := by
  unfold Strategy.aggregateFit
  dsimp only
  -- A branch writes the round's updates, or nothing.
  repeat' split
  all_goals first | exact .refl | exact touches_setPending _

theorem touches_aggregateServerFit (results : List ServerFitRes) :
    Touches round s (Strategy.aggregateServerFit S s round results).1 := by
  have hpop : Touches round s (s.popRound round) := touches_popRound
  have howned : Touches round s ((s.popRound round).popOwnership round) := hpop.trans touches_popOwnership
  unfold Strategy.aggregateServerFit
  dsimp only
  repeat' split
  all_goals first
    | exact touches_discard round
    | exact hpop
    | exact howned
    | exact hpop.trans (touches_setReassembled _)
    | exact howned.trans (touches_setReassembled _)

theorem touches_finalizeRound (client server : Option (List Tensor)) :
    Touches round s (Strategy.finalizeRound s round client server).1 := by
  unfold Strategy.finalizeRound
  split <;> exact touches_popReassembled

/-- Planning changes nothing, or it fixes the placements of a phase that had none. -/
theorem planRoundPlacements_cases (S : Settings) (s : Stores) (round : ℕ) (cids : List Cid) (training : Bool) (plan : Except PyError (Dict Cid String)) :
    (planRoundPlacements S s round cids training plan).1 = s ∨
      s.roundPlacementAssignments round training = none ∧ ∃ assignments,
        (planRoundPlacements S s round cids training plan).1 =
          (s.placeRound round training assignments).prunePlacementCache round := by
  unfold planRoundPlacements
  cases hc : s.roundPlacementAssignments round training with
  | some cached =>
    dsimp only
    split_ifs <;> exact .inl rfl
  | none =>
    dsimp only
    split
    · exact .inl rfl
    · split_ifs
      · exact .inl rfl
      · exact .inr ⟨rfl, _, rfl⟩

/-- A property of the stores that the calls of `round` keep. -/
structure Kept (S : Settings) (round : ℕ) (P : Stores → Prop) : Prop where
  touches : ∀ s s', Touches round s s' → P s → P s'
  plan : ∀ s cids training plan, P s → P (planRoundPlacements S s round cids training plan).1

variable {P : Stores → Prop}

theorem Kept.configure (hk : Kept S round P) {input : FitInput}
    (h : P ((s.discardRoundState ((round : ℤ) - 1)).setInitialClient round input.parameters)) :
    P (configure S s round input).1 := by
  unfold RoundBookkeeping.configure
  split
  · exact h
  · next selected plan _ =>
    have hp := hk.plan _ selected true plan h
    unfold configureFit
    dsimp only
    split
    · next heq =>
      rw [heq] at hp
      exact hp
    · next assignments heq =>
      rw [heq] at hp
      exact hk.touches _ _ (touches_configureClients assignments selected) hp

theorem Kept.call (hk : Kept S round P) (h : P s) (c : Call) : P (c.run S s round).1 := by
  cases c with
  | configureServerFit parameters cids plan =>
    simp only [Call.run, Strategy.configureServerFit]
    split
    · exact h
    · next initial _ =>
      have hp := hk.plan _ cids true plan (hk.touches _ _ (touches_setInitialServer initial) h)
      split
      all_goals
        rename_i heq
        rw [heq] at hp
        exact hp
  | aggregateFit results observed metrics => exact hk.touches _ _ (touches_aggregateFit results observed metrics) h
  | aggregateServerFit results => exact hk.touches _ _ (touches_aggregateServerFit results) h
  | finalizeRound client server => exact hk.touches _ _ (touches_finalizeRound client server) h
  | planPlacements cids training plan => exact hk.plan s cids training plan h

theorem Kept.runCalls (hk : Kept S round P) (h : P s) (calls : List Call) :
    P (runCalls S round s calls).1 := by
  induction calls generalizing s with
  | nil => exact h
  | cons c calls ih => exact ih (hk.call h c)

theorem Kept.runRound (hk : Kept S round P) {input : FitInput} (calls : List Call)
    (h : P ((s.discardRoundState ((round : ℤ) - 1)).setInitialClient round input.parameters)) :
    P (runRound S s round input calls).1 :=
  hk.runCalls (hk.configure h) calls

/-! ### The invariant of a round -/

/-- Nothing is stored for the rounds from `bound` on. -/
structure Unused (bound : ℕ) (s : Stores) : Prop where
  clear : ∀ key, bound ≤ key → Clear s key
  assignments : ∀ key, bound ≤ key → ∀ training, s.roundPlacementAssignments key training = none

theorem unused_kept {bound : ℕ} (hr : round < bound) : Kept S round (Unused bound) where
  touches s s' ht h := by
    refine ⟨?_, ?_⟩
    · intro key hk
      exact ht.clear key (by omega) (h.clear key hk)
    · rw [ht.assignments]
      exact h.assignments
  plan s cids training plan h := by
    rcases planRoundPlacements_cases S s round cids training plan with
      hs | ⟨-, assignments, hs⟩
    · rw [hs]
      exact h
    · rw [hs]
      refine ⟨h.clear, ?_⟩
      intro key hk flag
      have hlt : ¬ key < round := by omega
      have hne : key ≠ round := by omega
      simp [prunePlacementCache, placeRound, hlt, hne, h.assignments key hk flag]

theorem unused_of_before {bound : ℕ} (h : Before S bound s) : Unused bound s := by
  induction h with
  | fresh => exact ⟨fun _ _ ↦ ⟨rfl, rfl, rfl, rfl, rfl⟩, fun _ _ _ ↦ rfl⟩
  | @configure s _ round hr input ih =>
    have hk := unused_kept (S := S) hr
    apply hk.configure
    exact hk.touches _ _ ((touches_discard _).trans (touches_setInitialClient input.parameters)) ih
  | call _ round hr c ih => exact (unused_kept hr).call ih c

/-- Of the five stores only the entries of `round` are left; once it is planned, the placements of
the rounds before it are gone. -/
structure Bounded (round : ℕ) (s : Stores) : Prop where
  clear : ∀ key, key ≠ round → Clear s key
  later : ∀ key, round < key → ∀ training, s.roundPlacementAssignments key training = none
  pruned : Planned s round → ∀ key, key < round → ∀ training, s.roundPlacementAssignments key training = none

theorem bounded_kept : Kept S round (Bounded round) where
  touches s s' ht h := by
    refine ⟨?_, ?_, ?_⟩
    · intro key hk
      exact ht.clear key hk (h.clear key hk)
    · rw [ht.assignments]
      exact h.later
    · rw [Planned, ht.assignments]
      exact h.pruned
  plan s cids training plan h := by
    rcases planRoundPlacements_cases S s round cids training plan with
      hs | ⟨-, assignments, hs⟩
    · rw [hs]
      exact h
    · rw [hs]
      refine ⟨h.clear, ?_, ?_⟩
      · intro key hk flag
        have hlt : ¬ key < round := by omega
        have hne : key ≠ round := by omega
        simp [prunePlacementCache, placeRound, hlt, hne, h.later key hk flag]
      · intro _ key hk flag
        simp [prunePlacementCache, hk]

/-- `_discard_round_state(round - 1)` leaves nothing of the rounds before, whatever they left. -/
theorem bounded_of_unused (h : Unused round s) (x : List Tensor) :
    Bounded round ((s.discardRoundState ((round : ℤ) - 1)).setInitialClient round x) := by
  refine ⟨?_, ?_, ?_⟩
  · intro key hk
    rcases Nat.lt_or_gt_of_ne hk with hlt | hgt
    · have hd : (key : ℤ) ≤ (round : ℤ) - 1 := by omega
      simp [Clear, setInitialClient, put, discardRoundState, dropThrough, hk, hd]
    · have ht : Touches round s ((s.discardRoundState ((round : ℤ) - 1)).setInitialClient round x) :=
        (touches_discard _).trans (touches_setInitialClient x)
      exact ht.clear key hk (h.clear key (by omega))
  · intro key hk
    exact h.assignments key (by omega)
  · intro hp
    obtain ⟨training, hp⟩ := hp
    exact absurd (h.assignments round le_rfl training) hp

theorem bounded_runRound (h : Before S round s) (input : FitInput) (calls : List Call) :
    Bounded round (runRound S s round input calls).1 :=
  bounded_kept.runRound calls (bounded_of_unused (unused_of_before h) input.parameters)

/-! ### What one call reads -/

/-- The entries of one round, and nothing else. -/
def onlyAt {α : Type} (round : ℕ) (store : ℕ → Option α) : ℕ → Option α :=
  fun key ↦ if key = round then store key else none

def onlyRound (round : ℕ) (s : Stores) : Stores where
  roundOwnership := onlyAt round s.roundOwnership
  roundPlacementAssignments := fun key training ↦
    if key = round then s.roundPlacementAssignments key training else none
  roundInitialClientStates := onlyAt round s.roundInitialClientStates
  roundInitialServerStates := onlyAt round s.roundInitialServerStates
  pendingClientUpdates := onlyAt round s.pendingClientUpdates
  reassembledClientStates := onlyAt round s.reassembledClientStates

@[simp] theorem onlyAt_self {α : Type} (store : ℕ → Option α) : onlyAt round store round = store round :=
  if_pos rfl

theorem onlyAt_put {α : Type} (store : ℕ → Option α) (x : α) :
    put (onlyAt round store) round x = onlyAt round (put store round x) := by
  funext key
  by_cases hk : key = round
  · simp [put, onlyAt, hk]
  · simp [put, onlyAt, hk]

theorem onlyAt_pop {α : Type} (store : ℕ → Option α) :
    pop (onlyAt round store) round = onlyAt round (pop store round) := by
  funext key
  by_cases hk : key = round
  · simp [pop, onlyAt, hk]
  · simp [pop, onlyAt, hk]

theorem onlyAt_dropThrough {α : Type} (through : ℤ) (store : ℕ → Option α) :
    dropThrough through (onlyAt round store) = onlyAt round (dropThrough through store) := by
  funext key
  by_cases hk : key = round
  · simp [dropThrough, onlyAt, hk]
  · simp [dropThrough, onlyAt, hk]

@[simp] theorem onlyRound_discardRoundState (through : ℤ) :
    (onlyRound round s).discardRoundState through = onlyRound round (s.discardRoundState through) := by
  simp [onlyRound, discardRoundState, onlyAt_dropThrough]

@[simp] theorem onlyRound_setInitialClient (x : List Tensor) :
    (onlyRound round s).setInitialClient round x = onlyRound round (s.setInitialClient round x) := by
  simp [onlyRound, setInitialClient, onlyAt_put]

@[simp] theorem onlyRound_setInitialServer (x : List Tensor) :
    (onlyRound round s).setInitialServer round x = onlyRound round (s.setInitialServer round x) := by
  simp [onlyRound, setInitialServer, onlyAt_put]

@[simp] theorem onlyRound_setPending (x : Dict Cid (List Tensor × ℚ)) :
    (onlyRound round s).setPending round x = onlyRound round (s.setPending round x) := by
  simp [onlyRound, setPending, onlyAt_put]

@[simp] theorem onlyRound_recordOwnership (cid : Cid) (m : StateOwnership.Manifest) :
    (onlyRound round s).recordOwnership round cid m = onlyRound round (s.recordOwnership round cid m) := by
  simp [onlyRound, recordOwnership, setOwnership, onlyAt_put]

@[simp] theorem onlyRound_popRound :
    (onlyRound round s).popRound round = onlyRound round (s.popRound round) := by
  simp [onlyRound, popRound, onlyAt_pop]

@[simp] theorem onlyRound_popOwnership :
    (onlyRound round s).popOwnership round = onlyRound round (s.popOwnership round) := by
  simp [onlyRound, popOwnership, onlyAt_pop]

@[simp] theorem onlyRound_setReassembled (x : List Tensor) :
    (onlyRound round s).setReassembled round x = onlyRound round (s.setReassembled round x) := by
  simp [onlyRound, setReassembled, onlyAt_put]

@[simp] theorem onlyRound_popReassembled :
    (onlyRound round s).popReassembled round = onlyRound round (s.popReassembled round) := by
  simp [onlyRound, popReassembled, onlyAt_pop]

@[simp] theorem onlyRound_place (training : Bool) (assignments : Dict Cid String) :
    ((onlyRound round s).placeRound round training assignments).prunePlacementCache round =
      onlyRound round ((s.placeRound round training assignments).prunePlacementCache round) := by
  simp only [onlyRound, placeRound, prunePlacementCache, Stores.mk.injEq, true_and, and_true]
  funext key flag
  by_cases hk : key = round
  · simp [hk]
  · simp [hk]

/-- A result with the entries of one round. -/
def confine {α : Type} (round : ℕ) (p : Stores × α) : Stores × α := (onlyRound round p.1, p.2)

/-- A call of `round` reads and writes the entries of `round` alone. -/
theorem planRoundPlacements_only (cids : List Cid) (training : Bool) (plan : Except PyError (Dict Cid String)) :
    planRoundPlacements S (onlyRound round s) round cids training plan =
      confine round (planRoundPlacements S s round cids training plan) := by
  have hread : (onlyRound round s).roundPlacementAssignments round training =
      s.roundPlacementAssignments round training := if_pos rfl
  simp only [planRoundPlacements, hread, onlyRound_place]
  cases s.roundPlacementAssignments round training with
  | some cached =>
    dsimp only
    split_ifs <;> rfl
  | none =>
    dsimp only
    split
    · rfl
    · split_ifs <;> rfl

theorem configureClients_only (assignments : Dict Cid String) (cids : List Cid) :
    configureClients S round assignments (onlyRound round s) cids =
      confine round (configureClients S round assignments s cids) := by
  induction cids generalizing s with
  | nil => rfl
  | cons cid rest ih =>
    simp only [configureClients]
    cases clientConfig S assignments cid with
    | error e => rfl
    | ok config =>
      dsimp only
      split_ifs
      · rw [onlyRound_recordOwnership, ih]
        rfl
      · rw [ih]
        rfl

theorem configure_only (input : FitInput) :
    configure S (onlyRound round s) round input = confine round (configure S s round input) := by
  simp only [configure, onlyRound_discardRoundState, onlyRound_setInitialClient]
  cases input.selection with
  | error e => rfl
  | ok p =>
    obtain ⟨selected, plan⟩ := p
    simp only [configureFit, onlyRound_discardRoundState, onlyRound_setInitialClient, planRoundPlacements_only]
    rcases planRoundPlacements S _ round selected true plan with ⟨s', e | assignments⟩
    · rfl
    · simp only [confine, configureClients_only]

theorem configureServerFit_only (parameters : List Tensor) (cids : List Cid) (plan : Except PyError (Dict Cid String)) :
    Strategy.configureServerFit S (onlyRound round s) round parameters cids plan =
      confine round (Strategy.configureServerFit S s round parameters cids plan) := by
  have hread : (onlyRound round s).roundInitialClientStates round = s.roundInitialClientStates round := onlyAt_self _
  simp only [Strategy.configureServerFit, hread, onlyRound_setInitialServer, planRoundPlacements_only]
  split
  · rfl
  · rcases planRoundPlacements S _ round cids true plan with ⟨s', e | assignments⟩ <;> rfl

theorem aggregateFit_only (results : List FitRes) (observed metrics : Except PyError Unit) :
    Strategy.aggregateFit S (onlyRound round s) round results observed metrics =
      confine round (Strategy.aggregateFit S s round results observed metrics) := by
  have hread : (onlyRound round s).roundOwnership round = s.roundOwnership round := onlyAt_self _
  simp only [Strategy.aggregateFit, hread, onlyRound_setPending]
  repeat' split
  all_goals rfl

theorem aggregateServerFit_only (results : List ServerFitRes) :
    Strategy.aggregateServerFit S (onlyRound round s) round results =
      confine round (Strategy.aggregateServerFit S s round results) := by
  have hclient : (onlyRound round s).roundInitialClientStates round = s.roundInitialClientStates round := onlyAt_self _
  have hserver : (onlyRound round s).roundInitialServerStates round = s.roundInitialServerStates round := onlyAt_self _
  have hpending : (onlyRound round s).pendingClientUpdates round = s.pendingClientUpdates round := onlyAt_self _
  have howned : ∀ t : Stores, (onlyRound round t).roundOwnership round = t.roundOwnership round := fun t ↦ onlyAt_self _
  simp only [Strategy.aggregateServerFit, hclient, hserver, hpending, howned, onlyRound_discardRoundState,
    onlyRound_popRound, onlyRound_popOwnership]
  cases results.isEmpty with
  | true => rfl
  | false =>
    cases S.perClient with
    | false => rfl
    | true =>
      cases s.pendingClientUpdates round with
      | none => rfl
      | some clientUpdates =>
        cases hempty : clientUpdates.entries.isEmpty with
        | true => simp [hempty, confine]
        | false =>
          cases s.roundInitialClientStates round with
          | none => simp [hempty, confine]
          | some initialClient =>
            cases s.roundInitialServerStates round with
            | none => simp [hempty, confine]
            | some initialServer =>
              cases S.ownedStateExchange <;>
                simp only [hempty, Bool.false_eq_true, if_false, if_true] <;>
                split <;> simp [confine]

theorem finalizeRound_only (client server : Option (List Tensor)) :
    Strategy.finalizeRound (onlyRound round s) round client server =
      confine round (Strategy.finalizeRound s round client server) := by
  have hread : (onlyRound round s).reassembledClientStates round = s.reassembledClientStates round := onlyAt_self _
  simp only [Strategy.finalizeRound, hread, onlyRound_popReassembled]
  split <;> rfl

theorem call_only (c : Call) : c.run S (onlyRound round s) round = confine round (c.run S s round) := by
  cases c with
  | configureServerFit parameters cids plan =>
    simp only [Call.run, configureServerFit_only]
    rfl
  | aggregateFit results observed metrics =>
    simp only [Call.run, aggregateFit_only]
    rfl
  | aggregateServerFit results =>
    simp only [Call.run, aggregateServerFit_only]
    rfl
  | finalizeRound client server =>
    simp only [Call.run, finalizeRound_only]
    rfl
  | planPlacements cids training plan =>
    simp only [Call.run, planRoundPlacements_only]
    rfl

theorem runCalls_only (calls : List Call) :
    runCalls S round (onlyRound round s) calls = confine round (runCalls S round s calls) := by
  induction calls generalizing s with
  | nil => rfl
  | cons c calls ih =>
    simp only [runCalls, call_only, confine, ih]

theorem runRound_only (input : FitInput) (calls : List Call) :
    runRound S (onlyRound round s) round input calls = confine round (runRound S s round input calls) := by
  simp only [runRound, configure_only, confine, runCalls_only]

/-- Nothing is stored for a round before its `configure_fit`. -/
theorem onlyRound_of_unused (h : Unused round s) : onlyRound round s = .fresh := by
  obtain ⟨h₁, h₂, h₃, h₄, h₅⟩ := h.clear round le_rfl
  have ha := h.assignments round le_rfl
  have he : ∀ {α : Type} {store : ℕ → Option α}, store round = none → onlyAt round store = fun _ ↦ none := by
    intro α store hs
    funext key
    by_cases hk : key = round
    · simp [onlyAt, hk, hs]
    · simp [onlyAt, hk]
  simp only [onlyRound, he h₁, he h₂, he h₃, he h₄, he h₅, fresh, Stores.mk.injEq, true_and, and_true]
  funext key training
  by_cases hk : key = round
  · simp [hk, ha]
  · simp [hk]

/-- In the states of a round, after any history of rounds below it, the stores of model states hold
that round alone and planning it has dropped the placements of the others; what its calls give is
what they give on a new strategy. -/
theorem round_bounded_fresh (h : Before S round s) (input : FitInput) (calls : List Call) :
    (∀ key, key ≠ round → Clear (runRound S s round input calls).1 key) ∧
      (Planned (runRound S s round input calls).1 round → ∀ key, key < round → ∀ training,
        (runRound S s round input calls).1.roundPlacementAssignments key training = none) ∧
      (runRound S s round input calls).2 = (runRound S .fresh round input calls).2 := by
  have hb := bounded_runRound h input calls
  refine ⟨hb.clear, hb.pruned, ?_⟩
  have hlocal : runRound S (onlyRound round s) round input calls = _ := runRound_only input calls
  rw [onlyRound_of_unused (unused_of_before h)] at hlocal
  exact (congrArg Prod.snd hlocal).symm

/-- One replica per client, no placement policy and one placement plan. -/
def splitfedSettings : Settings :=
  ⟨true, false, fun _ ↦ rfl, .weightedRound, .reject, ["w"], [], false, "50%",
    fun boundary ↦ .ok ⟨"plan", boundary, "", ⟨[], [], ""⟩⟩, default⟩

def twoClients : FitInput := ⟨[], .ok (["a", "b"], .ok Dict.empty)⟩

/-- Round 1 is configured on both sides and never aggregated. -/
def abandoned : Stores :=
  ((Call.configureServerFit [] ["a", "b"] (.ok Dict.empty)).run splitfedSettings
    (configure splitfedSettings .fresh 1 twoClients).1 1).1

theorem abandoned_before : Before splitfedSettings 2 abandoned :=
  .call (.configure .fresh 1 (by decide) twoClients) 1 (by decide) _

theorem abandoned_bounded :
    ¬ Clear abandoned 1 ∧ Clear (runRound splitfedSettings abandoned 2 twoClients []).1 1 := by
  refine ⟨?_, (round_bounded_fresh abandoned_before twoClients []).1 1 (by decide)⟩
  rintro ⟨h, -⟩
  cases h

end SplitFleet.RoundBookkeeping
