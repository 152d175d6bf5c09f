import SplitFleet.Lib.Method
import SplitFleet.Lib.Runs
import Mathlib.Data.Int.ModEq
import Mathlib.Logic.Function.Basic

set_option autoImplicit false

namespace SplitFleet.ReplicaRng

open Lib

/-- `torch.device` -/
structure Device where
  kind : String
  index : Option ℕ
  deriving DecidableEq

/-- The device with the index that CUDA runs on. -/
def Device.normalized (current : ℕ) (d : Device) : Device :=
  if d.kind = "cuda" then ⟨"cuda", some (d.index.getD current)⟩ else d

/-- The state of a `torch.Generator`: what it was seeded with, and how much was drawn from it. -/
structure Generator where
  seed : ℕ
  drawn : ℕ
  deriving DecidableEq

/-- The states that `n` draws are made from. -/
def Generator.take (g : Generator) (n : ℕ) : List Generator := (List.range n).map fun i ↦ ⟨g.seed, g.drawn + i⟩

def SEED_MODULUS : ℤ := 2 ^ 63 - 1

/-- The generator of the replica's own device. -/
structure TorchReplicaRNG where
  device : Device
  generator : Generator

def TorchReplicaRNG.create (device : Device) (seed : ℤ) : TorchReplicaRNG :=
  ⟨device, ⟨((seed % SEED_MODULUS + device.index.getD 0 * 1000003) % SEED_MODULUS).toNat, 0⟩⟩

/-! ### The backend of a runtime -/

structure Backend where
  replicaRngIsolation : Bool
  replicaRngSeed : Option ℤ
  suffixRng : Option TorchReplicaRNG
  suffixRngDevice : Option Device

namespace Backend

def resetExecutionState (b : Backend) : Backend := { b with suffixRng := none, suffixRngDevice := none }

def enableReplicaRngIsolation (b : Backend) (enabled : Bool) (seed : ℤ) : Backend :=
  let normalized := seed % SEED_MODULUS
  let b' := { b with replicaRngIsolation := enabled, replicaRngSeed := some normalized }
  if enabled ≠ b.replicaRngIsolation ∨ some normalized ≠ b.replicaRngSeed then b'.resetExecutionState else b'

/-- `_suffix_rng_scope`, and the backend after it. -/
def suffixRngScope (b : Backend) (current : ℕ) (device : Device) : Option TorchReplicaRNG × Backend :=
  match b.replicaRngSeed with
  | none => (none, b)
  | some seed =>
    if b.replicaRngIsolation = false then (none, b)
    else
      let normalized := device.normalized current
      match b.suffixRng with
      | some rng =>
        if b.suffixRngDevice = some normalized then (some rng, b)
        else
          let rng := TorchReplicaRNG.create normalized seed
          (some rng, { b with suffixRng := some rng, suffixRngDevice := some normalized })
      | none =>
        let rng := TorchReplicaRNG.create normalized seed
        (some rng, { b with suffixRng := some rng, suffixRngDevice := some normalized })

def captureReplicaRngState (b : Backend) (device : Device) : Option Generator :=
  match b.suffixRng with
  | none => none
  | some rng => if b.suffixRngDevice = some device then some rng.generator else none

def setGenerator (b : Backend) (rng : TorchReplicaRNG) (g : Generator) : Backend :=
  { b with suffixRng := some { rng with generator := g } }

def restoreReplicaRngState (b : Backend) (current : ℕ) (state : Generator) (device : Device) :
    Except PyError Backend :=
  match b.suffixRngScope current device with
  | (none, _) => .error (.raised "AttributeError" "'NoneType' object has no attribute 'set_state'")
  | (some rng, b) => .ok (b.setGenerator rng state)

end Backend

/-! ### The suffix model -/

/-- The key of a runtime on the device of the suffix. -/
structure RuntimeKey where
  planId : String
  stateSchema : String
  training : Bool
  deriving DecidableEq

/-- A suffix model, the backends of the runtimes made for it, and its draws. -/
structure Suffix where
  runtimeHandle : Option ℕ
  runtimeCache : Dict RuntimeKey ℕ
  replicaRngState : Option Generator
  replicaRngSeed : Option ℤ
  backends : ℕ → Backend
  created : ℕ
  draws : List Generator

/-- What the configurations of a suffix share. -/
structure Setting where
  seed : ℤ
  device : Device
  /-- The CUDA device of the process. -/
  current : ℕ
  /-- `replica_rng_isolation` of the manager. -/
  isolation : Bool
  /-- The backends of the runtimes that are registered for plans. -/
  plans : String → Option Backend
  /-- The seed that a clone is made with, from the text of its `suffix`. -/
  suffixSeed : ℕ → ℤ

variable (S : Setting)

def captureReplicaRngState : Method Suffix Unit := do
  let s ← get
  match s.runtimeHandle with
  | none => return ()
  | some handle => set { s with replicaRngState := (s.backends handle).captureReplicaRngState S.device }

def closeRuntime : Method Suffix Unit := do
  captureReplicaRngState S
  modify fun s ↦ { s with runtimeCache := Dict.empty, runtimeHandle := none }

/-- `release_model_runtime`, with the registries that only forget the handles of the model. -/
def releaseModelRuntime : Method Suffix Unit := do
  captureReplicaRngState S
  closeRuntime S

/-- `clone_runtime_for_model` with a new `suffix`, which is not in its cache. -/
def cloneRuntimeForModel (planId : String) : Method Suffix ℕ :=
  match S.plans planId with
  | none => throw (.runtimeError s!"No TorchLens runtime handle is registered for plan {planId}.")
  | some base => do
    let s ← get
    let backend := base.resetExecutionState.enableReplicaRngIsolation S.isolation (S.suffixSeed s.created)
    set { s with backends := Function.update s.backends s.created backend, created := s.created + 1 }
    return s.created

def runtimeFor (key : RuntimeKey) : Method Suffix ℕ := do
  let s ← get
  set { s with runtimeHandle := s.runtimeCache.get? key }
  match s.runtimeCache.get? key with
  | some handle => return handle
  | none => do
    releaseModelRuntime S
    let handle ← cloneRuntimeForModel S key.planId
    modify fun s ↦ { s with runtimeHandle := some handle, runtimeCache := s.runtimeCache.insert key handle }
    return handle

def setBackend (handle : ℕ) (backend : Backend) : Method Suffix Unit :=
  modify fun s ↦ { s with backends := Function.update s.backends handle backend }

/-- The seeding of the replica, with the state that was persisted for the seed. -/
def seedReplica (handle : ℕ) : Method Suffix Unit := do
  let s ← get
  let backend := (s.backends handle).enableReplicaRngIsolation S.isolation S.seed
  setBackend handle backend
  match s.replicaRngState with
  | none => pure ()
  | some state =>
    if s.replicaRngSeed = some S.seed then do
      let backend ← (backend.restoreReplicaRngState S.current state S.device : Except PyError Backend)
      setBackend handle backend
  modify fun s ↦ { s with replicaRngState := none, replicaRngSeed := some S.seed }

/-- `_configure_common` -/
def configureCommon (key : RuntimeKey) : Method Suffix Unit := do
  let handle ← runtimeFor S key
  seedReplica S handle

/-- A suffix step that makes `n` random draws. -/
def draw (n : ℕ) : Method Suffix Unit := do
  let s ← get
  match s.runtimeHandle with
  | none => throw (.runtimeError "AutoSplitTailServerModel has not been configured.")
  | some handle =>
    match (s.backends handle).suffixRngScope S.current S.device with
    | (none, backend) => setBackend handle backend
    | (some rng, backend) => do
      setBackend handle (backend.setGenerator rng { rng.generator with drawn := rng.generator.drawn + n })
      modify fun s ↦ { s with draws := s.draws ++ rng.generator.take n }

/-! ### Runs -/

inductive Call
  | configureFit (planId stateSchema : String)
  | configureEvaluate (planId stateSchema : String)
  | draw (n : ℕ)

def Call.key : Call → Option RuntimeKey
  | .configureFit planId stateSchema => some ⟨planId, stateSchema, true⟩
  | .configureEvaluate planId stateSchema => some ⟨planId, stateSchema, false⟩
  | .draw _ => none

def step (s : Suffix) : Call → Suffix
  | .configureFit planId stateSchema => (configureCommon S ⟨planId, stateSchema, true⟩).after s
  | .configureEvaluate planId stateSchema => (configureCommon S ⟨planId, stateSchema, false⟩).after s
  | .draw n => (draw S n).after s

def init : Suffix := ⟨none, Dict.empty, none, none, fun _ ↦ ⟨true, none, none, none⟩, 0, []⟩

/-- The generator seeded once with the seed of the replica. -/
def Setting.stream : Generator := (TorchReplicaRNG.create S.device (S.seed % SEED_MODULUS)).generator

/-- The draws are the first of one stream. -/
def OneStream (draws : List Generator) : Prop := draws = S.stream.take draws.length

/-- A runtime is only built as long as nothing has been drawn. -/
def BuildsFirst (s : Suffix) (c : Call) : Prop :=
  ∀ key, c.key = some key → s.runtimeCache.get? key = none → s.draws = []

/-! ### The generator of the current runtime -/

section Backend

variable {S : Setting} {n : ℕ} {b : Backend}

/-- The generator at a place of the stream. -/
def Setting.rngAt (S : Setting) (n : ℕ) : TorchReplicaRNG := ⟨S.device, ⟨S.stream.seed, n⟩⟩

/-- The next draw from the backend is the `n`-th of the stream. -/
structure Continues (S : Setting) (n : ℕ) (b : Backend) : Prop where
  isolation : b.replicaRngIsolation = true
  seed : b.replicaRngSeed = some (S.seed % SEED_MODULUS)
  rng : b.suffixRng = none ∧ n = 0 ∨ b.suffixRng = some (S.rngAt n) ∧ b.suffixRngDevice = some S.device

theorem Continues.enable (h : Continues S n b) : b.enableReplicaRngIsolation true S.seed = b := by
  unfold Backend.enableReplicaRngIsolation
  dsimp only
  rw [if_neg, ← h.isolation, ← h.seed]
  rw [not_or, not_not, not_not]
  exact ⟨h.isolation.symm, h.seed.symm⟩

/-- A backend without a generator starts the stream. -/
theorem continues_enable (hb : b.suffixRng = none) : Continues S 0 (b.enableReplicaRngIsolation true S.seed) := by
  unfold Backend.enableReplicaRngIsolation
  dsimp only
  split
  · exact ⟨rfl, rfl, .inl ⟨rfl, rfl⟩⟩
  · exact ⟨rfl, rfl, .inl ⟨hb, rfl⟩⟩

theorem suffixRng_clone (base : Backend) (isolation : Bool) (seed : ℤ) :
    (base.resetExecutionState.enableReplicaRngIsolation isolation seed).suffixRng = none := by
  unfold Backend.enableReplicaRngIsolation
  dsimp only
  split
  · rfl
  · rfl

theorem Continues.scope (hdevice : S.device.normalized S.current = S.device) (h : Continues S n b) :
    ∃ b', b.suffixRngScope S.current S.device = (some (S.rngAt n), b') ∧
      b'.replicaRngIsolation = true ∧ b'.replicaRngSeed = some (S.seed % SEED_MODULUS) ∧
      b'.suffixRngDevice = some S.device := by
  unfold Backend.suffixRngScope
  obtain ⟨hnone, rfl⟩ | ⟨hrng, hown⟩ := h.rng
  · simp only [h.seed, h.isolation, hnone, hdevice, Bool.true_eq_false, if_false]
    exact ⟨_, rfl, rfl, rfl, rfl⟩
  · simp only [h.seed, h.isolation, hrng, hown, hdevice, Bool.true_eq_false, if_false, if_true]
    exact ⟨_, rfl, h.isolation, h.seed, hown⟩

end Backend

/-! ### Runs -/

section Runs

variable {S : Setting} {s t : Suffix}

/-- All the cached keys have one runtime, which continues the stream where the draws end. -/
structure Inv (S : Setting) (s : Suffix) : Prop where
  stream : OneStream S s.draws
  noState : s.replicaRngState = none
  handle : ∀ h, s.runtimeHandle = some h → ∃ key, s.runtimeCache.get? key = some h
  single : ∀ key h key' h', s.runtimeCache.get? key = some h → s.runtimeCache.get? key' = some h' → h = h'
  continues : ∀ key h, s.runtimeCache.get? key = some h → Continues S s.draws.length (s.backends h)

theorem init_inv : Inv S init where
  stream := rfl
  noState := rfl
  handle _ h := by cases h
  single _ _ _ _ h := by cases h
  continues _ _ h := by cases h

theorem take_concat (g : Generator) (m n : ℕ) :
    g.take m ++ (Generator.mk g.seed (g.drawn + m)).take n = g.take (m + n) := by
  rw [Generator.take, Generator.take, Generator.take, List.range_add, List.map_append, List.map_map]
  simp [Function.comp_def, Nat.add_assoc]

/-- A runtime of the cache is only seeded again with what it has. -/
theorem seedReplica_run {handle : ℕ} (hisolation : S.isolation = true) (hstate : s.replicaRngState = none) :
    (seedReplica S handle).run s = .ok () { s with
      backends := Function.update s.backends handle ((s.backends handle).enableReplicaRngIsolation true S.seed)
      replicaRngState := none
      replicaRngSeed := some S.seed } := by
  unfold seedReplica
  rw [Method.get_bind_run, hisolation]
  dsimp only
  rw [hstate]
  rfl

theorem runtimeFor_hit {key : RuntimeKey} {handle : ℕ} (h : s.runtimeCache.get? key = some handle) :
    (runtimeFor S key).run s = .ok handle { s with runtimeHandle := some handle } := by
  unfold runtimeFor
  rw [Method.get_bind_run, h]
  rfl

/-- A miss forgets the runtime before its generator is captured. -/
theorem runtimeFor_miss {key : RuntimeKey} (h : s.runtimeCache.get? key = none) :
    (runtimeFor S key).run s =
      match S.plans key.planId with
      | none => .error (.runtimeError s!"No TorchLens runtime handle is registered for plan {key.planId}.")
          { s with runtimeHandle := none, runtimeCache := Dict.empty }
      | some base => .ok s.created { s with
          runtimeHandle := some s.created
          runtimeCache := Dict.empty.insert key s.created
          backends := Function.update s.backends s.created
            (base.resetExecutionState.enableReplicaRngIsolation S.isolation (S.suffixSeed s.created))
          created := s.created + 1 } := by
  unfold runtimeFor
  rw [Method.get_bind_run, h]
  cases hplan : S.plans key.planId with
  | none =>
    unfold cloneRuntimeForModel
    simp only [hplan]
    rfl
  | some base =>
    unfold cloneRuntimeForModel
    simp only [hplan]
    rfl

theorem configureCommon_hit {key : RuntimeKey} {handle : ℕ} (hisolation : S.isolation = true)
    (hstate : s.replicaRngState = none) (h : s.runtimeCache.get? key = some handle) :
    (configureCommon S key).after s = { s with
      runtimeHandle := some handle
      backends := Function.update s.backends handle ((s.backends handle).enableReplicaRngIsolation true S.seed)
      replicaRngState := none
      replicaRngSeed := some S.seed } := by
  unfold configureCommon
  rw [Method.after_bind_of_ok (runtimeFor_hit h)]
  exact Method.after_of_ok (seedReplica_run hisolation hstate)

theorem configureCommon_unregistered {key : RuntimeKey} (h : s.runtimeCache.get? key = none)
    (hplan : S.plans key.planId = none) :
    (configureCommon S key).after s = { s with runtimeHandle := none, runtimeCache := Dict.empty } := by
  have hrun := @runtimeFor_miss S s key h
  rw [hplan] at hrun
  unfold configureCommon
  rw [Method.after, Method.run_bind_of_error hrun]

theorem configureCommon_built {key : RuntimeKey} {base : Backend} (hisolation : S.isolation = true)
    (hstate : s.replicaRngState = none) (h : s.runtimeCache.get? key = none) (hplan : S.plans key.planId = some base) :
    ∃ backend : Backend, backend.suffixRng = none ∧ (configureCommon S key).after s = { s with
      runtimeHandle := some s.created
      runtimeCache := Dict.empty.insert key s.created
      backends := Function.update s.backends s.created (backend.enableReplicaRngIsolation true S.seed)
      created := s.created + 1
      replicaRngState := none
      replicaRngSeed := some S.seed } := by
  have hrun := @runtimeFor_miss S s key h
  rw [hplan] at hrun
  refine ⟨_, suffixRng_clone base S.isolation (S.suffixSeed s.created), ?_⟩
  unfold configureCommon
  rw [Method.after_bind_of_ok hrun]
  refine (Method.after_of_ok (seedReplica_run hisolation ?_)).trans ?_
  · exact hstate
  · simp only [Function.update_self, Function.update_idem]

theorem configureCommon_inv {key : RuntimeKey} (hisolation : S.isolation = true)
    (hbuilds : s.runtimeCache.get? key = none → s.draws = []) (h : Inv S s) :
    Inv S ((configureCommon S key).after s) := by
  cases hkey : s.runtimeCache.get? key with
  | some handle =>
    have hsame := (h.continues key handle hkey).enable
    rw [configureCommon_hit hisolation h.noState hkey, hsame, Function.update_eq_self]
    refine ⟨h.stream, rfl, ?_, h.single, h.continues⟩
    intro handle' hhandle
    cases hhandle
    exact ⟨key, hkey⟩
  | none =>
    cases hplan : S.plans key.planId with
    | none =>
      rw [configureCommon_unregistered hkey hplan]
      refine ⟨h.stream, h.noState, ?_, ?_, ?_⟩
      · intro _ hh
        cases hh
      · intro _ _ _ _ hh
        cases hh
      · intro _ _ hh
        cases hh
    | some base =>
      obtain ⟨backend, hbackend, hafter⟩ := configureCommon_built hisolation h.noState hkey hplan
      have hget : ∀ key' h', (Dict.empty.insert key s.created).get? key' = some h' → h' = s.created := by
        intro key' h' hh
        rw [Dict.get?_insert] at hh
        split at hh
        · exact (Option.some.inj hh).symm
        · cases hh
      rw [hafter]
      refine ⟨h.stream, rfl, ?_, ?_, ?_⟩
      · intro handle hhandle
        cases hhandle
        exact ⟨key, by rw [Dict.get?_insert, if_pos rfl]⟩
      · exact fun key₁ h₁ key₂ h₂ hh₁ hh₂ ↦ (hget key₁ h₁ hh₁).trans (hget key₂ h₂ hh₂).symm
      · intro key' h' hh
        rw [hget key' h' hh]
        dsimp only
        rw [Function.update_self, hbuilds hkey]
        exact continues_enable hbackend

theorem draw_inv {n : ℕ} (hdevice : S.device.normalized S.current = S.device) (h : Inv S s) :
    Inv S ((draw S n).after s) := by
  cases hhandle : s.runtimeHandle with
  | none =>
    have hafter : (draw S n).after s = s := by
      unfold draw
      rw [Method.after, Method.get_bind_run, hhandle]
      rfl
    rwa [hafter]
  | some handle =>
    obtain ⟨key, hkey⟩ := h.handle handle hhandle
    obtain ⟨backend, hscope, hisolation, hseed, hown⟩ := (h.continues key handle hkey).scope hdevice
    have hafter : (draw S n).after s = { s with
        backends := Function.update s.backends handle
          (backend.setGenerator (S.rngAt s.draws.length) ⟨S.stream.seed, s.draws.length + n⟩)
        draws := s.draws ++ (Generator.mk S.stream.seed s.draws.length).take n } := by
      unfold draw
      conv_lhs =>
        rw [Method.after, Method.get_bind_run, hhandle]
        dsimp only
        rw [hscope]
      rfl
    have hlength : (s.draws ++ (Generator.mk S.stream.seed s.draws.length).take n).length = s.draws.length + n := by
      rw [List.length_append, Generator.take, List.length_map, List.length_range]
    rw [hafter]
    refine ⟨?_, h.noState, h.handle, h.single, ?_⟩
    · have hstream := take_concat S.stream s.draws.length n
      have hdrawn : S.stream.drawn = 0 := rfl
      rw [hdrawn, Nat.zero_add, ← h.stream] at hstream
      rw [OneStream, hlength, ← hstream]
    · intro key' h' hh
      obtain rfl := h.single key handle key' h' hkey hh
      dsimp only
      rw [Function.update_self, hlength]
      exact ⟨hisolation, hseed, .inr ⟨rfl, hown⟩⟩

/-- While every runtime is built before the first draw, the draws of a suffix are the first of one stream, and no draw
is repeated. -/
theorem one_stream (hisolation : S.isolation = true) (hdevice : S.device.normalized S.current = S.device)
    (h : Reaches (fun s c ↦ some (step S s c)) BuildsFirst init s) : OneStream S s.draws ∧ s.draws.Nodup := by
  have hinv : Inv S s := by
    refine h.invariant init_inv fun s c t hs hbuilds hstep ↦ ?_
    obtain rfl := Option.some.inj hstep
    cases c with
    | configureFit planId schema => exact configureCommon_inv hisolation (hbuilds _ rfl) hs
    | configureEvaluate planId schema => exact configureCommon_inv hisolation (hbuilds _ rfl) hs
    | draw n => exact draw_inv hdevice hs
  refine ⟨hinv.stream, ?_⟩
  rw [hinv.stream, Generator.take]
  refine List.nodup_range.map fun i j hij ↦ ?_
  exact Nat.add_left_cancel (Generator.mk.inj hij).2

/-- One plan on the CPU. -/
def sampleSetting : Setting where
  seed := 7
  device := ⟨"cpu", none⟩
  current := 0
  isolation := true
  plans _ := some ⟨true, none, none, none⟩
  suffixSeed n := n

theorem one_stream_sample :
    OneStream sampleSetting (step sampleSetting (step sampleSetting init (.configureFit "p" "s")) (.draw 2)).draws ∧
      (step sampleSetting (step sampleSetting init (.configureFit "p" "s")) (.draw 2)).draws.Nodup := by
  refine one_stream rfl rfl (.next (.draw 2) (.next (.configureFit "p" "s") .start ?_ rfl) ?_ rfl)
  · exact fun _ _ _ ↦ rfl
  · exact fun _ h ↦ nomatch h

/-- An evaluation after a round rebuilds the runtime, and the stream starts again. -/
theorem stream_restarts : ¬ ∀ S : Setting, S.isolation = true → S.device.normalized S.current = S.device →
    ∀ s, Reaches (fun s c ↦ some (step S s c)) (fun _ _ ↦ True) init s → OneStream S s.draws := by
  intro hall
  have hrun := hall sampleSetting rfl rfl _
    (.next (.draw 1) (.next (.configureEvaluate "p" "s") (.next (.draw 1) (.next (.configureFit "p" "s") .start
      trivial rfl) trivial rfl) trivial rfl) trivial rfl)
  have hdraws : (step sampleSetting (step sampleSetting (step sampleSetting (step sampleSetting init
      (.configureFit "p" "s")) (.draw 1)) (.configureEvaluate "p" "s")) (.draw 1)).draws = [⟨7, 0⟩, ⟨7, 0⟩] := by
    decide +kernel
  rw [hdraws] at hrun
  revert hrun
  unfold OneStream
  decide +kernel

end Runs

end SplitFleet.ReplicaRng
