import SplitFleet.Lib.Sorting
import Mathlib.Data.Rat.Floor
import Mathlib.Data.String.Basic

set_option autoImplicit false

namespace SplitFleet.Feasibility

open Lib

abbrev Cid := String

/-- The keys of `boundary_forward_bytes_by_batch_size`: a number, or its text. -/
abbrev ByBatchSize := Dict (ℤ ⊕ String) (Option ℚ)

structure SplitCandidateDescriptor where
  boundary : String
  graphPositionRatio : ℚ
  boundaryForwardBytes : Option ℤ
  prefixParameterBytes : Option ℤ
  clientMemoryBytes : Option ℤ
  serverMemoryBytes : Option ℤ
  trainable : Bool
  featureAbiId : String
  graphSignature : String
  frameworkBackend : String
  valid : Bool
  validationError : Option String
  /-- `metadata`. The second is there and may still be `None`. -/
  forwardBytesByBatchSize : ByBatchSize
  gradientBytesByBatchSize : ByBatchSize
  optimizerPrefixParameterBytes : Option (Option ℤ)

structure FeasibilityResult where
  feasible : Bool
  reason : Option String
  deriving DecidableEq

/-- What `check` reads of the capabilities. One ABI given as a text is a list of one. -/
structure Capabilities where
  featureAbiIds : Option (List String)
  clientMemoryBytes : Option ℤ
  serverMemoryBytes : Option ℤ

structure FeasibilityFilter where
  failureCooldownRounds : ℤ
  cooldown_pos : 1 ≤ failureCooldownRounds
  blacklistUntil : Dict (Cid × String) ℤ
  invalidBoundaries : Dict String String
  invalidClientBoundaries : Dict (Cid × String) String
  failureCounts : Dict (Cid × String) ℤ
  clientPeakBytes : Dict (Cid × String) ℤ
  serverPeakBytes : Dict String ℤ

/-- `demand is not None and limit is not None and int(demand) > int(limit)`. -/
def exceeds (demand limit : Option ℤ) : Bool :=
  match demand, limit with
  | some d, some l => decide (l < d)
  | _, _ => false

/-- `validation_error or "invalid_torchlens_candidate"`. -/
def validationReason (c : SplitCandidateDescriptor) : String :=
  match c.validationError with
  | none => "invalid_torchlens_candidate"
  | some e => if e = "" then "invalid_torchlens_candidate" else e

def abiAllowed (c : SplitCandidateDescriptor) (capabilities : Capabilities) : Bool :=
  match capabilities.featureAbiIds with
  | none => true
  | some ids => decide (c.featureAbiId ∈ ids)

namespace FeasibilityFilter

/-- A filter that has seen nothing. -/
def fresh (cooldown : ℤ) (h : 1 ≤ cooldown) : FeasibilityFilter :=
  ⟨cooldown, h, .empty, .empty, .empty, .empty, .empty, .empty⟩

variable (f : FeasibilityFilter)

/-- The last round of a client's cooldown for a cut. -/
def cooldownOf (cid : Cid) (boundary : String) : ℤ := (f.blacklistUntil.get? (cid, boundary)).getD (-1)

def clientDemand (cid : Cid) (c : SplitCandidateDescriptor) : Option ℤ :=
  (f.clientPeakBytes.get? (cid, c.boundary)).or c.clientMemoryBytes

def serverDemand (c : SplitCandidateDescriptor) : Option ℤ :=
  (f.serverPeakBytes.get? c.boundary).or c.serverMemoryBytes

def check (c : SplitCandidateDescriptor) (cid : Cid) (round : ℤ) (capabilities : Capabilities) :
    FeasibilityResult :=
  if !c.valid then ⟨false, some (validationReason c)⟩
  else match f.invalidBoundaries.get? c.boundary with
  | some reason => ⟨false, some reason⟩
  | none =>
    match f.invalidClientBoundaries.get? (cid, c.boundary) with
    | some reason => ⟨false, some reason⟩
    | none =>
      if !c.trainable then ⟨false, some "candidate_not_trainable"⟩
      else if !abiAllowed c capabilities then ⟨false, some "feature_abi_mismatch"⟩
      else if round ≤ f.cooldownOf cid c.boundary then ⟨false, some "temporary_failure_cooldown"⟩
      else if exceeds (f.clientDemand cid c) capabilities.clientMemoryBytes then
        ⟨false, some "client_memory_limit"⟩
      else if exceeds (f.serverDemand c) capabilities.serverMemoryBytes then
        ⟨false, some "server_memory_limit"⟩
      else ⟨true, none⟩

/-- `int(mb * 1024 * 1024)` of a measurement that is not negative. -/
def peakBytes (mb : ℚ) : ℤ := ⌊mb * 1024 * 1024⌋

def observeMemory (cid : Cid) (boundary : String) (clientPeakMb serverPeakMb : Option ℚ) : FeasibilityFilter :=
  let f := match clientPeakMb with
    | some mb => if 0 ≤ mb then
        { f with clientPeakBytes := f.clientPeakBytes.insert (cid, boundary) (peakBytes mb) } else f
    | none => f
  match serverPeakMb with
  | some mb => if 0 ≤ mb then
      { f with serverPeakBytes := f.serverPeakBytes.insert boundary (peakBytes mb) } else f
  | none => f

/-- `_failure_counts[key] = _failure_counts.get(key, 0) + 1`. -/
def countFailure (cid : Cid) (kind : String) : FeasibilityFilter :=
  { f with failureCounts :=
      f.failureCounts.insert (cid, kind) ((f.failureCounts.get? (cid, kind)).getD 0 + 1) }

/-- `str(reason or kind)`. -/
def failureText (reason : Option String) (kind : String) : String :=
  match reason with
  | none => kind
  | some r => if r = "" then kind else r

/-- `kind` is what `str(kind).strip().lower()` makes of the class of the failure. -/
def observeFailure (round : ℤ) (cid : Cid) (boundary : Option String) (kind : String)
    (reason : Option String) : FeasibilityFilter :=
  let f := f.countFailure cid kind
  let text := failureText reason kind
  match boundary with
  | none => f
  | some b =>
    if kind = "abi" then
      { f with invalidClientBoundaries :=
          f.invalidClientBoundaries.insert (cid, b) ("runtime_invalid:" ++ text) }
    else if kind = "invalid" ∨ kind = "programming" then
      { f with invalidBoundaries := f.invalidBoundaries.insert b ("runtime_invalid:" ++ text) }
    else if kind = "oom" ∨ kind = "runtime" then
      { f with blacklistUntil := f.blacklistUntil.insert (cid, b) (round + f.failureCooldownRounds) }
    else f

end FeasibilityFilter

/-- A row of a table that two texts key: the client and the boundary, or the client and the kind. -/
structure Row (υ : Type) where
  clientId : Cid
  name : String
  value : υ

/-- What `FeasibilityFilter.state_dict` returns. -/
structure FeasibilityState where
  blacklist : List (Row ℤ)
  invalidBoundaries : Dict String String
  invalidClientBoundaries : List (Row String)
  failureCounts : List (Row ℤ)
  clientPeakBytes : List (Row ℤ)
  serverPeakBytes : Dict String ℤ

section Rows

variable {υ : Type}

/-- `for (cid, name), value in sorted(table.items())`. -/
def rows (d : Dict (Cid × String) υ) : List (Row υ) :=
  (sortedBy (fun p ↦ toLex p.1) d.entries).map fun p ↦ ⟨p.1.1, p.1.2, p.2⟩

def ofRows (l : List (Row υ)) : Dict (Cid × String) υ := .ofList (l.map fun r ↦ ((r.clientId, r.name), r.value))

theorem ofRows_rows (d : Dict (Cid × String) υ) : ofRows (rows d) = d.sorted toLex := by
  rw [ofRows, rows, List.map_map]
  exact congrArg Dict.ofList (List.map_id _)

@[simp] theorem get?_ofRows_rows (d : Dict (Cid × String) υ) (k : Cid × String) :
    (ofRows (rows d)).get? k = d.get? k := by
  rw [ofRows_rows, Dict.get?_sorted]

/-- The rows of a table that was read from rows are these rows. -/
theorem rows_ofRows_rows (d : Dict (Cid × String) υ) : rows (ofRows (rows d)) = rows d := by
  rw [ofRows_rows, rows, Dict.entries_sorted]
  exact congrArg (List.map _) (sortedBy_sortedBy _ _)

end Rows

namespace FeasibilityFilter

variable (f : FeasibilityFilter)

def stateDict : FeasibilityState :=
  ⟨rows f.blacklistUntil, f.invalidBoundaries.sorted id, rows f.invalidClientBoundaries,
    rows f.failureCounts, rows f.clientPeakBytes, f.serverPeakBytes.sorted id⟩

def loadStateDict (state : FeasibilityState) : FeasibilityFilter :=
  { f with
    blacklistUntil := ofRows state.blacklist
    invalidBoundaries := .ofList state.invalidBoundaries.entries
    invalidClientBoundaries := ofRows state.invalidClientBoundaries
    failureCounts := ofRows state.failureCounts
    clientPeakBytes := ofRows state.clientPeakBytes
    serverPeakBytes := .ofList state.serverPeakBytes.entries }

/-- What is loaded is written back unchanged. -/
theorem stateDict_loadStateDict (g : FeasibilityFilter) :
    (f.loadStateDict g.stateDict).stateDict = g.stateDict := by
  simp only [stateDict, loadStateDict, rows_ofRows_rows, Dict.ofList_entries, Dict.sorted_sorted]

@[simp] theorem invalidBoundaries_load (g : FeasibilityFilter) (b : String) :
    (f.loadStateDict g.stateDict).invalidBoundaries.get? b = g.invalidBoundaries.get? b := by
  simp [loadStateDict, stateDict, Dict.ofList_entries]

@[simp] theorem invalidClientBoundaries_load (g : FeasibilityFilter) (k : Cid × String) :
    (f.loadStateDict g.stateDict).invalidClientBoundaries.get? k = g.invalidClientBoundaries.get? k := by
  simp [loadStateDict, stateDict]

@[simp] theorem cooldownOf_load (g : FeasibilityFilter) (cid : Cid) (b : String) :
    (f.loadStateDict g.stateDict).cooldownOf cid b = g.cooldownOf cid b := by
  simp [cooldownOf, loadStateDict, stateDict]

@[simp] theorem clientDemand_load (g : FeasibilityFilter) (cid : Cid) (c : SplitCandidateDescriptor) :
    (f.loadStateDict g.stateDict).clientDemand cid c = g.clientDemand cid c := by
  simp [clientDemand, loadStateDict, stateDict]

@[simp] theorem serverDemand_load (g : FeasibilityFilter) (c : SplitCandidateDescriptor) :
    (f.loadStateDict g.stateDict).serverDemand c = g.serverDemand c := by
  simp [serverDemand, loadStateDict, stateDict, Dict.ofList_entries]

/-- A filter that has loaded the state of another one gives its verdicts, for the same client id. -/
theorem check_loadStateDict (g : FeasibilityFilter) (c : SplitCandidateDescriptor) (cid : Cid) (round : ℤ)
    (capabilities : Capabilities) :
    (f.loadStateDict g.stateDict).check c cid round capabilities = g.check c cid round capabilities := by
  rw [check, check, invalidBoundaries_load, invalidClientBoundaries_load, cooldownOf_load,
    clientDemand_load, serverDemand_load]

end FeasibilityFilter

end SplitFleet.Feasibility
