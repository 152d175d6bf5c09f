import SplitFleet.Lib.Method
import Mathlib.Data.Finset.Image
import Mathlib.Data.String.Basic

set_option autoImplicit false

namespace SplitFleet.AuxiliaryState

open Lib

/-- The names of the state with the stage that owns each of them. -/
structure Manifest where
  names : List String
  owners : List String

/-- What the auxiliary protocol asks of a model. -/
structure Model where
  /-- The buffers of `state_associations`. -/
  associations : Option (List String)
  /-- `supports_auxiliary_state` -/
  supported : Bool

/-- `dict(zip(names, owners))` -/
def Manifest.owned (m : Manifest) : Dict String String := Dict.ofList (m.names.zip m.owners)

/-- The same with `strict=True`. -/
def Manifest.ownerOf (m : Manifest) : Except PyError (Dict String String) := do
  require (m.names.length = m.owners.length)
    (.valueError (if m.owners.length < m.names.length then "zip() argument 2 is shorter than argument 1"
      else "zip() argument 2 is longer than argument 1"))
  return m.owned

def buffersOf (name : String) : List String :=
  [name ++ ".running_mean", name ++ ".running_var", name ++ ".num_batches_tracked"]

/-- The stages that own the buffers of a statistic. -/
def stagesOf (owners : Dict String String) (name : String) : Finset String :=
  ((buffersOf name).filterMap owners.get?).toFinset

variable {V W : Type}

/-- One turn of the loop of `statistics_for_stage`. -/
def selectStatistic (associations : List String) (owners : Dict String String) (stage : String)
    (selected : Dict String V) (entry : String × V) : Except PyError (Dict String V) := do
  require (∀ buffer ∈ buffersOf entry.1, buffer ∈ associations ∧ buffer ∈ owners.keys)
    (.runtimeError s!"Missing declared state association for {entry.1}")
  require ((stagesOf owners entry.1).card = 1 ∧ "initial" ∉ stagesOf owners entry.1)
    (.runtimeError s!"Auxiliary BN state has ambiguous or unexecuted ownership: {entry.1}")
  return if stagesOf owners entry.1 = {stage} then selected.insert entry.1 entry.2 else selected

def statisticsForStage (model : Model) (statistics : Dict String V) (manifest : Manifest) (stage : String) :
    Except PyError (Dict String V) :=
  match model.associations with
  | none => .error (.typeError "Auxiliary split models must declare buffer state associations")
  | some associations => do
    let owners ← manifest.ownerOf
    statistics.entries.foldlM (selectStatistic associations owners stage) Dict.empty

def endswith (s suffix : String) : Prop := suffix.toList <:+ s.toList

instance (s suffix : String) : Decidable (endswith s suffix) :=
  inferInstanceAs (Decidable (suffix.toList <:+ s.toList))

def removesuffix (s suffix : String) : String :=
  if endswith s suffix then String.ofList (s.toList.take (s.toList.length - suffix.toList.length)) else s

def expectedStatisticsNames (model : Model) (manifest : Manifest) (stage : String) : Except PyError (Finset String) :=
  match model.associations with
  | none => .error (.raised "AttributeError" "state_associations")
  | some associations => do
    let owners ← manifest.ownerOf
    let buffers := associations.filter fun buffer ↦
      endswith buffer ".running_mean" ∧ owners.get? buffer = some stage
    return (buffers.map fun buffer ↦ removesuffix buffer ".running_mean").toFinset

/-- `commit_auxiliary_state` for all the statistics, which `apply_statistics` writes to the model. -/
def commitAuxiliaryState (model : Model) (statistics : Dict String V) : Method (List (String × V)) Unit := do
  require (model.supported = true) (.typeError "Model does not enable the auxiliary statistics protocol")
  modify fun committed ↦ committed ++ statistics.entries

/-- The auxiliary commit of `train_tail`, and the statistics that go to the client. -/
def trainTail (model : Model) (ownership : Manifest) (auxiliary : Option (Dict String V)) :
    Method (List (String × V)) (Option (Dict String V)) :=
  match auxiliary with
  | none => return none
  | some auxiliary => do
    let suffixStatistics ← statisticsForStage model auxiliary ownership "suffix"
    let prefixStatistics ← statisticsForStage model auxiliary ownership "prefix"
    let inPrefix ← expectedStatisticsNames model ownership "prefix"
    let inSuffix ← expectedStatisticsNames model ownership "suffix"
    require (auxiliary.keys.toFinset = inPrefix ∪ inSuffix)
      (.runtimeError "Native suffix output is missing executed BN statistics")
    commitAuxiliaryState model suffixStatistics
    return some prefixStatistics

/-- The auxiliary commit of `fit`, for the decoded `auxiliary_state` of the response. -/
def fit (model : Model) (auxiliaryOwnership : Option Manifest) (auxiliaryState : Option (Dict String W)) :
    Method (List (String × W)) Unit :=
  match auxiliaryState, auxiliaryOwnership with
  | none, _ => return ()
  | some _, none => throw (.runtimeError "Received unnegotiated auxiliary model state")
  | some statistics, some ownership => do
    let selected ← statisticsForStage model statistics ownership "prefix"
    let expected ← expectedStatisticsNames model ownership "prefix"
    require (selected.keys.toFinset = statistics.keys.toFinset ∧ selected.keys.toFinset = expected)
      (.runtimeError "Suffix returned incomplete or incorrectly owned auxiliary state")
    commitAuxiliaryState model selected

/-! ### Names -/

theorem endswith_append (name suffix : String) : endswith (name ++ suffix) suffix := by
  rw [endswith, String.toList_append]
  exact List.suffix_append _ _

theorem removesuffix_append (name suffix : String) : removesuffix (name ++ suffix) suffix = name := by
  rw [removesuffix, if_pos (endswith_append name suffix), String.toList_append, List.length_append,
    Nat.add_sub_cancel, List.take_left, String.ofList_toList]

theorem removesuffix_concat {buffer suffix : String} (h : endswith buffer suffix) :
    removesuffix buffer suffix ++ suffix = buffer := by
  obtain ⟨name, hname⟩ := h
  have hbuffer : buffer = String.ofList name ++ suffix := by
    apply String.toList_injective
    rw [String.toList_append, String.toList_ofList, hname]
  rw [hbuffer, removesuffix_append]

/-! ### Selection -/

/-- All the buffers of the statistic are declared, and one stage owns them. -/
def OwnedBy (associations : List String) (owners : Dict String String) (name stage : String) : Prop :=
  ∀ buffer ∈ buffersOf name, buffer ∈ associations ∧ owners.get? buffer = some stage

/-- A stage that runs owns the statistic. -/
def Executed (associations : List String) (owners : Dict String String) (name : String) : Prop :=
  ∃ stage, stage ≠ "initial" ∧ OwnedBy associations owners name stage

section Selection

variable {associations : List String} {owners : Dict String String} {name stage other : String}

theorem OwnedBy.unique (h : OwnedBy associations owners name stage) (h' : OwnedBy associations owners name other) :
    stage = other := by
  have hmem : name ++ ".running_mean" ∈ buffersOf name := List.mem_cons_self
  exact Option.some.inj ((h _ hmem).2.symm.trans (h' _ hmem).2)

theorem OwnedBy.stagesOf_eq (h : OwnedBy associations owners name stage) : stagesOf owners name = {stage} := by
  have hget : ∀ buffer ∈ buffersOf name, owners.get? buffer = some stage := fun buffer hb ↦ (h buffer hb).2
  ext s
  simp only [stagesOf, List.mem_toFinset, List.mem_filterMap, Finset.mem_singleton]
  constructor
  · rintro ⟨buffer, hb, hs⟩
    exact Option.some.inj (hs.symm.trans (hget buffer hb))
  · rintro rfl
    exact ⟨_, List.mem_cons_self, hget _ List.mem_cons_self⟩

/-- What a turn does where it does not raise. -/
theorem selectStatistic_ok {selected selected' : Dict String V} {entry : String × V}
    (h : selectStatistic associations owners stage selected entry = .ok selected') :
    Executed associations owners entry.1 ∧
      (OwnedBy associations owners entry.1 stage → selected' = selected.insert entry.1 entry.2) ∧
      (¬ OwnedBy associations owners entry.1 stage → selected' = selected) := by
  obtain ⟨_, hdeclared, h⟩ := bind_eq_ok h
  obtain ⟨_, hstages, h⟩ := bind_eq_ok h
  have hdeclared := of_require hdeclared
  obtain ⟨hcard, hinitial⟩ := of_require hstages
  obtain ⟨own, hown⟩ := Finset.card_eq_one.mp hcard
  have howned : OwnedBy associations owners entry.1 own := by
    intro buffer hb
    obtain ⟨hassociated, hkey⟩ := hdeclared buffer hb
    obtain ⟨s, hs⟩ := (owners.mem_keys_iff).mp hkey
    have hmem : s ∈ stagesOf owners entry.1 := List.mem_toFinset.mpr (List.mem_filterMap.mpr ⟨buffer, hb, hs⟩)
    rw [hown, Finset.mem_singleton] at hmem
    exact ⟨hassociated, hmem ▸ hs⟩
  rw [hown, Finset.mem_singleton] at hinitial
  have h := (Except.ok.inj h).symm
  refine ⟨⟨own, Ne.symm hinitial, howned⟩, fun hstage ↦ ?_, fun hstage ↦ ?_⟩
  · rw [h, if_pos hstage.stagesOf_eq]
  · rw [h, if_neg]
    intro hsame
    rw [hown, Finset.singleton_inj] at hsame
    exact hstage (hsame ▸ howned)

/-- What has been selected after some of the statistics. -/
structure Selected (associations : List String) (owners : Dict String String) (stage : String)
    (done : List (String × V)) (selected : Dict String V) : Prop where
  executed : ∀ p ∈ done, Executed associations owners p.1
  mem_keys : ∀ name, name ∈ selected.keys ↔ name ∈ done.map Prod.fst ∧ OwnedBy associations owners name stage
  entries : ∀ name v, selected.get? name = some v → (name, v) ∈ done

theorem selectAll_ok {l : List (String × V)} {selected : Dict String V}
    (h : l.foldlM (selectStatistic associations owners stage) Dict.empty = .ok selected) :
    Selected associations owners stage l selected := by
  have hstart : Selected associations owners stage ([] : List (String × V)) Dict.empty :=
    ⟨fun _ hp ↦ absurd hp List.not_mem_nil, fun _ ↦ by simp [Dict.mem_keys_iff], fun _ _ hv ↦ by cases hv⟩
  refine foldlM_invariant (Selected associations owners stage) ?_ hstart h
  intro done selected entry selected' hdone hentry
  obtain ⟨hexecuted, hkept, hdropped⟩ := selectStatistic_ok hentry
  have hall : ∀ p ∈ done ++ [entry], Executed associations owners p.1 := by
    intro p hp
    obtain hp | hp := List.mem_append.mp hp
    · exact hdone.executed p hp
    · exact List.mem_singleton.mp hp ▸ hexecuted
  by_cases howned : OwnedBy associations owners entry.1 stage
  · rw [hkept howned]
    refine ⟨hall, fun name ↦ ?_, fun name v hv ↦ ?_⟩
    · rw [Dict.mem_keys_insert, hdone.mem_keys, List.map_append, List.mem_append, List.map_singleton,
        List.mem_singleton]
      constructor
      · rintro (rfl | ⟨hmem, hown⟩)
        · exact ⟨.inr rfl, howned⟩
        · exact ⟨.inl hmem, hown⟩
      · rintro ⟨hmem | rfl, hown⟩
        · exact .inr ⟨hmem, hown⟩
        · exact .inl rfl
    · rw [Dict.get?_insert] at hv
      split at hv
      · next hsame =>
        cases hv
        exact List.mem_append_right _ (List.mem_singleton.mpr (Prod.ext hsame.symm rfl))
      · exact List.mem_append_left _ (hdone.entries name v hv)
  · rw [hdropped howned]
    refine ⟨hall, fun name ↦ ?_, fun name v hv ↦ List.mem_append_left _ (hdone.entries name v hv)⟩
    rw [hdone.mem_keys, List.map_append, List.mem_append, List.map_singleton, List.mem_singleton]
    constructor
    · exact fun hmem ↦ ⟨.inl hmem.1, hmem.2⟩
    · rintro ⟨hmem | rfl, hown⟩
      · exact ⟨hmem, hown⟩
      · exact absurd hown howned

end Selection

/-! ### Both sides -/

section Sides

variable {associations : List String} {supported : Bool} {ownership : Manifest} {stage name : String}
  {statistics selected : Dict String V}

theorem ownerOf_ok {owners : Dict String String} (h : ownership.ownerOf = .ok owners) : owners = ownership.owned := by
  obtain ⟨_, -, h⟩ := bind_eq_ok h
  exact (Except.ok.inj h).symm

theorem statisticsForStage_ok
    (h : statisticsForStage ⟨some associations, supported⟩ statistics ownership stage = .ok selected) :
    Selected associations ownership.owned stage statistics.entries selected := by
  obtain ⟨owners, howners, h⟩ := bind_eq_ok h
  exact ownerOf_ok howners ▸ selectAll_ok h

/-- The running mean of the statistic is declared, and the stage owns it. -/
def Expected (associations : List String) (owners : Dict String String) (stage name : String) : Prop :=
  name ++ ".running_mean" ∈ associations ∧ owners.get? (name ++ ".running_mean") = some stage

theorem mem_expected {expected : Finset String}
    (h : expectedStatisticsNames ⟨some associations, supported⟩ ownership stage = .ok expected) :
    name ∈ expected ↔ Expected associations ownership.owned stage name := by
  obtain ⟨owners, howners, h⟩ := bind_eq_ok h
  rw [← Except.ok.inj h, ← ownerOf_ok howners]
  simp only [List.mem_toFinset, List.mem_map, List.mem_filter, decide_eq_true_eq]
  constructor
  · rintro ⟨buffer, ⟨hmem, hend, hown⟩, rfl⟩
    rw [Expected, removesuffix_concat hend]
    exact ⟨hmem, hown⟩
  · rintro ⟨hmem, hown⟩
    exact ⟨_, ⟨hmem, endswith_append _ _, hown⟩, removesuffix_append _ _⟩

theorem OwnedBy.expected {owners : Dict String String} (h : OwnedBy associations owners name stage) :
    Expected associations owners stage name :=
  h _ List.mem_cons_self

/-- The statistics are those of the layers that run, on one stage each. -/
structure Complete (associations : List String) (owners : Dict String String) (names : List String) : Prop where
  executed : ∀ name ∈ names, Executed associations owners name
  expected : ∀ name, name ∈ names ↔
    Expected associations owners "prefix" name ∨ Expected associations owners "suffix" name

theorem commit_run (model : Model) (log : List (String × V)) : (commitAuxiliaryState model statistics).run log =
    if model.supported = true then .ok () (log ++ statistics.entries)
    else .error (.typeError "Model does not enable the auxiliary statistics protocol") log := by
  unfold commitAuxiliaryState require
  split
  · rfl
  · rfl

/-- The server commits the statistics of the suffix, all of them accounted for, or nothing. -/
theorem trainTail_cases (log : List (String × V)) :
    (∃ e, (trainTail ⟨some associations, supported⟩ ownership (some statistics)).run log = .error e log) ∨
    ∃ selected sent, (trainTail ⟨some associations, supported⟩ ownership (some statistics)).run log =
        .ok (some sent) (log ++ selected.entries) ∧
      Selected associations ownership.owned "suffix" statistics.entries selected ∧
      Complete associations ownership.owned statistics.keys := by
  unfold trainTail
  dsimp only
  cases hsuffix : statisticsForStage ⟨some associations, supported⟩ statistics ownership "suffix" with
  | error e => exact .inl ⟨e, rfl⟩
  | ok selected =>
    rw [Method.ok_bind_run]
    cases hkept : statisticsForStage ⟨some associations, supported⟩ statistics ownership "prefix" with
    | error e => exact .inl ⟨e, rfl⟩
    | ok sent =>
      rw [Method.ok_bind_run]
      cases hinPrefix : expectedStatisticsNames ⟨some associations, supported⟩ ownership "prefix" with
      | error e => exact .inl ⟨e, rfl⟩
      | ok inPrefix =>
        rw [Method.ok_bind_run]
        cases hinSuffix : expectedStatisticsNames ⟨some associations, supported⟩ ownership "suffix" with
        | error e => exact .inl ⟨e, rfl⟩
        | ok inSuffix =>
          rw [Method.ok_bind_run]
          by_cases hnames : statistics.keys.toFinset = inPrefix ∪ inSuffix
          · rw [require_of hnames, Method.ok_bind_run]
            have hcommit := @commit_run V selected ⟨some associations, supported⟩ log
            split at hcommit
            · rw [Method.run_bind_of_ok hcommit]
              refine .inr ⟨selected, sent, rfl, statisticsForStage_ok hsuffix, ?_, fun name ↦ ?_⟩
              · intro name hname
                obtain ⟨p, hp, rfl⟩ := List.mem_map.mp hname
                exact (statisticsForStage_ok hsuffix).executed p hp
              · rw [← List.mem_toFinset, hnames, Finset.mem_union, mem_expected hinPrefix, mem_expected hinSuffix]
            · exact .inl ⟨_, Method.run_bind_of_error hcommit⟩
          · rw [require, if_neg hnames]
            exact .inl ⟨_, rfl⟩

/-- The client commits all that it is sent, when it is what the prefix runs, or nothing. -/
theorem fit_cases (log : List (String × V)) :
    (∃ e, (fit ⟨some associations, supported⟩ (some ownership) (some statistics)).run log = .error e log) ∨
    ∃ selected, (fit ⟨some associations, supported⟩ (some ownership) (some statistics)).run log =
        .ok () (log ++ selected.entries) ∧
      Selected associations ownership.owned "prefix" statistics.entries selected ∧
      (∀ name, name ∈ selected.keys ↔ name ∈ statistics.keys) ∧
      ∀ name, name ∈ selected.keys ↔ Expected associations ownership.owned "prefix" name := by
  unfold fit
  dsimp only
  cases hselected : statisticsForStage ⟨some associations, supported⟩ statistics ownership "prefix" with
  | error e => exact .inl ⟨e, rfl⟩
  | ok selected =>
    rw [Method.ok_bind_run]
    cases hexpected : expectedStatisticsNames ⟨some associations, supported⟩ ownership "prefix" with
    | error e => exact .inl ⟨e, rfl⟩
    | ok expected =>
      rw [Method.ok_bind_run]
      by_cases hnames : selected.keys.toFinset = statistics.keys.toFinset ∧ selected.keys.toFinset = expected
      · rw [require_of hnames, Method.ok_bind_run, commit_run]
        split
        · refine .inr ⟨selected, rfl, statisticsForStage_ok hselected, fun name ↦ ?_, fun name ↦ ?_⟩
          · rw [← List.mem_toFinset, hnames.1, List.mem_toFinset]
          · rw [← List.mem_toFinset, hnames.2, mem_expected hexpected]
        · exact .inl ⟨_, rfl⟩
      · rw [require, if_neg hnames]
        exact .inl ⟨_, rfl⟩

end Sides

end SplitFleet.AuxiliaryState
