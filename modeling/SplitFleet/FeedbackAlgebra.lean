import SplitFleet.Lib.Text
import SplitFleet.Redelivery

set_option autoImplicit false

namespace SplitFleet.Feedback

open Lib Feasibility

/-! ### Observations as feedback -/

/-- The loads of a server as readings. -/
def finiteLoad (d : Dict String ℚ) : Dict String Reading where
  entries := d.entries.map fun p ↦ (p.1, .finite p.2)
  nodup := by
    rw [List.map_map]
    exact d.nodup

/-- An observation that is reported again. -/
def reported (o : PlacementFeedback ℚ) : PlacementFeedback Reading :=
  { o with
    measured := fun name ↦ (o.measured name).map .finite
    serverLoad := o.serverLoad.map finiteLoad }

/-- Equal as Python values: the order of the names of the loads does not count. -/
structure Same (a b : PlacementFeedback ℚ) : Prop where
  fields : { a with serverLoad := none } = { b with serverLoad := none }
  loads : (a.serverLoad.map fun d ↦ d.get?) = b.serverLoad.map fun d ↦ d.get?

theorem get?_finiteLoad (d : Dict String ℚ) (name : String) :
    (finiteLoad d).get? name = (d.get? name).map .finite := by
  obtain ⟨entries, nodup⟩ := d
  change Dict.lookup (entries.map _) name = (Dict.lookup entries name).map _
  clear nodup
  induction entries with
  | nil => rfl
  | cons p entries ih =>
    obtain ⟨key, value⟩ := p
    by_cases h : key = name
    · simp [Dict.lookup, h]
    · simpa [Dict.lookup, h] using ih

/-! ### Medians -/

section Median

variable {l l' : List (Option Reading)}

theorem present_perm (h : l.Perm l') : (present l).Perm (present l') := h.filterMap _

theorem npMedian_perm {m m' : List ℚ} (h : m.Perm m') : npMedian m = npMedian m' := by
  rw [npMedian, npMedian, sortedBy_congr id h fun _ _ _ _ he ↦ he]

theorem median_perm (h : l.Perm l') : median l = median l' := by
  have hp := present_perm h
  have hnil : present l = [] ↔ present l' = [] := by
    rw [← List.length_eq_zero_iff, hp.length_eq, List.length_eq_zero_iff]
  simp only [median, hnil, hp.mem_iff, npMedian_perm hp]

theorem npMedian_singleton (q : ℚ) : npMedian [q] = q := by
  simp [npMedian, sortedBy]

theorem median_eq_ok {m : Option ℚ} (h : median l = .ok m) :
    (∀ q ∈ present l, 0 ≤ q) ∧ m = if present l = [] then none else some (npMedian (present l)) := by
  refine ⟨exists_median_iff.mp ⟨m, h⟩, ?_⟩
  rw [median] at h
  split_ifs at h ⊢ with hnil hneg
  · cases h
    rfl
  · cases h
    rfl

/-- A median of numbers that are not negative is not negative. -/
theorem npMedian_nonneg {m : List ℚ} (h : ∀ q ∈ m, 0 ≤ q) : 0 ≤ npMedian m := by
  have hget (i : ℕ) : 0 ≤ (sortedBy id m).getD i 0 := by
    rw [List.getD_eq_getElem?_getD]
    cases hi : (sortedBy id m)[i]? with
    | none => exact le_rfl
    | some q => exact h q ((mem_sortedBy id).mp (List.mem_of_getElem? hi))
  rw [npMedian]
  split_ifs
  · exact hget _
  · exact div_nonneg (add_nonneg (hget _) (hget _)) (by norm_num)

theorem median_finite {m : Option ℚ} (h : median l = .ok m) : median [m.map .finite] = .ok m := by
  obtain ⟨hpos, rfl⟩ := median_eq_ok h
  split_ifs with hnil
  · rfl
  · have hneg : ¬ ∃ q ∈ [npMedian (present l)], q < 0 := by
      intro hlt
      obtain ⟨q, hq, hlt⟩ := hlt
      rw [List.mem_singleton.mp hq] at hlt
      exact absurd (npMedian_nonneg hpos) (not_le.mpr hlt)
    have hpresent : present [(some (npMedian (present l))).map Reading.finite] = [npMedian (present l)] := rfl
    rw [median, hpresent, if_neg (List.cons_ne_nil _ _), if_neg hneg, npMedian_singleton]

end Median

/-! ### The values of a group in another order -/

section Order

variable {normalize : String → String} {key : ActionKey} {values values' : List (PlacementFeedback Reading)}

/-- The loop over the names of the loads keeps the names in order and drops those without a median. -/
theorem lookup_measured {f : String → Except PyError (Option ℚ)} {names : List String}
    {measured : List (String × Option ℚ)} (hn : names.Nodup)
    (h : List.Forall₂ (fun name p ↦ (f name).map (name, ·) = .ok p) names measured) :
    ((measured.filterMap fun p ↦ p.2.map (p.1, ·)).map Prod.fst).Sublist names ∧
      ∀ name ∈ names, f name = .ok (Dict.lookup (measured.filterMap fun p ↦ p.2.map (p.1, ·)) name) := by
  induction h with
  | nil => exact ⟨List.Sublist.refl [], fun _ h ↦ absurd h List.not_mem_nil⟩
  | @cons name p names measured hp _ ih =>
    rw [List.nodup_cons] at hn
    obtain ⟨hsub, hget⟩ := ih hn.2
    obtain ⟨m, hm, rfl⟩ : ∃ m, f name = .ok m ∧ (name, m) = p := by
      cases hf : f name with
      | error e =>
        rw [hf] at hp
        cases hp
      | ok m =>
        rw [hf] at hp
        exact ⟨m, rfl, Except.ok.inj hp⟩
    have hnot : Dict.lookup (measured.filterMap fun p ↦ p.2.map (p.1, ·)) name = none :=
      Dict.lookup_eq_none_iff.mpr fun hmem ↦ hn.1 (hsub.subset hmem)
    have hother (other : String) (ho : other ∈ names) : name ≠ other := by
      rintro rfl
      exact hn.1 ho
    cases m with
    | none =>
      refine ⟨hsub.trans (List.sublist_cons_self name names), fun other ho ↦ ?_⟩
      obtain rfl | ho := List.mem_cons.mp ho
      · rw [hm]
        exact congrArg Except.ok hnot.symm
      · exact hget other ho
    | some q =>
      refine ⟨hsub.cons_cons name, fun other ho ↦ ?_⟩
      obtain rfl | ho := List.mem_cons.mp ho
      · rw [hm]
        simp [Dict.lookup]
      · rw [hget other ho]
        simp [Dict.lookup, hother other ho]

/-- The load under a name is the median of the loads under it. -/
theorem get?_serverLoadMedians {loads : List (Dict String Reading)} {d : Dict String ℚ}
    (h : serverLoadMedians loads = .ok (some d)) (name : String) :
    median (loads.map (·.get? name)) = .ok (d.get? name) := by
  rw [serverLoadMedians] at h
  split_ifs at h with hnil
  · cases h
  · obtain ⟨measured, hm, h⟩ := bind_eq_ok h
    cases h
    obtain ⟨hsub, hget⟩ := lookup_measured (List.nodup_dedup _) (mapM_eq_ok_iff.mp hm)
    rw [Dict.get?_ofList (hsub.nodup (List.nodup_dedup _))]
    by_cases hname : name ∈ (loads.flatMap Dict.keys).dedup
    · exact hget name hname
    · -- A name that no load has has no readings.
      have hnone : ∀ r ∈ loads.map (·.get? name), r = none := by
        intro r hr
        obtain ⟨load, hload, rfl⟩ := List.mem_map.mp hr
        rw [Dict.get?_eq_none_iff]
        intro hkey
        exact hname (List.mem_dedup.mpr (List.mem_flatMap.mpr ⟨load, hload, hkey⟩))
      have hempty : present (loads.map (·.get? name)) = [] := by
        rw [present, List.filterMap_eq_nil_iff]
        intro r hr
        rw [hnone r hr]
        rfl
      rw [median, if_pos hempty, Dict.lookup_eq_none_iff.mpr fun hmem ↦ hname (hsub.subset hmem)]

theorem serverLoadMedians_eq_none {loads : List (Dict String Reading)} (h : serverLoadMedians loads = .ok none) :
    loads = [] := by
  rw [serverLoadMedians] at h
  split_ifs at h with hnil
  · exact hnil
  · obtain ⟨measured, hm, h⟩ := bind_eq_ok h
    cases h

theorem mem_measurements (name : Measurement) : name ∈ measurements := by
  cases name <;> decide

theorem lookup_medians {f : Measurement → Except PyError (Option ℚ)} {names : List Measurement}
    {kwargs : List (Measurement × Option ℚ)}
    (h : List.Forall₂ (fun name p ↦ (f name).map (name, ·) = .ok p) names kwargs) :
    ∀ name ∈ names, f name = .ok (Dict.lookup kwargs name).join := by
  induction h with
  | nil => exact fun _ h ↦ absurd h List.not_mem_nil
  | @cons name p names kwargs hp _ ih =>
    intro other ho
    cases hf : f name with
    | error e =>
      rw [hf] at hp
      cases hp
    | ok m =>
      rw [hf] at hp
      cases hp
      by_cases hname : name = other
      · subst hname
        simp [hf, Dict.lookup]
      · rw [ih other ((List.mem_cons.mp ho).resolve_left (Ne.symm hname))]
        simp [Dict.lookup, hname]

/-- What the aggregate of a group holds. -/
structure Aggregates (normalize : String → String) (key : ActionKey) (values : List (PlacementFeedback Reading))
    (o : PlacementFeedback ℚ) : Prop where
  key : actionKey o = key
  numExamples : o.numExamples = (values.map fun v ↦ max v.numExamples 0).sum
  numBatches : o.numBatches = (values.map fun v ↦ max v.numBatches 0).sum
  success : o.success = values.all (·.success)
  measured : ∀ name, ∃ m, median (values.map (·.measured name)) = .ok m ∧
    o.measured name = if name = .completionMs ∧ 1 < (completionScopes values).length then none else m
  profile : ∃ ids, stableIds normalize values = .ok ids ∧ ids.dedup.length ≤ 1 ∧
    o.executionProfile = ids.head?.map .text
  load : serverLoadMedians (values.filterMap (·.serverLoad)) = .ok o.serverLoad
  scope : o.completionScope =
    if (completionScopes values).length = 1 then (completionScopes values).head?.join else none

theorem aggregates {o : PlacementFeedback ℚ} (h : aggregateGroup normalize key values = .ok o) :
    Aggregates normalize key values o := by
  obtain ⟨_, -, h⟩ := bind_eq_ok h
  obtain ⟨ids, hids, h⟩ := bind_eq_ok h
  obtain ⟨_, hle, h⟩ := bind_eq_ok h
  obtain ⟨kwargs, hk, h⟩ := bind_eq_ok h
  obtain ⟨load, hl, h⟩ := bind_eq_ok h
  cases h
  refine ⟨rfl, rfl, rfl, rfl, fun name ↦ ⟨_, ?_, rfl⟩, ⟨ids, hids, of_require hle, rfl⟩, hl, rfl⟩
  exact lookup_medians (mapM_eq_ok_iff.mp hk) name (mem_measurements name)

/-- The profiles of a group are one text, or there is none. -/
theorem head_stableIds_eq {ids ids' : List String} (hp : values.Perm values')
    (h : stableIds normalize values = .ok ids) (h' : stableIds normalize values' = .ok ids')
    (hle : ids.dedup.length ≤ 1) : ids.head? = ids'.head? := by
  have hmem (id : String) : id ∈ ids ↔ id ∈ ids' := by
    rw [stableIds_eq_ok h, stableIds_eq_ok h']
    simp only [List.mem_filterMap, hp.mem_iff]
  rw [length_dedup_le_one_iff] at hle
  cases ids with
  | nil =>
    cases ids' with
    | nil => rfl
    | cons id ids' => exact absurd ((hmem id).mpr List.mem_cons_self) List.not_mem_nil
  | cons id ids =>
    cases ids' with
    | nil => exact absurd ((hmem id).mp List.mem_cons_self) List.not_mem_nil
    | cons id' ids' =>
      exact congrArg some (hle id List.mem_cons_self id' ((hmem id').mpr List.mem_cons_self))

theorem completionScopes_perm (hp : values.Perm values') :
    (completionScopes values).Perm (completionScopes values') := ((hp.filter _).map _).dedup

/-- The observations of one action do not depend on the order of its values. -/
theorem Aggregates.same {o o' : PlacementFeedback ℚ} (h : Aggregates normalize key values o)
    (h' : Aggregates normalize key values' o') (hp : values.Perm values') : Same o o' := by
  have hscopes := completionScopes_perm hp
  have hkey := h.key.trans h'.key.symm
  rw [actionKey, actionKey, Prod.mk.injEq, Prod.mk.injEq] at hkey
  have hmeasured : o.measured = o'.measured := by
    funext name
    obtain ⟨m, hm, he⟩ := h.measured name
    obtain ⟨m', hm', he'⟩ := h'.measured name
    rw [median_perm (hp.map _), hm'] at hm
    rw [he, he', hscopes.length_eq, Except.ok.inj hm]
  have hprofile : o.executionProfile = o'.executionProfile := by
    obtain ⟨ids, hids, hle, he⟩ := h.profile
    obtain ⟨ids', hids', -, he'⟩ := h'.profile
    rw [he, he', head_stableIds_eq hp hids hids' hle]
  have hscope : o.completionScope = o'.completionScope := by
    rw [h.scope, h'.scope, hscopes.length_eq]
    split_ifs with hone
    · obtain ⟨scope, he⟩ := List.length_eq_one_iff.mp hone
      rw [he] at hscopes ⊢
      rw [List.perm_singleton.mp hscopes]
    · rfl
  have hexamples : o.numExamples = o'.numExamples := by rw [h.numExamples, h'.numExamples, (hp.map _).sum_eq]
  have hbatches : o.numBatches = o'.numBatches := by rw [h.numBatches, h'.numBatches, (hp.map _).sum_eq]
  have hsuccess : o.success = o'.success := by
    rw [h.success, h'.success, Bool.eq_iff_iff, List.all_eq_true, List.all_eq_true]
    simp only [hp.mem_iff]
  constructor
  · obtain ⟨round, client, boundary, measured, examples, batches, profile, success, load, scope⟩ := o
    obtain ⟨round', client', boundary', measured', examples', batches', profile', success', load', scope'⟩ := o'
    simp only at hkey hmeasured hprofile hscope hexamples hbatches hsuccess
    simp only [hkey.1, hkey.2.1, hkey.2.2, hmeasured, hprofile, hscope, hexamples, hbatches, hsuccess]
  · have hloads : (values.filterMap (·.serverLoad)).Perm (values'.filterMap (·.serverLoad)) := hp.filterMap _
    have hl := h.load
    have hl' := h'.load
    have hnil : values.filterMap (·.serverLoad) = [] ↔ values'.filterMap (·.serverLoad) = [] := by
      rw [← List.length_eq_zero_iff, hloads.length_eq, List.length_eq_zero_iff]
    cases ho : o.serverLoad with
    | none =>
      rw [ho] at hl
      rw [hnil.mp (serverLoadMedians_eq_none hl), serverLoadMedians, if_pos rfl] at hl'
      rw [← Except.ok.inj hl']
    | some d =>
      rw [ho] at hl
      cases ho' : o'.serverLoad with
      | none =>
        rw [ho'] at hl'
        rw [hnil.mpr (serverLoadMedians_eq_none hl'), serverLoadMedians, if_pos rfl] at hl
        cases hl
      | some d' =>
        rw [ho'] at hl'
        rw [Option.map_some, Option.map_some, Option.some_inj]
        funext name
        have hname := get?_serverLoadMedians hl name
        rw [median_perm (hloads.map _), get?_serverLoadMedians hl' name] at hname
        exact (Except.ok.inj hname).symm

theorem aggregateGroup_perm {o : PlacementFeedback ℚ} (hp : values.Perm values')
    (h : aggregateGroup normalize key values = .ok o) :
    ∃ o', aggregateGroup normalize key values' = .ok o' ∧ Same o o' := by
  have hcombinable := (exists_aggregateGroup_iff.mp ⟨o, h⟩).of_subset fun v hv ↦ hp.mem_iff.mpr hv
  obtain ⟨o', h'⟩ := exists_aggregateGroup_iff.mpr hcombinable
  exact ⟨o', h', (aggregates h).same (aggregates h') hp⟩

end Order

/-! ### Observations that are reported again -/

/-- A text of a profile splits into the fields it was made of. -/
def ExecutionProfileKey.fields (k : ExecutionProfileKey) : List String :=
  [k.frameworkBackend, k.runtimeBackend, k.deviceType, k.accelerator, k.precision]

/-- The fields are as the constructor leaves them. -/
def ExecutionProfileKey.Made (normalize : String → String) (k : ExecutionProfileKey) : Prop :=
  ∀ s ∈ k.fields, normalize s = s ∧ s ≠ ""

section Again

variable {normalize : String → String} {key : ActionKey} {values : List (PlacementFeedback Reading)}

theorem profileField_eq_ok {name value field : String} (h : profileField normalize name value = .ok field) :
    field = normalize value ∧ field ≠ "" := by
  rw [profileField] at h
  split_ifs at h with hne
  cases h
  exact ⟨rfl, hne⟩

theorem profileField_made {name s : String} (h : normalize s = s ∧ s ≠ "") : profileField normalize name s = .ok s := by
  rw [profileField, h.1, if_neg h.2]

theorem ExecutionProfileKey.make_made {k : ExecutionProfileKey} (h : k.Made normalize) :
    make normalize k.frameworkBackend k.runtimeBackend k.deviceType k.accelerator k.precision = .ok k := by
  simp only [Made, fields, List.forall_mem_cons] at h
  obtain ⟨hf, hr, hd, ha, hp, -⟩ := h
  rw [make, profileField_made hf, ok_bind, profileField_made hr, ok_bind, profileField_made hd, ok_bind,
    profileField_made ha, ok_bind, profileField_made hp, ok_bind]
  rfl

theorem ExecutionProfileKey.made_of_make (hn : ∀ s, normalize (normalize s) = normalize s)
    {framework runtime device accelerator precision : String} {k : ExecutionProfileKey}
    (h : make normalize framework runtime device accelerator precision = .ok k) : k.Made normalize := by
  obtain ⟨f, hf, h⟩ := bind_eq_ok h
  obtain ⟨r, hr, h⟩ := bind_eq_ok h
  obtain ⟨d, hd, h⟩ := bind_eq_ok h
  obtain ⟨a, ha, h⟩ := bind_eq_ok h
  obtain ⟨p, hp, h⟩ := bind_eq_ok h
  cases h
  have hfield {name value field : String} (h : profileField normalize name value = .ok field) :
      normalize field = field ∧ field ≠ "" := by
    obtain ⟨rfl, hne⟩ := profileField_eq_ok h
    exact ⟨hn value, hne⟩
  simp only [Made, fields, List.forall_mem_cons]
  exact ⟨hfield hf, hfield hr, hfield hd, hfield ha, hfield hp, fun _ h ↦ absurd h List.not_mem_nil⟩

theorem ExecutionProfileKey.made_fromValue (hn : ∀ s, normalize (normalize s) = normalize s) {p : ProfileValue}
    (hp : ∀ k, p = .key k → k.Made normalize) {k : ExecutionProfileKey} (h : fromValue normalize p = .ok k) :
    k.Made normalize := by
  cases p with
  | key profile =>
    cases h
    exact hp k rfl
  | text value =>
    rw [fromValue] at h
    split at h
    · exact made_of_make hn h
    · cases h
  | mapping fields => exact made_of_make hn h

/-- The stable id of a profile is read back where no field has a bar in it. -/
theorem ExecutionProfileKey.fromValue_stableId {k : ExecutionProfileKey} (h : k.Made normalize)
    (hbar : ∀ s ∈ k.fields, '|' ∉ s.toList) : fromValue normalize (.text k.stableId) = .ok k := by
  have hsplit : k.stableId.splitOn "|" = k.fields := splitOn_intercalate '|' (List.cons_ne_nil _ _) hbar
  rw [fromValue, hsplit]
  exact make_made h

end Again

section Group

variable {normalize : String → String} {key : ActionKey} {values : List (PlacementFeedback Reading)}
  {o : PlacementFeedback ℚ}

theorem Aggregates.median_again (h : Aggregates normalize key values o) (name : Measurement) :
    median [(o.measured name).map .finite] = .ok (o.measured name) := by
  obtain ⟨m, hm, he⟩ := h.measured name
  rw [he]
  split_ifs
  · rfl
  · exact median_finite hm

theorem Aggregates.medians_again (h : Aggregates normalize key values o) :
    medians [reported o] = .ok (measurements.map fun name ↦ (name, o.measured name)) := by
  rw [medians, mapM_eq_ok_iff, List.forall₂_map_right_iff, List.forall₂_same]
  intro name _
  have hm := h.median_again name
  change (median [(o.measured name).map .finite]).map (name, ·) = _
  rw [hm]
  rfl

theorem lookup_map_self (names : List Measurement) (f : Measurement → Option ℚ) {name : Measurement}
    (h : name ∈ names) : Dict.lookup (names.map fun n ↦ (n, f n)) name = some (f name) := by
  induction names with
  | nil => exact absurd h List.not_mem_nil
  | cons n names ih =>
    by_cases hn : n = name
    · simp [Dict.lookup, hn]
    · have hmem := (List.mem_cons.mp h).resolve_left (Ne.symm hn)
      simpa [Dict.lookup, hn] using ih hmem

/-- A load of medians is the load of their medians. -/
theorem serverLoadMedians_again {loads : List (Dict String Reading)} {d : Dict String ℚ}
    (h : serverLoadMedians loads = .ok (some d)) : serverLoadMedians [finiteLoad d] = .ok (some d) := by
  have hkeys : ([finiteLoad d].flatMap Dict.keys).dedup = d.entries.map Prod.fst := by
    have hk : [finiteLoad d].flatMap Dict.keys = d.entries.map Prod.fst := by
      simp [Dict.keys, finiteLoad, Function.comp_def]
    rw [hk, d.nodup.dedup]
  have hmeasured : (d.entries.map Prod.fst).mapM (fun name ↦
      (median ([finiteLoad d].map (·.get? name))).map (name, ·)) = .ok (d.entries.map fun p ↦ (p.1, some p.2)) := by
    rw [mapM_eq_ok_iff, List.forall₂_map_left_iff, List.forall₂_map_right_iff, List.forall₂_same]
    intro p hp
    have hget : d.get? p.1 = some p.2 := (d.get?_eq_some_iff).mpr hp
    have hm := median_finite (get?_serverLoadMedians h p.1)
    rw [List.map_singleton, get?_finiteLoad, hm, hget]
    rfl
  have hentries : (d.entries.map fun p ↦ (p.1, some p.2)).filterMap (fun p ↦ p.2.map (p.1, ·)) = d.entries := by
    rw [List.filterMap_map]
    exact List.filterMap_some
  rw [serverLoadMedians, if_neg (List.cons_ne_nil _ _), hkeys, hmeasured, ok_bind, hentries]
  have hd : Dict.ofList d.entries = d := by
    obtain ⟨entries, nodup⟩ := d
    have he := Dict.entries_ofList nodup
    generalize Dict.ofList entries = d' at he ⊢
    obtain ⟨entries', nodup'⟩ := d'
    cases he
    rfl
  rw [hd]
  rfl

theorem Aggregates.load_again (h : Aggregates normalize key values o) :
    serverLoadMedians ([reported o].filterMap (·.serverLoad)) = .ok o.serverLoad := by
  have hl := h.load
  cases ho : o.serverLoad with
  | none =>
    have hempty : [reported o].filterMap (·.serverLoad) = [] := by simp [reported, ho]
    rw [hempty]
    rfl
  | some d =>
    have hone : [reported o].filterMap (·.serverLoad) = [finiteLoad d] := by simp [reported, ho]
    rw [ho] at hl
    rw [hone, serverLoadMedians_again hl]

/-- The profiles of the values are as the constructor leaves them, and no field has a bar in it. -/
def Unbarred (normalize : String → String) (values : List (PlacementFeedback Reading)) : Prop :=
  ∀ v ∈ values, ∀ p, v.executionProfile = some p → (∀ k, p = .key k → k.Made normalize) ∧
    ∀ k, ExecutionProfileKey.fromValue normalize p = .ok k → ∀ s ∈ k.fields, '|' ∉ s.toList

/-- Where all completion times have one scope, one of them is finite. -/
def Completed (values : List (PlacementFeedback Reading)) : Prop :=
  ∀ scope, completionScopes values = [some scope] → present (values.map (·.measured .completionMs)) ≠ []

theorem Aggregates.profile_again (h : Aggregates normalize key values o)
    (hn : ∀ s, normalize (normalize s) = normalize s) (hbar : Unbarred normalize values) :
    ∃ ids, stableIds normalize [reported o] = .ok ids ∧ ids.dedup.length ≤ 1 ∧
      ids.head?.map ProfileValue.text = o.executionProfile := by
  obtain ⟨ids, hids, -, he⟩ := h.profile
  cases hhead : ids.head? with
  | none =>
    rw [hhead] at he
    have hempty : [reported o].filterMap (·.executionProfile) = [] := by simp [reported, he]
    exact ⟨[], by rw [stableIds, hempty]; rfl, by decide, he.symm⟩
  | some id =>
    rw [hhead] at he
    obtain ⟨p, hp, hid⟩ := (stableIds_eq_ok hids).mp (List.mem_of_head? hhead)
    obtain ⟨v, hv, hvp⟩ := List.mem_filterMap.mp hp
    cases hk : ExecutionProfileKey.fromValue normalize p with
    | error e =>
      rw [hk] at hid
      cases hid
    | ok k =>
      rw [hk] at hid
      cases hid
      have hmade := ExecutionProfileKey.made_fromValue hn (hbar v hv p hvp).1 hk
      have hread := ExecutionProfileKey.fromValue_stableId hmade ((hbar v hv p hvp).2 k hk)
      have hone : [reported o].filterMap (·.executionProfile) = [.text k.stableId] := by simp [reported, he]
      refine ⟨[k.stableId], ?_, by simp, he.symm⟩
      rw [stableIds, hone, List.mapM_cons, hread]
      rfl

theorem completionScopes_reported : completionScopes [reported o] =
    if (o.measured .completionMs).isSome then [o.completionScope] else [] := by
  rw [completionScopes, List.filter_cons]
  cases hc : o.measured .completionMs with
  | none => simp [reported, hc]
  | some q => simp [reported, hc]

theorem Aggregates.scope_again (h : Aggregates normalize key values o) (hc : Completed values) :
    (if (completionScopes [reported o]).length = 1 then (completionScopes [reported o]).head?.join else none) =
      o.completionScope := by
  rw [completionScopes_reported]
  cases hm : o.measured .completionMs with
  | some q => rfl
  | none =>
    -- Without a completion time there is no scope, since one scope comes with a finite time.
    obtain ⟨m, hmed, he⟩ := h.measured .completionMs
    have hnone : o.completionScope = none := by
      rw [h.scope]
      split_ifs with hone
      · obtain ⟨scope, hs⟩ := List.length_eq_one_iff.mp hone
        rw [hs, if_neg (by simp), hm] at he
        rw [hs]
        cases scope with
        | none => rfl
        | some scope =>
          have hpresent := (median_eq_ok hmed).2
          rw [if_neg (hc scope hs), ← he] at hpresent
          cases hpresent
      · rfl
    rw [hnone]
    rfl

theorem sum_max_nonneg {α : Type} (f : α → ℤ) (l : List α) : 0 ≤ (l.map fun a ↦ max (f a) 0).sum := by
  induction l with
  | nil => exact le_rfl
  | cons a l ih =>
    rw [List.map_cons, List.sum_cons]
    exact Int.add_nonneg (le_max_right (f a) 0) ih

/-- The observation of a group is what the aggregate of it alone is. -/
theorem Aggregates.again (h : Aggregates normalize key values o) (hn : ∀ s, normalize (normalize s) = normalize s)
    (hbar : Unbarred normalize values) (hc : Completed values) :
    aggregateGroup normalize key [reported o] = .ok o := by
  obtain ⟨ids, hids, hle, hprofile⟩ := h.profile_again hn hbar
  have hsuccess : ([reported o].map (·.success)).dedup.length ≤ 1 := by simp
  rw [aggregateGroup, require_of hsuccess, ok_bind, hids, ok_bind, require_of hle, ok_bind, h.medians_again,
    ok_bind, h.load_again, ok_bind]
  have hkey := h.key
  rw [actionKey] at hkey
  have hexamples : o.numExamples = max o.numExamples 0 := by
    rw [h.numExamples]
    exact (max_eq_left (sum_max_nonneg _ values)).symm
  have hbatches : o.numBatches = max o.numBatches 0 := by
    rw [h.numBatches]
    exact (max_eq_left (sum_max_nonneg _ values)).symm
  have hscopes : ¬1 < (completionScopes [reported o]).length := by
    rw [completionScopes_reported]
    split_ifs <;> simp
  have hscope := h.scope_again hc
  obtain ⟨round, client, boundary, measured, examples, batches, profile, success, load, scope⟩ := o
  subst hkey
  simp only [hprofile, hscope, hscopes, and_false, if_false, lookup_map_self measurements _ (mem_measurements _),
    Option.join_some]
  simp only [reported, List.map_singleton, List.sum_singleton, List.all_cons, List.all_nil, Bool.and_true]
  rw [← hexamples, ← hbatches]
  rfl

end Group

/-! ### A batch in another order -/

section Batches

variable {normalize : String → String} {feedback feedback' : List (PlacementFeedback Reading)}
  {observations : List (PlacementFeedback ℚ)}

theorem keyOrder_injective : Function.Injective keyOrder := by
  intro a b h
  obtain ⟨round, client, boundary⟩ := a
  obtain ⟨round', client', boundary'⟩ := b
  rw [keyOrder, keyOrder, toLex_inj, Prod.mk.injEq, toLex_inj] at h
  exact Prod.ext h.1 h.2

theorem groupKeys_nodup (feedback : List (PlacementFeedback Reading)) : (groupKeys feedback).Nodup :=
  (sortedBy_perm keyOrder _).nodup_iff.mpr (List.nodup_dedup _)

theorem groupKeys_congr (h : ∀ key, (∃ v ∈ feedback, actionKey v = key) ↔ ∃ v ∈ feedback', actionKey v = key) :
    groupKeys feedback = groupKeys feedback' := by
  apply sortedBy_congr
  · apply (List.perm_ext_iff_of_nodup (List.nodup_dedup _) (List.nodup_dedup _)).mpr
    intro key
    rw [List.mem_dedup, List.mem_dedup, List.mem_map, List.mem_map]
    exact h key
  · exact fun a _ b _ hab ↦ keyOrder_injective hab

theorem pairwise_groupKeys (feedback : List (PlacementFeedback Reading)) :
    (groupKeys feedback).Pairwise fun a b ↦ keyOrder a < keyOrder b := by
  apply (pairwise_sortedBy keyOrder (feedback.map actionKey).dedup).imp₂ _ (groupKeys_nodup feedback)
  intro a b hle hne
  exact lt_of_le_of_ne hle fun he ↦ hne (keyOrder_injective he)

theorem group_perm (h : feedback.Perm feedback') (key : ActionKey) :
    (group feedback key).Perm (group feedback' key) := h.filter _

theorem map_actionKey (h : aggregateFeedback normalize feedback = .ok observations) :
    observations.map actionKey = groupKeys feedback := by
  have hall := mapM_eq_ok_iff.mp h
  clear h
  generalize groupKeys feedback = keys at hall ⊢
  induction hall with
  | nil => rfl
  | cons hk _ ih => rw [List.map_cons, (actionKey_aggregateGroup hk).1, ih]

theorem aggregateFeedback_perm (hp : feedback.Perm feedback')
    (h : aggregateFeedback normalize feedback = .ok observations) :
    ∃ observations', aggregateFeedback normalize feedback' = .ok observations' ∧
      List.Forall₂ Same observations observations' := by
  have hkeys : groupKeys feedback = groupKeys feedback' := by
    apply groupKeys_congr
    simp only [hp.mem_iff, implies_true]
  have hall := mapM_eq_ok_iff.mp h
  clear h
  rw [aggregateFeedback, ← hkeys]
  simp only [mapM_eq_ok_iff]
  generalize groupKeys feedback = keys at hall ⊢
  induction hall with
  | nil => exact ⟨[], .nil, .nil⟩
  | cons hk _ ih =>
    obtain ⟨o', ho', hsame⟩ := aggregateGroup_perm (group_perm hp _) hk
    obtain ⟨observations', hall', hsames⟩ := ih
    exact ⟨o' :: observations', .cons ho' hall', .cons hsame hsames⟩

theorem group_reported (hn : (observations.map actionKey).Nodup) {o : PlacementFeedback ℚ} (ho : o ∈ observations) :
    group (observations.map reported) (actionKey o) = [reported o] := by
  induction observations with
  | nil => exact absurd ho List.not_mem_nil
  | cons a observations ih =>
    rw [List.map_cons, List.nodup_cons] at hn
    have hkey (b : PlacementFeedback ℚ) : actionKey (reported b) = actionKey b := rfl
    rw [group, List.map_cons, List.filter_cons]
    obtain rfl | ho := List.mem_cons.mp ho
    · rw [if_pos (by simp [hkey]), List.cons.injEq, List.filter_eq_nil_iff]
      refine ⟨rfl, fun v hv he ↦ ?_⟩
      obtain ⟨b, hb, rfl⟩ := List.mem_map.mp hv
      rw [decide_eq_true_eq, hkey] at he
      exact hn.1 (List.mem_map.mpr ⟨b, hb, he⟩)
    · have hne : actionKey a ≠ actionKey o := fun he ↦ hn.1 (List.mem_map.mpr ⟨o, ho, he.symm⟩)
      rw [if_neg (by simp [hkey, hne])]
      exact ih hn.2 ho

theorem aggregateFeedback_again (h : aggregateFeedback normalize feedback = .ok observations)
    (hn : ∀ s, normalize (normalize s) = normalize s) (hbar : Unbarred normalize feedback)
    (hc : ∀ key, Completed (group feedback key)) :
    aggregateFeedback normalize (observations.map reported) = .ok observations := by
  have hmap := map_actionKey h
  have hkeys : groupKeys (observations.map reported) = groupKeys feedback := by
    apply groupKeys_congr
    intro key
    have hkey : (∃ v ∈ feedback, actionKey v = key) ↔ key ∈ observations.map actionKey := by
      rw [hmap, mem_groupKeys]
    rw [hkey]
    simp only [List.mem_map, exists_exists_and_eq_and]
    rfl
  have hnodup : (observations.map actionKey).Nodup := hmap ▸ groupKeys_nodup feedback
  rw [aggregateFeedback, mapM_eq_ok_iff] at h ⊢
  rw [hkeys]
  rw [List.forall₂_iff_zip] at h ⊢
  refine ⟨h.1, fun {key o} hmem ↦ ?_⟩
  have ha := aggregates (h.2 hmem)
  have ho := (List.of_mem_zip hmem).2
  rw [← ha.key, group_reported hnodup ho, ha.key]
  exact ha.again hn (fun v hv ↦ hbar v (mem_group.mp hv).1) (hc key)

/-- A batch is accepted where the profiles in it can be read. -/
theorem exists_profile (h : aggregateFeedback normalize feedback = .ok observations) {v : PlacementFeedback Reading}
    (hv : v ∈ feedback) {p : ProfileValue} (hp : v.executionProfile = some p) :
    ∃ k, ExecutionProfileKey.fromValue normalize p = .ok k := by
  obtain ⟨o, -, hgroup⟩ := forall₂_exists_of_mem_right (mapM_eq_ok_iff.mp h).flip (mem_groupKeys.mpr ⟨v, hv, rfl⟩)
  obtain ⟨ids, hids, -, -⟩ := (aggregates hgroup).profile
  have hmem : p ∈ (group feedback (actionKey v)).filterMap (·.executionProfile) :=
    List.mem_filterMap.mpr ⟨v, mem_group.mpr ⟨hv, rfl⟩, hp⟩
  exact exists_map_ok.mp (exists_mapM_ok_iff.mp ⟨ids, hids⟩ p hmem)

/-- The median of the finite readings, where there is one. -/
def finiteMedian (values : List (Option Reading)) : Option ℚ :=
  if present values = [] then none else some (npMedian (present values))

/-- One observation for each action, in the order of the actions, whatever the order of the batch;
and observations that are reported again are left as they are, unless a profile has a bar in a field
or a scope comes without a finite completion time. -/
theorem aggregate_order_free (hn : ∀ s, normalize (normalize s) = normalize s)
    (h : aggregateFeedback normalize feedback = .ok observations) :
    ((observations.map actionKey).Pairwise (fun a b ↦ keyOrder a < keyOrder b) ∧
      ∀ key, key ∈ observations.map actionKey ↔ ∃ v ∈ feedback, actionKey v = key) ∧
    (∀ o ∈ observations,
      o.numExamples = ((group feedback (actionKey o)).map fun v ↦ max v.numExamples 0).sum ∧
      o.numBatches = ((group feedback (actionKey o)).map fun v ↦ max v.numBatches 0).sum ∧
      ∀ name, o.measured name =
        if name = .completionMs ∧ 1 < (completionScopes (group feedback (actionKey o))).length then none
        else finiteMedian ((group feedback (actionKey o)).map (·.measured name))) ∧
    (∀ feedback', feedback.Perm feedback' → ∃ observations',
      aggregateFeedback normalize feedback' = .ok observations' ∧ List.Forall₂ Same observations observations') ∧
    (Unbarred normalize feedback → (∀ key, Completed (group feedback key)) →
      aggregateFeedback normalize (observations.map reported) = .ok observations) := by
  have hmap := map_actionKey h
  refine ⟨⟨?_, fun key ↦ ?_⟩, fun o ho ↦ ?_, fun feedback' hp ↦ aggregateFeedback_perm hp h,
    fun hbar hc ↦ aggregateFeedback_again h hn hbar hc⟩
  · rw [hmap]
    exact pairwise_groupKeys feedback
  · rw [hmap, mem_groupKeys]
  · obtain ⟨key, -, hgroup⟩ := forall₂_exists_of_mem_right (mapM_eq_ok_iff.mp h) ho
    have ha := aggregates hgroup
    rw [ha.key]
    refine ⟨ha.numExamples, ha.numBatches, fun name ↦ ?_⟩
    obtain ⟨m, hm, he⟩ := ha.measured name
    rw [he, finiteMedian, ← (median_eq_ok hm).2]

end Batches

section Sample

/-- A value of one action. -/
def sampleValue (name : Measurement) (reading : Reading) (scope : Option String) (profile : Option ProfileValue) :
    PlacementFeedback Reading where
  roundId := 1
  clientId := "a"
  boundary := "50%"
  measured := fun other ↦ if other = name then some reading else none
  numExamples := 4
  numBatches := 1
  executionProfile := profile
  success := true
  serverLoad := none
  completionScope := scope

def sampleProfile (framework : String) : ExecutionProfileKey := ⟨framework, "eager", "cpu", "generic_cpu", "fp32"⟩

theorem aggregate_order_free_sample : ∃ observations,
    aggregateFeedback id [sampleValue .clientForwardMs (.finite 1) none (some (.key (sampleProfile "torch"))),
      sampleValue .clientForwardMs (.finite 3) none none] = .ok observations ∧
    aggregateFeedback id (observations.map reported) = .ok observations := by
  have h : aggregateFeedback id [sampleValue .clientForwardMs (.finite 1) none (some (.key (sampleProfile "torch"))),
    sampleValue .clientForwardMs (.finite 3) none none] = .ok [_] := rfl
  refine ⟨_, h, (aggregate_order_free (fun _ ↦ rfl) h).2.2.2 ?_ ?_⟩
  · intro v hv p hp
    obtain rfl | hv := List.mem_cons.mp hv
    · cases hp
      refine ⟨fun k hk ↦ ?_, fun k hk ↦ ?_⟩
      · cases hk
        refine fun s hs ↦ ⟨rfl, ?_⟩
        revert s hs
        decide
      · cases hk
        decide
    · rw [List.mem_singleton.mp hv] at hp
      cases hp
  · intro key scope hs
    have hnone : completionScopes (group [sampleValue .clientForwardMs (.finite 1) none
        (some (.key (sampleProfile "torch"))), sampleValue .clientForwardMs (.finite 3) none none] key) = [] := by
      rw [completionScopes, List.filter_eq_nil_iff.mpr]
      · rfl
      · intro v hv
        obtain rfl | hv := List.mem_cons.mp (mem_group.mp hv).1
        · decide
        · rw [List.mem_singleton.mp hv]
          decide
    rw [hnone] at hs
    cases hs

/-- Completion times of two scopes have no median; a field with a bar is not read back; and a scope
without a finite completion time is lost. -/
theorem not_order_free_again :
    (∃ feedback o, aggregateFeedback id feedback = .ok [o] ∧ (∀ v ∈ feedback, actionKey v = actionKey o) ∧
      o.measured .completionMs ≠ finiteMedian (feedback.map (·.measured .completionMs))) ∧
    (∃ feedback observations, aggregateFeedback id feedback = .ok observations ∧
      ∀ r, aggregateFeedback id (observations.map reported) ≠ .ok r) ∧
    (∃ feedback observations observations', aggregateFeedback id feedback = .ok observations ∧
      aggregateFeedback id (observations.map reported) = .ok observations' ∧
      observations.map (·.completionScope) ≠ observations'.map (·.completionScope)) := by
  refine ⟨⟨[sampleValue .completionMs (.finite 1) (some "client_fit") none,
      sampleValue .completionMs (.finite 3) (some "coordinator_fit_rpc") none], _, rfl, ?_, ?_⟩,
    ⟨[sampleValue .clientForwardMs (.finite 1) none (some (.key (sampleProfile "torch|2")))], [_], rfl, fun r hr ↦ ?_⟩,
    ⟨[sampleValue .completionMs .notFinite (some "client_fit") none], [_], [_], rfl, rfl, ?_⟩⟩
  · decide
  · decide
  · have hsplit : (sampleProfile "torch|2").stableId.splitOn "|" = ["torch", "2", "eager", "cpu", "generic_cpu", "fp32"] :=
      splitOn_intercalate '|' (l := ["torch", "2", "eager", "cpu", "generic_cpu", "fp32"]) (by decide) (by decide)
    have hread : ExecutionProfileKey.fromValue id (.text (sampleProfile "torch|2").stableId) =
        .error (.valueError "Execution profile strings must contain five pipe-separated fields") := by
      rw [ExecutionProfileKey.fromValue, hsplit]
    obtain ⟨k, hk⟩ := exists_profile hr List.mem_cons_self rfl
    exact absurd (hread.symm.trans hk) (by simp)
  · decide

end Sample

end SplitFleet.Feedback
