import Mathlib.Algebra.BigOperators.Group.List.Basic
import Mathlib.Algebra.Module.Rat
import Mathlib.Algebra.Order.BigOperators.Group.List
import SplitFleet.FedCompassSchedule
import SplitFleet.Lib.DictOrder

set_option autoImplicit false

namespace SplitFleet.Compass

open Lib

/-! ### Tensors in exact arithmetic -/

/-- A tensor with its entries in C order, over the rational numbers or, where tensors are complex, over pairs of
them. The kind of a complex dtype counts as `float`. `finite` is whether no entry is infinite or NaN. -/
structure Exact (K : Type) where
  dtype : DType
  shape : List ℕ
  finite : Bool
  entries : Fin shape.prod → K

/-- The dtype of a Python float times a tensor of integers. -/
def defaultFloat : DType := ⟨.float, 4⟩

namespace Exact

variable {K : Type} [AddCommGroup K]

def entry (x : Exact K) (i : ℕ) : K := if h : i < x.shape.prod then x.entries ⟨i, h⟩ else 0

def sub (x y : Exact K) : Exact K where
  dtype := if x.dtype.inexact then x.dtype else y.dtype
  shape := x.shape
  finite := x.finite && y.finite
  entries i := x.entry i - y.entry i

variable [Module ℚ K]

def scale (w : ℚ) (x : Exact K) : Exact K where
  dtype := if x.dtype.inexact then x.dtype else defaultFloat
  shape := x.shape
  finite := x.finite
  entries i := w • x.entry i

/-- The weighted mean of the entries at an index. -/
def mean (values : List (Exact K × ℕ)) (i : ℕ) : K :=
  ((values.map Prod.snd).sum : ℚ)⁻¹ • (values.map fun p ↦ (p.2 : ℚ) • p.1.entry i).sum

/-- `_weighted_tensor`. An empty list of values was refused before. -/
def weightedTensor (round : K → K) (values : List (Exact K × ℕ)) : Exact K :=
  match values with
  | [] => ⟨defaultFloat, [], true, fun _ ↦ 0⟩
  | (reference, _) :: _ =>
    { dtype := reference.dtype
      shape := reference.shape
      finite := values.all (·.1.finite)
      entries := fun i ↦ if reference.dtype.inexact then mean values i else round (mean values i) }

end Exact

/-- The operations of exact arithmetic, for any `**` of Python floats and any rounding of buffers of integers.
Tensors are subtracted only where their shapes are equal, and cast only to their own dtype or from integers. -/
def exactTorch {K : Type} [AddCommGroup K] [Module ℚ K] (power : ℚ → ℚ → ℚ) (round : K → K) : Torch (Exact K) where
  shape x := x.shape
  dtype x := x.dtype
  nonfinite x := x.dtype.inexact && !x.finite
  sub := .sub
  scale := .scale
  castTo x y := { x with dtype := y.dtype }
  average := .weightedTensor round
  power := power

/-- The tensor of a name, where the name is there. -/
def tensorAt {K : Type} (d : Dict String (Exact K)) (name : String) : Exact K :=
  (d.get? name).getD ⟨defaultFloat, [0], true, fun i ↦ i.elim0⟩

theorem tensorAt_of_get? {K : Type} {d : Dict String (Exact K)} {name : String} {x : Exact K}
    (h : d.get? name = some x) : tensorAt d name = x := by
  rw [tensorAt, h]
  rfl

namespace Exact

variable {K : Type} [AddCommGroup K]

theorem ext_entry {x y : Exact K} (hd : x.dtype = y.dtype) (hs : x.shape = y.shape) (hf : x.finite = y.finite)
    (h : ∀ i < x.shape.prod, x.entry i = y.entry i) : x = y := by
  obtain ⟨dtype, shape, finite, entries⟩ := x
  obtain ⟨dtype', shape', finite', entries'⟩ := y
  dsimp only at hd hs hf
  subst hd hs hf
  congr 1
  funext i
  have hi := h i i.isLt
  rw [entry, entry, dif_pos i.isLt, dif_pos i.isLt] at hi
  exact hi

/-- A tensor less a value at each index, as the loop over the updates makes it. -/
def shift (x : Exact K) (finite : Bool) (f : ℕ → K) : Exact K where
  dtype := if x.dtype.inexact then x.dtype else defaultFloat
  shape := x.shape
  finite := x.finite && finite
  entries i := x.entry i - f i

theorem entry_of_lt {x : Exact K} {i : ℕ} (h : i < x.shape.prod) : x.entry i = x.entries ⟨i, h⟩ := dif_pos h

theorem shift_entry {x : Exact K} {i : ℕ} (h : i < x.shape.prod) (finite : Bool) (f : ℕ → K) :
    (x.shift finite f).entry i = x.entry i - f i := entry_of_lt (x := x.shift finite f) h

theorem shift_shift (x : Exact K) (b c : Bool) (f g : ℕ → K) :
    (x.shift b f).shift c g = x.shift (b && c) fun i ↦ f i + g i := by
  apply ext_entry
  · change (if (if x.dtype.inexact then x.dtype else defaultFloat).inexact then _ else _) = _
    by_cases h : x.dtype.inexact = true
    · simp [shift, h]
    · simp [shift, h]
  · rfl
  · exact Bool.and_assoc _ _ _
  · intro i hi
    have hi' : i < x.shape.prod := hi
    rw [shift_entry (x := x.shift b f) hi', shift_entry hi', shift_entry hi']
    abel

/-- One turn of the loop over the updates, at one parameter. -/
theorem delta_eq [Module ℚ K] {value base trained : Exact K} (hs : base.shape = value.shape) (w : ℚ) :
    sub value (scale w { sub base trained with dtype := value.dtype }) =
      value.shift (base.finite && trained.finite) fun i ↦ w • (base.entry i - trained.entry i) := by
  apply ext_entry
  · change (if value.dtype.inexact then value.dtype else if value.dtype.inexact then value.dtype else defaultFloat) = _
    rw [shift]
    split_ifs <;> rfl
  · rfl
  · rfl
  · intro i hi
    have hv : i < value.shape.prod := hi
    have hb : i < base.shape.prod := hs ▸ hv
    have hd : entry { sub base trained with dtype := value.dtype } i = base.entry i - trained.entry i :=
      entry_of_lt (x := { sub base trained with dtype := value.dtype }) hb
    have hscale : (scale w { sub base trained with dtype := value.dtype }).entry i =
        w • entry { sub base trained with dtype := value.dtype } i :=
      entry_of_lt (x := scale w { sub base trained with dtype := value.dtype }) hb
    rw [shift_entry hv, ← hd, ← hscale]
    exact entry_of_lt (x := sub value (scale w { sub base trained with dtype := value.dtype })) hv

end Exact

/-! ### The loops of `_aggregate` -/

section Loops

variable {T : Type} {ops : Torch T} {s : FedCompass T} {u : Update T} {w : ℚ} {state state' : Dict String T}

/-- `state[name] - scale * (update.base[name] - update.trained[name]).to(state[name])` -/
def deltaTensor (ops : Torch T) (w : ℚ) (value base trained : T) : T :=
  ops.sub value (ops.scale w (ops.castTo (ops.sub base trained) value))

theorem item_ok {κ υ : Type} [DecidableEq κ] {d : Dict κ υ} {key : κ} {text : String} {v : υ}
    (h : item d key text = .ok v) : d.get? key = some v := by
  rw [item] at h
  split at h
  · cases h
    assumption
  · cases h

theorem keys_insert_of_get? {κ υ : Type} [DecidableEq κ] {d : Dict κ υ} {k : κ} {v : υ} (h : d.get? k = some v)
    (v' : υ) : (d.insert k v').keys = d.keys := by
  rw [Dict.keys_insert, if_pos ((d.mem_keys_iff).mpr ⟨v, h⟩)]

theorem applyDelta_get? {name : String} (h : applyDelta ops u w state name = .ok state') :
    ∃ value base trained, state.get? name = some value ∧ u.base.get? name = some base ∧
      u.trained.get? name = some trained ∧ state' = state.insert name (deltaTensor ops w value base trained) := by
  obtain ⟨value, hvalue, h⟩ := bind_eq_ok h
  obtain ⟨base, hbase, h⟩ := bind_eq_ok h
  obtain ⟨trained, htrained, h⟩ := bind_eq_ok h
  cases h
  exact ⟨value, base, trained, item_ok hvalue, item_ok hbase, item_ok htrained, rfl⟩

/-- The loop over the parameters changes each of them once and nothing else. -/
theorem applyDeltas_get? {names : List String} (hn : names.Nodup)
    (h : names.foldlM (applyDelta ops u w) state = .ok state') : state'.keys = state.keys ∧
      (∀ name ∉ names, state'.get? name = state.get? name) ∧
      ∀ name ∈ names, ∃ value base trained, state.get? name = some value ∧ u.base.get? name = some base ∧
        u.trained.get? name = some trained ∧ state'.get? name = some (deltaTensor ops w value base trained) := by
  induction names generalizing state with
  | nil =>
    cases h
    exact ⟨rfl, fun _ _ ↦ rfl, fun _ h ↦ absurd h List.not_mem_nil⟩
  | cons n names ih =>
    rw [List.nodup_cons] at hn
    rw [List.foldlM_cons] at h
    obtain ⟨mid, hmid, h⟩ := bind_eq_ok h
    obtain ⟨value, base, trained, hvalue, hbase, htrained, rfl⟩ := applyDelta_get? hmid
    obtain ⟨hkeys, hother, hnames⟩ := ih hn.2 h
    refine ⟨hkeys.trans (keys_insert_of_get? hvalue _), fun name hname ↦ ?_, fun name hname ↦ ?_⟩
    · rw [List.mem_cons, not_or] at hname
      rw [hother name hname.2, Dict.get?_insert, if_neg (Ne.symm hname.1)]
    · obtain rfl | hname := List.mem_cons.mp hname
      · refine ⟨value, base, trained, hvalue, hbase, htrained, ?_⟩
        rw [hother name hn.1, Dict.get?_insert, if_pos rfl]
      · obtain ⟨value', base', trained', hvalue', h'⟩ := hnames name hname
        have hne : n ≠ name := fun he ↦ hn.1 (he ▸ hname)
        rw [Dict.get?_insert, if_neg hne] at hvalue'
        exact ⟨value', base', trained', hvalue', h'⟩

/-- `alpha * w_i * (1 + delay_i) ** -e` -/
def scaleOf (ops : Torch T) (s : FedCompass T) (u : Update T) : ℚ :=
  s.config.alpha * (((s.partitionSizes.get? u.clientId).getD 0 : ℕ) / totalSize s.partitionSizes) *
    ops.power (1 + (s.version - u.assignment.modelVersion : ℕ)) (-s.config.stalenessExponent)

theorem applyDeltas_of_mergeUpdate {acc acc' : Dict String T × List ℚ × List ℕ}
    (h : mergeUpdate ops s acc u = .ok acc') :
    u.assignment.modelVersion ≤ s.version ∧ u.clientId ∈ s.partitionSizes.keys ∧
      s.parameterNames.foldlM (applyDelta ops u (scaleOf ops s u)) acc.1 = .ok acc'.1 := by
  obtain ⟨_, hversion, h⟩ := bind_eq_ok h
  obtain ⟨weight, hweight, h⟩ := bind_eq_ok h
  obtain ⟨state, hstate, h⟩ := bind_eq_ok h
  cases h
  obtain ⟨n, hsize, hweight⟩ := bind_eq_ok hweight
  cases hweight
  have hget := item_ok hsize
  refine ⟨of_require hversion, (Dict.mem_keys_iff _).mpr ⟨n, hget⟩, ?_⟩
  rw [scaleOf, hget]
  exact hstate

/-- The updates passed the checks of `receive`. -/
def Checked (ops : Torch T) (s : FedCompass T) (updates : List (Update T)) : Prop :=
  ∀ u ∈ updates, checkState ops s.model u.base = .ok () ∧ checkState ops s.model u.trained = .ok ()

theorem Checked.perm {updates updates' : List (Update T)} (h : Checked ops s updates) (hp : updates.Perm updates') :
    Checked ops s updates' := fun u hu ↦ h u (hp.mem_iff.mpr hu)

/-- The updates that the loop goes through are from known clients and of no future version. -/
theorem known_of_mergeUpdates {updates : List (Update T)} {acc acc' : Dict String T × List ℚ × List ℕ}
    (h : updates.foldlM (mergeUpdate ops s) acc = .ok acc') :
    ∀ u ∈ updates, u.assignment.modelVersion ≤ s.version ∧ u.clientId ∈ s.partitionSizes.keys := by
  induction updates generalizing acc with
  | nil => exact fun _ h ↦ absurd h List.not_mem_nil
  | cons u updates ih =>
    rw [List.foldlM_cons] at h
    obtain ⟨mid, hmid, h⟩ := bind_eq_ok h
    obtain ⟨hversion, hknown, -⟩ := applyDeltas_of_mergeUpdate hmid
    rw [List.forall_mem_cons]
    exact ⟨⟨hversion, hknown⟩, ih h⟩

/-- The parameters that the loop goes through are those of the model. -/
theorem parameters_of_mergeUpdates {updates : List (Update T)} {acc acc' : Dict String T × List ℚ × List ℕ}
    (hn : s.parameterNames.Nodup) (hne : updates ≠ []) (h : updates.foldlM (mergeUpdate ops s) acc = .ok acc') :
    ∀ name ∈ s.parameterNames, name ∈ acc.1.keys := by
  cases updates with
  | nil => exact absurd rfl hne
  | cons u updates =>
    rw [List.foldlM_cons] at h
    obtain ⟨mid, hmid, -⟩ := bind_eq_ok h
    obtain ⟨-, -, hdeltas⟩ := applyDeltas_of_mergeUpdate hmid
    intro name hname
    obtain ⟨value, -, -, hvalue, -⟩ := (applyDeltas_get? hn hdeltas).2.2 name hname
    exact (Dict.mem_keys_iff _).mpr ⟨value, hvalue⟩

/-- The time of a commit. -/
def commitTime (s : FedCompass T) (now : ℚ) : ℚ :=
  match s.timing with
  | .events => now
  | .clock read | .budget read _ => read s.ticks

theorem committedAt_eq (s : FedCompass T) (now : ℚ) :
    ∃ t, (committedAt now).run s = .ok (commitTime s now) t ∧ (t = s ∨ t = s.tick) := by
  cases ht : s.timing with
  | events =>
    refine ⟨s, ?_, .inl rfl⟩
    rw [committedAt, Method.get_bind_run, commitTime, ht]
    rfl
  | clock read =>
    refine ⟨s.tick, ?_, .inr rfl⟩
    rw [committedAt, Method.get_bind_run, commitTime, ht]
    rfl
  | budget read deadline =>
    refine ⟨s.tick, ?_, .inr rfl⟩
    rw [committedAt, Method.get_bind_run, commitTime, ht]
    rfl

/-- A merged state is committed unless the commit comes too late. -/
theorem aggregate_run {updates : List (Update T)} {m : Dict String T × List ℚ × List ℕ} (now : ℚ) (gid : Option ℕ)
    (reason : String) (h : merge ops s updates = .ok m) : ∃ t, (t = s ∨ t = s.tick) ∧
      (aggregate ops updates now gid reason).run s =
        if s.timing.over (commitTime s now) then .ok false (t.discard updates)
        else .ok true (t.commit updates m.1 m.2.1 m.2.2 (commitTime s now) gid reason) := by
  obtain ⟨t, hc, ht⟩ := committedAt_eq s now
  have htiming : t.timing = s.timing := by
    obtain rfl | rfl := ht
    · rfl
    · rfl
  refine ⟨t, ht, ?_⟩
  rw [aggregate, Method.get_bind_run, h, Method.ok_bind_run]
  dsimp only
  rw [Method.run_bind_of_ok hc, Method.get_bind_run, htiming]
  split_ifs
  · rfl
  · rfl

end Loops

section Buffers

variable {K : Type} {s : FedCompass (Exact K)} {updates : List (Update (Exact K))}

/-- The partition size of the client of an update. -/
def partitionSize (s : FedCompass (Exact K)) (u : Update (Exact K)) : ℕ := (s.partitionSizes.get? u.clientId).getD 0

theorem averageBuffer_eq {ops : Torch (Exact K)} {name : String} {p : String × Exact K}
    (h : averageBuffer ops s updates name = .ok p) :
    p = (name, ops.average (updates.map fun u ↦ (tensorAt u.trained name, partitionSize s u))) := by
  obtain ⟨values, hvalues, h⟩ := bind_eq_ok h
  cases h
  have heq : values = updates.map fun u ↦ (tensorAt u.trained name, partitionSize s u) := by
    have hall := mapM_eq_ok_iff.mp hvalues
    clear h hvalues
    induction hall with
    | nil => rfl
    | cons hx _ ih =>
      obtain ⟨value, hvalue, hx⟩ := bind_eq_ok hx
      obtain ⟨size, hsize, hx⟩ := bind_eq_ok hx
      cases hx
      rw [List.map_cons, ih, tensorAt_of_get? (item_ok hvalue), partitionSize, item_ok hsize]
      rfl
  rw [heq]

theorem averaged_eq {ops : Torch (Exact K)} {names : List String} {averaged : List (String × Exact K)}
    (h : names.mapM (averageBuffer ops s updates) = .ok averaged) : averaged = names.map fun name ↦
      (name, ops.average (updates.map fun u ↦ (tensorAt u.trained name, partitionSize s u))) := by
  have hall := mapM_eq_ok_iff.mp h
  clear h
  induction hall with
  | nil => rfl
  | cons hp _ ih => rw [List.map_cons, ih, averageBuffer_eq hp]

end Buffers

section Merge

variable {K : Type} [AddCommGroup K] [Module ℚ K] {power : ℚ → ℚ → ℚ} {round : K → K} {s : FedCompass (Exact K)}
  {u : Update (Exact K)} {updates : List (Update (Exact K))}

/-- What an update takes off a parameter. -/
def descent (ops : Torch (Exact K)) (s : FedCompass (Exact K)) (name : String) (u : Update (Exact K)) (i : ℕ) : K :=
  scaleOf ops s u • ((tensorAt u.base name).entry i - (tensorAt u.trained name).entry i)

def finiteAt (name : String) (u : Update (Exact K)) : Bool :=
  (tensorAt u.base name).finite && (tensorAt u.trained name).finite

/-- What one turn of the loop leaves of the state. -/
structure Turned (ops : Torch (Exact K)) (s : FedCompass (Exact K)) (updates : List (Update (Exact K)))
    (state state' : Dict String (Exact K)) : Prop where
  keys : state'.keys = state.keys
  other : ∀ name ∉ s.parameterNames, state'.get? name = state.get? name
  parameters : ∀ name ∈ s.parameterNames, state'.get? name = some ((tensorAt state name).shift
    (updates.all (finiteAt name)) fun i ↦ (updates.map fun u ↦ descent ops s name u i).sum)

/-- The base of every update has the shapes of a state. -/
def Shaped (s : FedCompass (Exact K)) (updates : List (Update (Exact K))) (state : Dict String (Exact K)) : Prop :=
  ∀ u ∈ updates, ∀ name ∈ s.parameterNames, (tensorAt u.base name).shape = (tensorAt state name).shape

theorem mergeUpdate_turned {acc acc' : Dict String (Exact K) × List ℚ × List ℕ} (hn : s.parameterNames.Nodup)
    (hs : Shaped s [u] acc.1) (h : mergeUpdate (exactTorch power round) s acc u = .ok acc') :
    Turned (exactTorch power round) s [u] acc.1 acc'.1 := by
  obtain ⟨-, -, h⟩ := applyDeltas_of_mergeUpdate h
  obtain ⟨hkeys, hother, hnames⟩ := applyDeltas_get? hn h
  refine ⟨hkeys, hother, fun name hname ↦ ?_⟩
  obtain ⟨value, base, trained, hvalue, hbase, htrained, hget⟩ := hnames name hname
  have hshape := hs u List.mem_cons_self name hname
  rw [tensorAt_of_get? hbase, tensorAt_of_get? hvalue] at hshape
  have hdelta : deltaTensor (exactTorch power round) (scaleOf (exactTorch power round) s u) value base trained =
      value.shift (base.finite && trained.finite)
        fun i ↦ scaleOf (exactTorch power round) s u • (base.entry i - trained.entry i) := Exact.delta_eq hshape _
  rw [hget, hdelta, tensorAt_of_get? hvalue]
  simp [descent, finiteAt, tensorAt_of_get? hbase, tensorAt_of_get? htrained]

theorem Turned.trans {ops : Torch (Exact K)} {updates' : List (Update (Exact K))}
    {state mid state' : Dict String (Exact K)} (h : Turned ops s updates state mid)
    (h' : Turned ops s updates' mid state') : Turned ops s (updates ++ updates') state state' where
  keys := h'.keys.trans h.keys
  other name hname := (h'.other name hname).trans (h.other name hname)
  parameters name hname := by
    rw [h'.parameters name hname, tensorAt_of_get? (h.parameters name hname), Exact.shift_shift]
    simp only [List.all_append, List.map_append, List.sum_append]

theorem Turned.shaped {ops : Torch (Exact K)} {updates' : List (Update (Exact K))}
    {state state' : Dict String (Exact K)} (h : Turned ops s updates state state') (hs : Shaped s updates' state) :
    Shaped s updates' state' := by
  intro u hu name hname
  rw [tensorAt_of_get? (h.parameters name hname)]
  exact hs u hu name hname

/-- The loop over the updates takes the sum of what they take. -/
theorem mergeUpdates_turned {acc acc' : Dict String (Exact K) × List ℚ × List ℕ} (hn : s.parameterNames.Nodup)
    (hne : updates ≠ []) (hs : Shaped s updates acc.1)
    (h : updates.foldlM (mergeUpdate (exactTorch power round) s) acc = .ok acc') :
    Turned (exactTorch power round) s updates acc.1 acc'.1 := by
  induction updates generalizing acc with
  | nil => exact absurd rfl hne
  | cons u updates ih =>
    rw [List.foldlM_cons] at h
    obtain ⟨mid, hmid, h⟩ := bind_eq_ok h
    have hu : Shaped s [u] acc.1 := by
      intro v hv
      rw [List.mem_singleton.mp hv]
      exact hs u List.mem_cons_self
    have hfirst := mergeUpdate_turned hn hu hmid
    cases updates with
    | nil =>
      cases h
      exact hfirst
    | cons v updates =>
      have hrest : Shaped s (v :: updates) mid.1 := hfirst.shaped fun x hx ↦ hs x (List.mem_cons_of_mem u hx)
      exact hfirst.trans (ih (List.cons_ne_nil v updates) hrest h)

/-! ### The merged state -/

/-- The tensor of a name after a commit: a parameter takes what every update takes off it, a buffer is the
aggregate of the buffers of the updates. -/
def stepped (ops : Torch (Exact K)) (s : FedCompass (Exact K)) (updates : List (Update (Exact K))) (name : String) :
    Exact K :=
  if name ∈ s.parameterNames then
    (tensorAt s.model name).shift (updates.all (finiteAt name)) fun i ↦
      (updates.map fun u ↦ descent ops s name u i).sum
  else ops.average (updates.map fun u ↦ (tensorAt u.trained name, partitionSize s u))

/-- The merged state before its check, name by name. -/
theorem assembled {acc : Dict String (Exact K) × List ℚ × List ℕ} {averaged : List (String × Exact K)}
    (hn : s.parameterNames.Nodup) (hne : updates ≠ []) (hs : Shaped s updates s.model)
    (ha : (s.model.keys.filter (· ∉ s.parameterNames)).mapM (averageBuffer (exactTorch power round) s updates) =
      .ok averaged)
    (hacc : updates.foldlM (mergeUpdate (exactTorch power round) s) (s.model, [], []) = .ok acc) :
    (averaged.foldl (fun d p ↦ d.insert p.1 p.2) acc.1).keys = s.model.keys ∧ ∀ name ∈ s.model.keys,
      (averaged.foldl (fun d p ↦ d.insert p.1 p.2) acc.1).get? name =
        some (stepped (exactTorch power round) s updates name) := by
  have hturned := mergeUpdates_turned hn hne hs hacc
  have hlist := averaged_eq ha
  have hmem : ∀ p ∈ averaged, p.1 ∈ acc.1.keys := by
    intro p hp
    rw [hlist] at hp
    obtain ⟨name, hname, rfl⟩ := List.mem_map.mp hp
    rw [hturned.keys]
    exact (List.mem_filter.mp hname).1
  refine ⟨(Dict.keys_foldl_insert hmem).trans hturned.keys, fun name hname ↦ ?_⟩
  have hnodup : (averaged.map Prod.fst).Nodup := by
    rw [hlist, List.map_map]
    exact (List.map_id _).symm ▸ s.model.nodup.filter _
  rw [Dict.get?_foldl_insert _ _ hnodup, hlist, stepped]
  by_cases hp : name ∈ s.parameterNames
  · have hnot : name ∉ s.model.keys.filter (· ∉ s.parameterNames) := fun h ↦
      of_decide_eq_true (List.mem_filter.mp h).2 hp
    rw [Dict.lookup_map_of_not_mem hnot, if_pos hp, Option.none_or]
    exact hturned.parameters name hp
  · have hin : name ∈ s.model.keys.filter (· ∉ s.parameterNames) :=
      List.mem_filter.mpr ⟨hname, decide_eq_true hp⟩
    rw [Dict.lookup_map_of_mem hin, if_neg hp, Option.some_or]

end Merge

/-! ### Checked updates -/

section Checked

variable {K : Type} [AddCommGroup K] [Module ℚ K] {power : ℚ → ℚ → ℚ} {round : K → K} {s : FedCompass (Exact K)}
  {updates updates' : List (Update (Exact K))}

/-- A state that passes `_check_state` has the schema of the model and no infinite or NaN entry. -/
theorem tensor_of_checkState {model state : Dict String (Exact K)} {name : String}
    (h : checkState (exactTorch power round) model state = .ok ()) (hname : name ∈ model.keys) : name ∈ state.keys ∧
      (tensorAt state name).shape = (tensorAt model name).shape ∧
      (tensorAt state name).dtype = (tensorAt model name).dtype ∧
      ((tensorAt state name).dtype.inexact = true → (tensorAt state name).finite = true) := by
  have hmem := (keys_of_checkState h name).mpr hname
  obtain ⟨_, -, h⟩ := bind_eq_ok h
  obtain ⟨x, hx⟩ := (state.mem_keys_iff).mp hmem
  obtain ⟨_, hcurrent, h⟩ := bind_eq_ok (forM_eq_ok_iff.mp h _ ((state.get?_eq_some_iff).mp hx))
  obtain ⟨_, hschema, h⟩ := bind_eq_ok h
  obtain ⟨hshape, hdtype⟩ := of_require hschema
  have hfinite := of_require h
  rw [tensorAt_of_get? hx, tensorAt_of_get? (item_ok hcurrent)]
  refine ⟨hmem, hshape, hdtype, fun hinexact ↦ ?_⟩
  change (x.dtype.inexact && !x.finite) = false at hfinite
  rw [hinexact] at hfinite
  simpa using hfinite

theorem mean_perm {values values' : List (Exact K × ℕ)} (h : values.Perm values') (i : ℕ) :
    Exact.mean values i = Exact.mean values' i := by
  rw [Exact.mean, Exact.mean, (h.map Prod.snd).sum_eq, (h.map fun q ↦ (q.2 : ℚ) • q.1.entry i).sum_eq]

/-- The weighted mean of tensors of one schema does not depend on their order. -/
theorem weightedTensor_perm {values values' : List (Exact K × ℕ)} {x : Exact K} (h : values.Perm values')
    (hx : ∀ p ∈ values, p.1.dtype = x.dtype ∧ p.1.shape = x.shape) :
    Exact.weightedTensor round values = Exact.weightedTensor round values' := by
  cases values with
  | nil => rw [h.nil_eq]
  | cons p l =>
    cases values' with
    | nil => exact absurd h.eq_nil (List.cons_ne_nil p l)
    | cons p' l' =>
      obtain ⟨hd, hs⟩ := hx p List.mem_cons_self
      obtain ⟨hd', hs'⟩ := hx p' (h.mem_iff.mpr List.mem_cons_self)
      apply Exact.ext_entry
      · exact hd.trans hd'.symm
      · exact hs.trans hs'.symm
      · change List.all (p :: l) (fun q ↦ q.1.finite) = List.all (p' :: l') fun q ↦ q.1.finite
        exact h.all_eq
      · intro i hi
        have hi' : i < (Exact.weightedTensor round (p' :: l')).shape.prod := by
          change i < p.1.shape.prod at hi
          change i < p'.1.shape.prod
          rwa [hs', ← hs]
        rw [Exact.entry_of_lt hi, Exact.entry_of_lt hi']
        change (if p.1.dtype.inexact then Exact.mean (p :: l) i else round (Exact.mean (p :: l) i)) =
          if p'.1.dtype.inexact then Exact.mean (p' :: l') i else round (Exact.mean (p' :: l') i)
        rw [hd, hd', mean_perm h]

theorem Checked.shaped (h : Checked (exactTorch power round) s updates)
    (hsub : ∀ n ∈ s.parameterNames, n ∈ s.model.keys) :
    Shaped s updates s.model :=
  fun u hu name hname ↦ (tensor_of_checkState (h u hu).1 (hsub name hname)).2.1

/-- The order of the updates does not matter for any name. -/
theorem stepped_perm (hc : Checked (exactTorch power round) s updates) (hp : updates.Perm updates') {name : String}
    (hname : name ∈ s.model.keys) :
    stepped (exactTorch power round) s updates name = stepped (exactTorch power round) s updates' name := by
  rw [stepped, stepped]
  split_ifs with h
  · have hsum : ∀ i, (updates.map fun u ↦ descent (exactTorch power round) s name u i).sum =
        (updates'.map fun u ↦ descent (exactTorch power round) s name u i).sum := fun i ↦ (hp.map _).sum_eq
    rw [hp.all_eq]
    simp only [hsum]
  · apply weightedTensor_perm (x := tensorAt s.model name) (hp.map _)
    intro p hmem
    obtain ⟨u, hu, rfl⟩ := List.mem_map.mp hmem
    obtain ⟨-, hshape, hdtype, -⟩ := tensor_of_checkState (hc u hu).2 hname
    exact ⟨hdtype, hshape⟩

theorem Checked.mergeable (hc : Checked (exactTorch power round) s updates)
    (hk : ∀ u ∈ updates, u.assignment.modelVersion ≤ s.version ∧ u.clientId ∈ s.partitionSizes.keys) :
    ∀ u ∈ updates, Mergeable s u := fun u hu ↦
  { known := (hk u hu).2
    base := fun _ hn ↦ (tensor_of_checkState (hc u hu).1 hn).1
    trained := fun _ hn ↦ (tensor_of_checkState (hc u hu).2 hn).1
    version := (hk u hu).1 }

/-- What a merge that succeeds has made. -/
theorem merge_ok {m : Dict String (Exact K) × List ℚ × List ℕ} (hn : s.parameterNames.Nodup) (hne : updates ≠ [])
    (hc : Checked (exactTorch power round) s updates) (h : merge (exactTorch power round) s updates = .ok m) :
    (∀ name ∈ s.parameterNames, name ∈ s.model.keys) ∧ (∀ u ∈ updates, Mergeable s u) ∧
      m.1.keys = s.model.keys ∧
      (∀ name ∈ s.model.keys, m.1.get? name = some (stepped (exactTorch power round) s updates name)) ∧
      checkState (exactTorch power round) s.model m.1 = .ok () := by
  obtain ⟨averaged, ha, h⟩ := bind_eq_ok h
  obtain ⟨acc, hacc, h⟩ := bind_eq_ok h
  obtain ⟨_, hcheck, h⟩ := bind_eq_ok h
  cases h
  have hparameters := parameters_of_mergeUpdates hn hne hacc
  obtain ⟨hkeys, hget⟩ := assembled hn hne (hc.shaped hparameters) ha hacc
  exact ⟨hparameters, hc.mergeable (known_of_mergeUpdates hacc), hkeys, hget, hcheck⟩

/-- Updates in another order merge to the same state. -/
theorem merge_perm {m : Dict String (Exact K) × List ℚ × List ℕ} (hn : s.parameterNames.Nodup) (hne : updates ≠ [])
    (hc : Checked (exactTorch power round) s updates) (h : merge (exactTorch power round) s updates = .ok m)
    (hp : updates.Perm updates') : ∃ m', merge (exactTorch power round) s updates' = .ok m' ∧ m'.1 = m.1 := by
  obtain ⟨hparameters, hmergeable, hkeys, hget, hcheck⟩ := merge_ok hn hne hc h
  have hne' : updates' ≠ [] := fun he ↦ hne (hp.trans (he ▸ .refl _)).eq_nil
  have hmergeable' : ∀ u ∈ updates', Mergeable s u := fun u hu ↦ hmergeable u (hp.mem_iff.mpr hu)
  obtain ⟨averaged, ha⟩ := exists_mapM_ok_iff.mpr fun name hname ↦
    (averageBuffer_ok (exactTorch power round) (List.mem_filter.mp hname).1 hmergeable').imp fun p ↦ And.left
  obtain ⟨acc, hacc, -⟩ := mergeUpdates_ok (exactTorch power round) (s.model, [], []) hmergeable' hparameters
    fun _ ↦ Iff.rfl
  obtain ⟨hkeys', hget'⟩ := assembled hn hne' ((hc.perm hp).shaped hparameters) ha hacc
  have hsame : averaged.foldl (fun d p ↦ d.insert p.1 p.2) acc.1 = m.1 := by
    refine Dict.ext_get? (hkeys'.trans hkeys.symm) fun name ↦ ?_
    by_cases hname : name ∈ s.model.keys
    · rw [hget' name hname, hget name hname, stepped_perm hc hp hname]
    · rw [(Dict.get?_eq_none_iff _).mpr (hkeys' ▸ hname), (Dict.get?_eq_none_iff _).mpr (hkeys ▸ hname)]
  refine ⟨(averaged.foldl (fun d p ↦ d.insert p.1 p.2) acc.1, acc.2), ?_, hsame⟩
  rw [merge, ha, ok_bind, hacc, ok_bind]
  dsimp only
  rw [hsame, hcheck, ok_bind]
  rfl

/-- Names that share a tensor keep sharing it. -/
theorem stepped_shared {ops : Torch (Exact K)} {a b : String} (ha : a ∈ s.parameterNames) (hb : b ∈ s.parameterNames)
    (hmodel : tensorAt s.model a = tensorAt s.model b)
    (h : ∀ u ∈ updates, tensorAt u.base a = tensorAt u.base b ∧ tensorAt u.trained a = tensorAt u.trained b) :
    stepped ops s updates a = stepped ops s updates b := by
  have hfinite : updates.all (finiteAt a) = updates.all (finiteAt b) := by
    rw [Bool.eq_iff_iff, List.all_eq_true, List.all_eq_true]
    refine forall₂_congr fun u hu ↦ ?_
    rw [finiteAt, finiteAt, (h u hu).1, (h u hu).2]
  have hdescent : ∀ i, updates.map (fun u ↦ descent ops s a u i) = updates.map fun u ↦ descent ops s b u i := by
    intro i
    apply List.map_congr_left
    intro u hu
    rw [descent, descent, (h u hu).1, (h u hu).2]
  rw [stepped, stepped, if_pos ha, if_pos hb, hmodel, hfinite]
  simp only [hdescent]

end Checked

/-! ### A commit -/

section Shares

variable {K : Type} {s : FedCompass (Exact K)} {updates : List (Update (Exact K))}

/-- The share of a client in the partitions. -/
def share (s : FedCompass (Exact K)) (u : Update (Exact K)) : ℚ := partitionSize s u / totalSize s.partitionSizes

/-- Every client has one update, and its base is the current model. -/
structure Complete (s : FedCompass (Exact K)) (updates : List (Update (Exact K))) : Prop where
  current : ∀ u ∈ updates, u.assignment.modelVersion = s.version
  all : (updates.map (·.clientId)).Perm s.partitionSizes.keys
  positive : ∀ n ∈ s.partitionSizes.values, 0 < n

theorem map_getD_keys (d : Dict String ℕ) : d.keys.map (fun cid ↦ (d.get? cid).getD 0) = d.values := by
  rw [Dict.keys, Dict.values, List.map_map]
  apply List.map_congr_left
  intro p hp
  change (d.get? p.1).getD 0 = p.2
  rw [(d.get?_eq_some_iff).mpr hp]
  rfl

theorem Complete.sum_partitionSize (h : Complete s updates) :
    (updates.map (partitionSize s)).sum = totalSize s.partitionSizes := by
  have hmap : updates.map (partitionSize s) =
      (updates.map (·.clientId)).map fun cid ↦ (s.partitionSizes.get? cid).getD 0 := by
    rw [List.map_map]
    rfl
  rw [hmap, (h.all.map _).sum_eq, map_getD_keys, totalSize]

theorem Complete.totalSize_pos (h : Complete s updates) (hne : updates ≠ []) : 0 < totalSize s.partitionSizes := by
  obtain ⟨u, hu⟩ := List.exists_mem_of_ne_nil updates hne
  obtain ⟨n, hn⟩ := (Dict.mem_keys_iff _).mp (h.all.mem_iff.mp (List.mem_map_of_mem hu))
  have hmem : n ∈ s.partitionSizes.values := (Dict.mem_values_iff _).mpr ⟨u.clientId, hn⟩
  exact (h.positive n hmem).trans_le (List.single_le_sum (fun _ _ ↦ Nat.zero_le _) n hmem)

theorem Complete.sum_share (h : Complete s updates) (hne : updates ≠ []) : (updates.map (share s)).sum = 1 := by
  have hdiv : ∀ l : List (Update (Exact K)),
      (l.map (share s)).sum = ((l.map (partitionSize s)).sum : ℕ) / totalSize s.partitionSizes := by
    intro l
    induction l with
    | nil => simp
    | cons u l ih =>
      rw [List.map_cons, List.sum_cons, ih, List.map_cons, List.sum_cons, share]
      push_cast
      rw [add_div]
  have hpos : (totalSize s.partitionSizes : ℚ) ≠ 0 := by exact_mod_cast (h.totalSize_pos hne).ne'
  rw [hdiv, h.sum_partitionSize, div_self hpos]

end Shares

section Commit

variable {K : Type} [AddCommGroup K] [Module ℚ K] {power : ℚ → ℚ → ℚ} {round : K → K} {s : FedCompass (Exact K)}
  {updates : List (Update (Exact K))} {model : Dict String (Exact K)}

/-- The move of a parameter that the plain weighted mean of the updates would make. -/
def meanMove (s : FedCompass (Exact K)) (updates : List (Update (Exact K))) (name : String) (i : ℕ) : K :=
  (updates.map fun u ↦ share s u • ((tensorAt u.trained name).entry i - (tensorAt u.base name).entry i)).sum

/-- The model that a commit leaves. -/
structure Committed (power : ℚ → ℚ → ℚ) (round : K → K) (s : FedCompass (Exact K))
    (updates : List (Update (Exact K))) (model : Dict String (Exact K)) : Prop where
  keys : model.keys = s.model.keys
  schema : ∀ name ∈ s.model.keys, (tensorAt model name).shape = (tensorAt s.model name).shape ∧
    (tensorAt model name).dtype = (tensorAt s.model name).dtype
  parameters : ∀ name ∈ s.parameterNames, ∀ i < (tensorAt s.model name).shape.prod,
    (tensorAt model name).entry i = (tensorAt s.model name).entry i - (updates.map fun u ↦
      (s.config.alpha * share s u * power (1 + (s.version - u.assignment.modelVersion : ℕ))
        (-s.config.stalenessExponent)) • ((tensorAt u.base name).entry i - (tensorAt u.trained name).entry i)).sum
  buffers : ∀ name ∈ s.model.keys, name ∉ s.parameterNames → tensorAt model name =
    .weightedTensor round (updates.map fun u ↦ (tensorAt u.trained name, partitionSize s u))
  /-- Names of one parameter are loaded with one tensor. -/
  shared : ∀ a ∈ s.parameterNames, ∀ b ∈ s.parameterNames, tensorAt s.model a = tensorAt s.model b →
    (∀ u ∈ updates, tensorAt u.base a = tensorAt u.base b ∧ tensorAt u.trained a = tensorAt u.trained b) →
    tensorAt model a = tensorAt model b
  complete : (∀ e, power 1 e = 1) → Complete s updates → (updates.map (share s)).sum = 1 ∧
    ∀ name ∈ s.parameterNames, ∀ i < (tensorAt s.model name).shape.prod,
      (tensorAt model name).entry i = (tensorAt s.model name).entry i + s.config.alpha • meanMove s updates name i

/-- Without staleness, what the updates take off is the share `alpha` of the plain move. -/
theorem sum_descent_of_current (hpower : ∀ e, power 1 e = 1)
    (h : ∀ u ∈ updates, u.assignment.modelVersion = s.version) (name : String) (i : ℕ) :
    (updates.map fun u ↦ descent (exactTorch power round) s name u i).sum =
      -(s.config.alpha • meanMove s updates name i) := by
  induction updates with
  | nil => simp [meanMove]
  | cons u updates ih =>
    rw [List.forall_mem_cons] at h
    have hscale : scaleOf (exactTorch power round) s u = s.config.alpha * share s u := by
      have hpow : (exactTorch power round : Torch (Exact K)).power (1 + (s.version - u.assignment.modelVersion : ℕ))
          (-s.config.stalenessExponent) = 1 := by
        rw [h.1, Nat.sub_self, Nat.cast_zero, add_zero]
        exact hpower _
      rw [scaleOf, hpow, mul_one]
      rfl
    have hmove : meanMove s (u :: updates) name i =
        share s u • ((tensorAt u.trained name).entry i - (tensorAt u.base name).entry i) +
          meanMove s updates name i := by rw [meanMove, List.map_cons, List.sum_cons, meanMove]
    rw [List.map_cons, List.sum_cons, ih h.2, hmove, descent, hscale, smul_add, neg_add, mul_smul, ← smul_neg,
      ← smul_neg, ← smul_neg, neg_sub]

theorem committed_of_merge {m : Dict String (Exact K) × List ℚ × List ℕ} (hn : s.parameterNames.Nodup)
    (hne : updates ≠ []) (hc : Checked (exactTorch power round) s updates)
    (h : merge (exactTorch power round) s updates = .ok m) : Committed power round s updates m.1 := by
  obtain ⟨hparameters, -, hkeys, hget, hcheck⟩ := merge_ok hn hne hc h
  have hentry : ∀ name ∈ s.parameterNames, ∀ i < (tensorAt s.model name).shape.prod,
      (tensorAt m.1 name).entry i = (tensorAt s.model name).entry i -
        (updates.map fun u ↦ descent (exactTorch power round) s name u i).sum := by
    intro name hname i hi
    rw [tensorAt_of_get? (hget name (hparameters name hname)), stepped, if_pos hname]
    exact Exact.shift_entry hi _ _
  refine ⟨hkeys, fun name hname ↦ ?_, hentry, fun name hname hp ↦ ?_, fun a ha b hb hmodel hsame ↦ ?_,
    fun hpower hcomplete ↦ ?_⟩
  · obtain ⟨-, hshape, hdtype, -⟩ := tensor_of_checkState hcheck hname
    exact ⟨hshape, hdtype⟩
  · rw [tensorAt_of_get? (hget name hname), stepped, if_neg hp]
    rfl
  · rw [tensorAt_of_get? (hget a (hparameters a ha)), tensorAt_of_get? (hget b (hparameters b hb))]
    exact stepped_shared ha hb hmodel hsame
  · refine ⟨hcomplete.sum_share hne, fun name hname i hi ↦ ?_⟩
    rw [hentry name hname i hi, sum_descent_of_current hpower hcomplete.current, sub_neg_eq_add]

end Commit

section Tenth

def tenthConfig : FedCompassConfig where
  minLocalSteps := 20
  maxLocalSteps := 100
  speedMomentum := 9 / 10
  latestTimeFactor := 6 / 5
  alpha := 1 / 10
  stalenessExponent := 1
  steps_valid := usual_steps_valid
  momentum_valid := usual_momentum_valid
  alpha_valid := by norm_num
  factor_valid := usual_factor_valid
  exponent_valid := usual_exponent_valid

/-- `**` at the exponents 0 and -1. -/
def reciprocal (a b : ℚ) : ℚ := if b = -1 then a⁻¹ else 1

def rounded (x : ℚ) : ℚ := Tensor.rint x

/-- A scalar parameter and a counter. -/
def scalars (weight : ℚ) (count : ℤ) : Dict String (Exact ℚ) :=
  .ofList [("weight", ⟨defaultFloat, [], true, fun _ ↦ weight⟩), ("count", ⟨⟨.int, 8⟩, [], true, fun _ ↦ count⟩)]

def tenth : FedCompass (Exact ℚ) :=
  .create (scalars 0 0) ["weight"] tenthConfig .events (Dict.ofList [("a", 1)])

def tenStep : Update (Exact ℚ) where
  assignment := ⟨0, "a", 100, 0, none, 0⟩
  base := scalars 0 0
  trained := scalars 10 1

def afterTenth : FedCompass (Exact ℚ) :=
  (aggregate (exactTorch reciprocal rounded) [tenStep] 1 none "initial_arrival").after tenth

theorem afterTenth_run : (aggregate (exactTorch reciprocal rounded) [tenStep] 1 none "initial_arrival").run tenth =
    .ok true afterTenth := rfl

end Tenth

end SplitFleet.Compass
