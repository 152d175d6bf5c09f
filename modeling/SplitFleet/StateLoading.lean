import SplitFleet.Lib.Cells
import SplitFleet.Lib.Method
import SplitFleet.Lib.Framing
import SplitFleet.Lib.Lists

set_option autoImplicit false

namespace SplitFleet.StateLoading

open Lib

/-- An array of NumPy, or a tensor of a framework with the data types `κ`. -/
structure NdArray (κ π : Type) where
  dtype : κ
  shape : List ℕ
  data : π

def NdArray.layout {κ π : Type} (a : NdArray κ π) : κ × List ℕ := (a.dtype, a.shape)

def wrongCount (expected received : ℕ) : PyError :=
  .valueError s!"Expected {expected} state tensors, received {received}"

/-- `values[name]` -/
def getItem {υ : Type} (values : Dict String υ) (name : String) : Except PyError υ :=
  match values.get? name with
  | some v => .ok v
  | none => .error (.keyError name)

/-- `dict(zip(names, values))` -/
theorem entries_zip {C υ : Type} {state : Dict String C} {values : List υ} (hlength : values.length = state.size) :
    (Dict.ofList (state.keys.zip values)).entries = state.keys.zip values ∧
      (state.keys.zip values).map Prod.fst = state.keys := by
  have hle : state.keys.length ≤ values.length := by
    rw [Dict.keys, List.length_map, hlength, Dict.size]
  have hfst := List.map_fst_zip hle
  exact ⟨Dict.entries_ofList (hfst.symm ▸ state.nodup), hfst⟩

theorem keys_zip {C υ : Type} {state : Dict String C} {values : List υ} (hlength : values.length = state.size) :
    (Dict.ofList (state.keys.zip values)).keys = state.keys := by
  obtain ⟨hentries, hfst⟩ := entries_zip hlength
  rw [Dict.keys, hentries, hfst]

theorem get?_zip {C υ : Type} {state : Dict String C} {values : List υ} (hlength : values.length = state.size)
    {p : (String × C) × υ} (hp : p ∈ state.entries.zip values) :
    (Dict.ofList (state.keys.zip values)).get? p.1.1 = some p.2 := by
  rw [Dict.get?_eq_some_iff, (entries_zip hlength).1, Dict.keys, List.zip_map_left]
  exact List.mem_map_of_mem hp

theorem getItem_zip {C υ : Type} {state : Dict String C} {values : List υ} (hlength : values.length = state.size)
    {p : (String × C) × υ} (hp : p ∈ state.entries.zip values) :
    getItem (Dict.ofList (state.keys.zip values)) p.1.1 = .ok p.2 := by
  rw [getItem, get?_zip hlength hp]

/-- The cells of a state, each with its value. -/
theorem map_zip_entries {C υ : Type} (state : Dict String C) (values : List υ) :
    (state.entries.zip values).map (fun p ↦ (p.1.2, p.2)) = state.values.zip values := by
  rw [Dict.values, List.zip_map_left]
  rfl

theorem length_values {C : Type} (state : Dict String C) : state.values.length = state.size := List.length_map _

theorem snd_of_mem_zip_map {C υ : Type} {l : List C} {f : C → υ} {p : C × υ} (hp : p ∈ l.zip (l.map f)) :
    p.2 = f p.1 := by
  have hpair := List.zip_map' (f := id) (g := f) (l := l)
  rw [List.map_id] at hpair
  rw [hpair] at hp
  obtain ⟨c, -, rfl⟩ := List.mem_map.mp hp
  rfl

theorem map_fst_zip_entries {C υ : Type} {state : Dict String C} {values : List υ}
    (hlength : values.length = state.size) : (state.entries.zip values).map Prod.fst = state.entries :=
  List.map_fst_zip hlength.ge

/-! ### Array backends -/

section Arrays

variable {C κ π : Type} [DecidableEq C] [DecidableEq κ]

/-- What an adapter does with one model. Each cell holds a tensor of the framework, as NumPy shows it. -/
structure ArrayAdapter (C κ π : Type) where
  /-- `_state(model)` -/
  state : Except PyError (Dict String C)
  /-- Entering the device of a tensor, to read it. -/
  reach : C → Except PyError Unit
  /-- `np.isfinite(value).all()` -/
  isfinite : NdArray κ π → Except PyError Bool
  /-- Entering the device of the model, to write. -/
  device : Except PyError Unit
  /-- `_load_arrays(model, values)`, on the device. -/
  loadArrays : Dict String (NdArray κ π) → Method (C → NdArray κ π) Unit

namespace ArrayAdapter

variable (A : ArrayAdapter C κ π)

/-- `_to_numpy` -/
def toNumpy (heap : C → NdArray κ π) (cell : C) : Except PyError (NdArray κ π) := do
  A.reach cell
  return heap cell

def exportNdarrays (heap : C → NdArray κ π) : Except PyError (List (NdArray κ π)) := do
  let state ← A.state
  state.values.mapM (A.toNumpy heap)

/-- `_validate_arrays`, for one name. -/
def validateArray (heap : C → NdArray κ π) (values : Dict String (NdArray κ π)) (item : String × C) :
    Except PyError Unit := do
  let expected ← A.toNumpy heap item.2
  let value ← getItem values item.1
  require (value.layout = expected.layout) (.valueError s!"Model state shape or dtype mismatch for {item.1}")
  let finite ← A.isfinite value
  require (finite = true) (.raised "FloatingPointError" s!"Nonfinite model state for {item.1}")

def validateArrays (heap : C → NdArray κ π) (values : Dict String (NdArray κ π)) : Except PyError Unit := do
  let current ← A.state
  require (values.keys.toFinset = current.keys.toFinset)
    (.valueError "Model state tensor names do not match manifest")
  current.entries.forM (A.validateArray heap values)

def loadNdarrays (values : List (NdArray κ π)) : Method (C → NdArray κ π) Unit := do
  let state ← A.state
  require (state.size = values.length) (wrongCount state.size values.length)
  let arrays := Dict.ofList (state.keys.zip values)
  let heap ← get
  A.validateArrays heap arrays
  A.device
  A.loadArrays arrays

end ArrayAdapter

/-- `variable.assign(value)`, which refuses another layout. -/
def assign (cell : C) (value : NdArray κ π) : Method (C → NdArray κ π) Unit := do
  let heap ← get
  require (value.layout = (heap cell).layout) (.valueError "Cannot assign value to variable")
  set (Function.update heap cell value)

def assignItem (values : Dict String (NdArray κ π)) (item : String × C) : Method (C → NdArray κ π) Unit := do
  let value ← getItem values item.1
  assign item.2 value

/-- The callables `state_tensors` and `canonical_variables` of a model. What a callable returns is `none` where it is
not a mapping with string names. -/
structure Declared (C : Type) where
  stateTensors : Option (Option (Dict String C))
  canonicalVariables : Option (Option (Dict String C))

def Declared.read (name : String) (getter : Option (Option (Dict String C))) :
    Except PyError (Option (Dict String C)) :=
  match getter with
  | none => .ok none
  | some none => .error (.typeError s!"{name}() must return a mapping with string state names")
  | some (some state) => .ok (some state)

/-- `_declared_native_state` -/
def Declared.nativeState (d : Declared C) : Except PyError (Option (Dict String C)) := do
  match ← Declared.read "state_tensors" d.stateTensors with
  | some state => return some state
  | none => Declared.read "canonical_variables" d.canonicalVariables

/-- A variable of Keras. An attribute that is absent or empty is the empty text. -/
structure Variable (C : Type) where
  path : String
  name : String
  cell : C

structure TensorFlowModel (C : Type) where
  declared : Declared C
  name : String
  weights : List (Variable C)

/-- `name[len(model_name) + 1:]`, where the name starts so. -/
def withoutModelName (modelName name : String) : String :=
  let head := modelName.toList ++ ['/']
  if modelName ≠ "" ∧ head.isPrefixOf name.toList then String.ofList (name.toList.drop head.length) else name

def variableKey (m : TensorFlowModel C) (index : ℕ) (v : Variable C) : String :=
  let name := if v.path ≠ "" then v.path else if v.name ≠ "" then v.name else "weight"
  s!"{index}:{withoutModelName m.name name}"

/-- The weights under their keys. -/
def TensorFlowModel.items (m : TensorFlowModel C) : List (String × C) :=
  m.weights.mapIdx fun index v ↦ (variableKey m index v, v.cell)

/-- `TensorFlowBackendAdapter` -/
def tensorFlow (isfinite : NdArray κ π → Except PyError Bool) (m : TensorFlowModel C) : ArrayAdapter C κ π where
  state := do
    match ← m.declared.nativeState with
    | some state => return state
    | none => return Dict.ofList m.items
  reach _ := .ok ()
  isfinite := isfinite
  device := .ok ()
  loadArrays values := do
    match ← (m.declared.nativeState : Except PyError (Option (Dict String C))) with
    | some state => state.entries.forM (assignItem values)
    | none => m.items.forM (assignItem values)

structure PaddleModel (C κ π : Type) where
  declared : Declared C
  stateDict : Dict String C
  /-- The callable `load_state` of the model. -/
  loadState : Option (Dict String (NdArray κ π) → Method (C → NdArray κ π) Unit)
  /-- Entering the device of the model. -/
  device : Except PyError Unit
  /-- Entering the device of a tensor. -/
  reach : C → Except PyError Unit

/-- One name of `set_state_dict`, which skips what has another layout. -/
def setItem (values : Dict String (NdArray κ π)) (item : String × C) : Method (C → NdArray κ π) Unit := do
  let heap ← get
  match values.get? item.1 with
  | some value => if value.layout = (heap item.2).layout then set (Function.update heap item.2 value)
  | none => return

/-- `PaddleBackendAdapter` -/
def paddle (isfinite : NdArray κ π → Except PyError Bool) (m : PaddleModel C κ π) : ArrayAdapter C κ π where
  state := do
    match ← m.declared.nativeState with
    | some state => return state
    | none => return m.stateDict
  reach := m.reach
  isfinite := isfinite
  device := m.device
  loadArrays values := do
    match ← (m.declared.nativeState : Except PyError (Option (Dict String C))) with
    | some state =>
      match m.loadState with
      | some loader => loader values
      | none => state.entries.forM (assignItem values)
    | none => m.stateDict.entries.forM (setItem values)

end Arrays

/-! ### Loops over checked values -/

section Loops

variable {C V L ε : Type} [DecidableEq C] {layout : V → L}

theorem layout_update {heap : C → V} {cell : C} {value : V} (h : layout value = layout (heap cell)) (c : C) :
    layout (Function.update heap cell value c) = layout (heap c) := by
  have hone : ∀ p ∈ [(cell, value)], layout p.2 = layout (heap p.1) := by simpa using h
  exact layout_writes hone c

/-- A loop whose turns write what they are given, as long as the layouts agree. -/
theorem forM_writes {f : String × C → Method (C → V) Unit} {l : List ((String × C) × V)} {heap : C → V}
    (hf : ∀ p ∈ l, ∀ heap : C → V, layout p.2 = layout (heap p.1.2) →
      (f p.1).run heap = .ok () (Function.update heap p.1.2 p.2))
    (hl : ∀ p ∈ l, layout p.2 = layout (heap p.1.2)) :
    ((l.map Prod.fst).forM f).run heap = .ok () (writes heap (l.map fun p ↦ (p.1.2, p.2))) := by
  induction l generalizing heap with
  | nil => rfl
  | cons p l ih =>
    obtain ⟨hfp, hf⟩ := List.forall_mem_cons.mp hf
    obtain ⟨hp, hl⟩ := List.forall_mem_cons.mp hl
    rw [List.map_cons, Method.forM_cons_run (hfp heap hp), ih hf fun q hq ↦ (hl q hq).trans (layout_update hp _).symm]
    rfl

/-- The same for a loop that carries something along. -/
theorem foldlM_writes {f : ε → String × C → Method (C → V) ε} {e : ε} {l : List ((String × C) × V)} {heap : C → V}
    (hf : ∀ p ∈ l, ∀ heap : C → V, layout p.2 = layout (heap p.1.2) →
      (f e p.1).run heap = .ok e (Function.update heap p.1.2 p.2))
    (hl : ∀ p ∈ l, layout p.2 = layout (heap p.1.2)) :
    ((l.map Prod.fst).foldlM f e).run heap = .ok e (writes heap (l.map fun p ↦ (p.1.2, p.2))) := by
  induction l generalizing heap with
  | nil => rfl
  | cons p l ih =>
    obtain ⟨hfp, hf⟩ := List.forall_mem_cons.mp hf
    obtain ⟨hp, hl⟩ := List.forall_mem_cons.mp hl
    rw [List.map_cons, List.foldlM_cons, Method.run_bind_of_ok (hfp heap hp),
      ih hf fun q hq ↦ (hl q hq).trans (layout_update hp _).symm]
    rfl

end Loops

/-! ### Loading into an array backend -/

section Arrays

variable {C κ π : Type} [DecidableEq C] [DecidableEq κ]

/-- What is given fits the tensors that the cells hold. -/
def Fits (heap : C → NdArray κ π) (l : List (C × NdArray κ π)) : Prop := ∀ p ∈ l, p.2.layout = (heap p.1).layout

theorem run_assignItem {values : Dict String (NdArray κ π)} {item : String × C} {value : NdArray κ π}
    (hvalue : getItem values item.1 = .ok value) {heap : C → NdArray κ π}
    (hfits : value.layout = (heap item.2).layout) :
    (assignItem values item).run heap = .ok () (Function.update heap item.2 value) := by
  rw [assignItem, hvalue, Method.ok_bind_run, assign, Method.get_bind_run, require_of hfits]
  rfl

theorem run_setItem {values : Dict String (NdArray κ π)} {item : String × C} {value : NdArray κ π}
    (hvalue : values.get? item.1 = some value) {heap : C → NdArray κ π} (hfits : value.layout = (heap item.2).layout) :
    (setItem values item).run heap = .ok () (Function.update heap item.2 value) := by
  rw [setItem, Method.get_bind_run, hvalue]
  dsimp only
  rw [if_pos hfits]
  rfl

section Entries

variable {state : Dict String C} {values : List (NdArray κ π)} {heap : C → NdArray κ π}

omit [DecidableEq κ] in
theorem forM_entries {f : Dict String (NdArray κ π) → String × C → Method (C → NdArray κ π) Unit}
    (hlength : values.length = state.size) (hfits : Fits heap (state.values.zip values))
    (hf : ∀ p ∈ state.entries.zip values, ∀ heap : C → NdArray κ π, p.2.layout = (heap p.1.2).layout →
      (f (Dict.ofList (state.keys.zip values)) p.1).run heap = .ok () (Function.update heap p.1.2 p.2)) :
    (state.entries.forM (f (Dict.ofList (state.keys.zip values)))).run heap =
      .ok () (writes heap (state.values.zip values)) := by
  have hall : ∀ p ∈ state.entries.zip values, p.2.layout = (heap p.1.2).layout := by
    intro p hp
    refine hfits (p.1.2, p.2) ?_
    rw [← map_zip_entries]
    exact List.mem_map_of_mem hp
  have hrun := forM_writes hf hall
  rwa [map_fst_zip_entries hlength, map_zip_entries] at hrun

theorem forM_assignItem (hlength : values.length = state.size) (hfits : Fits heap (state.values.zip values)) :
    (state.entries.forM (assignItem (Dict.ofList (state.keys.zip values)))).run heap =
      .ok () (writes heap (state.values.zip values)) :=
  forM_entries hlength hfits fun _ hp _ ↦ run_assignItem (getItem_zip hlength hp)

theorem forM_setItem (hlength : values.length = state.size) (hfits : Fits heap (state.values.zip values)) :
    (state.entries.forM (setItem (Dict.ofList (state.keys.zip values)))).run heap =
      .ok () (writes heap (state.values.zip values)) :=
  forM_entries hlength hfits fun _ hp _ ↦ run_setItem (get?_zip hlength hp)

end Entries

namespace ArrayAdapter

variable {A : ArrayAdapter C κ π}

/-- Values that fit are written, one after the other. -/
def Writes (A : ArrayAdapter C κ π) : Prop := ∀ state, A.state = .ok state →
  ∀ (heap : C → NdArray κ π) (values : List (NdArray κ π)), values.length = state.size →
    Fits heap (state.values.zip values) →
    (A.loadArrays (Dict.ofList (state.keys.zip values))).run heap = .ok () (writes heap (state.values.zip values))

omit [DecidableEq C] in
theorem of_validateArray {heap : C → NdArray κ π} {values : Dict String (NdArray κ π)} {item : String × C} {u : Unit}
    {value : NdArray κ π} (hvalue : getItem values item.1 = .ok value) (h : A.validateArray heap values item = .ok u) :
    A.reach item.2 = .ok () ∧ value.layout = (heap item.2).layout ∧ A.isfinite value = .ok true := by
  obtain ⟨expected, hexpected, hrest⟩ := bind_eq_ok h
  obtain ⟨_, hreach, hheap⟩ := bind_eq_ok hexpected
  obtain rfl := Except.ok.inj hheap
  rw [hvalue, ok_bind] at hrest
  obtain ⟨_, hlayout, hrest⟩ := bind_eq_ok hrest
  obtain ⟨finite, hfinite, hrest⟩ := bind_eq_ok hrest
  exact ⟨hreach, of_require hlayout, hfinite.trans (congrArg _ (of_require hrest))⟩

omit [DecidableEq C] in
theorem validateArray_of {heap : C → NdArray κ π} {values : Dict String (NdArray κ π)} {item : String × C}
    {value : NdArray κ π} (hvalue : getItem values item.1 = .ok value) (hreach : A.reach item.2 = .ok ())
    (hlayout : value.layout = (heap item.2).layout) (hfinite : A.isfinite value = .ok true) :
    A.validateArray heap values item = .ok () := by
  rw [validateArray, toNumpy, hreach, ok_bind, pure_bind, hvalue, ok_bind, require_of hlayout, ok_bind, hfinite]
  rfl

section Load

variable {state : Dict String C} {values : List (NdArray κ π)} {heap : C → NdArray κ π}

/-- What the validation finds out. -/
structure Checked (A : ArrayAdapter C κ π) (state : Dict String C) (values : List (NdArray κ π))
    (heap : C → NdArray κ π) : Prop where
  length : values.length = state.size
  reach : ∀ cell ∈ state.values, A.reach cell = .ok ()
  fits : Fits heap (state.values.zip values)
  finite : ∀ value ∈ values, A.isfinite value = .ok true

omit [DecidableEq C] in
theorem validateArrays_iff (hstate : A.state = .ok state) (hlength : values.length = state.size) :
    A.validateArrays heap (Dict.ofList (state.keys.zip values)) = .ok () ↔ A.Checked state values heap := by
  have hzip := map_fst_zip_entries hlength
  have hvalues : (state.entries.zip values).map Prod.snd = values := List.map_snd_zip hlength.le
  rw [validateArrays, hstate, ok_bind, require_of (congrArg List.toFinset (keys_zip hlength)), ok_bind,
    forM_eq_ok_iff]
  constructor
  · intro h
    have hone : ∀ p ∈ state.entries.zip values,
        A.reach p.1.2 = .ok () ∧ p.2.layout = (heap p.1.2).layout ∧ A.isfinite p.2 = .ok true := by
      intro p hp
      exact of_validateArray (getItem_zip hlength hp) (h p.1 (List.of_mem_zip hp).1)
    refine ⟨hlength, fun cell hcell ↦ ?_, fun q hq ↦ ?_, fun value hvalue ↦ ?_⟩
    · obtain ⟨item, hitem, rfl⟩ := List.mem_map.mp hcell
      rw [← hzip] at hitem
      obtain ⟨p, hp, rfl⟩ := List.mem_map.mp hitem
      exact (hone p hp).1
    · rw [← map_zip_entries] at hq
      obtain ⟨p, hp, rfl⟩ := List.mem_map.mp hq
      exact (hone p hp).2.1
    · rw [← hvalues] at hvalue
      obtain ⟨p, hp, rfl⟩ := List.mem_map.mp hvalue
      exact (hone p hp).2.2
  · intro h item hitem
    rw [← hzip] at hitem
    obtain ⟨p, hp, rfl⟩ := List.mem_map.mp hitem
    have hmem := List.mem_map_of_mem (f := fun p : (String × C) × NdArray κ π ↦ (p.1.2, p.2)) hp
    rw [map_zip_entries] at hmem
    exact validateArray_of (getItem_zip hlength hp) (h.reach _ (List.of_mem_zip hmem).1) (h.fits _ hmem)
      (h.finite _ (List.of_mem_zip hp).2)

theorem run_loadNdarrays (hA : A.Writes) (hstate : A.state = .ok state) (hchecked : A.Checked state values heap)
    (hdevice : A.device = .ok ()) :
    (A.loadNdarrays values).run heap = .ok () (writes heap (state.values.zip values)) := by
  rw [loadNdarrays, hstate, Method.ok_bind_run, require_of hchecked.length.symm, Method.ok_bind_run,
    Method.get_bind_run, (validateArrays_iff hstate hchecked.length).mpr hchecked, Method.ok_bind_run, hdevice,
    Method.ok_bind_run]
  exact hA state hstate heap values hchecked.length hchecked.fits

/-- Either nothing is written, or everything is. -/
theorem loadNdarrays_cases (hA : A.Writes) (values : List (NdArray κ π)) (heap : C → NdArray κ π) :
    (∃ e, (A.loadNdarrays values).run heap = .error e heap) ∨
    ∃ state, A.state = .ok state ∧ A.Checked state values heap ∧
      (A.loadNdarrays values).run heap = .ok () (writes heap (state.values.zip values)) := by
  cases hstate : A.state with
  | error e => exact .inl ⟨e, by rw [loadNdarrays, hstate]; rfl⟩
  | ok state =>
    by_cases hlength : values.length = state.size
    · cases hvalid : A.validateArrays heap (Dict.ofList (state.keys.zip values)) with
      | error e =>
        refine .inl ⟨e, ?_⟩
        rw [loadNdarrays, hstate, Method.ok_bind_run, require_of hlength.symm, Method.ok_bind_run,
          Method.get_bind_run, hvalid]
        rfl
      | ok u =>
        have hchecked := (validateArrays_iff hstate hlength).mp hvalid
        cases hdevice : A.device with
        | error e =>
          refine .inl ⟨e, ?_⟩
          rw [loadNdarrays, hstate, Method.ok_bind_run, require_of hlength.symm, Method.ok_bind_run,
            Method.get_bind_run, hvalid, Method.ok_bind_run, hdevice]
          rfl
        | ok v => exact .inr ⟨state, rfl, hchecked, run_loadNdarrays hA hstate hchecked hdevice⟩
    · refine .inl ⟨wrongCount state.size values.length, ?_⟩
      rw [loadNdarrays, hstate, Method.ok_bind_run, require, if_neg (Ne.symm hlength)]
      rfl

end Load

/-- What `load_ndarrays` does with a model, and `export_ndarrays` behind it. -/
structure AllOrNothing (A : ArrayAdapter C κ π) : Prop where
  load : ∀ values heap, (∃ e, (A.loadNdarrays values).run heap = .error e heap) ∨
    ∃ state heap', A.state = .ok state ∧ A.Checked state values heap ∧
      (A.loadNdarrays values).run heap = .ok () heap' ∧ Installed state.values values heap heap'
  exported : ∀ state values heap heap', A.state = .ok state → state.values.Nodup →
    (A.loadNdarrays values).run heap = .ok () heap' → A.exportNdarrays heap' = .ok values
  again : ∀ heap arrays, A.exportNdarrays heap = .ok arrays → (∀ a ∈ arrays, A.isfinite a = .ok true) →
    A.device = .ok () → (A.loadNdarrays arrays).run heap = .ok () heap

omit [DecidableEq C] [DecidableEq κ] in
theorem exportNdarrays_eq_ok_iff {state : Dict String C} (hstate : A.state = .ok state) {heap : C → NdArray κ π}
    {arrays : List (NdArray κ π)} : A.exportNdarrays heap = .ok arrays ↔
      (∀ cell ∈ state.values, A.reach cell = .ok ()) ∧ arrays = state.values.map heap := by
  have hone : ∀ cell a, A.toNumpy heap cell = .ok a ↔ A.reach cell = .ok () ∧ heap cell = a := by
    intro cell a
    rw [toNumpy]
    cases A.reach cell with
    | error e => exact iff_of_false (by rintro ⟨⟩) (by rintro ⟨⟨⟩, -⟩)
    | ok u => exact ⟨fun h ↦ ⟨rfl, Except.ok.inj h⟩, fun h ↦ congrArg Except.ok h.2⟩
  rw [exportNdarrays, hstate, ok_bind, mapM_eq_ok_iff]
  simp only [hone]
  rw [List.forall₂_and_left, ← List.forall₂_map_left_iff (R := Eq), List.forall₂_eq_eq_eq, eq_comm (a := arrays)]

theorem allOrNothing (hA : A.Writes) : A.AllOrNothing where
  load := by
    intro values heap
    refine (loadNdarrays_cases hA values heap).imp_right ?_
    rintro ⟨state, hstate, hchecked, hrun⟩
    exact ⟨state, _, hstate, hchecked, hrun, installed_writes (by rw [hchecked.length, length_values]) heap⟩
  exported := by
    intro state values heap heap' hstate hnodup hrun
    obtain ⟨e, he⟩ | ⟨state', hstate', hchecked, hrun'⟩ := loadNdarrays_cases hA values heap
    · rw [he] at hrun
      cases hrun
    · obtain rfl := Except.ok.inj (hstate.symm.trans hstate')
      rw [hrun'] at hrun
      cases hrun
      refine (exportNdarrays_eq_ok_iff hstate).mpr ⟨hchecked.reach, ?_⟩
      exact ((installed_writes (by rw [hchecked.length, length_values]) heap).map_eq hnodup).symm
  again := by
    intro heap arrays hexport hfinite hdevice
    cases hstate : A.state with
    | error e =>
      rw [exportNdarrays, hstate] at hexport
      cases hexport
    | ok state =>
      obtain ⟨hreach, rfl⟩ := (exportNdarrays_eq_ok_iff hstate).mp hexport
      have hchecked : A.Checked state (state.values.map heap) heap :=
        ⟨by rw [List.length_map, length_values], hreach, fun p hp ↦ by rw [snd_of_mem_zip_map hp], hfinite⟩
      rw [run_loadNdarrays hA hstate hchecked hdevice, writes_self fun p ↦ snd_of_mem_zip_map]

end ArrayAdapter

/-! ### TensorFlow and Paddle -/

omit [DecidableEq C] in
theorem variableKey_inj {m : TensorFlowModel C} {i j : ℕ} {v w : Variable C}
    (h : variableKey m i v = variableKey m j w) : i = j := by
  have hkey : ∀ (i : ℕ) (v : Variable C), ∃ r, (variableKey m i v).toList = digits i ++ ':' :: r := by
    intro i v
    refine ⟨(withoutModelName m.name
      (if v.path ≠ "" then v.path else if v.name ≠ "" then v.name else "weight")).toList, ?_⟩
    rw [variableKey]
    simp only [String.toList_append, digits, List.append_assoc]
    rfl
  obtain ⟨r, hr⟩ := hkey i v
  obtain ⟨s, hs⟩ := hkey j w
  rw [h, hs] at hr
  exact (digits_append rfl rfl hr).1.symm

omit [DecidableEq C] in
/-- The index in front of a name keeps the keys apart. -/
theorem nodup_items (m : TensorFlowModel C) : (m.items.map Prod.fst).Nodup := by
  rw [List.nodup_iff_getElem?_ne_getElem?]
  intro i j hij hj h
  rw [TensorFlowModel.items, List.getElem?_map, List.getElem?_map, List.getElem?_mapIdx, List.getElem?_mapIdx] at h
  rw [TensorFlowModel.items, List.length_map, List.length_mapIdx] at hj
  rw [List.getElem?_eq_getElem hj, List.getElem?_eq_getElem (hij.trans hj)] at h
  exact absurd (variableKey_inj (Option.some.inj h)) hij.ne

theorem tensorFlow_writes (isfinite : NdArray κ π → Except PyError Bool) (m : TensorFlowModel C) :
    (tensorFlow isfinite m).Writes := by
  intro state hstate heap values hlength hfits
  obtain ⟨native, hnative, hstate⟩ := bind_eq_ok hstate
  rw [tensorFlow, hnative, Method.ok_bind_run]
  cases native with
  | some declared =>
    obtain rfl := Except.ok.inj hstate
    exact forM_assignItem hlength hfits
  | none =>
    obtain rfl := Except.ok.inj hstate
    have hentries : (Dict.ofList m.items).entries = m.items := Dict.entries_ofList (nodup_items m)
    have hrun := forM_assignItem hlength hfits
    rwa [hentries] at hrun

/-- The `load_state` of a model does what assigning each of its declared variables does. -/
def PaddleModel.LoadsDeclared (m : PaddleModel C κ π) : Prop :=
  ∀ loader ∈ m.loadState, ∀ state, m.declared.nativeState = .ok (some state) → ∀ values heap,
    (loader values).run heap = (state.entries.forM (assignItem values)).run heap

theorem paddle_writes (isfinite : NdArray κ π → Except PyError Bool) {m : PaddleModel C κ π} (hm : m.LoadsDeclared) :
    (paddle isfinite m).Writes := by
  intro state hstate heap values hlength hfits
  obtain ⟨native, hnative, hstate⟩ := bind_eq_ok hstate
  rw [paddle, hnative, Method.ok_bind_run]
  cases native with
  | some declared =>
    obtain rfl := Except.ok.inj hstate
    cases hloader : m.loadState with
    | none => exact forM_assignItem hlength hfits
    | some loader => exact (hm loader hloader declared hnative _ heap).trans (forM_assignItem hlength hfits)
  | none =>
    obtain rfl := Except.ok.inj hstate
    exact forM_setItem hlength hfits

end Arrays

/-! ### Torch -/

section Torch

variable {C κ π δ ρ : Type} [DecidableEq C]

/-- How Torch turns tensors into arrays and arrays into tensors. -/
structure Torch (κ π δ ρ : Type) where
  /-- `value.detach().cpu().numpy().copy()` -/
  numpy : NdArray δ ρ → Except PyError (NdArray κ π)
  /-- `torch.as_tensor(array, dtype=dtype)` -/
  asTensor : δ → NdArray κ π → Except PyError (NdArray δ ρ)
  asTensor_layout : ∀ {d a t}, asTensor d a = .ok t → t.dtype = d ∧ t.shape = a.shape
  asTensor_numpy : ∀ {t a}, numpy t = .ok a → asTensor t.dtype a = .ok t

namespace Torch

variable (T : Torch κ π δ ρ)

/-- One entry of `load_state_dict(strict=True)`: what fits is copied, what does not is noted. -/
def loadEntry (decoded : Dict String (NdArray δ ρ)) (errors : List String) (item : String × C) :
    Method (C → NdArray δ ρ) (List String) := do
  let heap ← get
  match decoded.get? item.1 with
  | none => return errors ++ [s!"Missing key(s) in state_dict: {item.1}"]
  | some value =>
    if value.shape = (heap item.2).shape then
      set (Function.update heap item.2 value)
      return errors
    else return errors ++ [s!"size mismatch for {item.1}"]

def loadStateDict (state : Dict String C) (decoded : Dict String (NdArray δ ρ)) : Method (C → NdArray δ ρ) Unit := do
  let errors ← state.entries.foldlM (loadEntry decoded) []
  require (errors = []) (.runtimeError s!"Error(s) in loading state_dict: {errors}")

def exportNdarrays (state : Dict String C) (heap : C → NdArray δ ρ) : Except PyError (List (NdArray κ π)) :=
  state.values.mapM fun cell ↦ T.numpy (heap cell)

/-- The arrays in the data types of the tensors they are for. -/
def decode (cells : List C) (heap : C → NdArray δ ρ) (values : List (NdArray κ π)) :
    Except PyError (List (NdArray δ ρ)) :=
  (cells.zip values).mapM fun p ↦ T.asTensor (heap p.1).dtype p.2

def loadNdarrays (state : Dict String C) (values : List (NdArray κ π)) : Method (C → NdArray δ ρ) Unit := do
  if values.isEmpty then return
  require (state.size = values.length) (wrongCount state.size values.length)
  let heap ← get
  let decoded ← (T.decode state.values heap values : Except PyError (List (NdArray δ ρ)))
  loadStateDict state (Dict.ofList (state.keys.zip decoded))

variable {T : Torch κ π δ ρ} {state : Dict String C} {heap : C → NdArray δ ρ} {values : List (NdArray κ π)}
  {decoded : List (NdArray δ ρ)}

theorem run_loadStateDict (hlength : decoded.length = state.size)
    (hshape : ∀ p ∈ state.values.zip decoded, p.2.shape = (heap p.1).shape) :
    (loadStateDict state (Dict.ofList (state.keys.zip decoded))).run heap =
      .ok () (writes heap (state.values.zip decoded)) := by
  have hall : ∀ p ∈ state.entries.zip decoded, p.2.shape = (heap p.1.2).shape := by
    intro p hp
    refine hshape (p.1.2, p.2) ?_
    rw [← map_zip_entries]
    exact List.mem_map_of_mem hp
  have hone : ∀ p ∈ state.entries.zip decoded, ∀ heap : C → NdArray δ ρ, p.2.shape = (heap p.1.2).shape →
      (loadEntry (Dict.ofList (state.keys.zip decoded)) [] p.1).run heap =
        .ok [] (Function.update heap p.1.2 p.2) := by
    intro p hp heap hfits
    rw [loadEntry, Method.get_bind_run, get?_zip hlength hp]
    dsimp only
    rw [if_pos hfits]
    rfl
  have hrun := foldlM_writes hone hall
  rw [map_fst_zip_entries hlength, map_zip_entries] at hrun
  rw [loadStateDict, Method.run_bind_of_ok hrun, require_of rfl]
  rfl

omit [DecidableEq C] in
theorem decode_eq_ok_iff : T.decode state.values heap values = .ok decoded ↔
    List.Forall₂ (fun p t ↦ T.asTensor (heap p.1).dtype p.2 = .ok t) (state.values.zip values) decoded :=
  mapM_eq_ok_iff

omit [DecidableEq C] in
theorem length_decoded (hlength : values.length = state.size) (h : T.decode state.values heap values = .ok decoded) :
    decoded.length = state.size := by
  have hzip := (decode_eq_ok_iff.mp h).length_eq
  rw [List.length_zip, hlength, length_values, min_self] at hzip
  exact hzip.symm

omit [DecidableEq C] in
/-- What stands beside a cell comes from what stood beside it before. -/
theorem exists_of_forall₂_zip {α β : Type} {R : C × α → β → Prop} {cells : List C} {l : List α} {l' : List β}
    (h : List.Forall₂ R (cells.zip l) l') : ∀ q ∈ cells.zip l', ∃ a, (q.1, a) ∈ cells.zip l ∧ R (q.1, a) q.2 := by
  induction cells generalizing l l' with
  | nil =>
    intro q hq
    cases hq
  | cons c cells ih =>
    cases l with
    | nil =>
      cases h
      intro q hq
      cases hq
    | cons a l =>
      cases h with
      | cons hR h =>
        intro q hq
        obtain rfl | hq := List.mem_cons.mp hq
        · exact ⟨a, List.mem_cons_self, hR⟩
        · obtain ⟨b, hb, hR⟩ := ih h q hq
          exact ⟨b, List.mem_cons_of_mem _ hb, hR⟩

omit [DecidableEq C] in
/-- The tensors have the data types of the cells and the shapes of the arrays. -/
theorem layout_decoded (h : T.decode state.values heap values = .ok decoded)
    (hshape : ∀ p ∈ state.values.zip values, p.2.shape = (heap p.1).shape) :
    ∀ p ∈ state.values.zip decoded, p.2.layout = (heap p.1).layout := by
  intro p hp
  obtain ⟨a, ha, htensor⟩ := exists_of_forall₂_zip (decode_eq_ok_iff.mp h) p hp
  obtain ⟨hdtype, hsame⟩ := T.asTensor_layout htensor
  exact Prod.ext hdtype (hsame.trans (hshape _ ha))

omit [DecidableEq C] in
/-- Arrays of tensors that fit the cells turn back into these tensors. -/
theorem decode_numpy {tensors : List (NdArray δ ρ)} (h : List.Forall₂ (fun t a ↦ T.numpy t = .ok a) tensors values)
    (hfits : ∀ p ∈ state.values.zip tensors, p.2.layout = (heap p.1).layout) (hlength : values.length = state.size) :
    T.decode state.values heap values = .ok tensors := by
  rw [decode_eq_ok_iff]
  rw [← length_values] at hlength
  generalize state.values = cells at hfits hlength
  induction h generalizing cells with
  | nil =>
    rw [List.zip_nil_right]
    exact .nil
  | @cons t a tensors values hta _ ih =>
    cases cells with
    | nil => cases hlength
    | cons c cells =>
      obtain ⟨hfit, hfits⟩ := List.forall_mem_cons.mp hfits
      have hdtype : t.dtype = (heap c).dtype := (Prod.mk.inj hfit).1
      exact .cons (hdtype ▸ T.asTensor_numpy hta) (ih cells hfits (Nat.succ.inj hlength))

theorem run_loadNdarrays (hlength : values.length = state.size)
    (hdecoded : T.decode state.values heap values = .ok decoded)
    (hfits : ∀ p ∈ state.values.zip decoded, p.2.layout = (heap p.1).layout) :
    (T.loadNdarrays state values).run heap = .ok () (writes heap (state.values.zip decoded)) := by
  have hload := run_loadStateDict (length_decoded hlength hdecoded) fun p hp ↦ (Prod.mk.inj (hfits p hp)).2
  cases values with
  | nil =>
    have hnil : state.values = [] := List.eq_nil_of_length_eq_zero ((length_values state).trans hlength.symm)
    rw [hnil]
    rfl
  | cons a values =>
    rw [loadNdarrays, if_neg (by simp), require_of hlength.symm, Method.ok_bind_run,
      Method.get_bind_run, hdecoded, Method.ok_bind_run, hload]

structure Loads (T : Torch κ π δ ρ) (state : Dict String C) : Prop where
  /-- The empty list stands for no state at all. -/
  empty : ∀ heap, (T.loadNdarrays state []).run heap = .ok () heap
  length : ∀ values heap, values ≠ [] → values.length ≠ state.size →
    ∃ e, (T.loadNdarrays state values).run heap = .error e heap
  refused : ∀ values heap e, values.length = state.size → values ≠ [] → T.decode state.values heap values = .error e →
    (T.loadNdarrays state values).run heap = .error e heap
  load : ∀ values decoded heap, values.length = state.size → T.decode state.values heap values = .ok decoded →
    (∀ p ∈ state.values.zip values, p.2.shape = (heap p.1).shape) →
    (∀ p ∈ state.values.zip decoded, p.2.layout = (heap p.1).layout) ∧
    ∃ heap', (T.loadNdarrays state values).run heap = .ok () heap' ∧ Installed state.values decoded heap heap'
  exported : ∀ values tensors heap, values.length = state.size → state.values.Nodup →
    List.Forall₂ (fun t a ↦ T.numpy t = .ok a) tensors values →
    (∀ p ∈ state.values.zip tensors, p.2.layout = (heap p.1).layout) →
    ∃ heap', (T.loadNdarrays state values).run heap = .ok () heap' ∧ T.exportNdarrays state heap' = .ok values
  again : ∀ heap arrays, T.exportNdarrays state heap = .ok arrays →
    (T.loadNdarrays state arrays).run heap = .ok () heap

theorem loads (T : Torch κ π δ ρ) (state : Dict String C) : T.Loads state where
  empty := fun _ ↦ rfl
  length := by
    intro values heap hne hlength
    refine ⟨wrongCount state.size values.length, ?_⟩
    rw [loadNdarrays, if_neg (by simpa using hne), require, if_neg (Ne.symm hlength)]
    rfl
  refused := by
    intro values heap e hlength hne hdecoded
    rw [loadNdarrays, if_neg (by simpa using hne), require_of hlength.symm, Method.ok_bind_run,
      Method.get_bind_run, hdecoded]
    rfl
  load := by
    intro values decoded heap hlength hdecoded hshape
    have hfits := layout_decoded hdecoded hshape
    refine ⟨hfits, _, run_loadNdarrays hlength hdecoded hfits, installed_writes ?_ heap⟩
    rw [length_decoded hlength hdecoded, length_values]
  exported := by
    intro values tensors heap hlength hnodup htensors hfits
    have hdecoded := decode_numpy htensors hfits hlength
    refine ⟨_, run_loadNdarrays hlength hdecoded hfits, ?_⟩
    have hcells := (installed_writes (by rw [length_decoded hlength hdecoded, length_values]) heap).map_eq hnodup
    rw [exportNdarrays, mapM_eq_ok_iff, ← List.forall₂_map_left_iff (R := fun t a ↦ T.numpy t = .ok a), hcells]
    exact htensors
  again := by
    intro heap arrays hexport
    rw [exportNdarrays, mapM_eq_ok_iff] at hexport
    have hlength : arrays.length = state.size := by rw [← hexport.length_eq, length_values]
    have hfits : ∀ p ∈ state.values.zip (state.values.map heap), p.2.layout = (heap p.1).layout := by
      intro p hp
      rw [snd_of_mem_zip_map hp]
    rw [← List.forall₂_map_left_iff (R := fun t a ↦ T.numpy t = .ok a)] at hexport
    rw [run_loadNdarrays hlength (decode_numpy hexport hfits hlength) hfits, writes_self fun p ↦ snd_of_mem_zip_map]

end Torch

end Torch

/-- Tensors that are arrays of numbers, where only the data type is converted. -/
def plainTorch : Torch String (List ℤ) String (List ℤ) where
  numpy t := .ok t
  asTensor dtype a := .ok { a with dtype := dtype }
  asTensor_layout := by
    rintro d a t ⟨⟩
    exact ⟨rfl, rfl⟩
  asTensor_numpy := by
    rintro t a ⟨⟩
    rfl

def oneTensor : Dict String ℕ := Dict.ofList [("weight", 0)]

def ones : ℕ → NdArray String (List ℤ) := fun _ ↦ ⟨"float32", [1], [1]⟩

end SplitFleet.StateLoading
