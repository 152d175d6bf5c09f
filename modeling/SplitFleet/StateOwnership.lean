import SplitFleet.Lib.Python
import SplitFleet.Tensor

set_option autoImplicit false

namespace SplitFleet.StateOwnership

open Lib

/-- An entry of a manifest's `owners`. The last constructor is any other text. -/
inductive Owner
  | prefixStage | suffixStage | initial
  | unknown (text : String)
  deriving DecidableEq

namespace Owner

def text : Owner → String
  | .prefixStage => "prefix"
  | .suffixStage => "suffix"
  | .initial => "initial"
  | .unknown s => s

def isUnknown : Owner → Bool
  | .unknown _ => true
  | _ => false

end Owner

structure Manifest where
  names : List String
  owners : List Owner
  digest : String
  deriving DecidableEq

inductive IntegerPolicy
  | weightedRound | maximum
  deriving DecidableEq

/-- The positions that `owners` gives to `stage`, in order. -/
def indicesFrom (stage : Owner) : ℕ → List Owner → List ℕ
  | _, [] => []
  | i, o :: os => if o = stage then i :: indicesFrom stage (i + 1) os else indicesFrom stage (i + 1) os

def indices (m : Manifest) (stage : Owner) : List ℕ := indicesFrom stage 0 m.owners

/-- A value whose shape or dtype is not that of the initial tensor at its index. -/
def wrongSchema (initial : List Tensor) (p : ℕ × Tensor) : Bool :=
  match initial[p.1]? with
  | some base => p.2.shape ≠ base.shape || p.2.dtype ≠ base.dtype
  | none => true

def validateOwned (values : List Tensor) (m : Manifest) (stage : Owner) (initial : List Tensor) :
    Except PyError (List (ℕ × Tensor)) :=
  if m.names.length ≠ initial.length ∨ m.owners.length ≠ initial.length ∨ m.owners.any Owner.isUnknown then
    .error (.runtimeError "Incorrect state ownership schema")
  else if values.length ≠ (indices m stage).length then
    .error (.runtimeError ("Incorrect " ++ stage.text ++ " state tensor count"))
  else
    match ((indices m stage).zip values).find? (wrongSchema initial) with
    | some p => .error (.runtimeError ("Incorrect owned state schema for " ++ m.names.getD p.1 ""))
    | none => .ok ((indices m stage).zip values)

structure OwnedUpdate where
  manifest : Manifest
  prefixValues : List Tensor
  suffixValues : List Tensor
  /-- Without a value, an infinity or a NaN. -/
  weight : Option ℚ

/-- `prefix.get(index, suffix.get(index, initial[index]))`. -/
def ownedValue (front back : List (ℕ × Tensor)) (i : ℕ) (base : Tensor) : Tensor :=
  (Dict.lookup front i).getD ((Dict.lookup back i).getD base)

def ownedValues (front back : List (ℕ × Tensor)) (initial : List Tensor) : List Tensor :=
  initial.mapIdx (ownedValue front back)

/-- The branch of the integer policy that keeps an elementwise maximum. -/
def takesMaximum (policy : IntegerPolicy) (base : Tensor) : Bool :=
  policy = .maximum && !base.dtype.inexact

def accumulatorDType (policy : IntegerPolicy) (base : Tensor) : DType :=
  if base.dtype.inexact || policy = .maximum then base.dtype else .float64

/-- The accumulator of one position after the first update. -/
def startAccumulator (policy : IntegerPolicy) (w : ℚ) (base value : Tensor) : Tensor :=
  if takesMaximum policy base then { value with dtype := base.dtype }
  else value.mapTo (accumulatorDType policy base) (· * w)

/-- The accumulator of one position after a later update. -/
def stepAccumulator (policy : IntegerPolicy) (w : ℚ) (base value acc : Tensor) : Tensor :=
  if takesMaximum policy base then acc.maximum value
  else acc.add (value.mapTo acc.dtype (· * w))

def startAll (policy : IntegerPolicy) (w : ℚ) (initial values : List Tensor) : List Tensor :=
  List.zipWith (startAccumulator policy w) initial values

def stepAll (policy : IntegerPolicy) (w : ℚ) :
    (initial values result : List Tensor) → List Tensor
  | b :: bs, v :: vs, a :: accs => stepAccumulator policy w b v a :: stepAll policy w bs vs accs
  | _, _, _ => []

/-- `np.isfinite(weight)`, and positive. -/
def finitePositive (weight : Option ℚ) : Except PyError ℚ :=
  match weight with
  | some w => if w ≤ 0 then .error (.runtimeError "State aggregation requires finite positive weights") else .ok w
  | none => .error (.runtimeError "State aggregation requires finite positive weights")

theorem finitePositive_eq_ok_iff {weight : Option ℚ} {w : ℚ} :
    finitePositive weight = .ok w ↔ weight = some w ∧ 0 < w := by
  cases weight with
  | none => exact iff_of_false (by rintro ⟨⟩) (by rintro ⟨⟨⟩, -⟩)
  | some q =>
    rw [finitePositive]
    split_ifs with hq
    · refine iff_of_false (by rintro ⟨⟩) ?_
      rintro ⟨h, hw⟩
      cases h
      exact absurd hq (not_le.mpr hw)
    · constructor
      · intro h
        cases h
        exact ⟨rfl, not_le.mp hq⟩
      · rintro ⟨h, -⟩
        cases h
        rfl

/-- One turn of the loop over `updates`; the state is `result` with `total`. -/
def aggregateStep (policy : IntegerPolicy) (initial : List Tensor)
    (state : Option (List Tensor) × ℚ) (u : OwnedUpdate) :
    Except PyError (Option (List Tensor) × ℚ) := do
  let front ← validateOwned u.prefixValues u.manifest .prefixStage initial
  let back ← validateOwned u.suffixValues u.manifest .suffixStage initial
  let w ← finitePositive u.weight
  let values := ownedValues front back initial
  match state.1 with
  | none => .ok (some (startAll policy w initial values), state.2 + w)
  | some result => .ok (some (stepAll policy w initial values result), state.2 + w)

/-- The division, the rounding and the final `astype` of one position. -/
def finishAccumulator (policy : IntegerPolicy) (total : ℚ) (base acc : Tensor) : Tensor :=
  if takesMaximum policy base then acc.astype base.dtype
  else
    let mean := acc.mapTo acc.dtype (· / total)
    if base.dtype.inexact then mean.astype base.dtype
    else (mean.mapTo mean.dtype (fun q ↦ Tensor.rint q)).astype base.dtype

def aggregateOwned (initial : List Tensor) (updates : List OwnedUpdate) (policy : IntegerPolicy) :
    Except PyError (List Tensor) := do
  let state ← updates.foldlM (aggregateStep policy initial) (none, 0)
  match state.1 with
  | none => .error (.runtimeError "No matching prefix/suffix update")
  | some result => .ok (List.zipWith (finishAccumulator policy state.2) initial result)

/-! ### What validation accepts -/

/-- The tensors of a full state that a stage owns, in order. -/
def slice (stage : Owner) : List Owner → List Tensor → List Tensor
  | o :: os, x :: xs => if o = stage then x :: slice stage os xs else slice stage os xs
  | _, _ => []

def SameSchema (x y : Tensor) : Prop := x.shape = y.shape ∧ x.dtype = y.dtype

theorem slice_length (stage : Owner) (i : ℕ) {os : List Owner} {xs : List Tensor}
    (h : os.length = xs.length) : (slice stage os xs).length = (indicesFrom stage i os).length := by
  induction os generalizing xs i with
  | nil => simp [slice, indicesFrom]
  | cons o os ih =>
    cases xs with
    | nil => simp at h
    | cons x xs =>
      have hl := @ih (i + 1) xs (by simpa using h)
      by_cases ho : o = stage <;> simp [slice, indicesFrom, ho, hl]

theorem lt_of_mem_indicesFrom {stage : Owner} {i j : ℕ} {os : List Owner}
    (h : j ∈ indicesFrom stage i os) : i ≤ j := by
  induction os generalizing i with
  | nil => simp [indicesFrom] at h
  | cons o os ih =>
    by_cases ho : o = stage
    · rcases List.mem_cons.mp (by simpa [indicesFrom, ho] using h) with rfl | h
      · exact le_rfl
      · exact (Nat.le_succ i).trans (ih h)
    · exact (Nat.le_succ i).trans (ih (by simpa [indicesFrom, ho] using h))

theorem lookup_zip_none {stage : Owner} {i j : ℕ} {os : List Owner} (values : List Tensor)
    (h : j < i) : Dict.lookup ((indicesFrom stage i os).zip values) j = none := by
  rw [Dict.lookup_eq_none_iff]
  intro hm
  obtain ⟨p, hp, rfl⟩ := List.mem_map.mp hm
  have hi := lt_of_mem_indicesFrom (List.of_mem_zip hp).1
  omega

/-- A slice, looked up by position, gives back the full state where the stage owns it and
nothing elsewhere. -/
theorem lookup_slice (stage : Owner) {os : List Owner} {xs : List Tensor}
    (h : os.length = xs.length) (i k : ℕ) :
    Dict.lookup ((indicesFrom stage i os).zip (slice stage os xs)) (i + k) =
      if os[k]? = some stage then xs[k]? else none := by
  induction os generalizing xs i k with
  | nil => simp [indicesFrom, Dict.lookup]
  | cons o os ih =>
    cases xs with
    | nil => simp at h
    | cons x xs =>
      have hl : os.length = xs.length := by simpa using h
      cases k with
      | zero =>
        by_cases ho : o = stage
        · simp [indicesFrom, slice, ho, Dict.lookup]
        · simpa [indicesFrom, slice, ho] using lookup_zip_none _ (Nat.lt_succ_self i)
      | succ k =>
        have hk := ih hl (i + 1) k
        rw [Nat.add_right_comm, Nat.add_assoc] at hk
        by_cases ho : o = stage
        · simpa [indicesFrom, slice, ho, Dict.lookup] using hk
        · simpa [indicesFrom, slice, ho] using hk

theorem getElem?_of_mem_zip_slice {stage : Owner} {os : List Owner} {xs : List Tensor} {i : ℕ}
    {p : ℕ × Tensor} (h : p ∈ (indicesFrom stage i os).zip (slice stage os xs)) :
    ∃ k, p.1 = i + k ∧ xs[k]? = some p.2 := by
  induction os generalizing xs i with
  | nil => simp [indicesFrom] at h
  | cons o os ih =>
    cases xs with
    | nil => simp [slice] at h
    | cons x xs =>
      by_cases ho : o = stage
      · rcases List.mem_cons.mp (by simpa [indicesFrom, slice, ho] using h) with rfl | h
        · exact ⟨0, rfl, rfl⟩
        · obtain ⟨k, hk, hx⟩ := ih h
          exact ⟨k + 1, by omega, by simpa using hx⟩
      · obtain ⟨k, hk, hx⟩ := ih (by simpa [indicesFrom, slice, ho] using h)
        exact ⟨k + 1, by omega, by simpa using hx⟩

/-- The slice of a state with the initial schema passes validation. -/
theorem validateOwned_slice {m : Manifest} {stage : Owner} {initial xs : List Tensor}
    (hn : m.names.length = initial.length) (ho : m.owners.length = initial.length)
    (hu : m.owners.any Owner.isUnknown = false) (hs : List.Forall₂ SameSchema xs initial) :
    validateOwned (slice stage m.owners xs) m stage initial =
      .ok ((indices m stage).zip (slice stage m.owners xs)) := by
  have hl : m.owners.length = xs.length := ho.trans hs.length_eq.symm
  have hf : ((indices m stage).zip (slice stage m.owners xs)).find? (wrongSchema initial) = none := by
    rw [List.find?_eq_none]
    intro p hp
    obtain ⟨k, hk, hx⟩ := getElem?_of_mem_zip_slice hp
    obtain ⟨hkx, hxk⟩ := List.getElem?_eq_some_iff.mp hx
    have hki : k < initial.length := hs.length_eq ▸ hkx
    have hb := hs.get hkx hki
    simp only [List.get_eq_getElem, hxk] at hb
    have hp1 : p.1 = k := by omega
    simp [wrongSchema, hp1, hki, hb.1, hb.2]
  have hc : ¬ (slice stage m.owners xs).length ≠ (indices m stage).length :=
    not_not.mpr (slice_length stage 0 hl)
  simp only [validateOwned, hn, ho, hu, hc, hf, ne_eq, not_true_eq_false, Bool.false_eq_true, or_self,
    if_false]

end SplitFleet.StateOwnership
