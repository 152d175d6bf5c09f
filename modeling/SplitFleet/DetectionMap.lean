import SplitFleet.Lib.Python
import SplitFleet.Lib.StepArea

set_option autoImplicit false

namespace SplitFleet.DetectionMap

open Lib

structure Box where
  x1 : ℚ
  y1 : ℚ
  x2 : ℚ
  y2 : ℚ
  deriving DecidableEq, Inhabited

/-- The ground truth of an image. -/
structure Target where
  boxes : List Box
  labels : List ℤ
  difficult : Option (List Bool)

/-- The predictions of an image. -/
structure Prediction where
  boxes : List Box
  labels : List ℤ
  scores : List ℚ

inductive ApMode
  | allPoint | voc07ElevenPoint
  deriving DecidableEq

/-! ### Overlaps -/

def Box.area (b : Box) : ℚ := max 0 (b.x2 - b.x1) * max 0 (b.y2 - b.y1)

def Box.intersection (a b : Box) : ℚ :=
  max 0 (min a.x2 b.x2 - max a.x1 b.x1) * max 0 (min a.y2 b.y2 - max a.y1 b.y1)

/-- `_box_iou`, for one of the boxes. -/
def Box.iou (a b : Box) : ℚ :=
  if 0 < a.area + b.area - a.intersection b then a.intersection b / (a.area + b.area - a.intersection b) else 0

def boxIou (box : Box) (boxes : List Box) : List ℚ := boxes.map box.iou

/-- `np.argmax`: the place of the first of the greatest values. -/
def argmax (values : List ℚ) : ℕ := values.findIdx fun v ↦ ∀ w ∈ values, w ≤ v

/-! ### Records -/

/-- `_validate_detection_record` of a target. -/
def validateTarget (record : Target) : Except PyError Unit := do
  require (record.boxes.length = record.labels.length)
    (.valueError "Detection boxes and labels must contain the same number of objects.")
  require (∀ flags ∈ record.difficult, flags.length = record.boxes.length)
    (.valueError "Detection difficult flags must contain one value per ground-truth box.")

/-- `_validate_detection_record` of a prediction. -/
def validatePrediction (record : Prediction) : Except PyError Unit := do
  require (record.boxes.length = record.labels.length)
    (.valueError "Detection boxes and labels must contain the same number of objects.")
  require (record.scores.length = record.boxes.length)
    (.valueError "Detection scores must contain one value per predicted box.")

/-- `values[labels == label]` -/
def select {α : Type} (label : ℤ) (labels : List ℤ) (values : List α) : List α :=
  ((labels.zip values).filter (·.1 = label)).map Prod.snd

def Target.flags (record : Target) : List Bool := record.difficult.getD (List.replicate record.labels.length false)

/-- The boxes of a class in an image, with their difficult flags. -/
def Target.candidates (label : ℤ) (record : Target) : List (Box × Bool) :=
  select label record.labels (record.boxes.zip record.flags)

/-- A prediction of the class with its image. -/
structure Ranked where
  score : ℚ
  image : ℕ
  box : Box

def Prediction.ofClass (label : ℤ) (record : Prediction) (image : ℕ) : List Ranked :=
  (select label record.labels (record.scores.zip record.boxes)).map fun p ↦ ⟨p.1, image, p.2⟩

/-- `ranked`, before and after the stable sort by descending score. -/
def collected (label : ℤ) (predictions : List Prediction) : List Ranked :=
  predictions.zipIdx.flatMap fun p ↦ p.1.ofClass label p.2

def ranked (label : ℤ) (predictions : List Prediction) : List Ranked :=
  (collected label predictions).insertionSort fun a b ↦ b.score ≤ a.score

/-! ### Matching -/

inductive Outcome
  | truePositive (image best : ℕ)
  | falsePositive
  | ignored

/-- One turn of the loop: `ground` has the candidates of each image, and `matched` the flags that are set. -/
def assessOne (threshold : ℚ) (ground : List (List (Box × Bool))) (matched : List (ℕ × ℕ)) (p : Ranked) : Outcome :=
  let candidates := ground.getD p.image []
  let overlaps := boxIou p.box (candidates.map Prod.fst)
  let best := argmax overlaps
  if candidates = [] then .falsePositive
  else if threshold ≤ overlaps.getD best 0 ∧ (candidates.map Prod.snd).getD best false = true then .ignored
  else if threshold ≤ overlaps.getD best 0 ∧ (p.image, best) ∉ matched then .truePositive p.image best
  else .falsePositive

/-- `matched[image_index][best] = True` -/
def Outcome.mark (matched : List (ℕ × ℕ)) : Outcome → List (ℕ × ℕ)
  | .truePositive image best => (image, best) :: matched
  | _ => matched

def assess (threshold : ℚ) (ground : List (List (Box × Bool))) : List (ℕ × ℕ) → List Ranked → List Outcome
  | _, [] => []
  | matched, p :: rest =>
    let o := assessOne threshold ground matched p
    o :: assess threshold ground (o.mark matched) rest

/-! ### Curves -/

def Outcome.isTrue : Outcome → ℕ
  | .truePositive _ _ => 1
  | _ => 0

def Outcome.isFalse : Outcome → ℕ
  | .falsePositive => 1
  | _ => 0

/-- `(recall, precision)` -/
def point (total tp fp : ℕ) : ℚ × ℚ := (tp / total, if 0 < tp + fp then tp / (tp + fp : ℕ) else 0)

/-- The points of the cumulative sums. -/
def curve (total : ℕ) : ℕ → ℕ → List Outcome → List (ℚ × ℚ)
  | _, _, [] => []
  | tp, fp, o :: outcomes =>
    point total (tp + o.isTrue) (fp + o.isFalse) :: curve total (tp + o.isTrue) (fp + o.isFalse) outcomes

/-- The greatest precision at a recall of the level or more. -/
def precisionAt (points : List (ℚ × ℚ)) (level : ℚ) : ℚ :=
  ((points.filter (level ≤ ·.1)).map Prod.snd).max?.getD 0

/-- `np.mean` -/
def mean (values : List ℚ) : ℚ := values.sum / values.length

def averagePrecision (mode : ApMode) (points : List (ℚ × ℚ)) : ℚ :=
  match mode with
  | .voc07ElevenPoint => mean ((List.range 11).map fun i : ℕ ↦ precisionAt points (i / 10))
  | .allPoint => stepSum (0 :: points.map Prod.fst ++ [1]) (envelope (0 :: points.map Prod.snd ++ [0]))

/-! ### The metric -/

def groundTruth (label : ℤ) (targets : List Target) : List (List (Box × Bool)) := targets.map (·.candidates label)

/-- `total_ground_truth` -/
def totalGroundTruth (label : ℤ) (targets : List Target) : ℕ :=
  ((groundTruth label targets).map fun candidates ↦ candidates.countP (·.2 = false)).sum

def outcomes (threshold : ℚ) (label : ℤ) (targets : List Target) (predictions : List Prediction) : List Outcome :=
  assess threshold (groundTruth label targets) [] (ranked label predictions)

def classPrecision (threshold : ℚ) (mode : ApMode) (targets : List Target) (predictions : List Prediction)
    (label : ℤ) : Option ℚ :=
  if totalGroundTruth label targets = 0 then none
  else some (averagePrecision mode (curve (totalGroundTruth label targets) 0 0
    (outcomes threshold label targets predictions)))

def classes (targets : List Target) : List ℤ := (targets.flatMap (·.labels)).dedup.insertionSort (· ≤ ·)

def detectionMap (threshold : ℚ) (mode : ApMode) (targets : List Target) (predictions : List Prediction) :
    Except PyError ℚ := do
  require (0 < threshold ∧ threshold ≤ 1) (.valueError "iou_threshold must be in (0, 1].")
  require (targets ≠ [] ∧ targets.length = predictions.length)
    (.valueError "Detection targets and predictions must be non-empty and aligned by image.")
  targets.forM validateTarget
  predictions.forM validatePrediction
  require (classes targets ≠ []) (.valueError "Detection mAP requires at least one ground-truth object.")
  let precisions := (classes targets).filterMap (classPrecision threshold mode targets predictions)
  require (precisions ≠ []) (.valueError "Detection mAP requires at least one non-difficult ground-truth object.")
  return mean precisions

end SplitFleet.DetectionMap
