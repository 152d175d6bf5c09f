import Mathlib.Data.Fintype.Basic
import Mathlib.Data.List.FinRange
import Mathlib.Data.Rat.Init
import SplitFleet.Lib.FirstMin
import SplitFleet.Lib.Loop
import SplitFleet.Lib.Sorting

set_option autoImplicit false

namespace SplitFleet.Partition

open Lib

/-- The indices of each client. The key of the client `i` is `str(i)`. -/
abbrev Parts (k : ℕ) := Fin k → List ℕ

/-- What is drawn from the random generator: the split points of every class, and the shuffles at the end. -/
structure Draws (k : ℕ) where
  splitPoints : ℤ → List ℕ
  shuffle : Fin k → List ℕ → List ℕ
  splitPoints_length : ∀ label, (splitPoints label).length = k - 1
  splitPoints_sorted : ∀ label, (splitPoints label).Pairwise (· ≤ ·)
  shuffle_perm : ∀ i l, (shuffle i l).Perm l

/-- `max(items, key=key)`, the first of the largest. -/
def firstMax {α κ : Type} [LinearOrder κ] (key : α → κ) (l : List α) : Option α :=
  firstMin (fun a b ↦ decide (key b < key a)) l

variable {k : ℕ} (labels : List ℤ)

/-- `int(labels[index])` -/
def labelOf (index : ℕ) : ℤ := labels.getD index 0

/-- `sorted(set(labels.tolist()))` -/
def classes : List ℤ := sortedSet labels

/-- `np.flatnonzero(labels == label)` -/
def indicesOf (label : ℤ) : List ℕ := (List.range labels.length).filter (labelOf labels · = label)

/-- `np.split(indices, points)`, from the index `start` on. -/
def npSplit (indices : List ℕ) : ℕ → List ℕ → List (List ℕ)
  | start, [] => [indices.drop start]
  | start, point :: points => (indices.take point).drop start :: npSplit indices point points

/-- The pieces of a class are dealt to the clients. -/
def deal (draws : Draws k) (a : Parts k) (label : ℤ) : Parts k := fun i ↦
  a i ++ (npSplit (indicesOf labels label) 0 (draws.splitPoints label)).getD i []

/-! ### The minimum size -/

/-- `source.remove(index); destination.append(index)` -/
def move (a : Parts k) (donor recipient : Fin k) (index : ℕ) : Parts k :=
  Function.update (Function.update a donor ((a donor).erase index)) recipient
    (Function.update a donor ((a donor).erase index) recipient ++ [index])

/-- `Counter(int(labels[index]) for index in source)[label]` -/
def countIn (source : List ℕ) (label : ℤ) : ℕ := source.countP (labelOf labels · = label)

/-- A class that the recipient lacks goes first, then the largest class of the donor, then the smallest index. -/
def rank (present source : List ℕ) (index : ℕ) : Bool ×ₗ ℕ ×ₗ ℤ :=
  toLex (decide (labelOf labels index ∉ present.map (labelOf labels)),
    toLex (countIn labels source (labelOf labels index), -(index : ℤ)))

/-- One turn of the `while` loop. -/
def give (recipient : Fin k) (a : Parts k) : Except PyError (Parts k) :=
  match firstMax (fun i ↦ (a i).length) (List.finRange k) with
  | none => .error (.valueError "max() arg is an empty sequence")
  | some donor =>
    match firstMax (rank labels (a recipient) (a donor)) (a donor) with
    | none => .error (.valueError "max() arg is an empty sequence")
    | some chosen => .ok (move a donor recipient chosen)

def fill (minimum fuel : ℕ) (recipient : Fin k) (a : Parts k) : Option (Except PyError (Parts k)) :=
  whileLoop (fun a ↦ decide ((a recipient).length < minimum)) (give labels recipient) fuel a

/-- The first loop of `_enforce_minimum_partition_size`. -/
def fillAll (minimum fuel : ℕ) (a : Parts k) : Option (Except PyError (Parts k)) :=
  forLoop (fill labels minimum fuel) (List.finRange k) a

/-! ### Shared classes -/

def holds (a : Parts k) (label : ℤ) (i : Fin k) : Bool := (a i).any (labelOf labels · = label)

/-- `source.remove(chosen); destination.remove(swap); source.append(swap); destination.append(chosen)` -/
def exchange (a : Parts k) (donor recipient : Fin k) (chosen swap : ℕ) : Parts k :=
  Function.update (Function.update a donor ((a donor).erase chosen ++ [swap])) recipient
    ((a recipient).erase swap ++ [chosen])

/-- A sample that the recipient can spare, or of a class that the donor lacks. -/
def swapOf (a : Parts k) (donor recipient : Fin k) : Option ℕ := (a recipient).find? fun index ↦
  decide (1 < countIn labels (a recipient) (labelOf labels index) ∨
    labelOf labels index ∉ (a donor).map (labelOf labels))

/-- The loop over the recipients, which ends with the first that takes the sample. -/
def shareWith (minimum : ℕ) (donor : Fin k) (chosen : ℕ) (a : Parts k) : List (Fin k) → Parts k
  | [] => a
  | recipient :: rest =>
    if recipient = donor then shareWith minimum donor chosen a rest
    else if minimum < (a donor).length then move a donor recipient chosen
    else
      match swapOf labels a donor recipient with
      | some swap => exchange a donor recipient chosen swap
      | none => shareWith minimum donor chosen a rest

/-- A class that one client holds alone is shared, where it has two samples. -/
def shareClass (minimum : ℕ) (a : Parts k) (label : ℤ) : Parts k :=
  match (List.finRange k).filter (holds labels a label) with
  | [donor] =>
    if (indicesOf labels label).length < 2 then a
    else
      match (a donor).find? (labelOf labels · = label) with
      | some chosen => shareWith labels minimum donor chosen a (List.finRange k)
      | none => a
  | _ => a

/-- The second loop of `_enforce_minimum_partition_size`, over some of the classes. -/
def shareClasses (minimum : ℕ) (a : Parts k) (l : List ℤ) : Parts k := l.foldl (shareClass labels minimum) a

def enforceMinimumPartitionSize (minimum fuel : ℕ) (a : Parts k) : Option (Except PyError (Parts k)) :=
  (fillAll labels minimum fuel a).map fun r ↦ r.map fun b ↦ shareClasses labels minimum b (classes labels)

/-- `min(len(indices) for indices in assignments.values()) < minimum` -/
def tooSmall (a : Parts k) (minimum : ℕ) : Bool := decide (∃ i, (a i).length < minimum)

def dirichletPartition (numClients : ℕ) (alpha : ℚ) (minPartitionSize : ℤ) (draws : Draws numClients) (fuel : ℕ) :
    Option (Except PyError (Parts numClients)) :=
  if numClients < 2 ∨ alpha ≤ 0 then
    some (.error (.valueError "Dirichlet partition requires num_clients >= 2 and alpha > 0."))
  else if minPartitionSize < 1 then some (.error (.valueError "min_partition_size must be positive."))
  else if labels.length < numClients then
    some (.error (.valueError "The dataset must contain at least one sample per client."))
  else
    let minimum := (min minPartitionSize (labels.length / numClients : ℕ)).toNat
    let dealt := (classes labels).foldl (deal labels draws) fun _ ↦ []
    let enforced := if tooSmall dealt minimum then enforceMinimumPartitionSize labels minimum fuel dealt
      else some (.ok dealt)
    enforced.map fun r ↦ r.map fun b i ↦ draws.shuffle i (b i)

end SplitFleet.Partition
