import Mathlib.Data.Finset.Range
import Mathlib.Data.List.Perm.Subperm
import SplitFleet.VirtualConfig

set_option autoImplicit false

namespace SplitFleet.Virtual

open Lib

/-- `default_rng(client_seed(seed, 0, f"selection:{server_round}")).choice(items, count, replace=False)` -/
structure Selection where
  choice : ℤ → List String → ℕ → List String
  choice_length : ∀ r l n, n ≤ l.length → (choice r l n).length = n
  choice_subperm : ∀ r l n, n ≤ l.length → (choice r l n).Subperm l

structure RoundClients where
  online : List String
  selected : List String
  offline : List String
  notSelected : List String

/-- `VirtualStrategy._identify_clients`. The clients that have registered come with the partition that they answer;
`known` is `client_properties`. -/
def identifyClients (total : ℤ) (known registered : Dict String ℕ) : Except PyError (Dict String ℕ) := do
  require ((registered.size : ℤ) = total) (.runtimeError ("Flower registered a different logical population than " ++
    s!"declared: expected {total}, observed {registered.size}"))
  let pending := registered.entries.filter (·.1 ∉ known.keys)
  let properties := pending.foldl (fun d p ↦ d.insert p.1 p.2) known
  require (properties.values.Nodup ∧ properties.values.toFinset = Finset.range registered.size)
    (.runtimeError "Flower node-to-partition mapping is not bijective")
  return properties

/-- `client_properties[cid]["virtual_partition_id"]` -/
def partitionOf (properties : Dict String ℕ) (cid : String) : ℕ := (properties.get? cid).getD 0

/-- The number of clients that are selected among some that are online. -/
def selectedCount (p : ClientPopulation) (online : ℕ) : ℕ :=
  min online (max 1 ⌈(online : ℚ) * p.participationFraction.value⌉).toNat

/-- `VirtualStrategy.select_fit_clients` -/
def selectFitClients (S : Selection) (c : VirtualConfig) (serverRound : ℤ) (known registered : Dict String ℕ) :
    Except PyError (Dict String ℕ × RoundClients) := do
  let properties ← identifyClients c.virtualClients.total known registered
  let key := partitionOf properties
  let online := sortedBy key (registered.keys.filter fun cid ↦ !c.virtualClients.offlineIn serverRound (key cid))
  let count := selectedCount c.virtualClients online.length
  let selected := if online = [] then [] else sortedBy key (S.choice serverRound online count)
  return (properties, {
    online := online
    selected := selected
    offline := sortedSet (registered.keys.filter (· ∉ online))
    notSelected := sortedSet (online.filter (· ∉ selected)) })

end SplitFleet.Virtual
