import SplitFleet.Lib.Python
import SplitFleet.Lib.Fibre
import SplitFleet.Lib.Lists
import SplitFleet.Tensor
import SplitFleet.StateOwnership
import SplitFleet.Reassembly
import SplitFleet.OwnedAggregation
import SplitFleet.Strategy
import SplitFleet.OwnedEquivalence
import SplitFleet.ServerRounds
import SplitFleet.Publication
import SplitFleet.LeasedManager
import SplitFleet.ReplicaPhases
import SplitFleet.ReplicaHistory
import SplitFleet.ModelConservation
import SplitFleet.Lib.StableSort
import SplitFleet.RequestGroup
import SplitFleet.GroupRouting
import SplitFleet.GroupProgress
import SplitFleet.SuffixService
import SplitFleet.SuffixInvariant
import SplitFleet.SuffixRuns
import SplitFleet.SlotConservation
import SplitFleet.TokenFreshness
import SplitFleet.ReplicaExclusion
import SplitFleet.Lib.Permits
import SplitFleet.StreamProxy
import SplitFleet.TailServer
import SplitFleet.UpdateOnce
import SplitFleet.RoundBookkeeping
import SplitFleet.Lib.FirstMin
import SplitFleet.PlacementPlans
import SplitFleet.Lib.Json
import SplitFleet.Lib.Bytes
import SplitFleet.SameCut
import SplitFleet.Lib.Decoder
import SplitFleet.Envelope
import SplitFleet.EnvelopeTail
import SplitFleet.EnvelopeRoundTrip
import SplitFleet.EnvelopeSoundness
import SplitFleet.BundleWire
import SplitFleet.BundleRoundTrip
import SplitFleet.Feasibility
import SplitFleet.Lib.Method
import SplitFleet.Feedback
import SplitFleet.GreedyPolicy
import SplitFleet.CostTables
import SplitFleet.GreedyChoice
import SplitFleet.Redelivery
import SplitFleet.PolicyPersistence
import SplitFleet.PlanCache
import SplitFleet.PlanCacheNames
import SplitFleet.PlanCacheOrder
import SplitFleet.FedCompass
import SplitFleet.FedCompassGroups
import SplitFleet.FedCompassSchedule
import SplitFleet.FedCompassCalls
import SplitFleet.FedCompassRuns
import SplitFleet.FedCompassReceipts
import SplitFleet.FedCompassConservation
import SplitFleet.Lib.Search
import SplitFleet.OwnershipGraph
import SplitFleet.OwnershipReachability
import SplitFleet.FeasibilityHistory
import SplitFleet.RoundReceipts
import SplitFleet.ObservedRound
import SplitFleet.FeedbackAtomicity
import SplitFleet.FeedbackCalibration
import SplitFleet.Broadcasting
import SplitFleet.ReassemblyLaw
import SplitFleet.Lib.MeanOf
import SplitFleet.OwnedValidation
import SplitFleet.OwnedLaw
import SplitFleet.OwnedEntries
import SplitFleet.OwnedLaw
import SplitFleet.SuffixAccounting
import SplitFleet.Lib.Sampling
import SplitFleet.OortSelector
import SplitFleet.OortSelection
import SplitFleet.OortBlacklist
import SplitFleet.ExecutionSlots
import SplitFleet.ExecutionCounters
import SplitFleet.Lib.Monitor
import SplitFleet.NativeCaptureGate
import SplitFleet.NativeCaptureExclusion
import SplitFleet.PaddleDeviceGate
import SplitFleet.PaddleDeviceLaw
import SplitFleet.OortInvariants
import SplitFleet.Lib.Sweep
import SplitFleet.Lib.Arith
import SplitFleet.TaskConcurrency
import SplitFleet.Lib.Text
import SplitFleet.FeedbackAlgebra
import SplitFleet.Lib.DictOrder
import SplitFleet.LateCalibration
import SplitFleet.LateCalibrationLaw
import SplitFleet.FedCompassAggregate
import SplitFleet.AsyncFL
import SplitFleet.AsyncCommits
import SplitFleet.Lib.Loop
import SplitFleet.Partition
import SplitFleet.PartitionLaw
import SplitFleet.Lib.Digits
import SplitFleet.Lib.Number
import SplitFleet.VirtualConfig
import SplitFleet.VirtualConfig
import SplitFleet.RoundSelection
import SplitFleet.ParticipationBound
import SplitFleet.ScheduleKeys
import SplitFleet.Lib.JsonReader
import SplitFleet.TcpPacing
import SplitFleet.PipelinePump
import SplitFleet.Lib.Dataflow
import SplitFleet.NativeFrontier
import SplitFleet.TimeBudget
import SplitFleet.Lib.Hoare
import SplitFleet.ClientRuntime
import SplitFleet.RuntimeCacheLaw
import SplitFleet.Lib.Pairing
import SplitFleet.TorchClone
import SplitFleet.TorchCloneLaw
import SplitFleet.PrefixContexts
import SplitFleet.PrefixContextLaw
import SplitFleet.Lib.Errors
import SplitFleet.CatalogAdmission
import SplitFleet.CatalogAdmissionLaw
import SplitFleet.Lib.StepArea
import SplitFleet.DetectionMap
import SplitFleet.DetectionMapLaw
import SplitFleet.DetectionMapSound
import SplitFleet.OortZeroWeights
import SplitFleet.AuxiliaryState
import SplitFleet.ReplicaRng
import SplitFleet.Lib.Framing
import SplitFleet.Lib.JsonWriter
import SplitFleet.ModelStateHash
import SplitFleet.Lib.Cells
import SplitFleet.StateLoading
import SplitFleet.Lib.JsonPointer
import SplitFleet.ModelCall
import SplitFleet.BatchAxes
import SplitFleet.Lib.Memory
import SplitFleet.TensorflowForward
import SplitFleet.SuffixFunctionLaw
import SplitFleet.Lib.Double
import SplitFleet.Lib.FloatRepr
import SplitFleet.Lib.JsonDumps
import SplitFleet.Lib.JsonPrefix
import SplitFleet.Lib.JsonSpelling
import SplitFleet.Lib.TextLines
import SplitFleet.EvidenceLog
import SplitFleet.Lib.Coupling
import SplitFleet.VirtualClient
import SplitFleet.VirtualClientScopes
import SplitFleet.VirtualClientRuns
import SplitFleet.Lib.JsonSorted
import SplitFleet.GraphContracts
import SplitFleet.RuntimeContract
import SplitFleet.RuntimeContractLaw
import SplitFleet.ContractTracing
import SplitFleet.SplitSteps
import SplitFleet.SplitStepLaw
import SplitFleet.TaskRegistry
import SplitFleet.DataPartition
import SplitFleet.Segmentation
