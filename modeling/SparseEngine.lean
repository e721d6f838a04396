import SparseEngine.PrefixIndex.Routing
import SparseEngine.DataParallel.Runs
import SparseEngine.ChainCache.Capacity
import SparseEngine.ChainCache.Ownership
import SparseEngine.AsyncScheduling.Refinement
import SparseEngine.DecodeWindow.Costs
import SparseEngine.PrefillScoring.Scores
import SparseEngine.DecodeWindow.Reservations
import SparseEngine.ChainCache.Admission
import SparseEngine.Scheduler.Affinity
import SparseEngine.PrefixIndex.ExactDemotion
import SparseEngine.QuantizedPages.Runs
import SparseEngine.RecurrentState.Runs
import SparseEngine.PrefixIndex.ExactDeletion
import SparseEngine.Materialization.Boundaries
import SparseEngine.SlotTables.BatchedAllocation
import SparseEngine.SlotTables.CompactionPaths
import SparseEngine.PrefixIndex.RoutingHistory
import SparseEngine.CudaGraph.CapturePlan
import SparseEngine.RawKVOffload.Interchange
import SparseEngine.Responses.Comparison
import SparseEngine.KVzip.Reconstruction
import SparseEngine.Dispatcher.StopStrings
