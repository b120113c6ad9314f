import TopologicalOrder.Family.Random
import TopologicalOrder.Keyed.Import
import TopologicalOrder.Main
import TopologicalOrder.Random.Source
import TopologicalOrder.Search.Journal
import TopologicalOrder.Search.Verify
import TopologicalOrder.Proofs.Reachability
import TopologicalOrder.Proofs.Actions
import TopologicalOrder.Proofs.Moves
import TopologicalOrder.Proofs.Strategies
import TopologicalOrder.Proofs.Observation
import TopologicalOrder.Proofs.Invariant
import TopologicalOrder.Proofs.Outcome
import TopologicalOrder.Proofs.Positions
import TopologicalOrder.Proofs.Verification
import TopologicalOrder.Proofs.TopologicalSort
import TopologicalOrder.Proofs.DepthFirst
import TopologicalOrder.Proofs.Recording
import TopologicalOrder.Proofs.Detection
import TopologicalOrder.Proofs.Replay
import TopologicalOrder.Proofs.Stopping
import TopologicalOrder.Proofs.History
import TopologicalOrder.Proofs.Decimals
import TopologicalOrder.Proofs.EdgeGrammar
import TopologicalOrder.Proofs.EdgeText
import TopologicalOrder.Proofs.Rebuilding
import TopologicalOrder.Proofs.EdgeLists
import TopologicalOrder.Proofs.Verdict
import TopologicalOrder.Proofs.Interning
import TopologicalOrder.Proofs.KeyedHistory
import TopologicalOrder.Proofs.KeyedSort
import TopologicalOrder.Proofs.KeyedAgreement
import TopologicalOrder.Proofs.EdgeListCommand
import TopologicalOrder.Proofs.Thinning
import TopologicalOrder.Proofs.Widening
import TopologicalOrder.Proofs.Refusals
import TopologicalOrder.Proofs.Adjacencies
import TopologicalOrder.Proofs.SufficientOrder
import TopologicalOrder.Proofs.Documents
import TopologicalOrder.Proofs.RandomGraphs
import TopologicalOrder.Proofs.KeyOrders
import TopologicalOrder.Proofs.Numbering
import TopologicalOrder.Proofs.KeyedGrowth
import TopologicalOrder.Proofs.Renaming
import TopologicalOrder.Proofs.Importing
import TopologicalOrder.Proofs.Mirroring
import TopologicalOrder.Proofs.Iterations
import TopologicalOrder.Proofs.ChainsAndCycles
