import JavaSmith.Main
import JavaSmith.Stats
import JavaSmith.Proofs.Recursion
import JavaSmith.Proofs.Execution
import JavaSmith.Proofs.CallSites
import JavaSmith.Proofs.Shapes
import JavaSmith.Proofs.Unambiguity
import JavaSmith.Proofs.Termination
import JavaSmith.Proofs.LoopNests
import JavaSmith.Proofs.Flows
import JavaSmith.Proofs.Overloads
import JavaSmith.Proofs.NullSafety
import JavaSmith.Proofs.WellScoped
import JavaSmith.Proofs.Loops
import JavaSmith.Proofs.Independence
import JavaSmith.Proofs.Callable
import JavaSmith.Proofs.Construction
import JavaSmith.Proofs.DomainSets
import JavaSmith.Proofs.Builders
import JavaSmith.Proofs.ReadBack
import JavaSmith.Proofs.Rerun
import JavaSmith.Proofs.Returns
import JavaSmith.Proofs.DepthCap
import JavaSmith.Proofs.Bindings
import JavaSmith.Proofs.Forests
import JavaSmith.Proofs.PrintOnly
import JavaSmith.Proofs.Traversals
import JavaSmith.Proofs.IntegerDraws
import JavaSmith.Proofs.ArrayTypes
import JavaSmith.Proofs.OpenBlocks
